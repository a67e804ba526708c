import StackMachine.Proofs.Assembly.Appearance
import StackMachine.Proofs.Assembly.Emission
import StackMachine.Proofs.Assembly.Parsing
import StackMachine.Proofs.Assembly.Spans

set_option autoImplicit false

namespace StackMachine

variable {related : Span → Span → Prop} {version : Version}

structure Label.Alike (related : Span → Span → Prop) (a b : String × Label) : Prop where
  name : a.1 = b.1
  offset : a.2.offset = b.2.offset
  span : related a.2.span b.2.span

structure LabelPass.Alike (related : Span → Span → Prop) (a b : LabelPass) : Prop where
  labels : List.Forall₂ (Label.Alike related) a.labels.entries b.labels.entries
  diagnostics : List.Forall₂ (Diagnostic.Alike related) a.diagnostics b.diagnostics

structure Encoded.Alike (related : Span → Span → Prop) (a b : Encoded) : Prop where
  bytes : a.bytes = b.bytes
  diagnostics : List.Forall₂ (Diagnostic.Alike related) a.diagnostics b.diagnostics

theorem Statement.Alike.size {a b : Statement} (alike : a.Alike related b) :
    a.size version = b.size version := by
  rcases a with ⟨first, kind⟩
  rcases b with ⟨second, other⟩
  cases alike.kind <;> rfl

namespace LabelTable

variable {a b : LabelTable}

theorem alike_get? (alike : List.Forall₂ (Label.Alike related) a.entries b.entries)
    (name : String) :
    Option.Rel (fun first second : Label => first.offset = second.offset ∧
      related first.span second.span) (a.get? name) (b.get? name) := by
  rcases a with ⟨entries⟩
  rcases b with ⟨others⟩
  simp only at alike
  induction alike with
  | nil => exact .none
  | @cons first second _ _ head _ ih =>
    obtain ⟨entered, label⟩ := first
    obtain ⟨other, label'⟩ := second
    obtain ⟨rfl, offset, span⟩ := head
    by_cases same : name = entered
    · subst same
      simpa [get?] using ⟨offset, span⟩
    · have differs := beq_eq_false_iff_ne.mpr same
      simpa [get?, List.lookup_cons, differs] using ih

theorem resolve?_of_alike (alike : List.Forall₂ (Label.Alike related) a.entries b.entries)
    (name : String) : a.resolve? name = b.resolve? name := by
  have found := alike_get? alike name
  simp only [resolve?]
  generalize a.get? name = first, b.get? name = second at found
  cases found with
  | none => rfl
  | some both => simp [both.1]

end LabelTable

namespace LabelPass

theorem alike_declare {a b : LabelTable}
    (labels : List.Forall₂ (Label.Alike related) a.entries b.entries) (name : String)
    (offset : Nat) {first second : Span} (span : related first second) :
    Alike related (declare a name offset first) (declare b name offset second) := by
  have found := LabelTable.alike_get? labels name
  simp only [declare]
  split
  next => exact ⟨labels, .cons (Diagnostic.alike_of _ _ span) .nil⟩
  next =>
    simp only [LabelTable.declare]
    generalize a.get? name = known, b.get? name = known' at found
    cases found with
    | none => exact ⟨List.rel_append labels (.cons ⟨rfl, rfl, span⟩ .nil), .nil⟩
    | some both => exact ⟨labels, .cons ⟨rfl, span, rfl, .cons ⟨rfl, both.2⟩ .nil⟩ .nil⟩

theorem alike_ofStatement {a b : LabelTable} {first second : Statement}
    (labels : List.Forall₂ (Label.Alike related) a.entries b.entries) (offset : Nat)
    (alike : first.Alike related second) :
    Alike related (ofStatement a offset first) (ofStatement b offset second) := by
  rcases first with ⟨span, kind⟩
  rcases second with ⟨other, same⟩
  obtain ⟨spans, kinds⟩ := alike
  cases kinds with
  | label name => exact alike_declare labels name offset spans
  | instruction | branch => exact ⟨labels, .nil⟩

theorem alike_continueFrom (version : Version) {a b : LabelTable} {left right : List Statement}
    (labels : List.Forall₂ (Label.Alike related) a.entries b.entries) (offset : Nat)
    (statements : List.Forall₂ (Statement.Alike related) left right) :
    Alike related (LabelPass.continueFrom version a offset left)
      (LabelPass.continueFrom version b offset right) := by
  induction statements generalizing a b offset with
  | nil => exact ⟨labels, .nil⟩
  | cons head _ ih =>
    have here := alike_ofStatement labels offset head
    simp only [LabelPass.continueFrom, head.size]
    exact ⟨(ih here.labels _).labels,
      List.rel_append here.diagnostics (ih here.labels _).diagnostics⟩

end LabelPass

namespace Encoded

theorem alike_ofInstruction (version : Version) (i : Instruction) {first second : Span}
    (span : related first second) :
    Alike related (ofInstruction version first i) (ofInstruction version second i) := by
  unfold ofInstruction
  split
  next => exact ⟨rfl, .nil⟩
  next => exact ⟨rfl, .cons (Diagnostic.alike_of _ _ span) .nil⟩

theorem alike_ofStatement (version : Version) {a b : LabelTable} {first second : Statement}
    (labels : List.Forall₂ (Label.Alike related) a.entries b.entries)
    (alike : first.Alike related second) :
    Alike related (ofStatement version a first) (ofStatement version b second) := by
  rcases first with ⟨span, kind⟩
  rcases second with ⟨other, same⟩
  obtain ⟨spans, kinds⟩ := alike
  cases kinds with
  | label name => exact ⟨rfl, .nil⟩
  | instruction i => exact alike_ofInstruction version i spans
  | branch op name nameSpans =>
    have resolved := LabelTable.resolve?_of_alike labels name
    simp only [ofStatement, resolved]
    split
    next => exact alike_ofInstruction version _ spans
    next =>
      have placeholder := alike_ofInstruction version (.branch op 0) spans
      exact ⟨placeholder.bytes, .cons (Diagnostic.alike_of _ _ nameSpans) placeholder.diagnostics⟩

end Encoded

theorem alike_encode (version : Version) {a b : LabelTable} {left right : List Statement}
    (labels : List.Forall₂ (Label.Alike related) a.entries b.entries)
    (statements : List.Forall₂ (Statement.Alike related) left right) :
    Encoded.Alike related (encode version a left) (encode version b right) := by
  induction statements with
  | nil => exact ⟨rfl, .nil⟩
  | cons head _ ih =>
    have here := Encoded.alike_ofStatement version labels head
    exact ⟨congrArg₂ (· ++ ·) here.bytes ih.bytes,
      List.rel_append here.diagnostics ih.diagnostics⟩

namespace SinglePass

theorem alike_continueFrom (version : Version) {a b : LabelTable} {left right : List Statement}
    (labels : List.Forall₂ (Label.Alike related) a.entries b.entries) (offset : Nat)
    (statements : List.Forall₂ (Statement.Alike related) left right) :
    let first := SinglePass.continueFrom version a offset left
    let second := SinglePass.continueFrom version b offset right
    List.Forall₂ (Label.Alike related) first.labels.entries second.labels.entries ∧
      first.encoded.Alike related second.encoded := by
  induction statements generalizing a b offset with
  | nil => exact ⟨labels, rfl, .nil⟩
  | cons head _ ih =>
    have declared := LabelPass.alike_ofStatement labels offset head
    have here := Encoded.alike_ofStatement version labels head
    simp only [SinglePass.continueFrom, here.bytes]
    obtain ⟨table, below⟩ := ih declared.labels (offset + _)
    refine ⟨table, congrArg (_ ++ ·) below.bytes, ?_⟩
    exact List.rel_append (List.rel_append declared.diagnostics here.diagnostics) below.diagnostics

end SinglePass

structure Emitted.Alike (related : Span → Span → Prop) (a b : Emitted) : Prop where
  labels : List.Forall₂ (Label.Alike related) a.labels.entries b.labels.entries
  bytes : a.bytes = b.bytes
  diagnostics : List.Forall₂ (Diagnostic.Alike related) a.diagnostics b.diagnostics

theorem Emitted.alike_ofStatements (version : Version) (pipeline : Pipeline)
    {left right : List Statement}
    (statements : List.Forall₂ (Statement.Alike related) left right) :
    Alike related (ofStatements version pipeline left) (ofStatements version pipeline right) := by
  have none : List.Forall₂ (Label.Alike related) LabelTable.empty.entries
      LabelTable.empty.entries := .nil
  cases pipeline with
  | twoPass =>
    have pass := LabelPass.alike_continueFrom version none 0 statements
    have encoded := alike_encode version pass.labels statements
    exact ⟨pass.labels, encoded.bytes, List.rel_append pass.diagnostics encoded.diagnostics⟩
  | singlePass =>
    obtain ⟨labels, encoded⟩ := SinglePass.alike_continueFrom version none 0 statements
    exact ⟨labels, encoded.bytes, encoded.diagnostics⟩

def outcome (result : Except (List Diagnostic) Assembly) :
    Except (List (DiagnosticKind × String)) (Program × List (String × UInt32)) :=
  match result with
  | .ok assembly =>
    .ok (assembly.program, assembly.labels.entries.map fun entry => (entry.1, entry.2.offset))
  | .error diagnostics => .error (diagnostics.map fun d => (d.kind, d.message))

theorem Diagnostic.Alike.message {a b : Diagnostic} (alike : a.Alike related b) :
    a.message = b.message := by
  rw [Diagnostic.message, Diagnostic.message, alike.kind, alike.detail]

theorem outcome_assembled_of_alike (version : Version) (pipeline : Pipeline)
    {left right : Parsed} (parsed : left.Alike related right) :
    outcome (left.assembled version pipeline) = outcome (right.assembled version pipeline) := by
  have emitted := Emitted.alike_ofStatements version pipeline parsed.statements
  -- Related lists are empty together, so that both assemblies fail or neither does.
  have entries := map_eq_of_forall₂ emitted.labels fun a b same =>
    congrArg₂ Prod.mk same.name same.offset
  simp only [Parsed.assembled, emitted.bytes]
  generalize found : left.diagnostics ++ _ = first,
    found' : right.diagnostics ++ _ = second
  have complaints : List.Forall₂ (Diagnostic.Alike related) first second := by
    rw [← found, ← found']
    exact List.rel_append parsed.diagnostics emitted.diagnostics
  have messages := map_eq_of_forall₂ complaints fun a b same =>
    congrArg₂ Prod.mk same.kind same.message
  cases complaints with
  | nil => simp only [outcome, entries]
  | cons head others => simp only [outcome, messages]

def Span.Anywhere (_ _ : Span) : Prop := True

theorem Span.joins_anywhere : Joins Anywhere := ⟨fun _ _ => trivial⟩

def Token.written (token : Token) : TokenKind × String := (token.kind, token.text)

theorem Token.alike_of_written {left right : List Token}
    (same : left.map written = right.map written) :
    List.Forall₂ (Token.Alike Span.Anywhere) left right := by
  rw [← List.forall₂_eq_eq_eq, List.forall₂_map_left_iff, List.forall₂_map_right_iff] at same
  exact same.imp fun a b equal => ⟨congrArg Prod.fst equal, congrArg Prod.snd equal, trivial⟩

theorem parse_alike_of_appearance {left right : String}
    (same : appearance left.toList = appearance right.toList) :
    (parse left).Alike Span.Anywhere (parse right) := by
  have written := congrArg (List.map Prod.fst) same
  have touch := congrArg (List.map Prod.snd) same
  simp only [appearance, Token.look, List.map_map] at written touch
  rw [parse_eq_parseTokens, parse_eq_parseTokens]
  refine alike_parseLines Span.joins_anywhere ?_ touch
  rw [← List.forall₂_eq_eq_eq, List.forall₂_map_left_iff, List.forall₂_map_right_iff] at written
  exact written.imp fun _ _ line => Token.alike_of_written line

namespace BareToken

def written (source : String) (token : BareToken) : TokenKind × Option String :=
  (token.kind, token.text? source)

def touch : List BareToken → Bool
  | first :: second :: _ => decide (second.span.start = first.span.stop)
  | _ => false

/-- For each line whether its first two tokens touch, blanks and comments left out. -/
def touches (tokens : List BareToken) : List Bool :=
  (tokens.splitOnP (·.kind = .newline)).map fun line => touch (significant line)

theorem touch_map_bare (line : List Token) : touch (line.map Token.bare) = Token.touch line := by
  obtain _ | ⟨first, _ | ⟨second, rest⟩⟩ := line <;> rfl

theorem touches_eq (source : String) (tokens : List BareToken) :
    touches tokens =
      (Token.lines (Token.significant (tokens.map (filled source)))).map Token.touch := by
  have lines := Statement.map_significant_splitOnP (tokens.map (filled source))
  rw [map_bare_filled] at lines
  have split : touches tokens =
      ((tokens.splitOnP (·.kind = .newline)).map significant).map touch := by
    rw [List.map_map]
    rfl
  rw [split, lines, List.map_map]
  exact List.map_congr_left fun line _ => touch_map_bare line

theorem isSome_of_written {left right : String} {first second : List BareToken}
    (same : first.map (written left) = second.map (written right))
    (shown : ∀ token ∈ first, (token.text? left).isSome = true) :
    ∀ token ∈ second, (token.text? right).isSome = true := by
  have texts := congrArg (List.map fun look : TokenKind × Option String => look.2.isSome) same
  rw [List.map_map, List.map_map] at texts
  intro token member
  have found := List.mem_map_of_mem (f := fun token => (token.text? right).isSome) member
  rw [show second.map (fun token => (token.text? right).isSome) = _ from texts.symm] at found
  obtain ⟨other, among, some⟩ := List.mem_map.mp found
  rw [← some]
  exact shown other among

end BareToken

def SameOutcome (version : Version) (pipeline : Pipeline) (left right : String) : Prop :=
  ∃ first second, assemble? version pipeline left = some first ∧
    assemble? version pipeline right = some second ∧ outcome first = outcome second

theorem sameOutcome_of_parsed (version : Version) (pipeline : Pipeline) {left right : String}
    {first second : Parsed} (here : parse? left = some first) (there : parse? right = some second)
    (alike : first.Alike Span.Anywhere second) : SameOutcome version pipeline left right := by
  refine ⟨first.assembled version pipeline, second.assembled version pipeline, ?_, ?_,
    outcome_assembled_of_alike version pipeline alike⟩
  · rw [assemble?, here]
    rfl
  · rw [assemble?, there]
    rfl

theorem sameOutcome_of_written (version : Version) (pipeline : Pipeline) {left right : String}
    {first second : List BareToken} (here : BareToken.lex? left = some first)
    (there : BareToken.lex? right = some second)
    (shown : ∀ token ∈ BareToken.significant first, (token.text? left).isSome = true)
    (same : (BareToken.significant first).map (BareToken.written left) =
      (BareToken.significant second).map (BareToken.written right))
    (touch : BareToken.touches first = BareToken.touches second) :
    SameOutcome version pipeline left right := by
  refine sameOutcome_of_parsed version pipeline ((yields_parse? here).some shown)
    ((yields_parse? there).some (BareToken.isSome_of_written same shown)) ?_
  refine alike_parseTokens Span.joins_anywhere (Token.alike_of_written ?_) ?_
  · have texts := congrArg
      (List.map fun look : TokenKind × Option String => (look.1, look.2.getD "")) same
    rw [List.map_map, List.map_map] at texts
    rw [BareToken.significant_filled, BareToken.significant_filled, List.map_map, List.map_map]
    exact texts
  · rw [← BareToken.touches_eq left, ← BareToken.touches_eq right]
    exact touch

theorem sameOutcome_of_appearance (version : Version) (pipeline : Pipeline) {left right : String}
    (first : left.utf8ByteSize < UInt32.size) (second : right.utf8ByteSize < UInt32.size)
    (same : appearance left.toList = appearance right.toList) :
    SameOutcome version pipeline left right :=
  sameOutcome_of_parsed version pipeline (parse?_of_lt first) (parse?_of_lt second)
    (parse_alike_of_appearance same)

theorem byteLength_le_withCarriageReturns (text : List Char) :
    byteLength text ≤ byteLength (withCarriageReturns text) := by
  induction text with
  | nil => exact Nat.le_refl 0
  | cons c text ih =>
    have head : c.utf8Size ≤ byteLength (if c = '\n' then ['\r', '\n'] else [c]) := by
      by_cases ends : c = '\n'
      · subst ends
        decide
      · simp [ends, byteLength]
    have split : withCarriageReturns (c :: text) =
        (if c = '\n' then ['\r', '\n'] else [c]) ++ withCarriageReturns text := rfl
    rw [split, byteLength_append, byteLength]
    omega

/-- Blanks and comments count for nothing, unless they part a label from its colon or make the text
so long that offsets wrap. -/
theorem outcome_of_tokens (version : Version) (pipeline : Pipeline) :
    (∀ (left right : String) (first second : List BareToken),
      BareToken.lex? left = some first → BareToken.lex? right = some second →
        (∀ token ∈ BareToken.significant first, (token.text? left).isSome = true) →
        (BareToken.significant first).map (BareToken.written left) =
          (BareToken.significant second).map (BareToken.written right) →
        BareToken.touches first = BareToken.touches second →
        SameOutcome version pipeline left right) ∧
    (∀ left right : List String, List.Forall₂ Retouched left right →
      ("\n".intercalate left).utf8ByteSize < UInt32.size →
      ("\n".intercalate right).utf8ByteSize < UInt32.size →
      SameOutcome version pipeline ("\n".intercalate left) ("\n".intercalate right)) ∧
    ∀ source : String,
      let returned := String.ofList (withCarriageReturns source.toList)
      returned.utf8ByteSize < UInt32.size → SameOutcome version pipeline returned source := by
  refine ⟨fun left right first second here there shown same touch => ?_,
    fun left right lines here there => ?_, ?_⟩
  · exact sameOutcome_of_written version pipeline here there shown same touch
  · exact sameOutcome_of_appearance version pipeline here there (appearance_intercalate lines)
  · intro source returned small
    have longer := byteLength_le_withCarriageReturns source.toList
    rw [byteLength_toList, ← String.toList_ofList (l := withCarriageReturns source.toList),
      byteLength_toList] at longer
    refine sameOutcome_of_appearance version pipeline small (Nat.lt_of_le_of_lt longer small) ?_
    rw [String.toList_ofList]
    exact appearance_withCarriageReturns source.toList

theorem outcome_of_tokens_loop :
    SameOutcome .two .singlePass "f:push 1 ; one\n jmp f" "f:  push\t1\njmp f;two" ∧
      SameOutcome .two .singlePass ("\n".intercalate ["f:push 1", "jmp f;two"])
        ("\n".intercalate ["f:push 1", "  jmp f"]) ∧
      SameOutcome .two .singlePass (.ofList (withCarriageReturns "f:\njmp f".toList))
        "f:\njmp f" := by
  have spaced : Retouched "jmp f;two" "  jmp f" := by
    have comment : Retouched "jmp f" ("jmp f" ++ ";" ++ "two") := .comment (by simp)
    have indent : Retouched "jmp f" ("  " ++ "jmp f") := .indent (by simp [TokenKind.isBlank])
    exact comment.symm.trans indent
  have law := outcome_of_tokens .two .singlePass
  refine ⟨?_, ?_, ?_⟩
  · exact law.1 _ _ _ _ (BareToken.lex?_eq_map_bare_iff.mpr (by decide +kernel))
      (BareToken.lex?_eq_map_bare_iff.mpr (by decide +kernel)) (by decide +kernel)
      (by decide +kernel) (by decide +kernel)
  · exact law.2.1 _ _ (.cons (.refl _) (.cons spaced .nil)) (by decide +kernel)
      (by decide +kernel)
  · exact law.2.2 _ (by decide +kernel)

end StackMachine
