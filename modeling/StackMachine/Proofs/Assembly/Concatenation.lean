import StackMachine.Proofs.Assembly.Parsing

set_option autoImplicit false

namespace StackMachine

def StatementKind.shift (distance : Nat) : StatementKind → StatementKind
  | .label name => .label name
  | .instruction i => .instruction i
  | .branch op name span => .branch op name (span.shift distance)

def Statement.shift (distance : Nat) (statement : Statement) : Statement :=
  ⟨statement.span.shift distance, statement.kind.shift distance⟩

def Note.shift (distance : Nat) (note : Note) : Note :=
  { note with span := note.span.shift distance }

def Diagnostic.shift (distance : Nat) (diagnostic : Diagnostic) : Diagnostic :=
  { diagnostic with
    span := diagnostic.span.shift distance
    notes := diagnostic.notes.map (Note.shift distance) }

def Parsed.shift (distance : Nat) (parsed : Parsed) : Parsed :=
  ⟨parsed.statements.map (Statement.shift distance),
    parsed.diagnostics.map (Diagnostic.shift distance)⟩

instance : Append Parsed where
  append first second :=
    ⟨first.statements ++ second.statements, first.diagnostics ++ second.diagnostics⟩

variable {distance : Nat}

def Span.Apart (distance : Nat) (a b : Span) : Prop := b = a.shift distance

theorem Span.joins_apart (distance : Nat) : Joins (Apart distance) := by
  constructor
  rintro a _ c _ rfl rfl
  simp [Apart, shift, cover, Nat.add_min_add_right, Nat.add_max_add_right]

theorem Token.alike_shift (distance : Nat) (token : Token) :
    token.Alike (Span.Apart distance) (token.shift distance) := ⟨rfl, rfl, rfl⟩

theorem eq_map_of_forall₂ {α β : Type} {relation : α → β → Prop} {f : α → β} {left : List α}
    {right : List β} (each : List.Forall₂ relation left right)
    (same : ∀ a b, relation a b → b = f a) : right = left.map f := by
  have mapped := map_eq_of_forall₂ (g := id) each fun a b alike => (same a b alike).symm
  rw [mapped, List.map_id]

theorem Statement.eq_shift (a b : Statement) (alike : a.Alike (Span.Apart distance) b) :
    b = a.shift distance := by
  obtain ⟨span, kind⟩ := a
  obtain ⟨moved, other⟩ := b
  obtain ⟨rfl, same⟩ := alike
  cases same with
  | label | instruction => rfl
  | branch op name apart =>
    cases apart
    rfl

theorem Note.eq_shift (a b : Note) (alike : a.Alike (Span.Apart distance) b) :
    b = a.shift distance := by
  obtain ⟨label, span⟩ := a
  obtain ⟨same, moved⟩ := b
  obtain ⟨rfl, rfl⟩ := alike
  rfl

theorem Diagnostic.eq_shift (a b : Diagnostic) (alike : a.Alike (Span.Apart distance) b) :
    b = a.shift distance := by
  obtain ⟨kind, span, detail, notes⟩ := a
  obtain ⟨sameKind, moved, sameDetail, others⟩ := b
  obtain ⟨rfl, rfl, rfl, each⟩ := alike
  have moved := eq_map_of_forall₂ each Note.eq_shift
  subst moved
  rfl

theorem Parsed.eq_shift {a b : Parsed} (alike : a.Alike (Span.Apart distance) b) :
    b = a.shift distance := by
  obtain ⟨statements, diagnostics⟩ := b
  have first := eq_map_of_forall₂ alike.statements Statement.eq_shift
  have second := eq_map_of_forall₂ alike.diagnostics Diagnostic.eq_shift
  subst first
  subst second
  rfl

theorem parseTokens_append_newline {newline : Token} (ends : newline.kind = .newline)
    (above below : List Token) :
    parseTokens (above ++ newline :: below) = parseTokens above ++ parseTokens below := by
  simp only [parseTokens, Token.lines_append_newline ends, List.map_append, Parsed.join,
    List.flatMap_append]
  rfl

theorem parseTokens_shift (distance : Nat) (tokens : List Token) :
    parseTokens (tokens.map (Token.shift distance)) = (parseTokens tokens).shift distance := by
  have moved : List.Forall₂ (Token.Alike (Span.Apart distance)) tokens
      (tokens.map (Token.shift distance)) := by
    rw [List.forall₂_map_right_iff, List.forall₂_same]
    exact fun token _ => Token.alike_shift distance token
  refine Parsed.eq_shift (alike_parseTokens (Span.joins_apart distance) moved ?_)
  simp [Token.lines_shift, Token.touch_shift]

theorem parse_below (above below : String) :
    parse (above ++ "\n" ++ below) =
      parse above ++ (parse below).shift (above.utf8ByteSize + 1) := by
  have chars : (above ++ "\n" ++ below).toList = above.toList ++ '\n' :: below.toList := by simp
  have scanned : Token.scan (above ++ "\n" ++ below) = Token.scan above ++
      Token.newlineAt above.utf8ByteSize ::
        (Token.scan below).map (Token.shift (above.utf8ByteSize + 1)) := by
    rw [Token.scan, chars, Token.scanFrom_append_newline, byteLength_toList, Nat.zero_add,
      Token.scan, Token.scan, ← Token.scanFrom_add, Nat.zero_add]
  have newline : Token.significant (Token.newlineAt above.utf8ByteSize ::
      (Token.scan below).map (Token.shift (above.utf8ByteSize + 1))) =
        Token.newlineAt above.utf8ByteSize ::
          (Token.significant (Token.scan below)).map (Token.shift (above.utf8ByteSize + 1)) := by
    rw [← Token.significant_shift]
    exact Token.significant_cons _ _
  simp only [parse_eq_parseTokens]
  rw [scanned, Token.significant_append, newline, parseTokens_append_newline rfl, parseTokens_shift]

/-- Each text is parsed as if it stood alone, however broken the text above it is. Below `2 ^ 32`
bytes this is what is read from the source. -/
theorem parse_append_newline :
    (∀ above below : String,
      let distance := above.utf8ByteSize + 1
      (parse (above ++ "\n" ++ below)).statements =
          (parse above).statements ++ (parse below).statements.map (Statement.shift distance) ∧
        (parse (above ++ "\n" ++ below)).diagnostics =
          (parse above).diagnostics ++ (parse below).diagnostics.map (Diagnostic.shift distance)) ∧
    (∀ distance (d : Diagnostic),
      (d.shift distance).kind = d.kind ∧ (d.shift distance).message = d.message) ∧
    (∀ before line after : String,
      let first := before.utf8ByteSize + 1
      let second := line.utf8ByteSize + 1
      parse (before ++ "\n" ++ line ++ "\n" ++ after) =
        parse before ++ (parse line).shift first ++ (parse after).shift (first + second)) ∧
    ∀ above below : String, (above ++ "\n" ++ below).utf8ByteSize < UInt32.size →
      ∃ first second, parse? above = some first ∧ parse? below = some second ∧
        parse? (above ++ "\n" ++ below) =
          some (first ++ second.shift (above.utf8ByteSize + 1)) := by
  refine ⟨fun above below => ?_, fun distance d => ⟨rfl, rfl⟩, fun before line after => ?_,
    fun above below small => ?_⟩
  · rw [parse_below]
    exact ⟨rfl, rfl⟩
  · intro first second
    have length : (before ++ "\n" ++ line).utf8ByteSize + 1 = first + second := by
      have newline : "\n".utf8ByteSize = 1 := rfl
      simp only [String.utf8ByteSize_append, newline, first, second]
      omega
    rw [parse_below, parse_below, length]
  · have joined := parse?_of_lt small
    rw [parse_below] at joined
    simp only [String.utf8ByteSize_append] at small
    exact ⟨_, _, parse?_of_lt (by omega), parse?_of_lt (by omega), joined⟩

theorem parse_append_newline_broken :
    ∃ first second, parse? "push [" = some first ∧ parse? "f: jmp f" = some second ∧
      parse? ("push [" ++ "\n" ++ "f: jmp f") = some (first ++ second.shift 7) :=
  parse_append_newline.2.2.2 "push [" "f: jmp f" (by decide +kernel)

end StackMachine
