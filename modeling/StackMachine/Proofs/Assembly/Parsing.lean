import StackMachine.Assembly.Assembler
import StackMachine.Proofs.Assembly.Lexing
import StackMachine.Proofs.Bytecode.Layout

set_option autoImplicit false

namespace StackMachine

-- The parser that takes texts from the source against the one whose tokens carry them. Where a text
-- is missing the first has no answer, so that it says nothing the second does not.

/-- An access that can only come to this value, and does where nothing is missing. -/
structure Yields {α : Type} (complete : Prop) (access : Option α) (value : α) : Prop where
  only : ∀ found, access = some found → found = value
  some : complete → access = Option.some value

section

variable {complete : Prop} {α β : Type} {access : Option α} {value : α}

theorem Yields.pure (complete : Prop) (value : α) : Yields complete (Option.some value) value :=
  ⟨fun _ same => (Option.some.inj same).symm, fun _ => rfl⟩

theorem Yields.bind {next : α → Option β} {result : β} (first : Yields complete access value)
    (then_ : Yields complete (next value) result) : Yields complete (access >>= next) result := by
  constructor
  · intro found same
    obtain ⟨middle, here, later⟩ := Option.bind_eq_some_iff.mp same
    rw [first.only middle here] at later
    exact then_.only found later
  · intro all
    rw [first.some all]
    exact then_.some all

theorem Yields.map (f : α → β) (yields : Yields complete access value) :
    Yields complete (access.map f) (f value) := by
  constructor
  · rintro _ same
    obtain ⟨found, here, rfl⟩ := Option.map_eq_some_iff.mp same
    rw [yields.only found here]
  · intro all
    rw [yields.some all]
    rfl

theorem Yields.mapM {access : α → Option β} {value : α → β} {items : List α}
    (each : ∀ item ∈ items, Yields complete (access item) (value item)) :
    Yields complete (items.mapM access) (items.map value) := by
  induction items with
  | nil => exact .pure _ _
  | cons item items ih =>
    obtain ⟨here, others⟩ := List.forall_mem_cons.mp each
    rw [List.mapM_cons]
    exact here.bind ((ih others).bind (.pure _ _))

end

section

variable {complete : Prop} {source : String} {token : Token} {tokens : List Token}

def Token.Shown (complete : Prop) (source : String) (token : Token) : Prop :=
  Yields complete (token.bare.text? source) token.text

theorem Token.shown_of_text? (complete : Prop)
    (shown : token.bare.text? source = some token.text) : token.Shown complete source := by
  rw [Shown, shown]
  exact .pure _ _

theorem BareToken.yields_find? (shown : ∀ token ∈ tokens, token.Shown complete source)
    (name : String) :
    Yields complete (find? source name (tokens.map Token.bare))
      ((tokens.find? fun token => token.text == name).map Token.bare) := by
  induction tokens with
  | nil => exact .pure _ _
  | cons token rest ih =>
    obtain ⟨here, others⟩ := List.forall_mem_cons.mp shown
    refine here.bind ?_
    rw [List.find?_cons]
    cases token.text == name with
    | true => exact .pure _ _
    | false => exact ih others

namespace Term

theorem yields_unexpected? (shown : token.Shown complete source) :
    Yields complete (unexpected? source token.bare) (unexpected token) := by
  by_cases newline : token.kind = .newline
  · simpa [unexpected?, unexpected, newline] using Yields.pure complete _
  · simp only [unexpected?, unexpected, Token.bare_kind, newline, if_false]
    exact shown.bind (.pure _ _)

theorem yields_ofToken? (shown : token.Shown complete source) :
    Yields complete (ofToken? source token.bare) (ofToken token) := by
  by_cases word : token.kind = .word
  · simp only [ofToken?, ofToken, Token.bare_kind, word, if_true]
    exact shown.map _
  · simp only [ofToken?, ofToken, Token.bare_kind, word, if_false]
    exact (yields_unexpected? shown).map _

end Term

namespace Operand

theorem yields_parseSum? (anchor : Span) (shown : ∀ token ∈ tokens, token.Shown complete source) :
    Yields complete (parseSum? source anchor (tokens.map Token.bare)) (parseSum anchor tokens) := by
  cases tokens with
  | nil => exact .pure _ _
  | cons first rest =>
    obtain ⟨here, others⟩ := List.forall_mem_cons.mp shown
    simp only [List.map_cons, parseSum?, parseSum]
    refine (Term.yields_ofToken? here).bind ?_
    cases Term.ofToken first with
    | error fault => exact .pure _ _
    | ok left =>
      cases rest with
      | nil => exact .pure _ _
      | cons plus rest =>
        obtain ⟨between, others⟩ := List.forall_mem_cons.mp others
        by_cases joins : plus.kind = .plus
        · simp only [List.map_cons, Token.bare_kind, joins, ne_eq, not_true_eq_false, if_false]
          cases rest with
          | nil => exact .pure _ _
          | cons second extra =>
            obtain ⟨there, others⟩ := List.forall_mem_cons.mp others
            simp only [List.map_cons]
            refine (Term.yields_ofToken? there).bind ?_
            cases Term.ofToken second with
            | error fault => exact .pure _ _
            | ok right =>
              cases extra with
              | nil => exact .pure _ _
              | cons more extra =>
                obtain ⟨behind, -⟩ := List.forall_mem_cons.mp others
                by_cases again : more.kind = .plus
                · simp only [List.map_cons, Token.bare_kind, again, if_true]
                  exact .pure _ _
                · simp only [List.map_cons, Token.bare_kind, again, if_false]
                  exact (Term.yields_unexpected? behind).map _
        · simp only [List.map_cons, Token.bare_kind, joins, ne_eq, not_false_eq_true, if_true]
          exact (Term.yields_unexpected? between).map _

theorem yields_indexed? (opening closing : Token)
    (shown : ∀ token ∈ tokens, token.Shown complete source) (sum : Operand) :
    Yields complete
      (indexed? source opening.bare closing.bare (tokens.map Token.bare) sum)
      (indexed opening closing tokens sum) := by
  simp only [indexed?, indexed]
  cases sum.register.filter (!·.isAddress) with
  | some r =>
    refine (BareToken.yields_find? shown r.name).bind ?_
    rw [Option.getD_map]
    exact .pure _ _
  | none => cases sum.literal.any (·.hasFraction) <;> exact .pure _ _

section

variable {opening closing : Token} {inner : List Token}

theorem findIdx?_of_unclosed (opens : opening.kind = .bracketOpen)
    (inside : ∀ token ∈ inner, token.kind ≠ .bracketClose) :
    ((opening :: inner).map Token.bare).findIdx? (·.kind = .bracketClose) = none := by
  simpa [opens] using inside

-- The opening bracket is the first token, so that what it encloses begins at number one.
theorem findIdx?_of_closed (opens : opening.kind = .bracketOpen)
    (inside : ∀ token ∈ inner, token.kind ≠ .bracketClose) (closes : closing.kind = .bracketClose)
    (after : List Token) :
    ((opening :: (inner ++ closing :: after)).map Token.bare).findIdx? (·.kind = .bracketClose) =
      some (inner.length + 1) := by
  rw [← List.cons_append, List.map_append, List.findIdx?_append, findIdx?_of_unclosed opens inside]
  simp [List.findIdx?_cons, closes]

theorem cut?_of_closed (opening closing : Token) (inner after : List Token) :
    BareToken.cut? ((opening :: (inner ++ closing :: after)).map Token.bare) 1
      (inner.length + 1) = some (inner.map Token.bare) := by
  simp [BareToken.cut?]

end

theorem yields_parseReference? {opening : Token} (opens : opening.kind = .bracketOpen)
    (shown : ∀ token ∈ opening :: tokens, token.Shown complete source) :
    Yields complete
      (parseReference? source opening.bare ((opening :: tokens).map Token.bare))
      (parseReference opening tokens) := by
  have whole := List.takeWhile_append_dropWhile
    (p := fun token : Token => decide (token.kind ≠ .bracketClose)) (l := tokens)
  have inside : ∀ token ∈ tokens.takeWhile fun token => decide (token.kind ≠ .bracketClose),
      token.kind ≠ .bracketClose := by
    intro token member
    simpa using List.all_eq_true.mp List.all_takeWhile token member
  have closes := List.head?_dropWhile_not
    (fun token : Token => decide (token.kind ≠ .bracketClose)) tokens
  simp only [parseReference]
  generalize tokens.takeWhile _ = inner at whole inside ⊢
  generalize tokens.dropWhile _ = outer at whole closes ⊢
  subst whole
  cases outer with
  | nil =>
    have last : ((opening :: inner).map Token.bare).getLast?.getD opening.bare =
        (inner.getLast?.getD opening).bare := by
      rw [List.getLast?_map, List.getLast?_cons]
      rfl
    simp only [List.append_nil, parseReference?, findIdx?_of_unclosed opens inside, last]
    exact .pure _ _
  | cons closing after =>
    have here : closing.kind = .bracketClose := by simpa using closes
    have closing_at : ((opening :: (inner ++ closing :: after)).map Token.bare)[inner.length + 1]? =
        some closing.bare := by
      simp
    have extra_at : ((opening :: (inner ++ closing :: after)).map Token.bare)[inner.length + 2]? =
        after.head?.map Token.bare := by
      simp [List.getElem?_append_right, List.head?_eq_getElem?]
    simp only [parseReference?, findIdx?_of_closed opens inside here, closing_at, extra_at,
      cut?_of_closed]
    cases after with
    | cons extra _ => exact (Term.yields_unexpected? (shown extra (by simp))).map _
    | nil =>
      cases inner with
      | nil => exact .pure _ _
      | cons head others =>
        have within : ∀ token ∈ head :: others, token.Shown complete source := by
          intro token member
          exact shown token (List.mem_cons_of_mem opening (List.mem_append_left _ member))
        refine (yields_parseSum? opening.span within).bind ?_
        cases parseSum opening.span (head :: others) with
        | error fault => exact .pure _ _
        | ok sum => exact yields_indexed? opening closing within sum

theorem yields_parse? (anchor : Span) (shown : ∀ token ∈ tokens, token.Shown complete source) :
    Yields complete (parse? source anchor (tokens.map Token.bare)) (parse anchor tokens) := by
  cases tokens with
  | nil => exact .pure _ _
  | cons first rest =>
    by_cases opens : first.kind = .bracketOpen
    · simp only [List.map_cons, parse?, parse, Token.bare_kind, opens, if_true]
      exact yields_parseReference? opens shown
    · simp only [List.map_cons, parse?, parse, Token.bare_kind, opens, if_false]
      exact yields_parseSum? anchor shown

end Operand

namespace Statement

theorem takeLabel_map_bare (tokens : List Token) :
    takeLabel (tokens.map Token.bare) =
      ((splitLabel tokens).1.map Token.bare, (splitLabel tokens).2.map Token.bare) := by
  match tokens with
  | [] | [_] => rfl
  | name :: colon :: rest =>
    by_cases label : name.kind = .word ∧ colon.kind = .colon ∧ colon.span.start = name.span.stop
    · simp [takeLabel, splitLabel, label]
    · simp [takeLabel, splitLabel, label]

theorem yields_findVoid? (shown : ∀ token ∈ tokens, token.Shown complete source) :
    Yields complete (findVoid? source (tokens.map Token.bare))
      ((voidWord? tokens).map Token.bare) := by
  match tokens with
  | [] | _ :: _ :: _ => exact .pure _ _
  | [token] =>
    have here := (shown token List.mem_cons_self).map fun text =>
      if text = "void" then some token.bare else none
    by_cases void : token.text = "void"
    · simpa [findVoid?, voidWord?, void] using here
    · simpa [findVoid?, voidWord?, void] using here

theorem yields_parsePush? (anchor : Span) (shown : ∀ token ∈ tokens, token.Shown complete source) :
    Yields complete (parsePush? source anchor (tokens.map Token.bare))
      (parsePush anchor tokens) := by
  simp only [parsePush?, parsePush]
  refine (yields_findVoid? shown).bind ?_
  cases voidWord? tokens with
  | some word => exact .pure _ _
  | none => exact (Operand.yields_parse? anchor shown).bind (.pure _ _)

theorem yields_parsePop? (anchor : Span) (shown : ∀ token ∈ tokens, token.Shown complete source) :
    Yields complete (parsePop? source anchor (tokens.map Token.bare)) (parsePop anchor tokens) := by
  simp only [parsePop?, parsePop]
  refine (yields_findVoid? shown).bind ?_
  cases voidWord? tokens with
  | some word => exact .pure _ _
  | none =>
    refine (Operand.yields_parse? anchor shown).bind ?_
    cases parsed : Operand.parse anchor tokens with
    | error fault => exact .pure _ _
    | ok operand =>
      cases tokens with
      | nil => cases parsed
      | cons first rest =>
        by_cases valid : operand.mode.validFor .pop = true
        · simp only [Except.bind, valid, if_true]
          exact .pure _ _
        · have last : ((first :: rest).map Token.bare).getLast? =
              some (rest.getLast?.getD first).bare := by
            rw [List.getLast?_map, List.getLast?_cons]
            rfl
          simp only [Except.bind, valid, last]
          exact .pure _ _

theorem yields_parseBranch? (op : BranchOp) (anchor : Span)
    (shown : ∀ token ∈ tokens, token.Shown complete source) :
    Yields complete (parseBranch? source op anchor (tokens.map Token.bare))
      (parseBranch op anchor tokens) := by
  cases tokens with
  | nil => exact .pure _ _
  | cons first rest =>
    obtain ⟨here, others⟩ := List.forall_mem_cons.mp shown
    by_cases word : first.kind = .word
    · simp only [List.map_cons, parseBranch?, parseBranch, Token.bare_kind, word, ne_eq,
        not_true_eq_false, if_false]
      cases rest with
      | nil => exact here.map _
      | cons extra rest => exact (List.forall_mem_cons.mp others).1.map _
    · simp only [List.map_cons, parseBranch?, parseBranch, Token.bare_kind, word, ne_eq,
        not_false_eq_true, if_true]
      exact here.map _

theorem cover_map_bare (first : Token) (others : List Token) :
    first.bare.cover (others.map Token.bare) = first.cover others := by
  rw [BareToken.cover, Token.cover, List.getLast?_map, Option.getD_map]
  rfl

theorem plainOf_map_bare (op : PlainOp) (tokens : List Token) :
    plainOf op (tokens.map Token.bare) = parsePlain op tokens := by
  cases tokens with
  | nil => rfl
  | cons first rest => rw [List.map_cons, plainOf, parsePlain, cover_map_bare]

theorem yields_parseOperation? {head : Token} (begins : head.Shown complete source)
    (shown : ∀ token ∈ tokens, token.Shown complete source) :
    Yields complete (parseOperation? source head.bare (tokens.map Token.bare))
      (parseOperation head tokens) := by
  simp only [parseOperation?, parseOperation]
  refine begins.bind ?_
  by_cases word : head.kind = .word
  · simp only [Token.bare_kind, word, if_true]
    cases Opcode.ofMnemonic? head.text with
    | none => exact .pure _ _
    | some op =>
      cases op with
      | push => exact yields_parsePush? head.span shown
      | pop => exact yields_parsePop? head.span shown
      | branch op => exact yields_parseBranch? op head.span shown
      | plain op =>
        simp only [plainOf_map_bare]
        exact .pure _ _
  · simp only [Token.bare_kind, word, if_false]
    exact .pure _ _

theorem yields_parseRest? (shown : ∀ token ∈ tokens, token.Shown complete source) :
    Yields complete (parseRest? source (tokens.map Token.bare)) (parseRest tokens) := by
  cases tokens with
  | nil => exact .pure _ _
  | cons head operands =>
    obtain ⟨here, others⟩ := List.forall_mem_cons.mp shown
    simp only [List.map_cons, parseRest?, parseRest, cover_map_bare]
    have parsed := yields_parseOperation? here others
    cases result : parseOperation head operands with
    | ok kind => exact (result ▸ parsed).map _
    | error fault => exact (result ▸ parsed).map _

theorem yields_parseLine? (shown : ∀ token ∈ tokens, token.Shown complete source) :
    Yields complete (parseLine? source (tokens.map Token.bare)) (parseLine tokens) := by
  simp only [parseLine?, parseLine, takeLabel_map_bare]
  obtain ⟨name, colon, rest, rfl, -, split⟩ | ⟨-, split⟩ := splitLabel_cases tokens
  · obtain ⟨here, others⟩ := List.forall_mem_cons.mp shown
    rw [split]
    refine (here.map _).bind ?_
    exact (yields_parseRest? (List.forall_mem_cons.mp others).2).bind (.pure _ _)
  · rw [split]
    exact (Yields.pure _ _).bind ((yields_parseRest? shown).bind (.pure _ _))

theorem splitOnP_map {α β : Type} (ends : β → Bool) (f : α → β) (items : List α) :
    (items.map f).splitOnP ends = (items.splitOnP fun item => ends (f item)).map (List.map f) := by
  induction items with
  | nil => simp
  | cons item items ih =>
    rw [List.map_cons, List.splitOnP_cons_eq_if_modifyHead, List.splitOnP_cons_eq_if_modifyHead, ih]
    cases ends (f item) with
    | true => rfl
    | false => cases items.splitOnP fun item => ends (f item) <;> rfl

theorem map_significant_splitOnP (tokens : List Token) :
    ((tokens.map Token.bare).splitOnP (·.kind = .newline)).map BareToken.significant =
      (Token.lines (Token.significant tokens)).map (List.map Token.bare) := by
  have split : (tokens.map Token.bare).splitOnP (·.kind = .newline) =
      (Token.lines tokens).map (List.map Token.bare) := by
    rw [Token.lines_eq_splitOnP]
    exact splitOnP_map _ _ _
  have kept (line : List Token) :
      BareToken.significant (line.map Token.bare) = (Token.significant line).map Token.bare :=
    List.filter_map
  rw [split, ← Token.significant_lines, List.map_map, List.map_map]
  exact List.map_congr_left fun line _ => kept line

theorem yields_parseLines?
    (shown : ∀ token ∈ Token.significant tokens, token.Shown complete source) :
    Yields complete (parseLines? source (tokens.map Token.bare))
      (parseTokens (Token.significant tokens)) := by
  simp only [parseLines?, map_significant_splitOnP, List.mapM_map]
  refine (Yields.mapM fun line inside => yields_parseLine? fun token member => ?_).bind (.pure _ _)
  exact shown token (Token.mem_of_mem_lines inside member)

end Statement

end

namespace BareToken

variable {source : String}

def filled (source : String) (token : BareToken) : Token :=
  ⟨token.kind, token.span, (token.text? source).getD ""⟩

theorem filled_of_text? {token : Token} (shown : token.bare.text? source = some token.text) :
    token.bare.filled source = token := by
  rw [filled, shown]
  rfl

theorem shown_filled {complete : Prop} {token : BareToken}
    (some : complete → (token.text? source).isSome = true) :
    (token.filled source).Shown complete source := by
  constructor
  · intro found same
    have text : token.text? source = Option.some found := same
    simp [filled, text]
  · intro all
    obtain ⟨found, text⟩ := Option.isSome_iff_exists.mp (some all)
    rw [filled, text]
    exact text

theorem map_bare_filled (tokens : List BareToken) :
    (tokens.map (filled source)).map Token.bare = tokens := by
  rw [List.map_map]
  exact List.map_id tokens

theorem significant_filled (tokens : List BareToken) :
    Token.significant (tokens.map (filled source)) = (significant tokens).map (filled source) :=
  List.filter_map

end BareToken

theorem yields_parse? {source : String} {tokens : List BareToken}
    (lexed : BareToken.lex? source = some tokens) :
    Yields (∀ token ∈ BareToken.significant tokens, (token.text? source).isSome = true)
      (parse? source)
      (parseTokens (Token.significant (tokens.map (BareToken.filled source)))) := by
  have shown : ∀ token ∈ Token.significant (tokens.map (BareToken.filled source)),
      token.Shown (∀ token ∈ BareToken.significant tokens, (token.text? source).isSome = true)
        source := by
    rw [BareToken.significant_filled, List.forall_mem_map]
    exact fun token member => BareToken.shown_filled fun all => all token member
  have parsed := Statement.yields_parseLines? shown
  rw [BareToken.map_bare_filled] at parsed
  rwa [parse?, lexed]

/-- Below `2 ^ 32` bytes nothing wraps and nothing is missing. -/
theorem parse?_of_lt {source : String} (small : source.utf8ByteSize < UInt32.size) :
    parse? source = some (parse source) := by
  have shown : ∀ token ∈ Token.significant (Token.scan source), token.Shown True source :=
    fun token member => Token.shown_of_text? True
      (BareToken.text?_of_mem_scan (List.mem_of_mem_filter member))
  rw [parse?, BareToken.lex?_eq_map_bare_iff.mpr small, parse_eq_parseTokens]
  exact (Statement.yields_parseLines? shown).some trivial

theorem assemble?_of_lt {source : String} (small : source.utf8ByteSize < UInt32.size)
    (version : Version) (pipeline : Pipeline) :
    assemble? version pipeline source = some (assemble version pipeline source) := by
  rw [assemble?, parse?_of_lt small, Option.map_some, assemble]

theorem exists_parseTokens {source : String} {parsed : Parsed}
    (found : parse? source = some parsed) :
    ∃ tokens, BareToken.lex? source = some tokens ∧
      parsed = parseTokens (Token.significant (tokens.map (BareToken.filled source))) := by
  obtain ⟨tokens, lexed, -⟩ := Option.bind_eq_some_iff.mp found
  exact ⟨tokens, lexed, (yields_parse? lexed).only parsed found⟩

theorem exists_parseLine_of_parse? {source : String} {parsed : Parsed} {statement : Statement}
    (found : parse? source = some parsed) (member : statement ∈ parsed.statements) :
    ∃ line, statement ∈ (Statement.parseLine line).statements := by
  obtain ⟨tokens, -, rfl⟩ := exists_parseTokens found
  simp only [parseTokens, Parsed.join, List.mem_flatMap, List.mem_map] at member
  obtain ⟨_, ⟨line, -, rfl⟩, among⟩ := member
  exact ⟨line, among⟩

theorem hasShape_of_parse? {source : String} {parsed : Parsed} {statement : Statement}
    (found : parse? source = some parsed) (member : statement ∈ parsed.statements) :
    Statement.HasShape statement.kind := by
  obtain ⟨line, among⟩ := exists_parseLine_of_parse? found member
  exact Statement.hasShape_parseLine among

/-- The lines of a source, as the lexer keeps its tokens and without blanks and comments, contribute
what the grammar finds in them, and every instruction among that has an encoding of its own. Below
`2 ^ 32` bytes the tokens are those of the text, and there is always a result. -/
theorem parse_grammar (source : String) :
    (∀ parsed, parse? source = some parsed →
      (∃ tokens, BareToken.lex? source = some tokens ∧
        ∃ contributions,
          List.Forall₂ Statement.LineReads
            (((tokens.map (BareToken.filled source)).splitOnP (·.kind = .newline)).map
              Token.significant) contributions ∧
          parsed = ⟨contributions.flatMap Parsed.statements,
            contributions.flatMap Parsed.diagnostics⟩) ∧
      ∀ statement ∈ parsed.statements, ∀ i, statement.kind = .instruction i →
        i.isSupported .two = true ∧
          ∀ before after, decodeAt .two (before ++ (i.bytes .two ++ after)).toArray before.length =
            .ok (i, before.length + i.size .two)) ∧
    (source.utf8ByteSize < UInt32.size →
      BareToken.lex? source = some ((Token.scan source).map Token.bare) ∧
      (∀ token ∈ Token.scan source, token.bare.filled source = token ∧
        (token.text = "void" → token.kind = .word)) ∧
      ∃ parsed, parse? source = some parsed) := by
  constructor
  · intro parsed found
    constructor
    · obtain ⟨tokens, lexed, rfl⟩ := exists_parseTokens found
      let lines := Token.lines (Token.significant (tokens.map (BareToken.filled source)))
      refine ⟨tokens, lexed, lines.map Statement.parseLine, ?_, rfl⟩
      rw [← Token.lines_eq_splitOnP, Token.significant_lines, List.forall₂_map_right_iff,
        List.forall₂_same]
      exact fun line _ => Statement.lineReads_parseLine line
    · intro statement member i direct
      have shape := hasShape_of_parse? found member
      rw [direct] at shape
      have supported := Instruction.isSupported_two i
      have reads := Reader.reads_instruction ⟨supported, fun _ => shape.2⟩
      refine ⟨supported, fun before after => ?_⟩
      rw [← Instruction.length_bytes supported]
      exact decodeAt_of_reads reads rfl
  · intro small
    refine ⟨BareToken.lex?_eq_map_bare_iff.mpr small, fun token member => ⟨?_, ?_⟩, _,
      parse?_of_lt small⟩
    · exact BareToken.filled_of_text? (BareToken.text?_of_mem_scan member)
    · exact (Token.isLexeme_of_mem_scanFrom member).kind_of_void

theorem parse_grammar_cell :
    let source := "f: PoP [1 + rax] ; here\ng: push void\n"
    let i : Instruction := .pop ⟨some ⟨.address, 0⟩, some ⟨0x3ff0000000000000⟩, true⟩
    parse? source = some (parse source) ∧
      ⟨⟨3, 16⟩, .instruction i⟩ ∈ (parse source).statements ∧
      (parse source).statements.length = 3 ∧ (parse source).diagnostics.length = 1 ∧
      BareToken.lex? source = some ((Token.scan source).map Token.bare) ∧
      decodeAt .two (([0xff] : List UInt8) ++ (i.bytes .two ++ [0])).toArray 1 = .ok (i, 11) := by
  intro source i
  have small : source.utf8ByteSize < UInt32.size := by decide +kernel
  have member : ⟨⟨3, 16⟩, .instruction i⟩ ∈ (parse source).statements := by decide +kernel
  obtain ⟨coded, fits⟩ := parse_grammar source
  have found := parse?_of_lt small
  exact ⟨found, member, by decide +kernel, by decide +kernel, (fits small).1,
    ((coded _ found).2 _ member i rfl).2 [0xff] [0]⟩

end StackMachine
