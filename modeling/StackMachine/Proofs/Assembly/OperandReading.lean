import StackMachine.Proofs.Assembly.OperandGrammar
import StackMachine.Proofs.Assembly.Parsing

set_option autoImplicit false

namespace StackMachine

namespace Decimal

theorem splitSign_of_unsigned {first : Char} (rest : List Char) (minus : first ≠ '-')
    (plus : first ≠ '+') : splitSign (first :: rest) = (false, first :: rest) := by
  unfold splitSign
  split <;> simp_all

theorem begins_of_parse? {text : List Char} {d : Decimal} (reads : parse? text = some d) :
    ∃ first rest, (splitSign text).2 = first :: rest ∧
      (first.isDigit = true ∨ first = '.' ∧ ∃ second ∈ rest.head?, second.isDigit = true) := by
  simp only [parse?] at reads
  split at reads
  next => cases reads
  next digits =>
    cases unsigned : (splitSign text).2 with
    | nil => simp [unsigned, splitFraction] at digits
    | cons first rest =>
      refine ⟨first, rest, rfl, ?_⟩
      by_cases digit : first.isDigit = true
      · exact .inl digit
      · rw [unsigned, List.takeWhile_cons_of_neg digit, List.dropWhile_cons_of_neg digit] at digits
        by_cases point : first = '.'
        · subst point
          cases rest with
          | nil => simp [splitFraction] at digits
          | cons second others =>
            by_cases further : second.isDigit = true
            · exact .inr ⟨rfl, second, rfl, further⟩
            · simp [splitFraction, List.takeWhile_cons_of_neg further] at digits
        · simp [splitFraction, point] at digits

end Decimal

theorem Binary64.parse?_eq_some_iff {text : String} {value : Binary64} :
    parse? text = some value ↔
      (∃ d, Decimal.parse? text.toList = some d ∧ d.nearest = value) ∧ value.isFinite = true := by
  simp only [parse?, Option.bind_eq_some_iff, Option.ite_none_right_eq_some, Option.some.injEq]
  constructor
  · rintro ⟨d, reads, finite, rfl⟩
    exact ⟨⟨d, reads, rfl⟩, finite⟩
  · rintro ⟨⟨d, reads, rfl⟩, finite⟩
    exact ⟨d, reads, finite, rfl⟩

namespace Token

theorem ne_plus_of_word {token : Token} (lexeme : token.IsLexeme) (word : token.kind = .word) :
    ∃ first rest, token.text.toList = first :: rest ∧ first ≠ '+' := by
  obtain ⟨first, rest, text, kind⟩ := lexeme
  refine ⟨first, rest, by rw [text, String.toList_ofList], ?_⟩
  rintro rfl
  rw [word] at kind
  cases kind

end Token

namespace Term

/-- What a word means: a register by its exact name, a number by what it reads as, if that is
finite. -/
inductive IsMeant : String → Term → Prop
  | register {text : String} {r : Register} (named : (text, r) ∈ Register.table) :
    IsMeant text (.register r)
  | literal {text : String} {d : Decimal} (reads : Decimal.parse? text.toList = some d)
    (finite : d.nearest.isFinite = true) : IsMeant text (.literal d.nearest)

theorem looksNumeric_of_parse? {token : Token} {d : Decimal} (lexeme : token.IsLexeme)
    (word : token.kind = .word) (reads : Decimal.parse? token.text.toList = some d) :
    looksNumeric token.text.toList = true := by
  obtain ⟨first, rest, text, unsigned⟩ := Token.ne_plus_of_word lexeme word
  obtain ⟨head, tail, split, begins⟩ := Decimal.begins_of_parse? reads
  rw [text] at split ⊢
  by_cases minus : first = '-'
  · subst minus
    cases split
    rcases begins with digit | ⟨rfl, -⟩
    · simp [looksNumeric, digit]
    · rfl
  · rw [Decimal.splitSign_of_unsigned rest minus unsigned] at split
    cases split
    rcases begins with digit | ⟨rfl, second, next, digit⟩
    · simp [looksNumeric, digit]
    · obtain ⟨others, rfl⟩ := List.head?_eq_some_iff.mp next
      simp [looksNumeric, digit]

theorem isWritten_iff {token : Token} {term : Term} (lexeme : token.IsLexeme) :
    IsWritten token term ↔ token.kind = .word ∧ IsMeant token.text term := by
  constructor
  · rintro (⟨word, named⟩ | ⟨word, -, number⟩)
    · exact ⟨word, .register named⟩
    · obtain ⟨⟨d, reads, rfl⟩, finite⟩ := Binary64.parse?_eq_some_iff.mp number
      exact ⟨word, .literal reads finite⟩
  · rintro ⟨word, named | ⟨reads, finite⟩⟩
    · exact .register word named
    · exact .literal word (looksNumeric_of_parse? lexeme word reads)
        (Binary64.parse?_eq_some_iff.mpr ⟨⟨_, reads, rfl⟩, finite⟩)

end Term

namespace Operand

variable {source : String} {tokens : List Token}

theorem parse_cons (anchor other : Span) (first : Token) (rest : List Token) :
    parse anchor (first :: rest) = parse other (first :: rest) := rfl

theorem joined_of_parse_eq_error {anchor : Span} {fault : Diagnostic}
    (wide : ∀ token ∈ tokens, token.span.start < token.span.stop) (some : tokens ≠ [])
    (failed : parse anchor tokens = .error fault) : fault.span.Joined tokens := by
  cases tokens with
  | nil => contradiction
  | cons first rest =>
    have begins : first ∈ first :: rest := List.mem_cons_self
    have anchors : Span.JoinedAlike (first :: rest) first.span first.span :=
      ⟨rfl, ⟨first, begins, rfl⟩, ⟨first, begins, rfl⟩, wide first begins⟩
    have alike := alike_parse (Span.joins_joined _) anchors (Statement.alike_tokens wide)
    rw [parse_cons first.span anchor, failed] at alike
    cases alike with
    | error same => exact same.span.2

structure ReadsExactly (source : String) (anchor : Span) (bare : List BareToken)
    (tokens : List Token) : Prop where
  same : tokens.map Token.bare = bare
  shown : ∀ token ∈ tokens, token.bare.text? source = some token.text
  inPlace : parse? source anchor bare = some (parse anchor tokens)
  accepts : ∀ operand, parse anchor tokens = .ok operand ↔ IsWritten tokens operand
  terms : ∀ token ∈ tokens, ∀ term,
    Term.IsWritten token term ↔ token.kind = .word ∧ term.IsMeant token.text
  looks : ∀ token ∈ tokens, token.kind = .word → ∀ d, Decimal.parse? token.text.toList = some d →
    Term.looksNumeric token.text.toList = true
  refuses : (∀ operand, ¬IsWritten tokens operand) → ∃ fault, parse anchor tokens = .error fault ∧
    (tokens = [] → fault.span = anchor) ∧ (tokens ≠ [] → fault.span.Joined tokens)

theorem readsExactly_of_scan (anchor : Span)
    (scanned : ∀ token ∈ tokens, token ∈ Token.scan source) :
    ReadsExactly source anchor (tokens.map Token.bare) tokens := by
  have shown : ∀ token ∈ tokens, token.bare.text? source = some token.text :=
    fun token member => BareToken.text?_of_mem_scan (scanned token member)
  have lexeme : ∀ token ∈ tokens, token.IsLexeme :=
    fun token member => Token.isLexeme_of_mem_scanFrom (scanned token member)
  constructor
  case same => rfl
  case shown => exact shown
  case inPlace =>
    have complete : ∀ token ∈ tokens, token.Shown True source := fun token member =>
      Token.shown_of_text? True (shown token member)
    exact (yields_parse? anchor complete).some trivial
  case accepts =>
    intro operand
    exact parse_eq_ok_iff anchor
  case terms =>
    intro token member term
    exact Term.isWritten_iff (lexeme token member)
  case looks =>
    intro token member word d reads
    exact Term.looksNumeric_of_parse? (lexeme token member) word reads
  case refuses =>
    intro refused
    cases failed : parse anchor tokens with
    | ok operand => exact absurd ((parse_eq_ok_iff anchor).mp failed) (refused operand)
    | error fault =>
      refine ⟨fault, rfl, ?_, ?_⟩
      · rintro rfl
        cases failed
        rfl
      · intro some
        apply joined_of_parse_eq_error _ some failed
        intro token member
        obtain ⟨wide, shown⟩ := Token.shows_of_mem_scanFrom (scanned token member)
        exact shown.lt_stop wide

theorem eq_of_parse? {anchor : Span} {bare : List BareToken} {result : Except Diagnostic Operand}
    (found : parse? source anchor bare = some result) :
    result = parse anchor (bare.map (BareToken.filled source)) := by
  have shown : ∀ token ∈ bare.map (BareToken.filled source), token.Shown False source :=
    List.forall_mem_map.mpr fun _ _ => BareToken.shown_filled False.elim
  have yields := yields_parse? anchor shown
  rw [BareToken.map_bare_filled] at yields
  exact yields.only result found

/-- Any tokens but trivia are accepted just if the grammar of operands has them. Below `2 ^ 32`
bytes, where no offset wraps, there is a result for all of them, a fault lies among them, and what
reads as a finite number looks like one. -/
theorem readsExactly_of_significant {all bare : List BareToken}
    (lexed : BareToken.lex? source = some all)
    (drawn : ∀ token ∈ bare, token ∈ BareToken.significant all) (anchor : Span) :
    (∀ result, parse? source anchor bare = some result → ∀ operand,
      result = .ok operand ↔ IsWritten (bare.map (BareToken.filled source)) operand) ∧
    (source.utf8ByteSize < UInt32.size →
      ReadsExactly source anchor bare (bare.map (BareToken.filled source))) := by
  constructor
  · intro result found operand
    rw [eq_of_parse? found]
    exact parse_eq_ok_iff anchor
  · intro small
    rw [BareToken.lex?_eq_map_bare_iff.mpr small] at lexed
    cases lexed
    have scanned : ∀ token ∈ bare.map (BareToken.filled source), token ∈ Token.scan source := by
      refine List.forall_mem_map.mpr fun kept member => ?_
      obtain ⟨token, among, rfl⟩ := List.mem_map.mp (List.mem_of_mem_filter (drawn kept member))
      rwa [BareToken.filled_of_text? (BareToken.text?_of_mem_scan among)]
    have exactly := readsExactly_of_scan anchor scanned
    rwa [BareToken.map_bare_filled] at exactly

theorem readsExactly_cell :
    let source := "[1 + rax]"
    let bare := BareToken.significant ((Token.scan source).map Token.bare)
    let tokens := bare.map (BareToken.filled source)
    ReadsExactly source ⟨0, 0⟩ bare tokens ∧
      parse? source ⟨0, 0⟩ bare = some (.ok ⟨some ⟨.address, 0⟩, some (.ofInt 1), true⟩) := by
  intro source bare tokens
  have small : source.utf8ByteSize < UInt32.size := by decide +kernel
  have exactly : ReadsExactly source ⟨0, 0⟩ bare tokens :=
    (readsExactly_of_significant (BareToken.lex?_eq_map_bare_iff.mpr small)
      (fun _ member => member) ⟨0, 0⟩).2 small
  have scanned : tokens = [⟨.bracketOpen, ⟨0, 1⟩, "["⟩, ⟨.word, ⟨1, 2⟩, "1"⟩,
      ⟨.plus, ⟨3, 4⟩, "+"⟩, ⟨.word, ⟨5, 8⟩, "rax"⟩, ⟨.bracketClose, ⟨8, 9⟩, "]"⟩] := by
    decide +kernel
  have one : Term.IsWritten ⟨.word, ⟨1, 2⟩, "1"⟩ (.literal (.ofInt 1)) :=
    .literal rfl (by decide +kernel) (by decide +kernel)
  have index : Term.IsWritten ⟨.word, ⟨5, 8⟩, "rax"⟩ (.register ⟨.address, 0⟩) :=
    .register rfl (by decide)
  have written : IsWritten tokens ⟨some ⟨.address, 0⟩, some (.ofInt 1), true⟩ := by
    rw [scanned]
    exact .cell (.brackets rfl rfl (.literalFirst one rfl index) (by simp [Register.isAddress])
      (by decide +kernel))
  refine ⟨exactly, ?_⟩
  rw [exactly.inPlace, (exactly.accepts _).mpr written]

end Operand

end StackMachine
