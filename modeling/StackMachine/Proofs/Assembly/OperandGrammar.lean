import StackMachine.Proofs.Assembly.OperandShape

set_option autoImplicit false

namespace StackMachine

theorem Register.ofName?_eq_some_iff {name : String} {r : Register} :
    ofName? name = some r ↔ (name, r) ∈ table := by
  constructor
  · intro found
    obtain ⟨before, after, split, -⟩ := List.lookup_eq_some_iff.mp found
    simp [split]
  · intro member
    have each : ∀ entry ∈ table, ofName? entry.1 = some entry.2 := by decide +kernel
    exact each _ member

namespace Term

inductive IsWritten : Token → Term → Prop
  | register {token : Token} {r : Register} (word : token.kind = .word)
    (named : (token.text, r) ∈ Register.table) : IsWritten token (.register r)
  | literal {token : Token} {value : Binary64} (word : token.kind = .word)
    (looks : looksNumeric token.text.toList = true)
    (reads : Binary64.parse? token.text = some value) : IsWritten token (.literal value)

theorem ofName?_of_looksNumeric {text : String} (looks : looksNumeric text.toList = true) :
    Register.ofName? text = none := by
  have names : ∀ entry ∈ Register.table, looksNumeric entry.1.toList = false := by decide +kernel
  cases found : Register.ofName? text with
  | none => rfl
  | some r =>
    have other := names _ (Register.ofName?_eq_some_iff.mp found)
    simp [looks] at other

theorem ofToken_eq_ok_iff {token : Token} {term : Term} :
    ofToken token = .ok term ↔ IsWritten token term := by
  constructor
  · intro read
    simp only [ofToken, ofWord] at read
    split at read
    next word =>
      split at read
      next r found =>
        cases read
        exact .register word (Register.ofName?_eq_some_iff.mp found)
      next =>
        split at read
        next looks =>
          split at read
          next value reads =>
            cases read
            exact .literal word looks reads
          next => cases read
        next => cases read
    next => cases read
  · rintro (⟨word, named⟩ | ⟨word, looks, reads⟩)
    · simp [ofToken, ofWord, word, Register.ofName?_eq_some_iff.mpr named]
    · simp [ofToken, ofWord, word, ofName?_of_looksNumeric looks, looks, reads]

theorem IsWritten.word {token : Token} {term : Term} (written : IsWritten token term) :
    token.kind = .word := by
  cases written <;> assumption

end Term

namespace Operand

inductive IsSum : List Token → Operand → Prop
  | register {token : Token} {r : Register} (written : Term.IsWritten token (.register r)) :
    IsSum [token] ⟨some r, none, false⟩
  | literal {token : Token} {value : Binary64} (written : Term.IsWritten token (.literal value)) :
    IsSum [token] ⟨none, some value, false⟩
  | registerFirst {left plus right : Token} {r : Register} {value : Binary64}
    (first : Term.IsWritten left (.register r)) (sum : plus.kind = .plus)
    (second : Term.IsWritten right (.literal value)) :
    IsSum [left, plus, right] ⟨some r, some value, false⟩
  | literalFirst {left plus right : Token} {r : Register} {value : Binary64}
    (first : Term.IsWritten left (.literal value)) (sum : plus.kind = .plus)
    (second : Term.IsWritten right (.register r)) :
    IsSum [left, plus, right] ⟨some r, some value, false⟩

inductive IsCell : List Token → Operand → Prop
  | brackets {opening closing : Token} {inner : List Token} {sum : Operand}
    (opens : opening.kind = .bracketOpen) (closes : closing.kind = .bracketClose)
    (written : IsSum inner sum) (address : ∀ r ∈ sum.register, r.isAddress = true)
    (integral : ∀ value ∈ sum.literal, value.hasFraction = false) :
    IsCell (opening :: (inner ++ [closing])) { sum with inMemory := true }

inductive IsWritten : List Token → Operand → Prop
  | sum {tokens : List Token} {operand : Operand} (written : IsSum tokens operand) :
    IsWritten tokens operand
  | cell {tokens : List Token} {operand : Operand} (written : IsCell tokens operand) :
    IsWritten tokens operand

theorem isSum_ofTerm {token : Token} {term : Term} (written : term.IsWritten token) :
    IsSum [token] (ofTerm term) := by
  cases term with
  | register r => exact .register written
  | literal value => exact .literal written

theorem isSum_ofTerms {left plus right : Token} {first second : Term} {span : Span}
    {operand : Operand} (firstWritten : first.IsWritten left) (between : plus.kind = .plus)
    (secondWritten : second.IsWritten right) (sum : ofTerms span first second = .ok operand) :
    IsSum [left, plus, right] operand := by
  cases first <;> cases second <;> cases sum
  · exact .registerFirst firstWritten between secondWritten
  · exact .literalFirst firstWritten between secondWritten

theorem isSum_of_parseSum {anchor : Span} {tokens : List Token} {operand : Operand}
    (parsed : parseSum anchor tokens = .ok operand) : IsSum tokens operand := by
  unfold parseSum at parsed
  split at parsed
  next => cases parsed
  next first rest =>
    split at parsed
    next => cases parsed
    next left leftRead =>
      cases parsed
      exact isSum_ofTerm (Term.ofToken_eq_ok_iff.mp leftRead)
    next left plus others leftRead =>
      split at parsed
      next => cases parsed
      next between =>
        split at parsed
        next => cases parsed
        next second extra =>
          split at parsed
          next => cases parsed
          next right rightRead =>
            exact isSum_ofTerms (Term.ofToken_eq_ok_iff.mp leftRead) (Decidable.not_not.mp between)
              (Term.ofToken_eq_ok_iff.mp rightRead) parsed
          next => cases parsed

theorem parseSum_eq_ok_iff (anchor : Span) {tokens : List Token} {operand : Operand} :
    parseSum anchor tokens = .ok operand ↔ IsSum tokens operand := by
  refine ⟨isSum_of_parseSum, fun written => ?_⟩
  cases written with
  | register written | literal written =>
    simp [parseSum, Term.ofToken_eq_ok_iff.mpr written, ofTerm]
  | registerFirst first between second | literalFirst first between second =>
    simp [parseSum, Term.ofToken_eq_ok_iff.mpr first, Term.ofToken_eq_ok_iff.mpr second, between,
      ofTerms]

theorem IsSum.head {token : Token} {rest : List Token} {operand : Operand}
    (written : IsSum (token :: rest) operand) : token.kind = .word := by
  cases written with
  | register written | literal written => exact written.word
  | registerFirst first _ _ | literalFirst first _ _ => exact first.word

theorem IsCell.head {token : Token} {rest : List Token} {operand : Operand}
    (written : IsCell (token :: rest) operand) : token.kind = .bracketOpen := by
  cases written
  assumption

theorem IsSum.ne_nil {operand : Operand} : ¬IsSum [] operand := nofun

theorem IsSum.kind {tokens : List Token} {operand : Operand} (written : IsSum tokens operand) :
    ∀ token ∈ tokens, token.kind ≠ .bracketClose := by
  cases written with
  | register written | literal written => simp [written.word]
  | registerFirst first between second | literalFirst first between second =>
    simp [first.word, between, second.word]

theorem indexed_eq_ok_iff {opening closing : Token} {inner : List Token} {sum operand : Operand} :
    indexed opening closing inner sum = .ok operand ↔
      operand = { sum with inMemory := true } ∧
        (∀ r ∈ sum.register, r.isAddress = true) ∧
        ∀ value ∈ sum.literal, value.hasFraction = false := by
  have address : (∀ r ∈ sum.register, r.isAddress = true) ↔
      sum.register.filter (!·.isAddress) = none := by
    simp [Option.filter_eq_none_iff]
  have integral : (∀ value ∈ sum.literal, value.hasFraction = false) ↔
      sum.literal.any (·.hasFraction) = false := by
    cases sum.literal <;> simp
  rw [address, integral, indexed]
  cases sum.register.filter (!·.isAddress) with
  | some r => simp
  | none => cases sum.literal.any (·.hasFraction) <;> simp [eq_comm]

theorem parseReference_eq_ok_iff {opening : Token} {rest : List Token} {operand : Operand}
    (opens : opening.kind = .bracketOpen) :
    parseReference opening rest = .ok operand ↔ IsCell (opening :: rest) operand := by
  constructor
  · intro parsed
    simp only [parseReference] at parsed
    split at parsed
    next => cases parsed
    next closing after split =>
      have closes := List.head?_dropWhile_not
        (fun token : Token => decide (token.kind ≠ .bracketClose)) rest
      rw [split] at closes
      split at parsed
      next => cases parsed
      next => cases parsed
      next =>
        obtain ⟨sum, inner, wrapped⟩ := exists_of_bind_eq_ok parsed
        obtain ⟨rfl, address, integral⟩ := indexed_eq_ok_iff.mp wrapped
        have written := isSum_of_parseSum inner
        have whole := List.takeWhile_append_dropWhile
          (p := fun token : Token => decide (token.kind ≠ .bracketClose)) (l := rest)
        rw [split] at whole
        rw [← whole]
        exact .brackets opens (by simpa using closes) written address integral
  · intro cell
    cases cell with
    | @brackets _ closing inner sum _ closes written address integral =>
      -- A sum holds no closing bracket, so that the parser cuts where the grammar does.
      have inside : ∀ token ∈ inner, decide (token.kind ≠ .bracketClose) = true := by
        simpa using written.kind
      have left : (inner ++ [closing]).takeWhile _ = _ := List.takeWhile_append_of_pos inside
      have right : (inner ++ [closing]).dropWhile _ = _ := List.dropWhile_append_of_pos inside
      simp only [ne_eq, decide_not, closes, decide_true, Bool.not_true, Bool.false_eq_true,
        not_false_eq_true, List.takeWhile_cons_of_neg, List.dropWhile_cons_of_neg] at left right
      have summed := (parseSum_eq_ok_iff opening.span).mpr written
      simp only [parseReference, ne_eq, decide_not, left, right, List.append_nil, summed]
      cases inner with
      | nil => exact absurd written IsSum.ne_nil
      | cons head others => exact indexed_eq_ok_iff.mpr ⟨rfl, address, integral⟩

theorem parse_eq_ok_iff (anchor : Span) {tokens : List Token} {operand : Operand} :
    parse anchor tokens = .ok operand ↔ IsWritten tokens operand := by
  cases tokens with
  | nil =>
    constructor
    · exact nofun
    · rintro (written | ⟨⟨⟩⟩)
      exact absurd written IsSum.ne_nil
  | cons first rest =>
    by_cases opens : first.kind = .bracketOpen
    · rw [parse, if_pos opens, parseReference_eq_ok_iff opens]
      refine ⟨.cell, ?_⟩
      rintro (written | written)
      · have word := written.head
        rw [opens] at word
        cases word
      · exact written
    · rw [parse, if_neg opens, parseSum_eq_ok_iff]
      refine ⟨.sum, ?_⟩
      rintro (written | written)
      · exact written
      · exact absurd written.head opens

end Operand

end StackMachine
