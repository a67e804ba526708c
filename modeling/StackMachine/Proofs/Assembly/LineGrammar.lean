import Mathlib.Data.List.Forall2
import StackMachine.Proofs.Assembly.OperandGrammar
import StackMachine.Proofs.Assembly.Scanning

set_option autoImplicit false

namespace StackMachine

theorem Opcode.ofMnemonic?_eq_some_iff {text : String} {op : Opcode} :
    ofMnemonic? text = some op ↔ text.map Char.toLower = op.mnemonic := by
  constructor
  · intro found
    have same := List.find?_some found
    exact (eq_of_beq same).symm
  · intro same
    have distinct : ∀ op ∈ all,
        all.find? (fun other => other.mnemonic == op.mnemonic) = some op := by
      decide +kernel
    rw [ofMnemonic?, same]
    exact distinct op (mem_all op)

namespace Token

def Names (token : Token) (op : Opcode) : Prop :=
  token.kind = .word ∧ token.text.map Char.toLower = op.mnemonic

theorem IsLexeme.kind_of_void {token : Token} (lexeme : token.IsLexeme)
    (void : token.text = "void") : token.kind = .word := by
  obtain ⟨first, rest, text, kind⟩ := lexeme
  have chars := congrArg String.toList (text.symm.trans void)
  rw [String.toList_ofList] at chars
  cases chars
  exact kind

end Token

namespace Operand

theorem IsSum.not_void {token : Token} {rest : List Token} {operand : Operand}
    (written : IsSum (token :: rest) operand) : token.text ≠ "void" := by
  have word {term : Term} (written : term.IsWritten token) : token.text ≠ "void" := by
    intro void
    have unread : Register.ofName? "void" = none ∧ Term.looksNumeric "void".toList = false := by
      decide +kernel
    cases written with
    | register _ named =>
      rw [void, ← Register.ofName?_eq_some_iff, unread.1] at named
      cases named
    | literal _ looks _ =>
      rw [void, unread.2] at looks
      cases looks
  cases written with
  | register written | literal written => exact word written
  | registerFirst first _ _ | literalFirst first _ _ => exact word first

theorem IsCell.length {tokens : List Token} {operand : Operand} (written : IsCell tokens operand) :
    2 ≤ tokens.length := by
  cases written
  simp

theorem IsCell.validFor_pop {tokens : List Token} {operand : Operand}
    (written : IsCell tokens operand) : operand.mode.validFor .pop = true := by
  cases written with
  | brackets _ _ sum _ _ => cases sum <;> rfl

theorem not_isWritten_void {token : Token} {operand : Operand} (void : token.text = "void") :
    ¬IsWritten [token] operand := by
  rintro (written | written)
  · exact written.not_void void
  · exact absurd written.length (by simp)

inductive IsPlaceWritten : List Token → Operand → Prop
  | cell {tokens : List Token} {operand : Operand} (written : IsCell tokens operand) :
    IsPlaceWritten tokens operand
  | register {token : Token} {r : Register} (written : Term.IsWritten token (.register r)) :
    IsPlaceWritten [token] ⟨some r, none, false⟩
  | void {token : Token} (text : token.text = "void") : IsPlaceWritten [token] .void

theorem isPlaceWritten_void_iff {token : Token} {operand : Operand} (text : token.text = "void") :
    IsPlaceWritten [token] operand ↔ operand = .void := by
  constructor
  · rintro (written | written | _)
    · exact absurd (.cell written) (not_isWritten_void text)
    · exact absurd text (IsSum.register written).not_void
    · rfl
  · rintro rfl
    exact .void text

end Operand

namespace Statement

inductive IsInstruction : List Token → StatementKind → Prop
  | plain {head : Token} {op : PlainOp} (named : head.Names (.plain op)) :
    IsInstruction [head] (.instruction (.plain op))
  | branch {head target : Token} {op : BranchOp} (named : head.Names (.branch op))
    (word : target.kind = .word) :
    IsInstruction [head, target] (.branch op target.text target.span)
  | push {head : Token} {operands : List Token} {operand : Operand} (named : head.Names .push)
    (written : Operand.IsWritten operands operand) :
    IsInstruction (head :: operands) (.instruction (.push operand))
  | pop {head : Token} {operands : List Token} {operand : Operand} (named : head.Names .pop)
    (written : Operand.IsPlaceWritten operands operand) :
    IsInstruction (head :: operands) (.instruction (.pop operand))

inductive RestReads : List Token → Parsed → Prop
  | nothing : RestReads [] ⟨[], []⟩
  | statement {head : Token} {operands : List Token} {kind : StatementKind}
    (readable : IsInstruction (head :: operands) kind) :
    RestReads (head :: operands) ⟨[⟨head.cover operands, kind⟩], []⟩
  | fault {head : Token} {operands : List Token} {fault : Diagnostic}
    (unreadable : ∀ kind, ¬IsInstruction (head :: operands) kind) :
    RestReads (head :: operands) ⟨[], [fault]⟩

def StartsWithLabel (name colon : Token) : Prop :=
  name.kind = .word ∧ colon.kind = .colon ∧ colon.span.start = name.span.stop

inductive LineReads : List Token → Parsed → Prop
  | labelled {name colon : Token} {rest : List Token} {parsed : Parsed}
    (label : StartsWithLabel name colon) (reads : RestReads rest parsed) :
    LineReads (name :: colon :: rest)
      ⟨⟨name.span, .label name.text⟩ :: parsed.statements, parsed.diagnostics⟩
  | unlabelled {tokens : List Token} {parsed : Parsed}
    (none : ∀ name colon rest, tokens = name :: colon :: rest → ¬StartsWithLabel name colon)
    (reads : RestReads tokens parsed) : LineReads tokens parsed

theorem voidWord?_eq_some_iff {tokens : List Token} {token : Token} :
    voidWord? tokens = some token ↔ tokens = [token] ∧ token.text = "void" := by
  unfold voidWord?
  split
  next only =>
    by_cases void : only.text = "void"
    · simp only [void, if_true, Option.some.injEq, List.cons.injEq, and_true]
      exact ⟨fun same => ⟨same, same ▸ void⟩, And.left⟩
    · simp only [void, if_false, reduceCtorEq, List.cons.injEq, and_true, false_iff]
      rintro ⟨rfl, other⟩
      exact void other
  next other =>
    simp only [reduceCtorEq, false_iff]
    rintro ⟨alone, -⟩
    exact other _ alone

theorem parsePush_eq_ok_iff {anchor : Span} {operands : List Token} {kind : StatementKind} :
    parsePush anchor operands = .ok kind ↔
      ∃ operand, Operand.IsWritten operands operand ∧ kind = .instruction (.push operand) := by
  unfold parsePush
  split
  next word found =>
    obtain ⟨rfl, void⟩ := voidWord?_eq_some_iff.mp found
    simp [Operand.not_isWritten_void void]
  next =>
    simp only [← Operand.parse_eq_ok_iff anchor]
    cases Operand.parse anchor operands <;> simp [Except.map, eq_comm]

theorem isPlaceWritten_iff {operands : List Token} {operand : Operand}
    (other : voidWord? operands = none) :
    Operand.IsPlaceWritten operands operand ↔
      Operand.IsWritten operands operand ∧ operand.mode.validFor .pop = true := by
  constructor
  · rintro (written | written | void)
    · exact ⟨.cell written, written.validFor_pop⟩
    · exact ⟨.sum (.register written), rfl⟩
    · rw [voidWord?_eq_some_iff.mpr ⟨rfl, void⟩] at other
      cases other
  · rintro ⟨written | written, valid⟩
    · cases written with
      | register written => exact .register written
      | literal _ | registerFirst _ _ _ | literalFirst _ _ _ => cases valid
    · exact .cell written

theorem parsePop_eq_ok_iff {anchor : Span} {operands : List Token} {kind : StatementKind} :
    parsePop anchor operands = .ok kind ↔
      ∃ operand, Operand.IsPlaceWritten operands operand ∧ kind = .instruction (.pop operand) := by
  unfold parsePop
  split
  next word found =>
    obtain ⟨rfl, void⟩ := voidWord?_eq_some_iff.mp found
    simp [Operand.isPlaceWritten_void_iff void, eq_comm]
  next other =>
    simp only [isPlaceWritten_iff other, ← Operand.parse_eq_ok_iff anchor]
    cases Operand.parse anchor operands with
    | error fault => simp [Except.bind]
    | ok operand =>
      by_cases valid : operand.mode.validFor .pop = true
      · simp only [Except.bind, valid, if_true, Except.ok.injEq]
        constructor
        · rintro rfl
          exact ⟨operand, ⟨rfl, valid⟩, rfl⟩
        · rintro ⟨_, ⟨rfl, -⟩, rfl⟩
          rfl
      · simp [Except.bind, valid]

theorem parseBranch_eq_ok_iff {op : BranchOp} {anchor : Span} {operands : List Token}
    {kind : StatementKind} :
    parseBranch op anchor operands = .ok kind ↔
      ∃ target, operands = [target] ∧ target.kind = .word ∧
        kind = .branch op target.text target.span := by
  cases operands with
  | nil => simp [parseBranch]
  | cons first rest =>
    by_cases word : first.kind = .word
    · cases rest with
      | nil => simp [parseBranch, word, eq_comm]
      | cons extra others => simp [parseBranch, word]
    · simp only [parseBranch, ne_eq, word, not_false_eq_true, if_true, reduceCtorEq, false_iff]
      rintro ⟨target, same, isWord, -⟩
      cases same
      exact word isWord

theorem parsePlain_eq_ok_iff {op : PlainOp} {operands : List Token} {kind : StatementKind} :
    parsePlain op operands = .ok kind ↔ operands = [] ∧ kind = .instruction (.plain op) := by
  cases operands <;> simp [parsePlain, eq_comm]

theorem parseOperation_of_names {head : Token} {op : Opcode} (named : head.Names op)
    (operands : List Token) :
    parseOperation head operands =
      match op with
      | .push => parsePush head.span operands
      | .pop => parsePop head.span operands
      | .branch op => parseBranch op head.span operands
      | .plain op => parsePlain op operands := by
  simp only [parseOperation, if_pos named.1, Opcode.ofMnemonic?_eq_some_iff.mpr named.2]
  cases op <;> rfl

theorem exists_names {head : Token} {operands : List Token} {kind : StatementKind}
    (parsed : parseOperation head operands = .ok kind) : ∃ op, head.Names op := by
  unfold parseOperation at parsed
  by_cases word : head.kind = .word
  · cases found : Opcode.ofMnemonic? head.text with
    | none => simp [word, found] at parsed
    | some op => exact ⟨op, word, Opcode.ofMnemonic?_eq_some_iff.mp found⟩
  · simp [word] at parsed

theorem parseOperation_eq_ok_iff {head : Token} {operands : List Token} {kind : StatementKind} :
    parseOperation head operands = .ok kind ↔ IsInstruction (head :: operands) kind := by
  constructor
  · intro parsed
    obtain ⟨op, named⟩ := exists_names parsed
    rw [parseOperation_of_names named] at parsed
    cases op with
    | plain op =>
      obtain ⟨rfl, rfl⟩ := parsePlain_eq_ok_iff.mp parsed
      exact .plain named
    | push =>
      obtain ⟨operand, written, rfl⟩ := parsePush_eq_ok_iff.mp parsed
      exact .push named written
    | pop =>
      obtain ⟨operand, written, rfl⟩ := parsePop_eq_ok_iff.mp parsed
      exact .pop named written
    | branch op =>
      obtain ⟨target, rfl, word, rfl⟩ := parseBranch_eq_ok_iff.mp parsed
      exact .branch named word
  · rintro (named | ⟨named, word⟩ | ⟨named, written⟩ | ⟨named, written⟩)
    · rw [parseOperation_of_names named]
      rfl
    · rw [parseOperation_of_names named]
      exact parseBranch_eq_ok_iff.mpr ⟨_, rfl, word, rfl⟩
    · rw [parseOperation_of_names named]
      exact parsePush_eq_ok_iff.mpr ⟨_, written, rfl⟩
    · rw [parseOperation_of_names named]
      exact parsePop_eq_ok_iff.mpr ⟨_, written, rfl⟩

theorem restReads_parseRest (tokens : List Token) : RestReads tokens (parseRest tokens) := by
  cases tokens with
  | nil => exact .nothing
  | cons head operands =>
    cases parsed : parseOperation head operands with
    | ok kind =>
      simp only [parseRest, parsed]
      exact .statement (parseOperation_eq_ok_iff.mp parsed)
    | error fault =>
      simp only [parseRest, parsed]
      refine .fault fun kind readable => ?_
      rw [parseOperation_eq_ok_iff.mpr readable] at parsed
      cases parsed

theorem splitLabel_cases (tokens : List Token) :
    (∃ name colon rest, tokens = name :: colon :: rest ∧ StartsWithLabel name colon ∧
      splitLabel tokens = (some name, rest)) ∨
    ((∀ name colon rest, tokens = name :: colon :: rest → ¬StartsWithLabel name colon) ∧
      splitLabel tokens = (none, tokens)) := by
  unfold splitLabel
  split
  next name colon rest =>
    by_cases label : StartsWithLabel name colon
    · exact .inl ⟨name, colon, rest, rfl, label, if_pos label⟩
    · refine .inr ⟨?_, if_neg label⟩
      rintro _ _ _ ⟨rfl, rfl, rfl⟩
      exact label
  next short => exact .inr ⟨fun name colon rest long => absurd long (short name colon rest), rfl⟩

theorem lineReads_parseLine (tokens : List Token) : LineReads tokens (parseLine tokens) := by
  obtain ⟨name, colon, rest, rfl, label, split⟩ | ⟨unlabelled, split⟩ := splitLabel_cases tokens
  · rw [parseLine, split]
    exact .labelled label (restReads_parseRest rest)
  · rw [parseLine, split]
    exact .unlabelled unlabelled (restReads_parseRest tokens)

end Statement

end StackMachine
