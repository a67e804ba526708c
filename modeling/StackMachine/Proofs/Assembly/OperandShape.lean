import StackMachine.Assembly.Statement
import StackMachine.Proofs.Bytecode.RoundTrip

set_option autoImplicit false

namespace StackMachine

theorem Register.inTable_of_ofName? {name : String} {r : Register}
    (found : Register.ofName? name = some r) : r.InTable := by
  obtain ⟨before, after, split, -⟩ := List.lookup_eq_some_iff.mp found
  rw [Register.InTable, split]
  simp

namespace Term

def InTable : Term → Prop
  | .register r => r.InTable
  | .literal _ => True

theorem inTable_ofToken {token : Token} {term : Term} (read : ofToken token = .ok term) :
    term.InTable := by
  simp only [ofToken, ofWord] at read
  split at read
  next =>
    split at read
    next r found =>
      cases read
      exact Register.inTable_of_ofName? found
    next =>
      split at read
      next =>
        split at read
        next =>
          cases read
          trivial
        next => cases read
      next => cases read
  next => cases read

end Term

theorem exists_of_bind_eq_ok {ε α β : Type} {first : Except ε α} {next : α → Except ε β} {b : β}
    (done : first.bind next = .ok b) : ∃ a, first = .ok a ∧ next a = .ok b := by
  cases first with
  | error fault => cases done
  | ok a => exact ⟨a, rfl, done⟩

namespace Operand

def Writable (operand : Operand) : Prop := operand.HasValue ∧ operand.InTable

theorem writable_ofTerm {term : Term} (known : term.InTable) : (ofTerm term).Writable := by
  cases term with
  | register r => exact ⟨.inl rfl, by simpa [InTable, ofTerm]⟩
  | literal value => exact ⟨.inr rfl, by simp [InTable, ofTerm]⟩

theorem writable_ofTerms {span : Span} {left right : Term} {operand : Operand}
    (leftKnown : left.InTable) (rightKnown : right.InTable)
    (sum : ofTerms span left right = .ok operand) : operand.Writable := by
  cases left <;> cases right <;> simp only [ofTerms, Except.ok.injEq, reduceCtorEq] at sum
  all_goals
    subst sum
    exact ⟨.inl rfl, by simpa [InTable]⟩

theorem writable_parseSum {anchor : Span} {tokens : List Token} {operand : Operand}
    (parsed : parseSum anchor tokens = .ok operand) : operand.Writable := by
  unfold parseSum at parsed
  split at parsed
  next => cases parsed
  next first rest =>
    split at parsed
    next => cases parsed
    next left leftRead =>
      cases parsed
      exact writable_ofTerm (Term.inTable_ofToken leftRead)
    next left plus others leftRead =>
      split at parsed
      next => cases parsed
      next =>
        split at parsed
        next => cases parsed
        next second extra =>
          split at parsed
          next => cases parsed
          next right rightRead =>
            have leftKnown := Term.inTable_ofToken leftRead
            exact writable_ofTerms leftKnown (Term.inTable_ofToken rightRead) parsed
          next => cases parsed

theorem writable_indexed {opening closing : Token} {inner : List Token} {sum operand : Operand}
    (writable : sum.Writable) (parsed : indexed opening closing inner sum = .ok operand) :
    operand.Writable := by
  unfold indexed at parsed
  split at parsed
  next => cases parsed
  next =>
    split at parsed
    next => cases parsed
    next =>
      cases parsed
      exact writable

theorem writable_parseReference {opening : Token} {rest : List Token} {operand : Operand}
    (parsed : parseReference opening rest = .ok operand) : operand.Writable := by
  simp only [parseReference] at parsed
  split at parsed
  next => cases parsed
  next =>
    split at parsed
    next => cases parsed
    next => cases parsed
    next =>
      obtain ⟨sum, inner, wrapped⟩ := exists_of_bind_eq_ok parsed
      exact writable_indexed (writable_parseSum inner) wrapped

theorem writable_parse {anchor : Span} {tokens : List Token} {operand : Operand}
    (parsed : parse anchor tokens = .ok operand) : operand.Writable := by
  unfold parse at parsed
  split at parsed
  next => cases parsed
  next =>
    split at parsed
    next => exact writable_parseReference parsed
    next => exact writable_parseSum parsed

end Operand

namespace Statement

def HasShape (kind : StatementKind) : Prop :=
  match kind with
  | .instruction i => i.target? = none ∧ i.HasShape
  | .label _ | .branch _ _ _ => True

theorem hasShape_parsePush {anchor : Span} {operands : List Token} {kind : StatementKind}
    (parsed : parsePush anchor operands = .ok kind) : HasShape kind := by
  unfold parsePush at parsed
  split at parsed
  next => cases parsed
  next =>
    cases read : Operand.parse anchor operands with
    | error fault =>
      rw [read] at parsed
      cases parsed
    | ok operand =>
      rw [read] at parsed
      cases parsed
      exact ⟨rfl, Operand.writable_parse read⟩

theorem hasShape_parsePop {anchor : Span} {operands : List Token} {kind : StatementKind}
    (parsed : parsePop anchor operands = .ok kind) : HasShape kind := by
  unfold parsePop at parsed
  split at parsed
  next =>
    cases parsed
    exact ⟨rfl, .inl rfl, fun r none => by cases none⟩
  next =>
    obtain ⟨operand, read, checked⟩ := exists_of_bind_eq_ok parsed
    split at checked
    next valid =>
      cases checked
      exact ⟨rfl, Operand.validFor_pop_iff.mp valid, (Operand.writable_parse read).2⟩
    next => cases checked

theorem hasShape_parseBranch {op : BranchOp} {anchor : Span} {operands : List Token}
    {kind : StatementKind} (parsed : parseBranch op anchor operands = .ok kind) :
    HasShape kind := by
  cases operands with
  | nil => cases parsed
  | cons first rest =>
    simp only [parseBranch] at parsed
    split at parsed
    next => cases parsed
    next =>
      cases rest with
      | nil =>
        cases parsed
        trivial
      | cons extra others => cases parsed

theorem hasShape_parsePlain {op : PlainOp} {operands : List Token} {kind : StatementKind}
    (parsed : parsePlain op operands = .ok kind) : HasShape kind := by
  cases operands with
  | nil =>
    cases parsed
    exact ⟨rfl, trivial⟩
  | cons first rest => cases parsed

theorem hasShape_parseOperation {head : Token} {operands : List Token} {kind : StatementKind}
    (parsed : parseOperation head operands = .ok kind) : HasShape kind := by
  unfold parseOperation at parsed
  split at parsed
  next => cases parsed
  next => exact hasShape_parsePush parsed
  next => exact hasShape_parsePop parsed
  next => exact hasShape_parseBranch parsed
  next => exact hasShape_parsePlain parsed

theorem exists_operation {tokens : List Token} {statement : Statement}
    (member : statement ∈ (parseLine tokens).statements) :
    (∃ name, statement.kind = .label name) ∨
      ∃ head operands, parseOperation head operands = .ok statement.kind := by
  simp only [parseLine, List.mem_append, Option.mem_toList, Option.map_eq_some_iff] at member
  obtain ⟨name, -, rfl⟩ | rest := member
  · exact .inl ⟨_, rfl⟩
  · unfold parseRest at rest
    split at rest
    next => cases rest
    next head operands _ =>
      split at rest
      next kind parsed =>
        cases List.mem_singleton.mp rest
        exact .inr ⟨head, operands, parsed⟩
      next => cases rest

theorem hasShape_parseLine {tokens : List Token} {statement : Statement}
    (member : statement ∈ (parseLine tokens).statements) : HasShape statement.kind := by
  obtain ⟨name, label⟩ | ⟨head, operands, parsed⟩ := exists_operation member
  · rw [label]
    trivial
  · exact hasShape_parseOperation parsed

end Statement

theorem hasShape_parse {source : String} {statement : Statement}
    (member : statement ∈ (parse source).statements) : Statement.HasShape statement.kind := by
  simp only [parse, List.mem_flatMap, List.mem_map] at member
  obtain ⟨parsed, ⟨line, -, rfl⟩, found⟩ := member
  exact Statement.hasShape_parseLine found

end StackMachine
