import StackMachine.Assembly.Assembler
import StackMachine.Proofs.Assembly.LabelPass
import StackMachine.Proofs.Bytecode.RoundTrip

set_option autoImplicit false

namespace StackMachine

variable {version : Version}

namespace Encoded

theorem length_ofInstruction (span : Span) (i : Instruction) :
    (ofInstruction version span i).bytes.length = i.size version := by
  unfold ofInstruction
  split
  next supported => exact Instruction.length_bytes supported
  next => simp

theorem length_ofStatement (labels : LabelTable) (statement : Statement) :
    (ofStatement version labels statement).bytes.length = statement.size version := by
  rcases statement with ⟨span, _ | i | ⟨op, name, nameSpan⟩⟩
  · rfl
  · exact length_ofInstruction span i
  · simp only [ofStatement]
    split <;> exact length_ofInstruction span _

theorem ofInstruction_branch (version : Version) (span : Span) (op : BranchOp)
    (left right : UInt32) :
    (ofInstruction version span (.branch op left)).diagnostics =
        (ofInstruction version span (.branch op right)).diagnostics ∧
      (ofInstruction version span (.branch op left)).bytes[0]? =
        (ofInstruction version span (.branch op right)).bytes[0]? := by
  cases version with
  | one => simp [ofInstruction, Instruction.isSupported_branch, nameOf, Instruction.target?,
      Instruction.mnemonic, Instruction.opcode, Instruction.size]
  | two => simp [ofInstruction, Instruction.isSupported_two, Instruction.bytes]

end Encoded

theorem length_encode (labels : LabelTable) (statements : List Statement) :
    (encode version labels statements).bytes.length = Statement.extent version statements := by
  simp only [encode, List.flatMap_map, List.length_flatMap, Encoded.length_ofStatement,
    Statement.extent]

def Emitted.assembly (emitted : Emitted) (version : Version) : Assembly :=
  ⟨⟨version, emitted.bytes.toArray⟩, emitted.labels⟩

namespace Parsed

variable {pipeline : Pipeline} {parsed : Parsed}

theorem assembled_eq_ok_iff {assembly : Assembly} :
    parsed.assembled version pipeline = .ok assembly ↔
      parsed.diagnostics = [] ∧
        (Emitted.ofStatements version pipeline parsed.statements).diagnostics = [] ∧
        (Emitted.ofStatements version pipeline parsed.statements).assembly version = assembly := by
  simp only [assembled]
  split
  next clean =>
    have both := List.append_eq_nil_iff.mp clean
    constructor
    · rintro ⟨rfl⟩
      exact ⟨both.1, both.2, rfl⟩
    · rintro ⟨-, -, rfl⟩
      rfl
  next faulty =>
    constructor
    · intro done
      cases done
    · rintro ⟨read, encoded, -⟩
      exact absurd (by simp [read, encoded]) faulty

theorem assembled_eq_error_iff {diagnostics : List Diagnostic} :
    parsed.assembled version pipeline = .error diagnostics ↔
      diagnostics ≠ [] ∧ diagnostics = parsed.diagnostics ++
        (Emitted.ofStatements version pipeline parsed.statements).diagnostics := by
  simp only [assembled]
  split
  next clean => simp [clean]
  next faulty =>
    constructor
    · rintro ⟨rfl⟩
      exact ⟨faulty, rfl⟩
    · rintro ⟨-, rfl⟩
      rfl

end Parsed

theorem assemble_eq_ok_iff {pipeline : Pipeline} {source : String} {assembly : Assembly} :
    assemble version pipeline source = .ok assembly ↔
      (parse source).diagnostics = [] ∧
        (Emitted.ofStatements version pipeline (parse source).statements).diagnostics = [] ∧
        (Emitted.ofStatements version pipeline (parse source).statements).assembly version =
          assembly := Parsed.assembled_eq_ok_iff

theorem assemble_eq_error_iff {pipeline : Pipeline} {source : String}
    {diagnostics : List Diagnostic} :
    assemble version pipeline source = .error diagnostics ↔
      diagnostics ≠ [] ∧ diagnostics = (parse source).diagnostics ++
        (Emitted.ofStatements version pipeline (parse source).statements).diagnostics :=
  Parsed.assembled_eq_error_iff

end StackMachine
