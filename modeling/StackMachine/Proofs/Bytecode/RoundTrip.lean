import StackMachine.Proofs.Bytecode.Reading

set_option autoImplicit false

namespace StackMachine

namespace Operand

def InTable (operand : Operand) : Prop := ∀ r ∈ operand.register, r.InTable

def HasValue (operand : Operand) : Prop := operand.register.isSome ∨ operand.literal.isSome

def IsPlace (operand : Operand) : Prop :=
  operand = void ∨ (∃ r, operand = ⟨some r, none, false⟩) ∨
    (operand.inMemory = true ∧ operand.HasValue)

theorem validFor_push_iff {operand : Operand} :
    operand.mode.validFor .push = true ↔ operand.HasValue := by
  rcases operand with ⟨_ | _, _ | _, _⟩ <;> simp [mode, Mode.validFor, HasValue]

theorem validFor_pop_iff {operand : Operand} :
    operand.mode.validFor .pop = true ↔ operand.IsPlace := by
  rcases operand with ⟨_ | _, _ | _, _ | _⟩ <;>
    simp [mode, Mode.validFor, IsPlace, HasValue, void]

theorem length_bytes (operand : Operand) : operand.bytes.length = operand.size := by
  rcases operand with ⟨_ | _, _ | _, _⟩ <;> simp [bytes, size]

end Operand

namespace Instruction

def HasShape : Instruction → Prop
  | .push operand => operand.HasValue ∧ operand.InTable
  | .pop operand => operand.IsPlace ∧ operand.InTable
  | .plain _ | .branch _ _ => True

/-- What an encoding can stand for. The first format needs no shape: it pushes literals alone, and
never pops. -/
structure WellFormed (version : Version) (i : Instruction) : Prop where
  supported : i.isSupported version = true
  shape : version = .two → i.HasShape

theorem isSupported_two (i : Instruction) : i.isSupported .two = true := by
  cases i <;> rfl

theorem isSupported_pop (operand : Operand) : (Instruction.pop operand).isSupported .one = false :=
  rfl

theorem isSupported_branch (op : BranchOp) (target : UInt32) :
    (Instruction.branch op target).isSupported .one = false := by
  rcases op with _ | _ | (_ | _) <;> rfl

theorem eq_ofLiteral_of_isSupported {operand : Operand}
    (supported : (Instruction.push operand).isSupported .one = true) :
    ∃ value, operand = .ofLiteral value := by
  rcases operand with ⟨_ | _, _ | value, _ | _⟩ <;> simp_all [isSupported, Operand.mode]
  exact ⟨value, rfl⟩

theorem wellFormed_one_iff (i : Instruction) :
    i.WellFormed .one ↔
      (∃ value, i = .push (.ofLiteral value)) ∨
        ∃ op ∈ [PlainOp.hlt, .add, .sub, .mul, .div, .out], i = .plain op := by
  constructor
  · rintro ⟨supported, -⟩
    cases i with
    | plain op => cases op <;> simp_all [isSupported, opcode, Opcode.isSupported, Opcode.code]
    | push operand =>
      obtain ⟨value, rfl⟩ := eq_ofLiteral_of_isSupported supported
      exact .inl ⟨value, rfl⟩
    | pop operand => simp [isSupported_pop] at supported
    | branch op target => simp [isSupported_branch] at supported
  · rintro (⟨value, rfl⟩ | ⟨op, arithmetic, rfl⟩)
    · exact ⟨rfl, by simp⟩
    · refine ⟨?_, by simp⟩
      revert op
      decide

theorem length_bytes {version : Version} {i : Instruction}
    (supported : i.isSupported version = true) : (i.bytes version).length = i.size version := by
  cases version with
  | one =>
    cases i with
    | plain op => rfl
    | push operand => simp [bytes, size]
    | pop operand => simp [isSupported_pop] at supported
    | branch op target => simp [isSupported_branch] at supported
  | two =>
    cases i with
    | plain op => rfl
    | push operand | pop operand => simp [bytes, size, Operand.length_bytes, Nat.add_comm]
    | branch op target => simp [bytes, size]

end Instruction

namespace Reader

theorem reads_operand (o : Operand) (known : o.InTable) : Reads (operand o.mode) o.bytes o := by
  have register := reads_part o.register fun r found => reads_register (known r found)
  have literal := reads_part o.literal fun v _ => reads_value v
  have split : o.bytes = o.register.elim [] (fun r => [r.index]) ++
      (o.literal.elim [] (fun v => toLittleEndian 8 v.bits.toNat) ++ []) := by
    rcases o with ⟨_ | _, _ | _, _⟩ <;> simp [Operand.bytes]
  rw [split]
  refine register.bind ?_
  refine literal.bind ?_
  exact reads_pure o

theorem reads_instructionOne {i : Instruction} (supported : i.isSupported .one = true) :
    Reads instructionOne (i.bytes .one) i := by
  refine Reads.ofPosition fun offset => ?_
  refine (reads_byte _).bind ?_
  rw [Opcode.ofCode?_code]
  cases i with
  | plain op =>
    have kept : (Opcode.plain op).isSupported .one = true := supported
    simp only [Instruction.opcode, Option.filter, kept, if_true]
    exact reads_pure _
  | push operand =>
    obtain ⟨v, rfl⟩ := Instruction.eq_ofLiteral_of_isSupported supported
    exact (reads_value v).map (Instruction.push ∘ .ofLiteral)
  | pop operand => simp [Instruction.isSupported_pop] at supported
  | branch op target => simp [Instruction.isSupported_branch] at supported

theorem reads_instructionTwo {i : Instruction} (shape : i.HasShape) :
    Reads instructionTwo (i.bytes .two) i := by
  refine Reads.ofPosition fun offset => ?_
  cases i with
  | plain op =>
    -- Operations without an operand have the byte of an empty mode.
    have first : (Opcode.plain op).code = OpByte.toByte ⟨.plain op, .empty⟩ := by
      cases op <;> rfl
    rw [Instruction.bytes, first]
    refine (reads_byte _).bind_pure ?_
    rw [OpByte.ofByte?_toByte]
    rfl
  | push operand =>
    refine (reads_byte _).bind ?_
    rw [OpByte.ofByte?_toByte]
    simp only [Option.filter, Operand.validFor_push_iff.mpr shape.1, if_true]
    exact (reads_operand operand shape.2).map _
  | pop operand =>
    refine (reads_byte _).bind ?_
    rw [OpByte.ofByte?_toByte]
    simp only [Option.filter, Operand.validFor_pop_iff.mpr shape.1, if_true]
    exact (reads_operand operand shape.2).map _
  | branch op target =>
    have first : (Opcode.branch op).code = OpByte.toByte ⟨.branch op, .empty⟩ := by
      rcases op with _ | _ | (_ | _) <;> rfl
    rw [Instruction.bytes, first]
    refine (reads_byte _).bind ?_
    rw [OpByte.ofByte?_toByte]
    exact (reads_word target).map _

theorem reads_instruction {version : Version} {i : Instruction}
    (wellFormed : i.WellFormed version) : Reads (instruction version) (i.bytes version) i := by
  cases version with
  | one => exact reads_instructionOne wellFormed.supported
  | two => exact reads_instructionTwo (wellFormed.shape rfl)

end Reader

end StackMachine
