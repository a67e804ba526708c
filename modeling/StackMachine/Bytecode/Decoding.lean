import StackMachine.Bytecode.Cursor
import StackMachine.Bytecode.Instruction

set_option autoImplicit false

namespace StackMachine

namespace Operand

def bytes (operand : Operand) : List UInt8 :=
  (operand.register.map Register.index).toList ++
    match operand.literal with
    | some value => toLittleEndian 8 value.bits.toNat
    | none => []

end Operand

namespace Instruction

def bytes (instruction : Instruction) : Version → List UInt8
  | .one =>
    instruction.opcode.code :: match instruction with
      | .push operand => toLittleEndian 8 (operand.literal.getD .zero).bits.toNat
      | _ => []
  | .two =>
    match instruction with
    | .plain op => [(Opcode.plain op).code]
    | .push operand => OpByte.toByte ⟨.push, operand.mode⟩ :: operand.bytes
    | .pop operand => OpByte.toByte ⟨.pop, operand.mode⟩ :: operand.bytes
    | .branch op target => (Opcode.branch op).code :: toLittleEndian 4 target.toNat

end Instruction

namespace Reader

def register : Reader Register := do
  let offset ← position
  let index ← byte
  match Register.ofIndex? index with
  | some register => return register
  | none => throw (.invalidRegister index offset)

def part {α : Type} (announced : Bool) (read : Reader α) : Reader (Option α) :=
  if announced then some <$> read else pure none

def operand (mode : Mode) : Reader Operand := do
  let register ← part mode.register register
  let literal ← part mode.literal value
  return ⟨register, literal, mode.memory⟩

def instructionOne : Reader Instruction := do
  let offset ← position
  let code ← byte
  match (Opcode.ofCode? code).filter (·.isSupported .one) with
  | some .push => (.push ∘ .ofLiteral) <$> value
  | some (.plain op) => return .plain op
  | _ => throw (.undefinedCommand code offset)

def instructionTwo : Reader Instruction := do
  let offset ← position
  let first ← byte
  match (OpByte.ofByte? first).filter fun op => op.mode.validFor op.opcode with
  -- Only push and pop have modes; the others are found with an empty one.
  | some ⟨.plain op, _⟩ => return .plain op
  | some ⟨.push, mode⟩ => .push <$> operand mode
  | some ⟨.pop, mode⟩ => .pop <$> operand mode
  | some ⟨.branch op, _⟩ => .branch op <$> word
  | none => throw (.undefinedCommand first offset)

def instruction : Version → Reader Instruction
  | .one => instructionOne
  | .two => instructionTwo

def Forward {α : Type} (read : Reader α) : Prop :=
  ∀ (start stop : Cursor) (result : α), read start = .ok result stop →
    stop.bytes = start.bytes ∧ start.position ≤ stop.position ∧
      (stop.position = start.position ∨ stop.position ≤ start.bytes.size)

theorem Forward.pure {α : Type} (a : α) : Forward (pure a : Reader α) := by
  intro start stop result run
  cases run
  simp

theorem Forward.bind {α β : Type} {first : Reader α} {next : α → Reader β} (head : Forward first)
    (tail : ∀ a, Forward (next a)) : Forward (first >>= next) := by
  intro start stop result run
  simp only [Bind.bind, EStateM.bind] at run
  split at run
  next a middle ran =>
    have one := head _ _ _ ran
    have two := tail a _ _ _ run
    grind
  next => simp at run

theorem Forward.throw {α : Type} (fault : DecodeFault) : Forward (throw fault : Reader α) := by
  intro start stop result run
  cases run

theorem forward_position : Forward position := by
  intro start stop result run
  cases run
  simp

theorem forward_take (count : Nat) : Forward (take count) := by
  intro start stop result run
  simp only [take] at run
  split at run
  next fits => cases run; simp [fits]
  next => cases run

theorem forward_byte : Forward byte := (forward_take 1).bind fun _ => .pure _
theorem forward_word : Forward word := (forward_take 4).bind fun _ => .pure _
theorem forward_value : Forward value := (forward_take 8).bind fun _ => .pure _

theorem Forward.map {α β : Type} {read : Reader α} (f : α → β) (forward : Forward read) :
    Forward (f <$> read) :=
  forward.bind fun a => .pure (f a)

theorem Forward.part {α : Type} {read : Reader α} (announced : Bool) (forward : Forward read) :
    Forward (part announced read) := by
  unfold Reader.part
  split
  next => exact forward.map _
  next => exact .pure _

theorem forward_register : Forward register := by
  refine forward_position.bind fun offset => forward_byte.bind fun index => ?_
  split
  next => exact .pure _
  next => exact .throw _

theorem forward_operand (mode : Mode) : Forward (operand mode) := by
  exact (forward_register.part _).bind fun register =>
    (forward_value.part _).bind fun literal => .pure _

theorem lt_position_of_byte {start stop : Cursor} {result : UInt8}
    (run : byte start = .ok result stop) :
    start.position < stop.position ∧ stop.position ≤ start.bytes.size ∧
      stop.bytes = start.bytes := by
  simp only [byte, take, Bind.bind, EStateM.bind, Pure.pure, EStateM.pure] at run
  grind

theorem lt_position_of_byte_bind {α : Type} {next : UInt8 → Reader α} (tail : ∀ b, Forward (next b))
    {start stop : Cursor} {result : α} (run : (byte >>= next) start = .ok result stop) :
    start.position < stop.position ∧ stop.position ≤ start.bytes.size := by
  simp only [Bind.bind, EStateM.bind] at run
  split at run
  next b middle ran =>
    have one := lt_position_of_byte ran
    have two := tail b _ _ _ run
    grind
  next => simp at run

theorem instruction_advances {version : Version} {start stop : Cursor} {result : Instruction}
    (run : instruction version start = .ok result stop) :
    start.position < stop.position ∧ stop.position ≤ start.bytes.size := by
  cases version with
  | one =>
    refine lt_position_of_byte_bind (fun code => ?_) run
    split
    next => exact forward_value.map _
    next => exact .pure _
    next => exact .throw _
  | two =>
    refine lt_position_of_byte_bind (fun code => ?_) run
    split
    next => exact .pure _
    next => exact (forward_operand _).map _
    next => exact (forward_operand _).map _
    next => exact forward_word.map _
    next => exact .throw _

end Reader

def decodeAt (version : Version) (body : Array UInt8) (offset : Nat) :
    Except DecodeFault (Instruction × Nat) :=
  match Reader.instruction version ⟨body, offset⟩ with
  | .ok instruction cursor => .ok (instruction, cursor.position)
  | .error fault _ => .error fault

theorem decodeAt_advances {version : Version} {body : Array UInt8} {offset next : Nat}
    {instruction : Instruction} (decoded : decodeAt version body offset = .ok (instruction, next)) :
    offset < next ∧ next ≤ body.size := by
  unfold decodeAt at decoded
  split at decoded
  next result cursor run =>
    cases decoded
    exact Reader.instruction_advances run
  next => cases decoded

end StackMachine
