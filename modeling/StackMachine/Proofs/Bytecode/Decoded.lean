import StackMachine.Proofs.Bytecode.RoundTrip

set_option autoImplicit false

namespace StackMachine

theorem Register.inTable_of_ofIndex? {index : UInt8} {r : Register}
    (found : ofIndex? index = some r) : r.InTable := by
  unfold ofIndex? at found
  split at found
  next => cases found
  next =>
    obtain ⟨entry, inside, rfl⟩ := Option.map_eq_some_iff.mp found
    exact List.mem_map_of_mem (List.mem_of_getElem? inside)

namespace Reader

variable {α β : Type}

def Yields (read : Reader α) (possible : α → Prop) : Prop :=
  ∀ (start stop : Cursor) (result : α), read start = .ok result stop → possible result

theorem yields_pure {possible : α → Prop} {result : α} (holds : possible result) :
    Yields (pure result) possible := by
  intro start stop other ran
  cases ran
  exact holds

theorem yields_throw (fault : DecodeFault) (possible : α → Prop) :
    Yields (throw fault) possible := by
  intro start stop result ran
  cases ran

theorem Yields.bind {first : Reader α} {next : α → Reader β} {middle : α → Prop}
    {possible : β → Prop} (head : Yields first middle)
    (tail : ∀ a, middle a → Yields (next a) possible) : Yields (first >>= next) possible := by
  intro start stop result ran
  simp only [Bind.bind, EStateM.bind] at ran
  split at ran
  next a between done => exact tail a (head _ _ _ done) _ _ _ ran
  next => cases ran

theorem Yields.map {read : Reader α} {possible : α → Prop} {f : α → β} {image : β → Prop}
    (yields : Yields read possible) (maps : ∀ a, possible a → image (f a)) :
    Yields (f <$> read) image :=
  yields.bind fun a holds => yields_pure (maps a holds)

theorem yields_any (read : Reader α) : Yields read fun _ => True := by
  intro start stop result ran
  trivial

theorem yields_register : Yields register Register.InTable := by
  refine (yields_any position).bind fun offset _ => (yields_any byte).bind fun index _ => ?_
  split
  next r found => exact yields_pure (Register.inTable_of_ofIndex? found)
  next => exact yields_throw _ _

theorem yields_part {read : Reader α} {possible : α → Prop} (announced : Bool)
    (yields : Yields read possible) :
    Yields (part announced read) fun content =>
      content.isSome = announced ∧ ∀ a ∈ content, possible a := by
  cases announced with
  | false => exact yields_pure ⟨rfl, nofun⟩
  | true =>
    refine yields.map fun a holds => ⟨rfl, ?_⟩
    intro other same
    cases same
    exact holds

theorem yields_operand (mode : Mode) :
    Yields (operand mode) fun operand => operand.mode = mode ∧ operand.InTable := by
  refine (yields_part mode.register yields_register).bind fun r known => ?_
  refine (yields_part mode.literal (yields_any value)).bind fun literal present => ?_
  refine yields_pure ⟨?_, known.2⟩
  simp only [Operand.mode, known.1, present.1]

theorem yields_instructionOne : Yields instructionOne (Instruction.WellFormed .one) := by
  refine (yields_any position).bind fun offset _ => (yields_any byte).bind fun code _ => ?_
  split
  next => exact (yields_any value).map fun v _ => ⟨rfl, nofun⟩
  next op found =>
    have supported := (Option.filter_eq_some_iff.mp found).2
    exact yields_pure ⟨supported, nofun⟩
  next => exact yields_throw _ _

theorem yields_instructionTwo : Yields instructionTwo (Instruction.WellFormed .two) := by
  refine (yields_any position).bind fun offset _ => (yields_any byte).bind fun first _ => ?_
  split
  next op mode found => exact yields_pure ⟨Instruction.isSupported_two _, fun _ => trivial⟩
  next mode found =>
    have valid := (Option.filter_eq_some_iff.mp found).2
    refine (yields_operand _).map fun operand read => ⟨Instruction.isSupported_two _, fun _ => ?_⟩
    exact ⟨Operand.validFor_push_iff.mp (read.1 ▸ valid), read.2⟩
  next mode found =>
    have valid := (Option.filter_eq_some_iff.mp found).2
    refine (yields_operand _).map fun operand read => ⟨Instruction.isSupported_two _, fun _ => ?_⟩
    exact ⟨Operand.validFor_pop_iff.mp (read.1 ▸ valid), read.2⟩
  next op mode found =>
    exact (yields_any word).map fun target _ => ⟨Instruction.isSupported_two _, fun _ => trivial⟩
  next => exact yields_throw _ _

end Reader

theorem Instruction.wellFormed_of_decodeAt {version : Version} {body : Array UInt8}
    {offset next : Nat} {i : Instruction}
    (decoded : StackMachine.decodeAt version body offset = .ok (i, next)) :
    i.WellFormed version := by
  unfold StackMachine.decodeAt at decoded
  split at decoded
  next result cursor ran =>
    cases decoded
    cases version with
    | one => exact Reader.yields_instructionOne _ _ _ ran
    | two => exact Reader.yields_instructionTwo _ _ _ ran
  next => cases decoded

namespace Instruction

def InTable : Instruction → Prop
  | .push operand | .pop operand => operand.InTable
  | .plain _ | .branch _ _ => True

theorem WellFormed.inTable {version : Version} {i : Instruction}
    (wellFormed : i.WellFormed version) : i.InTable := by
  cases version with
  | one =>
    -- The first format has no byte for a register.
    obtain ⟨value, rfl⟩ | ⟨op, -, rfl⟩ := (wellFormed_one_iff i).mp wellFormed
    · simp [InTable, Operand.InTable, Operand.ofLiteral]
    · trivial
  | two =>
    have shape := wellFormed.shape rfl
    cases i with
    | push operand => exact shape.2
    | pop operand => exact shape.2
    | plain op => trivial
    | branch op target => trivial

end Instruction

end StackMachine
