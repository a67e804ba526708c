import StackMachine.Proofs.Bytecode.Canonical

set_option autoImplicit false

namespace StackMachine

namespace Instruction

theorem size_of_isSupported_one {i : Instruction} (supported : i.isSupported .one = true) :
    i.size .one = i.size .two := by
  obtain ⟨value, rfl⟩ | ⟨op, -, rfl⟩ := (wellFormed_one_iff i).mp ⟨supported, nofun⟩
  · rfl
  · rfl

theorem wellFormed_two_of_one {i : Instruction} (wellFormed : i.WellFormed .one) :
    i.WellFormed .two := by
  refine ⟨isSupported_two i, fun _ => ?_⟩
  obtain ⟨value, rfl⟩ | ⟨op, -, rfl⟩ := (wellFormed_one_iff i).mp wellFormed
  · exact ⟨.inr rfl, nofun⟩
  · trivial

theorem bytes_of_wellFormed_one {i : Instruction} (wellFormed : i.WellFormed .one) :
    ∃ first second rest, i.bytes .one = first :: rest ∧ i.bytes .two = second :: rest ∧
      ((∃ operand, i = .push operand) ∧ first = 0x01 ∧ second = 0x21 ∨
        (∀ operand, i ≠ .push operand) ∧ first = second) := by
  obtain ⟨value, rfl⟩ | ⟨op, -, rfl⟩ := (wellFormed_one_iff i).mp wellFormed
  · have first : OpByte.toByte ⟨.push, ⟨true, false, false⟩⟩ = 0x21 := by decide
    exact ⟨_, _, _, rfl, rfl, .inl ⟨⟨_, rfl⟩, rfl, first⟩⟩
  · exact ⟨_, _, _, rfl, rfl, .inr ⟨nofun, rfl⟩⟩

end Instruction

namespace Layout

def program (version : Version) (code : List Instruction) : Program :=
  ⟨version, (bytes version code).toArray⟩

section

variable {version : Version} {code : List Instruction}

theorem length_program (wellFormed : ∀ i ∈ code, i.WellFormed version) :
    (program version code).length = offset version code code.length := by
  simp [program, Program.length, length_bytes wellFormed]

theorem decodeAt_program (wellFormed : ∀ i ∈ code, i.WellFormed version) {index : Nat}
    (inside : index < code.length) :
    (program version code).decodeAt (offset version code index) =
      .ok (code[index], offset version code (index + 1)) := by
  have decoded := Program.decodeAt_offset wellFormed [] inside
  rw [List.append_nil] at decoded
  exact decoded

theorem instructions_program (wellFormed : ∀ i ∈ code, i.WellFormed version) :
    (program version code).instructions =
      code.mapIdx fun index i => (offset version code index, i) := by
  have ends := length_program wellFormed
  have walked := Program.walk_of_decodeAt fun _ inside => decodeAt_program wellFormed inside
  have behind : (program version code).walkFrom (offset version code code.length) = [] := by
    rw [← ends, Program.walkFrom_length]
  exact Program.instructions_of_walk (behind ▸ walked) (.whole ends.symm)

variable {above below : List Instruction} {i : Instruction}

theorem decodeAt_behind (wellFormed : ∀ j ∈ above ++ i :: below, j.WellFormed version) :
    (program version (above ++ i :: below)).decodeAt (above.map (·.size version)).sum =
      .ok (i, (above.map (·.size version)).sum + i.size version) := by
  have inside : above.length < (above ++ i :: below).length := by simp
  have decoded := decodeAt_program wellFormed inside
  rw [offset_succ _ inside] at decoded
  simpa [offset] using decoded

theorem mem_instructions_behind (wellFormed : ∀ j ∈ above ++ i :: below, j.WellFormed version) :
    ((above.map (·.size version)).sum, i) ∈
      (program version (above ++ i :: below)).instructions := by
  rw [instructions_program wellFormed, List.mem_mapIdx]
  exact ⟨above.length, by simp, by simp [offset]⟩

end

variable {code : List Instruction}

theorem wellFormed_two (wellFormed : ∀ i ∈ code, i.WellFormed .one) :
    ∀ i ∈ code, i.WellFormed .two :=
  fun i member => Instruction.wellFormed_two_of_one (wellFormed i member)

theorem offset_one_eq_two (wellFormed : ∀ i ∈ code, i.WellFormed .one) (index : Nat) :
    offset .one code index = offset .two code index := by
  have sizes : ∀ i ∈ code.take index, i.size .one = i.size .two := fun i member =>
    Instruction.size_of_isSupported_one (wellFormed i (List.mem_of_mem_take member)).supported
  rw [offset, offset, List.map_congr_left sizes]

def IsPush (code : List Instruction) (place : Nat) : Prop :=
  ∃ (index : Nat) (inside : index < code.length), place = offset .one code index ∧
    ∃ operand, code[index] = .push operand

theorem isPush_cons (i : Instruction) (place : Nat) :
    IsPush (i :: code) place ↔ (place = 0 ∧ ∃ operand, i = .push operand) ∨
      ∃ behind, place = i.size .one + behind ∧ IsPush code behind := by
  constructor
  · rintro ⟨index, inside, rfl, push⟩
    cases index with
    | zero => exact .inl ⟨rfl, push⟩
    | succ index =>
      exact .inr ⟨_, offset_cons i code index, index, Nat.lt_of_succ_lt_succ inside, rfl, push⟩
  · rintro (⟨rfl, push⟩ | ⟨_, rfl, index, inside, rfl, push⟩)
    · exact ⟨0, Nat.zero_lt_succ _, rfl, push⟩
    · exact ⟨index + 1, Nat.succ_lt_succ inside, (offset_cons i code index).symm, push⟩

theorem isPush_iff (wellFormed : ∀ i ∈ code, i.WellFormed .one) (place : Nat) :
    IsPush code place ↔ ∃ operand, (place, .push operand) ∈ (program .one code).instructions := by
  simp only [instructions_program wellFormed, List.mem_mapIdx, Prod.mk.injEq]
  constructor
  · rintro ⟨index, inside, rfl, operand, push⟩
    exact ⟨operand, index, inside, rfl, push⟩
  · rintro ⟨operand, index, inside, rfl, push⟩
    exact ⟨index, inside, rfl, operand, push⟩

theorem getElem?_bytes (wellFormed : ∀ i ∈ code, i.WellFormed .one) (place : Nat) :
    IsPush code place ∧ (bytes .one code)[place]? = some 0x01 ∧
        (bytes .two code)[place]? = some 0x21 ∨
      ¬ IsPush code place ∧ (bytes .one code)[place]? = (bytes .two code)[place]? := by
  induction code generalizing place with
  | nil => exact .inr ⟨nofun, rfl⟩
  | cons i code ih =>
    have here := wellFormed i List.mem_cons_self
    have later := ih fun j member => wellFormed j (List.mem_cons_of_mem i member)
    obtain ⟨first, second, rest, one, two, kind⟩ := Instruction.bytes_of_wellFormed_one here
    have size : i.size .one = rest.length + 1 := by
      rw [← Instruction.length_bytes here.supported, one, List.length_cons]
    have split (version : Version) :
        bytes version (i :: code) = i.bytes version ++ bytes version code := rfl
    rw [isPush_cons, split, split, one, two, size]
    by_cases behind : rest.length < place
    · obtain ⟨place, rfl⟩ := Nat.exists_eq_add_of_lt behind
      simpa [Nat.add_right_comm, List.getElem?_append_right] using later place
    · -- A byte of the first instruction is none of a later one.
      have none : ¬ ∃ further, place = rest.length + 1 + further ∧ IsPush code further := by
        rintro ⟨further, rfl, -⟩
        omega
      rw [or_iff_left none]
      rcases place with _ | place
      · obtain ⟨push, rfl, rfl⟩ | ⟨other, rfl⟩ := kind
        · exact .inl ⟨⟨rfl, push⟩, rfl, rfl⟩
        · exact .inr ⟨fun push => push.2.elim other, rfl⟩
      · have inside : place < rest.length := by omega
        exact .inr ⟨nofun, by simp [List.getElem?_append_left inside]⟩

end Layout

end StackMachine
