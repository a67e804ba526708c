import StackMachine.Proofs.Bytecode.Formats
import StackMachine.Proofs.Bytecode.Markers
import StackMachine.Proofs.Machine.Calls

set_option autoImplicit false

namespace StackMachine

theorem Visit.Made.frames_of_call {program : Program} {visit : Visit} {machine : Machine}
    {sink : Sink} {after : Session} (made : visit.Made program machine sink after)
    (call : visit.isCall) :
    after.machine.calls.frames = UInt32.ofNat visit.next :: machine.calls.frames :=
  CallStack.frames_of_push? (made.transfers.of_call call)

namespace Action

variable {program : Program} {session : Session} {next : Nat} {target : UInt32}

theorem exists_turn_of_jmp
    (decoded : program.decodeAt session.machine.pc = .ok (.branch .jmp target, next))
    (inside : target.toNat ≤ program.length) (unlimited : session.machine.fuel = none) :
    ∃ after, turn program session = .ok .running after ∧ after.machine.pc = target.toNat ∧
      after.machine.fuel = none ∧ after.machine.calls = session.machine.calls := by
  have fueled : session.machine.fuel ≠ some 0 := by simp [unlimited]
  have jumped := ends_jump_iff.mp ((ends_turn_decoded decoded fueled).mp (Ends.self _ _))
  rw [if_neg (Nat.not_lt.mpr inside)] at jumped
  have free : (session.paid.counted (.branch .jmp target)).machine.fuel = none := by
    simp [Session.counted, Session.paid, unlimited]
  exact ⟨_, jumped, rfl, free, rfl⟩

theorem exists_turn_of_call
    (decoded : program.decodeAt session.machine.pc = .ok (.branch .call target, next))
    (inside : target.toNat ≤ program.length) (unlimited : session.machine.fuel = none)
    (free : session.machine.calls.depth < session.machine.calls.limit) :
    ∃ after, turn program session = .ok .running after := by
  have fueled : session.machine.fuel ≠ some 0 := by simp [unlimited]
  have same : (session.paid.counted (.branch .call target)).machine.calls =
    session.machine.calls := rfl
  have called := ends_call_iff.mp ((ends_turn_decoded decoded fueled).mp (Ends.self _ _))
  rw [if_neg (Nat.not_lt.mpr inside), same, CallStack.push?, if_pos free] at called
  exact ⟨_, called⟩

end Action

namespace Layout

def leap (bytes : Nat) : List Instruction :=
  .branch .jmp (.ofNat (bytes + 5)) :: List.replicate bytes (.plain .hlt)

def distant (bytes : Nat) : List Instruction := leap bytes ++ [.branch .call 0, .plain .hlt]

section

variable (bytes : Nat)

theorem size_leap : ((leap bytes).map (·.size .two)).sum = bytes + 5 := by
  have jump : (Instruction.branch .jmp (.ofNat (bytes + 5))).size .two = 5 := rfl
  have halt : (Instruction.plain .hlt).size .two = 1 := rfl
  simp only [leap, List.map_cons, List.map_replicate, List.sum_cons, List.sum_replicate_nat,
    jump, halt]
  ring

theorem wellFormed_distant : ∀ i ∈ distant bytes, i.WellFormed .two := by
  intro i member
  simp only [distant, leap, List.mem_cons, List.mem_append, List.mem_replicate,
    List.not_mem_nil] at member
  obtain (rfl | ⟨-, rfl⟩) | rfl | rfl | ⟨⟨⟩⟩ := member <;> exact ⟨rfl, fun _ => trivial⟩

theorem decodeAt_jump_distant : ∃ next,
    (program .two (distant bytes)).decodeAt 0 = .ok (.branch .jmp (.ofNat (bytes + 5)), next) :=
  ⟨_, @decodeAt_behind _ [] _ _ (wellFormed_distant bytes)⟩

theorem decodeAt_call_distant : (program .two (distant bytes)).decodeAt (bytes + 5) =
    .ok (.branch .call 0, bytes + 10) := by
  have decoded := decodeAt_behind (wellFormed_distant bytes)
  rw [size_leap] at decoded
  exact decoded

theorem length_distant : (program .two (distant bytes)).length = bytes + 11 := by
  have call : (Instruction.branch .call 0).size .two = 5 := rfl
  have halt : (Instruction.plain .hlt).size .two = 1 := rfl
  rw [length_program (wellFormed_distant bytes), offset, List.take_length, distant,
    List.map_append, List.sum_append, size_leap]
  simp [call, halt]

theorem zero_mem_targets_distant : 0 ∈ Listing.targets (program .two (distant bytes)) := by
  have called := mem_instructions_behind (wellFormed_distant bytes)
  exact List.mem_filterMap.mpr ⟨_, called, rfl⟩

theorem mem_instructions_distant :
    (bytes + 10, .plain .hlt) ∈ (program .two (distant bytes)).instructions := by
  have split : distant bytes = (leap bytes ++ [.branch .call 0]) ++ .plain .hlt :: [] := by
    simp [distant]
  have call : (Instruction.branch .call 0).size .two = 5 := rfl
  have last := mem_instructions_behind (split ▸ wellFormed_distant bytes)
  rw [← split, List.map_append, List.sum_append, size_leap] at last
  simpa [call] using last

variable {bytes}

theorem exists_call_distant (near : bytes + 5 < UInt32.size) :
    ∃ (state : Machine) (written : Sink) (visit : Visit) (after : Session),
      Reached (program .two (distant bytes)) (.zeroed 0 ⟨none, 1⟩) .unlimited state written ∧
      visit.Made (program .two (distant bytes)) state written after ∧ visit.isCall ∧
      visit.next = bytes + 10 := by
  have long := length_distant bytes
  have decoded := decodeAt_call_distant bytes
  obtain ⟨next, first⟩ := decodeAt_jump_distant bytes
  generalize program .two (distant bytes) = program at long decoded first
  have target : (UInt32.ofNat (bytes + 5)).toNat = bytes + 5 := UInt32.toNat_ofNat_of_lt' near
  obtain ⟨jumped, ran, place, fuel, calls⟩ := @Action.exists_turn_of_jmp program
    ⟨.zeroed 0 ⟨none, 1⟩, .unlimited, []⟩ next _ first (by omega) rfl
  rw [target] at place
  have reached : Reached program (.zeroed 0 ⟨none, 1⟩) .unlimited jumped.machine jumped.sink :=
    .turn .start ran
  obtain ⟨after, called⟩ := @Action.exists_turn_of_call program
    ⟨jumped.machine, jumped.sink, []⟩ _ 0 (place ▸ decoded) (Nat.zero_le _) fuel
    (by rw [calls]; exact Nat.one_pos)
  exact ⟨_, _, ⟨jumped.machine.pc, .branch .call 0, bytes + 10⟩, after, reached,
    ⟨rfl, place ▸ decoded, called⟩, rfl, rfl⟩

end

end Layout

namespace Program

def PushesOffsets (program : Program) : Prop :=
  ∀ {machine state : Machine} {sink written : Sink} {visit : Visit} {after : Session},
    Reached program machine sink state written → visit.Made program state written after →
    visit.isCall → ∃ address,
      after.machine.calls.frames = address :: state.calls.frames ∧ address.toNat = visit.next

def MarksOffsets (palette : Palette) (program : Program) : Prop :=
  ∀ {offset : Nat}, Listing.marker palette offset ∈ Listing.lines palette program →
    ∃ target ∈ Listing.targets program, target.toNat = offset

def ReturnsNear (program : Program) : Prop :=
  ∀ {machine state : Machine} {sink written : Sink} {visit : Visit} {after : Session},
    Reached program machine sink state written → visit.Made program state written after →
    visit.isCall → visit.next < UInt32.size

def TargetsNear (program : Program) : Prop :=
  ∀ {offset : Nat} {i : Instruction}, (offset, i) ∈ program.instructions →
    UInt32.ofNat offset ∈ Listing.targets program → offset < UInt32.size

section

variable {program : Program}

theorem pushesOffsets_iff : program.PushesOffsets ↔ program.ReturnsNear := by
  constructor
  · intro pushes machine state sink written visit after reached made call
    obtain ⟨address, -, same⟩ := pushes reached made call
    rw [← same]
    exact address.toNat_lt
  · intro near machine state sink written visit after reached made call
    exact ⟨_, made.frames_of_call call, UInt32.toNat_ofNat_of_lt' (near reached made call)⟩

theorem marksOffsets_iff (color : Bool) :
    program.MarksOffsets (.ofFlag color) ↔ program.TargetsNear := by
  constructor
  · intro marks offset i member goes
    have marked := (Listing.mem_lines_iff color).mpr ⟨⟨i, member⟩, Listing.isTarget_iff.mpr goes⟩
    obtain ⟨target, -, same⟩ := marks marked
    rw [← same]
    exact target.toNat_lt
  · intro near offset marked
    obtain ⟨⟨i, member⟩, target⟩ := (Listing.mem_lines_iff color).mp marked
    have goes := Listing.isTarget_iff.mp target
    exact ⟨_, goes, UInt32.toNat_ofNat_of_lt' (near member goes)⟩

theorem returnsNear_of_short (short : program.length < UInt32.size) : program.ReturnsNear :=
  fun _ made _ => Nat.lt_of_le_of_lt (decodeAt_advances made.decoded).2 short

theorem targetsNear_of_short (short : program.length < UInt32.size) : program.TargetsNear :=
  fun member _ => Nat.lt_trans (bounds_of_mem_walkFrom (mem_instructions_iff.mp member)).2 short

end

/-- Offsets are kept where they fit, which they always do in a short program. -/
theorem offsets_kept_iff (program : Program) (color : Bool) :
    (program.PushesOffsets ↔ program.ReturnsNear) ∧
      (program.MarksOffsets (.ofFlag color) ↔ program.TargetsNear) ∧
      (program.length < UInt32.size →
        program.PushesOffsets ∧ program.MarksOffsets (.ofFlag color)) := by
  refine ⟨pushesOffsets_iff, marksOffsets_iff color, ?_⟩
  intro short
  exact ⟨pushesOffsets_iff.mpr (returnsNear_of_short short),
    (marksOffsets_iff color).mpr (targetsNear_of_short short)⟩

/-- The call ends at `2 ^ 32`: it pushes `0`, and the listing marks what follows it by the target of
the call, which is `0`. -/
theorem offsets_narrowed :
    let program := Layout.program .two (Layout.distant 4294967286)
    ¬program.PushesOffsets ∧ ¬program.MarksOffsets (.ofFlag false) := by
  intro program
  constructor
  · rw [pushesOffsets_iff]
    intro near
    obtain ⟨state, written, visit, after, reached, made, call, behind⟩ :=
      @Layout.exists_call_distant 4294967286 (by decide)
    have small := near reached made call
    rw [behind] at small
    exact absurd small (by decide)
  · rw [marksOffsets_iff]
    intro near
    have small := near (Layout.mem_instructions_distant 4294967286)
      (Layout.zero_mem_targets_distant 4294967286)
    exact absurd small (by decide)

end Program

end StackMachine
