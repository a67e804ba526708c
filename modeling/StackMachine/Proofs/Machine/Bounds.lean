import StackMachine.Proofs.Machine.Effects
import StackMachine.Proofs.Machine.Turns

set_option autoImplicit false

namespace StackMachine

namespace CallStack

theorem of_push? {calls pushed : CallStack} {address : UInt32}
    (push : calls.push? address = some pushed) :
    calls.depth < calls.limit ∧ pushed.limit = calls.limit ∧ pushed.depth = calls.depth + 1 := by
  simp only [push?] at push
  split at push
  next below =>
    cases push
    exact ⟨below, rfl, rfl⟩
  next => cases push

theorem of_pop? {calls popped : CallStack} {address : UInt32}
    (pop : calls.pop? = some (address, popped)) :
    popped.limit = calls.limit ∧ popped.depth ≤ calls.depth := by
  simp only [pop?] at pop
  split at pop
  next => cases pop
  next =>
    cases pop
    exact ⟨rfl, Nat.sub_le _ _⟩

theorem limit_le_of_push? {calls : CallStack} {address : UInt32}
    (refused : calls.push? address = none) : calls.limit ≤ calls.depth := by
  simp only [push?] at refused
  split at refused
  next => cases refused
  next full => exact Nat.not_lt.mp full

theorem depth_of_pop? {calls : CallStack} (refused : calls.pop? = none) : calls.depth = 0 := by
  simp only [pop?] at refused
  split at refused
  next found => simp [calls.depth_eq, found]
  next => cases refused

end CallStack

namespace Machine

def limits (machine : Machine) : Limits := ⟨machine.fuelLimit, machine.calls.limit⟩

@[simp] theorem limits_zeroed (memory : Nat) (limits : Limits) :
    (zeroed memory limits).limits = limits := rfl

@[simp] theorem size_memory_zeroed (memory : Nat) (limits : Limits) :
    (zeroed memory limits).memory.size = memory := by
  simp [zeroed, Memory.zeroed, Memory.size]

end Machine

structure CallStack.Within (length : Nat) (calls : CallStack) : Prop where
  depth : calls.depth ≤ calls.limit
  returns : ∀ address ∈ calls.frames, address.toNat ≤ length

theorem Action.Transfers.within {length next : Nat} {i : Instruction} {calls left : CallStack}
    {flow : Flow} (transfers : Transfers length next i calls flow left) (inside : next ≤ length)
    (within : calls.Within length) :
    (∀ pc, flow = .next pc → pc ≤ length) ∧ left.Within length ∧ left.limit = calls.limit ∧
      left.depth ≤ calls.depth + 1 := by
  cases transfers with
  | on stays =>
    refine ⟨?_, within, rfl, Nat.le_succ _⟩
    intro pc same
    cases same
    exact inside
  | halt => exact ⟨nofun, within, rfl, Nat.le_succ _⟩
  | jump direct target =>
    refine ⟨?_, within, rfl, Nat.le_succ _⟩
    intro pc same
    cases same
    exact target
  | call target push =>
    obtain ⟨below, limit, depth⟩ := CallStack.of_push? push
    -- A return address of four bytes may lose its high bits, which leaves a smaller one.
    have narrowed : (UInt32.ofNat next).toNat ≤ next := Nat.mod_le _ _
    refine ⟨?_, ⟨by omega, ?_⟩, limit, by omega⟩
    · intro pc same
      cases same
      exact target
    · rw [CallStack.frames_of_push? push, List.forall_mem_cons]
      exact ⟨Nat.le_trans narrowed inside, within.returns⟩
  | ret pop =>
    obtain ⟨limit, depth⟩ := CallStack.of_pop? pop
    have returns := within.returns
    rw [CallStack.frames_of_pop? pop, List.forall_mem_cons] at returns
    refine ⟨?_, ⟨?_, returns.2⟩, limit, by omega⟩
    · intro pc same
      cases same
      exact returns.1
    · have before := within.depth
      omega

structure Bounded (program : Program) (cells : Nat) (limits : Limits) (sink : Sink)
    (state : Machine) (written : Sink) : Prop where
  configured : state.limits = limits ∧ state.memory.size = cells
  pc : state.pc ≤ program.length
  returns : ∀ address ∈ state.calls.frames, address.toNat ≤ program.length
  depth : state.calls.depth ≤ limits.recursion
  operands : state.stack.length ≤ state.steps
  calls : state.calls.depth ≤ state.steps
  output : ∃ lines, written.lines = sink.lines ++ lines ∧ lines.size ≤ state.steps
  fuel : ∀ limit ∈ limits.fuel, ∃ left, state.fuel = some left ∧ state.steps + left = limit

namespace Bounded

variable {program : Program} {cells : Nat} {limits : Limits} {sink written : Sink}

theorem reset (program : Program) (machine : Machine) (sink : Sink) :
    Bounded program machine.memory.size machine.limits sink machine.reset sink where
  configured := ⟨rfl, by simp [Machine.reset, Memory.zeroed, Memory.size]⟩
  pc := Nat.zero_le _
  returns := nofun
  depth := Nat.zero_le _
  operands := Nat.le_refl _
  calls := Nat.le_refl _
  output := ⟨#[], by simp, Nat.le_refl _⟩
  fuel := by
    intro limit limited
    exact ⟨limit, limited, Nat.zero_add _⟩

theorem next {state : Machine} {after : Session} {i : Instruction} {next pc : Nat}
    {calls : CallStack} (bounded : Bounded program cells limits sink state written)
    (fueled : state.fuel ≠ some 0) (inside : next ≤ program.length)
    (transfers : Action.Transfers program.length next i state.calls (.next pc) calls)
    (control : after.machine.control =
      { (Session.counted (.paid ⟨state, written, []⟩) i).machine.control with calls })
    (grows : (Session.counted (.paid ⟨state, written, []⟩) i).GrowsTo after) :
    Bounded program cells limits sink { after.machine with pc } after.sink := by
  obtain ⟨⟨rfl, rfl⟩, -, returns, depth, operands, frames, ⟨lines, extended, few⟩, fuel⟩ := bounded
  obtain ⟨limit, paid, steps, size, rfl⟩ := Machine.of_control control
  obtain ⟨target, kept, bound, deeper⟩ := transfers.within inside ⟨depth, returns⟩
  have counted : after.machine.steps = state.steps + 1 := steps
  refine ⟨⟨?_, size⟩, target pc rfl, kept.returns, ?_, ?_, ?_, ?_, ?_⟩
  · simp [Machine.limits, limit, bound, Session.counted, Session.paid]
  · exact Nat.le_trans kept.depth (Nat.le_of_eq bound)
  · have added : after.machine.stack.length ≤ state.stack.length + 1 := grows.operands
    simp only
    omega
  · simp only
    omega
  · obtain same | ⟨line, same⟩ := grows.output
    · exact ⟨lines, same.trans extended, by simp only; omega⟩
    · refine ⟨lines.push line, ?_, by simp only [Array.size_push]; omega⟩
      rw [same]
      simp [Session.counted, Session.paid, extended]
  · intro most limited
    obtain ⟨left, remains, sum⟩ := fuel most limited
    have some : left ≠ 0 := fun none => fueled (none ▸ remains)
    refine ⟨left - 1, ?_, by simp only; omega⟩
    simp [paid, Session.counted, Session.paid, remains]

theorem turn {state : Machine} (bounded : Bounded program cells limits sink state written) :
    (Action.turn program).Ends ⟨state, written, []⟩
      (fun progress after => progress = .running →
        Bounded program cells limits sink after.machine after.sink)
      fun _ _ => True := by
  rw [Action.ends_turn]
  split
  next => exact nofun
  next =>
    split
    next => trivial
    next fueled =>
      split
      next => trivial
      next i next decoded =>
        have known := (Instruction.wellFormed_of_decodeAt decoded).inTable
        have inside := (decodeAt_advances decoded).2
        refine (Action.Ends.and (Action.ends_execute known _ _ _)
          (Action.grows_execute known _ _ _)).mono ?_ fun _ _ _ => trivial
        rintro (pc | _) after ⟨⟨calls, transfers, control⟩, grows⟩
        · intro _
          exact bounded.next fueled inside transfers control grows
        · exact nofun

end Bounded

/-- Bytes of any origin keep the machine within its bounds, turn after turn. -/
theorem bounded_of_reached {program : Program} {machine state : Machine} {sink written : Sink}
    (reached : Reached program machine sink state written) :
    Bounded program machine.memory.size machine.limits sink state written := by
  induction reached with
  | start => exact .reset program machine sink
  | turn earlier ran ih => exact (Action.ends_iff.mp ih.turn).1 _ _ ran rfl

theorem bounded_of_reached_call :
    let program : Program := ⟨.two, #[9, 5, 0, 0, 0, 0x41, 1, 6, 10]⟩
    let machine : Machine := .zeroed 8 ⟨some 5, 2⟩
    let state : Machine := { machine with
      pc := 8
      fuel := some 2
      steps := 3
      stack := [.zero]
      calls := ⟨[5], 2, 1, rfl⟩ }
    ∃ written, written.lines = #["0"] ∧ Reached program machine .unlimited state written ∧
      Bounded program 8 ⟨some 5, 2⟩ .unlimited state written := by
  intro program machine state
  have ran : (turnsFrom program ignoreEvents 3 machine.reset .unlimited ()).map
      (fun reached => (reached.1, reached.2.1.lines)) = some (state, #["0"]) := by
    decide +kernel
  obtain ⟨⟨final, written, ⟨⟩⟩, turns, same⟩ := Option.map_eq_some_iff.mp ran
  obtain ⟨place, lines⟩ := Prod.mk.inj same
  have reached : Reached program machine .unlimited state written :=
    place ▸ .of_turnsFrom .start turns
  refine ⟨written, lines, reached, ?_⟩
  simpa only [machine, Machine.limits_zeroed, Machine.size_memory_zeroed] using
    bounded_of_reached reached

end StackMachine
