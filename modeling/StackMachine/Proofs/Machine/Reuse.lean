import StackMachine.Proofs.Machine.Bounds

set_option autoImplicit false

namespace StackMachine

namespace Machine

theorem reset_eq (machine : Machine) :
    machine.reset = zeroed machine.memory.size machine.limits := rfl

theorem reset_of_kept {before after : Machine} (size : after.memory.size = before.memory.size)
    (limits : after.limits = before.limits) : after.reset = before.reset := by
  rw [reset_eq, reset_eq, size, limits]

@[simp] theorem reset_reset (machine : Machine) : machine.reset.reset = machine.reset :=
  reset_of_kept (size_memory_zeroed machine.memory.size machine.limits) rfl

end Machine

namespace Action

theorem Transfers.limit {length next : Nat} {i : Instruction} {calls left : CallStack}
    {flow : Flow} (transfers : Transfers length next i calls flow left) :
    left.limit = calls.limit := by
  cases transfers with
  | on | halt | jump => rfl
  | call _ push => exact (CallStack.of_push? push).2.1
  | ret pop => exact (CallStack.of_pop? pop).1

theorem reset_of_control {before after : Machine} {calls : CallStack}
    (same : after.control = { before.control with calls })
    (limit : calls.limit = before.calls.limit) : after.reset = before.reset := by
  obtain ⟨fuel, -, -, size, rfl⟩ := Machine.of_control same
  apply Machine.reset_of_kept size
  rw [Machine.limits, Machine.limits, fuel, limit]

theorem reset_turn {program : Program} {session : Session} :
    (turn program).Ends session (fun _ after => after.machine.reset = session.machine.reset)
      fun _ after => after.machine.reset = session.machine.reset := by
  apply turn_ends
  case halts => exact fun _ => rfl
  case spent => exact fun _ _ => rfl
  case garbled => exact fun _ _ _ => rfl
  case executes =>
    intro i next known _
    apply (ends_execute known program.length next (session.paid.counted i)).mono
    · rintro flow after ⟨calls, transfers, control⟩
      have kept := reset_of_control control transfers.limit
      cases flow <;> exact kept
    · rintro fault after ⟨control, -⟩
      -- What the turn has paid and counted is gone after a reset.
      have kept : after.machine.reset = (session.paid.counted i).machine.reset :=
        reset_of_control control rfl
      exact kept

end Action

theorem reset_of_run {τ : Type} {program : Program} {machine : Machine} {bound : Nat} {sink : Sink}
    {tracer : τ → Event → τ} {start : τ} {outcome : Outcome τ}
    (ended : machine.run bound program sink tracer start = some outcome) :
    outcome.machine.reset = machine.reset := by
  obtain ⟨last, written, reached, stops⟩ := exists_stop_of_runFrom .start ended
  have kept : last.reset = machine.reset := by
    apply reached.invariant
    · exact machine.reset_reset
    · intro before passed after same ran
      exact ((Action.ends_iff.mp Action.reset_turn).1 _ _ ran).trans same
  have turned := Action.ends_iff.mp
    (Action.reset_turn : (Action.turn program).Ends ⟨last, written, []⟩ _ _)
  generalize outcome.machine = state, outcome.sink = final, outcome.fault = fault at stops
  cases stops with
  | halt ran => exact (turned.1 _ _ ran).trans kept
  | fail ran => exact (turned.2 _ _ ran).trans kept

inductive Reused (fresh : Machine) : Machine → Prop
  | fresh : Reused fresh fresh
  | run {τ : Type} {machine : Machine} {bound : Nat} {program : Program} {sink : Sink}
    {tracer : τ → Event → τ} {start : τ} {outcome : Outcome τ} (earlier : Reused fresh machine)
    (ended : machine.run bound program sink tracer start = some outcome) :
    Reused fresh outcome.machine

theorem Reused.reset {fresh machine : Machine} (reused : Reused fresh machine) :
    machine.reset = fresh.reset := by
  induction reused with
  | fresh => rfl
  | run _ ended ih => exact (reset_of_run ended).trans ih

/-- Earlier runs leave no trace in the runs that follow. -/
theorem run_independent {memory : Nat} {limits : Limits} {machine : Machine}
    (reused : Reused (.zeroed memory limits) machine) {τ : Type} (bound : Nat) (program : Program)
    (sink : Sink) (tracer : τ → Event → τ) (start : τ) :
    machine.run bound program sink tracer start =
      (Machine.zeroed memory limits).run bound program sink tracer start := by
  rw [Machine.run, reused.reset, Machine.run]

theorem run_independent_exhausted :
    let program : Program := ⟨.two, #[9, 5, 0, 0, 0, 0x41, 1, 6, 10]⟩
    let fresh : Machine := .zeroed 8 ⟨some 3, 2⟩
    ∃ outcome, fresh.run 4 program .unlimited ignoreEvents () = some outcome ∧
      outcome.fault = some (.fuelExhausted 3) ∧ outcome.machine.stack = [.zero] ∧
      Reused fresh outcome.machine ∧
      outcome.machine.run 4 program .unlimited collectEvents #[] =
        fresh.run 4 program .unlimited collectEvents #[] := by
  intro program fresh
  have ran : (fresh.run 4 program .unlimited ignoreEvents ()).map
      (fun outcome => (outcome.fault, outcome.machine.stack)) =
        some (some (.fuelExhausted 3), [.zero]) := by
    decide +kernel
  obtain ⟨outcome, ended, seen⟩ := Option.map_eq_some_iff.mp ran
  obtain ⟨failed, operands⟩ := Prod.mk.inj seen
  have reused : Reused fresh outcome.machine := Reused.fresh.run ended
  exact ⟨outcome, ended, failed, operands, reused, run_independent reused 4 program _ _ _⟩

end StackMachine
