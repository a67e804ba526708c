import StackMachine.Machine.Execution
import StackMachine.Proofs.Machine.Actions

set_option autoImplicit false

namespace StackMachine

namespace Session

def paid (session : Session) : Session :=
  { session with machine.fuel := session.machine.fuel.map (· - 1) }

def counted (session : Session) (i : Instruction) : Session :=
  { session with
    machine.steps := session.machine.steps + 1
    events := session.events ++ [.instruction session.machine.pc i] }

end Session

namespace Action

section

variable {program : Program} {session : Session} {done : Progress → Session → Prop}
  {failed : RuntimeFault → Session → Prop}

theorem ends_fetch {done : Instruction × Nat → Session → Prop} :
    (fetch program).Ends session done failed ↔
      match program.decodeAt session.machine.pc with
      | .error fault => failed (.ofDecodeFault fault) session
      | .ok decoded => done decoded session := by
  unfold Ends fetch
  cases program.decodeAt session.machine.pc <;> rfl

def paidStep (program : Program) : Action Progress := do
  let (i, next) ← fetch program
  emit (.instruction (← pc) i)
  update fun machine => { machine with steps := machine.steps + 1 }
  let flow ← execute program.length next i
  emitStack
  finish flow

def Settled (done : Progress → Session → Prop) (flow : Flow) (after : Session) : Prop :=
  let events := after.events ++ [.stack after.machine.stack]
  match flow with
  | .next pc => done .running { after with machine.pc := pc, events }
  | .halt => done .halted { after with events := events ++ [.halt after.machine.pc] }

theorem ends_paidStep :
    (paidStep program).Ends session done failed ↔
      match program.decodeAt session.machine.pc with
      | .error fault => failed (.ofDecodeFault fault) session
      | .ok (i, next) =>
        (execute program.length next i).Ends (session.counted i) (Settled done) failed := by
  have settled : (fun flow after => (emitStack >>= fun _ => finish flow).Ends after done failed) =
      Settled done := by
    funext flow after
    cases flow <;> rfl
  apply ends_bind.trans
  apply ends_fetch.trans
  cases program.decodeAt session.machine.pc with
  | error fault => exact Iff.rfl
  | ok decoded =>
    rw [← settled]
    change Ends (execute program.length decoded.2 decoded.1 >>= fun flow =>
      emitStack >>= fun _ => finish flow) (session.counted decoded.1) done failed ↔ _
    exact ends_bind

theorem ends_turn :
    (turn program).Ends session done failed ↔
      if session.machine.pc = program.length then
        done .halted { session with events := session.events ++ [.halt session.machine.pc] }
      else if session.machine.fuel = some 0 then
        failed (.fuelExhausted (session.machine.fuelLimit.getD 0)) session
      else match program.decodeAt session.machine.pc with
        | .error fault => failed (.ofDecodeFault fault) session.paid
        | .ok (i, next) =>
          (execute program.length next i).Ends (session.paid.counted i) (Settled done) failed := by
  apply ends_bind.trans
  change Ends (if session.machine.pc = program.length then finish .halt else step program) session
    done failed ↔ _
  split
  next => exact Iff.rfl
  next =>
    obtain ⟨⟨limit, pc, fuel, steps, stack, registers, memory, calls⟩, sink, events⟩ := session
    change Ends (consumeFuel >>= fun _ => paidStep program) _ done failed ↔ _
    apply ends_bind.trans
    -- Without a limit nothing is paid; with one, what is left goes down by one.
    rcases fuel with _ | _ | left
    · exact ends_paidStep
    · exact Iff.rfl
    · exact ends_paidStep

theorem turn_ends
    (halts : session.machine.pc = program.length →
      done .halted { session with events := session.events ++ [.halt session.machine.pc] })
    (spent : session.machine.pc ≠ program.length → session.machine.fuel = some 0 →
      failed (.fuelExhausted (session.machine.fuelLimit.getD 0)) session)
    (garbled : ∀ fault, session.machine.pc ≠ program.length →
      program.decodeAt session.machine.pc = .error fault →
      failed (.ofDecodeFault fault) session.paid)
    (executes : ∀ i next, i.InTable → program.decodeAt session.machine.pc = .ok (i, next) →
      (execute program.length next i).Ends (session.paid.counted i) (Settled done) failed) :
    (turn program).Ends session done failed := by
  rw [ends_turn]
  by_cases ended : session.machine.pc = program.length
  · rw [if_pos ended]
    exact halts ended
  rw [if_neg ended]
  by_cases empty : session.machine.fuel = some 0
  · rw [if_pos empty]
    exact spent ended empty
  rw [if_neg empty]
  cases decoded : program.decodeAt session.machine.pc with
  | error fault => exact garbled fault ended decoded
  | ok result =>
    obtain ⟨i, next⟩ := result
    exact executes i next (Instruction.wellFormed_of_decodeAt decoded).inTable decoded

end

end Action

inductive Reached (program : Program) (machine : Machine) (sink : Sink) : Machine → Sink → Prop
  | start : Reached program machine sink machine.reset sink
  | turn {before : Machine} {written : Sink} {after : Session}
    (earlier : Reached program machine sink before written)
    (ran : Action.turn program ⟨before, written, []⟩ = .ok .running after) :
    Reached program machine sink after.machine after.sink

inductive Stops (program : Program) (machine : Machine) (sink : Sink) :
    Machine → Sink → Option RuntimeFault → Prop
  | halt {after : Session} (ran : Action.turn program ⟨machine, sink, []⟩ = .ok .halted after) :
    Stops program machine sink after.machine after.sink none
  | fail {fault : RuntimeFault} {after : Session}
    (ran : Action.turn program ⟨machine, sink, []⟩ = .error fault after) :
    Stops program machine sink after.machine after.sink (some fault)

theorem exists_stop_of_runFrom {τ : Type} {program : Program} {machine before : Machine}
    {sink written : Sink} {tracer : τ → Event → τ} {bound : Nat} {trace : τ} {outcome : Outcome τ}
    (reached : Reached program machine sink before written)
    (ended : runFrom program tracer bound before written trace = some outcome) :
    ∃ last lastSink, Reached program machine sink last lastSink ∧
      Stops program last lastSink outcome.machine outcome.sink outcome.fault := by
  induction bound generalizing before written trace with
  | zero => cases ended
  | succ bound ih =>
    simp only [runFrom] at ended
    split at ended
    next after ran => exact ih (reached.turn ran) ended
    next after ran =>
      cases ended
      exact ⟨before, written, reached, .halt ran⟩
    next fault after ran =>
      cases ended
      exact ⟨before, written, reached, .fail ran⟩

def Outcome.map {σ τ : Type} (view : σ → τ) (outcome : Outcome σ) : Outcome τ :=
  ⟨outcome.machine, outcome.sink, outcome.fault, view outcome.trace⟩

/-- A tracer that sees less, or shows it in another way, changes nothing else. -/
theorem runFrom_hom {σ τ : Type} (program : Program) (view : σ → τ) {tracer : σ → Event → σ}
    {viewer : τ → Event → τ}
    (same : ∀ trace event, view (tracer trace event) = viewer (view trace) event)
    (bound : Nat) (machine : Machine) (sink : Sink) (trace : σ) :
    runFrom program viewer bound machine sink (view trace) =
      (runFrom program tracer bound machine sink trace).map (Outcome.map view) := by
  have told (events : List Event) (trace : σ) :
      events.foldl viewer (view trace) = view (events.foldl tracer trace) :=
    List.foldl_hom view fun trace event => (same trace event).symm
  induction bound generalizing machine sink trace with
  | zero => rfl
  | succ bound ih =>
    simp only [runFrom]
    split
    next => rw [told, ih]
    next => simp [told, Outcome.map]
    next => simp [told, same, Outcome.map]

theorem toList_foldl_collectEvents (events : List Event) (trace : Array Event) :
    (events.foldl collectEvents trace).toList = trace.toList ++ events := by
  have pushed : events.foldl collectEvents trace = trace ++ (events.map id).toArray :=
    List.foldl_push_eq_append
  simp [pushed]

/-- What holds at the start and is kept by turns holds throughout a run and as it stops. -/
theorem Reached.invariant {program : Program} {machine state : Machine} {sink written : Sink}
    {holds : Machine → Prop} (reached : Reached program machine sink state written)
    (start : holds machine.reset)
    (kept : ∀ before written after, holds before →
      Action.turn program ⟨before, written, []⟩ = .ok .running after → holds after.machine) :
    holds state := by
  induction reached with
  | start => exact start
  | turn earlier ran ih => exact kept _ _ _ ih ran

def turnsFrom {τ : Type} (program : Program) (tracer : τ → Event → τ) :
    (count : Nat) → Machine → Sink → τ → Option (Machine × Sink × τ)
  | 0, machine, sink, trace => some (machine, sink, trace)
  | count + 1, machine, sink, trace =>
    match Action.turn program ⟨machine, sink, []⟩ with
    | .ok .running session =>
      turnsFrom program tracer count session.machine session.sink
        (session.events.foldl tracer trace)
    | .ok .halted _ | .error _ _ => none

section

variable {τ : Type} {program : Program} {tracer : τ → Event → τ} {count : Nat}
  {machine state : Machine} {sink written : Sink} {start told : τ}

theorem exists_turn (turns : turnsFrom program tracer (count + 1) machine sink start =
      some (state, written, told)) :
    ∃ after, Action.turn program ⟨machine, sink, []⟩ = .ok .running after ∧
      turnsFrom program tracer count after.machine after.sink (after.events.foldl tracer start) =
        some (state, written, told) := by
  rw [turnsFrom] at turns
  split at turns
  next after ran => exact ⟨after, ran, turns⟩
  next => cases turns
  next => cases turns

theorem turnsFrom_add
    (turns : turnsFrom program tracer count machine sink start = some (state, written, told))
    (more : Nat) :
    turnsFrom program tracer (count + more) machine sink start =
      turnsFrom program tracer more state written told := by
  induction count generalizing machine sink start with
  | zero =>
    cases turns
    rw [Nat.zero_add]
  | succ count ih =>
    obtain ⟨first, begun, later⟩ := exists_turn turns
    rw [Nat.succ_add, turnsFrom, begun]
    exact ih later

theorem turnsFrom_snoc {after : Session}
    (turns : turnsFrom program tracer count machine sink start = some (state, written, told))
    (ran : Action.turn program ⟨state, written, []⟩ = .ok .running after) :
    turnsFrom program tracer (count + 1) machine sink start =
      some (after.machine, after.sink, after.events.foldl tracer told) := by
  rw [turnsFrom_add turns, turnsFrom, ran]
  rfl

theorem runFrom_add
    (turns : turnsFrom program tracer count machine sink start = some (state, written, told))
    (bound : Nat) :
    runFrom program tracer (count + bound) machine sink start =
      runFrom program tracer bound state written told := by
  induction count generalizing machine sink start with
  | zero =>
    cases turns
    rw [Nat.zero_add]
  | succ count ih =>
    obtain ⟨first, begun, later⟩ := exists_turn turns
    rw [Nat.succ_add, runFrom, begun]
    exact ih later

theorem lt_of_runFrom {bound : Nat} {outcome : Outcome τ}
    (turns : turnsFrom program tracer count machine sink start = some (state, written, told))
    (ended : runFrom program tracer bound machine sink start = some outcome) : count < bound := by
  induction count generalizing machine sink start bound with
  | zero =>
    cases bound with
    | zero => cases ended
    | succ bound => exact Nat.succ_pos bound
  | succ count ih =>
    cases bound with
    | zero => cases ended
    | succ bound =>
      obtain ⟨first, begun, later⟩ := exists_turn turns
      rw [runFrom, begun] at ended
      exact Nat.succ_lt_succ (ih later ended)

end

theorem Reached.of_turnsFrom {τ : Type} {program : Program} {tracer : τ → Event → τ}
    {machine before after : Machine} {sink written final : Sink} {count : Nat} {start trace : τ}
    (reached : Reached program machine sink before written)
    (ran : turnsFrom program tracer count before written start = some (after, final, trace)) :
    Reached program machine sink after final := by
  induction count generalizing before written start with
  | zero =>
    cases ran
    exact reached
  | succ count ih =>
    obtain ⟨first, begun, later⟩ := exists_turn ran
    exact ih (reached.turn begun) later

end StackMachine
