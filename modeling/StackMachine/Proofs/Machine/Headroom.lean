import StackMachine.Proofs.Machine.Reuse

set_option autoImplicit false

namespace StackMachine

def RuntimeFault.isLimit : RuntimeFault → Bool
  | .fuelExhausted _ | .recursionLimitExceeded _ | .memoryOutOfBounds _ _ _ => true
  | _ => false

def FuelAtMost : Option Nat → Option Nat → Prop
  | _, none => True
  | none, some _ => False
  | some less, some more => less ≤ more

theorem FuelAtMost.spend {fuel larger : Option Nat} (allowed : FuelAtMost fuel larger)
    (left : fuel ≠ some 0) :
    larger ≠ some 0 ∧ FuelAtMost (fuel.map (· - 1)) (larger.map (· - 1)) := by
  cases fuel with
  | none => cases larger with
    | none => exact ⟨nofun, trivial⟩
    | some more => cases allowed
  | some less => cases larger with
    | none => exact ⟨nofun, trivial⟩
    | some more =>
      have enough : less ≤ more := allowed
      simp only [ne_eq, Option.some.injEq] at left ⊢
      exact ⟨by omega, Nat.sub_le_sub_right enough 1⟩

structure Limits.AtMost (limits larger : Limits) : Prop where
  fuel : FuelAtMost limits.fuel larger.fuel
  recursion : limits.recursion ≤ larger.recursion

/-- The same cells, with cells behind them that nothing has been stored in. -/
def Memory.FitsIn (memory larger : Memory) : Prop :=
  ∃ spare, larger.cells = memory.cells ++ Array.replicate spare .zero

structure CallStack.FitsIn (calls larger : CallStack) : Prop where
  frames : larger.frames = calls.frames
  limit : calls.limit ≤ larger.limit

structure Machine.FitsIn (machine larger : Machine) : Prop where
  pc : larger.pc = machine.pc
  steps : larger.steps = machine.steps
  stack : larger.stack = machine.stack
  registers : larger.registers = machine.registers
  memory : machine.memory.FitsIn larger.memory
  calls : machine.calls.FitsIn larger.calls
  fuel : FuelAtMost machine.fuel larger.fuel

structure Session.FitsIn (session larger : Session) : Prop where
  machine : session.machine.FitsIn larger.machine
  sink : larger.sink = session.sink
  events : larger.events = session.events

structure Outcome.FitsIn {τ : Type} (outcome larger : Outcome τ) : Prop where
  machine : outcome.machine.FitsIn larger.machine
  sink : larger.sink = outcome.sink
  fault : larger.fault = outcome.fault
  trace : larger.trace = outcome.trace

namespace Memory

variable {memory larger : Memory}

theorem fitsIn_zeroed {size more : Nat} (small : size ≤ more) :
    (zeroed size).FitsIn (zeroed more) := by
  exists more - size
  simp only [zeroed, Array.replicate_append_replicate]
  rw [Nat.add_sub_cancel' small]

theorem FitsIn.size_le (fits : memory.FitsIn larger) : memory.size ≤ larger.size := by
  obtain ⟨spare, cells⟩ := fits
  simp [size, cells]

theorem FitsIn.slot? (fits : memory.FitsIn larger) {index : Binary64} {slot : Nat}
    (found : memory.slot? index = some slot) : larger.slot? index = some slot := by
  obtain ⟨finite, low, high, same⟩ := slot?_eq_some_iff.mp found
  exact slot?_eq_some_iff.mpr ⟨finite, low, Binary64.lt_ofInt_mono fits.size_le high, same⟩

theorem FitsIn.load? (fits : memory.FitsIn larger) {index value : Binary64}
    (found : memory.load? index = some value) : larger.load? index = some value := by
  obtain ⟨slot, named, held⟩ := Option.bind_eq_some_iff.mp found
  have inside := slot?_lt named
  have kept : larger.cells[slot]? = some value := by
    obtain ⟨spare, cells⟩ := fits
    rw [cells, Array.getElem?_append_left inside, held]
  exact Option.bind_eq_some_iff.mpr ⟨slot, fits.slot? named, kept⟩

theorem FitsIn.set (fits : memory.FitsIn larger) {slot : Nat} (inside : slot < memory.size)
    (value : Binary64) : (memory.set slot value).FitsIn (larger.set slot value) := by
  obtain ⟨spare, cells⟩ := fits
  exists spare
  have first : slot < memory.cells.size := inside
  simp only [Memory.set, cells, Array.setIfInBounds_append, if_pos first]

end Memory

namespace CallStack

variable {calls larger : CallStack}

theorem FitsIn.depth (fits : calls.FitsIn larger) : larger.depth = calls.depth := by
  rw [larger.depth_eq, calls.depth_eq, fits.frames]

theorem FitsIn.push? (fits : calls.FitsIn larger) {address : UInt32} {pushed : CallStack}
    (push : calls.push? address = some pushed) :
    ∃ other, larger.push? address = some other ∧ pushed.FitsIn other := by
  obtain ⟨below, limit, -⟩ := of_push? push
  have depth := fits.depth
  have higher := fits.limit
  cases grown : larger.push? address with
  | none =>
    have full := limit_le_of_push? grown
    omega
  | some other =>
    have frames : other.frames = pushed.frames := by
      rw [frames_of_push? grown, frames_of_push? push, fits.frames]
    have limits := (of_push? grown).2.1
    exact ⟨other, rfl, frames, by omega⟩

theorem FitsIn.pop?_eq_none (fits : calls.FitsIn larger) (empty : calls.pop? = none) :
    larger.pop? = none := by
  have depth := fits.depth
  cases more : larger.pop? with
  | none => rfl
  | some latest =>
    have none := depth_of_pop? empty
    have some := larger.depth_eq
    rw [frames_of_pop? more, List.length_cons] at some
    omega

theorem FitsIn.pop? (fits : calls.FitsIn larger) {address : UInt32} {popped : CallStack}
    (pop : calls.pop? = some (address, popped)) :
    ∃ other, larger.pop? = some (address, other) ∧ popped.FitsIn other := by
  have frames := fits.frames
  rw [frames_of_pop? pop] at frames
  cases shrunk : larger.pop? with
  | none =>
    have none := depth_of_pop? shrunk
    have some := larger.depth_eq
    rw [frames, List.length_cons] at some
    omega
  | some latest =>
    rw [frames_of_pop? shrunk] at frames
    obtain ⟨same, below⟩ := List.cons.inj frames
    have limit := (of_pop? pop).1
    have limits := (of_pop? shrunk).1
    have higher := fits.limit
    exact ⟨latest.2, by rw [← same], below, by omega⟩

end CallStack

@[simp] theorem Machine.reset_zeroed (memory : Nat) (limits : Limits) :
    (zeroed memory limits).reset = zeroed memory limits := by
  rw [reset_eq, size_memory_zeroed, limits_zeroed]

theorem Machine.fitsIn_zeroed {memory more : Nat} {limits larger : Limits}
    (cells : memory ≤ more) (allowed : limits.AtMost larger) :
    (Machine.zeroed memory limits).FitsIn (.zeroed more larger) where
  pc := rfl
  steps := rfl
  stack := rfl
  registers := rfl
  memory := Memory.fitsIn_zeroed cells
  calls := ⟨rfl, allowed.recursion⟩
  fuel := allowed.fuel

namespace Action

variable {α β : Type} {session larger : Session}

/-- With larger limits the action does the same, unless a limit is what stops it. -/
def Scales (action : Action α) : Prop :=
  ∀ ⦃session larger : Session⦄, session.FitsIn larger →
    action.Ends session (fun a after => ∃ other, action larger = .ok a other ∧ after.FitsIn other)
      fun fault after => fault.isLimit = false →
        ∃ other, action larger = .error fault other ∧ after.FitsIn other

theorem scales_pure (a : α) : Scales (pure a) := fun _ larger fits => ⟨larger, rfl, fits⟩

theorem Scales.bind {first : Action α} {next : α → Action β} (head : Scales first)
    (tail : ∀ a, Scales (next a)) : Scales (first >>= next) := by
  intro session larger fits
  apply ends_bind.mpr
  apply (head fits).mono
  · rintro a middle ⟨other, ran, fits⟩
    have continued : (first >>= next) larger = next a other := by
      simp only [Bind.bind, EStateM.bind, ran]
    rw [continued]
    exact tail a fits
  · intro fault after failed avoidable
    obtain ⟨other, ran, fits⟩ := failed avoidable
    have stopped : (first >>= next) larger = .error fault other := by
      simp only [Bind.bind, EStateM.bind, ran]
    exact ⟨other, stopped, fits⟩

theorem scales_pc : Scales pc := by
  intro session larger fits
  exact ⟨larger, by rw [pc, fits.machine.pc], fits⟩

theorem scales_update {change : Machine → Machine}
    (keeps : ∀ machine larger, machine.FitsIn larger → (change machine).FitsIn (change larger)) :
    Scales (update change) :=
  fun _ _ fits => ⟨_, rfl, keeps _ _ fits.machine, fits.sink, fits.events⟩

theorem scales_emit (event : Event) : Scales (emit event) := by
  intro session larger fits
  have told : larger.events ++ [event] = session.events ++ [event] := by rw [fits.events]
  exact ⟨_, rfl, fits.machine, fits.sink, told⟩

theorem scales_fail (fault : Nat → RuntimeFault) : Scales (fail fault : Action α) := by
  intro session larger fits _
  exact ⟨larger, by rw [fail, fits.machine.pc], fits⟩

theorem scales_top : Scales top := by
  intro session larger fits
  simp only [Ends, top, fits.machine.stack, fits.machine.pc]
  cases session.machine.stack with
  | nil => exact fun _ => ⟨larger, rfl, fits⟩
  | cons value rest => exact ⟨larger, rfl, fits⟩

theorem scales_push (value : Binary64) : Scales (push value) := by
  apply Scales.bind
  · apply scales_update
    intro machine larger fits
    exact { fits with stack := congrArg (value :: ·) fits.stack }
  · intro _
    exact scales_emit _

theorem scales_pop : Scales pop := by
  apply scales_top.bind
  intro value
  apply Scales.bind
  · apply scales_update
    intro machine larger fits
    exact { fits with stack := congrArg List.tail fits.stack }
  intro _
  apply (scales_emit _).bind
  intro _
  exact scales_pure value

theorem scales_register (r : Register) : Scales (register r) := by
  intro session larger fits
  simp only [Ends, register, fits.machine.registers, fits.machine.pc]
  cases session.machine.registers.get? r with
  | none => exact fun _ => ⟨larger, rfl, fits⟩
  | some value => exact ⟨larger, rfl, fits⟩

theorem scales_setRegister (r : Register) (value : Binary64) : Scales (setRegister r value) := by
  intro session larger fits
  simp only [Ends, setRegister, fits.machine.registers]
  cases session.machine.registers.set? r value with
  | none => exact fun _ => ⟨larger, by rw [fits.machine.pc], fits⟩
  | some stored =>
    have machine : Machine.FitsIn { session.machine with registers := stored }
        { larger.machine with registers := stored } := { fits.machine with registers := rfl }
    exact ⟨_, rfl, machine, fits.sink, fits.events⟩

theorem scales_load (index : Binary64) : Scales (load index) := by
  intro session larger fits
  apply ends_load.mpr
  cases found : session.machine.memory.load? index with
  -- The index may name a cell of the larger memory, and then the two part.
  | none => exact nofun
  | some value =>
    have same := fits.machine.memory.load? found
    have ran : load index larger = .ok value larger := by
      simp [load, machine, Bind.bind, EStateM.bind, same, Pure.pure, EStateM.pure]
    exact ⟨larger, ran, fits⟩

theorem scales_store (index value : Binary64) : Scales (store index value) := by
  intro session larger fits
  apply ends_bind.mpr
  simp only [Ends, machine]
  cases found : session.machine.memory.slot? index with
  | none =>
    intro unlimited
    cases unlimited
  | some slot =>
    have same := fits.machine.memory.slot? found
    have stored := fits.machine.memory.set (Memory.slot?_lt found) value
    have ran : store index value larger =
        .ok slot { larger with machine.memory := larger.machine.memory.set slot value } := by
      simp [store, machine, update, Bind.bind, EStateM.bind, Pure.pure, EStateM.pure, same]
    exact ⟨_, ran, { fits.machine with memory := stored }, fits.sink, fits.events⟩

theorem scales_sumOf (operand : Operand) : Scales (sumOf operand) := by
  unfold sumOf
  split
  next r _ =>
    apply (scales_register r).bind
    intro base
    exact scales_pure _
  next => exact scales_pure _

theorem scales_pushOperand (operand : Operand) : Scales (pushOperand operand) := by
  apply (scales_sumOf operand).bind
  intro sum
  simp only
  split
  next => exact (scales_load sum).bind scales_push
  next => exact scales_push sum

theorem scales_popToMemory (operand : Operand) : Scales (popToMemory operand) := by
  apply (scales_sumOf operand).bind
  intro index
  apply scales_pop.bind
  intro value
  apply (scales_store index value).bind
  intro slot
  exact scales_emit _

theorem scales_popToRegister (r : Register) : Scales (popToRegister r) := by
  apply scales_pop.bind
  intro value
  apply (scales_setRegister r value).bind
  intro _
  apply (scales_register r).bind
  intro stored
  exact scales_emit _

theorem scales_popOperand (operand : Operand) : Scales (popOperand operand) := by
  unfold popOperand
  split
  next => exact scales_popToMemory operand
  next =>
    split
    next r _ => exact scales_popToRegister r
    next => exact scales_pop.bind fun _ => scales_pure ()

theorem scales_combine (f : Binary64 → Binary64 → Binary64) : Scales (combine f) := by
  apply scales_pop.bind
  intro right
  apply scales_pop.bind
  intro left
  exact scales_push _

theorem scales_divide : Scales divide := by
  apply scales_pop.bind
  intro right
  apply scales_pop.bind
  intro left
  split
  next => exact (scales_fail _).bind fun _ => scales_push _
  next => exact scales_push _

theorem scales_squareRoot : Scales squareRoot := by
  apply scales_pop.bind
  intro value
  split
  next => exact (scales_fail _).bind fun _ => scales_push _
  next => exact scales_push _

theorem scales_output : Scales output := by
  apply scales_top.bind
  intro value session larger fits
  simp only [Ends, fits.sink]
  cases session.sink.write value.valueText with
  | error reason => exact fun _ => ⟨larger, rfl, fits⟩
  | ok written =>
    have told : larger.events ++ [.output value] = session.events ++ [.output value] := by
      rw [fits.events]
    exact ⟨_, rfl, fits.machine, rfl, told⟩

theorem scales_jump (length : Nat) (target : UInt32) : Scales (jump length target) := by
  unfold jump
  split
  next => exact scales_fail _
  next => exact scales_pure _

theorem scales_jumpWhen (length next : Nat) (condition : Condition) (target : UInt32) :
    Scales (jumpWhen length next condition target) := by
  apply scales_pop.bind
  intro right
  apply scales_pop.bind
  intro left
  apply (scales_emit _).bind
  intro _
  split
  next => exact scales_jump length target
  next => exact scales_pure _

theorem scales_pushCall (address : UInt32) : Scales (pushCall address) := by
  intro session larger fits
  cases pushed : session.machine.calls.push? address with
  | none =>
    simp only [Ends, pushCall, pushed]
    intro unlimited
    cases unlimited
  | some calls =>
    obtain ⟨other, grown, nested⟩ := fits.machine.calls.push? pushed
    simp only [Ends, pushCall, pushed, grown, nested.depth]
    exact ⟨_, rfl, { fits.machine with calls := nested }, fits.sink, fits.events⟩

theorem scales_call (length next : Nat) (target : UInt32) : Scales (call length next target) := by
  apply (scales_jump length target).bind
  intro flow
  apply (scales_pushCall _).bind
  intro depth
  apply (scales_emit _).bind
  intro _
  exact scales_pure flow

theorem scales_popCall : Scales popCall := by
  intro session larger fits
  unfold Ends popCall
  cases popped : session.machine.calls.pop? with
  | none =>
    simp only [fits.machine.calls.pop?_eq_none popped, fits.machine.pc]
    exact fun _ => ⟨larger, rfl, fits⟩
  | some latest =>
    obtain ⟨other, shrunk, below⟩ := fits.machine.calls.pop? popped
    simp only [shrunk, below.depth]
    exact ⟨_, rfl, { fits.machine with calls := below }, fits.sink, fits.events⟩

theorem scales_ret : Scales ret := by
  apply scales_popCall.bind
  intro ⟨address, depth⟩
  apply (scales_emit _).bind
  intro _
  exact scales_pure _

theorem scales_execute (length next : Nat) (i : Instruction) : Scales (execute length next i) := by
  have goesOn {action : Action Unit} (scales : Scales action) :
      Scales (action >>= fun _ => pure (Flow.next next)) :=
    scales.bind fun _ => scales_pure _
  cases i with
  | push operand => exact goesOn (scales_pushOperand operand)
  | pop operand => exact goesOn (scales_popOperand operand)
  | plain op =>
    cases op with
    | hlt => exact scales_pure _
    | add | sub | mul => exact goesOn (scales_combine _)
    | div => exact goesOn scales_divide
    | sqrt => exact goesOn scales_squareRoot
    | out => exact goesOn scales_output
    | ret => exact scales_ret
  | branch op target =>
    cases op with
    | jmp => exact scales_jump length target
    | call => exact scales_call length next target
    | «when» condition => exact scales_jumpWhen length next condition target

theorem consumeFuel_of_ne (left : session.machine.fuel ≠ some 0) :
    consumeFuel session = .ok () session.paid := by
  obtain ⟨⟨limit, pc, fuel, steps, stack, registers, memory, calls⟩, sink, events⟩ := session
  rcases fuel with _ | _ | left
  · rfl
  · contradiction
  · rfl

theorem scales_consumeFuel : Scales consumeFuel := by
  intro session larger fits
  by_cases spent : session.machine.fuel = some 0
  · simp only [Ends, consumeFuel, spent]
    intro unlimited
    cases unlimited
  · obtain ⟨left, allowed⟩ := fits.machine.fuel.spend spent
    simp only [Ends, consumeFuel_of_ne spent, consumeFuel_of_ne left]
    exact ⟨_, rfl, { fits.machine with fuel := allowed }, fits.sink, fits.events⟩

theorem scales_fetch (program : Program) : Scales (fetch program) := by
  intro session larger fits
  simp only [Ends, fetch, fits.machine.pc]
  cases program.decodeAt session.machine.pc with
  | error fault => exact fun _ => ⟨larger, rfl, fits⟩
  | ok decoded => exact ⟨larger, rfl, fits⟩

theorem scales_emitStack : Scales emitStack := by
  intro session larger fits
  have told : larger.events ++ [.stack larger.machine.stack] =
      session.events ++ [.stack session.machine.stack] := by
    rw [fits.events, fits.machine.stack]
  exact ⟨_, rfl, fits.machine, fits.sink, told⟩

theorem scales_finish (flow : Flow) : Scales (finish flow) := by
  cases flow with
  | next pc =>
    apply Scales.bind
    · apply scales_update
      intro machine larger fits
      exact { fits with pc := rfl }
    · intro _
      exact scales_pure _
  | halt =>
    apply scales_pc.bind
    intro pc
    apply (scales_emit _).bind
    intro _
    exact scales_pure _

theorem scales_step (program : Program) : Scales (step program) := by
  apply scales_consumeFuel.bind
  intro _
  apply (scales_fetch program).bind
  intro ⟨i, next⟩
  apply scales_pc.bind
  intro pc
  apply (scales_emit _).bind
  intro _
  apply Scales.bind
  · apply scales_update
    intro machine larger fits
    exact { fits with steps := congrArg (· + 1) fits.steps }
  intro _
  apply (scales_execute program.length next i).bind
  intro flow
  apply scales_emitStack.bind
  intro _
  exact scales_finish flow

theorem scales_turn (program : Program) : Scales (turn program) := by
  apply scales_pc.bind
  intro pc
  split
  next => exact scales_finish .halt
  next => exact scales_step program

end Action

section

variable {τ : Type} {machine larger : Machine} (program : Program) (tracer : τ → Event → τ)

theorem Machine.FitsIn.runFrom (fits : machine.FitsIn larger) (bound : Nat) (sink : Sink)
    (trace : τ) :
    (runFrom program tracer bound machine sink trace = none →
      runFrom program tracer bound larger sink trace = none) ∧
    ∀ outcome, runFrom program tracer bound machine sink trace = some outcome →
      (∀ fault, outcome.fault = some fault → fault.isLimit = false) →
      ∃ other, runFrom program tracer bound larger sink trace = some other ∧
        outcome.FitsIn other := by
  induction bound generalizing machine larger sink trace with
  | zero =>
    constructor
    · exact fun _ => rfl
    · intro outcome ended
      cases ended
  | succ bound ih =>
    have start : Session.FitsIn ⟨machine, sink, []⟩ ⟨larger, sink, []⟩ := ⟨fits, rfl, rfl⟩
    have turned := Action.ends_iff.mp (Action.scales_turn program start)
    simp only [StackMachine.runFrom]
    cases ran : Action.turn program ⟨machine, sink, []⟩ with
    | ok progress after =>
      obtain ⟨other, also, next⟩ := turned.1 _ _ ran
      rw [also]
      cases progress with
      | running =>
        simp only [next.sink, next.events]
        exact ih next.machine _ _
      | halted =>
        simp only [next.sink, next.events]
        constructor
        · intro none
          cases none
        · intro outcome ended _
          cases ended
          exact ⟨_, rfl, next.machine, rfl, rfl, rfl⟩
    | error fault after =>
      constructor
      · intro none
        cases none
      · intro outcome ended avoided
        cases ended
        obtain ⟨other, also, next⟩ := turned.2 _ _ ran (avoided fault rfl)
        rw [also]
        simp only [next.sink, next.events]
        exact ⟨_, rfl, next.machine, rfl, rfl, rfl⟩

theorem Machine.FitsIn.turnsFrom {count : Nat} {after : Machine} {sink written : Sink}
    {start trace : τ} (fits : machine.FitsIn larger)
    (ran : turnsFrom program tracer count machine sink start = some (after, written, trace)) :
    ∃ other, turnsFrom program tracer count larger sink start = some (other, written, trace) ∧
      after.FitsIn other := by
  induction count generalizing machine larger sink start with
  | zero =>
    cases ran
    exact ⟨larger, rfl, fits⟩
  | succ count ih =>
    simp only [StackMachine.turnsFrom] at ran ⊢
    split at ran
    next session done =>
      have start : Session.FitsIn ⟨machine, sink, []⟩ ⟨larger, sink, []⟩ := ⟨fits, rfl, rfl⟩
      have turned := Action.ends_iff.mp (Action.scales_turn program start)
      obtain ⟨other, also, next⟩ := turned.1 _ _ done
      simp only [also, next.sink, next.events]
      exact ih next.machine ran
    next => cases ran
    next => cases ran

theorem Machine.run_zeroed (memory : Nat) (limits : Limits) (bound : Nat) (sink : Sink)
    (start : τ) :
    (zeroed memory limits).run bound program sink tracer start =
      StackMachine.runFrom program tracer bound (zeroed memory limits) sink start := by
  rw [run, reset_zeroed]

end

theorem size_of_run {τ : Type} {program : Program} {tracer : τ → Event → τ} {memory : Nat}
    {limits : Limits} {bound : Nat} {sink : Sink} {start : τ} {outcome : Outcome τ}
    (ended : (Machine.zeroed memory limits).run bound program sink tracer start = some outcome) :
    outcome.machine.memory.size = memory := by
  have kept := congrArg (fun machine => machine.memory.size) (reset_of_run ended)
  simpa [Machine.reset, Machine.zeroed, Memory.zeroed, Memory.size] using kept

/-- A run that no limit stops is the same run under larger limits. It ends alike, or goes on as
long, and the cells that are new are zero throughout. -/
theorem run_of_larger_limits {memory more : Nat} {limits larger : Limits} (cells : memory ≤ more)
    (allowed : limits.AtMost larger) {τ : Type} (program : Program) (sink : Sink)
    (tracer : τ → Event → τ) (start : τ) :
    (∀ bound,
      ((Machine.zeroed memory limits).run bound program sink tracer start = none →
        (Machine.zeroed more larger).run bound program sink tracer start = none) ∧
      ∀ outcome, (Machine.zeroed memory limits).run bound program sink tracer start = some outcome →
        (∀ fault, outcome.fault = some fault → fault.isLimit = false) →
        ∃ other, (Machine.zeroed more larger).run bound program sink tracer start = some other ∧
          outcome.FitsIn other ∧ outcome.machine.memory.size = memory ∧
          other.machine.memory.size = more) ∧
    ∀ count after written trace,
      turnsFrom program tracer count (.zeroed memory limits) sink start =
        some (after, written, trace) →
      ∃ other, turnsFrom program tracer count (.zeroed more larger) sink start =
        some (other, written, trace) ∧ after.FitsIn other := by
  have fits := Machine.fitsIn_zeroed cells allowed
  constructor
  · intro bound
    have related := fits.runFrom program tracer bound sink start
    simp only [← Machine.run_zeroed] at related
    apply And.intro related.1
    intro outcome ended avoided
    obtain ⟨other, also, same⟩ := related.2 outcome ended avoided
    exact ⟨other, also, same, size_of_run ended, size_of_run also⟩
  · intro count after written trace ran
    exact fits.turnsFrom program tracer ran

theorem run_of_larger_limits_tight :
    let program : Program := ⟨.two, #[9, 6, 0, 0, 0, 0, 33, 0, 0, 0, 0, 0, 0, 8, 64, 168, 0, 0, 0,
      0, 0, 0, 240, 63, 161, 0, 0, 0, 0, 0, 0, 240, 63, 6, 10]⟩
    let limits : Limits := ⟨some 7, 1⟩
    ∃ outcome other,
      (Machine.zeroed 2 limits).run 7 program .unlimited collectEvents #[] = some outcome ∧
      (Machine.zeroed 4 ⟨none, 3⟩).run 7 program .unlimited collectEvents #[] = some other ∧
      outcome.fault = none ∧ outcome.sink.lines = #["3"] ∧ outcome.FitsIn other ∧
      outcome.machine.memory.size = 2 ∧ other.machine.memory.size = 4 := by
  intro program limits
  have ran : ((Machine.zeroed 2 limits).run 7 program .unlimited collectEvents #[]).map
      (fun outcome => (outcome.fault, outcome.sink.lines)) = some (none, #["3"]) := by
    decide +kernel
  obtain ⟨outcome, ended, seen⟩ := Option.map_eq_some_iff.mp ran
  obtain ⟨halted, lines⟩ := Prod.mk.inj seen
  have allowed : limits.AtMost ⟨none, 3⟩ := ⟨trivial, by decide⟩
  obtain ⟨runs, -⟩ :=
    run_of_larger_limits (by decide : 2 ≤ 4) allowed program .unlimited collectEvents #[]
  obtain ⟨other, also, same, sizes⟩ := (runs 7).2 outcome ended (by simp [halted])
  exact ⟨outcome, other, ended, also, halted, lines, same, sizes⟩

end StackMachine
