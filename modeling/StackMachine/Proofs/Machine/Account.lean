import StackMachine.Proofs.Machine.Bounds
import StackMachine.Proofs.Machine.Changes

set_option autoImplicit false

namespace StackMachine

namespace Registers

theorem get?_zeroed : ∀ r : Register, r.InTable → zeroed.get? r = some .zero := by
  unfold Register.InTable
  decide +kernel

theorem get?_of_set? {registers stored : Registers} {r other : Register} {value : Binary64}
    (set : registers.set? r value = some stored) (different : other ≠ r) :
    stored.get? other = registers.get? other := by
  have slots (same : other.bank = r.bank) : r.slot ≠ other.slot := by
    intro slot
    exact different (by cases other; cases r; simp_all)
  unfold set? at set
  split at set
  next =>
    cases bank : r.bank <;> cases place : other.bank <;> simp only [bank] at set <;> cases set <;>
      simp_all [get?]
  next => cases set

end Registers

namespace Event

def isInstruction : Event → Bool
  | .instruction _ _ => true
  | _ => false

def isTerminal : Event → Bool
  | .halt _ | .fault _ => true
  | _ => false

def output? : Event → Option Binary64
  | .output value => some value
  | _ => none

end Event

structure Replay where
  stack : List Binary64
  registers : Register → Binary64
  memory : Memory
  depth : Nat

namespace Replay

def zeroed (cells : Nat) : Replay := ⟨[], fun _ => .zero, .zeroed cells, 0⟩

def follow? (replay : Replay) : Event → Option Replay
  | .push value => some { replay with stack := value :: replay.stack }
  | .pop value =>
    if replay.stack.head? = some value then some { replay with stack := replay.stack.tail }
    else none
  | .register r value =>
    some { replay with registers := fun q => if q = r then value else replay.registers q }
  | .memory slot value =>
    if slot < replay.memory.size then
      some { replay with memory := replay.memory.set slot value }
    else none
  | .call _ depth => if depth = replay.depth + 1 then some { replay with depth } else none
  | .ret _ depth => if depth + 1 = replay.depth then some { replay with depth } else none
  | .stack values => if values = replay.stack then some replay else none
  | .instruction _ _ | .branch _ _ | .output _ | .halt _ | .fault _ => some replay

structure Shows (replay : Replay) (machine : Machine) : Prop where
  stack : replay.stack = machine.stack
  registers : ∀ r : Register, r.InTable →
    machine.registers.get? r = some (replay.registers r)
  memory : replay.memory = machine.memory
  depth : replay.depth = machine.calls.depth

theorem shows_zeroed (machine : Machine) : (zeroed machine.memory.size).Shows machine.reset :=
  ⟨rfl, Registers.get?_zeroed, rfl, rfl⟩

end Replay

/-- The events tell what the machine holds, what it has done and what it has written. -/
structure Account (cells : Nat) (start : Sink) (events : List Event) (machine : Machine)
    (sink : Sink) : Prop where
  replay : ∃ replay, events.foldlM Replay.follow? (.zeroed cells) = some replay ∧
    replay.Shows machine
  steps : events.countP Event.isInstruction = machine.steps
  output : sink.lines.toList = start.lines.toList ++
    (events.filterMap Event.output?).map Binary64.valueText

namespace Account

variable {cells : Nat} {start sink : Sink} {events : List Event} {machine : Machine}

theorem reset (machine : Machine) (sink : Sink) :
    Account machine.memory.size sink [] machine.reset sink where
  replay := ⟨_, rfl, Replay.shows_zeroed machine⟩
  steps := rfl
  output := by simp

theorem tell {event : Event} {after : Machine} {written : Sink}
    (account : Account cells start events machine sink)
    (follows : ∀ replay : Replay, replay.Shows machine →
      ∃ next, replay.follow? event = some next ∧ next.Shows after)
    (steps : after.steps = machine.steps + if event.isInstruction then 1 else 0)
    (output : written.lines.toList =
      sink.lines.toList ++ event.output?.toList.map Binary64.valueText) :
    Account cells start (events ++ [event]) after written := by
  obtain ⟨replay, followed, shown⟩ := account.replay
  obtain ⟨next, step, shows⟩ := follows replay shown
  refine ⟨⟨next, ?_, shows⟩, ?_, ?_⟩
  · simp [List.foldlM_append, followed, step]
  · simp [List.countP_append, List.countP_cons, account.steps, steps]
  · rw [output, account.output, List.filterMap_append]
    cases told : event.output? <;> simp [told]

end Account

def EndsWith (events : List Event) (last : Event) : Prop :=
  ∃ inner, events = inner ++ [last] ∧ ∀ event ∈ inner, event.isTerminal = false

structure Session.Accounted (cells : Nat) (start : Sink) (earlier : List Event)
    (session : Session) : Prop where
  account : Account cells start (earlier ++ session.events) session.machine session.sink
  running : ∀ event ∈ earlier ++ session.events, event.isTerminal = false

namespace Session.Accounted

variable {cells : Nat} {start : Sink} {earlier : List Event} {session after : Session}

theorem tell {event : Event} {machine : Machine} {written : Sink}
    (accounted : session.Accounted cells start earlier)
    (follows : ∀ replay : Replay, replay.Shows session.machine →
      ∃ next, replay.follow? event = some next ∧ next.Shows machine)
    (steps : machine.steps = session.machine.steps + if event.isInstruction then 1 else 0)
    (output : written.lines.toList =
      session.sink.lines.toList ++ event.output?.toList.map Binary64.valueText)
    (inner : event.isTerminal = false) :
    Accounted cells start earlier ⟨machine, written, session.events ++ [event]⟩ where
  account := by
    simp only [← List.append_assoc]
    exact accounted.account.tell follows steps output
  running := by
    simp only [← List.append_assoc]
    intro other member
    rcases List.mem_append.mp member with before | same
    · exact accounted.running other before
    · rw [List.mem_singleton.mp same, inner]

theorem change (accounted : session.Accounted cells start earlier)
    (change : session.Change after) : after.Accounted cells start earlier := by
  cases change with
  | push value =>
    refine accounted.tell ?_ rfl (by simp [Event.output?]) rfl
    intro replay shown
    refine ⟨{ replay with stack := value :: replay.stack }, rfl, ?_⟩
    exact ⟨by simp [shown.stack], shown.registers, shown.memory, shown.depth⟩
  | pop top =>
    refine accounted.tell ?_ rfl (by simp [Event.output?]) rfl
    intro replay shown
    refine ⟨{ replay with stack := replay.stack.tail }, ?_, ?_⟩
    · simp [Replay.follow?, shown.stack, top]
    · exact ⟨by simp [shown.stack], shown.registers, shown.memory, shown.depth⟩
  | @store index slot value found =>
    have inside := Memory.slot?_lt found
    refine accounted.tell ?_ rfl (by simp [Event.output?]) rfl
    intro replay shown
    refine ⟨{ replay with memory := replay.memory.set slot value }, ?_, ?_⟩
    · simp [Replay.follow?, shown.memory, inside]
    · exact ⟨shown.stack, shown.registers, by simp [shown.memory], shown.depth⟩
  | @assign registers r value stored set get =>
    refine accounted.tell ?_ rfl (by simp [Event.output?]) rfl
    intro replay shown
    refine ⟨_, rfl, shown.stack, ?_, shown.memory, shown.depth⟩
    intro other known
    by_cases same : other = r
    · simp [same, get]
    · simp [same, Registers.get?_of_set? set same, shown.registers other known]
  | write top accepted =>
    have lines := Sink.lines_of_write accepted
    refine accounted.tell ?_ rfl (by simp [Event.output?, lines]) rfl
    intro replay shown
    exact ⟨replay, rfl, shown.stack, shown.registers, shown.memory, shown.depth⟩
  | branch target taken =>
    refine accounted.tell ?_ rfl (by simp [Event.output?]) rfl
    intro replay shown
    exact ⟨replay, rfl, shown.stack, shown.registers, shown.memory, shown.depth⟩
  | @call address calls target push =>
    have deeper := (CallStack.of_push? push).2.2
    refine accounted.tell ?_ rfl (by simp [Event.output?]) rfl
    intro replay shown
    refine ⟨{ replay with depth := calls.depth }, ?_, ?_⟩
    · simp [Replay.follow?, shown.depth, deeper]
    · exact ⟨shown.stack, shown.registers, shown.memory, rfl⟩
  | @ret address calls pop =>
    have frames := congrArg List.length (CallStack.frames_of_pop? pop)
    refine accounted.tell ?_ rfl (by simp [Event.output?]) rfl
    intro replay shown
    refine ⟨{ replay with depth := calls.depth }, ?_, ?_⟩
    · simp [Replay.follow?, shown.depth, CallStack.depth_eq, frames]
    · exact ⟨shown.stack, shown.registers, shown.memory, rfl⟩

theorem changes (accounted : session.Accounted cells start earlier)
    (changes : session.Changes after) : after.Accounted cells start earlier :=
  changes.kept accounted fun _ _ kept step => kept.change step

theorem paid (accounted : session.Accounted cells start earlier) :
    session.paid.Accounted cells start earlier where
  account := by
    obtain ⟨replay, followed, shown⟩ := accounted.account.replay
    have same : replay.Shows session.paid.machine :=
      ⟨shown.stack, shown.registers, shown.memory, shown.depth⟩
    exact ⟨⟨replay, followed, same⟩, accounted.account.steps, accounted.account.output⟩
  running := accounted.running

theorem counted (accounted : session.Accounted cells start earlier) (i : Instruction) :
    (session.counted i).Accounted cells start earlier := by
  refine accounted.tell ?_ rfl (by simp [Event.output?]) rfl
  intro replay shown
  exact ⟨replay, rfl, shown.stack, shown.registers, shown.memory, shown.depth⟩

theorem settled (accounted : session.Accounted cells start earlier) (pc : Nat) :
    Accounted cells start earlier ⟨{ session.machine with pc }, session.sink,
      session.events ++ [.stack session.machine.stack]⟩ := by
  refine accounted.tell ?_ rfl (by simp [Event.output?]) rfl
  intro replay shown
  refine ⟨replay, ?_, shown.stack, shown.registers, shown.memory, shown.depth⟩
  simp [Replay.follow?, shown.stack]

theorem close {event : Event} (accounted : session.Accounted cells start earlier)
    (terminal : event.isTerminal = true) :
    Account cells start (earlier ++ (session.events ++ [event])) session.machine session.sink ∧
      EndsWith (earlier ++ (session.events ++ [event])) event := by
  rw [← List.append_assoc]
  refine ⟨?_, _, rfl, accounted.running⟩
  cases event with
  | halt | fault =>
    refine accounted.account.tell ?_ rfl (by simp [Event.output?])
    intro replay shown
    exact ⟨replay, rfl, shown⟩
  | _ => cases terminal

theorem turn (accounted : session.Accounted cells start earlier) (program : Program) :
    (Action.turn program).Ends session
      (fun progress after => match progress with
        | .running => after.Accounted cells start earlier
        | .halted => Account cells start (earlier ++ after.events) after.machine after.sink ∧
          EndsWith (earlier ++ after.events) (.halt after.machine.pc))
      fun _ after => after.Accounted cells start earlier := by
  apply Action.turn_ends
  case halts => exact fun _ => accounted.close rfl
  case spent => exact fun _ _ => accounted
  case garbled => exact fun _ _ _ => accounted.paid
  case executes =>
    intro i next known _
    have begun := accounted.paid.counted i
    apply (Action.changes_execute known _ _ _).mono
    · rintro (pc | _) after changes
      · exact (begun.changes changes).settled pc
      · exact ((begun.changes changes).settled after.machine.pc).close rfl
    · intro fault after changes
      exact begun.changes changes

end Session.Accounted

def Outcome.lastEvent {τ : Type} (outcome : Outcome τ) : Event :=
  match outcome.fault with
  | none => .halt outcome.machine.pc
  | some fault => .fault fault

theorem account_of_runFrom {program : Program} {cells bound : Nat} {start sink : Sink}
    {machine : Machine} {trace : Array Event} {outcome : Outcome (Array Event)}
    (accounted : Session.Accounted cells start trace.toList ⟨machine, sink, []⟩)
    (ended : runFrom program collectEvents bound machine sink trace = some outcome) :
    Account cells start outcome.trace.toList outcome.machine outcome.sink ∧
      EndsWith outcome.trace.toList outcome.lastEvent := by
  induction bound generalizing machine sink trace with
  | zero => cases ended
  | succ bound ih =>
    obtain ⟨done, failed⟩ := Action.ends_iff.mp (accounted.turn program)
    simp only [runFrom] at ended
    split at ended
    next after ran =>
      have next := done _ _ ran
      apply ih _ ended
      rw [toList_foldl_collectEvents]
      exact ⟨by simpa using next.account, by simpa using next.running⟩
    next after ran =>
      cases ended
      rw [toList_foldl_collectEvents]
      exact done _ _ ran
    next fault after ran =>
      cases ended
      have terminal : (Event.fault fault).isTerminal = true := rfl
      have closed := (failed _ _ ran).close terminal
      simpa [collectEvents, toList_foldl_collectEvents, Outcome.lastEvent] using closed

/-- What any tracer of a run is told is a faithful account of the run. -/
theorem run_accounted {program : Program} {machine : Machine} {sink : Sink} {bound : Nat}
    {outcome : Outcome (Array Event)}
    (ended : machine.run bound program sink collectEvents #[] = some outcome) :
    let events := outcome.trace.toList
    Account machine.memory.size sink events outcome.machine outcome.sink ∧
      EndsWith events outcome.lastEvent ∧
      ∀ (τ : Type) (tracer : τ → Event → τ) (start : τ),
        machine.run bound program sink tracer start =
          some (outcome.map fun trace => trace.foldl tracer start) := by
  have accounted : Session.Accounted machine.memory.size sink [] ⟨machine.reset, sink, []⟩ :=
    ⟨.reset machine sink, by simp⟩
  obtain ⟨account, closed⟩ := account_of_runFrom accounted ended
  refine ⟨account, closed, ?_⟩
  intro τ tracer start
  have told (events : Array Event) (event : Event) :
      (collectEvents events event).foldl tracer start =
        tracer (events.foldl tracer start) event :=
    Array.foldl_push
  have viewed := runFrom_hom program (fun trace : Array Event => trace.foldl tracer start) told
    bound machine.reset sink #[]
  have same : runFrom program collectEvents bound machine.reset sink #[] = some outcome := ended
  simpa [Machine.run, same] using viewed

theorem run_accounted_empty :
    let program : Program := ⟨.two, #[9, 5, 0, 0, 0, 0x41, 1, 0xc8, 1, 6]⟩
    let machine : Machine := .zeroed 8 .default
    let rax : Operand := ⟨some ⟨.address, 0⟩, none, false⟩
    let events := #[.instruction 0 (.branch .call 5), .call 5 1, .stack [],
      .instruction 5 (.push rax), .push .zero, .stack [.zero],
      .instruction 7 (.pop { rax with inMemory := true }), .pop .zero, .memory 0 .zero, .stack [],
      .instruction 9 (.plain .out), .fault (.emptyOperandStack 9)]
    ∃ outcome, machine.run 4 program .unlimited collectEvents #[] = some outcome ∧
      outcome.trace = events ∧
      Account 8 .unlimited events.toList outcome.machine outcome.sink ∧
      EndsWith events.toList (.fault (.emptyOperandStack 9)) := by
  intro program machine rax events
  have ran : (machine.run 4 program .unlimited collectEvents #[]).map
      (fun outcome => (outcome.trace, outcome.fault)) =
        some (events, some (.emptyOperandStack 9)) := by
    decide +kernel
  obtain ⟨outcome, ended, same⟩ := Option.map_eq_some_iff.mp ran
  obtain ⟨told, failed⟩ := Prod.mk.inj same
  obtain ⟨account, closed, -⟩ := run_accounted ended
  simp only [Outcome.lastEvent, failed] at closed
  rw [told] at account closed
  refine ⟨outcome, ended, told, ?_, closed⟩
  simpa only [machine, Machine.size_memory_zeroed] using account

end StackMachine
