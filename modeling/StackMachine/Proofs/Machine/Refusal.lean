import StackMachine.Proofs.Machine.Changes
import StackMachine.Proofs.Machine.Surroundings
import StackMachine.Proofs.Machine.Turns

set_option autoImplicit false

namespace StackMachine

def Sink.refusing (sink : Sink) (refuses : Array String → String → Option String) : Sink :=
  { sink with refuses }

def Session.refusing (session : Session) (refuses : Array String → String → Option String) :
    Session :=
  { session with sink := session.sink.refusing refuses }

def Outcome.refusing {τ : Type} (refuses : Array String → String → Option String)
    (outcome : Outcome τ) : Outcome τ :=
  { outcome with sink := outcome.sink.refusing refuses }

def Event.isOut : Event → Bool
  | .instruction _ (.plain .out) => true
  | _ => false

namespace Machine

structure Writes (machine : Machine) (program : Program) (next : Nat) (value : Binary64) :
    Prop where
  fetched : program.decodeAt machine.pc = .ok (.plain .out, next)
  fueled : machine.fuel ≠ some 0
  top : machine.stack.head? = some value

def Silent (machine : Machine) (program : Program) : Prop :=
  ∀ next value, ¬machine.Writes program next value

theorem writes_or_silent (machine : Machine) (program : Program) :
    (∃ next value, machine.Writes program next value) ∨ machine.Silent program := by
  by_cases writes : ∃ next value, machine.Writes program next value
  · exact .inl writes
  · exact .inr fun next value here => writes ⟨next, value, here⟩

def decoded (machine : Machine) : Machine :=
  { machine with fuel := machine.fuel.map (· - 1), steps := machine.steps + 1 }

end Machine

variable {program : Program} {machine : Machine} {sink : Sink}
  {refuses : Array String → String → Option String}

namespace Action

theorem turn_of_writes {next : Nat} {value : Binary64} (writes : machine.Writes program next value)
    (sink : Sink) :
    let told := [.instruction machine.pc (.plain .out)]
    turn program ⟨machine, sink, []⟩ =
      match sink.write value.valueText with
      | .error reason => .error (.output reason) ⟨machine.decoded, sink, told⟩
      | .ok accepted => .ok .running ⟨{ machine.decoded with pc := next }, accepted,
        told ++ [.output value, .stack machine.stack]⟩ := by
  intro told
  obtain ⟨advances, inside⟩ := decodeAt_advances writes.fetched
  have before : machine.pc ≠ program.length := Nat.ne_of_lt (Nat.lt_of_lt_of_le advances inside)
  obtain ⟨rest, operands⟩ := List.head?_eq_some_iff.mp writes.top
  have stack : (Session.counted (.paid ⟨machine, sink, []⟩) (.plain .out)).machine.stack =
    value :: rest := operands
  have output : (Session.counted (.paid ⟨machine, sink, []⟩) (.plain .out)).sink = sink := rfl
  have self := Ends.self (turn program) ⟨machine, sink, []⟩
  simp only [ends_turn, if_neg before, if_neg writes.fueled, writes.fetched, ends_execute_out,
    stack, output] at self
  cases answer : sink.write value.valueText with
  | error reason =>
    rw [answer] at self
    exact self
  | ok accepted =>
    rw [answer] at self
    exact self

theorem stack_of_silent {next : Nat} (silent : machine.Silent program)
    (fueled : machine.fuel ≠ some 0)
    (fetched : program.decodeAt machine.pc = .ok (.plain .out, next)) : machine.stack = [] := by
  cases operands : machine.stack with
  | nil => rfl
  | cons value rest => exact absurd ⟨fetched, fueled, by simp [operands]⟩ (silent next value)

theorem ends_turn_within {session : Session} (tune : Sink → Sink)
    (silent : session.machine.Silent program)
    {done : Progress → Session → Prop} {failed : RuntimeFault → Session → Prop} :
    (turn program).Ends (session.within ⟨id, id, tune⟩) done failed ↔
      (turn program).Ends session
        (fun progress after => done progress (after.within ⟨id, id, tune⟩))
        fun fault after => failed fault (after.within ⟨id, id, tune⟩) := by
  have same : (session.within ⟨id, id, tune⟩).machine = session.machine := rfl
  rw [ends_turn, ends_turn, same]
  split
  next => exact Iff.rfl
  split
  next => exact Iff.rfl
  next fueled =>
    split
    next => exact Iff.rfl
    next i next fetched =>
      by_cases out : i = .plain .out
      · subst out
        have empty := stack_of_silent silent fueled fetched
        have left : ((session.within ⟨id, id, tune⟩).paid.counted (.plain .out)).machine.stack =
          [] := empty
        have right : (session.paid.counted (.plain .out)).machine.stack = [] := empty
        rw [ends_execute_out, ends_execute_out, left, right]
        exact Iff.rfl
      · have known := (Instruction.wellFormed_of_decodeAt fetched).inTable
        have settled (flow : Flow) (after : Session) :
            Settled done flow (after.within ⟨id, id, tune⟩) =
              Settled (fun progress after => done progress (after.within ⟨id, id, tune⟩)) flow
                after := by
          cases flow <;> rfl
        have heedless := heedless_execute known out program.length next (session.paid.counted i)
          ⟨id, id, tune⟩ (Settled done) failed
        simp only [settled] at heedless
        exact heedless

theorem turn_within (sink : Sink) (tune : Sink → Sink) (silent : machine.Silent program) :
    turn program ⟨machine, tune sink, []⟩ =
      match turn program ⟨machine, sink, []⟩ with
      | .ok progress after => .ok progress (after.within ⟨id, id, tune⟩)
      | .error fault after => .error fault (after.within ⟨id, id, tune⟩) := by
  let session : Session := ⟨machine, sink, []⟩
  have self : (turn program).Ends (session.within ⟨id, id, tune⟩) _ _ := Ends.self _ _
  have plain := (ends_turn_within tune silent).mp self
  unfold Ends at plain
  split at plain
  next ran => exact plain.trans (ran ▸ rfl)
  next ran => exact plain.trans (ran ▸ rfl)

theorem turn_refusing (agree : ∀ next value, machine.Writes program next value →
      refuses sink.lines value.valueText = sink.refuses sink.lines value.valueText) :
    turn program ⟨machine, sink.refusing refuses, []⟩ =
      match turn program ⟨machine, sink, []⟩ with
      | .ok progress after => .ok progress (after.refusing refuses)
      | .error fault after => .error fault (after.refusing refuses) := by
  obtain ⟨next, value, writes⟩ | silent := machine.writes_or_silent program
  · have answer := agree next value writes
    rw [turn_of_writes writes, turn_of_writes writes]
    simp only [Sink.write, Sink.refusing, answer]
    cases sink.refuses sink.lines value.valueText <;> rfl
  · exact turn_within sink (·.refusing refuses) silent

theorem sink_of_silent (sink : Sink) (silent : machine.Silent program) :
    (turn program).Ends ⟨machine, sink, []⟩ (fun _ after => after.sink = sink)
      fun _ after => after.sink = sink := by
  have same := turn_within sink (fun _ => sink) silent
  unfold Ends
  split
  next ran =>
    rw [ran] at same
    exact congrArg Session.sink (EStateM.Result.ok.inj same).2
  next ran =>
    rw [ran] at same
    exact congrArg Session.sink (EStateM.Result.error.inj same).2

theorem outs_execute {i : Instruction} (known : i.InTable) (length next : Nat)
    (session : Session) :
    (execute length next i).Ends session
      (fun _ after => after.events.countP Event.isOut = session.events.countP Event.isOut)
      fun _ _ => True := by
  apply (changes_execute known length next session).mono
  · intro flow after changes
    apply changes.kept
    · rfl
    · intro before after same change
      have untold {event : Event} (other : event.isOut = false) :
          (before.events ++ [event]).countP Event.isOut = session.events.countP Event.isOut := by
        simp [same, other]
      cases change <;> exact untold rfl
  · exact fun _ _ _ => trivial

theorem outs_of_silent {after : Session} (silent : machine.Silent program)
    (ran : turn program ⟨machine, sink, []⟩ = .ok .running after) :
    after.events.countP Event.isOut = 0 := by
  suffices outs : (turn program).Ends ⟨machine, sink, []⟩
      (fun progress after => progress = .running → after.events.countP Event.isOut = 0)
      fun _ _ => True from (ends_iff.mp outs).1 _ _ ran rfl
  rw [ends_turn]
  split
  next => exact nofun
  split
  next => trivial
  next fueled =>
    split
    next => trivial
    next i next fetched =>
      by_cases out : i = .plain .out
      · subst out
        have empty := stack_of_silent silent fueled fetched
        have operands : (Session.counted (.paid ⟨machine, sink, []⟩) (.plain .out)).machine.stack =
          [] := empty
        rw [ends_execute_out, operands]
        trivial
      · have known := (Instruction.wellFormed_of_decodeAt fetched).inTable
        apply (outs_execute known program.length next _).mono
        · rintro (pc | _) after outs
          · intro _
            simpa [Session.counted, Session.paid, Event.isOut, out] using outs
          · exact nofun
        · exact fun _ _ _ => trivial

end Action

theorem Sink.refuses_of_write {after : Sink} {line : String}
    (accepted : sink.write line = .ok after) : after.refuses = sink.refuses := by
  unfold write at accepted
  split at accepted
  next => cases accepted
  next =>
    cases accepted
    rfl

namespace Action

theorem printed_turn {after : Session}
    (ran : turn program ⟨machine, sink, []⟩ = .ok .running after) :
    after.sink.refuses = sink.refuses ∧
      after.sink.lines.size = sink.lines.size + after.events.countP Event.isOut := by
  obtain ⟨next, value, writes⟩ | silent := machine.writes_or_silent program
  · rw [turn_of_writes writes] at ran
    split at ran
    next => cases ran
    next accepted answer =>
      cases ran
      refine ⟨Sink.refuses_of_write answer, ?_⟩
      rw [Sink.lines_of_write answer, Array.size_push]
      rfl
  · have same := (ends_iff.mp (sink_of_silent sink silent)).1 _ _ ran
    exact ⟨by rw [same], by rw [same, outs_of_silent silent ran, Nat.add_zero]⟩

theorem lines_turn :
    (turn program).Ends ⟨machine, sink, []⟩
      (fun _ after => sink.lines.toList <+: after.sink.lines.toList)
      fun _ after => sink.lines.toList <+: after.sink.lines.toList := by
  obtain ⟨next, value, writes⟩ | silent := machine.writes_or_silent program
  · unfold Ends
    rw [turn_of_writes writes]
    cases answer : sink.write value.valueText with
    | error reason => exact List.prefix_refl _
    | ok accepted => simp [Sink.lines_of_write answer]
  · have same := sink_of_silent sink silent
    exact same.mono (fun _ _ same => by simp [same]) fun _ _ same => by simp [same]

end Action

section

variable {τ : Type} {tracer : τ → Event → τ} {count : Nat} {state : Machine} {written : Sink}
  {start told : τ}

theorem lines_of_turnsFrom
    (turns : turnsFrom program tracer count machine sink start = some (state, written, told)) :
    sink.lines.toList <+: written.lines.toList := by
  induction count generalizing machine sink start with
  | zero =>
    cases turns
    exact List.prefix_refl _
  | succ count ih =>
    obtain ⟨first, begun, later⟩ := exists_turn turns
    exact ((Action.ends_iff.mp Action.lines_turn).1 _ _ begun).trans (ih later)

theorem lines_of_runFrom {bound : Nat} {outcome : Outcome τ}
    (ended : runFrom program tracer bound machine sink start = some outcome) :
    sink.lines.toList <+: outcome.sink.lines.toList := by
  induction bound generalizing machine sink start with
  | zero => cases ended
  | succ bound ih =>
    have lines := Action.ends_iff.mp
      (Action.lines_turn : (Action.turn program).Ends ⟨machine, sink, []⟩ _ _)
    rw [runFrom] at ended
    split at ended
    next ran => exact (lines.1 _ _ ran).trans (ih ended)
    next ran =>
      cases ended
      exact lines.1 _ _ ran
    next ran =>
      cases ended
      exact lines.2 _ _ ran

end

def Leads (program : Program) (count : Nat) (machine : Machine) (sink : Sink) (events : List Event)
    (state : Machine) (written : Sink) : Prop :=
  ∀ {τ : Type} (tracer : τ → Event → τ) (start : τ),
    turnsFrom program tracer count machine sink start =
      some (state, written, events.foldl tracer start)

theorem Leads.snoc {count : Nat} {events : List Event} {state : Machine} {written : Sink}
    {after : Session} (leads : Leads program count machine sink events state written)
    (ran : Action.turn program ⟨state, written, []⟩ = .ok .running after) :
    Leads program (count + 1) machine sink (events ++ after.events) after.machine after.sink := by
  intro τ tracer start
  rw [List.foldl_append]
  exact turnsFrom_snoc (leads tracer start) ran

theorem Reached.exists_leads {state : Machine} {written : Sink}
    (reached : Reached program machine sink state written) :
    ∃ count events, Leads program count machine.reset sink events state written := by
  induction reached with
  | start => exact ⟨0, [], fun _ _ => rfl⟩
  | turn _ ran ih =>
    obtain ⟨count, events, leads⟩ := ih
    exact ⟨count + 1, _, leads.snoc ran⟩

theorem Leads.lines_prefix {count more : Nat} {events others : List Event} {state later : Machine}
    {written final : Sink} (leads : Leads program count machine sink events state written)
    (further : Leads program more machine sink others later final) (less : count ≤ more) :
    written.lines.toList <+: final.lines.toList := by
  obtain ⟨rest, rfl⟩ := Nat.exists_eq_add_of_le less
  have turns := further ignoreEvents ()
  rw [turnsFrom_add (leads ignoreEvents ())] at turns
  exact lines_of_turnsFrom turns

theorem Reached.refuses_eq {state : Machine} {written : Sink}
    (reached : Reached program machine sink state written) : written.refuses = sink.refuses := by
  induction reached with
  | start => rfl
  | turn _ ran ih => exact (Action.printed_turn ran).1.trans ih

theorem runFrom_refusing {τ : Type} {tracer : τ → Event → τ} {before : Machine} {written : Sink}
    (agree : ∀ before written, Reached program machine sink before written →
      ∀ next value, before.Writes program next value →
        refuses written.lines value.valueText = written.refuses written.lines value.valueText)
    (reached : Reached program machine sink before written) (bound : Nat) (trace : τ) :
    runFrom program tracer bound before (written.refusing refuses) trace =
      (runFrom program tracer bound before written trace).map (.refusing refuses) := by
  induction bound generalizing before written trace with
  | zero => rfl
  | succ bound ih =>
    rw [runFrom, runFrom, Action.turn_refusing (agree before written reached)]
    rcases ran : Action.turn program ⟨before, written, []⟩ with ⟨_ | _, after⟩ | ⟨fault, after⟩
    · exact ih (reached.turn ran) _
    · rfl
    · rfl

section

variable {capacity : Nat} {reason : String} {count : Nat} {events : List Event} {state : Machine}
  {written : Sink}

theorem Action.turn_unlimited {next : Nat} {value : Binary64}
    (unlimited : sink.refuses = Sink.unlimited.refuses)
    (writes : machine.Writes program next value) :
    turn program ⟨machine, sink, []⟩ =
      .ok .running ⟨{ machine.decoded with pc := next },
        { sink with lines := sink.lines.push value.valueText },
        [.instruction machine.pc (.plain .out), .output value, .stack machine.stack]⟩ := by
  rw [turn_of_writes writes, Sink.write, unlimited]
  rfl

theorem refuses_of_room {next : Nat} {value : Binary64}
    (unlimited : sink.refuses = Sink.unlimited.refuses)
    (room : ∀ after, Action.turn program ⟨machine, sink, []⟩ = .ok .running after →
      after.sink.lines.size ≤ capacity)
    (writes : machine.Writes program next value) :
    (Sink.bounded capacity reason).refuses sink.lines value.valueText =
      sink.refuses sink.lines value.valueText := by
  have after := room _ (Action.turn_unlimited unlimited writes)
  rw [Array.size_push] at after
  rw [unlimited]
  exact if_neg (Nat.not_le.mpr after)

theorem Sink.write_of_full (full : sink.lines.size = capacity) (line : String) :
    (sink.refusing (bounded capacity reason).refuses).write line = .error reason := by
  simp [write, refusing, bounded, full]

/-- Up to here a sink of the capacity makes no difference. -/
structure Abreast (program : Program) (machine : Machine) (capacity : Nat) (reason : String)
    (count : Nat) (events : List Event) (state : Machine) (written : Sink) : Prop where
  unlimited : written.refuses = Sink.unlimited.refuses
  free : Leads program count machine.reset .unlimited events state written
  limited : Leads program count machine.reset (.bounded capacity reason) events state
    (written.refusing (Sink.bounded capacity reason).refuses)
  outs : events.countP Event.isOut = written.lines.size
  room : written.lines.size ≤ capacity

theorem Abreast.turn {after : Session}
    (abreast : Abreast program machine capacity reason count events state written)
    (ran : Action.turn program ⟨state, written, []⟩ = .ok .running after)
    (room : after.sink.lines.size ≤ capacity) :
    Abreast program machine capacity reason (count + 1) (events ++ after.events) after.machine
      after.sink := by
  obtain ⟨unlimited, free, limited, outs, -⟩ := abreast
  obtain ⟨refuses, printed⟩ := Action.printed_turn ran
  have roomy (other : Session)
      (same : Action.turn program ⟨state, written, []⟩ = .ok .running other) :
      other.sink.lines.size ≤ capacity := by
    cases ran.symm.trans same
    exact room
  have further : Action.turn program
      ⟨state, written.refusing (Sink.bounded capacity reason).refuses, []⟩ =
        .ok .running (after.refusing (Sink.bounded capacity reason).refuses) := by
    rw [Action.turn_refusing fun _ _ => refuses_of_room unlimited roomy, ran]
  refine ⟨refuses.trans unlimited, free.snoc ran, limited.snoc further, ?_, room⟩
  rw [List.countP_append, outs, printed]

variable (capacity reason) in
theorem Reached.abreast_or_full (reached : Reached program machine .unlimited state written) :
    (∃ count events, Abreast program machine capacity reason count events state written) ∨
      ∃ count events state written next value,
        Abreast program machine capacity reason count events state written ∧
          written.lines.size = capacity ∧ state.Writes program next value := by
  induction reached with
  | start => exact .inl ⟨0, [], rfl, fun _ _ => rfl, fun _ _ => rfl, rfl, Nat.zero_le _⟩
  | @turn before written after _ ran ih =>
    obtain ⟨count, events, abreast⟩ | full := ih
    · by_cases room : after.sink.lines.size ≤ capacity
      · exact .inl ⟨count + 1, _, abreast.turn ran room⟩
      -- The turn has written the first line too many.
      obtain ⟨next, value, writes⟩ | silent := before.writes_or_silent program
      · rw [Action.turn_unlimited abreast.unlimited writes] at ran
        cases ran
        rw [Array.size_push] at room
        have full : written.lines.size = capacity := by
          have roomBefore := abreast.room
          omega
        exact .inr ⟨count, events, before, written, next, value, abreast, full, writes⟩
      · have same := (Action.ends_iff.mp (Action.sink_of_silent written silent)).1
        rw [same _ _ ran] at room
        exact absurd abreast.room room
    · exact .inr full

theorem Leads.lines_eq_take
    (leads : Leads program count machine.reset .unlimited events state written)
    {later : Machine} {final : Sink} (reached : Reached program machine .unlimited later final)
    (enough : written.lines.size ≤ final.lines.size) :
    written.lines.toList = final.lines.toList.take written.lines.size := by
  obtain ⟨more, others, further⟩ := reached.exists_leads
  have earlier : written.lines.toList <+: final.lines.toList := by
    rcases Nat.le_total count more with less | less
    · exact leads.lines_prefix further less
    · have lines := further.lines_prefix leads less
      have same := lines.eq_of_length_le (by simpa using enough)
      exact same ▸ List.prefix_refl _
  simpa using List.prefix_iff_eq_take.mp earlier

theorem sink_of_stop {final : Sink} {fault : Option RuntimeFault}
    (unlimited : sink.refuses = Sink.unlimited.refuses)
    (stops : Stops program machine sink state final fault) : final = sink := by
  obtain ⟨next, value, writes⟩ | silent := machine.writes_or_silent program
  · have goes := Action.turn_unlimited unlimited writes
    cases stops with
    | halt ran => cases goes.symm.trans ran
    | fail ran => cases goes.symm.trans ran
  · have same := Action.ends_iff.mp (Action.sink_of_silent sink silent)
    cases stops with
    | halt ran => exact same.1 _ _ ran
    | fail ran => exact same.2 _ _ ran

theorem lines_of_run {τ : Type} {bound : Nat} {tracer : τ → Event → τ} {start : τ}
    {outcome : Outcome τ}
    (ended : machine.run bound program .unlimited tracer start = some outcome) :
    (∃ last, Reached program machine .unlimited last outcome.sink) ∧
      ∀ state written, Reached program machine .unlimited state written →
        written.lines.toList <+: outcome.sink.lines.toList := by
  constructor
  · obtain ⟨last, written, reached, stops⟩ := exists_stop_of_runFrom .start ended
    rw [sink_of_stop reached.refuses_eq stops]
    exact ⟨last, reached⟩
  · intro state written reached
    obtain ⟨count, events, leads⟩ := reached.exists_leads
    have turns := leads tracer start
    obtain ⟨rest, rfl⟩ := Nat.exists_eq_add_of_lt (lt_of_runFrom turns ended)
    rw [Machine.run, Nat.add_assoc, runFrom_add turns] at ended
    exact lines_of_runFrom ended

structure Overflows (program : Program) (machine : Machine) (capacity : Nat) (count : Nat)
    (events : List Event) (state : Machine) (written : Sink) (next : Nat) (value : Binary64) :
    Prop where
  led : Leads program count machine.reset .unlimited events state written
  outs : events.countP Event.isOut = capacity
  full : written.lines.size = capacity
  writes : state.Writes program next value
  -- The lines so far are the first of all that the run ever writes.
  first : ∀ later final, Reached program machine .unlimited later final →
    capacity ≤ final.lines.size → written.lines.toList = final.lines.toList.take capacity

theorem Abreast.overflows {next : Nat} {value : Binary64}
    (abreast : Abreast program machine capacity reason count events state written)
    (full : written.lines.size = capacity) (writes : state.Writes program next value) :
    Overflows program machine capacity count events state written next value := by
  subst full
  exact ⟨abreast.free, abreast.outs, rfl, writes, fun _ _ => Leads.lines_eq_take abreast.free⟩

variable (reason) in
theorem exists_full (many : ¬∀ state written, Reached program machine .unlimited state written →
      written.lines.size ≤ capacity) :
    ∃ count events state written next value,
      Abreast program machine capacity reason count events state written ∧
        written.lines.size = capacity ∧ state.Writes program next value := by
  simp only [Classical.not_forall, Nat.not_le, exists_prop] at many
  obtain ⟨state, written, reached, more⟩ := many
  obtain ⟨count, events, abreast⟩ | full := reached.abreast_or_full capacity reason
  · exact absurd abreast.room (Nat.not_le.mpr more)
  · exact full

end

/-- A sink that accepts so many lines changes nothing of a run that writes no more. Any other run it
stops at the first `out` too many, decoded but with its value still in place. -/
theorem run_bounded (program : Program) (machine : Machine) (capacity : Nat) (reason : String) :
    let limited := Sink.bounded capacity reason
    let few := ∀ state written, Reached program machine .unlimited state written →
      written.lines.size ≤ capacity
    (few → ∀ {τ : Type} (bound : Nat) (tracer : τ → Event → τ) (start : τ),
      machine.run bound program limited tracer start =
        (machine.run bound program .unlimited tracer start).map (.refusing limited.refuses)) ∧
    (¬few → ∃ count events state written next value,
      Overflows program machine capacity count events state written next value ∧
      ∀ {τ : Type} (tracer : τ → Event → τ) (start : τ),
        let told := tracer (events.foldl tracer start) (.instruction state.pc (.plain .out))
        turnsFrom program tracer (count + 1) machine.reset .unlimited start =
          some ({ state.decoded with pc := next },
            { written with lines := written.lines.push value.valueText },
            tracer (tracer told (.output value)) (.stack state.stack)) ∧
        ∀ bound > count, machine.run bound program limited tracer start =
          some ⟨state.decoded, written.refusing limited.refuses, some (.output reason),
            tracer told (.fault (.output reason))⟩) ∧
    ∀ {τ : Type} (bound : Nat) (tracer : τ → Event → τ) (start : τ) (outcome : Outcome τ),
      machine.run bound program .unlimited tracer start = some outcome →
        (few ↔ outcome.sink.lines.size ≤ capacity) := by
  intro limited few
  refine ⟨?_, ?_, ?_⟩
  · intro few τ bound tracer start
    have agree (before : Machine) (written : Sink)
        (reached : Reached program machine .unlimited before written) (next : Nat)
        (value : Binary64) (writes : before.Writes program next value) :
        limited.refuses written.lines value.valueText =
          written.refuses written.lines value.valueText :=
      refuses_of_room reached.refuses_eq (fun _ ran => few _ _ (reached.turn ran)) writes
    exact runFrom_refusing agree .start bound start
  · intro many
    obtain ⟨count, events, state, written, next, value, abreast, full, writes⟩ :=
      exists_full reason many
    refine ⟨count, events, state, written, next, value, abreast.overflows full writes, ?_⟩
    intro τ tracer start
    constructor
    · exact turnsFrom_snoc (abreast.free tracer start)
        (Action.turn_unlimited abreast.unlimited writes)
    · intro bound more
      obtain ⟨rest, rfl⟩ := Nat.exists_eq_add_of_lt more
      rw [Machine.run, Nat.add_assoc, runFrom_add (abreast.limited tracer start), runFrom,
        Action.turn_of_writes writes, Sink.write_of_full full]
      rfl
  · intro τ bound tracer start outcome ended
    obtain ⟨⟨last, reached⟩, lines⟩ := lines_of_run ended
    constructor
    · intro few
      exact few last _ reached
    · intro less state written reached
      exact Nat.le_trans (by simpa using (lines state written reached).length_le) less

theorem run_bounded_loop :
    let program : Program := ⟨.two, #[0x41, 1, 6, 11, 2, 0, 0, 0]⟩
    let fresh : Machine := .zeroed 8 .default
    ∃ count events state written next value,
      Overflows program fresh 2 count events state written next value ∧
      ∀ bound > count, (fresh.run bound program (.bounded 2 "full") collectEvents #[]).map
        Outcome.fault = some (some (.output "full")) := by
  intro program fresh
  have ran : (turnsFrom program ignoreEvents 6 fresh.reset .unlimited ()).map
      (fun reached => reached.2.1.lines.size) = some 3 := by
    decide +kernel
  obtain ⟨⟨state, written, told⟩, turns, size⟩ := Option.map_eq_some_iff.mp ran
  have many : ¬∀ state written, Reached program fresh .unlimited state written →
      written.lines.size ≤ 2 := by
    intro few
    have room := few state written (Reached.start.of_turnsFrom turns)
    simp only at size
    omega
  obtain ⟨count, events, state, written, next, value, overflows, runs⟩ :=
    (run_bounded program fresh 2 "full").2.1 many
  refine ⟨count, events, state, written, next, value, overflows, fun bound more => ?_⟩
  rw [(runs collectEvents #[]).2 bound more]
  rfl

end StackMachine
