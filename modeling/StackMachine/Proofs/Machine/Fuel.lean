import StackMachine.Proofs.Machine.Surroundings
import StackMachine.Proofs.Machine.Turns

set_option autoImplicit false

namespace StackMachine

def Machine.refuel (machine : Machine) (limit left : Option Nat) : Machine :=
  { machine with fuelLimit := limit, fuel := left }

theorem Machine.refuel_of_free {machine : Machine} (limit : machine.fuelLimit = none)
    (left : machine.fuel = none) : machine.refuel none none = machine := by
  cases machine
  cases limit
  cases left
  rfl

def Session.refuel (session : Session) (limit left : Option Nat) : Session :=
  { session with machine := session.machine.refuel limit left }

namespace Action

variable {α : Type}

def Blind (action : Action α) : Prop :=
  ∀ (session : Session) (limit left : Option Nat) (done : α → Session → Prop)
    (failed : RuntimeFault → Session → Prop),
    action.Ends (session.refuel limit left) done failed ↔
      action.Ends session (fun a after => done a (after.refuel limit left))
        fun fault after => failed fault (after.refuel limit left)

theorem Heedless.blind {action : Action α} (heedless : Heedless action) : Blind action :=
  fun session limit left => heedless session ⟨fun _ => limit, fun _ => left, id⟩

theorem blind_execute {i : Instruction} (known : i.InTable) (length next : Nat) :
    Blind (execute length next i) := by
  by_cases out : i = .plain .out
  · subst out
    intro session limit left done failed
    rw [ends_execute_out, ends_execute_out]
    exact Iff.rfl
  · exact (heedless_execute known out length next).blind

section

variable {program : Program} {session : Session}

theorem ends_turn_refuel (limit left : Nat) (before : session.machine.pc ≠ program.length)
    {done : Progress → Session → Prop} {failed : RuntimeFault → Session → Prop} :
    (turn program).Ends (session.refuel (some limit) (some (left + 1))) done failed ↔
      (turn program).Ends (session.refuel none none)
        (fun progress after => done progress (after.refuel (some limit) (some left)))
        fun fault after => failed fault (after.refuel (some limit) (some left)) := by
  have place (limit left : Option Nat) :
      (session.refuel limit left).machine.pc = session.machine.pc := rfl
  have paid : (session.refuel (some limit) (some (left + 1))).machine.fuel ≠ some 0 := by
    simp [Session.refuel, Machine.refuel]
  have free : (session.refuel none none).machine.fuel ≠ some 0 := by
    simp [Session.refuel, Machine.refuel]
  rw [ends_turn, ends_turn, place, place, if_neg before, if_neg before, if_neg paid, if_neg free]
  split
  next => exact Iff.rfl
  next i next decoded =>
    have known := (Instruction.wellFormed_of_decodeAt decoded).inTable
    have blind := blind_execute known program.length next (session.counted i)
    have settled (flow : Flow) (after : Session) :
        Settled done flow (after.refuel (some limit) (some left)) =
          Settled (fun progress after => done progress (after.refuel (some limit) (some left))) flow
            (after.refuel none none) := by
      cases flow <;> rfl
    apply (blind (some limit) (some left) (Settled done) failed).trans
    simp only [settled]
    refine Iff.trans ?_ (blind none none _ _).symm
    exact Iff.rfl

theorem ends_turn_fueled (fueled : session.machine.fuel ≠ some 0) :
    (turn program).Ends session
      (fun progress after => progress = .running →
        after.machine.steps = session.machine.steps + 1 ∧
          after.machine.fuelLimit = session.machine.fuelLimit ∧
          after.machine.fuel = session.machine.fuel.map (· - 1))
      fun fault _ => fault.isExhaustion = false := by
  rw [ends_turn, if_neg fueled]
  split
  next => exact nofun
  next =>
    split
    next fault _ => cases fault <;> rfl
    next i next decoded =>
      have known := (Instruction.wellFormed_of_decodeAt decoded).inTable
      refine (Ends.and (ends_execute known _ _ _) (grows_execute known _ _ _)).mono ?_
        fun _ _ refused => refused.2
      rintro (pc | _) after ⟨⟨calls, -, control⟩, -⟩
      · intro _
        obtain ⟨limit, left, steps, -⟩ := Machine.of_control control
        exact ⟨steps, limit, left⟩
      · exact nofun

end

section

variable {program : Program} {machine : Machine} {sink : Sink} {limit left : Nat}

theorem turn_of_end {limit left : Option Nat} (ended : machine.pc = program.length) :
    turn program ⟨machine.refuel limit left, sink, []⟩ =
      .ok .halted ⟨machine.refuel limit left, sink, [.halt machine.pc]⟩ := by
  have here : (machine.refuel limit left).pc = program.length := ended
  have self := Ends.self (turn program) ⟨machine.refuel limit left, sink, []⟩
  rw [ends_turn, if_pos here] at self
  exact self

theorem turn_of_exhausted (before : machine.pc ≠ program.length) :
    turn program ⟨machine.refuel (some limit) (some 0), sink, []⟩ =
      .error (.fuelExhausted limit) ⟨machine.refuel (some limit) (some 0), sink, []⟩ := by
  have here : (machine.refuel (some limit) (some 0)).pc ≠ program.length := before
  have self := Ends.self (turn program) ⟨machine.refuel (some limit) (some 0), sink, []⟩
  rw [ends_turn, if_neg here] at self
  exact self

theorem turn_refuel (before : machine.pc ≠ program.length) :
    turn program ⟨machine.refuel (some limit) (some (left + 1)), sink, []⟩ =
      match turn program ⟨machine.refuel none none, sink, []⟩ with
      | .ok progress after => .ok progress (after.refuel (some limit) (some left))
      | .error fault after => .error fault (after.refuel (some limit) (some left)) := by
  let session : Session := ⟨machine, sink, []⟩
  have self : (turn program).Ends (session.refuel (some limit) (some (left + 1))) _ _ :=
    Ends.self _ _
  have free := (ends_turn_refuel limit left before).mp self
  unfold Ends at free
  split at free
  next ran => exact free.trans (ran ▸ rfl)
  next ran => exact free.trans (ran ▸ rfl)

theorem turn_free {after : Session}
    (ran : turn program ⟨machine.refuel none none, sink, []⟩ = .ok .running after) :
    after.machine.refuel none none = after.machine ∧ after.machine.steps = machine.steps + 1 := by
  have fueled : (machine.refuel none none).fuel ≠ some 0 := nofun
  obtain ⟨steps, limit, left⟩ := (ends_iff.mp (ends_turn_fueled fueled)).1 _ _ ran rfl
  exact ⟨Machine.refuel_of_free limit left, steps⟩

end

end Action

def Outcome.refuel {τ : Type} (outcome : Outcome τ) (limit left : Option Nat) : Outcome τ :=
  { outcome with machine := outcome.machine.refuel limit left }

section

variable {τ : Type} {program : Program} {tracer : τ → Event → τ}

theorem steps_of_turnsFrom {count : Nat} {machine state : Machine} {sink written : Sink}
    {trace told : τ}
    (ran : turnsFrom program tracer count (machine.refuel none none) sink trace =
      some (state, written, told)) : state.steps = machine.steps + count := by
  induction count generalizing machine sink trace with
  | zero =>
    cases ran
    rfl
  | succ count ih =>
    obtain ⟨after, begun, later⟩ := exists_turn ran
    obtain ⟨free, steps⟩ := Action.turn_free begun
    rw [← free] at later
    have total := ih later
    omega

variable (program tracer) in
/-- With fuel for so many instructions the run is cut after them, where the free run has more to
do. -/
def Cut (count : Nat) (machine : Machine) (sink : Sink) (trace : τ) : Prop :=
  ∃ state written told,
    turnsFrom program tracer count (machine.refuel none none) sink trace =
        some (state, written, told) ∧
      state.pc ≠ program.length ∧
      ∀ limit, ∀ bound > count,
        runFrom program tracer bound (machine.refuel (some limit) (some count)) sink trace =
          some ⟨state.refuel (some limit) (some 0), written, some (.fuelExhausted limit),
            tracer told (.fault (.fuelExhausted limit))⟩

variable (program tracer) in
structure Uncut (count : Nat) (machine : Machine) (sink : Sink) (trace : τ) (free : Outcome τ) :
    Prop where
  direct : ∀ fault ∈ free.fault, fault.isExhaustion = false
  done : ∀ state written told,
    turnsFrom program tracer count (machine.refuel none none) sink trace =
      some (state, written, told) → state.pc = program.length
  unpaid : ∀ bound > count,
    runFrom program tracer bound (machine.refuel none none) sink trace = some free
  paid : ∀ limit, ∀ supply ≥ count, ∃ left, ∀ bound > count,
    runFrom program tracer bound (machine.refuel (some limit) (some supply)) sink trace =
      some (free.refuel (some limit) (some left))

section

variable {count : Nat} {machine : Machine} {sink : Sink} {trace : τ}

theorem runFrom_of_end (ended : machine.pc = program.length) {bound : Nat} (more : bound > count)
    (limit left : Option Nat) :
    runFrom program tracer bound (machine.refuel limit left) sink trace =
      some ⟨machine.refuel limit left, sink, none, tracer trace (.halt machine.pc)⟩ := by
  obtain ⟨bound, rfl⟩ := Nat.exists_eq_add_of_lt more
  simp [runFrom, Action.turn_of_end ended]

theorem uncut_of_end (ended : machine.pc = program.length) :
    Uncut program tracer count machine sink trace
      ⟨machine.refuel none none, sink, none, tracer trace (.halt machine.pc)⟩ where
  direct := nofun
  done := by
    intro state written told ran
    cases count with
    | zero =>
      cases ran
      exact ended
    | succ count =>
      rw [turnsFrom, Action.turn_of_end ended] at ran
      cases ran
  unpaid := fun _ more => runFrom_of_end ended more none none
  paid := fun limit supply _ => ⟨supply, fun _ more => runFrom_of_end ended more limit supply⟩

theorem cut_zero (before : machine.pc ≠ program.length) :
    Cut program tracer 0 machine sink trace := by
  refine ⟨machine.refuel none none, sink, trace, rfl, before, ?_⟩
  intro limit bound more
  obtain ⟨bound, rfl⟩ := Nat.exists_eq_add_of_lt more
  simp only [runFrom, Action.turn_of_exhausted before]
  rfl

theorem uncut_succ {free : Outcome τ} (direct : ∀ fault ∈ free.fault, fault.isExhaustion = false)
    (done : ∀ state written told,
      turnsFrom program tracer (count + 1) (machine.refuel none none) sink trace =
        some (state, written, told) → state.pc = program.length)
    (unpaid : ∀ bound > count,
      runFrom program tracer (bound + 1) (machine.refuel none none) sink trace = some free)
    (paid : ∀ limit, ∀ supply ≥ count, ∃ left, ∀ bound > count,
      runFrom program tracer (bound + 1) (machine.refuel (some limit) (some (supply + 1))) sink
        trace = some (free.refuel (some limit) (some left))) :
    Uncut program tracer (count + 1) machine sink trace free := by
  refine ⟨direct, done, ?_, ?_⟩
  · intro bound more
    obtain ⟨bound, rfl⟩ := Nat.exists_eq_add_of_le' (Nat.one_le_of_lt more)
    exact unpaid bound (Nat.lt_of_succ_lt_succ more)
  · intro limit supply enough
    obtain ⟨supply, rfl⟩ := Nat.exists_eq_add_of_le' (Nat.one_le_of_lt enough)
    obtain ⟨left, ran⟩ := paid limit supply (Nat.le_of_succ_le_succ enough)
    refine ⟨left, fun bound more => ?_⟩
    obtain ⟨bound, rfl⟩ := Nat.exists_eq_add_of_le' (Nat.one_le_of_lt more)
    exact ran bound (Nat.lt_of_succ_lt_succ more)

section

variable {after : Session}

theorem Cut.of_running (before : machine.pc ≠ program.length)
    (ran : Action.turn program ⟨machine.refuel none none, sink, []⟩ = .ok .running after)
    (cut : Cut program tracer count after.machine after.sink (after.events.foldl tracer trace)) :
    Cut program tracer (count + 1) machine sink trace := by
  obtain ⟨state, written, told, turns, unfinished, same⟩ := cut
  rw [(Action.turn_free ran).1] at turns
  refine ⟨state, written, told, ?_, unfinished, fun limit bound more => ?_⟩
  · simp only [turnsFrom, ran, turns]
  · obtain ⟨bound, rfl⟩ := Nat.exists_eq_add_of_le' (Nat.one_le_of_lt more)
    simp only [runFrom, Action.turn_refuel before, ran]
    exact same limit bound (Nat.lt_of_succ_lt_succ more)

theorem Uncut.of_running {free : Outcome τ} (before : machine.pc ≠ program.length)
    (ran : Action.turn program ⟨machine.refuel none none, sink, []⟩ = .ok .running after)
    (uncut : Uncut program tracer count after.machine after.sink
      (after.events.foldl tracer trace) free) :
    Uncut program tracer (count + 1) machine sink trace free := by
  obtain ⟨direct, done, unpaid, paid⟩ := uncut
  rw [(Action.turn_free ran).1] at done unpaid
  refine uncut_succ direct ?_ ?_ ?_
  · simpa only [turnsFrom, ran] using done
  · simpa only [runFrom, ran] using unpaid
  · simp only [runFrom, Action.turn_refuel before, ran]
    exact paid

theorem uncut_of_halted (before : machine.pc ≠ program.length)
    (ran : Action.turn program ⟨machine.refuel none none, sink, []⟩ = .ok .halted after) :
    Uncut program tracer (count + 1) machine sink trace
      ⟨after.machine, after.sink, none, after.events.foldl tracer trace⟩ := by
  refine uncut_succ nofun ?_ ?_ ?_
  · simp [turnsFrom, ran]
  · simp [runFrom, ran]
  · simp only [runFrom, Action.turn_refuel before, ran]
    exact fun _ supply _ => ⟨supply, fun _ _ => rfl⟩

theorem uncut_of_fault {fault : RuntimeFault} (before : machine.pc ≠ program.length)
    (ran : Action.turn program ⟨machine.refuel none none, sink, []⟩ = .error fault after) :
    Uncut program tracer (count + 1) machine sink trace
      ⟨after.machine, after.sink, some fault,
        tracer (after.events.foldl tracer trace) (.fault fault)⟩ := by
  have fueled : (machine.refuel none none).fuel ≠ some 0 := nofun
  have direct := (Action.ends_iff.mp (Action.ends_turn_fueled fueled)).2 _ _ ran
  refine uncut_succ ?_ ?_ ?_ ?_
  · simpa using direct
  · simp [turnsFrom, ran]
  · simp [runFrom, ran]
  · simp only [runFrom, Action.turn_refuel before, ran]
    exact fun _ supply _ => ⟨supply, fun _ _ => rfl⟩

end

theorem cut_or_uncut (program : Program) (tracer : τ → Event → τ) (count : Nat) (machine : Machine)
    (sink : Sink) (trace : τ) :
    Cut program tracer count machine sink trace ∨
      ∃ free, Uncut program tracer count machine sink trace free := by
  induction count generalizing machine sink trace with
  | zero =>
    by_cases ended : machine.pc = program.length
    · exact .inr ⟨_, uncut_of_end ended⟩
    · exact .inl (cut_zero ended)
  | succ count ih =>
    by_cases ended : machine.pc = program.length
    · exact .inr ⟨_, uncut_of_end ended⟩
    -- Both runs begin with the same turn, which costs the limited one some fuel.
    rcases ran : Action.turn program ⟨machine.refuel none none, sink, []⟩ with
      ⟨_ | _, after⟩ | ⟨fault, after⟩
    · have later := ih after.machine after.sink (after.events.foldl tracer trace)
      exact later.imp (.of_running ended ran) (.imp fun _ => .of_running ended ran)
    · exact .inr ⟨_, uncut_of_halted ended ran⟩
    · exact .inr ⟨_, uncut_of_fault ended ran⟩

end

/-- A limit cuts a run or it leaves the run as it is. -/
theorem run_limited (program : Program) (machine : Machine) (sink : Sink) (tracer : τ → Event → τ)
    (start : τ) (limit : Nat) :
    let run fuel bound := (machine.refuel fuel fuel).run bound program sink tracer start
    let turns := turnsFrom program tracer limit (machine.refuel none none).reset sink start
    ∃ outcome, (∀ bound > limit, run (some limit) bound = some outcome) ∧
      (outcome.fault = some (.fuelExhausted limit) ↔ ∃ state written told,
        turns = some (state, written, told) ∧ state.pc ≠ program.length) ∧
      (∀ state written told, turns = some (state, written, told) → state.pc ≠ program.length →
        state.steps = limit ∧
          outcome = ⟨state.refuel (some limit) (some 0), written, some (.fuelExhausted limit),
            tracer told (.fault (.fuelExhausted limit))⟩) ∧
      (outcome.fault ≠ some (.fuelExhausted limit) → ∃ free left,
        outcome = free.refuel (some limit) (some left) ∧
        (∀ bound > limit, run none bound = some free) ∧
        ∀ more ≥ limit, ∃ left, ∀ bound > limit,
          run (some more) bound = some (free.refuel (some more) (some left))) := by
  intro run turns
  obtain ⟨state, written, told, led, unfinished, cut⟩ | ⟨free, direct, done, unpaid, paid⟩ :=
    cut_or_uncut program tracer limit machine.reset sink start
  · have steps := (steps_of_turnsFrom led).trans (Nat.zero_add limit)
    have same : turns = some (state, written, told) := led
    refine ⟨_, cut limit, ⟨fun _ => ⟨state, written, told, same, unfinished⟩, fun _ => rfl⟩, ?_,
      fun other => absurd rfl other⟩
    intro state' written' told' same' _
    cases same.symm.trans same'
    exact ⟨steps, rfl⟩
  · obtain ⟨left, enough⟩ := paid limit limit (Nat.le_refl _)
    refine ⟨_, enough, ⟨fun exhausted => ?_, ?_⟩, ?_, ?_⟩
    · cases direct _ exhausted
    · rintro ⟨state, written, told, same, unfinished⟩
      exact absurd (done _ _ _ same) unfinished
    · intro state written told same unfinished
      exact absurd (done _ _ _ same) unfinished
    · exact fun _ => ⟨free, left, rfl, unpaid, fun more atLeast => paid more more atLeast⟩

end

end StackMachine
