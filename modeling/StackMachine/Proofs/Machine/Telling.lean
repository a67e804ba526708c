import StackMachine.Proofs.Machine.Changes
import StackMachine.Proofs.Machine.Turns

set_option autoImplicit false

namespace StackMachine

namespace Event

def isEffect : Event → Bool
  | .push _ | .pop _ | .register _ _ | .memory _ _ | .branch _ _ | .call _ _ | .ret _ _
  | .output _ => true
  | .instruction _ _ | .stack _ | .halt _ | .fault _ => false

end Event

def Session.Tells (before after : Session) : Prop :=
  ∃ effects : List Event, after.events = before.events ++ effects ∧
    ∀ event ∈ effects, event.isEffect = true

theorem Session.Change.tells {session before after : Session} (told : session.Tells before)
    (change : before.Change after) : session.Tells after := by
  obtain ⟨effects, events, all⟩ := told
  have more {event : Event} (effect : event.isEffect = true) :
      ∃ effects, before.events ++ [event] = session.events ++ effects ∧
        ∀ event ∈ effects, event.isEffect = true := by
    refine ⟨effects ++ [event], by rw [events, List.append_assoc], ?_⟩
    simpa [or_imp, forall_and, effect] using all
  cases change <;> exact more rfl

inductive Episode (program : Program) (pc : Nat) : List Event → Prop
  | intro {i : Instruction} {next : Nat} {effects : List Event}
    (decoded : program.decodeAt pc = .ok (i, next))
    (all : ∀ event ∈ effects, event.isEffect = true) :
    Episode program pc (.instruction pc i :: effects)

namespace Action

theorem tells_execute {i : Instruction} (known : i.InTable) (length next : Nat)
    (session : Session) :
    (execute length next i).Ends session (fun _ => session.Tells) fun _ => session.Tells := by
  have none : session.Tells session := ⟨[], by simp, by simp⟩
  apply (changes_execute known length next session).mono
  · exact fun _ _ changes => changes.kept none fun _ _ told change => change.tells told
  · exact fun _ _ changes => changes.kept none fun _ _ told change => change.tells told

variable {program : Program} {machine : Machine} {sink : Sink}

theorem told_turn :
    (turn program).Ends ⟨machine, sink, []⟩
      (fun
        | .running, after => ∃ told, Episode program machine.pc told ∧
            after.events = told ++ [.stack after.machine.stack]
        | .halted, after =>
            (machine.pc = program.length ∧ after.events = [.halt machine.pc]) ∨
              machine.pc ≠ program.length ∧ ∃ told, Episode program machine.pc told ∧
                after.events = told ++ [.stack after.machine.stack] ++ [.halt after.machine.pc])
      fun _ after => after.events = [] ∨ Episode program machine.pc after.events := by
  rw [ends_turn]
  split
  next ended => exact .inl ⟨ended, rfl⟩
  next before =>
    split
    next => exact .inl rfl
    next =>
      split
      next => exact .inl rfl
      next i next decoded =>
        have known := (Instruction.wellFormed_of_decodeAt decoded).inTable
        have episode {after : Session}
            (told : (Session.counted (.paid ⟨machine, sink, []⟩) i).Tells after) :
            Episode program machine.pc after.events := by
          obtain ⟨effects, events, all⟩ := told
          rw [events]
          exact .intro decoded all
        apply (tells_execute known program.length next _).mono
        · rintro (pc | _) after told
          · exact ⟨after.events, episode told, rfl⟩
          · exact .inr ⟨before, after.events, episode told, rfl⟩
        · exact fun fault after told => .inr (episode told)

end Action

/-- A run, turn by turn: what it tells of each instruction that it completes, and what of its
end. -/
inductive Course (program : Program) : Machine → Sink → List (List Event) → List Event → Prop
  | next {machine : Machine} {sink : Sink} {after : Session} {parts : List (List Event)}
    {ending : List Event} (ran : Action.turn program ⟨machine, sink, []⟩ = .ok .running after)
    (later : Course program after.machine after.sink parts ending) :
    Course program machine sink (after.events :: parts) ending
  | halt {machine : Machine} {sink : Sink} {after : Session} {part : List Event}
    (inside : machine.pc ≠ program.length)
    (ran : Action.turn program ⟨machine, sink, []⟩ = .ok .halted after)
    (told : after.events = part ++ [.halt after.machine.pc]) :
    Course program machine sink [part] [.halt after.machine.pc]
  | stop {machine : Machine} {sink : Sink} {after : Session} (ended : machine.pc = program.length)
    (ran : Action.turn program ⟨machine, sink, []⟩ = .ok .halted after) :
    Course program machine sink [] after.events
  | fail {machine : Machine} {sink : Sink} {fault : RuntimeFault} {after : Session}
    (ran : Action.turn program ⟨machine, sink, []⟩ = .error fault after) :
    Course program machine sink [] (after.events ++ [.fault fault])

theorem course_of_runFrom {program : Program} {machine : Machine} {sink : Sink} {bound : Nat}
    {trace : Array Event} {outcome : Outcome (Array Event)}
    (ended : runFrom program collectEvents bound machine sink trace = some outcome) :
    ∃ parts ending, Course program machine sink parts ending ∧
      outcome.trace.toList = trace.toList ++ parts.flatten ++ ending := by
  induction bound generalizing machine sink trace with
  | zero => cases ended
  | succ bound ih =>
    have told := Action.ends_iff.mp
      (Action.told_turn : (Action.turn program).Ends ⟨machine, sink, []⟩ _ _)
    simp only [runFrom] at ended
    split at ended
    next after ran =>
      obtain ⟨parts, ending, course, events⟩ := ih ended
      refine ⟨after.events :: parts, ending, .next ran course, ?_⟩
      simp [events, toList_foldl_collectEvents]
    next after ran =>
      cases ended
      simp only [toList_foldl_collectEvents]
      obtain ⟨here, -⟩ | ⟨inside, part, -, events⟩ := told.1 _ _ ran
      · exact ⟨[], after.events, .stop here ran, by simp⟩
      · exact ⟨[part ++ [.stack after.machine.stack]], _, .halt inside ran events, by simp [events]⟩
    next fault after ran =>
      cases ended
      refine ⟨[], _, .fail ran, ?_⟩
      simp [collectEvents, toList_foldl_collectEvents]

theorem Course.told {program : Program} {machine : Machine} {sink : Sink}
    {parts : List (List Event)} {ending : List Event}
    (course : Course program machine sink parts ending) :
    (∀ part ∈ parts, ∃ pc told values, Episode program pc told ∧ part = told ++ [.stack values]) ∧
      ((∃ pc, ending = [.halt pc]) ∨ ∃ told fault, ending = told ++ [.fault fault] ∧
        (told = [] ∨ ∃ pc, Episode program pc told)) := by
  induction course with
  | next ran _ ih =>
    obtain ⟨told, episode, events⟩ := (Action.ends_iff.mp Action.told_turn).1 _ _ ran
    refine ⟨?_, ih.2⟩
    rw [List.forall_mem_cons]
    exact ⟨⟨_, told, _, episode, events⟩, ih.1⟩
  | @halt _ _ after part inside ran told =>
    obtain ⟨here, -⟩ | ⟨-, told', episode, events⟩ :=
      (Action.ends_iff.mp Action.told_turn).1 _ _ ran
    · exact absurd here inside
    · have same : part = told' ++ [.stack after.machine.stack] :=
        List.append_cancel_right (told.symm.trans events)
      refine ⟨?_, .inl ⟨_, rfl⟩⟩
      simpa using ⟨_, told', episode, _, same⟩
  | @stop _ _ after ended ran =>
    obtain ⟨-, events⟩ | ⟨inside, -⟩ := (Action.ends_iff.mp Action.told_turn).1 _ _ ran
    · exact ⟨nofun, .inl ⟨_, events⟩⟩
    · exact absurd ended inside
  | @fail _ _ fault after ran =>
    have told := (Action.ends_iff.mp Action.told_turn).2 _ _ ran
    exact ⟨nofun, .inr ⟨after.events, fault, rfl, told.imp id fun episode => ⟨_, episode⟩⟩⟩

section

variable {program : Program} {pc : Nat} {i : Instruction}

theorem Episode.decoded {start : Nat} {told : List Event} (episode : Episode program start told)
    (member : .instruction pc i ∈ told) : ∃ next, program.decodeAt pc = .ok (i, next) := by
  cases episode with
  | intro decoded all =>
    obtain same | effect := List.mem_cons.mp member
    · cases same
      exact ⟨_, decoded⟩
    · cases all _ effect

theorem Course.decoded {machine : Machine} {sink : Sink} {parts : List (List Event)}
    {ending : List Event} (course : Course program machine sink parts ending)
    (member : .instruction pc i ∈ parts.flatten ++ ending) :
    ∃ next, program.decodeAt pc = .ok (i, next) := by
  obtain ⟨each, last⟩ := course.told
  obtain among | final := List.mem_append.mp member
  · obtain ⟨part, inside, here⟩ := List.mem_flatten.mp among
    obtain ⟨start, told, values, episode, rfl⟩ := each part inside
    simp only [List.mem_append, List.mem_singleton, reduceCtorEq, or_false] at here
    exact episode.decoded here
  · obtain ⟨start, rfl⟩ | ⟨told, fault, rfl, none | ⟨start, episode⟩⟩ := last
    · simp at final
    · simp [none] at final
    · simp only [List.mem_append, List.mem_singleton, reduceCtorEq, or_false] at final
      exact episode.decoded final

end

end StackMachine
