import Mathlib.Data.List.Induction
import StackMachine.Proofs.Machine.Bounds

set_option autoImplicit false

namespace StackMachine

namespace Instruction

def isCall : Instruction → Bool
  | .branch .call _ => true
  | _ => false

def isRet : Instruction → Bool
  | .plain .ret => true
  | _ => false

theorem eq_call_of_isCall {i : Instruction} (call : i.isCall) :
    ∃ target, i = .branch .call target := by
  unfold isCall at call
  split at call
  next target => exact ⟨target, rfl⟩
  next => cases call

theorem eq_ret_of_isRet {i : Instruction} (ret : i.isRet) : i = .plain .ret := by
  unfold isRet at ret
  split at ret
  next => rfl
  next => cases ret

end Instruction

structure Visit where
  pc : Nat
  instruction : Instruction
  next : Nat

namespace Visit

def isCall (visit : Visit) : Bool := visit.instruction.isCall

def isRet (visit : Visit) : Bool := visit.instruction.isRet

theorem isRet_of_isCall {visit : Visit} (call : visit.isCall) : visit.isRet = false := by
  obtain ⟨target, same⟩ := Instruction.eq_call_of_isCall call
  simp only [isRet, same, Instruction.isRet]

theorem isCall_of_isRet {visit : Visit} (ret : visit.isRet) : visit.isCall = false := by
  simp only [isCall, Instruction.eq_ret_of_isRet ret, Instruction.isCall]

structure Made (visit : Visit) (program : Program) (machine : Machine) (sink : Sink)
    (after : Session) : Prop where
  place : visit.pc = machine.pc
  decoded : program.decodeAt visit.pc = .ok (visit.instruction, visit.next)
  ran : Action.turn program ⟨machine, sink, []⟩ = .ok .running after

end Visit

inductive Balanced : List Visit → Prop
  | nil : Balanced []
  | other {visit : Visit} {rest : List Visit} (call : visit.isCall = false)
    (ret : visit.isRet = false) (later : Balanced rest) : Balanced (visit :: rest)
  | pair {call ret : Visit} {inner rest : List Visit} (calls : call.isCall)
    (within : Balanced inner) (returns : ret.isRet) (later : Balanced rest) :
    Balanced (call :: inner ++ ret :: rest)

inductive Unmatched : List Visit → List Visit → Prop
  | none {visits : List Visit} (balanced : Balanced visits) : Unmatched visits []
  | call {earlier pending inner : List Visit} {call : Visit}
    (before : Unmatched earlier pending) (calls : call.isCall) (within : Balanced inner) :
    Unmatched (earlier ++ call :: inner) (pending ++ [call])

section

variable {visits more pending : List Visit}

theorem Balanced.append (balanced : Balanced visits) (rest : Balanced more) :
    Balanced (visits ++ more) := by
  induction balanced with
  | nil => exact rest
  | other call ret _ ih => exact .other call ret ih
  | pair calls within returns _ _ ih => simpa using Balanced.pair calls within returns ih

theorem Balanced.count (balanced : Balanced visits) :
    visits.countP Visit.isCall = visits.countP Visit.isRet := by
  induction balanced with
  | nil => rfl
  | other call ret _ ih => simp [call, ret, ih]
  | pair calls _ returns _ inner rest =>
    have first := Visit.isRet_of_isCall calls
    have last := Visit.isCall_of_isRet returns
    simp [calls, returns, first, last, inner, rest]
    omega

theorem Unmatched.append (unmatched : Unmatched visits pending) (rest : Balanced more) :
    Unmatched (visits ++ more) pending := by
  cases unmatched with
  | none balanced => exact .none (balanced.append rest)
  | call before calls within => simpa using Unmatched.call before calls (within.append rest)

theorem Unmatched.ret {older : List Visit} {call ret : Visit}
    (unmatched : Unmatched visits (older ++ [call])) (returns : ret.isRet) :
    Unmatched (visits ++ [ret]) older := by
  generalize same : older ++ [call] = pending at unmatched
  cases unmatched with
  | none => simp at same
  | call before calls within =>
    obtain ⟨rfl, -⟩ := List.append_inj' same rfl
    -- The latest call, what it has run and the return are one balanced stretch.
    simpa using before.append (.pair calls within returns .nil)

theorem Unmatched.count (unmatched : Unmatched visits pending) :
    visits.countP Visit.isCall = visits.countP Visit.isRet + pending.length := by
  induction unmatched with
  | none balanced => exact balanced.count
  | call _ calls within ih =>
    have first := Visit.isRet_of_isCall calls
    simp [calls, first, ih, within.count]
    omega

end

theorem CallStack.pop?_of_push? {calls pushed : CallStack} {address : UInt32}
    (push : calls.push? address = some pushed) : pushed.pop? = some (address, calls) := by
  simp only [push?] at push
  split at push
  next =>
    cases push
    rfl
  next => cases push

namespace Action

theorem Transfers.of_call {length next : Nat} {i : Instruction} {calls left : CallStack}
    {flow : Flow} (transfers : Transfers length next i calls flow left) (call : i.isCall) :
    calls.push? (UInt32.ofNat next) = some left := by
  obtain ⟨target, rfl⟩ := Instruction.eq_call_of_isCall call
  cases transfers with
  | on stays => simp [Instruction.opcode] at stays
  | jump direct => exact absurd rfl direct
  | call _ push => exact push

theorem Transfers.of_ret {length next : Nat} {i : Instruction} {calls left : CallStack}
    {flow : Flow} (transfers : Transfers length next i calls flow left) (ret : i.isRet) :
    ∃ address, calls.pop? = some (address, left) ∧ flow = .next address.toNat := by
  cases Instruction.eq_ret_of_isRet ret
  cases transfers with
  | on stays => simp [Instruction.opcode] at stays
  | ret pop => exact ⟨_, pop, rfl⟩

theorem Transfers.of_other {length next : Nat} {i : Instruction} {calls left : CallStack}
    {flow : Flow} (transfers : Transfers length next i calls flow left)
    (call : i.isCall = false) (ret : i.isRet = false) : left = calls := by
  cases transfers with
  | on | halt | jump => rfl
  | call => cases call
  | ret => cases ret

theorem Transfers.of_halt {length next : Nat} {i : Instruction} {calls left : CallStack}
    (transfers : Transfers length next i calls .halt left) : left = calls := by
  cases transfers with
  | halt => rfl

section

variable {program : Program} {session : Session}

theorem transfers_turn :
    (turn program).Ends session
      (fun
        | .running, after => ∃ i next, program.decodeAt session.machine.pc = .ok (i, next) ∧
            Transfers program.length next i session.machine.calls (.next after.machine.pc)
              after.machine.calls
        | .halted, after => after.machine.calls = session.machine.calls)
      fun _ after => after.machine.calls = session.machine.calls := by
  apply turn_ends
  case halts => exact fun _ => rfl
  case spent => exact fun _ _ => rfl
  case garbled => exact fun _ _ _ => rfl
  case executes =>
    intro i next known decoded
    apply (ends_execute known program.length next (session.paid.counted i)).mono
    · rintro flow after ⟨calls, transfers, control⟩
      obtain ⟨-, -, -, -, rfl⟩ := Machine.of_control control
      cases flow with
      | next pc => exact ⟨i, next, decoded, transfers⟩
      | halt => exact transfers.of_halt
    · rintro fault after ⟨control, -⟩
      have kept := congrArg Machine.calls control
      exact kept

variable {i : Instruction} {next : Nat} {done : Progress → Session → Prop}
  {failed : RuntimeFault → Session → Prop}

theorem ends_turn_decoded (decoded : program.decodeAt session.machine.pc = .ok (i, next))
    (fueled : session.machine.fuel ≠ some 0) :
    (turn program).Ends session done failed ↔
      (execute program.length next i).Ends (session.paid.counted i) (Settled done) failed := by
  have inside : session.machine.pc < next ∧ next ≤ program.length := decodeAt_advances decoded
  have before : session.machine.pc ≠ program.length := by omega
  rw [ends_turn, if_neg before, if_neg fueled, decoded]

theorem fails_iff {α ν : Type} {action : Action α} {fault : ν → RuntimeFault} {full : Prop}
    (x : ν) (ends : action.Ends session (fun _ _ => ¬full) fun raised _ =>
      full ∧ raised = fault x) :
    (∃ x after, action session = .error (fault x) after) ↔ full := by
  unfold Ends at ends
  split at ends
  next ran => simp [ran, ends]
  next ran =>
    obtain ⟨full, rfl⟩ := ends
    exact ⟨fun _ => full, fun _ => ⟨x, _, ran⟩⟩

theorem ret_fails_iff (decoded : program.decodeAt session.machine.pc = .ok (.plain .ret, next))
    (fueled : session.machine.fuel ≠ some 0) :
    (∃ pc after, turn program session = .error (.emptyCallStack pc) after) ↔
      session.machine.calls.depth = 0 := by
  have same : (session.paid.counted (.plain .ret)).machine.calls = session.machine.calls := rfl
  apply fails_iff session.machine.pc
  apply (ends_turn_decoded decoded fueled).mpr
  apply ends_ret_iff.mpr
  rw [same]
  split
  next refused => exact ⟨CallStack.depth_of_pop? refused, rfl⟩
  next address calls pop =>
    have frames := CallStack.frames_of_pop? pop
    simp [Settled, session.machine.calls.depth_eq, frames]

theorem call_fails_iff {target : UInt32}
    (decoded : program.decodeAt session.machine.pc = .ok (.branch .call target, next))
    (inside : target.toNat ≤ program.length) (fueled : session.machine.fuel ≠ some 0) :
    (∃ limit after, turn program session = .error (.recursionLimitExceeded limit) after) ↔
      session.machine.calls.limit ≤ session.machine.calls.depth := by
  have same : (session.paid.counted (.branch .call target)).machine.calls =
    session.machine.calls := rfl
  apply fails_iff session.machine.calls.limit
  apply (ends_turn_decoded decoded fueled).mpr
  apply ends_call_iff.mpr
  rw [same, if_neg (Nat.not_lt.mpr inside)]
  split
  next refused => exact ⟨CallStack.limit_le_of_push? refused, rfl⟩
  next push => exact Nat.not_le.mpr (CallStack.of_push? push).1

end

end Action

theorem Visit.Made.transfers {program : Program} {visit : Visit} {machine : Machine} {sink : Sink}
    {after : Session} (made : visit.Made program machine sink after) :
    Action.Transfers program.length visit.next visit.instruction machine.calls
      (.next after.machine.pc) after.machine.calls := by
  obtain ⟨place, decoded, ran⟩ := made
  obtain ⟨i, next, found, transfers⟩ := (Action.ends_iff.mp Action.transfers_turn).1 _ _ ran
  rw [← place, decoded] at found
  cases found
  exact transfers

inductive Path (program : Program) : Machine → Sink → List Visit → Machine → Sink → Prop
  | nil {machine : Machine} {sink : Sink} : Path program machine sink [] machine sink
  | cons {machine state : Machine} {sink written : Sink} {visit : Visit} {visits : List Visit}
    {after : Session} (made : visit.Made program machine sink after)
    (rest : Path program after.machine after.sink visits state written) :
    Path program machine sink (visit :: visits) state written

namespace Path

variable {program : Program} {machine middle state : Machine} {sink passed written : Sink}
  {visits more pending : List Visit}

theorem append (first : Path program machine sink visits middle passed)
    (second : Path program middle passed more state written) :
    Path program machine sink (visits ++ more) state written := by
  induction first with
  | nil => exact second
  | cons made _ ih => exact .cons made (ih second)

theorem split (path : Path program machine sink (visits ++ more) state written) :
    ∃ middle passed, Path program machine sink visits middle passed ∧
      Path program middle passed more state written := by
  induction visits generalizing machine sink with
  | nil => exact ⟨machine, sink, .nil, path⟩
  | cons visit visits ih =>
    cases path with
    | cons made rest =>
      obtain ⟨middle, passed, first, second⟩ := ih rest
      exact ⟨middle, passed, .cons made first, second⟩

theorem calls_of_balanced (path : Path program machine sink visits state written)
    (balanced : Balanced visits) : state.calls = machine.calls := by
  induction balanced generalizing machine sink state written with
  | nil =>
    cases path
    rfl
  | other call ret _ ih =>
    cases path with
    | cons made rest => exact (ih rest).trans (made.transfers.of_other call ret)
  | pair calls _ returns _ inner outer =>
    obtain ⟨middle, passed, opened, closed⟩ := path.split
    cases opened with
    | cons called within =>
      cases closed with
      | cons returned rest =>
        -- What the call has pushed is still on top when its return pops.
        have push := CallStack.pop?_of_push? (called.transfers.of_call calls)
        obtain ⟨address, pop, -⟩ := returned.transfers.of_ret returns
        rw [inner within, push] at pop
        obtain ⟨-, same⟩ := Prod.mk.inj (Option.some.inj pop)
        exact (outer rest).trans same.symm

theorem frames_of_unmatched (path : Path program machine sink visits state written)
    (short : program.length < UInt32.size) (fresh : machine.calls.frames = [])
    (unmatched : Unmatched visits pending) :
    state.calls.frames.reverse.map UInt32.toNat = pending.map Visit.next := by
  induction unmatched generalizing state written with
  | none balanced => simp [path.calls_of_balanced balanced, fresh]
  | @call _ _ _ call _ calls within ih =>
    obtain ⟨middle, passed, before, later⟩ := path.split
    cases later with
    | cons made rest =>
      have frames := CallStack.frames_of_push? (made.transfers.of_call calls)
      have behind : call.next ≤ program.length := (decodeAt_advances made.decoded).2
      have kept := UInt32.toNat_ofNat_of_lt' (Nat.lt_of_le_of_lt behind short)
      simp [rest.calls_of_balanced within, frames, ih before, kept]

theorem depth_of_unmatched (path : Path program machine sink visits state written)
    (short : program.length < UInt32.size) (fresh : machine.calls.frames = [])
    (unmatched : Unmatched visits pending) : state.calls.depth = pending.length := by
  have frames := congrArg List.length (path.frames_of_unmatched short fresh unmatched)
  simpa [state.calls.depth_eq] using frames

theorem exists_call_of_ret (path : Path program machine sink visits state written)
    (short : program.length < UInt32.size) (fresh : machine.calls.frames = [])
    (unmatched : Unmatched visits pending) {ret : Visit} {after : Session}
    (made : ret.Made program state written after) (returns : ret.isRet) :
    ∃ older call, pending = older ++ [call] ∧ after.machine.pc = call.next := by
  have frames := path.frames_of_unmatched short fresh unmatched
  obtain ⟨address, pop, goes⟩ := made.transfers.of_ret returns
  rw [CallStack.frames_of_pop? pop, List.reverse_cons, List.map_append] at frames
  obtain ⟨older, latest, rfl, -, last⟩ := List.map_eq_append_iff.mp frames.symm
  obtain ⟨call, rfl, behind⟩ := List.map_eq_singleton_iff.mp last
  exact ⟨older, call, rfl, (Flow.next.inj goes).trans behind.symm⟩

theorem exists_unmatched (path : Path program machine sink visits state written)
    (short : program.length < UInt32.size) (fresh : machine.calls.frames = []) :
    ∃ pending, Unmatched visits pending := by
  induction visits using List.reverseRecOn generalizing state written with
  | nil => exact ⟨[], .none .nil⟩
  | append_singleton visits visit ih =>
    obtain ⟨middle, passed, before, last⟩ := path.split
    obtain ⟨pending, unmatched⟩ := ih before
    by_cases calls : visit.isCall
    · exact ⟨pending ++ [visit], unmatched.call calls .nil⟩
    by_cases returns : visit.isRet
    · -- It has gone somewhere, so that a call was under way.
      cases last with
      | cons made rest =>
        obtain ⟨older, call, rfl, -⟩ :=
          before.exists_call_of_ret short fresh unmatched made returns
        exact ⟨older, unmatched.ret returns⟩
    · have other := Balanced.other (by simpa using calls) (by simpa using returns) .nil
      exact ⟨pending, unmatched.append other⟩

end Path

theorem Reached.exists_path {program : Program} {machine state : Machine} {sink written : Sink}
    (reached : Reached program machine sink state written) :
    ∃ visits, Path program machine.reset sink visits state written := by
  induction reached with
  | start => exact ⟨[], .nil⟩
  | @turn before _ _ _ ran ih =>
    obtain ⟨visits, path⟩ := ih
    obtain ⟨i, next, decoded, -⟩ := (Action.ends_iff.mp Action.transfers_turn).1 _ _ ran
    have made : Visit.Made ⟨before.pc, i, next⟩ program before _ _ := ⟨rfl, decoded, ran⟩
    exact ⟨visits ++ [_], path.append (.cons made .nil)⟩

/-- What the history of a run, and its calls that have no return, say of the state it is in. -/
structure Lifo (program : Program) (limit : Nat) (visits pending : List Visit) (state : Machine)
    (written : Sink) : Prop where
  frames : state.calls.frames.reverse.map UInt32.toNat = pending.map Visit.next
  returns : ∀ (visit : Visit) (after : Session), visit.Made program state written after →
    visit.isRet → ∃ older call, pending = older ++ [call] ∧ after.machine.pc = call.next
  underflow : ∀ next, program.decodeAt state.pc = .ok (.plain .ret, next) → state.fuel ≠ some 0 →
    ((∃ pc after, Action.turn program ⟨state, written, []⟩ = .error (.emptyCallStack pc) after) ↔
      visits.countP Visit.isCall = visits.countP Visit.isRet)
  overflow : ∀ target next, program.decodeAt state.pc = .ok (.branch .call target, next) →
    target.toNat ≤ program.length → state.fuel ≠ some 0 →
    ((∃ most after, Action.turn program ⟨state, written, []⟩ =
        .error (.recursionLimitExceeded most) after) ↔ pending.length = limit)
  others : ∀ progress after, Action.turn program ⟨state, written, []⟩ = .ok progress after →
    after.machine.calls ≠ state.calls →
    ∃ i next, program.decodeAt state.pc = .ok (i, next) ∧ (i.isCall ∨ i.isRet)
  failures : ∀ fault after, Action.turn program ⟨state, written, []⟩ = .error fault after →
    after.machine.calls = state.calls

/-- Calls return in the reverse of their order. -/
theorem calls_lifo {program : Program} {machine state : Machine} {sink written : Sink}
    (short : program.length < UInt32.size) (reached : Reached program machine sink state written) :
    (∃ visits, Path program machine.reset sink visits state written) ∧
      ∀ visits, Path program machine.reset sink visits state written →
        (∃ pending, Unmatched visits pending) ∧
          ∀ pending, Unmatched visits pending →
            Lifo program machine.limits.recursion visits pending state written := by
  refine ⟨reached.exists_path, ?_⟩
  intro visits path
  have fresh : machine.reset.calls.frames = [] := rfl
  refine ⟨path.exists_unmatched short fresh, ?_⟩
  intro pending unmatched
  have depth := path.depth_of_unmatched short fresh unmatched
  obtain ⟨ended, failed⟩ := Action.ends_iff.mp
    (Action.transfers_turn : (Action.turn program).Ends ⟨state, written, []⟩ _ _)
  refine ⟨path.frames_of_unmatched short fresh unmatched, ?_, ?_, ?_, ?_, failed⟩
  · intro visit after made returns
    exact path.exists_call_of_ret short fresh unmatched made returns
  · intro next decoded fueled
    rw [Action.ret_fails_iff decoded fueled, unmatched.count, depth]
    omega
  · intro target next decoded inside fueled
    have bounded := bounded_of_reached reached
    have limit : state.calls.limit = machine.limits.recursion :=
      congrArg Limits.recursion bounded.configured.1
    have most := bounded.depth
    rw [Action.call_fails_iff decoded inside fueled, limit]
    simp only
    omega
  · intro progress after ran changed
    cases progress with
    | halted => exact absurd (ended _ _ ran) changed
    | running =>
      obtain ⟨i, next, decoded, transfers⟩ := ended _ _ ran
      refine ⟨i, next, decoded, ?_⟩
      by_contra other
      simp only [not_or, Bool.not_eq_true] at other
      exact changed (transfers.of_other other.1 other.2)

theorem calls_lifo_nested :
    let program : Program := ⟨.two, #[9, 5, 0, 0, 0, 9, 10, 0, 0, 0, 10]⟩
    ∃ state written visits pending, program.length < UInt32.size ∧
      Reached program (.zeroed 0 ⟨none, 2⟩) .unlimited state written ∧
      Path program (.zeroed 0 ⟨none, 2⟩) .unlimited visits state written ∧
      Unmatched visits pending ∧ pending.map Visit.next = [5] ∧
      Lifo program 2 visits pending state written := by
  intro program
  have ran : (turnsFrom program ignoreEvents 3 (.zeroed 0 ⟨none, 2⟩) .unlimited ()).map
      (fun reached => reached.1.calls.frames) = some [5] := by
    decide +kernel
  obtain ⟨⟨state, written, ⟨⟩⟩, turns, frames⟩ := Option.map_eq_some_iff.mp ran
  have short : program.length < UInt32.size := by decide
  have reached : Reached program (.zeroed 0 ⟨none, 2⟩) .unlimited state written :=
    .of_turnsFrom .start turns
  obtain ⟨⟨visits, path⟩, told⟩ := calls_lifo short reached
  obtain ⟨⟨pending, unmatched⟩, lifo⟩ := told visits path
  have behind := (lifo pending unmatched).frames
  simp only at frames
  rw [frames] at behind
  exact ⟨state, written, visits, pending, short, reached, path, unmatched, behind.symm,
    lifo pending unmatched⟩

end StackMachine
