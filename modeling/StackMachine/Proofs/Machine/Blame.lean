import StackMachine.Proofs.Bytecode.Faults
import StackMachine.Proofs.Machine.Bounds
import StackMachine.Proofs.Machine.Fuel

set_option autoImplicit false

namespace StackMachine

def Program.Holds (program : Program) (place : Nat) (i : Instruction) : Prop :=
  ∃ next, program.decodeAt place = .ok (i, next)

def RuntimeFault.JustifiedBy (program : Program) (limits : Limits) (machine : Machine) :
    RuntimeFault → Prop
  | .undefinedCommand byte pc => pc = machine.pc ∧ program.body[pc]? = some byte
  | .invalidRegister index place =>
    place = machine.pc + 1 ∧ program.body[place]? = some index ∧ (index = 0 ∨ 8 < index) ∧
      program.decodeAt machine.pc = .error (.invalidRegister index place)
  | .unexpectedEnd place => machine.pc < place ∧ place ≤ program.length
  | .emptyOperandStack pc => pc = machine.pc ∧ machine.stack = []
  | .emptyCallStack pc =>
    pc = machine.pc ∧ machine.calls.depth = 0 ∧ program.Holds pc (.plain .ret)
  | .recursionLimitExceeded limit =>
    limit = limits.recursion ∧ machine.calls.depth = limit ∧
      ∃ target, program.Holds machine.pc (.branch .call target)
  | .invalidJumpTarget target length pc =>
    pc = machine.pc ∧ length = program.length ∧ length < target.toNat ∧
      ∃ i, program.Holds pc i ∧ i.target? = some target
  | .memoryOutOfBounds index size pc =>
    pc = machine.pc ∧ size = machine.memory.size ∧ machine.memory.slot? index = none
  | .zeroDivision pc => pc = machine.pc ∧ program.Holds pc (.plain .div)
  | .negativeSqrtArgument value pc =>
    pc = machine.pc ∧ value.lt tolerance.neg ∧ program.Holds pc (.plain .sqrt)
  | .output _ => program.Holds machine.pc (.plain .out)
  | .fuelExhausted limit =>
    limits.fuel = some limit ∧ machine.steps = limit ∧ machine.pc ≠ program.length

namespace Action

variable {program : Program} {limits : Limits} {session : Session} {α : Type}

def Justified (program : Program) (limits : Limits) (session : Session) (action : Action α) :
    Prop :=
  action.Ends session (fun _ _ => True) fun fault after =>
    fault.JustifiedBy program limits after.machine

theorem justified_pushOperand {operand : Operand} (known : operand.InTable) :
    Justified program limits session (pushOperand operand) := by
  apply (ends_pushOperand known).mpr
  split
  next => trivial
  next none =>
    refine ⟨rfl, rfl, (Memory.load?_eq_none_iff _ _).mp ?_⟩
    simp only [Machine.valueOf?] at none
    split at none
    next => exact none
    next => cases none

theorem justified_popOperand {operand : Operand} (known : operand.InTable) :
    Justified program limits session (popOperand operand) := by
  unfold popOperand
  split
  next =>
    apply (ends_popToMemory known).mpr
    split
    next empty => exact ⟨rfl, empty⟩
    next =>
      split
      next => trivial
      next outside => exact ⟨rfl, rfl, outside⟩
  next =>
    split
    next r named =>
      apply (ends_popToRegister (known r named)).mpr
      split
      next empty => exact ⟨rfl, empty⟩
      next value _ _ =>
        obtain ⟨registers, set⟩ := session.machine.registers.exists_set? (known r named) value
        obtain ⟨stored, get⟩ := registers.exists_get? (known r named)
        exact ⟨registers, stored, set, get, trivial⟩
    next =>
      apply (ends_bind.trans ends_pop).mpr
      split
      next empty => exact ⟨rfl, empty⟩
      next => trivial

theorem justified_single {right : Binary64} (single : session.machine.stack = [right]) :
    (RuntimeFault.emptyOperandStack session.machine.pc).JustifiedBy program limits
      (session.popped right).machine :=
  ⟨rfl, by simp [Session.popped, single]⟩

theorem justified_combine (f : Binary64 → Binary64 → Binary64) :
    Justified program limits session (combine f) := by
  apply ends_combine.mpr
  split
  next empty => exact ⟨rfl, empty⟩
  next single => exact justified_single single
  next => trivial

theorem justified_jump {target : UInt32} {i : Instruction}
    (holds : program.Holds session.machine.pc i) (goes : i.target? = some target) :
    Justified program limits session (jump program.length target) := by
  apply ends_jump_iff.mpr
  split
  next outside => exact ⟨rfl, rfl, outside, i, holds, goes⟩
  next => trivial

theorem justified_execute {i : Instruction} (known : i.InTable) (next : Nat)
    (holds : program.Holds session.machine.pc i)
    (limit : session.machine.calls.limit = limits.recursion)
    (depth : session.machine.calls.depth ≤ limits.recursion) :
    Justified program limits session (execute program.length next i) := by
  cases i with
  | push operand => exact ends_then.mpr (justified_pushOperand known)
  | pop operand => exact ends_then.mpr (justified_popOperand known)
  | plain op =>
    cases op with
    | hlt => trivial
    | add => exact ends_then.mpr (justified_combine .add)
    | sub => exact ends_then.mpr (justified_combine .sub)
    | mul => exact ends_then.mpr (justified_combine .mul)
    | div =>
      apply (ends_then.trans ends_divide).mpr
      split
      next empty => exact ⟨rfl, empty⟩
      next single => exact justified_single single
      next =>
        split
        next => exact ⟨rfl, holds⟩
        next => trivial
    | sqrt =>
      apply (ends_then.trans ends_squareRoot).mpr
      split
      next empty => exact ⟨rfl, empty⟩
      next =>
        split
        next negative => exact ⟨rfl, negative, holds⟩
        next => trivial
    | out =>
      apply (ends_then.trans ends_output).mpr
      split
      next empty => exact ⟨rfl, empty⟩
      next =>
        split
        next => exact holds
        next => trivial
    | ret =>
      apply ends_ret_iff.mpr
      split
      next refused => exact ⟨rfl, CallStack.depth_of_pop? refused, holds⟩
      next => trivial
  | branch op target =>
    cases op with
    | jmp => exact justified_jump holds rfl
    | call =>
      apply ends_call_iff.mpr
      split
      next outside => exact ⟨rfl, rfl, outside, _, holds, rfl⟩
      next =>
        split
        next refused =>
          have full := CallStack.limit_le_of_push? refused
          exact ⟨limit, by omega, target, holds⟩
        next => trivial
    | «when» condition =>
      apply ends_jumpWhen_iff.mpr
      split
      next empty => exact ⟨rfl, empty⟩
      next single => exact justified_single single
      next right left _ _ =>
        simp only
        split
        next => exact justified_jump holds rfl
        next => trivial

theorem justified_fetch {fault : DecodeFault} (inside : session.machine.pc < program.length)
    (failed : program.decodeAt session.machine.pc = .error fault) :
    (RuntimeFault.ofDecodeFault fault).JustifiedBy program limits session.machine := by
  obtain ⟨stop, found⟩ := foundBy_of_decodeAt failed
  cases fault with
  | undefinedCommand byte place => exact ⟨found.1, found.2.1⟩
  | invalidRegister index place => exact ⟨found.1, found.2.1, found.2.2.1, failed⟩
  | unexpectedEnd place =>
    obtain ⟨-, ⟨here, short⟩ | ⟨behind, -, within⟩⟩ := found
    · -- Not even its first byte is there, but nothing is fetched at the end of the program.
      rw [here] at short
      exact absurd short (Nat.not_le.mpr inside)
    · exact ⟨behind, within⟩

theorem justified_turn {cells : Nat} {sink written : Sink} {state : Machine}
    (bounded : Bounded program cells limits sink state written)
    (free : limits.fuel = none → state.fuel = none) :
    Justified program limits ⟨state, written, []⟩ (turn program) := by
  obtain ⟨⟨rfl, -⟩, inside, -, depth, -, -, -, fuel⟩ := bounded
  apply turn_ends
  case halts => exact fun _ => trivial
  case spent =>
    intro before spent
    -- Fuel runs out under a limit only, and then as many steps as that have been paid for.
    cases limited : state.fuelLimit with
    | none =>
      have unspent : state.fuel = some 0 := spent
      rw [free limited] at unspent
      cases unspent
    | some limit =>
      obtain ⟨left, remains, sum⟩ := fuel limit limited
      have none : left = 0 := Option.some.inj (remains.symm.trans spent)
      have used : state.steps = limit := by omega
      exact ⟨limited, used, before⟩
  case garbled =>
    intro fault before failed
    have short : (Session.paid ⟨state, written, []⟩).machine.pc < program.length :=
      Nat.lt_of_le_of_ne inside before
    exact justified_fetch short failed
  case executes =>
    intro i next known decoded
    have justified : Justified program _ ((Session.paid ⟨state, written, []⟩).counted i)
        (execute program.length next i) :=
      justified_execute known next ⟨next, decoded⟩ rfl depth
    apply justified.mono
    · intro flow after _
      cases flow <;> trivial
    · exact fun _ _ justified => justified

end Action

theorem Reached.unlimited {program : Program} {machine state : Machine} {sink written : Sink}
    (reached : Reached program machine sink state written) (free : machine.fuelLimit = none) :
    state.fuelLimit = none ∧ state.fuel = none := by
  induction reached with
  | start => exact ⟨free, free⟩
  | @turn before _ _ _ ran ih =>
    obtain ⟨limit, fuel⟩ := ih
    have fueled : before.fuel ≠ some 0 := by simp [fuel]
    obtain ⟨-, kept, left⟩ := (Action.ends_iff.mp (Action.ends_turn_fueled fueled)).1 _ _ ran rfl
    exact ⟨kept.trans limit, by simpa [fuel] using left⟩

/-- Every fault is borne out by the machine that it leaves. -/
theorem fault_justified {τ : Type} {program : Program} {machine : Machine} {bound : Nat}
    {sink : Sink} {tracer : τ → Event → τ} {start : τ} {outcome : Outcome τ}
    (ended : machine.run bound program sink tracer start = some outcome) :
    ∀ fault ∈ outcome.fault, fault.JustifiedBy program machine.limits outcome.machine := by
  obtain ⟨last, written, reached, stops⟩ := exists_stop_of_runFrom .start ended
  have bounded := bounded_of_reached reached
  have justified := Action.justified_turn bounded fun free => (reached.unlimited free).2
  intro fault failed
  generalize outcome.machine = state, outcome.sink = final, outcome.fault = blamed at stops failed
  cases stops with
  | halt => cases failed
  | fail ran =>
    cases failed
    exact (Action.ends_iff.mp justified).2 _ _ ran

theorem fault_justified_recursion :
    let program : Program := ⟨.two, #[9, 0, 0, 0, 0]⟩
    let fault : RuntimeFault := .recursionLimitExceeded 2
    ∃ outcome, Machine.run (.zeroed 8 ⟨none, 2⟩) 3 program .unlimited ignoreEvents () =
        some outcome ∧
      outcome.fault = some fault ∧ fault.JustifiedBy program ⟨none, 2⟩ outcome.machine := by
  intro program fault
  have ran : (Machine.run (.zeroed 8 ⟨none, 2⟩) 3 program .unlimited ignoreEvents ()).map
      Outcome.fault = some (some fault) := by
    decide +kernel
  obtain ⟨outcome, ended, failed⟩ := Option.map_eq_some_iff.mp ran
  exact ⟨outcome, ended, failed, fault_justified ended fault failed⟩

end StackMachine
