import StackMachine.Proofs.Machine.Effects

set_option autoImplicit false

namespace StackMachine

structure Surroundings where
  limit : Option Nat → Option Nat
  left : Option Nat → Option Nat
  sink : Sink → Sink

def Session.within (session : Session) (around : Surroundings) : Session :=
  { session with
    machine.fuelLimit := around.limit session.machine.fuelLimit
    machine.fuel := around.left session.machine.fuel
    sink := around.sink session.sink }

namespace Action

variable {α : Type}

def Heedless (action : Action α) : Prop :=
  ∀ (session : Session) (around : Surroundings) (done : α → Session → Prop)
    (failed : RuntimeFault → Session → Prop),
    action.Ends (session.within around) done failed ↔
      action.Ends session (fun a after => done a (after.within around))
        fun fault after => failed fault (after.within around)

theorem Heedless.of_iff {action : Action α}
    {ends : Session → (α → Session → Prop) → (RuntimeFault → Session → Prop) → Prop}
    (known : ∀ session done failed, action.Ends session done failed ↔ ends session done failed)
    (same : ∀ (session : Session) (around : Surroundings) done failed,
      ends (session.within around) done failed ↔
        ends session (fun a after => done a (after.within around))
          fun fault after => failed fault (after.within around)) : Heedless action := by
  intro session around done failed
  rw [known, known]
  exact same session around done failed

theorem heedless_popOperand {operand : Operand} (known : operand.InTable) :
    Heedless (popOperand operand) := by
  unfold popOperand
  split
  next => exact .of_iff (fun _ _ _ => ends_popToMemory known) fun _ _ _ _ => Iff.rfl
  next =>
    split
    next r named =>
      exact .of_iff (fun _ _ _ => ends_popToRegister (known r named)) fun _ _ _ _ => Iff.rfl
    next => exact .of_iff (fun _ _ _ => ends_bind.trans ends_pop) fun _ _ _ _ => Iff.rfl

theorem heedless_jump (length : Nat) (target : UInt32) : Heedless (jump length target) :=
  .of_iff (fun _ _ _ => ends_jump_iff) fun _ _ _ _ => Iff.rfl

theorem heedless_jumpWhen (length next : Nat) (condition : Condition) (target : UInt32) :
    Heedless (jumpWhen length next condition target) := by
  refine .of_iff (fun _ _ _ => ends_jumpWhen_iff) fun session around done failed => ?_
  have operands : (session.within around).machine.stack = session.machine.stack := rfl
  simp only [operands]
  split
  next => exact Iff.rfl
  next => exact Iff.rfl
  next right left _ _ =>
    split
    next => exact heedless_jump length target (((session.popped right).popped left).noted _) _ _ _
    next => exact Iff.rfl

theorem Heedless.bind_pure {action : Action Unit} (heedless : Heedless action) (flow : Flow) :
    Heedless (action >>= fun _ => pure flow) :=
  .of_iff (fun _ _ _ => ends_then) fun session around _ _ => heedless session around _ _

theorem heedless_execute {i : Instruction} (known : i.InTable) (silent : i ≠ .plain .out)
    (length next : Nat) : Heedless (execute length next i) := by
  cases i with
  | push operand =>
    have heedless : Heedless (pushOperand operand) :=
      .of_iff (fun _ _ _ => ends_pushOperand known) fun _ _ _ _ => Iff.rfl
    exact heedless.bind_pure _
  | pop operand => exact (heedless_popOperand known).bind_pure _
  | plain op =>
    cases op with
    | hlt => exact fun _ _ _ _ => Iff.rfl
    | add | sub | mul =>
      exact .of_iff (fun _ _ _ => ends_then.trans ends_combine) fun _ _ _ _ => Iff.rfl
    | div => exact .of_iff (fun _ _ _ => ends_then.trans ends_divide) fun _ _ _ _ => Iff.rfl
    | sqrt => exact .of_iff (fun _ _ _ => ends_then.trans ends_squareRoot) fun _ _ _ _ => Iff.rfl
    | out => exact absurd rfl silent
    | ret => exact .of_iff (fun _ _ _ => ends_ret_iff) fun _ _ _ _ => Iff.rfl
  | branch op target =>
    cases op with
    | jmp => exact heedless_jump length target
    | call => exact .of_iff (fun _ _ _ => ends_call_iff) fun _ _ _ _ => Iff.rfl
    | «when» condition => exact heedless_jumpWhen length next condition target

theorem ends_execute_out {length next : Nat} {session : Session} {done : Flow → Session → Prop}
    {failed : RuntimeFault → Session → Prop} :
    (execute length next (.plain .out)).Ends session done failed ↔
      match session.machine.stack with
      | [] => failed (.emptyOperandStack session.machine.pc) session
      | value :: _ =>
        match session.sink.write value.valueText with
        | .error reason => failed (.output reason) session
        | .ok sink => done (.next next) (session.written sink value) :=
  ends_then.trans ends_output

end Action

end StackMachine
