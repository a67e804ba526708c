import Mathlib.Logic.Relation
import StackMachine.Proofs.Machine.Effects

set_option autoImplicit false

namespace StackMachine

namespace Session

inductive Change (session : Session) : Session → Prop
  | push (value : Binary64) : Change session (session.pushed value)
  | pop {value : Binary64} {rest : List Binary64} (top : session.machine.stack = value :: rest) :
    Change session (session.popped value)
  | store {index : Binary64} {slot : Nat} (value : Binary64)
    (found : session.machine.memory.slot? index = some slot) :
    Change session (session.stored slot value)
  | assign {registers : Registers} {r : Register} {value stored : Binary64}
    (set : session.machine.registers.set? r value = some registers)
    (get : registers.get? r = some stored) : Change session (session.assigned registers r stored)
  | write {value : Binary64} {rest : List Binary64} {sink : Sink}
    (top : session.machine.stack = value :: rest)
    (accepted : session.sink.write value.valueText = .ok sink) :
    Change session (session.written sink value)
  | branch (target : UInt32) (taken : Bool) : Change session (session.noted (.branch target taken))
  | call {address : UInt32} {calls : CallStack} (target : UInt32)
    (push : session.machine.calls.push? address = some calls) :
    Change session (session.transferred calls (.call target calls.depth))
  | ret {address : UInt32} {calls : CallStack}
    (pop : session.machine.calls.pop? = some (address, calls)) :
    Change session (session.transferred calls (.ret address calls.depth))

abbrev Changes : Session → Session → Prop := Relation.ReflTransGen Change

theorem Changes.kept {before after : Session} {holds : Session → Prop}
    (changes : before.Changes after) (start : holds before)
    (step : ∀ session next, holds session → session.Change next → holds next) : holds after := by
  induction changes with
  | refl => exact start
  | tail _ change ih => exact step _ _ ih change

theorem Change.changes {before after : Session} (change : before.Change after) :
    before.Changes after :=
  .single change

theorem changes_popTwo {session : Session} {right left : Binary64} {rest : List Binary64}
    (top : session.machine.stack = right :: left :: rest) :
    session.Changes ((session.popped right).popped left) := by
  have below : (session.popped right).machine.stack = left :: rest := by simp [popped, top]
  exact (Change.pop top).changes.tail (.pop below)

end Session

namespace Action

variable {session : Session} {operand : Operand}

theorem changes_pushOperand (known : operand.InTable) :
    (pushOperand operand).Ends session (fun _ => session.Changes) fun _ => session.Changes := by
  apply (ends_pushOperand known).mpr
  split
  next value _ => exact (Session.Change.push value).changes
  next => exact .refl

theorem changes_popToMemory (known : operand.InTable) :
    (popToMemory operand).Ends session (fun _ => session.Changes) fun _ => session.Changes := by
  apply (ends_popToMemory known).mpr
  split
  next => exact .refl
  next value rest top =>
    split
    next slot found =>
      have inside : (session.popped value).machine.memory.slot?
        (session.machine.sumOf operand) = some slot := found
      exact (Session.Change.pop top).changes.tail (.store value inside)
    next => exact (Session.Change.pop top).changes

theorem changes_popToRegister {r : Register} (known : r.InTable) :
    (popToRegister r).Ends session (fun _ => session.Changes) fun _ => session.Changes := by
  apply (ends_popToRegister known).mpr
  split
  next => exact .refl
  next value rest top =>
    obtain ⟨registers, set⟩ := session.machine.registers.exists_set? known value
    obtain ⟨stored, get⟩ := registers.exists_get? known
    have kept : (session.popped value).machine.registers.set? r value = some registers := set
    exact ⟨registers, stored, set, get, (Session.Change.pop top).changes.tail (.assign kept get)⟩

theorem changes_popOperand (known : operand.InTable) :
    (popOperand operand).Ends session (fun _ => session.Changes) fun _ => session.Changes := by
  unfold popOperand
  split
  next => exact changes_popToMemory known
  next =>
    split
    next r named => exact changes_popToRegister (known r named)
    next =>
      apply (ends_bind.trans ends_pop).mpr
      split
      next => exact .refl
      next top => exact (Session.Change.pop top).changes

theorem changes_combine (f : Binary64 → Binary64 → Binary64) :
    (combine f).Ends session (fun _ => session.Changes) fun _ => session.Changes := by
  apply ends_combine.mpr
  split
  next => exact .refl
  next top => exact (Session.Change.pop top).changes
  next top => exact (Session.changes_popTwo top).tail (.push _)

theorem changes_divide :
    divide.Ends session (fun _ => session.Changes) fun _ => session.Changes := by
  apply ends_divide.mpr
  split
  next => exact .refl
  next top => exact (Session.Change.pop top).changes
  next top =>
    split
    next => exact Session.changes_popTwo top
    next => exact (Session.changes_popTwo top).tail (.push _)

theorem changes_squareRoot :
    squareRoot.Ends session (fun _ => session.Changes) fun _ => session.Changes := by
  apply ends_squareRoot.mpr
  split
  next => exact .refl
  next top =>
    split
    next => exact (Session.Change.pop top).changes
    next => exact (Session.Change.pop top).changes.tail (.push _)

theorem changes_output :
    output.Ends session (fun _ => session.Changes) fun _ => session.Changes := by
  apply ends_output.mpr
  split
  next => exact .refl
  next top =>
    split
    next => exact .refl
    next accepted => exact (Session.Change.write top accepted).changes

section

variable {length next : Nat} {target : UInt32}

theorem changes_jump {before : Session} (changes : before.Changes session) :
    (jump length target).Ends session (fun _ => before.Changes) fun _ => before.Changes := by
  apply ends_jump_iff.mpr
  split
  next => exact changes
  next => exact changes

theorem changes_jumpWhen {condition : Condition} :
    (jumpWhen length next condition target).Ends session (fun _ => session.Changes)
      fun _ => session.Changes := by
  apply ends_jumpWhen_iff.mpr
  split
  next => exact .refl
  next top => exact (Session.Change.pop top).changes
  next right left rest top =>
    have told := (Session.changes_popTwo top).tail
      (.branch target (condition.holds left right tolerance))
    simp only
    split
    next => exact changes_jump told
    next => exact told

theorem changes_call :
    (call length next target).Ends session (fun _ => session.Changes)
      fun _ => session.Changes := by
  apply ends_call_iff.mpr
  split
  next => exact .refl
  next =>
    split
    next => exact .refl
    next push => exact (Session.Change.call target push).changes

theorem changes_ret : ret.Ends session (fun _ => session.Changes) fun _ => session.Changes := by
  apply ends_ret_iff.mpr
  split
  next => exact .refl
  next pop => exact (Session.Change.ret pop).changes

theorem changes_execute {i : Instruction} (known : i.InTable) (length next : Nat)
    (session : Session) :
    (execute length next i).Ends session (fun _ => session.Changes) fun _ => session.Changes := by
  cases i with
  | push operand => exact ends_then.mpr (changes_pushOperand known)
  | pop operand => exact ends_then.mpr (changes_popOperand known)
  | plain op =>
    cases op with
    | hlt => exact Relation.ReflTransGen.refl
    | add => exact ends_then.mpr (changes_combine .add)
    | sub => exact ends_then.mpr (changes_combine .sub)
    | mul => exact ends_then.mpr (changes_combine .mul)
    | div => exact ends_then.mpr changes_divide
    | sqrt => exact ends_then.mpr changes_squareRoot
    | out => exact ends_then.mpr changes_output
    | ret => exact changes_ret
  | branch op target =>
    cases op with
    | jmp => exact changes_jump .refl
    | call => exact changes_call
    | «when» condition => exact changes_jumpWhen

end

end Action

end StackMachine
