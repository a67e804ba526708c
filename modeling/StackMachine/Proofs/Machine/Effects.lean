import StackMachine.Proofs.Binary64.Integers
import StackMachine.Proofs.Machine.Actions

set_option autoImplicit false

namespace StackMachine

namespace Memory

theorem slot?_eq_some_iff {memory : Memory} {index : Binary64} {slot : Nat} :
    memory.slot? index = some slot ↔ index.isFinite = true ∧ index.truncate.lt .zero = false ∧
      index.truncate.lt (.ofInt memory.size) = true ∧ index.truncate.toUInt64.toNat = slot := by
  simp [slot?, and_assoc]

theorem slot?_lt {memory : Memory} {index : Binary64} {slot : Nat}
    (found : memory.slot? index = some slot) : slot < memory.size := by
  obtain ⟨finite, low, high, rfl⟩ := slot?_eq_some_iff.mp found
  have above := (Binary64.truncate_lt_zero_iff finite).not.mp (Bool.eq_false_iff.mp low)
  have below := Binary64.lt_of_truncate_lt_ofInt finite high
  rw [Binary64.toNat_toUInt64_truncate finite (Int.not_lt.mp above)]
  omega

theorem load?_eq_none_iff (memory : Memory) (index : Binary64) :
    memory.load? index = none ↔ memory.slot? index = none := by
  unfold load?
  cases found : memory.slot? index with
  | none => simp
  | some slot =>
    have inside := slot?_lt found
    simpa [size] using inside

end Memory

namespace Machine

def sumOf (machine : Machine) (operand : Operand) : Binary64 :=
  ((operand.register.bind machine.registers.get?).getD .zero).add (operand.literal.getD .zero)

def valueOf? (machine : Machine) (operand : Operand) : Option Binary64 :=
  if operand.inMemory then machine.memory.load? (machine.sumOf operand)
  else some (machine.sumOf operand)

theorem of_control {before after : Machine} {calls : CallStack}
    (same : after.control = { before.control with calls }) :
    after.fuelLimit = before.fuelLimit ∧ after.fuel = before.fuel ∧ after.steps = before.steps ∧
      after.memory.size = before.memory.size ∧ after.calls = calls := by
  simp only [control, Machine.mk.injEq] at same
  obtain ⟨limit, -, fuel, steps, -, -, cells, calls⟩ := same
  have size := congrArg Memory.size cells
  simp only [Memory.size, Memory.zeroed, Array.size_replicate] at size
  exact ⟨limit, fuel, steps, size, calls⟩

end Machine

namespace Session

def pushed (session : Session) (value : Binary64) : Session :=
  { session with
    machine.stack := value :: session.machine.stack
    events := session.events ++ [.push value] }

def popped (session : Session) (value : Binary64) : Session :=
  { session with
    machine.stack := session.machine.stack.tail
    events := session.events ++ [.pop value] }

def stored (session : Session) (slot : Nat) (value : Binary64) : Session :=
  { session with
    machine.memory := session.machine.memory.set slot value
    events := session.events ++ [.memory slot value] }

def assigned (session : Session) (registers : Registers) (r : Register) (value : Binary64) :
    Session :=
  { session with
    machine.registers := registers
    events := session.events ++ [.register r value] }

def written (session : Session) (sink : Sink) (value : Binary64) : Session :=
  { session with sink, events := session.events ++ [.output value] }

def transferred (session : Session) (calls : CallStack) (event : Event) : Session :=
  { session with machine.calls := calls, events := session.events ++ [event] }

def noted (session : Session) (event : Event) : Session :=
  { session with events := session.events ++ [event] }

end Session

namespace Action

variable {α : Type} {session : Session} {failed : RuntimeFault → Session → Prop}

theorem Ends.self (action : Action α) (session : Session) :
    action.Ends session (fun a after => action session = .ok a after)
      fun fault after => action session = .error fault after := by
  unfold Ends
  split <;> assumption

theorem eq_of_ends {left right : Action α} {start other : Session}
    (same : ∀ done failed, left.Ends start done failed ↔ right.Ends other done failed) :
    left start = right other := by
  have self := (same _ _).mpr (Ends.self right other)
  unfold Ends at self
  split at self
  next ran => rw [ran, self]
  next ran => rw [ran, self]

theorem Ends.and {α : Type} {action : Action α} {session : Session}
    {done settled : α → Session → Prop} {failed refused : RuntimeFault → Session → Prop}
    (left : action.Ends session done failed) (right : action.Ends session settled refused) :
    action.Ends session (fun a after => done a after ∧ settled a after)
      fun fault after => failed fault after ∧ refused fault after := by
  unfold Ends at *
  cases ran : action session <;> simp_all

theorem ends_pop {done : Binary64 → Session → Prop} :
    pop.Ends session done failed ↔
      match session.machine.stack with
      | [] => failed (.emptyOperandStack session.machine.pc) session
      | value :: _ => done value (session.popped value) := by
  apply ends_bind.trans
  unfold Ends top
  cases session.machine.stack <;> rfl

theorem ends_popTwo {next : Binary64 → Binary64 → Action α} {done : α → Session → Prop} :
    (pop >>= fun right => pop >>= next right).Ends session done failed ↔
      match session.machine.stack with
      | [] => failed (.emptyOperandStack session.machine.pc) session
      | [right] => failed (.emptyOperandStack session.machine.pc) (session.popped right)
      | right :: left :: _ =>
        (next right left).Ends ((session.popped right).popped left) done failed := by
  apply (ends_bind.trans ends_pop).trans
  rcases found : session.machine.stack with _ | ⟨right, rest⟩
  · exact Iff.rfl
  · apply (ends_bind.trans ends_pop).trans
    have left : (session.popped right).machine.stack = rest := by simp [Session.popped, found]
    rw [left]
    cases rest <;> rfl

theorem ends_sumOf {operand : Operand} (known : operand.InTable)
    {done : Binary64 → Session → Prop} :
    (sumOf operand).Ends session done failed ↔ done (session.machine.sumOf operand) session := by
  rcases operand with ⟨_ | r, literal, inMemory⟩
  · exact Iff.rfl
  · obtain ⟨value, found⟩ := session.machine.registers.exists_get? (known r rfl)
    simp only [sumOf, Machine.sumOf, Option.bind_some, found, Option.getD_some]
    apply ends_bind.trans
    simp only [Ends, register, found]
    rfl

theorem ends_load {index : Binary64} {done : Binary64 → Session → Prop} :
    (load index).Ends session done failed ↔
      match session.machine.memory.load? index with
      | some value => done value session
      | none =>
        failed (.memoryOutOfBounds index session.machine.memory.size session.machine.pc)
          session := by
  apply ends_bind.trans
  simp only [Ends, machine]
  cases session.machine.memory.load? index <;> rfl

theorem ends_pushOperand {operand : Operand} (known : operand.InTable)
    {done : Unit → Session → Prop} :
    (pushOperand operand).Ends session done failed ↔
      match session.machine.valueOf? operand with
      | some value => done () (session.pushed value)
      | none =>
        failed (.memoryOutOfBounds (session.machine.sumOf operand) session.machine.memory.size
          session.machine.pc) session := by
  apply (ends_bind.trans (ends_sumOf known)).trans
  simp only [Machine.valueOf?]
  split
  next => exact ends_bind.trans ends_load
  next => exact Iff.rfl

theorem ends_popToMemory {operand : Operand} (known : operand.InTable)
    {done : Unit → Session → Prop} :
    (popToMemory operand).Ends session done failed ↔
      match session.machine.stack with
      | [] => failed (.emptyOperandStack session.machine.pc) session
      | value :: _ =>
        match session.machine.memory.slot? (session.machine.sumOf operand) with
        | some slot => done () ((session.popped value).stored slot value)
        | none =>
          failed (.memoryOutOfBounds (session.machine.sumOf operand) session.machine.memory.size
            session.machine.pc) (session.popped value) := by
  apply (ends_bind.trans (ends_sumOf known)).trans
  apply (ends_bind.trans ends_pop).trans
  cases session.machine.stack with
  | nil => exact Iff.rfl
  | cons value rest =>
    apply ends_bind.trans
    apply ends_bind.trans
    have kept : (session.popped value).machine.memory = session.machine.memory := rfl
    simp only [Ends, machine, kept]
    cases session.machine.memory.slot? (session.machine.sumOf operand) <;> rfl

theorem ends_popToRegister {r : Register} (known : r.InTable) {done : Unit → Session → Prop} :
    (popToRegister r).Ends session done failed ↔
      match session.machine.stack with
      | [] => failed (.emptyOperandStack session.machine.pc) session
      | value :: _ => ∃ registers stored, session.machine.registers.set? r value = some registers ∧
        registers.get? r = some stored ∧
        done () ((session.popped value).assigned registers r stored) := by
  apply (ends_bind.trans ends_pop).trans
  cases session.machine.stack with
  | nil => exact Iff.rfl
  | cons value rest =>
    obtain ⟨registers, set⟩ := session.machine.registers.exists_set? known value
    obtain ⟨stored, get⟩ := registers.exists_get? known
    have kept : (session.popped value).machine.registers = session.machine.registers := rfl
    simp only [set, Option.some.injEq]
    apply ends_bind.trans
    simp only [Ends, setRegister, kept, set]
    apply ends_bind.trans
    simp only [Ends, register, get]
    constructor
    · intro ended
      exact ⟨registers, stored, rfl, get, ended⟩
    · rintro ⟨_, other, rfl, found, ended⟩
      rw [get] at found
      cases found
      exact ended

theorem ends_combine {f : Binary64 → Binary64 → Binary64} {done : Unit → Session → Prop} :
    (combine f).Ends session done failed ↔
      match session.machine.stack with
      | [] => failed (.emptyOperandStack session.machine.pc) session
      | [right] => failed (.emptyOperandStack session.machine.pc) (session.popped right)
      | right :: left :: _ =>
        done () (((session.popped right).popped left).pushed (f left right)) :=
  ends_popTwo

theorem ends_divide {done : Unit → Session → Prop} :
    divide.Ends session done failed ↔
      match session.machine.stack with
      | [] => failed (.emptyOperandStack session.machine.pc) session
      | [right] => failed (.emptyOperandStack session.machine.pc) (session.popped right)
      | right :: left :: _ =>
        if right.abs.lt tolerance then
          failed (.zeroDivision session.machine.pc) ((session.popped right).popped left)
        else done () (((session.popped right).popped left).pushed (left.div right)) := by
  apply ends_popTwo.trans
  rcases session.machine.stack with _ | ⟨right, _ | ⟨left, rest⟩⟩
  · exact Iff.rfl
  · exact Iff.rfl
  · simp only
    split <;> rfl

theorem ends_squareRoot {done : Unit → Session → Prop} :
    squareRoot.Ends session done failed ↔
      match session.machine.stack with
      | [] => failed (.emptyOperandStack session.machine.pc) session
      | value :: _ =>
        if value.lt tolerance.neg then
          failed (.negativeSqrtArgument value session.machine.pc) (session.popped value)
        else done () ((session.popped value).pushed value.clampBelow.sqrt) := by
  apply (ends_bind.trans ends_pop).trans
  cases session.machine.stack with
  | nil => exact Iff.rfl
  | cons value rest =>
    simp only
    split <;> rfl

theorem ends_output {done : Unit → Session → Prop} :
    output.Ends session done failed ↔
      match session.machine.stack with
      | [] => failed (.emptyOperandStack session.machine.pc) session
      | value :: _ =>
        match session.sink.write value.valueText with
        | .error reason => failed (.output reason) session
        | .ok sink => done () (session.written sink value) := by
  apply ends_bind.trans
  simp only [Ends, top]
  rcases session.machine.stack with _ | ⟨value, rest⟩
  · exact Iff.rfl
  · simp only
    cases session.sink.write value.valueText <;> rfl

section

variable {length next : Nat} {target : UInt32} {done : Flow → Session → Prop}

theorem ends_then {action : Action Unit} {flow : Flow} :
    (action >>= fun _ => pure flow).Ends session done failed ↔
      action.Ends session (fun _ => done flow) failed :=
  ends_bind

theorem ends_jump_iff :
    (jump length target).Ends session done failed ↔
      if length < target.toNat then
        failed (.invalidJumpTarget target length session.machine.pc) session
      else done (.next target.toNat) session := by
  unfold jump
  split <;> rfl

theorem ends_jumpWhen_iff {condition : Condition} :
    (jumpWhen length next condition target).Ends session done failed ↔
      match session.machine.stack with
      | [] => failed (.emptyOperandStack session.machine.pc) session
      | [right] => failed (.emptyOperandStack session.machine.pc) (session.popped right)
      | right :: left :: _ =>
        let taken := condition.holds left right tolerance
        let after := ((session.popped right).popped left).noted (.branch target taken)
        if taken then (jump length target).Ends after done failed else done (.next next) after := by
  apply ends_popTwo.trans
  rcases session.machine.stack with _ | ⟨right, _ | ⟨left, rest⟩⟩
  · exact Iff.rfl
  · exact Iff.rfl
  · apply ends_bind.trans
    simp only
    split <;> rfl

theorem ends_call_iff :
    (call length next target).Ends session done failed ↔
      if length < target.toNat then
        failed (.invalidJumpTarget target length session.machine.pc) session
      else match session.machine.calls.push? (UInt32.ofNat next) with
        | none => failed (.recursionLimitExceeded session.machine.calls.limit) session
        | some calls =>
          done (.next target.toNat) (session.transferred calls (.call target calls.depth)) := by
  apply (ends_bind.trans ends_jump_iff).trans
  split
  next => exact Iff.rfl
  next =>
    apply ends_bind.trans
    simp only [Ends, pushCall]
    cases session.machine.calls.push? (UInt32.ofNat next) <;> rfl

theorem ends_ret_iff :
    ret.Ends session done failed ↔
      match session.machine.calls.pop? with
      | none => failed (.emptyCallStack session.machine.pc) session
      | some (address, calls) =>
        done (.next address.toNat) (session.transferred calls (.ret address calls.depth)) := by
  apply ends_bind.trans
  simp only [Ends, popCall]
  cases session.machine.calls.pop? <;> rfl

end

end Action

def RuntimeFault.isExhaustion : RuntimeFault → Bool
  | .fuelExhausted _ => true
  | _ => false

structure Session.GrowsTo (before after : Session) : Prop where
  operands : after.machine.stack.length ≤ before.machine.stack.length + 1
  output : after.sink.lines = before.sink.lines ∨
    ∃ line, after.sink.lines = before.sink.lines.push line

theorem Sink.lines_of_write {sink after : Sink} {line : String}
    (accepted : sink.write line = .ok after) : after.lines = sink.lines.push line := by
  unfold write at accepted
  split at accepted
  next => cases accepted
  next =>
    cases accepted
    rfl

namespace Action

theorem grows_popOperand {operand : Operand} (known : operand.InTable) (session : Session) :
    (popOperand operand).Ends session (fun _ after => session.GrowsTo after)
      fun fault _ => fault.isExhaustion = false := by
  unfold popOperand
  split
  next =>
    apply (ends_popToMemory known).mpr
    split
    next => rfl
    next =>
      split
      next => exact ⟨by simp [Session.stored, Session.popped]; omega, .inl rfl⟩
      next => rfl
  next =>
    split
    next r named =>
      apply (ends_popToRegister (known r named)).mpr
      split
      next => rfl
      next value _ _ =>
        obtain ⟨registers, set⟩ := session.machine.registers.exists_set? (known r named) value
        obtain ⟨stored, get⟩ := registers.exists_get? (known r named)
        exact ⟨registers, stored, set, get,
          ⟨by simp [Session.assigned, Session.popped]; omega, .inl rfl⟩⟩
    next =>
      apply (ends_bind.trans ends_pop).mpr
      split
      next => rfl
      next => exact ⟨by simp [Session.popped]; omega, .inl rfl⟩

theorem grows_jump {length : Nat} {target : UInt32} {before session : Session}
    (grows : before.GrowsTo session) :
    (jump length target).Ends session (fun _ after => before.GrowsTo after)
      fun fault _ => fault.isExhaustion = false := by
  apply ends_jump_iff.mpr
  split
  next => rfl
  next => exact grows

theorem grows_execute {i : Instruction} (known : i.InTable) (length next : Nat)
    (session : Session) :
    (execute length next i).Ends session (fun _ after => session.GrowsTo after)
      fun fault _ => fault.isExhaustion = false := by
  have still : session.GrowsTo session := ⟨Nat.le_succ _, .inl rfl⟩
  cases i with
  | push operand =>
    apply (ends_then.trans (ends_pushOperand known)).mpr
    split
    next => exact ⟨Nat.le_refl _, .inl rfl⟩
    next => rfl
  | pop operand => exact ends_then.mpr (grows_popOperand known session)
  | plain op =>
    cases op with
    | hlt => exact still
    | add | sub | mul =>
      apply (ends_then.trans ends_combine).mpr
      split
      next => rfl
      next => rfl
      next => exact ⟨by simp [Session.pushed, Session.popped]; omega, .inl rfl⟩
    | div =>
      apply (ends_then.trans ends_divide).mpr
      split
      next => rfl
      next => rfl
      next =>
        split
        next => rfl
        next => exact ⟨by simp [Session.pushed, Session.popped]; omega, .inl rfl⟩
    | sqrt =>
      apply (ends_then.trans ends_squareRoot).mpr
      split
      next => rfl
      next =>
        split
        next => rfl
        next => exact ⟨by simp [Session.pushed, Session.popped], .inl rfl⟩
    | out =>
      apply (ends_then.trans ends_output).mpr
      split
      next => rfl
      next value _ _ =>
        split
        next => rfl
        next sink accepted => exact ⟨Nat.le_succ _, .inr ⟨_, Sink.lines_of_write accepted⟩⟩
    | ret =>
      apply ends_ret_iff.mpr
      split
      next => rfl
      next => exact ⟨Nat.le_succ _, .inl rfl⟩
  | branch op target =>
    cases op with
    | jmp => exact grows_jump still
    | call =>
      apply ends_call_iff.mpr
      split
      next => rfl
      next =>
        split
        next => rfl
        next => exact ⟨Nat.le_succ _, .inl rfl⟩
    | «when» condition =>
      apply ends_jumpWhen_iff.mpr
      split
      next => rfl
      next => rfl
      next right left rest _ =>
        have fewer : session.GrowsTo (((session.popped right).popped left).noted
            (.branch target (condition.holds left right tolerance))) :=
          ⟨by simp [Session.noted, Session.popped]; omega, .inl rfl⟩
        simp only
        split
        next => exact grows_jump fewer
        next => exact fewer

end Action

end StackMachine
