import StackMachine.Machine.Execution
import StackMachine.Proofs.Bytecode.Decoded

set_option autoImplicit false

namespace StackMachine

namespace Register

theorem slot_lt : ∀ r : Register, r.InTable → r.slot < 4 := by
  unfold InTable
  decide

end Register

namespace Registers

theorem exists_get? (registers : Registers) {r : Register} (known : r.InTable) :
    ∃ value, registers.get? r = some value := by
  have inside := r.slot_lt known
  cases bank : r.bank <;> simp [get?, bank, inside]

theorem exists_set? (registers : Registers) {r : Register} (known : r.InTable) (value : Binary64) :
    ∃ stored, registers.set? r value = some stored := by
  have inside := r.slot_lt known
  cases bank : r.bank <;> simp [set?, bank, inside]

end Registers

namespace CallStack

theorem frames_of_push? {calls pushed : CallStack} {address : UInt32}
    (push : calls.push? address = some pushed) : pushed.frames = address :: calls.frames := by
  simp only [push?] at push
  split at push
  next =>
    cases push
    rfl
  next => cases push

theorem frames_of_pop? {calls popped : CallStack} {address : UInt32}
    (pop : calls.pop? = some (address, popped)) : calls.frames = address :: popped.frames := by
  simp only [pop?] at pop
  split at pop
  next => cases pop
  next latest rest found =>
    cases pop
    exact found

end CallStack

/-- A fault that only code off its track can raise: bytes that are no instruction, or a target out
of the program. -/
def RuntimeFault.isDerailment : RuntimeFault → Bool
  | .undefinedCommand _ _ | .invalidRegister _ _ | .unexpectedEnd _
  | .invalidJumpTarget _ _ _ => true
  | _ => false

namespace Machine

def control (machine : Machine) : Machine :=
  { machine with stack := [], registers := .zeroed, memory := .zeroed machine.memory.size }

theorem control_store (machine : Machine) (slot : Nat) (value : Binary64) :
    control { machine with memory := machine.memory.set slot value } = machine.control := by
  simp [control, Memory.set, Memory.size]

end Machine

namespace Action

variable {α β : Type}

def Ends (action : Action α) (session : Session) (done : α → Session → Prop)
    (failed : RuntimeFault → Session → Prop) : Prop :=
  match action session with
  | .ok result after => done result after
  | .error fault after => failed fault after

theorem ends_iff {action : Action α} {session : Session} {done : α → Session → Prop}
    {failed : RuntimeFault → Session → Prop} :
    action.Ends session done failed ↔
      (∀ result after, action session = .ok result after → done result after) ∧
        ∀ fault after, action session = .error fault after → failed fault after := by
  unfold Ends
  cases action session <;> simp

theorem ends_bind {first : Action α} {next : α → Action β} {session : Session}
    {done : β → Session → Prop} {failed : RuntimeFault → Session → Prop} :
    (first >>= next).Ends session done failed ↔
      first.Ends session (fun a after => (next a).Ends after done failed) failed := by
  simp only [Ends, Bind.bind, EStateM.bind]
  cases first session <;> rfl

theorem Ends.mono {action : Action α} {session : Session} {done settled : α → Session → Prop}
    {failed refused : RuntimeFault → Session → Prop} (ends : action.Ends session done failed)
    (finish : ∀ a after, done a after → settled a after)
    (blame : ∀ fault after, failed fault after → refused fault after) :
    action.Ends session settled refused := by
  unfold Ends at ends ⊢
  split at ends
  · exact finish _ _ ends
  · exact blame _ _ ends

/-- An action on data: control stays as it is, and no fault is a derailment. -/
def Confined (action : Action α) : Prop :=
  ∀ session, action.Ends session (fun _ after => after.machine.control = session.machine.control)
    fun fault after =>
      after.machine.control = session.machine.control ∧ fault.isDerailment = false

theorem confined_pure (a : α) : Confined (pure a) := fun _ => rfl

theorem Confined.bind {first : Action α} {next : α → Action β} (head : Confined first)
    (tail : ∀ a, Confined (next a)) : Confined (first >>= next) := by
  intro session
  apply ends_bind.mpr
  apply (head session).mono
  · intro a middle kept
    apply (tail a middle).mono
    · intro b after same
      exact same.trans kept
    · intro fault after failed
      exact ⟨failed.1.trans kept, failed.2⟩
  · intro fault after failed
    exact failed

theorem confined_machine : Confined machine := fun _ => rfl

theorem confined_update {change : Machine → Machine}
    (keeps : ∀ machine, (change machine).control = machine.control) : Confined (update change) :=
  fun session => keeps session.machine

theorem confined_emit (event : Event) : Confined (emit event) := fun _ => rfl

theorem confined_fail {fault : Nat → RuntimeFault} (known : ∀ pc, (fault pc).isDerailment = false) :
    Confined (fail fault : Action α) :=
  fun session => ⟨rfl, known session.machine.pc⟩

theorem confined_push (value : Binary64) : Confined (push value) :=
  Confined.bind (confined_update fun _ => rfl) fun _ => confined_emit _

theorem confined_top : Confined top := by
  intro session
  unfold Ends top
  cases session.machine.stack with
  | nil => exact ⟨rfl, rfl⟩
  | cons value rest => rfl

theorem confined_pop : Confined pop :=
  confined_top.bind fun value => Confined.bind (confined_update fun _ => rfl) fun _ =>
    Confined.bind (confined_emit _) fun _ => confined_pure value

theorem confined_register {r : Register} (known : r.InTable) : Confined (register r) := by
  intro session
  obtain ⟨value, found⟩ := session.machine.registers.exists_get? known
  simp only [Ends, register, found]

theorem confined_setRegister {r : Register} (known : r.InTable) (value : Binary64) :
    Confined (setRegister r value) := by
  intro session
  obtain ⟨stored, found⟩ := session.machine.registers.exists_set? known value
  simp only [Ends, setRegister, found]
  rfl

theorem confined_outOfBounds (index : Binary64) : Confined (outOfBounds index : Action α) :=
  fun _ => ⟨rfl, rfl⟩

theorem confined_load (index : Binary64) : Confined (load index) := by
  refine confined_machine.bind fun machine => ?_
  split
  next => exact confined_pure _
  next => exact confined_outOfBounds index

theorem confined_store (index value : Binary64) : Confined (store index value) := by
  refine confined_machine.bind fun machine => ?_
  split
  next slot _ =>
    exact (confined_update fun machine => machine.control_store slot value).bind
      fun _ => confined_pure slot
  next => exact confined_outOfBounds index

theorem confined_sumOf {operand : Operand} (known : operand.InTable) :
    Confined (sumOf operand) := by
  simp only [sumOf]
  split
  next r named => exact (confined_register (known r named)).bind fun base => confined_pure _
  next => exact (confined_pure _).bind fun base => confined_pure _

theorem confined_pushOperand {operand : Operand} (known : operand.InTable) :
    Confined (pushOperand operand) := by
  refine (confined_sumOf known).bind fun sum => ?_
  simp only
  split
  next => exact (confined_load sum).bind confined_push
  next => exact (confined_pure sum).bind confined_push

theorem confined_popOperand {operand : Operand} (known : operand.InTable) :
    Confined (popOperand operand) := by
  unfold popOperand
  split
  next =>
    exact (confined_sumOf known).bind fun index => confined_pop.bind fun value =>
      (confined_store index value).bind fun slot => confined_emit _
  next =>
    split
    next r named =>
      have inside := known r named
      exact confined_pop.bind fun value => (confined_setRegister inside value).bind fun _ =>
        (confined_register inside).bind fun stored => confined_emit _
    next => exact confined_pop.bind fun _ => confined_pure ()

theorem confined_combine (f : Binary64 → Binary64 → Binary64) : Confined (combine f) :=
  confined_pop.bind fun _ => confined_pop.bind fun _ => confined_push _

theorem confined_divide : Confined divide := by
  refine confined_pop.bind fun right => confined_pop.bind fun left => ?_
  split
  next => exact (confined_fail fun _ => rfl).bind fun _ => confined_push _
  next => exact confined_push _

theorem confined_squareRoot : Confined squareRoot := by
  refine confined_pop.bind fun value => ?_
  split
  next => exact (confined_fail fun _ => rfl).bind fun _ => confined_push _
  next => exact confined_push _

theorem confined_output : Confined output := by
  refine confined_top.bind fun value session => ?_
  simp only [Ends]
  cases session.sink.write value.valueText with
  | error reason => exact ⟨rfl, rfl⟩
  | ok sink => rfl

inductive Transfers (length next : Nat) : Instruction → CallStack → Flow → CallStack → Prop
  | on {i : Instruction} {calls : CallStack}
    (stays : i.opcode ∉ [.plain .hlt, .plain .ret, .branch .jmp, .branch .call]) :
    Transfers length next i calls (.next next) calls
  | halt {calls : CallStack} : Transfers length next (.plain .hlt) calls .halt calls
  | jump {op : BranchOp} {target : UInt32} {calls : CallStack} (direct : op ≠ .call)
    (inside : target.toNat ≤ length) :
    Transfers length next (.branch op target) calls (.next target.toNat) calls
  | call {target : UInt32} {calls pushed : CallStack} (inside : target.toNat ≤ length)
    (push : calls.push? (UInt32.ofNat next) = some pushed) :
    Transfers length next (.branch .call target) calls (.next target.toNat) pushed
  | ret {address : UInt32} {calls popped : CallStack}
    (pop : calls.pop? = some (address, popped)) :
    Transfers length next (.plain .ret) calls (.next address.toNat) popped

def Settles (length next : Nat) (i : Instruction) (session : Session) (flow : Flow)
    (after : Session) : Prop :=
  ∃ calls, Transfers length next i session.machine.calls flow calls ∧
    after.machine.control = { session.machine.control with calls }

def Refuses (length : Nat) (i : Instruction) (session : Session) (fault : RuntimeFault)
    (after : Session) : Prop :=
  after.machine.control = session.machine.control ∧
    (fault.isDerailment = true → ∃ target, i.target? = some target ∧ length < target.toNat)

section

variable {length next : Nat} {session : Session}

theorem Confined.ends_bind {first : Action α} {tail : α → Action Flow} {i : Instruction}
    {start : Session} (head : Confined first)
    (kept : start.machine.control = session.machine.control)
    (rest : ∀ a middle, middle.machine.control = session.machine.control →
      (tail a).Ends middle (Settles length next i session) (Refuses length i session)) :
    (first >>= tail).Ends start (Settles length next i session) (Refuses length i session) := by
  refine Action.ends_bind.mpr ((head start).mono ?_ ?_)
  · intro a middle same
    exact rest a middle (same.trans kept)
  · intro fault after failed
    refine ⟨failed.1.trans kept, fun derails => ?_⟩
    rw [failed.2] at derails
    cases derails

theorem Confined.settles {action : Action Unit} {i : Instruction} (confined : Confined action)
    (stays : i.opcode ∉ [.plain .hlt, .plain .ret, .branch .jmp, .branch .call]) :
    (action >>= fun _ => pure (.next next)).Ends session (Settles length next i session)
      (Refuses length i session) :=
  confined.ends_bind rfl fun _ _ kept => ⟨_, .on stays, kept⟩

theorem ends_jump {target : UInt32} {done : Flow → Session → Prop}
    {failed : RuntimeFault → Session → Prop}
    (inside : target.toNat ≤ length → done (.next target.toNat) session)
    (outside : length < target.toNat →
      failed (.invalidJumpTarget target length session.machine.pc) session) :
    (jump length target).Ends session done failed := by
  unfold jump
  split
  next past => exact outside past
  next within => exact inside (Nat.not_lt.mp within)

theorem ends_call {target : UInt32} :
    (call length next target).Ends session (Settles length next (.branch .call target) session)
      (Refuses length (.branch .call target) session) := by
  refine Action.ends_bind.mpr (ends_jump (fun inside => ?_) fun past => ?_)
  · refine Action.ends_bind.mpr ?_
    simp only [Ends, pushCall]
    cases pushed : session.machine.calls.push? (UInt32.ofNat next) with
    | none => exact ⟨rfl, nofun⟩
    | some calls => exact ⟨calls, .call inside pushed, rfl⟩
  · exact ⟨rfl, fun _ => ⟨target, rfl, past⟩⟩

theorem ends_ret :
    ret.Ends session (Settles length next (.plain .ret) session)
      (Refuses length (.plain .ret) session) := by
  refine Action.ends_bind.mpr ?_
  simp only [Ends, popCall]
  cases popped : session.machine.calls.pop? with
  | none => exact ⟨rfl, nofun⟩
  | some latest => exact ⟨latest.2, .ret popped, rfl⟩

theorem ends_jumpWhen {condition : Condition} {target : UInt32} :
    (jumpWhen length next condition target).Ends session
      (Settles length next (.branch (.when condition) target) session)
      (Refuses length (.branch (.when condition) target) session) := by
  refine confined_pop.ends_bind rfl fun right first kept => ?_
  refine confined_pop.ends_bind kept fun left second kept => ?_
  refine (confined_emit _).ends_bind kept fun _ third kept => ?_
  split
  next =>
    refine ends_jump (fun inside => ?_) fun past => ?_
    · exact ⟨_, .jump nofun inside, kept⟩
    · exact ⟨kept, fun _ => ⟨target, rfl, past⟩⟩
  next => exact ⟨_, .on (by simp [Instruction.opcode]), kept⟩

theorem ends_execute {i : Instruction} (known : i.InTable) (length next : Nat)
    (session : Session) :
    (execute length next i).Ends session (Settles length next i session)
      (Refuses length i session) := by
  cases i with
  | push operand => exact (confined_pushOperand known).settles (by simp [Instruction.opcode])
  | pop operand => exact (confined_popOperand known).settles (by simp [Instruction.opcode])
  | plain op =>
    cases op with
    | hlt => exact ⟨_, .halt, rfl⟩
    | add => exact (confined_combine .add).settles (by decide)
    | sub => exact (confined_combine .sub).settles (by decide)
    | mul => exact (confined_combine .mul).settles (by decide)
    | div => exact confined_divide.settles (by decide)
    | sqrt => exact confined_squareRoot.settles (by decide)
    | out => exact confined_output.settles (by decide)
    | ret => exact ends_ret
  | branch op target =>
    cases op with
    | jmp =>
      refine ends_jump (fun inside => ?_) fun past => ?_
      · exact ⟨_, .jump (by decide) inside, rfl⟩
      · exact ⟨rfl, fun _ => ⟨target, rfl, past⟩⟩
    | call => exact ends_call
    | «when» condition => exact ends_jumpWhen

end

end Action

end StackMachine
