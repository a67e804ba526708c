import StackMachine.Bytecode.Program
import StackMachine.Machine.Basic
import StackMachine.Machine.Event

set_option autoImplicit false

namespace StackMachine

/-- A machine at work: its state, its output, and the events of the instruction at hand. -/
structure Session where
  machine : Machine
  sink : Sink
  events : List Event

abbrev Action := EStateM RuntimeFault Session

inductive Flow where
  | next (pc : Nat)
  | halt
  deriving DecidableEq

/-- Numbers closer than this are equal to a conditional jump, and to zero for a division; a square
root takes numbers that are negative by no more. It is the number nearest to 0.000001. -/
def tolerance : Binary64 := ⟨0x3eb0c6f7a0b5ed8d⟩

theorem tolerance_eq : tolerance = Decimal.nearest ⟨false, 1, -6⟩ := by decide +kernel

namespace Action

def pc : Action Nat := fun session => .ok session.machine.pc session

def machine : Action Machine := fun session => .ok session.machine session

def update (change : Machine → Machine) : Action Unit := fun session =>
  .ok () { session with machine := change session.machine }

def emit (event : Event) : Action Unit := fun session =>
  .ok () { session with events := session.events ++ [event] }

def fail {α : Type} (fault : Nat → RuntimeFault) : Action α := fun session =>
  .error (fault session.machine.pc) session

def push (value : Binary64) : Action Unit := do
  update fun machine => { machine with stack := value :: machine.stack }
  emit (.push value)

def top : Action Binary64 := fun session =>
  match session.machine.stack with
  | [] => .error (.emptyOperandStack session.machine.pc) session
  | value :: _ => .ok value session

def pop : Action Binary64 := do
  let value ← top
  update fun machine => { machine with stack := machine.stack.tail }
  emit (.pop value)
  return value

def register (r : Register) : Action Binary64 := fun session =>
  match session.machine.registers.get? r with
  | some value => .ok value session
  | none => .error (.invalidRegister r.index session.machine.pc) session

def setRegister (r : Register) (value : Binary64) : Action Unit := fun session =>
  match session.machine.registers.set? r value with
  | some registers => .ok () { session with machine := { session.machine with registers } }
  | none => .error (.invalidRegister r.index session.machine.pc) session

def outOfBounds {α : Type} (index : Binary64) : Action α := fun session =>
  .error (.memoryOutOfBounds index session.machine.memory.size session.machine.pc) session

def load (index : Binary64) : Action Binary64 := do
  match (← machine).memory.load? index with
  | some value => return value
  | none => outOfBounds index

def store (index value : Binary64) : Action Nat := do
  match (← machine).memory.slot? index with
  | some slot =>
    update fun machine => { machine with memory := machine.memory.set slot value }
    return slot
  | none => outOfBounds index

def sumOf (operand : Operand) : Action Binary64 := do
  let base ← match operand.register with
    | some r => register r
    | none => pure .zero
  return base.add (operand.literal.getD .zero)

def pushOperand (operand : Operand) : Action Unit := do
  let sum ← sumOf operand
  let value ← if operand.inMemory then load sum else pure sum
  push value

def popToMemory (operand : Operand) : Action Unit := do
  -- The index comes first: a register that does not exist leaves the operand in place.
  let index ← sumOf operand
  let value ← pop
  let slot ← store index value
  emit (.memory slot value)

def popToRegister (r : Register) : Action Unit := do
  let value ← pop
  setRegister r value
  let stored ← register r
  emit (.register r stored)

def popOperand (operand : Operand) : Action Unit :=
  if operand.inMemory then popToMemory operand
  else match operand.register with
    | some r => popToRegister r
    | none => do
      let _ ← pop
      return ()

def combine (f : Binary64 → Binary64 → Binary64) : Action Unit := do
  let right ← pop
  let left ← pop
  push (f left right)

def divide : Action Unit := do
  let right ← pop
  let left ← pop
  -- Both operands are gone when the divisor is refused.
  if right.abs.lt tolerance then fail .zeroDivision
  push (left.div right)

def squareRoot : Action Unit := do
  let value ← pop
  if value.lt tolerance.neg then fail (.negativeSqrtArgument value)
  push value.clampBelow.sqrt

def output : Action Unit := do
  let value ← top
  fun session => match session.sink.write value.valueText with
    | .error reason => .error (.output reason) session
    | .ok sink => .ok () { session with sink, events := session.events ++ [.output value] }

def jump (length : Nat) (target : UInt32) : Action Flow :=
  if length < target.toNat then fail (.invalidJumpTarget target length)
  else return .next target.toNat

def jumpWhen (length next : Nat) (condition : Condition) (target : UInt32) : Action Flow := do
  let right ← pop
  let left ← pop
  let taken := condition.holds left right tolerance
  emit (.branch target taken)
  if taken then jump length target else return .next next

def pushCall (address : UInt32) : Action Nat := fun session =>
  match session.machine.calls.push? address with
  | some calls => .ok calls.depth { session with machine := { session.machine with calls } }
  | none => .error (.recursionLimitExceeded session.machine.calls.limit) session

def call (length next : Nat) (target : UInt32) : Action Flow := do
  -- A call out of the program leaves no frame behind.
  let flow ← jump length target
  let depth ← pushCall (UInt32.ofNat next)
  emit (.call target depth)
  return flow

def popCall : Action (UInt32 × Nat) := fun session =>
  match session.machine.calls.pop? with
  | some (address, calls) =>
    .ok (address, calls.depth) { session with machine := { session.machine with calls } }
  | none => .error (.emptyCallStack session.machine.pc) session

def ret : Action Flow := do
  let (address, depth) ← popCall
  emit (.ret address depth)
  return .next address.toNat

def execute (length next : Nat) : Instruction → Action Flow
  | .plain .hlt => return .halt
  | .plain .add => do combine .add; return .next next
  | .plain .sub => do combine .sub; return .next next
  | .plain .mul => do combine .mul; return .next next
  | .plain .div => do divide; return .next next
  | .plain .sqrt => do squareRoot; return .next next
  | .plain .out => do output; return .next next
  | .plain .ret => ret
  | .push operand => do pushOperand operand; return .next next
  | .pop operand => do popOperand operand; return .next next
  | .branch .jmp target => jump length target
  | .branch .call target => call length next target
  | .branch (.when condition) target => jumpWhen length next condition target

end Action

inductive Progress where
  | running
  | halted
  deriving DecidableEq

namespace Action

def consumeFuel : Action Unit := fun session =>
  match session.machine.fuel with
  | none => .ok () session
  | some 0 => .error (.fuelExhausted (session.machine.fuelLimit.getD 0)) session
  | some (left + 1) => .ok () { session with machine := { session.machine with fuel := some left } }

def fetch (program : Program) : Action (Instruction × Nat) := fun session =>
  match program.decodeAt session.machine.pc with
  | .ok decoded => .ok decoded session
  | .error fault => .error (.ofDecodeFault fault) session

def emitStack : Action Unit := fun session =>
  .ok () { session with events := session.events ++ [.stack session.machine.stack] }

def finish : Flow → Action Progress
  | .next pc => do
    update fun machine => { machine with pc }
    return .running
  | .halt => do
    emit (.halt (← pc))
    return .halted

def step (program : Program) : Action Progress := do
  consumeFuel
  let (instruction, next) ← fetch program
  emit (.instruction (← pc) instruction)
  -- A decoded instruction counts as a step even if it then fails.
  update fun machine => { machine with steps := machine.steps + 1 }
  let flow ← execute program.length next instruction
  emitStack
  finish flow

/-- One instruction, or the halt at the end of the program, which costs no fuel. -/
def turn (program : Program) : Action Progress := do
  if (← pc) = program.length then finish .halt else step program

end Action

structure Outcome (τ : Type) where
  machine : Machine
  sink : Sink
  fault : Option RuntimeFault
  trace : τ

def runFrom {τ : Type} (program : Program) (tracer : τ → Event → τ) :
    (bound : Nat) → Machine → Sink → τ → Option (Outcome τ)
  | 0, _, _, _ => none
  | bound + 1, machine, sink, trace =>
    match Action.turn program ⟨machine, sink, []⟩ with
    | .ok .running session =>
      runFrom program tracer bound session.machine session.sink (session.events.foldl tracer trace)
    | .ok .halted session =>
      some ⟨session.machine, session.sink, none, session.events.foldl tracer trace⟩
    | .error fault session =>
      some ⟨session.machine, session.sink, some fault,
        tracer (session.events.foldl tracer trace) (.fault fault)⟩

def Machine.run {τ : Type} (machine : Machine) (bound : Nat) (program : Program) (sink : Sink)
    (tracer : τ → Event → τ) (start : τ) : Option (Outcome τ) :=
  runFrom program tracer bound machine.reset sink start

def ignoreEvents (_ : Unit) (_ : Event) : Unit := ()

def collectEvents (events : Array Event) (event : Event) : Array Event := events.push event

end StackMachine
