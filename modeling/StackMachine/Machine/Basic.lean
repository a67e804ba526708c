import StackMachine.Binary64.Basic
import StackMachine.Bytecode.Instruction

set_option autoImplicit false

namespace StackMachine

structure Registers where
  address : Vector Int64 4
  value : Vector Binary64 4
  deriving DecidableEq

namespace Registers

def zeroed : Registers := ⟨.replicate 4 0, .replicate 4 .zero⟩

def get? (registers : Registers) (r : Register) : Option Binary64 :=
  match r.bank with
  | .address => registers.address[r.slot]?.map fun n => .ofInt n.toInt
  | .value => registers.value[r.slot]?

def set? (registers : Registers) (r : Register) (value : Binary64) : Option Registers :=
  if r.slot < 4 then
    match r.bank with
    | .address =>
      some { registers with address := registers.address.setIfInBounds r.slot value.toInt64 }
    | .value => some { registers with value := registers.value.setIfInBounds r.slot value }
  else none

end Registers

structure Memory where
  cells : Array Binary64
  deriving DecidableEq

namespace Memory

def defaultSize : Nat := 4096

def zeroed (size : Nat) : Memory := ⟨.replicate size .zero⟩

def size (memory : Memory) : Nat := memory.cells.size

/-- The bounds are compared as numbers, the size after its conversion to one. -/
def slot? (memory : Memory) (index : Binary64) : Option Nat :=
  if index.isFinite then
    let place := index.truncate
    if !place.lt .zero && place.lt (.ofInt memory.size) then some place.toUInt64.toNat else none
  else none

def load? (memory : Memory) (index : Binary64) : Option Binary64 :=
  (memory.slot? index).bind fun slot => memory.cells[slot]?

def set (memory : Memory) (slot : Nat) (value : Binary64) : Memory :=
  ⟨memory.cells.setIfInBounds slot value⟩

def store? (memory : Memory) (index value : Binary64) : Option (Memory × Nat) :=
  (memory.slot? index).map fun slot => (memory.set slot value, slot)

end Memory

structure CallStack where
  -- The latest call first.
  frames : List UInt32
  limit : Nat
  depth : Nat
  depth_eq : depth = frames.length
  deriving DecidableEq

namespace CallStack

@[ext] theorem ext {a b : CallStack} (frames : a.frames = b.frames) (limit : a.limit = b.limit) :
    a = b := by
  have left := a.depth_eq
  have right := b.depth_eq
  cases a
  cases b
  simp_all

def empty (limit : Nat) : CallStack := ⟨[], limit, 0, rfl⟩

def isEmpty (calls : CallStack) : Bool := calls.frames.isEmpty

def push? (calls : CallStack) (address : UInt32) : Option CallStack :=
  if calls.depth < calls.limit then
    some ⟨address :: calls.frames, calls.limit, calls.depth + 1, by simp [calls.depth_eq]⟩
  else none

def pop? (calls : CallStack) : Option (UInt32 × CallStack) :=
  match found : calls.frames with
  | [] => none
  | address :: rest =>
    some (address, ⟨rest, calls.limit, calls.depth - 1, by simp [calls.depth_eq, found]⟩)

def clear (calls : CallStack) : CallStack := empty calls.limit

end CallStack

structure Limits where
  -- How many instructions a run may execute.
  fuel : Option Nat
  recursion : Nat
  deriving DecidableEq

def Limits.default : Limits := ⟨none, 65536⟩

structure Machine where
  fuelLimit : Option Nat
  -- The offset of the instruction at hand.
  pc : Nat
  -- Instructions that may still be executed.
  fuel : Option Nat
  steps : Nat
  -- The operands, the top of the stack first.
  stack : List Binary64
  registers : Registers
  memory : Memory
  calls : CallStack
  deriving DecidableEq

namespace Machine

def zeroed (memory : Nat) (limits : Limits) : Machine :=
  ⟨limits.fuel, 0, limits.fuel, 0, [], .zeroed, .zeroed memory, .empty limits.recursion⟩

def reset (machine : Machine) : Machine :=
  { machine with
    pc := 0
    fuel := machine.fuelLimit
    steps := 0
    stack := []
    registers := .zeroed
    memory := .zeroed machine.memory.size
    calls := machine.calls.clear }

end Machine

end StackMachine
