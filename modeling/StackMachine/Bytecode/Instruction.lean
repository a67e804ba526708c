import StackMachine.Bytecode.Opcode
import StackMachine.Decimal.Basic

set_option autoImplicit false

namespace StackMachine

inductive Bank where
  | address
  | value
  deriving DecidableEq

/-- A place in a bank. Only slots below four name a register. -/
structure Register where
  bank : Bank
  slot : Nat
  deriving DecidableEq

namespace Register

def table : List (String × Register) :=
  [("rax", ⟨.address, 0⟩), ("rbx", ⟨.address, 1⟩), ("rcx", ⟨.address, 2⟩), ("rdx", ⟨.address, 3⟩),
    ("rex", ⟨.value, 0⟩), ("rfx", ⟨.value, 1⟩), ("rgx", ⟨.value, 2⟩), ("rhx", ⟨.value, 3⟩)]

def ofIndex? (index : UInt8) : Option Register :=
  if index = 0 then none else table[index.toNat - 1]?.map Prod.snd

def ofName? (name : String) : Option Register := table.lookup name

def index (r : Register) : UInt8 :=
  match table.findIdx? fun entry => entry.2 == r with
  | some place => UInt8.ofNat (place + 1)
  | none => 0

def name (r : Register) : String :=
  match table.find? fun entry => entry.2 == r with
  | some entry => entry.1
  | none => "r??"

def isAddress (r : Register) : Bool := r.bank == .address

end Register

/-- What `push` reads and `pop` writes: the sum of its parts, or the memory cell at that index.
Without parts it is `void`, which takes a popped value and drops it. -/
structure Operand where
  register : Option Register
  literal : Option Binary64
  inMemory : Bool
  deriving DecidableEq

namespace Operand

def void : Operand := ⟨none, none, false⟩

def ofLiteral (value : Binary64) : Operand := ⟨none, some value, false⟩

def isVoid (operand : Operand) : Bool := operand.register.isNone && operand.literal.isNone

def mode (operand : Operand) : Mode :=
  ⟨operand.literal.isSome, operand.register.isSome, operand.inMemory⟩

def size (operand : Operand) : Nat :=
  (if operand.register.isSome then 1 else 0) + (if operand.literal.isSome then 8 else 0)

def sumText : Option Register → Option Binary64 → String
  | some register, some value => register.name ++ " + " ++ value.valueText
  | some register, none => register.name
  | none, some value => value.valueText
  | none, none => ""

def text (operand : Operand) : String :=
  if operand.isVoid then "void"
  else
    let sum := sumText operand.register operand.literal
    if operand.inMemory then "[" ++ sum ++ "]" else sum

end Operand

inductive Instruction where
  | plain (op : PlainOp)
  | push (operand : Operand)
  | pop (operand : Operand)
  | branch (op : BranchOp) (target : UInt32)
  deriving DecidableEq

namespace Instruction

def opcode : Instruction → Opcode
  | .plain op => .plain op
  | .push _ => .push
  | .pop _ => .pop
  | .branch op _ => .branch op

def mnemonic (instruction : Instruction) : String := instruction.opcode.mnemonic

def target? : Instruction → Option UInt32
  | .branch _ target => some target
  | _ => none

def argument? : Instruction → Option String
  | .plain _ => none
  | .push operand | .pop operand => some operand.text
  | .branch _ target => some s!"@{target.toNat}"

def text (instruction : Instruction) : String :=
  match instruction.argument? with
  | some argument => instruction.mnemonic ++ " " ++ argument
  | none => instruction.mnemonic

/-- Whether a format can hold the instruction. The first one pushes nothing but literals. -/
def isSupported : Instruction → Version → Bool
  | .push operand, .one => operand.mode == ⟨true, false, false⟩
  | instruction, version => instruction.opcode.isSupported version

def size : Instruction → Version → Nat
  | .push _, .one => 9
  | .push operand, .two => 1 + operand.size
  | .pop operand, _ => 1 + operand.size
  | .branch _ _, _ => 5
  | .plain _, _ => 1

end Instruction

end StackMachine
