import StackMachine.Binary64.Basic

set_option autoImplicit false

namespace StackMachine

inductive Version where
  | one
  | two
  deriving DecidableEq, Inhabited

namespace Version

def number : Version → UInt8
  | .one => 1
  | .two => 2

def ofNumber? (number : UInt8) : Option Version :=
  if number = 1 then some .one else if number = 2 then some .two else none

theorem ofNumber?_eq_some_iff {number : UInt8} {version : Version} :
    ofNumber? number = some version ↔ number = version.number := by
  cases version <;> simp only [ofNumber?, Version.number] <;> grind

end Version

inductive Condition where
  | above
  | aboveOrEqual
  | below
  | belowOrEqual
  | equal
  | notEqual
  deriving DecidableEq

namespace Condition

def close (left right tolerance : Binary64) : Bool := (left.sub right).abs.lt tolerance

def holds (condition : Condition) (left right tolerance : Binary64) : Bool :=
  let equal := close left right tolerance
  match condition with
  | .above => !equal && right.lt left
  | .aboveOrEqual => equal || right.lt left
  | .below => !equal && left.lt right
  | .belowOrEqual => equal || left.lt right
  | .equal => equal
  | .notEqual => !equal

end Condition

inductive PlainOp where
  | hlt
  | add
  | sub
  | mul
  | div
  | out
  | ret
  | sqrt
  deriving DecidableEq

inductive BranchOp where
  | call
  | jmp
  | when (condition : Condition)
  deriving DecidableEq

inductive Opcode where
  | plain (op : PlainOp)
  | push
  | pop
  | branch (op : BranchOp)
  deriving DecidableEq

def BranchOp.mnemonic : BranchOp → String
  | .call => "call"
  | .jmp => "jmp"
  | .when .above => "ja"
  | .when .aboveOrEqual => "jae"
  | .when .below => "jb"
  | .when .belowOrEqual => "jbe"
  | .when .equal => "je"
  | .when .notEqual => "jne"

def PlainOp.mnemonic : PlainOp → String
  | .hlt => "hlt"
  | .add => "add"
  | .sub => "sub"
  | .mul => "mul"
  | .div => "div"
  | .out => "out"
  | .ret => "ret"
  | .sqrt => "sqrt"

namespace Opcode

def code : Opcode → UInt8
  | .plain .hlt => 0
  | .push => 1
  | .plain .add => 2
  | .plain .sub => 3
  | .plain .mul => 4
  | .plain .div => 5
  | .plain .out => 6
  | .pop => 8
  | .branch .call => 9
  | .plain .ret => 10
  | .branch .jmp => 11
  | .plain .sqrt => 12
  | .branch (.when .above) => 13
  | .branch (.when .aboveOrEqual) => 14
  | .branch (.when .below) => 15
  | .branch (.when .belowOrEqual) => 16
  | .branch (.when .equal) => 17
  | .branch (.when .notEqual) => 18

def all : List Opcode :=
  [.plain .hlt, .push, .plain .add, .plain .sub, .plain .mul, .plain .div, .plain .out, .pop,
    .branch .call, .plain .ret, .branch .jmp, .plain .sqrt, .branch (.when .above),
    .branch (.when .aboveOrEqual), .branch (.when .below), .branch (.when .belowOrEqual),
    .branch (.when .equal), .branch (.when .notEqual)]

theorem mem_all (op : Opcode) : op ∈ all := by
  rcases op with (_ | _) | _ | _ | (_ | _ | (_ | _)) <;> decide

def mnemonic : Opcode → String
  | .plain op => op.mnemonic
  | .push => "push"
  | .pop => "pop"
  | .branch op => op.mnemonic

def ofCode? (code : UInt8) : Option Opcode := all.find? fun op => op.code == code

def ofMnemonic? (text : String) : Option Opcode :=
  all.find? fun op => op.mnemonic == text.map Char.toLower

def hasOperand : Opcode → Bool
  | .push | .pop => true
  | _ => false

def hasTarget : Opcode → Bool
  | .branch _ => true
  | _ => false

def isSupported (op : Opcode) : Version → Bool
  | .one => decide (op.code ≤ Opcode.code (.plain .out))
  | .two => true

end Opcode

structure Mode where
  literal : Bool
  register : Bool
  memory : Bool
  deriving DecidableEq, Inhabited

namespace Mode

def literalBit : UInt8 := 0x20
def registerBit : UInt8 := 0x40
def memoryBit : UInt8 := 0x80

def empty : Mode := ⟨false, false, false⟩

def isEmpty (mode : Mode) : Bool := mode == empty

def ofByte (byte : UInt8) : Mode :=
  ⟨byte &&& literalBit != 0, byte &&& registerBit != 0, byte &&& memoryBit != 0⟩

def bits (mode : Mode) : UInt8 :=
  (if mode.literal then literalBit else 0) ||| (if mode.register then registerBit else 0) |||
    (if mode.memory then memoryBit else 0)

/-- Whether an operation can have the parts. A value is a register, a literal or their sum; without
memory, only a register can take a popped value. -/
def validFor (mode : Mode) : Opcode → Bool
  | .push => mode.literal || mode.register
  | .pop => if mode.memory then mode.literal || mode.register else !mode.literal
  | _ => mode.isEmpty

end Mode

structure OpByte where
  opcode : Opcode
  mode : Mode
  deriving DecidableEq

namespace OpByte

def operationBits : UInt8 := 0x1f

def ofByte? (byte : UInt8) : Option OpByte :=
  (Opcode.ofCode? (byte &&& operationBits)).map fun opcode => ⟨opcode, Mode.ofByte byte⟩

def toByte (op : OpByte) : UInt8 := op.opcode.code ||| op.mode.bits

end OpByte

end StackMachine
