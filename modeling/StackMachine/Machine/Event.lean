import StackMachine.Bytecode.Cursor
import StackMachine.Bytecode.Instruction
import StackMachine.Decimal.Basic
import StackMachine.Text.Display

set_option autoImplicit false

namespace StackMachine

structure Sink where
  -- The reason to refuse a line after the lines written before, if there is one.
  refuses : Array String → String → Option String
  lines : Array String

namespace Sink

def unlimited : Sink := ⟨fun _ _ => none, #[]⟩

def bounded (capacity : Nat) (reason : String) : Sink :=
  ⟨fun lines _ => if capacity ≤ lines.size then some reason else none, #[]⟩

def write (sink : Sink) (line : String) : Except String Sink :=
  match sink.refuses sink.lines line with
  | some reason => .error reason
  | none => .ok { sink with lines := sink.lines.push line }

end Sink

inductive RuntimeFault where
  | zeroDivision (pc : Nat)
  | emptyOperandStack (pc : Nat)
  | emptyCallStack (pc : Nat)
  | undefinedCommand (byte : UInt8) (pc : Nat)
  | memoryOutOfBounds (index : Binary64) (size pc : Nat)
  | negativeSqrtArgument (value : Binary64) (pc : Nat)
  | invalidRegister (index : UInt8) (pc : Nat)
  | unexpectedEnd (pc : Nat)
  | invalidJumpTarget (target : UInt32) (length pc : Nat)
  -- As many instructions as the limit allows have been executed.
  | fuelExhausted (limit : Nat)
  | recursionLimitExceeded (limit : Nat)
  -- The output refused a line, for the reason given.
  | output (reason : String)
  deriving DecidableEq

namespace RuntimeFault

def ofDecodeFault : DecodeFault → RuntimeFault
  | .undefinedCommand byte offset => .undefinedCommand byte offset
  | .invalidRegister index offset => .invalidRegister index offset
  | .unexpectedEnd offset => .unexpectedEnd offset

def pc? : RuntimeFault → Option Nat
  | .zeroDivision pc | .emptyOperandStack pc | .emptyCallStack pc | .undefinedCommand _ pc
  | .memoryOutOfBounds _ _ pc | .negativeSqrtArgument _ pc | .invalidRegister _ pc
  | .unexpectedEnd pc | .invalidJumpTarget _ _ pc => some pc
  | .fuelExhausted _ | .recursionLimitExceeded _ | .output _ => none

def message : RuntimeFault → String
  | .zeroDivision pc => s!"division by zero at offset {pc}"
  | .emptyOperandStack pc => s!"operand stack is empty at offset {pc}"
  | .emptyCallStack pc => s!"`ret` with an empty call stack at offset {pc}"
  | .undefinedCommand byte pc => s!"undefined command {byteText byte} at offset {pc}"
  | .memoryOutOfBounds index size pc =>
    s!"memory index {index.text} out of bounds (size {size}) at offset {pc}"
  | .negativeSqrtArgument value pc => s!"square root of negative number {value.text} at offset {pc}"
  | .invalidRegister index pc => s!"invalid register index {index.toNat} at offset {pc}"
  | .unexpectedEnd pc => s!"unexpected end of bytecode at offset {pc}"
  | .invalidJumpTarget target length pc =>
    s!"jump target {target.toNat} is outside the program ({length} bytes) at offset {pc}"
  | .fuelExhausted limit => s!"runtime execution limit exceeded ({limit} instructions)"
  | .recursionLimitExceeded limit => s!"runtime recursion limit exceeded ({limit} frames)"
  | .output reason => "failed to write output: " ++ reason

end RuntimeFault

inductive Event where
  -- An instruction has been decoded and is about to be executed.
  | instruction (pc : Nat) (instruction : Instruction)
  | push (value : Binary64)
  | pop (value : Binary64)
  -- A register holds a value that has been stored.
  | register (register : Register) (value : Binary64)
  | memory (slot : Nat) (value : Binary64)
  | branch (target : UInt32) (taken : Bool)
  -- A call, and the depth it leads to.
  | call (target : UInt32) (depth : Nat)
  | ret (target : UInt32) (depth : Nat)
  | output (value : Binary64)
  -- The operands after an instruction, the top of the stack first.
  | stack (values : List Binary64)
  | halt (pc : Nat)
  | fault (fault : RuntimeFault)
  deriving DecidableEq

inductive Verbosity where
  -- Instructions, branches, calls and output.
  | default
  -- Also each operand pushed or popped, and each store.
  | verbose
  -- Also all operands after each instruction.
  | veryVerbose
  deriving DecidableEq

def splitAtBlank? (text : String) : Option (String × String) :=
  match text.toList.dropWhile (· ≠ ' ') with
  | [] => none
  | _ :: rest => some (String.ofList (text.toList.takeWhile (· ≠ ' ')), String.ofList rest)

structure TraceStyle where
  verbosity : Verbosity
  palette : Palette
  -- Digits of the largest offset that can be shown.
  width : Nat

namespace TraceStyle

def forLength (verbosity : Verbosity) (color : Bool) (length : Nat) : TraceStyle :=
  ⟨verbosity, .ofFlag color, columnWidth (length + 1)⟩

def value (style : TraceStyle) (v : Binary64) : String :=
  style.palette.styled style.palette.green v.valueText

def dimmed (style : TraceStyle) (text : String) : String :=
  style.palette.styled style.palette.dim text

def instructionText (style : TraceStyle) (instruction : Instruction) : String :=
  match splitAtBlank? instruction.text with
  | some (mnemonic, operand) =>
    style.palette.styled style.palette.blue mnemonic ++ " " ++ operand
  | none => style.palette.styled style.palette.blue instruction.text

def instructionLine (style : TraceStyle) (pc : Nat) (instruction : Instruction) : String :=
  style.dimmed (padLeft '0' style.width (toString pc)) ++ "  " ++ style.instructionText instruction

def subLine (style : TraceStyle) (marker content : String) : String :=
  blanks (style.width + 2) ++ marker ++ " " ++ content

def detail (style : TraceStyle) (marker content : String) : List String :=
  if style.verbosity = .default then [] else [style.subLine marker content]

def depthText (style : TraceStyle) (target : UInt32) (depth : Nat) : String :=
  s!"@{target.toNat} " ++ style.dimmed s!"depth {depth}"

def stackText (values : List Binary64) : String :=
  "[" ++ ", ".intercalate (values.reverse.map Binary64.valueText) ++ "]"

def lines (style : TraceStyle) : Event → List String
  | .instruction pc instruction => [style.instructionLine pc instruction]
  | .push v => style.detail "↑" (style.value v)
  | .pop v => style.detail "↓" (style.value v)
  | .register r v => style.detail "←" (r.name ++ " = " ++ style.value v)
  | .memory slot v => style.detail "←" (s!"[{slot}] = " ++ style.value v)
  | .branch target true => [style.subLine "●" s!"taken @{target.toNat}"]
  | .branch _ false => [style.subLine "○" "not taken"]
  | .call target depth => [style.subLine "▶" (style.depthText target depth)]
  | .ret target depth => [style.subLine "◀" (style.depthText target depth)]
  | .output v => [style.subLine "»" (style.value v)]
  | .stack values =>
    if style.verbosity = .veryVerbose then [style.subLine "≡" (style.dimmed (stackText values))]
    else []
  | .halt pc => [style.subLine "■" ("halt " ++ style.dimmed s!"at {pc}")]
  | .fault fault => [style.subLine "✗" (style.palette.styled style.palette.red fault.message)]

def collect (style : TraceStyle) (lines : Array String) (event : Event) : Array String :=
  lines ++ style.lines event

end TraceStyle

end StackMachine
