import StackMachine.Bytecode.Decoding
import StackMachine.Text.Display

set_option autoImplicit false

namespace StackMachine

inductive FileFault where
  | notFound
  | notDirectory
  | isDirectory
  -- Any other failure, in the words of the system.
  | other (reason : String)
  deriving DecidableEq

def FileFault.message : FileFault → String
  | .notFound => "No such file or directory (os error 2)"
  | .notDirectory => "Not a directory (os error 20)"
  | .isDirectory => "Is a directory (os error 21)"
  | .other reason => reason

abbrev Content := Except FileFault (Array UInt8)

structure Header where
  magic : UInt8 × UInt8
  version : UInt8
  bodyLength : UInt64
  deriving DecidableEq

namespace Header

def size : Nat := 11

def mark : UInt8 × UInt8 := (0x47, 0x44)

def ofBody (version : Version) (length : UInt64) : Header := ⟨mark, version.number, length⟩

def ofBytes? : List UInt8 → Option Header
  | first :: second :: version :: rest =>
    if 8 ≤ rest.length then
      some ⟨(first, second), version, UInt64.ofNat (littleEndian (rest.take 8))⟩
    else none
  | _ => none

def missing : String := "header too short"

def bytes (header : Header) : List UInt8 :=
  header.magic.1 :: header.magic.2 :: header.version :: toLittleEndian 8 header.bodyLength.toNat

def hasMark (header : Header) : Bool := header.magic == mark

def hasKnownVersion (header : Header) : Bool := (Version.ofNumber? header.version).isSome

def marksErrors (header : Header) : Bool := header.version == 0

end Header

inductive LoadFault where
  | tooShort (length : Nat)
  | invalidMagic
  | assembledWithErrors
  | unsupportedVersion (version : UInt8)
  | lengthMismatch (announced : UInt64) (actual : Nat)
  | unreadable (fault : FileFault)
  deriving DecidableEq

def LoadFault.message : LoadFault → String
  | .tooShort length => s!"file too small: {length} bytes (minimum {Header.size})"
  | .invalidMagic => "invalid magic: expected GD"
  | .assembledWithErrors => "program was assembled with errors (version 0)"
  | .unsupportedVersion version => s!"unsupported version: {version.toNat} (expected 1..=2)"
  | .lengthMismatch announced actual =>
    s!"length mismatch: header says {announced.toNat} body bytes, got {actual}"
  | .unreadable fault => "io error: " ++ fault.message

structure Program where
  version : Version
  body : Array UInt8
  deriving DecidableEq

namespace Program

def length (program : Program) : Nat := program.body.size

def header (program : Program) : Header := .ofBody program.version (UInt64.ofNat program.length)

def bytes (program : Program) : Array UInt8 := program.header.bytes.toArray ++ program.body

def ofBytes (file : Array UInt8) : Except LoadFault Program :=
  match Header.ofBytes? (file.extract 0 Header.size).toList with
  | none => .error (.tooShort file.size)
  | some header =>
    let actual := file.size - Header.size
    -- A failed assembly is no unsupported version, and its length says nothing.
    if !header.hasMark then .error .invalidMagic
    else if header.marksErrors then .error .assembledWithErrors
    else match Version.ofNumber? header.version with
      | none => .error (.unsupportedVersion header.version)
      | some version =>
        if header.bodyLength.toNat ≠ actual then .error (.lengthMismatch header.bodyLength actual)
        else .ok ⟨version, file.extract Header.size file.size⟩

def ofContent (content : Content) : Except LoadFault Program :=
  match content with
  | .error fault => .error (.unreadable fault)
  | .ok file => ofBytes file

def decodeAt (program : Program) (offset : Nat) : Except DecodeFault (Instruction × Nat) :=
  StackMachine.decodeAt program.version program.body offset

/-- The instructions from an offset on, one behind the other, each with its offset. Bytes that are
none end the walk with their fault. -/
def walkFrom (program : Program) (offset : Nat) : List (Except DecodeFault (Nat × Instruction)) :=
  if offset < program.length then
    match _step : program.decodeAt offset with
    | .error fault => [.error fault]
    | .ok (instruction, next) => .ok (offset, instruction) :: program.walkFrom next
  else []
termination_by program.length - offset
decreasing_by
  have advances := decodeAt_advances _step
  simp only [length] at *
  omega

def walk (program : Program) : List (Except DecodeFault (Nat × Instruction)) := program.walkFrom 0

def instructions (program : Program) : List (Nat × Instruction) :=
  program.walk.filterMap fun
    | .ok item => some item
    | .error _ => none

end Program

namespace Listing

def targets (program : Program) : List UInt32 :=
  program.instructions.filterMap fun (_, i) => i.target?

/-- Whether an offset, in the four bytes of a target, is one of the targets. -/
def isTarget (targets : List UInt32) (offset : Nat) : Bool := targets.contains (UInt32.ofNat offset)

def marker (palette : Palette) (offset : Nat) : String :=
  palette.styled palette.dim s!"@{offset}" ++ ":"

def instructionLine (palette : Palette) (width offset : Nat) (instruction : Instruction) : String :=
  let column := palette.styled palette.dim (padLeft ' ' width (toString offset))
  let line := column ++ "  " ++ palette.styled palette.blue instruction.mnemonic
  match instruction.argument? with
  | some argument => line ++ " " ++ palette.styled palette.green argument
  | none => line

def faultLine (palette : Palette) (fault : DecodeFault) : String :=
  palette.styled palette.red ("!! " ++ fault.message)

def stepLines (palette : Palette) (width : Nat) (targets : List UInt32) :
    Except DecodeFault (Nat × Instruction) → List String
  | .ok (offset, instruction) =>
    (if isTarget targets offset then [marker palette offset] else []) ++
      [instructionLine palette width offset instruction]
  | .error fault => [faultLine palette fault]

def headerLines (palette : Palette) (program : Program) : List String :=
  [palette.styled palette.blue "[header]", s!"version {program.version.number.toNat}",
    s!"length  {program.length}"]

def codeLines (palette : Palette) (program : Program) : List String :=
  palette.styled palette.blue "[code]" ::
    program.walk.flatMap (stepLines palette (columnWidth program.length) (targets program))

def lines (palette : Palette) (program : Program) : List String :=
  headerLines palette program ++ "" :: codeLines palette program

end Listing

def joinLines (lines : List String) : String := String.join (lines.map (· ++ "\n"))

def Program.listing (program : Program) (palette : Palette) : String :=
  joinLines (Listing.lines palette program)

end StackMachine
