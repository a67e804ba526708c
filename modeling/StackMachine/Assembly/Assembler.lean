import StackMachine.Assembly.Parser
import StackMachine.Assembly.Statement
import StackMachine.Bytecode.Decoding
import StackMachine.Bytecode.Program
import StackMachine.Text.Source

set_option autoImplicit false

namespace StackMachine

structure Label where
  offset : UInt32
  -- Where the name was declared.
  span : Span
  deriving DecidableEq

structure LabelTable where
  entries : List (String × Label)
  deriving DecidableEq

namespace LabelTable

def empty : LabelTable := ⟨[]⟩

def get? (table : LabelTable) (name : String) : Option Label := table.entries.lookup name

def resolve? (table : LabelTable) (name : String) : Option UInt32 :=
  (table.get? name).map Label.offset

def declare (table : LabelTable) (name : String) (label : Label) : Except Label LabelTable :=
  match table.get? name with
  | some first => .error first
  | none => .ok ⟨table.entries ++ [(name, label)]⟩

def size (table : LabelTable) : Nat := table.entries.length

def isEmpty (table : LabelTable) : Bool := table.entries.isEmpty

def duplicateMessage (first : Label) : String :=
  s!"label already declared at offset {first.offset.toNat}"

end LabelTable

namespace Statement

def size (version : Version) (statement : Statement) : Nat :=
  match statement.kind with
  | .label _ => 0
  | .instruction instruction => instruction.size version
  | .branch op _ _ => (Instruction.branch op 0).size version

end Statement

structure LabelPass where
  labels : LabelTable
  diagnostics : List Diagnostic

namespace LabelPass

def declare (labels : LabelTable) (name : String) (offset : Nat) (span : Span) : LabelPass :=
  if UInt32.size ≤ offset then ⟨labels, [.of .labelOutOfRange span name]⟩
  else match labels.declare name ⟨UInt32.ofNat offset, span⟩ with
    | .ok declared => ⟨declared, []⟩
    | .error first =>
      ⟨labels, [⟨.duplicateLabel, span, some name, [⟨"first defined here", first.span⟩]⟩]⟩

def ofStatement (labels : LabelTable) (offset : Nat) (statement : Statement) : LabelPass :=
  match statement.kind with
  | .label name => declare labels name offset statement.span
  | _ => ⟨labels, []⟩

def continueFrom (version : Version) (labels : LabelTable) (offset : Nat) :
    List Statement → LabelPass
  | [] => ⟨labels, []⟩
  | statement :: rest =>
    let here := ofStatement labels offset statement
    let after := LabelPass.continueFrom version here.labels (offset + statement.size version) rest
    ⟨after.labels, here.diagnostics ++ after.diagnostics⟩

end LabelPass

def collectLabels (version : Version) (statements : List Statement) : LabelPass :=
  .continueFrom version .empty 0 statements

structure Encoded where
  bytes : List UInt8
  diagnostics : List Diagnostic

namespace Encoded

def nameOf (instruction : Instruction) : String :=
  if instruction.target?.isSome then instruction.mnemonic else instruction.text

/-- An instruction that the format does not have is reported and leaves zeros in its place, so that
the offsets stay as they were counted. -/
def ofInstruction (version : Version) (span : Span) (instruction : Instruction) : Encoded :=
  if instruction.isSupported version then ⟨instruction.bytes version, []⟩
  else ⟨List.replicate (instruction.size version) 0,
    [.of .unsupportedInstruction span (quoted (nameOf instruction) ++ " needs format version 2")]⟩

def ofStatement (version : Version) (labels : LabelTable) (statement : Statement) : Encoded :=
  match statement.kind with
  | .label _ => ⟨[], []⟩
  | .instruction instruction => ofInstruction version statement.span instruction
  | .branch op label labelSpan =>
    match labels.resolve? label with
    | some target => ofInstruction version statement.span (.branch op target)
    | none =>
      -- The placeholder may itself be unsupported, which is reported behind the unknown label.
      let encoded := ofInstruction version statement.span (.branch op 0)
      { encoded with diagnostics := .of .unresolvedLabel labelSpan label :: encoded.diagnostics }

end Encoded

def encode (version : Version) (labels : LabelTable) (statements : List Statement) : Encoded :=
  let encoded := statements.map (Encoded.ofStatement version labels)
  ⟨encoded.flatMap Encoded.bytes, encoded.flatMap Encoded.diagnostics⟩

structure SinglePass where
  labels : LabelTable
  encoded : Encoded

namespace SinglePass

def continueFrom (version : Version) (labels : LabelTable) (offset : Nat) :
    List Statement → SinglePass
  | [] => ⟨labels, ⟨[], []⟩⟩
  | statement :: rest =>
    let declared := LabelPass.ofStatement labels offset statement
    let here := Encoded.ofStatement version labels statement
    let after := SinglePass.continueFrom version declared.labels (offset + here.bytes.length) rest
    ⟨after.labels, here.bytes ++ after.encoded.bytes,
      declared.diagnostics ++ here.diagnostics ++ after.encoded.diagnostics⟩

end SinglePass

def encodeSinglePass (version : Version) (statements : List Statement) : SinglePass :=
  .continueFrom version .empty 0 statements

inductive Pipeline where
  | twoPass
  | singlePass
  deriving DecidableEq

structure Assembly where
  program : Program
  labels : LabelTable
  deriving DecidableEq

structure Emitted where
  labels : LabelTable
  bytes : List UInt8
  diagnostics : List Diagnostic

def Emitted.ofStatements (version : Version) (pipeline : Pipeline) (statements : List Statement) :
    Emitted :=
  match pipeline with
  | .twoPass =>
    let pass := collectLabels version statements
    let encoded := encode version pass.labels statements
    ⟨pass.labels, encoded.bytes, pass.diagnostics ++ encoded.diagnostics⟩
  | .singlePass =>
    let pass := encodeSinglePass version statements
    ⟨pass.labels, pass.encoded.bytes, pass.encoded.diagnostics⟩

def Parsed.assembled (version : Version) (pipeline : Pipeline) (parsed : Parsed) :
    Except (List Diagnostic) Assembly :=
  let emitted := Emitted.ofStatements version pipeline parsed.statements
  match parsed.diagnostics ++ emitted.diagnostics with
  | [] => .ok ⟨⟨version, emitted.bytes.toArray⟩, emitted.labels⟩
  | diagnostics => .error diagnostics

/-- What `assemble?` gives where no offset wraps. -/
def assemble (version : Version) (pipeline : Pipeline) (source : String) :
    Except (List Diagnostic) Assembly := (parse source).assembled version pipeline

def assemble? (version : Version) (pipeline : Pipeline) (source : String) :
    Option (Except (List Diagnostic) Assembly) :=
  (parse? source).map (Parsed.assembled version pipeline)

def assemblyFailure (diagnostics : List Diagnostic) : String :=
  s!"assembly failed with {diagnostics.length} errors"

end StackMachine
