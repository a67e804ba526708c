import StackMachine.Text.Source

set_option autoImplicit false

namespace StackMachine

inductive DiagnosticKind where
  | invalidLiteral
  | malformedOperand
  | unknownMnemonic
  | unsupportedInstruction
  | duplicateLabel
  | unresolvedLabel
  | labelOutOfRange
  deriving DecidableEq

structure Note where
  label : String
  span : Span
  deriving DecidableEq

structure Diagnostic where
  kind : DiagnosticKind
  span : Span
  -- The name that is wrong, or how an operand is malformed.
  detail : Option String
  notes : List Note
  deriving DecidableEq

def quoted (text : String) : String := "`" ++ text ++ "`"

namespace DiagnosticKind

def summary : DiagnosticKind → String
  | .invalidLiteral => "invalid numeric literal"
  | .malformedOperand => "malformed operand"
  | .unknownMnemonic => "unknown mnemonic"
  | .unsupportedInstruction => "instruction not supported by the target format"
  | .duplicateLabel => "duplicate label"
  | .unresolvedLabel => "unresolved label"
  | .labelOutOfRange => "label offset out of range"

def describe (kind : DiagnosticKind) (detail : String) : String :=
  match kind with
  | .invalidLiteral => quoted detail ++ " is not a valid number"
  | .unknownMnemonic => "unknown mnemonic " ++ quoted detail
  | .duplicateLabel => "label " ++ quoted detail ++ " is already defined"
  | .unresolvedLabel => "label " ++ quoted detail ++ " is not defined"
  | .labelOutOfRange =>
    "label " ++ quoted detail ++ " is past the last offset a 4-byte target can reach"
  | .malformedOperand | .unsupportedInstruction => kind.summary ++ ": " ++ detail

end DiagnosticKind

namespace Diagnostic

def of (kind : DiagnosticKind) (span : Span) (detail : String) : Diagnostic :=
  ⟨kind, span, some detail, []⟩

def message (d : Diagnostic) : String :=
  match d.detail with
  | some detail => d.kind.describe detail
  | none => d.kind.summary

def noteText (note : Note) : String := "; " ++ note.label ++ " at " ++ note.span.text

def text (d : Diagnostic) : String :=
  d.span.text ++ ": error: " ++ d.message ++ String.join (d.notes.map noteText)

def sortByPosition (diagnostics : List Diagnostic) : List Diagnostic :=
  diagnostics.mergeSort fun a b => decide (a.span.start ≤ b.span.start)

end Diagnostic

structure Remark where
  isPrimary : Bool
  span : Span
  label : String

structure Picture where
  title : String
  path : Option String
  source : String
  remarks : List Remark

namespace Remark

/-- The error itself has no label, for its message stands above. An empty range reaches over one
byte, up to the end of the source. -/
def ofDiagnostic (length : Nat) (d : Diagnostic) : List Remark :=
  let reach (span : Span) : Span := ⟨span.start, max span.stop (min (span.start + 1) length)⟩
  ⟨true, reach d.span, ""⟩ :: d.notes.map fun note => ⟨false, reach note.span, note.label⟩

end Remark

def Diagnostic.picture (path : Option String) (source : String) (d : Diagnostic) : Picture :=
  ⟨d.message, path, source, Remark.ofDiagnostic source.utf8ByteSize d⟩

namespace Report

def offsets (diagnostics : List Diagnostic) : String :=
  "\n".intercalate (diagnostics.map Diagnostic.text)

def compactLine (path : Option String) (index : LineIndex) (d : Diagnostic) : String :=
  let place := match path with
    | some path => path ++ ":"
    | none => ""
  s!"{place}line {index.line d.span.start}: error: {d.message}\n"

def compact (path : Option String) (source : String) (diagnostics : List Diagnostic) : String :=
  let index := LineIndex.ofText source
  String.join (diagnostics.map (compactLine path index))

def snippets (render : Picture → Except String String) (path : Option String) (source : String)
    (diagnostics : List Diagnostic) : Except String String :=
  (diagnostics.mapM fun d => render (d.picture path source)).map "\n".intercalate

end Report

end StackMachine
