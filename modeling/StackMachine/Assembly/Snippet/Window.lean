import StackMachine.Assembly.Snippet.Mark

set_option autoImplicit false

namespace StackMachine

namespace Snippet

def terminalColumns : Nat := 140

def ellipsis : List Char := ['.', '.', '.']

def clearance : Nat := 6

def deepIndent : Nat := 20

def keptIndent : Nat := 16

structure Extent where
  indent : Nat
  markLeft : Nat
  markRight : Nat
  -- The end of the labels that stand beside their marks.
  labelRight : Nat
  -- Bytes of the longest line.
  lineLength : Nat

namespace Extent

def least : List Nat → Nat
  | [] => 0
  | first :: rest => rest.foldl min first

def greatest (values : List Nat) : Nat := values.foldl max 0

def indentOf? (line : SourceLine) : Option Nat :=
  if line.chars.all isWhiteSpace then none
  else
    let indent := line.chars.takeWhile isWhiteSpace
    some (indent.length + 3 * indent.count '\t')

def labelEnd (mark : Mark) : Nat :=
  mark.stop.column + if mark.hasLabel then textWidth mark.label + 1 else 0

def ofLines (lines : List MarkedLine) : Extent :=
  let marks := lines.flatMap MarkedLine.marks
  let ends := marks.flatMap fun mark => [mark.start.column, mark.stop.column]
  let indent := least (lines.filterMap fun marked => indentOf? marked.line)
  ⟨min indent (least ends), least ends, greatest ends, greatest (marks.map labelEnd),
    greatest (lines.map fun marked => byteLength marked.line.chars)⟩

end Extent

structure Window where
  left : Nat
  right : Nat
  width : Nat

namespace Window

/-- The window for lines that are too wide: as much as fits behind the indentation, or around the
marks with their labels, or around the marks. -/
def narrow (width : Nat) (extent : Extent) : Window :=
  let indent := extent.indent - clearance
  let left := extent.markLeft - clearance
  let right := extent.markRight + clearance
  let labelRight := extent.labelRight + clearance
  if labelRight - indent ≤ width then ⟨indent, indent + width, width⟩
  else if labelRight - left ≤ width then
    let start := left - (width - (labelRight - left)) / 2
    ⟨start, start + width, width⟩
  else if right - left ≤ width then
    let start := left - (width - (right - left)) / 5 * 2
    ⟨start, start + width, width⟩
  else ⟨left, right, width⟩

def ofExtent (width : Nat) (extent : Extent) : Window :=
  let indent := extent.indent - clearance
  let left := if deepIndent < indent then indent - keptIndent else 0
  if width < extent.lineLength - left then narrow width extent
  else ⟨left, max extent.lineLength left, width⟩

def isCutLeft (window : Window) : Bool := decide (0 < window.left)

def leftOf (window : Window) (columns : Nat) : Nat := min window.left columns

def rightOf (window : Window) (columns : Nat) : Nat :=
  if columns - window.left ≤ window.width then columns else min columns window.right

end Window

def skipColumns (left : Nat) : (skipped : Nat) → List Char → Nat × List Char
  | skipped, [] => (skipped, [])
  | skipped, c :: rest =>
    if skipped < left then skipColumns left (skipped + charWidth c) rest else (skipped, c :: rest)

def takeColumns : (room : Nat) → List Char → List Char
  | _, [] => []
  | room, c :: rest =>
    if charWidth c ≤ room then c :: takeColumns (room - charWidth c) rest else []

def skipCovered : (covered : Nat) → List Char → Nat × List Char
  | covered, [] => (covered, [])
  | covered, c :: rest =>
    let columns := covered + charWidth c
    if ellipsis.length ≤ columns then (columns, rest) else skipCovered columns rest

structure Excerpt where
  -- Columns that an ellipsis covers at the start.
  covered : Nat
  -- What is shown behind them.
  text : List Char
  -- Where another ellipsis begins, if the line goes on.
  trailing : Option Nat
  -- The column of the line that the first place shows.
  left : Nat

def Excerpt.ofChars (window : Window) (chars : List Char) : Excerpt :=
  let columns := textWidth chars
  let left := window.leftOf columns
  let right := window.rightOf columns
  let (skipped, rest) := skipColumns left 0 chars
  let code := takeColumns (right - left) rest
  -- A wide character may be covered only in part, and then all of it is.
  let (covered, text) := if window.isCutLeft then skipCovered 0 code else (0, code)
  let kept := (skipCovered 0 code.reverse).2.length
  let trailing :=
    if right < columns then some (covered + text.length - (code.length - kept)) else none
  ⟨covered, text, trailing, max left skipped - (covered - ellipsis.length)⟩

end Snippet

end StackMachine
