import StackMachine.Assembly.Diagnostic
import StackMachine.Text.Characters
import StackMachine.Text.Display
import StackMachine.Text.Source

set_option autoImplicit false

namespace StackMachine

namespace Snippet

/-- The characters that show one character of the source. A tab takes four columns, a control
character its picture, a character that reverses the flow of text a replacement, and a joiner
nothing. -/
def shown (c : Char) : List Char :=
  if c = '\t' then [' ', ' ', ' ', ' ']
  else if c = '\n' then [c]
  else if c.toNat < 0x20 then [Char.ofNat (0x2400 + c.toNat)]
  else if c.toNat = 0x7f then ['\u2421']
  else if c.toNat = 0x200d then []
  else if 0x202a ≤ c.toNat ∧ c.toNat ≤ 0x202e ∨ 0x2066 ≤ c.toNat ∧ c.toNat ≤ 0x2069 then ['\ufffd']
  else [c]

def display (chars : List Char) : List Char := chars.flatMap shown

structure SourceLine where
  number : Nat
  start : Nat
  chars : List Char
  -- The offset behind the line end.
  next : Nat

def withoutReturn (chars : List Char) : List Char :=
  if chars.getLast? = some '\r' then chars.dropLast else chars

/-- A carriage return before a newline belongs to the line end. A newline at the end of the source
begins no further line. -/
def linesFrom (number start : Nat) : List (List Char) → List SourceLine
  | [] => []
  | [last] =>
    if last.isEmpty && number != 1 then [] else [⟨number, start, last, start + byteLength last⟩]
  | line :: rest =>
    let next := start + byteLength line + 1
    ⟨number, start, withoutReturn line, next⟩ :: linesFrom (number + 1) next rest

def sourceLines (source : String) : List SourceLine :=
  linesFrom 1 0 ((source.splitOn "\n").map String.toList)

def lineNumbered? (lines : List SourceLine) (number : Nat) : Option SourceLine :=
  lines.find? fun line => line.number == number

def lineOf (lines : List SourceLine) (offset : Nat) : SourceLine :=
  (lines.find? fun line => decide (line.start ≤ offset) && decide (offset < line.next)).getD
    (lines.getLast?.getD ⟨1, 0, [], 0⟩)

def charsWithin : Nat → List Char → List Char
  | _, [] => []
  | bytes, c :: rest =>
    if c.utf8Size ≤ bytes then c :: charsWithin (bytes - c.utf8Size) rest else []

structure Location where
  line : Nat
  -- Characters before the place.
  position : Nat
  column : Nat
  offset : Nat
  deriving DecidableEq, Inhabited

namespace Location

def onLine (line : SourceLine) (offset : Nat) (countsEnd : Bool) : Location :=
  let before := charsWithin (offset - line.start) line.chars
  let behind := countsEnd && decide (line.start + byteLength line.chars < offset)
  ⟨line.number, before.length + behind.toNat, textWidth before, offset⟩

def ofStart (lines : List SourceLine) (offset : Nat) : Location :=
  onLine (lineOf lines offset) offset true

def ofStop (lines : List SourceLine) (start : Location) (offset : Nat) : Location :=
  if offset = start.offset then start
  else
    let line := lineOf lines offset
    onLine line offset (line.number != start.line)

def atMost (a b : Location) : Bool :=
  if a.line ≠ b.line then decide (a.line < b.line)
  else if a.position ≠ b.position then decide (a.position < b.position)
  else if a.column ≠ b.column then decide (a.column < b.column)
  else decide (a.offset ≤ b.offset)

end Location


inductive Shape where
  | within
  | opens (depth : Nat)
  | passes (depth : Nat)
  | closes (depth : Nat)
  deriving DecidableEq

structure Mark where
  shape : Shape
  isPrimary : Bool
  start : Location
  stop : Location
  -- Empty when the mark has none.
  label : List Char

namespace Mark

def hasLabel (mark : Mark) : Bool := !mark.label.isEmpty

def meetsBar (mark : Mark) : Bool :=
  match mark.shape with
  | .opens _ | .closes _ => true
  | _ => false

def ink (mark : Mark) : Ink := if mark.isPrimary then .alarm else .frame

def glyph (mark : Mark) : Char := if mark.isPrimary then '^' else '-'

def columns (mark : Mark) : Nat :=
  (mark.stop.column - mark.start.column) + (mark.start.column - mark.stop.column)

def ofRange (isPrimary : Bool) (label : List Char) (start stop : Location) : Mark :=
  let stop := if start.column = stop.column then { stop with column := stop.column + 1 } else stop
  ⟨.within, isPrimary, start, stop, label⟩

end Mark

structure Stretch where
  isPrimary : Bool
  start : Location
  stop : Location
  label : List Char
  depth : Nat
  -- Another range, which is drawn, begins and ends at the same places.
  coincides : Bool

namespace Stretch

def sameRange (a b : Stretch) : Bool := a.start == b.start && a.stop == b.stop

def sharesLines (a b : Stretch) : Bool :=
  decide (b.start.line ≤ a.start.line) && decide (a.start.line ≤ b.stop.line) ||
    decide (a.start.line ≤ b.start.line) && decide (b.start.line ≤ a.stop.line)

/-- Makes room for the stretch number `index`: the stretches before it that share lines with it go
one deeper, up to the first one that does not. -/
def settle (index : Nat) (stretch : Stretch) (primaries : List Stretch) :
    (place : Nat) → List Stretch → List Stretch
  | _, [] => []
  | place, other :: rest =>
    if !stretch.sameRange other && stretch.sharesLines other then
      { other with depth := other.depth + 1 } :: settle index stretch primaries (place + 1) rest
    else if stretch.sameRange other && place != index then
      { other with coincides := true } :: settle index stretch primaries (place + 1) rest
    else
      { other with isPrimary := other.isPrimary || primaries.any other.sameRange } :: rest

def settleAll (index : Nat) (primaries : List Stretch) :
    (pending settled : List Stretch) → List Stretch
  | [], settled => settled
  | stretch :: rest, settled =>
    let primaries := if stretch.isPrimary then stretch :: primaries else primaries
    settleAll (index + 1) primaries rest (settle index stretch primaries 0 settled)

def comesBefore (a b : Stretch) : Bool :=
  if a.start.line = b.start.line then decide (b.stop.line ≤ a.stop.line)
  else decide (a.start.line < b.start.line)

def deepest (stretches : List Stretch) : Nat := (stretches.map Stretch.depth).foldl max 0

def layOut (stretches : List Stretch) : List Stretch :=
  let sorted := stretches.mergeSort comesBefore
  let settled := settleAll 0 [] sorted sorted
  let most := deepest settled
  settled.map fun stretch => { stretch with depth := most - stretch.depth + 1 }

def trim (chars : List Char) : List Char :=
  ((chars.dropWhile isWhiteSpace).reverse.dropWhile isWhiteSpace).reverse

def isSlashComment : List Char → Bool
  | '/' :: '/' :: '/' :: _ | '/' :: '/' :: '!' :: _ => false
  | '/' :: '/' :: _ => true
  | _ => false

def isLoneBracket : List Char → Bool
  | [c] => c == '{' || c == '}' || c == '(' || c == ')' || c == '[' || c == ']'
  | _ => false

def isTelling (line : SourceLine) : Bool :=
  let text := trim line.chars
  !text.isEmpty && !isLoneBracket text && !isSlashComment text

/-- The lines between the ends that are shown: from the first three those up to the last telling
one, and the line before the end. -/
def linesBetween (lines : List SourceLine) (first last : Nat) : List Nat :=
  let middle := min (first + 4) last
  let telling (number : Nat) : Bool := (lineNumbered? lines number).any isTelling
  let early := (List.range (middle - first)).map (· + first)
  let upTo := ((early.reverse.find? telling).map (· + 1)).getD first
  let opening := (List.range (upTo - (first + 1))).map (· + (first + 1))
  let isBlank := (lineNumbered? lines (last - 1)).any (!isTelling ·)
  opening ++ if middle < last - 1 && !isBlank then [last - 1] else []

def openingMark (stretch : Stretch) : Mark :=
  let start := stretch.start
  let stop := ⟨start.line, start.position + 1, start.column + 1, start.offset + 1⟩
  ⟨.opens stretch.depth, stretch.isPrimary, start, stop, []⟩

def passingMark (stretch : Stretch) : Mark :=
  ⟨.passes stretch.depth, stretch.isPrimary, default, default, []⟩

def closingMark (stretch : Stretch) : Mark :=
  let stop := stretch.stop
  let start := ⟨stop.line, stop.position - 1, stop.column - 1, stop.offset - 1⟩
  let shape := if stretch.coincides then .within else .closes stretch.depth
  ⟨shape, stretch.isPrimary, start, stop, stretch.label⟩

def marks (lines : List SourceLine) (stretch : Stretch) : List (Nat × Mark) :=
  let closing := [(stretch.stop.line, stretch.closingMark)]
  if stretch.coincides then closing
  else
    (stretch.start.line, stretch.openingMark) ::
      (linesBetween lines stretch.start.line stretch.stop.line).map (·, stretch.passingMark) ++
      closing

end Stretch

end Snippet

namespace Remark

open Snippet

def start (lines : List SourceLine) (remark : Remark) : Location :=
  .ofStart lines remark.span.start

def stop (lines : List SourceLine) (remark : Remark) : Location :=
  .ofStop lines (remark.start lines) remark.span.stop

def isOnOneLine (lines : List SourceLine) (remark : Remark) : Bool :=
  (remark.start lines).line == (remark.stop lines).line

def toMark (lines : List SourceLine) (remark : Remark) : Nat × Mark :=
  let start := remark.start lines
  (start.line, .ofRange remark.isPrimary (display remark.label.toList) start (remark.stop lines))

def toStretch (lines : List SourceLine) (remark : Remark) : Stretch :=
  ⟨remark.isPrimary, remark.start lines, remark.stop lines, display remark.label.toList, 1, false⟩

end Remark

namespace Snippet

structure MarkedLine where
  line : SourceLine
  -- From left to right.
  marks : List Mark

structure Markup where
  lines : List SourceLine
  marked : List MarkedLine
  depth : Nat

def Markup.ofRemarks (lines : List SourceLine) (remarks : List Remark) : Markup :=
  let single := (remarks.filter (·.isOnOneLine lines)).map (·.toMark lines)
  let stretches := Stretch.layOut
    ((remarks.filter (!·.isOnOneLine lines)).map (·.toStretch lines))
  let marks := single ++ stretches.flatMap (·.marks lines)
  let marked := lines.map fun line =>
    let here := (marks.filter fun mark => mark.1 == line.number).map Prod.snd
    ⟨line, here.mergeSort fun a b => a.start.atMost b.start⟩
  ⟨lines, marked.filter fun line => !line.marks.isEmpty, Stretch.deepest stretches⟩

end Snippet

end StackMachine
