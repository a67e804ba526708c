set_option autoImplicit false

namespace StackMachine

def digitCount (n : Nat) : Nat := if n < 10 then 1 else digitCount (n / 10) + 1

/-- Decimal digits of the largest number below `count`; a column for no number has one. -/
def columnWidth (count : Nat) : Nat := digitCount (count - 1)

def padLeft (fill : Char) (width : Nat) (text : String) : String :=
  String.ofList (List.replicate (width - text.length) fill) ++ text

def blanks (count : Nat) : String := String.ofList (List.replicate count ' ')

def byteText (byte : UInt8) : String :=
  "0x" ++ padLeft '0' 2 (String.ofList (Nat.toDigits 16 byte.toNat))

structure Palette where
  blue : String
  green : String
  red : String
  dim : String
  reset : String

namespace Palette

def plain : Palette := ⟨"", "", "", "", ""⟩

def colored : Palette := ⟨"\x1b[34m", "\x1b[32m", "\x1b[31m", "\x1b[2m", "\x1b[0m"⟩

def ofFlag (color : Bool) : Palette := if color then colored else plain

def styled (palette : Palette) (style text : String) : String := style ++ text ++ palette.reset

end Palette

inductive Ink where
  | plain
  | heading
  | alarm
  | frame
  deriving DecidableEq

def Ink.start : Ink → String
  | .plain => ""
  | .heading => "\x1b[1m"
  | .alarm => "\x1b[1m\x1b[91m"
  | .frame => "\x1b[1m\x1b[94m"

def Ink.finish : Ink → String
  | .plain => ""
  | _ => "\x1b[0m"

structure Stroke where
  row : Nat
  column : Nat
  ink : Ink
  text : List Char

def Stroke.down (c : Char) (ink : Ink) (column first count : Nat) : List Stroke :=
  (List.range count).map fun row => ⟨first + row, column, ink, [c]⟩

structure Cell where
  char : Char
  ink : Ink

def Cell.blank : Cell := ⟨' ', .plain⟩

structure Canvas where
  rows : Array (Array Cell)

namespace Canvas

def empty : Canvas := ⟨#[]⟩

def setCell (cells : Array Cell) (column : Nat) (cell : Cell) : Array Cell :=
  if column < cells.size then cells.setIfInBounds column cell
  else (cells ++ Array.replicate (column - cells.size) Cell.blank).push cell

def setCells (cells : Array Cell) (column : Nat) (ink : Ink) : List Char → Array Cell
  | [] => cells
  | c :: rest => setCells (setCell cells column ⟨c, ink⟩) (column + 1) ink rest

def draw (canvas : Canvas) (stroke : Stroke) : Canvas :=
  if stroke.text.isEmpty then canvas
  else
    let rows := canvas.rows ++ Array.replicate (stroke.row + 1 - canvas.rows.size) #[]
    ⟨rows.modify stroke.row fun cells => setCells cells stroke.column stroke.ink stroke.text⟩

def drawAll (canvas : Canvas) (strokes : List Stroke) : Canvas := strokes.foldl draw canvas

def height (canvas : Canvas) : Nat := canvas.rows.size

def above (top bottom : Canvas) : Canvas := ⟨top.rows ++ bottom.rows⟩

def coloredFrom (ink : Ink) : List Cell → String
  | [] => ink.finish
  | cell :: rest =>
    if cell.ink = ink then cell.char.toString ++ coloredFrom ink rest
    else ink.finish ++ cell.ink.start ++ cell.char.toString ++ coloredFrom cell.ink rest

def rowText (color : Bool) (cells : Array Cell) : String :=
  if color then coloredFrom .plain cells.toList
  else String.ofList (cells.toList.map Cell.char)

def text (color : Bool) (canvas : Canvas) : String :=
  "\n".intercalate (canvas.rows.toList.map (rowText color))

end Canvas

end StackMachine
