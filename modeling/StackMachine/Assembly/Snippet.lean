import StackMachine.Assembly.Snippet.Window
import StackMachine.Text.Display

set_option autoImplicit false

namespace StackMachine

namespace Snippet

structure Layout where
  numberWidth : Nat
  -- Bars that may stand side by side at the left of the text.
  depth : Nat
  window : Window

namespace Layout

def bars (layout : Layout) : Nat := layout.numberWidth + 3

def code (layout : Layout) : Nat :=
  if layout.depth = 0 then layout.bars else layout.bars + layout.depth + 1

def barColumn (layout : Layout) (depth : Nat) : Nat := layout.bars + depth - 1

def place (layout : Layout) (left column : Nat) : Nat := layout.code + column - left

def separator (layout : Layout) (row : Nat) : Stroke := ⟨row, layout.numberWidth + 1, .frame, ['|']⟩

def numberStroke (layout : Layout) (number : Nat) : Stroke :=
  ⟨0, 0, .frame, (padLeft ' ' layout.numberWidth (toString number)).toList⟩

def lineStrokes (layout : Layout) (line : SourceLine) : List Stroke × Nat :=
  let excerpt := Excerpt.ofChars layout.window (display line.chars)
  let leading := if layout.window.isCutLeft then ellipsis else []
  let trailing := excerpt.trailing.toList.map fun column =>
    ⟨0, layout.code + column, .frame, ellipsis⟩
  (⟨0, layout.code, .frame, leading⟩ ::
    ⟨0, layout.code + excerpt.covered, .plain, excerpt.text⟩ :: trailing ++
      [layout.numberStroke line.number, layout.separator 0], excerpt.left)

end Layout

def overlaps (a b : Mark) (padding : Nat) : Bool :=
  decide (b.start.column ≤ a.start.column) && decide (a.start.column < b.stop.column) ||
    decide (a.start.column ≤ b.start.column) &&
      decide (b.start.column < a.stop.column + padding)

def sameColumns (a b : Mark) : Bool :=
  a.start.column == b.start.column && a.start.position == b.start.position &&
    a.stop.column == b.stop.column && a.stop.position == b.stop.position

def endsWithin (a b : Mark) : Bool :=
  decide (a.stop.column < b.stop.column) ||
    a.stop.column == b.stop.column && decide (a.stop.position ≤ b.stop.position)

structure Placed where
  row : Nat
  mark : Mark

namespace Placed

/-- The label of a mark cannot stand beside it if a mark further left reaches under it, unless that
mark covers the same columns without a label of its own. -/
def isCrowded (mark : Mark) (later : List Mark) : Bool :=
  mark.hasLabel && later.any fun next =>
    overlaps next mark 0 && !(sameColumns next mark && !next.hasLabel)

def pushesDown (row : Nat) (mark next : Mark) : Bool :=
  let reach := if next.hasLabel then textWidth next.label + 2 else 0
  overlaps next mark reach && next.hasLabel &&
      (mark.hasLabel || row == 0 && endsWithin next mark) ||
    mark.meetsBar && next.hasLabel || mark.hasLabel && next.meetsBar ||
    mark.meetsBar && next.meetsBar

def ofMarks : (row : Nat) → List Mark → List Placed
  | _, [] => []
  | row, mark :: later =>
    let here := if row = 0 ∧ isCrowded mark later then 1 else row
    let below := if later.any (pushesDown here mark) then here + 1 else here
    ⟨here, mark⟩ :: ofMarks below later

def lowest (placed : List Placed) : Nat := (placed.map Placed.row).foldl max 0

def opensOnly (placed : List Placed) : Bool := placed.all fun p =>
  match p.mark.shape with
  | .opens _ => true
  | _ => false

/-- Ranges that open on one line are led to their bars in reverse order, so that their lines do not
cross. -/
def uncross (placed : List Placed) : List Placed :=
  if opensOnly placed then placed.map fun p => ⟨lowest placed - p.row, p.mark⟩ else placed

def hanging (placed : List Placed) : Nat :=
  let lowest := lowest placed
  if lowest = 0 then 0 else if opensOnly placed then lowest else lowest + 1

def leadStrokes (layout : Layout) (left : Nat) (placed : Placed) : List Stroke :=
  match placed.mark.shape with
  | .opens depth | .closes depth =>
    let start := layout.bars + depth
    let stop := layout.place left placed.mark.start.column
    [⟨placed.row + 1, start, placed.mark.ink, List.replicate (stop - start) '_'⟩]
  | _ => []

def hangStrokes (layout : Layout) (left : Nat) (placed : Placed) : List Stroke :=
  if placed.row ≠ 0 ∧ (placed.mark.hasLabel ∨ placed.mark.meetsBar) then
    Stroke.down '|' placed.mark.ink (layout.place left placed.mark.start.column) 1 (placed.row + 1)
  else []

def barStrokes (layout : Layout) (hanging : Nat) (placed : Placed) : List Stroke :=
  let row := placed.row + 1
  match placed.mark.shape with
  | .opens depth =>
    let place := layout.barColumn depth
    Stroke.down ' ' placed.mark.ink place row 1 ++
      Stroke.down '|' placed.mark.ink place (row + 1) (hanging + 1 - row)
  | .closes depth => Stroke.down '|' placed.mark.ink (layout.barColumn depth) 0 (row + 1)
  | _ => []

def labelStroke (layout : Layout) (left : Nat) (placed : Placed) : Stroke :=
  let stop := placed.mark.stop.column
  let (row, column) :=
    if placed.row ≠ 0 then (placed.row + 2, placed.mark.start.column - left)
    else if stop = 0 then (1, 2 - left)
    else (1, stop + 1 - left)
  ⟨row, layout.code + column, placed.mark.ink, placed.mark.label⟩

def underlineStrokes (layout : Layout) (left : Nat) (placed : Placed) : List Stroke :=
  let mark := placed.mark
  let start := layout.place left mark.start.column
  let underline := (List.range (mark.stop.column - mark.start.column)).map fun offset =>
    ⟨1, layout.place left (mark.start.column + offset), mark.ink, [mark.glyph]⟩
  if mark.meetsBar || placed.row != 0 && mark.hasLabel then
    underline ++ [⟨1, start, mark.ink, [mark.glyph]⟩]
  else underline

def drawnBefore (a b : Placed) : Bool :=
  if a.mark.columns = b.mark.columns then !a.mark.isPrimary || b.mark.isPrimary
  else decide (b.mark.columns < a.mark.columns)

def strokes (layout : Layout) (left : Nat) (placed : List Placed) : List Stroke :=
  let hanging := hanging placed
  let placed := uncross placed
  (List.range (hanging + 1)).map (fun row => layout.separator (row + 1)) ++
    placed.flatMap (leadStrokes layout left) ++
    placed.flatMap (fun p => hangStrokes layout left p ++ barStrokes layout hanging p) ++
    placed.map (labelStroke layout left) ++
    (placed.mergeSort drawnBefore).flatMap (underlineStrokes layout left)

end Placed

structure Bar where
  depth : Nat
  ink : Ink
  deriving DecidableEq

namespace Bar

def ofMarks (marks : List Mark) : List Bar := marks.filterMap fun mark =>
  match mark.shape with
  | .opens depth | .closes depth => some ⟨depth, mark.ink⟩
  | _ => none

def ofOpenings (marks : List Mark) : List Bar := marks.filterMap fun mark =>
  match mark.shape with
  | .opens depth => some ⟨depth, mark.ink⟩
  | _ => none

def strokes (layout : Layout) (height : Nat) (bars : List Bar) : List Stroke :=
  bars.flatMap fun bar => Stroke.down '|' bar.ink (layout.barColumn bar.depth) 0 height

end Bar

def opensAtStart (marked : MarkedLine) : Bool := marked.marks.all fun mark =>
  match mark.shape with
  | .opens _ => (marked.line.chars.take mark.start.column).all isWhiteSpace
  | .passes _ => true
  | _ => false

def slashStrokes (layout : Layout) (marks : List Mark) : List Stroke :=
  (Bar.ofMarks marks).map fun bar => ⟨0, layout.barColumn bar.depth, bar.ink, ['/']⟩

def blockStrokes (layout : Layout) (marked : MarkedLine) : List Stroke :=
  let (line, left) := layout.lineStrokes marked.line
  if opensAtStart marked then line ++ slashStrokes layout marked.marks
  else
    let fromRight (a b : Mark) : Bool :=
      if a.start.column = b.start.column then decide (b.start.position ≤ a.start.position)
      else decide (b.start.column < a.start.column)
    line ++ Placed.strokes layout left (Placed.ofMarks 0 (marked.marks.mergeSort fromRight))

def gapStrokes (layout : Layout) (lines : List SourceLine) (first last : Nat) : List Stroke :=
  if last ≤ first + 1 then []
  else if last = first + 2 then
    let line := (lineNumbered? lines (first + 1)).getD ⟨first + 1, 0, [], 0⟩
    (layout.lineStrokes line).1
  else [⟨0, 0, .frame, ellipsis⟩]

def gapBlock (layout : Layout) (lines : List SourceLine) (bars : List Bar) (here : MarkedLine) :
    Option MarkedLine → Canvas
  | none => .empty
  | some next =>
    let canvas :=
      Canvas.empty.drawAll (gapStrokes layout lines here.line.number next.line.number)
    canvas.drawAll
      (Bar.strokes layout canvas.height (bars ++ Bar.ofOpenings here.marks))

def drawLines (layout : Layout) (lines : List SourceLine) (bars : List Bar) :
    List MarkedLine → Canvas
  | [] => .empty
  | here :: rest =>
    let ends := Bar.ofMarks here.marks
    let passing := bars.filter fun bar => !ends.any fun other => other.depth == bar.depth
    let begun := ends.filter fun bar => !bars.any fun other => other.depth == bar.depth
    let block := Canvas.empty.drawAll (blockStrokes layout here)
    let block := block.drawAll (Bar.strokes layout block.height passing)
    (block.above (gapBlock layout lines passing here rest.head?)).above
      (drawLines layout lines (passing ++ begun) rest)


def numberWidth (source : String) (remarks : List Remark) : Nat :=
  let reach := (remarks.map fun remark => remark.span.stop).foldl max 0
  let within := charsWithin reach source.toList
  -- A newline at the very end begins no further line.
  let ended := if within.getLast? = some '\n' then within.dropLast else within
  (toString (ended.count '\n' + 1)).length

def titleLines (row indent : Nat) : List (List Char) → List Stroke
  | [] => []
  | line :: rest =>
    ⟨row, 0, .plain, List.replicate indent ' '⟩ :: ⟨row, indent, .heading, line⟩ ::
      titleLines (row + 1) indent rest

def titleStrokes (message : String) : List Stroke :=
  let level := "error".toList
  let separator := ": ".toList
  let indent := level.length + separator.length
  let lines := (message.splitOn "\n").map fun line => display line.toList
  ⟨0, 0, .alarm, level⟩ :: ⟨0, level.length, .heading, separator⟩ ::
    ⟨0, indent, .heading, lines.headD []⟩ :: titleLines 1 indent lines.tail

def origin (markup : Markup) : Nat × Nat :=
  let primary := markup.marked.find? fun marked => marked.marks.any Mark.isPrimary
  match primary <|> markup.marked.head? with
  | none => (1, 0)
  | some marked =>
    let primary := (marked.marks.filter Mark.isPrimary).map fun mark => mark.start.position
    (marked.line.number, Extent.least primary)

def placeStrokes (width : Nat) (path : String) (markup : Markup) : List Stroke :=
  let (line, position) := origin markup
  let arrow := "--> ".toList
  [⟨0, width, .frame, arrow⟩,
    ⟨0, width + arrow.length, .plain, s!"{path}:{line}:{position + 1}".toList⟩]

def layoutOf (numberWidth : Nat) (markup : Markup) : Layout :=
  let layout : Layout := ⟨numberWidth, markup.depth, ⟨0, 0, 0⟩⟩
  { layout with window := .ofExtent (terminalColumns - layout.code) (.ofLines markup.marked) }

def canvas (picture : Picture) : Canvas :=
  let lines := sourceLines picture.source
  let markup := Markup.ofRemarks lines picture.remarks
  let layout := layoutOf (numberWidth picture.source picture.remarks) markup
  let title := Canvas.empty.drawAll (titleStrokes picture.title)
  let place := match picture.path with
    | some path => Canvas.empty.drawAll (placeStrokes layout.numberWidth path markup)
    | none => .empty
  let spacer := Canvas.empty.draw (layout.separator 0)
  title.above (place.above (spacer.above (drawLines layout lines [] markup.marked)))

def render (color : Bool) (picture : Picture) : Except String String :=
  .ok ((canvas picture).text color)

end Snippet

end StackMachine
