set_option autoImplicit false

namespace StackMachine

structure Span where
  start : Nat
  stop : Nat
  deriving DecidableEq, Repr, Inhabited

namespace Span

def cover (a b : Span) : Span := ⟨min a.start b.start, max a.stop b.stop⟩

def text (s : Span) : String := s!"{s.start}..{s.stop}"

/-- Both ends as 32-bit numbers. Past `2 ^ 32` they start over from zero, and a span that then ends
before it starts is none. -/
def narrow? (s : Span) : Option Span :=
  let narrowed : Span := ⟨s.start % UInt32.size, s.stop % UInt32.size⟩
  if narrowed.start ≤ narrowed.stop then some narrowed else none

end Span

def byteLength : List Char → Nat
  | [] => 0
  | c :: rest => c.utf8Size + byteLength rest

def splitBytes? : Nat → List Char → Option (List Char × List Char)
  | 0, chars => some ([], chars)
  | _ + 1, [] => none
  | bytes + 1, c :: rest =>
    if c.utf8Size ≤ bytes + 1 then
      (splitBytes? (bytes + 1 - c.utf8Size) rest).map fun (taken, left) => (c :: taken, left)
    else none

def Span.slice? (source : String) (span : Span) : Option String :=
  if span.start ≤ span.stop then do
    let (_, rest) ← splitBytes? span.start source.toList
    let (text, _) ← splitBytes? (span.stop - span.start) rest
    some (String.ofList text)
  else none

/-- The place from `low` on, but not past `high`, where `holds` begins to fail, found by halving. It
is such a place only if `holds` does not fail before an element for which it holds. -/
def partitionPoint {α : Type} (holds : α → Bool) (values : Array α) (low high : Nat)
    (inside : high ≤ values.size) : Nat :=
  if wide : low < high then
    let middle := (low + high) / 2
    if holds values[middle] then partitionPoint holds values (middle + 1) high inside
    else partitionPoint holds values low middle (by omega)
  else low
termination_by high - low

structure LineIndex where
  starts : Array Nat

namespace LineIndex

def startsAfter (offset : Nat) : List Char → List Nat
  | [] => []
  | c :: rest =>
    let next := offset + c.utf8Size
    if c = '\n' then next :: startsAfter next rest else startsAfter next rest

def ofText (source : String) : LineIndex := ⟨(0 :: startsAfter 0 source.toList).toArray⟩

def line (index : LineIndex) (offset : Nat) : Nat :=
  partitionPoint (fun start => decide (start ≤ offset)) index.starts 0 index.starts.size
    (Nat.le_refl _)

def lineCount (index : LineIndex) : Nat := index.starts.size

end LineIndex

end StackMachine
