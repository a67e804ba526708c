import Mathlib.Data.Nat.Digits.Defs
import StackMachine.Proofs.Bytecode.Locality

set_option autoImplicit false

namespace StackMachine

theorem littleEndian_eq_ofDigits (bytes : List UInt8) :
    littleEndian bytes = Nat.ofDigits 256 (bytes.map UInt8.toNat) := by
  induction bytes with
  | nil => rfl
  | cons byte rest ih => rw [littleEndian, List.map_cons, Nat.ofDigits_cons, ih]

namespace Cursor

def next (cursor : Cursor) (count : Nat) : List UInt8 :=
  (cursor.bytes.extract cursor.position (cursor.position + count)).toList

theorem length_next {cursor : Cursor} {count : Nat} (enough : count ≤ cursor.remaining) :
    (cursor.next count).length = count := by
  have room : count ≤ cursor.bytes.size - cursor.position := enough
  rw [next, Array.length_toList, Array.size_extract]
  omega

structure Passes (start : Cursor) (taken : List UInt8) (stop : Cursor) : Prop where
  bytes : stop.bytes = start.bytes
  least : start.position ≤ stop.position
  most : stop.position ≤ max start.position start.bytes.size
  taken : taken = (start.bytes.extract start.position stop.position).toList

variable {start middle stop : Cursor}

theorem Passes.stay (cursor : Cursor) : cursor.Passes [] cursor := by
  refine ⟨rfl, Nat.le_refl _, Nat.le_max_left _ _, ?_⟩
  rw [Array.extract_eq_empty_of_le (Nat.min_le_left _ _)]

theorem Passes.advance {count : Nat} (enough : count ≤ start.remaining) :
    start.Passes (start.next count) (start.advance count) := by
  have room : count ≤ start.bytes.size - start.position := enough
  refine ⟨rfl, Nat.le_add_right _ _, ?_, rfl⟩
  simp only [Cursor.advance]
  omega

theorem Passes.trans {first second : List UInt8} (one : start.Passes first middle)
    (two : middle.Passes second stop) : start.Passes (first ++ second) stop := by
  have most := two.most
  rw [one.bytes] at most
  refine ⟨two.bytes.trans one.bytes, Nat.le_trans one.least two.least, ?_, ?_⟩
  · have before := one.most
    omega
  · rw [one.taken, two.taken, one.bytes, ← Array.toList_append, Array.extract_append_extract,
      Nat.min_eq_left one.least, Nat.max_eq_right two.least]

end Cursor

namespace Reader

theorem take_of_le {cursor : Cursor} {count : Nat} (some : 0 < count)
    (enough : count ≤ cursor.remaining) :
    take count cursor = .ok (cursor.next count) (cursor.advance count) := by
  have room : count ≤ cursor.bytes.size - cursor.position := enough
  exact if_pos (by omega)

theorem take_of_lt {cursor : Cursor} {count : Nat} (short : cursor.remaining < count) :
    take count cursor = .error (.unexpectedEnd cursor.position) cursor := by
  have missing : cursor.bytes.size - cursor.position < count := short
  exact if_neg (by omega)

def plus? (largest a b : Nat) : Option Nat := if a + b ≤ largest then some (a + b) else none

def stretch? (bytes : Array UInt8) (start stop : Nat) : Option (List UInt8) :=
  if start ≤ stop ∧ stop ≤ bytes.size then some (bytes.extract start stop).toList else none

/-- The reader with positions up to a largest one. It has no answer if bytes are taken out of range,
or not as many as it wants. -/
def take? (largest count : Nat) (cursor : Cursor) :
    Option (EStateM.Result DecodeFault Cursor (List UInt8)) :=
  match (plus? largest cursor.position count).filter (· ≤ cursor.bytes.size) with
  | none => some (.error (.unexpectedEnd cursor.position) cursor)
  | some stop => do
    let bytes ← stretch? cursor.bytes cursor.position stop
    if bytes.length = count then some (.ok bytes { cursor with position := stop }) else none

theorem take?_eq {largest : Nat} {cursor : Cursor} (fits : cursor.bytes.size ≤ largest)
    (count : Nat) : take? largest count cursor = some (take count cursor) := by
  by_cases inside : cursor.position + count ≤ cursor.bytes.size
  · have sum : (plus? largest cursor.position count).filter (· ≤ cursor.bytes.size) =
        some (cursor.position + count) := by
      rw [plus?, if_pos (Nat.le_trans inside fits), Option.filter_some, if_pos (by simpa)]
    have stretch : stretch? cursor.bytes cursor.position (cursor.position + count) =
        some (cursor.next count) := if_pos ⟨Nat.le_add_right _ _, inside⟩
    have long : (cursor.next count).length = count := by
      apply Cursor.length_next
      simp only [Cursor.remaining]
      omega
    simp only [take?, sum, stretch, Option.bind_eq_bind, Option.bind_some, long, if_true, take,
      inside]
    rfl
  · -- The sum is refused, by the largest position or else by the size.
    have sum : (plus? largest cursor.position count).filter (· ≤ cursor.bytes.size) = none := by
      rw [Option.filter_eq_none_iff]
      intro stop formed
      rw [plus?, Option.ite_none_right_eq_some] at formed
      cases formed.2
      simpa using inside
    simp only [take?, sum, take, inside, if_false]

end Reader

inductive Number where
  | byte (b : UInt8)
  | word (w : UInt32)
  | value (v : Binary64)
  deriving DecidableEq

inductive NumberKind where
  | byte
  | word
  | value

def NumberKind.width : NumberKind → Nat
  | .byte => 1
  | .word => 4
  | .value => 8

namespace Number

def kind : Number → NumberKind
  | .byte _ => .byte
  | .word _ => .word
  | .value _ => .value

def toNat : Number → Nat
  | .byte b => b.toNat
  | .word w => w.toNat
  | .value v => v.bits.toNat

def bytes (number : Number) : List UInt8 := toLittleEndian number.kind.width number.toNat

def taken : Except DecodeFault Number → List UInt8
  | .ok number => number.bytes
  | .error _ => []

end Number

namespace NumberKind

def read : NumberKind → Reader Number
  | .byte => .byte <$> Reader.byte
  | .word => .word <$> Reader.word
  | .value => .value <$> Reader.value

def number : NumberKind → Nat → Number
  | .byte, n => .byte (.ofNat n)
  | .word, n => .word (.ofNat n)
  | .value, n => .value ⟨.ofNat n⟩

theorem width_pos (kind : NumberKind) : 0 < kind.width := by
  cases kind <;> decide

theorem kind_number (kind : NumberKind) (n : Nat) : (kind.number n).kind = kind := by
  cases kind <;> rfl

theorem toNat_number {kind : NumberKind} {n : Nat} (small : n < Nat.pow 256 kind.width) :
    (kind.number n).toNat = n := by
  cases kind with
  | byte => exact UInt8.toNat_ofNat_of_lt' small
  | word => exact UInt32.toNat_ofNat_of_lt' small
  | value => exact UInt64.toNat_ofNat_of_lt' small

theorem read_eq (kind : NumberKind) : kind.read =
    Reader.take kind.width >>= fun bytes => pure (kind.number (littleEndian bytes)) := by
  cases kind with
  | byte =>
    rw [read, Reader.byte, map_bind]
    rfl
  | word =>
    rw [read, Reader.word, map_bind]
    rfl
  | value =>
    rw [read, Reader.value, map_bind]
    rfl

/-- What a read does at a cursor. It takes the next bytes, least significant one first, if all of
them are there, and otherwise leaves the cursor where it is. -/
structure ReadsExactly (kind : NumberKind) (here : Cursor) : Prop where
  succeeds : kind.width ≤ here.remaining → ∃ number : Number,
    kind.read here = .ok number (here.advance kind.width) ∧ number.kind = kind ∧
      number.toNat = Nat.ofDigits 256 ((here.next kind.width).map UInt8.toNat) ∧
        number.bytes = here.next kind.width
  fails : here.remaining < kind.width →
    kind.read here = .error (.unexpectedEnd here.position) here

theorem readsExactly (kind : NumberKind) (here : Cursor) : kind.ReadsExactly here where
  succeeds enough := by
    have long := Cursor.length_next enough
    have small := littleEndian_lt (here.next kind.width)
    rw [long] at small
    have number := toNat_number small
    refine ⟨kind.number (littleEndian (here.next kind.width)), ?_, kind_number _ _, ?_, ?_⟩
    · simp only [read_eq, Bind.bind, EStateM.bind, Reader.take_of_le kind.width_pos enough]
      rfl
    · rw [number, littleEndian_eq_ofDigits]
    · have spelled := toLittleEndian_littleEndian (here.next kind.width)
      rw [long] at spelled
      rw [Number.bytes, kind_number, number, spelled]
  fails short := by
    simp only [read_eq, Bind.bind, EStateM.bind, Reader.take_of_lt short]

/-- What each read of a sequence gives, and where the last one leaves the cursor. The reads behind
one that fails go on from where it began. -/
def readEach : List NumberKind → Cursor → List (Except DecodeFault Number) × Cursor
  | [], cursor => ([], cursor)
  | kind :: kinds, cursor =>
    let (answer, after) := match kind.read cursor with
      | .ok number stop => (.ok number, stop)
      | .error fault stop => (.error fault, stop)
    let (answers, last) := readEach kinds after
    (answer :: answers, last)

theorem readEach_of_ok {kind : NumberKind} {here stop : Cursor} {number : Number}
    (ran : kind.read here = .ok number stop) (kinds : List NumberKind) :
    readEach (kind :: kinds) here =
      (.ok number :: (readEach kinds stop).1, (readEach kinds stop).2) := by
  simp only [readEach, ran]

theorem readEach_of_error {kind : NumberKind} {here stop : Cursor} {fault : DecodeFault}
    (failed : kind.read here = .error fault stop) (kinds : List NumberKind) :
    readEach (kind :: kinds) here =
      (.error fault :: (readEach kinds stop).1, (readEach kinds stop).2) := by
  simp only [readEach, failed]

theorem passes_readEach (kinds : List NumberKind) (start : Cursor) :
    start.Passes ((readEach kinds start).1.flatMap Number.taken) (readEach kinds start).2 := by
  induction kinds generalizing start with
  | nil => exact .stay start
  | cons kind kinds ih =>
    by_cases enough : kind.width ≤ start.remaining
    · obtain ⟨number, ran, -, -, bytes⟩ := (kind.readsExactly start).succeeds enough
      rw [readEach_of_ok ran, List.flatMap_cons, Number.taken, bytes]
      exact (Cursor.Passes.advance enough).trans (ih _)
    · have failed := (kind.readsExactly start).fails (Nat.not_le.mp enough)
      rw [readEach_of_error failed, List.flatMap_cons, Number.taken, List.nil_append]
      exact ih start

/-- Any reads from any place, and the place where they have led. The numbers are the bytes passed
over; the next read takes what it wants or nothing, and after a refusal a narrower one may succeed.
No position is formed past the largest one, and no bytes are taken out of range. -/
theorem reads_within (bytes : Array UInt8) (start : Nat) (kinds : List NumberKind) :
    let run := readEach kinds ⟨bytes, start⟩
    let here := run.2
    Cursor.Passes ⟨bytes, start⟩ (run.1.flatMap Number.taken) here ∧
    (∀ kind : NumberKind, kind.ReadsExactly here) ∧
    (∀ wide narrow : NumberKind, here.remaining < wide.width → narrow.width ≤ here.remaining →
      ∃ number : Number, readEach [wide, narrow] here =
        ([.error (.unexpectedEnd here.position), .ok number], here.advance narrow.width)) ∧
    ∀ largest, bytes.size ≤ largest → start ≤ largest → here.position ≤ largest ∧
      ∀ count, Reader.take? largest count here = some (Reader.take count here) := by
  intro run here
  have passes : Cursor.Passes ⟨bytes, start⟩ (run.1.flatMap Number.taken) here :=
    passes_readEach kinds ⟨bytes, start⟩
  refine ⟨passes, fun kind => kind.readsExactly here, ?_, ?_⟩
  · intro wide narrow short enough
    obtain ⟨number, ran, -⟩ := (narrow.readsExactly here).succeeds enough
    have failed := (wide.readsExactly here).fails short
    exact ⟨number, by rw [readEach_of_error failed, readEach_of_ok ran]; rfl⟩
  · intro largest fits within
    have most : here.position ≤ max start bytes.size := passes.most
    have same : here.bytes = bytes := passes.bytes
    refine ⟨Nat.le_trans most (Nat.max_le.mpr ⟨within, fits⟩), fun count => ?_⟩
    exact Reader.take?_eq (same ▸ fits) count

/-- So near to the largest position that the end of a word would be place one; and at place one,
where two bytes are too few for a word but not for the byte that is read next. -/
theorem reads_within_wrapping :
    let bytes : Array UInt8 := #[1, 2, 3]
    let far : Cursor := ⟨bytes, 2 ^ 64 - 3⟩
    ((2 ^ 64 - 3 + 4) % 2 ^ 64 = 1 ∧ (readEach [.byte, .value] far).2 = far ∧
      Reader.take? (2 ^ 64 - 1) 4 far = some (.error (.unexpectedEnd (2 ^ 64 - 3)) far)) ∧
    readEach [.word, .byte] ⟨bytes, 1⟩ =
      ([.error (.unexpectedEnd 1), .ok (.byte 2)], ⟨bytes, 2⟩) ∧
    Cursor.Passes ⟨bytes, 1⟩ [2] ⟨bytes, 2⟩ := by
  intro bytes far
  have stays : (readEach [.byte, .value] far).2 = far := rfl
  have ran : readEach [.word, .byte] ⟨bytes, 1⟩ =
    ([.error (.unexpectedEnd 1), .ok (.byte 2)], ⟨bytes, 2⟩) := rfl
  obtain ⟨-, -, -, bounded⟩ := reads_within bytes (2 ^ 64 - 3) [.byte, .value]
  obtain ⟨passes, -⟩ := reads_within bytes 1 [.word, .byte]
  have read := (bounded (2 ^ 64 - 1) (by decide) (by decide)).2 4
  rw [stays] at read
  rw [ran] at passes
  exact ⟨⟨by decide, stays, read⟩, ran, passes⟩

end NumberKind

end StackMachine
