import StackMachine.Proofs.Bytecode.Faults

set_option autoImplicit false

namespace StackMachine

namespace DecodeFault

def shift (distance : Nat) : DecodeFault → DecodeFault
  | .undefinedCommand byte offset => .undefinedCommand byte (offset + distance)
  | .invalidRegister index offset => .invalidRegister index (offset + distance)
  | .unexpectedEnd offset => .unexpectedEnd (offset + distance)

end DecodeFault

namespace Cursor

def advance (cursor : Cursor) (count : Nat) : Cursor :=
  ⟨cursor.bytes, cursor.position + count⟩

theorem advance_advance (cursor : Cursor) (first second : Nat) :
    (cursor.advance first).advance second = cursor.advance (first + second) := by
  simp only [advance, Nat.add_assoc]

/-- So many bytes in front of the two cursors are alike, but the first one may lack some of them if
it is cut. -/
structure Sees (cut : Prop) (distance width : Nat) (a b : Cursor) : Prop where
  place : a.position = b.position + distance
  bytes : ∀ k < width, a.bytes[a.position + k]? = b.bytes[b.position + k]? ∨
    cut ∧ a.bytes[a.position + k]? = none

variable {cut : Prop} {distance width narrow : Nat} {a b : Cursor}

theorem Sees.mono (sees : a.Sees cut distance width b) (within : narrow ≤ width) :
    a.Sees cut distance narrow b :=
  ⟨sees.place, fun k inside => sees.bytes k (Nat.lt_of_lt_of_le inside within)⟩

theorem Sees.advance {count : Nat} (sees : a.Sees cut distance width b)
    (within : count + narrow ≤ width) :
    (a.advance count).Sees cut distance narrow (b.advance count) := by
  refine ⟨?_, fun k inside => ?_⟩
  · have place := sees.place
    simp only [Cursor.advance]
    omega
  · have byte := sees.bytes (count + k) (by omega)
    simpa only [Cursor.advance, Nat.add_assoc] using byte

end Cursor

namespace Reader

variable {α β : Type} {cut : Prop} {distance width : Nat}

/-- How two readers end beside each other: with one result, or with one fault that names places so
far apart, or the first one with the end of its bytes. -/
inductive Beside (cut : Prop) (distance width : Nat) (a b : Cursor) :
    EStateM.Result DecodeFault Cursor α → EStateM.Result DecodeFault Cursor α → Prop
  | ok {result : α} {count : Nat} (within : count ≤ width) :
    Beside cut distance width a b (.ok result (a.advance count)) (.ok result (b.advance count))
  | error {fault : DecodeFault} {count : Nat} (within : count ≤ width) :
    Beside cut distance width a b (.error (fault.shift distance) (a.advance count))
      (.error fault (b.advance count))
  | ended {place : Nat} {stop : Cursor} {other : EStateM.Result DecodeFault Cursor α}
    (short : cut) : Beside cut distance width a b (.error (.unexpectedEnd place) stop) other

def Follows (cut : Prop) (distance width : Nat) (left right : Reader α) : Prop :=
  ∀ a b, a.Sees cut distance width b → Beside cut distance width a b (left a) (right b)

theorem follows_pure (result : α) :
    Follows cut distance 0 (pure result : Reader α) (pure result) :=
  fun _ _ _ => .ok (Nat.le_refl 0)

theorem follows_throw (fault : DecodeFault) :
    Follows cut distance 0 (throw (fault.shift distance) : Reader α) (throw fault) :=
  fun _ _ _ => .error (Nat.le_refl 0)

theorem Beside.refused (fault : DecodeFault) (a b : Cursor) :
    Beside (α := α) cut distance width a b (.error (fault.shift distance) a) (.error fault b) :=
  @Beside.error α cut distance width a b fault 0 (Nat.zero_le width)

theorem Beside.of_advance {more : Nat} {a b : Cursor} (count : Nat)
    {first second : EStateM.Result DecodeFault Cursor α}
    (beside : Beside cut distance more (a.advance count) (b.advance count) first second)
    (within : count + more ≤ width) : Beside cut distance width a b first second := by
  cases beside with
  | @ok result further fits =>
    rw [Cursor.advance_advance, Cursor.advance_advance]
    exact .ok (by omega)
  | @error fault further fits =>
    rw [Cursor.advance_advance, Cursor.advance_advance]
    exact .error (by omega)
  | ended short => exact .ended short

theorem Follows.mono {narrow : Nat} {left right : Reader α}
    (follows : Follows cut distance narrow left right) (within : narrow ≤ width) :
    Follows cut distance width left right := by
  intro a b sees
  have beside := follows a b (sees.mono within)
  exact beside.of_advance 0 (by omega)

theorem Follows.bind {left right : Reader α} {next other : α → Reader β}
    (head : Follows cut distance width left right) (more : Nat)
    (tail : ∀ a, Follows cut distance more (next a) (other a)) :
    Follows cut distance (width + more) (left >>= next) (right >>= other) := by
  intro a b sees
  have first := head a b (sees.mono (Nat.le_add_right width more))
  simp only [Bind.bind, EStateM.bind]
  generalize left a = ends, right b = same at first
  cases first with
  | @ok result count fits =>
    have within := Nat.add_le_add_right fits more
    exact (tail result _ _ (sees.advance within)).of_advance _ within
  | error fits => exact .error (Nat.le_trans fits (Nat.le_add_right width more))
  | ended short => exact .ended short

theorem Follows.map {left right : Reader α} (f : α → β)
    (follows : Follows cut distance width left right) :
    Follows cut distance width (f <$> left) (f <$> right) :=
  follows.bind 0 fun a => follows_pure (f a)

theorem Follows.ofPosition {next other : Nat → Reader α}
    (follows : ∀ offset, Follows cut distance width (next (offset + distance)) (other offset)) :
    Follows cut distance width (position >>= next) (position >>= other) := by
  intro a b sees
  have here := follows b.position a b sees
  rwa [← sees.place] at here

theorem Follows.part {left right : Reader α} (announced : Bool)
    (follows : Follows cut distance width left right) :
    Follows cut distance width (part announced left) (part announced right) := by
  cases announced with
  | false => exact (follows_pure none).mono (Nat.zero_le width)
  | true => exact follows.map some

-- Whether all bytes are there shows at the last one.
theorem fits_iff (cursor : Cursor) (count : Nat) :
    cursor.position + (count + 1) ≤ cursor.bytes.size ↔
      cursor.bytes[cursor.position + count]? ≠ none := by
  simp only [ne_eq, Array.getElem?_eq_none_iff]
  omega

theorem extract_eq {a b : Cursor} {count : Nat} (left : a.position + count ≤ a.bytes.size)
    (right : b.position + count ≤ b.bytes.size)
    (same : ∀ k < count, a.bytes[a.position + k]? = b.bytes[b.position + k]?) :
    a.bytes.extract a.position (a.position + count) =
      b.bytes.extract b.position (b.position + count) := by
  ext1
  next =>
    simp only [Array.size_extract]
    omega
  next k inside _ =>
    simp only [Array.size_extract] at inside
    have byte := same k (by omega)
    rw [Array.getElem_extract, Array.getElem_extract]
    rwa [Array.getElem?_eq_getElem (by omega), Array.getElem?_eq_getElem (by omega),
      Option.some.injEq] at byte

theorem follows_take (count : Nat) :
    Follows cut distance (count + 1) (take (count + 1)) (take (count + 1)) := by
  intro a b sees
  have last := sees.bytes count (Nat.lt_succ_self count)
  simp only [take]
  split
  next fits =>
    have all : ∀ k < count + 1, a.bytes[a.position + k]? = b.bytes[b.position + k]? := by
      intro k inside
      refine (sees.bytes k inside).resolve_right fun lacking => ?_
      have outside := Array.getElem?_eq_none_iff.mp lacking.2
      omega
    have also : b.position + (count + 1) ≤ b.bytes.size := by
      rw [fits_iff] at fits ⊢
      rwa [← all count (Nat.lt_succ_self count)]
    rw [if_pos also, extract_eq fits also all]
    exact .ok (Nat.le_refl _)
  next short =>
    rw [fits_iff, not_not] at short
    split
    next also =>
      rw [fits_iff] at also
      refine .ended (last.resolve_left fun same => ?_).1
      exact also (same ▸ short)
    next =>
      rw [sees.place]
      exact .refused (.unexpectedEnd b.position) a b

theorem follows_number (count : Nat) (ofBytes : List UInt8 → α) :
    Follows cut distance (count + 1) (take (count + 1) >>= fun bytes => pure (ofBytes bytes))
      (take (count + 1) >>= fun bytes => pure (ofBytes bytes)) :=
  (follows_take count).bind 0 fun bytes => follows_pure (ofBytes bytes)

theorem follows_byte : Follows cut distance 1 byte byte := follows_number 0 _

theorem follows_word : Follows cut distance 4 word word := follows_number 3 _

theorem follows_value : Follows cut distance 8 value value := follows_number 7 _

theorem follows_register : Follows cut distance 1 register register := by
  refine .ofPosition fun offset => follows_byte.bind 0 fun index => ?_
  split
  next => exact follows_pure _
  next => exact follows_throw (.invalidRegister index offset)

theorem follows_operand (mode : Mode) : Follows cut distance 9 (operand mode) (operand mode) := by
  refine (follows_register.part _).bind 8 fun r => ?_
  refine (follows_value.part _).bind 0 fun literal => ?_
  exact follows_pure _

theorem follows_first {tail : Nat → UInt8 → Reader α}
    (behind : ∀ offset first,
      Follows cut distance 9 (tail (offset + distance) first) (tail offset first)) :
    Follows cut distance 10 (position >>= fun offset => byte >>= tail offset)
      (position >>= fun offset => byte >>= tail offset) :=
  .ofPosition fun offset => follows_byte.bind 9 (behind offset)

theorem follows_instructionOne : Follows cut distance 10 instructionOne instructionOne := by
  refine follows_first fun offset code => ?_
  split
  next => exact (follows_value.map _).mono (by decide)
  next => exact (follows_pure _).mono (Nat.zero_le 9)
  next => exact (follows_throw (.undefinedCommand code offset)).mono (Nat.zero_le 9)

theorem follows_instructionTwo : Follows cut distance 10 instructionTwo instructionTwo := by
  refine follows_first fun offset first => ?_
  split
  next => exact (follows_pure _).mono (Nat.zero_le 9)
  next mode _ => exact (follows_operand mode).map _
  next mode _ => exact (follows_operand mode).map _
  next => exact (follows_word.map _).mono (by decide)
  next => exact (follows_throw (.undefinedCommand first offset)).mono (Nat.zero_le 9)

theorem follows_instruction (version : Version) :
    Follows cut distance 10 (instruction version) (instruction version) := by
  cases version with
  | one => exact follows_instructionOne
  | two => exact follows_instructionTwo

def moved (body : Array UInt8) (distance : Nat) :
    EStateM.Result DecodeFault Cursor α → EStateM.Result DecodeFault Cursor α
  | .ok result stop => .ok result ⟨body, stop.position + distance⟩
  | .error fault stop => .error (fault.shift distance) ⟨body, stop.position + distance⟩

section

variable {a b stop : Cursor} {first second : EStateM.Result DecodeFault Cursor α} {result : α}

theorem Beside.eq_moved (beside : Beside False distance width a b first second)
    (place : a.position = b.position + distance) : first = moved a.bytes distance second := by
  have apart (count : Nat) : a.position + count = b.position + count + distance := by omega
  cases beside with
  | ok | error => simp only [moved, Cursor.advance, apart]
  | ended short => cases short

theorem Beside.of_ok (beside : Beside cut distance width a b first second)
    (ran : first = .ok result stop) :
    ∃ count ≤ width, stop = a.advance count ∧ second = .ok result (b.advance count) := by
  cases beside with
  | ok within =>
    cases ran
    exact ⟨_, within, rfl, rfl⟩
  | error | ended => cases ran

theorem Beside.of_ok_right (beside : Beside cut distance width a b first second)
    (ran : second = .ok result stop) :
    (∃ count, stop = b.advance count ∧ first = .ok result (a.advance count)) ∨
      ∃ place last, first = .error (.unexpectedEnd place) last := by
  cases beside with
  | ok =>
    cases ran
    exact .inl ⟨_, rfl, rfl⟩
  | error => cases ran
  | ended => exact .inr ⟨_, _, rfl⟩

end

variable {version : Version} {body whole : Array UInt8} {start : Nat}

theorem instruction_window (version : Version) (body : Array UInt8) (start : Nat) :
    instruction version ⟨body, start⟩ =
      moved body start (instruction version ⟨body.extract start (start + 10), 0⟩) := by
  have place : start = 0 + start := (Nat.zero_add start).symm
  refine (follows_instruction version _ _ ⟨place, fun k inside => .inl ?_⟩).eq_moved place
  simp only [Array.getElem?_extract]
  split
  next => simp
  next outside =>
    rw [Array.getElem?_eq_none_iff]
    omega

theorem beside_of_missing (missing : ∀ k : Nat, body[k]? = whole[k]? ∨ body[k]? = none) :
    Beside True 0 10 ⟨body, start⟩ ⟨whole, start⟩ (instruction version ⟨body, start⟩)
      (instruction version ⟨whole, start⟩) := by
  refine follows_instruction version _ _ ⟨rfl, fun k _ => ?_⟩
  exact (missing (start + k)).imp_right fun none => ⟨trivial, none⟩

theorem instruction_append {i : Instruction} {stop : Cursor}
    (ran : instruction version ⟨body, start⟩ = .ok i stop) (more : Array UInt8) :
    ∃ count ≤ 10, stop = ⟨body, start + count⟩ ∧
      instruction version ⟨body ++ more, start⟩ = .ok i ⟨body ++ more, start + count⟩ := by
  refine (beside_of_missing fun k => ?_).of_ok ran
  by_cases inside : k < body.size
  · exact .inl (Array.getElem?_append_left inside).symm
  · exact .inr (Array.getElem?_eq_none_iff.mpr (Nat.not_lt.mp inside))

theorem instruction_cut {i : Instruction} {stop : Cursor} {length : Nat}
    (ran : instruction version ⟨body, start⟩ = .ok i stop) (inside : length < stop.position) :
    ∃ place last, instruction version ⟨body.extract 0 length, start⟩ =
      .error (.unexpectedEnd place) last := by
  have missing (k : Nat) : (body.extract 0 length)[k]? = body[k]? ∨
      (body.extract 0 length)[k]? = none := by
    rw [Array.getElem?_extract]
    split
    next => simp
    next => exact .inr rfl
  obtain ⟨count, rfl, short⟩ | ended := (beside_of_missing missing).of_ok_right ran
  · have fits := (instruction_advances short).2
    simp only [Cursor.advance, Array.size_extract] at fits inside
    omega
  · exact ended

end Reader

theorem Instruction.eq_of_bytes_prefix {version : Version} {i j : Instruction}
    (left : i.WellFormed version) (right : j.WellFormed version)
    (begins : i.bytes version <+: j.bytes version) : i = j := by
  obtain ⟨more, longer⟩ := begins
  have one := Reader.reads_instruction left [] more
  have two := Reader.reads_instruction right [] []
  rw [longer] at one
  rw [List.append_nil, one] at two
  cases two
  rfl

/-- Decoding at any place: an instruction within the bytes and at most ten of them long, or a fault
that the bytes bear out. It depends on ten bytes, is not changed by more of them, and fails with
their end if it is cut short. -/
theorem decoding_exact (version : Version) (body : Array UInt8) (start : Nat) :
    let read body start := Reader.instruction version ⟨body, start⟩
    (∀ i stop, read body start = .ok i stop →
      stop.bytes = body ∧ start < stop.position ∧ stop.position ≤ body.size ∧
        stop.position - start ≤ 10 ∧
        (∀ more, read (body ++ more) start = .ok i ⟨body ++ more, stop.position⟩) ∧
        ∀ length < stop.position, ∃ place last,
          read (body.extract 0 length) start = .error (.unexpectedEnd place) last) ∧
    (∀ fault stop, read body start = .error fault stop →
      stop.bytes = body ∧ fault.FoundBy ⟨body, start⟩ stop) ∧
    read body start = Reader.moved body start (read (body.extract start (start + 10)) 0) ∧
    ∀ i j : Instruction, i.WellFormed version → j.WellFormed version →
      i.bytes version <+: j.bytes version → i = j := by
  intro read
  have window : read body start = _ := Reader.instruction_window version body start
  refine ⟨fun i stop ran => ?_, fun fault stop failed => ?_, window, ?_⟩
  · obtain ⟨forward, inside⟩ := Reader.instruction_advances ran
    obtain ⟨count, within, rfl, -⟩ := Reader.instruction_append ran #[]
    refine ⟨rfl, forward, inside, by simp only; omega, fun more => ?_, fun length short => ?_⟩
    · obtain ⟨other, -, same, longer⟩ := Reader.instruction_append ran more
      rw [same]
      exact longer
    · exact Reader.instruction_cut ran short
  · refine ⟨?_, Reader.fails_instruction version _ fault stop failed⟩
    rw [window] at failed
    unfold Reader.moved at failed
    split at failed <;> cases failed
    rfl
  · exact fun i j => Instruction.eq_of_bytes_prefix

end StackMachine
