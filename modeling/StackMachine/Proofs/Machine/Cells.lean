import Mathlib.Data.List.Induction
import StackMachine.Proofs.Machine.Effects

set_option autoImplicit false

namespace StackMachine

inductive Access where
  | load (index : Binary64)
  | store (index value : Binary64)

namespace Access

def stored? (place : Int) : Access → Option Binary64
  | .load _ => none
  | .store index value => if index.integerPart? = some place then some value else none

def lastStored? (accesses : List Access) (place : Int) : Option Binary64 :=
  accesses.reverse.findSome? (stored? place)

theorem lastStored?_append (accesses : List Access) (access : Access) (place : Int) :
    lastStored? (accesses ++ [access]) place =
      (access.stored? place).or (lastStored? accesses place) := by
  rw [lastStored?, List.reverse_append, List.reverse_singleton, List.singleton_append,
    List.findSome?_cons]
  cases access.stored? place <;> rfl

end Access

namespace Memory

variable {memory other : Memory} {index value : Binary64} {place : Nat}

def after (memory : Memory) : Access → Memory
  | .load _ => memory
  | .store index value => ((memory.store? index value).map Prod.fst).getD memory

@[simp] theorem size_zeroed (size : Nat) : (zeroed size).size = size := by simp [zeroed, Memory.size]

@[simp] theorem size_set (memory : Memory) (slot : Nat) (value : Binary64) :
    (memory.set slot value).size = memory.size := by
  simp [set, Memory.size]

theorem slot?_congr (size : memory.size = other.size) (index : Binary64) :
    memory.slot? index = other.slot? index := by
  rw [slot?, slot?, size]

/-- Up to this size no cell is lost to rounding: the size is a number itself. -/
theorem slot?_iff_of_size_le (small : memory.size ≤ 2 ^ 53) :
    memory.slot? index = some place ↔
      index.integerPart? = some (place : Int) ∧ place < memory.size := by
  have exact : Binary64.IsExact memory.size := Binary64.isExact_of_natAbs_le small
  rw [slot?_eq_some_iff, Binary64.integerPart?_eq_some_iff, and_assoc]
  refine and_congr_right fun finite => ?_
  rw [← Bool.not_eq_true, Binary64.truncate_lt_zero_iff finite,
    Binary64.truncate_lt_ofInt_iff finite exact]
  have converted (above : 0 ≤ index.units.tdiv Binary64.unitsPerOne) :=
    Binary64.toNat_toUInt64_truncate finite above
  have wide : 2 ^ 53 ≤ UInt64.size - 1 := by decide
  constructor
  · rintro ⟨low, high, rfl⟩
    rw [converted (by omega)]
    omega
  · rintro ⟨part, inside⟩
    rw [converted (by omega)]
    omega

theorem load?_of_slot? (named : memory.slot? index = some place) :
    ∃ inside : place < memory.cells.size, memory.load? index = some memory.cells[place] := by
  have inside : place < memory.cells.size := slot?_lt named
  exact ⟨inside, by simp [load?, named, inside]⟩

theorem load?_zeroed (size : Nat) (index : Binary64) :
    (zeroed size).load? index = ((zeroed size).slot? index).map fun _ => .zero := by
  cases named : (zeroed size).slot? index with
  | none => exact (load?_eq_none_iff _ _).mpr named
  | some place =>
    have inside := slot?_lt named
    simp only [load?, named, Option.bind_some, Option.map_some]
    simp only [size_zeroed] at inside
    simp [zeroed, inside]

theorem load?_set (inside : place < memory.size) (value index : Binary64) :
    (memory.set place value).load? index =
      if memory.slot? index = some place then some value else memory.load? index := by
  have same : (memory.set place value).slot? index = memory.slot? index :=
    slot?_congr (size_set _ _ _) index
  rw [load?, load?, same]
  cases memory.slot? index with
  | none => rfl
  | some slot =>
    have bound : place < memory.cells.size := inside
    simp only [Option.bind_some, Option.some.injEq, set, Array.getElem?_setIfInBounds]
    by_cases here : place = slot
    · subst here
      simp [bound]
    · rw [if_neg here, if_neg (Ne.symm here)]

theorem store?_eq_some_iff {stored : Memory} :
    memory.store? index value = some (stored, place) ↔
      memory.slot? index = some place ∧ stored = memory.set place value := by
  simp [store?, and_comm, eq_comm]

theorem size_after (memory : Memory) (access : Access) : (memory.after access).size = memory.size := by
  cases access with
  | load => rfl
  | store index value =>
    simp only [after, store?]
    cases memory.slot? index <;> simp

theorem size_foldl_after (memory : Memory) (accesses : List Access) :
    (accesses.foldl after memory).size = memory.size := by
  induction accesses generalizing memory with
  | nil => rfl
  | cons access rest ih => rw [List.foldl_cons, ih, size_after]

theorem load?_after (small : memory.size ≤ 2 ^ 53) (named : memory.slot? index = some place)
    (access : Access) :
    (memory.after access).load? index = (access.stored? place).or (memory.load? index) := by
  cases access with
  | load => rfl
  | store target value =>
    -- Two numbers with one integer part name one slot.
    have aims : target.integerPart? = some (place : Int) ↔ memory.slot? target = some place := by
      simp [slot?_iff_of_size_le small, slot?_lt named]
    simp only [after, store?, Access.stored?, aims]
    cases found : memory.slot? target with
    | none => simp
    | some slot =>
      simp only [Option.map_some, Option.getD_some, load?_set (slot?_lt found), named,
        Option.some.injEq, eq_comm]
      split <;> simp

theorem load?_foldl_after (small : memory.size ≤ 2 ^ 53) (named : memory.slot? index = some place)
    (accesses : List Access) :
    (accesses.foldl after memory).load? index =
      (Access.lastStored? accesses place).or (memory.load? index) := by
  induction accesses using List.reverseRecOn with
  | nil => rfl
  | append_singleton earlier access ih =>
    have size := size_foldl_after memory earlier
    have kept : (earlier.foldl after memory).slot? index = some place :=
      (slot?_congr size index).trans named
    rw [List.foldl_append, List.foldl_cons, List.foldl_nil, load?_after (size ▸ small) kept, ih,
      Access.lastStored?_append, Option.or_assoc]

structure Addressed (memory : Memory) : Prop where
  slot : ∀ (index : Binary64) (place : Nat), memory.slot? index = some place ↔
    index.integerPart? = some (place : Int) ∧ place < memory.size
  -- All indices strictly between minus one and zero mean the first cell.
  fraction : ∀ index : Binary64, index.isFinite = true → -(Binary64.unitsPerOne : Int) < index.units →
    index.units < 0 → 0 < memory.size → memory.slot? index = some 0
  inside : ∀ (index : Binary64) (place : Nat), memory.slot? index = some place →
    ∃ inside : place < memory.cells.size, memory.load? index = some memory.cells[place]
  outside : ∀ index : Binary64, memory.slot? index = none →
    memory.load? index = none ∧ ∀ value, memory.store? index value = none
  stored : ∀ (index value : Binary64) (stored : Memory) (place : Nat),
    memory.store? index value = some (stored, place) →
    memory.slot? index = some place ∧ stored.size = memory.size ∧
      ∀ other : Binary64, stored.load? other =
        if stored.slot? other = some place then some value else memory.load? other
  -- What the machine does with the memory when it stores, or cannot.
  storing : ∀ (session : Session) (index value : Binary64) (stored : Memory) (place : Nat),
    session.machine.memory = memory → memory.store? index value = some (stored, place) →
    Action.store index value session = .ok place { session with machine.memory := stored }
  refusing : ∀ (session : Session) (index value : Binary64),
    session.machine.memory = memory → memory.slot? index = none →
    Action.store index value session =
      .error (.memoryOutOfBounds index memory.size session.machine.pc) session
  history : ∀ (accesses : List Access) (index : Binary64),
    (accesses.foldl after (zeroed memory.size)).size = memory.size ∧
    (accesses.foldl after (zeroed memory.size)).load? index =
      (index.integerPart?.filter fun place : Int => 0 ≤ place ∧ place < memory.size).map
        fun place => (Access.lastStored? accesses place).getD .zero

theorem store_of_slot? {session : Session} (named : session.machine.memory.slot? index = some place)
    (value : Binary64) :
    Action.store index value session = .ok place
      { session with machine.memory := session.machine.memory.set place value } := by
  simp only [Action.store, Action.machine, Bind.bind, EStateM.bind, named]
  rfl

theorem store_of_slot?_eq_none {session : Session}
    (absent : session.machine.memory.slot? index = none) (value : Binary64) :
    Action.store index value session =
      .error (.memoryOutOfBounds index session.machine.memory.size session.machine.pc) session := by
  simp only [Action.store, Action.machine, Bind.bind, EStateM.bind, absent]
  rfl

theorem load?_history (small : memory.size ≤ 2 ^ 53) (accesses : List Access) (index : Binary64) :
    (accesses.foldl after (zeroed memory.size)).load? index =
      (index.integerPart?.filter fun place : Int => 0 ≤ place ∧ place < memory.size).map
        fun place => (Access.lastStored? accesses place).getD .zero := by
  have size : (zeroed memory.size).size = memory.size := size_zeroed _
  have fresh : (zeroed memory.size).size ≤ 2 ^ 53 := size.trans_le small
  cases named : (zeroed memory.size).slot? index with
  | some place =>
    obtain ⟨part, inside⟩ := (slot?_iff_of_size_le fresh).mp named
    rw [size] at inside
    rw [load?_foldl_after fresh named, load?_zeroed, named, part]
    simp [inside]
  | none =>
    -- An index that names no slot now has never named one, as the size stays what it is.
    have absent : ∀ part, index.integerPart? = some part → ¬(0 ≤ part ∧ part < memory.size) := by
      rintro part same ⟨above, below⟩
      have inside : part.toNat < (zeroed memory.size).size := by omega
      have found := (slot?_iff_of_size_le fresh).mpr
        ⟨same.trans (congrArg some (Int.toNat_of_nonneg above).symm), inside⟩
      rw [named] at found
      cases found
    have refused := (slot?_congr (size_foldl_after (zeroed memory.size) accesses) index).trans named
    rw [(load?_eq_none_iff _ _).mpr refused]
    cases part : index.integerPart? with
    | none => rfl
    | some n => simpa using absent n part

theorem addressed_of_size_le {memory : Memory} (small : memory.size ≤ 2 ^ 53) :
    memory.Addressed where
  slot _ _ := slot?_iff_of_size_le small
  fraction := by
    intro index finite above below some
    refine (slot?_iff_of_size_le small).mpr ⟨Binary64.integerPart?_eq_some_iff.mpr ⟨finite, ?_⟩, some⟩
    rw [← Int.neg_neg index.units, Int.neg_tdiv, Int.tdiv_eq_zero_of_lt (by omega) (by omega)]
    rfl
  inside _ _ := load?_of_slot?
  outside := by
    intro index none
    exact ⟨(load?_eq_none_iff _ _).mpr none, fun value => by simp [store?, none]⟩
  stored := by
    intro index value stored place success
    obtain ⟨named, rfl⟩ := store?_eq_some_iff.mp success
    have size := size_set memory place value
    refine ⟨named, size, fun other => ?_⟩
    rw [load?_set (slot?_lt named), slot?_congr size]
  storing := by
    rintro session index value stored place rfl success
    obtain ⟨named, rfl⟩ := store?_eq_some_iff.mp success
    exact store_of_slot? named value
  refusing := by
    rintro session index value rfl absent
    exact store_of_slot?_eq_none absent value
  history := by
    intro accesses index
    exact ⟨by rw [size_foldl_after, size_zeroed], load?_history small accesses index⟩

theorem addressed_of_size_le_half :
    let memory := zeroed 2
    let accesses := [Access.store ⟨0xbfe0000000000000⟩ ⟨0x4008000000000000⟩]
    let written := accesses.foldl after memory
    memory.size ≤ 2 ^ 53 ∧ memory.Addressed ∧
      written.load? ⟨0x3fe8000000000000⟩ = some ⟨0x4008000000000000⟩ ∧
      written.load? ⟨0x3ff0000000000000⟩ = some .zero := by
  intro memory accesses written
  have small : memory.size ≤ 2 ^ 53 := by decide
  have addressed := addressed_of_size_le small
  have told (index : Binary64) := (addressed.history accesses index).2
  exact ⟨small, addressed, (told _).trans (by decide +kernel), (told _).trans (by decide +kernel)⟩

end Memory

end StackMachine
