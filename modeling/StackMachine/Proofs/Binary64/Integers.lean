import StackMachine.Proofs.Binary64.Rounding

set_option autoImplicit false

namespace StackMachine

namespace Binary64

variable {x : Binary64} {n : Int}

theorem units_ofRank (negative : Bool) {rank : Nat} (finite : rank < infinityRank) :
    (ofRank negative rank).isFinite = true ∧
      (ofRank negative rank).units = if negative then -(rankUnits rank : Int) else rankUnits rank := by
  have small : rank < signBit := Nat.lt_trans finite (by decide)
  rw [isFinite_iff, units, rank_ofRank small, isNegative_ofRank small]
  exact ⟨finite, rfl⟩

def integerPart? (x : Binary64) : Option Int :=
  if x.isFinite then some (x.units.tdiv unitsPerOne) else none

theorem integerPart?_eq_some_iff :
    x.integerPart? = some n ↔ x.isFinite = true ∧ x.units.tdiv unitsPerOne = n := by
  simp [integerPart?]

theorem exists_truncate (finite : x.isFinite = true) :
    ∃ whole < infinityRank, x.truncate = ofRank x.isNegative whole ∧
      rankUnits whole = rankUnits x.rank / unitsPerOne * unitsPerOne := by
  obtain ⟨whole, below, units⟩ := exists_whole_rank x.rank
  have bounded := Nat.lt_of_le_of_lt below (isFinite_iff.mp finite)
  refine ⟨whole, bounded, ?_, units⟩
  rw [truncate, if_pos finite, ← units, ofUnitsRatio_of_exact _ bounded]

theorem tdiv_units (x : Binary64) : x.units.tdiv unitsPerOne =
    if x.isNegative then -((rankUnits x.rank / unitsPerOne : Nat) : Int)
    else ((rankUnits x.rank / unitsPerOne : Nat) : Int) := by
  rw [units]
  split
  next => rw [Int.neg_tdiv, Int.ofNat_tdiv]
  next => rw [Int.ofNat_tdiv]

theorem units_truncate (finite : x.isFinite = true) :
    x.truncate.isFinite = true ∧ x.truncate.units = x.units.tdiv unitsPerOne * unitsPerOne := by
  obtain ⟨whole, bounded, same, units⟩ := exists_truncate finite
  obtain ⟨rank, value⟩ := units_ofRank x.isNegative bounded
  rw [same, value, units, tdiv_units]
  refine ⟨rank, ?_⟩
  split
  next => rw [Int.natCast_mul, Int.neg_mul]
  next => rw [Int.natCast_mul]

def IsExact (n : Int) : Prop :=
  ∃ rank < infinityRank, rankUnits rank = n.natAbs * unitsPerOne

theorem IsExact.ofInt (exact : IsExact n) :
    (ofInt n).isFinite = true ∧ (ofInt n).units = n * unitsPerOne := by
  obtain ⟨rank, bounded, value⟩ := exact
  have same : Binary64.ofInt n = ofRank (decide (n < 0)) rank := by
    rw [Binary64.ofInt, ← value, ofUnitsRatio_of_exact _ bounded]
  obtain ⟨finite, units⟩ := units_ofRank (decide (n < 0)) bounded
  rw [same, units, value, Int.natCast_mul]
  refine ⟨finite, ?_⟩
  by_cases below : n < 0
  · rw [if_pos (decide_eq_true below), Int.ofNat_natAbs_of_nonpos below.le, ← Int.neg_mul, Int.neg_neg]
  · rw [if_neg (by simpa using below), Int.natAbs_of_nonneg (Int.not_lt.mp below)]

theorem isExact_of_natAbs_le (small : n.natAbs ≤ 2 ^ 53) : IsExact n := by
  obtain ⟨width, unit⟩ := exists_width
  have double : 2 * binade = 2 ^ 53 := by decide
  obtain ⟨rank, value⟩ : ∃ rank, rankUnits rank = n.natAbs * unitsPerOne := by
    obtain less | same := small.lt_or_eq
    · rw [unit]
      exact exists_rank (double ▸ less) width
    · -- The bound itself has one bit more than a mantissa, but all its lower bits are zero.
      obtain ⟨rank, value⟩ := exists_rank (show binade < 2 * binade by decide) (width + 1)
      refine ⟨rank, ?_⟩
      rw [value, same, ← double, unit]
      ring
  refine ⟨rank, ?_, value⟩
  have finite : 2 ^ 53 * unitsPerOne < rankUnits infinityRank := by decide +kernel
  rw [← rankUnits_strictMono.lt_iff_lt, value]
  exact Nat.lt_of_le_of_lt (Nat.mul_le_mul_right _ small) finite

theorem isExact_tdiv_units (finite : x.isFinite = true) : IsExact (x.units.tdiv unitsPerOne) := by
  obtain ⟨whole, below, units⟩ := exists_whole_rank x.rank
  refine ⟨whole, Nat.lt_of_le_of_lt below (isFinite_iff.mp finite), ?_⟩
  rw [units, tdiv_units]
  split
  next => rw [Int.natAbs_neg, Int.natAbs_natCast]
  next => rw [Int.natAbs_natCast]

theorem truncate_lt_ofInt_iff (finite : x.isFinite = true) (exact : IsExact n) :
    x.truncate.lt (ofInt n) = true ↔ x.units.tdiv unitsPerOne < n := by
  obtain ⟨whole, value⟩ := units_truncate finite
  obtain ⟨other, integer⟩ := exact.ofInt
  rw [lt_iff_of_isFinite whole other, value, integer]
  exact Int.mul_lt_mul_right (Int.natCast_pos.mpr unitsPerOne_pos)

theorem truncate_lt_zero_iff (finite : x.isFinite = true) :
    x.truncate.lt zero = true ↔ x.units.tdiv unitsPerOne < 0 := by
  have same : zero = ofInt 0 := by decide +kernel
  rw [same]
  exact truncate_lt_ofInt_iff finite (isExact_of_natAbs_le (by decide))

section

variable {count : Nat}

theorem orderKey_ofInt (count : Nat) :
    (ofInt count).isNaN = false ∧
      (ofInt count).orderKey = nearestRank (count * unitsPerOne) 1 := by
  have bound : nearestRank (count * unitsPerOne) 1 ≤ infinityRank := Nat.min_le_left _ _
  have small : nearestRank (count * unitsPerOne) 1 < signBit :=
    Nat.lt_of_le_of_lt bound (by decide)
  have same : ofInt count = ofRank false (nearestRank (count * unitsPerOne) 1) := by
    rw [ofInt, ofUnitsRatio, Int.natAbs_natCast, decide_eq_false (Int.not_lt.mpr (Int.natCast_nonneg count))]
  rw [same, isNaN, orderKey, rank_ofRank small, isNegative_ofRank small]
  exact ⟨decide_eq_false (Nat.not_lt.mpr bound), rfl⟩

theorem lt_ofInt_iff :
    x.lt (ofInt count) = true ↔
      x.isNaN = false ∧ x.orderKey < nearestRank (count * unitsPerOne) 1 := by
  obtain ⟨number, key⟩ := orderKey_ofInt count
  simp [lt, number, key]

theorem lt_ofInt_mono {more : Nat} (le : count ≤ more) (below : x.lt (ofInt count) = true) :
    x.lt (ofInt more) = true := by
  rw [lt_ofInt_iff] at below ⊢
  -- A larger count may be rounded down, but not below a smaller one.
  have ordered : nearestRank (count * unitsPerOne) 1 ≤ nearestRank (more * unitsPerOne) 1 :=
    nearestRank_mono 1 (Nat.mul_le_mul_right _ le)
  exact ⟨below.1, by omega⟩

theorem units_lt_of_lt_ofInt (finite : x.isFinite = true) (below : x.lt (ofInt count) = true) :
    x.units < count * unitsPerOne := by
  have key := (lt_ofInt_iff.mp below).2
  have self : nearestRank (rankUnits x.rank) 1 = x.rank := by
    simpa using nearestRank_of_exact (isFinite_iff.mp finite) Nat.one_pos
  have zero : 0 < rankUnits x.rank ↔ 0 < x.rank := by
    simpa using rankUnits_strictMono.lt_iff_lt (a := 0) (b := x.rank)
  rw [← Int.natCast_mul]
  -- Otherwise the count would be rounded to a number that is not above this one.
  by_contra above
  have ordered : nearestRank (count * unitsPerOne) 1 ≤ nearestRank (rankUnits x.rank) 1 := by
    refine nearestRank_mono 1 ?_
    rw [units] at above
    split at above <;> omega
  rw [units] at above
  rw [orderKey] at key
  split at key <;> rename_i sign
  · rw [if_pos sign] at above
    omega
  · omega

theorem lt_of_truncate_lt_ofInt (finite : x.isFinite = true)
    (below : x.truncate.lt (ofInt count) = true) : x.units.tdiv unitsPerOne < count := by
  obtain ⟨whole, value⟩ := units_truncate finite
  have ordered := units_lt_of_lt_ofInt whole below
  rw [value] at ordered
  exact (Int.mul_lt_mul_right (Int.natCast_pos.mpr unitsPerOne_pos)).mp ordered

theorem toNat_toUInt64_truncate (finite : x.isFinite = true)
    (above : 0 ≤ x.units.tdiv unitsPerOne) :
    x.truncate.toUInt64.toNat = min (UInt64.size - 1) (x.units.tdiv unitsPerOne).toNat := by
  obtain ⟨whole, bounded, same, value⟩ := exists_truncate finite
  have small : whole < signBit := Nat.lt_trans bounded (by decide)
  have number := isFinite_iff_not.mp (units_truncate finite).1
  rw [tdiv_units] at above ⊢
  generalize rankUnits x.rank / unitsPerOne = part at above value
  simp only [toUInt64, number, Bool.false_or, Bool.false_eq_true, if_false]
  rw [same, isNegative_ofRank small, rank_ofRank small, value,
    Nat.mul_div_cancel _ unitsPerOne_pos]
  split
  next negative =>
    rw [if_pos negative] at above
    rw [Int.toNat_of_nonpos (by omega), Nat.min_zero, UInt64.toNat_zero]
  next positive =>
    rw [Int.toNat_natCast, UInt64.toNat_ofNat_of_lt']
    exact Nat.lt_of_le_of_lt (Nat.min_le_left _ _) (by decide)

end

/-- The integer part, an infinity being as far away as the range of 64 bits reaches; zero for a
NaN. -/
def clampedPart (x : Binary64) : Int :=
  if x.isNaN then 0
  else if x.isInfinite then if x.isNegative then -2 ^ 63 else 2 ^ 63
  else max (-2 ^ 63) (min (2 ^ 63) (x.units.tdiv unitsPerOne))

theorem toInt64_of_isFinite (finite : x.isFinite = true) :
    x.toInt64 = Int64.ofInt (max (-2 ^ 63) (min (2 ^ 63 - 1) (x.units.tdiv unitsPerOne))) := by
  obtain ⟨number, bounded⟩ := isFinite_iff_not.mp finite
  simp only [toInt64, number, bounded, Bool.false_eq_true, if_false]
  rfl

/-- The largest integer of 64 bits is no number. All others that a number is turned into are, and
stand for its integer part within the range. -/
theorem toInt64_cases (x : Binary64) :
    x.toInt64 = Int64.maxValue ∧ x.clampedPart = 2 ^ 63 ∨
      x.toInt64.toInt = x.clampedPart ∧ IsExact x.clampedPart := by
  have lowest : IsExact (-2 ^ 63) := ⟨(ofInt (-2 ^ 63)).rank, by decide +kernel, by decide +kernel⟩
  by_cases nan : x.isNaN = true
  · refine .inr ?_
    rw [toInt64, clampedPart, if_pos nan, if_pos nan]
    exact ⟨rfl, isExact_of_natAbs_le (by decide)⟩
  by_cases infinite : x.isInfinite = true
  · rw [toInt64, clampedPart, if_neg nan, if_neg nan, if_pos infinite, if_pos infinite]
    split
    next => exact .inr ⟨rfl, lowest⟩
    next => exact .inl ⟨rfl, rfl⟩
  have finite := isFinite_iff_not.mpr ⟨by simpa using nan, by simpa using infinite⟩
  have exact := isExact_tdiv_units finite
  rw [toInt64_of_isFinite finite, clampedPart, if_neg nan, if_neg infinite]
  generalize x.units.tdiv unitsPerOne = part at exact
  -- Above, the range ends at an integer that is no number; below, at one that is.
  by_cases above : 2 ^ 63 ≤ part
  · refine .inl ⟨?_, by omega⟩
    rw [show max (-2 ^ 63) (min (2 ^ 63 - 1) part) = 2 ^ 63 - 1 by omega]
    rfl
  · refine .inr ?_
    rw [show min (2 ^ 63 - 1) part = part by omega, show min (2 ^ 63) part = part by omega]
    refine ⟨Int64.toInt_ofInt_of_le (by omega) (by omega), ?_⟩
    obtain below | within : part < -2 ^ 63 ∨ -2 ^ 63 ≤ part := by omega
    · rw [max_eq_left below.le]
      exact lowest
    · rw [max_eq_right within]
      exact exact

theorem toInt64_ofInt_toInt64 (x : Binary64) : (ofInt x.toInt64.toInt).toInt64 = x.toInt64 := by
  obtain ⟨largest, -⟩ | ⟨same, exact⟩ := x.toInt64_cases
  · -- The largest integer goes up to `2 ^ 63` and is cut off again.
    rw [largest]
    decide +kernel
  · obtain ⟨finite, value⟩ := (same ▸ exact).ofInt
    have lower := x.toInt64.le_toInt
    have upper := x.toInt64.toInt_lt
    have unit : (unitsPerOne : Int) ≠ 0 := Int.natCast_ne_zero.mpr unitsPerOne_pos.ne'
    rw [toInt64_of_isFinite finite, value, Int.mul_tdiv_cancel _ unit, min_eq_right (by omega),
      max_eq_right lower, Int64.ofInt_toInt]

theorem ofInt_toInt64 (x : Binary64) :
    ofInt x.toInt64.toInt = ofInt x.clampedPart ∧ (ofInt x.clampedPart).isFinite = true ∧
      (ofInt x.clampedPart).units = x.clampedPart * unitsPerOne := by
  obtain ⟨largest, top⟩ | ⟨same, exact⟩ := x.toInt64_cases
  · rw [largest, top]
    decide +kernel
  · rw [same]
    exact ⟨rfl, exact.ofInt⟩

end Binary64

end StackMachine
