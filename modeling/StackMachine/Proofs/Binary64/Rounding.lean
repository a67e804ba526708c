import Mathlib.Order.Monotone.Basic
import Mathlib.Tactic.Ring
import StackMachine.Proofs.Binary64.Difference

set_option autoImplicit false

namespace StackMachine

namespace Binary64

theorem binade_eq : binade = 2 ^ 52 := by decide

/-- The value of a rank that is given by an exponent and a mantissa. The mantissa may be the first
one of the next exponent. -/
theorem rankUnits_place {exponent mantissa : Nat} (small : mantissa ≤ 2 * binade)
    (normal : exponent = 0 ∨ binade ≤ mantissa) :
    rankUnits (exponent * binade + mantissa) = mantissa * 2 ^ exponent := by
  have width : 0 < binade := by decide
  by_cases below : mantissa < binade
  · obtain rfl := normal.resolve_right (Nat.not_le.mpr below)
    simp [rankUnits, below]
  obtain ⟨rest, rfl⟩ := Nat.exists_eq_add_of_le (Nat.not_lt.mp below)
  have large : ¬exponent * binade + (binade + rest) < binade := by omega
  have place : exponent * binade + (binade + rest) = rest + binade * (exponent + 1) := by ring
  rw [rankUnits, if_neg large, place, Nat.add_mul_div_left _ _ width, Nat.add_mul_mod_self_left,
    Nat.shiftLeft_eq]
  obtain within | rfl : rest < binade ∨ rest = binade := by omega
  · rw [Nat.div_eq_of_lt within, Nat.mod_eq_of_lt within]
    congr 2
    omega
  · rw [Nat.div_self width, Nat.mod_self, show 1 + (exponent + 1) - 1 = exponent + 1 by omega]
    ring

theorem exists_place (rank : Nat) :
    ∃ exponent mantissa, rank = exponent * binade + mantissa ∧ mantissa < 2 * binade ∧
      (exponent = 0 ∨ binade ≤ mantissa) := by
  have width : 0 < binade := by decide
  by_cases small : rank < binade
  · exact ⟨0, rank, by simp, by omega, .inl rfl⟩
  · have split := Nat.div_add_mod rank binade
    have rest := Nat.mod_lt rank width
    have some : 1 ≤ rank / binade := (Nat.one_le_div_iff width).mpr (Nat.not_lt.mp small)
    refine ⟨rank / binade - 1, binade + rank % binade, ?_, by omega, .inr (Nat.le_add_right _ _)⟩
    rw [Nat.sub_mul, Nat.mul_comm (rank / binade)]
    have := Nat.le_mul_of_pos_right binade some
    omega

theorem rankUnits_strictMono : StrictMono rankUnits := by
  refine strictMono_nat_of_lt_succ fun rank => ?_
  obtain ⟨exponent, mantissa, rfl, small, normal⟩ := exists_place rank
  rw [rankUnits_place small.le normal, Nat.add_assoc,
    rankUnits_place (Nat.succ_le_of_lt small) (normal.imp_right Nat.le_succ_of_le)]
  exact Nat.mul_lt_mul_of_pos_right (Nat.lt_succ_self _) (Nat.two_pow_pos _)

@[simp] theorem rankUnits_zero : rankUnits 0 = 0 := by decide

def floorRank (units : Nat) : Nat :=
  (units.log2 - 52) * binade + units / 2 ^ (units.log2 - 52)

theorem floorRank_place (units : Nat) :
    units / 2 ^ (units.log2 - 52) < 2 * binade ∧
      (units.log2 - 52 = 0 ∨ binade ≤ units / 2 ^ (units.log2 - 52)) := by
  have double : 2 * binade = 2 ^ 53 := by decide
  constructor
  · rw [double, Nat.div_lt_iff_lt_mul (Nat.two_pow_pos _), ← Nat.pow_add]
    exact Nat.lt_of_lt_of_le Nat.lt_log2_self (Nat.pow_le_pow_right (by decide) (by omega))
  · refine (Nat.eq_zero_or_pos _).imp_right fun shifted => ?_
    have some : units ≠ 0 := by
      rintro rfl
      simp at shifted
    rw [binade_eq, Nat.le_div_iff_mul_le (Nat.two_pow_pos _), ← Nat.pow_add]
    exact Nat.le_trans (Nat.pow_le_pow_right (by decide) (by omega)) (Nat.log2_self_le some)

theorem rankUnits_floorRank (units : Nat) :
    rankUnits (floorRank units) = units / 2 ^ (units.log2 - 52) * 2 ^ (units.log2 - 52) := by
  obtain ⟨small, normal⟩ := floorRank_place units
  exact rankUnits_place small.le normal

theorem rankUnits_floorRank_succ (units : Nat) :
    rankUnits (floorRank units + 1) =
      (units / 2 ^ (units.log2 - 52) + 1) * 2 ^ (units.log2 - 52) := by
  obtain ⟨small, normal⟩ := floorRank_place units
  rw [floorRank, Nat.add_assoc,
    rankUnits_place (Nat.succ_le_of_lt small) (normal.imp_right Nat.le_succ_of_le)]

theorem rankUnits_floorRank_le (units : Nat) : rankUnits (floorRank units) ≤ units := by
  rw [rankUnits_floorRank]
  exact Nat.div_mul_le_self _ _

theorem lt_rankUnits_floorRank_succ (units : Nat) : units < rankUnits (floorRank units + 1) := by
  rw [rankUnits_floorRank_succ, Nat.mul_comm]
  exact Nat.lt_mul_div_succ _ (Nat.two_pow_pos _)

theorem floorRank_rankUnits (rank : Nat) : floorRank (rankUnits rank) = rank := by
  have below := rankUnits_strictMono.le_iff_le.mp (rankUnits_floorRank_le (rankUnits rank))
  have above := rankUnits_strictMono.lt_iff_lt.mp (lt_rankUnits_floorRank_succ (rankUnits rank))
  omega

theorem floorRank_mono : Monotone floorRank := by
  intro few many le
  have between := (rankUnits_floorRank_le few).trans_lt
    (le.trans_lt (lt_rankUnits_floorRank_succ many))
  have := rankUnits_strictMono.lt_iff_lt.mp between
  omega

/-- A quotient that is nearer to the upper one of its neighbours, or halfway and that one is even. -/
def RoundsUp (numerator denominator : Nat) : Prop :=
  let rank := floorRank (numerator / denominator)
  let middle := denominator * (rankUnits rank + rankUnits (rank + 1))
  middle < 2 * numerator ∨ middle = 2 * numerator ∧ rank % 2 = 1

instance (numerator denominator : Nat) : Decidable (RoundsUp numerator denominator) :=
  inferInstanceAs (Decidable (_ ∨ _))

theorem nearestRank_eq (numerator denominator : Nat) :
    nearestRank numerator denominator = min infinityRank
      (floorRank (numerator / denominator) + if RoundsUp numerator denominator then 1 else 0) := by
  obtain ⟨exponent, binary⟩ : ∃ exponent, (numerator / denominator).log2 - 52 = exponent := ⟨_, rfl⟩
  -- The neighbours lie one step apart, both taken times the denominator.
  obtain ⟨step, shifted⟩ : ∃ step, denominator * 2 ^ exponent = step := ⟨_, rfl⟩
  have split : step * (numerator / step) + numerator % step = numerator := Nat.div_add_mod _ _
  have below : numerator / denominator / 2 ^ exponent = numerator / step := by
    rw [Nat.div_div_eq_div_mul, shifted]
  have rank : floorRank (numerator / denominator) = exponent * binade + numerator / step := by
    rw [floorRank, binary, below]
  have middle : denominator * (rankUnits (floorRank (numerator / denominator)) +
      rankUnits (floorRank (numerator / denominator) + 1)) =
        2 * (step * (numerator / step)) + step := by
    rw [rankUnits_floorRank, rankUnits_floorRank_succ, binary, below, ← shifted]
    ring
  have even : floorRank (numerator / denominator) % 2 = numerator / step % 2 := by
    have double : exponent * binade = 2 * (exponent * 2 ^ 51) := by
      rw [binade_eq]
      ring
    rw [rank, double, Nat.mul_add_mod]
  have up : RoundsUp numerator denominator ↔ step < 2 * (numerator % step) ∨
      2 * (numerator % step) = step ∧ numerator / step % 2 = 1 := by
    simp only [RoundsUp, middle, even]
    omega
  simp only [nearestRank, binary, Nat.shiftLeft_eq, shifted, rank, up]
  congr 2
  change cond _ _ _ = _
  rw [Bool.cond_eq_ite]
  simp only [Bool.or_eq_true, Bool.and_eq_true, decide_eq_true_eq, beq_iff_eq]

theorem nearestRank_mono (denominator : Nat) : Monotone (nearestRank · denominator) := by
  intro few many le
  simp only [nearestRank_eq]
  refine min_le_min_left _ ?_
  have ordered : floorRank (few / denominator) ≤ floorRank (many / denominator) :=
    floorRank_mono (Nat.div_le_div_right le)
  -- Rounding up reaches the next rank at most, so that only equal lower neighbours are left.
  obtain lower | same := ordered.lt_or_eq
  · split <;> split <;> omega
  · have kept : RoundsUp few denominator → RoundsUp many denominator := by
      simp only [RoundsUp, same]
      omega
    rw [same]
    split
    next up => rw [if_pos (kept up)]
    next => exact Nat.add_le_add_left (Nat.zero_le _) _

theorem nearestRank_of_exact {rank denominator : Nat} (finite : rank < infinityRank)
    (some : 0 < denominator) :
    nearestRank (rankUnits rank * denominator) denominator = rank := by
  have grows : rankUnits rank < rankUnits (rank + 1) := rankUnits_strictMono (Nat.lt_succ_self _)
  have below : 2 * (rankUnits rank * denominator) <
      denominator * (rankUnits rank + rankUnits (rank + 1)) := by
    rw [show 2 * (rankUnits rank * denominator) = denominator * (rankUnits rank + rankUnits rank) by
      ring]
    exact Nat.mul_lt_mul_of_pos_left (Nat.add_lt_add_left grows _) some
  have exact : ¬RoundsUp (rankUnits rank * denominator) denominator := by
    simp only [RoundsUp, Nat.mul_div_cancel _ some, floorRank_rankUnits]
    omega
  rw [nearestRank_eq, if_neg exact, Nat.mul_div_cancel _ some, floorRank_rankUnits]
  exact Nat.min_eq_right finite.le

theorem ofUnitsRatio_of_exact (negative : Bool) {rank : Nat} (finite : rank < infinityRank) :
    ofUnitsRatio negative (rankUnits rank) 1 = ofRank negative rank := by
  have exact : nearestRank (rankUnits rank) 1 = rank := by
    simpa using nearestRank_of_exact finite Nat.one_pos
  rw [ofUnitsRatio, exact]

theorem exists_rank {mantissa : Nat} (small : mantissa < 2 * binade) (exponent : Nat) :
    ∃ rank, rankUnits rank = mantissa * 2 ^ exponent := by
  induction exponent generalizing mantissa with
  | zero => exact ⟨_, rankUnits_place small.le (.inl rfl)⟩
  | succ exponent ih =>
    by_cases normal : binade ≤ mantissa
    · exact ⟨_, rankUnits_place small.le (.inr normal)⟩
    · -- A mantissa that is too short gives up one power of the exponent.
      obtain ⟨rank, units⟩ := @ih (2 * mantissa) (by omega)
      refine ⟨rank, ?_⟩
      rw [units]
      ring

theorem exists_width : ∃ width, unitsPerOne = 2 ^ width := by
  unfold unitsPerOne
  generalize 1074 = width
  exact ⟨width, Nat.one_shiftLeft width⟩

theorem unitsPerOne_pos : 0 < unitsPerOne := by
  obtain ⟨width, unit⟩ := exists_width
  rw [unit]
  exact Nat.two_pow_pos _

theorem exists_whole_rank (rank : Nat) :
    ∃ whole ≤ rank, rankUnits whole = rankUnits rank / unitsPerOne * unitsPerOne := by
  obtain ⟨whole, units⟩ : ∃ whole, rankUnits whole = rankUnits rank / unitsPerOne * unitsPerOne := by
    obtain ⟨width, unit⟩ := exists_width
    obtain ⟨exponent, mantissa, rfl, small, normal⟩ := exists_place rank
    rw [rankUnits_place small.le normal, unit]
    by_cases whole : width ≤ exponent
    · -- Such a value has no fraction.
      refine ⟨_, (rankUnits_place small.le normal).trans (Nat.div_mul_cancel ?_).symm⟩
      exact Nat.dvd_mul_left_of_dvd (Nat.pow_dvd_pow 2 whole) _
    · obtain ⟨less, sum⟩ := Nat.exists_eq_add_of_le (Nat.le_of_not_le whole)
      have cut : mantissa * 2 ^ exponent / 2 ^ width = mantissa / 2 ^ less := by
        rw [sum, Nat.pow_add, Nat.mul_comm mantissa, Nat.mul_div_mul_left _ _ (Nat.two_pow_pos _)]
      rw [cut]
      exact exists_rank (Nat.lt_of_le_of_lt (Nat.div_le_self _ _) small) width
  refine ⟨whole, ?_, units⟩
  rw [← rankUnits_strictMono.le_iff_le, units]
  exact Nat.div_mul_le_self _ _

variable {x y : Binary64}

theorem isFinite_iff : x.isFinite = true ↔ x.rank < infinityRank := decide_eq_true_iff

theorem ofRank_self (x : Binary64) : ofRank x.isNegative x.rank = x :=
  eq_of_rank (isNegative_ofRank x.rank_lt) (rank_ofRank x.rank_lt)

theorem rankUnits_pos {x : Binary64} (some : x.isZero = false) : 0 < rankUnits x.rank := by
  have rank : x.rank ≠ 0 := by simpa [isZero] using some
  simpa using rankUnits_strictMono (Nat.pos_of_ne_zero rank)

theorem eq_of_isZero (zero : x.isZero = true) : x = ofRank x.isNegative 0 := by
  have rank : x.rank = 0 := by simpa [isZero] using zero
  rw [← rank, ofRank_self]

def unsigned (x : Binary64) : Binary64 := if x = zero.neg then zero else x

theorem unsigned_of_isZero (zero : x.isZero = true) : x.unsigned = .zero := by
  have same := eq_of_isZero zero
  cases sign : x.isNegative
  all_goals
    rw [sign] at same
    rw [same]
    decide

theorem unsigned_of_not_isZero (some : x.isZero = false) : x.unsigned = x := by
  refine if_neg ?_
  rintro rfl
  exact absurd some (by decide)

theorem isFinite_iff_not : x.isFinite = true ↔ x.isNaN = false ∧ x.isInfinite = false := by
  rw [isFinite_iff, isNaN, isInfinite, decide_eq_false_iff_not, beq_eq_false_iff_ne]
  omega

theorem units_eq_zero_iff : x.units = 0 ↔ x.isZero = true := by
  have zero : rankUnits x.rank = 0 ↔ x.rank = 0 := by
    simpa using rankUnits_strictMono.injective.eq_iff (a := x.rank) (b := 0)
  rw [units, isZero, beq_iff_eq]
  split <;> omega

theorem ofUnitsRatio_units (finite : x.isFinite = true) (some : x.isZero = false) :
    ofUnitsRatio (decide (x.units < 0)) x.units.natAbs 1 = x := by
  have positive := rankUnits_pos some
  have sign : decide (x.units < 0) = x.isNegative := by
    rw [units]
    cases x.isNegative <;> simp [positive]
  have magnitude : x.units.natAbs = rankUnits x.rank := by
    rw [units]
    split <;> simp
  rw [sign, magnitude, ofUnitsRatio_of_exact _ (isFinite_iff.mp finite), ofRank_self]

/-- A sum with zero is not rounded, but a zero loses its sign in it, and a NaN its pattern. -/
theorem add_zero (x : Binary64) : x.add zero = if x.isNaN then nan else x.unsigned := by
  have none : zero.isNaN = false ∧ zero.isInfinite = false := by decide
  simp only [add, none, Bool.or_false]
  by_cases nan : x.isNaN = true
  · rw [if_pos nan, if_pos nan]
  rw [if_neg nan, if_neg nan]
  by_cases infinite : x.isInfinite = true
  · have some : x.isZero = false := by
      rw [isZero, rank_of_isInfinite infinite]
      decide
    rw [if_pos infinite, unsigned_of_not_isZero some]
    simp
  · have finite := isFinite_iff_not.mpr ⟨by simpa using nan, by simpa using infinite⟩
    have nothing : zero.units = 0 := by decide
    rw [if_neg infinite]
    simp only [Bool.false_eq_true, if_false, addFinite, nothing, Int.add_zero]
    split
    next void =>
      rw [unsigned_of_isZero (units_eq_zero_iff.mp void)]
      have positive : zero.isNegative = false := by decide
      rw [positive, Bool.and_false]
      rfl
    next some =>
      have some : x.isZero = false := by simpa [units_eq_zero_iff] using some
      rw [unsigned_of_not_isZero some, ofUnitsRatio_units finite some]

theorem lt_iff_of_isFinite (finite : x.isFinite = true) (other : y.isFinite = true) :
    x.lt y = true ↔ x.units < y.units := by
  have order (a b : Nat) : rankUnits a < rankUnits b ↔ a < b := rankUnits_strictMono.lt_iff_lt
  have zero (a : Nat) : 0 < rankUnits a ↔ 0 < a := by simpa using order 0 a
  have compared : x.lt y = true ↔ x.orderKey < y.orderKey := by
    simp [lt, isFinite_iff_not.mp finite, isFinite_iff_not.mp other]
  rw [compared, orderKey, orderKey, units, units]
  have := order x.rank y.rank
  have := order y.rank x.rank
  have := zero x.rank
  have := zero y.rank
  split <;> split <;> omega

end Binary64

end StackMachine
