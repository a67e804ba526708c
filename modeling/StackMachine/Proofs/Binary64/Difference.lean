import StackMachine.Binary64.Basic

set_option autoImplicit false

namespace StackMachine

namespace Binary64

variable {x y : Binary64}

theorem rank_lt (x : Binary64) : x.rank < signBit := Nat.mod_lt _ (by decide)

theorem toNat_ofRank {negative : Bool} {rank : Nat} (small : rank < signBit) :
    (ofRank negative rank).bits.toNat = if negative then signBit + rank else rank := by
  simp only [signBit] at small ⊢
  simp only [ofRank, UInt64.toNat_ofNat', signBit]
  split <;> omega

theorem rank_ofRank {negative : Bool} {rank : Nat} (small : rank < signBit) :
    (ofRank negative rank).rank = rank := by
  rw [Binary64.rank, toNat_ofRank small]
  split
  next => rw [Nat.add_mod_left, Nat.mod_eq_of_lt small]
  next => exact Nat.mod_eq_of_lt small

theorem isNegative_ofRank {negative : Bool} {rank : Nat} (small : rank < signBit) :
    (ofRank negative rank).isNegative = negative := by
  rw [isNegative, toNat_ofRank small]
  cases negative
  · simpa using small
  · simp

theorem eq_of_rank (sign : x.isNegative = y.isNegative) (rank : x.rank = y.rank) : x = y := by
  have left := x.bits.toNat_lt
  have right := y.bits.toNat_lt
  rw [isNegative, isNegative, decide_eq_decide] at sign
  simp only [Binary64.rank, signBit] at sign rank
  have bits : x.bits.toNat = y.bits.toNat := by omega
  cases x
  cases y
  exact congrArg mk (UInt64.toNat_inj.mp bits)

@[simp] theorem rank_neg (x : Binary64) : x.neg.rank = x.rank := rank_ofRank x.rank_lt

@[simp] theorem isNegative_neg (x : Binary64) : x.neg.isNegative = !x.isNegative :=
  isNegative_ofRank x.rank_lt

@[simp] theorem isNaN_neg (x : Binary64) : x.neg.isNaN = x.isNaN := by simp [isNaN]

@[simp] theorem isInfinite_neg (x : Binary64) : x.neg.isInfinite = x.isInfinite := by
  simp [isInfinite]

@[simp] theorem units_neg (x : Binary64) : x.neg.units = -x.units := by
  cases sign : x.isNegative <;> simp [units, sign]

theorem abs_eq_of_rank (same : x.rank = y.rank) : x.abs = y.abs := congrArg (ofRank false) same

theorem rank_of_isInfinite (infinite : x.isInfinite = true) : x.rank = infinityRank := by
  simpa [isInfinite] using infinite

theorem rank_ofUnitsRatio (negative : Bool) (numerator denominator : Nat) :
    (ofUnitsRatio negative numerator denominator).rank = nearestRank numerator denominator :=
  rank_ofRank (Nat.lt_of_le_of_lt (Nat.min_le_left _ _) (by decide))

theorem rank_addFinite (x y : Binary64) :
    (addFinite x y).rank =
      if x.units + y.units = 0 then 0 else nearestRank (x.units + y.units).natAbs 1 := by
  simp only [addFinite]
  split
  next => exact rank_ofRank (by decide)
  next => exact rank_ofUnitsRatio _ _ _

theorem rank_addFinite_neg (x y : Binary64) :
    (addFinite x y.neg).rank = (addFinite y x.neg).rank := by
  have opposite : y.units + -x.units = -(x.units + -y.units) := by omega
  simp only [rank_addFinite, units_neg, opposite, Int.natAbs_neg, Int.neg_eq_zero]

theorem abs_sub_comm (x y : Binary64) : (x.sub y).abs = (y.sub x).abs := by
  apply abs_eq_of_rank
  simp only [sub, add, isNaN_neg, isInfinite_neg, isNegative_neg, Bool.or_comm y.isNaN]
  by_cases none : (x.isNaN || y.isNaN) = true
  · simp only [none, if_true]
  simp only [none]
  cases left : x.isInfinite <;> cases right : y.isInfinite
  · simpa using rank_addFinite_neg x y
  · simp
  · simp
  · have same := (rank_of_isInfinite left).trans (rank_of_isInfinite right).symm
    cases x.isNegative <;> cases y.isNegative <;> simp [same]

theorem orderKey_eq_iff : x.orderKey = y.orderKey ↔ x = y ∨ x.rank = 0 ∧ y.rank = 0 := by
  constructor
  · intro same
    by_cases signs : x.isNegative = y.isNegative
    · have ranks : x.rank = y.rank := by
        simp only [orderKey, signs] at same
        split at same <;> omega
      exact .inl (eq_of_rank signs ranks)
    · simp only [orderKey] at same
      cases left : x.isNegative <;> cases right : y.isNegative <;>
        simp [left, right] at signs same ⊢ <;> omega
  · rintro (rfl | ⟨left, right⟩)
    · rfl
    · simp [orderKey, left, right]

theorem units_eq_of_orderKey (same : x.orderKey = y.orderKey) : x.units = y.units := by
  obtain rfl | ⟨left, right⟩ := orderKey_eq_iff.mp same
  · rfl
  · have zero : rankUnits 0 = 0 := by decide
    simp [units, left, right, zero]

theorem abs_sub_of_eqv (same : x.eqv y = true) (left : x.isInfinite = false)
    (right : y.isInfinite = false) : (x.sub y).abs = zero := by
  simp only [eqv, Bool.and_eq_true, Bool.not_eq_true', beq_iff_eq] at same
  obtain ⟨⟨number, other⟩, place⟩ := same
  have units := units_eq_of_orderKey place
  have nothing : x.units + -y.units = 0 := by rw [units, Int.add_right_neg]
  have rank : (x.sub y).rank = 0 := by
    simp [sub, add, number, other, left, right, rank_addFinite, nothing]
  rw [abs, rank]
  rfl

theorem sub_of_infinite (infinite : x.isInfinite = true) : x.sub x = nan := by
  simp [sub, add, infinite]

theorem eqv_of_not_lt (number : x.isNaN = false) (other : y.isNaN = false)
    (below : x.lt y = false) (above : y.lt x = false) : x.eqv y = true := by
  simp only [lt, eqv, number, other, Bool.not_false, Bool.true_and, decide_eq_false_iff_not,
    beq_iff_eq] at below above ⊢
  omega

theorem lt_asymm (below : x.lt y = true) : y.lt x = false := by
  simp only [lt, Bool.and_eq_true, Bool.not_eq_true', decide_eq_true_eq] at below
  simp only [lt, below.1.1, below.1.2, Bool.not_false, Bool.true_and, decide_eq_false_iff_not]
  omega

end Binary64

end StackMachine
