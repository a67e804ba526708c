import Mathlib.Tactic.Ring
import StackMachine.Decimal.Basic
import StackMachine.Proofs.Assembly.OperandReading
import StackMachine.Proofs.Binary64.Rounding

set_option autoImplicit false

namespace StackMachine

namespace Decimal

theorem exists_positional (coefficient places : Nat) :
    ∃ whole fraction : List Char,
      positional coefficient places =
          whole ++ (if fraction.isEmpty then [] else '.' :: fraction) ∧
        whole ≠ [] ∧ fraction.length = places ∧ (∀ c ∈ whole ++ fraction, c.isDigit = true) ∧
        Nat.ofDigitChars 10 (whole ++ fraction) 0 = coefficient := by
  let digits := Nat.toDigits 10 coefficient
  let padded := List.replicate (places + 1 - digits.length) '0' ++ digits
  have long : places < padded.length := by
    simp only [padded, List.length_append, List.length_replicate]
    omega
  refine ⟨padded.take (padded.length - places), padded.drop (padded.length - places), ?_, ?_, ?_,
    ?_, ?_⟩
  · simp only [positional]
    split <;> simp [padded, digits]
  · rw [← List.length_pos_iff, List.length_take]
    omega
  · rw [List.length_drop]
    omega
  · rw [List.take_append_drop]
    intro c member
    obtain zero | digit := List.mem_append.mp member
    · rw [(List.mem_replicate.mp zero).2]
      decide
    · exact Nat.isDigit_of_mem_toDigits (by decide) (by decide) digit
  · rw [List.take_append_drop, Nat.ofDigitChars_append, Nat.ofDigitChars_replicate_zero,
      Nat.mul_zero, Nat.ofDigitChars_ten_toDigits]

theorem powerOfTen_pos (exponent : Nat) : 0 < powerOfTen exponent := Nat.pow_pos (by decide)

theorem chars_eq {d : Decimal} (whole : d.exponent ≤ 0) :
    d.chars = (if d.negative then ['-'] else []) ++ positional d.coefficient d.exponent.natAbs := by
  have power : powerOfTen d.exponent.toNat = 1 := by
    rw [Int.toNat_of_nonpos whole]
    rfl
  have places : (-d.exponent).toNat = d.exponent.natAbs := by omega
  simp only [chars, power, places, Nat.mul_one]
  split <;> rfl

theorem powerOfTen_mono {less more : Nat} (le : less ≤ more) : powerOfTen less ≤ powerOfTen more :=
  Nat.pow_le_pow_right (by decide) le

theorem length_positional_le (coefficient places : Nat) :
    (positional coefficient places).length ≤
      max (Nat.toDigits 10 coefficient).length (places + 1) + 1 := by
  simp only [positional]
  split
  next =>
    simp only [List.length_take, List.length_append, List.length_replicate]
    omega
  next =>
    simp only [List.length_take, List.length_drop, List.length_append, List.length_replicate,
      List.length_cons]
    omega

theorem length_chars_le {d : Decimal} (whole : d.exponent ≤ 0) {digits : Nat} (some : 0 < digits)
    (small : d.coefficient < powerOfTen digits) :
    d.chars.length ≤ max digits (d.exponent.natAbs + 1) + 2 := by
  have enough : (Nat.toDigits 10 d.coefficient).length ≤ digits :=
    (Nat.length_toDigits_le_iff (by decide) some).mpr small
  have positions := length_positional_le d.coefficient d.exponent.natAbs
  have sign : (if d.negative then ['-'] else []).length ≤ 1 := by
    split <;> decide
  rw [chars_eq whole, List.length_append]
  omega

theorem splitSign_chars {d : Decimal} (whole : d.exponent ≤ 0) :
    splitSign d.chars = (d.negative, positional d.coefficient d.exponent.natAbs) := by
  obtain ⟨digits, fraction, shown, some, -, isDigit, -⟩ :=
    exists_positional d.coefficient d.exponent.natAbs
  obtain ⟨first, others, rfl⟩ := List.exists_cons_of_ne_nil some
  have digit := isDigit first (by simp)
  rw [chars_eq whole]
  cases d.negative with
  | true => rfl
  | false =>
    rw [shown]
    refine splitSign_of_unsigned _ ?_ ?_
    all_goals
      rintro rfl
      cases digit

theorem parse?_chars {d : Decimal} (whole : d.exponent ≤ 0) : parse? d.chars = some d := by
  obtain ⟨digits, fraction, shown, some, length, isDigit, value⟩ :=
    exists_positional d.coefficient d.exponent.natAbs
  rw [List.forall_mem_append] at isDigit
  generalize tail : (if fraction.isEmpty then [] else '.' :: fraction) = behind at shown
  have stops : behind.takeWhile Char.isDigit = [] ∧ behind.dropWhile Char.isDigit = behind ∧
      splitFraction behind = (fraction, []) := by
    subst tail
    cases fraction with
    | nil => exact ⟨rfl, rfl, rfl⟩
    | cons c fraction =>
      have all : (c :: fraction ++ []).takeWhile Char.isDigit = _ :=
        List.takeWhile_append_of_pos isDigit.2
      have none : (c :: fraction ++ []).dropWhile Char.isDigit = _ :=
        List.dropWhile_append_of_pos isDigit.2
      simp only [List.append_nil, List.takeWhile_nil, List.dropWhile_nil] at all none
      refine ⟨rfl, rfl, ?_⟩
      simp only [List.isEmpty_cons, Bool.false_eq_true, if_false, splitFraction, all, none]
  have front : (digits ++ behind).takeWhile Char.isDigit = digits ∧
      (digits ++ behind).dropWhile Char.isDigit = behind := by
    rw [List.takeWhile_append_of_pos isDigit.1, List.dropWhile_append_of_pos isDigit.1, stops.1,
      stops.2.1, List.append_nil]
    exact ⟨rfl, rfl⟩
  have exponent : (0 : Int) - fraction.length = d.exponent := by omega
  rw [parse?, splitSign_chars whole, shown]
  simp only [front, stops]
  simp [some, exponent?, value, exponent]

end Decimal

namespace Binary64

theorem nearest_exactDecimal {x : Binary64} (finite : x.isFinite = true) (some : x.isZero = false) :
    x.exactDecimal.nearest = x := by
  have units := rankUnits_pos some
  -- The power of five is too large to be computed in passing.
  obtain ⟨five, power, wide, ten⟩ : ∃ five, Nat.pow 5 1074 = five ∧ 674 ≤ five.log2 ∧
      five * unitsPerOne = Decimal.powerOfTen 1074 := ⟨_, rfl, by decide +kernel, by decide +kernel⟩
  have factor : five ≠ 0 := by
    rintro rfl
    cases wide
  have digits : rankUnits x.rank * five ≠ 0 := Nat.mul_ne_zero (Nat.ne_of_gt units) factor
  have log : five.log2 ≤ (rankUnits x.rank * five).log2 :=
    (Nat.le_log2 digits).mpr (Nat.le_trans (Nat.log2_self_le factor)
      (Nat.le_mul_of_pos_left five units))
  have large : ¬((-1074 : Int) + (rankUnits x.rank * five).log2 < -400) := by omega
  have range : ¬(400 < (-1074 : Int)) := by decide
  have product : rankUnits x.rank * five * Decimal.powerOfTen (-1074 : Int).toNat * unitsPerOne =
      rankUnits x.rank * Decimal.powerOfTen 1074 := by
    rw [← ten, ← Nat.mul_assoc]
    exact congrArg (· * unitsPerOne) (Nat.mul_one _)
  have denominator : Decimal.powerOfTen (-(-1074 : Int)).toNat = Decimal.powerOfTen 1074 := rfl
  rw [exactDecimal, power, Decimal.nearest, if_neg digits, if_neg range, if_neg large, product,
    denominator, ofUnitsRatio,
    nearestRank_of_exact (of_decide_eq_true finite) (Decimal.powerOfTen_pos _), ofRank_self]

theorem of_onGrid? {x : Binary64} {grid : Int} {d : Decimal} (found : x.onGrid? grid = some d) :
    d.nearest = x ∧ d.exponent ≤ 0 := by
  refine ⟨by simpa using List.find?_some found, ?_⟩
  have among := List.mem_of_find?_eq_some found
  split at among
  all_goals
    simp only [List.mem_cons, List.not_mem_nil, or_false] at among
    rcases among with rfl | rfl <;> exact Int.min_le_right _ _

theorem nearest_shortestDecimal {x : Binary64} (finite : x.isFinite = true)
    (some : x.isZero = false) :
    x.shortestDecimal.nearest = x ∧ x.shortestDecimal.exponent ≤ 0 := by
  unfold shortestDecimal
  cases found : (List.range 21).findSome? fun i : Nat => x.onGrid? (x.coarsestGrid - i) with
  | none => exact ⟨nearest_exactDecimal finite some, (by decide : (-1074 : Int) ≤ 0)⟩
  | some d =>
    obtain ⟨i, -, shown⟩ := List.exists_of_findSome?_eq_some found
    exact of_onGrid? shown

variable {x : Binary64}

theorem rankUnits_lt (finite : x.isFinite = true) : rankUnits x.rank < rankUnits infinityRank :=
  rankUnits_strictMono (isFinite_iff.mp finite)

theorem log2_rankUnits_lt (finite : x.isFinite = true) : (rankUnits x.rank).log2 < 2098 := by
  have top {width : Nat} (wide : rankUnits infinityRank ≤ 2 ^ width) (some : 0 < width) :
      (rankUnits x.rank).log2 < width := by
    by_cases zero : rankUnits x.rank = 0
    · simpa [zero] using some
    · exact (Nat.log2_lt zero).mpr ((rankUnits_lt finite).trans_le wide)
  exact top (by decide +kernel) (by decide)

theorem coarsestGrid_bounds (finite : x.isFinite = true) :
    -322 ≤ x.coarsestGrid ∧ x.coarsestGrid ≤ 311 := by
  have log := log2_rankUnits_lt finite
  unfold coarsestGrid
  omega

theorem exactDecimal_short (finite : x.isFinite = true) :
    x.exactDecimal.coefficient < Decimal.powerOfTen 1800 := by
  obtain ⟨five, power, some, enough⟩ : ∃ five, Nat.pow 5 1074 = five ∧ 0 < five ∧
      rankUnits infinityRank * five ≤ Decimal.powerOfTen 1800 :=
    ⟨_, rfl, by decide +kernel, by decide +kernel⟩
  rw [exactDecimal, power]
  exact (Nat.mul_lt_mul_of_pos_right (rankUnits_lt finite) some).trans_le enough

theorem onGrid?_short {grid : Int} {d : Decimal} (finite : x.isFinite = true)
    (low : -342 ≤ grid) (high : grid ≤ 311) (found : x.onGrid? grid = some d) :
    d.coefficient < Decimal.powerOfTen 1800 ∧ d.exponent.natAbs ≤ 342 := by
  have short {count : Nat}
      (near : count ≤ rankUnits x.rank * Decimal.powerOfTen (-grid).toNat + 1) :
      count * Decimal.powerOfTen grid.toNat < Decimal.powerOfTen 1800 := by
    have most : (rankUnits infinityRank * Decimal.powerOfTen 342 + 1) * Decimal.powerOfTen 311 <
        Decimal.powerOfTen 1800 := by decide +kernel
    have behind : Decimal.powerOfTen (-grid).toNat ≤ Decimal.powerOfTen 342 :=
      Decimal.powerOfTen_mono (by omega)
    have before : Decimal.powerOfTen grid.toNat ≤ Decimal.powerOfTen 311 :=
      Decimal.powerOfTen_mono (by omega)
    have scaled := Nat.mul_le_mul (rankUnits_lt finite).le behind
    have counted := near.trans (Nat.add_le_add_right scaled 1)
    exact (Nat.mul_le_mul counted before).trans_lt most
  have places : (min grid 0).natAbs ≤ 342 := by omega
  have below := Nat.div_le_self (rankUnits x.rank * Decimal.powerOfTen (-grid).toNat)
    (unitsPerOne * Decimal.powerOfTen grid.toNat)
  have among := List.mem_of_find?_eq_some found
  split at among
  all_goals
    simp only [List.mem_cons, List.not_mem_nil, or_false] at among
    rcases among with rfl | rfl
  · exact ⟨short (Nat.add_le_add_right below 1), places⟩
  · exact ⟨short (Nat.le_succ_of_le below), places⟩
  · exact ⟨short (Nat.le_succ_of_le below), places⟩
  · exact ⟨short (Nat.add_le_add_right below 1), places⟩

theorem shortestDecimal_short (finite : x.isFinite = true) :
    x.shortestDecimal.coefficient < Decimal.powerOfTen 1800 ∧
      x.shortestDecimal.exponent.natAbs ≤ 1074 := by
  unfold shortestDecimal
  cases found : (List.range 21).findSome? fun i : Nat => x.onGrid? (x.coarsestGrid - i) with
  | none => exact ⟨exactDecimal_short finite, Nat.le_refl 1074⟩
  | some d =>
    obtain ⟨i, inside, shown⟩ := List.exists_of_findSome?_eq_some found
    have few := List.mem_range.mp inside
    obtain ⟨low, high⟩ := coarsestGrid_bounds finite
    obtain ⟨digits, places⟩ := onGrid?_short finite (by omega) (by omega) shown
    exact ⟨digits, Nat.le_trans places (by decide)⟩

theorem text_of_isFinite {x : Binary64} (finite : x.isFinite = true) :
    x.text = if x.isZero then (if x.isNegative then "-0" else "0")
      else String.ofList x.shortestDecimal.chars := by
  have rank : x.rank < infinityRank := of_decide_eq_true finite
  have number : x.isNaN = false := decide_eq_false (by omega)
  have bounded : x.isInfinite = false := beq_eq_false_iff_ne.mpr (by omega)
  simp [text, number, bounded]

theorem parse?_text {x : Binary64} (finite : x.isFinite = true) : parse? x.text = some x := by
  rw [text_of_isFinite finite]
  by_cases zero : x.isZero = true
  · have same := eq_of_isZero zero
    rw [if_pos zero]
    cases sign : x.isNegative
    all_goals
      rw [sign] at same
      rw [same]
      decide +kernel
  · rw [if_neg zero]
    obtain ⟨nearest, whole⟩ := nearest_shortestDecimal finite (Bool.eq_false_iff.mpr zero)
    refine parse?_eq_some_iff.mpr ⟨⟨x.shortestDecimal, ?_, nearest⟩, finite⟩
    rw [String.toList_ofList, Decimal.parse?_chars whole]

theorem length_valueText_le (finite : x.isFinite = true) : x.valueText.length ≤ 1802 := by
  unfold valueText
  split
  next => decide
  next some =>
    have whole := (nearest_shortestDecimal finite (Bool.eq_false_iff.mpr some)).2
    obtain ⟨digits, places⟩ := shortestDecimal_short finite
    rw [text_of_isFinite finite, if_neg some, String.length_ofList]
    refine (Decimal.length_chars_le whole (by decide) digits).trans ?_
    omega

theorem parse?_valueText {x : Binary64} (finite : x.isFinite = true) :
    parse? x.valueText = some x.unsigned := by
  unfold valueText
  split
  next zero =>
    rw [unsigned_of_isZero zero]
    decide +kernel
  next some => rw [unsigned_of_not_isZero (Bool.eq_false_iff.mpr some), parse?_text finite]

/-- An optional minus, digits, and then digits with a point: no exponent. -/
theorem valueText_eq {x : Binary64} (finite : x.isFinite = true) :
    ∃ sign whole behind, x.valueText.toList = sign ++ whole ++ behind ∧ sign ∈ [[], ['-']] ∧
      whole ≠ [] ∧ (∀ c ∈ whole, c.isDigit = true) ∧
      ∀ c ∈ behind, c.isDigit = true ∨ c = '.' := by
  unfold valueText
  split
  next zero =>
    have digit : ∀ c ∈ ['0'], c.isDigit = true := List.forall_mem_singleton.mpr rfl
    exact ⟨[], ['0'], [], rfl, by simp, by simp, digit, by simp⟩
  next some =>
    have whole := (nearest_shortestDecimal finite (Bool.eq_false_iff.mpr some)).2
    obtain ⟨digits, fraction, shown, some', -, isDigit, -⟩ := Decimal.exists_positional
      x.shortestDecimal.coefficient x.shortestDecimal.exponent.natAbs
    rw [List.forall_mem_append] at isDigit
    rw [text_of_isFinite finite, if_neg some, String.toList_ofList, Decimal.chars_eq whole, shown]
    refine ⟨_, digits, _, (List.append_assoc _ _ _).symm, ?_, some', isDigit.1, ?_⟩
    · split <;> simp
    · split
      next => simp
      next => simpa using fun c member => .inl (isDigit.2 c member)

end Binary64

end StackMachine
