import Mathlib.Logic.ExistsUnique
import Mathlib.Tactic.ByContra
import StackMachine.Proofs.Binary64.Difference
import StackMachine.Proofs.Machine.Effects

set_option autoImplicit false

namespace StackMachine

namespace Condition

def exchanged : Condition → Condition
  | .above => .below
  | .aboveOrEqual => .belowOrEqual
  | .below => .above
  | .belowOrEqual => .aboveOrEqual
  | .equal => .equal
  | .notEqual => .notEqual

def Jumps (condition : Condition) (left right : Binary64) : Prop :=
  condition.holds left right tolerance = true

instance (condition : Condition) (left right : Binary64) :
    Decidable (condition.Jumps left right) :=
  inferInstanceAs (Decidable (_ = true))

structure Splits (left right : Binary64) : Prop where
  one : ∃! condition, condition ∈ [above, below, equal] ∧ condition.Jumps left right
  aboveOrEqual : aboveOrEqual.Jumps left right ↔ above.Jumps left right ∨ equal.Jumps left right
  belowOrEqual : belowOrEqual.Jumps left right ↔ below.Jumps left right ∨ equal.Jumps left right
  notEqual : notEqual.Jumps left right ↔ ¬equal.Jumps left right
  same : left.eqv right = true → equal.Jumps left right
  exchange : ∀ condition : Condition,
    condition.exchanged.Jumps right left ↔ condition.Jumps left right

variable {left right : Binary64}

theorem close_comm (left right : Binary64) :
    close left right tolerance = close right left tolerance :=
  congrArg (·.lt tolerance) (left.abs_sub_comm right)

theorem close_of_eqv (same : left.eqv right = true) (finite : left.isInfinite = false)
    (other : right.isInfinite = false) : close left right tolerance = true := by
  rw [close, Binary64.abs_sub_of_eqv same finite other]
  decide

theorem close_of_infinite (infinite : left.isInfinite = true) :
    close left left tolerance = false := by
  rw [close, Binary64.sub_of_infinite infinite]
  decide

theorem jumps_exchanged (condition : Condition) :
    condition.exchanged.Jumps right left ↔ condition.Jumps left right := by
  cases condition <;> simp only [Jumps, exchanged, holds, close_comm left right]

theorem lt_or_lt (number : left.isNaN = false) (other : right.isNaN = false)
    (apart : close left right tolerance = false)
    (distinct : ¬(left.isInfinite = true ∧ left = right)) :
    left.lt right = true ∨ right.lt left = true := by
  by_contra neither
  obtain ⟨below, above⟩ := not_or.mp neither
  have same := Binary64.eqv_of_not_lt number other (by simpa using below) (by simpa using above)
  have place : left.orderKey = right.orderKey := by
    simpa [Binary64.eqv, number, other] using same
  have finite : left.isInfinite = false ∧ right.isInfinite = false := by
    obtain rfl | ⟨zero, zero'⟩ := Binary64.orderKey_eq_iff.mp place
    · simpa using distinct
    · constructor <;> simp [Binary64.isInfinite, zero, zero'] <;> decide
  rw [close_of_eqv same finite.1 finite.2] at apart
  cases apart

theorem existsUnique_relation (decided : close left right tolerance = true ∨
      left.lt right = true ∨ right.lt left = true) :
    ∃! condition, condition ∈ [above, below, equal] ∧ condition.Jumps left right := by
  cases near : close left right tolerance with
  | true =>
    refine ⟨.equal, by simp [Jumps, holds, near], ?_⟩
    rintro (_ | _ | _ | _ | _ | _) <;> simp [Jumps, holds, near]
  | false =>
    rw [near] at decided
    obtain ordered | ordered := decided.resolve_left nofun
    · have asymmetric := Binary64.lt_asymm ordered
      refine ⟨.below, by simp [Jumps, holds, near, ordered], ?_⟩
      rintro (_ | _ | _ | _ | _ | _) <;> simp [Jumps, holds, near, asymmetric]
    · have asymmetric := Binary64.lt_asymm ordered
      refine ⟨.above, by simp [Jumps, holds, near, ordered], ?_⟩
      rintro (_ | _ | _ | _ | _ | _) <;> simp [Jumps, holds, near, asymmetric]

theorem splits_of_distinct (number : left.isNaN = false) (other : right.isNaN = false)
    (distinct : ¬(left.isInfinite = true ∧ left = right)) : Splits left right where
  one := by
    apply existsUnique_relation
    cases near : close left right tolerance with
    | true => exact .inl rfl
    | false => exact .inr (lt_or_lt number other near distinct)
  aboveOrEqual := by
    cases near : close left right tolerance <;> simp [Jumps, holds, near]
  belowOrEqual := by
    cases near : close left right tolerance <;> simp [Jumps, holds, near]
  notEqual := by simp [Jumps, holds]
  same := by
    intro same
    cases near : close left right tolerance with
    | true => simpa [Jumps, holds]
    | false =>
      have place : left.orderKey = right.orderKey := by
        simpa [Binary64.eqv, number, other] using same
      obtain below | above := lt_or_lt number other near distinct
      · simp [Binary64.lt, place] at below
      · simp [Binary64.lt, place] at above
  exchange := jumps_exchanged

theorem jumps_of_infinite (infinite : left.isInfinite = true) (condition : Condition) :
    condition.Jumps left left ↔ condition = .notEqual := by
  have apart := close_of_infinite infinite
  have ordered : left.lt left = false := by simp [Binary64.lt]
  cases condition <;> simp [Jumps, holds, apart, ordered]

end Condition

theorem Action.execute_when {session : Session} {left right : Binary64} {rest : List Binary64}
    (top : session.machine.stack = right :: left :: rest) (condition : Condition)
    {length : Nat} (next : Nat) {target : UInt32} (inside : target.toNat ≤ length) :
    (execute length next (.branch (.when condition) target)).Ends session
      (fun flow after =>
        flow = .next (if condition.Jumps left right then target.toNat else next) ∧
        after.machine = { session.machine with stack := rest })
      fun _ _ => False := by
  have popped : ((session.popped right).popped left).machine =
      { session.machine with stack := rest } := by simp [Session.popped, top]
  apply ends_jumpWhen_iff.mpr
  simp only [top]
  split
  next jumps =>
    apply ends_jump_iff.mpr
    rw [if_neg (Nat.not_lt.mpr inside)]
    exact ⟨congrArg Flow.next (if_pos jumps).symm, popped⟩
  next stays => exact ⟨congrArg Flow.next (if_neg stays).symm, popped⟩

/-- The machine jumps by these conditions, and they split the pairs of numbers, but for an infinity
and itself. -/
theorem Condition.splits_iff {left right : Binary64} (number : left.isNaN = false)
    (other : right.isNaN = false) :
    (∀ (condition : Condition) (session : Session) (rest : List Binary64) (length next : Nat)
        (target : UInt32), session.machine.stack = right :: left :: rest →
      target.toNat ≤ length →
      (Action.execute length next (.branch (.when condition) target)).Ends session
        (fun flow after =>
          flow = .next (if condition.Jumps left right then target.toNat else next) ∧
          after.machine = { session.machine with stack := rest })
        fun _ _ => False) ∧
    (Splits left right ↔ ¬(left.isInfinite = true ∧ left = right)) ∧
    (left.isInfinite = true → ∀ condition : Condition,
      condition.Jumps left left ↔ condition = .notEqual) := by
  refine ⟨?_, ⟨?_, splits_of_distinct number other⟩, jumps_of_infinite⟩
  · intro condition session rest length next target top inside
    exact Action.execute_when top condition next inside
  · rintro splits ⟨infinite, rfl⟩
    obtain ⟨relation, ⟨among, jumps⟩, -⟩ := splits.one
    rw [(jumps_of_infinite infinite relation).mp jumps] at among
    simp at among

theorem Condition.splits_iff_infinities :
    let left := Binary64.infinity false
    let right := Binary64.infinity true
    left.isNaN = false ∧ right.isNaN = false ∧ Splits left right ∧ above.Jumps left right := by
  intro left right
  have number : left.isNaN = false := by decide
  have other : right.isNaN = false := by decide
  have splits := (splits_iff number other).2.1.mpr (by decide)
  exact ⟨number, other, splits, by decide⟩

/-- An infinity equals itself, but is neither equal nor in order to the jumps. -/
theorem Condition.not_splits_infinity :
    let x := Binary64.infinity false
    x.isNaN = false ∧ x.eqv x = true ∧ (∀ c ∈ [above, below, equal], ¬c.Jumps x x) ∧
      ¬Splits x x := by
  intro x
  have none : ∀ c ∈ [above, below, equal], ¬c.Jumps x x := by decide
  refine ⟨by decide, by decide, none, fun splits => ?_⟩
  obtain ⟨relation, ⟨among, jumps⟩, -⟩ := splits.one
  exact none relation among jumps

end StackMachine
