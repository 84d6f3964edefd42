import Mathlib.Algebra.BigOperators.Group.Finset.Piecewise
import Mathlib.Algebra.BigOperators.Field
import UnitArith.Proofs.Number.Rational
import UnitArith.Proofs.Term.Coefficient

/-! Terms as single values, their units left out. With exact values an operator does to the
totals what it does to the terms. -/
namespace UnitArith

variable {α : Type} [Number α]

namespace Term

mutual

/-- The sum of all quantities in a term, each with the sign that its operator gives it. -/
def total : Term α → α
  | quantity q => q.value
  | expression head tail => totalTail head.total tail

def totalTail (sum : α) : List (Operator × Term α) → α
  | [] => sum
  | (op, t) :: rest => totalTail (if op = .minus then sum - t.total else sum + t.total) rest

end

theorem value_after (op : Operator) (q : Quantity ℚ) :
    (q.after op).value = if op = .minus then -q.value else q.value := by
  unfold Quantity.after
  split
  · exact Rational.value_of _ _
  · rfl

theorem totalTail_eq {tail : List (Operator × Term ℚ)} {terms : List (Quantity ℚ)}
    (operands : List.Forall₂ Summand tail terms) (sum : ℚ) :
    totalTail sum tail = sum + (terms.map Quantity.value).sum := by
  induction operands generalizing sum with
  | nil => exact (add_zero sum).symm
  | cons first others ih =>
    cases first with
    | @mk op q additive nonnegative =>
      rw [totalTail, ih, List.map_cons, List.sum_cons, value_after, total, ← add_assoc]
      split
      · rw [sub_eq_add_neg]
      · rfl

theorem total_eq {t : Term ℚ} {a : Combination ℚ} (h : Represents t a) :
    t.total = (a.terms.map Quantity.value).sum := by
  cases h with
  | quantity q =>
    cases zero : q.isZero with
    | true =>
      rw [total, Combination.ofQuantity_of_isZero zero, Quantity.eq_zero zero]
      rfl
    | false => simp [total, Combination.ofQuantity_of_nonzero zero]
  | sum operands =>
    rw [total, total, totalTail_eq operands]
    rfl

/-- Each term of a combination is the coefficient of one unit. -/
theorem sum_coefficientOf {terms : List (Quantity ℚ)} (distinct : (terms.map Quantity.unit).Nodup)
    {units : Finset String} (covered : ∀ q ∈ terms, q.unit ∈ units) :
    ∑ unit ∈ units, Combination.coefficientOf unit terms = (terms.map Quantity.value).sum := by
  induction terms with
  | nil => exact Finset.sum_const_zero
  | cons q rest ih =>
    obtain ⟨fresh, distinct⟩ := List.nodup_cons.mp distinct
    obtain ⟨here, covered⟩ := List.forall_mem_cons.mp covered
    have split (unit : String) : Combination.coefficientOf unit (q :: rest) =
        (if q.unit = unit then q.value else 0) + Combination.coefficientOf unit rest := by
      rw [Combination.coefficientOf]
      split
      · rename_i hit
        rw [Combination.coefficientOf_of_notMem (hit ▸ fresh)]
        exact (add_zero _).symm
      · exact (zero_add _).symm
    simp only [split]
    rw [Finset.sum_add_distrib, Finset.sum_ite_eq_of_mem _ _ _ here, ih distinct covered,
      List.map_cons, List.sum_cons]

/-- Over enough units, the total is the sum of the coefficients. -/
theorem total_eq_sum {t : Term ℚ} (ht : t.IsNormal) :
    ∃ units : Finset String, ∀ more, units ⊆ more →
      t.total = ∑ unit ∈ more, t.coefficient unit := by
  obtain ⟨a, ha, h⟩ := (isNormal_iff t).mp ht
  refine ⟨(a.terms.map Quantity.unit).toFinset, fun more within => ?_⟩
  have covered : ∀ q ∈ a.terms, q.unit ∈ more := fun q hq =>
    within (List.mem_toFinset.mpr (List.mem_map_of_mem hq))
  rw [total_eq h, ← sum_coefficientOf ha.distinct covered]
  simp only [coefficient_eq h, Combination.coefficient]

theorem total_plain {t : Term ℚ} (ht : t.IsNormal) (plain : t.dimension ≠ .dimensional) :
    t.total = t.coefficient "" := by
  obtain ⟨a, ha, h⟩ := (isNormal_iff t).mp ht
  rw [Ne, dimensional_iff h ha, Bool.not_eq_true] at plain
  obtain ⟨q, single, rfl, bare⟩ := ha.exists_quantity plain
  rw [coefficient_eq h, Combination.coefficient_plain bare, total_eq h]
  cases zero : q.isZero with
  | true =>
    rw [Combination.ofQuantity_of_isZero zero, Quantity.eq_zero zero]
    rfl
  | false => simp [Combination.ofQuantity_of_nonzero zero]

/-- The values of the result, when there is one. -/
theorem coefficient_calculate {s t r : Term ℚ} (hs : s.IsNormal) (ht : t.IsNormal) {op : Operator}
    (h : s.calculate op t = .ok r) :
    ∃ values, outcome s op t = .ok values ∧ ∀ unit, r.coefficient unit = values unit := by
  have meets := calculate_meets hs ht op
  rw [h] at meets
  generalize outcome s op t = expected at meets
  cases meets with
  | ok related => exact ⟨_, rfl, fun unit => (Rational.same_iff _ _).mp (related.2 unit)⟩

theorem outcome_plus {s t : Term α} {values : String → α}
    (h : outcome s .plus t = .ok values) (unit : String) :
    values unit = s.coefficient unit + t.coefficient unit := by
  rw [outcome] at h
  split at h
  · cases h
  · cases h
    rfl

theorem outcome_minus {s t : Term α} {values : String → α}
    (h : outcome s .minus t = .ok values) (unit : String) :
    values unit = s.coefficient unit - t.coefficient unit := by
  rw [outcome] at h
  split at h
  · cases h
  · cases h
    rfl

/-- One of the factors is a plain number and multiplies every unit of the other. -/
theorem outcome_times {s t : Term ℚ} {values : String → ℚ}
    (h : outcome s .times t = .ok values) :
    (t.dimension ≠ .dimensional ∧ ∀ unit, values unit = s.coefficient unit * t.coefficient "") ∨
    (s.dimension ≠ .dimensional ∧ ∀ unit, values unit = s.coefficient "" * t.coefficient unit) := by
  rw [outcome] at h
  split at h
  · rename_i plain
    cases h
    exact .inl ⟨plain, fun unit => Rational.absorbing_eq _ _⟩
  · split at h
    · rename_i plain
      cases h
      exact .inr ⟨plain, fun unit => Rational.absorbing_eq _ _⟩
    · split at h <;> cases h

/-- A division of sums multiplies by the reciprocal, which is the same for exact values. -/
theorem outcome_divide {s t : Term ℚ} {values : String → ℚ}
    (h : outcome s .divide t = .ok values) :
    t.dimension ≠ .dimensional ∧ ∀ unit, values unit = s.coefficient unit / t.coefficient "" := by
  rw [outcome] at h
  split at h
  · cases h
  · split at h
    · cases h
    · cases h
    · rename_i scalar
      cases h
      refine ⟨by simp [scalar], fun unit => ?_⟩
      dsimp only
      split
      · rw [Rational.absorbing_eq]
        exact mul_one_div _ _
      · split
        · rename_i zero
          rw [(Rational.isZero_iff _).mp zero]
          exact (zero_div _).symm
        · rfl

theorem total_calculate {s t r : Term ℚ} (hs : s.IsNormal) (ht : t.IsNormal) {op : Operator}
    (h : s.calculate op t = .ok r) : r.total = op.apply s.total t.total := by
  obtain ⟨values, expected, coefficients⟩ := coefficient_calculate hs ht h
  obtain ⟨left, total_left⟩ := total_eq_sum hs
  obtain ⟨right, total_right⟩ := total_eq_sum ht
  obtain ⟨result, total_result⟩ := total_eq_sum (calculate_isNormal hs ht h)
  have total_left := total_left (left ∪ right ∪ result) (by grind)
  have total_right := total_right (left ∪ right ∪ result) (by grind)
  have total_result := total_result (left ∪ right ∪ result) (by grind)
  rw [total_result]
  cases op with
  | plus =>
    simp only [coefficients, outcome_plus expected]
    rw [Operator.apply, total_left, total_right, Finset.sum_add_distrib]
  | minus =>
    simp only [coefficients, outcome_minus expected]
    rw [Operator.apply, total_left, total_right, Finset.sum_sub_distrib]
  | times =>
    rcases outcome_times expected with ⟨plain, products⟩ | ⟨plain, products⟩
    · simp only [coefficients, products]
      rw [Operator.apply, total_plain ht plain, total_left, Finset.sum_mul]
    · simp only [coefficients, products]
      rw [Operator.apply, total_plain hs plain, total_right, Finset.mul_sum]
  | divide =>
    obtain ⟨plain, quotients⟩ := outcome_divide expected
    simp only [coefficients, quotients]
    rw [Operator.apply, total_plain ht plain, total_left, Finset.sum_div]

end Term

end UnitArith
