import Mathlib.Algebra.BigOperators.Group.List.Basic
import Mathlib.Algebra.Module.Pi
import Mathlib.Tactic.Abel
import UnitArith.Proofs.Combination.Normal
import UnitArith.Proofs.Number.Rational

/-! Linear forms with exact coefficients. Combinations of any shape are added, subtracted and
turned around as the forms they stand for; a unit may occur in them more than once. -/
namespace UnitArith

/-- The coefficient of each unit; plain numbers belong to the empty unit. -/
abbrev LinearForm := String → ℚ

/-- A form with no unit in it. -/
def LinearForm.IsNumber (f : LinearForm) : Prop := ∀ unit, unit ≠ "" → f unit = 0

/-- What an operator multiplies the operand behind it by. -/
def Operator.sign (op : Operator) : ℚ := if op = .minus then -1 else 1

/-- What an operator makes of two forms: a product needs a number on one side, a quotient a number
other than zero on the right. -/
def Operator.Combines : Operator → (f g result : LinearForm) → Prop
  | plus, f, g, result => result = f + g
  | minus, f, g, result => result = f - g
  | times, f, g, result =>
    f.IsNumber ∧ result = f "" • g ∨ g.IsNumber ∧ result = g "" • f
  | divide, f, g, result => g.IsNumber ∧ g "" ≠ 0 ∧ result = (g "")⁻¹ • f

namespace Quantity

def form (q : Quantity ℚ) : LinearForm := Pi.single q.unit q.value

/-- What multiplying by a quantity does to a form. Only plain numbers take on a unit. -/
def scaling (factor : Quantity ℚ) (f : LinearForm) : LinearForm :=
  if factor.hasUnit then f "" • factor.form else factor.value • f

theorem form_of (value : ℚ) (unit : String) : (of value unit).form = Pi.single unit value := by
  cases zero : Number.isZero value with
  | true =>
    rw [of_zero zero, (Rational.isZero_iff value).mp zero, Pi.single_zero]
    exact Pi.single_zero _
  | false => rw [form, value_of zero, unit_of zero]

@[simp] theorem form_zero : (zero : Quantity ℚ).form = 0 := Pi.single_zero _

theorem form_of_isZero {q : Quantity ℚ} (zero : q.isZero = true) : q.form = 0 := by
  rw [eq_zero zero, form_zero]

@[simp] theorem form_neg (q : Quantity ℚ) : q.neg.form = -q.form :=
  (form_of _ _).trans (Pi.single_neg _ _)

theorem form_after (op : Operator) (q : Quantity ℚ) : (q.after op).form = op.sign • q.form := by
  cases op <;> simp [Operator.sign, after]

theorem form_plus {p q : Quantity ℚ} (same : p.unit = q.unit) :
    (p.plus q).form = p.form + q.form := by
  rw [plus, withValue, form_of, Pi.single_add, form, form, same]

theorem form_dividedBy (p divisor : Quantity ℚ) :
    (p.dividedBy divisor).form = divisor.value⁻¹ • p.form := by
  rw [dividedBy]
  split
  · rename_i zero
    rw [form_of_isZero zero, form_zero, smul_zero]
  · rw [withValue, form_of, div_eq_inv_mul, form, ← Pi.single_smul, smul_eq_mul]

theorem isNumber_form {q : Quantity ℚ} (plain : q.hasUnit = false) : q.form.IsNumber := by
  intro unit nonempty
  rw [hasUnit_eq_false_iff] at plain
  rw [form, plain, Pi.single_eq_of_ne nonempty]

theorem form_empty {q : Quantity ℚ} (plain : q.hasUnit = false) : q.form "" = q.value := by
  rw [form, (hasUnit_eq_false_iff q).mp plain, Pi.single_eq_same]

theorem scaling_plain {factor : Quantity ℚ} (plain : factor.hasUnit = false) (f : LinearForm) :
    factor.scaling f = factor.value • f := by
  simp [scaling, plain]

theorem scaling_unit {factor : Quantity ℚ} (unit : factor.hasUnit = true) (f : LinearForm) :
    factor.scaling f = f "" • factor.form := by
  simp [scaling, unit]

theorem scaling_zero (factor : Quantity ℚ) : factor.scaling 0 = 0 := by
  simp [scaling]

theorem scaling_add (factor : Quantity ℚ) (f g : LinearForm) :
    factor.scaling (f + g) = factor.scaling f + factor.scaling g := by
  rw [scaling, scaling, scaling]
  split
  · exact add_smul _ _ _
  · exact smul_add _ _ _

theorem scaling_smul (factor : Quantity ℚ) (x : ℚ) (f : LinearForm) :
    factor.scaling (x • f) = x • factor.scaling f := by
  rw [scaling, scaling]
  split
  · exact mul_smul _ _ _
  · exact smul_comm _ _ _

theorem scaling_unitless (value : ℚ) (f : LinearForm) : (unitless value).scaling f = value • f := by
  rw [scaling_plain (hasUnit_unitless value), unitless, Rational.value_of]

theorem scaling_reciprocal {divisor : Quantity ℚ} (plain : divisor.hasUnit = false)
    (f : LinearForm) : divisor.reciprocal.scaling f = divisor.value⁻¹ • f := by
  rw [reciprocal, withValue, (hasUnit_eq_false_iff divisor).mp plain, ← one_div]
  exact scaling_unitless _ f

theorem form_times {q factor : Quantity ℚ}
    (apart : factor.hasUnit = false ∨ q.hasUnit = false) :
    (q.times factor).form = factor.scaling q.form := by
  have product : (q.times factor).form =
      Pi.single (if q.hasUnit then q.unit else factor.unit) (q.value * factor.value) := by
    cases zero : q.isZero || factor.isZero with
    | true =>
      rw [times_of_isZero zero, form_zero]
      rw [Bool.or_eq_true, isZero, isZero, Rational.isZero_iff, Rational.isZero_iff] at zero
      rw [mul_eq_zero.mpr zero, Pi.single_zero]
    | false => rw [times, if_neg (Bool.eq_false_iff.mp zero), form_of]
  rw [product]
  cases unit : factor.hasUnit with
  | true =>
    have plain := apart.resolve_left (by simp [unit])
    have bare := (hasUnit_eq_false_iff q).mp plain
    rw [scaling_unit unit, if_neg (Bool.eq_false_iff.mp plain), form, form, bare,
      Pi.single_eq_same, ← Pi.single_smul, smul_eq_mul]
  | false =>
    have bare := (hasUnit_eq_false_iff factor).mp unit
    rw [scaling_plain unit, form, ← Pi.single_smul, smul_eq_mul, mul_comm]
    cases plain : q.hasUnit with
    | true => rfl
    | false => rw [(hasUnit_eq_false_iff q).mp plain, bare, ite_self]

end Quantity

namespace Combination

/-- The sum of the terms. -/
def form (a : Combination ℚ) : LinearForm := (a.terms.map Quantity.form).sum

@[simp] theorem form_zero : (zero : Combination ℚ).form = 0 := rfl

@[simp] theorem form_ofQuantity (q : Quantity ℚ) : (ofQuantity q).form = q.form := by
  cases zero : q.isZero with
  | true => rw [ofQuantity_of_isZero zero, Quantity.form_of_isZero zero, form_zero]
  | false => simp [ofQuantity_of_nonzero zero, form]

theorem form_neg (a : Combination ℚ) : a.neg.form = -a.form := by
  have each : Quantity.form ∘ Quantity.neg = Neg.neg ∘ Quantity.form := funext Quantity.form_neg
  rw [form, form, neg, List.map_map, each, ← List.map_map]
  exact (List.sum_neg _).symm

theorem form_quantity? {a : Combination ℚ} {q : Quantity ℚ} (single : a.quantity? = some q) :
    a.form = q.form := by
  obtain ⟨_ | ⟨p, _ | ⟨p', rest⟩⟩⟩ := a
  · cases single
    rw [Quantity.form_zero]
    rfl
  · cases single
    exact List.sum_singleton
  · cases single

theorem absorb?_form {q : Quantity ℚ} {terms sum : List (Quantity ℚ)}
    (h : absorb? q terms = some sum) :
    (sum.map Quantity.form).sum = (terms.map Quantity.form).sum + q.form := by
  obtain ⟨before, a, after, rfl, _, same, rfl⟩ := absorb?_eq_some h
  have kept : ((if (a.plus q).isZero then after else a.plus q :: after).map Quantity.form).sum =
      (a.plus q).form + (after.map Quantity.form).sum := by
    split
    · rename_i zero
      rw [Quantity.form_of_isZero zero, zero_add]
    · rfl
  rw [List.map_append, List.sum_append, kept, Quantity.form_plus same, List.map_append,
    List.sum_append, List.map_cons, List.sum_cons]
  abel

theorem addQuantity_form {a c : Combination ℚ} {q : Quantity ℚ} (h : a.addQuantity q = .ok c) :
    c.form = a.form + q.form := by
  rcases addQuantity_eq_ok h with ⟨zero, rfl⟩ | ⟨terms, absorbed, rfl⟩ | ⟨_, _, _, rfl⟩
  · rw [Quantity.form_of_isZero zero, add_zero]
  · exact absorb?_form absorbed
  · rw [form, List.map_append, List.sum_append, List.map_singleton, List.sum_singleton, form]

theorem addTo_form {a c : Combination ℚ} {q : Quantity ℚ} (h : a.addTo q = .ok c) :
    c.form = a.form + q.form := by
  rcases addTo_eq_ok h with ⟨zero, rfl⟩ | ⟨terms, absorbed, rfl⟩ | ⟨_, _, _, rfl⟩
  · rw [Quantity.form_of_isZero zero, add_zero]
  · exact absorb?_form absorbed
  · rw [form, List.map_cons, List.sum_cons, form, add_comm]

theorem foldlM_addQuantity_form {a c : Combination ℚ} {terms : List (Quantity ℚ)}
    (h : terms.foldlM addQuantity a = .ok c) :
    c.form = a.form + (terms.map Quantity.form).sum := by
  induction terms generalizing a with
  | nil =>
    cases h
    exact (add_zero _).symm
  | cons q terms ih =>
    obtain ⟨b, sum, others⟩ := foldlM_cons_eq_ok_iff.mp h
    rw [ih others, addQuantity_form sum, List.map_cons, List.sum_cons, add_assoc]

theorem add_form {a b c : Combination ℚ} (h : a.add b = .ok c) : c.form = a.form + b.form := by
  rw [add] at h
  split at h
  · rename_i q single _
    rw [addTo_form h, form_quantity? single, add_comm]
  · exact foldlM_addQuantity_form h

theorem calculate_form {a b c : Combination ℚ} {op : Operator} (additive : op.isAdditive = true)
    (h : a.calculate op b = .ok c) : c.form = a.form + op.sign • b.form := by
  cases op with
  | plus => simpa [Operator.sign] using add_form h
  | minus => simpa [Operator.sign, form_neg] using add_form h
  | times | divide => cases additive

end Combination

end UnitArith
