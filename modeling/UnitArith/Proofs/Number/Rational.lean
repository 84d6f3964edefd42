import Mathlib.Algebra.Order.Field.Rat
import Mathlib.Algebra.Order.AbsoluteValue.Basic
import UnitArith.Proofs.Number.Law
import UnitArith.Quantity

/-! Exact values. Rationals obey every law that doubles obey, and those that rounding breaks. -/
namespace UnitArith

instance : Number ℚ where
  toZero := inferInstance
  toOne := inferInstance
  toAdd := inferInstance
  toSub := inferInstance
  toNeg := inferInstance
  toMul := inferInstance
  toDiv := inferInstance
  abs x := |x|
  isZero x := x == 0
  isNegative x := decide (x < 0)
  ofDecimal d := d.digits / 10 ^ d.places

namespace Rational

theorem isZero_iff (x : ℚ) : Number.isZero x = true ↔ x = 0 := beq_iff_eq

theorem isNegative_iff (x : ℚ) : Number.isNegative x = true ↔ x < 0 := decide_eq_true_iff

instance : LawfulNumber ℚ where
  isZero_zero := (isZero_iff 0).mpr rfl
  isZero_one := Bool.eq_false_iff.mpr fun h => one_ne_zero ((isZero_iff 1).mp h)
  isZero_neg x := by rw [Bool.eq_iff_iff, isZero_iff, isZero_iff, neg_eq_zero]
  isZero_of_isNegative h := by
    rw [isNegative_iff] at h
    exact Bool.eq_false_iff.mpr fun zero => h.ne ((isZero_iff _).mp zero)
  isNegative_neg h := by
    rw [isNegative_iff] at h
    exact Bool.eq_false_iff.mpr fun negative =>
      lt_asymm (neg_pos.mpr h) ((isNegative_iff _).mp negative)
  abs_of_isNegative h := abs_of_neg ((isNegative_iff _).mp h)
  neg_neg := neg_neg
  add_comm := add_comm
  add_of_isZero zero _ := by rw [(isZero_iff _).mp zero, add_zero]
  isZero_add hx hz := by
    rw [isZero_iff] at *
    rw [hx, hz, add_zero]
  sub_eq_add_neg := sub_eq_add_neg
  mul_comm := mul_comm
  mul_one := mul_one
  neg_mul := neg_mul

theorem same_iff (x y : ℚ) : Number.Same x y ↔ x = y := by
  rw [Number.Same, isZero_iff, isZero_iff]
  constructor
  · rintro (h | ⟨hx, hy⟩)
    · exact h
    · exact hx.trans hy.symm
  · exact .inl

theorem absorbing_eq (x y : ℚ) : Number.absorbing x y = x * y := by
  cases zero : Number.isZero x || Number.isZero y with
  | true =>
    rw [Number.absorbing_of_isZero zero]
    rw [Bool.or_eq_true, isZero_iff, isZero_iff] at zero
    exact (mul_eq_zero.mpr zero).symm
  | false =>
    obtain ⟨hx, hy⟩ := Bool.or_eq_false_iff.mp zero
    exact Number.absorbing_of_nonzero hx hy

/-- A zero is the only value that loses its unit. -/
theorem value_of (value : ℚ) (unit : String) : (Quantity.of value unit).value = value := by
  cases zero : Number.isZero value with
  | true =>
    rw [Quantity.of_zero zero, (isZero_iff value).mp zero]
    rfl
  | false => exact Quantity.value_of zero unit

end Rational

end UnitArith
