import UnitArith.Number
import UnitArith.Operator

/-! The laws of arithmetic that reduction rests on. Doubles obey them bit for bit, infinities
and NaN included; what rounding breaks, such as grouping a sum anew, is not among them. -/
namespace UnitArith

open Number (isZero isNegative)

class LawfulNumber (α : Type) [Number α] : Prop where
  isZero_zero : isZero (0 : α) = true
  isZero_one : isZero (1 : α) = false
  isZero_neg (x : α) : isZero (-x) = isZero x
  isZero_of_isNegative {x : α} (h : isNegative x = true) : isZero x = false
  isNegative_neg {x : α} (h : isNegative x = true) : isNegative (-x) = false
  abs_of_isNegative {x : α} (h : isNegative x = true) : Number.abs x = -x
  neg_neg (x : α) : - -x = x
  add_comm (x y : α) : x + y = y + x
  add_of_isZero {x z : α} (zero : isZero z = true) (h : isZero x = false) : x + z = x
  isZero_add {x z : α} (hx : isZero x = true) (hz : isZero z = true) : isZero (x + z) = true
  sub_eq_add_neg (x y : α) : x - y = x + -y
  mul_comm (x y : α) : x * y = y * x
  mul_one (x : α) : x * 1 = x
  neg_mul (x y : α) : -x * y = -(x * y)

namespace Number

variable {α : Type} [Number α]

/-- Equal, or zeros of whatever sign. -/
def Same (x y : α) : Prop := x = y ∨ isZero x = true ∧ isZero y = true

theorem Same.of_eq {x y : α} (h : x = y) : Same x y := .inl h

@[simp] theorem Same.refl (x : α) : Same x x := .inl rfl

theorem Same.symm {x y : α} (h : Same x y) : Same y x := h.imp Eq.symm And.symm

theorem Same.trans {x y z : α} (left : Same x y) (right : Same y z) : Same x z := by
  rcases left with rfl | ⟨hx, hy⟩
  · exact right
  · rcases right with rfl | ⟨_, hz⟩
    · exact .inr ⟨hx, hy⟩
    · exact .inr ⟨hx, hz⟩

theorem Same.isZero_eq {x y : α} (h : Same x y) : isZero x = isZero y := by
  rcases h with rfl | ⟨hx, hy⟩
  · rfl
  · rw [hx, hy]

/-- A product in which zero absorbs everything, infinities and NaN too. -/
def absorbing (x y : α) : α := if isZero x || isZero y then 0 else x * y

theorem absorbing_of_isZero {x y : α} (h : (isZero x || isZero y) = true) : absorbing x y = 0 :=
  if_pos h

theorem absorbing_of_nonzero {x y : α} (hx : isZero x = false) (hy : isZero y = false) :
    absorbing x y = x * y :=
  if_neg (by simp [hx, hy])

section Lawful

variable [LawfulNumber α]

open LawfulNumber

/-- Adding a zero changes nothing but the sign of a zero. -/
theorem same_add_isZero (x : α) {z : α} (zero : isZero z = true) : Same (x + z) x := by
  cases h : isZero x with
  | false => exact .inl (add_of_isZero zero h)
  | true => exact .inr ⟨isZero_add h zero, h⟩

theorem same_isZero_add (x : α) {z : α} (zero : isZero z = true) : Same (z + x) x := by
  rw [LawfulNumber.add_comm]
  exact same_add_isZero x zero

theorem Same.add_right {x y : α} (h : Same x y) (z : α) : Same (x + z) (y + z) := by
  rcases h with rfl | ⟨hx, hy⟩
  · exact .refl _
  · exact (same_isZero_add z hx).trans (same_isZero_add z hy).symm

theorem Same.add_left {x y : α} (h : Same x y) (z : α) : Same (z + x) (z + y) := by
  rw [LawfulNumber.add_comm z x, LawfulNumber.add_comm z y]
  exact h.add_right z

theorem mul_neg (x y : α) : x * -y = -(x * y) := by
  rw [LawfulNumber.mul_comm, LawfulNumber.neg_mul, LawfulNumber.mul_comm]

theorem absorbing_comm (x y : α) : absorbing x y = absorbing y x := by
  rw [absorbing, absorbing, Bool.or_comm, LawfulNumber.mul_comm]

theorem zero_absorbing (x : α) : absorbing 0 x = 0 :=
  absorbing_of_isZero (by simp [isZero_zero])

theorem mul_neg_one (x : α) : x * -1 = -x := by
  rw [mul_neg, LawfulNumber.mul_one]

end Lawful

end Number

/-- What an operator does to plain values. -/
def Operator.apply {α : Type} [Number α] (op : Operator) (x y : α) : α :=
  match op with
  | .plus => x + y
  | .minus => x - y
  | .times => x * y
  | .divide => x / y

section Lawful

variable {α : Type} [Number α] [LawfulNumber α] {op : Operator} (additive : op.isAdditive = true)

include additive

/-- Beside a zero a sum or difference is zero only when the other value is. -/
theorem Operator.isZero_apply_zero (x : α) : isZero (op.apply x 0) = isZero x := by
  have kept {z : α} (zero : isZero z = true) : isZero (x + z) = isZero x :=
    (Number.same_add_isZero x zero).isZero_eq
  cases op with
  | plus => exact kept LawfulNumber.isZero_zero
  | minus =>
    rw [apply, LawfulNumber.sub_eq_add_neg]
    exact kept ((LawfulNumber.isZero_neg 0).trans LawfulNumber.isZero_zero)
  | times | divide => cases additive

theorem Operator.isZero_zero_apply (y : α) : isZero (op.apply 0 y) = isZero y := by
  have kept (z : α) : isZero (0 + z) = isZero z :=
    (Number.same_isZero_add z LawfulNumber.isZero_zero).isZero_eq
  cases op with
  | plus => exact kept y
  | minus => rw [apply, LawfulNumber.sub_eq_add_neg, kept, LawfulNumber.isZero_neg]
  | times | divide => cases additive

end Lawful

end UnitArith
