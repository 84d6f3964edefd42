import UnitArith.Proofs.Number.Law
import UnitArith.Quantity

/-! Signs and zeros of quantities. What a sum writes after an operator is the quantity again
once the operator is taken into account. -/
namespace UnitArith.Quantity

variable {α : Type} [Number α]

theorem sameUnit_iff (p q : Quantity α) : p.sameUnit q = true ↔ p.unit = q.unit := by
  simp [sameUnit]

theorem hasUnit_eq_false_iff (q : Quantity α) : q.hasUnit = false ↔ q.unit = "" := by
  simp [hasUnit]

theorem hasUnit_of_unit_eq {p q : Quantity α} (h : p.unit = q.unit) : p.hasUnit = q.hasUnit := by
  rw [hasUnit, hasUnit, h]

@[simp] theorem hasUnit_zero : (zero : Quantity α).hasUnit = false := by
  simp [hasUnit, zero]

theorem isZero_of_hasUnit {q : Quantity α} (h : q.hasUnit = true) : q.isZero = false := by
  cases zero : q.isZero with
  | false => rfl
  | true => simp [eq_zero zero] at h

theorem isAdditive_signed (q : Quantity α) : q.signed.1.isAdditive = true := by
  unfold signed
  split <;> rfl

@[simp] theorem after_plus (q : Quantity α) : q.after .plus = q := rfl
@[simp] theorem after_minus (q : Quantity α) : q.after .minus = q.neg := rfl

theorem times_of_isZero {q factor : Quantity α} (h : (q.isZero || factor.isZero) = true) :
    q.times factor = zero := by
  rw [times, if_pos h]

theorem times_of_nonzero {q factor : Quantity α} (hq : q.isZero = false)
    (hf : factor.isZero = false) :
    q.times factor = of (q.value * factor.value) (if q.hasUnit then q.unit else factor.unit) := by
  rw [times, hq, hf]
  rfl

theorem hasUnit_unitless (value : α) : (unitless value).hasUnit = false := by
  rw [hasUnit_eq_false_iff, unitless]
  cases h : Number.isZero value with
  | true => rw [of_zero h]; rfl
  | false => exact unit_of h ""

variable [LawfulNumber α]

@[simp] theorem isZero_zero : (zero : Quantity α).isZero = true := LawfulNumber.isZero_zero

@[simp] theorem isZero_of (value : α) (unit : String) :
    (of value unit).isZero = Number.isZero value := by
  cases h : Number.isZero value with
  | true => rw [of_zero h, isZero_zero]
  | false => rw [isZero, value_of h, h]

theorem isZero_unitless_neg_one : (unitless (-1) : Quantity α).isZero = false := by
  rw [unitless, isZero_of, LawfulNumber.isZero_neg, LawfulNumber.isZero_one]

@[simp] theorem isZero_neg (q : Quantity α) : q.neg.isZero = q.isZero := by
  rw [neg, withValue, isZero_of, LawfulNumber.isZero_neg, isZero]

theorem neg_zero : (zero : Quantity α).neg = zero :=
  eq_zero (by rw [isZero_neg, isZero_zero])

theorem value_neg {q : Quantity α} (h : q.isZero = false) : q.neg.value = -q.value :=
  value_of (by rwa [LawfulNumber.isZero_neg]) q.unit

@[simp] theorem unit_neg (q : Quantity α) : q.neg.unit = q.unit := by
  cases h : q.isZero with
  | true => rw [eq_zero h, neg_zero]
  | false => exact unit_of (by rwa [LawfulNumber.isZero_neg]) q.unit

@[simp] theorem hasUnit_neg (q : Quantity α) : q.neg.hasUnit = q.hasUnit :=
  hasUnit_of_unit_eq (unit_neg q)

@[simp] theorem neg_neg (q : Quantity α) : q.neg.neg = q := by
  cases h : q.isZero with
  | true => rw [eq_zero h, neg_zero, neg_zero]
  | false =>
    apply ext
    · rw [value_neg (by rwa [isZero_neg]), value_neg h, LawfulNumber.neg_neg]
    · simp

@[simp] theorem isZero_after (op : Operator) (q : Quantity α) :
    (q.after op).isZero = q.isZero := by
  unfold after
  split <;> simp

@[simp] theorem unit_after (op : Operator) (q : Quantity α) : (q.after op).unit = q.unit := by
  unfold after
  split <;> simp

theorem abs_of_isNegative {q : Quantity α} (h : q.isNegative = true) : q.abs = q.neg := by
  rw [abs, neg, LawfulNumber.abs_of_isNegative h]

/-- Moving the sign into the operator loses nothing. -/
theorem after_signed (q : Quantity α) : q.signed.2.after q.signed.1 = q := by
  cases h : q.isNegative with
  | true => simp [signed, h, abs_of_isNegative h]
  | false => simp [signed, h]

theorem unit_signed (q : Quantity α) : q.signed.2.unit = q.unit := by
  rw [← unit_after q.signed.1, after_signed]

theorem isNegative_signed (q : Quantity α) : q.signed.2.isNegative = false := by
  cases h : q.isNegative with
  | false => simp [signed, h]
  | true =>
    have nonzero : q.isZero = false := LawfulNumber.isZero_of_isNegative h
    simp only [signed, h, if_true, abs_of_isNegative h]
    rw [isNegative, value_neg nonzero]
    exact LawfulNumber.isNegative_neg h

theorem isZero_plus (p q : Quantity α) :
    (p.plus q).isZero = Number.isZero (p.value + q.value) :=
  isZero_of _ p.unit

theorem value_plus {p q : Quantity α} (h : (p.plus q).isZero = false) :
    (p.plus q).value = p.value + q.value :=
  value_of (by rwa [isZero_plus] at h) p.unit

theorem unit_plus {p q : Quantity α} (h : (p.plus q).isZero = false) :
    (p.plus q).unit = p.unit :=
  unit_of (by rwa [isZero_plus] at h) p.unit

theorem neg_times (q factor : Quantity α) : q.neg.times factor = (q.times factor).neg := by
  cases hq : q.isZero with
  | true => rw [eq_zero hq, neg_zero, times_of_isZero (by simp), neg_zero]
  | false =>
    cases hf : factor.isZero with
    | true => rw [times_of_isZero (by simp [hf]), times_of_isZero (by simp [hf]), neg_zero]
    | false =>
      rw [times_of_nonzero (by rwa [isZero_neg]) hf, times_of_nonzero hq hf, value_neg hq,
        LawfulNumber.neg_mul, hasUnit_neg, unit_neg]
      cases hz : Number.isZero (q.value * factor.value) with
      | true => rw [of_zero hz, neg_zero, of_zero (by rwa [LawfulNumber.isZero_neg])]
      | false => rw [neg, withValue, value_of hz, unit_of hz]

theorem after_times (op : Operator) (q factor : Quantity α) :
    (q.after op).times factor = (q.times factor).after op := by
  unfold after
  split
  · exact neg_times q factor
  · rfl

/-- The factors may change places when only one of them can have a unit. -/
theorem times_comm {q factor : Quantity α} (plain : q.hasUnit = false) :
    q.times factor = factor.times q := by
  rw [times, times, Bool.or_comm, LawfulNumber.mul_comm, plain, if_neg Bool.false_ne_true]
  cases unit : factor.hasUnit with
  | true => rfl
  | false =>
    rw [hasUnit_eq_false_iff] at plain unit
    rw [plain, unit]
    rfl

theorem times_neg_one (q : Quantity α) : q.times (unitless (-1)) = q.neg := by
  cases hq : q.isZero with
  | true => rw [eq_zero hq, neg_zero, times_of_isZero (by simp)]
  | false =>
    have one : Number.isZero (-1 : α) = false := by
      rw [LawfulNumber.isZero_neg, LawfulNumber.isZero_one]
    rw [times_of_nonzero hq isZero_unitless_neg_one, unitless, value_of one, unit_of one,
      Number.mul_neg_one]
    cases unit : q.hasUnit with
    | true => rfl
    | false =>
      rw [neg, withValue, (hasUnit_eq_false_iff q).mp unit]
      rfl

theorem of_times_nonzero {q factor : Quantity α} (nonzero : (q.times factor).isZero = false) :
    q.isZero = false ∧ factor.isZero = false ∧
      Number.isZero (q.value * factor.value) = false := by
  cases zero : q.isZero || factor.isZero with
  | true => simp [times_of_isZero zero] at nonzero
  | false =>
    obtain ⟨hq, hf⟩ := Bool.or_eq_false_iff.mp zero
    rw [times_of_nonzero hq hf, isZero_of] at nonzero
    exact ⟨hq, hf, nonzero⟩

theorem isZero_times (q factor : Quantity α) :
    (q.times factor).isZero = Number.isZero (Number.absorbing q.value factor.value) := by
  cases zero : q.isZero || factor.isZero with
  | true =>
    rw [times_of_isZero zero, isZero_zero, Number.absorbing_of_isZero zero,
      LawfulNumber.isZero_zero]
  | false =>
    obtain ⟨hq, hf⟩ := Bool.or_eq_false_iff.mp zero
    rw [times_of_nonzero hq hf, isZero_of, Number.absorbing_of_nonzero hq hf]

theorem value_times {q factor : Quantity α} (nonzero : (q.times factor).isZero = false) :
    (q.times factor).value = Number.absorbing q.value factor.value := by
  obtain ⟨hq, hf, product⟩ := of_times_nonzero nonzero
  rw [times_of_nonzero hq hf, value_of product, Number.absorbing_of_nonzero hq hf]

/-- A product keeps the unit of its first factor, unless only the second one has a unit. -/
theorem unit_times {q factor : Quantity α} (unit : q.hasUnit = true ∨ factor.hasUnit = false)
    (nonzero : (q.times factor).isZero = false) : (q.times factor).unit = q.unit := by
  obtain ⟨hq, hf, product⟩ := of_times_nonzero nonzero
  rw [times_of_nonzero hq hf, unit_of product]
  split
  · rfl
  · rename_i bare
    have plain := unit.resolve_left bare
    rw [Bool.not_eq_true] at bare
    rw [(hasUnit_eq_false_iff q).mp bare, (hasUnit_eq_false_iff factor).mp plain]

end UnitArith.Quantity
