import UnitArith.Proofs.Combination.Coefficient
import UnitArith.Proofs.Number.Double
import UnitArith.Proofs.Term.Normal

/-! What each operator does to the values of the units, and exactly when it fails. Equality is
that of doubles: both zeros are equal, and NaN counts as equal to NaN. -/
namespace UnitArith.Term

open AlgebraError (Cause)
open Number (Same absorbing isZero)

variable {α : Type} [Number α]

/-- The value of a unit with the sign it has in the term, zero when the unit is absent. -/
def coefficient (t : Term α) (unit : String) : α :=
  (t.find? unit).elim 0 fun found => (found.2.2.after found.2.1).value

inductive Dimension where
  | zero
  | scalar
  | dimensional
  deriving DecidableEq, Repr

def dimension (t : Term α) : Dimension :=
  if t.hasUnit then .dimensional
  else if Number.isZero (t.coefficient "") then .zero
  else .scalar

/-- There is one zero among the values of a term. -/
theorem coefficient_of_isZero {t : Term α} {unit : String}
    (zero : isZero (t.coefficient unit) = true) : t.coefficient unit = 0 := by
  rw [coefficient] at zero ⊢
  cases found : t.find? unit with
  | none => rfl
  | some place =>
    rw [found] at zero
    exact (Quantity.canonical _ zero).1

theorem coefficient_eq_of_same {s t : Term α} {unit : String}
    (h : Same (s.coefficient unit) (t.coefficient unit)) :
    s.coefficient unit = t.coefficient unit := by
  rcases h with same | ⟨left, right⟩
  · exact same
  · rw [coefficient_of_isZero left, coefficient_of_isZero right]

theorem coefficient_quantity (q : Quantity α) : (quantity q).coefficient q.unit = q.value := by
  simp [coefficient, find?, operands, find?.go, Quantity.after]

theorem dimension_of_plain {d : Quantity α} (plain : d.hasUnit = false)
    (nonzero : d.isZero = false) : (quantity d).dimension = .scalar := by
  have value := coefficient_quantity d
  rw [(Quantity.hasUnit_eq_false_iff d).mp plain] at value
  have left : isZero d.value = false := nonzero
  simp [dimension, hasUnit, plain, value, left]

/-- A plain number beside units. -/
def Mixed : Dimension → Dimension → Prop
  | .scalar, .dimensional | .dimensional, .scalar => True
  | _, _ => False

instance (d e : Dimension) : Decidable (Mixed d e) := by
  unfold Mixed
  split <;> infer_instance

/-- The value of every unit after an operator, or why there is none. A unit that is absent from
the operand that has units stays absent. -/
def outcome (s : Term α) (op : Operator) (t : Term α) : Except Cause (String → α) :=
  match op with
  | .plus =>
    if Mixed s.dimension t.dimension then .error .unitMismatch
    else .ok fun unit => s.coefficient unit + t.coefficient unit
  | .minus =>
    if Mixed s.dimension t.dimension then .error .unitMismatch
    else .ok fun unit => s.coefficient unit - t.coefficient unit
  | .times =>
    if t.dimension ≠ .dimensional then
      .ok fun unit => absorbing (s.coefficient unit) (t.coefficient "")
    else if s.dimension ≠ .dimensional then
      .ok fun unit => absorbing (s.coefficient "") (t.coefficient unit)
    else if s.isQuantity || t.isQuantity then .error .productOfUnits
    else .error .productOfSums
  | .divide =>
    if !t.isQuantity then .error .divisionBySum
    else
      match t.dimension with
      | .dimensional => .error .divisionByUnit
      | .zero => .error .divisionByZero
      | .scalar => .ok fun unit =>
        if !s.isQuantity then absorbing (s.coefficient unit) (1 / t.coefficient "")
        else if Number.isZero (s.coefficient unit) then 0
        else s.coefficient unit / t.coefficient ""

/-- A result with the expected values, or the expected failure. -/
inductive Meets {β : Type} (R : β → (String → α) → Prop) :
    Except (AlgebraError α) β → Except Cause (String → α) → Prop
  | ok {r : β} {values : String → α} (related : R r values) : Meets R (.ok r) (.ok values)
  | error (e : AlgebraError α) : Meets R (.error e) (.error e.cause)

theorem Meets.ok_of {β : Type} {R : β → (String → α) → Prop} {x : Except (AlgebraError α) β}
    {values : String → α} (h : ∃ r, x = .ok r ∧ R r values) : Meets R x (.ok values) := by
  obtain ⟨r, rfl, related⟩ := h
  exact .ok related

theorem Agrees.meets {R : Combination α → (String → α) → Prop} {S : Term α → (String → α) → Prop}
    {x : Except (AlgebraError α) (Term α)} {y : Except (AlgebraError α) (Combination α)}
    {z : Except Cause (String → α)} (agrees : Agrees Represents x y) (meets : Meets R y z)
    (related : ∀ t a values, x = .ok t → Represents t a → R a values → S t values) :
    Meets S x z := by
  cases agrees with
  | ok represents =>
    cases meets with
    | ok values => exact .ok (related _ _ _ rfl represents values)
  | error cause =>
    cases meets with
    | error =>
      rw [← cause]
      exact .error _

theorem isQuantity_eq {t : Term α} {a : Combination α} (h : Represents t a) :
    t.isQuantity = a.quantity?.isSome := by
  cases h with
  | quantity q =>
    rw [Combination.quantity?_ofQuantity]
    rfl
  | sum operands => rfl

section Lawful

variable [LawfulNumber α]

theorem find?_coefficient (unit : String) {tail : List (Operator × Term α)}
    {terms : List (Quantity α)} (operands : List.Forall₂ Summand tail terms) (index : Nat) :
    ((find?.go unit index tail).elim 0 fun found => (found.2.2.after found.2.1).value) =
      Combination.coefficientOf unit terms := by
  induction operands generalizing index with
  | nil => rfl
  | cons first others ih =>
    cases first with
    | @mk op q additive nonnegative =>
      rw [find?.go]
      split
      · rename_i hit
        exact (Combination.coefficientOf_cons_of_eq ((Quantity.unit_after op q).trans hit) _).symm
      · rename_i other
        rw [Combination.coefficientOf_cons_of_ne (by rwa [Quantity.unit_after])]
        exact ih (index + 1)

theorem coefficient_eq {t : Term α} {a : Combination α} (h : Represents t a) (unit : String) :
    t.coefficient unit = a.coefficient unit := by
  cases h with
  | quantity q =>
    rw [Combination.coefficient_ofQuantity, Combination.coefficientOf, coefficient, find?,
      operands, find?.go]
    split <;> rfl
  | sum operands =>
    rw [coefficient, find?, Term.operands, find?.go, Combination.coefficient,
      Combination.coefficientOf]
    split
    · rfl
    · exact find?_coefficient unit operands 1

theorem dimension_eq {t : Term α} {a : Combination α} (h : Represents t a) (ha : a.IsNormal) :
    t.dimension = if a.terms = [] then .zero else if a.hasUnit then .dimensional else .scalar := by
  rw [dimension, hasUnit_eq h ha, coefficient_eq h]
  cases unit : a.hasUnit with
  | true => simp [Combination.terms_ne_nil_of_hasUnit unit]
  | false =>
    obtain ⟨q, single, rfl, plain⟩ := ha.exists_quantity unit
    rw [Combination.coefficient_plain plain]
    cases zero : q.isZero with
    | true =>
      have value : Number.isZero q.value = true := zero
      simp [Combination.ofQuantity_of_isZero zero, Combination.zero, value]
    | false =>
      have value : Number.isZero q.value = false := zero
      simp [Combination.ofQuantity_of_nonzero zero, value]

theorem mixed_iff {s t : Term α} {a b : Combination α} (hs : Represents s a)
    (ht : Represents t b) (ha : a.IsNormal) (hb : b.IsNormal) :
    Mixed s.dimension t.dimension ↔ a.terms ≠ [] ∧ b.terms ≠ [] ∧ a.hasUnit ≠ b.hasUnit := by
  rw [dimension_eq hs ha, dimension_eq ht hb]
  by_cases left : a.terms = []
  · simp [left, Mixed]
  · by_cases right : b.terms = []
    · simp [right, Mixed]
    · cases a.hasUnit <;> cases b.hasUnit <;> simp [left, right, Mixed]

theorem dimensional_iff {t : Term α} {a : Combination α} (h : Represents t a) (ha : a.IsNormal) :
    t.dimension = .dimensional ↔ a.hasUnit = true := by
  rw [dimension_eq h ha]
  cases unit : a.hasUnit with
  | true => simp [Combination.terms_ne_nil_of_hasUnit unit]
  | false => split <;> simp

/-- The combination has these values, whatever the sign of a zero. -/
def Matches (a : Combination α) (values : String → α) : Prop :=
  ∀ unit, Same (a.coefficient unit) (values unit)

section Operators

variable {s t : Term α} {a b : Combination α} (hs : Represents s a) (ht : Represents t b)
  (ha : a.IsNormal) (hb : b.IsNormal)

include hs ht ha hb

theorem add_meets : Meets Matches (a.add b) (outcome s .plus t) := by
  simp only [outcome, mixed_iff hs ht ha hb, coefficient_eq hs, coefficient_eq ht]
  split
  · rename_i mixed
    obtain ⟨l, r, failed⟩ := Combination.add_mixed ha hb mixed.1 mixed.2.1 mixed.2.2
    rw [failed]
    exact .error (.unitMismatch l r)
  · rename_i compatible
    obtain ⟨c, result⟩ := Combination.add_succeeds ha hb (by tauto)
    exact .ok_of ⟨c, result, Combination.add_coefficient ha hb result⟩

theorem sub_meets : Meets Matches (a.sub b) (outcome s .minus t) := by
  simp only [outcome, mixed_iff hs ht ha hb, coefficient_eq hs, coefficient_eq ht]
  split
  · rename_i mixed
    obtain ⟨l, r, failed⟩ := Combination.sub_mixed ha hb mixed.1 mixed.2.1 mixed.2.2
    rw [failed]
    exact .error (.unitMismatch l r)
  · rename_i compatible
    obtain ⟨c, result⟩ := Combination.sub_succeeds ha hb (by tauto)
    exact .ok_of ⟨c, result, Combination.sub_coefficient ha hb result⟩

theorem mul_meets : Meets Matches (a.mul b) (outcome s .times t) := by
  have left := dimensional_iff hs ha
  have right := dimensional_iff ht hb
  simp only [outcome, ne_eq, left, right, coefficient_eq hs, coefficient_eq ht, isQuantity_eq hs,
    isQuantity_eq ht]
  split
  · rename_i plain
    rw [Bool.not_eq_true] at plain
    exact .ok_of (Combination.mul_plain ha hb plain)
  · split
    · rename_i plain
      rw [Bool.not_eq_true] at plain
      exact .ok_of (Combination.plain_mul ha hb plain)
    · rename_i right left
      rw [not_not] at left right
      rw [Combination.mul_units ha hb left right]
      cases single : a.quantity? with
      | some q => exact .error .productOfUnits
      | none =>
        cases other : b.quantity? with
        | some q => exact .error .productOfUnits
        | none => exact .error (.productOfSums a.toTerm b.toTerm)

theorem div_meets : Meets Matches (a.div b) (outcome s .divide t) := by
  simp only [outcome, coefficient_eq hs, coefficient_eq ht, isQuantity_eq hs, isQuantity_eq ht,
    dimension_eq ht hb, Combination.div]
  cases single : b.quantity? with
  | none => exact .error .divisionBySum
  | some divisor =>
    obtain rfl := hb.eq_ofQuantity single
    rw [Combination.hasUnit_ofQuantity]
    cases unit : divisor.hasUnit with
    | true =>
      have nonzero := Quantity.isZero_of_hasUnit unit
      simp only [unit, Combination.ofQuantity_of_nonzero nonzero]
      exact .error .divisionByUnit
    | false =>
      rw [Combination.coefficient_plain unit]
      cases zero : divisor.isZero with
      | true =>
        simp only [unit, zero, Combination.ofQuantity_of_isZero zero]
        exact .error .divisionByZero
      | false =>
        simp only [unit, zero, Combination.ofQuantity_of_nonzero zero]
        cases sum : a.quantity? with
        | none => exact .ok_of (Combination.scale_reciprocal ha unit)
        | some q =>
          obtain rfl := ha.eq_ofQuantity sum
          simp only [Combination.coefficient_ofQuantity]
          exact .ok_of ⟨_, rfl, Combination.dividedBy_coefficient q divisor⟩

end Operators

theorem combination_meets {s t : Term α} {a b : Combination α} (hs : Represents s a)
    (ht : Represents t b) (ha : a.IsNormal) (hb : b.IsNormal) (op : Operator) :
    Meets Matches (a.calculate op b) (outcome s op t) := by
  cases op with
  | plus => exact add_meets hs ht ha hb
  | minus => exact sub_meets hs ht ha hb
  | times => exact mul_meets hs ht ha hb
  | divide => exact div_meets hs ht ha hb

theorem calculate_meets {s t : Term α} (hs : s.IsNormal) (ht : t.IsNormal) (op : Operator) :
    Meets (fun r values => r.IsNormal ∧ ∀ unit, Same (r.coefficient unit) (values unit))
      (s.calculate op t) (outcome s op t) := by
  obtain ⟨a, ha, left⟩ := (isNormal_iff s).mp hs
  obtain ⟨b, hb, right⟩ := (isNormal_iff t).mp ht
  refine (calculate_agrees left right ha hb op).meets (combination_meets left right ha hb op) ?_
  intro r c values result represents matched
  refine ⟨calculate_isNormal hs ht result, fun unit => ?_⟩
  rw [coefficient_eq represents]
  exact matched unit

end Lawful

/-- The numbers are equal as doubles are compared, or neither is a number. -/
def SameDouble (x y : Float) : Prop := (x == y) = true ∨ x.isNaN = true ∧ y.isNaN = true

instance (x y : Float) : Decidable (SameDouble x y) := inferInstanceAs (Decidable (_ ∨ _))

theorem calculate_coefficient {s t : Term Float} (hs : s.IsNormal) (ht : t.IsNormal)
    (op : Operator) :
    Meets (fun r values => r.IsNormal ∧ ∀ unit, SameDouble (r.coefficient unit) (values unit))
      (s.calculate op t) (outcome s op t) := by
  have meets := calculate_meets hs ht op
  simp only [Double.same_iff] at meets
  exact meets

theorem calculate_coefficient_cancelled :
    calculate (.expression (.quantity (.of 5 "px")) [(.minus, .quantity (.of 3 "vh"))]) .plus
        (.quantity (.of 3 "vh")) = .ok (.quantity (.of (5 : Float) "px")) ∧
    Meets (fun r values => r.IsNormal ∧ ∀ unit, SameDouble (r.coefficient unit) (values unit))
      (calculate (.expression (.quantity (.of 5 "px")) [(.minus, .quantity (.of 3 "vh"))]) .plus
        (.quantity (.of 3 "vh")))
      (outcome (.expression (.quantity (.of 5 "px")) [(.minus, .quantity (.of 3 "vh"))]) .plus
        (.quantity (.of (3 : Float) "vh"))) := by
  have sum : IsNormal (.expression (.quantity (.of 5 "px"))
      [(.minus, .quantity (.of (3 : Float) "vh"))]) := by
    refine @IsNormal.sum Float _ (.of 5 "px") [(.minus, .of 3 "vh")] ?_ ?_ ?_ ?_ ?_ ?_
    all_goals decide +kernel
  exact ⟨by decide +kernel, calculate_coefficient sum (.quantity (by decide +kernel)) .plus⟩

/-- Infinity times nothing is not NaN: the product of the values is, but a unit that is absent
stays absent. -/
theorem infinite_times_absent :
    IsNormal (.quantity (.of (1 / 0) "") : Term Float) ∧
    IsNormal (.quantity (.of 1 "px") : Term Float) ∧
    dimension (.quantity (.of (1 / 0) "") : Term Float) = .scalar ∧
    dimension (.quantity (.of 1 "px") : Term Float) = .dimensional ∧
    calculate (.quantity (.of (1 / 0) "")) .times (.quantity (.of 1 "px")) =
      .ok (.quantity (.of (1 / 0 : Float) "px")) ∧
    ¬ SameDouble (coefficient (.quantity (.of (1 / 0) "px")) "vh")
      (coefficient (.quantity (.of (1 / 0) "")) "" *
        coefficient (.quantity (.of 1 "px")) "vh") := by
  refine ⟨.quantity ?_, .quantity ?_, ?_, ?_, ?_, ?_⟩
  all_goals decide +kernel

end UnitArith.Term
