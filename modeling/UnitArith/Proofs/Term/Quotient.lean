import UnitArith.Proofs.Number.Reciprocal
import UnitArith.Proofs.Term.Order
import UnitArith.Proofs.Term.Text

/-! Division inside of a sum and alone. A single quantity is divided; a sum is multiplied by the
reciprocal of the divisor, which has been rounded already. -/
namespace UnitArith.Term

open Number (Same absorbing isZero)
open Double (InRange toRat)

section Lawful

variable {α : Type} [Number α]

theorem mem_of_find? {unit : String} {operands : List (Operator × Term α)} {index place : Nat}
    {op : Operator} {q : Quantity α}
    (h : find?.go unit index operands = some (place, op, q)) : (op, quantity q) ∈ operands := by
  induction operands generalizing index with
  | nil => simp [find?.go] at h
  | cons operand operands ih =>
    obtain ⟨op', p | ⟨head, tail⟩⟩ := operand
    · rw [find?.go] at h
      split at h
      · cases h
        exact List.mem_cons_self ..
      · exact List.mem_cons_of_mem _ (ih h)
    · exact List.mem_cons_of_mem _ (ih h)

theorem mem_quantitiesTail {op : Operator} {q : Quantity α} {tail : List (Operator × Term α)}
    (h : (op, quantity q) ∈ tail) : q ∈ quantitiesTail tail := by
  induction tail with
  | nil => cases h
  | cons operand tail ih =>
    rw [quantitiesTail, List.mem_append]
    rcases List.mem_cons.mp h with rfl | h
    · exact .inl (List.mem_singleton_self q)
    · exact .inr (ih h)

/-- A value of a term comes from one of its quantities. -/
theorem coefficient_cases (t : Term α) (unit : String) :
    t.coefficient unit = 0 ∨ ∃ op, ∃ q ∈ t.quantities, t.coefficient unit = (q.after op).value := by
  rw [coefficient]
  cases found : t.find? unit with
  | none => exact .inl rfl
  | some place =>
    obtain ⟨place, op, q⟩ := place
    refine .inr ⟨op, q, ?_, rfl⟩
    cases t with
    | quantity p =>
      cases mem_of_find? found with
      | head => exact List.mem_singleton_self q
      | tail _ h => cases h
    | expression head tail =>
      rw [quantities, List.mem_append]
      rcases List.mem_cons.mp (mem_of_find? found) with same | h
      · cases same
        exact .inl (List.mem_singleton_self q)
      · exact .inr (mem_quantitiesTail h)

variable [LawfulNumber α]

/-- Division by a plain number succeeds. -/
theorem calculate_divide {s : Term α} (normal : s.IsNormal) {d : Quantity α}
    (plain : d.hasUnit = false) (nonzero : d.isZero = false) :
    ∃ r, s.calculate .divide (.quantity d) = .ok r ∧ r.IsNormal ∧
      ∀ unit, isZero (s.coefficient unit) = false →
        Same (r.coefficient unit)
          (if s.isQuantity then s.coefficient unit / d.value
          else absorbing (s.coefficient unit) (1 / d.value)) := by
  have meets := calculate_meets normal (.quantity d.canonical) .divide
  have value := coefficient_quantity d
  rw [(Quantity.hasUnit_eq_false_iff d).mp plain] at value
  have single : (quantity d).isQuantity = true := rfl
  simp only [outcome, single, dimension_of_plain plain nonzero, value, Bool.not_true] at meets
  generalize result : s.calculate .divide (.quantity d) = x at meets
  cases meets with
  | ok related =>
    refine ⟨_, rfl, related.1, fun unit present => ?_⟩
    have same := related.2 unit
    cases single : s.isQuantity <;> simpa [single, present] using same

end Lawful

theorem isFinite_coefficient {t : Term Float}
    (finite : ∀ q ∈ t.quantities, q.value.isFinite = true) (unit : String) :
    (t.coefficient unit).isFinite = true := by
  have zero : (0 : Float).isFinite = true := by decide +kernel
  rcases coefficient_cases t unit with absent | ⟨op, q, member, value⟩
  · rwa [absent]
  · rw [value]
    cases empty : q.isZero with
    | true =>
      rw [← Quantity.isZero_after op] at empty
      rwa [(Quantity.canonical _ empty).1]
    | false => exact Quantity.isFinite_after op (finite q member) empty

/-- A sum takes the product with the reciprocal, a single quantity the quotient. There is no
difference when the divisor is plus or minus a power of two, and a small one wherever the exact
reciprocal and quotient are neither huge nor tiny. -/
theorem divide_sum {e : Term Float} (normal : e.IsNormal) (sum : e.isQuantity = false)
    (finite : ∀ q ∈ e.quantities, q.value.isFinite = true) {d : Quantity Float}
    (bounded : d.value.isFinite = true) (plain : d.hasUnit = false) (nonzero : d.isZero = false) :
    ∃ r, e.calculate .divide (.quantity d) = .ok r ∧ r.IsNormal ∧
      ∀ unit ∈ e.units, ∃ alone,
        calculate (.quantity (.of (e.coefficient unit) unit)) .divide (.quantity d) = .ok alone ∧
        SameDouble (r.coefficient unit) (e.coefficient unit * (1 / d.value)) ∧
        SameDouble (alone.coefficient unit) (e.coefficient unit / d.value) ∧
        ((∃ k : Int, -1023 ≤ k ∧ |toRat d.value| = 2 ^ k) →
          r.coefficient unit = alone.coefficient unit) ∧
        (InRange (1 / toRat d.value) → InRange (toRat (e.coefficient unit) / toRat d.value) →
          |toRat (r.coefficient unit) - toRat (alone.coefficient unit)| ≤
            |toRat (e.coefficient unit) / toRat d.value| / 2 ^ 51) := by
  obtain ⟨r, result, resultNormal, products⟩ := calculate_divide normal plain nonzero
  refine ⟨r, result, resultNormal, fun unit member => ?_⟩
  have present : isZero (e.coefficient unit) = false := by
    obtain ⟨a, ha, represents⟩ := (isNormal_iff e).mp normal
    rw [units_eq represents ha, ha.mem_units_iff] at member
    rwa [coefficient_eq represents]
  obtain ⟨alone, quotient, _, quotients⟩ :=
    calculate_divide (.quantity (Quantity.canonical (.of (e.coefficient unit) unit))) plain nonzero
  have own : (quantity (.of (e.coefficient unit) unit)).coefficient unit = e.coefficient unit := by
    have value := coefficient_quantity (.of (e.coefficient unit) unit)
    rwa [Quantity.unit_of present, Quantity.value_of present] at value
  have left : Same (r.coefficient unit) (e.coefficient unit * (1 / d.value)) := by
    have product := products unit present
    rw [sum] at product
    exact product.trans (Double.same_absorbing (isFinite_coefficient finite unit) present)
  have right : Same (alone.coefficient unit) (e.coefficient unit / d.value) := by
    have quotient := quotients unit (by rwa [own])
    rwa [own] at quotient
  refine ⟨alone, quotient, (Double.same_iff ..).mp left, (Double.same_iff ..).mp right, ?_, ?_⟩
  · rintro ⟨k, large, power⟩
    have inverse := Double.toRat_reciprocal large power
    rw [Double.mul_reciprocal (Double.toRat_ne_zero bounded nonzero) inverse] at left
    exact coefficient_eq_of_same (left.trans right.symm)
  · intro reciprocal inRange
    rw [Double.toRat_eq_of_same left, Double.toRat_eq_of_same right]
    exact Double.reciprocal_error reciprocal inRange

theorem divide_sum_quarter :
    ∃ r alone,
      calculate (.expression (.quantity (.of 5 "px")) [(.minus, .quantity (.of 3 "vh"))]) .divide
        (.quantity (.of (4 : Float) "")) = .ok r ∧
      calculate (.quantity (.of 5 "px")) .divide (.quantity (.of (4 : Float) "")) = .ok alone ∧
      r.coefficient "px" = alone.coefficient "px" ∧
      |toRat (r.coefficient "px") - toRat (alone.coefficient "px")| ≤ 5 / 4 / 2 ^ 51 := by
  have normal : IsNormal (.expression (.quantity (.of 5 "px"))
      [(.minus, .quantity (.of (3 : Float) "vh"))]) := by
    refine @IsNormal.sum Float _ (.of 5 "px") [(.minus, .of 3 "vh")] ?_ ?_ ?_ ?_ ?_ ?_
    all_goals decide +kernel
  have finite : ∀ q ∈ quantities (.expression (.quantity (.of 5 "px"))
      [(.minus, .quantity (.of (3 : Float) "vh"))]), q.value.isFinite = true := by
    decide +kernel
  have member : "px" ∈ units (.expression (.quantity (.of 5 "px"))
      [(.minus, .quantity (.of (3 : Float) "vh"))]) := by
    decide +kernel
  have value : coefficient (.expression (.quantity (.of 5 "px"))
      [(.minus, .quantity (.of (3 : Float) "vh"))]) "px" = 5 := by
    decide +kernel
  have divisor : (Quantity.of (4 : Float) "").value = 4 := by decide +kernel
  have five : toRat 5 = 5 := by
    have view : Double.view 5 = .finite .positive (5 * 2 ^ 50) (-50) (by decide) := rfl
    rw [toRat, view, Double.rational, Double.signum]
    norm_num
  have four : toRat 4 = 4 := by
    have view : Double.view 4 = .finite .positive (2 ^ 52) (-50) (by decide) := rfl
    rw [toRat, view, Double.rational, Double.signum]
    norm_num
  obtain ⟨r, result, _, both⟩ := divide_sum normal rfl finite (d := .of 4 "")
    (by decide +kernel) (by decide +kernel) (by decide +kernel)
  obtain ⟨alone, quotient, _, _, power, near⟩ := both "px" member
  rw [value] at quotient near
  rw [divisor, five, four] at near
  rw [divisor, four] at power
  have same := power ⟨2, by decide, by norm_num⟩
  have reciprocal : InRange (1 / 4) :=
    ⟨(zpow_le_zpow_right₀ one_le_two (by decide : (-1021 : Int) ≤ -2)).trans (by norm_num),
      (by norm_num : |(1 / 4 : ℚ)| ≤ 2 ^ (0 : Int)).trans
        (zpow_le_zpow_right₀ one_le_two (by decide))⟩
  have inRange : InRange (5 / 4) :=
    ⟨(zpow_le_zpow_right₀ one_le_two (by decide : (-1021 : Int) ≤ 0)).trans (by norm_num),
      (by norm_num : |(5 / 4 : ℚ)| ≤ 2 ^ (1 : Int)).trans
        (zpow_le_zpow_right₀ one_le_two (by decide))⟩
  refine ⟨r, alone, result, quotient, same, ?_⟩
  have bound := near reciprocal inRange
  rwa [abs_of_pos (by norm_num : (0 : ℚ) < 5 / 4)] at bound

/-- The last digit of `5px / 3` is another one in `(5px + 1vh) / 3`. -/
theorem divide_sum_third :
    IsNormal (.expression (.quantity (.of 5 "px")) [(.plus, .quantity (.of (1 : Float) "vh"))]) ∧
    calculate (.expression (.quantity (.of 5 "px")) [(.plus, .quantity (.of 1 "vh"))]) .divide
        (.quantity (.of (3 : Float) "")) =
      .ok (.expression (.quantity (.of 1.6666666666666665 "px"))
        [(.plus, .quantity (.of 0.3333333333333333 "vh"))]) ∧
    calculate (.quantity (.of 5 "px")) .divide (.quantity (.of (3 : Float) "")) =
      .ok (.quantity (.of 1.6666666666666667 "px")) ∧
    ¬ SameDouble
      (coefficient (.expression (.quantity (.of 1.6666666666666665 "px"))
        [(.plus, .quantity (.of 0.3333333333333333 "vh"))]) "px")
      (coefficient (.quantity (.of 1.6666666666666667 "px")) "px") := by
  refine ⟨?_, ?_, ?_, ?_⟩
  · refine @IsNormal.sum Float _ (.of 5 "px") [(.plus, .of 1 "vh")] ?_ ?_ ?_ ?_ ?_ ?_
    all_goals decide +kernel
  all_goals decide +kernel

end UnitArith.Term
