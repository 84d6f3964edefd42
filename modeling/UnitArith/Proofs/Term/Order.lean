import UnitArith.Proofs.Combination.Order
import UnitArith.Proofs.Term.Unit

/-! The order of the terms. A sum shows the units of its left operand and then the new ones of the
right one; a single quantity in front of a sum is taken in where its unit stands, or else stays in
front. What comes to zero leaves its place, and nothing changes places. -/
namespace UnitArith.Term

open Number (isZero)

variable {α : Type} [Number α]

/-- The units of a term from left to right. Zero has none. -/
def units (t : Term α) : List String :=
  (t.quantities.filter fun q => !q.isZero).map Quantity.unit

/-- The units of `s + t` or `s - t` from left to right. -/
def arrangement (s : Term α) (op : Operator) (t : Term α) : List String :=
  let combined unit := op.apply (s.coefficient unit) (t.coefficient unit)
  match s, t with
  | .quantity q, .expression .. =>
    if q.isZero then t.units
    else if q.unit ∉ t.units then q.unit :: t.units
    else if isZero (combined q.unit) then t.units.erase q.unit
    else t.units
  | _, _ =>
    (s.units ++ t.units.filter fun unit => unit ∉ s.units).filter fun unit =>
      !isZero (combined unit)

section Lawful

variable [LawfulNumber α]

theorem quantitiesTail_nonzero {tail : List (Operator × Term α)} {terms : List (Quantity α)}
    (h : List.Forall₂ Summand tail terms) (nonzero : ∀ q ∈ terms, q.isZero = false) :
    ∀ q ∈ quantitiesTail tail, q.isZero = false := by
  induction h with
  | nil => exact List.forall_mem_nil _
  | cons first others ih =>
    obtain ⟨here, rest⟩ := List.forall_mem_cons.mp nonzero
    cases first with
    | mk additive nonnegative =>
      rw [Quantity.isZero_after] at here
      rw [quantitiesTail, quantities, List.singleton_append]
      exact List.forall_mem_cons.mpr ⟨here, ih rest⟩

/-- A normal term shows the units of the combination that it writes out. -/
theorem units_eq {t : Term α} {a : Combination α} (h : Represents t a) (ha : a.IsNormal) :
    t.units = a.units := by
  cases h with
  | quantity q =>
    rw [Combination.units_ofQuantity, units, quantities]
    cases zero : q.isZero <;> simp [zero]
  | @sum head second tail rest operands =>
    obtain ⟨first, others⟩ := List.forall_mem_cons.mp ha.nonzero
    have kept : (quantities (.expression (.quantity head) tail)).filter (fun q => !q.isZero) =
        head :: quantitiesTail tail := by
      rw [quantities, quantities, List.singleton_append]
      apply List.filter_eq_self.mpr
      intro q member
      rcases List.mem_cons.mp member with rfl | member
      · simp [first]
      · simp [quantitiesTail_nonzero operands others q member]
    rw [units, kept, List.map_cons, quantitiesTail_units operands]
    rfl

/-- Combinations lay out their units as the terms that write them out. -/
theorem arrangement_eq {s t : Term α} {a b : Combination α} (hs : Represents s a)
    (ht : Represents t b) (ha : a.IsNormal) (hb : b.IsNormal) {op : Operator}
    (additive : op.isAdditive = true) :
    arrangement s op t = (Combination.order a b).filter fun unit =>
      !isZero (op.apply (a.coefficient unit) (b.coefficient unit)) := by
  have left := units_eq hs ha
  have right := units_eq ht hb
  simp only [arrangement, left, right, coefficient_eq hs, coefficient_eq ht]
  cases hs with
  | sum => rfl
  | quantity q =>
    cases ht with
    | sum => exact (Combination.filter_order_front hb rfl additive q).symm
    | quantity p =>
      have single : (Combination.ofQuantity p).quantity?.isNone = false := by
        rw [Combination.quantity?_ofQuantity]
        rfl
      simp only [Combination.order, single, Bool.and_false]
      rfl

theorem calculate_units {s t r : Term α} (hs : s.IsNormal) (ht : t.IsNormal) {op : Operator}
    (additive : op.isAdditive = true) (h : s.calculate op t = .ok r) :
    r.units = arrangement s op t := by
  obtain ⟨a, ha, left⟩ := (isNormal_iff s).mp hs
  obtain ⟨b, hb, right⟩ := (isNormal_iff t).mp ht
  have agrees := calculate_agrees left right ha hb op
  rw [h] at agrees
  generalize sum : a.calculate op b = c at agrees
  cases agrees with
  | ok represents =>
    rw [units_eq represents (Combination.calculate_isNormal ha hb sum),
      arrangement_eq left right ha hb additive, Combination.calculate_units ha hb additive sum]

/-- A plain factor leaves every term in its place, unless the product is zero. -/
theorem product_units {t : Term α} (normal : t.IsNormal) {factor : Quantity α}
    (plain : factor.hasUnit = false) (nonzero : factor.isZero = false) :
    (∃ r, t.calculate .times (.quantity factor) = .ok r ∧
      r.units = t.units.filter fun unit => !isZero (t.coefficient unit * factor.value)) ∧
    ∃ r, calculate (.quantity factor) .times t = .ok r ∧
      r.units = t.units.filter fun unit => !isZero (factor.value * t.coefficient unit) := by
  obtain ⟨a, ha, represents⟩ := (isNormal_iff t).mp normal
  have hf := Combination.ofQuantity_isNormal factor
  obtain ⟨right, left⟩ := Combination.mul_eq_products ha plain
  -- Both products write out the same combination.
  have product {x : Except (AlgebraError α) (Term α)}
      (agrees : Agrees Represents x
        (.ok ⟨Combination.products factor a.terms⟩)) :
      ∃ r, x = .ok r ∧
        r.units = t.units.filter fun unit => !isZero (t.coefficient unit * factor.value) := by
    cases agrees with
    | @ok r _ related =>
      refine ⟨r, rfl, ?_⟩
      rw [units_eq related (Combination.mul_isNormal ha hf right), units_eq represents ha,
        Combination.products_units ha plain nonzero]
      simp only [coefficient_eq represents]
  constructor
  · apply product
    rw [← right]
    exact calculate_agrees represents (.quantity factor) ha hf .times
  · simp only [LawfulNumber.mul_comm factor.value]
    apply product
    rw [← left]
    exact calculate_agrees (.quantity factor) represents hf ha .times

end Lawful

/-- Whatever cancels on the way, sums, differences and products with a plain factor keep the order
of their terms. -/
theorem units_calculate {s t : Term Float} (hs : s.IsNormal) (ht : t.IsNormal) :
    (∀ op r, op = .plus ∨ op = .minus → s.calculate op t = .ok r →
      r.units = arrangement s op t) ∧
    ∀ factor : Quantity Float, factor.hasUnit = false → factor.isZero = false →
      (∃ r, s.calculate .times (.quantity factor) = .ok r ∧
        r.units = s.units.filter fun unit => !isZero (s.coefficient unit * factor.value)) ∧
      ∃ r, calculate (.quantity factor) .times s = .ok r ∧
        r.units = s.units.filter fun unit => !isZero (factor.value * s.coefficient unit) := by
  constructor
  · intro op r sign result
    exact calculate_units hs ht ((isAdditive_iff op).mpr sign) result
  · intro factor plain nonzero
    exact product_units hs plain nonzero

/-- The head goes, the next term takes its place and goes too. -/
theorem units_calculate_cancelled :
    let s : Term Float := .expression (.quantity (.of 5 "px"))
      [(.minus, .quantity (.of 3 "vh")), (.plus, .quantity (.of 1 "em"))]
    let t : Term Float := .expression (.quantity (.of 2 "rem"))
      [(.minus, .quantity (.of 5 "px")), (.plus, .quantity (.of 3 "vh"))]
    let sum : Term Float := .expression (.quantity (.of 1 "em")) [(.plus, .quantity (.of 2 "rem"))]
    s.IsNormal ∧ t.IsNormal ∧ s.calculate .plus t = .ok sum ∧ sum.units = arrangement s .plus t ∧
      sum.units = ["em", "rem"] := by
  intro s t sum
  have hs : s.IsNormal := by
    refine @IsNormal.sum Float _ (.of 5 "px") [(.minus, .of 3 "vh"), (.plus, .of 1 "em")]
      ?_ ?_ ?_ ?_ ?_ ?_
    all_goals decide +kernel
  have ht : t.IsNormal := by
    refine @IsNormal.sum Float _ (.of 2 "rem") [(.minus, .of 5 "px"), (.plus, .of 3 "vh")]
      ?_ ?_ ?_ ?_ ?_ ?_
    all_goals decide +kernel
  have result : s.calculate .plus t = .ok sum := by decide +kernel
  exact ⟨hs, ht, result, (units_calculate hs ht).1 .plus sum (.inl rfl) result, by decide +kernel⟩

end UnitArith.Term
