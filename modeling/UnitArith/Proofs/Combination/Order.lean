import UnitArith.Proofs.Combination.Coefficient

/-! The order in which the units of a result stand. Arithmetic never changes places: the units of
the result are laid out before their values are known, and only those that are zero are left
out. -/
namespace UnitArith.Combination

open Number (isZero Same absorbing)

variable {α : Type} [Number α]

def units (a : Combination α) : List String := a.terms.map Quantity.unit

/-- The units of the first list, and those of the second that are new. -/
def joined (first second : List String) : List String :=
  first ++ second.filter fun unit => unit ∉ first

/-- A single quantity goes in front of a sum of several terms. Otherwise what is new goes to the
end. -/
def order (a b : Combination α) : List String :=
  if a.quantity?.isSome && b.quantity?.isNone then
    (a.units.filter fun unit => unit ∉ b.units) ++ b.units
  else joined a.units b.units

/-- Without repetitions, what is left in place is known from its members. -/
theorem eq_filter_of_sublist {units order : List String} (left : units.Sublist order)
    (distinct : order.Nodup) {p : String → Bool}
    (kept : ∀ unit ∈ order, p unit = true ↔ unit ∈ units) : units = order.filter p := by
  induction left with
  | slnil => rfl
  | cons unit left ih =>
    obtain ⟨fresh, distinct⟩ := List.nodup_cons.mp distinct
    have gone : ¬ p unit = true := fun h =>
      fresh (left.subset ((kept unit (List.mem_cons_self ..)).mp h))
    rw [List.filter_cons_of_neg gone]
    exact ih distinct fun other member => kept other (List.mem_cons_of_mem unit member)
  | cons_cons unit left ih =>
    obtain ⟨fresh, distinct⟩ := List.nodup_cons.mp distinct
    have stays : p unit = true := (kept unit (List.mem_cons_self ..)).mpr (List.mem_cons_self ..)
    rw [List.filter_cons_of_pos stays, ← ih distinct]
    intro other member
    have apart : other ≠ unit := fun same => fresh (same ▸ member)
    simpa [apart] using kept other (List.mem_cons_of_mem unit member)

theorem joined_nodup {first second : List String} (hf : first.Nodup) (hs : second.Nodup) :
    (joined first second).Nodup := by
  apply List.nodup_append.mpr
  refine ⟨hf, hs.filter _, ?_⟩
  rintro unit old _ new rfl
  simp [old] at new

theorem joined_cons (first second : List String) (unit : String) :
    joined first (unit :: second) =
      first ++ (([unit].filter fun u => u ∉ first) ++ second.filter fun u => u ∉ first) := by
  rw [joined, ← List.filter_append, List.singleton_append]

theorem units_ofQuantity (q : Quantity α) :
    (ofQuantity q).units = if q.isZero then [] else [q.unit] := by
  unfold ofQuantity
  split <;> rfl

theorem order_nodup {a b : Combination α} (ha : a.IsNormal) (hb : b.IsNormal) :
    (order a b).Nodup := by
  unfold order
  split
  · apply List.nodup_append.mpr
    refine ⟨ha.distinct.filter _, hb.distinct, ?_⟩
    rintro unit new _ old rfl
    simp [old] at new
  · exact joined_nodup ha.distinct hb.distinct

section Lawful

variable [LawfulNumber α]

open LawfulNumber

theorem units_neg (a : Combination α) : a.neg.units = a.units := by
  simp [units, neg, Function.comp_def]

theorem order_neg (a b : Combination α) : order a b.neg = order a b := by
  have shape : b.neg.quantity?.isNone = b.quantity?.isNone := by
    obtain ⟨_ | ⟨_, _ | _⟩⟩ := b <;> rfl
  simp only [order, shape, units_neg]

/-- A sum in place changes no other unit, and its own only by leaving it out. -/
theorem absorb?_units {q : Quantity α} {terms sum : List (Quantity α)}
    (h : absorb? q terms = some sum) :
    (sum.map Quantity.unit).Sublist (terms.map Quantity.unit) ∧
      ∀ unit, unit ≠ q.unit →
        (unit ∈ sum.map Quantity.unit ↔ unit ∈ terms.map Quantity.unit) := by
  obtain ⟨before, p, after, rfl, _, same, rfl⟩ := absorb?_eq_some h
  split
  · constructor
    · simp
    · intro unit other
      simp [same, other]
  · rename_i nonzero
    have kept : (p.plus q).unit = p.unit := Quantity.unit_plus (Bool.eq_false_iff.mpr nonzero)
    simp [kept]

theorem addQuantity_units {a c : Combination α} {q : Quantity α} (h : a.addQuantity q = .ok c) :
    c.units.Sublist (joined a.units [q.unit]) ∧
      ∀ unit, unit ≠ q.unit → (unit ∈ c.units ↔ unit ∈ a.units) := by
  rcases addQuantity_eq_ok h with ⟨_, rfl⟩ | ⟨terms, absorbed, rfl⟩ | ⟨_, fresh, _, rfl⟩
  · exact ⟨List.sublist_append_left _ _, fun _ _ => .rfl⟩
  · obtain ⟨left, members⟩ := absorb?_units absorbed
    exact ⟨left.trans (List.sublist_append_left _ _), members⟩
  · constructor
    · have new : q.unit ∉ a.units := fresh
      have laid : joined a.units [q.unit] = a.units ++ [q.unit] := by simp [joined, new]
      rw [laid, units, List.map_append]
      exact .refl _
    · intro unit other
      simp [units, other]

theorem addTo_units {a c : Combination α} {q : Quantity α} (h : a.addTo q = .ok c) :
    c.units.Sublist (([q.unit].filter fun unit => unit ∉ a.units) ++ a.units) := by
  rcases addTo_eq_ok h with ⟨_, rfl⟩ | ⟨terms, absorbed, rfl⟩ | ⟨_, fresh, _, rfl⟩
  · exact List.sublist_append_right _ _
  · exact (absorb?_units absorbed).1.trans (List.sublist_append_right _ _)
  · have new : q.unit ∉ a.units := fresh
    have laid : ([q.unit].filter fun unit => unit ∉ a.units) = [q.unit] := by simp [new]
    rw [laid]
    exact .refl _

/-- Adding one quantity after the other lays out the new units one after the other. The sum so far
may lose units on the way, but none that is still to come. -/
theorem foldlM_addQuantity_units {a c : Combination α} {terms : List (Quantity α)}
    (distinct : (terms.map Quantity.unit).Nodup) (h : terms.foldlM addQuantity a = .ok c) :
    c.units.Sublist (joined a.units (terms.map Quantity.unit)) := by
  induction terms generalizing a with
  | nil =>
    cases h
    exact List.sublist_append_left _ _
  | cons q terms ih =>
    obtain ⟨fresh, distinct⟩ := List.nodup_cons.mp distinct
    obtain ⟨b, sum, others⟩ := foldlM_cons_eq_ok_iff.mp h
    obtain ⟨first, members⟩ := addQuantity_units sum
    have later : (terms.map Quantity.unit).filter (fun unit => unit ∉ b.units) =
        (terms.map Quantity.unit).filter fun unit => unit ∉ a.units := by
      apply List.filter_congr
      intro unit member
      have other : unit ≠ q.unit := fun same => fresh (same ▸ member)
      simp [members unit other]
    have rest := ih distinct others
    rw [joined, later] at rest
    rw [List.map_cons, joined_cons, ← List.append_assoc]
    exact rest.trans (first.append_right _)

/-- The units that stand in a sum are those with a value other than zero. -/
theorem IsNormal.mem_units_iff {a : Combination α} (ha : a.IsNormal) (unit : String) :
    unit ∈ a.units ↔ isZero (a.coefficient unit) = false := by
  obtain ⟨terms⟩ := a
  have nonzero := ha.nonzero
  clear ha
  induction terms with
  | nil => simp [units, coefficient, coefficientOf, isZero_zero]
  | cons q terms ih =>
    obtain ⟨first, others⟩ := List.forall_mem_cons.mp nonzero
    by_cases same : q.unit = unit
    · have value : isZero q.value = false := first
      simp [units, coefficient, coefficientOf, same, value]
    · have ih := ih others
      simp only [units, coefficient] at ih
      simp [units, coefficient, coefficientOf, same, Ne.symm same, ← ih]

/-- What was laid out is left without the units that have come to zero. -/
theorem IsNormal.units_eq_filter {c : Combination α} (hc : c.IsNormal) {order : List String}
    (distinct : order.Nodup) (left : c.units.Sublist order) {value : String → α}
    (same : ∀ unit ∈ order, isZero (c.coefficient unit) = isZero (value unit)) :
    c.units = order.filter fun unit => !isZero (value unit) := by
  apply eq_filter_of_sublist left distinct
  intro unit member
  rw [hc.mem_units_iff, same unit member, Bool.not_eq_true']

theorem add_units {a b c : Combination α} (ha : a.IsNormal) (hb : b.IsNormal)
    (h : a.add b = .ok c) : c.units.Sublist (order a b) := by
  rw [add] at h
  split at h
  · rename_i q single several
    have whole := ha.eq_ofQuantity single
    simp only [order, single, several, Option.isSome_some, Option.isNone_none, Bool.and_true,
      if_true]
    rw [whole, units_ofQuantity]
    split
    · rename_i zero
      rw [addTo, if_pos zero] at h
      cases h
      exact List.sublist_append_right _ _
    · exact addTo_units h
  · rename_i other
    have behind : (a.quantity?.isSome && b.quantity?.isNone) = false := by
      rw [Bool.and_eq_false_iff]
      cases left : a.quantity? with
      | none => exact .inl rfl
      | some q =>
        cases right : b.quantity? with
        | none => exact absurd right (other q left)
        | some p => exact .inr rfl
    rw [order, behind]
    exact foldlM_addQuantity_units hb.distinct h

/-- Sums and differences keep the places of what they combine. -/
theorem calculate_units {a b c : Combination α} (ha : a.IsNormal) (hb : b.IsNormal)
    {op : Operator} (additive : op.isAdditive = true) (h : a.calculate op b = .ok c) :
    c.units = (order a b).filter fun unit =>
      !isZero (op.apply (a.coefficient unit) (b.coefficient unit)) := by
  apply (calculate_isNormal ha hb h).units_eq_filter (order_nodup ha hb)
  · cases op with
    | plus => exact add_units ha hb h
    | minus =>
      rw [← order_neg]
      exact add_units ha (neg_isNormal hb) h
    | times | divide => cases additive
  · intro unit _
    cases op with
    | plus => exact (add_coefficient ha hb h unit).isZero_eq
    | minus => exact (sub_coefficient ha hb h unit).isZero_eq
    | times | divide => cases additive

/-- Where nothing is added, nothing goes. -/
theorem IsNormal.filter_beside_zero {b : Combination α} (hb : b.IsNormal) {op : Operator}
    (additive : op.isAdditive = true) {x : String → α} (zero : ∀ unit ∈ b.units, x unit = 0) :
    (b.units.filter fun unit => !isZero (op.apply (x unit) (b.coefficient unit))) = b.units := by
  apply List.filter_eq_self.mpr
  intro unit member
  have present := (hb.mem_units_iff unit).mp member
  simp [zero unit member, Operator.isZero_zero_apply additive, present]

/-- Where one value is added, only its unit can go. -/
theorem IsNormal.filter_beside_one {b : Combination α} (hb : b.IsNormal) {op : Operator}
    (additive : op.isAdditive = true) {x : String → α} {unit : String}
    (others : ∀ other, other ≠ unit → x other = 0) :
    (b.units.filter fun unit => !isZero (op.apply (x unit) (b.coefficient unit))) =
      if isZero (op.apply (x unit) (b.coefficient unit)) then b.units.erase unit
      else b.units := by
  have distinct : b.units.Nodup := hb.distinct
  have stays {other : String} (member : other ∈ b.units) (apart : other ≠ unit) :
      isZero (op.apply (x other) (b.coefficient other)) = false := by
    rw [others other apart, Operator.isZero_zero_apply additive]
    exact (hb.mem_units_iff other).mp member
  split
  · rename_i gone
    rw [distinct.erase_eq_filter]
    apply List.filter_congr
    intro other member
    by_cases same : other = unit
    · simp [same, gone]
    · simp [same, stays member same]
  · rename_i left
    apply List.filter_eq_self.mpr
    intro other member
    by_cases same : other = unit
    · simpa [same] using left
    · simp [stays member same]

/-- The places in a sum of a single quantity and a sum of several terms. -/
theorem filter_order_front {b : Combination α} (hb : b.IsNormal) (several : b.quantity? = none)
    {op : Operator} (additive : op.isAdditive = true) (q : Quantity α) :
    ((order (ofQuantity q) b).filter fun unit =>
        !isZero (op.apply ((ofQuantity q).coefficient unit) (b.coefficient unit))) =
      if q.isZero then b.units
      else if q.unit ∉ b.units then q.unit :: b.units
      else if isZero (op.apply ((ofQuantity q).coefficient q.unit) (b.coefficient q.unit)) then
        b.units.erase q.unit
      else b.units := by
  simp only [order, quantity?_ofQuantity, several, Option.isSome_some, Option.isNone_none,
    Bool.and_true, if_true, units_ofQuantity, coefficient_ofQuantity]
  have others : ∀ unit, unit ≠ q.unit → coefficientOf unit [q] = 0 := fun unit other =>
    coefficientOf_singleton_of_ne other.symm
  cases zero : q.isZero with
  | true =>
    simp only [if_true, List.filter_nil, List.nil_append]
    exact hb.filter_beside_zero additive fun unit _ =>
      coefficientOf_singleton_of_isZero unit zero
  | false =>
    by_cases shared : q.unit ∈ b.units
    · simpa [shared] using hb.filter_beside_one additive others
    · have absent : b.coefficient q.unit = 0 := coefficientOf_of_notMem shared
      have value : coefficientOf q.unit [q] = q.value := coefficientOf_cons_of_eq rfl []
      have present : isZero q.value = false := zero
      have rest := hb.filter_beside_zero additive (x := fun unit => coefficientOf unit [q])
        fun unit member => others unit fun same => shared (same ▸ member)
      simp [shared, value, absent, Operator.isZero_apply_zero additive, present, rest]

/-- A plain factor may stand on either side. -/
theorem mul_eq_products {a : Combination α} (ha : a.IsNormal) {factor : Quantity α}
    (plain : factor.hasUnit = false) :
    a.mul (ofQuantity factor) = .ok ⟨products factor a.terms⟩ ∧
      (ofQuantity factor).mul a = .ok ⟨products factor a.terms⟩ := by
  have scaled : a.scale factor = .ok ⟨products factor a.terms⟩ := by
    rw [scale, plain]
    rfl
  constructor
  · rw [mul, quantity?_ofQuantity]
    exact scaled
  · rw [mul.eq_def, quantity?_ofQuantity]
    cases single : a.quantity? with
    | none => exact scaled
    | some q =>
      obtain rfl := ha.eq_ofQuantity single
      have turned : (⟨products q (ofQuantity factor).terms⟩ : Combination α) =
          ⟨products factor (ofQuantity q).terms⟩ := by
        rw [products_ofQuantity, products_ofQuantity, Quantity.times_comm plain]
      rw [← turned]
      simp [scale, hasUnit_ofQuantity, plain, products]

theorem products_units {a : Combination α} (ha : a.IsNormal) {factor : Quantity α}
    (plain : factor.hasUnit = false) (nonzero : factor.isZero = false) :
    (⟨products factor a.terms⟩ : Combination α).units =
      a.units.filter fun unit => !isZero (a.coefficient unit * factor.value) := by
  have scaled : a.scale factor = .ok ⟨products factor a.terms⟩ := by
    rw [scale, plain]
    rfl
  apply (scale_isNormal ha scaled).units_eq_filter ha.distinct
  · exact products_units_sublist factor fun _ _ => .inr plain
  · intro unit member
    have present := (ha.mem_units_iff unit).mp member
    rw [← Number.absorbing_of_nonzero present nonzero]
    exact (products_coefficient plain ha.distinct unit).isZero_eq

end Lawful

end UnitArith.Combination
