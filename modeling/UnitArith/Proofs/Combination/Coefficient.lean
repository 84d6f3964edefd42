import UnitArith.Proofs.Combination.Normal

/-! Combinations as values for units. Arithmetic acts on the value of each unit alone, up to the
sign of zeros, and fails only when units would mix. -/
namespace UnitArith

open Number (Same absorbing)

namespace Combination

variable {α : Type} [Number α]

/-- The value that stands with a unit, zero when the unit is absent. -/
def coefficientOf (unit : String) : List (Quantity α) → α
  | [] => 0
  | q :: rest => if q.unit = unit then q.value else coefficientOf unit rest

def coefficient (a : Combination α) (unit : String) : α := coefficientOf unit a.terms

theorem coefficientOf_of_notMem {unit : String} {terms : List (Quantity α)}
    (absent : unit ∉ terms.map Quantity.unit) : coefficientOf unit terms = 0 := by
  induction terms with
  | nil => rfl
  | cons q rest ih =>
    rw [List.map_cons, List.mem_cons, not_or] at absent
    rw [coefficientOf, if_neg (Ne.symm absent.1), ih absent.2]

theorem coefficientOf_append (unit : String) (before after : List (Quantity α)) :
    coefficientOf unit (before ++ after) =
      if unit ∈ before.map Quantity.unit then coefficientOf unit before
      else coefficientOf unit after := by
  induction before with
  | nil => simp
  | cons q before ih =>
    rw [List.cons_append, coefficientOf, coefficientOf, ih]
    by_cases same : q.unit = unit
    · simp [same]
    · simp [same, Ne.symm same]

theorem coefficientOf_cons_of_eq {unit : String} {q : Quantity α} (hit : q.unit = unit)
    (rest : List (Quantity α)) : coefficientOf unit (q :: rest) = q.value :=
  if_pos hit

theorem coefficientOf_cons_of_ne {unit : String} {q : Quantity α} (other : q.unit ≠ unit)
    (rest : List (Quantity α)) : coefficientOf unit (q :: rest) = coefficientOf unit rest :=
  if_neg other

theorem coefficientOf_singleton_of_ne {unit : String} {q : Quantity α} (other : q.unit ≠ unit) :
    coefficientOf unit [q] = 0 :=
  coefficientOf_cons_of_ne other []

theorem coefficientOf_singleton_of_isZero (unit : String) {q : Quantity α}
    (zero : q.isZero = true) : coefficientOf unit [q] = 0 := by
  rw [coefficientOf, coefficientOf, (q.canonical zero).1]
  split <;> rfl

/-- Nothing but quantities with a unit, or nothing but plain numbers. -/
def Within (unit : Bool) (a : Combination α) : Prop := ∀ q ∈ a.terms, q.hasUnit = unit

theorem Within.hasUnit {a : Combination α} {unit : Bool} (ha : a.Within unit)
    (nonempty : a.terms ≠ []) : a.hasUnit = unit := by
  obtain ⟨q, hq⟩ := List.exists_mem_of_ne_nil a.terms nonempty
  cases unit with
  | true => exact List.any_eq_true.mpr ⟨q, hq, ha q hq⟩
  | false => exact List.any_eq_false.mpr fun p hp => by simp [ha p hp]

theorem IsNormal.within {a : Combination α} (ha : a.IsNormal) : a.Within a.hasUnit :=
  fun _ hq => (ha.hasUnit_eq hq).symm

theorem addQuantity_mixed {a : Combination α} (ha : a.IsNormal) (nonempty : a.terms ≠ [])
    {q : Quantity α} (nonzero : q.isZero = false) (mixed : a.hasUnit ≠ q.hasUnit) :
    a.addQuantity q = .error (.unitMismatch a.toTerm (.quantity q)) := by
  have fresh : absorb? q a.terms = none := by
    rw [absorb?_eq_none_iff, List.mem_map]
    rintro ⟨p, hp, same⟩
    exact mixed ((ha.hasUnit_eq hp).trans (Quantity.hasUnit_of_unit_eq same))
  rw [addQuantity, nonzero, fresh]
  simp [nonempty, mixed]

theorem coefficient_ofQuantity (q : Quantity α) (unit : String) :
    (ofQuantity q).coefficient unit = coefficientOf unit [q] := by
  cases zero : q.isZero with
  | true =>
    rw [ofQuantity_of_isZero zero, coefficientOf_singleton_of_isZero unit zero]
    rfl
  | false =>
    rw [ofQuantity_of_nonzero zero]
    rfl

theorem coefficient_plain {q : Quantity α} (plain : q.hasUnit = false) :
    (ofQuantity q).coefficient "" = q.value := by
  rw [coefficient_ofQuantity]
  exact coefficientOf_cons_of_eq ((Quantity.hasUnit_eq_false_iff q).mp plain) []

theorem addTo_succeeds (a : Combination α) {q : Quantity α}
    (h : q.isZero = true ∨ q.hasUnit = true) : ∃ c, a.addTo q = .ok c := by
  rw [addTo]
  split
  · exact ⟨a, rfl⟩
  · rename_i nonzero
    split
    · exact ⟨_, rfl⟩
    · rw [if_pos (h.resolve_left nonzero)]
      exact ⟨_, rfl⟩

section Lawful

variable [LawfulNumber α]

open LawfulNumber

theorem same_add_absent (x : α) {unit : String} {terms : List (Quantity α)}
    (absent : coefficientOf unit terms = 0) : Same (x + coefficientOf unit terms) x := by
  rw [absent]
  exact Number.same_add_isZero x isZero_zero

theorem same_add_other (x : α) {unit : String} {q : Quantity α} (other : q.unit ≠ unit) :
    Same x (x + coefficientOf unit [q]) :=
  (same_add_absent x (coefficientOf_singleton_of_ne other)).symm

theorem same_add_zero (x : α) (unit : String) {q : Quantity α} (zero : q.isZero = true) :
    Same x (x + coefficientOf unit [q]) :=
  (same_add_absent x (coefficientOf_singleton_of_isZero unit zero)).symm

/-- A sum in the place of its first summand. When it is zero, the unit is gone. -/
theorem plus_coefficient {p q : Quantity α} {after : List (Quantity α)}
    (same : p.unit = q.unit) (fresh : p.unit ∉ after.map Quantity.unit) (unit : String) :
    Same (coefficientOf unit (if (p.plus q).isZero then after else p.plus q :: after))
      (coefficientOf unit (p :: after) + coefficientOf unit [q]) := by
  by_cases hit : p.unit = unit
  · rw [coefficientOf_cons_of_eq hit, coefficientOf_cons_of_eq (same ▸ hit)]
    split
    · rename_i gone
      rw [coefficientOf_of_notMem (hit ▸ fresh)]
      rw [Quantity.isZero_plus] at gone
      exact .inr ⟨isZero_zero, gone⟩
    · rename_i left
      rw [Bool.not_eq_true] at left
      rw [coefficientOf_cons_of_eq ((Quantity.unit_plus left).trans hit), Quantity.value_plus left]
      exact .refl _
  · have kept : coefficientOf unit (if (p.plus q).isZero then after else p.plus q :: after) =
        coefficientOf unit (p :: after) := by
      rw [coefficientOf_cons_of_ne hit]
      split
      · rfl
      · rename_i left
        rw [Bool.not_eq_true] at left
        exact coefficientOf_cons_of_ne (by rwa [Quantity.unit_plus left]) after
    rw [kept]
    exact same_add_other _ (same ▸ hit)

/-- Adding in place changes the value of one unit. -/
theorem absorb?_coefficient {a : Combination α} (ha : a.IsNormal) {q : Quantity α}
    {terms : List (Quantity α)} (h : absorb? q a.terms = some terms) (unit : String) :
    Same (coefficientOf unit terms) (a.coefficient unit + coefficientOf unit [q]) := by
  obtain ⟨before, p, after, whole, fresh, same, rfl⟩ := absorb?_eq_some h
  have distinct := ha.distinct
  rw [whole, List.map_append, List.map_cons, List.nodup_append, List.nodup_cons] at distinct
  rw [coefficient, whole, coefficientOf_append, coefficientOf_append]
  split
  · rename_i old
    have other : q.unit ≠ unit := fun eq => fresh (eq ▸ old)
    exact same_add_other _ other
  · exact plus_coefficient same distinct.2.1.1 unit

theorem append_coefficient {terms : List (Quantity α)} {q : Quantity α}
    (fresh : q.unit ∉ terms.map Quantity.unit) (unit : String) :
    Same (coefficientOf unit (terms ++ [q]))
      (coefficientOf unit terms + coefficientOf unit [q]) := by
  rw [coefficientOf_append]
  split
  · rename_i old
    have other : q.unit ≠ unit := fun eq => fresh (eq ▸ old)
    exact same_add_other _ other
  · rename_i absent
    rw [coefficientOf_of_notMem absent]
    exact (Number.same_isZero_add _ isZero_zero).symm

theorem cons_coefficient {terms : List (Quantity α)} {q : Quantity α}
    (fresh : q.unit ∉ terms.map Quantity.unit) (unit : String) :
    Same (coefficientOf unit (q :: terms)) (coefficientOf unit terms + coefficientOf unit [q]) := by
  by_cases hit : q.unit = unit
  · rw [coefficientOf_cons_of_eq hit terms, coefficientOf_cons_of_eq hit [],
      coefficientOf_of_notMem (hit ▸ fresh)]
    exact (Number.same_isZero_add _ isZero_zero).symm
  · rw [coefficientOf_cons_of_ne hit]
    exact same_add_other _ hit

theorem addQuantity_coefficient {a c : Combination α} (ha : a.IsNormal) {q : Quantity α}
    (h : a.addQuantity q = .ok c) (unit : String) :
    Same (c.coefficient unit) (a.coefficient unit + coefficientOf unit [q]) := by
  rcases addQuantity_eq_ok h with ⟨zero, rfl⟩ | ⟨terms, absorbed, rfl⟩ | ⟨_, fresh, _, rfl⟩
  · exact same_add_zero _ unit zero
  · exact absorb?_coefficient ha absorbed unit
  · exact append_coefficient fresh unit

theorem addTo_coefficient {a c : Combination α} (ha : a.IsNormal) {q : Quantity α}
    (h : a.addTo q = .ok c) (unit : String) :
    Same (c.coefficient unit) (a.coefficient unit + coefficientOf unit [q]) := by
  rcases addTo_eq_ok h with ⟨zero, rfl⟩ | ⟨terms, absorbed, rfl⟩ | ⟨_, fresh, _, rfl⟩
  · exact same_add_zero _ unit zero
  · exact absorb?_coefficient ha absorbed unit
  · exact cons_coefficient fresh unit

/-- Every unit is met once, so only one of the additions counts for it. -/
theorem foldlM_addQuantity_coefficient {a c : Combination α} (ha : a.IsNormal)
    {terms : List (Quantity α)} (distinct : (terms.map Quantity.unit).Nodup)
    (h : terms.foldlM addQuantity a = .ok c) (unit : String) :
    Same (c.coefficient unit) (a.coefficient unit + coefficientOf unit terms) := by
  induction terms generalizing a with
  | nil =>
    cases h
    exact (same_add_absent _ rfl).symm
  | cons q terms ih =>
    obtain ⟨fresh, distinct⟩ := List.nodup_cons.mp distinct
    obtain ⟨b, sum, others⟩ := foldlM_cons_eq_ok_iff.mp h
    have rest := ih (addQuantity_isNormal ha sum) distinct others
    have first := addQuantity_coefficient ha sum unit
    refine rest.trans ((first.add_right _).trans ?_)
    by_cases hit : q.unit = unit
    · have absent := coefficientOf_of_notMem (hit ▸ fresh : unit ∉ terms.map Quantity.unit)
      rw [coefficientOf_cons_of_eq hit, coefficientOf_cons_of_eq hit]
      exact same_add_absent _ absent
    · rw [coefficientOf_cons_of_ne hit terms]
      exact (same_add_other _ hit).symm.add_right _

theorem addQuantity_within {a : Combination α} {unit : Bool} (ha : a.Within unit) {q : Quantity α}
    (hq : q.hasUnit = unit) : ∃ c, a.addQuantity q = .ok c ∧ c.Within unit := by
  rw [addQuantity]
  split
  · exact ⟨a, rfl, ha⟩
  · split
    · rename_i terms absorbed
      refine ⟨_, rfl, ?_⟩
      obtain ⟨before, p, after, whole, _, _, rfl⟩ := absorb?_eq_some absorbed
      rw [Within, whole, List.forall_mem_append, List.forall_mem_cons] at ha
      rw [Within, List.forall_mem_append]
      refine ⟨ha.1, ?_⟩
      split
      · exact ha.2.2
      · rename_i left
        have kept := Quantity.unit_plus (Bool.eq_false_iff.mpr left)
        rw [List.forall_mem_cons, Quantity.hasUnit_of_unit_eq kept]
        exact ha.2
    · have room : (a.terms.isEmpty || a.hasUnit == q.hasUnit) = true := by
        cases empty : a.terms with
        | nil => rfl
        | cons p rest =>
          rw [ha.hasUnit (by simp [empty]), hq]
          simp
      rw [if_pos room]
      refine ⟨_, rfl, ?_⟩
      rw [Within, List.forall_mem_append]
      exact ⟨ha, by simpa using hq⟩

theorem foldlM_addQuantity_within {a : Combination α} {unit : Bool} (ha : a.Within unit)
    {terms : List (Quantity α)} (within : ∀ q ∈ terms, q.hasUnit = unit) :
    ∃ c, terms.foldlM addQuantity a = .ok c ∧ c.Within unit := by
  induction terms generalizing a with
  | nil => exact ⟨a, rfl, ha⟩
  | cons q terms ih =>
    obtain ⟨hq, within⟩ := List.forall_mem_cons.mp within
    obtain ⟨b, sum, hb⟩ := addQuantity_within ha hq
    rw [List.foldlM_cons, sum]
    exact ih hb within

/-- The sum of two combinations of which only one has units. -/
theorem add_mixed {a b : Combination α} (ha : a.IsNormal) (hb : b.IsNormal)
    (left : a.terms ≠ []) (right : b.terms ≠ []) (mixed : a.hasUnit ≠ b.hasUnit) :
    ∃ s t, a.add b = .error (.unitMismatch s t) := by
  rw [add]
  split
  · rename_i q single several
    have whole := ha.eq_ofQuantity single
    rw [hb.hasUnit_several several, whole] at mixed
    cases zero : q.isZero with
    | true => simp [whole, ofQuantity_of_isZero zero, Combination.zero] at left
    | false =>
      rw [ofQuantity_of_nonzero zero] at mixed
      have plain : q.hasUnit = false := by simpa [hasUnit] using mixed
      have fresh : absorb? q b.terms = none := by
        rw [absorb?_eq_none_iff, List.mem_map]
        rintro ⟨p, hp, same⟩
        have unit := hb.hasUnit_of_several several hp
        rw [Quantity.hasUnit_of_unit_eq same, plain] at unit
        cases unit
      rw [addTo, zero, fresh, plain]
      exact ⟨_, _, rfl⟩
  · obtain ⟨q, rest, whole⟩ := List.exists_cons_of_ne_nil right
    have member : q ∈ b.terms := whole ▸ List.mem_cons_self ..
    rw [hb.hasUnit_eq member] at mixed
    rw [whole, List.foldlM_cons, addQuantity_mixed ha left (hb.nonzero q member) mixed]
    exact ⟨_, _, rfl⟩

theorem add_succeeds {a b : Combination α} (ha : a.IsNormal) (hb : b.IsNormal)
    (compatible : a.terms = [] ∨ b.terms = [] ∨ a.hasUnit = b.hasUnit) :
    ∃ c, a.add b = .ok c := by
  rw [add]
  split
  · rename_i q single several
    apply addTo_succeeds
    have whole := ha.eq_ofQuantity single
    cases zero : q.isZero with
    | true => exact .inl rfl
    | false =>
      rw [ofQuantity_of_nonzero zero] at whole
      rw [whole, hb.hasUnit_several several] at compatible
      rw [quantity?_eq_none_iff] at several
      rcases compatible with empty | empty | units
      · cases empty
      · simp [empty] at several
      · exact .inr (by simpa [hasUnit] using units)
  · have fold {unit : Bool} (left : a.Within unit) (right : b.Within unit) :
        ∃ c, b.terms.foldlM addQuantity a = .ok c := by
      obtain ⟨c, sum, _⟩ := foldlM_addQuantity_within left right
      exact ⟨c, sum⟩
    rcases compatible with empty | empty | units
    · exact fold (by simp [Within, empty]) hb.within
    · exact fold ha.within (by simp [Within, empty])
    · exact fold ha.within (units ▸ hb.within)

theorem add_coefficient {a b c : Combination α} (ha : a.IsNormal) (hb : b.IsNormal)
    (h : a.add b = .ok c) (unit : String) :
    Same (c.coefficient unit) (a.coefficient unit + b.coefficient unit) := by
  rw [add] at h
  split at h
  · rename_i q single several
    have whole := ha.eq_ofQuantity single
    have sum := addTo_coefficient hb h unit
    rw [LawfulNumber.add_comm] at sum
    rwa [whole, coefficient_ofQuantity]
  · exact foldlM_addQuantity_coefficient ha hb.distinct h unit

theorem sub_mixed {a b : Combination α} (ha : a.IsNormal) (hb : b.IsNormal)
    (left : a.terms ≠ []) (right : b.terms ≠ []) (mixed : a.hasUnit ≠ b.hasUnit) :
    ∃ s t, a.sub b = .error (.unitMismatch s t) :=
  add_mixed ha (neg_isNormal hb) left (by simpa [neg] using right) (by rwa [hasUnit_neg])

theorem sub_succeeds {a b : Combination α} (ha : a.IsNormal) (hb : b.IsNormal)
    (compatible : a.terms = [] ∨ b.terms = [] ∨ a.hasUnit = b.hasUnit) :
    ∃ c, a.sub b = .ok c := by
  apply add_succeeds ha (neg_isNormal hb)
  rw [hasUnit_neg]
  simpa [neg] using compatible

theorem neg_coefficient (a : Combination α) (nonzero : ∀ q ∈ a.terms, q.isZero = false)
    (unit : String) : Same (a.neg.coefficient unit) (-a.coefficient unit) := by
  obtain ⟨terms⟩ := a
  induction terms with
  | nil => exact .inr ⟨isZero_zero, (LawfulNumber.isZero_neg 0).trans isZero_zero⟩
  | cons q rest ih =>
    obtain ⟨first, others⟩ := List.forall_mem_cons.mp nonzero
    rw [neg, List.map_cons]
    by_cases hit : q.unit = unit
    · rw [coefficient, coefficient, coefficientOf_cons_of_eq hit,
        coefficientOf_cons_of_eq ((Quantity.unit_neg q).trans hit), Quantity.value_neg first]
      exact .refl _
    · rw [coefficient, coefficient, coefficientOf_cons_of_ne hit,
        coefficientOf_cons_of_ne (by rwa [Quantity.unit_neg])]
      exact ih others

theorem sub_coefficient {a b c : Combination α} (ha : a.IsNormal) (hb : b.IsNormal)
    (h : a.sub b = .ok c) (unit : String) :
    Same (c.coefficient unit) (a.coefficient unit - b.coefficient unit) := by
  rw [LawfulNumber.sub_eq_add_neg]
  exact (add_coefficient ha (neg_isNormal hb) h unit).trans
    ((neg_coefficient b hb.nonzero unit).add_left _)

/-- What a plain factor does to every unit. -/
theorem products_coefficient {factor : Quantity α} (plain : factor.hasUnit = false)
    {terms : List (Quantity α)} (distinct : (terms.map Quantity.unit).Nodup) (unit : String) :
    Same (coefficientOf unit (products factor terms))
      (absorbing (coefficientOf unit terms) factor.value) := by
  induction terms with
  | nil => exact .of_eq (Number.zero_absorbing factor.value).symm
  | cons q rest ih =>
    obtain ⟨fresh, distinct⟩ := List.nodup_cons.mp distinct
    rw [products_cons]
    by_cases hit : q.unit = unit
    · rw [coefficientOf_cons_of_eq hit]
      split
      · rename_i gone
        have absent : unit ∉ (products factor rest).map Quantity.unit := fun old =>
          fresh (hit ▸ (products_units_sublist factor fun _ _ => .inr plain).subset old)
        rw [coefficientOf_of_notMem absent]
        exact .inr ⟨isZero_zero, Quantity.isZero_times q factor ▸ gone⟩
      · rename_i left
        rw [Bool.not_eq_true] at left
        have kept := (Quantity.unit_times (.inr plain) left).trans hit
        rw [coefficientOf_cons_of_eq kept, Quantity.value_times left]
        exact .refl _
    · rw [coefficientOf_cons_of_ne hit]
      split
      · exact ih distinct
      · rename_i left
        rw [Bool.not_eq_true] at left
        rw [coefficientOf_cons_of_ne (by rwa [Quantity.unit_times (.inr plain) left])]
        exact ih distinct

theorem scale_plain {a : Combination α} (ha : a.IsNormal) {factor : Quantity α}
    (plain : factor.hasUnit = false) :
    ∃ c, a.scale factor = .ok c ∧
      ∀ unit, Same (c.coefficient unit) (absorbing (a.coefficient unit) factor.value) := by
  rw [scale, plain]
  exact ⟨_, rfl, products_coefficient plain ha.distinct⟩

theorem plain_scale {a : Combination α} (ha : a.IsNormal) (plain : a.hasUnit = false)
    (factor : Quantity α) :
    ∃ c, a.scale factor = .ok c ∧
      ∀ unit, Same (c.coefficient unit)
        (absorbing (a.coefficient "") (coefficientOf unit [factor])) := by
  rw [scale, plain, Bool.and_false]
  refine ⟨_, rfl, ?_⟩
  intro unit
  obtain ⟨q, single, rfl, bare⟩ := ha.exists_quantity plain
  rw [coefficient_plain bare]
  change Same (coefficientOf unit (products factor (ofQuantity q).terms)) _
  cases zero : q.isZero with
  | true =>
    have value : Number.isZero q.value = true := zero
    rw [ofQuantity_of_isZero zero, Number.absorbing_of_isZero (by rw [value, Bool.true_or])]
    exact .refl _
  | false =>
    have turned : products factor [q] = products q [factor] := by
      rw [products, products, List.map_singleton, List.map_singleton, Quantity.times_comm bare]
    rw [ofQuantity_of_nonzero zero, turned, Number.absorbing_comm]
    exact products_coefficient bare (by simp) unit

theorem mul_plain {a b : Combination α} (ha : a.IsNormal) (hb : b.IsNormal)
    (plain : b.hasUnit = false) :
    ∃ c, a.mul b = .ok c ∧
      ∀ unit, Same (c.coefficient unit) (absorbing (a.coefficient unit) (b.coefficient "")) := by
  obtain ⟨factor, single, rfl, bare⟩ := hb.exists_quantity plain
  rw [mul, single, coefficient_plain bare]
  exact scale_plain ha bare

theorem plain_mul {a b : Combination α} (ha : a.IsNormal) (hb : b.IsNormal)
    (plain : a.hasUnit = false) :
    ∃ c, a.mul b = .ok c ∧
      ∀ unit, Same (c.coefficient unit) (absorbing (a.coefficient "") (b.coefficient unit)) := by
  rw [mul.eq_def]
  split
  · rename_i factor single
    rw [hb.eq_ofQuantity single]
    simp only [coefficient_ofQuantity factor]
    exact plain_scale ha plain factor
  · rename_i factor left right
    rw [ha.eq_ofQuantity left, hasUnit_ofQuantity] at plain
    rw [ha.eq_ofQuantity left, coefficient_plain plain]
    simp only [Number.absorbing_comm factor.value]
    exact scale_plain hb plain
  · rename_i several _
    simp [ha.hasUnit_several several] at plain

theorem mul_units {a b : Combination α} (ha : a.IsNormal) (hb : b.IsNormal)
    (left : a.hasUnit = true) (right : b.hasUnit = true) :
    a.mul b = .error (if a.quantity?.isNone && b.quantity?.isNone
      then .productOfSums a.toTerm b.toTerm else .productOfUnits) := by
  rw [mul.eq_def]
  split
  · rename_i factor single
    rw [hb.eq_ofQuantity single, hasUnit_ofQuantity] at right
    simp [scale, left, right, single]
  · rename_i factor single several
    rw [ha.eq_ofQuantity single, hasUnit_ofQuantity] at left
    simp [scale, left, right, single]
  · rename_i several other
    simp [several, other]

/-- A single quantity is divided as it is; its unit is the only one. -/
theorem dividedBy_coefficient (q divisor : Quantity α) (unit : String) :
    Same ((ofQuantity (q.dividedBy divisor)).coefficient unit)
      (if Number.isZero (coefficientOf unit [q]) then 0
        else coefficientOf unit [q] / divisor.value) := by
  rw [coefficient_ofQuantity, Quantity.dividedBy]
  cases zero : q.isZero with
  | true =>
    rw [if_pos rfl, coefficientOf_singleton_of_isZero unit Quantity.isZero_zero,
      coefficientOf_singleton_of_isZero unit zero, if_pos isZero_zero]
    exact .refl _
  | false =>
    rw [if_neg Bool.false_ne_true, Quantity.withValue]
    by_cases hit : q.unit = unit
    · have present : Number.isZero q.value = false := zero
      rw [coefficientOf_cons_of_eq hit, present, if_neg Bool.false_ne_true]
      cases gone : Number.isZero (q.value / divisor.value) with
      | true =>
        rw [Quantity.of_zero gone, coefficientOf_singleton_of_isZero unit Quantity.isZero_zero]
        exact .inr ⟨isZero_zero, gone⟩
      | false =>
        rw [coefficientOf_cons_of_eq ((Quantity.unit_of gone _).trans hit), Quantity.value_of gone]
        exact .refl _
    · rw [coefficientOf_singleton_of_ne hit, if_pos isZero_zero]
      cases gone : Number.isZero (q.value / divisor.value) with
      | true =>
        rw [Quantity.of_zero gone, coefficientOf_singleton_of_isZero unit Quantity.isZero_zero]
        exact .refl _
      | false =>
        exact .of_eq (coefficientOf_singleton_of_ne (by rwa [Quantity.unit_of gone]))

/-- A sum is multiplied by the reciprocal, which may have become zero. -/
theorem scale_reciprocal {a : Combination α} (ha : a.IsNormal) {divisor : Quantity α}
    (plain : divisor.hasUnit = false) :
    ∃ c, a.scale divisor.reciprocal = .ok c ∧
      ∀ unit, Same (c.coefficient unit) (absorbing (a.coefficient unit) (1 / divisor.value)) := by
  rw [Quantity.reciprocal, Quantity.withValue]
  cases gone : Number.isZero (1 / divisor.value) with
  | true =>
    rw [Quantity.of_zero gone]
    obtain ⟨c, scaled, values⟩ := scale_plain ha Quantity.hasUnit_zero
    refine ⟨c, scaled, fun unit => ?_⟩
    rw [Number.absorbing_of_isZero (by simp [gone])]
    refine (values unit).trans (.of_eq (Number.absorbing_of_isZero ?_))
    rw [Quantity.zero, isZero_zero, Bool.or_true]
  | false =>
    have bare : (Quantity.of (1 / divisor.value) divisor.unit).hasUnit = false := by
      rwa [Quantity.hasUnit_of_unit_eq (Quantity.unit_of gone _)]
    obtain ⟨c, scaled, values⟩ := scale_plain ha bare
    rw [Quantity.value_of gone] at values
    exact ⟨c, scaled, values⟩

end Lawful

end Combination

end UnitArith
