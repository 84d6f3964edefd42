import UnitArith.Combination
import UnitArith.Proofs.Except
import UnitArith.Proofs.Quantity

/-! Arithmetic on combinations keeps them normal. A plain number has no place beside other
terms, which is why adding one to a unit fails. -/
namespace UnitArith.Combination

variable {α : Type} [Number α]

structure IsNormal (a : Combination α) : Prop where
  nonzero : ∀ q ∈ a.terms, q.isZero = false
  distinct : (a.terms.map Quantity.unit).Nodup
  /-- A plain number stands alone. -/
  alone : ∀ q ∈ a.terms, q.hasUnit = false → a.terms = [q]

theorem zero_isNormal : (zero : Combination α).IsNormal := by
  constructor <;> simp [zero]

theorem singleton_isNormal {q : Quantity α} (h : q.isZero = false) :
    (⟨[q]⟩ : Combination α).IsNormal := by
  constructor <;> simp [h]

theorem ofQuantity_isNormal (q : Quantity α) : (ofQuantity q).IsNormal := by
  unfold ofQuantity
  split
  · exact zero_isNormal
  · rename_i nonzero
    exact singleton_isNormal (Bool.eq_false_iff.mpr nonzero)

theorem ofQuantity_of_isZero {q : Quantity α} (h : q.isZero = true) :
    ofQuantity q = zero :=
  if_pos h

theorem ofQuantity_of_nonzero {q : Quantity α} (h : q.isZero = false) :
    ofQuantity q = ⟨[q]⟩ := by
  simp [ofQuantity, h]

theorem IsNormal.sublist {a : Combination α} (ha : a.IsNormal) {terms : List (Quantity α)}
    (h : terms.Sublist a.terms) : (⟨terms⟩ : Combination α).IsNormal where
  nonzero q hq := ha.nonzero q (h.subset hq)
  distinct := ha.distinct.sublist (h.map _)
  alone q hq unit := by
    have single := ha.alone q (h.subset hq) unit
    rw [single] at h
    cases h with
    | cons _ h =>
      rw [List.sublist_nil.mp h] at hq
      cases hq
    | cons_cons _ h => rw [List.sublist_nil.mp h]

theorem IsNormal.replace {before after : List (Quantity α)} {p r : Quantity α}
    (h : (⟨before ++ p :: after⟩ : Combination α).IsNormal) (nonzero : r.isZero = false)
    (unit : r.unit = p.unit) : (⟨before ++ r :: after⟩ : Combination α).IsNormal where
  nonzero := by
    have old := h.nonzero
    rw [List.forall_mem_append, List.forall_mem_cons] at old ⊢
    exact ⟨old.1, nonzero, old.2.2⟩
  distinct := by simpa [unit] using h.distinct
  alone := by
    -- A plain number among the new terms is one among the old, which leaves no other place.
    intro q hq plain
    have bare : ∃ s ∈ before ++ p :: after, s.hasUnit = false := by
      rcases List.mem_append.mp hq with first | rest
      · exact ⟨q, List.mem_append_left _ first, plain⟩
      · rcases List.mem_cons.mp rest with rfl | rest
        · exact ⟨p, by simp, by rwa [Quantity.hasUnit_of_unit_eq unit] at plain⟩
        · exact ⟨q, by simp [rest], plain⟩
    obtain ⟨s, hs, plain⟩ := bare
    have single : before ++ p :: after = [s] := h.alone s hs plain
    obtain ⟨rfl, -, rfl⟩ : before = [] ∧ p = s ∧ after = [] := by
      simpa [List.append_eq_singleton_iff] using single
    simpa [eq_comm] using hq

theorem absorb?_eq_none_iff (q : Quantity α) (terms : List (Quantity α)) :
    absorb? q terms = none ↔ q.unit ∉ terms.map Quantity.unit := by
  induction terms with
  | nil => simp [absorb?]
  | cons a rest ih =>
    rw [absorb?]
    split
    · rename_i same
      rw [Quantity.sameUnit_iff] at same
      simp [same]
    · rename_i apart
      rw [Quantity.sameUnit_iff] at apart
      rw [Option.map_eq_none_iff, ih, List.map_cons, List.mem_cons, not_or]
      exact ⟨fun h => ⟨fun same => apart same.symm, h⟩, And.right⟩

/-- Only the term of the same unit is touched. -/
theorem absorb?_eq_some {q : Quantity α} {terms sum : List (Quantity α)}
    (h : absorb? q terms = some sum) :
    ∃ before a after, terms = before ++ a :: after ∧ q.unit ∉ before.map Quantity.unit ∧
      a.unit = q.unit ∧
      sum = before ++ if (a.plus q).isZero then after else a.plus q :: after := by
  induction terms generalizing sum with
  | nil => cases h
  | cons a rest ih =>
    rw [absorb?] at h
    split at h
    · rename_i same
      refine ⟨[], a, rest, rfl, by simp, (Quantity.sameUnit_iff a q).mp same, ?_⟩
      simpa using h.symm
    · rename_i apart
      rw [Quantity.sameUnit_iff] at apart
      obtain ⟨sum, found, rfl⟩ := Option.map_eq_some_iff.mp h
      obtain ⟨before, b, after, rfl, fresh, same, rfl⟩ := ih found
      refine ⟨a :: before, b, after, rfl, ?_, same, rfl⟩
      rw [List.map_cons, List.mem_cons, not_or]
      exact ⟨fun same => apart same.symm, fresh⟩

/-- What adding a quantity at the end comes to. -/
theorem addQuantity_eq_ok {a c : Combination α} {q : Quantity α} (h : a.addQuantity q = .ok c) :
    q.isZero = true ∧ c = a ∨
      (∃ terms, absorb? q a.terms = some terms ∧ c = ⟨terms⟩) ∨
      q.isZero = false ∧ q.unit ∉ a.terms.map Quantity.unit ∧
        (a.terms.isEmpty || a.hasUnit == q.hasUnit) = true ∧ c = ⟨a.terms ++ [q]⟩ := by
  rw [addQuantity] at h
  split at h
  · rename_i zero
    cases h
    exact .inl ⟨zero, rfl⟩
  · rename_i nonzero
    split at h
    · rename_i terms absorbed
      cases h
      exact .inr (.inl ⟨terms, absorbed, rfl⟩)
    · rename_i fresh
      split at h
      · rename_i room
        cases h
        exact .inr (.inr ⟨Bool.eq_false_iff.mpr nonzero, (absorb?_eq_none_iff q a.terms).mp fresh,
          room, rfl⟩)
      · cases h

/-- What adding a quantity in front comes to. -/
theorem addTo_eq_ok {a c : Combination α} {q : Quantity α} (h : a.addTo q = .ok c) :
    q.isZero = true ∧ c = a ∨
      (∃ terms, absorb? q a.terms = some terms ∧ c = ⟨terms⟩) ∨
      q.isZero = false ∧ q.unit ∉ a.terms.map Quantity.unit ∧ q.hasUnit = true ∧
        c = ⟨q :: a.terms⟩ := by
  rw [addTo] at h
  split at h
  · rename_i zero
    cases h
    exact .inl ⟨zero, rfl⟩
  · rename_i nonzero
    split at h
    · rename_i terms absorbed
      cases h
      exact .inr (.inl ⟨terms, absorbed, rfl⟩)
    · rename_i fresh
      split at h
      · rename_i unit
        cases h
        exact .inr (.inr ⟨Bool.eq_false_iff.mpr nonzero, (absorb?_eq_none_iff q a.terms).mp fresh,
          unit, rfl⟩)
      · cases h

theorem quantity?_ofQuantity (q : Quantity α) : (ofQuantity q).quantity? = some q := by
  cases h : q.isZero with
  | true =>
    rw [ofQuantity_of_isZero h, Quantity.eq_zero h]
    rfl
  | false =>
    rw [ofQuantity_of_nonzero h]
    rfl

theorem hasUnit_ofQuantity (q : Quantity α) : (ofQuantity q).hasUnit = q.hasUnit := by
  cases h : q.isZero with
  | true =>
    rw [ofQuantity_of_isZero h, Quantity.eq_zero h, Quantity.hasUnit_zero]
    rfl
  | false => simp [ofQuantity_of_nonzero h, hasUnit]

theorem terms_ne_nil_of_hasUnit {a : Combination α} (h : a.hasUnit = true) : a.terms ≠ [] := by
  intro empty
  simp [hasUnit, empty] at h

theorem add_eq_foldlM {a b : Combination α}
    (h : a.quantity? = none ∨ ∃ q, b.quantity? = some q) :
    a.add b = b.terms.foldlM addQuantity a := by
  rw [add]
  split
  · rename_i single several
    simp [single, several] at h
  · rfl

theorem add_ofQuantity (a : Combination α) (q : Quantity α) :
    a.add (ofQuantity q) = a.addQuantity q := by
  rw [add_eq_foldlM (.inr ⟨q, quantity?_ofQuantity q⟩)]
  cases h : q.isZero with
  | true =>
    rw [ofQuantity_of_isZero h, addQuantity, if_pos h]
    rfl
  | false => simp [ofQuantity_of_nonzero h]

theorem quantity?_eq_none_iff (a : Combination α) : a.quantity? = none ↔ 2 ≤ a.terms.length := by
  obtain ⟨_ | ⟨_, _ | _⟩⟩ := a <;> simp [quantity?]

theorem exists_several {a : Combination α} (several : a.quantity? = none) :
    ∃ head second rest, a = ⟨head :: second :: rest⟩ := by
  obtain ⟨_ | ⟨head, _ | ⟨second, rest⟩⟩⟩ := a
  · cases several
  · cases several
  · exact ⟨head, second, rest, rfl⟩

/-- Terms beside others have units. -/
theorem IsNormal.hasUnit_of_several {a : Combination α} (ha : a.IsNormal)
    (several : a.quantity? = none) {q : Quantity α} (hq : q ∈ a.terms) : q.hasUnit = true := by
  cases unit : q.hasUnit with
  | true => rfl
  | false =>
    rw [quantity?_eq_none_iff, ha.alone q hq unit] at several
    simp at several

theorem IsNormal.hasUnit_several {a : Combination α} (ha : a.IsNormal)
    (several : a.quantity? = none) : a.hasUnit = true := by
  rw [hasUnit, List.any_eq_true]
  rw [quantity?_eq_none_iff] at several
  obtain ⟨q, hq⟩ := List.exists_mem_of_length_pos (Nat.lt_of_lt_of_le Nat.two_pos several)
  exact ⟨q, hq, ha.hasUnit_of_several ((quantity?_eq_none_iff a).mpr several) hq⟩

theorem isNormal_iff_of_several {a : Combination α} (several : a.quantity? = none) :
    a.IsNormal ↔ (∀ q ∈ a.terms, q.isZero = false) ∧ (∀ q ∈ a.terms, q.unit ≠ "") ∧
      (a.terms.map Quantity.unit).Nodup := by
  constructor
  · intro ha
    refine ⟨ha.nonzero, ?_, ha.distinct⟩
    intro q hq
    simpa [Quantity.hasUnit] using ha.hasUnit_of_several several hq
  · rintro ⟨nonzero, units, distinct⟩
    refine ⟨nonzero, distinct, ?_⟩
    intro q hq plain
    exact absurd ((Quantity.hasUnit_eq_false_iff q).mp plain) (units q hq)

theorem IsNormal.hasUnit_eq {a : Combination α} (ha : a.IsNormal) {q : Quantity α}
    (hq : q ∈ a.terms) : a.hasUnit = q.hasUnit := by
  cases unit : q.hasUnit with
  | true => exact List.any_eq_true.mpr ⟨q, hq, unit⟩
  | false => simp [hasUnit, ha.alone q hq unit, unit]

/-- Where a new unit may go to the end, all terms have units or there are none. -/
theorem IsNormal.hasUnit_of_room {a : Combination α} (ha : a.IsNormal) {p q : Quantity α}
    (fresh : q.unit ∉ a.terms.map Quantity.unit)
    (room : (a.terms.isEmpty || a.hasUnit == q.hasUnit) = true) (hp : p ∈ a.terms) :
    p.hasUnit = true ∧ q.hasUnit = true := by
  have same : p.hasUnit = q.hasUnit := by
    have nonempty : a.terms ≠ [] := List.ne_nil_of_mem hp
    simpa [nonempty, ha.hasUnit_eq hp] using room
  cases unit : q.hasUnit with
  | true => exact ⟨same.trans unit, rfl⟩
  | false =>
    have units : q.unit = p.unit := by
      rw [(Quantity.hasUnit_eq_false_iff q).mp unit,
        (Quantity.hasUnit_eq_false_iff p).mp (same.trans unit)]
    exact absurd (units ▸ List.mem_map_of_mem hp) fresh

theorem append_isNormal {a : Combination α} (ha : a.IsNormal) {q : Quantity α}
    (nonzero : q.isZero = false) (fresh : q.unit ∉ a.terms.map Quantity.unit)
    (room : (a.terms.isEmpty || a.hasUnit == q.hasUnit) = true) :
    (⟨a.terms ++ [q]⟩ : Combination α).IsNormal where
  nonzero := by
    intro r hr
    rcases List.mem_append.mp hr with old | new
    · exact ha.nonzero r old
    · rwa [List.mem_singleton.mp new]
  distinct := by
    rw [List.map_append, List.nodup_append]
    refine ⟨ha.distinct, by simp, ?_⟩
    rintro u old v new rfl
    rw [List.map_singleton, List.mem_singleton] at new
    exact fresh (new ▸ old)
  alone := by
    intro r hr plain
    have empty : a.terms = [] := by
      apply List.eq_nil_iff_forall_not_mem.mpr
      intro p hp
      have units := ha.hasUnit_of_room fresh room hp
      rcases List.mem_append.mp hr with old | new
      · simp [(ha.hasUnit_of_room fresh room old).1] at plain
      · simp [List.mem_singleton.mp new, units.2] at plain
    simpa [empty, eq_comm] using hr

theorem cons_isNormal {a : Combination α} (ha : a.IsNormal) (several : a.quantity? = none)
    {q : Quantity α} (nonzero : q.isZero = false) (fresh : q.unit ∉ a.terms.map Quantity.unit)
    (unit : q.hasUnit = true) : (⟨q :: a.terms⟩ : Combination α).IsNormal where
  nonzero := by
    intro r hr
    rcases List.mem_cons.mp hr with rfl | old
    · exact nonzero
    · exact ha.nonzero r old
  distinct := List.nodup_cons.mpr ⟨fresh, ha.distinct⟩
  alone := by
    intro r hr plain
    rw [quantity?_eq_none_iff] at several
    rcases List.mem_cons.mp hr with rfl | old
    · simp [unit] at plain
    · simp [ha.alone r old plain] at several

/-- Beside terms with units, a new unit goes to the end. -/
theorem addQuantity_fresh {before : List (Quantity α)} {q : Quantity α}
    (units : ∀ p ∈ before, p.hasUnit = true) (unit : q.hasUnit = true)
    (fresh : q.unit ∉ before.map Quantity.unit) :
    addQuantity ⟨before⟩ q = .ok ⟨before ++ [q]⟩ := by
  have absent := (absorb?_eq_none_iff q before).mpr fresh
  have room : (before.isEmpty || (⟨before⟩ : Combination α).hasUnit == q.hasUnit) = true := by
    cases before with
    | nil => rfl
    | cons p rest => simp [hasUnit, units p, unit]
  rw [addQuantity, if_neg (by simp [Quantity.isZero_of_hasUnit unit])]
  simp only [absent, room, if_true]

/-- Terms with units that differ are added side by side. -/
theorem foldlM_addQuantity_append {before terms : List (Quantity α)}
    (units : ∀ q ∈ before ++ terms, q.hasUnit = true)
    (distinct : ((before ++ terms).map Quantity.unit).Nodup) :
    terms.foldlM addQuantity ⟨before⟩ = .ok ⟨before ++ terms⟩ := by
  induction terms generalizing before with
  | nil =>
    rw [List.append_nil]
    rfl
  | cons q terms ih =>
    have fresh : q.unit ∉ before.map Quantity.unit := by
      intro old
      rw [List.map_append, List.nodup_append] at distinct
      exact distinct.2.2 _ old _ (by simp) rfl
    have added := addQuantity_fresh (fun p hp => units p (List.mem_append_left _ hp))
      (units q (by simp)) fresh
    rw [List.append_cons] at units distinct
    rw [List.foldlM_cons, added, List.append_cons before q terms]
    exact ih units distinct

/-- The products that are not zero. -/
def products (factor : Quantity α) (terms : List (Quantity α)) : List (Quantity α) :=
  (terms.map (·.times factor)).filter fun q => !q.isZero

@[simp] theorem products_nil (factor : Quantity α) : products factor [] = [] := rfl

theorem products_cons (factor q : Quantity α) (rest : List (Quantity α)) :
    products factor (q :: rest) = if (q.times factor).isZero then products factor rest
      else q.times factor :: products factor rest := by
  cases h : (q.times factor).isZero <;> simp [products, h]

theorem products_append (factor : Quantity α) (a b : List (Quantity α)) :
    products factor (a ++ b) = products factor a ++ products factor b := by
  simp [products]

theorem products_singleton (factor q : Quantity α) :
    (⟨products factor [q]⟩ : Combination α) = ofQuantity (q.times factor) := by
  cases h : (q.times factor).isZero <;> simp [products, ofQuantity, zero, h]

theorem mem_products {factor p : Quantity α} {terms : List (Quantity α)} :
    p ∈ products factor terms ↔ p.isZero = false ∧ ∃ q ∈ terms, q.times factor = p := by
  simp [products, and_comm]

section Lawful

variable [LawfulNumber α]

theorem IsNormal.eq_ofQuantity {a : Combination α} (ha : a.IsNormal) {q : Quantity α}
    (single : a.quantity? = some q) : a = ofQuantity q := by
  obtain ⟨_ | ⟨p, _ | ⟨second, rest⟩⟩⟩ := a
  · cases single
    rw [ofQuantity_of_isZero Quantity.isZero_zero]
    rfl
  · cases single
    rw [ofQuantity_of_nonzero (ha.nonzero _ (List.mem_cons_self ..))]
  · cases single

theorem products_ofQuantity (factor q : Quantity α) :
    (⟨products factor (ofQuantity q).terms⟩ : Combination α) = ofQuantity (q.times factor) := by
  cases h : q.isZero with
  | true =>
    rw [ofQuantity_of_isZero h, Quantity.times_of_isZero (by simp [h]),
      ofQuantity_of_isZero Quantity.isZero_zero]
    rfl
  | false => rw [ofQuantity_of_nonzero h, products_singleton]

/-- A combination without units is one quantity, perhaps zero. -/
theorem IsNormal.exists_quantity {a : Combination α} (ha : a.IsNormal) (plain : a.hasUnit = false) :
    ∃ q, a.quantity? = some q ∧ a = ofQuantity q ∧ q.hasUnit = false := by
  cases single : a.quantity? with
  | none => simp [ha.hasUnit_several single] at plain
  | some q =>
    have whole := ha.eq_ofQuantity single
    rw [whole, hasUnit_ofQuantity] at plain
    exact ⟨q, rfl, whole, plain⟩

theorem absorb?_isNormal {a : Combination α} (ha : a.IsNormal) {q : Quantity α}
    {terms : List (Quantity α)} (h : absorb? q a.terms = some terms) :
    (⟨terms⟩ : Combination α).IsNormal := by
  obtain ⟨before, p, after, whole, _, _, rfl⟩ := absorb?_eq_some h
  split
  · apply ha.sublist
    rw [whole]
    exact (List.sublist_cons_self p after).append_left before
  · rename_i nonzero
    rw [Bool.not_eq_true] at nonzero
    have normal : (⟨before ++ p :: after⟩ : Combination α).IsNormal := by
      rw [← whole]
      exact ha
    exact normal.replace nonzero (Quantity.unit_plus nonzero)

theorem addQuantity_isNormal {a c : Combination α} (ha : a.IsNormal) {q : Quantity α}
    (h : a.addQuantity q = .ok c) : c.IsNormal := by
  rcases addQuantity_eq_ok h with
    ⟨_, rfl⟩ | ⟨terms, absorbed, rfl⟩ | ⟨nonzero, fresh, room, rfl⟩
  · exact ha
  · exact absorb?_isNormal ha absorbed
  · exact append_isNormal ha nonzero fresh room

/-- A combination of several terms takes a quantity in front as well as at the end. -/
theorem addTo_isNormal {a c : Combination α} (ha : a.IsNormal) (several : a.quantity? = none)
    {q : Quantity α} (h : a.addTo q = .ok c) : c.IsNormal := by
  rcases addTo_eq_ok h with ⟨_, rfl⟩ | ⟨terms, absorbed, rfl⟩ | ⟨nonzero, fresh, unit, rfl⟩
  · exact ha
  · exact absorb?_isNormal ha absorbed
  · exact cons_isNormal ha several nonzero fresh unit

/-- A sum taken one quantity at a time keeps what each single sum keeps. -/
theorem foldlM_addQuantity_isNormal {a c : Combination α} (ha : a.IsNormal)
    {terms : List (Quantity α)} (h : terms.foldlM addQuantity a = .ok c) : c.IsNormal := by
  induction terms generalizing a with
  | nil =>
    cases h
    exact ha
  | cons q terms ih =>
    obtain ⟨b, sum, others⟩ := foldlM_cons_eq_ok_iff.mp h
    exact ih (addQuantity_isNormal ha sum) others

theorem add_isNormal {a b c : Combination α} (ha : a.IsNormal) (hb : b.IsNormal)
    (h : a.add b = .ok c) : c.IsNormal := by
  rw [add] at h
  split at h
  · rename_i q _ several
    exact addTo_isNormal hb several h
  · exact foldlM_addQuantity_isNormal ha h

theorem hasUnit_neg (a : Combination α) : a.neg.hasUnit = a.hasUnit := by
  have unit : Quantity.hasUnit ∘ Quantity.neg = (Quantity.hasUnit : Quantity α → Bool) :=
    funext Quantity.hasUnit_neg
  rw [neg, hasUnit, List.any_map, unit, hasUnit]

theorem neg_isNormal {a : Combination α} (ha : a.IsNormal) : a.neg.IsNormal where
  nonzero := by
    intro q hq
    obtain ⟨p, hp, rfl⟩ := List.mem_map.mp hq
    rw [Quantity.isZero_neg]
    exact ha.nonzero p hp
  distinct := by
    have unit : Quantity.unit ∘ Quantity.neg = (Quantity.unit : Quantity α → String) :=
      funext Quantity.unit_neg
    rw [neg, List.map_map, unit]
    exact ha.distinct
  alone := by
    intro q hq plain
    obtain ⟨p, hp, rfl⟩ := List.mem_map.mp hq
    rw [Quantity.hasUnit_neg] at plain
    rw [neg, ha.alone p hp plain]
    rfl

theorem neg_ofQuantity (q : Quantity α) : (ofQuantity q).neg = ofQuantity q.neg := by
  cases h : q.isZero with
  | true =>
    rw [ofQuantity_of_isZero h, ofQuantity_of_isZero (by rwa [Quantity.isZero_neg])]
    rfl
  | false =>
    rw [ofQuantity_of_nonzero h, ofQuantity_of_nonzero (by rwa [Quantity.isZero_neg])]
    rfl

theorem products_units_sublist (factor : Quantity α) {terms : List (Quantity α)}
    (units : ∀ q ∈ terms, q.hasUnit = true ∨ factor.hasUnit = false) :
    ((products factor terms).map Quantity.unit).Sublist (terms.map Quantity.unit) := by
  induction terms with
  | nil => simp
  | cons q terms ih =>
    have rest := ih fun p hp => units p (List.mem_cons_of_mem q hp)
    rw [products, List.map_cons, List.map_cons]
    cases h : (q.times factor).isZero with
    | true => simpa [h, products] using rest.cons q.unit
    | false =>
      have unit := Quantity.unit_times (units q (by simp)) h
      simpa [h, unit, products] using rest.cons_cons q.unit

theorem hasUnit_of_mem_products {factor p : Quantity α} {terms : List (Quantity α)}
    (units : ∀ q ∈ terms, q.hasUnit = true) (hp : p ∈ products factor terms) :
    p.hasUnit = true := by
  obtain ⟨nonzero, q, hq, rfl⟩ := mem_products.mp hp
  rw [Quantity.hasUnit_of_unit_eq (Quantity.unit_times (.inl (units q hq)) nonzero), units q hq]

theorem products_isNormal (factor : Quantity α) {terms : List (Quantity α)}
    (units : ∀ q ∈ terms, q.hasUnit = true) (distinct : (terms.map Quantity.unit).Nodup) :
    (⟨products factor terms⟩ : Combination α).IsNormal where
  nonzero p hp := (mem_products.mp hp).1
  distinct := distinct.sublist (products_units_sublist factor fun q hq => .inl (units q hq))
  alone := by
    intro p hp plain
    simp [hasUnit_of_mem_products units hp] at plain

/-- A product with a new unit goes behind the products before it. -/
theorem addQuantity_products (factor : Quantity α) {before : List (Quantity α)} {q : Quantity α}
    (units : ∀ p ∈ before ++ [q], p.hasUnit = true)
    (distinct : ((before ++ [q]).map Quantity.unit).Nodup) :
    addQuantity ⟨products factor before⟩ (q.times factor) =
      .ok ⟨products factor (before ++ [q])⟩ := by
  have before_units := fun p hp => units p (List.mem_append_left [q] hp)
  rw [products_append]
  cases zero : (q.times factor).isZero with
  | true => simp [addQuantity, products, zero]
  | false =>
    have unit := Quantity.unit_times (.inl (units q (by simp))) zero
    have single : products factor [q] = [q.times factor] := by simp [products, zero]
    rw [single]
    refine addQuantity_fresh (fun p hp => hasUnit_of_mem_products before_units hp) ?_ ?_
    · rw [Quantity.hasUnit_of_unit_eq unit, units q (by simp)]
    · intro old
      rw [unit] at old
      rw [List.map_append, List.nodup_append] at distinct
      have seen := (products_units_sublist factor fun p hp => .inl (before_units p hp)).subset old
      exact distinct.2.2 _ seen _ (by simp) rfl

theorem calculate_ofQuantity (a : Combination α) {op : Operator} (additive : op.isAdditive = true)
    (q : Quantity α) : a.calculate op (ofQuantity q) = a.addQuantity (q.after op) := by
  cases op with
  | plus => exact add_ofQuantity a q
  | minus => rw [calculate, sub, neg_ofQuantity, add_ofQuantity, Quantity.after_minus]
  | times => cases additive
  | divide => cases additive

theorem scale_isNormal {a c : Combination α} (ha : a.IsNormal) {factor : Quantity α}
    (h : a.scale factor = .ok c) : c.IsNormal := by
  rw [scale] at h
  split at h
  · cases h
  · cases h
    change (⟨products factor a.terms⟩ : Combination α).IsNormal
    cases unit : a.hasUnit with
    | false =>
      obtain ⟨q, _, rfl, _⟩ := ha.exists_quantity unit
      rw [products_ofQuantity]
      exact ofQuantity_isNormal _
    | true =>
      have units := fun q hq => (ha.hasUnit_eq (q := q) hq).symm.trans unit
      exact products_isNormal factor units ha.distinct

theorem mul_isNormal {a b c : Combination α} (ha : a.IsNormal) (hb : b.IsNormal)
    (h : a.mul b = .ok c) : c.IsNormal := by
  rw [mul] at h
  split at h
  · exact scale_isNormal ha h
  · exact scale_isNormal hb h
  · cases h

theorem div_isNormal {a b c : Combination α} (ha : a.IsNormal) (h : a.div b = .ok c) :
    c.IsNormal := by
  rw [div] at h
  split at h
  · cases h
  · split at h
    · cases h
    · split at h
      · cases h
      · split at h
        · cases h
          exact ofQuantity_isNormal _
        · exact scale_isNormal ha h

theorem calculate_isNormal {a b c : Combination α} {op : Operator} (ha : a.IsNormal)
    (hb : b.IsNormal) (h : a.calculate op b = .ok c) : c.IsNormal := by
  cases op with
  | plus => exact add_isNormal ha hb h
  | minus => exact add_isNormal ha (neg_isNormal hb) h
  | times => exact mul_isNormal ha hb h
  | divide => exact div_isNormal ha h

end Lawful

end UnitArith.Combination
