import UnitArith.Proofs.Term.Product

/-! Combinations written out as terms calculate as they are, to the last operand and error text: the
term that comes out is the one that is written for the combination that comes out. -/
namespace UnitArith.Term

variable {α : Type} [Number α]

theorem toTerm_cons (head : Quantity α) (rest : List (Quantity α)) :
    (⟨head :: rest⟩ : Combination α).toTerm =
      ofOperands ((.plus, quantity head) :: rest.map signedOperand) := by
  cases rest with
  | nil => rfl
  | cons second rest => rfl

theorem toTerm_ofQuantity (q : Quantity α) : (Combination.ofQuantity q).toTerm = quantity q := by
  cases zero : q.isZero with
  | true =>
    rw [Combination.ofQuantity_of_isZero zero, Quantity.eq_zero zero]
    rfl
  | false =>
    rw [Combination.ofQuantity_of_nonzero zero]
    rfl

theorem toTerm_of_quantity? {a : Combination α} {q : Quantity α} (single : a.quantity? = some q) :
    a.toTerm = quantity q := by
  obtain ⟨_ | ⟨p, _ | ⟨second, rest⟩⟩⟩ := a
  · cases single
    rfl
  · cases single
    rfl
  · cases single

/-- A lone quantity is added or subtracted as itself, whatever the term is. -/
theorem addCombination_ofQuantity (s : Term α) (q : Quantity α) :
    s.addCombination (.ofQuantity q) = s.addQuantity q := by
  cases s with
  | quantity p => rw [addCombination, Combination.add_ofQuantity, addQuantity]
  | expression head tail =>
    rw [addCombination]
    cases zero : q.isZero with
    | true =>
      rw [Combination.ofQuantity_of_isZero zero, addQuantity, if_pos zero]
      rfl
    | false =>
      rw [Combination.ofQuantity_of_nonzero zero]
      exact bind_pure _

theorem calculate_quantity (s : Term α) {op : Operator} (additive : op.isAdditive = true)
    (q : Quantity α) : s.calculate op (quantity q) = s.addQuantity (q.after op) := by
  cases op with
  | plus => rw [calculate, add, Quantity.after_plus]
  | minus => exact addCombination_ofQuantity s q.neg
  | times => cases additive
  | divide => cases additive

section Lawful

variable [LawfulNumber α]

theorem absorbTail?_map_signedOperand (q : Quantity α) (terms : List (Quantity α)) :
    absorbTail? q (terms.map signedOperand) =
      (Combination.absorb? q terms).map (·.map signedOperand) := by
  induction terms with
  | nil => rfl
  | cons p terms ih =>
    have same : p.signed.2.sameUnit q = p.sameUnit q := by
      rw [Quantity.sameUnit, Quantity.sameUnit, Quantity.unit_signed]
    rw [List.map_cons, signedOperand, absorbTail?, Combination.absorb?, same,
      Quantity.after_signed]
    split
    · dsimp only
      split <;> rfl
    · rw [ih, Option.map_map, Option.map_map]
      rfl

theorem promote_map_signedOperand {terms : List (Quantity α)} :
    promote (terms.map signedOperand) = .ok (⟨terms⟩ : Combination α).toTerm := by
  cases terms with
  | nil => rfl
  | cons head rest =>
    have back := Quantity.after_signed head
    rw [List.map_cons, signedOperand, toTerm_cons]
    cases negative : head.isNegative with
    | true =>
      rw [Quantity.signed, if_pos negative] at back ⊢
      rw [Quantity.after_minus] at back
      rw [promote, negated, back, ← toTerm_ofQuantity head]
      rfl
    | false =>
      rw [Quantity.signed, if_neg (Bool.eq_false_iff.mp negative)]
      rfl

theorem absorb?_map_signedOperand (q head : Quantity α) (rest : List (Quantity α)) :
    absorb? q (.quantity head) (rest.map signedOperand) =
      .ok ((Combination.absorb? q (head :: rest)).map fun terms =>
        (⟨terms⟩ : Combination α).toTerm) := by
  rw [absorb?, Combination.absorb?]
  split
  · dsimp only
    split
    · rw [promote_map_signedOperand]
      rfl
    · rw [← toTerm_cons]
      rfl
  · rw [absorbTail?_map_signedOperand, Option.map_map, Option.map_map]
    congr 2
    funext terms
    exact (toTerm_cons head terms).symm

theorem addQuantity_toTerm {a : Combination α} (ha : a.IsNormal) (q : Quantity α) :
    a.toTerm.addQuantity q = (do .ok (← a.addQuantity q).toTerm) := by
  cases single : a.quantity? with
  | some p =>
    rw [toTerm_of_quantity? single, ha.eq_ofQuantity single]
    rfl
  | none =>
    have units := ha.hasUnit_several single
    obtain ⟨head, second, rest, rfl⟩ := Combination.exists_several single
    rw [Combination.toTerm, addQuantity, Combination.addQuantity, absorb?_map_signedOperand]
    split
    · rfl
    · dsimp only [bind, Except.bind]
      cases Combination.absorb? q (head :: second :: rest) with
      | some terms => rfl
      | none =>
        simp only [units, List.isEmpty_cons, Bool.false_or, beq_iff_eq, Option.map_none]
        cases unit : q.hasUnit with
        | true => simp [Combination.toTerm]
        | false => rfl

theorem addTo_toTerm {head second q : Quantity α} {rest : List (Quantity α)} :
    addTo q (quantity head) ((second :: rest).map signedOperand) =
      (do .ok (← (⟨head :: second :: rest⟩ : Combination α).addTo q).toTerm) := by
  rw [addTo, Combination.addTo, absorb?_map_signedOperand]
  split
  · rfl
  · dsimp only [bind, Except.bind]
    cases Combination.absorb? q (head :: second :: rest) with
    | some terms => rfl
    | none =>
      cases unit : q.hasUnit with
      | true => rfl
      | false => rfl

theorem foldlM_addQuantity_toTerm {a : Combination α} (ha : a.IsNormal)
    (terms : List (Quantity α)) : terms.foldlM addQuantity a.toTerm =
      (do .ok (← terms.foldlM Combination.addQuantity a).toTerm) := by
  induction terms generalizing a with
  | nil => rfl
  | cons q terms ih =>
    rw [List.foldlM_cons, List.foldlM_cons, addQuantity_toTerm ha]
    cases sum : a.addQuantity q with
    | error e => rfl
    | ok c => exact ih (Combination.addQuantity_isNormal ha sum)

theorem addCombination_toTerm {a b : Combination α} (ha : a.IsNormal) :
    a.toTerm.addCombination b = (do .ok (← a.add b).toTerm) := by
  cases single : a.quantity? with
  | some q =>
    rw [toTerm_of_quantity? single, ha.eq_ofQuantity single]
    rfl
  | none =>
    rw [Combination.add_eq_foldlM (.inl single), ← foldlM_addQuantity_toTerm ha]
    obtain ⟨head, second, rest, rfl⟩ := Combination.exists_several single
    rfl

theorem addTail_map_signedOperand (s : Term α) (terms : List (Quantity α)) :
    addTail s (terms.map signedOperand) = terms.foldlM addQuantity s := by
  induction terms generalizing s with
  | nil =>
    rw [List.map_nil, addTail]
    rfl
  | cons q terms ih =>
    rw [List.map_cons, signedOperand, addTail_cons,
      calculate_quantity s (Quantity.isAdditive_signed q), Quantity.after_signed, List.foldlM_cons]
    exact bind_congr ih

theorem add_toTerm (s : Term α) {b : Combination α} (hb : b.IsNormal) :
    s.add b.toTerm = s.addCombination b := by
  cases single : b.quantity? with
  | some q =>
    rw [toTerm_of_quantity? single, add, hb.eq_ofQuantity single, addCombination_ofQuantity]
  | none =>
    obtain ⟨head, second, rest, rfl⟩ := Combination.exists_several single
    cases s with
    | quantity q =>
      rw [Combination.toTerm, add, addTo_toTerm, addCombination, Combination.add,
        Combination.quantity?_ofQuantity, single]
    | expression inner tail =>
      rw [Combination.toTerm, add, addCombination, List.foldlM_cons, add]
      exact bind_congr fun sum => addTail_map_signedOperand sum (second :: rest)

theorem mul_toTerm {a b : Combination α} (ha : a.IsNormal) (hb : b.IsNormal) :
    a.toTerm.mul b.toTerm = (do .ok (← a.mul b).toTerm) := by
  cases right : b.quantity? with
  | some factor =>
    rw [toTerm_of_quantity? right, mul, scale_eq (represents_toTerm ha) ha, Combination.mul, right]
  | none =>
    rw [Combination.mul, right]
    cases left : a.quantity? with
    | some factor =>
      have scaled := scale_eq (represents_toTerm hb) hb factor
      obtain ⟨head, second, rest, rfl⟩ := Combination.exists_several right
      rw [toTerm_of_quantity? left]
      exact congrArg (fun x => do .ok (← x).toTerm) scaled
    | none =>
      obtain ⟨head, second, rest, rfl⟩ := Combination.exists_several left
      obtain ⟨head', second', rest', rfl⟩ := Combination.exists_several right
      rfl

theorem div_toTerm {a b : Combination α} (ha : a.IsNormal) :
    a.toTerm.div b.toTerm = (do .ok (← a.div b).toTerm) := by
  cases right : b.quantity? with
  | none =>
    obtain ⟨head, second, rest, rfl⟩ := Combination.exists_several right
    rfl
  | some divisor =>
    rw [toTerm_of_quantity? right, div.eq_def, Combination.div, right]
    dsimp only
    split
    · rfl
    · split
      · rfl
      · cases left : a.quantity? with
        | some q =>
          rw [toTerm_of_quantity? left]
          exact congrArg Except.ok (toTerm_ofQuantity _).symm
        | none =>
          have scaled := scale_eq (represents_toTerm ha) ha divisor.reciprocal
          obtain ⟨head, second, rest, rfl⟩ := Combination.exists_several left
          exact congrArg (fun x => do .ok (← x).toTerm) scaled

theorem sub_toTerm (s : Term α) {b : Combination α} (hb : b.IsNormal) :
    s.sub b.toTerm = s.addCombination b.neg := by
  rw [sub, negated_eq (represents_toTerm hb) hb]
  rfl

/-- Writing combinations out commutes with every operator. -/
theorem calculate_toTerm {a b : Combination α} (ha : a.IsNormal) (hb : b.IsNormal) (op : Operator) :
    a.toTerm.calculate op b.toTerm = (do .ok (← a.calculate op b).toTerm) := by
  cases op with
  | plus => exact (add_toTerm a.toTerm hb).trans (addCombination_toTerm ha)
  | minus => exact (sub_toTerm a.toTerm hb).trans (addCombination_toTerm ha)
  | times => exact mul_toTerm ha hb
  | divide => exact div_toTerm ha

end Lawful

end UnitArith.Term
