import UnitArith.Proofs.Term.Representation

/-! The normal form of terms. Arithmetic never leaves it: a normal term is one that writes out a
normal combination, and combinations stay normal. -/
namespace UnitArith.Term

variable {α : Type} [Number α]

/-- One quantity, or a flat sum of several with units that differ from each other. In a sum the
signs stand in the operators; only the head may be negative. -/
inductive IsNormal : Term α → Prop
  | quantity {q : Quantity α} (zero : q.isZero = true → q.value = 0 ∧ q.unit = "") :
      IsNormal (.quantity q)
  | sum {head : Quantity α} {tail : List (Operator × Quantity α)} (several : tail ≠ [])
      (nonzero : ∀ q ∈ head :: tail.map Prod.snd, q.isZero = false)
      (units : ∀ q ∈ head :: tail.map Prod.snd, q.unit ≠ "")
      (distinct : ((head :: tail.map Prod.snd).map Quantity.unit).Nodup)
      (operators : ∀ o ∈ tail, o.1 = .plus ∨ o.1 = .minus)
      (nonnegative : ∀ o ∈ tail, o.2.isNegative = false) :
      IsNormal (.expression (.quantity head) (tail.map fun o => (o.1, .quantity o.2)))

theorem isAdditive_iff (op : Operator) : op.isAdditive = true ↔ op = .plus ∨ op = .minus := by
  cases op <;> simp [Operator.isAdditive]

/-- Operands that make quantities are quantities behind additive operators. -/
theorem summands_iff {tail : List (Operator × Term α)} {terms : List (Quantity α)} :
    List.Forall₂ Summand tail terms ↔ ∃ operands : List (Operator × Quantity α),
      tail = operands.map (fun o => (o.1, .quantity o.2)) ∧
      terms = operands.map (fun o => o.2.after o.1) ∧
      ∀ o ∈ operands, o.1.isAdditive = true ∧ o.2.isNegative = false := by
  constructor
  · intro h
    induction h with
    | nil => exact ⟨[], rfl, rfl, nofun⟩
    | cons first others ih =>
      obtain ⟨operands, rfl, rfl, signs⟩ := ih
      cases first with
      | @mk op q additive nonnegative =>
        refine ⟨(op, q) :: operands, rfl, rfl, ?_⟩
        intro o ho
        rcases List.mem_cons.mp ho with rfl | ho
        · exact ⟨additive, nonnegative⟩
        · exact signs o ho
  · rintro ⟨operands, rfl, rfl, signs⟩
    rw [List.forall₂_map_left_iff, List.forall₂_map_right_iff]
    exact List.forall₂_same.mpr fun o ho => .mk (signs o ho).1 (signs o ho).2

mutual

/-- The quantities of a term from left to right, at any depth. -/
def quantities : Term α → List (Quantity α)
  | quantity q => [q]
  | expression head tail => head.quantities ++ quantitiesTail tail

def quantitiesTail : List (Operator × Term α) → List (Quantity α)
  | [] => []
  | (_, t) :: rest => t.quantities ++ quantitiesTail rest

end

theorem quantitiesTail_map (operands : List (Operator × Quantity α)) :
    quantitiesTail (operands.map fun o => (o.1, quantity o.2)) = operands.map Prod.snd := by
  induction operands with
  | nil => rfl
  | cons o operands ih => rw [List.map_cons, quantitiesTail, ih]; rfl

section Lawful

variable [LawfulNumber α]

/-- The operators decide on signs only. -/
theorem isNormal_operands_iff (head : Quantity α) {operands : List (Operator × Quantity α)}
    (several : operands ≠ []) :
    (⟨head :: operands.map fun o => o.2.after o.1⟩ : Combination α).IsNormal ↔
      (∀ q ∈ head :: operands.map Prod.snd, q.isZero = false) ∧
      (∀ q ∈ head :: operands.map Prod.snd, q.unit ≠ "") ∧
      ((head :: operands.map Prod.snd).map Quantity.unit).Nodup := by
  obtain ⟨second, rest, rfl⟩ := List.exists_cons_of_ne_nil several
  rw [Combination.isNormal_iff_of_several rfl]
  simp only [List.map_cons, List.map_map, List.forall_mem_cons, List.forall_mem_map,
    Function.comp_def, Quantity.isZero_after, Quantity.unit_after]

theorem isNormal_iff (t : Term α) :
    t.IsNormal ↔ ∃ a : Combination α, a.IsNormal ∧ Represents t a := by
  constructor
  · intro h
    cases h with
    | @quantity q zero => exact ⟨.ofQuantity q, Combination.ofQuantity_isNormal q, .quantity q⟩
    | @sum head tail several nonzero units distinct operators nonnegative =>
      have normal := (isNormal_operands_iff head several).mpr ⟨nonzero, units, distinct⟩
      obtain ⟨second, rest, rfl⟩ := List.exists_cons_of_ne_nil several
      refine ⟨_, normal, .sum ?_⟩
      refine summands_iff.mpr ⟨second :: rest, rfl, rfl, ?_⟩
      exact fun o ho => ⟨(isAdditive_iff o.1).mpr (operators o ho), nonnegative o ho⟩
  · rintro ⟨a, ha, h⟩
    cases h with
    | quantity q => exact .quantity q.canonical
    | @sum head second tail rest summands =>
      obtain ⟨operands, rfl, terms, signs⟩ := summands_iff.mp summands
      have several : operands ≠ [] := by
        rintro rfl
        cases terms
      rw [terms, isNormal_operands_iff head several] at ha
      obtain ⟨nonzero, units, distinct⟩ := ha
      refine .sum several nonzero units distinct ?_ ?_
      · exact fun o ho => (isAdditive_iff o.1).mp (signs o ho).1
      · exact fun o ho => (signs o ho).2

theorem calculate_isNormal {s t r : Term α} {op : Operator} (hs : s.IsNormal) (ht : t.IsNormal)
    (h : s.calculate op t = .ok r) : r.IsNormal := by
  obtain ⟨a, ha, left⟩ := (isNormal_iff s).mp hs
  obtain ⟨b, hb, right⟩ := (isNormal_iff t).mp ht
  have agrees := calculate_agrees left right ha hb op
  rw [h] at agrees
  generalize sum : a.calculate op b = c at agrees
  cases agrees with
  | ok related => exact (isNormal_iff r).mpr ⟨_, Combination.calculate_isNormal ha hb sum, related⟩

end Lawful

end UnitArith.Term
