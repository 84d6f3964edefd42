import UnitArith.Combination
import UnitArith.Proofs.Renaming

/-! Arithmetic on renamed combinations. Two terms share a name exactly when they share a unit, so
each operation takes the same way and fails for the same reason. -/
namespace UnitArith.Combination

variable {α : Type} [Number α]

def rename (f : Renaming) (a : Combination α) : Combination α := ⟨a.terms.map (·.rename f)⟩

variable (f : Renaming)

@[simp] theorem terms_rename (a : Combination α) :
    (a.rename f).terms = a.terms.map (·.rename f) := rfl

@[simp] theorem ofQuantity_rename (q : Quantity α) :
    ofQuantity (q.rename f) = (ofQuantity q).rename f := by
  rw [ofQuantity, ofQuantity, Quantity.isZero_rename]
  split <;> rfl

@[simp] theorem quantity?_rename (a : Combination α) :
    (a.rename f).quantity? = a.quantity?.map (·.rename f) := by
  obtain ⟨_ | ⟨q, _ | ⟨second, rest⟩⟩⟩ := a
  · exact (congrArg some (Quantity.rename_zero f)).symm
  · rfl
  · rfl

@[simp] theorem toTerm_rename (a : Combination α) : (a.rename f).toTerm = a.toTerm.rename f := by
  obtain ⟨_ | ⟨q, _ | ⟨second, rest⟩⟩⟩ := a
  · exact congrArg Term.quantity (Quantity.rename_zero f).symm
  · rfl
  · have operands : ((second :: rest).map (·.rename f)).map Term.signedOperand =
        Term.renameTail f ((second :: rest).map Term.signedOperand) := by
      rw [Term.renameTail_eq_map, List.map_map, List.map_map]
      exact List.map_congr_left fun q _ => Term.signedOperand_rename f q
    exact congrArg (Term.expression (.quantity (q.rename f))) operands

@[simp] theorem hasUnit_rename (a : Combination α) : (a.rename f).hasUnit = a.hasUnit := by
  have unit : Quantity.hasUnit ∘ (·.rename f) = (Quantity.hasUnit : Quantity α → Bool) :=
    funext (Quantity.hasUnit_rename f)
  rw [hasUnit, terms_rename, List.any_map, unit, hasUnit]

theorem absorb?_rename (q : Quantity α) (terms : List (Quantity α)) :
    absorb? (q.rename f) (terms.map (·.rename f)) =
      (absorb? q terms).map (List.map (·.rename f)) := by
  induction terms with
  | nil => rfl
  | cons a rest ih =>
    rw [List.map_cons, absorb?, absorb?, Quantity.sameUnit_rename]
    split
    · simp only [Quantity.plus_rename, Quantity.isZero_rename, Option.map_some, Option.some.injEq]
      split <;> rfl
    · rw [ih, Option.map_map, Option.map_map]
      rfl

theorem addQuantity_rename (a : Combination α) (q : Quantity α) :
    (a.rename f).addQuantity (q.rename f) = f.outcome (rename f) (a.addQuantity q) := by
  rw [addQuantity, addQuantity, Quantity.isZero_rename, terms_rename, absorb?_rename]
  split
  · rfl
  · cases absorb? q a.terms with
    | some terms => rfl
    | none =>
      simp only [Option.map_none, List.isEmpty_map, hasUnit_rename, Quantity.hasUnit_rename,
        toTerm_rename]
      split
      · simp [rename]
      · rfl

theorem addTo_rename (a : Combination α) (q : Quantity α) :
    (a.rename f).addTo (q.rename f) = f.outcome (rename f) (a.addTo q) := by
  rw [addTo, addTo, Quantity.isZero_rename, terms_rename, absorb?_rename]
  split
  · rfl
  · cases absorb? q a.terms with
    | some terms => rfl
    | none =>
      simp only [Option.map_none, Quantity.hasUnit_rename, toTerm_rename]
      split <;> rfl

theorem add_rename (a b : Combination α) :
    (a.rename f).add (b.rename f) = f.outcome (rename f) (a.add b) := by
  have fold := f.outcome_foldlM (addQuantity_rename (α := α) f) b.terms a
  rw [add, add, quantity?_rename, quantity?_rename]
  cases a.quantity? with
  | none => exact fold
  | some q =>
    cases b.quantity? with
    | none => exact addTo_rename f b q
    | some p => exact fold

@[simp] theorem neg_rename (a : Combination α) : (a.rename f).neg = a.neg.rename f := by
  simp only [neg, rename, List.map_map]
  exact congrArg Combination.mk (List.map_congr_left fun q _ => Quantity.neg_rename f q)

theorem sub_rename (a b : Combination α) :
    (a.rename f).sub (b.rename f) = f.outcome (rename f) (a.sub b) := by
  rw [sub, sub, neg_rename, add_rename]

theorem scale_rename (a : Combination α) (factor : Quantity α) :
    (a.rename f).scale (factor.rename f) = f.outcome (rename f) (a.scale factor) := by
  rw [scale, scale, Quantity.hasUnit_rename, hasUnit_rename]
  split
  · rfl
  · have products : (a.terms.map (·.rename f)).map (·.times (factor.rename f)) =
        (a.terms.map (·.times factor)).map (·.rename f) := by
      rw [List.map_map, List.map_map]
      exact List.map_congr_left fun q _ => Quantity.times_rename f q factor
    rw [terms_rename, products, List.filter_map]
    rfl

theorem mul_rename (a b : Combination α) :
    (a.rename f).mul (b.rename f) = f.outcome (rename f) (a.mul b) := by
  rw [mul, mul, quantity?_rename, quantity?_rename]
  cases b.quantity? with
  | some factor => exact scale_rename f a factor
  | none =>
    cases a.quantity? with
    | some factor => exact scale_rename f b factor
    | none =>
      rw [toTerm_rename, toTerm_rename]
      rfl

theorem div_rename (a b : Combination α) :
    (a.rename f).div (b.rename f) = f.outcome (rename f) (a.div b) := by
  rw [div, div, quantity?_rename, quantity?_rename]
  cases b.quantity? with
  | none => rfl
  | some divisor =>
    dsimp only [Option.map_some]
    rw [Quantity.hasUnit_rename, Quantity.isZero_rename]
    cases divisor.hasUnit with
    | true => rfl
    | false =>
      cases divisor.isZero with
      | true => rfl
      | false =>
        cases a.quantity? with
        | some q => exact congrArg Except.ok (by simp)
        | none =>
          dsimp only [Option.map_none]
          rw [Quantity.reciprocal_rename]
          exact scale_rename f a divisor.reciprocal

theorem calculate_rename (a b : Combination α) (op : Operator) :
    (a.rename f).calculate op (b.rename f) = f.outcome (rename f) (a.calculate op b) := by
  cases op with
  | plus => exact add_rename f a b
  | minus => exact sub_rename f a b
  | times => exact mul_rename f a b
  | divide => exact div_rename f a b

end UnitArith.Combination
