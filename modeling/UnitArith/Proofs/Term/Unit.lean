import UnitArith.Proofs.Combination.Order
import UnitArith.Proofs.Term.Coefficient
import UnitArith.Proofs.Term.Parser

/-! The units of a result are among those of the operands: a unit that both lack has the value
zero in the result, and nothing that is zero stands in a sum. -/
namespace UnitArith

open Number (Same absorbing isZero)

variable {α : Type} [Number α]

namespace Term

variable [LawfulNumber α]

theorem outcome_absent {s t : Term α} {op : Operator} {values : String → α}
    (h : outcome s op t = .ok values) {unit : String} (left : isZero (s.coefficient unit) = true)
    (right : isZero (t.coefficient unit) = true) : isZero (values unit) = true := by
  have absorbed {x y : α} (zero : isZero x = true ∨ isZero y = true) :
      isZero (absorbing x y) = true := by
    rw [Number.absorbing_of_isZero (by simpa using zero), LawfulNumber.isZero_zero]
  cases op with
  | plus =>
    rw [outcome] at h
    split at h
    · cases h
    · cases h
      exact LawfulNumber.isZero_add left right
  | minus =>
    rw [outcome] at h
    split at h
    · cases h
    · cases h
      dsimp only
      rw [LawfulNumber.sub_eq_add_neg]
      exact LawfulNumber.isZero_add left (by rwa [LawfulNumber.isZero_neg])
  | times =>
    rw [outcome] at h
    split at h
    · cases h
      exact absorbed (.inl left)
    · split at h
      · cases h
        exact absorbed (.inr right)
      · split at h <;> cases h
  | divide =>
    rw [outcome] at h
    split at h
    · cases h
    · split at h
      · cases h
      · cases h
      · cases h
        dsimp only
        split
        · exact absorbed (.inl left)
        · exact LawfulNumber.isZero_zero

theorem coefficient_absent {s t r : Term α} {op : Operator} (hs : s.IsNormal) (ht : t.IsNormal)
    (h : s.calculate op t = .ok r) {unit : String} (left : isZero (s.coefficient unit) = true)
    (right : isZero (t.coefficient unit) = true) : isZero (r.coefficient unit) = true := by
  have meets := calculate_meets hs ht op
  rw [h] at meets
  generalize expected : outcome s op t = result at meets
  cases meets with
  | ok related => exact (related.2 unit).isZero_eq.trans (outcome_absent expected left right)

theorem quantitiesTail_units {tail : List (Operator × Term α)} {terms : List (Quantity α)}
    (h : List.Forall₂ Summand tail terms) :
    (quantitiesTail tail).map Quantity.unit = terms.map Quantity.unit := by
  induction h with
  | nil => rfl
  | cons first others ih =>
    cases first with
    | mk additive nonnegative =>
      rw [quantitiesTail, List.map_append, ih, List.map_cons, Quantity.unit_after]
      rfl

/-- The units with a value that is not zero are those that stand in the term. -/
theorem units_iff {t : Term α} (normal : t.IsNormal) {G : String → Prop} (plain : G "") :
    (∀ q ∈ t.quantities, G q.unit) ↔ ∀ unit, isZero (t.coefficient unit) = false → G unit := by
  obtain ⟨a, ha, represents⟩ := (isNormal_iff t).mp normal
  have shown : ∀ unit, isZero (t.coefficient unit) = false ↔
      unit ∈ a.terms.map Quantity.unit := by
    intro unit
    rw [coefficient_eq represents]
    exact (ha.mem_units_iff unit).symm
  simp only [shown]
  cases represents with
  | quantity q =>
    cases zero : q.isZero with
    | true =>
      have unit : q.unit = "" := (q.canonical zero).2
      simp [quantities, Combination.ofQuantity_of_isZero zero, Combination.zero, unit, plain]
    | false => simp [quantities, Combination.ofQuantity_of_nonzero zero]
  | @sum head second tail rest summands =>
    have units : (quantities (.expression (.quantity head) tail)).map Quantity.unit =
        (head :: second :: rest).map Quantity.unit := by
      rw [quantities, quantities, List.map_append, quantitiesTail_units summands]
      rfl
    rw [← units, List.forall_mem_map]

/-- What holds of the units of an expression, and of having none, holds of the units of its
term. -/
theorem ofTokens_units {G : String → Prop} (plain : G "") {tokens : List (Token α)} {t : Term α}
    (units : ∀ q, .quantity q ∈ tokens → G q.unit) (h : ofTokens tokens = .ok (some t)) :
    t.IsNormal ∧ ∀ q ∈ t.quantities, G q.unit := by
  refine ofTokens_preserves (P := fun t => t.IsNormal ∧ ∀ q ∈ t.quantities, G q.unit) ?_ ?_ h
  · rintro s op t r ⟨hs, left⟩ ⟨ht, right⟩ result
    have normal := calculate_isNormal hs ht result
    rw [units_iff hs plain] at left
    rw [units_iff ht plain] at right
    refine ⟨normal, (units_iff normal plain).mpr fun unit nonzero => ?_⟩
    by_contra bad
    have absent := coefficient_absent hs ht result
      (by simpa using mt (left unit) bad) (by simpa using mt (right unit) bad)
    rw [absent] at nonzero
    cases nonzero
  · intro q hq
    refine ⟨.quantity q.canonical, ?_⟩
    rw [quantities, List.forall_mem_singleton]
    exact units q hq

end Term

end UnitArith
