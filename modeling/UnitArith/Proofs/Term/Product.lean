import UnitArith.Proofs.Number.Double
import UnitArith.Proofs.Term.Normal

/-! Products are in normal form, whatever was multiplied: hand-built terms with nested operands,
repeated units or operators that the algebra never leaves behind. Each quantity is multiplied on
its own and folded into the products in front of it, and the fold stays in the normal form. -/
namespace UnitArith.Term

variable {α : Type} [Number α]

theorem toTerm_isNormal [LawfulNumber α] {a : Combination α} (ha : a.IsNormal) :
    a.toTerm.IsNormal :=
  (isNormal_iff a.toTerm).mpr ⟨a, ha, represents_toTerm ha⟩

mutual

/-- Nothing is asked of the term: its products are normal on their own. -/
theorem distribute_isNormal [LawfulNumber α] (factor : Quantity α) :
    ∀ (t : Term α) {a : Combination α}, distribute factor t = .ok a → a.IsNormal
  | quantity q, a, h => by
    cases h
    exact Combination.ofQuantity_isNormal (q.times factor)
  | expression head tail, a, h => by
    rw [distribute] at h
    obtain ⟨first, multiplied, folded⟩ := bind_eq_ok_iff.mp h
    have first := distribute_isNormal factor head multiplied
    exact distributeTail_isNormal factor tail first folded

/-- The products folded so far are normal, the next one is, and so is what the operator between
them makes, whichever of the four it is. -/
theorem distributeTail_isNormal [LawfulNumber α] (factor : Quantity α) :
    ∀ (tail : List (Operator × Term α)) {product a : Combination α}, product.IsNormal →
      distributeTail factor product tail = .ok a → a.IsNormal
  | [], product, a, normal, h => by
    cases h
    exact normal
  | (op, t) :: rest, product, a, normal, h => by
    rw [distributeTail] at h
    obtain ⟨next, multiplied, h⟩ := bind_eq_ok_iff.mp h
    obtain ⟨sum, combined, folded⟩ := bind_eq_ok_iff.mp h
    have next := distribute_isNormal factor t multiplied
    have sum := Combination.calculate_isNormal normal next combined
    exact distributeTail_isNormal factor rest sum folded

end

section Lawful

variable [LawfulNumber α]

theorem scale_isNormal {t : Term α} {factor : Quantity α} {a : Combination α}
    (h : t.scale factor = .ok a) : a.IsNormal := by
  rw [scale] at h
  split at h
  · cases h
  · exact distribute_isNormal factor t h

theorem negated_isNormal {t : Term α} {a : Combination α} (h : t.negated = .ok a) :
    a.IsNormal := by
  cases t with
  | quantity q =>
    cases h
    exact Combination.ofQuantity_isNormal q.neg
  | expression => exact scale_isNormal h

theorem mul_isNormal {s t r : Term α} (h : s.mul t = .ok r) : r.IsNormal := by
  obtain ⟨factor, product, rfl, ⟨_, scaled⟩ | ⟨_, scaled⟩⟩ := mul_eq_ok h
  · exact toTerm_isNormal (scale_isNormal scaled)
  · exact toTerm_isNormal (scale_isNormal scaled)

end Lawful

/-- A product with a quantity is in normal form, however the other factor was built. -/
theorem product_isNormal {t r : Term Float} {q : Quantity Float}
    (h : t.calculate .times (.quantity q) = .ok r ∨ calculate (.quantity q) .times t = .ok r) :
    r.IsNormal := by
  rcases h with right | left
  · exact mul_isNormal (s := t) (t := .quantity q) right
  · exact mul_isNormal (s := .quantity q) (t := t) left

/-- Nested, with units that repeat, a product in the tail and a negative value behind a minus. -/
theorem product_isNormal_nested :
    let nested : Term Float := .expression (.expression (.quantity (.of 1 "px")) [])
      [(.plus, .quantity (.of 2 "vh")),
        (.plus, .expression (.quantity (.of 3 "px")) [(.times, .quantity (.of 2 ""))]),
        (.minus, .quantity (.of (-1) "em")), (.minus, .quantity (.of 2 "vh"))]
    let product : Term Float :=
      .expression (.quantity (.of 26 "px")) [(.plus, .quantity (.of 2 "em"))]
    nested.calculate .times (.quantity (.of 2 "")) = .ok product ∧ product.IsNormal := by
  intro nested product
  have result : nested.calculate .times (.quantity (.of 2 "")) = .ok product := by decide +kernel
  exact ⟨result, product_isNormal (.inl result)⟩

end UnitArith.Term
