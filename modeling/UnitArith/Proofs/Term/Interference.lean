import UnitArith.Proofs.Term.Run
import UnitArith.Proofs.Term.Total

/-! Units do not interfere. What an expression holds of one unit shows in the result at that unit
only, even though a term of it may cancel in one run and stay in another. Values are exact here. -/
namespace UnitArith

/-- The same token, or two quantities that are zero or have this unit. -/
inductive Token.AgreesOff (unit : String) : Token ℚ → Token ℚ → Prop
  | same (token : Token ℚ) : AgreesOff unit token token
  | apart {q q' : Quantity ℚ} (left : q.unit = unit ∨ q.isZero = true)
      (right : q'.unit = unit ∨ q'.isZero = true) : AgreesOff unit (.quantity q) (.quantity q')

namespace Term

/-- Normal terms that have the same values everywhere but at this unit. -/
structure AgreesOff (unit : String) (s t : Term ℚ) : Prop where
  left : s.IsNormal
  right : t.IsNormal
  elsewhere : ∀ other, other ≠ unit → s.coefficient other = t.coefficient other

theorem coefficient_quantity_of_ne {q : Quantity ℚ} {unit other : String}
    (only : q.unit = unit ∨ q.isZero = true) (apart : other ≠ unit) :
    (quantity q).coefficient other = 0 := by
  rw [coefficient_eq (.quantity q), Combination.coefficient_ofQuantity]
  rcases only with rfl | zero
  · exact Combination.coefficientOf_singleton_of_ne apart.symm
  · exact Combination.coefficientOf_singleton_of_isZero other zero

/-- A plain number has no value at a unit. -/
theorem coefficient_of_plain {t : Term ℚ} (ht : t.IsNormal) (plain : t.dimension ≠ .dimensional)
    {unit : String} (named : unit ≠ "") : t.coefficient unit = 0 := by
  obtain ⟨a, ha, h⟩ := (isNormal_iff t).mp ht
  rw [Ne, dimensional_iff h ha, Bool.not_eq_true] at plain
  obtain ⟨q, _, rfl, bare⟩ := ha.exists_quantity plain
  rw [coefficient_eq h, Combination.coefficient_ofQuantity]
  rw [Quantity.hasUnit_eq_false_iff] at bare
  exact Combination.coefficientOf_singleton_of_ne (bare ▸ named.symm)

/-- A product is linear in both factors, since one of them is a plain number. -/
theorem outcome_times_eq {s t : Term ℚ} (hs : s.IsNormal) (ht : t.IsNormal)
    {values : String → ℚ} (h : outcome s .times t = .ok values) (unit : String) :
    values unit = s.coefficient unit * t.coefficient "" +
      if unit = "" then 0 else s.coefficient "" * t.coefficient unit := by
  rcases outcome_times h with ⟨plain, products⟩ | ⟨plain, products⟩
  · rw [products]
    split
    · exact (add_zero _).symm
    · rename_i named
      rw [coefficient_of_plain ht plain named, mul_zero, add_zero]
  · rw [products]
    split
    · rename_i bare
      rw [bare, add_zero]
    · rename_i named
      rw [coefficient_of_plain hs plain named, zero_mul, zero_add]

/-- An operator does not carry the values of a unit over to another one. -/
theorem AgreesOff.calculate {unit : String} (named : unit ≠ "") {s s' t t' r r' : Term ℚ}
    {op : Operator} (first : AgreesOff unit s s') (second : AgreesOff unit t t')
    (h : s.calculate op t = .ok r) (h' : s'.calculate op t' = .ok r') : AgreesOff unit r r' := by
  refine ⟨calculate_isNormal first.left second.left h,
    calculate_isNormal first.right second.right h', fun other apart => ?_⟩
  obtain ⟨values, expected, coefficients⟩ := coefficient_calculate first.left second.left h
  obtain ⟨values', expected', coefficients'⟩ := coefficient_calculate first.right second.right h'
  -- The operands may differ in shape, so only what the operator makes of the values is compared.
  rw [coefficients, coefficients']
  cases op with
  | plus =>
    rw [outcome_plus expected, outcome_plus expected', first.elsewhere other apart,
      second.elsewhere other apart]
  | minus =>
    rw [outcome_minus expected, outcome_minus expected', first.elsewhere other apart,
      second.elsewhere other apart]
  | times =>
    rw [outcome_times_eq first.left second.left expected,
      outcome_times_eq first.right second.right expected', first.elsewhere other apart,
      first.elsewhere "" named.symm, second.elsewhere other apart,
      second.elsewhere "" named.symm]
  | divide =>
    rw [(outcome_divide expected).2, (outcome_divide expected').2, first.elsewhere other apart,
      second.elsewhere "" named.symm]

theorem tokenAlike_of_agreesOff {unit : String} {token token' : Token ℚ}
    (h : Token.AgreesOff unit token token') : TokenAlike (AgreesOff unit) token token' := by
  cases h with
  | same =>
    cases token with
    | quantity q => exact .quantity ⟨.quantity q.canonical, .quantity q.canonical, fun _ _ => rfl⟩
    | operator op => exact .operator op
    | opening => exact .opening
    | closing => exact .closing
  | @apart q q' left right =>
    refine .quantity ⟨.quantity q.canonical, .quantity q'.canonical, fun other apart => ?_⟩
    rw [coefficient_quantity_of_ne left apart, coefficient_quantity_of_ne right apart]

/-- Two expressions that differ in quantities of one unit, or in zeros there, come to terms that
have the same value at every other unit and the same plain number. -/
theorem coefficient_agrees {unit : String} (named : unit ≠ "") {tokens tokens' : List (Token ℚ)}
    (alike : List.Forall₂ (Token.AgreesOff unit) tokens tokens') {t t' : Term ℚ}
    (h : ofTokens tokens = .ok (some t)) (h' : ofTokens tokens' = .ok (some t')) :
    ∀ other, other ≠ unit → t.coefficient other = t'.coefficient other :=
  (ofTokens_alike (AgreesOff.calculate named) (alike.imp fun _ _ => tokenAlike_of_agreesOff)
    h h').elsewhere

/-- In `(2px - 2px) * 3 - 4vh / 2` the pixels cancel within the group, in
`(5px - 2px) * 3 - 4vh / 2` they do not. -/
theorem coefficient_agrees_cancelled :
    let tokens (first : ℚ) : List (Token ℚ) := [.opening, .quantity (.of first "px"),
      .operator .minus, .quantity (.of 2 "px"), .closing, .operator .times,
      .quantity (.of 3 ""), .operator .minus, .quantity (.of 4 "vh"), .operator .divide,
      .quantity (.of 2 "")]
    let t : Term ℚ := .quantity (.of (-2) "vh")
    let t' : Term ℚ := .expression (.quantity (.of 9 "px")) [(.minus, .quantity (.of 2 "vh"))]
    List.Forall₂ (Token.AgreesOff "px") (tokens 2) (tokens 5) ∧
      ofTokens (tokens 2) = .ok (some t) ∧ ofTokens (tokens 5) = .ok (some t') ∧
      ∀ other, other ≠ "px" → t.coefficient other = t'.coefficient other := by
  intro tokens t t'
  have unit (value : ℚ) : (Quantity.of value "px").unit = "px" ∨
      (Quantity.of value "px").isZero = true := by
    cases zero : Number.isZero value with
    | false => exact .inl (Quantity.unit_of zero "px")
    | true => exact .inr ((Quantity.isZero_of value "px").trans zero)
  have alike : List.Forall₂ (Token.AgreesOff "px") (tokens 2) (tokens 5) :=
    .cons (.same _) (.cons (.apart (unit 2) (unit 5))
      (List.forall₂_same.mpr fun token _ => .same token))
  have parsed : ofTokens (tokens 2) = .ok (some t) := by decide +kernel
  have parsed' : ofTokens (tokens 5) = .ok (some t') := by decide +kernel
  exact ⟨alike, parsed, parsed', coefficient_agrees (by decide) alike parsed parsed'⟩

end Term

end UnitArith
