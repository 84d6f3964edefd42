import UnitArith.Proofs.Plain.Grammar
import UnitArith.Proofs.Plain.Symbol
import UnitArith.Proofs.Term.Total

/-! Reduction and plain evaluation agree on exact values: the total of a reduced term is the
value of its text with the units struck out. -/
namespace UnitArith.Plain

open Rational (value_of)

theorem SpellsAll.split {α : Type} [Number α] {a b : List (Token α)} {symbols : List (Symbol α)}
    (h : SpellsAll (a ++ b) symbols) :
    ∃ left right, symbols = left ++ right ∧ SpellsAll a left ∧ SpellsAll b right := by
  induction a generalizing symbols with
  | nil => exact ⟨[], symbols, rfl, .nil, h⟩
  | cons token a ih =>
    cases h with
    | cons first others =>
      obtain ⟨left, right, rfl, ha, hb⟩ := ih others
      exact ⟨_, right, (List.append_assoc ..).symm, .cons first ha, hb⟩

theorem join_eq_ok {x y : Except (AlgebraError ℚ) (Term ℚ)} {op : Operator} {r : Term ℚ}
    (h : (do let s ← x; let t ← y; s.calculate op t) = .ok r) :
    ∃ s t, x = .ok s ∧ y = .ok t ∧ s.calculate op t = .ok r := by
  obtain ⟨s, left, h⟩ := bind_eq_ok_iff.mp h
  obtain ⟨t, right, h⟩ := bind_eq_ok_iff.mp h
  exact ⟨s, t, left, right, h⟩

theorem SpellsAll.operator_cons {op : Operator} {tokens : List (Token ℚ)}
    {symbols : List (Symbol ℚ)} (h : SpellsAll (.operator op :: tokens) symbols) :
    ∃ rest, symbols = .operator op :: rest ∧ SpellsAll tokens rest := by
  cases h with
  | cons first others =>
    cases first
    exact ⟨_, rfl, others⟩

mutual

theorem exists_sum : ∀ (e : Grammar.Sum ℚ) {t : Term ℚ} {symbols : List (Symbol ℚ)},
    e.evaluate = .ok t → SpellsAll e.tokens symbols →
      t.IsNormal ∧ ∃ plain : Sum ℚ, plain.symbols = symbols ∧ plain.value = t.total
  | .product p, t, symbols, evaluated, spelled => by
    obtain ⟨normal, plain, whole, value⟩ := exists_product p evaluated spelled
    exact ⟨normal, .product plain, whole, value⟩
  | .join left op additive right, t, symbols, evaluated, spelled => by
    obtain ⟨s, u, hs, hu, result⟩ := join_eq_ok evaluated
    obtain ⟨front, back, rfl, spelled_left, spelled⟩ := spelled.split
    obtain ⟨back, rfl, spelled_right⟩ := spelled.operator_cons
    obtain ⟨normal_left, plain_left, rfl, value_left⟩ := exists_sum left hs spelled_left
    obtain ⟨normal_right, plain_right, rfl, value_right⟩ := exists_product right hu spelled_right
    refine ⟨Term.calculate_isNormal normal_left normal_right result,
      .join plain_left op additive plain_right, rfl, ?_⟩
    rw [Sum.value, value_left, value_right, Term.total_calculate normal_left normal_right result]

theorem exists_product : ∀ (p : Grammar.Product ℚ) {t : Term ℚ} {symbols : List (Symbol ℚ)},
    p.evaluate = .ok t → SpellsAll p.tokens symbols →
      t.IsNormal ∧ ∃ plain : Product ℚ, plain.symbols = symbols ∧ plain.value = t.total
  | .factor f, t, symbols, evaluated, spelled => by
    obtain ⟨normal, plain, whole, value⟩ := exists_signed f evaluated spelled
    exact ⟨normal, .signed plain, whole, value⟩
  | .join left op multiplicative right, t, symbols, evaluated, spelled => by
    obtain ⟨s, u, hs, hu, result⟩ := join_eq_ok evaluated
    obtain ⟨front, back, rfl, spelled_left, spelled⟩ := spelled.split
    obtain ⟨back, rfl, spelled_right⟩ := spelled.operator_cons
    obtain ⟨normal_left, plain_left, rfl, value_left⟩ := exists_product left hs spelled_left
    obtain ⟨normal_right, plain_right, rfl, value_right⟩ := exists_signed right hu spelled_right
    refine ⟨Term.calculate_isNormal normal_left normal_right result,
      .join plain_left op multiplicative plain_right, rfl, ?_⟩
    rw [Product.value, value_left, value_right,
      Term.total_calculate normal_left normal_right result]

/-- The sign of a literal becomes a sign in the plain tree. -/
theorem exists_signed : ∀ (f : Grammar.Factor ℚ) {t : Term ℚ} {symbols : List (Symbol ℚ)},
    f.evaluate = .ok t → SpellsAll f.tokens symbols →
      t.IsNormal ∧ ∃ plain : Signed ℚ, plain.symbols = symbols ∧ plain.value = t.total
  | .quantity q, t, symbols, evaluated, spelled => by
    cases evaluated
    refine ⟨.quantity q.canonical, ?_⟩
    cases spelled with
    | cons first others =>
      cases others
      cases first with
      | number value unit => exact ⟨.number value, rfl, (value_of value unit).symm⟩
      | positive value unit => exact ⟨.positive (.number value), rfl, (value_of value unit).symm⟩
      | negative value unit => exact ⟨.negative (.number value), rfl, (value_of _ unit).symm⟩
  | .group e, t, symbols, evaluated, spelled => by
    cases spelled with
    | cons first others =>
      cases first
      obtain ⟨inner, back, rfl, spelled, closed⟩ := others.split
      obtain ⟨normal, plain, rfl, value⟩ := exists_sum e evaluated spelled
      refine ⟨normal, .group plain, ?_, value⟩
      cases closed with
      | cons bracket none =>
        cases bracket
        cases none
        rfl

end

/-- Whatever the units, signs, blanks and groups in the text, when the reduction of the text gives
a term, the plain evaluator gives the total of that term. -/
theorem evaluate_eq_total {units : AllowedUnits} {text : String} {tokens : List (Token ℚ)}
    {t : Term ℚ} (read : Token.ofText units text = .ok tokens)
    (parsed : Term.ofTokens tokens = .ok (some t)) : evaluate text = some t.total := by
  obtain ⟨e, rfl⟩ := Token.exists_sum_of_ofText read
  obtain ⟨⟨symbols, spelled, cut⟩, _⟩ := symbols?_lexed (Token.lexed_readRest read)
  obtain ⟨_, plain, rfl, value⟩ := exists_sum e (Term.evaluate_of_ofTokens parsed) spelled
  have cut : symbols? (withoutUnits text.toList) = some plain.symbols := cut
  rw [evaluate, cut, Option.bind_some, value?_symbols, value]

theorem evaluate_eq_total_signed :
    evaluate "2 * (5px - -3.5vh) / -4" = some (-17 / 4 : ℚ) := by
  have read : Token.ofText none "2 * (5px - -3.5vh) / -4" =
      (.ok [.quantity (.of 2 ""), .operator .times, .opening, .quantity (.of 5 "px"),
        .operator .minus, .quantity (.of (-7 / 2) "vh"), .closing, .operator .divide,
        .quantity (.of (-4) "")] : Except (LexError ℚ) _) := by
    decide +kernel
  have parsed : Term.ofTokens [.quantity (.of 2 ""), .operator .times, .opening,
        .quantity (.of 5 "px"), .operator .minus, .quantity (.of (-7 / 2) "vh"), .closing,
        .operator .divide, .quantity (.of (-4) "")] =
      .ok (some (.expression (.quantity (.of (-5 / 2) "px"))
        [(.minus, .quantity (.of (7 / 4 : ℚ) "vh"))])) := by
    decide +kernel
  have total : Term.total (.expression (.quantity (.of (-5 / 2) "px"))
      [(.minus, .quantity (.of (7 / 4 : ℚ) "vh"))]) = -17 / 4 := by
    decide +kernel
  rw [evaluate_eq_total read parsed, total]

end UnitArith.Plain
