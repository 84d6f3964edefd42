import UnitArith.Proofs.Except
import UnitArith.Proofs.Number.Double
import UnitArith.Proofs.Term.Normal
import UnitArith.Term.Parser

/-! What holds of quantities and stays true from operator to operator holds of every term that
is parsed, however deep the groups are nested. -/
namespace UnitArith.Term

variable {α : Type} [Number α]

/-- Every left operand that waits for its right one has the property. -/
def Pending.All (P : Term α → Prop) (pending : List (Pending α)) : Prop :=
  ∀ p ∈ pending, P p.left

/-- How parsing goes on after an operand, when it succeeds in the end. -/
theorem parseOperator_eq_ok {groups : List (List (Pending α))} {pending : List (Pending α)}
    {right t : Term α} {tokens : List (Token α)}
    (h : parseOperator groups pending right tokens = .ok t) :
    (tokens = [] ∧ groups = [] ∧ settleAll right pending = .ok t) ∨
    (∃ op rest left waiting, tokens = .operator op :: rest ∧
      settle op.precedence right pending = .ok (left, waiting) ∧
      parseOperand groups (⟨left, op⟩ :: waiting) rest = .ok t) ∨
    (∃ rest waiting outer result, tokens = .closing :: rest ∧ groups = waiting :: outer ∧
      settleAll right pending = .ok result ∧ parseOperator outer waiting result rest = .ok t) := by
  rw [parseOperator.eq_def] at h
  split at h
  · obtain ⟨result, settled, h⟩ := bind_eq_ok_iff.mp h
    cases groups with
    | nil =>
      cases h
      exact .inl ⟨rfl, rfl, settled⟩
    | cons => cases h
  · rename_i op rest
    split at h
    · cases h
    · rename_i left waiting settled
      exact .inr (.inl ⟨op, rest, left, waiting, rfl, settled, h⟩)
  · rename_i rest
    obtain ⟨result, settled, h⟩ := bind_eq_ok_iff.mp h
    cases groups with
    | nil => cases h
    | cons waiting outer =>
      exact .inr (.inr ⟨rest, waiting, outer, result, rfl, rfl, settled, h⟩)
  · obtain ⟨_, _, h⟩ := bind_eq_ok_iff.mp h
    cases h

section Invariant

variable {P : Term α → Prop}

theorem settle_invariant
    (closed : ∀ s op t r, P s → P t → s.calculate op t = .ok r → P r)
    {incoming : Precedence} {right t : Term α} {pending rest : List (Pending α)}
    (holds : P right) (waiting : Pending.All P pending)
    (h : settle incoming right pending = .ok (t, rest)) : P t ∧ Pending.All P rest := by
  induction pending generalizing right with
  | nil =>
    cases h
    exact ⟨holds, waiting⟩
  | cons p outer ih =>
    obtain ⟨left, waiting⟩ := List.forall_mem_cons.mp waiting
    rw [settle] at h
    split at h
    · obtain ⟨s, result, h⟩ := bind_eq_ok_iff.mp h
      exact ih (closed _ _ _ _ left holds result) waiting h
    · cases h
      exact ⟨holds, List.forall_mem_cons.mpr ⟨left, waiting⟩⟩

theorem settleAll_invariant
    (closed : ∀ s op t r, P s → P t → s.calculate op t = .ok r → P r)
    {right t : Term α} {pending : List (Pending α)} (holds : P right)
    (waiting : Pending.All P pending) (h : settleAll right pending = .ok t) : P t := by
  rw [settleAll] at h
  split at h
  · rename_i settled
    cases h
    exact (settle_invariant closed holds waiting settled).1
  · cases h

/-- The same for both places in an expression: where an operand is due, and after one. -/
theorem parse_invariant (closed : ∀ s op t r, P s → P t → s.calculate op t = .ok r → P r)
    {t : Term α} {tokens : List (Token α)}
    (quantities : ∀ q, .quantity q ∈ tokens → P (.quantity q)) :
    (∀ groups pending, (∀ group ∈ groups, Pending.All P group) → Pending.All P pending →
      parseOperand groups pending tokens = .ok t → P t) ∧
    (∀ groups pending right, (∀ group ∈ groups, Pending.All P group) → Pending.All P pending →
      P right → parseOperator groups pending right tokens = .ok t → P t) := by
  induction tokens with
  | nil =>
    constructor
    · intro groups pending outer waiting h
      cases h
    · intro groups pending right outer waiting holds h
      obtain ⟨_, _, settled⟩ | ⟨_, _, _, _, other, _⟩ | ⟨_, _, _, _, other, _⟩ :=
        parseOperator_eq_ok h
      · exact settleAll_invariant closed holds waiting settled
      · cases other
      · cases other
  | cons token tokens ih =>
    have ih := ih fun q hq => quantities q (List.mem_cons_of_mem token hq)
    constructor
    · intro groups pending outer waiting h
      cases token with
      | quantity q =>
        exact ih.2 groups pending _ outer waiting (quantities q (List.mem_cons_self ..)) h
      | opening =>
        exact ih.1 (pending :: groups) [] (List.forall_mem_cons.mpr ⟨waiting, outer⟩) nofun h
      | operator op => cases h
      | closing => cases h
    · intro groups pending right outer waiting holds h
      obtain ⟨other, _⟩ | ⟨op, rest, left, inner, same, settled, next⟩ |
        ⟨rest, inner, groups, result, same, rfl, settled, next⟩ := parseOperator_eq_ok h
      · cases other
      · cases same
        obtain ⟨left, inner⟩ := settle_invariant closed holds waiting settled
        exact ih.1 groups _ outer (List.forall_mem_cons.mpr ⟨left, inner⟩) next
      · cases same
        obtain ⟨inner, outer⟩ := List.forall_mem_cons.mp outer
        exact ih.2 groups _ result outer inner
          (settleAll_invariant closed holds waiting settled) next

/-- It is enough that the quantities of the expression have the property. -/
theorem ofTokens_preserves (closed : ∀ s op t r, P s → P t → s.calculate op t = .ok r → P r)
    {tokens : List (Token α)} {t : Term α}
    (quantities : ∀ q, .quantity q ∈ tokens → P (.quantity q))
    (h : ofTokens tokens = .ok (some t)) : P t :=
  (parse_invariant closed quantities).1 [] [] nofun nofun (parseOperand_of_ofTokens h)

theorem ofTokens_invariant (quantities : ∀ q, P (.quantity q))
    (closed : ∀ s op t r, P s → P t → s.calculate op t = .ok r → P r)
    {tokens : List (Token α)} {t : Term α} (h : ofTokens tokens = .ok (some t)) : P t :=
  ofTokens_preserves closed (fun q _ => quantities q) h

end Invariant

/-- Whatever the doubles are, infinities and NaN included, parsing ends in the normal form. -/
theorem ofTokens_isNormal {tokens : List (Token Float)} {t : Term Float}
    (h : ofTokens tokens = .ok (some t)) : t.IsNormal :=
  ofTokens_invariant (fun q => .quantity q.canonical)
    (fun _ _ _ _ left right result => calculate_isNormal left right result) h

theorem ofTokens_isNormal_infinite :
    ofTokens [.quantity (.of 2 ""), .operator .times, .opening, .quantity (.of 5 "px"),
        .operator .minus, .quantity (.of (1 / 0) "vh"), .closing] =
      .ok (some (.expression (.quantity (.of 10 "px"))
        [(.minus, .quantity (.of (1 / 0 : Float) "vh"))])) ∧
    IsNormal (.expression (.quantity (.of 10 "px"))
      [(.minus, .quantity (.of (1 / 0 : Float) "vh"))]) := by
  have parsed : ofTokens [.quantity (.of 2 ""), .operator .times, .opening, .quantity (.of 5 "px"),
        .operator .minus, .quantity (.of (1 / 0) "vh"), .closing] =
      .ok (some (.expression (.quantity (.of 10 "px"))
        [(.minus, .quantity (.of (1 / 0 : Float) "vh"))])) := by
    decide +kernel
  exact ⟨parsed, ofTokens_isNormal parsed⟩

end UnitArith.Term
