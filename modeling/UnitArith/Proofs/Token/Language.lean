import UnitArith.Proofs.Term.Parser
import UnitArith.Proofs.Token.Derivation

/-! The language of expressions, said three times: as a flat grammar, as the check of neighbours
and depth, and as what parsing accepts. The depth that is checked is the number of groups that
parsing keeps open. -/
namespace UnitArith

namespace Token

variable {α : Type} [Number α]

mutual

/-- Operands with an operator between each two. -/
inductive IsExpression : List (Token α) → Prop
  | operand {tokens : List (Token α)} (first : IsOperand tokens) : IsExpression tokens
  | join {left right : List (Token α)} (before : IsExpression left) (op : Operator)
      (next : IsOperand right) : IsExpression (left ++ .operator op :: right)

inductive IsOperand : List (Token α) → Prop
  | quantity (q : Quantity α) : IsOperand [.quantity q]
  | group {tokens : List (Token α)} (inner : IsExpression tokens) :
      IsOperand (.opening :: (tokens ++ [.closing]))

end

/-- The number of open groups behind a token; a group that was not opened cannot be closed. -/
def nest (depth : Nat) : Token α → Option Nat
  | opening => some (depth + 1)
  | closing => if depth = 0 then none else some (depth - 1)
  | quantity _ | operator _ => some depth

/-- Neighbours may follow each other, from edge to edge. -/
def Adjacent (previous : Option (Token α)) (tokens : List (Token α)) : Prop :=
  (previous :: (tokens.map some ++ [none])).IsChain fun a b => checkStep a b = .ok ()

/-- What is checked of the tokens that are read: all neighbours, and that the number of open
groups, which never falls below zero, ends there. -/
structure Validated (tokens : List (Token α)) : Prop where
  adjacent : Adjacent none tokens
  nested : tokens.foldlM nest 0 = some 0

theorem advance_eq (p : Progress α) (token : Token α) :
    p.advance token = (do
      checkStep p.last (some token)
      match nest p.depth token with
      | none => .error .unbalanced
      | some depth => .ok ⟨token, depth⟩) := by
  rw [Progress.advance.eq_def]
  cases checkStep p.last (some token) with
  | error e => rfl
  | ok =>
    cases token with
    | closing => cases depth : p.depth <;> simp [nest, bind, Except.bind]
    | quantity | operator | opening => rfl

theorem adjacent_cons (previous : Option (Token α)) (token : Token α) (tokens : List (Token α)) :
    Adjacent previous (token :: tokens) ↔
      checkStep previous (some token) = .ok () ∧ Adjacent (some token) tokens :=
  List.isChain_cons_cons

/-- The check from some point on looks at neighbours and depth at once. -/
theorem checkFrom_eq_ok_iff (p : Progress α) (tokens : List (Token α)) :
    checkFrom p tokens = .ok () ↔ Adjacent p.last tokens ∧ tokens.foldlM nest p.depth = some 0 := by
  induction tokens generalizing p with
  | nil =>
    change p.finish = .ok () ↔ _
    rw [Progress.finish]
    cases step : checkStep p.last none with
    | error e => simp [Adjacent, step]
    | ok => simp [Adjacent, step]
  | cons token tokens ih =>
    rw [checkFrom_eq_ok_cons, adjacent_cons, List.foldlM_cons, advance_eq]
    cases step : checkStep p.last (some token) with
    | error e => simp [bind, Except.bind]
    | ok =>
      cases nested : nest p.depth token with
      | none => simp [bind, Except.bind]
      | some depth => simp [bind, Except.bind, ih]

theorem checkAll_eq_ok_iff (tokens : List (Token α)) :
    checkAll tokens = .ok () ↔ Validated tokens :=
  (checkFrom_eq_ok_iff .start tokens).trans ⟨fun ⟨adjacent, nested⟩ => ⟨adjacent, nested⟩,
    fun ⟨adjacent, nested⟩ => ⟨adjacent, nested⟩⟩

theorem IsExpression.append {left : List (Token α)} (before : IsExpression left) (op : Operator) :
    ∀ {right : List (Token α)}, IsExpression right → IsExpression (left ++ .operator op :: right)
  | _, .operand next => .join before op next
  | _, .join middle op' next => by
    have whole := (before.append op middle).join op' next
    rwa [List.append_assoc, List.cons_append] at whole

mutual

theorem isExpression_sum : ∀ e : Grammar.Sum α, IsExpression e.tokens
  | .product p => isExpression_product p
  | .join left op _ right => (isExpression_sum left).append op (isExpression_product right)

theorem isExpression_product : ∀ p : Grammar.Product α, IsExpression p.tokens
  | .factor f => .operand (isOperand_factor f)
  | .join left op _ right => (isExpression_product left).join op (isOperand_factor right)

theorem isOperand_factor : ∀ f : Grammar.Factor α, IsOperand f.tokens
  | .quantity q => .quantity q
  | .group e => .group (isExpression_sum e)

end

mutual

theorem IsExpression.reads : ∀ {tokens : List (Token α)}, IsExpression tokens → Reads tokens
  | _, .operand first => first.reads
  | _, .join before op next => before.reads.join op next.reads

theorem IsOperand.reads : ∀ {tokens : List (Token α)}, IsOperand tokens → Reads tokens
  | _, .quantity q => reads_factor (.quantity q)
  | _, .group inner => inner.reads.group

end

theorem validated_iff_isExpression (tokens : List (Token α)) :
    Validated tokens ↔ IsExpression tokens := by
  rw [← checkAll_eq_ok_iff]
  constructor
  · intro checked
    obtain ⟨e, rfl⟩ := exists_sum_of_checkAll checked
    exact isExpression_sum e
  · intro expression
    exact expression.reads.checkAll

end Token

namespace Term

open Token (Progress checkFrom kindBefore)

variable {α : Type} [Number α]

/-- What parses is checked: where an operand is due, and behind one. -/
theorem checkFrom_of_parse (tokens : List (Token α)) :
    (∀ (p : Progress α) groups pending t, (kindBefore p.last).isDue = true →
      p.depth = groups.length → parseOperand groups pending tokens = .ok t →
      checkFrom p tokens = .ok ()) ∧
    (∀ (p : Progress α) groups pending right t, p.IsAfter → p.depth = groups.length →
      parseOperator groups pending right tokens = .ok t → checkFrom p tokens = .ok ()) := by
  induction tokens with
  | nil =>
    constructor
    · intro p groups pending t _ _ parsed
      cases parsed
    · intro p groups pending right t after depth parsed
      obtain ⟨_, rfl, _⟩ | ⟨_, _, _, _, other, _⟩ | ⟨_, _, _, _, other, _⟩ :=
        parseOperator_eq_ok parsed
      · have step : Token.checkStep p.last none = .ok () :=
          Token.checkStep_of_mayPrecede (Token.mayPrecede_of_isAfter after (.inr (.inr rfl)))
        change p.finish = .ok ()
        rw [Progress.finish, step]
        exact if_pos depth
      · cases other
      · cases other
  | cons token tokens ih =>
    constructor
    · intro p groups pending t due depth parsed
      rw [Token.checkFrom_eq_ok_cons]
      cases token with
      | quantity q =>
        refine ⟨⟨_, _⟩, Token.advance_of ((Token.mayPrecede_of_due due).mpr (.inl rfl)) rfl, ?_⟩
        exact ih.2 _ groups pending _ t (.inl rfl) depth parsed
      | opening =>
        refine ⟨⟨_, _⟩, Token.advance_of ((Token.mayPrecede_of_due due).mpr (.inr rfl)) rfl, ?_⟩
        exact ih.1 _ (pending :: groups) [] t rfl (congrArg Nat.succ depth) parsed
      | operator op => cases parsed
      | closing => cases parsed
    · intro p groups pending right t after depth parsed
      rw [Token.checkFrom_eq_ok_cons]
      obtain ⟨other, _⟩ | ⟨op, rest, left, waiting, same, _, next⟩ |
        ⟨rest, waiting, outer, result, same, rfl, _, next⟩ := parseOperator_eq_ok parsed
      · cases other
      · cases same
        refine ⟨⟨_, _⟩, Token.advance_of (Token.mayPrecede_of_isAfter after (.inl rfl)) rfl, ?_⟩
        exact ih.1 _ groups _ t rfl depth next
      · cases same
        refine ⟨⟨_, _⟩, Token.advance_of (Token.mayPrecede_of_isAfter after (.inr (.inl rfl)))
          depth, ?_⟩
        exact ih.2 _ outer waiting result t (.inr rfl) rfl next

theorem validated_of_ofTokens {tokens : List (Token α)} {t : Term α}
    (h : ofTokens tokens = .ok (some t)) : Token.Validated tokens := by
  rw [← Token.checkAll_eq_ok_iff]
  exact (checkFrom_of_parse tokens).1 .start [] [] t rfl rfl (parseOperand_of_ofTokens h)

/-- What is validated parses, unless the algebra fails; nothing else parses. -/
theorem validated_iff_parses (tokens : List (Token α)) :
    (Token.checkAll tokens = .ok () ↔ Token.Validated tokens) ∧
      (Token.Validated tokens ↔ Token.IsExpression tokens) ∧
      (Token.Validated tokens →
        (∃ t, ofTokens tokens = .ok (some t)) ∨ ∃ e, ofTokens tokens = .error (.algebra e)) ∧
      (¬ Token.Validated tokens → ∀ t, ofTokens tokens ≠ .ok (some t)) := by
  refine ⟨Token.checkAll_eq_ok_iff tokens, Token.validated_iff_isExpression tokens, ?_, ?_⟩
  · intro validated
    have checked := (Token.checkAll_eq_ok_iff tokens).mpr validated
    obtain ⟨e, rfl⟩ := Token.exists_sum_of_checkAll checked
    rw [ofTokens_tokens]
    cases e.evaluate with
    | ok t => exact .inl ⟨t, rfl⟩
    | error e => exact .inr ⟨e, rfl⟩
  · intro invalid t parsed
    exact invalid (validated_of_ofTokens parsed)

theorem validated_iff_parses_group :
    let closed : List (Token Float) := [.opening, .quantity (.of 1 "px"), .operator .plus,
      .quantity (.of 2 "vh"), .closing, .operator .divide, .quantity (.of 3 "")]
    let unopened : List (Token Float) := [.quantity (.of 1 "px"), .operator .times, .opening,
      .quantity (.of 2 "px"), .closing, .closing]
    Token.Validated closed ∧
      ((∃ t, ofTokens closed = .ok (some t)) ∨ ∃ e, ofTokens closed = .error (.algebra e)) ∧
      ¬ Token.Validated unopened ∧ ∀ t, ofTokens unopened ≠ .ok (some t) := by
  intro closed unopened
  have valid : Token.Validated closed :=
    (Token.checkAll_eq_ok_iff closed).mp (by decide +kernel)
  have invalid : ¬ Token.Validated unopened := fun valid =>
    absurd ((Token.checkAll_eq_ok_iff unopened).mpr valid) (by decide +kernel)
  exact ⟨valid, (validated_iff_parses closed).2.2.1 valid, invalid,
    (validated_iff_parses unopened).2.2.2 invalid⟩

end Term

end UnitArith
