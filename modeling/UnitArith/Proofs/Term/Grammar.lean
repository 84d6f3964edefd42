import UnitArith.Term.Parser

/-! Parsing without a tree gives what the tree would give. Operators wait exactly as long as
their right operand in the tree is still being read. -/
namespace UnitArith

namespace Grammar

variable (α : Type) [Number α]

mutual

/-- Products joined by `+` and `-`, grouped to the left. -/
inductive Sum where
  | product (p : Product)
  | join (left : Sum) (op : Operator) (additive : op.isAdditive = true) (right : Product)

/-- Factors joined by `*` and `/`, grouped to the left. -/
inductive Product where
  | factor (f : Factor)
  | join (left : Product) (op : Operator) (multiplicative : op.isAdditive = false)
      (right : Factor)

inductive Factor where
  | quantity (q : Quantity α)
  | group (e : Sum)

end

variable {α}

mutual

def Sum.tokens : Sum α → List (Token α)
  | .product p => p.tokens
  | .join left op _ right => left.tokens ++ .operator op :: right.tokens

def Product.tokens : Product α → List (Token α)
  | .factor f => f.tokens
  | .join left op _ right => left.tokens ++ .operator op :: right.tokens

def Factor.tokens : Factor α → List (Token α)
  | .quantity q => [.quantity q]
  | .group e => .opening :: (e.tokens ++ [.closing])

end

mutual

/-- From the leaves up, the left operand before the right one. -/
def Sum.evaluate : Sum α → Except (AlgebraError α) (Term α)
  | .product p => p.evaluate
  | .join left op _ right => do
    let s ← left.evaluate
    let t ← right.evaluate
    s.calculate op t

def Product.evaluate : Product α → Except (AlgebraError α) (Term α)
  | .factor f => f.evaluate
  | .join left op _ right => do
    let s ← left.evaluate
    let t ← right.evaluate
    s.calculate op t

def Factor.evaluate : Factor α → Except (AlgebraError α) (Term α)
  | .quantity q => .ok (.quantity q)
  | .group e => e.evaluate

end

end Grammar

namespace Term

open Grammar

variable {α : Type} [Number α]

/-- Goes on with a term, unless the algebra has failed. -/
def andThen (x : Except (AlgebraError α) (Term α))
    (next : Term α → Except (ParseError α) (Term α)) : Except (ParseError α) (Term α) :=
  match x with
  | .ok t => next t
  | .error e => .error (.algebra e)

theorem andThen_assoc (x : Except (AlgebraError α) (Term α))
    (f : Term α → Except (AlgebraError α) (Term α))
    (next : Term α → Except (ParseError α) (Term α)) :
    andThen (x >>= f) next = andThen x fun t => andThen (f t) next := by
  cases x <;> rfl

/-- The operators that may come next bind less tightly than what is pending. -/
def Ends (op : Operator) (tokens : List (Token α)) : Prop :=
  ∀ next rest, tokens = .operator next :: rest → next.precedence < op.rightPrecedence

theorem ends_of_multiplicative {op : Operator} (multiplicative : op.isAdditive = false)
    (tokens : List (Token α)) : Ends op tokens := by
  intro next rest _
  simp only [Precedence.lt_iff, Operator.rightPrecedence, Operator.precedence, Precedence.next,
    multiplicative]
  split <;> decide

theorem settle_ended (incoming : Precedence) (p : Pending α) (right : Term α)
    (pending : List (Pending α)) (ended : incoming < p.op.rightPrecedence) :
    settle incoming right (p :: pending) =
      (do settle incoming (← p.left.calculate p.op right) pending) := by
  rw [settle, if_pos ended]

/-- An operator whose right operand is complete is applied before anything else happens. -/
theorem parseOperator_ended (groups : List (List (Pending α))) (pending : List (Pending α))
    (left right : Term α) {op : Operator} {rest : List (Token α)} (ended : Ends op rest) :
    parseOperator groups (⟨left, op⟩ :: pending) right rest =
      andThen (left.calculate op right) fun t => parseOperator groups pending t rest := by
  have lowest : Precedence.lowest < op.rightPrecedence := by
    cases op <;> decide
  have all : settleAll right (⟨left, op⟩ :: pending) =
      andThen (left.calculate op right) fun t => settleAll t pending := by
    rw [settleAll, settle_ended _ _ _ _ lowest]
    cases left.calculate op right <;> rfl
  cases rest with
  | nil =>
    rw [parseOperator.eq_def]
    simp only [all]
    cases left.calculate op right <;> rfl
  | cons token rest =>
    rw [parseOperator.eq_def]
    cases token with
    | operator next =>
      simp only [settle_ended _ ⟨left, op⟩ _ _ (ended next rest rfl)]
      cases left.calculate op right <;> rfl
    | quantity q =>
      simp only [all]
      cases left.calculate op right <;> rfl
    | opening =>
      simp only [all]
      cases left.calculate op right <;> rfl
    | closing =>
      simp only [all]
      cases left.calculate op right <;> rfl

/-- Sums that wait for a product take in all of it. -/
theorem settle_waits {pending : List (Pending α)}
    (additive : ∀ p ∈ pending, p.op.isAdditive = true) (right : Term α) {op : Operator}
    (multiplicative : op.isAdditive = false) :
    settle op.precedence right pending = .ok (right, pending) := by
  cases pending with
  | nil => rfl
  | cons p outer =>
    have waits : ¬ op.precedence < p.op.rightPrecedence := by
      simp [Operator.rightPrecedence, Operator.precedence, Precedence.next, multiplicative,
        additive p (List.mem_cons_self ..)]
    rw [settle, if_neg waits]

mutual

/-- A group starts anew, so what waits in front of it does not matter. -/
theorem parseOperand_factor (groups : List (List (Pending α))) (pending : List (Pending α)) :
    ∀ (f : Factor α) (rest : List (Token α)),
      parseOperand groups pending (f.tokens ++ rest) =
        andThen f.evaluate fun t => parseOperator groups pending t rest
  | .quantity q, rest => rfl
  | .group e, rest => by
    have closed : Ends .plus (.closing :: rest : List (Token α)) := by rintro _ _ ⟨⟩
    rw [Factor.tokens, Factor.evaluate, List.cons_append, List.append_assoc, parseOperand,
      List.singleton_append, parseOperand_sum (pending :: groups) e closed]
    rfl

theorem parseOperand_product (groups : List (List (Pending α))) {pending : List (Pending α)}
    (additive : ∀ p ∈ pending, p.op.isAdditive = true) :
    ∀ (p : Product α) (rest : List (Token α)),
      parseOperand groups pending (p.tokens ++ rest) =
        andThen p.evaluate fun t => parseOperator groups pending t rest
  | .factor f, rest => by
    rw [Product.tokens, Product.evaluate, parseOperand_factor groups pending f rest]
  | .join left op multiplicative right, rest => by
    rw [Product.tokens, Product.evaluate, List.append_assoc, List.cons_append,
      parseOperand_product groups additive left, andThen_assoc]
    congr 1
    funext s
    rw [parseOperator.eq_def]
    simp only [settle_waits additive s multiplicative]
    rw [parseOperand_factor groups (⟨s, op⟩ :: pending) right rest, andThen_assoc]
    congr 1
    funext t
    exact parseOperator_ended groups pending s t (ends_of_multiplicative multiplicative rest)

theorem parseOperand_sum (groups : List (List (Pending α))) :
    ∀ (e : Sum α) {rest : List (Token α)}, Ends .plus rest →
      parseOperand groups [] (e.tokens ++ rest) =
        andThen e.evaluate fun t => parseOperator groups [] t rest
  | .product p, rest, _ => by
    rw [Sum.tokens, Sum.evaluate, parseOperand_product groups (by simp) p rest]
  | .join left op additive right, rest, ends => by
    have next : Ends .plus (.operator op :: (right.tokens ++ rest)) := by
      rintro _ _ ⟨⟩
      cases op <;> first | decide | cases additive
    have ends : Ends op rest := by
      cases op with
      | plus => exact ends
      | minus => exact ends
      | _ => cases additive
    rw [Sum.tokens, Sum.evaluate, List.append_assoc, List.cons_append,
      parseOperand_sum groups left next, andThen_assoc]
    congr 1
    funext s
    have waiting : ∀ p ∈ [(⟨s, op⟩ : Pending α)], p.op.isAdditive = true := by simp [additive]
    rw [parseOperator.eq_def]
    simp only [settle]
    rw [parseOperand_product groups waiting right rest, andThen_assoc]
    congr 1
    funext t
    exact parseOperator_ended groups [] s t ends

end

theorem parseOperand_tokens (e : Sum α) :
    parseOperand [] [] e.tokens = andThen e.evaluate .ok := by
  have ends : Ends .plus ([] : List (Token α)) := by rintro _ _ ⟨⟩
  have whole := parseOperand_sum [] e ends
  rwa [List.append_nil] at whole

theorem evaluate_of_ofTokens {e : Sum α} {t : Term α} (h : ofTokens e.tokens = .ok (some t)) :
    e.evaluate = .ok t := by
  have parsed := parseOperand_of_ofTokens h
  rw [parseOperand_tokens] at parsed
  cases result : e.evaluate with
  | error error =>
    rw [result] at parsed
    cases parsed
  | ok s =>
    rw [result] at parsed
    cases parsed
    rfl

/-- The parser computes what the tree comes to, and fails where the tree does. -/
theorem ofTokens_tokens (e : Sum α) :
    ofTokens e.tokens =
      match e.evaluate with
      | .ok t => .ok (some t)
      | .error error => .error (.algebra error) := by
  have parsed := parseOperand_tokens e
  generalize e.tokens = tokens at parsed ⊢
  cases tokens with
  | nil =>
    rw [parseOperand] at parsed
    cases result : e.evaluate <;> simp [result, andThen] at parsed
  | cons token tokens =>
    rw [ofTokens, parsed]
    cases e.evaluate <;> rfl

end Term

end UnitArith
