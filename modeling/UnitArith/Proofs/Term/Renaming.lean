import UnitArith.Proofs.Combination.Renaming
import UnitArith.Proofs.Term.Representation
import UnitArith.Proofs.Term.Run

/-! Parsing renamed tokens. Every operation on terms goes the same way under other names, so does
every step of the parser, and so does the run. -/
namespace UnitArith

variable {α : Type} [Number α]

/-- The failure on renamed tokens: it is of the same kind and shows them. -/
def ParseError.rename (f : Renaming) : ParseError α → ParseError α
  | unexpectedEnd => .unexpectedEnd
  | unexpectedToken token => .unexpectedToken (token.rename f)
  | algebra e => .algebra (e.rename f)

/-- What renamed tokens are parsed to. -/
def Renaming.parsed {β γ : Type} (f : Renaming) (rename : β → γ) (x : Except (ParseError α) β) :
    Except (ParseError α) γ :=
  (x.mapError (ParseError.rename f)).map rename

namespace Term

variable (f : Renaming)

@[simp] theorem rename_zero : (zero : Term α).rename f = zero :=
  congrArg quantity (Quantity.rename_zero f)

mutual

@[simp] theorem hasUnit_rename : ∀ t : Term α, (t.rename f).hasUnit = t.hasUnit
  | quantity q => Quantity.hasUnit_rename f q
  | expression head tail => by
    rw [rename, hasUnit, hasUnit, hasUnit_rename head, hasUnitTail_rename tail]

@[simp] theorem hasUnitTail_rename :
    ∀ tail : List (Operator × Term α), hasUnitTail (renameTail f tail) = hasUnitTail tail
  | [] => rfl
  | (op, t) :: rest => by
    rw [renameTail, hasUnitTail, hasUnitTail, hasUnit_rename t, hasUnitTail_rename rest]

end

theorem ofOperands_rename (operands : List (Operator × Term α)) :
    ofOperands (renameTail f operands) = (ofOperands operands).rename f :=
  match operands with
  | [] => (rename_zero f).symm
  | [_] => rfl
  | _ :: _ :: _ => rfl

/-! Products and differences. -/

mutual

theorem distribute_rename (factor : Quantity α) : ∀ t : Term α,
    distribute (factor.rename f) (t.rename f) =
      f.outcome (Combination.rename f) (distribute factor t)
  | quantity q => by
    rw [rename, distribute, distribute, Quantity.times_rename, Combination.ofQuantity_rename]
    rfl
  | expression head tail => by
    rw [rename, distribute, distribute, distribute_rename factor head]
    exact f.outcome_bind fun product => distributeTail_rename factor product tail

theorem distributeTail_rename (factor : Quantity α) (product : Combination α) :
    ∀ tail : List (Operator × Term α),
      distributeTail (factor.rename f) (product.rename f) (renameTail f tail) =
        f.outcome (Combination.rename f) (distributeTail factor product tail)
  | [] => rfl
  | (op, t) :: rest => by
    rw [renameTail, distributeTail, distributeTail, distribute_rename factor t]
    refine f.outcome_bind fun next => ?_
    rw [Combination.calculate_rename]
    exact f.outcome_bind fun product => distributeTail_rename factor product rest

end

theorem scale_rename (t : Term α) (factor : Quantity α) :
    (t.rename f).scale (factor.rename f) = f.outcome (Combination.rename f) (t.scale factor) := by
  rw [scale, scale, Quantity.hasUnit_rename, hasUnit_rename, distribute_rename]
  split <;> rfl

theorem negated_rename (t : Term α) :
    (t.rename f).negated = f.outcome (Combination.rename f) t.negated := by
  cases t with
  | quantity q =>
    rw [rename, negated, negated, Quantity.neg_rename, Combination.ofQuantity_rename]
    rfl
  | expression head tail =>
    -- The factor has no unit, so it is its own renaming.
    have product := scale_rename f (expression head tail) (.unitless (-1))
    rw [Quantity.rename_unitless] at product
    exact product

/-- A combination made into a term, after a run that may have failed. -/
theorem outcome_toTerm (x : Except (AlgebraError α) (Combination α)) :
    (do .ok (← f.outcome (Combination.rename f) x).toTerm) =
      f.outcome (rename f) (do .ok (← x).toTerm) :=
  f.outcome_bind fun a => congrArg Except.ok (Combination.toTerm_rename f a)

/-! A quantity added to an expression. -/

theorem absorbTail?_rename (q : Quantity α) : ∀ tail : List (Operator × Term α),
    absorbTail? (q.rename f) (renameTail f tail) = (absorbTail? q tail).map (renameTail f)
  | [] => rfl
  | (op, quantity a) :: rest => by
    rw [renameTail, rename, absorbTail?, absorbTail?, Quantity.sameUnit_rename]
    split
    · dsimp only [Option.map_some]
      rw [Quantity.after_rename, Quantity.plus_rename, Quantity.isZero_rename,
        signedOperand_rename]
      split <;> rfl
    · rw [absorbTail?_rename q rest, Option.map_map, Option.map_map]
      rfl
  | (op, expression head tail) :: rest => by
    rw [renameTail, rename, absorbTail?, absorbTail?, absorbTail?_rename q rest, Option.map_map,
      Option.map_map]
    rfl

theorem promote_rename : ∀ tail : List (Operator × Term α),
    promote (renameTail f tail) = f.outcome (rename f) (promote tail)
  | [] => congrArg Except.ok (rename_zero f).symm
  | (op, t) :: rest => by
    have kept := congrArg (Except.ok : _ → Except (AlgebraError α) _)
      (ofOperands_rename f ((.plus, t) :: rest))
    cases op with
    | minus =>
      rw [renameTail, promote, promote, negated_rename]
      refine f.outcome_bind fun head => ?_
      rw [Combination.toTerm_rename]
      exact congrArg Except.ok (ofOperands_rename f ((.plus, head.toTerm) :: rest))
    | plus | times | divide => exact kept

/-- The rest of an expression behind a head that stays. -/
theorem behind_rename (q : Quantity α) (head : Term α) (tail : List (Operator × Term α)) :
    ((absorbTail? (q.rename f) (renameTail f tail)).map fun rest =>
        ofOperands ((.plus, head.rename f) :: rest)) =
      ((absorbTail? q tail).map fun rest => ofOperands ((.plus, head) :: rest)).map (rename f) := by
  rw [absorbTail?_rename, Option.map_map, Option.map_map]
  exact congrArg (Option.map · (absorbTail? q tail))
    (funext fun rest => ofOperands_rename f ((.plus, head) :: rest))

theorem absorb?_rename (q : Quantity α) (head : Term α) (tail : List (Operator × Term α)) :
    absorb? (q.rename f) (head.rename f) (renameTail f tail) =
      f.outcome (Option.map (rename f)) (absorb? q head tail) := by
  cases head with
  | expression => exact congrArg Except.ok (behind_rename f q _ tail)
  | quantity a =>
    rw [rename, absorb?, absorb?, Quantity.sameUnit_rename]
    split
    · dsimp only
      rw [Quantity.plus_rename, Quantity.isZero_rename]
      split
      · rw [promote_rename]
        exact f.outcome_bind fun sum => rfl
      · exact congrArg (Except.ok ∘ some)
          (ofOperands_rename f ((.plus, quantity (a.plus q)) :: tail))
    · exact congrArg Except.ok (behind_rename f q (quantity a) tail)

theorem addQuantity_rename (t : Term α) (q : Quantity α) :
    (t.rename f).addQuantity (q.rename f) = f.outcome (rename f) (t.addQuantity q) := by
  cases t with
  | quantity a =>
    rw [rename, addQuantity, addQuantity, Combination.ofQuantity_rename,
      Combination.addQuantity_rename]
    exact outcome_toTerm f _
  | expression head tail =>
    rw [rename, addQuantity, addQuantity, Quantity.isZero_rename, absorb?_rename]
    split
    · rfl
    · refine f.outcome_bind fun found => ?_
      cases found with
      | some sum => rfl
      | none =>
        dsimp only [Option.map_none]
        rw [Quantity.hasUnit_rename, signedOperand_rename, renameTail_eq_map]
        split
        · rw [f.outcome_ok, rename, renameTail_eq_map, List.map_append]
          rfl
        · rw [← renameTail_eq_map]
          rfl

theorem addTo_rename (q : Quantity α) (head : Term α) (tail : List (Operator × Term α)) :
    addTo (q.rename f) (head.rename f) (renameTail f tail) =
      f.outcome (rename f) (addTo q head tail) := by
  rw [addTo.eq_def, addTo.eq_def, Quantity.isZero_rename, absorb?_rename]
  split
  · rfl
  · refine f.outcome_bind fun found => ?_
    cases found with
    | some sum => rfl
    | none =>
      dsimp only [Option.map_none]
      rw [Quantity.hasUnit_rename]
      split
      · cases head with
        | quantity a =>
          dsimp only [rename]
          rw [signedOperand_rename]
          rfl
        | expression => rfl
      · rfl

theorem addCombination_rename (t : Term α) (a : Combination α) :
    (t.rename f).addCombination (a.rename f) = f.outcome (rename f) (t.addCombination a) := by
  cases t with
  | quantity q =>
    rw [rename, addCombination, addCombination, Combination.ofQuantity_rename,
      Combination.add_rename]
    exact outcome_toTerm f _
  | expression head tail =>
    exact f.outcome_foldlM (addQuantity_rename f) a.terms (expression head tail)

/-! The four operators. -/

theorem sub_rename (s t : Term α) :
    (s.rename f).sub (t.rename f) = f.outcome (rename f) (s.sub t) := by
  rw [sub, sub, negated_rename]
  exact f.outcome_bind (addCombination_rename f s)

theorem mul_rename (s t : Term α) :
    (s.rename f).mul (t.rename f) = f.outcome (rename f) (s.mul t) := by
  cases t with
  | quantity factor =>
    rw [rename, mul, mul, scale_rename]
    exact outcome_toTerm f _
  | expression head tail =>
    cases s with
    | quantity factor =>
      have product := scale_rename f (expression head tail) factor
      rw [rename, rename, mul, mul, ← rename, product]
      exact outcome_toTerm f _
    | expression => rfl

theorem div_rename (s t : Term α) :
    (s.rename f).div (t.rename f) = f.outcome (rename f) (s.div t) := by
  cases t with
  | expression => rfl
  | quantity divisor =>
    rw [rename, div.eq_def, div.eq_def]
    dsimp only
    rw [Quantity.hasUnit_rename, Quantity.isZero_rename]
    cases divisor.hasUnit with
    | true => rfl
    | false =>
      cases divisor.isZero with
      | true => rfl
      | false =>
        cases s with
        | quantity q =>
          exact congrArg (Except.ok ∘ quantity) (Quantity.dividedBy_rename f q divisor)
        | expression head tail =>
          have product := scale_rename f (expression head tail) divisor.reciprocal
          dsimp only [rename]
          rw [Quantity.reciprocal_rename, ← rename, product]
          exact outcome_toTerm f _

mutual

theorem add_rename (s : Term α) : ∀ t : Term α,
    (s.rename f).add (t.rename f) = f.outcome (rename f) (s.add t)
  | quantity q => by
    rw [rename, add, add]
    exact addQuantity_rename f s q
  | expression head tail => by
    cases s with
    | quantity q =>
      rw [rename, rename, add, add]
      exact addTo_rename f q head tail
    | expression first others =>
      have sum := add_rename (expression first others) head
      rw [rename] at sum ⊢
      rw [rename, add, add, sum]
      exact f.outcome_bind fun sum => addTail_rename sum tail

theorem addTail_rename (s : Term α) : ∀ tail : List (Operator × Term α),
    addTail (s.rename f) (renameTail f tail) = f.outcome (rename f) (addTail s tail)
  | [] => by
    rw [renameTail, addTail, addTail, f.outcome_ok]
  | (op, t) :: rest => by
    have sum : (s.rename f).calculate op (t.rename f) = f.outcome (rename f) (s.calculate op t) :=
      match op with
      | .plus => add_rename s t
      | .minus => sub_rename f s t
      | .times => mul_rename f s t
      | .divide => div_rename f s t
    rw [renameTail, addTail_cons, addTail_cons, sum]
    exact f.outcome_bind fun sum => addTail_rename sum rest

end

theorem calculate_rename (s t : Term α) (op : Operator) :
    (s.rename f).calculate op (t.rename f) = f.outcome (rename f) (s.calculate op t) := by
  cases op with
  | plus => exact add_rename f s t
  | minus => exact sub_rename f s t
  | times => exact mul_rename f s t
  | divide => exact div_rename f s t

/-! The parser. -/

def Pending.rename (p : Pending α) : Pending α := ⟨p.left.rename f, p.op⟩

theorem Pending.left_rename (p : Pending α) : (p.rename f).left = p.left.rename f := rfl
theorem Pending.op_rename (p : Pending α) : (p.rename f).op = p.op := rfl

namespace Stage

def rename : Stage α → Stage α
  | operand groups pending tokens =>
    operand (groups.map (·.map (Pending.rename f))) (pending.map (Pending.rename f))
      (tokens.map (Token.rename f))
  | operator groups pending right tokens =>
    operator (groups.map (·.map (Pending.rename f))) (pending.map (Pending.rename f))
      (right.rename f) (tokens.map (Token.rename f))
  | finished result => finished (f.parsed (Term.rename f) result)

theorem incoming_rename (tokens : List (Token α)) :
    incoming (tokens.map (Token.rename f)) = incoming tokens := by
  cases tokens with
  | nil => rfl
  | cons token rest => cases token <;> rfl

theorem shift_rename (groups : List (List (Pending α))) (pending : List (Pending α))
    (right : Term α) (tokens : List (Token α)) :
    shift (groups.map (·.map (Pending.rename f))) (pending.map (Pending.rename f))
        (right.rename f) (tokens.map (Token.rename f)) =
      (shift groups pending right tokens).rename f := by
  cases tokens with
  | nil => cases groups <;> rfl
  | cons token rest =>
    cases token with
    | closing => cases groups <;> rfl
    | quantity | operator | opening => rfl

/-- One step on renamed operands is the renamed step. -/
theorem step_rename (s : Stage α) : (s.rename f).step = s.step.rename f := by
  cases s with
  | finished result => rfl
  | operand groups pending tokens =>
    cases tokens with
    | nil => rfl
    | cons token rest => cases token <;> rfl
  | operator groups pending right tokens =>
    cases pending with
    | nil => exact shift_rename f groups [] right tokens
    | cons p pending =>
      have applied := calculate_rename f p.left right p.op
      rw [rename, List.map_cons, step, step, incoming_rename, Pending.op_rename,
        Pending.left_rename]
      by_cases ready : incoming tokens < p.op.rightPrecedence
      · rw [if_pos ready, if_pos ready, applied]
        cases p.left.calculate p.op right <;> rfl
      · rw [if_neg ready, if_neg ready]
        exact shift_rename f groups (p :: pending) right tokens

theorem iterate_step_rename (s : Stage α) (n : Nat) :
    step^[n] (s.rename f) = (step^[n] s).rename f := by
  induction n with
  | zero => rfl
  | succ n ih => rw [Function.iterate_succ_apply', ih, step_rename, Function.iterate_succ_apply']

theorem start_rename (tokens : List (Token α)) :
    start (tokens.map (Token.rename f)) = (start tokens).rename f := rfl

end Stage

theorem parseOperand_rename (tokens : List (Token α)) :
    parseOperand [] [] (tokens.map (Token.rename f)) =
      f.parsed (rename f) (parseOperand [] [] tokens) := by
  have renamed := Stage.iterate_step_rename f (.start tokens) (2 * tokens.length + 1)
  have ends := Stage.iterate_step_start (tokens.map (Token.rename f))
  rw [List.length_map, Stage.start_rename, renamed, Stage.iterate_step_start] at ends
  exact (Stage.finished.inj ends).symm

/-- Parsing renamed tokens is, after each step, the renamed parse, up to the last step, after which
the result or the failure is there. -/
theorem ofTokens_rename (tokens : List (Token α)) :
    (∀ n, Stage.step^[n] (.start (tokens.map (Token.rename f))) =
      (Stage.step^[n] (.start tokens)).rename f) ∧
    Stage.step^[2 * tokens.length + 1] (.start tokens) =
      .finished (parseOperand [] [] tokens) ∧
    ofTokens (tokens.map (Token.rename f)) =
      f.parsed (Option.map (rename f)) (ofTokens tokens) := by
  refine ⟨Stage.iterate_step_rename f (.start tokens), Stage.iterate_step_start tokens, ?_⟩
  cases tokens with
  | nil => rfl
  | cons token rest =>
    have renamed := parseOperand_rename f (token :: rest)
    rw [List.map_cons] at renamed ⊢
    rw [ofTokens, ofTokens, renamed]
    cases parseOperand [] [] (token :: rest) <;> rfl

end Term

end UnitArith
