import UnitArith.Proofs.Term.Counted
import UnitArith.Proofs.Term.Embedding
import UnitArith.Proofs.Term.Size

/-! How many calls each function takes, given how many those take that it calls. What comes of them
is the arithmetic of terms: it looks a quantity up where the other one absorbs it. -/
namespace UnitArith

namespace Term

variable {α : Type} [Number α]

theorem absorbTail?_of_find?_eq_none {q : Quantity α} {tail : List (Operator × Term α)}
    {index : Nat} (h : find?.go q.unit index tail = none) : absorbTail? q tail = none := by
  induction tail generalizing index with
  | nil => rfl
  | cons operand tail ih =>
    obtain ⟨op, a | ⟨head, inner⟩⟩ := operand
    · rw [find?.go] at h
      split at h
      · cases h
      · rename_i apart
        rw [absorbTail?, if_neg ((Quantity.sameUnit_iff a q).not.mpr apart), ih h]
        rfl
    · rw [absorbTail?, ih h]
      rfl

theorem absorbTail?_of_find?_eq_some {q found : Quantity α} {op : Operator}
    {tail : List (Operator × Term α)} {index place : Nat}
    (h : find?.go q.unit index tail = some (place, op, found)) :
    ∃ before after, tail = before ++ (op, quantity found) :: after ∧
      place = before.length + index ∧ absorbTail? q tail =
        some (before ++ if ((found.after op).plus q).isZero then after
          else signedOperand ((found.after op).plus q) :: after) := by
  induction tail generalizing index with
  | nil => cases h
  | cons operand tail ih =>
    have later (h : find?.go q.unit (index + 1) tail = some (place, op, found))
        (next : absorbTail? q (operand :: tail) = (absorbTail? q tail).map (operand :: ·)) :
        ∃ before after, operand :: tail = before ++ (op, quantity found) :: after ∧
          place = before.length + index ∧ absorbTail? q (operand :: tail) =
            some (before ++ if ((found.after op).plus q).isZero then after
              else signedOperand ((found.after op).plus q) :: after) := by
      obtain ⟨before, after, rfl, rfl, absorbed⟩ := ih h
      refine ⟨operand :: before, after, rfl, ?_, ?_⟩
      · rw [List.length_cons]
        omega
      · rw [next, absorbed]
        rfl
    obtain ⟨op', a | ⟨head, inner⟩⟩ := operand
    · rw [find?.go] at h
      split at h
      · rename_i same
        cases h
        refine ⟨[], tail, rfl, (Nat.zero_add _).symm, ?_⟩
        rw [absorbTail?, if_pos ((Quantity.sameUnit_iff _ q).mpr same)]
        rfl
      · rename_i apart
        refine later h ?_
        rw [absorbTail?, if_neg ((Quantity.sameUnit_iff a q).not.mpr apart)]
    · exact later h rfl

/-- A quantity is found at the head, or it is looked for in the tail. -/
theorem find?_expression_cases (q : Quantity α) (head : Term α) (tail : List (Operator × Term α)) :
    (∃ a, head = quantity a ∧ a.sameUnit q = true ∧
      (expression head tail).find? q.unit = some (0, .plus, a)) ∨
    (expression head tail).find? q.unit = find?.go q.unit 1 tail ∧ absorb? q head tail =
      .ok ((absorbTail? q tail).map fun rest => ofOperands ((.plus, head) :: rest)) := by
  cases head with
  | quantity a =>
    rw [find?, operands, find?.go, absorb?]
    cases same : a.sameUnit q with
    | true => exact .inl ⟨a, rfl, same, if_pos ((Quantity.sameUnit_iff a q).mp same)⟩
    | false => exact .inr ⟨if_neg ((Quantity.sameUnit_iff a q).not.mp (by simp [same])), rfl⟩
  | expression => exact .inr ⟨rfl, rfl⟩

theorem addQuantity_quantity (p q : Quantity α) : (quantity p).addQuantity q =
    if q.isZero then .ok (quantity p)
    else if p.isZero then .ok (quantity q)
    else if p.hasUnit != q.hasUnit then .error (.unitMismatch (quantity p) (quantity q))
    else if p.sameUnit q then .ok (quantity (p.plus q))
    else .ok (expression (quantity p) [signedOperand q]) := by
  rw [addQuantity, Combination.addQuantity]
  cases hq : q.isZero with
  | true => exact congrArg Except.ok (toTerm_ofQuantity p)
  | false =>
    cases hp : p.isZero with
    | true =>
      rw [Combination.ofQuantity_of_isZero hp]
      rfl
    | false =>
      rw [Combination.ofQuantity_of_nonzero hp]
      dsimp only
      rw [Combination.absorb?]
      cases same : p.sameUnit q with
      | true =>
        have units := Quantity.hasUnit_of_unit_eq ((Quantity.sameUnit_iff p q).mp same)
        have sum := toTerm_ofQuantity (p.plus q)
        simp only [units, bne_self_eq_false]
        rw [← sum, Combination.ofQuantity]
        cases (p.plus q).isZero with
        | true | false => rfl
      | false =>
        have alone : (⟨[p]⟩ : Combination α).hasUnit = p.hasUnit := Bool.or_false _
        simp only [alone]
        cases p.hasUnit <;> cases q.hasUnit <;> rfl

theorem negated_quantity (q : Quantity α) :
    (do .ok (← (quantity q).negated).toTerm) = Except.ok (quantity q.neg) :=
  congrArg Except.ok (toTerm_ofQuantity q.neg)

theorem scale_toTerm (t : Term α) (factor : Quantity α) :
    (do .ok (← t.scale factor).toTerm) =
      if factor.hasUnit && t.hasUnit then .error .productOfUnits
      else (do .ok (← distribute factor t).toTerm) := by
  rw [scale]
  split
  · rfl
  · rfl

end Term

namespace Counted

open Term (absorb? absorbTail? promote find? ofOperands signedOperand)

variable {α : Type} [Number α] {cost : Nat}

/-- The operand behind the head is turned around within `cost` calls, if it has to be. -/
def Turns (cost : Nat) (s : Term α) : Prop :=
  ∀ head t rest, s = .expression head ((.minus, t) :: rest) →
    Runs (fun depth => negate depth t) cost (do .ok (← t.negated).toTerm)

theorem promote_runs {head t : Term α} {op : Operator} {rest : List (Operator × Term α)}
    (turns : Turns cost (.expression head ((op, t) :: rest))) :
    Runs (fun depth => do
      let first ← if op = .minus then negate depth t else pure t
      pure (ofOperands ((.plus, first) :: rest))) cost (promote ((op, t) :: rest)) := by
  cases op with
  | minus =>
    have turned := (turns head t rest rfl).bind fun first _ =>
      show Runs _ 0 _ from .pure (ofOperands ((.plus, first) :: rest))
    rw [bind_assoc] at turned
    exact turned
  | plus | times | divide => exact .pure _

/-- What is found in the expression is what the quantity is absorbed by. -/
theorem addToExpression_runs {head : Term α} {tail : List (Operator × Term α)}
    (turns : Turns cost (.expression head tail)) (q : Quantity α) (side : Side) :
    Runs (fun depth => addToExpression depth head tail q side) (cost + 1) (do
      match ← absorb? q head tail with
      | some sum => .ok sum
      | none =>
        if q.hasUnit then .ok (insert head tail q side)
        else .error (mismatch (.expression head tail) q side)) := by
  have settled {t : Term α} (step : ∀ depth,
      addToExpression (depth + 1) head tail q side = call >>= fun _ => pure t) :
      Runs (fun depth => addToExpression depth head tail q side) (cost + 1) (.ok t) :=
    (Runs.pure t).call step
  -- Only where the head cancels out is another function called.
  rcases Term.find?_expression_cases q head tail with ⟨a, rfl, same, found⟩ | ⟨found, absorbed⟩
  · rw [absorb?, if_pos same]
    dsimp only
    cases zero : (a.plus q).isZero with
    | false =>
      refine settled fun depth => ?_
      rw [addToExpression, found]
      simp only [Quantity.after_plus, zero]
      rfl
    | true =>
      cases tail with
      | nil =>
        refine settled fun depth => ?_
        rw [addToExpression, found]
        simp only [Quantity.after_plus, zero]
        rfl
      | cons operand rest =>
        have promoted : Runs
            (fun depth => addToExpression depth (.quantity a) (operand :: rest) q side) (cost + 1)
            (promote (operand :: rest)) := by
          refine (promote_runs turns).call fun depth => ?_
          rw [addToExpression, found]
          simp only [Quantity.after_plus, zero]
          rfl
        generalize promote (operand :: rest) = head at promoted ⊢
        cases head with
        | ok | error => exact promoted
  · rw [absorbed]
    cases place : find?.go q.unit 1 tail with
    | none =>
      rw [Term.absorbTail?_of_find?_eq_none place]
      refine (Runs.ite (.pure _) (.throw _)).call fun depth => ?_
      rw [addToExpression, found, place]
    | some spot =>
      obtain ⟨index, op, a⟩ := spot
      obtain ⟨before, after, rfl, rfl, sum⟩ := Term.absorbTail?_of_find?_eq_some place
      rw [sum]
      refine settled fun depth => ?_
      rw [addToExpression, found, place]
      cases zero : ((a.after op).plus q).isZero with
      | true => simp [zero, List.eraseIdx_append_of_length_le]
      | false => simp [zero, List.insertIdx_eraseIdx_self]

theorem insert_left (head : Term α) (tail : List (Operator × Term α)) (q : Quantity α) :
    insert head tail q .left = .expression head (tail ++ [signedOperand q]) := by
  cases tail with
  | nil | cons => rfl

theorem addQuantities_runs (p q : Quantity α) :
    Runs (fun _ => addQuantities p q) cost ((Term.quantity p).addQuantity q) := by
  rw [Term.addQuantity_quantity]
  exact .ite (.pure _) (.ite (.pure _) (.ite (.throw _) (.ite (.pure _) (.pure _))))

theorem add_quantity_runs {s : Term α} (turns : Turns cost s) (q : Quantity α) :
    Runs (fun depth => add depth s (.quantity q)) (cost + 2) (s.addQuantity q) := by
  cases s with
  | quantity p => exact (addQuantities_runs p q).call fun _ => rfl
  | expression head tail =>
    have sum := addToExpression_runs turns q .left
    rw [insert_left] at sum
    exact (Runs.ite (.pure _) sum).call fun _ => rfl

theorem addTo_runs {head : Term α} {tail : List (Operator × Term α)}
    (turns : Turns cost (.expression head tail)) (q : Quantity α) :
    Runs (fun depth => add depth (.quantity q) (.expression head tail)) (cost + 2)
      (Term.addTo q head tail) := by
  rw [Term.addTo.eq_def]
  exact (Runs.ite (.pure _) (addToExpression_runs turns q .right)).call fun _ => rfl

theorem calculate_quantity_runs {s : Term α} (turns : Turns cost s) {op : Operator}
    (additive : op.isAdditive = true) (q : Quantity α) :
    Runs (fun depth => calculate depth s op (.quantity q)) (cost + 4)
      (s.addQuantity (q.after op)) := by
  cases op with
  | plus => exact ((add_quantity_runs turns q).call fun _ => rfl).mono (by omega)
  | minus =>
    have sum : Runs (fun depth => subtract depth s (.quantity q)) (cost + 3)
        (s.addQuantity q.neg) :=
      (add_quantity_runs turns q.neg).call fun _ => rfl
    exact sum.call fun _ => rfl
  | times => cases additive
  | divide => cases additive

theorem negate_quantity_runs (q : Quantity α) : Runs (fun depth => negate depth (.quantity q))
    (cost + 1) (do .ok (← (Term.quantity q).negated).toTerm) := by
  rw [Term.negated_quantity]
  exact (Runs.pure _).call fun _ => rfl

/-- The operands of a written combination are quantities. -/
theorem turns_toTerm (a : Combination α) : Turns 1 a.toTerm := by
  intro head t rest shape
  obtain ⟨_ | ⟨first, _ | ⟨second, others⟩⟩⟩ := a
  · cases shape
  · cases shape
  · obtain ⟨_, tail⟩ := Term.expression.inj shape
    obtain ⟨operand, _⟩ := List.cons.inj tail
    obtain ⟨_, rfl⟩ := Prod.mk.inj operand
    exact negate_quantity_runs _

/-- A factor is multiplied into the term within `cost` calls, whichever side the factor is on. -/
structure Scales (cost : Nat) (t : Term α) : Prop where
  pos : 0 < cost
  right (factor : Quantity α) : Runs (fun depth => multiply depth t (.quantity factor)) cost
    (do .ok (← t.scale factor).toTerm)
  left (factor : Quantity α) (sum : t.isQuantity = false) :
    Runs (fun depth => multiply depth (.quantity factor) t) cost
      (do .ok (← t.scale factor).toTerm)

theorem Scales.mono {t : Term α} {more : Nat} (h : Scales cost t) (enough : cost ≤ more) :
    Scales more t where
  pos := Nat.lt_of_lt_of_le h.pos enough
  right factor := (h.right factor).mono enough
  left factor sum := (h.left factor sum).mono enough

theorem scales_quantity (q : Quantity α) : Scales 1 (.quantity q) where
  pos := Nat.one_pos
  right factor := by
    have product : (do .ok (← Term.distribute factor (.quantity q)).toTerm) =
        Except.ok (.quantity (q.times factor)) :=
      congrArg Except.ok (Term.toTerm_ofQuantity _)
    rw [Term.scale_toTerm, Term.hasUnit, Bool.and_comm, product]
    exact (Runs.ite (.throw _) (.pure _)).call fun _ => rfl
  left _ sum := nomatch sum

theorem scales_expression {head : Term α} {tail : List (Operator × Term α)}
    (products : ∀ factor : Quantity α,
      (factor.hasUnit && (Term.expression head tail).hasUnit) = false →
      Runs (fun depth => distribute depth head tail factor) cost
        (do .ok (← Term.distribute factor (.expression head tail)).toTerm)) :
    Scales (cost + 1) (.expression head tail) := by
  -- The two factors are told apart by their kinds alone, so both sides run the same steps.
  have either {f : Nat → Counted α (Term α)} (factor : Quantity α) (step : ∀ depth,
      f (depth + 1) = (do
        call
        if factor.hasUnit && (Term.expression head tail).hasUnit then throw .productOfUnits
        else distribute depth head tail factor)) :
      Runs f (cost + 1) (do .ok (← (Term.expression head tail).scale factor).toTerm) := by
    rw [Term.scale_toTerm]
    cases units : factor.hasUnit && (Term.expression head tail).hasUnit with
    | true =>
      refine (Runs.throw .productOfUnits).call fun depth => ?_
      rw [step, units]
      rfl
    | false =>
      refine (products factor units).call fun depth => ?_
      rw [step, units]
      rfl
  exact ⟨Nat.succ_pos cost, fun factor => either factor fun _ => rfl,
    fun factor _ => either factor fun _ => rfl⟩

theorem multiply_runs {s t : Term α} (left : Scales cost s) (right : Scales cost t) :
    Runs (fun depth => multiply depth s t) cost (s.mul t) := by
  cases t with
  | quantity factor =>
    rw [Term.mul]
    exact left.right factor
  | expression head tail =>
    cases s with
    | quantity factor => exact right.left factor rfl
    | expression =>
      have failed (e : AlgebraError α) : Runs (β := Term α) _ 0 _ := .throw e
      exact ((failed _).call fun _ => rfl).mono right.pos

theorem divide_runs {s : Term α} (scales : Scales cost s) (t : Term α) :
    Runs (fun depth => divide depth s t) (cost + 1) (s.div t) := by
  cases t with
  | expression => exact (Runs.throw .divisionBySum).call fun _ => rfl
  | quantity divisor =>
    cases s with
    | quantity q =>
      exact (Runs.ite (.throw _) (.ite (.throw _) (.pure _))).call fun _ => rfl
    | expression =>
      have product := scales.right divisor.reciprocal
      exact (Runs.ite (.throw _) (.ite (.throw _) product)).call fun _ => rfl

theorem negate_runs {t : Term α} (scales : Scales cost t) :
    Runs (fun depth => negate depth t) (cost + 2) (do .ok (← t.negated).toTerm) := by
  cases t with
  | quantity q => exact negate_quantity_runs q
  | expression head tail =>
    have product : Runs (fun depth => calculate depth (.expression head tail) .times
        (.quantity (.unitless (-1)))) (cost + 1) _ :=
      (scales.right (.unitless (-1))).call fun _ => rfl
    exact product.call fun _ => rfl

/-- Each of these quantities is added within the same number of calls, one after the other. -/
def TurnsAlong (cost : Nat) (s : Term α) (terms : List (Quantity α)) : Prop :=
  ∀ before r, before <+: terms → before.foldlM Term.addQuantity s = .ok r → Turns cost r

theorem TurnsAlong.start {s : Term α} {terms : List (Quantity α)} (h : TurnsAlong cost s terms) :
    Turns cost s :=
  h [] s List.nil_prefix rfl

theorem TurnsAlong.next {s r : Term α} {q : Quantity α} {terms : List (Quantity α)}
    (h : TurnsAlong cost s (q :: terms)) (sum : s.addQuantity q = .ok r) :
    TurnsAlong cost r terms :=
  fun before r' early folded => h (q :: before) r' (List.cons_prefix_cons.mpr ⟨rfl, early⟩)
    (foldlM_cons_eq_ok_iff.mpr ⟨r, sum, folded⟩)

section Lawful

variable [LawfulNumber α]

theorem foldlM_summands_runs {s : Term α} {terms : List (Quantity α)}
    (turns : TurnsAlong cost s terms) :
    Runs (fun depth => (terms.map signedOperand).foldlM
        (fun sum operand => calculate depth sum operand.1 operand.2) s)
      (terms.length * (cost + 4)) (terms.foldlM Term.addQuantity s) := by
  induction terms generalizing s with
  | nil => exact .pure s
  | cons q terms ih =>
    have first := calculate_quantity_runs turns.start (Quantity.isAdditive_signed q) q.signed.2
    rw [Quantity.after_signed] at first
    have whole := first.bind fun r sum => ih (turns.next sum)
    rw [List.foldlM_cons, List.length_cons, Nat.succ_mul, Nat.add_comm]
    exact whole

theorem addCombination_runs {s : Term α} {b : Combination α} (normal : b.IsNormal)
    (pos : 0 < cost) (turns : TurnsAlong cost s b.terms) :
    Runs (fun depth => add depth s b.toTerm) ((b.terms.length + 1) * (cost + 4))
      (s.addCombination b) := by
  have room : cost + 4 ≤ (b.terms.length + 1) * (cost + 4) := Nat.le_mul_of_pos_left _ (by omega)
  have start := turns.start
  cases single : b.quantity? with
  | some q =>
    refine Runs.mono ?_ (room.trans' (Nat.add_le_add_left (by decide : 2 ≤ 4) cost))
    rw [Term.toTerm_of_quantity? single, normal.eq_ofQuantity single,
      Term.addCombination_ofQuantity]
    exact add_quantity_runs start q
  | none =>
    obtain ⟨head, second, rest, rfl⟩ := Combination.exists_several single
    cases s with
    | quantity q =>
      have sum := addTo_runs (turns_toTerm ⟨head :: second :: rest⟩) q
      rw [← Term.add_toTerm (.quantity q) normal, Combination.toTerm, Term.add]
      exact sum.mono (by omega)
    | expression inner tail =>
      have additive : Operator.plus.isAdditive = true := rfl
      have first := calculate_quantity_runs start additive head
      have whole := first.bind fun r sum => foldlM_summands_runs (turns.next sum)
      refine (whole.call fun _ => rfl).mono ?_
      simp only [List.length_cons, Nat.succ_mul]
      omega

/-- A term is turned around and added. -/
theorem subtract_runs {s t : Term α} {scaling terms : Nat} (pos : 0 < cost)
    (scales : Scales scaling t) (turns : ∀ a, t.negated = .ok a →
      a.terms.length ≤ terms ∧ TurnsAlong cost s a.terms) :
    Runs (fun depth => subtract depth s t) (scaling + (terms + 1) * (cost + 4) + 1) (s.sub t) := by
  have added (a : Combination α) (negated : t.negated = .ok a) :
      Runs (fun depth => add depth s a.toTerm) ((terms + 1) * (cost + 4)) (s.addCombination a) := by
    obtain ⟨short, turns⟩ := turns a negated
    exact (addCombination_runs (Term.negated_isNormal negated) pos turns).mono
      (Nat.mul_le_mul_right _ (Nat.succ_le_succ short))
  have difference {f : Nat → Counted α (Term α)}
      (turned : Runs f scaling (do .ok (← t.negated).toTerm)) :
      Runs (fun depth => f depth >>= add depth s) (scaling + (terms + 1) * (cost + 4))
        (s.sub t) :=
    turned.bind_map added
  cases t with
  | quantity q =>
    have turned : Runs (fun _ => pure (.quantity q.neg)) scaling
        (do .ok (← (Term.quantity q).negated).toTerm) := by
      rw [Term.negated_quantity]
      exact .pure _
    exact (difference turned).call fun _ => rfl
  | expression => exact (difference (scales.right (.unitless (-1)))).call fun _ => rfl

/-- Only a sum calls itself on its operands. -/
theorem calculate_runs_of_plus {s t : Term α} {scaling terms total : Nat} (pos : 0 < cost)
    (left : Scales scaling s) (right : Scales scaling t) (turns : ∀ a, t.negated = .ok a →
      a.terms.length ≤ terms ∧ TurnsAlong cost s a.terms)
    (room : scaling + (terms + 1) * (cost + 4) + 2 ≤ total)
    (sum : Runs (fun depth => calculate depth s .plus t) total (s.add t)) (op : Operator) :
    Runs (fun depth => calculate depth s op t) total (s.calculate op t) := by
  cases op with
  | plus => exact sum
  | minus => exact ((subtract_runs pos right turns).call fun _ => rfl).mono room
  | times => exact ((multiply_runs left right).call fun _ => rfl).mono (by omega)
  | divide => exact ((divide_runs left t).call fun _ => rfl).mono (by omega)

end Lawful

end Counted

end UnitArith
