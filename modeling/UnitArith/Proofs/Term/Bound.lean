import Mathlib.Tactic.Linarith
import UnitArith.Proofs.Number.Double
import UnitArith.Proofs.Term.Calls

/-! Arithmetic ends. Products come back as written combinations, in which nothing nests, so adding
them up again takes a number of calls that grows with their length alone; and what is added up
stays within a size that the operands have from the start. -/
namespace UnitArith

namespace Term

variable {α : Type} [Number α]

theorem mul_size_expression (k : Nat) (head : Term α) (tail : List (Operator × Term α)) :
    k * (expression head tail).size = k + k * head.size + k * sizeTail tail := by
  rw [size, Nat.mul_add, Nat.mul_add, Nat.mul_one]

theorem mul_sizeTail_cons (k : Nat) (op : Operator) (t : Term α)
    (rest : List (Operator × Term α)) :
    k * sizeTail ((op, t) :: rest) = k + k * t.size + k * sizeTail rest := by
  rw [sizeTail, Nat.mul_add, Nat.mul_add, Nat.mul_one]

end Term

namespace Counted

open Term (signedOperand)

variable {α : Type} [Number α] {cost : Nat}

/-- Enough calls for one operator on written combinations of no more than `n` terms together. -/
def combineCalls (n : Nat) : Nat := 11 * (n + 1)

theorem le_combineCalls (n : Nat) : 11 ≤ combineCalls n := Nat.le_mul_of_pos_right 11 n.succ_pos

/-- Enough calls to multiply a factor into a term of no more than this size. -/
def scaleCalls (n : Nat) : Nat := combineCalls n * n

/-- Enough calls for one operand, where no sum gets larger than this. -/
def operandCalls (n : Nat) : Nat := 3 * scaleCalls n + 10

/-- Enough calls for a difference, whose right operand is turned around first. -/
theorem difference_le_operandCalls (n : Nat) (t : Term α) :
    scaleCalls n + (t.quantities.length + 1) * (scaleCalls n + 4) + 2 ≤
      operandCalls n * t.size := by
  have spread := t.quantities_length_le
  have pos := t.size_pos
  have turned : scaleCalls n ≤ scaleCalls n * t.size := Nat.le_mul_of_pos_right _ pos
  calc scaleCalls n + (t.quantities.length + 1) * (scaleCalls n + 4) + 2
    _ ≤ scaleCalls n * t.size + (2 * t.size) * (scaleCalls n + 4) + 2 * t.size := by
      have added : (t.quantities.length + 1) * (scaleCalls n + 4) ≤
          (2 * t.size) * (scaleCalls n + 4) := Nat.mul_le_mul_right _ (by omega)
      omega
    _ = operandCalls n * t.size := by
      rw [operandCalls]
      ring

/-- The products of a tail, each folded into those before it. -/
def foldProducts (depth : Nat) (factor : Quantity α) (product : Term α)
    (tail : List (Operator × Term α)) : Counted α (Term α) :=
  tail.foldlM (fun product operand => do
    let next ← multiply depth operand.2 (.quantity factor)
    calculate depth product operand.1 next) product

/-- The calls for a term's products. -/
def Distributes (cost : Nat) (factor : Quantity α) (t : Term α) : Prop :=
  Runs (fun depth => multiply depth t (.quantity factor)) cost
    (do .ok (← t.distribute factor).toTerm)

theorem foldProducts_cons_runs {factor : Quantity α} {product : Combination α} {op : Operator}
    {t : Term α} {rest : List (Operator × Term α)} {multiplied combined others : Nat}
    (first : Distributes multiplied factor t)
    (second : ∀ next, t.distribute factor = .ok next →
      Runs (fun depth => calculate depth product.toTerm op next.toTerm) combined
        (do .ok (← product.calculate op next).toTerm))
    (third : ∀ next sum, t.distribute factor = .ok next → product.calculate op next = .ok sum →
      Runs (fun depth => foldProducts depth factor sum.toTerm rest) others
        (do .ok (← Term.distributeTail factor sum rest).toTerm)) :
    Runs (fun depth => foldProducts depth factor product.toTerm ((op, t) :: rest))
      (multiplied + (combined + others))
      (do .ok (← Term.distributeTail factor product ((op, t) :: rest)).toTerm) := by
  have whole := first.bind_map
    (g := fun depth next => do
      foldProducts depth factor (← calculate depth product.toTerm op next) rest)
    (k := fun next => do
      .ok (← Term.distributeTail factor (← product.calculate op next) rest).toTerm)
    fun next multiplied => (second next multiplied).bind_map
      fun sum combined => third next sum multiplied combined
  rw [Term.distributeTail]
  simp only [bind_assoc]
  refine whole.congr fun depth => ?_
  rw [foldProducts, List.foldlM_cons, bind_assoc]
  rfl

theorem scale_of_apart {t : Term α} {factor : Quantity α}
    (apart : (factor.hasUnit && t.hasUnit) = false) : t.scale factor = t.distribute factor :=
  if_neg (Bool.eq_false_iff.mp apart)

theorem Scales.distributes {t : Term α} (scales : Scales cost t) {factor : Quantity α}
    (apart : (factor.hasUnit && t.hasUnit) = false) : Distributes cost factor t := by
  have product := scales.right factor
  rwa [scale_of_apart apart] at product

theorem distribute_runs {factor : Quantity α} {head : Term α} {tail : List (Operator × Term α)}
    {multiplied others : Nat} (first : Distributes multiplied factor head)
    (rest : ∀ product, head.distribute factor = .ok product →
      Runs (fun depth => foldProducts depth factor product.toTerm tail) others
        (do .ok (← Term.distributeTail factor product tail).toTerm)) :
    Runs (fun depth => distribute depth head tail factor) (multiplied + others + 1)
      (do .ok (← (Term.expression head tail).distribute factor).toTerm) := by
  have whole := first.bind_map (g := fun depth product => foldProducts depth factor product tail)
    (k := fun product => do .ok (← Term.distributeTail factor product tail).toTerm) rest
  rw [Term.distribute, bind_assoc]
  exact whole.call fun _ => rfl

section Lawful

variable [LawfulNumber α]

theorem foldProducts_summands_runs (factor : Quantity α) {product : Combination α}
    (normal : product.IsNormal) {terms : List (Quantity α)}
    (apart : ∀ q ∈ terms, (factor.hasUnit && q.hasUnit) = false) :
    Runs (fun depth => foldProducts depth factor product.toTerm (terms.map signedOperand))
      (terms.length * 6)
      (do .ok (← Term.distributeTail factor product (terms.map signedOperand)).toTerm) := by
  induction terms generalizing product with
  | nil => exact .pure product.toTerm
  | cons q terms ih =>
    obtain ⟨apart, others⟩ := List.forall_mem_cons.mp apart
    have additive := Quantity.isAdditive_signed q
    have multiplied : Distributes 1 factor (.quantity q.signed.2) := by
      refine (scales_quantity _).distributes ?_
      rwa [Term.hasUnit, Quantity.hasUnit_of_unit_eq (Quantity.unit_signed q)]
    have combined (next : Combination α)
        (product' : (Term.quantity q.signed.2).distribute factor = .ok next) :
        Runs (fun depth => calculate depth product.toTerm q.signed.1 next.toTerm) (1 + 4)
          (do .ok (← product.calculate q.signed.1 next).toTerm) := by
      cases product'
      rw [Term.toTerm_ofQuantity, Combination.calculate_ofQuantity _ additive,
        ← Term.addQuantity_toTerm normal]
      exact calculate_quantity_runs (turns_toTerm product) additive _
    have whole := foldProducts_cons_runs multiplied combined fun next sum product' combined =>
      have next := Term.distribute_isNormal factor _ product'
      ih (Combination.calculate_isNormal normal next combined) others
    refine whole.mono ?_
    rw [List.length_cons]
    omega

theorem scales_toTerm {a : Combination α} (normal : a.IsNormal) :
    Scales (a.terms.length * 6 + 2) a.toTerm := by
  cases single : a.quantity? with
  | some q =>
    rw [Term.toTerm_of_quantity? single]
    exact (scales_quantity q).mono (by omega)
  | none =>
    have units : a.toTerm.hasUnit = true :=
      (Term.hasUnit_eq (Term.represents_toTerm normal) normal).trans (normal.hasUnit_several single)
    obtain ⟨head, second, rest, rfl⟩ := Combination.exists_several single
    have products (factor : Quantity α) (apart : (factor.hasUnit &&
        (⟨head :: second :: rest⟩ : Combination α).toTerm.hasUnit) = false) :
        Runs (fun depth => distribute depth (.quantity head) ((second :: rest).map signedOperand)
          factor) (1 + (second :: rest).length * 6 + 1)
          (do .ok (← Term.distribute factor (Combination.toTerm ⟨head :: second :: rest⟩)).toTerm) := by
      -- Beside each other terms have units, so the factor has none.
      rw [units, Bool.and_true] at apart
      have first : Distributes 1 factor (.quantity head) :=
        (scales_quantity head).distributes (by rw [apart, Bool.false_and])
      exact distribute_runs first fun product multiplied =>
        foldProducts_summands_runs factor (Term.distribute_isNormal factor _ multiplied)
          fun q _ => by rw [apart, Bool.false_and]
    refine (scales_expression products).mono ?_
    simp only [List.length_cons]
    omega

theorem turnsAlong_toTerm {a : Combination α} (normal : a.IsNormal) (terms : List (Quantity α)) :
    TurnsAlong 1 a.toTerm terms := by
  intro before r _ folded
  rw [Term.foldlM_addQuantity_toTerm normal] at folded
  obtain ⟨sum, _, written⟩ := bind_eq_ok_iff.mp folded
  cases written
  exact turns_toTerm sum

/-- On written combinations the calls grow with the number of terms. -/
theorem calculate_toTerm_runs {a b : Combination α} (ha : a.IsNormal) (hb : b.IsNormal)
    {n : Nat} (short : a.terms.length + b.terms.length ≤ n) (op : Operator) :
    Runs (fun depth => calculate depth a.toTerm op b.toTerm) (combineCalls n)
      (do .ok (← a.calculate op b).toTerm) := by
  have left : Scales (n * 6 + 2) a.toTerm := (scales_toTerm ha).mono (by omega)
  have right : Scales (n * 6 + 2) b.toTerm := (scales_toTerm hb).mono (by omega)
  have turns (c : Combination α) (negated : b.toTerm.negated = .ok c) :
      c.terms.length ≤ n ∧ TurnsAlong 1 a.toTerm c.terms := by
    rw [Term.negated_eq (Term.represents_toTerm hb) hb] at negated
    cases negated
    refine ⟨?_, turnsAlong_toTerm ha _⟩
    rw [Combination.neg, List.length_map]
    omega
  have sum : Runs (fun depth => calculate depth a.toTerm .plus b.toTerm) (combineCalls n)
      (a.toTerm.add b.toTerm) := by
    have added := addCombination_runs hb Nat.one_pos (turnsAlong_toTerm ha b.terms)
    rw [← Term.add_toTerm a.toTerm hb] at added
    refine (added.call fun _ => rfl).mono ?_
    rw [combineCalls]
    omega
  rw [← Term.calculate_toTerm ha hb]
  refine calculate_runs_of_plus Nat.one_pos left right turns ?_ sum op
  rw [combineCalls]
  omega

end Lawful

mutual

/-- Each product goes back into `calculate`, but what is added there no longer nests: the products
met on the way are written combinations of no more than `n` terms. -/
theorem scales_of_length_le [LawfulNumber α] {n : Nat} : ∀ t : Term α, t.quantities.length ≤ n →
    Scales (combineCalls n * t.size) t
  | .quantity q, _ => by
    have enough := le_combineCalls n
    refine (scales_quantity q).mono ?_
    rw [Term.size]
    omega
  | .expression head tail, short => by
    rw [Term.quantities, List.length_append] at short
    have first : Scales (combineCalls n * head.size) head := scales_of_length_le head (by omega)
    have products (factor : Quantity α)
        (apart : (factor.hasUnit && (Term.expression head tail).hasUnit) = false) :
        Runs (fun depth => distribute depth head tail factor)
          (combineCalls n * head.size + combineCalls n * Term.sizeTail tail + 1)
          (do .ok (← (Term.expression head tail).distribute factor).toTerm) := by
      rw [Term.hasUnit, Bool.and_or_distrib_left, Bool.or_eq_false_iff] at apart
      refine distribute_runs (first.distributes apart.1) fun product multiplied => ?_
      have length := Term.distribute_length_le factor head multiplied
      exact foldProducts_runs tail factor (Term.distribute_isNormal factor head multiplied)
        (by omega) apart.2
    have enough := le_combineCalls n
    refine (scales_expression products).mono ?_
    rw [Term.mul_size_expression]
    omega

theorem foldProducts_runs [LawfulNumber α] {n : Nat} : ∀ (tail : List (Operator × Term α))
    (factor : Quantity α) {product : Combination α}, product.IsNormal →
      product.terms.length + (Term.quantitiesTail tail).length ≤ n →
      (factor.hasUnit && Term.hasUnitTail tail) = false →
      Runs (fun depth => foldProducts depth factor product.toTerm tail)
        (combineCalls n * Term.sizeTail tail)
        (do .ok (← Term.distributeTail factor product tail).toTerm)
  | [], factor, product, _, _, _ => .pure product.toTerm
  | (op, t) :: rest, factor, product, normal, short, apart => by
    rw [Term.quantitiesTail, List.length_append] at short
    rw [Term.hasUnitTail, Bool.and_or_distrib_left, Bool.or_eq_false_iff] at apart
    have first : Scales (combineCalls n * t.size) t := scales_of_length_le t (by omega)
    have combined (next : Combination α) (multiplied : t.distribute factor = .ok next) :
        Runs (fun depth => calculate depth product.toTerm op next.toTerm) (combineCalls n)
          (do .ok (← product.calculate op next).toTerm) := by
      have length := Term.distribute_length_le factor t multiplied
      exact calculate_toTerm_runs normal (Term.distribute_isNormal factor t multiplied)
        (by omega) op
    have others (next sum : Combination α) (multiplied : t.distribute factor = .ok next)
        (combined : product.calculate op next = .ok sum) :
        Runs (fun depth => foldProducts depth factor sum.toTerm rest)
          (combineCalls n * Term.sizeTail rest)
          (do .ok (← Term.distributeTail factor sum rest).toTerm) := by
      have length := Term.distribute_length_le factor t multiplied
      have both := Combination.calculate_length_le combined
      exact foldProducts_runs rest factor (Combination.calculate_isNormal normal
        (Term.distribute_isNormal factor t multiplied) combined) (by omega) apart.2
    refine (foldProducts_cons_runs (first.distributes apart.1) combined others).mono ?_
    rw [Term.mul_sizeTail_cons]
    omega

end

section Lawful

variable [LawfulNumber α]

theorem scales_of_size_le {n : Nat} {t : Term α} (small : t.size ≤ n) :
    Scales (scaleCalls n) t :=
  (scales_of_length_le t (t.quantities_length_le.trans small)).mono (Nat.mul_le_mul_left _ small)

/-- An operand is smaller than the expression it stands in. -/
theorem turns_of_size_le {n : Nat} {s : Term α} (small : s.size ≤ n) :
    Turns (scaleCalls n) s := by
  rintro head t rest rfl
  rw [Term.size, Term.sizeTail] at small
  have scales : Scales (combineCalls n * t.size) t :=
    scales_of_length_le t (t.quantities_length_le.trans (by omega))
  refine (negate_runs scales).mono ?_
  have room : combineCalls n * (t.size + 1) ≤ scaleCalls n := Nat.mul_le_mul_left _ (by omega)
  have enough := le_combineCalls n
  rw [Nat.mul_add, Nat.mul_one] at room
  omega

theorem turnsAlong_of_size_le {n : Nat} {s : Term α} {terms : List (Quantity α)}
    (small : s.size + 3 * terms.length ≤ n) : TurnsAlong (scaleCalls n) s terms := by
  intro before r early folded
  have grown := Term.size_foldlM_addQuantity_le folded
  have fewer := early.length_le
  exact turns_of_size_le (by omega)

theorem calculate_runs_of_add {n : Nat} {s t : Term α} (small : s.size + 3 * t.size ≤ n)
    (sum : Runs (fun depth => calculate depth s .plus t) (operandCalls n * t.size) (s.add t))
    (op : Operator) :
    Runs (fun depth => calculate depth s op t) (operandCalls n * t.size) (s.calculate op t) := by
  have nonempty : 0 < n := by
    have := s.size_pos
    omega
  have pos : 0 < scaleCalls n := Nat.mul_pos (Nat.mul_pos (by decide) n.succ_pos) nonempty
  have turns (a : Combination α) (negated : t.negated = .ok a) :
      a.terms.length ≤ t.quantities.length ∧ TurnsAlong (scaleCalls n) s a.terms := by
    have short := Term.negated_length_le negated
    have spread := t.quantities_length_le
    exact ⟨short, turnsAlong_of_size_le (by omega)⟩
  exact calculate_runs_of_plus pos (scales_of_size_le (by omega)) (scales_of_size_le (by omega))
    turns (difference_le_operandCalls n t) sum op

end Lawful

mutual

/-- The operands of `t` are added one after the other. No sum on the way is larger than `n`, which
bounds the calls for turning around an operand whose predecessors have cancelled out. -/
theorem calculate_plus_runs [LawfulNumber α] {n : Nat} : ∀ (t : Term α) {s : Term α},
    s.size + 3 * t.size ≤ n →
      Runs (fun depth => calculate depth s .plus t) (operandCalls n * t.size) (s.add t)
  | .quantity q, s, small => by
    have turns : Turns (scaleCalls n) s := turns_of_size_le (by omega)
    rw [Term.add, Term.size]
    refine ((add_quantity_runs turns q).call fun _ => rfl).mono ?_
    rw [operandCalls]
    omega
  | .expression head tail, .quantity q, small => by
    have turns : Turns (scaleCalls n) (.expression head tail) := turns_of_size_le (by omega)
    rw [Term.add, Term.mul_size_expression]
    refine ((addTo_runs turns q).call fun _ => rfl).mono ?_
    rw [operandCalls]
    omega
  | .expression head tail, .expression inner others, small => by
    have parts : (Term.expression head tail).size = 1 + head.size + Term.sizeTail tail := by
      rw [Term.size]
    have first : Runs _ (operandCalls n * head.size) ((Term.expression inner others).add head) :=
      calculate_plus_runs head (by omega)
    have whole := first.bind fun sum combined =>
      have rest : sum.size + 3 * Term.sizeTail tail ≤ n := by
        have grown := Term.size_add_le head combined
        omega
      addTail_runs tail rest
    have sum : Runs (fun depth => add depth (.expression inner others) (.expression head tail))
        (operandCalls n * head.size + operandCalls n * Term.sizeTail tail + 1)
        ((Term.expression inner others).add (.expression head tail)) := by
      rw [Term.add]
      exact whole.call fun _ => rfl
    refine (sum.call fun _ => rfl).mono ?_
    rw [Term.mul_size_expression, operandCalls]
    omega

theorem addTail_runs [LawfulNumber α] {n : Nat} : ∀ (tail : List (Operator × Term α)) {s : Term α},
    s.size + 3 * Term.sizeTail tail ≤ n →
      Runs (fun depth => tail.foldlM (fun sum operand => calculate depth sum operand.1 operand.2) s)
        (operandCalls n * Term.sizeTail tail) (Term.addTail s tail)
  | [], s, _ => by
    rw [Term.addTail]
    exact .pure s
  | (op, t) :: rest, s, small => by
    rw [Term.sizeTail] at small
    have start : s.size + 3 * t.size ≤ n := by omega
    have first := calculate_runs_of_add start (calculate_plus_runs t start) op
    have whole := first.bind fun sum combined =>
      have others : sum.size + 3 * Term.sizeTail rest ≤ n := by
        have grown := Term.size_calculate_le combined
        omega
      addTail_runs rest others
    rw [Term.addTail_cons, Term.mul_sizeTail_cons]
    refine (whole.congr fun depth => List.foldlM_cons ..).mono ?_
    omega

end

/-- Enough calls for one operator on two terms. -/
def callLimit (s t : Term α) : Nat := 44 * (s.size + 3 * t.size) ^ 3

theorem operandCalls_mul_size_le (s t : Term α) :
    operandCalls (s.size + 3 * t.size) * t.size ≤ callLimit s t := by
  have left := s.size_pos
  have right := t.size_pos
  rw [callLimit]
  generalize total : s.size + 3 * t.size = n
  have large : 4 ≤ n := by omega
  have square : 4 * n ≤ n ^ 2 := by nlinarith
  have cube : 4 * n ^ 2 ≤ n ^ 3 := by nlinarith
  calc operandCalls n * t.size
    _ ≤ operandCalls n * n := Nat.mul_le_mul_left _ (by omega)
    _ = 33 * n ^ 3 + 33 * n ^ 2 + 10 * n := by
      rw [operandCalls, scaleCalls, combineCalls]
      ring
    _ ≤ 44 * n ^ 3 := by linarith

/-- For every two terms and every operator: the calls that the sizes of the two allow are never
used up, and what comes of them is the reduced result or its error. -/
theorem calculateWithin_callLimit (s t : Term Float) (op : Operator) (spare : Nat) :
    calculateWithin (callLimit s t + spare) s op t = some (s.calculate op t) := by
  have small := Nat.le_refl (s.size + 3 * t.size)
  have whole := (calculate_runs_of_add small (calculate_plus_runs t small) op).mono
    (operandCalls_mul_size_le s t)
  have enough := Nat.le_add_right (callLimit s t) spare
  obtain ⟨left, _, run⟩ := whole _ _ enough enough
  rw [calculateWithin, run]
  rfl

/-- The call that the sum itself makes is one too many. -/
example (p q : Quantity Float) : calculateWithin 1 (.quantity p) .plus (.quantity q) = none := rfl

end Counted

end UnitArith
