import Mathlib.Data.List.Forall2
import UnitArith.Proofs.Combination.Normal
import UnitArith.Term.Arithmetic

/-! Terms that write out a combination. Arithmetic on both runs alike: the terms that come out
write out the combinations that come out, and where one side fails so does the other. -/
namespace UnitArith

namespace AlgebraError

/-- What goes wrong, without the terms that a message shows. -/
inductive Cause where
  | unitMismatch
  | productOfSums
  | productOfUnits
  | divisionBySum
  | divisionByUnit
  | divisionByZero
  deriving DecidableEq, Repr

variable {α : Type} [Number α]

def cause : AlgebraError α → Cause
  | unitMismatch .. => .unitMismatch
  | productOfSums .. => .productOfSums
  | productOfUnits => .productOfUnits
  | divisionBySum => .divisionBySum
  | divisionByUnit => .divisionByUnit
  | divisionByZero => .divisionByZero

end AlgebraError

namespace Term

variable {α : Type} [Number α]

/-- Related results, or failures of one cause. -/
inductive Agrees {β γ : Type} (R : β → γ → Prop) :
    Except (AlgebraError α) β → Except (AlgebraError α) γ → Prop
  | ok {s : β} {a : γ} (related : R s a) : Agrees R (.ok s) (.ok a)
  | error {e f : AlgebraError α} (cause : e.cause = f.cause) : Agrees R (.error e) (.error f)

theorem Agrees.bind {β γ β' γ' : Type} {R : β → γ → Prop} {S : β' → γ' → Prop}
    {x : Except (AlgebraError α) β} {y : Except (AlgebraError α) γ}
    {f : β → Except (AlgebraError α) β'} {g : γ → Except (AlgebraError α) γ'}
    (first : Agrees R x y) (next : ∀ s a, R s a → y = .ok a → Agrees S (f s) (g a)) :
    Agrees S (x >>= f) (y >>= g) := by
  cases first with
  | ok related => exact next _ _ related rfl
  | error cause => exact .error cause

/-- An operand behind its operator, and the quantity that both make. Only NaN and the numbers
that are not negative stand there. -/
inductive Summand : Operator × Term α → Quantity α → Prop
  | mk {op : Operator} {q : Quantity α} (additive : op.isAdditive = true)
      (nonnegative : q.isNegative = false) : Summand (op, quantity q) (q.after op)

/-- A sum shows its signs in front of the operands; only the head keeps a sign of its own. -/
inductive Represents : Term α → Combination α → Prop
  | quantity (q : Quantity α) : Represents (.quantity q) (.ofQuantity q)
  | sum {head second : Quantity α} {tail : List (Operator × Term α)} {rest : List (Quantity α)}
      (operands : List.Forall₂ Summand tail (second :: rest)) :
      Represents (.expression (.quantity head) tail) ⟨head :: second :: rest⟩

theorem represents_ofOperands {head : Quantity α} (nonzero : head.isZero = false)
    {tail : List (Operator × Term α)} {rest : List (Quantity α)}
    (operands : List.Forall₂ Summand tail rest) :
    Represents (ofOperands ((.plus, .quantity head) :: tail)) ⟨head :: rest⟩ := by
  cases operands with
  | nil =>
    rw [← Combination.ofQuantity_of_nonzero nonzero]
    exact .quantity head
  | cons first others => exact .sum (.cons first others)

theorem hasUnit_eq {t : Term α} {a : Combination α} (h : Represents t a) (ha : a.IsNormal) :
    t.hasUnit = a.hasUnit := by
  cases h with
  | quantity q => rw [hasUnit, Combination.hasUnit_ofQuantity]
  | @sum head second tail rest operands =>
    have unit : head.hasUnit = true := ha.hasUnit_of_several rfl (List.mem_cons_self ..)
    rw [ha.hasUnit_several rfl, hasUnit, hasUnit, unit, Bool.true_or]

theorem addTail_cons (s : Term α) (op : Operator) (t : Term α) (rest : List (Operator × Term α)) :
    addTail s ((op, t) :: rest) = (do addTail (← s.calculate op t) rest) := by
  cases op <;> rw [addTail] <;> rfl

/-- Only the first quantity of the same unit is touched. -/
theorem absorbTail?_eq_some {q : Quantity α}
    {tail sum : List (Operator × Term α)} (h : absorbTail? q tail = some sum) :
    ∃ before op a after, tail = before ++ (op, quantity a) :: after ∧ a.unit = q.unit ∧
      sum = before ++ if ((a.after op).plus q).isZero then after
        else signedOperand ((a.after op).plus q) :: after := by
  induction tail generalizing sum with
  | nil => cases h
  | cons o tail ih =>
    obtain ⟨op, t⟩ := o
    have later {sum : List (Operator × Term α)} (found : absorbTail? q tail = some sum) :
        ∃ before op' a after, (op, t) :: tail = before ++ (op', quantity a) :: after ∧
          a.unit = q.unit ∧ (op, t) :: sum = before ++
            if ((a.after op').plus q).isZero then after
            else signedOperand ((a.after op').plus q) :: after := by
      obtain ⟨before, op', a, after, rfl, same, rfl⟩ := ih found
      exact ⟨(op, t) :: before, op', a, after, rfl, same, rfl⟩
    cases t with
    | quantity a =>
      rw [absorbTail?] at h
      split at h
      · rename_i same
        cases h
        exact ⟨[], op, a, tail, rfl, (Quantity.sameUnit_iff a q).mp same, rfl⟩
      · obtain ⟨sum, found, rfl⟩ := Option.map_eq_some_iff.mp h
        exact later found
    | expression head inner =>
      rw [absorbTail?] at h
      obtain ⟨sum, found, rfl⟩ := Option.map_eq_some_iff.mp h
      exact later found

/-- One of the factors of a product is a quantity. -/
theorem mul_eq_ok {s t r : Term α} (h : s.mul t = .ok r) :
    ∃ factor product, r = product.toTerm ∧
      (t = quantity factor ∧ s.scale factor = .ok product ∨
        s = quantity factor ∧ t.scale factor = .ok product) := by
  cases t with
  | quantity factor =>
    have h : (do .ok (← s.scale factor).toTerm) = Except.ok r := by
      cases s <;> exact h
    obtain ⟨product, scaled, h⟩ := bind_eq_ok_iff.mp h
    cases h
    exact ⟨factor, product, rfl, .inl ⟨rfl, scaled⟩⟩
  | expression head tail =>
    cases s with
    | quantity factor =>
      obtain ⟨product, scaled, h⟩ := bind_eq_ok_iff.mp h
      cases h
      exact ⟨factor, product, rfl, .inr ⟨rfl, scaled⟩⟩
    | expression => cases h

/-- The divisor is a plain quantity other than zero. -/
theorem div_eq_ok {s t r : Term α} (h : s.div t = .ok r) :
    ∃ divisor, t = quantity divisor ∧ divisor.hasUnit = false ∧ divisor.isZero = false ∧
      ((∃ q, s = quantity q ∧ r = quantity (q.dividedBy divisor)) ∨
        ∃ product, s.scale divisor.reciprocal = .ok product ∧ r = product.toTerm) := by
  cases t with
  | expression => cases s <;> cases h
  | quantity divisor =>
    rw [div.eq_def] at h
    dsimp only at h
    split at h
    · cases h
    · rename_i plain
      split at h
      · cases h
      · rename_i nonzero
        refine ⟨divisor, rfl, Bool.eq_false_iff.mpr plain, Bool.eq_false_iff.mpr nonzero, ?_⟩
        cases s with
        | quantity q =>
          cases h
          exact .inl ⟨q, rfl, rfl⟩
        | expression head tail =>
          obtain ⟨product, scaled, h⟩ := bind_eq_ok_iff.mp h
          cases h
          exact .inr ⟨product, scaled, rfl⟩

section Lawful

variable [LawfulNumber α]

theorem summand_signedOperand (q : Quantity α) : Summand (signedOperand q) q := by
  have h := Summand.mk (Quantity.isAdditive_signed q) (Quantity.isNegative_signed q)
  rwa [Quantity.after_signed] at h

theorem represents_zero : Represents (zero : Term α) .zero := by
  have h := Represents.quantity (.zero : Quantity α)
  rwa [Combination.ofQuantity_of_isZero Quantity.isZero_zero] at h

theorem represents_toTerm {a : Combination α} (ha : a.IsNormal) : Represents a.toTerm a := by
  obtain ⟨_ | ⟨head, _ | ⟨second, rest⟩⟩⟩ := a
  · exact represents_zero
  · have h := Represents.quantity head
    rwa [Combination.ofQuantity_of_nonzero (ha.nonzero head (by simp))] at h
  · exact .sum (List.forall₂_map_left_iff.mpr
      (List.forall₂_same.mpr fun q _ => summand_signedOperand q))

theorem agrees_toTerm {x : Except (AlgebraError α) (Combination α)}
    (normal : ∀ a, x = .ok a → a.IsNormal) :
    Agrees Represents (do .ok (← x).toTerm) x := by
  cases x with
  | ok a => exact .ok (represents_toTerm (normal a rfl))
  | error e => exact .error rfl

/-- Without its head a sum still writes out what is left. -/
theorem promote_represents {tail : List (Operator × Term α)} {terms : List (Quantity α)}
    (operands : List.Forall₂ Summand tail terms) (nonzero : ∀ q ∈ terms, q.isZero = false) :
    ∃ t, promote tail = .ok t ∧ Represents t ⟨terms⟩ := by
  cases operands with
  | nil => exact ⟨zero, rfl, represents_zero⟩
  | cons first others =>
    have left := nonzero _ (List.mem_cons_self ..)
    cases first with
    | @mk op q additive nonnegative =>
      cases op with
      | plus => exact ⟨_, rfl, represents_ofOperands left others⟩
      | minus =>
        refine ⟨_, rfl, ?_⟩
        rw [Quantity.after_minus] at left ⊢
        rw [Combination.ofQuantity_of_nonzero left]
        exact represents_ofOperands left others
      | times => cases additive
      | divide => cases additive

theorem absorbTail?_represents (q : Quantity α) {tail : List (Operator × Term α)}
    {terms : List (Quantity α)} (operands : List.Forall₂ Summand tail terms) :
    Option.Rel (List.Forall₂ Summand) (absorbTail? q tail) (Combination.absorb? q terms) := by
  induction operands with
  | nil => exact .none
  | cons first others ih =>
    cases first with
    | @mk op p additive nonnegative =>
      have same : (p.after op).sameUnit q = p.sameUnit q := by simp [Quantity.sameUnit]
      rw [absorbTail?, Combination.absorb?, same]
      split
      · apply Option.Rel.some
        split
        · exact others
        · exact .cons (summand_signedOperand _) others
      · generalize absorbTail? q _ = left at ih
        generalize Combination.absorb? q _ = right at ih
        cases ih with
        | none => exact .none
        | some ih => exact .some (.cons (.mk additive nonnegative) ih)

theorem absorb?_represents (q : Quantity α) {head : Quantity α} {tail : List (Operator × Term α)}
    {rest : List (Quantity α)} (operands : List.Forall₂ Summand tail rest)
    (nonzero : ∀ p ∈ head :: rest, p.isZero = false) :
    ∃ sum?, absorb? q (.quantity head) tail = .ok sum? ∧
      Option.Rel (fun t terms => Represents t ⟨terms⟩) sum?
        (Combination.absorb? q (head :: rest)) := by
  rw [absorb?, Combination.absorb?]
  split
  · dsimp only
    split
    · obtain ⟨t, promoted, h⟩ := promote_represents operands fun p hp =>
        nonzero p (List.mem_cons_of_mem head hp)
      rw [promoted]
      exact ⟨some t, rfl, .some h⟩
    · rename_i left
      exact ⟨_, rfl, .some (represents_ofOperands (Bool.eq_false_iff.mpr left) operands)⟩
  · refine ⟨_, rfl, ?_⟩
    have absorbed := absorbTail?_represents q operands
    generalize absorbTail? q tail = left at absorbed
    generalize Combination.absorb? q rest = right at absorbed
    cases absorbed with
    | none => exact .none
    | some h => exact .some (represents_ofOperands (nonzero head (by simp)) h)

theorem addQuantity_agrees {t : Term α} {a : Combination α} (h : Represents t a)
    (ha : a.IsNormal) (q : Quantity α) : Agrees Represents (t.addQuantity q) (a.addQuantity q) := by
  cases h with
  | quantity p => exact agrees_toTerm fun c hc => Combination.addQuantity_isNormal ha hc
  | @sum head second tail rest operands =>
    rw [addQuantity, Combination.addQuantity]
    split
    · exact .ok (.sum operands)
    · obtain ⟨sum?, absorbed, related⟩ := absorb?_represents q operands ha.nonzero
      rw [absorbed]
      have units : (⟨head :: second :: rest⟩ : Combination α).hasUnit = true :=
        ha.hasUnit_several rfl
      generalize Combination.absorb? q _ = sums at related
      cases related with
      | some related => exact .ok related
      | none =>
        simp only [List.isEmpty_cons, Bool.false_or, units, beq_iff_eq]
        cases unit : q.hasUnit with
        | true =>
          exact .ok (.sum (List.rel_append operands (.cons (summand_signedOperand q) .nil)))
        | false => exact .error rfl

theorem addTo_agrees {head second : Quantity α} {tail : List (Operator × Term α)}
    {rest : List (Quantity α)} (operands : List.Forall₂ Summand tail (second :: rest))
    (normal : (⟨head :: second :: rest⟩ : Combination α).IsNormal) (q : Quantity α) :
    Agrees Represents (addTo q (.quantity head) tail)
      (Combination.addTo ⟨head :: second :: rest⟩ q) := by
  rw [addTo, Combination.addTo]
  split
  · exact .ok (.sum operands)
  · obtain ⟨sum?, absorbed, related⟩ := absorb?_represents q operands normal.nonzero
    rw [absorbed]
    generalize Combination.absorb? q _ = sums at related
    cases related with
    | some related => exact .ok related
    | none =>
      cases unit : q.hasUnit with
      | true => simpa [unit] using .ok (.sum (.cons (summand_signedOperand head) operands))
      | false => simpa [unit] using .error rfl

/-- Adding the terms one by one is what the sum of two combinations does, except for a single
quantity that goes in front of a sum. -/
theorem foldlM_addQuantity_agrees {t : Term α} {a : Combination α} (h : Represents t a)
    (ha : a.IsNormal) (terms : List (Quantity α)) :
    Agrees Represents (terms.foldlM addQuantity t) (terms.foldlM Combination.addQuantity a) := by
  induction terms generalizing t a with
  | nil => exact .ok h
  | cons q terms ih =>
    rw [List.foldlM_cons, List.foldlM_cons]
    exact (addQuantity_agrees h ha q).bind fun s c related sum =>
      ih related (Combination.addQuantity_isNormal ha sum)

theorem addCombination_agrees {s : Term α} {a b : Combination α} (h : Represents s a)
    (ha : a.IsNormal) (hb : b.IsNormal) : Agrees Represents (s.addCombination b) (a.add b) := by
  cases h with
  | quantity q => exact agrees_toTerm fun c hc => Combination.add_isNormal ha hb hc
  | sum operands =>
    rw [Combination.add_eq_foldlM (.inl rfl)]
    exact foldlM_addQuantity_agrees (.sum operands) ha b.terms

/-- What the operands of a sum come to once all are multiplied, one product added after the
other. The products met so far and those still to come have different units. -/
theorem distributeTail_eq (factor : Quantity α) {tail : List (Operator × Term α)}
    {terms : List (Quantity α)} (operands : List.Forall₂ Summand tail terms)
    (before : List (Quantity α)) (units : ∀ q ∈ before ++ terms, q.hasUnit = true)
    (distinct : ((before ++ terms).map Quantity.unit).Nodup) :
    distributeTail factor ⟨Combination.products factor before⟩ tail =
      .ok ⟨Combination.products factor (before ++ terms)⟩ := by
  induction operands generalizing before with
  | nil => rw [distributeTail, List.append_nil]
  | @cons operand q tail terms first others ih =>
    rw [List.append_cons] at units distinct ⊢
    cases first with
    | @mk op p additive nonnegative =>
      have product := Combination.addQuantity_products factor
        (fun q hq => units q (List.mem_append_left terms hq))
        (distinct.sublist ((List.sublist_append_left _ terms).map _))
      rw [Quantity.after_times, ← Combination.calculate_ofQuantity _ additive] at product
      simp only [distributeTail, distribute, bind, Except.bind, product]
      exact ih _ units distinct

/-- Products of a term's quantities, folded together again, stay side by side. -/
theorem distribute_eq {t : Term α} {a : Combination α} (h : Represents t a) (ha : a.IsNormal)
    (factor : Quantity α) :
    distribute factor t = .ok ⟨Combination.products factor a.terms⟩ := by
  cases h with
  | quantity q => rw [distribute, Combination.products_ofQuantity]
  | @sum head second tail rest operands =>
    have units := fun q hq => ha.hasUnit_of_several (q := q) rfl hq
    have folded := distributeTail_eq factor operands [head] units ha.distinct
    rw [Combination.products_singleton] at folded
    exact folded

theorem scale_eq {t : Term α} {a : Combination α} (h : Represents t a) (ha : a.IsNormal)
    (factor : Quantity α) : t.scale factor = a.scale factor := by
  rw [scale, Combination.scale, hasUnit_eq h ha, distribute_eq h ha]
  rfl

theorem scale_agrees {t : Term α} {a : Combination α} (h : Represents t a) (ha : a.IsNormal)
    (factor : Quantity α) :
    Agrees Represents (do .ok (← t.scale factor).toTerm) (a.scale factor) := by
  rw [scale_eq h ha]
  exact agrees_toTerm fun c hc => Combination.scale_isNormal ha hc

/-- Turning a sum around multiplies it by minus one. -/
theorem negated_eq {t : Term α} {a : Combination α} (h : Represents t a) (ha : a.IsNormal) :
    t.negated = .ok a.neg := by
  cases h with
  | quantity q => rw [negated, Combination.neg_ofQuantity]
  | @sum head second tail rest operands =>
    have products : Combination.products (.unitless (-1)) (head :: second :: rest) =
        (head :: second :: rest).map Quantity.neg := by
      rw [Combination.products, List.filter_eq_self.mpr]
      · simp only [Quantity.times_neg_one]
      · intro p hp
        obtain ⟨q, hq, rfl⟩ := List.mem_map.mp hp
        rw [Quantity.times_neg_one, Quantity.isZero_neg, ha.nonzero q hq]
        rfl
    rw [negated, scale, Quantity.hasUnit_unitless, distribute_eq (.sum operands) ha, products]
    rfl

theorem sub_agrees {s t : Term α} {a b : Combination α} (hs : Represents s a) (ht : Represents t b)
    (ha : a.IsNormal) (hb : b.IsNormal) : Agrees Represents (s.sub t) (a.sub b) := by
  rw [sub, negated_eq ht hb]
  exact addCombination_agrees hs ha (Combination.neg_isNormal hb)

theorem calculate_summand_agrees {s : Term α} {a : Combination α} (h : Represents s a)
    (ha : a.IsNormal) {op : Operator} (additive : op.isAdditive = true) (q : Quantity α) :
    Agrees Represents (s.calculate op (.quantity q)) (a.addQuantity (q.after op)) := by
  cases op with
  | plus =>
    rw [calculate, add]
    exact addQuantity_agrees h ha q
  | minus =>
    rw [← Combination.calculate_ofQuantity a additive]
    exact sub_agrees h (.quantity q) ha (Combination.ofQuantity_isNormal q)
  | times => cases additive
  | divide => cases additive

theorem addTail_agrees {s : Term α} {a : Combination α} (h : Represents s a) (ha : a.IsNormal)
    {tail : List (Operator × Term α)} {terms : List (Quantity α)}
    (operands : List.Forall₂ Summand tail terms) :
    Agrees Represents (addTail s tail) (terms.foldlM Combination.addQuantity a) := by
  induction operands generalizing s a with
  | nil =>
    rw [addTail]
    exact .ok h
  | cons first others ih =>
    cases first with
    | mk additive nonnegative =>
      rw [addTail_cons, List.foldlM_cons]
      exact (calculate_summand_agrees h ha additive _).bind fun s c related sum =>
        ih related (Combination.addQuantity_isNormal ha sum)

theorem add_agrees {s t : Term α} {a b : Combination α} (hs : Represents s a) (ht : Represents t b)
    (ha : a.IsNormal) (hb : b.IsNormal) : Agrees Represents (s.add t) (a.add b) := by
  cases ht with
  | quantity q =>
    rw [add, Combination.add_ofQuantity]
    exact addQuantity_agrees hs ha q
  | @sum head second tail rest operands =>
    cases hs with
    | quantity q =>
      rw [add, Combination.add, Combination.quantity?_ofQuantity]
      exact addTo_agrees operands hb q
    | sum left =>
      rw [add, add, Combination.add_eq_foldlM (.inl rfl), List.foldlM_cons]
      exact (addQuantity_agrees (.sum left) ha head).bind fun s c related sum =>
        addTail_agrees related (Combination.addQuantity_isNormal ha sum) operands

theorem mul_agrees {s t : Term α} {a b : Combination α} (hs : Represents s a) (ht : Represents t b)
    (ha : a.IsNormal) (hb : b.IsNormal) : Agrees Represents (s.mul t) (a.mul b) := by
  cases ht with
  | quantity factor =>
    rw [mul, Combination.mul, Combination.quantity?_ofQuantity]
    exact scale_agrees hs ha factor
  | sum right =>
    cases hs with
    | quantity factor =>
      rw [mul, Combination.mul, Combination.quantity?_ofQuantity]
      exact scale_agrees (.sum right) hb factor
    | sum left => exact .error rfl

theorem div_agrees {s t : Term α} {a b : Combination α} (hs : Represents s a) (ht : Represents t b)
    (ha : a.IsNormal) : Agrees Represents (s.div t) (a.div b) := by
  cases ht with
  | sum right => exact .error rfl
  | quantity divisor =>
    rw [div.eq_def, Combination.div, Combination.quantity?_ofQuantity]
    dsimp only
    split
    · exact .error rfl
    · split
      · exact .error rfl
      · cases hs with
        | quantity q =>
          rw [Combination.quantity?_ofQuantity]
          exact .ok (.quantity (q.dividedBy divisor))
        | sum left => exact scale_agrees (.sum left) ha divisor.reciprocal

/-- Terms and the combinations they write out calculate alike. -/
theorem calculate_agrees {s t : Term α} {a b : Combination α} (hs : Represents s a)
    (ht : Represents t b) (ha : a.IsNormal) (hb : b.IsNormal) (op : Operator) :
    Agrees Represents (s.calculate op t) (a.calculate op b) := by
  cases op with
  | plus => exact add_agrees hs ht ha hb
  | minus => exact sub_agrees hs ht ha hb
  | times => exact mul_agrees hs ht ha hb
  | divide => exact div_agrees hs ht ha

end Lawful

end Term

end UnitArith
