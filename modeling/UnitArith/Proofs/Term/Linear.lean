import UnitArith.Proofs.Combination.Linear
import UnitArith.Proofs.Term.Representation

/-! Sums of any shape as linear forms. Terms that are built with `+` and `-` may nest, repeat
units, hold zeros and negative values or have an empty tail; what they stand for is still
combined as the operator says, and the result is built with `+` and `-` again. -/
namespace UnitArith.Term

mutual

/-- The form that a term stands for when it is built with `+` and `-`. -/
def form : Term ℚ → LinearForm
  | quantity q => q.form
  | expression head tail => head.form + formTail tail

def formTail : List (Operator × Term ℚ) → LinearForm
  | [] => 0
  | (op, t) :: rest => op.sign • t.form + formTail rest

end

/-- A term that is built with `+` and `-` and stands for this form. -/
structure HasForm (t : Term ℚ) (f : LinearForm) : Prop where
  additive : t.isMultiplicative = false
  form : t.form = f

structure HasFormTail (tail : List (Operator × Term ℚ)) (f : LinearForm) : Prop where
  additive : isMultiplicativeTail tail = false
  form : formTail tail = f

theorem hasForm_quantity (q : Quantity ℚ) : HasForm (quantity q) q.form := ⟨rfl, rfl⟩

theorem hasForm_zero : HasForm zero 0 := ⟨rfl, Quantity.form_zero⟩

theorem hasForm_expression_iff {head : Term ℚ} {tail : List (Operator × Term ℚ)}
    {f : LinearForm} : HasForm (expression head tail) f ↔
      ∃ g h, HasForm head g ∧ HasFormTail tail h ∧ f = g + h := by
  constructor
  · rintro ⟨additive, rfl⟩
    rw [isMultiplicative, Bool.or_eq_false_iff] at additive
    exact ⟨_, _, ⟨additive.1, rfl⟩, ⟨additive.2, rfl⟩, rfl⟩
  · rintro ⟨g, h, ⟨first, rfl⟩, ⟨others, rfl⟩, rfl⟩
    exact ⟨by rw [isMultiplicative, first, others, Bool.or_self], rfl⟩

theorem hasFormTail_nil : HasFormTail [] 0 := ⟨rfl, rfl⟩

theorem hasFormTail_cons_iff {op : Operator} {t : Term ℚ} {rest : List (Operator × Term ℚ)}
    {f : LinearForm} : HasFormTail ((op, t) :: rest) f ↔
      op.isAdditive = true ∧ ∃ g h, HasForm t g ∧ HasFormTail rest h ∧ f = op.sign • g + h := by
  constructor
  · rintro ⟨additive, rfl⟩
    rw [isMultiplicativeTail, Bool.or_eq_false_iff, Bool.or_eq_false_iff,
      Bool.not_eq_false'] at additive
    exact ⟨additive.1.1, _, _, ⟨additive.1.2, rfl⟩, ⟨additive.2, rfl⟩, rfl⟩
  · rintro ⟨additive, g, h, ⟨first, rfl⟩, ⟨others, rfl⟩, rfl⟩
    exact ⟨by rw [isMultiplicativeTail, additive, first, others]; rfl, rfl⟩

theorem hasFormTail_signedOperand (q : Quantity ℚ) {rest : List (Operator × Term ℚ)}
    {f : LinearForm} (others : HasFormTail rest f) :
    HasFormTail (signedOperand q :: rest) (q.form + f) := by
  refine hasFormTail_cons_iff.mpr
    ⟨Quantity.isAdditive_signed q, _, f, hasForm_quantity _, others, ?_⟩
  rw [← Quantity.form_after, Quantity.after_signed]

theorem hasFormTail_append_iff {before after : List (Operator × Term ℚ)} {f : LinearForm} :
    HasFormTail (before ++ after) f ↔
      ∃ g h, HasFormTail before g ∧ HasFormTail after h ∧ f = g + h := by
  induction before generalizing f with
  | nil =>
    constructor
    · exact fun others => ⟨0, f, hasFormTail_nil, others, (zero_add f).symm⟩
    · rintro ⟨g, h, first, others, rfl⟩
      obtain rfl := first.form
      simpa [formTail] using others
  | cons o before ih =>
    rw [List.cons_append, hasFormTail_cons_iff]
    constructor
    · rintro ⟨additive, g, _, first, others, rfl⟩
      obtain ⟨k, l, left, right, rfl⟩ := ih.mp others
      exact ⟨o.1.sign • g + k, l, hasFormTail_cons_iff.mpr ⟨additive, g, k, first, left, rfl⟩,
        right, (add_assoc _ _ _).symm⟩
    · rintro ⟨_, h, first, others, rfl⟩
      obtain ⟨additive, g, k, left, right, rfl⟩ := hasFormTail_cons_iff.mp first
      exact ⟨additive, g, k + h, left, ih.mpr ⟨k, h, right, others, rfl⟩, add_assoc _ _ _⟩

theorem hasForm_ofOperands {t : Term ℚ} {tail : List (Operator × Term ℚ)} {f g : LinearForm}
    (first : HasForm t f) (others : HasFormTail tail g) :
    HasForm (ofOperands ((.plus, t) :: tail)) (f + g) := by
  cases tail with
  | nil =>
    obtain rfl := others.form
    rw [formTail, add_zero]
    exact first
  | cons o tail => exact hasForm_expression_iff.mpr ⟨f, g, first, others, rfl⟩

theorem hasForm_toTerm (a : Combination ℚ) : HasForm a.toTerm a.form := by
  have tail (terms : List (Quantity ℚ)) :
      HasFormTail (terms.map signedOperand) (terms.map Quantity.form).sum := by
    induction terms with
    | nil => exact hasFormTail_nil
    | cons q terms ih => exact hasFormTail_signedOperand q ih
  obtain ⟨_ | ⟨q, _ | ⟨second, rest⟩⟩⟩ := a
  · exact hasForm_zero
  · rw [Combination.form, List.map_singleton, List.sum_singleton]
    exact hasForm_quantity q
  · exact hasForm_expression_iff.mpr ⟨_, _, hasForm_quantity q, tail (second :: rest), rfl⟩

mutual

/-- Without units there are only plain numbers. -/
theorem isNumber_form : ∀ {t : Term ℚ}, t.hasUnit = false → t.form.IsNumber
  | quantity _, plain => Quantity.isNumber_form plain
  | expression head tail, plain => by
    rw [hasUnit, Bool.or_eq_false_iff] at plain
    intro unit nonempty
    rw [form, Pi.add_apply, isNumber_form plain.1 unit nonempty,
      isNumber_formTail plain.2 unit nonempty, add_zero]

theorem isNumber_formTail : ∀ {tail : List (Operator × Term ℚ)}, hasUnitTail tail = false →
    (formTail tail).IsNumber
  | [], _ => fun _ _ => rfl
  | (op, t) :: rest, plain => by
    rw [hasUnitTail, Bool.or_eq_false_iff] at plain
    intro unit nonempty
    rw [formTail, Pi.add_apply, Pi.smul_apply, isNumber_form plain.1 unit nonempty,
      isNumber_formTail plain.2 unit nonempty, smul_zero, add_zero]

end

mutual

/-- Multiplying out keeps to the form. -/
theorem distribute_form {factor : Quantity ℚ} : ∀ (t : Term ℚ) {f : LinearForm}
    {product : Combination ℚ}, factor.hasUnit = false ∨ t.hasUnit = false → HasForm t f →
    distribute factor t = .ok product → product.form = factor.scaling f
  | quantity q, f, product, apart, ht, h => by
    obtain rfl := ht.form
    rw [distribute] at h
    cases h
    rw [Combination.form_ofQuantity, Quantity.form_times apart]
    rfl
  | expression head tail, f, product, apart, ht, h => by
    obtain ⟨g, k, first, others, rfl⟩ := hasForm_expression_iff.mp ht
    rw [hasUnit, Bool.or_eq_false_iff] at apart
    rw [distribute] at h
    obtain ⟨start, left, right⟩ := bind_eq_ok_iff.mp h
    rw [Quantity.scaling_add, ← distribute_form head (apart.imp_right And.left) first left]
    exact distributeTail_form tail (apart.imp_right And.right) others right

theorem distributeTail_form {factor : Quantity ℚ} : ∀ (tail : List (Operator × Term ℚ))
    {f : LinearForm} {start product : Combination ℚ},
    factor.hasUnit = false ∨ hasUnitTail tail = false → HasFormTail tail f →
    distributeTail factor start tail = .ok product → product.form = start.form + factor.scaling f
  | [], f, start, product, apart, ht, h => by
    obtain rfl := ht.form
    rw [distributeTail] at h
    cases h
    rw [formTail, Quantity.scaling_zero, add_zero]
  | (op, t) :: rest, f, start, product, apart, ht, h => by
    obtain ⟨additive, g, k, first, others, rfl⟩ := hasFormTail_cons_iff.mp ht
    rw [hasUnitTail, Bool.or_eq_false_iff] at apart
    rw [distributeTail] at h
    obtain ⟨next, left, h⟩ := bind_eq_ok_iff.mp h
    obtain ⟨sum, step, right⟩ := bind_eq_ok_iff.mp h
    have here := distribute_form t (apart.imp_right And.left) first left
    rw [distributeTail_form rest (apart.imp_right And.right) others right,
      Combination.calculate_form additive step, here, Quantity.scaling_add,
      Quantity.scaling_smul, add_assoc]

end

theorem scale_form {t : Term ℚ} {f : LinearForm} (ht : HasForm t f) {factor : Quantity ℚ}
    {product : Combination ℚ} (h : t.scale factor = .ok product) :
    (factor.hasUnit = false ∨ t.hasUnit = false) ∧ product.form = factor.scaling f := by
  rw [scale] at h
  split at h
  · cases h
  · rename_i apart
    rw [Bool.and_eq_true, not_and_or, Bool.not_eq_true, Bool.not_eq_true] at apart
    exact ⟨apart, distribute_form t apart ht h⟩

/-- One of the factors has no unit at all. -/
theorem scale_product {t : Term ℚ} {f : LinearForm} (ht : HasForm t f) {factor : Quantity ℚ}
    {product : Combination ℚ} (h : t.scale factor = .ok product) :
    factor.form.IsNumber ∧ product.form = factor.form "" • f ∨
      f.IsNumber ∧ product.form = f "" • factor.form := by
  obtain ⟨apart, product⟩ := scale_form ht h
  cases unit : factor.hasUnit with
  | false =>
    rw [Quantity.scaling_plain unit] at product
    rw [Quantity.form_empty unit]
    exact .inl ⟨Quantity.isNumber_form unit, product⟩
  | true =>
    rw [Quantity.scaling_unit unit] at product
    have plain := apart.resolve_left (by simp [unit])
    exact .inr ⟨ht.form ▸ isNumber_form plain, product⟩

theorem negated_form {t : Term ℚ} {f : LinearForm} (ht : HasForm t f) {a : Combination ℚ}
    (h : t.negated = .ok a) : a.form = -f := by
  cases t with
  | quantity q =>
    obtain rfl := ht.form
    cases h
    rw [Combination.form_ofQuantity, Quantity.form_neg]
    rfl
  | expression head tail =>
    rw [(scale_form ht h).2, Quantity.scaling_unitless, neg_one_smul]

theorem absorbTail?_form {q : Quantity ℚ} {tail sum : List (Operator × Term ℚ)} {f : LinearForm}
    (ht : HasFormTail tail f) (h : absorbTail? q tail = some sum) :
    HasFormTail sum (f + q.form) := by
  obtain ⟨before, op, a, after, rfl, same, rfl⟩ := absorbTail?_eq_some h
  obtain ⟨g, _, first, behind, rfl⟩ := hasFormTail_append_iff.mp ht
  obtain ⟨additive, _, k, ⟨_, rfl⟩, others, rfl⟩ := hasFormTail_cons_iff.mp behind
  have changed : ((a.after op).plus q).form = op.sign • a.form + q.form := by
    rw [Quantity.form_plus (by rw [Quantity.unit_after, same]), Quantity.form_after]
  refine hasFormTail_append_iff.mpr ⟨g, ((a.after op).plus q).form + k, first, ?_, ?_⟩
  · split
    · rename_i zero
      rw [Quantity.form_of_isZero zero, zero_add]
      exact others
    · exact hasFormTail_signedOperand _ others
  · rw [changed, form]
    abel

theorem promote_form {tail : List (Operator × Term ℚ)} {t : Term ℚ} {f : LinearForm}
    (ht : HasFormTail tail f) (h : promote tail = .ok t) : HasForm t f := by
  cases tail with
  | nil =>
    obtain rfl := ht.form
    cases h
    exact hasForm_zero
  | cons o tail =>
    obtain ⟨op, s⟩ := o
    obtain ⟨additive, g, k, first, others, rfl⟩ := hasFormTail_cons_iff.mp ht
    cases op with
    | minus =>
      rw [promote] at h
      obtain ⟨head, negated, h⟩ := bind_eq_ok_iff.mp h
      cases h
      have turned := hasForm_toTerm head
      rw [negated_form first negated] at turned
      simpa [Operator.sign] using hasForm_ofOperands turned others
    | plus =>
      cases h
      simpa [Operator.sign] using hasForm_ofOperands first others
    | times | divide => cases additive

theorem absorb?_form {q : Quantity ℚ} {head sum : Term ℚ} {tail : List (Operator × Term ℚ)}
    {f g : LinearForm} (first : HasForm head f) (others : HasFormTail tail g)
    (h : absorb? q head tail = .ok (some sum)) : HasForm sum (f + g + q.form) := by
  have later {rest : List (Operator × Term ℚ)} (found : absorbTail? q tail = some rest) :
      HasForm (ofOperands ((.plus, head) :: rest)) (f + g + q.form) := by
    rw [add_assoc]
    exact hasForm_ofOperands first (absorbTail?_form others found)
  cases head with
  | quantity a =>
    rw [absorb?] at h
    split at h
    · rename_i same
      obtain rfl := first.form
      have sum := Quantity.form_plus ((Quantity.sameUnit_iff a q).mp same)
      have whole : (quantity a).form + g + q.form = (a.plus q).form + g := by
        rw [sum, add_right_comm]
        rfl
      rw [whole]
      dsimp only at h
      split at h
      · rename_i zero
        obtain ⟨t, promoted, h⟩ := bind_eq_ok_iff.mp h
        cases h
        rw [Quantity.form_of_isZero zero, zero_add]
        exact promote_form others promoted
      · cases h
        exact hasForm_ofOperands (hasForm_quantity _) others
    · obtain ⟨rest, found, rfl⟩ := Option.map_eq_some_iff.mp (Except.ok.inj h)
      exact later found
  | expression inner tail' =>
    obtain ⟨rest, found, rfl⟩ := Option.map_eq_some_iff.mp (Except.ok.inj h)
    exact later found

theorem addQuantity_form {t r : Term ℚ} {f : LinearForm} (ht : HasForm t f) {q : Quantity ℚ}
    (h : t.addQuantity q = .ok r) : HasForm r (f + q.form) := by
  cases t with
  | quantity a =>
    obtain rfl := ht.form
    obtain ⟨sum, added, h⟩ := bind_eq_ok_iff.mp h
    cases h
    have total := hasForm_toTerm sum
    rwa [Combination.addQuantity_form added, Combination.form_ofQuantity] at total
  | expression head tail =>
    obtain ⟨g, k, first, others, rfl⟩ := hasForm_expression_iff.mp ht
    rw [addQuantity] at h
    split at h
    · rename_i zero
      cases h
      rw [Quantity.form_of_isZero zero, add_zero]
      exact ht
    · obtain ⟨absorbed, found, h⟩ := bind_eq_ok_iff.mp h
      cases absorbed with
      | some sum =>
        cases h
        exact absorb?_form first others found
      | none =>
        dsimp only at h
        split at h
        · cases h
          have last := hasFormTail_signedOperand q hasFormTail_nil
          rw [add_zero] at last
          have extended := hasFormTail_append_iff.mpr ⟨k, _, others, last, rfl⟩
          exact hasForm_expression_iff.mpr ⟨g, _, first, extended, add_assoc _ _ _⟩
        · cases h

theorem addTo_form {q : Quantity ℚ} {head r : Term ℚ} {tail : List (Operator × Term ℚ)}
    {f : LinearForm} (ht : HasForm (expression head tail) f) (h : addTo q head tail = .ok r) :
    HasForm r (q.form + f) := by
  obtain ⟨g, k, first, others, rfl⟩ := hasForm_expression_iff.mp ht
  rw [addTo.eq_def] at h
  split at h
  · rename_i zero
    cases h
    rw [Quantity.form_of_isZero zero, zero_add]
    exact ht
  · obtain ⟨absorbed, found, h⟩ := bind_eq_ok_iff.mp h
    cases absorbed with
    | some sum =>
      cases h
      rw [add_comm]
      exact absorb?_form first others found
    | none =>
      dsimp only at h
      split at h
      · cases h
        refine hasForm_expression_iff.mpr ⟨_, _, hasForm_quantity q, ?_, rfl⟩
        cases head with
        | quantity a =>
          obtain rfl := first.form
          exact hasFormTail_signedOperand a others
        | expression inner tail' =>
          exact hasFormTail_cons_iff.mpr ⟨rfl, g, k, first, others, by simp [Operator.sign]⟩
      · cases h

theorem foldlM_addQuantity_form {t r : Term ℚ} {f : LinearForm} (ht : HasForm t f)
    {terms : List (Quantity ℚ)} (h : terms.foldlM addQuantity t = .ok r) :
    HasForm r (f + (terms.map Quantity.form).sum) := by
  induction terms generalizing t f with
  | nil =>
    cases h
    rw [List.map_nil, List.sum_nil, add_zero]
    exact ht
  | cons q terms ih =>
    obtain ⟨s, sum, others⟩ := foldlM_cons_eq_ok_iff.mp h
    rw [List.map_cons, List.sum_cons, ← add_assoc]
    exact ih (addQuantity_form ht sum) others

theorem addCombination_form {t r : Term ℚ} {f : LinearForm} (ht : HasForm t f)
    {a : Combination ℚ} (h : t.addCombination a = .ok r) : HasForm r (f + a.form) := by
  cases t with
  | quantity q =>
    obtain rfl := ht.form
    obtain ⟨sum, added, h⟩ := bind_eq_ok_iff.mp h
    cases h
    have total := hasForm_toTerm sum
    rwa [Combination.add_form added, Combination.form_ofQuantity] at total
  | expression head tail => exact foldlM_addQuantity_form ht h

theorem sub_form {s t r : Term ℚ} {f g : LinearForm} (hs : HasForm s f) (ht : HasForm t g)
    (h : s.sub t = .ok r) : HasForm r (f - g) := by
  obtain ⟨a, negated, added⟩ := bind_eq_ok_iff.mp h
  rw [sub_eq_add_neg, ← negated_form ht negated]
  exact addCombination_form hs added

mutual

/-- A sum is added operand by operand to what has been added so far, which may be anything. -/
theorem add_form : ∀ (t : Term ℚ) {s r : Term ℚ} {f g : LinearForm}, HasForm s f → HasForm t g →
    s.add t = .ok r → HasForm r (f + g)
  | quantity q, s, r, f, g, hs, ht, h => by
    obtain rfl := ht.form
    rw [add] at h
    exact addQuantity_form hs h
  | expression head tail, s, r, f, g, hs, ht, h => by
    cases s with
    | quantity q =>
      rw [add] at h
      obtain rfl := hs.form
      exact addTo_form ht h
    | expression inner others =>
      rw [add] at h
      obtain ⟨k, l, first, rest, rfl⟩ := hasForm_expression_iff.mp ht
      obtain ⟨sum, left, right⟩ := bind_eq_ok_iff.mp h
      rw [← add_assoc]
      exact addTail_form tail (add_form head hs first left) rest right

theorem addTail_form : ∀ (tail : List (Operator × Term ℚ)) {s r : Term ℚ} {f g : LinearForm},
    HasForm s f → HasFormTail tail g → addTail s tail = .ok r → HasForm r (f + g)
  | [], s, r, f, g, hs, ht, h => by
    obtain rfl := ht.form
    rw [addTail] at h
    cases h
    rw [formTail, add_zero]
    exact hs
  | (op, t) :: rest, s, r, f, g, hs, ht, h => by
    obtain ⟨additive, k, l, first, others, rfl⟩ := hasFormTail_cons_iff.mp ht
    rw [addTail_cons] at h
    obtain ⟨sum, left, right⟩ := bind_eq_ok_iff.mp h
    have step : HasForm sum (f + op.sign • k) := by
      cases op with
      | plus => simpa [Operator.sign] using add_form t hs first left
      | minus => simpa [Operator.sign, sub_eq_add_neg] using sub_form hs first left
      | times | divide => cases additive
    rw [← add_assoc]
    exact addTail_form rest step others right

end

theorem mul_form {s t r : Term ℚ} {f g : LinearForm} (hs : HasForm s f) (ht : HasForm t g)
    (h : s.mul t = .ok r) :
    ∃ product, HasForm r product ∧ Operator.Combines .times f g product := by
  obtain ⟨factor, product, rfl, ⟨rfl, scaled⟩ | ⟨rfl, scaled⟩⟩ := mul_eq_ok h
  · obtain rfl := ht.form
    exact ⟨_, hasForm_toTerm product, (scale_product hs scaled).symm⟩
  · obtain rfl := hs.form
    exact ⟨_, hasForm_toTerm product, scale_product ht scaled⟩

theorem div_form {s t r : Term ℚ} {f g : LinearForm} (hs : HasForm s f) (ht : HasForm t g)
    (h : s.div t = .ok r) :
    ∃ quotient, HasForm r quotient ∧ Operator.Combines .divide f g quotient := by
  obtain ⟨divisor, rfl, plain, nonzero, made⟩ := div_eq_ok h
  obtain rfl := ht.form
  have quotient : HasForm r (divisor.value⁻¹ • f) := by
    rcases made with ⟨q, rfl, rfl⟩ | ⟨product, scaled, rfl⟩
    · obtain rfl := hs.form
      exact ⟨rfl, Quantity.form_dividedBy q divisor⟩
    · have made := hasForm_toTerm product
      rwa [(scale_form hs scaled).2, Quantity.scaling_reciprocal plain] at made
  have empty : (quantity divisor).form "" = divisor.value := Quantity.form_empty plain
  have apart : divisor.value ≠ 0 := fun zero =>
    Bool.eq_false_iff.mp nonzero ((Rational.isZero_iff _).mpr zero)
  exact ⟨_, quotient, Quantity.isNumber_form plain, by rwa [empty], by rw [empty]⟩

/-- Arithmetic on sums of any shape is arithmetic on the forms they stand for. -/
theorem calculate_combines {s t r : Term ℚ} {op : Operator} (hs : s.isMultiplicative = false)
    (ht : t.isMultiplicative = false) (h : s.calculate op t = .ok r) :
    r.isMultiplicative = false ∧ op.Combines s.form t.form r.form := by
  have combined : ∃ result, HasForm r result ∧ op.Combines s.form t.form result := by
    have left : HasForm s s.form := ⟨hs, rfl⟩
    have right : HasForm t t.form := ⟨ht, rfl⟩
    cases op with
    | plus => exact ⟨_, add_form t left right h, rfl⟩
    | minus => exact ⟨_, sub_form left right h, rfl⟩
    | times => exact mul_form left right h
    | divide => exact div_form left right h
  obtain ⟨result, ⟨additive, rfl⟩, combines⟩ := combined
  exact ⟨additive, combines⟩

/-- `(-2px) - -3px + (1vh - 4px)` less `3px - 1vh + 0`: the two inner groups stay, and the value
in the tail that is negative goes away. -/
theorem calculate_combines_nested :
    let px (value : ℚ) : Term ℚ := quantity (.of value "px")
    let vh (value : ℚ) : Term ℚ := quantity (.of value "vh")
    let s := expression (expression (px (-2)) [])
      [(.minus, px (-3)), (.plus, expression (vh 1) [(.minus, px 4)])]
    let t := expression (px 3) [(.minus, vh 1), (.plus, zero)]
    let r := expression (expression (px (-2)) [])
      [(.plus, expression (vh 1) [(.minus, px 4)]), (.plus, vh 1)]
    s.isMultiplicative = false ∧ t.isMultiplicative = false ∧ s.calculate .minus t = .ok r ∧
      r.isMultiplicative = false ∧ Operator.Combines .minus s.form t.form r.form := by
  intro px vh s t r
  have hs : s.isMultiplicative = false := rfl
  have ht : t.isMultiplicative = false := rfl
  have h : s.calculate .minus t = .ok r := by decide +kernel
  exact ⟨hs, ht, h, calculate_combines hs ht h⟩

end UnitArith.Term
