import UnitArith.Proofs.Term.Normal
import UnitArith.Proofs.Token.Spelling
import UnitArith.Reduce

/-! Reading undoes writing on normal terms. The text of a sum is a chain of tokens that stand
apart, and adding its quantities up again puts each of them back in its place. -/
namespace UnitArith

theorem Double.isFinite_neg (x : Float) : (-x).isFinite = x.isFinite := by
  change (view (-x)).isFinite = (view x).isFinite
  rw [view_neg]
  cases view x <;> rfl

/-- Where there is neither a zero nor NaN, a sign is seen. -/
theorem Double.isNegative_neg_of_nonnegative {x : Float} (finite : x.isFinite = true)
    (nonzero : Number.isZero x = false) (nonnegative : Number.isNegative x = false) :
    Number.isNegative (-x) = true := by
  change (view x).isFinite = true at finite
  rw [← Bool.not_eq_true, isZero_iff] at nonzero
  rw [← Bool.not_eq_true, isNegative_iff] at nonnegative
  rw [isNegative_iff, view_neg]
  cases hx : view x with
  | notANumber | infinity _ =>
    rw [hx] at finite
    cases finite
  | zero s => exact absurd ⟨s, hx⟩ nonzero
  | finite s m e positive =>
    rw [hx] at nonnegative
    cases s with
    | positive => trivial
    | negative => exact absurd trivial nonnegative

namespace Quantity

theorem isNegative_neg {q : Quantity Float} (finite : q.value.isFinite = true)
    (nonzero : q.isZero = false) (nonnegative : q.isNegative = false) :
    q.neg.isNegative = true := by
  rw [isNegative, value_neg nonzero]
  exact Double.isNegative_neg_of_nonnegative finite nonzero nonnegative

theorem isFinite_after (op : Operator) {q : Quantity Float} (finite : q.value.isFinite = true)
    (nonzero : q.isZero = false) : (q.after op).value.isFinite = true := by
  rw [after]
  split
  · rwa [value_neg nonzero, Double.isFinite_neg]
  · exact finite

end Quantity

namespace Term

variable {α : Type} [Number α]

section Lawful

variable [LawfulNumber α]

theorem Summand.eq_signedOperand {operand : Operator × Term α} {q : Quantity α}
    (h : Summand operand q) (signed : q.isNegative = false → q.neg.isNegative = true) :
    operand = signedOperand q := by
  cases h with
  | @mk op p additive nonnegative =>
    cases op with
    | plus => simp [signedOperand, Quantity.signed, nonnegative]
    | minus =>
      have negative : p.neg.isNegative = true := by
        by_contra positive
        have back := signed (by simpa using positive)
        rw [Quantity.after_minus, Quantity.neg_neg, nonnegative] at back
        cases back
      simp [signedOperand, Quantity.signed, negative, Quantity.abs_of_isNegative negative]
    | times => cases additive
    | divide => cases additive

theorem summands_eq {tail : List (Operator × Term α)} {terms : List (Quantity α)}
    (h : List.Forall₂ Summand tail terms)
    (signed : ∀ q ∈ terms, q.isNegative = false → q.neg.isNegative = true) :
    tail = terms.map signedOperand := by
  induction h with
  | nil => rfl
  | cons first others ih =>
    obtain ⟨sign, signed⟩ := List.forall_mem_cons.mp signed
    rw [List.map_cons, ← first.eq_signedOperand sign, ← ih signed]

/-- Where every quantity has a sign, a combination is written out in one way. -/
theorem Represents.eq_toTerm {t : Term α} {a : Combination α} (h : Represents t a)
    (signed : ∀ q ∈ a.terms, q.isNegative = false → q.neg.isNegative = true) : t = a.toTerm := by
  cases h with
  | quantity q =>
    cases zero : q.isZero with
    | true =>
      rw [Combination.ofQuantity_of_isZero zero, Quantity.eq_zero zero]
      rfl
    | false =>
      rw [Combination.ofQuantity_of_nonzero zero]
      rfl
  | @sum head second tail rest operands =>
    rw [summands_eq operands fun q hq => signed q (List.mem_cons_of_mem head hq)]
    rfl

end Lawful

/-- The operands of a sum, as they stand in the text. -/
def chain (operands : List (Operator × Quantity α)) : List (Token α) :=
  operands.flatMap fun o => [.operator o.1, .quantity o.2]

theorem chain_cons (o : Operator × Quantity α) (operands : List (Operator × Quantity α)) :
    chain (o :: operands) = .operator o.1 :: .quantity o.2 :: chain operands :=
  rfl

theorem exists_chain (left : Grammar.Sum α) (operands : List (Operator × Quantity α))
    (additive : ∀ o ∈ operands, o.1.isAdditive = true) :
    ∃ e : Grammar.Sum α, e.tokens = left.tokens ++ chain operands ∧
      e.evaluate =
        left.evaluate >>= fun s => addTail s (operands.map fun o => (o.1, quantity o.2)) := by
  induction operands generalizing left with
  | nil =>
    refine ⟨left, (List.append_nil _).symm, ?_⟩
    cases left.evaluate with
    | ok s => simp only [List.map_nil, addTail, bind, Except.bind]
    | error e => rfl
  | cons o operands ih =>
    obtain ⟨first, others⟩ := List.forall_mem_cons.mp additive
    obtain ⟨e, tokens, evaluated⟩ := ih (.join left o.1 first (.factor (.quantity o.2))) others
    refine ⟨e, ?_, ?_⟩
    · rw [tokens, Grammar.Sum.tokens, List.append_assoc]
      rfl
    · rw [evaluated, Grammar.Sum.evaluate]
      cases left.evaluate with
      | ok s =>
        rw [List.map_cons]
        simp only [addTail_cons, Grammar.Product.evaluate, Grammar.Factor.evaluate, bind,
          Except.bind]
      | error e => rfl

theorem spellTail_map (operands : List (Operator × Quantity Float)) :
    spellTail (operands.map fun o => (o.1, quantity o.2)) = Token.spacedAfter (chain operands) := by
  induction operands with
  | nil => rfl
  | cons o operands ih =>
    rw [List.map_cons, spellTail, ih, spellOperand, chain_cons, Token.spacedAfter,
      Token.spaced_cons, Token.spacedAfter, Token.spaced_cons]
    rfl

/-- The quantities of a sum, added up from the left, make the sum again. -/
theorem addTail_operands {head : Quantity Float} {operands : List (Operator × Quantity Float)}
    (several : operands ≠ [])
    (normal : (⟨head :: operands.map fun o => o.2.after o.1⟩ : Combination Float).IsNormal)
    (signs : ∀ o ∈ operands, o.1.isAdditive = true ∧ o.2.isNegative = false)
    (finite : ∀ q ∈ head :: operands.map Prod.snd, q.value.isFinite = true) :
    addTail (quantity head) (operands.map fun o => (o.1, quantity o.2)) =
      .ok (.expression (quantity head) (operands.map fun o => (o.1, quantity o.2))) := by
  have summands := summands_iff.mpr ⟨operands, rfl, rfl, signs⟩
  have signed : ∀ q ∈ head :: operands.map (fun o => o.2.after o.1),
      q.isNegative = false → q.neg.isNegative = true := by
    intro q hq
    have nonzero := normal.nonzero q hq
    refine Quantity.isNegative_neg ?_ nonzero
    rcases List.mem_cons.mp hq with rfl | hq
    · exact finite q (List.mem_cons_self ..)
    · obtain ⟨o, ho, rfl⟩ := List.mem_map.mp hq
      rw [Quantity.isZero_after] at nonzero
      exact Quantity.isFinite_after o.1
        (finite o.2 (List.mem_cons_of_mem head (List.mem_map_of_mem ho))) nonzero
  obtain ⟨second, rest, rfl⟩ := List.exists_cons_of_ne_nil several
  have units := fun q hq => normal.hasUnit_of_several (q := q) rfl hq
  have sum := Combination.foldlM_addQuantity_append (List.singleton_append ▸ units)
    (List.singleton_append ▸ normal.distinct)
  have agrees := addTail_agrees (.quantity head) (Combination.ofQuantity_isNormal head) summands
  rw [Combination.ofQuantity_of_nonzero (normal.nonzero head (List.mem_cons_self ..)), sum]
    at agrees
  generalize addTail (quantity head) _ = x at agrees ⊢
  cases agrees with
  | ok related =>
    rw [related.eq_toTerm signed, (Represents.sum summands).eq_toTerm signed]
    rfl

/-- The tokens that a normal term is written with. Where all values have a numeral, their tree
comes to the term. -/
theorem IsNormal.exists_tree {t : Term Float} (normal : t.IsNormal) :
    ∃ (e : Grammar.Sum Float) (head : Quantity Float) (tokens : List (Token Float)),
      e.tokens = .quantity head :: tokens ∧ t.spell = Token.spaced e.tokens ∧
      (∀ q, .quantity q ∈ e.tokens ↔ q ∈ t.quantities) ∧ Token.Unsigned tokens ∧
      ((∀ q ∈ t.quantities, q.value.isFinite = true) → e.evaluate = .ok t) := by
  cases normal with
  | @quantity q zero =>
    refine ⟨.product (.factor (.quantity q)), q, [], rfl, ?_, ?_, nofun, fun _ => rfl⟩
    · exact (List.append_nil _).symm
    · intro p
      rw [quantities, List.mem_singleton]
      exact List.mem_singleton.trans ⟨Token.quantity.inj, congrArg _⟩
  | @sum head operands several nonzero units distinct operators nonnegative =>
    have normal := (isNormal_operands_iff head several).mpr ⟨nonzero, units, distinct⟩
    have additive : ∀ o ∈ operands, o.1.isAdditive = true := fun o ho =>
      (isAdditive_iff o.1).mpr (operators o ho)
    obtain ⟨e, tokens, evaluated⟩ :=
      exists_chain (.product (.factor (.quantity head))) operands additive
    have tokens : e.tokens = .quantity head :: chain operands := tokens
    rw [quantities, quantities, List.singleton_append, quantitiesTail_map]
    refine ⟨e, head, chain operands, tokens, ?_, ?_, ?_, ?_⟩
    · rw [tokens, Token.spaced_cons, spell, spellTail_map]
      rfl
    · intro q
      rw [tokens]
      simp [chain]
    · intro q hq
      obtain ⟨o, ho, hq⟩ := List.mem_flatMap.mp hq
      obtain rfl : q = o.2 := by simpa using hq
      exact nonnegative o ho
    · intro finite
      rw [evaluated]
      exact addTail_operands several normal (fun o ho => ⟨additive o ho, nonnegative o ho⟩) finite

theorem IsNormal.reads {t : Term Float} (normal : t.IsNormal)
    (legible : ∀ q ∈ t.quantities, q.Legible) {units : AllowedUnits}
    (accepted : ∀ q ∈ t.quantities, units.accepts q.unit = true) :
    Text.normalize t.text = t.text ∧ ofText units t.text = .ok (some t) := by
  obtain ⟨e, head, tokens, whole, text, same, unsigned, evaluated⟩ := normal.exists_tree
  have evaluated := evaluated fun q hq => (legible q hq).finite
  have legible : Token.Legible e.tokens := fun q hq => legible q ((same q).mp hq)
  have written := Token.written_spaced legible fun q hq => accepted q ((same q).mp hq)
  have read : Token.ofText units t.text = .ok e.tokens :=
    Token.ofText_of_written (by rwa [Term.text, text, String.toList_ofList])
  have parsed : ofTokens e.tokens = .ok (some t) := by
    have parsed := parseOperand_tokens e
    rw [evaluated] at parsed
    rw [whole] at parsed ⊢
    rw [ofTokens, parsed]
    rfl
  constructor
  · rw [Term.text, text, whole]
    rw [whole] at legible
    exact Token.normalize_spaced legible unsigned
  · rw [ofText, read]
    simp only [parsed]

/-- A normal term with finite values is read from its text as it was, whatever units are
allowed as long as its own are. -/
theorem ofText_text {t : Term Float} (normal : t.IsNormal)
    (legible : ∀ q ∈ t.quantities, q.Legible) (setting : UnitSetting)
    (accepted : ∀ q ∈ t.quantities, setting.allowed.accepts q.unit = true) :
    Text.normalize t.text = t.text ∧ ofText setting.allowed t.text = .ok (some t) :=
  normal.reads legible accepted

theorem ofText_text_signed :
    Text.normalize "-5px - 3.5vh + 2%" = "-5px - 3.5vh + 2%" ∧
    ofText UnitSetting.default.allowed "-5px - 3.5vh + 2%" =
      .ok (some (.expression (.quantity (.of (-5 : Float) "px"))
        [(.minus, .quantity (.of 3.5 "vh")), (.plus, .quantity (.of 2 "%"))])) := by
  have normal : IsNormal (.expression (.quantity (.of (-5 : Float) "px"))
      [(.minus, .quantity (.of 3.5 "vh")), (.plus, .quantity (.of 2 "%"))]) :=
    @IsNormal.sum Float _ (.of (-5) "px") [(.minus, .of 3.5 "vh"), (.plus, .of 2 "%")]
      (by simp) (by decide +kernel) (by decide +kernel) (by decide +kernel) (by decide)
      (by decide +kernel)
  have legible : ∀ q ∈ quantities (.expression (.quantity (.of (-5 : Float) "px"))
      [(.minus, .quantity (.of 3.5 "vh")), (.plus, .quantity (.of 2 "%"))]), q.Legible := by
    intro q hq
    simp only [quantities, quantitiesTail, List.append_nil, List.singleton_append, List.mem_cons,
      List.not_mem_nil, or_false] at hq
    rcases hq with rfl | rfl | rfl
    · exact Quantity.legible_of (by decide +kernel) (.inr (by simp))
    · exact Quantity.legible_of (by decide +kernel) (.inr (by simp))
    · exact Quantity.legible_of (by decide +kernel) (.inl rfl)
  have text : Term.text (.expression (.quantity (.of (-5 : Float) "px"))
      [(.minus, .quantity (.of 3.5 "vh")), (.plus, .quantity (.of 2 "%"))]) =
      "-5px - 3.5vh + 2%" := by
    decide +kernel
  have result := ofText_text normal legible .default (by decide +kernel)
  rwa [text] at result

end Term

end UnitArith
