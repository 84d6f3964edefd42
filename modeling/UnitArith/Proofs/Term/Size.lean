import UnitArith.Proofs.Term.Normal

/-! How large the results of arithmetic are. A combination has at most as many terms as its operands
have quantities, so the size of a result is bounded by the sizes of its operands. -/
namespace UnitArith

namespace Combination

variable {α : Type} [Number α]

theorem absorb?_length_le {q : Quantity α} {terms sum : List (Quantity α)}
    (h : absorb? q terms = some sum) : sum.length ≤ terms.length := by
  obtain ⟨before, a, after, rfl, _, _, rfl⟩ := absorb?_eq_some h
  rw [List.length_append, List.length_append, List.length_cons]
  split
  · omega
  · exact Nat.le_refl _

theorem addQuantity_length_le {a c : Combination α} {q : Quantity α} (h : a.addQuantity q = .ok c) :
    c.terms.length ≤ a.terms.length + 1 := by
  rcases addQuantity_eq_ok h with ⟨_, rfl⟩ | ⟨terms, absorbed, rfl⟩ | ⟨_, _, _, rfl⟩
  · exact Nat.le_succ _
  · exact Nat.le_succ_of_le (absorb?_length_le absorbed)
  · exact Nat.le_of_eq (List.length_append ..)

theorem addTo_length_le {a c : Combination α} {q : Quantity α} (h : a.addTo q = .ok c) :
    c.terms.length ≤ a.terms.length + 1 := by
  rcases addTo_eq_ok h with ⟨_, rfl⟩ | ⟨terms, absorbed, rfl⟩ | ⟨_, _, _, rfl⟩
  · exact Nat.le_succ _
  · exact Nat.le_succ_of_le (absorb?_length_le absorbed)
  · exact Nat.le_refl _

theorem foldlM_addQuantity_length_le {a c : Combination α} {terms : List (Quantity α)}
    (h : terms.foldlM addQuantity a = .ok c) :
    c.terms.length ≤ a.terms.length + terms.length := by
  induction terms generalizing a with
  | nil =>
    cases h
    exact Nat.le_refl _
  | cons q terms ih =>
    obtain ⟨b, sum, others⟩ := foldlM_cons_eq_ok_iff.mp h
    have first := addQuantity_length_le sum
    have rest := ih others
    rw [List.length_cons]
    omega

theorem length_ofQuantity_le (q : Quantity α) : (ofQuantity q).terms.length ≤ 1 := by
  rw [ofQuantity]
  split
  · exact Nat.zero_le 1
  · exact Nat.le_refl 1

theorem scale_length_le {a c : Combination α} {factor : Quantity α} (h : a.scale factor = .ok c) :
    c.terms.length ≤ a.terms.length := by
  rw [scale] at h
  split at h
  · cases h
  · cases h
    exact Nat.le_trans (List.length_filter_le ..) (Nat.le_of_eq (List.length_map ..))

theorem mul_length_le {a b c : Combination α} (h : a.mul b = .ok c) :
    c.terms.length ≤ a.terms.length + b.terms.length := by
  rw [mul] at h
  split at h
  · exact Nat.le_add_right_of_le (scale_length_le h)
  · exact Nat.le_add_left_of_le (scale_length_le h)
  · cases h

section Lawful

variable [LawfulNumber α]

theorem add_length_le {a b c : Combination α} (h : a.add b = .ok c) :
    c.terms.length ≤ a.terms.length + b.terms.length := by
  rw [add] at h
  split at h
  · rename_i q single _
    obtain ⟨_ | ⟨p, _ | _⟩⟩ := a
    · cases single
      rw [addTo, if_pos Quantity.isZero_zero] at h
      cases h
      exact Nat.le_add_left ..
    · exact Nat.le_trans (addTo_length_le h) (Nat.le_of_eq (Nat.add_comm ..))
    · cases single
  · exact foldlM_addQuantity_length_le h

theorem div_length_le {a b c : Combination α} (h : a.div b = .ok c) :
    c.terms.length ≤ a.terms.length + b.terms.length := by
  rw [div] at h
  split at h
  · cases h
  · rename_i divisor single
    split at h
    · cases h
    · split at h
      · cases h
      · rename_i nonzero
        split at h
        · cases h
          -- The divisor is not zero, so there is a term of it.
          have divides : 1 ≤ b.terms.length := by
            obtain ⟨_ | ⟨p, rest⟩⟩ := b
            · cases single
              exact absurd Quantity.isZero_zero nonzero
            · exact Nat.succ_pos _
          exact Nat.le_add_left_of_le (Nat.le_trans (length_ofQuantity_le _) divides)
        · exact Nat.le_add_right_of_le (scale_length_le h)

/-- No operator makes more terms than there were. -/
theorem calculate_length_le {a b c : Combination α} {op : Operator} (h : a.calculate op b = .ok c) :
    c.terms.length ≤ a.terms.length + b.terms.length := by
  cases op with
  | plus => exact add_length_le h
  | minus =>
    have sum := add_length_le h
    rwa [neg, List.length_map] at sum
  | times => exact mul_length_le h
  | divide => exact div_length_le h

end Lawful

end Combination

namespace Term

variable {α : Type} [Number α]

mutual

/-- All quantities, operators and expressions of a term, at any depth. -/
def size : Term α → Nat
  | quantity _ => 1
  | expression head tail => 1 + head.size + sizeTail tail

def sizeTail : List (Operator × Term α) → Nat
  | [] => 0
  | (_, t) :: rest => 1 + t.size + sizeTail rest

end

theorem size_pos (t : Term α) : 0 < t.size := by
  cases t with
  | quantity => exact Nat.one_pos
  | expression =>
    rw [size]
    omega

theorem sizeTail_append (tail rest : List (Operator × Term α)) :
    sizeTail (tail ++ rest) = sizeTail tail + sizeTail rest := by
  induction tail with
  | nil => rw [List.nil_append, sizeTail, Nat.zero_add]
  | cons operand tail ih =>
    rw [List.cons_append, sizeTail, sizeTail, ih]
    omega

theorem sizeTail_signedOperand (q : Quantity α) (rest : List (Operator × Term α)) :
    sizeTail (signedOperand q :: rest) = 2 + sizeTail rest := rfl

theorem sizeTail_map_signedOperand (terms : List (Quantity α)) :
    sizeTail (terms.map signedOperand) = 2 * terms.length := by
  induction terms with
  | nil => rfl
  | cons q terms ih =>
    rw [List.map_cons, sizeTail_signedOperand, ih, List.length_cons]
    omega

theorem size_toTerm_le (a : Combination α) :
    a.toTerm.size ≤ 1 ∨ 2 ≤ a.terms.length ∧ a.toTerm.size = 2 * a.terms.length := by
  obtain ⟨_ | ⟨head, _ | ⟨second, rest⟩⟩⟩ := a
  · exact .inl (Nat.le_refl 1)
  · exact .inl (Nat.le_refl 1)
  · right
    refine ⟨Nat.le_add_left .., ?_⟩
    rw [Combination.toTerm, size, sizeTail_map_signedOperand, size]
    simp only [List.length_cons]
    omega

theorem size_ofOperands_le (op : Operator) (head : Term α) (tail : List (Operator × Term α)) :
    (ofOperands ((op, head) :: tail)).size ≤ 1 + head.size + sizeTail tail := by
  cases tail with
  | nil =>
    rw [ofOperands, sizeTail]
    omega
  | cons operand tail => exact Nat.le_refl _

mutual

/-- Every quantity comes with an operator or with the expression that it begins. -/
theorem two_mul_quantities_le : ∀ t : Term α, 2 * t.quantities.length ≤ t.size + 1
  | quantity _ => Nat.le_refl 2
  | expression head tail => by
    have first := two_mul_quantities_le head
    have others := two_mul_quantitiesTail_le tail
    rw [quantities, List.length_append, size]
    omega

theorem two_mul_quantitiesTail_le :
    ∀ tail : List (Operator × Term α), 2 * (quantitiesTail tail).length ≤ sizeTail tail
  | [] => Nat.le_refl 0
  | (_, t) :: rest => by
    have first := two_mul_quantities_le t
    have others := two_mul_quantitiesTail_le rest
    rw [quantitiesTail, List.length_append, sizeTail]
    omega

end

mutual

theorem distribute_length_le [LawfulNumber α] (factor : Quantity α) :
    ∀ (t : Term α) {a : Combination α}, distribute factor t = .ok a →
      a.terms.length ≤ t.quantities.length
  | quantity q, a, h => by
    cases h
    exact Combination.length_ofQuantity_le _
  | expression head tail, a, h => by
    rw [distribute] at h
    obtain ⟨first, multiplied, folded⟩ := bind_eq_ok_iff.mp h
    have start := distribute_length_le factor head multiplied
    have whole := distributeTail_length_le factor tail folded
    rw [quantities, List.length_append]
    omega

theorem distributeTail_length_le [LawfulNumber α] (factor : Quantity α) :
    ∀ (tail : List (Operator × Term α)) {product a : Combination α},
      distributeTail factor product tail = .ok a →
        a.terms.length ≤ product.terms.length + (quantitiesTail tail).length
  | [], product, a, h => by
    cases h
    exact Nat.le_add_right ..
  | (op, t) :: rest, product, a, h => by
    rw [distributeTail] at h
    obtain ⟨next, multiplied, h⟩ := bind_eq_ok_iff.mp h
    obtain ⟨sum, combined, folded⟩ := bind_eq_ok_iff.mp h
    have one := distribute_length_le factor t multiplied
    have both := Combination.calculate_length_le combined
    have whole := distributeTail_length_le factor rest folded
    rw [quantitiesTail, List.length_append]
    omega

end

/-- Written out again, what has no more terms than a term has quantities is no larger. -/
theorem size_toTerm_le_size {t : Term α} {a : Combination α}
    (short : a.terms.length ≤ t.quantities.length) : a.toTerm.size ≤ t.size := by
  have pos := t.size_pos
  rcases size_toTerm_le a with one | ⟨several, whole⟩
  · omega
  · cases t with
    | quantity q => exact absurd (Nat.le_trans several short) (by simp [quantities])
    | expression head tail =>
      have first := two_mul_quantities_le head
      have others := two_mul_quantitiesTail_le tail
      rw [quantities, List.length_append] at short
      rw [size]
      omega

theorem quantities_length_le (t : Term α) : t.quantities.length ≤ t.size := by
  have := two_mul_quantities_le t
  have := t.size_pos
  omega

theorem size_absorbTail?_le {q : Quantity α} {tail rest : List (Operator × Term α)}
    (h : absorbTail? q tail = some rest) : sizeTail rest ≤ sizeTail tail := by
  obtain ⟨before, op, a, after, rfl, _, rfl⟩ := absorbTail?_eq_some h
  rw [sizeTail_append, sizeTail_append, sizeTail]
  split
  · omega
  · have one : (quantity a).size = 1 := rfl
    rw [sizeTail_signedOperand]
    omega

section Lawful

variable [LawfulNumber α]

theorem scale_length_le {t : Term α} {factor : Quantity α} {a : Combination α}
    (h : t.scale factor = .ok a) : a.terms.length ≤ t.quantities.length := by
  rw [scale] at h
  split at h
  · cases h
  · exact distribute_length_le factor t h

theorem negated_length_le {t : Term α} {a : Combination α} (h : t.negated = .ok a) :
    a.terms.length ≤ t.quantities.length := by
  cases t with
  | quantity q =>
    cases h
    exact Combination.length_ofQuantity_le _
  | expression => exact scale_length_le h

theorem size_promote_le {tail : List (Operator × Term α)} {t : Term α} (h : promote tail = .ok t) :
    t.size ≤ 1 + sizeTail tail := by
  cases tail with
  | nil =>
    cases h
    exact Nat.le_refl 1
  | cons operand rest =>
    obtain ⟨op, next⟩ := operand
    rw [sizeTail]
    cases op with
    | minus =>
      rw [promote] at h
      obtain ⟨a, negated, h⟩ := bind_eq_ok_iff.mp h
      cases h
      have turned := size_toTerm_le_size (negated_length_le negated)
      have whole := size_ofOperands_le .plus a.toTerm rest
      omega
    | plus | times | divide =>
      cases h
      have whole := size_ofOperands_le .plus next rest
      omega

theorem size_absorb?_le {q : Quantity α} {head sum : Term α} {tail : List (Operator × Term α)}
    (h : absorb? q head tail = .ok (some sum)) : sum.size ≤ (expression head tail).size := by
  have later {rest : List (Operator × Term α)} (found : absorbTail? q tail = some rest) :
      (ofOperands ((.plus, head) :: rest)).size ≤ (expression head tail).size := by
    have shorter := size_absorbTail?_le found
    have whole := size_ofOperands_le .plus head rest
    rw [size]
    omega
  cases head with
  | quantity a =>
    rw [absorb?] at h
    split at h
    · dsimp only at h
      split at h
      · obtain ⟨t, promoted, h⟩ := bind_eq_ok_iff.mp h
        cases h
        have whole := size_promote_le promoted
        rw [size, size]
        omega
      · cases h
        exact size_ofOperands_le .plus _ tail
    · obtain ⟨rest, found, rfl⟩ := Option.map_eq_some_iff.mp (Except.ok.inj h)
      exact later found
  | expression inner tail' =>
    obtain ⟨rest, found, rfl⟩ := Option.map_eq_some_iff.mp (Except.ok.inj h)
    exact later found

theorem size_addQuantity_le {t r : Term α} {q : Quantity α} (h : t.addQuantity q = .ok r) :
    r.size ≤ t.size + 3 := by
  cases t with
  | quantity a =>
    obtain ⟨sum, added, h⟩ := bind_eq_ok_iff.mp h
    cases h
    have one := Combination.length_ofQuantity_le a
    have two := Combination.addQuantity_length_le added
    rcases size_toTerm_le sum with single | ⟨_, whole⟩
    · omega
    · rw [size]
      omega
  | expression head tail =>
    rw [addQuantity] at h
    split at h
    · cases h
      exact Nat.le_add_right ..
    · obtain ⟨absorbed, found, h⟩ := bind_eq_ok_iff.mp h
      cases absorbed with
      | some sum =>
        cases h
        exact Nat.le_add_right_of_le (size_absorb?_le found)
      | none =>
        dsimp only at h
        split at h
        · cases h
          rw [size, size, sizeTail_append, sizeTail_signedOperand, sizeTail]
          omega
        · cases h

theorem size_addTo_le {q : Quantity α} {head r : Term α} {tail : List (Operator × Term α)}
    (h : addTo q head tail = .ok r) : r.size ≤ (expression head tail).size + 2 := by
  rw [addTo.eq_def] at h
  split at h
  · cases h
    exact Nat.le_add_right ..
  · obtain ⟨absorbed, found, h⟩ := bind_eq_ok_iff.mp h
    cases absorbed with
    | some sum =>
      cases h
      exact Nat.le_add_right_of_le (size_absorb?_le found)
    | none =>
      dsimp only at h
      split at h
      · cases h
        rw [size, size, size]
        cases head with
        | quantity a =>
          rw [sizeTail_signedOperand, size]
          omega
        | expression =>
          rw [sizeTail]
          omega
      · cases h

theorem size_foldlM_addQuantity_le {t r : Term α} {terms : List (Quantity α)}
    (h : terms.foldlM addQuantity t = .ok r) : r.size ≤ t.size + 3 * terms.length := by
  induction terms generalizing t with
  | nil =>
    cases h
    exact Nat.le_add_right ..
  | cons q terms ih =>
    obtain ⟨s, sum, others⟩ := foldlM_cons_eq_ok_iff.mp h
    have first := size_addQuantity_le sum
    have rest := ih others
    rw [List.length_cons]
    omega

theorem size_addCombination_le {s r : Term α} {a : Combination α}
    (h : s.addCombination a = .ok r) : r.size ≤ s.size + 3 * a.terms.length := by
  cases s with
  | quantity q =>
    obtain ⟨sum, added, h⟩ := bind_eq_ok_iff.mp h
    cases h
    have one := Combination.length_ofQuantity_le q
    have both := Combination.add_length_le added
    rw [size]
    rcases size_toTerm_le sum with single | ⟨several, whole⟩
    · omega
    · omega
  | expression => exact size_foldlM_addQuantity_le h

theorem size_sub_le {s t r : Term α} (h : s.sub t = .ok r) : r.size ≤ s.size + 3 * t.size := by
  obtain ⟨a, negated, added⟩ := bind_eq_ok_iff.mp h
  have short := negated_length_le negated
  have spread := t.quantities_length_le
  have whole := size_addCombination_le added
  omega

theorem size_mul_le {s t r : Term α} (h : s.mul t = .ok r) : r.size ≤ s.size + t.size := by
  obtain ⟨factor, product, rfl, ⟨rfl, scaled⟩ | ⟨rfl, scaled⟩⟩ := mul_eq_ok h
  · exact Nat.le_add_right_of_le (size_toTerm_le_size (scale_length_le scaled))
  · exact Nat.le_add_left_of_le (size_toTerm_le_size (scale_length_le scaled))

theorem size_div_le {s t r : Term α} (h : s.div t = .ok r) : r.size ≤ s.size := by
  obtain ⟨divisor, rfl, _, _, ⟨q, rfl, rfl⟩ | ⟨product, scaled, rfl⟩⟩ := div_eq_ok h
  · exact Nat.le_refl 1
  · exact size_toTerm_le_size (scale_length_le scaled)

/-- Only a sum recurs. -/
theorem size_calculate_le_of_add {s t r : Term α} {op : Operator}
    (add : ∀ {sum}, s.add t = .ok sum → sum.size ≤ s.size + 3 * t.size)
    (h : s.calculate op t = .ok r) : r.size ≤ s.size + 3 * t.size := by
  cases op with
  | plus => exact add h
  | minus => exact size_sub_le h
  | times =>
    have := size_mul_le h
    omega
  | divide => exact Nat.le_add_right_of_le (size_div_le h)

end Lawful

mutual

theorem size_add_le [LawfulNumber α] : ∀ (t : Term α) {s r : Term α}, s.add t = .ok r →
    r.size ≤ s.size + 3 * t.size
  | quantity q, s, r, h => by
    rw [add] at h
    exact size_addQuantity_le h
  | expression head tail, s, r, h => by
    cases s with
    | quantity q =>
      rw [add] at h
      have whole := size_addTo_le h
      have pos := head.size_pos
      rw [size] at whole ⊢
      rw [size]
      omega
    | expression inner others =>
      rw [add] at h
      obtain ⟨sum, left, right⟩ := bind_eq_ok_iff.mp h
      have first := size_add_le head left
      have rest := size_addTail_le tail right
      rw [size] at first ⊢
      rw [size]
      omega

theorem size_addTail_le [LawfulNumber α] : ∀ (tail : List (Operator × Term α)) {s r : Term α},
    addTail s tail = .ok r → r.size ≤ s.size + 3 * sizeTail tail
  | [], s, r, h => by
    rw [addTail] at h
    cases h
    exact Nat.le_add_right ..
  | (op, t) :: rest, s, r, h => by
    rw [addTail_cons] at h
    obtain ⟨sum, left, right⟩ := bind_eq_ok_iff.mp h
    have first := size_calculate_le_of_add (fun added => size_add_le t added) left
    have others := size_addTail_le rest right
    rw [sizeTail]
    omega

end

/-- A result is not much larger than its operands together. -/
theorem size_calculate_le [LawfulNumber α] {s t r : Term α} {op : Operator}
    (h : s.calculate op t = .ok r) : r.size ≤ s.size + 3 * t.size :=
  size_calculate_le_of_add (fun added => size_add_le t added) h

end Term

end UnitArith
