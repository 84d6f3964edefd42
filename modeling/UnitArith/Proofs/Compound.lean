import UnitArith.Proofs.Reduce
import UnitArith.Proofs.Token.Cut

/-! What is marked as a calculation. Whether a text is more than one operand is decided on its
characters alone, and on the texts of results the answer is whether the term is an expression. -/
namespace UnitArith

open Text (InOperand IsPunctuation UnitText isBlank lowerChar)
open Text.Pattern (operation)

namespace Text

theorem not_isPunctuation {c : Char} (inOperand : InOperand (lowerChar c)) :
    ¬ IsPunctuation c := by
  intro punctuation
  rw [punctuation.lowerChar] at inOperand
  rcases punctuation with rfl | rfl | ⟨op, rfl⟩
  · exact absurd inOperand (by decide)
  · exact absurd inOperand (by decide)
  · cases op <;> exact absurd inOperand (by decide)

theorem ne_parenthesis {c : Char} (plain : ¬ IsPunctuation c) : c ≠ '(' ∧ c ≠ ')' :=
  ⟨fun same => plain (.inl same), fun same => plain (.inr (.inl same))⟩

namespace Pattern

theorem occursIn_append {γ : Type} {p : Pattern γ} (before : List Char) {cs : List Char}
    (found : p.occursIn cs = true) : p.occursIn (before ++ cs) = true := by
  induction before with
  | nil => exact found
  | cons c before ih => rw [List.cons_append, occursIn, ih, Bool.or_true]

theorem operation_eq_none {c : Char} {cs : List Char} (front : c ≠ '(' ∧ c ≠ ')')
    (plain : ∀ d ∈ cs, ¬ IsPunctuation d) : operation (c :: cs) = none := by
  have group : (c == '(' || c == ')') = false := by simp [front]
  rw [operation, group]
  cases blank : isBlank c with
  | true => rfl
  | false =>
    cases whole : cs.dropWhile isBlank with
    | nil => rfl
    | cons d rest =>
      have member : d ∈ cs := List.dropWhile_subset _ (whole ▸ List.mem_cons_self ..)
      cases known : Operator.ofChar? d with
      | none => simp [known]
      | some op =>
        exact absurd (.inr (.inr ⟨op, (Operator.toChar_of_ofChar? known).symm⟩)) (plain d member)

/-- A first character has nothing in front, so it may be a sign. -/
theorem occursIn_operation_eq_false {c : Char} {cs : List Char} (front : c ≠ '(' ∧ c ≠ ')')
    (plain : ∀ d ∈ cs, ¬ IsPunctuation d) : operation.occursIn (c :: cs) = false := by
  induction cs generalizing c with
  | nil => rw [occursIn, operation_eq_none front plain]; rfl
  | cons d cs ih =>
    obtain ⟨first, others⟩ := List.forall_mem_cons.mp plain
    rw [occursIn, operation_eq_none front plain, ih (ne_parenthesis first) others]
    rfl

theorem occursIn_operation_behind {c : Char} (nonblank : isBlank c = false) (op : Operator)
    (before cs : List Char) :
    operation.occursIn (before ++ c :: ' ' :: op.toChar :: cs) = true := by
  refine occursIn_append before ?_
  have stop : isBlank op.toChar = false := by cases op <;> decide
  have space : isBlank ' ' = true := rfl
  have found : (operation (c :: ' ' :: op.toChar :: cs)).isSome = true := by
    by_cases group : c = '(' ∨ c = ')'
    · simp [operation, group]
    · simp [operation, group, nonblank, space, stop]
  rw [occursIn, found, Bool.true_or]

end Pattern

end Text

namespace Quantity

variable {q : Quantity Float}

/-- A quantity is written without blanks and, behind its first character, without punctuation. -/
theorem exists_plain (letters : UnitText q.unit.toList) :
    ∃ c cs, q.spell = c :: cs ∧ (c ≠ '(' ∧ c ≠ ')') ∧ (∀ d ∈ cs, ¬ IsPunctuation d) ∧
      ∀ d ∈ c :: cs, isBlank d = false := by
  obtain ⟨signs, body, whole, signed, inOperand, _⟩ := exists_body letters
  have plain : ∀ d ∈ body, ¬ IsPunctuation d := fun d hd =>
    Text.not_isPunctuation (inOperand d hd).2
  have nonblank : ∀ d ∈ body, isBlank d = false := by
    intro d hd
    by_contra blank
    rw [Bool.not_eq_false] at blank
    have inside := (inOperand d hd).2
    rw [Text.lowerChar_of_isBlank blank] at inside
    rw [inside.not_isBlank] at blank
    cases blank
  rcases signed with rfl | rfl
  · rw [List.nil_append] at whole
    obtain ⟨c, cs, rfl⟩ := List.exists_cons_of_ne_nil (whole ▸ spell_ne_nil letters)
    obtain ⟨first, others⟩ := List.forall_mem_cons.mp plain
    exact ⟨c, cs, whole, Text.ne_parenthesis first, others, nonblank⟩
  · exact ⟨'-', body, whole, by decide, plain, List.forall_mem_cons.mpr ⟨by decide, nonblank⟩⟩

end Quantity

namespace Term

theorem not_isCompound_quantity {q : Quantity Float} (letters : UnitText q.unit.toList) :
    isCompound (quantity q).text = false := by
  obtain ⟨c, cs, whole, front, plain, _⟩ := q.exists_plain letters
  rw [isCompound, text, String.toList_ofList, spell, whole]
  exact Text.Pattern.occursIn_operation_eq_false front plain

theorem isCompound_expression {q : Quantity Float} (letters : UnitText q.unit.toList)
    {tail : List (Operator × Term Float)} (several : tail ≠ []) :
    isCompound (expression (quantity q) tail).text = true := by
  obtain ⟨⟨op, t⟩, rest, rfl⟩ := List.exists_cons_of_ne_nil several
  obtain ⟨c, cs, whole, _, _, nonblank⟩ := q.exists_plain letters
  obtain ⟨init, last, same⟩ := List.eq_nil_or_concat' (c :: cs) |>.resolve_left (by simp)
  have behind : isBlank last = false := nonblank last (by simp [same])
  have found := Text.Pattern.occursIn_operation_behind behind op init
    (' ' :: (spellOperand t ++ spellTail rest))
  rw [isCompound, text, String.toList_ofList, spell, spellOperand, spellTail, whole, same,
    List.append_assoc]
  exact found

/-- The text of a normal term shows how many quantities remain, also where the values have no
numeral. -/
theorem IsNormal.isCompound_cases {t : Term Float} (normal : t.IsNormal)
    (letters : ∀ q ∈ t.quantities, UnitText q.unit.toList) :
    (∃ head tail, t = Term.expression head tail) ∧ 2 ≤ t.quantities.length ∧
        isCompound t.text = true ∨
      (∃ q, t = Term.quantity q) ∧ isCompound t.text = false := by
  cases normal with
  | @quantity q zero =>
    exact .inr ⟨⟨q, rfl⟩, not_isCompound_quantity (letters q (List.mem_singleton.mpr rfl))⟩
  | @sum head operands several =>
    have first := letters head (List.mem_append_left _ (List.mem_singleton.mpr rfl))
    have operands' : operands.map (fun o => (o.1, Term.quantity o.2)) ≠ [] := by
      simpa using several
    have more := List.length_pos_iff.mpr several
    refine .inl ⟨⟨_, _, rfl⟩, ?_, isCompound_expression first operands'⟩
    rw [quantities, quantities, quantitiesTail_map, List.singleton_append, List.length_cons,
      List.length_map]
    omega

/-- Where tokens are read there is a term, or the algebra fails. -/
theorem ofText_ne_none {α : Type} [Number α] (units : AllowedUnits) (text : String) :
    (ofText units text : Except (ReduceError α) _) ≠ .ok none := by
  intro absent
  rw [ofText] at absent
  cases read : (Token.ofText units text : Except (LexError α) _) with
  | error e =>
    rw [read] at absent
    cases absent
  | ok tokens =>
    obtain ⟨cut, valid, _, rfl⟩ := Token.Cut.exists_of_ofText read
    obtain ⟨token, rest, whole⟩ := List.exists_cons_of_ne_nil fun nil : cut.tokens = [] =>
      Token.Cut.not_validated_nil (nil ▸ valid.validated)
    rw [read, whole] at absent
    simp only [ofTokens] at absent
    cases parsed : parseOperand [] [] (token :: rest) with
    | error e => simp [parsed, Except.map] at absent
    | ok t => simp [parsed, Except.map] at absent

end Term

/-- What is reduced to a sum is marked as a calculation, and a quantity is not. -/
theorem styleValue_of_reduce {options : Options} {input s : String} (nonempty : input ≠ "")
    (reduced : reduce options input = .ok (some s)) :
    ∃ t : Term Float,
      Term.ofText options.allowedUnits (Text.normalize input) = .ok (some t) ∧ s = t.text ∧
      (isCompound s = true ↔ ∃ head tail, t = .expression head tail) ∧
      (2 ≤ t.quantities.length ∧
          styleValue options input = .ok (some ("calc(" ++ s ++ ")")) ∨
        (∃ q, t = .quantity q) ∧ styleValue options input = .ok (some s)) := by
  obtain ⟨empty, -⟩ | ⟨term, read, rfl⟩ := reduce_eq_some reduced
  · exact absurd empty nonempty
  · cases term with
    | none => exact absurd read (Term.ofText_ne_none _ _)
    | some t =>
      obtain ⟨normal, units⟩ := Term.units_of_ofText read
      have shown : Term.textOf (some t) = t.text := rfl
      have result : styleValue options input = .ok (some (wrap t.text)) := by
        rw [styleValue, reduced]
        rfl
      refine ⟨t, read, shown, ?_⟩
      rw [shown, result, wrap]
      rcases normal.isCompound_cases fun q hq => (units q hq).1 with
        ⟨⟨head, tail, rfl⟩, several, compound⟩ | ⟨⟨q, rfl⟩, single⟩
      · rw [if_pos compound]
        exact ⟨iff_of_true compound ⟨head, tail, rfl⟩, .inl ⟨several, rfl⟩⟩
      · rw [single, if_neg Bool.false_ne_true]
        exact ⟨iff_of_false Bool.false_ne_true (by rintro ⟨_, _, ⟨⟩⟩), .inr ⟨⟨q, rfl⟩, rfl⟩⟩

theorem styleValue_of_reduce_sum :
    reduce {} "2 * (5px-3.5vh)" = .ok (some "10px - 7vh") ∧ isCompound "10px - 7vh" = true ∧
      styleValue {} "2 * (5px-3.5vh)" = .ok (some "calc(10px - 7vh)") := by
  have reduced : reduce {} "2 * (5px-3.5vh)" = .ok (some "10px - 7vh") := by
    decide +kernel
  have read : Term.ofText (Options.allowedUnits {}) (Text.normalize "2 * (5px-3.5vh)") =
      .ok (some (.expression (.quantity (.of (10 : Float) "px"))
        [(.minus, .quantity (.of 7 "vh"))])) := by
    decide +kernel
  obtain ⟨t, read', -, compound, cases⟩ := styleValue_of_reduce (by decide) reduced
  rw [read] at read'
  cases read'
  obtain ⟨-, value⟩ | ⟨⟨q, ⟨⟩⟩, -⟩ := cases
  exact ⟨reduced, compound.mpr ⟨_, _, rfl⟩, value⟩

end UnitArith
