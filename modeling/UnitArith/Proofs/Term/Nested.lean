import UnitArith.Proofs.Term.Normal
import UnitArith.Proofs.Token.Language
import UnitArith.Proofs.Token.Normal
import UnitArith.Proofs.Token.Spelling
import UnitArith.Term.Text

/-! The text of a term of any nesting is its tokens in order. A sign in it has a space behind it
unless it belongs to a number, and in front of that stands nothing, an opening parenthesis, or an
operator with a space. So respelling the signs changes nothing. -/
namespace UnitArith

open Text (Apart InOperand IsSign Unmarked isBlank respellSigns)

namespace Text

/-- A sign behind a space is not attached where it stands apart. -/
theorem respellSigns_cons_blank (c : Char) {b d : Char} {cs : List Char} (blank : isBlank b = true)
    (nonblank : isBlank d = false) (apart : ∀ e ∈ cs.head?, Apart d e) :
    respellSigns (c :: b :: d :: cs) = c :: b :: respellSigns (d :: cs) := by
  have blanks : ∀ e ∈ [b], isBlank e = true := List.forall_mem_singleton.mpr blank
  have behind := respellSigns_blanks blanks (d :: cs)
  rw [List.singleton_append, List.singleton_append] at behind
  rw [respellSigns_cons, behind]
  refine attachedSign_eq_none fun s attached rest same => ?_
  rw [Pattern.AttachedSign.text_append] at same
  obtain ⟨-, behind⟩ := List.cons.inj same
  obtain ⟨-, lexeme⟩ := Token.Cut.blanks_unique blanks attached.blanks nonblank
    attached.sign.not_isBlank behind
  obtain ⟨rfl, rfl⟩ := List.cons.inj lexeme
  obtain ⟨digit, opening⟩ := apart s.target rfl attached.sign
  rcases attached.target with target | target
  · rw [digit] at target
    cases target
  · exact opening target

/-- The minus of a number behind an operator and a space is kept. -/
theorem respellSigns_negative (op : Operator) {c : Char} (digit : c.isDigit = true)
    (cs : List Char) : respellSigns (op.toChar :: ' ' :: '-' :: c :: cs) =
      op.toChar :: ' ' :: '-' :: c :: respellSigns cs := by
  have front : isBlank op.toChar = false ∧ op.toChar ≠ '(' := by cases op <;> decide
  have number : c ≠ '(' := by
    rintro rfl
    cases digit
  let s : Pattern.AttachedSign := ⟨op.toChar, [' '], '-', c⟩
  have attached : s.IsAttached :=
    ⟨front, List.forall_mem_singleton.mpr rfl, .inr rfl, .inl digit⟩
  have respelled := respellSigns_attached attached cs
  have kept : s.respell = s.text := by
    simp [s, Pattern.AttachedSign.respell, Pattern.AttachedSign.text, number]
  rw [kept] at respelled
  exact respelled

/-- Nothing in the text is respelled, whatever stands in front of it. -/
def Settled (cs : List Char) : Prop := ∀ c, respellSigns (c :: cs) = c :: cs

theorem Settled.alone {cs : List Char} (settled : Settled cs) : respellSigns cs = cs := by
  have behind := settled ' '
  rw [← List.singleton_append, respellSigns_blanks (List.forall_mem_singleton.mpr rfl)] at behind
  exact List.append_cancel_left behind

theorem Settled.cons {c : Char} {cs : List Char} (settled : Settled cs)
    (blank : isBlank c = false) (sign : ¬ IsSign c) : Settled (c :: cs) := fun d => by
  rw [respellSigns_cons_cons d blank sign, settled c]

theorem settled_nil : Settled [] := respellSigns_singleton

theorem Settled.append {cs : List Char} (settled : Settled cs) {word : List Char}
    (inOperand : ∀ c ∈ word, InOperand c) : Settled (word ++ cs) := by
  induction word with
  | nil => exact settled
  | cons c word ih =>
    obtain ⟨first, others⟩ := List.forall_mem_cons.mp inOperand
    exact (ih others).cons first.not_isBlank first.not_isSign

/-- Nothing in the text is respelled, be it at the beginning or behind an operator. -/
structure SettledOperand (cs : List Char) : Prop where
  first : respellSigns cs = cs
  behind : ∀ op : Operator, respellSigns (op.toChar :: ' ' :: cs) = op.toChar :: ' ' :: cs

/-- An operator with a space on both sides. -/
theorem SettledOperand.settled {cs : List Char} (operand : SettledOperand cs) (op : Operator) :
    Settled (' ' :: op.toChar :: ' ' :: cs) := fun c => by
  have nonblank : isBlank op.toChar = false := by cases op <;> decide
  have apart : ∀ e ∈ (' ' :: cs).head?, Apart op.toChar e := by
    rintro _ ⟨⟩ -
    decide
  rw [respellSigns_cons_blank c rfl nonblank apart, operand.behind op]

theorem settledOperand_of_first {c : Char} {cs : List Char} (blank : isBlank c = false)
    (sign : ¬ IsSign c) (first : respellSigns (c :: cs) = c :: cs) : SettledOperand (c :: cs) := by
  refine ⟨first, fun op => ?_⟩
  rw [respellSigns_cons_blank op.toChar rfl blank fun _ _ isSign => absurd isSign sign, first]

/-- Digits and letters, with a minus in front or without. -/
theorem Settled.operand {signs word cs : List Char} {c : Char} (settled : Settled cs)
    (signed : signs = [] ∨ signs = ['-']) (digit : c.isDigit = true)
    (inOperand : ∀ d ∈ c :: word, InOperand d) : SettledOperand (signs ++ (c :: word ++ cs)) := by
  obtain ⟨first, others⟩ := List.forall_mem_cons.mp inOperand
  have whole := settled.append inOperand
  rcases signed with rfl | rfl
  · exact settledOperand_of_first first.not_isBlank first.not_isSign whole.alone
  · refine ⟨whole '-', fun op => ?_⟩
    have kept := respellSigns_negative op digit (word ++ cs)
    rw [(settled.append others).alone] at kept
    exact kept

theorem settledOperand_opening {cs : List Char} (operand : SettledOperand cs) :
    SettledOperand ('(' :: cs) := by
  refine settledOperand_of_first rfl (by decide) ?_
  rw [respellSigns_opening, operand.first]

end Text

namespace Term

/-! The tokens of a term in order. -/

section Tokens

variable {α : Type} [Number α]

mutual

/-- An expression that is an operand stands in parentheses. -/
def operandTokens : Term α → List (Token α)
  | quantity q => [.quantity q]
  | expression head tail => .opening :: (operandTokens head ++ tailTokens tail ++ [.closing])

def tailTokens : List (Operator × Term α) → List (Token α)
  | [] => []
  | (op, t) :: rest => .operator op :: (operandTokens t ++ tailTokens rest)

end

def tokens : Term α → List (Token α)
  | quantity q => [.quantity q]
  | expression head tail => operandTokens head ++ tailTokens tail

mutual

theorem isOperand_operandTokens : ∀ t : Term α, Token.IsOperand (operandTokens t)
  | quantity q => .quantity q
  | expression head tail => by
    rw [operandTokens]
    exact .group (isExpression_append_tailTokens (.operand (isOperand_operandTokens head)) tail)

theorem isExpression_append_tailTokens {left : List (Token α)} (before : Token.IsExpression left) :
    ∀ tail : List (Operator × Term α), Token.IsExpression (left ++ tailTokens tail)
  | [] => by
    rw [tailTokens, List.append_nil]
    exact before
  | (op, t) :: rest => by
    have next := before.join op (isOperand_operandTokens t)
    rw [tailTokens, ← List.cons_append, ← List.append_assoc]
    exact isExpression_append_tailTokens next rest

end

theorem isExpression_tokens (t : Term α) : Token.IsExpression t.tokens := by
  cases t with
  | quantity q => exact .operand (.quantity q)
  | expression head tail =>
    exact isExpression_append_tailTokens (.operand (isOperand_operandTokens head)) tail

end Tokens

/-! The text of a term. -/

/-- What follows an operand does not lengthen it. -/
theorem ends_spellTail (tail : List (Operator × Term Float)) {rest : List Char}
    (ends : Text.Ends rest) : Text.Ends (spellTail tail ++ rest) := by
  cases tail with
  | nil => exact ends
  | cons o tail =>
    rw [spellTail]
    exact Token.ends_of_isBlank rfl _

variable {units : AllowedUnits} {last : List Char}

mutual

/-- The text of an operand is read as its tokens, whatever is read behind it. -/
theorem written_operand {tokens : List (Token Float)} {blanks rest : List Char}
    (blank : ∀ b ∈ blanks, isBlank b = true) (ends : Text.Ends rest)
    (behind : Token.Written units tokens rest last) : ∀ t : Term Float,
      (∀ q ∈ t.quantities, q.Legible ∧ units.accepts q.unit = true) →
      Token.Written units (operandTokens t ++ tokens) (blanks ++ (spellOperand t ++ rest)) last
  | quantity q, legible => by
    obtain ⟨legible, accepted⟩ := legible q (List.mem_singleton.mpr rfl)
    rw [operandTokens, spellOperand]
    exact .cons blank (Token.stands_quantity legible accepted ends) behind
  | expression head tail, legible => by
    rw [quantities, List.forall_mem_append] at legible
    have none : ∀ b ∈ ([] : List Char), isBlank b = true := List.forall_mem_nil _
    have close : Text.Ends (')' :: rest) := by
      rintro _ _ ⟨⟩
      decide
    have closing : Token.Written units (.closing :: tokens) (')' :: rest) last :=
      .cons none (.symbol rfl fun sign => absurd sign (by decide)) behind
    have others := written_tail close closing tail legible.2
    have inner := written_operand none (ends_spellTail tail close) others head legible.1
    rw [List.nil_append] at inner
    have group : Token.Written units _ (blanks ++ (['('] ++ _)) last :=
      .cons blank (.symbol rfl fun sign => absurd sign (by decide)) inner
    simpa [operandTokens, spellOperand] using group

theorem written_tail {tokens : List (Token Float)} {rest : List Char} (ends : Text.Ends rest)
    (behind : Token.Written units tokens rest last) : ∀ tail : List (Operator × Term Float),
      (∀ q ∈ quantitiesTail tail, q.Legible ∧ units.accepts q.unit = true) →
      Token.Written units (tailTokens tail ++ tokens) (spellTail tail ++ rest) last
  | [], _ => behind
  | (op, t) :: tail, legible => by
    rw [quantitiesTail, List.forall_mem_append] at legible
    have space : ∀ b ∈ [' '], isBlank b = true := List.forall_mem_singleton.mpr rfl
    have others := written_tail ends behind tail legible.2
    have operand := written_operand space (ends_spellTail tail ends) others t legible.1
    have unmarked : Unmarked (' ' :: (spellOperand t ++ (spellTail tail ++ rest))) := by
      rintro _ _ ⟨⟩
      rfl
    have next : Token.Written units _ ([' '] ++ ([op.toChar] ++ _)) last :=
      .cons space (.symbol (Token.ofChar?_operator op) fun _ => unmarked) operand
    simpa [tailTokens, spellTail] using next

end

mutual

/-- Nothing in the text of an operand is respelled. -/
theorem settled_operand {rest : List Char} (settled : Text.Settled rest) : ∀ t : Term Float,
    (∀ q ∈ t.quantities, q.Legible) → Text.SettledOperand (spellOperand t ++ rest)
  | quantity q, legible => by
    obtain ⟨signs, c, word, whole, signed, digit, inOperand, _⟩ :=
      (legible q (List.mem_singleton.mpr rfl)).exists_word
    rw [spellOperand, whole, List.append_assoc]
    exact settled.operand signed digit inOperand
  | expression head tail, legible => by
    rw [quantities, List.forall_mem_append] at legible
    have close : Text.Settled (')' :: rest) := settled.cons rfl (by decide)
    have inner := settled_operand (settled_tail close tail legible.2) head legible.1
    simpa [spellOperand] using Text.settledOperand_opening inner

theorem settled_tail {rest : List Char} (settled : Text.Settled rest) :
    ∀ tail : List (Operator × Term Float), (∀ q ∈ quantitiesTail tail, q.Legible) →
      Text.Settled (spellTail tail ++ rest)
  | [], _ => settled
  | (op, t) :: tail, legible => by
    rw [quantitiesTail, List.forall_mem_append] at legible
    have operand := settled_operand (settled_tail settled tail legible.2) t legible.1
    simpa [spellTail] using operand.settled op

end

/-- A top-level expression is written as an operand is, its parentheses left out. -/
theorem written_spell {t : Term Float}
    (legible : ∀ q ∈ t.quantities, q.Legible ∧ units.accepts q.unit = true) :
    Token.Written units t.tokens t.spell [] := by
  have nothing : Token.Written units ([] : List (Token Float)) [] [] := .nil []
  cases t with
  | quantity q =>
    have alone := written_operand (List.forall_mem_nil _) Text.ends_nil nothing (quantity q) legible
    simpa [operandTokens, spellOperand, tokens, spell] using alone
  | expression head tail =>
    rw [quantities, List.forall_mem_append] at legible
    have others := written_tail Text.ends_nil nothing tail legible.2
    have ends := ends_spellTail tail Text.ends_nil
    have whole := written_operand (List.forall_mem_nil _) ends others head legible.1
    simpa [tokens, spell] using whole

theorem respellSigns_spell {t : Term Float} (legible : ∀ q ∈ t.quantities, q.Legible) :
    respellSigns t.spell = t.spell := by
  cases t with
  | quantity q =>
    have alone := settled_operand Text.settled_nil (quantity q) legible
    simpa [spellOperand, spell] using alone.first
  | expression head tail =>
    rw [quantities, List.forall_mem_append] at legible
    have whole := settled_operand (settled_tail Text.settled_nil tail legible.2) head legible.1
    simpa [spell] using whole.first

/-- The text of a term, as it is written, is read as the tokens of the term. -/
theorem ofText_tokens (t : Term Float) (legible : ∀ q ∈ t.quantities, q.Legible) :
    Text.normalize t.text = t.text ∧ Token.ofText none t.text = .ok t.tokens := by
  have written : Token.Written none t.tokens t.spell [] :=
    written_spell fun q hq => ⟨legible q hq, rfl⟩
  have validated := (Token.validated_iff_isExpression t.tokens).mpr t.isExpression_tokens
  constructor
  · rw [text, Text.normalize, String.toList_ofList, written.lower_eq (List.forall_mem_nil _),
      respellSigns_spell legible]
  · refine Token.ofText_of_validated validated ?_ (List.forall_mem_nil _)
    rwa [text, String.toList_ofList]

/-- Negative values behind an operator and at the head of a group, and a group of one operand. -/
theorem ofText_tokens_signed :
    Text.normalize "(-3px) - -2% * (-1 / 4)" = "(-3px) - -2% * (-1 / 4)" ∧
    Token.ofText none "(-3px) - -2% * (-1 / 4)" =
      .ok [.opening, .quantity (.of (-3 : Float) "px"), .closing, .operator .minus,
        .quantity (.of (-2) "%"), .operator .times, .opening, .quantity (.of (-1) ""),
        .operator .divide, .quantity (.of 4 ""), .closing] := by
  let t : Term Float := .expression (.expression (.quantity (.of (-3) "px")) [])
    [(.minus, .quantity (.of (-2) "%")),
      (.times, .expression (.quantity (.of (-1) "")) [(.divide, .quantity (.of 4 ""))])]
  have text : t.text = "(-3px) - -2% * (-1 / 4)" := by
    decide +kernel
  have legible : ∀ q ∈ t.quantities, q.Legible := by
    simp only [t, quantities, quantitiesTail, List.append_nil, List.singleton_append,
      List.forall_mem_cons]
    exact ⟨Quantity.legible_of (by decide +kernel) (.inr (by simp)),
      Quantity.legible_of (by decide +kernel) (.inl rfl),
      Quantity.legible_of (by decide +kernel) (.inr (by simp)),
      Quantity.legible_of (by decide +kernel) (.inr (by simp)), List.forall_mem_nil _⟩
  have result := ofText_tokens t legible
  rwa [text] at result

end Term

end UnitArith
