import Mathlib
import UnitArith.Decimal
import UnitArith.Operator
import UnitArith.Text.Blank

/-! The classes of characters as ranges of code points, which shows that they do not overlap. -/
namespace UnitArith.Text

open Decimal (isMark)

theorem isMark_iff (c : Char) : isMark c = true ↔ 48 ≤ c.toNat ∧ c.toNat ≤ 57 ∨ c.toNat = 46 := by
  rw [isMark, Bool.or_eq_true, Char.isDigit_iff_toNat, beq_iff_eq, ← Char.toNat_inj]
  rfl

theorem isLower_iff (c : Char) : c.isLower = true ↔ 97 ≤ c.toNat ∧ c.toNat ≤ 122 := by
  simp only [Char.isLower, Bool.and_eq_true, decide_eq_true_eq, ge_iff_le, UInt32.le_iff_toNat_le,
    Char.toNat_val]
  rfl

theorem isUpper_iff (c : Char) : c.isUpper = true ↔ 65 ≤ c.toNat ∧ c.toNat ≤ 90 := by
  simp only [Char.isUpper, decide_eq_true_eq, ge_iff_le, UInt32.le_iff_toNat_le,
    Char.toNat_val]
  rfl

theorem isBlank_iff (c : Char) :
    isBlank c = true ↔ 9 ≤ c.toNat ∧ c.toNat ≤ 13 ∨ c.toNat = 32 ∨ c.toNat = 0x85 ∨
      c.toNat = 0xA0 ∨ c.toNat = 0x1680 ∨ 0x2000 ≤ c.toNat ∧ c.toNat ≤ 0x200A ∨
      c.toNat = 0x2028 ∨ c.toNat = 0x2029 ∨ c.toNat = 0x202F ∨ c.toNat = 0x205F ∨
      c.toNat = 0x3000 := by
  simp only [isBlank, blankRanges, List.any_cons, List.any_nil, Bool.or_false,
    Bool.or_eq_true, Bool.and_eq_true, decide_eq_true_eq]
  omega

theorem isBlank_of_isMark {c : Char} (h : isMark c = true) : isBlank c = false := by
  rw [isMark_iff] at h
  rw [← Bool.not_eq_true, isBlank_iff]
  omega

theorem not_isMark_of_isLower {c : Char} (h : c.isLower = true) : isMark c = false := by
  rw [isLower_iff] at h
  rw [← Bool.not_eq_true, isMark_iff]
  omega

/-- Nothing here lengthens a number. -/
def Unmarked (cs : List Char) : Prop := ∀ c rest, cs = c :: rest → isMark c = false

theorem takeWhile_unmarked {cs : List Char} (h : Unmarked cs) :
    cs.takeWhile isMark = [] ∧ cs.dropWhile isMark = cs := by
  cases cs with
  | nil => exact ⟨rfl, rfl⟩
  | cons c rest => simp [h c rest rfl]

/-- The text of a unit. -/
def UnitText (cs : List Char) : Prop := cs = ['%'] ∨ ∀ c ∈ cs, c.isLower = true

/-- What operands are written with, their signs left out. -/
def InOperand (c : Char) : Prop := isMark c = true ∨ c.isLower = true ∨ c = '%'

instance : DecidablePred InOperand := fun c =>
  inferInstanceAs (Decidable (isMark c = true ∨ c.isLower = true ∨ c = '%'))

theorem InOperand.not_isBlank {c : Char} (h : InOperand c) : isBlank c = false := by
  rw [← Bool.not_eq_true, isBlank_iff]
  rcases h with mark | lower | rfl
  · rw [isMark_iff] at mark
    omega
  · rw [isLower_iff] at lower
    omega
  · decide

/-- Operands are ASCII without capitals. -/
theorem InOperand.ascii {c : Char} (h : InOperand c) : c.toNat < 128 ∧ c.isUpper = false := by
  rw [← Bool.not_eq_true, isUpper_iff]
  rcases h with mark | lower | rfl
  · rw [isMark_iff] at mark
    omega
  · rw [isLower_iff] at lower
    omega
  · decide

/-- Parentheses and operators. -/
def IsPunctuation (c : Char) : Prop := c = '(' ∨ c = ')' ∨ ∃ op : Operator, c = op.toChar

/-- What is found for a character where only punctuation is looked up. -/
theorem isPunctuation_of_eq_some {β : Type} {c : Char} {opening closing symbol : β}
    {operator : Operator → β}
    (h : (if c = '(' then some opening
      else if c = ')' then some closing
      else (Operator.ofChar? c).map operator) = some symbol) : IsPunctuation c := by
  split at h
  · rename_i opens
    exact .inl opens
  · split at h
    · rename_i closes
      exact .inr (.inl closes)
    · obtain ⟨op, known, _⟩ := Option.map_eq_some_iff.mp h
      exact .inr (.inr ⟨op, (Operator.toChar_of_ofChar? known).symm⟩)

theorem IsPunctuation.ascii {c : Char} (h : IsPunctuation c) :
    c.toNat < 128 ∧ c.isUpper = false := by
  rcases h with rfl | rfl | ⟨op, rfl⟩
  · decide
  · decide
  · cases op <;> decide

/-- Nothing here lengthens an operand. -/
def Ends (cs : List Char) : Prop :=
  ∀ c rest, cs = c :: rest → isMark c = false ∧ c.isLower = false ∧ c ≠ '%'

theorem ends_nil : Ends [] := nofun

theorem UnitText.inOperand {unit : List Char} (h : UnitText unit) : ∀ c ∈ unit, InOperand c := by
  intro c hc
  rcases h with rfl | letters
  · exact .inr (.inr (List.mem_singleton.mp hc))
  · exact .inr (.inl (letters c hc))

theorem UnitText.unmarked {unit tail : List Char} (h : UnitText unit) (ends : Ends tail) :
    Unmarked (unit ++ tail) := by
  intro c rest whole
  cases unit with
  | nil => exact (ends c rest whole).1
  | cons d letters =>
    obtain ⟨rfl, -⟩ := List.cons.inj whole
    rcases h with h | h
    · obtain ⟨rfl, -⟩ := List.cons.inj h
      rfl
    · exact not_isMark_of_isLower (h d (List.mem_cons_self ..))

end UnitArith.Text
