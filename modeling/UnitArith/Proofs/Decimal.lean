import Mathlib.Data.List.TakeWhile
import UnitArith.Number

/-! Numerals taken apart. A text is read as a decimal when it is digits with at most one point
among them and at least one digit, and then the point only counts the places. -/
namespace UnitArith

namespace Decimal

structure Numeral where
  whole : List Char
  /-- The digits behind the point, if there is one. -/
  fraction : Option (List Char)
  digits : ∀ c ∈ whole ++ fraction.getD [], c.isDigit = true
  nonempty : whole ++ fraction.getD [] ≠ []

namespace Numeral

def text (n : Numeral) : List Char := n.whole ++ n.fraction.elim [] ('.' :: ·)

/-- All digits read as one number. -/
def decimal (n : Numeral) : Decimal :=
  ⟨Nat.ofDigitChars 10 (n.whole ++ n.fraction.getD []) 0, (n.fraction.getD []).length⟩

theorem isMark_of_mem_text (n : Numeral) : ∀ c ∈ n.text, isMark c = true := by
  obtain ⟨whole, _ | fraction, digits, nonempty⟩ := n
  · intro c hc
    rw [text, Option.elim_none, List.append_nil] at hc
    rw [isMark, digits c (List.mem_append_left _ hc), Bool.true_or]
  · intro c hc
    rw [text, Option.elim_some, List.mem_append, List.mem_cons] at hc
    rcases hc with hc | rfl | hc
    · rw [isMark, digits c (List.mem_append_left _ hc), Bool.true_or]
    · rfl
    · rw [isMark, digits c (List.mem_append_right _ hc), Bool.true_or]

theorem text_ne_nil (n : Numeral) : n.text ≠ [] := by
  obtain ⟨whole, _ | fraction, digits, nonempty⟩ := n
  · simpa [text] using nonempty
  · simp [text]

theorem read?_text (n : Numeral) : read? n.text = some n.decimal := by
  obtain ⟨whole, fraction, digits, nonempty⟩ := n
  obtain ⟨first, second⟩ := List.forall_mem_append.mp digits
  cases fraction with
  | none =>
    rw [Option.getD_none, List.append_nil] at nonempty
    simp [read?, text, decimal, List.takeWhile_eq_self_iff.mpr first,
      List.dropWhile_eq_nil_iff.mpr first, nonempty]
  | some fraction =>
    have point : Char.isDigit '.' = false := rfl
    have all : fraction.all Char.isDigit = true := List.all_eq_true.mpr second
    have present : (whole ++ fraction).isEmpty = false := by simpa using nonempty
    simp [read?, text, decimal, List.takeWhile_append_of_pos first,
      List.dropWhile_append_of_pos first, point, all, present]

end Numeral

theorem read?_eq_some_iff {cs : List Char} {d : Decimal} :
    read? cs = some d ↔ ∃ n : Numeral, n.text = cs ∧ n.decimal = d := by
  constructor
  · intro h
    have first : ∀ c ∈ cs.takeWhile Char.isDigit, c.isDigit = true :=
      fun c hc => List.mem_takeWhile_imp hc
    have whole := List.takeWhile_append_dropWhile (p := Char.isDigit) (l := cs)
    rw [read?] at h
    split at h
    · rename_i ended
      rw [ended, List.append_nil] at whole
      split at h
      · cases h
      · rename_i present
        cases h
        refine ⟨⟨_, none, by simpa using first, by simpa using present⟩, ?_, ?_⟩
        · simpa [Numeral.text] using whole
        · simp [Numeral.decimal]
    · rename_i c fraction behind
      rw [behind] at whole
      split at h
      · rename_i found
        obtain ⟨rfl, all, present⟩ := found
        cases h
        refine ⟨⟨_, some fraction, ?_, ?_⟩, whole, rfl⟩
        · exact List.forall_mem_append.mpr ⟨first, List.all_eq_true.mp all⟩
        · simpa using present
      · cases h
  · rintro ⟨n, rfl, rfl⟩
    exact n.read?_text

end Decimal

namespace Number

variable {α : Type} [Number α]

def withSign (signs : List Char) (x : α) : α := if signs = ['-'] then -x else x

/-- A sign turns the value around or says nothing. -/
theorem read?_eq_some_iff {signs marks : List Char}
    (signed : signs = [] ∨ signs = ['+'] ∨ signs = ['-']) (nonempty : marks ≠ [])
    (digits : ∀ c ∈ marks, Decimal.isMark c = true) {value : α} :
    read? (signs ++ marks) = some value ↔
      ∃ n : Decimal.Numeral, n.text = marks ∧ withSign signs (ofDecimal n.decimal) = value := by
  have numeral : read? (signs ++ marks) =
      (Decimal.read? marks).map fun d => withSign signs (ofDecimal (α := α) d) := by
    rcases signed with rfl | rfl | rfl
    · obtain ⟨c, cs, rfl⟩ := List.exists_cons_of_ne_nil nonempty
      exact read?_unsigned (digits c (List.mem_cons_self ..)) cs
    · rfl
    · rfl
  rw [numeral, Option.map_eq_some_iff]
  constructor
  · rintro ⟨d, read, rfl⟩
    obtain ⟨n, text, rfl⟩ := Decimal.read?_eq_some_iff.mp read
    exact ⟨n, text, rfl⟩
  · rintro ⟨n, rfl, rfl⟩
    exact ⟨n.decimal, n.read?_text, rfl⟩

end Number

end UnitArith
