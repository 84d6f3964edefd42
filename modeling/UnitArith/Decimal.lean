/-! Unsigned decimal numerals. `read?` accepts digits with at most one point and at least one
digit; `spell` writes every numeral so that `read?` gives it back. -/
namespace UnitArith

/-- The digits read as one number, and how many of them stand after the point. -/
structure Decimal where
  digits : Nat
  places : Nat
  deriving DecidableEq, Repr

namespace Decimal

/-- Digits and points are what a numeral is made of. -/
def isMark (c : Char) : Bool := c.isDigit || c == '.'

/-- `5.`, `.5` and `007` are numerals; `.`, `1.2.3` and the empty text are not. -/
def read? (cs : List Char) : Option Decimal :=
  let whole := cs.takeWhile Char.isDigit
  match cs.dropWhile Char.isDigit with
  | [] => if whole.isEmpty then none else some ⟨Nat.ofDigitChars 10 whole 0, 0⟩
  | c :: fraction =>
    if c = '.' ∧ fraction.all Char.isDigit ∧ !(whole ++ fraction).isEmpty then
      some ⟨Nat.ofDigitChars 10 (whole ++ fraction) 0, fraction.length⟩
    else none

/-- The last `count` digits of `n`, with zeros in front when it has fewer. -/
def lastDigits (n : Nat) : Nat → List Char
  | 0 => []
  | count + 1 => lastDigits (n / 10) count ++ [(n % 10).digitChar]

def spell (d : Decimal) : List Char :=
  let whole := Nat.toDigits 10 (d.digits / Nat.pow 10 d.places)
  if d.places = 0 then whole else whole ++ '.' :: lastDigits d.digits d.places

/-- The same value without the zeros that end its fraction. -/
def trim : Nat → Nat → Decimal
  | digits, 0 => ⟨digits, 0⟩
  | digits, places + 1 =>
    if digits % 10 = 0 then trim (digits / 10) places else ⟨digits, places + 1⟩

theorem length_lastDigits (n count : Nat) : (lastDigits n count).length = count := by
  induction count generalizing n with
  | zero => rfl
  | succ count ih => simp [lastDigits, ih]

theorem isDigit_of_mem_lastDigits {n count : Nat} {c : Char} (h : c ∈ lastDigits n count) :
    c.isDigit = true := by
  induction count generalizing n with
  | zero => cases h
  | succ count ih =>
    rcases List.mem_append.mp h with h | h
    · exact ih h
    · rw [List.mem_singleton.mp h, Nat.isDigit_digitChar]
      exact decide_eq_true (Nat.mod_lt n (by decide))

theorem ofDigitChars_lastDigits (n count : Nat) :
    Nat.ofDigitChars 10 (lastDigits n count) 0 = n % Nat.pow 10 count := by
  induction count generalizing n with
  | zero => simp [lastDigits, Nat.mod_one]
  | succ count ih =>
    have next : Nat.pow 10 (count + 1) = 10 * Nat.pow 10 count := Nat.pow_succ'
    rw [lastDigits, Nat.ofDigitChars_append, ih,
      Nat.ofDigitChars_cons_digitChar_of_lt_ten (Nat.mod_lt _ (by decide)), Nat.ofDigitChars_nil,
      next, Nat.mod_mul, Nat.add_comm]

/-- Reading undoes writing. -/
theorem read?_spell (d : Decimal) : read? d.spell = some d := by
  obtain ⟨n, places⟩ := d
  have digits : ∀ c ∈ Nat.toDigits 10 (n / Nat.pow 10 places), c.isDigit = true := fun _ h =>
    Nat.isDigit_of_mem_toDigits (by decide) (by decide) h
  have taken (rest : List Char) := @List.takeWhile_append_of_pos _ Char.isDigit _ rest digits
  have dropped (rest : List Char) := @List.dropWhile_append_of_pos _ Char.isDigit _ rest digits
  by_cases whole : places = 0
  · subst whole
    have taken := taken []
    have dropped := dropped []
    simp only [Nat.pow_eq, Nat.pow_zero, Nat.div_one, List.append_nil, List.takeWhile_nil,
      List.dropWhile_nil] at taken dropped
    simp [spell, read?, taken, dropped, Nat.toDigits_ne_nil, Nat.ofDigitChars_ten_toDigits]
  · have point : Char.isDigit '.' = false := rfl
    have fraction : (lastDigits n places).all Char.isDigit = true :=
      List.all_eq_true.mpr fun _ h => isDigit_of_mem_lastDigits h
    have value : Nat.ofDigitChars 10
        (Nat.toDigits 10 (n / Nat.pow 10 places) ++ lastDigits n places) 0 = n := by
      rw [Nat.ofDigitChars_append, Nat.ofDigitChars_ten_toDigits,
        Nat.ofDigitChars_eq_ofDigitChars_zero, length_lastDigits, ofDigitChars_lastDigits]
      exact Nat.div_add_mod n (Nat.pow 10 places)
    simp only [spell, whole, if_false, read?, taken, dropped]
    simp [-Nat.pow_eq, point, fraction, value, length_lastDigits, Nat.toDigits_ne_nil]

end Decimal

end UnitArith
