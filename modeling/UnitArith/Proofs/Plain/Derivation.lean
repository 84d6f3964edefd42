import UnitArith.Proofs.Decimal
import UnitArith.Proofs.Number.Double
import UnitArith.Proofs.Plain.Grammar
import UnitArith.Proofs.Plain.Symbol

/-! The texts that the plain evaluator accepts. A text derives a value when it can be cut into
the symbols of a tree of the grammar with that value: blanks may stand around every symbol, and
a numeral reaches as far as there are digits and points. -/
namespace UnitArith.Plain

open Decimal (isMark)
open Text (Unmarked isBlank)

variable {α : Type} [Number α]

/-- A blank separates symbols, and nothing lengthens a numeral. -/
inductive Cuts : List Char → List (Symbol α) → Prop
  | nil : Cuts [] []
  | blank {c : Char} {rest : List Char} {symbols : List (Symbol α)} (blank : isBlank c = true)
      (others : Cuts rest symbols) : Cuts (c :: rest) symbols
  | operator (op : Operator) {rest : List Char} {symbols : List (Symbol α)}
      (others : Cuts rest symbols) : Cuts (op.toChar :: rest) (.operator op :: symbols)
  | opening {rest : List Char} {symbols : List (Symbol α)} (others : Cuts rest symbols) :
      Cuts ('(' :: rest) (.opening :: symbols)
  | closing {rest : List Char} {symbols : List (Symbol α)} (others : Cuts rest symbols) :
      Cuts (')' :: rest) (.closing :: symbols)
  | number (n : Decimal.Numeral) {rest : List Char} {symbols : List (Symbol α)}
      (longest : Unmarked rest) (others : Cuts rest symbols) :
      Cuts (n.text ++ rest) (.number (Number.ofDecimal n.decimal) :: symbols)

/-- The grammar on texts. -/
def Derives (cs : List Char) (value : α) : Prop :=
  ∃ e : Sum α, Cuts cs e.symbols ∧ e.value = value

theorem Cuts.symbols? {cs : List Char} {symbols : List (Symbol α)} (h : Cuts cs symbols) :
    symbols? cs = some symbols := by
  induction h with
  | nil => simp [Plain.symbols?]
  | blank blank _ ih => simpa [symbols?_blank blank] using ih
  | operator op _ ih =>
    have known : Symbol.ofChar? (α := α) op.toChar = some (.operator op) := by
      cases op <;> rfl
    simp [symbols?_symbol known, ih]
  | opening _ ih =>
    have known : Symbol.ofChar? (α := α) '(' = some .opening := rfl
    simp [symbols?_symbol known, ih]
  | closing _ ih =>
    have known : Symbol.ofChar? (α := α) ')' = some .closing := rfl
    simp [symbols?_symbol known, ih]
  | number n longest _ ih =>
    simp [symbols?_marks n.text_ne_nil n.isMark_of_mem_text n.read?_text longest, ih]

theorem unmarked_dropWhile (cs : List Char) : Unmarked (cs.dropWhile isMark) := by
  intro c rest whole
  simpa [whole] using List.head?_dropWhile_not isMark cs

theorem Cuts.symbol {c : Char} {symbol : Symbol α} (known : Symbol.ofChar? c = some symbol)
    {rest : List Char} {symbols : List (Symbol α)} (others : Cuts rest symbols) :
    Cuts (c :: rest) (symbol :: symbols) := by
  rw [Symbol.ofChar?] at known
  split at known
  · cases known
    subst c
    exact .opening others
  · split at known
    · cases known
      subst c
      exact .closing others
    · obtain ⟨op, found, rfl⟩ := Option.map_eq_some_iff.mp known
      rw [← Operator.toChar_of_ofChar? found]
      exact .operator op others

theorem cuts_of_symbols? {cs : List Char} {symbols : List (Symbol α)}
    (h : symbols? cs = some symbols) : Cuts cs symbols := by
  fun_induction symbols? (α := α) cs generalizing symbols with
  | case1 =>
    cases h
    exact .nil
  | case2 c cs blank ih => exact .blank blank (ih h)
  | case3 => cases h
  | case4 c cs _ mark shorter d numeral ih =>
    obtain ⟨rest, cut, rfl⟩ := Option.map_eq_some_iff.mp h
    obtain ⟨n, text, rfl⟩ := Decimal.read?_eq_some_iff.mp numeral
    have others := Cuts.number n (unmarked_dropWhile cs) (ih cut)
    rwa [text, List.cons_append, List.takeWhile_append_dropWhile] at others
  | case5 => cases h
  | case6 c cs _ _ symbol known ih =>
    obtain ⟨rest, cut, rfl⟩ := Option.map_eq_some_iff.mp h
    exact .symbol known (ih cut)

theorem derives_iff {cs : List Char} {value : α} :
    Derives cs value ↔ (symbols? cs).bind value? = some value := by
  rw [Option.bind_eq_some_iff]
  constructor
  · rintro ⟨e, cut, rfl⟩
    exact ⟨e.symbols, cut.symbols?, value?_symbols e⟩
  · rintro ⟨symbols, cut, read⟩
    obtain ⟨e, rfl, rfl⟩ := exists_sum_of_value? read
    exact ⟨e, cuts_of_symbols? cut, rfl⟩

/-- Whatever trees a text has, they have one value. -/
theorem Derives.unique {cs : List Char} {a b : α} (ha : Derives cs a) (hb : Derives cs b) :
    a = b := by
  rw [derives_iff] at ha hb
  exact Option.some.inj (ha.symm.trans hb)

/-- The evaluator accepts exactly what the grammar derives, with its value. -/
theorem evaluate_eq_some_iff {text : String} {value : α} :
    ((∀ c ∈ text.toList, isUnitChar c = false) →
      (evaluate text = some value ↔ Derives text.toList value)) ∧
    (evaluate text = some value ↔ Derives (withoutUnits text.toList) value) := by
  have stripped : evaluate text = some value ↔ Derives (withoutUnits text.toList) value := by
    rw [evaluate, derives_iff]
  refine ⟨fun bare => ?_, stripped⟩
  rwa [withoutUnits_eq_self bare] at stripped

theorem evaluate_eq_some_iff_bare :
    (∀ c ∈ " -(1 + .5)\t* 2. /- 4 ".toList, isUnitChar c = false) ∧
      Derives " -(1 + .5)\t* 2. /- 4 ".toList (0.75 : Float) := by
  have same : withoutUnits " -(1 + .5)\t* 2. /- 4 ".toList =
      " -(1 + .5)\t* 2. /- 4 ".toList := by
    decide +kernel
  have bare : ∀ c ∈ " -(1 + .5)\t* 2. /- 4 ".toList, isUnitChar c = false := by
    simpa [withoutUnits, List.filter_eq_self] using same
  have value : evaluate " -(1 + .5)\t* 2. /- 4 " = some (0.75 : Float) := by decide +kernel
  exact ⟨bare, (evaluate_eq_some_iff.1 bare).mp value⟩

end UnitArith.Plain
