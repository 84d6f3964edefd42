import Mathlib
import UnitArith.Plain.Symbol
import UnitArith.Proofs.Text.Character
import UnitArith.Proofs.Token.Lexer

/-! A text that is read as tokens is also cut into plain symbols, token by token. Striking out
the units joins no numerals, because something else stands between two operands. -/
namespace UnitArith.Plain

open Text (isBlank isBlank_iff isMark_iff isLower_iff Unmarked)
open Decimal (isMark)

theorem isUnitChar_iff (c : Char) :
    isUnitChar c = true ↔ 65 ≤ c.toNat ∧ c.toNat ≤ 90 ∨ 97 ≤ c.toNat ∧ c.toNat ≤ 122 ∨
      c.toNat = 0x25 ∨ c.toNat = 0x17f ∨ c.toNat = 0x212a := by
  simp only [isUnitChar, Char.isAlpha, Char.isUpper, Bool.or_eq_true, decide_eq_true_eq,
    beq_iff_eq, isLower_iff, UInt32.le_iff_toNat_le, ge_iff_le,
    Char.toNat_val, ← Char.toNat_inj, or_assoc]
  rfl

theorem not_of_isMark {c : Char} (h : isMark c = true) :
    isUnitChar c = false ∧ isBlank c = false := by
  rw [isMark_iff] at h
  rw [← Bool.not_eq_true, isUnitChar_iff, ← Bool.not_eq_true, isBlank_iff]
  omega

theorem not_of_isBlank {c : Char} (h : isBlank c = true) :
    isUnitChar c = false ∧ isMark c = false := by
  rw [isBlank_iff] at h
  rw [← Bool.not_eq_true, isUnitChar_iff, ← Bool.not_eq_true, isMark_iff]
  omega

/-- Operators and parentheses are neither units nor parts of numerals. -/
theorem not_of_ofChar? {α : Type} {c : Char} {symbol : Symbol α}
    (h : Symbol.ofChar? c = some symbol) :
    isUnitChar c = false ∧ isMark c = false ∧ isBlank c = false := by
  rcases Text.isPunctuation_of_eq_some h with rfl | rfl | ⟨op, rfl⟩
  · decide
  · decide
  · cases op <;> decide

theorem withoutUnits_append (a b : List Char) :
    withoutUnits (a ++ b) = withoutUnits a ++ withoutUnits b :=
  List.filter_append ..

theorem withoutUnits_eq_self {cs : List Char} (h : ∀ c ∈ cs, isUnitChar c = false) :
    withoutUnits cs = cs :=
  List.filter_eq_self.mpr fun c hc => by simp [h c hc]

theorem withoutUnits_eq_nil {cs : List Char} (h : ∀ c ∈ cs, isUnitChar c = true) :
    withoutUnits cs = [] :=
  List.filter_eq_nil_iff.mpr fun c hc => by simp [h c hc]

theorem withoutUnits_cons {c : Char} (h : isUnitChar c = false) (cs : List Char) :
    withoutUnits (c :: cs) = c :: withoutUnits cs :=
  List.filter_cons_of_pos (by simp [h])

/-- Of an operand only the unit is struck out. -/
theorem withoutUnits_operand {sign marks unit : List Char}
    (signs : sign = [] ∨ sign = ['+'] ∨ sign = ['-']) (digits : ∀ c ∈ marks, isMark c = true)
    (letters : unit = ['%'] ∨ ∀ c ∈ unit, c.isLower = true) (rest : List Char) :
    withoutUnits (sign ++ marks ++ unit ++ rest) = sign ++ marks ++ withoutUnits rest := by
  have bare : withoutUnits sign = sign := by
    rcases signs with rfl | rfl | rfl <;> rfl
  have number : withoutUnits marks = marks :=
    withoutUnits_eq_self fun c hc => (not_of_isMark (digits c hc)).1
  have struck : withoutUnits unit = [] := by
    rcases letters with rfl | letters
    · rfl
    · refine withoutUnits_eq_nil fun c hc => ?_
      rw [isUnitChar_iff]
      exact .inr (.inl ((isLower_iff c).mp (letters c hc)))
  rw [withoutUnits_append, withoutUnits_append, withoutUnits_append, bare, number, struck,
    List.append_nil]

variable {α : Type} [Number α]

theorem symbols?_blank {c : Char} (blank : isBlank c = true) (cs : List Char) :
    (symbols? (c :: cs) : Option (List (Symbol α))) = symbols? cs := by
  rw [symbols?, if_pos blank]

theorem symbols?_blanks {blanks : List Char} (blank : ∀ c ∈ blanks, isBlank c = true)
    (cs : List Char) : (symbols? (blanks ++ cs) : Option (List (Symbol α))) = symbols? cs := by
  induction blanks with
  | nil => rfl
  | cons c blanks ih =>
    obtain ⟨first, others⟩ := List.forall_mem_cons.mp blank
    rw [List.cons_append, symbols?_blank first, ih others]

theorem symbols?_symbol {c : Char} {symbol : Symbol α} (known : Symbol.ofChar? c = some symbol)
    (cs : List Char) : symbols? (c :: cs) = (symbols? cs).map (symbol :: ·) := by
  obtain ⟨_, mark, blank⟩ := not_of_ofChar? known
  rw [symbols?, blank, mark, known]
  rfl

/-- A run of digits and points is one numeral or none. -/
theorem symbols?_run {marks cs : List Char} (nonempty : marks ≠ [])
    (digits : ∀ c ∈ marks, isMark c = true) (unmarked : Unmarked cs) :
    (symbols? (marks ++ cs) : Option (List (Symbol α))) =
      (Decimal.read? marks).bind fun d =>
        (symbols? cs).map (.number (Number.ofDecimal d) :: ·) := by
  obtain ⟨first, others, rfl⟩ := List.exists_cons_of_ne_nil nonempty
  obtain ⟨mark, digits⟩ := List.forall_mem_cons.mp digits
  have stop := Text.takeWhile_unmarked unmarked
  rw [List.cons_append, symbols?, (not_of_isMark mark).2, mark]
  simp only [List.takeWhile_append_of_pos digits, List.dropWhile_append_of_pos digits, stop,
    List.append_nil, if_true]
  cases Decimal.read? (first :: others) <;> rfl

theorem symbols?_marks {marks cs : List Char} (nonempty : marks ≠ [])
    (digits : ∀ c ∈ marks, isMark c = true) {d : Decimal} (numeral : Decimal.read? marks = some d)
    (unmarked : Unmarked cs) :
    (symbols? (marks ++ cs) : Option (List (Symbol α))) =
      (symbols? cs).map (.number (Number.ofDecimal d) :: ·) := by
  rw [symbols?_run nonempty digits unmarked, numeral, Option.bind_some]

/-- What can stand in a text that is cut into symbols. -/
theorem of_symbols? {cs : List Char} {symbols : List (Symbol α)} (h : symbols? cs = some symbols) :
    ∀ c ∈ cs, isBlank c = true ∨ isMark c = true ∨ ∃ s : Symbol α, Symbol.ofChar? c = some s := by
  fun_induction symbols? (α := α) cs generalizing symbols with
  | case1 => exact List.forall_mem_nil _
  | case2 c cs blank ih => exact List.forall_mem_cons.mpr ⟨.inl blank, ih h⟩
  | case3 => cases h
  | case4 c cs _ mark shorter d numeral ih =>
    obtain ⟨rest, cut, rfl⟩ := Option.map_eq_some_iff.mp h
    refine List.forall_mem_cons.mpr ⟨.inr (.inl mark), fun c' member => ?_⟩
    rw [← List.takeWhile_append_dropWhile (p := isMark) (l := cs)] at member
    rcases List.mem_append.mp member with member | member
    · exact .inr (.inl (List.mem_takeWhile_imp member))
    · exact ih cut c' member
  | case5 => cases h
  | case6 c cs _ _ symbol known ih =>
    obtain ⟨rest, cut, rfl⟩ := Option.map_eq_some_iff.mp h
    exact List.forall_mem_cons.mpr ⟨.inr (.inr ⟨symbol, known⟩), ih cut⟩

/-- The symbols of one token: the sign of a literal stands by itself, its unit is gone. -/
inductive Spells : Token α → List (Symbol α) → Prop
  | number (value : α) (unit : String) : Spells (.quantity (.of value unit)) [.number value]
  | positive (value : α) (unit : String) :
      Spells (.quantity (.of value unit)) [.operator .plus, .number value]
  | negative (value : α) (unit : String) :
      Spells (.quantity (.of (-value) unit)) [.operator .minus, .number value]
  | operator (op : Operator) : Spells (.operator op) [.operator op]
  | opening : Spells .opening [.opening]
  | closing : Spells .closing [.closing]

inductive SpellsAll : List (Token α) → List (Symbol α) → Prop
  | nil : SpellsAll [] []
  | cons {token : Token α} {tokens : List (Token α)} {symbols rest : List (Symbol α)}
      (first : Spells token symbols) (others : SpellsAll tokens rest) :
      SpellsAll (token :: tokens) (symbols ++ rest)

theorem ofChar?_of_token {c : Char} {token : Token α} (h : Token.ofChar? c = some token) :
    ∃ symbol, Symbol.ofChar? c = some symbol ∧ Spells token [symbol] := by
  rw [Token.ofChar?] at h
  rw [Symbol.ofChar?]
  split at h
  · rename_i opens
    cases h
    exact ⟨.opening, if_pos opens, .opening⟩
  · rename_i opens
    rw [if_neg opens]
    split at h
    · rename_i closes
      cases h
      exact ⟨.closing, if_pos closes, .closing⟩
    · rename_i closes
      obtain ⟨op, known, rfl⟩ := Option.map_eq_some_iff.mp h
      rw [if_neg closes, known]
      exact ⟨.operator op, rfl, .operator op⟩

/-- A sign in front of a literal is read together with it or before it. -/
theorem symbols?_literal {sign marks : List Char} {value : α} (unit : String)
    (signs : sign = [] ∨ sign = ['+'] ∨ sign = ['-']) (nonempty : marks ≠ [])
    (digits : ∀ c ∈ marks, isMark c = true) (numeral : Number.read? (sign ++ marks) = some value)
    {cs : List Char} (unmarked : Unmarked cs) {rest : List (Symbol α)}
    (behind : symbols? cs = some rest) :
    ∃ symbols, Spells (.quantity (.of value unit)) symbols ∧
      symbols? (sign ++ marks ++ cs) = some (symbols ++ rest) := by
  have plus : Symbol.ofChar? '+' = some (.operator .plus : Symbol α) := rfl
  have minus : Symbol.ofChar? '-' = some (.operator .minus : Symbol α) := rfl
  rcases signs with rfl | rfl | rfl
  · obtain ⟨c, others, rfl⟩ := List.exists_cons_of_ne_nil nonempty
    have mark := (List.forall_mem_cons.mp digits).1
    rw [List.nil_append, Number.read?_unsigned mark] at numeral
    obtain ⟨d, read, rfl⟩ := Option.map_eq_some_iff.mp numeral
    refine ⟨_, .number _ unit, ?_⟩
    rw [List.nil_append, symbols?_marks nonempty digits read unmarked, behind]
    rfl
  · obtain ⟨d, read, rfl⟩ := Option.map_eq_some_iff.mp numeral
    refine ⟨_, .positive _ unit, ?_⟩
    rw [List.singleton_append, List.cons_append, symbols?_symbol plus,
      symbols?_marks nonempty digits read unmarked, behind]
    rfl
  · obtain ⟨d, read, rfl⟩ := Option.map_eq_some_iff.mp numeral
    refine ⟨_, .negative _ unit, ?_⟩
    rw [List.singleton_append, List.cons_append, symbols?_symbol minus,
      symbols?_marks nonempty digits read unmarked, behind]
    rfl

/-- An operand is not followed by another one. -/
theorem unmarked_lexes {p p' : Token.Progress α} {blanks text rest : List Char} {token : Token α}
    (operand : Token.kindBefore p.last = .operand) (blank : ∀ c ∈ blanks, isBlank c = true)
    (first : Token.Lexes text token rest) (advanced : p.advance token = .ok p') :
    Unmarked (withoutUnits (blanks ++ text)) := by
  obtain ⟨next, _⟩ := Token.advance_eq_ok advanced
  have next := Token.of_mayPrecede (by rw [operand]; rfl) next
  cases first with
  | operand => simp [Token.kind] at next
  | @symbol c token rest known =>
    obtain ⟨symbol, known, _⟩ := ofChar?_of_token known
    obtain ⟨unit, mark, _⟩ := not_of_ofChar? known
    cases blanks with
    | nil =>
      rw [List.nil_append, withoutUnits_cons unit]
      rintro _ _ ⟨⟩
      exact mark
    | cons b blanks =>
      obtain ⟨unit, mark⟩ := not_of_isBlank (blank b (List.mem_cons_self ..))
      rw [List.cons_append, withoutUnits_cons unit]
      rintro _ _ ⟨⟩
      exact mark

theorem withoutUnits_blanks {blanks : List Char} (blank : ∀ c ∈ blanks, isBlank c = true) :
    withoutUnits blanks = blanks :=
  withoutUnits_eq_self fun c hc => (not_of_isBlank (blank c hc)).1

/-- The symbols of a text that is read as tokens. The induction carries along that no numeral
can begin right behind an operand. -/
theorem symbols?_lexed {p : Token.Progress α} {text : List Char} {tokens : List (Token α)}
    (h : Token.Lexed p text tokens) :
    (∃ symbols, SpellsAll tokens symbols ∧ symbols? (withoutUnits text) = some symbols) ∧
      (Token.kindBefore p.last = .operand → Unmarked (withoutUnits text)) := by
  induction h with
  | @finish p blanks blank finished =>
    rw [withoutUnits_blanks blank]
    refine ⟨⟨[], .nil, ?_⟩, ?_⟩
    · have empty := symbols?_blanks (α := α) blank []
      rw [List.append_nil] at empty
      rw [empty, symbols?]
    · rintro _ c rest rfl
      exact (not_of_isBlank (blank c (List.mem_cons_self ..))).2
  | @token p p' blanks text rest token tokens blank first advanced others ih =>
    refine ⟨?_, fun operand => unmarked_lexes operand blank first advanced⟩
    obtain ⟨⟨symbols, spelled, behind⟩, unmarked⟩ := ih
    obtain ⟨_, last, _⟩ := Token.advance_eq_ok advanced
    rw [withoutUnits_append, withoutUnits_blanks blank, symbols?_blanks blank]
    cases first with
    | @operand sign marks unit value rest signs nonempty digits numeral letters =>
      have unmarked := unmarked (by rw [last]; rfl)
      obtain ⟨literal, one, read⟩ :=
        symbols?_literal (String.ofList unit) signs nonempty digits numeral unmarked behind
      refine ⟨literal ++ symbols, .cons one spelled, ?_⟩
      rw [withoutUnits_operand signs digits letters, read]
    | @symbol c token rest known =>
      obtain ⟨symbol, known, one⟩ := ofChar?_of_token known
      refine ⟨[symbol] ++ symbols, .cons one spelled, ?_⟩
      rw [withoutUnits_cons (not_of_ofChar? known).1, symbols?_symbol known, behind]
      rfl

end UnitArith.Plain
