import Mathlib.Data.List.TakeWhile
import UnitArith.Proofs.Token.Derivation
import UnitArith.Token.Lexer

/-! What reading tokens has seen of the text: blanks, and the text of each token behind them. -/
namespace UnitArith

namespace Text.Pattern

theorem sign_cases (cs : List Char) : sign cs = [] ∨ sign cs = ['+'] ∨ sign cs = ['-'] := by
  unfold sign
  split <;> simp

theorem sign_append_drop (cs : List Char) : sign cs ++ cs.drop (sign cs).length = cs := by
  unfold sign
  split <;> simp

theorem exists_unit (cs : List Char) :
    ∃ rest, cs = unit cs ++ rest ∧ (unit cs = ['%'] ∨ ∀ c ∈ unit cs, c.isLower = true) := by
  unfold unit
  split
  · exact ⟨_, rfl, .inl rfl⟩
  · exact ⟨_, List.takeWhile_append_dropWhile.symm, .inr fun c hc => List.mem_takeWhile_imp hc⟩

theorem operand_eq_some {cs : List Char} {size : Nat} {parts : Operand}
    (h : operand cs = some (size, parts)) :
    ∃ marks rest, cs = sign cs ++ marks ++ parts.unit ++ rest ∧ parts.number = sign cs ++ marks ∧
      size = (sign cs ++ marks ++ parts.unit).length ∧ marks ≠ [] ∧
      (∀ c ∈ marks, Decimal.isMark c = true) ∧
      (parts.unit = ['%'] ∨ ∀ c ∈ parts.unit, c.isLower = true) := by
  rw [operand] at h
  dsimp only at h
  generalize body : cs.drop (sign cs).length = tail at h
  split at h
  · cases h
  · rename_i nonempty
    cases h
    obtain ⟨rest, split, letters⟩ := exists_unit (tail.dropWhile Decimal.isMark)
    refine ⟨tail.takeWhile Decimal.isMark, rest, ?_, rfl, ?_, ?_, ?_, letters⟩
    · rw [List.append_assoc, List.append_assoc, ← split, List.takeWhile_append_dropWhile, ← body,
        sign_append_drop]
    · simp only [List.length_append]
    · simpa using nonempty
    · exact fun c hc => List.mem_takeWhile_imp hc

end Text.Pattern

namespace Token

open Text (Cursor isBlank Pattern.sign)

variable {α : Type} [Number α]

/-- One token at the start of a text, and the text behind it. -/
inductive Lexes : List Char → Token α → List Char → Prop
  | operand {sign marks unit : List Char} {value : α} (rest : List Char)
      (signs : sign = [] ∨ sign = ['+'] ∨ sign = ['-']) (nonempty : marks ≠ [])
      (digits : ∀ c ∈ marks, Decimal.isMark c = true)
      (numeral : Number.read? (sign ++ marks) = some value)
      (letters : unit = ['%'] ∨ ∀ c ∈ unit, c.isLower = true) :
      Lexes (sign ++ marks ++ unit ++ rest) (.quantity (.of value (String.ofList unit))) rest
  | symbol {c : Char} {token : Token α} (rest : List Char) (known : ofChar? c = some token) :
      Lexes (c :: rest) token rest

/-- Tokens with blanks between them that pass the structure check. -/
inductive Lexed : Progress α → List Char → List (Token α) → Prop
  | finish {p : Progress α} {blanks : List Char} (blank : ∀ c ∈ blanks, isBlank c = true)
      (finished : p.finish = .ok ()) : Lexed p blanks []
  | token {p p' : Progress α} {blanks text rest : List Char} {token : Token α}
      {tokens : List (Token α)} (blank : ∀ c ∈ blanks, isBlank c = true)
      (first : Lexes text token rest) (advanced : p.advance token = .ok p')
      (others : Lexed p' rest tokens) : Lexed p (blanks ++ text) (token :: tokens)

theorem exists_blanks (c : Cursor) :
    ∃ blanks, c.rest = blanks ++ c.skipBlanks.rest ∧ ∀ b ∈ blanks, isBlank b = true := by
  refine ⟨c.rest.takeWhile isBlank, ?_, fun b hb => List.mem_takeWhile_imp hb⟩
  have taken : c.rest.take (c.rest.takeWhile isBlank).length = c.rest.takeWhile isBlank :=
    (List.prefix_iff_eq_take.mp (List.takeWhile_prefix isBlank)).symm
  rw [← taken]
  exact (c.take_append_rest_skip _).symm

theorem ofOperand_eq_ok {units : AllowedUnits} {lexeme : Text.Lexeme Text.Pattern.Operand}
    {token : Token α} (h : ofOperand units lexeme = .ok token) :
    ∃ value, Number.read? lexeme.parts.number = some value ∧
      units.accepts (String.ofList lexeme.parts.unit) = true ∧
      token = .quantity (.of value (String.ofList lexeme.parts.unit)) := by
  rw [ofOperand] at h
  split at h
  · cases h
  · rename_i value numeral
    split at h
    · rename_i accepted
      cases h
      exact ⟨value, numeral, accepted, rfl⟩
    · cases h

/-- What one step reads: an operand, or a single character. -/
theorem read_eq_ok {units : AllowedUnits} {c : Cursor} {token : Token α}
    (h : (read units c).1 = .ok token) :
    (∃ size parts value, Text.Pattern.operand c.rest = some (size, parts) ∧
      Number.read? parts.number = some value ∧
      units.accepts (String.ofList parts.unit) = true ∧
      token = .quantity (.of value (String.ofList parts.unit)) ∧
      (read (α := α) units c).2 = c.skip size) ∨
    ∃ ch tail, c.rest = ch :: tail ∧ Text.Pattern.operand c.rest = none ∧
      ofChar? ch = some token ∧ (read (α := α) units c).2 = c.skip 1 := by
  rw [read, Cursor.read] at h ⊢
  cases found : Text.Pattern.operand c.rest with
  | some lexeme =>
    obtain ⟨size, parts⟩ := lexeme
    simp only [found] at h ⊢
    obtain ⟨value, numeral, accepted, rfl⟩ := ofOperand_eq_ok h
    exact .inl ⟨size, parts, value, rfl, numeral, accepted, rfl, rfl⟩
  | none =>
    simp only [found] at h ⊢
    split at h
    · cases h
    · rw [Cursor.next] at h ⊢
      split at h
      · cases h
      · rename_i ch rest first
        split at h
        · rename_i known
          cases h
          obtain ⟨head, rfl⟩ := Prod.mk.inj first
          obtain ⟨tail, whole⟩ := List.head?_eq_some_iff.mp head
          exact .inr ⟨ch, tail, whole, trivial, known, rfl⟩
        · cases h

theorem lexes_read {units : AllowedUnits} {c : Cursor} {token : Token α}
    (h : (read units c).1 = .ok token) : Lexes c.rest token (read (α := α) units c).2.rest := by
  rcases read_eq_ok h with ⟨size, parts, value, found, numeral, _, rfl, behind⟩ |
    ⟨ch, tail, whole, _, known, behind⟩
  · obtain ⟨marks, rest, whole, number, rfl, nonempty, digits, letters⟩ :=
      Text.Pattern.operand_eq_some found
    rw [number] at numeral
    have left : (c.skip (Text.Pattern.sign c.rest ++ marks ++ parts.unit).length).rest = rest :=
      (congrArg (List.drop _) whole).trans List.drop_left
    rw [behind, left, whole]
    exact .operand rest (Text.Pattern.sign_cases c.rest) nonempty digits numeral letters
  · have left : (c.skip 1).rest = tail := congrArg (List.drop 1) whole
    rw [behind, left, whole]
    exact .symbol tail known

/-- A unit that is read is allowed, and zero has none. -/
theorem unit_of_read {units : AllowedUnits} {c : Cursor} {q : Quantity α}
    (h : (read units c).1 = .ok (.quantity q)) :
    (q.unit.toList = ['%'] ∨ ∀ c ∈ q.unit.toList, c.isLower = true) ∧
      units.accepts q.unit = true := by
  rcases read_eq_ok h with ⟨size, parts, value, found, _, accepted, same, _⟩ |
    ⟨ch, tail, _, _, known, _⟩
  · obtain ⟨_, _, _, _, _, _, _, letters⟩ := Text.Pattern.operand_eq_some found
    obtain rfl := Token.quantity.inj same
    cases zero : Number.isZero value with
    | true =>
      rw [Quantity.of_zero zero]
      exact ⟨.inr (List.forall_mem_nil _), by cases units <;> rfl⟩
    | false =>
      rw [Quantity.unit_of zero, String.toList_ofList]
      exact ⟨letters, accepted⟩
  · rw [ofChar?] at known
    split at known
    · cases known
    · split at known
      · cases known
      · simp at known

/-- Either the text ends where an expression may end, or a token is read that may stand here, and
then the rest. -/
theorem readRest_eq_ok {units : AllowedUnits} {p : Progress α} {c : Cursor}
    {tokens : List (Token α)} (h : (readRest units p c).1 = .ok tokens) :
    (c.skipBlanks.rest = [] ∧ p.finish = .ok () ∧ tokens = []) ∨
    ∃ token p' others, (read units c.skipBlanks).1 = .ok token ∧ p.advance token = .ok p' ∧
      (readRest units p' (read (α := α) units c.skipBlanks).2).1 = .ok others ∧
      tokens = token :: others ∧
      (read (α := α) units c.skipBlanks).2.rest.length < c.rest.length := by
  rw [readRest] at h
  split at h
  · rename_i ended
    dsimp only at h
    split at h
    · rename_i finished
      cases h
      exact .inl ⟨ended, finished, rfl⟩
    · cases h
  · rename_i more
    dsimp only at h
    split at h
    · cases h
    · rename_i token first
      split at h
      · cases h
      · rename_i p' advanced
        cases rest : (readRest units p' (read (α := α) units c.skipBlanks).2).1 with
        | error e => simp [rest, Except.map] at h
        | ok others =>
          rw [rest] at h
          cases h
          exact .inr ⟨token, p', others, first, advanced, rest, rfl,
            Nat.lt_of_lt_of_le (length_read_lt units more) c.length_skipBlanks_le⟩

theorem lexed_readRest {units : AllowedUnits} {p : Progress α} {c : Cursor}
    {tokens : List (Token α)} (h : (readRest units p c).1 = .ok tokens) :
    Lexed p c.rest tokens := by
  obtain ⟨blanks, whole, blank⟩ := exists_blanks c
  rcases readRest_eq_ok h with ⟨ended, finished, rfl⟩ |
    ⟨token, p', others, first, advanced, rest, rfl, shorter⟩
  · rw [whole, ended, List.append_nil]
    exact .finish blank finished
  · rw [whole]
    exact .token blank (lexes_read first) advanced (lexed_readRest rest)
termination_by c.rest.length

theorem units_of_readRest {units : AllowedUnits} {p : Progress α} {c : Cursor}
    {tokens : List (Token α)} (h : (readRest units p c).1 = .ok tokens) :
    ∀ q, .quantity q ∈ tokens →
      (q.unit.toList = ['%'] ∨ ∀ c ∈ q.unit.toList, c.isLower = true) ∧
        units.accepts q.unit = true := by
  rcases readRest_eq_ok h with ⟨_, _, rfl⟩ | ⟨token, p', others, first, _, rest, rfl, shorter⟩
  · rintro _ ⟨⟩
  · intro q hq
    rcases List.mem_cons.mp hq with rfl | hq
    · exact unit_of_read first
    · exact units_of_readRest rest q hq
termination_by c.rest.length

theorem checkFrom_of_lexed {p : Progress α} {text : List Char} {tokens : List (Token α)}
    (h : Lexed p text tokens) : checkFrom p tokens = .ok () := by
  induction h with
  | finish blank finished => exact finished
  | token blank first advanced others ih =>
    rw [checkFrom, List.foldlM_cons, advanced]
    exact ih

/-- What is read from a text is an expression. -/
theorem exists_sum_of_ofText {units : AllowedUnits} {text : String} {tokens : List (Token α)}
    (h : ofText units text = .ok tokens) : ∃ e : Grammar.Sum α, e.tokens = tokens :=
  exists_sum_of_checkAll (checkFrom_of_lexed (lexed_readRest h))

end Token

end UnitArith
