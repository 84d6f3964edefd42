import UnitArith.Proofs.Text.Character
import UnitArith.Proofs.Token.Lexer

/-! Tokens that are written out are read again. What follows a token decides about that: digits
and letters lengthen an operand, and a digit turns a sign into a part of a number. -/
namespace UnitArith

namespace Text.Pattern

open Decimal (isMark)

theorem unit_of_ne {cs : List Char} (h : ∀ rest, cs ≠ '%' :: rest) :
    unit cs = cs.takeWhile Char.isLower := by
  rw [unit.eq_def]
  split
  · exact absurd rfl (h _)
  · rfl

theorem unit_append {letters tail : List Char} (valid : UnitText letters) (ends : Ends tail) :
    unit (letters ++ tail) = letters := by
  rcases valid with rfl | lower
  · rfl
  · have stop : tail.takeWhile Char.isLower = [] := by
      cases tail with
      | nil => rfl
      | cons c rest => simp [(ends c rest rfl).2.1]
    rw [unit_of_ne, List.takeWhile_append_of_pos lower, stop, List.append_nil]
    rintro rest whole
    cases letters with
    | nil => exact (ends '%' rest whole).2.2 rfl
    | cons c cs =>
      obtain ⟨rfl, -⟩ := List.cons.inj whole
      exact absurd (lower '%' (List.mem_cons_self ..)) (by decide)

theorem sign_of_isMark {c : Char} (mark : isMark c = true) (cs : List Char) :
    sign (c :: cs) = [] := by
  rw [sign.eq_def]
  split
  · rename_i whole
    obtain ⟨rfl, -⟩ := List.cons.inj whole
    cases mark
  · rename_i whole
    obtain ⟨rfl, -⟩ := List.cons.inj whole
    cases mark
  · rfl

theorem operand_append {signs marks letters tail : List Char}
    (signed : signs = [] ∨ signs = ['+'] ∨ signs = ['-']) (nonempty : marks ≠ [])
    (digits : ∀ c ∈ marks, isMark c = true) (valid : UnitText letters) (ends : Ends tail) :
    operand (signs ++ marks ++ letters ++ tail) =
      some ((signs ++ marks ++ letters).length, ⟨signs ++ marks, letters⟩) := by
  have first : sign (signs ++ (marks ++ (letters ++ tail))) = signs := by
    rcases signed with rfl | rfl | rfl
    · obtain ⟨c, cs, rfl⟩ := List.exists_cons_of_ne_nil nonempty
      exact sign_of_isMark (digits c (List.mem_cons_self ..)) _
    · rfl
    · rfl
  obtain ⟨taken, dropped⟩ := takeWhile_unmarked (valid.unmarked ends)
  have present : marks.isEmpty = false := by simpa using nonempty
  simp only [operand, List.append_assoc, first, List.drop_left,
    List.takeWhile_append_of_pos digits, List.dropWhile_append_of_pos digits, taken, dropped,
    unit_append valid ends, List.append_nil, present, Bool.false_eq_true, if_false,
    List.length_append, Nat.add_assoc]

end Text.Pattern

namespace Token

open Text (Cursor Ends Unmarked UnitText isBlank)

variable {α : Type} [Number α]

/-- The text of one token, and a text behind it that does not change the token. -/
inductive Stands (units : AllowedUnits) : Token α → List Char → List Char → Prop
  | operand {signs marks letters tail : List Char} {value : α}
      (signed : signs = [] ∨ signs = ['+'] ∨ signs = ['-']) (nonempty : marks ≠ [])
      (digits : ∀ c ∈ marks, Decimal.isMark c = true)
      (numeral : Number.read? (signs ++ marks) = some value)
      (valid : UnitText letters)
      (accepted : units.accepts (String.ofList letters) = true) (ends : Ends tail) :
      Stands units (.quantity (.of value (String.ofList letters))) (signs ++ marks ++ letters) tail
  | symbol {c : Char} {token : Token α} {tail : List Char} (known : ofChar? c = some token)
      (apart : c = '+' ∨ c = '-' → Unmarked tail) : Stands units token [c] tail

/-- Tokens at the start of a text, each behind blanks, and what is left of the text. -/
inductive Written (units : AllowedUnits) : List (Token α) → List Char → List Char → Prop
  | nil (rest : List Char) : Written units [] rest rest
  | cons {token : Token α} {tokens : List (Token α)} {blanks text tail rest : List Char}
      (blank : ∀ c ∈ blanks, isBlank c = true) (first : Stands units token text tail)
      (others : Written units tokens tail rest) :
      Written units (token :: tokens) (blanks ++ (text ++ tail)) rest

theorem Written.blank {units : AllowedUnits} {token : Token α} {tokens : List (Token α)}
    {text rest : List Char} (h : Written units (token :: tokens) text rest) {b : Char}
    (blank : isBlank b = true) : Written units (token :: tokens) (b :: text) rest := by
  cases h with
  | cons blanks first others => exact .cons (List.forall_mem_cons.mpr ⟨blank, blanks⟩) first others

theorem not_of_ofChar? {c : Char} {token : Token α} (h : ofChar? c = some token) :
    isBlank c = false ∧ Decimal.isMark c = false ∧ c.isLower = false ∧ c ≠ '%' := by
  rcases Text.isPunctuation_of_eq_some h with rfl | rfl | ⟨op, rfl⟩
  · decide
  · decide
  · cases op <;> decide

theorem operand_symbol {c : Char} {token : Token α} (known : ofChar? c = some token)
    {tail : List Char} (apart : c = '+' ∨ c = '-' → Unmarked tail) :
    Text.Pattern.operand (c :: tail) = none := by
  obtain ⟨_, mark, _⟩ := not_of_ofChar? known
  have none : ((c :: tail).drop (Text.Pattern.sign (c :: tail)).length).takeWhile
      Decimal.isMark = [] := by
    rw [Text.Pattern.sign.eq_def]
    split
    · rename_i whole
      obtain ⟨rfl, rfl⟩ := List.cons.inj whole
      exact (Text.takeWhile_unmarked (apart (.inl rfl))).1
    · rename_i whole
      obtain ⟨rfl, rfl⟩ := List.cons.inj whole
      exact (Text.takeWhile_unmarked (apart (.inr rfl))).1
    · simp [mark]
  simp only [Text.Pattern.operand, none, List.isEmpty_nil, if_true]

theorem read_of_stands {units : AllowedUnits} {token : Token α} {text tail : List Char}
    (h : Stands units token text tail) {c : Cursor} (whole : c.rest = text ++ tail) :
    (read units c).1 = .ok token ∧ (read (α := α) units c).2.rest = tail := by
  cases h with
  | @operand signs marks letters tail value signed nonempty digits numeral valid accepted ends =>
    have found := Text.Pattern.operand_append signed nonempty digits valid ends
    simp only [read, Cursor.read, whole, found, ofOperand, numeral, accepted, if_true,
      Cursor.skip, List.drop_left, and_self]
  | @symbol ch token tail known apart =>
    obtain ⟨_, _, lower, percent⟩ := not_of_ofChar? known
    have loose : Text.Pattern.looseUnit (ch :: tail) = none := by
      simp [Text.Pattern.looseUnit, lower, percent]
    rw [List.singleton_append] at whole
    simp only [read, Cursor.read, Cursor.next, whole, operand_symbol known apart, loose,
      List.head?_cons, known, Cursor.skip, List.drop_one, List.tail_cons, and_self]

/-- A token does not begin with a blank. -/
theorem Stands.exists_cons {units : AllowedUnits} {token : Token α} {text tail : List Char}
    (h : Stands units token text tail) : ∃ c rest, text = c :: rest ∧ isBlank c = false := by
  cases h with
  | @operand signs marks letters tail value signed nonempty digits numeral valid accepted ends =>
    obtain ⟨c, cs, rfl⟩ := List.exists_cons_of_ne_nil nonempty
    rcases signed with rfl | rfl | rfl
    · exact ⟨c, _, rfl, Text.isBlank_of_isMark (digits c (List.mem_cons_self ..))⟩
    · exact ⟨'+', _, rfl, by decide⟩
    · exact ⟨'-', _, rfl, by decide⟩
  | symbol known apart => exact ⟨_, [], rfl, (not_of_ofChar? known).1⟩

theorem rest_skipBlanks {c : Cursor} {blanks text : List Char}
    (blank : ∀ b ∈ blanks, isBlank b = true)
    (stop : ∀ d rest, text = d :: rest → isBlank d = false) (whole : c.rest = blanks ++ text) :
    c.skipBlanks.rest = text := by
  have taken : text.takeWhile isBlank = [] := by
    cases text with
    | nil => rfl
    | cons d rest => simp [stop d rest rfl]
  rw [Cursor.skipBlanks, Cursor.skip, whole, List.takeWhile_append_of_pos blank, taken,
    List.append_nil, List.drop_left]

/-- A token that is out of place ends the reading. -/
theorem readRest_rejected {units : AllowedUnits} {token : Token α} {text tail : List Char}
    (next : Stands units token text tail) {p : Progress α} {error : StructureError α}
    (rejected : p.advance token = .error error) {c : Cursor} (whole : c.rest = text ++ tail) :
    (readRest units p c).1 = .error (.malformed error) := by
  obtain ⟨d, ds, cut, nonblank⟩ := next.exists_cons
  have start : c.skipBlanks.rest = text ++ tail := by
    refine rest_skipBlanks (List.forall_mem_nil _) ?_ whole
    rintro _ _ same
    rw [cut] at same
    exact (List.cons.inj same).1 ▸ nonblank
  have more : c.skipBlanks.rest ≠ [] := by simp [start, cut]
  rw [readRest, dif_neg more]
  simp only [(read_of_stands next start).1, rejected]

/-- So does a letter where a token should begin. -/
theorem readRest_letter {units : AllowedUnits} (p : Progress α) {c : Cursor}
    {blanks rest : List Char} {d : Char} (blank : ∀ b ∈ blanks, isBlank b = true)
    (letter : d.isLower = true) (whole : c.rest = blanks ++ d :: rest) :
    ∃ error, (readRest units p c).1 = .error error := by
  have mark := Text.not_isMark_of_isLower letter
  have start : c.skipBlanks.rest = d :: rest := by
    refine rest_skipBlanks blank ?_ whole
    rintro _ _ ⟨⟩
    exact Text.InOperand.not_isBlank (.inr (.inl letter))
  have more : c.skipBlanks.rest ≠ [] := by simp [start]
  have sign : Text.Pattern.sign (d :: rest) = [] := by
    rw [Text.Pattern.sign.eq_def]
    split
    · rename_i same
      cases (List.cons.inj same).1
      cases letter
    · rename_i same
      cases (List.cons.inj same).1
      cases letter
    · rfl
  have none : Text.Pattern.operand (d :: rest) = none := by
    simp [Text.Pattern.operand, sign, mark]
  have loose : ∃ size, Text.Pattern.looseUnit (d :: rest) = some (size, ()) := by
    simp [Text.Pattern.looseUnit, letter]
  obtain ⟨size, loose⟩ := loose
  rw [readRest, dif_neg more]
  simp only [read, Cursor.read, start, none, loose]
  exact ⟨_, rfl⟩

theorem readRest_of_written {units : AllowedUnits} {tokens : List (Token α)}
    {text rest : List Char} (h : Written units tokens text rest) {p p' : Progress α}
    (passed : tokens.foldlM Progress.advance p = .ok p') {c : Cursor} (whole : c.rest = text) :
    ∃ c' : Cursor, c'.rest = rest ∧
      (readRest units p c).1 = (readRest units p' c').1.map (tokens ++ ·) := by
  induction h generalizing p c with
  | nil rest =>
    cases passed
    refine ⟨c, whole, ?_⟩
    cases (readRest units p' c).1 <;> rfl
  | @cons token tokens blanks text tail rest blank first others ih =>
    obtain ⟨d, ds, cut, nonblank⟩ := first.exists_cons
    have start : c.skipBlanks.rest = text ++ tail := by
      refine rest_skipBlanks blank ?_ whole
      rintro _ _ same
      rw [cut] at same
      exact (List.cons.inj same).1 ▸ nonblank
    obtain ⟨read, left⟩ := read_of_stands first start
    obtain ⟨middle, advanced, passed⟩ := foldlM_cons_eq_ok_iff.mp passed
    obtain ⟨c', end', result⟩ := ih passed left
    refine ⟨c', end', ?_⟩
    have more : c.skipBlanks.rest ≠ [] := by simp [start, cut]
    rw [readRest, dif_neg more]
    simp only [read, advanced, result]
    cases (readRest units p' c').1 <;> rfl

/-- What is written out and passes the check is read to the end. Blanks may follow. -/
theorem readRest_of_checked {units : AllowedUnits} {tokens : List (Token α)}
    {text rest : List Char} (h : Written units tokens text rest)
    (blank : ∀ b ∈ rest, isBlank b = true) {p : Progress α} (checked : checkFrom p tokens = .ok ())
    {c : Cursor} (whole : c.rest = text) : (readRest units p c).1 = .ok tokens := by
  obtain ⟨q, passed, finished⟩ := bind_eq_ok_iff.mp checked
  obtain ⟨c', ended, result⟩ := readRest_of_written h passed whole
  rw [← List.append_nil rest] at ended
  have done : c'.skipBlanks.rest = [] := rest_skipBlanks blank (by rintro _ _ ⟨⟩) ended
  rw [result, readRest, dif_pos done, finished]
  simp [Except.map]

/-- When the beginning of an expression is written out, reading goes on behind it. -/
theorem ofText_of_prefix {units : AllowedUnits} {e : Grammar.Sum α} {before after : List (Token α)}
    (whole : e.tokens = before ++ after) {text : String} {rest : List Char}
    (h : Written units before text.toList rest) :
    ∃ (p : Progress α) (c : Cursor), before.foldlM Progress.advance .start = .ok p ∧
      c.rest = rest ∧ ofText units text = (readRest units p c).1.map (before ++ ·) := by
  obtain ⟨last, passed, _⟩ := reads_sum e .start rfl
  rw [whole] at passed
  obtain ⟨p, first, _⟩ := foldlM_append_eq_ok_iff.mp passed
  obtain ⟨c, ended, result⟩ := readRest_of_written h first (c := .ofText text) rfl
  exact ⟨p, c, first, ended, result⟩

/-- An expression that is written out is read as it is. -/
theorem ofText_of_written {units : AllowedUnits} {e : Grammar.Sum α} {text : String}
    (h : Written units e.tokens text.toList []) : ofText units text = .ok e.tokens :=
  readRest_of_checked h (List.forall_mem_nil _) (checkAll_tokens e) rfl

end Token

end UnitArith
