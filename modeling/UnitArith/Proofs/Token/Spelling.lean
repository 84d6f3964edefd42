import UnitArith.Proofs.Number.Numeral
import UnitArith.Proofs.Text.LowerCase
import UnitArith.Proofs.Text.Normal
import UnitArith.Proofs.Token.Written

/-! Tokens written out with a space between each two. Nothing in such a text is respelled, and
each token is read as it is, unless its number has no digits. -/
namespace UnitArith

open Decimal (isMark)
open Text (Apart Ends InOperand IsPunctuation IsSign Simple UnitText isBlank lower lowerChar
  respellSigns)

namespace Quantity

/-- The value has a numeral, and the unit is one that can be read. -/
structure Legible (q : Quantity Float) : Prop where
  finite : q.value.isFinite = true
  letters : UnitText q.unit.toList

variable {q : Quantity Float}

theorem legible_of {value : Float} {unit : String} (finite : value.isFinite = true)
    (letters : UnitText unit.toList) : (of value unit).Legible := by
  cases h : Number.isZero value with
  | true =>
    rw [of_zero h]
    exact ⟨by decide +kernel, .inr (List.forall_mem_nil _)⟩
  | false => exact ⟨by rwa [value_of h], by rwa [unit_of h]⟩

theorem Legible.exists_digits (legible : q.Legible) :
    ∃ signs c cs, q.spell = signs ++ c :: cs ++ q.unit.toList ∧ (signs = [] ∨ signs = ['-']) ∧
      c.isDigit = true ∧ (∀ d ∈ c :: cs, isMark d = true) ∧
      Number.read? (signs ++ c :: cs) = some q.value ∧ (q.isNegative = false → signs = []) := by
  obtain ⟨c, cs, whole, digit⟩ := Decimal.exists_spell_eq_cons (Decimal.shortest q.value)
  have marks : ∀ d ∈ c :: cs, isMark d = true := fun d hd =>
    Decimal.isMark_of_mem_spell (whole ▸ hd)
  have numeral := Double.read?_spell legible.finite
  by_cases nonnegative : q.isNegative = false
  · have unsigned := Double.spell_of_nonnegative legible.finite nonnegative
      fun zero => (q.canonical zero).1
    rw [whole] at unsigned
    rw [unsigned] at numeral
    exact ⟨[], c, cs, by rw [spell, unsigned, List.nil_append], .inl rfl, digit, marks, numeral,
      fun _ => rfl⟩
  · have signed := Double.spell_eq legible.finite
    rw [whole] at signed
    rw [signed] at numeral
    refine ⟨_, c, cs, by rw [spell, signed], ?_, digit, marks, numeral,
      fun h => absurd h nonnegative⟩
    split
    · exact .inr rfl
    · exact .inl rfl

theorem Legible.exists_word (legible : q.Legible) :
    ∃ signs c cs, q.spell = signs ++ c :: cs ∧ (signs = [] ∨ signs = ['-']) ∧
      c.isDigit = true ∧ (∀ d ∈ c :: cs, InOperand d) ∧ (q.isNegative = false → signs = []) := by
  obtain ⟨signs, c, cs, whole, signed, digit, marks, _, unsigned⟩ := legible.exists_digits
  rw [List.append_assoc, List.cons_append] at whole
  refine ⟨signs, c, cs ++ q.unit.toList, whole, signed, digit, ?_, unsigned⟩
  rw [← List.cons_append]
  intro d hd
  rcases List.mem_append.mp hd with hd | hd
  · exact .inl (marks d hd)
  · exact legible.letters.inOperand d hd

theorem Legible.exists_cons (legible : q.Legible) (nonnegative : q.isNegative = false) :
    ∃ c cs, q.spell = c :: cs ∧ c.isDigit = true ∧ ∀ d ∈ c :: cs, InOperand d := by
  obtain ⟨signs, c, cs, whole, _, digit, inOperand, unsigned⟩ := legible.exists_word
  rw [unsigned nonnegative, List.nil_append] at whole
  exact ⟨c, cs, whole, digit, inOperand⟩

/-- Behind a sign the text in lower case is what operands are written with, even where the value
has no numeral. -/
theorem exists_body (letters : UnitText q.unit.toList) :
    ∃ signs body, q.spell = signs ++ body ∧ (signs = [] ∨ signs = ['-']) ∧
      (∀ d ∈ body, d.toNat < 128 ∧ InOperand (lowerChar d)) ∧
      (q.isNegative = false → signs = []) := by
  have fixed : ∀ {d : Char}, InOperand d → d.toNat < 128 ∧ InOperand (lowerChar d) := by
    intro d inOperand
    rw [inOperand.lowerChar]
    exact ⟨inOperand.ascii.1, inOperand⟩
  have beside (name : List Char) (h : ∀ d ∈ name, d.toNat < 128 ∧ InOperand (lowerChar d)) :
      ∀ d ∈ name ++ q.unit.toList, d.toNat < 128 ∧ InOperand (lowerChar d) := by
    intro d hd
    rcases List.mem_append.mp hd with hd | hd
    · exact h d hd
    · exact fixed (letters.inOperand d hd)
  have capital : 'N'.toNat < 128 ∧ InOperand (lowerChar 'N') := by
    rw [Text.lowerChar_of_isUpper rfl]
    decide
  have nan : ∀ d ∈ ['N', 'a', 'N'], d.toNat < 128 ∧ InOperand (lowerChar d) := by
    simp only [List.forall_mem_cons]
    exact ⟨capital, fixed (by decide), capital, List.forall_mem_nil _⟩
  have infinity : ∀ d ∈ ['i', 'n', 'f'], d.toNat < 128 ∧ InOperand (lowerChar d) := by
    simp only [List.forall_mem_cons]
    exact ⟨fixed (by decide), fixed (by decide), fixed (by decide), List.forall_mem_nil _⟩
  cases finite : q.value.isFinite with
  | true =>
    have legible : q.Legible := ⟨finite, letters⟩
    obtain ⟨signs, c, cs, whole, signed, _, inOperand, unsigned⟩ := legible.exists_word
    exact ⟨signs, c :: cs, whole, signed, fun d hd => fixed (inOperand d hd), unsigned⟩
  | false =>
    rcases Double.spell_of_not_isFinite finite fun zero => (q.canonical zero).1 with
      name | inf | ⟨negative, inf⟩
    · exact ⟨[], _, by rw [spell, name, List.nil_append], .inl rfl,
        beside ['N', 'a', 'N'] nan, fun _ => rfl⟩
    · exact ⟨[], _, by rw [spell, inf, List.nil_append], .inl rfl,
        beside ['i', 'n', 'f'] infinity, fun _ => rfl⟩
    · refine ⟨['-'], _, by rw [spell, inf]; rfl, .inr rfl, beside ['i', 'n', 'f'] infinity, ?_⟩
      intro nonnegative
      rw [isNegative, negative] at nonnegative
      cases nonnegative

end Quantity

namespace Token

/-- Every quantity has a written form that can be read. -/
def Legible (tokens : List (Token Float)) : Prop :=
  ∀ q, .quantity q ∈ tokens → q.Legible

/-- Every unit is one that can be read, whatever the values are. -/
def Lettered (tokens : List (Token Float)) : Prop :=
  ∀ q, .quantity q ∈ tokens → UnitText q.unit.toList

theorem Legible.lettered {tokens : List (Token Float)} (legible : Legible tokens) :
    Lettered tokens :=
  fun q hq => (legible q hq).letters

/-- No sign belongs to a number. -/
def Unsigned (tokens : List (Token Float)) : Prop :=
  ∀ q, .quantity q ∈ tokens → q.isNegative = false

theorem stands_quantity {units : AllowedUnits} {q : Quantity Float} (legible : q.Legible)
    (accepted : units.accepts q.unit = true) {tail : List Char} (ends : Ends tail) :
    Stands units (.quantity q) q.spell tail := by
  obtain ⟨signs, c, cs, whole, signed, _, marks, numeral, _⟩ := legible.exists_digits
  have stands : Stands units (.quantity (.of q.value (String.ofList q.unit.toList)))
      (signs ++ c :: cs ++ q.unit.toList) tail :=
    .operand (signed.imp_right .inr) (List.cons_ne_nil c cs) marks numeral legible.letters
      (by rwa [String.ofList_toList]) ends
  rwa [String.ofList_toList, Quantity.of_value_unit, ← whole] at stands

/-- With a sign in front, a number is another number. -/
theorem stands_signed {units : AllowedUnits} {q : Quantity Float} (legible : q.Legible)
    (nonnegative : q.isNegative = false) (accepted : units.accepts q.unit = true) {sign : Char}
    (signs : IsSign sign) {tail : List Char} (ends : Ends tail) :
    ∃ q' : Quantity Float, Stands units (.quantity q') (sign :: q.spell) tail := by
  obtain ⟨own, c, cs, whole, _, digit, marks, numeral, unsigned⟩ := legible.exists_digits
  rw [unsigned nonnegative, List.nil_append] at whole numeral
  have mark : isMark c = true := by rw [isMark, digit, Bool.true_or]
  rw [Number.read?_unsigned mark] at numeral
  obtain ⟨d, decimal, _⟩ := Option.map_eq_some_iff.mp numeral
  have read : ∃ value : Float, Number.read? ([sign] ++ c :: cs) = some value := by
    rcases signs with rfl | rfl
    · exact ⟨_, by rw [List.singleton_append, Number.read?, decimal, Option.map_some]⟩
    · exact ⟨_, by rw [List.singleton_append, Number.read?, decimal, Option.map_some]⟩
  obtain ⟨value, read⟩ := read
  refine ⟨.of value (String.ofList q.unit.toList), ?_⟩
  rw [whole]
  have signed : [sign] = [] ∨ [sign] = ['+'] ∨ [sign] = ['-'] := by simpa [IsSign] using signs
  exact .operand signed (List.cons_ne_nil c cs) marks read legible.letters
    (by rwa [String.ofList_toList]) ends

theorem simple_spell {token : Token Float}
    (letters : ∀ q, token = .quantity q → UnitText q.unit.toList) :
    ∀ c ∈ token.spell, Simple c := by
  cases token with
  | quantity q =>
    obtain ⟨signs, body, whole, signed, ascii, _⟩ := Quantity.exists_body (letters q rfl)
    rw [spell, whole]
    intro c hc
    rcases List.mem_append.mp hc with hc | hc
    · rcases signed with rfl | rfl
      · cases hc
      · rw [List.mem_singleton.mp hc]
        exact Text.simple_of_ascii (by decide)
    · exact Text.simple_of_ascii (ascii c hc).1
  | operator op =>
    rw [spell, List.forall_mem_singleton]
    exact IsPunctuation.simple (.inr (.inr ⟨op, rfl⟩))
  | opening =>
    rw [spell, List.forall_mem_singleton]
    exact IsPunctuation.simple (.inl rfl)
  | closing =>
    rw [spell, List.forall_mem_singleton]
    exact IsPunctuation.simple (.inr (.inl rfl))

/-- Numerals and units are in lower case already. -/
theorem lowerChar_of_mem_spell {token : Token Float}
    (legible : ∀ q, token = .quantity q → q.Legible) {c : Char} (hc : c ∈ token.spell) :
    lowerChar c = c := by
  cases token with
  | quantity q =>
    obtain ⟨signs, d, ds, whole, signed, _, inOperand, _⟩ := (legible q rfl).exists_word
    rw [spell, whole] at hc
    rcases List.mem_append.mp hc with hc | hc
    · rcases signed with rfl | rfl
      · cases hc
      · rw [List.mem_singleton.mp hc]
        exact Text.lowerChar_of_ascii (by decide) (by decide)
    · exact (inOperand c hc).lowerChar
  | operator op =>
    rw [List.mem_singleton.mp hc]
    exact IsPunctuation.lowerChar (.inr (.inr ⟨op, rfl⟩))
  | opening =>
    rw [List.mem_singleton.mp hc]
    exact IsPunctuation.lowerChar (.inl rfl)
  | closing =>
    rw [List.mem_singleton.mp hc]
    exact IsPunctuation.lowerChar (.inr (.inl rfl))

/-- The texts of the tokens with one space between each two. -/
def spaced (tokens : List (Token Float)) : List Char := [' '].intercalate (tokens.map spell)

/-- The text behind a token that is followed by others. -/
def spacedAfter (tokens : List (Token Float)) : List Char :=
  match tokens with
  | [] => []
  | _ :: _ => ' ' :: spaced tokens

theorem spaced_cons (token : Token Float) (tokens : List (Token Float)) :
    spaced (token :: tokens) = token.spell ++ spacedAfter tokens := by
  cases tokens <;> simp [spaced, spacedAfter, List.intercalate]

theorem spacedAfter_cases (tokens : List (Token Float)) :
    spacedAfter tokens = [] ∨ ∃ rest, spacedAfter tokens = ' ' :: rest := by
  cases tokens with
  | nil => exact .inl rfl
  | cons token tokens => exact .inr ⟨_, rfl⟩

theorem spacedAfter_map_cases (tokens : List (Token Float)) :
    (spacedAfter tokens).map lowerChar = [] ∨
      ∃ rest, (spacedAfter tokens).map lowerChar = ' ' :: rest := by
  rcases spacedAfter_cases tokens with none | ⟨rest, whole⟩
  · exact .inl (by rw [none]; rfl)
  · refine .inr ⟨rest.map lowerChar, ?_⟩
    rw [whole, List.map_cons, Text.lowerChar_of_isBlank rfl]

theorem stands_spell {units : AllowedUnits} {token : Token Float}
    (legible : ∀ q, token = .quantity q → q.Legible)
    (accepted : ∀ q, token = .quantity q → units.accepts q.unit = true) {tail : List Char}
    (blank : tail = [] ∨ ∃ rest, tail = ' ' :: rest) : Stands units token token.spell tail := by
  have ends : Ends tail := by
    rintro c rest rfl
    obtain h | ⟨_, h⟩ := blank
    · cases h
    · rw [(List.cons.inj h).1]
      decide
  have apart : Text.Unmarked tail := fun c rest whole => (ends c rest whole).1
  cases token with
  | quantity q => exact stands_quantity (legible q rfl) (accepted q rfl) ends
  | operator op => exact .symbol (ofChar?_operator op) fun _ => apart
  | opening => exact .symbol rfl fun _ => apart
  | closing => exact .symbol rfl fun _ => apart

theorem written_spaced {units : AllowedUnits} {tokens : List (Token Float)}
    (legible : Legible tokens)
    (accepted : ∀ q, .quantity q ∈ tokens → units.accepts q.unit = true) :
    Written units tokens (spaced tokens) [] := by
  induction tokens with
  | nil => exact .nil []
  | cons token tokens ih =>
    rw [spaced_cons]
    refine .cons (List.forall_mem_nil _)
      (stands_spell (fun q same => legible q (by simp [same]))
        (fun q same => accepted q (by simp [same])) (spacedAfter_cases tokens)) ?_
    have others := ih (fun q hq => legible q (List.mem_cons_of_mem _ hq))
      (fun q hq => accepted q (List.mem_cons_of_mem _ hq))
    cases tokens with
    | nil => exact .nil []
    | cons token tokens => exact others.blank (by decide)

theorem of_mem_spaced {tokens : List (Token Float)} {c : Char} (hc : c ∈ spaced tokens) :
    c = ' ' ∨ ∃ token ∈ tokens, c ∈ token.spell := by
  induction tokens with
  | nil => cases hc
  | cons token tokens ih =>
    rw [spaced_cons] at hc
    rcases List.mem_append.mp hc with hc | hc
    · exact .inr ⟨token, List.mem_cons_self .., hc⟩
    · cases tokens with
      | nil => cases hc
      | cons next tokens =>
        rcases List.mem_cons.mp hc with rfl | hc
        · exact .inl rfl
        · exact (ih hc).imp_right fun ⟨token', member, hc⟩ =>
            ⟨token', List.mem_cons_of_mem token member, hc⟩

theorem lower_spaced {tokens : List (Token Float)} (letters : Lettered tokens) :
    lower (spaced tokens) = (spaced tokens).map lowerChar := by
  refine Text.lower_eq_map fun c hc => ?_
  rcases of_mem_spaced hc with rfl | ⟨token, member, hc⟩
  · exact Text.simple_of_ascii (by decide)
  · exact simple_spell (fun q same => letters q (same ▸ member)) c hc

theorem map_lowerChar_spaced {tokens : List (Token Float)} (legible : Legible tokens) :
    (spaced tokens).map lowerChar = spaced tokens := by
  refine Text.map_lowerChar_eq_self fun c hc => ?_
  rcases of_mem_spaced hc with rfl | ⟨token, member, hc⟩
  · exact Text.lowerChar_of_isBlank rfl
  · exact lowerChar_of_mem_spell (fun q same => legible q (same ▸ member)) hc

theorem isChain_append {word rest : List Char} (inOperand : ∀ c ∈ word, InOperand c)
    (h : rest.IsChain Apart) : (word ++ rest).IsChain Apart := by
  induction word with
  | nil => exact h
  | cons c word ih =>
    obtain ⟨first, others⟩ := List.forall_mem_cons.mp inOperand
    exact (ih others).cons fun _ _ sign => absurd sign first.not_isSign

theorem isChain_body {body rest : List Char}
    (inOperand : ∀ d ∈ body, d.toNat < 128 ∧ InOperand (lowerChar d)) (h : rest.IsChain Apart) :
    (body.map lowerChar ++ rest).IsChain Apart := by
  refine isChain_append (fun c hc => ?_) h
  obtain ⟨d, hd, rfl⟩ := List.mem_map.mp hc
  exact (inOperand d hd).2

/-- No sign is attached where the tokens stand apart, unless it belongs to a number. -/
theorem isChain_spacedAfter {tokens : List (Token Float)} (letters : Lettered tokens)
    (unsigned : Unsigned tokens) : ((spacedAfter tokens).map lowerChar).IsChain Apart := by
  induction tokens with
  | nil => exact .nil
  | cons token tokens ih =>
    have others := ih (fun q hq => letters q (List.mem_cons_of_mem _ hq))
      (fun q hq => unsigned q (List.mem_cons_of_mem _ hq))
    have space : lowerChar ' ' = ' ' := Text.lowerChar_of_isBlank rfl
    rw [spacedAfter, spaced_cons, List.map_cons, List.map_append, space]
    refine List.IsChain.cons ?_ fun _ _ sign => absurd sign (by decide)
    have symbol (c : Char) : ([c].map lowerChar ++ (spacedAfter tokens).map lowerChar).IsChain
        Apart := by
      refine others.cons fun d hd _ => ?_
      rcases spacedAfter_map_cases tokens with none | ⟨rest, whole⟩
      · simp [none] at hd
      · rw [whole, List.head?_cons, Option.mem_some_iff] at hd
        subst hd
        decide
    cases token with
    | quantity q =>
      obtain ⟨signs, body, whole, _, inOperand, plain⟩ :=
        Quantity.exists_body (letters q (List.mem_cons_self ..))
      rw [spell, whole, plain (unsigned q (List.mem_cons_self ..)), List.nil_append]
      exact isChain_body inOperand others
    | operator op => exact symbol _
    | opening => exact symbol _
    | closing => exact symbol _

/-- Only letters change. The sign of a first number has nothing in front. -/
theorem normalize_lettered {token : Token Float} {tokens : List (Token Float)}
    (letters : Lettered (token :: tokens)) (unsigned : Unsigned tokens) :
    Text.normalize (String.ofList (spaced (token :: tokens))) =
      String.ofList ((spaced (token :: tokens)).map lowerChar) := by
  have others := isChain_spacedAfter (fun q hq => letters q (List.mem_cons_of_mem _ hq)) unsigned
  rw [Text.normalize, String.toList_ofList, lower_spaced letters]
  refine congrArg String.ofList (Text.respellSigns_eq_self ?_)
  rw [spaced_cons, List.map_append]
  cases token with
  | quantity q =>
    obtain ⟨signs, body, whole, signed, inOperand, _⟩ :=
      Quantity.exists_body (letters q (List.mem_cons_self ..))
    rw [spell, whole]
    rcases signed with rfl | rfl
    · exact (isChain_body inOperand others).tail
    · exact isChain_body inOperand others
  | operator op => exact others
  | opening => exact others
  | closing => exact others

theorem normalize_spaced {token : Token Float} {tokens : List (Token Float)}
    (legible : Legible (token :: tokens)) (unsigned : Unsigned tokens) :
    Text.normalize (String.ofList (spaced (token :: tokens))) =
      String.ofList (spaced (token :: tokens)) := by
  rw [normalize_lettered legible.lettered unsigned, map_lowerChar_spaced legible]

end Token

end UnitArith
