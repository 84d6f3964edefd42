import UnitArith.Proofs.Literal
import UnitArith.Proofs.Term.Text
import UnitArith.Proofs.Term.Unit

/-! Reducing a text that has been reduced. Its units have been read before, so the text is read
again unless it has a value without a numeral: infinity and NaN are written in letters. -/
namespace UnitArith

open Text (InOperand isBlank lowerChar)

theorem Quantity.exists_letter {q : Quantity Float} (infinite : q.value.isFinite = false) :
    ∃ signs d rest, q.spell.map lowerChar = signs ++ d :: rest ∧ d.isLower = true ∧
      (signs = [] ∨ signs = ['-']) ∧ (q.isNegative = false → signs = []) := by
  have small (c : Char) (h : InOperand c) : lowerChar c = c := h.lowerChar
  rcases Double.spell_of_not_isFinite infinite fun zero => (q.canonical zero).1 with
    name | name | ⟨negative, name⟩
  · refine ⟨[], 'n', (['a', 'N'] ++ q.unit.toList).map lowerChar, ?_, rfl, .inl rfl, fun _ => rfl⟩
    rw [spell, name, List.cons_append, List.map_cons, Text.lowerChar_of_isUpper rfl]
    rfl
  · refine ⟨[], 'i', (['n', 'f'] ++ q.unit.toList).map lowerChar, ?_, rfl, .inl rfl, fun _ => rfl⟩
    rw [spell, name, List.cons_append, List.map_cons, small 'i' (by decide)]
    rfl
  · refine ⟨['-'], 'i', (['n', 'f'] ++ q.unit.toList).map lowerChar, ?_, rfl, .inr rfl, ?_⟩
    · rw [spell, name, List.cons_append, List.map_cons, List.cons_append, List.map_cons,
        small 'i' (by decide), Text.lowerChar_of_ascii (by decide) (by decide)]
      rfl
    · intro nonnegative
      rw [isNegative, negative] at nonnegative
      cases nonnegative

theorem Quantity.spell_ne_nil {q : Quantity Float} (letters : Text.UnitText q.unit.toList) :
    q.spell ≠ [] := by
  intro empty
  cases finite : q.value.isFinite with
  | true =>
    have legible : q.Legible := ⟨finite, letters⟩
    obtain ⟨signs, c, cs, whole, _⟩ := legible.exists_word
    simp [empty] at whole
  | false =>
    obtain ⟨signs, d, rest, whole, _⟩ := exists_letter finite
    simp [empty] at whole

namespace Token

theorem stands_lower {units : AllowedUnits} {token : Token Float}
    (legible : ∀ q, token = .quantity q → q.Legible)
    (accepted : ∀ q, token = .quantity q → units.accepts q.unit = true)
    (tokens : List (Token Float)) :
    Stands units token (token.spell.map lowerChar) ((spacedAfter tokens).map lowerChar) := by
  rw [Text.map_lowerChar_eq_self fun c hc => lowerChar_of_mem_spell legible hc]
  exact stands_spell legible accepted (spacedAfter_map_cases tokens)

theorem infinite_of_cons {token : Token Float} {tokens : List (Token Float)}
    (finite : ∀ q, token = .quantity q → q.value.isFinite = true)
    (infinite : ∃ q, .quantity q ∈ token :: tokens ∧ q.value.isFinite = false) :
    ∃ q, .quantity q ∈ tokens ∧ q.value.isFinite = false := by
  obtain ⟨q, hq, infinite⟩ := infinite
  refine ⟨q, (List.mem_cons.mp hq).resolve_left fun same => ?_, infinite⟩
  rw [finite q same.symm] at infinite
  cases infinite

/-- The tokens up to a value without a numeral are read, and then comes a letter. -/
theorem exists_letter {units : AllowedUnits} {tokens : List (Token Float)}
    (letters : Lettered tokens) (unsigned : Unsigned tokens)
    (accepted : ∀ q, .quantity q ∈ tokens → units.accepts q.unit = true)
    (infinite : ∃ q, .quantity q ∈ tokens ∧ q.value.isFinite = false) :
    ∃ before after d rest, tokens = before ++ after ∧ d.isLower = true ∧
      Written units before ((spacedAfter tokens).map lowerChar) (' ' :: d :: rest) := by
  induction tokens with
  | nil =>
    obtain ⟨q, hq, _⟩ := infinite
    cases hq
  | cons token tokens ih =>
    have space : lowerChar ' ' = ' ' := Text.lowerChar_of_isBlank rfl
    by_cases here : ∃ q, token = .quantity q ∧ q.value.isFinite = false
    · obtain ⟨q, rfl, here⟩ := here
      obtain ⟨signs, d, rest, whole, letter, _, plain⟩ := Quantity.exists_letter here
      rw [plain (unsigned q (List.mem_cons_self ..)), List.nil_append] at whole
      refine ⟨[], _, d, rest ++ (spacedAfter tokens).map lowerChar, rfl, letter, ?_⟩
      rw [spacedAfter, spaced_cons, List.map_cons, List.map_append, spell, whole, space]
      exact .nil _
    · have finite : ∀ q, token = .quantity q → q.value.isFinite = true := by
        intro q same
        by_contra h
        exact here ⟨q, same, by simpa using h⟩
      have legible : ∀ q, token = .quantity q → q.Legible := fun q same =>
        ⟨finite q same, letters q (by simp [same])⟩
      obtain ⟨before, after, d, rest, rfl, letter, written⟩ :=
        ih (fun q hq => letters q (List.mem_cons_of_mem _ hq))
          (fun q hq => unsigned q (List.mem_cons_of_mem _ hq))
          (fun q hq => accepted q (List.mem_cons_of_mem _ hq)) (infinite_of_cons finite infinite)
      refine ⟨token :: before, after, d, rest, rfl, letter, ?_⟩
      have first := stands_lower legible (fun q same => accepted q (by simp [same]))
        (before ++ after)
      rw [spacedAfter, spaced_cons, List.map_cons, List.map_append, space]
      exact .cons (List.forall_mem_singleton.mpr (by decide : isBlank ' ' = true)) first written

/-- Nothing is read behind a value without a numeral. -/
theorem ofText_infinite {units : AllowedUnits} {e : Grammar.Sum Float} {head : Quantity Float}
    {tokens : List (Token Float)} (whole : e.tokens = .quantity head :: tokens)
    (letters : Lettered e.tokens) (unsigned : Unsigned tokens)
    (accepted : ∀ q, .quantity q ∈ e.tokens → units.accepts q.unit = true)
    (infinite : ∃ q, .quantity q ∈ e.tokens ∧ q.value.isFinite = false) :
    ∃ error : LexError Float,
      ofText units (String.ofList ((spaced e.tokens).map lowerChar)) = .error error := by
  generalize text : String.ofList ((spaced e.tokens).map lowerChar) = s
  have text : s.toList = head.spell.map lowerChar ++ (spacedAfter tokens).map lowerChar := by
    rw [← text, whole, String.toList_ofList, spaced_cons, List.map_append]
    rfl
  rw [whole] at letters accepted infinite
  cases finite : head.value.isFinite with
  | false =>
    obtain ⟨signs, d, rest, spelled, letter, signed, _⟩ := head.exists_letter finite
    rw [spelled, List.append_assoc, List.cons_append] at text
    rcases signed with rfl | rfl
    · exact readRest_letter .start (List.forall_mem_nil _) letter text
    · have unmarked : Text.Unmarked (d :: (rest ++ (spacedAfter tokens).map lowerChar)) := by
        rintro _ _ ⟨⟩
        exact Text.not_isMark_of_isLower letter
      have first : Stands units (.operator .minus : Token Float) ['-'] _ :=
        .symbol rfl fun _ => unmarked
      exact ⟨_, readRest_rejected first (p := .start) rfl text⟩
  | true =>
    have legible : head.Legible := ⟨finite, letters head (List.mem_cons_self ..)⟩
    obtain ⟨before, after, d, rest, rfl, letter, written⟩ :=
      exists_letter (fun q hq => letters q (List.mem_cons_of_mem _ hq)) unsigned
        (fun q hq => accepted q (List.mem_cons_of_mem _ hq))
        (infinite_of_cons (fun q same => Token.quantity.inj same ▸ finite) infinite)
    have first := stands_lower (fun q same => Token.quantity.inj same ▸ legible)
      (fun q same => accepted q (by simp [same])) (before ++ after)
    have written : Written units (.quantity head :: before) s.toList (' ' :: d :: rest) := by
      rw [text]
      exact .cons (List.forall_mem_nil _) first written
    obtain ⟨p, c, _, ended, result⟩ := ofText_of_prefix whole written
    obtain ⟨error, fails⟩ := readRest_letter p
      (List.forall_mem_singleton.mpr (by decide : isBlank ' ' = true)) letter ended
    exact ⟨error, by rw [result, fails]; rfl⟩

end Token

namespace Term

theorem IsNormal.unread {t : Term Float} (normal : t.IsNormal) {units : AllowedUnits}
    (letters : ∀ q ∈ t.quantities, Text.UnitText q.unit.toList)
    (accepted : ∀ q ∈ t.quantities, units.accepts q.unit = true)
    (infinite : ∃ q ∈ t.quantities, q.value.isFinite = false) :
    t.text ≠ "" ∧ ∃ error : LexError Float,
      Token.ofText units (Text.normalize t.text) = .error error := by
  obtain ⟨e, head, tokens, whole, text, same, unsigned, _⟩ := normal.exists_tree
  have letters : Token.Lettered e.tokens := fun q hq => letters q ((same q).mp hq)
  have accepted := fun q hq => accepted q ((same q).mp hq)
  obtain ⟨q, hq, infinite⟩ := infinite
  have fails := Token.ofText_infinite whole letters unsigned accepted
    ⟨q, (same q).mpr hq, infinite⟩
  rw [whole] at letters
  constructor
  · intro empty
    have none : t.spell = [] := by
      rw [Term.text] at empty
      simpa using congrArg String.toList empty
    rw [text, whole, Token.spaced_cons, List.append_eq_nil_iff] at none
    exact Quantity.spell_ne_nil (letters head (List.mem_cons_self ..)) none.1
  · rw [Term.text, text, whole, Token.normalize_lettered letters unsigned, ← whole]
    exact fails

/-- The units of a term that is read have been read with it. -/
theorem units_of_ofText {units : AllowedUnits} {text : String} {t : Term Float}
    (h : ofText units text = .ok (some t)) :
    t.IsNormal ∧ ∀ q ∈ t.quantities,
      Text.UnitText q.unit.toList ∧ units.accepts q.unit = true := by
  rw [ofText] at h
  cases read : (Token.ofText units text : Except (LexError Float) _) with
  | error e =>
    rw [read] at h
    cases h
  | ok tokens =>
    rw [read] at h
    cases parsed : ofTokens tokens with
    | error e => simp [parsed] at h
    | ok term =>
      simp only [parsed] at h
      cases h
      have plain : Text.UnitText "".toList ∧ units.accepts "" = true :=
        ⟨.inr (List.forall_mem_nil _), by cases units <;> rfl⟩
      exact ofTokens_units (G := fun unit => Text.UnitText unit.toList ∧ units.accepts unit = true)
        plain (Token.units_of_readRest read) parsed

end Term

theorem Token.ofText_empty (units : AllowedUnits) :
    Token.ofText units (Text.normalize "") =
      (.error (.malformed .empty) : Except (LexError Float) _) := by
  have none : (Text.normalize "").toList = [] := by
    rw [Text.normalize, String.toList_ofList]
    rfl
  have blank : (Text.Cursor.ofText (Text.normalize "")).skipBlanks.rest = [] :=
    rest_skipBlanks (List.forall_mem_nil _) (by rintro _ _ ⟨⟩) none
  rw [ofText, readAll, readRest, dif_pos blank]
  rfl

theorem reduce_eq_some {options : Options} {input s : String}
    (h : reduce options input = .ok (some s)) :
    input = "" ∧ s = "" ∨
      ∃ term, Term.ofText options.allowedUnits (Text.normalize input) =
        (.ok term : Except (ReduceError Float) _) ∧ s = Term.textOf term := by
  rw [reduce] at h
  split at h
  · rename_i none
    cases h
    exact .inl ⟨none, rfl⟩
  · cases read : (Term.ofText options.allowedUnits (Text.normalize input) :
        Except (ReduceError Float) _) with
    | error e =>
      rw [read] at h
      dsimp only at h
      split at h <;> cases h
    | ok term =>
      rw [read] at h
      cases h
      exact .inr ⟨term, rfl, rfl⟩

/-- The text of a term is its own reduction exactly when all of its values have a numeral. -/
theorem reduce_text_iff {options : Options} {t : Term Float} (normal : t.IsNormal)
    (units : ∀ q ∈ t.quantities,
      Text.UnitText q.unit.toList ∧ options.allowedUnits.accepts q.unit = true) :
    reduce options t.text = .ok (some t.text) ↔ ∀ q ∈ t.quantities, q.value.isFinite = true := by
  have letters := fun q hq => (units q hq).1
  have accepted := fun q hq => (units q hq).2
  constructor
  · intro again
    by_contra bad
    push Not at bad
    obtain ⟨q, hq, infinite⟩ := bad
    obtain ⟨nonempty, error, fails⟩ :=
      normal.unread letters accepted ⟨q, hq, by simpa using infinite⟩
    rw [reduce, if_neg nonempty, Term.ofText, fails] at again
    dsimp only at again
    split at again <;> cases again
  · intro finite
    have legible : ∀ q ∈ t.quantities, q.Legible := fun q hq => ⟨finite q hq, letters q hq⟩
    obtain ⟨same, again⟩ := normal.reads legible accepted
    rw [reduce, same, again]
    split
    · rename_i none
      rw [none]
    · rfl

/-- Reducing twice is reducing once, exactly when all values of the result have a numeral. -/
theorem reduce_reduce {options : Options} {input s : String}
    (reduced : reduce options input = .ok (some s)) :
    reduce options s = .ok (some s) ↔
      ∀ t : Term Float,
        Term.ofText options.allowedUnits (Text.normalize input) = .ok (some t) →
          ∀ q ∈ t.quantities, q.value.isFinite = true := by
  have empty : reduce options "" = .ok (some "") := if_pos rfl
  rcases reduce_eq_some reduced with ⟨rfl, rfl⟩ | ⟨term, read, rfl⟩
  · refine iff_of_true empty fun t read => ?_
    rw [Term.ofText, Token.ofText_empty] at read
    cases read
  · rw [read]
    cases term with
    | none => exact iff_of_true empty (by rintro _ ⟨⟩)
    | some t =>
      obtain ⟨normal, units⟩ := Term.units_of_ofText read
      refine (reduce_text_iff normal units).trans ⟨fun finite _ same => ?_, fun h => h t rfl⟩
      cases same
      exact finite

theorem reduce_reduce_sum :
    reduce {} "2 * (5px-3.5vh)" = .ok (some "10px - 7vh") ∧
      reduce {} "10px - 7vh" = .ok (some "10px - 7vh") := by
  have reduced : reduce {} "2 * (5px-3.5vh)" = .ok (some "10px - 7vh") := by
    decide +kernel
  have read : Term.ofText (Options.allowedUnits {}) (Text.normalize "2 * (5px-3.5vh)") =
      .ok (some (.expression (.quantity (.of (10 : Float) "px"))
        [(.minus, .quantity (.of 7 "vh"))])) := by
    decide +kernel
  refine ⟨reduced, (reduce_reduce reduced).mpr fun t same => ?_⟩
  rw [read] at same
  cases same
  decide +kernel

theorem Term.ofText_numeral {marks : List Char} (nonempty : marks ≠ [])
    (digits : ∀ c ∈ marks, Decimal.isMark c = true) {value : Float}
    (numeral : Number.read? marks = some value) (units : AllowedUnits) :
    ofText units (Text.normalize (String.ofList marks)) =
      .ok (some (.quantity (.of value ""))) := by
  have accepted : units.accepts "" = true := by cases units <;> rfl
  have read := ofText_literal units (.inl rfl) nonempty digits numeral
    (.inr (List.forall_mem_nil _) : Text.UnitLetters "")
  rwa [Text.toLower_eq_self (List.forall_mem_nil _), accepted, if_pos rfl, String.append_empty,
    List.nil_append] at read

/-- A numeral that is too large for a double reads as infinity, and that has no numeral. -/
theorem reduce_overflow :
    ¬ ∀ (options : Options) (input s : String), reduce options input = .ok (some s) →
      reduce options s = .ok (some s) := by
  intro h
  have digits : ∀ c ∈ '1' :: List.replicate 309 '0', Decimal.isMark c = true :=
    List.forall_mem_cons.mpr ⟨rfl, fun c hc => (List.mem_replicate.mp hc).2 ▸ rfl⟩
  have numeral : Number.read? ('1' :: List.replicate 309 '0') = some (1 / 0 : Float) := by
    decide +kernel
  have infinity : (Term.quantity (.of (1 / 0 : Float) "")).text = "inf" := by decide +kernel
  have reduced : reduce {} (String.ofList ('1' :: List.replicate 309 '0')) = .ok (some "inf") := by
    have nonempty : String.ofList ('1' :: List.replicate 309 '0') ≠ "" := by
      intro none
      have none := congrArg String.toList none
      rw [String.toList_ofList] at none
      exact List.cons_ne_nil _ _ none
    rw [reduce, if_neg nonempty,
      Term.ofText_numeral (List.cons_ne_nil _ _) digits numeral, ← infinity]
    rfl
  have again : reduce {} "inf" = .error (.lex (.unitWithoutNumber "inf" 0)) := by
    decide +kernel
  rw [h _ _ _ reduced] at again
  cases again

end UnitArith
