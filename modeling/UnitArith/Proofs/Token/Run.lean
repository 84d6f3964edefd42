import UnitArith.Proofs.Token.Cut

/-! Reading goes from token to token and looks no further than the next blank. What was read of a
text and the error that was found in it stay the same when the text goes on behind a blank. -/
namespace UnitArith

namespace Text

open Decimal (isMark)

variable {γ : Type}

theorem takeWhile_append_stop {p : Char → Bool} {stop : Char} (h : p stop = false)
    (cs rest : List Char) :
    (cs ++ stop :: rest).takeWhile p = cs.takeWhile p ∧
      (cs ++ stop :: rest).dropWhile p = cs.dropWhile p ++ stop :: rest := by
  induction cs with
  | nil => simp [h]
  | cons c cs ih =>
    cases first : p c with
    | true => simpa [first] using ih
    | false => simp [first]

namespace Pattern

theorem sign_cons (c : Char) (cs : List Char) :
    sign (c :: cs) = if c = '+' then ['+'] else if c = '-' then ['-'] else [] := by
  unfold sign
  split <;> simp_all

theorem sign_append_blank {b : Char} (blank : isBlank b = true) (cs rest : List Char) :
    sign (cs ++ b :: rest) = sign cs := by
  cases cs with
  | nil =>
    have plus : b ≠ '+' := by rintro rfl; cases blank
    have minus : b ≠ '-' := by rintro rfl; cases blank
    simp [sign, plus, minus]
  | cons c cs => simp [sign_cons]

theorem sign_within (cs : List Char) : (sign cs).length ≤ cs.length := by
  have whole := congrArg List.length (sign_append_drop cs)
  simp only [List.length_append] at whole
  omega

theorem unit_append_blank {b : Char} (blank : isBlank b = true) (cs rest : List Char) :
    unit (cs ++ b :: rest) = unit cs := by
  obtain ⟨_, lower, percent⟩ := Token.ends_of_isBlank blank rest b rest rfl
  by_cases h : ∃ others, cs = '%' :: others
  · obtain ⟨others, rfl⟩ := h
    rfl
  · have other : ∀ others, cs ≠ '%' :: others := fun others same => h ⟨others, same⟩
    have other' : ∀ others, cs ++ b :: rest ≠ '%' :: others := by
      intro others same
      cases cs with
      | nil => exact percent (List.cons.inj same).1
      | cons c cs => exact other cs (by rw [(List.cons.inj same).1])
    rw [unit_of_ne other, unit_of_ne other', (takeWhile_append_stop lower cs rest).1]

/-- An operand ends before a blank. -/
theorem operand_append_blank {b : Char} (blank : isBlank b = true) (cs rest : List Char) :
    operand (cs ++ b :: rest) = operand cs := by
  have mark : isMark b = false := (Token.ends_of_isBlank blank rest b rest rfl).1
  obtain ⟨taken, dropped⟩ := takeWhile_append_stop mark (cs.drop (sign cs).length) rest
  simp only [operand, sign_append_blank blank, List.drop_append_of_le_length (sign_within cs),
    taken, dropped, unit_append_blank blank]

theorem looseUnit_append_blank {b : Char} (blank : isBlank b = true) (cs rest : List Char) :
    looseUnit (cs ++ b :: rest) = looseUnit cs := by
  obtain ⟨_, lower, percent⟩ := Token.ends_of_isBlank blank rest b rest rfl
  have stop : (b.isLower || b == '%') = false := by simp [lower, percent]
  simp only [looseUnit,
    (takeWhile_append_stop (p := fun c => c.isLower || c == '%') stop cs rest).1]

theorem operand_within {cs : List Char} {size : Nat} {parts : Operand}
    (h : operand cs = some (size, parts)) : size ≤ cs.length := by
  obtain ⟨marks, rest, whole, _, same, _⟩ := operand_eq_some h
  have length := congrArg List.length whole
  rw [List.length_append] at length
  omega

theorem looseUnit_within {cs : List Char} {size : Nat} {parts : Unit}
    (h : looseUnit cs = some (size, parts)) : size ≤ cs.length := by
  simp only [looseUnit] at h
  split at h
  · cases h
  · obtain ⟨rfl, _⟩ := Prod.mk.inj (Option.some.inj h)
    exact (List.takeWhile_prefix _).length_le

end Pattern

namespace Cursor

/-- The same place in a text that goes on. -/
def append (c : Cursor) (tail : List Char) : Cursor := ⟨c.rest ++ tail, c.offset⟩

theorem ofText_append (text : String) (b : Char) (behind : String) :
    ofText (text.push b ++ behind) = (ofText text).append (b :: behind.toList) := by
  simp [ofText, append]

variable {c : Cursor}

theorem append_skip {count : Nat} (within : count ≤ c.rest.length) (tail : List Char) :
    (c.append tail).skip count = (c.skip count).append tail := by
  simp [append, skip, List.drop_append_of_le_length within, List.take_append_of_le_length within]

theorem append_skipBlanks (more : c.skipBlanks.rest ≠ []) (tail : List Char) :
    (c.append tail).skipBlanks = c.skipBlanks.append tail := by
  have within := (c.rest.takeWhile_prefix isBlank).length_le
  have unfinished : (c.rest.takeWhile isBlank).length ≠ c.rest.length := by
    intro all
    exact more (by rw [skipBlanks, skip, all, List.drop_length])
  have taken : (c.append tail).rest.takeWhile isBlank = c.rest.takeWhile isBlank := by
    simp [append, List.takeWhile_append, unfinished]
  rw [skipBlanks, taken, append_skip within, skipBlanks]

theorem append_next (more : c.rest ≠ []) (tail : List Char) :
    (c.append tail).next = (c.next.1, c.next.2.append tail) := by
  have pos := List.length_pos_iff.mpr more
  rw [next, append_skip pos]
  simp [append, List.head?_append_of_ne_nil _ more, next]

/-- A pattern that takes the same lexeme from the longer text. -/
theorem append_read {p : Pattern γ} {tail : List Char} (same : p (c.rest ++ tail) = p c.rest)
    (within : ∀ size parts, p c.rest = some (size, parts) → size ≤ c.rest.length) :
    (c.append tail).read p = ((c.read p).1, (c.read p).2.append tail) := by
  have same : p (c.append tail).rest = p c.rest := same
  rw [read, read, same]
  cases found : p c.rest with
  | none => rfl
  | some taken =>
    obtain ⟨size, parts⟩ := taken
    have short := within size parts found
    dsimp only
    rw [append_skip short]
    simp [append, List.take_append_of_le_length short]

end Cursor

end Text

namespace Token

open Text (Cursor isBlank)

variable {α : Type} [Number α] {units : AllowedUnits}

/-- One token is read the same when the text goes on behind a blank, and so is an error. -/
theorem read_append {c : Cursor} (more : c.rest ≠ []) {b : Char} (blank : isBlank b = true)
    (behind : List Char) :
    read (α := α) units (c.append (b :: behind)) =
      ((read units c).1, (read (α := α) units c).2.append (b :: behind)) := by
  have operand := Cursor.append_read (c := c) (Text.Pattern.operand_append_blank blank c.rest behind)
    fun _ _ => Text.Pattern.operand_within
  have loose := Cursor.append_read (c := c)
    (Text.Pattern.looseUnit_append_blank blank c.rest behind)
    fun _ _ => Text.Pattern.looseUnit_within
  have next := Cursor.append_next more (b :: behind)
  rw [read, read, operand, loose, next]
  cases c.read Text.Pattern.operand with
  | mk lexeme rest =>
    cases lexeme with
    | some lexeme => rfl
    | none =>
      cases c.read Text.Pattern.looseUnit with
      | mk lexeme rest =>
        cases lexeme with
        | some lexeme => rfl
        | none =>
          cases c.next with
          | mk first rest =>
            cases first with
            | none => rfl
            | some ch =>
              dsimp only
              split <;> rfl

theorem step_append {c c' : Cursor} {result : Except (LexError α) (Token α)}
    (more : c.skipBlanks.rest ≠ []) (first : read units c.skipBlanks = (result, c')) {b : Char}
    (blank : isBlank b = true) (behind : List Char) :
    (c.append (b :: behind)).skipBlanks.rest ≠ [] ∧
      read units (c.append (b :: behind)).skipBlanks = (result, c'.append (b :: behind)) := by
  rw [Cursor.append_skipBlanks more, read_append more blank behind, first]
  exact ⟨List.append_ne_nil_of_left_ne_nil more _, rfl⟩

/-- Tokens are read one after the other, each behind blanks and where it may stand. -/
inductive Run (units : AllowedUnits) :
    Progress α → Cursor → List (Token α) → Progress α → Cursor → Prop
  | nil (p : Progress α) (c : Cursor) : Run units p c [] p c
  | cons {p p' q : Progress α} {c c' d : Cursor} {token : Token α} {tokens : List (Token α)}
      (more : c.skipBlanks.rest ≠ []) (first : read units c.skipBlanks = (.ok token, c'))
      (advanced : p.advance token = .ok p') (others : Run units p' c' tokens q d) :
      Run units p c (token :: tokens) q d

/-- What stops the reading before the end of the text: a lexeme that is no token, or a token that
is out of place. -/
inductive Blocked (units : AllowedUnits) (p : Progress α) (c : Cursor) : LexError α → Prop
  | lexeme {c' : Cursor} {e : LexError α} (more : c.skipBlanks.rest ≠ [])
      (first : read units c.skipBlanks = (.error e, c')) : Blocked units p c e
  | token {c' : Cursor} {token : Token α} {e : StructureError α} (more : c.skipBlanks.rest ≠ [])
      (first : read units c.skipBlanks = (.ok token, c')) (rejected : p.advance token = .error e) :
      Blocked units p c (.malformed e)

theorem readRest_of_read {p p' : Progress α} {c c' : Cursor} {token : Token α}
    (more : c.skipBlanks.rest ≠ []) (first : read units c.skipBlanks = (.ok token, c'))
    (advanced : p.advance token = .ok p') :
    readRest units p c = ((readRest units p' c').1.map (token :: ·), (readRest units p' c').2) := by
  rw [readRest, dif_neg more]
  simp only [first, advanced]

theorem Run.readRest_eq {p q : Progress α} {c d : Cursor} {tokens : List (Token α)}
    (run : Run units p c tokens q d) :
    readRest units p c = ((readRest units q d).1.map (tokens ++ ·), (readRest units q d).2) := by
  induction run with
  | nil p c => cases readRest units p c with | mk result d => cases result <;> rfl
  | @cons p p' q c c' d token tokens more first advanced others ih =>
    rw [readRest_of_read more first advanced, ih]
    cases (readRest units q d).1 <;> rfl

theorem Blocked.readRest_eq {p : Progress α} {c : Cursor} {e : LexError α}
    (blocked : Blocked units p c e) : (readRest units p c).1 = .error e := by
  cases blocked with
  | lexeme more first =>
    rw [readRest, dif_neg more]
    simp only [first]
  | token more first rejected =>
    rw [readRest, dif_neg more]
    simp only [first, rejected]

theorem Run.ofText_eq_error {text : String} {tokens : List (Token α)} {p : Progress α} {c : Cursor}
    {e : LexError α} (run : Run units .start (.ofText text) tokens p c)
    (blocked : Blocked units p c e) : ofText units text = .error e := by
  rw [ofText, readAll, run.readRest_eq, blocked.readRest_eq]
  rfl

/-- An error is met behind some tokens, or at the end of the text. -/
theorem exists_run_of_error {p : Progress α} {c : Cursor} {e : LexError α}
    (h : (readRest units p c).1 = .error e) :
    ∃ tokens q d, Run units p c tokens q d ∧
      (Blocked units q d e ∨
        d.skipBlanks.rest = [] ∧ ∃ unfinished, q.finish = .error unfinished ∧
          e = .malformed unfinished) := by
  by_cases ended : c.skipBlanks.rest = []
  · refine ⟨[], p, c, .nil p c, .inr ⟨ended, ?_⟩⟩
    rw [readRest, dif_pos ended] at h
    cases finished : p.finish with
    | ok => simp [finished] at h
    | error unfinished =>
      simp only [finished, Except.error.injEq] at h
      exact ⟨unfinished, rfl, h.symm⟩
  · cases first : read (α := α) units c.skipBlanks with
    | mk result c' =>
      cases result with
      | error e' =>
        have blocked : Blocked units p c e' := .lexeme ended first
        obtain rfl := Except.error.inj (blocked.readRest_eq.symm.trans h)
        exact ⟨[], p, c, .nil p c, .inl blocked⟩
      | ok token =>
        cases advanced : p.advance token with
        | error e' =>
          have blocked : Blocked units p c (.malformed e') := .token ended first advanced
          obtain rfl := Except.error.inj (blocked.readRest_eq.symm.trans h)
          exact ⟨[], p, c, .nil p c, .inl blocked⟩
        | ok p' =>
          rw [readRest_of_read ended first advanced] at h
          cases rest : (readRest units p' c').1 with
          | ok others => simp [rest, Except.map] at h
          | error e' =>
            rw [rest] at h
            cases h
            have shorter : c'.rest.length < c.rest.length := by
              have := length_read_lt (α := α) units ended
              rw [first] at this
              exact Nat.lt_of_lt_of_le this c.length_skipBlanks_le
            obtain ⟨tokens, q, d, run, found⟩ := exists_run_of_error rest
            exact ⟨token :: tokens, q, d, .cons ended first advanced run, found⟩
termination_by c.rest.length

theorem Run.append {p q : Progress α} {c d : Cursor} {tokens : List (Token α)}
    (run : Run units p c tokens q d) {b : Char} (blank : isBlank b = true) (behind : List Char) :
    Run units p (c.append (b :: behind)) tokens q (d.append (b :: behind)) := by
  induction run with
  | nil p c => exact .nil p _
  | cons more first advanced others ih =>
    obtain ⟨more', first'⟩ := step_append more first blank behind
    exact .cons more' first' advanced ih

theorem Blocked.append {p : Progress α} {c : Cursor} {e : LexError α}
    (blocked : Blocked units p c e) {b : Char} (blank : isBlank b = true) (behind : List Char) :
    Blocked units p (c.append (b :: behind)) e := by
  cases blocked with
  | lexeme more first =>
    obtain ⟨more', first'⟩ := step_append more first blank behind
    exact .lexeme more' first'
  | token more first rejected =>
    obtain ⟨more', first'⟩ := step_append more first blank behind
    exact .token more' first' rejected

/-- The errors that only show at the end of a text. -/
inductive FoundAtEnd (units : AllowedUnits) (text : String) : LexError α → Prop
  | empty : FoundAtEnd units text (.malformed .empty)
  | endsWith (token : Token α) : FoundAtEnd units text (.malformed (.endsWith token))
  /-- All tokens have been read, and groups are still open. -/
  | unbalanced {tokens : List (Token α)} {p : Progress α} {c : Cursor}
      (run : Run units .start (.ofText text) tokens p c) (ended : c.skipBlanks.rest = [])
      (opened : p.depth ≠ 0) : FoundAtEnd units text (.malformed .unbalanced)

theorem checkStep_none_eq_error {previous : Option (Token α)} {e : StructureError α}
    (h : checkStep previous none = .error e) : e = .empty ∨ ∃ token, e = .endsWith token := by
  rw [checkStep.eq_def] at h
  split at h
  · cases h
  · cases previous with
    | none =>
      cases h
      exact .inl rfl
    | some token =>
      cases h
      exact .inr ⟨token, rfl⟩

theorem finish_eq_error {p : Progress α} {e : StructureError α} (h : p.finish = .error e) :
    e = .empty ∨ (∃ token, e = .endsWith token) ∨ e = .unbalanced ∧ p.depth ≠ 0 := by
  rw [Progress.finish] at h
  cases step : checkStep p.last none with
  | error e' =>
    simp only [step, Except.error.injEq] at h
    subst h
    rcases checkStep_none_eq_error step with empty | ended
    · exact .inl empty
    · exact .inr (.inl ended)
  | ok =>
    by_cases closed : p.depth = 0
    · simp [step, closed] at h
    · simp only [step, closed, if_false, Except.error.injEq] at h
      exact .inr (.inr ⟨h.symm, closed⟩)

/-- An error that was found before the end of a text is the error of every text that goes on
behind a blank. -/
theorem ofText_push_append {text : String} {e : LexError α} (h : ofText units text = .error e)
    (early : ¬ FoundAtEnd units text e) {b : Char} (blank : isBlank b = true) (behind : String) :
    ofText units (text.push b ++ behind) = .error e := by
  obtain ⟨tokens, p, c, run, blocked | ⟨ended, unfinished, finished, rfl⟩⟩ := exists_run_of_error h
  · have longer := run.append blank behind.toList
    rw [← Cursor.ofText_append] at longer
    exact longer.ofText_eq_error (blocked.append blank behind.toList)
  · rcases finish_eq_error finished with rfl | ⟨token, rfl⟩ | ⟨rfl, opened⟩
    · exact absurd .empty early
    · exact absurd (.endsWith token) early
    · exact absurd (.unbalanced run ended opened) early

/-- The group that is closed once too often is reported, whatever stands behind a no-break
space. -/
theorem ofText_push_append_unmatched :
    let e : LexError Float := .malformed .unbalanced
    ofText none "2 * (1px)) + 3" = .error e ∧ ¬ FoundAtEnd none "2 * (1px)) + 3" e ∧
      ofText none ("2 * (1px)) + 3".push '\u00A0' ++ "& (") = .error e := by
  intro e
  have found : ofText none "2 * (1px)) + 3" = .error e := by decide +kernel
  have early : ¬ FoundAtEnd none "2 * (1px)) + 3" (.malformed .unbalanced : LexError Float) := by
    intro late
    -- The reading that failed has left a part of the text unread.
    have left : (readRest (α := Float) none .start (.ofText "2 * (1px)) + 3")).2.rest ≠ [] := by
      decide +kernel
    cases late with
    | unbalanced run ended opened =>
      rw [run.readRest_eq, readRest, dif_pos ended] at left
      exact left ended
  exact ⟨found, early, ofText_push_append found early (by decide) "& ("⟩

end Token

end UnitArith
