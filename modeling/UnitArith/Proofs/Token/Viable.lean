import UnitArith.Proofs.Token.Run

/-! The beginnings of expressions. What the check of neighbours and depth lets pass so far can be
completed: by an operand where one is due, and by closing the groups that are open. So a token is
rejected as soon as no text can complete what has been read. -/
namespace UnitArith

namespace Text

open Decimal (isMark)

theorem takeWhile_of_append {p : Char → Bool} {cs behind : List Char}
    (within : ((cs ++ behind).takeWhile p).length ≤ cs.length) :
    (cs ++ behind).takeWhile p = cs.takeWhile p ∧
      (cs ++ behind).dropWhile p = cs.dropWhile p ++ behind := by
  induction cs with
  | nil =>
    have none : behind.takeWhile p = [] := List.length_eq_zero_iff.mp (Nat.le_zero.mp within)
    have whole := List.takeWhile_append_dropWhile (p := p) (l := behind)
    simp_all
  | cons c cs ih =>
    cases first : p c with
    | true =>
      simp only [List.cons_append, first, List.takeWhile_cons_of_pos, List.length_cons,
        Nat.succ_le_succ_iff] at within
      simpa [first] using ih within
    | false => simp [first]

namespace Pattern

theorem unit_of_append {cs behind : List Char} (within : (unit (cs ++ behind)).length ≤ cs.length) :
    unit (cs ++ behind) = unit cs := by
  cases cs with
  | nil => exact List.length_eq_zero_iff.mp (Nat.le_zero.mp within)
  | cons c cs =>
    by_cases percent : c = '%'
    · simp [percent, unit]
    · have other (others : List Char) : ∀ rest, c :: others ≠ '%' :: rest := by
        rintro rest same
        exact percent (List.cons.inj same).1
      rw [List.cons_append, unit_of_ne (other _)] at within ⊢
      rw [unit_of_ne (other _), ← List.cons_append]
      exact (takeWhile_of_append within).1

/-- An operand is read alike when the text is cut off behind it. -/
theorem operand_of_append {cs behind : List Char} {size : Nat} {parts : Operand}
    (h : operand (cs ++ behind) = some (size, parts)) (within : size ≤ cs.length) :
    operand cs = some (size, parts) := by
  obtain ⟨c, cs, rfl⟩ :=
    List.exists_cons_of_length_pos (Nat.lt_of_lt_of_le (operand_pos h) within)
  have same : sign (c :: cs ++ behind) = sign (c :: cs) := by
    rw [List.cons_append, sign_cons, sign_cons]
  have short := sign_within (c :: cs)
  have lengths : (sign (c :: cs)).length + ((c :: cs).drop (sign (c :: cs)).length).length =
      (c :: cs).length := by
    rw [List.length_drop]
    omega
  simp only [operand, same, List.drop_append_of_le_length short] at h ⊢
  generalize (c :: cs).drop (sign (c :: cs)).length = body at h lengths ⊢
  split at h
  · cases h
  · rename_i present
    obtain ⟨sizes, parts⟩ := Prod.mk.inj (Option.some.inj h)
    rw [List.length_append] at sizes
    have within : ((body ++ behind).takeWhile isMark).length ≤ body.length := by omega
    obtain ⟨taken, dropped⟩ := takeWhile_of_append within
    have whole := congrArg List.length (List.takeWhile_append_dropWhile (p := isMark) (l := body))
    rw [List.length_append] at whole
    rw [taken, dropped] at sizes
    have within : (unit (body.dropWhile isMark ++ behind)).length ≤ (body.dropWhile isMark).length := by
      omega
    rw [taken, dropped, unit_of_append within] at h
    rw [taken] at present
    rw [if_neg present, h]

theorem operand_none_of_append {c : Char} {cs behind : List Char}
    (h : operand (c :: cs ++ behind) = none) : operand (c :: cs) = none := by
  have same : sign (c :: cs ++ behind) = sign (c :: cs) := by
    rw [List.cons_append, sign_cons, sign_cons]
  simp only [operand, same, List.drop_append_of_le_length (sign_within (c :: cs))] at h ⊢
  generalize (c :: cs).drop (sign (c :: cs)).length = body at h ⊢
  cases body with
  | nil => rfl
  | cons d body => cases mark : isMark d <;> simp [mark] at h ⊢

end Pattern

namespace Cursor

theorem exists_append {c : Cursor} {front behind : List Char} (h : c.rest = front ++ behind) :
    ∃ d : Cursor, c = d.append behind ∧ d.rest = front :=
  ⟨⟨front, c.offset⟩, by rw [append, ← h], rfl⟩

theorem append_inj {c d : Cursor} {behind : List Char} (h : c.append behind = d.append behind) :
    c = d := by
  obtain ⟨rest, offset⟩ := c
  obtain ⟨rest', offset'⟩ := d
  simpa [append] using h

/-- The blanks end within the front when they leave more than stands behind it. -/
theorem skipBlanks_of_append {c : Cursor} {behind : List Char}
    (h : behind.length < (c.append behind).skipBlanks.rest.length) : c.skipBlanks.rest ≠ [] := by
  intro ended
  have all : (c.rest.takeWhile isBlank).length = c.rest.length := by
    have within := (c.rest.takeWhile_prefix isBlank).length_le
    have left := congrArg List.length ended
    rw [skipBlanks, length_skip, List.length_nil] at left
    omega
  rw [skipBlanks, length_skip] at h
  simp only [append, List.takeWhile_append, all, if_true, List.length_append] at h
  omega

end Cursor

end Text

namespace Token

open Text (Cursor isBlank)

variable {α : Type} [Number α] {units : AllowedUnits}

theorem read_eq_ok_iff {c d : Cursor} {token : Token α} :
    read units c = (.ok token, d) ↔
      (∃ size parts value, Text.Pattern.operand c.rest = some (size, parts) ∧
        Number.read? parts.number = some value ∧
        units.accepts (String.ofList parts.unit) = true ∧
        token = .quantity (.of value (String.ofList parts.unit)) ∧ d = c.skip size) ∨
      ∃ ch tail, c.rest = ch :: tail ∧ Text.Pattern.operand c.rest = none ∧
        ofChar? ch = some token ∧ d = c.skip 1 := by
  constructor
  · intro h
    have first : (read units c).1 = .ok token := by rw [h]
    have left : (read (α := α) units c).2 = d := by rw [h]
    rw [← left]
    exact read_eq_ok first
  · rintro (⟨size, parts, value, found, numeral, accepted, rfl, rfl⟩ |
      ⟨ch, tail, whole, absent, known, rfl⟩)
    · simp [read, Cursor.read, found, ofOperand, numeral, accepted]
    · obtain ⟨_, _, lower, percent⟩ := not_of_ofChar? known
      have loose : Text.Pattern.looseUnit c.rest = none := by
        simp [whole, Text.Pattern.looseUnit, lower, percent]
      have head : c.rest.head? = some ch := by simp [whole]
      simp [read, Cursor.read, Cursor.next, absent, loose, head, known]

/-- A token is read alike when the text is cut off somewhere behind it. -/
theorem read_of_append {c d : Cursor} {token : Token α} {behind : List Char}
    (h : read units (c.append behind) = (.ok token, d.append behind)) :
    read units c = (.ok token, d) := by
  have length := congrArg (·.rest.length) (congrArg Prod.snd h)
  rw [read_eq_ok_iff] at h ⊢
  rcases h with ⟨size, parts, value, found, numeral, accepted, rfl, left⟩ |
    ⟨ch, tail, whole, absent, known, left⟩
  · have within : size ≤ c.rest.length := by
      have all := Text.Pattern.operand_within found
      have rests := congrArg (·.rest.length) left
      simp only [Cursor.length_skip, Cursor.append, List.length_append] at rests all
      omega
    rw [Cursor.append_skip within] at left
    exact .inl ⟨size, parts, value, Text.Pattern.operand_of_append found within, numeral, accepted,
      rfl, Cursor.append_inj left⟩
  · have within : 1 ≤ c.rest.length := by
      have rests := congrArg (·.rest.length) left
      have all := congrArg List.length whole
      simp only [Cursor.length_skip, Cursor.append, List.length_append, List.length_cons] at rests all
      omega
    rw [Cursor.append_skip within] at left
    obtain ⟨first, others, begins⟩ := List.exists_cons_of_length_pos within
    have same : first = ch := by
      simp only [Cursor.append, begins, List.cons_append, List.cons.injEq] at whole
      exact whole.1
    subst same
    refine .inr ⟨first, others, begins, ?_, known, Cursor.append_inj left⟩
    rw [begins]
    simp only [Cursor.append, begins] at absent
    exact Text.Pattern.operand_none_of_append absent

theorem exists_front_of_read {c d : Cursor} {token : Token α}
    (first : read units c.skipBlanks = (.ok token, d)) : ∃ front, c.rest = front ++ d.rest := by
  obtain ⟨blanks, whole, _⟩ := exists_blanks c
  have ok : (read units c.skipBlanks).1 = .ok token := by rw [first]
  obtain ⟨lexeme, cut, _⟩ := denotes_read ok
  rw [first] at cut
  exact ⟨blanks ++ lexeme, by rw [whole, cut, List.append_assoc]⟩

/-- What a run has passed over stands in front of what it leaves. -/
theorem Run.exists_front {p q : Progress α} {c d : Cursor} {tokens : List (Token α)}
    (run : Run units p c tokens q d) : ∃ front, c.rest = front ++ d.rest := by
  induction run with
  | nil => exact ⟨[], rfl⟩
  | cons more first advanced others ih =>
    obtain ⟨taken, whole⟩ := exists_front_of_read first
    obtain ⟨front, left⟩ := ih
    exact ⟨taken ++ front, by rw [whole, left, List.append_assoc]⟩

/-- The step of a run is the same when the text is cut off behind it. -/
theorem step_of_append {c d : Cursor} {token : Token α} {behind : List Char}
    (more : (c.append behind).skipBlanks.rest ≠ [])
    (first : read units (c.append behind).skipBlanks = (.ok token, d.append behind)) :
    c.skipBlanks.rest ≠ [] ∧ read units c.skipBlanks = (.ok token, d) := by
  have deeper : behind.length < (c.append behind).skipBlanks.rest.length := by
    have shorter := length_read_lt (α := α) units more
    rw [first] at shorter
    simp only [Cursor.append, List.length_append] at shorter ⊢
    omega
  have more' := Cursor.skipBlanks_of_append deeper
  rw [Cursor.append_skipBlanks more'] at first
  exact ⟨more', read_of_append first⟩

theorem Run.of_append {p q : Progress α} {c d : Cursor} {tokens : List (Token α)}
    {behind : List Char} (run : Run units p (c.append behind) tokens q (d.append behind)) :
    Run units p c tokens q d := by
  generalize start : c.append behind = first at run
  generalize stop : d.append behind = last at run
  induction run generalizing c with
  | nil p e =>
    obtain rfl := Cursor.append_inj (start.trans stop.symm)
    exact .nil p c
  | cons more first advanced others ih =>
    subst start stop
    obtain ⟨front, left⟩ := others.exists_front
    obtain ⟨middle, rfl, _⟩ :=
      Cursor.exists_append (left.trans (List.append_assoc front d.rest behind).symm)
    obtain ⟨more', first'⟩ := step_of_append more first
    exact .cons more' first' advanced (ih rfl rfl)

namespace Progress

end Progress

/-- Behind tokens that it lets pass, the reading of a text comes to one more token. The text is
`front` up to there. -/
def ComesTo (units : AllowedUnits) (text front : String) (tokens : List (Token α))
    (p : Progress α) (token : Token α) : Prop :=
  ∃ c d, Run units .start (.ofText text) tokens p c ∧ c.skipBlanks.rest ≠ [] ∧
    read units c.skipBlanks = (.ok token, d) ∧ text.toList = front.toList ++ d.rest

section

variable {text front : String} {tokens : List (Token α)} {p : Progress α} {token : Token α}

/-- What has been read is read in every text that begins alike and goes on behind a blank. -/
theorem ComesTo.behind (comes : ComesTo units text front tokens p token) {b : Char}
    (blank : isBlank b = true) (behind : String) :
    ∃ c d, Run units .start (.ofText (front.push b ++ behind)) tokens p c ∧
      c.skipBlanks.rest ≠ [] ∧ read units c.skipBlanks = (.ok token, d) ∧
      d.rest = b :: behind.toList := by
  obtain ⟨c, ⟨rest, offset⟩, run, more, first, whole⟩ := comes
  obtain ⟨taken, cut⟩ := exists_front_of_read first
  obtain ⟨c, rfl, _⟩ := Cursor.exists_append cut
  have start : Cursor.ofText text = (Cursor.ofText front).append rest := by
    rw [Cursor.ofText, whole]
    rfl
  rw [start] at run
  obtain ⟨more, first⟩ := step_of_append (d := ⟨[], offset⟩) more first
  obtain ⟨more', first'⟩ := step_append more first blank behind.toList
  have longer := run.of_append.append blank behind.toList
  rw [← Cursor.ofText_append] at longer
  exact ⟨_, _, longer, more', first', rfl⟩

end

end Token

end UnitArith
