import UnitArith.Proofs.Text.Cursor
import UnitArith.Token.Lexer

/-! Where the reading of tokens stands. Whatever is read, in whatever order, and whether it is
there or not: the cursor moves forward through the text, and the offset in an error is that of what
was read last. -/
namespace UnitArith

open Text (Cursor Lexeme Search byteLength)

variable {α : Type} [Number α]

/-- What the error is about lies right in front of the cursor. -/
def LexError.IsPlaced (text : String) (c : Cursor) : LexError α → Prop
  | unexpectedEnd offset => c.ReadLast text "" offset ∧ c.atEnd = true
  | unexpectedChar ch offset => c.ReadLast text ch.toString offset
  | unitWithoutNumber unit offset => c.ReadLast text unit offset
  | invalidNumber _ | unsupportedUnit .. | malformed _ => True

namespace Token

variable {β : Type} {units : AllowedUnits}

/-- A reading that goes forward from here: it skips something, and an error is about the end of
what was skipped. -/
structure Forward (c : Cursor) (reading : Except (LexError α) β × Cursor) : Prop where
  skips : ∃ count, reading.2 = c.skip count
  placed {text front : String} {e : LexError α} (behind : c.IsBehind text front)
    (failed : reading.1 = .error e) : e.IsPlaced text reading.2

theorem Forward.behind {c : Cursor} {count : Nat} {reading : Except (LexError α) β × Cursor}
    (h : Forward (c.skip count) reading) : Forward c reading where
  skips := by
    obtain ⟨more, skipped⟩ := h.skips
    exact ⟨count + more, by rw [skipped, Cursor.skip_skip]⟩
  placed behind failed := h.placed (behind.skip count) failed

theorem ofOperand_eq_error {lexeme : Lexeme Text.Pattern.Operand} {e : LexError α}
    (failed : ofOperand units lexeme = .error e) :
    (∃ operand, e = .invalidNumber operand) ∨
      ∃ unit supported, e = .unsupportedUnit unit supported := by
  rw [ofOperand] at failed
  split at failed
  · cases failed
    exact .inl ⟨_, rfl⟩
  · split at failed
    · cases failed
    · cases failed
      exact .inr ⟨_, _, rfl⟩

theorem read_forward (units : AllowedUnits) (c : Cursor) : Forward (α := α) c (read units c) := by
  rw [read, Cursor.read, Cursor.read, Cursor.next]
  cases Text.Pattern.operand c.rest with
  | some found =>
    refine ⟨⟨_, rfl⟩, ?_⟩
    intro text front e _ failed
    rcases ofOperand_eq_error failed with ⟨operand, rfl⟩ | ⟨unit, supported, rfl⟩
    · trivial
    · trivial
  | none =>
    cases Text.Pattern.looseUnit c.rest with
    | some found =>
      refine ⟨⟨_, rfl⟩, ?_⟩
      intro text front e behind failed
      cases failed
      exact behind.readLast found.1
    | none =>
      cases first : c.rest.head? with
      | none =>
        have ended : c.rest = [] := List.head?_eq_none_iff.mp first
        refine ⟨⟨_, rfl⟩, ?_⟩
        intro text front e behind failed
        cases failed
        have last := behind.readLast 1
        rw [ended] at last
        exact ⟨last, by simp [Cursor.atEnd, Cursor.skip, ended]⟩
      | some ch =>
        obtain ⟨tail, whole⟩ := List.head?_eq_some_iff.mp first
        dsimp only
        split
        · refine ⟨⟨_, rfl⟩, ?_⟩
          intro text front e behind failed
          cases failed
        · refine ⟨⟨_, rfl⟩, ?_⟩
          intro text front e behind failed
          cases failed
          have last := behind.readLast 1
          rw [whole] at last
          exact last

/-- Away from the end, a token takes at least one byte, whether it can be read or not. -/
theorem offset_lt_read (units : AllowedUnits) {c : Cursor} (more : c.rest ≠ []) :
    c.offset < (read (α := α) units c).2.offset := by
  obtain ⟨count, skipped⟩ := (read_forward (α := α) units c).skips
  have shorter := length_read_lt (α := α) units more
  rw [skipped] at shorter ⊢
  refine Cursor.offset_lt_skip more (Nat.pos_of_ne_zero ?_)
  rintro rfl
  exact Nat.lt_irrefl _ shorter

theorem readRest_forward (units : AllowedUnits) (p : Progress α) (c : Cursor) :
    Forward c (readRest units p c) := by
  fun_induction readRest units p c with
  | case1 p c start =>
    refine ⟨⟨_, rfl⟩, ?_⟩
    intro text front e _ failed
    dsimp only at failed
    split at failed
    · cases failed
    · cases failed
      trivial
  | case2 p c start more first _ e failed =>
    have token : Forward start first := read_forward units start
    apply Forward.behind (c := c)
    refine ⟨token.skips, ?_⟩
    intro text front e behind same
    cases same
    exact token.placed behind failed
  | case3 p c start more first _ token found e rejected =>
    apply Forward.behind (c := c)
    refine ⟨(read_forward (α := α) units start).skips, ?_⟩
    intro text front e _ same
    cases same
    trivial
  | case4 p c start more first _ token found p' advanced others ih =>
    obtain ⟨count, skipped⟩ := (read_forward (α := α) units start).skips
    have ih : Forward start others := by
      refine Forward.behind (?_ : Forward (start.skip count) others)
      rw [← skipped]
      exact ih
    apply Forward.behind (c := c)
    refine ⟨ih.skips, ?_⟩
    intro text front e behind same
    cases failed : others.1 with
    | ok tokens =>
      rw [failed] at same
      cases same
    | error e =>
      rw [failed] at same
      cases same
      exact ih.placed behind failed

/-- The end is reported where nothing is left, and nowhere else. -/
theorem read_eq_unexpectedEnd_iff {c : Cursor} {offset : Nat} :
    (read (α := α) units c).1 = .error (.unexpectedEnd offset) ↔
      c.rest = [] ∧ offset = c.offset := by
  rw [read, Cursor.read, Cursor.read, Cursor.next]
  constructor
  · intro failed
    cases operand : Text.Pattern.operand c.rest with
    | some found =>
      simp only [operand] at failed
      rcases ofOperand_eq_error failed with ⟨_, same⟩ | ⟨_, _, same⟩
      · cases same
      · cases same
    | none =>
      simp only [operand] at failed
      split at failed
      · cases failed
      · split at failed
        · rename_i first
          cases failed
          exact ⟨List.head?_eq_none_iff.mp (congrArg Prod.fst first), rfl⟩
        · split at failed <;> cases failed
  · rintro ⟨ended, rfl⟩
    simp only [ended]
    rfl

/-- The reading of `readRest`, given up where so many tokens were not enough. -/
def readWithin (units : AllowedUnits) :
    Nat → Progress α → Cursor → Option (Except (LexError α) (List (Token α)) × Cursor)
  | 0, _, _ => none
  | limit + 1, p, c =>
    let start := c.skipBlanks
    if start.rest = [] then
      some (match p.finish with
        | .ok () => .ok []
        | .error e => .error (.malformed e), start)
    else
      let first := read units start
      match first.1 with
      | .error e => some (.error e, first.2)
      | .ok token =>
        match p.advance token with
        | .error e => some (.error (.malformed e), first.2)
        | .ok p =>
          (readWithin units limit p first.2).map fun others =>
            (others.1.map (token :: ·), others.2)

theorem readWithin_eq (units : AllowedUnits) {limit : Nat} {p : Progress α} {c : Cursor}
    (enough : c.rest.length < limit) : readWithin units limit p c = some (readRest units p c) := by
  induction limit generalizing p c with
  | zero => exact absurd enough (Nat.not_lt_zero _)
  | succ limit ih =>
    rw [readWithin, readRest]
    dsimp only
    split
    · rfl
    · rename_i more
      have shorter := length_read_lt (α := α) units more
      have blanks := c.length_skipBlanks_le
      cases (read (α := α) units c.skipBlanks).1 with
      | error e => rfl
      | ok token =>
        dsimp only
        cases p.advance token with
        | error e => rfl
        | ok p =>
          dsimp only
          rw [ih (by omega)]
          rfl

/-- What is done at a cursor. Each reading of tokens comes with its own units. -/
inductive Step : Type 1 where
  | blanks
  | char
  | lexeme {γ : Type} (search : Search γ)
  | token (units : AllowedUnits)
  | tokens (units : AllowedUnits)

/-- The cursor after a step, which may have failed. -/
def Step.after (α : Type) [Number α] (c : Cursor) : Step → Cursor
  | blanks => c.skipBlanks
  | char => c.next.2
  | lexeme search => (c.readFound search).2
  | token units => (read (α := α) units c).2
  | tokens units => (readAll (α := α) units c).2

/-- The cursor after all steps. -/
def walk (α : Type) [Number α] (steps : List Step) (c : Cursor) : Cursor :=
  steps.foldl (Step.after α) c

theorem exists_skip_after (c : Cursor) (step : Step) :
    ∃ count, step.after α c = c.skip count := by
  cases step with
  | blanks => exact ⟨_, rfl⟩
  | char => exact ⟨1, rfl⟩
  | lexeme search => exact c.exists_skip_read search.atStart
  | token units => exact (read_forward units c).skips
  | tokens units => exact (readRest_forward units .start c).skips

theorem exists_skip_walk (steps : List Step) (c : Cursor) :
    ∃ count, walk α steps c = c.skip count := by
  induction steps generalizing c with
  | nil => exact ⟨0, rfl⟩
  | cons step steps ih =>
    obtain ⟨first, here⟩ := exists_skip_after (α := α) c step
    obtain ⟨second, others⟩ := ih (c.skip first)
    refine ⟨first + second, ?_⟩
    rw [walk, List.foldl_cons, here, ← walk, others, Cursor.skip_skip]

/-- A cursor that has come to a place in the text. -/
structure StandsIn (text : String) (c : Cursor) : Prop where
  parted : ∃ front, c.IsBehind text front
  boundary : String.Pos.Raw.IsValid text ⟨c.offset⟩
  unread : text.toByteArray.extract c.offset text.utf8ByteSize = (String.ofList c.rest).toByteArray
  atEnd : c.atEnd = true ↔ c.offset = text.utf8ByteSize

/-- What the steps do at a place in the text. -/
structure ReadsFrom (α : Type) [Number α] (text : String) (c : Cursor) : Prop where
  char_none : c.next.1 = none ↔ c.offset = text.utf8ByteSize
  lexeme_none {γ : Type} (search : Search γ) (nothing : (c.readFound search).1 = none) :
    (c.readFound search).2 = c
  lexeme_some {γ : Type} (search : Search γ) {lexeme : Lexeme γ}
    (found : (c.readFound search).1 = some lexeme) :
    (c.readFound search).2.ReadLast text (String.ofList lexeme.text) lexeme.offset
  lexeme_pattern {γ : Type} (p : Text.Pattern γ) : c.readFound p.search = c.read p
  token_end (units : AllowedUnits) : (∃ offset,
    (read (α := α) units c).1 = .error (.unexpectedEnd offset)) ↔ c.offset = text.utf8ByteSize
  token_advances (units : AllowedUnits) (more : c.atEnd = false) :
    c.offset < (read (α := α) units c).2.offset
  token_placed (units : AllowedUnits) {e : LexError α} (failed : (read units c).1 = .error e) :
    e.IsPlaced text (read (α := α) units c).2
  tokens_ends (units : AllowedUnits) :
    readWithin units (text.utf8ByteSize - c.offset + 1) .start c = some (readAll (α := α) units c)
  tokens_placed (units : AllowedUnits) {e : LexError α} (failed : (readAll units c).1 = .error e) :
    e.IsPlaced text (readAll (α := α) units c).2

theorem standsIn_of_isBehind {text front : String} {c : Cursor} (h : c.IsBehind text front) :
    StandsIn text c where
  parted := ⟨front, h⟩
  boundary := h.isValid
  unread := h.toByteArray_rest
  atEnd := Cursor.atEnd_iff.trans h.rest_eq_nil_iff

theorem readsFrom_of_isBehind {text front : String} {c : Cursor} (h : c.IsBehind text front) :
    ReadsFrom α text c where
  char_none := Cursor.next_eq_none_iff.trans h.rest_eq_nil_iff
  lexeme_none _ nothing := Cursor.read_eq_none nothing
  lexeme_some search lexeme found := by
    obtain ⟨size, taken, offset, skipped⟩ := Cursor.read_eq_some found
    rw [Cursor.readFound, skipped, taken, offset]
    exact h.readLast size
  lexeme_pattern p := by rw [Cursor.readFound, p.atStart_search]
  token_end units := by
    rw [← h.rest_eq_nil_iff]
    simp only [read_eq_unexpectedEnd_iff, exists_and_left, exists_eq, and_true]
  token_advances units more := by
    refine offset_lt_read units fun ended => ?_
    rw [Cursor.atEnd_iff.mpr ended] at more
    cases more
  token_placed units _ failed := (read_forward units c).placed h failed
  tokens_ends units := by
    have bytes := h.bytes
    have short := Text.length_le_byteLength c.rest
    exact readWithin_eq units (by omega)
  tokens_placed units _ failed := (readRest_forward units .start c).placed h failed

/-- Whatever was read before, the cursor stands in the text, has not gone back, and reads from
there. -/
theorem walk_standsIn (text : String) (earlier later : List Step) :
    let c := walk α earlier (.ofText text)
    StandsIn text c ∧ c.offset ≤ (walk α later c).offset ∧ ReadsFrom α text c := by
  intro c
  obtain ⟨count, skipped⟩ := exists_skip_walk (α := α) earlier (.ofText text)
  have behind := (Cursor.isBehind_ofText text).skip count
  rw [← skipped] at behind
  obtain ⟨more, onward⟩ := exists_skip_walk (α := α) later c
  refine ⟨standsIn_of_isBehind behind, ?_, readsFrom_of_isBehind behind⟩
  rw [onward]
  exact c.offset_le_skip more

end Token

end UnitArith
