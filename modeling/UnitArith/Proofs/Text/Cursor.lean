import UnitArith.Text.Cursor

/-! Where a cursor stands. What was read and what is left make up the text, and the offset counts
the bytes of what was read: it is that of a place between two characters. Every reading skips some
characters, so this is so behind each of them. -/
namespace UnitArith.Text

variable {γ : Type}

theorem utf8ByteSize_ofList (cs : List Char) : (String.ofList cs).utf8ByteSize = byteLength cs := by
  induction cs with
  | nil => rfl
  | cons c cs ih =>
    rw [← List.singleton_append, String.ofList_append, String.utf8ByteSize_append, ih,
      ← String.singleton_eq_ofList, String.utf8ByteSize_singleton]
    rfl

theorem length_le_byteLength (cs : List Char) : cs.length ≤ byteLength cs := by
  induction cs with
  | nil => exact Nat.le_refl 0
  | cons c cs ih =>
    have := c.utf8Size_pos
    rw [List.length_cons, byteLength]
    omega

/-- The first place in a text at which something is found: how many characters stand in front of
it, how many it takes, and its parts. -/
abbrev Search (γ : Type) := List Char → Option (Nat × Nat × γ)

/-- What is found counts only where nothing stands in front of it. -/
def Search.atStart (search : Search γ) : Pattern γ := fun cs =>
  match search cs with
  | some (0, size, parts) => some (size, parts)
  | _ => none

/-- Looks for a pattern from left to right. -/
def Pattern.search (p : Pattern γ) : Search γ
  | [] => (p []).map (0, ·)
  | c :: cs =>
    match p (c :: cs) with
    | some found => some (0, found)
    | none => (p.search cs).map fun (start, found) => (start + 1, found)

/-- A pattern that is looked for everywhere counts exactly where it applies at once. -/
theorem Pattern.atStart_search (p : Pattern γ) : p.search.atStart = p := by
  funext cs
  cases cs with
  | nil =>
    rw [Search.atStart, Pattern.search]
    cases p [] <;> rfl
  | cons c cs =>
    rw [Search.atStart, Pattern.search]
    cases p (c :: cs) with
    | some found => rfl
    | none => cases p.search cs <;> rfl

namespace Cursor

/-- Reads what a search finds right here. -/
def readFound (c : Cursor) (search : Search γ) : Option (Lexeme γ) × Cursor := c.read search.atStart

/-- The cursor stands behind this part of the text. -/
structure IsBehind (text front : String) (c : Cursor) : Prop where
  whole : text = front ++ String.ofList c.rest
  offset : c.offset = front.utf8ByteSize

/-- The piece is what was read last, and it begins at the offset. -/
def ReadLast (text piece : String) (offset : Nat) (c : Cursor) : Prop :=
  ∃ front, offset = front.utf8ByteSize ∧ c.IsBehind text (front ++ piece)

theorem isBehind_ofText (text : String) : (ofText text).IsBehind text "" where
  whole := by rw [ofText, String.ofList_toList, String.empty_append]
  offset := rfl

theorem offset_skip (c : Cursor) (count : Nat) :
    (c.skip count).offset = c.offset + byteLength (c.rest.take count) := rfl

theorem offset_le_skip (c : Cursor) (count : Nat) : c.offset ≤ (c.skip count).offset :=
  Nat.le_add_right _ _

theorem offset_lt_skip {c : Cursor} (more : c.rest ≠ []) {count : Nat} (pos : 0 < count) :
    c.offset < (c.skip count).offset := by
  have taken : 0 < (c.rest.take count).length := by
    rw [List.length_take, Nat.lt_min]
    exact ⟨pos, List.length_pos_iff.mpr more⟩
  have bytes := length_le_byteLength (c.rest.take count)
  rw [offset_skip]
  omega

theorem skip_skip (c : Cursor) (first second : Nat) :
    (c.skip first).skip second = c.skip (first + second) := by
  simp [skip, List.take_add, Nat.add_assoc]

variable {text front : String} {c : Cursor}

theorem IsBehind.skip (h : c.IsBehind text front) (count : Nat) :
    (c.skip count).IsBehind text (front ++ String.ofList (c.rest.take count)) where
  whole := by
    rw [String.append_assoc, ← String.ofList_append, take_append_rest_skip]
    exact h.whole
  offset := by rw [offset_skip, String.utf8ByteSize_append, utf8ByteSize_ofList, h.offset]

theorem IsBehind.readLast (h : c.IsBehind text front) (count : Nat) :
    (c.skip count).ReadLast text (String.ofList (c.rest.take count)) c.offset :=
  ⟨front, h.offset, h.skip count⟩

theorem IsBehind.bytes (h : c.IsBehind text front) :
    text.utf8ByteSize = c.offset + byteLength c.rest := by
  rw [h.whole, String.utf8ByteSize_append, utf8ByteSize_ofList, h.offset]

theorem IsBehind.isValid (h : c.IsBehind text front) :
    String.Pos.Raw.IsValid text ⟨c.offset⟩ :=
  String.Pos.Raw.isValid_iff_exists_append.mpr
    ⟨front, String.ofList c.rest, h.whole, congrArg String.Pos.Raw.mk h.offset⟩

theorem IsBehind.rest_eq_nil_iff (h : c.IsBehind text front) :
    c.rest = [] ↔ c.offset = text.utf8ByteSize := by
  have bytes := h.bytes
  constructor
  · intro done
    rw [done, byteLength_nil] at bytes
    exact bytes.symm
  · intro done
    have := length_le_byteLength c.rest
    exact List.eq_nil_of_length_eq_zero (by omega)

theorem IsBehind.toByteArray_rest (h : c.IsBehind text front) :
    text.toByteArray.extract c.offset text.utf8ByteSize = (String.ofList c.rest).toByteArray := by
  rw [h.whole, String.toByteArray_append, h.offset, String.utf8ByteSize_append]
  exact ByteArray.extract_append_eq_right rfl rfl

theorem next_eq_none_iff : c.next.1 = none ↔ c.rest = [] := List.head?_eq_none_iff

theorem atEnd_iff : c.atEnd = true ↔ c.rest = [] := List.isEmpty_iff

theorem read_eq_none {p : Pattern γ} (nothing : (c.read p).1 = none) : (c.read p).2 = c := by
  rw [read] at nothing ⊢
  split at nothing
  · cases nothing
  · rfl

theorem read_eq_some {p : Pattern γ} {lexeme : Lexeme γ} (found : (c.read p).1 = some lexeme) :
    ∃ size, lexeme.text = c.rest.take size ∧ lexeme.offset = c.offset ∧
      (c.read p).2 = c.skip size := by
  rw [read] at found ⊢
  split at found
  · cases found
    exact ⟨_, rfl, rfl, rfl⟩
  · cases found

theorem exists_skip_read (c : Cursor) (p : Pattern γ) : ∃ count, (c.read p).2 = c.skip count := by
  cases found : (c.read p).1 with
  | none => exact ⟨0, read_eq_none found⟩
  | some lexeme =>
    obtain ⟨size, _, _, behind⟩ := read_eq_some found
    exact ⟨size, behind⟩

end Cursor

end UnitArith.Text
