import UnitArith.Text.Pattern

/-! A place in a text: what is still unread, and how many bytes of UTF-8 were read. -/
namespace UnitArith.Text

def byteLength : List Char → Nat
  | [] => 0
  | c :: cs => c.utf8Size + byteLength cs

@[simp] theorem byteLength_nil : byteLength [] = 0 := rfl

@[simp] theorem byteLength_append (a b : List Char) :
    byteLength (a ++ b) = byteLength a + byteLength b := by
  induction a with
  | nil => simp
  | cons c a ih => simp [byteLength, ih, Nat.add_assoc]

/-- What a pattern took, and where it begins. -/
structure Lexeme (γ : Type) where
  text : List Char
  parts : γ
  offset : Nat
  deriving DecidableEq, Repr

structure Cursor where
  rest : List Char
  offset : Nat
  deriving DecidableEq, Repr

namespace Cursor

variable {γ : Type}

def ofText (text : String) : Cursor := ⟨text.toList, 0⟩

def atEnd (c : Cursor) : Bool := c.rest.isEmpty

def skip (c : Cursor) (count : Nat) : Cursor :=
  ⟨c.rest.drop count, c.offset + byteLength (c.rest.take count)⟩

def skipBlanks (c : Cursor) : Cursor := c.skip (c.rest.takeWhile isBlank).length

def next (c : Cursor) : Option Char × Cursor := (c.rest.head?, c.skip 1)

/-- Reads what the pattern takes; where it does not apply, nothing is read. -/
def read (c : Cursor) (p : Pattern γ) : Option (Lexeme γ) × Cursor :=
  match p c.rest with
  | some (size, parts) => (some ⟨c.rest.take size, parts, c.offset⟩, c.skip size)
  | none => (none, c)

/-- What is skipped and what is left make up what there was. -/
theorem take_append_rest_skip (c : Cursor) (count : Nat) :
    c.rest.take count ++ (c.skip count).rest = c.rest :=
  List.take_append_drop count c.rest

theorem length_skip (c : Cursor) (count : Nat) :
    (c.skip count).rest.length = c.rest.length - count := by
  simp [skip]

theorem length_skipBlanks_le (c : Cursor) : c.skipBlanks.rest.length ≤ c.rest.length := by
  simp [skipBlanks, length_skip]

end Cursor

end UnitArith.Text
