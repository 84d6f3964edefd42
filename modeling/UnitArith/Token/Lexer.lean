import UnitArith.Options
import UnitArith.Text.Cursor
import UnitArith.Token.Structure

/-! Reading tokens from a text. A sign in front of digits belongs to the number. Each token
is checked against the ones before it as soon as it is read, so the leftmost error
is reported; what was read before an error stays read. -/
namespace UnitArith

inductive LexError (α : Type) [Number α] where
  | unexpectedEnd (offset : Nat)
  | unexpectedChar (c : Char) (offset : Nat)
  | unitWithoutNumber (unit : String) (offset : Nat)
  | invalidNumber (operand : String)
  | unsupportedUnit (unit : String) (supported : List String)
  | malformed (error : StructureError α)
  deriving DecidableEq

def LexError.message {α : Type} [Number α] [Spelled α] : LexError α → String
  | unexpectedEnd offset => "Expected token, but found EOF at " ++ toString offset
  | unexpectedChar c offset =>
    "Invalid input: unexpected '" ++ c.toString ++ "' at " ++ toString offset
  | unitWithoutNumber unit offset =>
    "Letters and/or % with no preceding number: \"" ++ unit ++ "\" at " ++ toString offset
  | invalidNumber operand => "\"" ++ operand ++ "\" is not a valid operand!"
  | unsupportedUnit unit supported =>
    "\"" ++ unit ++ "\" is not a supported unit type! Expected one of: " ++
      String.intercalate ", " supported
  | malformed error => error.message

namespace Token

open Text (Cursor Lexeme Pattern)

variable {α : Type} [Number α]

/-- The quantity that an operand spells. The number is looked at before the unit. -/
def ofOperand (units : AllowedUnits) (lexeme : Lexeme Pattern.Operand) :
    Except (LexError α) (Token α) :=
  let unit := String.ofList lexeme.parts.unit
  match Number.read? lexeme.parts.number with
  | none => .error (.invalidNumber (String.ofList lexeme.text))
  | some value =>
    if units.accepts unit then .ok (quantity (.of value unit))
    else .error (.unsupportedUnit unit (units.getD []))

/-- Reads one token; blanks in front of it are not skipped. -/
def read (units : AllowedUnits) (c : Cursor) : Except (LexError α) (Token α) × Cursor :=
  match c.read Pattern.operand with
  | (some lexeme, rest) => (ofOperand units lexeme, rest)
  | (none, _) =>
    match c.read Pattern.looseUnit with
    | (some lexeme, rest) =>
      (.error (.unitWithoutNumber (String.ofList lexeme.text) lexeme.offset), rest)
    | (none, _) =>
      match c.next with
      | (none, rest) => (.error (.unexpectedEnd c.offset), rest)
      | (some ch, rest) =>
        match ofChar? ch with
        | some token => (.ok token, rest)
        | none => (.error (.unexpectedChar ch c.offset), rest)

theorem length_read_lt (units : AllowedUnits) {c : Cursor} (h : c.rest ≠ []) :
    (read (α := α) units c).2.rest.length < c.rest.length := by
  have pos := List.length_pos_iff.mpr h
  have shorter {size : Nat} (taken : 0 < size) : (c.skip size).rest.length < c.rest.length := by
    rw [Cursor.length_skip]; omega
  simp only [read, Cursor.read, Cursor.next]
  cases op : Pattern.operand c.rest with
  | some found => exact shorter (Pattern.operand_pos op)
  | none =>
    cases bare : Pattern.looseUnit c.rest with
    | some found => exact shorter (Pattern.looseUnit_pos bare)
    | none =>
      cases c.rest.head? with
      | none => exact shorter Nat.one_pos
      | some ch => simp only; split <;> exact shorter Nat.one_pos

/-- Reads the rest of an expression of which `p` has been read. -/
def readRest (units : AllowedUnits) (p : Progress α) (c : Cursor) :
    Except (LexError α) (List (Token α)) × Cursor :=
  let start := c.skipBlanks
  if h : start.rest = [] then
    (match p.finish with
      | .ok () => .ok []
      | .error e => .error (.malformed e), start)
  else
    let first := read units start
    have : first.2.rest.length < c.rest.length :=
      Nat.lt_of_lt_of_le (length_read_lt units h) c.length_skipBlanks_le
    match first.1 with
    | .error e => (.error e, first.2)
    | .ok token =>
      match p.advance token with
      | .error e => (.error (.malformed e), first.2)
      | .ok p =>
        let others := readRest units p first.2
        (others.1.map (token :: ·), others.2)
termination_by c.rest.length

def readAll (units : AllowedUnits) (c : Cursor) : Except (LexError α) (List (Token α)) × Cursor :=
  readRest units .start c

def ofText (units : AllowedUnits) (text : String) : Except (LexError α) (List (Token α)) :=
  (readAll units (.ofText text)).1

end Token

end UnitArith
