import UnitArith.Number
import UnitArith.Operator
import UnitArith.Text.Blank

/-! Arithmetic texts without units, cut into symbols. -/
namespace UnitArith.Plain

inductive Symbol (α : Type) where
  | number (value : α)
  | operator (op : Operator)
  | opening
  | closing
  deriving DecidableEq, Repr

/-- The characters that units are written with: letters of either case, the two signs that
are equal to a letter up to case, and the percent sign. -/
def isUnitChar (c : Char) : Bool := c.isAlpha || c == '%' || c == 'ſ' || c == '\u212a'

def withoutUnits (cs : List Char) : List Char := cs.filter fun c => !isUnitChar c

variable {α : Type} [Number α]

/-- What a symbol does inside of a sum, if it joins two products. -/
def Symbol.additive? : Symbol α → Option (α → α → α)
  | operator .plus => some (· + ·)
  | operator .minus => some (· - ·)
  | _ => none

/-- What a symbol does inside of a product, if it joins two atoms. -/
def Symbol.multiplicative? : Symbol α → Option (α → α → α)
  | operator .times => some (· * ·)
  | operator .divide => some (· / ·)
  | _ => none

def Symbol.ofChar? (c : Char) : Option (Symbol α) :=
  if c = '(' then some .opening
  else if c = ')' then some .closing
  else (Operator.ofChar? c).map .operator

/-- Blanks separate symbols, and a numeral is a run of digits and points as long as can be. -/
def symbols? : List Char → Option (List (Symbol α))
  | [] => some []
  | c :: cs =>
    if Text.isBlank c then symbols? cs
    else if Decimal.isMark c then
      have := (List.dropWhile_sublist (l := cs) Decimal.isMark).length_le
      match Decimal.read? (c :: cs.takeWhile Decimal.isMark) with
      | none => none
      | some d => (symbols? (cs.dropWhile Decimal.isMark)).map (.number (Number.ofDecimal d) :: ·)
    else
      match Symbol.ofChar? c with
      | none => none
      | some symbol => (symbols? cs).map (symbol :: ·)
termination_by cs => cs.length

end UnitArith.Plain
