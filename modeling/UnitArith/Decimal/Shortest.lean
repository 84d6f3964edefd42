import UnitArith.Decimal

/-! The shortest numeral that reads back as a given double. The search walks decimal
grids from coarse to fine; on each it tries the two neighbours of the value, so the
first hit has the fewest significant digits. -/
namespace UnitArith.Decimal

/-- The nearest double, ties to even. -/
def toFloat (d : Decimal) : Float := Float.ofScientific d.digits true d.places

/-- A positive real `mantissa · 2 ^ exponent`. -/
structure Dyadic where
  mantissa : Nat
  exponent : Int
  deriving DecidableEq, Repr

namespace Dyadic

/-- The size of a finite double, its sign left out. -/
def ofFloat (x : Float) : Dyadic :=
  let bits := x.toBits.toNat
  let fraction := bits % Nat.pow 2 52
  let scale : Nat := bits / Nat.pow 2 52 % Nat.pow 2 11
  if scale = 0 then ⟨fraction, -1074⟩ else ⟨fraction + Nat.pow 2 52, (scale : Int) - 1075⟩

/-- The value as a quotient of natural numbers. -/
def num (v : Dyadic) : Nat := v.mantissa * Nat.pow 2 v.exponent.toNat
def den (v : Dyadic) : Nat := Nat.pow 2 (-v.exponent).toNat

/-- All digits of the value: a binary fraction has as many decimal places as binary ones. -/
def exactly (v : Dyadic) : Decimal :=
  ⟨v.num * Nat.pow 5 (-v.exponent).toNat, (-v.exponent).toNat⟩

/-- An exponent of ten that is at least the value's own. -/
def coarsest (v : Dyadic) : Int := ((v.mantissa.log2 + 1 + v.exponent) * 30103) / 100000 + 1

end Dyadic

/-- The grid point `n · 10 ^ exponent`. -/
def ofGrid (n : Nat) (exponent : Int) : Decimal :=
  if 0 ≤ exponent then ⟨n * Nat.pow 10 exponent.toNat, 0⟩ else trim n (-exponent).toNat

/-- The grid points around the value, the nearer one first and the upper one on a tie. -/
def neighbours (v : Dyadic) (exponent : Int) : List Decimal :=
  let num := v.num * Nat.pow 10 (-exponent).toNat
  let den := v.den * Nat.pow 10 exponent.toNat
  let below := ofGrid (num / den) exponent
  let above := ofGrid (num / den + 1) exponent
  if 2 * (num % den) < den then [below, above] else [above, below]

/-- Tries `grids` grids, each ten times finer than the one before. -/
def search (x : Float) (v : Dyadic) : Nat → Int → Option Decimal
  | 0, _ => none
  | grids + 1, exponent =>
    match (neighbours v exponent).find? fun d => decide (d.toFloat = x) with
    | some d => some d
    | none => search x v grids (exponent - 1)

theorem toFloat_of_search {x : Float} {v : Dyadic} {grids : Nat} {exponent : Int} {d : Decimal}
    (h : search x v grids exponent = some d) : d.toFloat = x := by
  induction grids generalizing exponent with
  | zero => cases h
  | succ grids ih =>
    rw [search] at h
    split at h
    · rename_i found
      cases h
      simpa using List.find?_some found
    · exact ih h

/-- Seventeen significant digits always tell a double apart, and `coarsest` is at most two
grids too coarse. -/
def shortest (x : Float) : Decimal :=
  let v := Dyadic.ofFloat x
  (search x.abs v 20 v.coarsest).getD v.exactly

end UnitArith.Decimal
