import UnitArith.Decimal.Shortest

/-! The values that quantities carry. The rules of this library are written over any
`Number`, so that doubles and exact values obey the same definitions. -/
namespace UnitArith

class Number (α : Type) extends Zero α, One α, Add α, Sub α, Neg α, Mul α, Div α where
  abs : α → α
  isZero : α → Bool
  isNegative : α → Bool
  ofDecimal : Decimal → α

namespace Number

variable {α : Type} [Number α]

/-- A numeral with an optional sign in front. -/
def read? : List Char → Option α
  | '+' :: cs => (Decimal.read? cs).map ofDecimal
  | '-' :: cs => (Decimal.read? cs).map fun d => -ofDecimal d
  | cs => (Decimal.read? cs).map ofDecimal

theorem read?_unsigned {c : Char} (mark : Decimal.isMark c = true) (cs : List Char) :
    read? (c :: cs) = (Decimal.read? (c :: cs)).map (ofDecimal (α := α)) := by
  rw [read?]
  · rintro _ ⟨⟩
    cases mark
  · rintro _ ⟨⟩
    cases mark

/-- Both zeros of the doubles are zero; NaN is neither zero nor negative. -/
instance : Number Float where
  zero := 0
  one := 1
  add := Float.add
  sub := Float.sub
  neg := Float.neg
  mul := Float.mul
  div := Float.div
  abs := Float.abs
  isZero x := x == 0
  isNegative x := decide (x < 0)
  ofDecimal := Decimal.toFloat

end Number

/-- Values with a written form. -/
class Spelled (α : Type) where
  spell : α → List Char

/-- Decimal digits in full, never with an exponent, and the fewest that read back. -/
instance : Spelled Float where
  spell x :=
    if x.isNaN then ['N', 'a', 'N']
    else
      let size := if x.isInf then ['i', 'n', 'f'] else (Decimal.shortest x).spell
      if Nat.pow 2 63 ≤ x.toBits.toNat then '-' :: size else size

end UnitArith
