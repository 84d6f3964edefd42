import UnitArith.Number
import UnitArith.Operator

/-! Numbers tagged with a unit, such as `5px`, `-2vh` or the plain `3`, whose unit is
empty. There is one zero: it has no unit, since `0px`, `0vh` and `0` are the same. -/
namespace UnitArith

structure Quantity (α : Type) [Number α] where
  value : α
  unit : String
  canonical : Number.isZero value = true → value = 0 ∧ unit = ""
  deriving DecidableEq

namespace Quantity

variable {α : Type} [Number α]

def zero : Quantity α := ⟨0, "", fun _ => ⟨rfl, rfl⟩⟩

/-- A value with its unit; of a zero only the zero is kept. -/
def of (value : α) (unit : String) : Quantity α :=
  if h : Number.isZero value = true then zero else ⟨value, unit, fun zeroed => absurd zeroed h⟩

def unitless (value : α) : Quantity α := of value ""

instance : Inhabited (Quantity α) := ⟨zero⟩

def isZero (q : Quantity α) : Bool := Number.isZero q.value
def isNegative (q : Quantity α) : Bool := Number.isNegative q.value
def hasUnit (q : Quantity α) : Bool := q.unit ≠ ""
def sameUnit (a b : Quantity α) : Bool := a.unit = b.unit

def withValue (q : Quantity α) (value : α) : Quantity α := of value q.unit

def neg (q : Quantity α) : Quantity α := q.withValue (-q.value)
def abs (q : Quantity α) : Quantity α := q.withValue (Number.abs q.value)

/-- One over the value, the unit kept as it is. -/
def reciprocal (q : Quantity α) : Quantity α := q.withValue (1 / q.value)

/-- The sum of two quantities of one unit. -/
def plus (a b : Quantity α) : Quantity α := a.withValue (a.value + b.value)

/-- The product of two quantities of which at most one has a unit. Zero absorbs everything. -/
def times (a b : Quantity α) : Quantity α :=
  if a.isZero || b.isZero then zero
  else of (a.value * b.value) (if a.hasUnit then a.unit else b.unit)

/-- The quotient by a quantity without a unit. -/
def dividedBy (a b : Quantity α) : Quantity α :=
  if a.isZero then zero else a.withValue (a.value / b.value)

/-- The operator that carries the sign inside a sum, and what stands after it. -/
def signed (q : Quantity α) : Operator × Quantity α :=
  if q.isNegative then (.minus, q.abs) else (.plus, q)

/-- What a quantity counts for after an operator: only a minus turns it around. -/
def after (op : Operator) (q : Quantity α) : Quantity α :=
  if op = .minus then q.neg else q

def spell [Spelled α] (q : Quantity α) : List Char := Spelled.spell q.value ++ q.unit.toList

def text [Spelled α] (q : Quantity α) : String := String.ofList q.spell

@[ext] theorem ext {a b : Quantity α} (value : a.value = b.value) (unit : a.unit = b.unit) :
    a = b := by
  cases a; cases b; simp_all

theorem of_zero {value : α} (h : Number.isZero value = true) (unit : String) :
    of value unit = zero :=
  dif_pos h

theorem value_of {value : α} (h : Number.isZero value = false) (unit : String) :
    (of value unit).value = value := by
  simp [of, h]

theorem unit_of {value : α} (h : Number.isZero value = false) (unit : String) :
    (of value unit).unit = unit := by
  simp [of, h]

theorem eq_zero {q : Quantity α} (h : q.isZero = true) : q = zero :=
  ext (q.canonical h).1 (q.canonical h).2

@[simp] theorem of_value_unit (q : Quantity α) : of q.value q.unit = q := by
  by_cases h : Number.isZero q.value = true
  · rw [of_zero h, eq_zero h]
  · simp [of, h]

end Quantity

end UnitArith
