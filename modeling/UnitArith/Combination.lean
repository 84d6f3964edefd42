import UnitArith.AlgebraError

/-! Sums of quantities with one term for each unit, and their arithmetic. A zero sum has
no terms. Values are signed here; only the term made of a sum moves signs into operators. -/
namespace UnitArith

structure Combination (α : Type) [Number α] where
  terms : List (Quantity α)
  deriving DecidableEq

namespace Combination

variable {α : Type} [Number α]

def zero : Combination α := ⟨[]⟩

instance : Inhabited (Combination α) := ⟨zero⟩

def ofQuantity (q : Quantity α) : Combination α := if q.isZero then zero else ⟨[q]⟩

/-- A sum of at most one term is a single quantity. -/
def quantity? (a : Combination α) : Option (Quantity α) :=
  match a.terms with
  | [] => some .zero
  | [q] => some q
  | _ :: _ :: _ => none

/-- Only the first term shows a sign of its own. -/
def toTerm (a : Combination α) : Term α :=
  match a.terms with
  | [] => .zero
  | [q] => .quantity q
  | head :: second :: rest => .expression (.quantity head) ((second :: rest).map Term.signedOperand)

def hasUnit (a : Combination α) : Bool := a.terms.any Quantity.hasUnit

/-- Adds `q` to the term of its unit; nothing when there is none. A sum of zero leaves its
place. -/
def absorb? (q : Quantity α) : List (Quantity α) → Option (List (Quantity α))
  | [] => none
  | a :: rest =>
    if a.sameUnit q then
      let sum := a.plus q
      some (if sum.isZero then rest else sum :: rest)
    else (absorb? q rest).map (a :: ·)

/-- A new unit goes to the end. A plain number cannot stand beside a unit. -/
def addQuantity (a : Combination α) (q : Quantity α) : Except (AlgebraError α) (Combination α) :=
  if q.isZero then .ok a
  else
    match absorb? q a.terms with
    | some terms => .ok ⟨terms⟩
    | none =>
      if a.terms.isEmpty || a.hasUnit == q.hasUnit then .ok ⟨a.terms ++ [q]⟩
      else .error (.unitMismatch a.toTerm (.quantity q))

/-- A quantity added to a sum of several terms: a new unit goes to the front. -/
def addTo (a : Combination α) (q : Quantity α) : Except (AlgebraError α) (Combination α) :=
  if q.isZero then .ok a
  else
    match absorb? q a.terms with
    | some terms => .ok ⟨terms⟩
    | none =>
      if q.hasUnit then .ok ⟨q :: a.terms⟩ else .error (.unitMismatch (.quantity q) a.toTerm)

def add (a b : Combination α) : Except (AlgebraError α) (Combination α) :=
  match a.quantity?, b.quantity? with
  | some q, none => b.addTo q
  | _, _ => b.terms.foldlM addQuantity a

def neg (a : Combination α) : Combination α := ⟨a.terms.map Quantity.neg⟩

def sub (a b : Combination α) : Except (AlgebraError α) (Combination α) := a.add b.neg

/-- Products that are zero leave their place. -/
def scale (a : Combination α) (factor : Quantity α) : Except (AlgebraError α) (Combination α) :=
  if factor.hasUnit && a.hasUnit then .error .productOfUnits
  else .ok ⟨(a.terms.map (·.times factor)).filter fun q => !q.isZero⟩

def mul (a b : Combination α) : Except (AlgebraError α) (Combination α) :=
  match a.quantity?, b.quantity? with
  | _, some factor => a.scale factor
  | some factor, none => b.scale factor
  | none, none => .error (.productOfSums a.toTerm b.toTerm)

/-- A sum of several terms is multiplied by the reciprocal, a single quantity is divided. -/
def div (a b : Combination α) : Except (AlgebraError α) (Combination α) :=
  match b.quantity? with
  | none => .error .divisionBySum
  | some divisor =>
    if divisor.hasUnit then .error .divisionByUnit
    else if divisor.isZero then .error .divisionByZero
    else
      match a.quantity? with
      | some q => .ok (ofQuantity (q.dividedBy divisor))
      | none => a.scale divisor.reciprocal

def calculate (a : Combination α) (op : Operator) (b : Combination α) :
    Except (AlgebraError α) (Combination α) :=
  match op with
  | .plus => a.add b
  | .minus => a.sub b
  | .times => a.mul b
  | .divide => a.div b

end Combination

end UnitArith
