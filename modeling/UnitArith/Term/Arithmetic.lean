import UnitArith.Combination

/-! Arithmetic on terms of any shape. Sums keep the operands that they do not touch;
products and differences are multiplied out into a `Combination` first. -/
namespace UnitArith.Term

variable {α : Type} [Number α]

mutual

/-- Multiplies every quantity of the term and folds the products together again. -/
def distribute (factor : Quantity α) : Term α → Except (AlgebraError α) (Combination α)
  | quantity q => .ok (.ofQuantity (q.times factor))
  | expression head tail => do distributeTail factor (← distribute factor head) tail

def distributeTail (factor : Quantity α) (product : Combination α) :
    List (Operator × Term α) → Except (AlgebraError α) (Combination α)
  | [] => .ok product
  | (op, t) :: rest => do
    let next ← distribute factor t
    distributeTail factor (← product.calculate op next) rest

end

def scale (t : Term α) (factor : Quantity α) : Except (AlgebraError α) (Combination α) :=
  if factor.hasUnit && t.hasUnit then .error .productOfUnits else distribute factor t

def negated (t : Term α) : Except (AlgebraError α) (Combination α) :=
  match t with
  | quantity q => .ok (.ofQuantity q.neg)
  | expression .. => t.scale (.unitless (-1))

/-- Adds `q` to the first quantity of its unit. A sum of zero leaves its place. -/
def absorbTail? (q : Quantity α) : List (Operator × Term α) → Option (List (Operator × Term α))
  | [] => none
  | (op, quantity a) :: rest =>
    if a.sameUnit q then
      let sum := (a.after op).plus q
      some (if sum.isZero then rest else signedOperand sum :: rest)
    else (absorbTail? q rest).map ((op, quantity a) :: ·)
  | (op, expression head tail) :: rest =>
    (absorbTail? q rest).map ((op, expression head tail) :: ·)

/-- An expression without its head: the next operand takes the place and the sign. -/
def promote : List (Operator × Term α) → Except (AlgebraError α) (Term α)
  | [] => .ok zero
  | (.minus, t) :: rest => do
    let head ← t.negated
    .ok (ofOperands ((.plus, head.toTerm) :: rest))
  | (_, t) :: rest => .ok (ofOperands ((.plus, t) :: rest))

/-- The expression with `q` added to its quantity of that unit, if it has one. -/
def absorb? (q : Quantity α) (head : Term α) (tail : List (Operator × Term α)) :
    Except (AlgebraError α) (Option (Term α)) :=
  match head with
  | quantity a =>
    if a.sameUnit q then
      let sum := a.plus q
      if sum.isZero then do .ok (some (← promote tail))
      else .ok (some (ofOperands ((.plus, quantity sum) :: tail)))
    else .ok ((absorbTail? q tail).map fun rest => ofOperands ((.plus, head) :: rest))
  | expression .. => .ok ((absorbTail? q tail).map fun rest => ofOperands ((.plus, head) :: rest))

/-- A new unit goes to the end. -/
def addQuantity (t : Term α) (q : Quantity α) : Except (AlgebraError α) (Term α) :=
  match t with
  | quantity a => do .ok (← (Combination.ofQuantity a).addQuantity q).toTerm
  | expression head tail =>
    if q.isZero then .ok t
    else do
      match ← absorb? q head tail with
      | some sum => .ok sum
      | none =>
        if q.hasUnit then .ok (expression head (tail ++ [signedOperand q]))
        else .error (.unitMismatch t (quantity q))

/-- A quantity added to an expression: a new unit goes to the front. -/
def addTo (q : Quantity α) (head : Term α) (tail : List (Operator × Term α)) :
    Except (AlgebraError α) (Term α) :=
  if q.isZero then .ok (expression head tail)
  else do
    match ← absorb? q head tail with
    | some sum => .ok sum
    | none =>
      if q.hasUnit then
        let second := match head with
          | quantity a => signedOperand a
          | expression .. => (.plus, head)
        .ok (expression (quantity q) (second :: tail))
      else .error (.unitMismatch (quantity q) (expression head tail))

def addCombination (t : Term α) (a : Combination α) : Except (AlgebraError α) (Term α) :=
  match t with
  | quantity q => do .ok (← (Combination.ofQuantity q).add a).toTerm
  | expression .. => a.terms.foldlM addQuantity t

def sub (s t : Term α) : Except (AlgebraError α) (Term α) := do s.addCombination (← t.negated)

def mul (s t : Term α) : Except (AlgebraError α) (Term α) :=
  match s, t with
  | _, quantity factor => do .ok (← s.scale factor).toTerm
  | quantity factor, expression .. => do .ok (← t.scale factor).toTerm
  | expression .., expression .. => .error (.productOfSums s t)

def div (s t : Term α) : Except (AlgebraError α) (Term α) :=
  match t with
  | expression .. => .error .divisionBySum
  | quantity divisor =>
    if divisor.hasUnit then .error .divisionByUnit
    else if divisor.isZero then .error .divisionByZero
    else
      match s with
      | quantity q => .ok (quantity (q.dividedBy divisor))
      | expression .. => do .ok (← s.scale divisor.reciprocal).toTerm

mutual

def add (s : Term α) : Term α → Except (AlgebraError α) (Term α)
  | quantity q => s.addQuantity q
  | expression head tail =>
    match s with
    | quantity q => addTo q head tail
    | expression .. => do addTail (← add s head) tail

/-- Applies the operators of a tail one after the other. -/
def addTail (s : Term α) : List (Operator × Term α) → Except (AlgebraError α) (Term α)
  | [] => .ok s
  | (op, t) :: rest => do
    let sum ← match op with
      | .plus => add s t
      | .minus => s.sub t
      | .times => s.mul t
      | .divide => s.div t
    addTail sum rest

end

/-- The reduced result of one operator on two terms. -/
def calculate (s : Term α) (op : Operator) (t : Term α) : Except (AlgebraError α) (Term α) :=
  match op with
  | .plus => s.add t
  | .minus => s.sub t
  | .times => s.mul t
  | .divide => s.div t

end UnitArith.Term
