import UnitArith.Quantity

/-! Terms: single quantities, and expressions of terms joined by operators. Hand-built
expressions may nest, repeat units or have an empty tail; what the algebra makes is
in the normal form of `Combination.toTerm`. -/
namespace UnitArith

inductive Term (α : Type) [Number α] where
  | quantity (q : Quantity α)
  | expression (head : Term α) (tail : List (Operator × Term α))

namespace Term

variable {α : Type} [Number α]

def zero : Term α := quantity .zero

instance : Inhabited (Term α) := ⟨zero⟩

def isQuantity : Term α → Bool
  | quantity _ => true
  | expression .. => false

/-- A quantity inside of an expression: its sign goes into the operator before it. -/
def signedOperand (q : Quantity α) : Operator × Term α := (q.signed.1, quantity q.signed.2)

/-- The operands in order, each after its operator. The first one stands after a plus. -/
def operands : Term α → List (Operator × Term α)
  | quantity q => [(.plus, quantity q)]
  | expression head tail => (.plus, head) :: tail

/-- A lone operand is its own term. The first operator is not looked at. -/
def ofOperands : List (Operator × Term α) → Term α
  | [] => zero
  | [(_, t)] => t
  | (_, head) :: tail => expression head tail

/-- The first operand that is a quantity of this unit, with its place and operator. -/
def find? (unit : String) (t : Term α) : Option (Nat × Operator × Quantity α) :=
  go 0 t.operands
where
  go (index : Nat) : List (Operator × Term α) → Option (Nat × Operator × Quantity α)
    | [] => none
    | (op, quantity q) :: rest => if q.unit = unit then some (index, op, q) else go (index + 1) rest
    | (_, expression ..) :: rest => go (index + 1) rest

mutual

def hasUnit : Term α → Bool
  | quantity q => q.hasUnit
  | expression head tail => head.hasUnit || hasUnitTail tail

def hasUnitTail : List (Operator × Term α) → Bool
  | [] => false
  | (_, t) :: rest => t.hasUnit || hasUnitTail rest

end

mutual

/-- A `*` or `/` stands somewhere in the term, at any depth. -/
def isMultiplicative : Term α → Bool
  | quantity _ => false
  | expression head tail => head.isMultiplicative || isMultiplicativeTail tail

def isMultiplicativeTail : List (Operator × Term α) → Bool
  | [] => false
  | (op, t) :: rest => !op.isAdditive || t.isMultiplicative || isMultiplicativeTail rest

end

mutual

def decEq [DecidableEq α] : (a b : Term α) → Decidable (a = b)
  | quantity a, quantity b => decidable_of_iff (a = b) (by simp)
  | expression a as, expression b bs =>
    match decEq a b, decEqTail as bs with
    | .isTrue h, .isTrue h' => .isTrue (by rw [h, h'])
    | .isFalse h, _ => .isFalse (by simp [h])
    | _, .isFalse h => .isFalse (by simp [h])
  | quantity _, expression .. => .isFalse (by simp)
  | expression .., quantity _ => .isFalse (by simp)

def decEqTail [DecidableEq α] : (as bs : List (Operator × Term α)) → Decidable (as = bs)
  | [], [] => .isTrue rfl
  | (op, a) :: as, (op', b) :: bs =>
    match decEq a b, decEqTail as bs with
    | .isTrue h, .isTrue h' => decidable_of_iff (op = op') (by simp [h, h'])
    | .isFalse h, _ => .isFalse (by simp [h])
    | _, .isFalse h => .isFalse (by simp [h])
  | [], _ :: _ => .isFalse (by simp)
  | _ :: _, [] => .isFalse (by simp)

end

instance [DecidableEq α] : DecidableEq (Term α) := decEq

end Term

end UnitArith
