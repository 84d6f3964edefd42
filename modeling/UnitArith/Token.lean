import UnitArith.Quantity

/-! The tokens of an expression, and the part that each of them plays in it. -/
namespace UnitArith

inductive Token (α : Type) [Number α] where
  | quantity (q : Quantity α)
  | operator (op : Operator)
  | opening
  | closing
  deriving DecidableEq

namespace Token

/-- `start` and `finish` are the edges of the expression. -/
inductive Kind where
  | start
  | operand
  | operator
  | opening
  | closing
  | finish
  deriving DecidableEq, Repr

variable {α : Type} [Number α]

def kind : Token α → Kind
  | quantity _ => .operand
  | operator _ => .operator
  | opening => .opening
  | closing => .closing

/-- Operators and parentheses are tokens of one character. -/
def ofChar? (c : Char) : Option (Token α) :=
  if c = '(' then some opening
  else if c = ')' then some closing
  else (Operator.ofChar? c).map operator

def spell [Spelled α] : Token α → List Char
  | quantity q => q.spell
  | operator op => [op.toChar]
  | opening => ['(']
  | closing => [')']

def text [Spelled α] (t : Token α) : String := String.ofList t.spell

@[simp] theorem ofChar?_operator (op : Operator) :
    ofChar? op.toChar = some (operator op : Token α) := by
  cases op <;> rfl

end Token

end UnitArith
