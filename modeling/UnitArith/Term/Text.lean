import UnitArith.Term

/-! The written form of a term: operands with ` op ` between them, and parentheses
around every expression that is an operand of another. -/
namespace UnitArith.Term

variable {α : Type} [Number α] [Spelled α]

mutual

def spellOperand : Term α → List Char
  | quantity q => q.spell
  | expression head tail => '(' :: (spellOperand head ++ spellTail tail ++ [')'])

def spellTail : List (Operator × Term α) → List Char
  | [] => []
  | (op, t) :: rest => ' ' :: op.toChar :: ' ' :: (spellOperand t ++ spellTail rest)

end

def spell : Term α → List Char
  | quantity q => q.spell
  | expression head tail => spellOperand head ++ spellTail tail

def text (t : Term α) : String := String.ofList t.spell

end UnitArith.Term
