import UnitArith.Term.Text

/-! Why two terms cannot be combined. -/
namespace UnitArith

inductive AlgebraError (α : Type) [Number α] where
  | unitMismatch (left right : Term α)
  | productOfSums (left right : Term α)
  | productOfUnits
  | divisionBySum
  | divisionByUnit
  | divisionByZero
  deriving DecidableEq

namespace AlgebraError

variable {α : Type} [Number α] [Spelled α]

def message : AlgebraError α → String
  | unitMismatch left right => "Unable to add \"" ++ left.text ++ "\" with \"" ++ right.text ++ "\""
  | productOfSums left right =>
    "Unable to multiply \"" ++ left.text ++ "\" with \"" ++ right.text ++ "\""
  | productOfUnits => "Unable to multiply by a number with units!"
  | divisionBySum => "Divisor is equation."
  | divisionByUnit => "Divisor has unit."
  | divisionByZero => "Division by zero."

end AlgebraError

end UnitArith
