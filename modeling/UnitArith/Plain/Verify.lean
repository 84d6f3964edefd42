import UnitArith.Plain.Evaluate

/-! Whether a reduced text has the value of the text that it came from. -/
namespace UnitArith.Plain

inductive VerifyError where
  | badInput (input : String)
  | badReduction (reduction : String)
  | mismatch (reduction : String) (expected actual : Float)
  deriving DecidableEq

def VerifyError.message : VerifyError → String
  | badInput input => "Unable to evaluate the input equation \"" ++ input ++ "\"."
  | badReduction reduction => "Unable to evaluate the reduced equation \"" ++ reduction ++ "\"."
  | mismatch reduction expected actual =>
    "The reduced equation \"" ++ reduction ++ "\" is not correct.\n - It should evaluate to " ++
      String.ofList (Spelled.spell expected) ++ " instead of " ++
      String.ofList (Spelled.spell actual) ++ "."

/-- How far apart two values may be because of rounding. -/
def tolerance : Float := 1e-9

/-- An infinity agrees with nothing: its difference to an equal one is no number. -/
def agrees (a b : Float) : Bool := decide ((a - b).abs ≤ tolerance)

def verify (input reduction : String) : Except VerifyError Float :=
  match evaluate input with
  | none => .error (.badInput input)
  | some expected =>
    match evaluate reduction with
    | none => .error (.badReduction reduction)
    | some actual =>
      if agrees expected actual then .ok expected
      else .error (.mismatch reduction expected actual)

end UnitArith.Plain
