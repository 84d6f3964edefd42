import UnitArith.Reduce

/-! What the command line answers. The words after an optional `true` or `false` are one
expression; `true` asks for a value that a style sheet takes. -/
namespace UnitArith.CommandLine

/-- The result or the message of a failure, which both count as an answer. -/
def line : Except (ReduceError Float) String → String
  | .ok text => text
  | .error e => e.message

def answer (words : List String) : String :=
  match words with
  | [] => "No input provided!"
  | "true" :: words => line ((styleValue {} (" ".intercalate words)).map (·.getD ""))
  | "false" :: words => line (reduceDefault (" ".intercalate words))
  | words => line (reduceDefault (" ".intercalate words))

end UnitArith.CommandLine
