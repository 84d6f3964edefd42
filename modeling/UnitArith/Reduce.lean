import UnitArith.Term.Parser
import UnitArith.Text.Normal
import UnitArith.Token.Lexer

/-! From the text of an expression to the text of the simplest equal one. -/
namespace UnitArith

inductive ReduceError (α : Type) [Number α] where
  | lex (error : LexError α)
  | parse (error : ParseError α)
  deriving DecidableEq

def ReduceError.message {α : Type} [Number α] [Spelled α] : ReduceError α → String
  | lex error => error.message
  | parse error => error.message

/-- The reduced term of a text that is in its normal spelling. -/
def Term.ofText {α : Type} [Number α] (units : AllowedUnits) (text : String) :
    Except (ReduceError α) (Option (Term α)) :=
  match Token.ofText units text with
  | .error e => .error (.lex e)
  | .ok tokens =>
    match Term.ofTokens tokens with
    | .error e => .error (.parse e)
    | .ok term => .ok term

/-- The text of a result; where there is no term, there is nothing to write. -/
def Term.textOf {α : Type} [Number α] [Spelled α] (term : Option (Term α)) : String :=
  term.elim "" Term.text

/-- The reduced text, or nothing for a failure under quiet options. The empty text
is its own reduction. -/
def reduce (options : Options) (input : String) : Except (ReduceError Float) (Option String) :=
  if input = "" then .ok (some "")
  else
    match Term.ofText options.allowedUnits (Text.normalize input) with
    | .ok term => .ok (some (Term.textOf term))
    | .error e => if options.quiet then .ok none else .error e

/-- The reduced text under the default options, which are not quiet. -/
def reduceDefault (input : String) : Except (ReduceError Float) String :=
  (reduce {} input).map (·.getD "")

/-- The text is more than one operand with a sign in front. It need not be an expression. -/
def isCompound (text : String) : Bool := Text.Pattern.operation.occursIn text.toList

/-- Marks what is more than one operand as a calculation. -/
def wrap (text : String) : String := if isCompound text then "calc(" ++ text ++ ")" else text

/-- The reduced text as a value that a style sheet takes. -/
def styleValue (options : Options) (input : String) : Except (ReduceError Float) (Option String) :=
  (reduce options input).map (·.map wrap)

end UnitArith
