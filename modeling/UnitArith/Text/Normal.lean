import UnitArith.Text.LowerCase
import UnitArith.Text.Pattern

/-! The normal spelling of an expression: small letters, and every sign set so that it is
read as what it means. A sign in front of digits is read as part of the number, and one
in front of a group cannot be read at all. Nothing is checked here. -/
namespace UnitArith.Text

/-- After an operand a sign is an operator and stands apart. After an operator it is the
sign of what follows: a plus says nothing, and a minus before a group is a factor. -/
def Pattern.AttachedSign.respell (s : Pattern.AttachedSign) : List Char :=
  match Operator.ofChar? s.before with
  | none => s.before :: s.blanks ++ [s.sign, ' ', s.target]
  | some _ =>
    let gap := if s.blanks.isEmpty then [' '] else s.blanks
    let sign :=
      if s.sign == '+' then []
      else if s.target == '(' then ['-', '1', ' ', '*', ' ']
      else [s.sign]
    s.before :: gap ++ sign ++ [s.target]

def respellSigns (cs : List Char) : List Char :=
  Pattern.attachedSign.replaceAll Pattern.AttachedSign.respell cs

def normalize (text : String) : String := String.ofList (respellSigns (lower text.toList))

end UnitArith.Text
