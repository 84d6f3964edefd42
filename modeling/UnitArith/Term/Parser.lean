import UnitArith.Term.Arithmetic
import UnitArith.Token

/-! From tokens to a reduced term. No syntax tree is built: an operator is applied as soon
as its right operand is complete, so what is left at the end is the result. -/
namespace UnitArith

inductive ParseError (α : Type) [Number α] where
  | unexpectedEnd
  | unexpectedToken (token : Token α)
  | algebra (error : AlgebraError α)
  deriving DecidableEq

def ParseError.message {α : Type} [Number α] [Spelled α] : ParseError α → String
  | unexpectedEnd => "unexpected end of input"
  | unexpectedToken token => "unexpected token " ++ token.text
  | algebra error => error.message

namespace Term

variable {α : Type} [Number α]

/-- A left operand and its operator, whose right operand is still being read. -/
structure Pending (α : Type) [Number α] where
  left : Term α
  op : Operator
  deriving DecidableEq

/-- Applies the operators, innermost first, whose right operand ends before an operator of
this precedence. What stays pending waits for more. -/
def settle (incoming : Precedence) (right : Term α) :
    List (Pending α) → Except (AlgebraError α) (Term α × List (Pending α))
  | [] => .ok (right, [])
  | p :: outer =>
    if incoming < p.op.rightPrecedence then do
      settle incoming (← p.left.calculate p.op right) outer
    else .ok (right, p :: outer)

/-- Applies all the pending operators of a group. -/
def settleAll (right : Term α) (pending : List (Pending α)) : Except (ParseError α) (Term α) :=
  match settle .lowest right pending with
  | .ok (t, _) => .ok t
  | .error e => .error (.algebra e)

mutual

/-- An operand is due. `groups` holds what is pending outside of each open group. -/
def parseOperand (groups : List (List (Pending α))) (pending : List (Pending α)) :
    List (Token α) → Except (ParseError α) (Term α)
  | [] => .error .unexpectedEnd
  | .quantity q :: rest => parseOperator groups pending (quantity q) rest
  | .opening :: rest => parseOperand (pending :: groups) [] rest
  | token :: _ => .error (.unexpectedToken token)

/-- `right` has been read, and an operator or the end of a group is due. -/
def parseOperator (groups : List (List (Pending α))) (pending : List (Pending α)) (right : Term α) :
    List (Token α) → Except (ParseError α) (Term α)
  | [] => do
    let result ← settleAll right pending
    match groups with
    | [] => .ok result
    | _ :: _ => .error .unexpectedEnd
  | .operator op :: rest =>
    match settle op.precedence right pending with
    | .error e => .error (.algebra e)
    | .ok (left, pending) => parseOperand groups (⟨left, op⟩ :: pending) rest
  | .closing :: rest => do
    let result ← settleAll right pending
    match groups with
    | [] => .error (.unexpectedToken .closing)
    | pending :: groups => parseOperator groups pending result rest
  | token :: _ => do
    let _ ← settleAll right pending
    .error (.unexpectedToken token)

end

/-- The reduced term of an expression; no tokens make no term. -/
def ofTokens (tokens : List (Token α)) : Except (ParseError α) (Option (Term α)) :=
  match tokens with
  | [] => .ok none
  | _ :: _ => (parseOperand [] [] tokens).map some

theorem parseOperand_of_ofTokens {tokens : List (Token α)} {t : Term α}
    (h : ofTokens tokens = .ok (some t)) : parseOperand [] [] tokens = .ok t := by
  cases tokens with
  | nil => cases h
  | cons token tokens =>
    rw [ofTokens] at h
    cases parsed : parseOperand [] [] (token :: tokens) with
    | error e =>
      rw [parsed] at h
      cases h
    | ok result =>
      rw [parsed] at h
      cases h
      rfl

end Term

end UnitArith
