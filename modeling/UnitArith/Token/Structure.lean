import UnitArith.Token

/-! Which token sequences are expressions: every token may follow the one before it, no
group closes before it opens, and all groups are closed at the end. The check runs
along the tokens, so that the first offending token is the one reported. -/
namespace UnitArith

inductive StructureError (α : Type) [Number α] where
  | empty
  | beginsWith (token : Token α)
  | endsWith (token : Token α)
  | emptyGroup
  | followedBy (token next : Token α)
  | unbalanced
  deriving DecidableEq

def StructureError.message {α : Type} [Number α] [Spelled α] : StructureError α → String
  | empty => "Invalid sequence: equation is empty"
  | beginsWith token => "Invalid sequence: equation begins with \"" ++ token.text ++ "\""
  | endsWith token => "Invalid sequence: equation ends with \"" ++ token.text ++ "\""
  | emptyGroup => "Invalid sequence: empty parentheses"
  | followedBy token next => "Invalid sequence: " ++ token.text ++ " followed by " ++ next.text
  | unbalanced => "Parentheses do not match!"

namespace Token

/-- Where an operand is due, only an operand or a group may come; after one, anything else. -/
def Kind.mayPrecede : Kind → Kind → Bool
  | start, next | operator, next | opening, next => next = operand || next = opening
  | operand, next | closing, next => next = operator || next = closing || next = finish
  | finish, _ => false

variable {α : Type} [Number α]

def kindBefore (previous : Option (Token α)) : Kind := previous.elim .start kind
def kindAfter (next : Option (Token α)) : Kind := next.elim .finish kind

/-- An absent token is the edge of the expression on its side. -/
def checkStep (previous next : Option (Token α)) : Except (StructureError α) Unit :=
  if (kindBefore previous).mayPrecede (kindAfter next) then .ok ()
  else
    match previous, next with
    | none, none => .error .empty
    | none, some next => .error (.beginsWith next)
    | some previous, none => .error (.endsWith previous)
    | some .opening, some .closing => .error .emptyGroup
    | some previous, some next => .error (.followedBy previous next)

/-- What has been read of an expression: its last token, and how many groups are open. -/
structure Progress (α : Type) [Number α] where
  last : Option (Token α)
  depth : Nat
  deriving DecidableEq

namespace Progress

def start : Progress α := ⟨none, 0⟩

def advance (p : Progress α) (next : Token α) : Except (StructureError α) (Progress α) :=
  match checkStep p.last (some next) with
  | .error e => .error e
  | .ok () =>
    match next, p.depth with
    | .opening, depth => .ok ⟨next, depth + 1⟩
    | .closing, 0 => .error .unbalanced
    | .closing, depth + 1 => .ok ⟨next, depth⟩
    | _, depth => .ok ⟨next, depth⟩

def finish (p : Progress α) : Except (StructureError α) Unit :=
  match checkStep p.last none with
  | .error e => .error e
  | .ok () => if p.depth = 0 then .ok () else .error .unbalanced

end Progress

/-- The whole check on tokens that are already there. -/
def checkAll (tokens : List (Token α)) : Except (StructureError α) Unit := do
  (← tokens.foldlM Progress.advance .start).finish

end Token

end UnitArith
