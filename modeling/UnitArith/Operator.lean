/-! The four arithmetic operators and how tightly they bind. All of them group to
the left: `a - b - c` is `(a - b) - c`. -/
namespace UnitArith

inductive Operator where
  | plus
  | minus
  | times
  | divide
  deriving DecidableEq, Repr

/-- A higher level binds tighter. -/
structure Precedence where
  level : Nat
  deriving DecidableEq, Repr

namespace Precedence

instance : LT Precedence := ⟨fun a b => a.level < b.level⟩
instance (a b : Precedence) : Decidable (a < b) := inferInstanceAs (Decidable (a.level < b.level))

/-- The level at which a whole expression starts: every operator binds tighter. -/
def lowest : Precedence := ⟨0⟩

def next (p : Precedence) : Precedence := ⟨p.level + 1⟩

@[simp] theorem lt_iff (a b : Precedence) : a < b ↔ a.level < b.level := .rfl

end Precedence

namespace Operator

def toChar : Operator → Char
  | plus => '+'
  | minus => '-'
  | times => '*'
  | divide => '/'

def ofChar? : Char → Option Operator
  | '+' => some plus
  | '-' => some minus
  | '*' => some times
  | '/' => some divide
  | _ => none

def text (op : Operator) : String := op.toChar.toString

def isAdditive : Operator → Bool
  | plus | minus => true
  | times | divide => false

def precedence (op : Operator) : Precedence :=
  if op.isAdditive then ⟨1⟩ else ⟨2⟩

/-- What an operator must bind like to belong to the right operand of `op`. -/
def rightPrecedence (op : Operator) : Precedence := op.precedence.next

@[simp] theorem ofChar?_toChar (op : Operator) : ofChar? op.toChar = some op := by
  cases op <;> rfl

theorem toChar_of_ofChar? {c : Char} {op : Operator} (h : ofChar? c = some op) : op.toChar = c := by
  unfold ofChar? at h
  split at h <;> simp_all [toChar] <;> subst h <;> rfl

end Operator

end UnitArith
