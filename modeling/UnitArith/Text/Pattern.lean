import UnitArith.Decimal
import UnitArith.Operator
import UnitArith.Text.Blank

/-! Patterns: rules that say how many characters they take from the start of a text, and
which parts they see in them. -/
namespace UnitArith.Text

/-- The number of characters taken and the parts seen, or nothing where the rule does not apply. -/
abbrev Pattern (γ : Type) := List Char → Option (Nat × γ)

namespace Pattern

variable {γ : Type}

/-- The rule applies somewhere in the text. -/
def occursIn (p : Pattern γ) : List Char → Bool
  | [] => (p []).isSome
  | c :: cs => (p (c :: cs)).isSome || occursIn p cs

/-- From left to right, rewrites what the rule takes and goes on behind it. A rule that
applies takes at least one character. -/
def replaceAll (p : Pattern γ) (rewrite : γ → List Char) (cs : List Char) : List Char :=
  go 0 cs
where
  go : Nat → List Char → List Char
    | _, [] => []
    | skip + 1, _ :: cs => go skip cs
    | 0, c :: cs =>
      match p (c :: cs) with
      | some (size, parts) => rewrite parts ++ go (size - 1) cs
      | none => c :: go 0 cs

theorem replaceAll_go (p : Pattern γ) (rewrite : γ → List Char) (skip : Nat) (cs : List Char) :
    replaceAll.go p rewrite skip cs = replaceAll p rewrite (cs.drop skip) := by
  induction skip generalizing cs with
  | zero => rfl
  | succ skip ih =>
    cases cs with
    | nil => rfl
    | cons c cs => exact ih cs

theorem replaceAll_none {p : Pattern γ} {c : Char} {cs : List Char} (h : p (c :: cs) = none)
    (rewrite : γ → List Char) : p.replaceAll rewrite (c :: cs) = c :: p.replaceAll rewrite cs := by
  simp only [replaceAll, replaceAll.go, h]

theorem replaceAll_some {p : Pattern γ} {c : Char} {cs : List Char} {size : Nat} {parts : γ}
    (h : p (c :: cs) = some (size, parts)) (rewrite : γ → List Char) :
    p.replaceAll rewrite (c :: cs) =
      rewrite parts ++ p.replaceAll rewrite (cs.drop (size - 1)) := by
  rw [← replaceAll_go]
  simp only [replaceAll, replaceAll.go, h]

structure Operand where
  number : List Char
  unit : List Char
  deriving DecidableEq, Repr

/-- A unit is a percent sign or a run of small letters, which may be empty. -/
def unit : List Char → List Char
  | '%' :: _ => ['%']
  | cs => cs.takeWhile Char.isLower

def sign : List Char → List Char
  | '+' :: _ => ['+']
  | '-' :: _ => ['-']
  | _ => []

/-- An optional sign, a run of digits and points, and a unit. -/
def operand : Pattern Operand := fun cs =>
  let body := cs.drop (sign cs).length
  let marks := body.takeWhile Decimal.isMark
  if marks.isEmpty then none
  else
    let number := sign cs ++ marks
    let unit := unit (body.dropWhile Decimal.isMark)
    some (number.length + unit.length, ⟨number, unit⟩)

/-- Small letters and percent signs where a number is due. -/
def looseUnit : Pattern Unit := fun cs =>
  let letters := cs.takeWhile fun c => c.isLower || c == '%'
  if letters.isEmpty then none else some (letters.length, ())

/-- A sign with what stands on both sides of it. -/
structure AttachedSign where
  before : Char
  blanks : List Char
  sign : Char
  target : Char
  deriving DecidableEq, Repr

/-- A sign right before a digit or an opening parenthesis, and after a character that is
neither blank nor an opening parenthesis. -/
def attachedSign : Pattern AttachedSign
  | [] => none
  | before :: cs =>
    if isBlank before || before == '(' then none
    else
      let blanks := cs.takeWhile isBlank
      match cs.dropWhile isBlank with
      | sign :: target :: _ =>
        if (sign == '+' || sign == '-') && (target.isDigit || target == '(') then
          some (blanks.length + 3, ⟨before, blanks, sign, target⟩)
        else none
      | _ => none

/-- A parenthesis, or an operator with something in front of it. -/
def operation : Pattern Unit
  | [] => none
  | c :: cs =>
    if c == '(' || c == ')' then some (1, ())
    else if isBlank c then none
    else
      match cs.dropWhile isBlank with
      | [] => none
      | op :: _ =>
        if (Operator.ofChar? op).isSome then some ((cs.takeWhile isBlank).length + 2, ()) else none

theorem operand_pos {cs : List Char} {size : Nat} {parts : Operand}
    (h : operand cs = some (size, parts)) : 0 < size := by
  simp only [operand] at h
  split at h
  · simp at h
  · rename_i nonempty
    simp only [Option.some.injEq, Prod.mk.injEq] at h
    rw [← h.1]
    have := List.length_pos_iff.mpr fun h => nonempty (List.isEmpty_iff.mpr h)
    simp only [List.length_append]
    omega

theorem looseUnit_pos {cs : List Char} {size : Nat} {parts : Unit}
    (h : looseUnit cs = some (size, parts)) : 0 < size := by
  simp only [looseUnit] at h
  split at h
  · simp at h
  · rename_i nonempty
    simp only [Option.some.injEq, Prod.mk.injEq] at h
    rw [← h.1]
    exact List.length_pos_iff.mpr fun h => nonempty (List.isEmpty_iff.mpr h)

end Pattern

end UnitArith.Text
