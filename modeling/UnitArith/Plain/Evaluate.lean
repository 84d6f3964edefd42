import UnitArith.Plain.Symbol

/-! The value of an arithmetic text with its units struck out, by recursive descent:
a sum of products of signed atoms, where chains group to the left and a sign stands for its
whole atom. Independent of the reduction of terms, it tells whether a result can be right. -/
namespace UnitArith.Plain

variable {α : Type} [Number α]

/-- A value, and what follows its text. -/
abbrev Reading (α : Type) (symbols : List (Symbol α)) :=
  Option (α × { rest : List (Symbol α) // rest.length < symbols.length })

/-- A chain that goes on as far as it can, which may be nowhere. -/
abbrev TailReading (α : Type) (symbols : List (Symbol α)) :=
  Option (α × { rest : List (Symbol α) // rest.length ≤ symbols.length })

mutual

def readSum (symbols : List (Symbol α)) : Reading α symbols :=
  match readProduct symbols with
  | none => none
  | some (first, ⟨rest, h⟩) =>
    match readSumTail first rest with
    | none => none
    | some (value, ⟨tail, h'⟩) => some (value, ⟨tail, by omega⟩)
termination_by 3 * symbols.length + 2

/-- Goes on adding as long as a plus or minus follows. -/
def readSumTail (left : α) (symbols : List (Symbol α)) : TailReading α symbols :=
  match symbols with
  | [] => some (left, ⟨[], by simp⟩)
  | symbol :: after =>
    match symbol.additive? with
    | none => some (left, ⟨symbol :: after, by simp⟩)
    | some apply =>
      match readProduct after with
      | none => none
      | some (right, ⟨rest, h⟩) =>
        match readSumTail (apply left right) rest with
        | none => none
        | some (value, ⟨tail, h'⟩) => some (value, ⟨tail, by simp only [List.length_cons]; omega⟩)
termination_by 3 * symbols.length

def readProduct (symbols : List (Symbol α)) : Reading α symbols :=
  match readSigned symbols with
  | none => none
  | some (first, ⟨rest, h⟩) =>
    match readProductTail first rest with
    | none => none
    | some (value, ⟨tail, h'⟩) => some (value, ⟨tail, by omega⟩)
termination_by 3 * symbols.length + 1

/-- Goes on multiplying as long as a times or divide follows. -/
def readProductTail (left : α) (symbols : List (Symbol α)) : TailReading α symbols :=
  match symbols with
  | [] => some (left, ⟨[], by simp⟩)
  | symbol :: after =>
    match symbol.multiplicative? with
    | none => some (left, ⟨symbol :: after, by simp⟩)
    | some apply =>
      match readSigned after with
      | none => none
      | some (right, ⟨rest, h⟩) =>
        match readProductTail (apply left right) rest with
        | none => none
        | some (value, ⟨tail, h'⟩) => some (value, ⟨tail, by simp only [List.length_cons]; omega⟩)
termination_by 3 * symbols.length

/-- An atom is a number or a group; any signs may stand before it. -/
def readSigned (symbols : List (Symbol α)) : Reading α symbols :=
  match symbols with
  | .number value :: rest => some (value, ⟨rest, by simp⟩)
  | .operator .plus :: after =>
    match readSigned after with
    | none => none
    | some (value, ⟨rest, h⟩) => some (value, ⟨rest, by simp only [List.length_cons]; omega⟩)
  | .operator .minus :: after =>
    match readSigned after with
    | none => none
    | some (value, ⟨rest, h⟩) => some (-value, ⟨rest, by simp only [List.length_cons]; omega⟩)
  | .opening :: after =>
    match readSum after with
    | some (value, ⟨.closing :: rest, h⟩) =>
      some (value, ⟨rest, by simp only [List.length_cons] at h ⊢; omega⟩)
    | _ => none
  | _ => none
termination_by 3 * symbols.length

end

/-- All of the symbols are one sum. -/
def value? (symbols : List (Symbol α)) : Option α :=
  match readSum symbols with
  | some (value, ⟨[], _⟩) => some value
  | _ => none

def evaluate (text : String) : Option α := (symbols? (withoutUnits text.toList)).bind value?

end UnitArith.Plain
