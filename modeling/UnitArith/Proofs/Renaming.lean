import Mathlib.Logic.Embedding.Basic
import UnitArith.AlgebraError
import UnitArith.Token

/-! Other names for units. A name is looked at in two ways only, whether it is there and whether it
is equal to another one, so what is done to quantities is done to renamed quantities alike. -/
namespace UnitArith

variable {α : Type} [Number α]

/-- A unit for each unit, never the same for two of them. -/
abbrev Renaming := {unit : String // unit ≠ ""} ↪ {unit : String // unit ≠ ""}

namespace Renaming

variable (f : Renaming)

/-- To have no unit is not renamed. -/
def unit (unit : String) : String := if named : unit = "" then "" else f ⟨unit, named⟩

@[simp] theorem unit_empty : f.unit "" = "" := dif_pos rfl

theorem unit_of_ne {unit : String} (named : unit ≠ "") : f.unit unit = f ⟨unit, named⟩ :=
  dif_neg named

@[simp] theorem unit_eq_empty_iff (unit : String) : f.unit unit = "" ↔ unit = "" := by
  constructor
  · intro renamed
    by_contra named
    rw [f.unit_of_ne named] at renamed
    exact (f ⟨unit, named⟩).2 renamed
  · rintro rfl
    exact f.unit_empty

@[simp] theorem unit_inj (unit other : String) : f.unit unit = f.unit other ↔ unit = other := by
  constructor
  · intro same
    by_cases bare : unit = ""
    · rw [bare, f.unit_empty, eq_comm, f.unit_eq_empty_iff] at same
      rw [bare, same]
    · have named : other ≠ "" := by
        rintro rfl
        exact bare ((f.unit_eq_empty_iff unit).mp (same.trans f.unit_empty))
      rw [f.unit_of_ne bare, f.unit_of_ne named] at same
      exact congrArg Subtype.val (f.injective (Subtype.ext same))
  · rintro rfl
    rfl

end Renaming

namespace Quantity

def rename (f : Renaming) (q : Quantity α) : Quantity α :=
  ⟨q.value, f.unit q.unit, fun zero => ⟨(q.canonical zero).1, by
    rw [(q.canonical zero).2, f.unit_empty]⟩⟩

variable (f : Renaming)

@[simp] theorem value_rename (q : Quantity α) : (q.rename f).value = q.value := rfl
@[simp] theorem unit_rename (q : Quantity α) : (q.rename f).unit = f.unit q.unit := rfl
@[simp] theorem isZero_rename (q : Quantity α) : (q.rename f).isZero = q.isZero := rfl
@[simp] theorem isNegative_rename (q : Quantity α) : (q.rename f).isNegative = q.isNegative := rfl

@[simp] theorem hasUnit_rename (q : Quantity α) : (q.rename f).hasUnit = q.hasUnit := by
  simp [hasUnit]

@[simp] theorem sameUnit_rename (p q : Quantity α) :
    (p.rename f).sameUnit (q.rename f) = p.sameUnit q := by
  simp [sameUnit]

@[simp] theorem rename_zero : (zero : Quantity α).rename f = zero :=
  ext rfl f.unit_empty

/-- A zero loses its unit under every name. -/
theorem rename_of (value : α) (unit : String) :
    (of value unit).rename f = of value (f.unit unit) := by
  cases zero : Number.isZero value with
  | true => rw [of_zero zero, of_zero zero, rename_zero]
  | false =>
    apply ext
    · rw [value_rename, value_of zero, value_of zero]
    · rw [unit_rename, unit_of zero, unit_of zero]

@[simp] theorem rename_unitless (value : α) : (unitless value).rename f = unitless value := by
  rw [unitless, rename_of, f.unit_empty]

theorem withValue_rename (q : Quantity α) (value : α) :
    (q.rename f).withValue value = (q.withValue value).rename f :=
  (rename_of f value q.unit).symm

@[simp] theorem neg_rename (q : Quantity α) : (q.rename f).neg = q.neg.rename f :=
  withValue_rename f q _

@[simp] theorem abs_rename (q : Quantity α) : (q.rename f).abs = q.abs.rename f :=
  withValue_rename f q _

@[simp] theorem reciprocal_rename (q : Quantity α) :
    (q.rename f).reciprocal = q.reciprocal.rename f :=
  withValue_rename f q _

@[simp] theorem plus_rename (p q : Quantity α) :
    (p.rename f).plus (q.rename f) = (p.plus q).rename f :=
  withValue_rename f p _

@[simp] theorem dividedBy_rename (p q : Quantity α) :
    (p.rename f).dividedBy (q.rename f) = (p.dividedBy q).rename f := by
  rw [dividedBy, dividedBy, isZero_rename]
  split
  · exact (rename_zero f).symm
  · exact withValue_rename f p _

@[simp] theorem times_rename (p q : Quantity α) :
    (p.rename f).times (q.rename f) = (p.times q).rename f := by
  rw [times, times, isZero_rename, isZero_rename, hasUnit_rename]
  split
  · exact (rename_zero f).symm
  · rw [rename_of, apply_ite f.unit]
    rfl

@[simp] theorem after_rename (op : Operator) (q : Quantity α) :
    (q.rename f).after op = (q.after op).rename f := by
  rw [after, after, neg_rename]
  split <;> rfl

theorem signed_rename (q : Quantity α) :
    (q.rename f).signed = (q.signed.1, q.signed.2.rename f) := by
  rw [signed, signed, isNegative_rename, abs_rename]
  split <;> rfl

end Quantity

namespace Term

mutual

def rename (f : Renaming) : Term α → Term α
  | quantity q => quantity (q.rename f)
  | expression head tail => expression (head.rename f) (renameTail f tail)

def renameTail (f : Renaming) : List (Operator × Term α) → List (Operator × Term α)
  | [] => []
  | (op, t) :: rest => (op, t.rename f) :: renameTail f rest

end

theorem renameTail_eq_map (f : Renaming) (tail : List (Operator × Term α)) :
    renameTail f tail = tail.map fun o => (o.1, o.2.rename f) := by
  induction tail with
  | nil => rfl
  | cons o tail ih => rw [renameTail, ih, List.map_cons]

theorem signedOperand_rename (f : Renaming) (q : Quantity α) :
    signedOperand (q.rename f) = ((signedOperand q).1, (signedOperand q).2.rename f) := by
  rw [signedOperand, Quantity.signed_rename]
  rfl

end Term

def Token.rename (f : Renaming) : Token α → Token α
  | quantity q => .quantity (q.rename f)
  | operator op => .operator op
  | opening => .opening
  | closing => .closing

/-- The failure of renamed operands: it is of the same kind and shows them. -/
def AlgebraError.rename (f : Renaming) : AlgebraError α → AlgebraError α
  | unitMismatch left right => .unitMismatch (left.rename f) (right.rename f)
  | productOfSums left right => .productOfSums (left.rename f) (right.rename f)
  | productOfUnits => .productOfUnits
  | divisionBySum => .divisionBySum
  | divisionByUnit => .divisionByUnit
  | divisionByZero => .divisionByZero

namespace Renaming

variable {β γ β' γ' : Type} (f : Renaming)

/-- What renamed operands come to. -/
def outcome (rename : β → γ) (x : Except (AlgebraError α) β) : Except (AlgebraError α) γ :=
  (x.mapError (AlgebraError.rename f)).map rename

@[simp] theorem outcome_ok (rename : β → γ) (b : β) :
    f.outcome rename (.ok b : Except (AlgebraError α) β) = .ok (rename b) := rfl

/-- A run on renamed operands goes on as the run on the operands does. -/
theorem outcome_bind {rename : β → γ} {rename' : β' → γ'} {x : Except (AlgebraError α) β}
    {next : β → Except (AlgebraError α) β'} {next' : γ → Except (AlgebraError α) γ'}
    (step : ∀ b, next' (rename b) = f.outcome rename' (next b)) :
    f.outcome rename x >>= next' = f.outcome rename' (x >>= next) := by
  cases x with
  | ok b => exact step b
  | error e => rfl

/-- So does a run over a list of quantities. -/
theorem outcome_foldlM {rename : β → β} {next : β → Quantity α → Except (AlgebraError α) β}
    (step : ∀ b q, next (rename b) (q.rename f) = f.outcome rename (next b q))
    (terms : List (Quantity α)) (b : β) :
    (terms.map (·.rename f)).foldlM next (rename b) = f.outcome rename (terms.foldlM next b) := by
  induction terms generalizing b with
  | nil => rfl
  | cons q terms ih =>
    rw [List.map_cons, List.foldlM_cons, List.foldlM_cons, step]
    exact f.outcome_bind ih

end Renaming

end UnitArith
