/-! What a caller may choose: the units that expressions may use, and whether a failure is
reported or gives no result. -/
namespace UnitArith

/-- The units that may be written; without a list, all of them may. -/
abbrev AllowedUnits := Option (List String)

/-- A number without a unit is always allowed. -/
def AllowedUnits.accepts (units : AllowedUnits) (unit : String) : Bool :=
  match units with
  | none => true
  | some list => unit == "" || list.contains unit

inductive UnitSetting where
  | default
  | unchecked
  | only (units : List String)
  deriving DecidableEq, Repr

def defaultUnits : List String := ["px", "vh", "vw", "em", "rem", "%"]

def UnitSetting.allowed : UnitSetting → AllowedUnits
  | default => some defaultUnits
  | unchecked => none
  | only units => some units

structure Options where
  units : UnitSetting := .default
  /-- A failure gives no result instead of an error. -/
  quiet : Bool := false
  deriving DecidableEq, Repr

namespace Options

def allowedUnits (options : Options) : AllowedUnits := options.units.allowed

def withUnits (options : Options) (units : UnitSetting) : Options := { options with units }
def withQuiet (options : Options) (quiet : Bool) : Options := { options with quiet }

end Options

end UnitArith
