import Reckoner.Datum

/-!
# Settings

`Settings` holds the angle unit, the display precision and the choice of thousands separators.
`Settings.merge` lays overrides on top. `Settings.load` reads the defaults of a configuration: a missing
or malformed field falls back to its built-in value. Refused are only a precision beyond all bounds and an
integer with too many digits in the place of the choice of separators.
-/

namespace Reckoner

set_option autoImplicit false

/-- The unit of angles; a name that is not known is kept and acts as radians. -/
inductive AngleUnit where
  | degrees
  | radians
  | other (name : String)
  deriving DecidableEq, Repr

namespace AngleUnit

def ofName (name : String) : AngleUnit :=
  if name = "deg" then .degrees else if name = "rad" then .radians else .other name

def name : AngleUnit → String
  | .degrees => "deg"
  | .radians => "rad"
  | .other name => name

def aliases : List (String × AngleUnit) :=
  [("deg", .degrees), ("degree", .degrees), ("degrees", .degrees),
    ("rad", .radians), ("radian", .radians), ("radians", .radians)]

def ofWord? (word : List Char) : Option AngleUnit :=
  aliases.lookup (String.ofList word)

/-- The unit that a setting names, in any case and with blanks around it. -/
def read (d : Datum) : Except Fault AngleUnit := do
  let word ← d.settingWord?
  match word.bind ofWord? with
  | some unit => .ok unit
  | none => .error .angleUnit

end AngleUnit

structure Settings where
  angleUnit : AngleUnit := .degrees
  precision : Int := 8
  thousandsSeparator : Bool := true
  deriving DecidableEq, Repr

structure Overrides where
  angleUnit : Option AngleUnit := none
  precision : Option Int := none
  thousandsSeparator : Option Bool := none
  deriving DecidableEq, Repr

namespace Settings

def usesDegrees (s : Settings) : Bool :=
  s.angleUnit == .degrees

/-- The number of significant digits shown: the precision held between 1 and 17. -/
def significantDigits (s : Settings) : Nat :=
  (min (max s.precision 1) 17).toNat

/-- The settings with the given overrides; a negative precision counts as zero. -/
def merge (s : Settings) (o : Overrides) : Settings :=
  { angleUnit := o.angleUnit.getD s.angleUnit
    precision := (o.precision.map (max · 0)).getD s.precision
    thousandsSeparator := o.thousandsSeparator.getD s.thousandsSeparator }

end Settings

/-! ## Overrides from outside -/

def Overrides.fieldNames : List String := ["angle_unit", "precision", "thousands_sep"]

/-- A field that is present and not null. -/
def given? (fields : List (String × Datum)) (name : String) : Option Datum :=
  match fields.lookup name with
  | some (.value .null) => none
  | field => field

def convertGiven {α : Type} (field : Option Datum) (convert : Datum → Except Fault α) :
    Except Fault (Option α) :=
  match field with
  | none => .ok none
  | some d => (convert d).map some

/-- Reads overrides; the fields are converted in the order unit, precision, separators. -/
def Overrides.read (fields : List (String × Datum)) : Except Fault Overrides := do
  if fields.any fun field => !Overrides.fieldNames.contains field.1 then throw .wrongKind
  let angleUnit ← convertGiven (given? fields "angle_unit") AngleUnit.read
  let precision ← convertGiven (given? fields "precision") Datum.toInt
  let thousandsSeparator := (given? fields "thousands_sep").map fun d => !d.isVoid
  return { angleUnit, precision, thousandsSeparator }

def Settings.mergeRead (s : Settings) (fields : List (String × Datum)) : Except Fault Settings :=
  (Overrides.read fields).map s.merge

/-! ## The defaults of a configuration -/

namespace Settings

/-- The words that switch the separators on. -/
def yesWords : List (List Char) :=
  ["1".toList, "true".toList, "yes".toList, "on".toList]

def loadAngleUnit (field : Option Datum) : AngleUnit :=
  match field.map AngleUnit.read with
  | some (.ok unit) => unit
  | _ => .degrees

/-- The configured precision, cut to an integer and not negative. -/
def loadPrecision (field : Option Datum) : Except Fault Int :=
  match field with
  | none => .ok 8
  | some d =>
    match d.toFloat.bind Datum.truncated with
    | .ok n => .ok (max n 0)
    | .error .tooLarge => .error .tooLarge
    | .error _ => .ok 8

/-- The choice of separators: a word that does not switch them on switches them off. -/
def loadSeparator (field : Option Datum) : Except Fault Bool :=
  match field with
  | none => .ok true
  | some (.value (.bool b)) => .ok b
  | some d => d.settingWord?.map fun word => word.any (yesWords.contains ·)

/-- Settings from the fields of a configuration; the precision is read before the separators. -/
def load (fields : List (String × Datum)) : Except Fault Settings := do
  let precision ← loadPrecision (fields.lookup "precision")
  let thousandsSeparator ← loadSeparator (fields.lookup "thousands_sep")
  return { angleUnit := loadAngleUnit (fields.lookup "angle_unit"), precision, thousandsSeparator }

end Settings

end Reckoner
