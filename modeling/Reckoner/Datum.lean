import Reckoner.Json.Value
import Reckoner.Number.Literal
import Reckoner.Number.Shortest

/-!
# Data from outside

A `Datum` is a value as a caller or a configuration hands it over: a document value, an exact ratio or a
decimal number. `toFloat` and `toInt` are the tolerant conversions to numbers; a conversion that is not
possible ends in a `Fault`. `word?` is the text by which a datum is compared with the words of a setting; an
integer with too many digits has no text, and neither has a value that holds one.
-/

namespace Reckoner

set_option autoImplicit false

-- The powers below are the plain ones, whatever else is imported.
attribute [local instance (high)] instPowNat

inductive Fault where
  /-- A text that is no number, not-a-number where an integer is needed, or an integer with too many digits. -/
  | unreadable
  /-- A value of a kind that has no such conversion, or an argument that is not known. -/
  | wrongKind
  /-- A number beyond the range of the target. -/
  | tooLarge
  /-- A value that should hold named fields. -/
  | notMapping
  | angleUnit
  deriving DecidableEq, Repr

/-- The explanation that goes with a fault, where there is one. -/
def Fault.message? : Fault → Option String
  | .angleUnit => some "angle_unit must be 'deg' or 'rad'"
  | _ => none

inductive Datum where
  | value (v : Json.Value)
  /-- The exact fraction of an integer and a positive denominator. -/
  | ratio (numerator : Int) (denominator : Nat)
  | decimal (number : Literal.Real)

namespace Datum

/-- A double that came out of an exact number; an infinity means that the number was too large. -/
def ranged (x : Float) : Except Fault Float :=
  if x.isFinite then .ok x else .error .tooLarge

/-- An integer, or a fault for the values that have none. -/
def truncated (x : Float) : Except Fault Int :=
  match Double.trunc? x with
  | some n => .ok n
  | none => .error (if x.isNaN then .unreadable else .tooLarge)

def toFloat : Datum → Except Fault Float
  | .value (.bool b) => .ok (if b then 1 else 0)
  | .value (.int n) => ranged (Double.ofInt n)
  | .value (.float x) => .ok x
  | .value (.text s) =>
    match Literal.float? s.toList with
    | some x => .ok x
    | none => .error .unreadable
  | .value .unpaired => .error .unreadable
  | .value _ => .error .wrongKind
  | .ratio p q => ranged (Double.nearest (p < 0) p.natAbs q)
  | .decimal number => .ok number.toFloat

/-- The tolerant conversion to an integer; fractions are cut off. -/
def toInt : Datum → Except Fault Int
  | .value (.bool b) => .ok (if b then 1 else 0)
  | .value (.int n) => .ok n
  | .value (.float x) => truncated x
  | .value (.text s) =>
    match Literal.int? s.toList with
    | some n => .ok n
    | none => .error .unreadable
  | .value .unpaired => .error .unreadable
  | .value _ => .error .wrongKind
  | .ratio p q => .ok (Int.tdiv p q)
  | .decimal .nan => .error .unreadable
  | .decimal (.infinite _) => .error .tooLarge
  | .decimal (.finite negative s) =>
    .ok (Double.signed negative (s.coefficient * 10 ^ s.exponent.toNat / 10 ^ (-s.exponent).toNat))

/-- Whether a datum counts as a no: null, false, zero or empty. -/
def isVoid : Datum → Bool
  | .value v => v.isVoid
  | .ratio p _ => p == 0
  | .decimal (.finite _ s) => s.coefficient == 0
  | .decimal _ => false

mutual

/-- Whether a document value can be written as a text: all integers in it are short. -/
def isWritable : Json.Value → Bool
  | .int n => Literal.Short n
  | .list items => areWritable items
  | .object fields => areFieldsWritable fields
  | _ => true

def areWritable : List Json.Value → Bool
  | [] => true
  | v :: rest => isWritable v && areWritable rest

def areFieldsWritable : List (String × Json.Value) → Bool
  | [] => true
  | (_, v) :: rest => isWritable v && areFieldsWritable rest

end

/-- The word of a document value that can be written; lists and objects have none. -/
def valueWord? (v : Json.Value) : Except Fault (Option String) :=
  if isWritable v then
    match v with
    | .null => .ok (some "None")
    | .bool b => .ok (some (if b then "True" else "False"))
    | .int n => .ok (some n.repr)
    | .float x => .ok (some (String.ofList (Double.text x)))
    | .text s => .ok (some s)
    | _ => .ok none
  else .error .unreadable

/-- The word of a fraction; in lowest terms both of its parts have to be short. -/
def ratioWord? (p : Int) (q : Nat) : Except Fault (Option String) :=
  let common : Nat := Int.gcd p q
  let numerator : Int := p / common
  let denominator : Int := q / common
  if Literal.Short numerator ∧ Literal.Short denominator then
    .ok (if denominator = 1 then some numerator.repr else none)
  else .error .unreadable

/-- The text by which a datum is compared with the words of a setting. -/
def word? : Datum → Except Fault (Option String)
  | .value v => valueWord? v
  | .ratio p q => ratioWord? p q
  | .decimal (.finite negative s) =>
    .ok (if s.exponent = 0 then some (Double.signed negative s.coefficient).repr else none)
  | .decimal _ => .ok none

/-- The word without blanks around it and in small letters. -/
def settingWord? (d : Datum) : Except Fault (Option (List Char)) :=
  d.word?.map fun word => word.map fun s => Text.lower (Text.trim s.toList)

end Datum

end Reckoner
