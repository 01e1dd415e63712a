import Reckoner.Datum
import Reckoner.Settings

/-!
# Fields of a request

Each kind of field accepts some document values and converts them: texts lose the white space around them,
numbers may be written as texts, and flags may be numbers or words. A `FieldFault` says why a value is not
accepted. The faults of all fields of a request are reported together, in the order of the fields.
-/

namespace Reckoner.Service

set_option autoImplicit false

-- The powers below are the plain ones, whatever else is imported.
attribute [local instance (high)] instPowNat

inductive FieldFault where
  | missing
  | unknown
  | notText
  | brokenText
  | notUnit
  | notInteger
  | fractionalInteger
  | unreadableInteger
  | oversizeInteger
  | notFinite
  | notNumber
  | unreadableNumber
  | notFlag
  | unreadableFlag
  /-- The whole request is no object; the name is that of the kind of request. -/
  | notObject (request : String)
  deriving DecidableEq, Repr

def FieldFault.code : FieldFault → String
  | .missing => "missing"
  | .unknown => "extra_forbidden"
  | .notText => "string_type"
  | .brokenText => "string_unicode"
  | .notUnit => "literal_error"
  | .notInteger => "int_type"
  | .fractionalInteger => "int_from_float"
  | .unreadableInteger => "int_parsing"
  | .oversizeInteger => "int_parsing_size"
  | .notFinite => "finite_number"
  | .notNumber => "float_type"
  | .unreadableNumber => "float_parsing"
  | .notFlag => "bool_type"
  | .unreadableFlag => "bool_parsing"
  | .notObject _ => "model_type"

def FieldFault.message : FieldFault → String
  | .missing => "Field required"
  | .unknown => "Extra inputs are not permitted"
  | .notText => "Input should be a valid string"
  | .brokenText => "Input should be a valid string, unable to parse raw data as a unicode string"
  | .notUnit => "Input should be 'deg' or 'rad'"
  | .notInteger => "Input should be a valid integer"
  | .fractionalInteger => "Input should be a valid integer, got a number with a fractional part"
  | .unreadableInteger =>
    "Input should be a valid integer, unable to parse string as an integer"
  | .oversizeInteger => "Unable to parse input string as an integer, exceeded maximum size"
  | .notFinite => "Input should be a finite number"
  | .notNumber => "Input should be a valid number"
  | .unreadableNumber => "Input should be a valid number, unable to parse string as a number"
  | .notFlag => "Input should be a valid boolean"
  | .unreadableFlag => "Input should be a valid boolean, unable to interpret input"
  | .notObject request => "Input should be a valid dictionary or instance of " ++ request

/-- A fault and the field that it is about; none for the request as a whole. -/
structure FieldError where
  field : Option String
  fault : FieldFault
  deriving DecidableEq, Repr

def FieldError.toValue (e : FieldError) : Json.Value :=
  .object [("loc", .list (e.field.toList.map .text)), ("msg", .text e.fault.message),
    ("type", .text e.fault.code)]

/-! ## Texts and units -/

/-- A text without the white space around it. -/
def textField : Json.Value → Except FieldFault String
  | .text s => .ok (String.ofList (Text.trimBy Text.isWhiteSpace s.toList))
  | .unpaired => .error .brokenText
  | _ => .error .notText

def unitField : Json.Value → Except FieldFault AngleUnit
  | .text "deg" => .ok .degrees
  | .text "rad" => .ok .radians
  | _ => .error .notUnit

/-! ## Integers -/

inductive StrictInteger where
  | integer (n : Int)
  | oversize
  | none
  deriving DecidableEq, Repr

/-- Reads an optional minus sign and digits of which the first is zero only if it stands alone. -/
def strictInteger (text : List Char) : StrictInteger :=
  let (negative, ds) : Bool × List Char :=
    match text with
    | '-' :: rest => (true, rest)
    | _ => (false, text)
  match ds with
  | [] => .none
  | lead :: more =>
    if !ds.all Literal.isDigit || (lead == '0' && !more.isEmpty) then .none
    else if Literal.maxIntegerDigits < ds.length then .oversize
    else .integer (Double.signed negative (Literal.natOfDigits ds))

/--
Drops the zeros and underscores at the front of a text that starts with a zero, down to the first other
digit, to the character before a point, or to the last character.
-/
def dropLeadingZeros (text : List Char) : Option (List Char) :=
  match text with
  | [] => none
  | '0' :: _ =>
    match text.dropWhile (fun c => c == '0' || c == '_') with
    | [] => some (text.drop (text.length - 1))
    | '.' :: rest => some (text.drop (text.length - rest.length - 2))
    | lead :: rest => if Literal.isDigit lead then some (lead :: rest) else none
  | lead :: _ => if Literal.isDigit lead || lead == '-' then some text else none

/-- Cuts off a point with nothing but zeros behind it. -/
def dropZeroFraction (text : List Char) : List Char :=
  match text.dropWhile (· != '.') with
  | '.' :: rest => if rest.all (· == '0') then text.takeWhile (· != '.') else text
  | _ => text

def hasDoubleUnderscore : List Char → Bool
  | '_' :: '_' :: _ => true
  | _ :: rest => hasDoubleUnderscore rest
  | [] => false

/-- A text with inner single underscores taken out; none if there is nothing to take out. -/
def withoutUnderscores (text : List Char) : Option (List Char) :=
  if text.head? == some '_' || text.getLast? == some '_' || !text.contains '_'
      || hasDoubleUnderscore text then none
  else some (text.filter (· != '_'))

/-- A loosely written integer in its strict form, if loosening made a difference. -/
def tidyInteger (text : List Char) : Option (List Char) :=
  let trimmed : List Char := Text.trimBy Text.isWhiteSpace text
  let unsigned : Option (List Char) :=
    match trimmed with
    | '+' :: '-' :: _ => none
    | '+' :: rest => some rest
    | _ => some trimmed
  match unsigned.bind dropLeadingZeros with
  | none => none
  | some body =>
    let short : List Char := dropZeroFraction body
    match withoutUnderscores short with
    | some plain => some plain
    | none => if short.length = text.length then none else some short

def integerText (text : List Char) : Except FieldFault Int :=
  match strictInteger text with
  | .integer n => .ok n
  | .oversize => .error .oversizeInteger
  | .none =>
    match (tidyInteger text).map strictInteger with
    | some (.integer n) => .ok n
    | some .oversize => .error .oversizeInteger
    | _ => .error .unreadableInteger

/-- An integer that is given as a double; its size is bounded by 64 bits. -/
def integerOfFloat (x : Float) : Except FieldFault Int :=
  match Double.trunc? x with
  | none => .error .notFinite
  | some n =>
    if !Double.isInteger x then .error .fractionalInteger
    else if -(2 ^ (63 : Nat)) < n && n < 2 ^ (63 : Nat) then .ok n
    else .error .oversizeInteger

/-- An integer: an integer of any size, a flag, an integral double or a text. -/
def integerField : Json.Value → Except FieldFault Int
  | .int n => .ok n
  | .bool b => .ok (if b then 1 else 0)
  | .float x => integerOfFloat x
  | .text s => integerText s.toList
  | .unpaired => .error .brokenText
  | _ => .error .notInteger

/-! ## Numbers -/

def numberText (text : List Char) : Except FieldFault Float :=
  match Literal.plainFloat? (Text.trimBy Text.isWhiteSpace text) with
  | some x => .ok x
  | none =>
    match (withoutUnderscores text).bind Literal.plainFloat? with
    | some x => .ok x
    | none => .error .unreadableNumber

/-- A number: a double, an integer within the range of doubles, a flag or a text. -/
def numberField : Json.Value → Except FieldFault Float
  | .float x => .ok x
  | .int n =>
    match Double.finite? (Double.ofInt n) with
    | some x => .ok x
    | none => .error .notNumber
  | .bool b => .ok (if b then 1 else 0)
  | .text s => numberText s.toList
  | .unpaired => .error .brokenText
  | _ => .error .notNumber

/-! ## Flags -/

def noWords : List String := ["0", "off", "f", "false", "n", "no"]

def yesWords : List String := ["1", "on", "t", "true", "y", "yes"]

/-- A flag that is written as a word, in any case. -/
def flagText (s : String) : Except FieldFault Bool :=
  let word : String := String.ofList (Text.lower s.toList)
  if noWords.contains word then .ok false
  else if yesWords.contains word then .ok true
  else .error .unreadableFlag

def flagOfInteger (n : Int) : Except FieldFault Bool :=
  if n = 0 then .ok false
  else if n = 1 then .ok true
  else if -(2 ^ (63 : Nat)) ≤ n && n < 2 ^ (63 : Nat) then .error .unreadableFlag
  else .error .notFlag

/-- A flag: a flag, zero or one, or a word. -/
def flagField : Json.Value → Except FieldFault Bool
  | .bool b => .ok b
  | .int n => flagOfInteger n
  | .float x =>
    match integerOfFloat x with
    | .ok n => flagOfInteger n
    | .error _ => .error .notFlag
  | .text s => flagText s
  | .unpaired => .error .brokenText
  | _ => .error .notFlag

/-! ## Looking fields up -/

def nullable {α : Type} (kind : Json.Value → Except FieldFault α) :
    Json.Value → Except FieldFault (Option α)
  | .null => .ok none
  | v => (kind v).map some

def required {α : Type} (fields : Json.Fields) (name : String)
    (kind : Json.Value → Except FieldFault α) : Except FieldError α :=
  match fields.get? name with
  | none => .error ⟨some name, .missing⟩
  | some v => (kind v).mapError fun fault => ⟨some name, fault⟩

/-- A field with a value for the case that it is missing. -/
def optional {α : Type} (fields : Json.Fields) (name : String) (default : α)
    (kind : Json.Value → Except FieldFault α) : Except FieldError α :=
  match fields.get? name with
  | none => .ok default
  | some v => (kind v).mapError fun fault => ⟨some name, fault⟩

def unknownFields (fields : Json.Fields) (names : List String) : List FieldError :=
  (fields.filter fun field => !names.contains field.1).map fun field =>
    ⟨some field.1, .unknown⟩

def errorsOf {α : Type} : Except FieldError α → List FieldError
  | .ok _ => []
  | .error e => [e]

end Reckoner.Service
