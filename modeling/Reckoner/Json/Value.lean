/-!
# Document values

`Value` is a JSON document: integers of any size and doubles are kept apart, and the fields of an object
keep their order. A text with an unpaired surrogate has no Unicode string and is the value `unpaired`.
-/

namespace Reckoner.Json

set_option autoImplicit false

inductive Value where
  | null
  | bool (b : Bool)
  | int (n : Int)
  | float (x : Float)
  | text (s : String)
  | unpaired
  | list (items : List Value)
  | object (fields : List (String × Value))

abbrev Fields := List (String × Value)

namespace Value

/-- Null, false, a zero and an empty text, list or object count as void. -/
def isVoid : Value → Bool
  | .null => true
  | .bool b => !b
  | .int n => n == 0
  | .float x => x == 0
  | .text s => s.isEmpty
  | .unpaired => false
  | .list items => items.isEmpty
  | .object fields => fields.isEmpty

/-- A number when it is finite, and null otherwise. -/
def finiteOrNull (x : Float) : Value :=
  if x.isFinite then .float x else .null

def ofText? : Option String → Value
  | some s => .text s
  | none => .null

def ofNat? : Option Nat → Value
  | some n => .int n
  | none => .null

def ofFloat? : Option Float → Value
  | some x => .float x
  | none => .null

end Value

def Fields.get? (fields : Fields) (name : String) : Option Value :=
  fields.lookup name

/-- Sets a field: a known name keeps its place, a new name comes last. -/
def Fields.set (fields : Fields) (name : String) (value : Value) : Fields :=
  if fields.any fun field => field.1 == name then
    fields.map fun field => if field.1 == name then (name, value) else field
  else fields ++ [(name, value)]

end Reckoner.Json
