import Reckoner.Curve
import Reckoner.Service.Field

/-!
# Payloads

The four kinds of requests with a body. Each is read from the fields of a document; all faults of the fields
are reported, in the order in which the fields are declared and then the unknown ones in theirs.
-/

namespace Reckoner.Service

set_option autoImplicit false

/-- The fields of a body; a void body counts as an object without fields. -/
def bodyFields (request : String) (body : Json.Value) : Except (List FieldError) Json.Fields :=
  if body.isVoid then .ok []
  else
    match body with
    | .object fields => .ok fields
    | _ => .error [⟨none, .notObject request⟩]

/-! ## Evaluating -/

structure EvaluatePayload where
  overrides : Overrides
  expression : String
  deriving DecidableEq, Repr

def EvaluatePayload.ofFields (fields : Json.Fields) : Except (List FieldError) EvaluatePayload :=
  let angleUnit := optional fields "angle_unit" none (nullable unitField)
  let precision := optional fields "precision" none (nullable integerField)
  let separator := optional fields "thousands_sep" none (nullable flagField)
  let expression := required fields "expression" textField
  let unknown := unknownFields fields ["angle_unit", "precision", "thousands_sep", "expression"]
  match angleUnit, precision, separator, expression, unknown with
  | .ok u, .ok p, .ok t, .ok e, [] => .ok ⟨⟨u, p, t⟩, e⟩
  | u, p, t, e, rest => .error (errorsOf u ++ errorsOf p ++ errorsOf t ++ errorsOf e ++ rest)

/-! ## Formatting -/

/-- A request to format a number; null stands for something that is no number. -/
structure FormatPayload where
  value : Option Float
  overrides : Overrides
  deriving DecidableEq, Repr

def FormatPayload.ofFields (fields : Json.Fields) : Except (List FieldError) FormatPayload :=
  let value := required fields "value" (nullable numberField)
  let precision := optional fields "precision" none (nullable integerField)
  let separator := optional fields "thousands_sep" none (nullable flagField)
  let unknown := unknownFields fields ["value", "precision", "thousands_sep"]
  match value, precision, separator, unknown with
  | .ok v, .ok p, .ok t, [] => .ok ⟨v, ⟨none, p, t⟩⟩
  | v, p, t, rest => .error (errorsOf v ++ errorsOf p ++ errorsOf t ++ rest)

/-! ## Plotting -/

structure PlotPayload where
  expression : String
  angleUnit : Option AngleUnit
  xMin : Float
  xMax : Float
  samples : Int
  deriving DecidableEq, Repr

def PlotPayload.ofFields (fields : Json.Fields) : Except (List FieldError) PlotPayload :=
  let expression := required fields "expression" textField
  let angleUnit := optional fields "angle_unit" none (nullable unitField)
  let xMin := optional fields "x_min" Curve.defaultMin numberField
  let xMax := optional fields "x_max" Curve.defaultMax numberField
  let samples := optional fields "samples" Curve.defaultCount integerField
  let unknown := unknownFields fields ["expression", "angle_unit", "x_min", "x_max", "samples"]
  match expression, angleUnit, xMin, xMax, samples, unknown with
  | .ok e, .ok u, .ok lo, .ok hi, .ok n, [] => .ok ⟨e, u, lo, hi, n⟩
  | e, u, lo, hi, n, rest =>
    .error (errorsOf e ++ errorsOf u ++ errorsOf lo ++ errorsOf hi ++ errorsOf n ++ rest)

/-! ## Bases -/

/-- A request for the four bases of an expression or of a number. -/
structure BasesPayload where
  expression : Option String
  value : Option Float
  angleUnit : Option AngleUnit
  deriving DecidableEq, Repr

def BasesPayload.ofFields (fields : Json.Fields) : Except (List FieldError) BasesPayload :=
  let expression := optional fields "expression" none (nullable textField)
  let value := optional fields "value" none (nullable numberField)
  let angleUnit := optional fields "angle_unit" none (nullable unitField)
  let unknown := unknownFields fields ["expression", "value", "angle_unit"]
  match expression, value, angleUnit, unknown with
  | .ok e, .ok v, .ok u, [] => .ok ⟨e, v, u⟩
  | e, v, u, rest => .error (errorsOf e ++ errorsOf v ++ errorsOf u ++ rest)

end Reckoner.Service
