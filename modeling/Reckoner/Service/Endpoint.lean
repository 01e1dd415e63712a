import Reckoner.Display
import Reckoner.Report
import Reckoner.Service.Configuration
import Reckoner.Service.Error
import Reckoner.Service.Payload

/-!
# Endpoints

What the service answers. Each endpoint checks the fields of the body, then the limits, and then computes.
Bad input is an error for the caller; a `Fault` arises only from a configuration that cannot be used.
-/

namespace Reckoner.Service

set_option autoImplicit false

/-- The data of a success or an error for the caller. -/
abbrev Reply := Except ServiceError Json.Value

/-! ## Errors -/

def invalidRequest (errors : List FieldError) : ServiceError :=
  .invalid "sci_calc.invalid_request" "Invalid request payload"
    [("errors", .list (errors.map FieldError.toValue))]

def failureCode : Expression.FailureKind → String
  | .grammar => "sci_calc.syntax_error"
  | .domain => "sci_calc.domain_error"
  | .arithmetic => "sci_calc.arithmetic_error"

def expressionFailure (f : Expression.Failure) : ServiceError :=
  .invalid (failureCode f.kind) f.message
    [("kind", .text f.kind.name), ("position", .ofNat? f.position?)]

def tooLong : ServiceError :=
  .invalid "sci_calc.expression_too_long" "Expression is too long" []

def tooManySamples (limit : Int) : ServiceError :=
  .invalid "sci_calc.too_many_samples" ("At most " ++ toString limit ++ " samples are allowed") []

def invalidDomain (fault : CurveFault) : ServiceError :=
  .invalid "sci_calc.invalid_domain" fault.message []

/-- A value without integer part. -/
def notFinite : ServiceError :=
  .invalid "sci_calc.not_finite" "Value is not finite" []

def notExactlyOne : ServiceError :=
  .invalid "sci_calc.invalid_request" "Provide exactly one of expression or value" []

/-! ## Answers -/

def pointValue (p : CurvePoint) : Json.Value :=
  .object [("x", .float p.x), ("y", .ofFloat? p.y)]

def curveValue (expression : String) (c : Curve) : Json.Value :=
  let points : List CurvePoint := c.points
  let plotted : Nat := (points.filter CurvePoint.present).length
  .object
    [("expression", .text expression),
      ("angle_unit", .text c.settings.angleUnit.name),
      ("domain", .list [.float c.xMin, .float c.xMax]),
      ("samples", .int points.length),
      ("plotted", .int plotted),
      ("gaps", .int ((points.length : Int) - plotted)),
      ("segments", .int (Curve.countSegments points)),
      ("series", .list (points.map pointValue))]

/-- Answers with an error for a body that is no request of the kind at hand. -/
def withPayload {α : Type} (request : String)
    (ofFields : Json.Fields → Except (List FieldError) α) (body : Json.Value)
    (answer : α → Except Fault Reply) : Except Fault Reply :=
  match (bodyFields request body).bind ofFields with
  | .error errors => .ok (.error (invalidRequest errors))
  | .ok payload => answer payload

/-- Answers for an expression, but with an error if it is beyond the limit. -/
def withinLength (c : Configuration) (expression : String) (answer : String → Except Fault Reply) :
    Except Fault Reply := do
  let limit ← c.maxExpression
  if limit < expression.length then return .error tooLong
  answer expression

def evaluateEndpoint (c : Configuration) (body : Json.Value) : Except Fault Reply :=
  withPayload "EvaluatePayload" EvaluatePayload.ofFields body fun payload =>
    withinLength c payload.expression fun expression => do
      let s ← c.settings payload.overrides
      match Expression.evaluate s expression with
      | .error failure => return .error (expressionFailure failure)
      | .ok x =>
        return .ok (.object
          [("result", .finiteOrNull x),
            ("formatted", .text (Display.format s x)),
            ("normalized", .text (String.ofList
              (Expression.normalize (Text.trim expression.toList)))),
            ("angle_unit", .text s.angleUnit.name)])

def formatEndpoint (c : Configuration) (body : Json.Value) : Except Fault Reply :=
  withPayload "FormatPayload" FormatPayload.ofFields body fun payload => do
    let s ← c.settings payload.overrides
    let text : String :=
      match payload.value with
      | some x => Display.format s x
      | none => Display.errorText
    return .ok (.object [("formatted", .text text)])

def plotEndpoint (c : Configuration) (body : Json.Value) : Except Fault Reply :=
  withPayload "PlotPayload" PlotPayload.ofFields body fun payload =>
    withinLength c payload.expression fun expression => do
      let limit ← c.maxSamples
      if limit < payload.samples then return .error (tooManySamples limit)
      let s ← c.settings { angleUnit := payload.angleUnit }
      match Curve.request s expression.toList payload.xMin payload.xMax payload.samples with
      | .error fault => return .error (invalidDomain fault)
      | .ok curve => return .ok (curveValue expression curve)

def basesReply (x : Float) : Reply :=
  match Radix.bases? x with
  | some bases => .ok (.object [("value", .float x), ("bases", Report.bases bases)])
  | none => .error notFinite

/-- Writes the value of an expression, or a number, in four bases. -/
def basesEndpoint (c : Configuration) (body : Json.Value) : Except Fault Reply :=
  withPayload "BasesPayload" BasesPayload.ofFields body fun payload =>
    match payload.expression, payload.value with
    | none, some x => .ok (basesReply x)
    | some expression, none =>
      withinLength c expression fun expression => do
        let s ← c.settings { angleUnit := payload.angleUnit }
        match Expression.evaluate s expression with
        | .error failure => return .error (expressionFailure failure)
        | .ok x => return basesReply x
    | _, _ => .ok (.error notExactlyOne)

def textList (texts : List String) : Json.Value :=
  .list (texts.map .text)

/-- Lists what an expression may contain. -/
def functionsValue : Json.Value :=
  .object
    [("functions", textList (Expression.Function.all.map Expression.Function.name)),
      ("constants", textList ["pi", "π", "e"]),
      ("operators", textList ["+", "-", "*", "/", "%", "^", "×", "÷", "−", "√("])]

/-- Tells callers about the site and its plugins. -/
def homeValue (c : Configuration) : Json.Value :=
  .object [("site", c.site), ("plugins", .list [.object c.manifest])]

/-- What a configuration says about the site may hold integers with too many digits to be written. -/
def homeEndpoint (c : Configuration) : Except Fault Reply :=
  if Datum.isWritable (homeValue c) then .ok (.ok (homeValue c)) else .error .unreadable

end Reckoner.Service
