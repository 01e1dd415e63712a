import Reckoner.Expression.Evaluate

/-!
# Curves

A curve samples an expression in `x` at evenly spaced places of a closed domain. At each place every `x` of
the template is replaced by the number in parentheses, and the text is evaluated; a sample that fails or is
not finite has no `y`. A request is refused when its bounds are not finite and increasing or when it asks
for fewer than two samples.
-/

namespace Reckoner

set_option autoImplicit false

structure CurvePoint where
  x : Float
  y : Option Float
  deriving DecidableEq, Repr

def CurvePoint.present (p : CurvePoint) : Bool := p.y.isSome

inductive CurveFault where
  | boundsNotFinite
  | boundsNotIncreasing
  | tooFewSamples
  deriving DecidableEq, Repr

def CurveFault.message : CurveFault → String
  | .boundsNotFinite => "Domain bounds must be finite"
  | .boundsNotIncreasing => "x_min must be less than x_max"
  | .tooFewSamples => "At least two samples are required"

/-- A request that can be sampled. -/
structure Curve where
  template : List Char
  xMin : Float
  xMax : Float
  sampleCount : Nat
  settings : Settings
  deriving DecidableEq, Repr

namespace Curve

/-! ## Samples -/

/-- The number as it stands for a variable: positional and in parentheses. -/
def literal (x : Float) : List Char :=
  '(' :: Double.positional x ++ [')']

def substitute (template : List Char) (x : Float) : List Char :=
  let number : List Char := literal x
  template.flatMap fun c => if c == 'x' then number else [c]

def samplePoint (s : Settings) (template : List Char) (x : Float) : CurvePoint :=
  match Expression.evaluateChars s (substitute template x) with
  | .ok y => ⟨x, Double.finite? y⟩
  | .error _ => ⟨x, none⟩

/-! ## Places -/

/-- The place with the given index: the step times the index, and the last bound at the end. -/
def place (xMin xMax : Float) (count index : Nat) : Float :=
  let parts : Float := Double.ofInt (count - 1 : Nat)
  let width : Float := xMax - xMin
  let step : Float := width / parts
  if index + 1 = count then xMax
  else if step == 0 then Double.ofInt index / parts * width + xMin
  else Double.ofInt index * step + xMin

def places (c : Curve) : List Float :=
  (List.range c.sampleCount).map (place c.xMin c.xMax c.sampleCount)

def points (c : Curve) : List CurvePoint :=
  c.places.map (samplePoint c.settings c.template)

/-! ## Requests -/

def defaultMin : Float := -10

def defaultMax : Float := 10

def defaultCount : Int := 401

def checkBounds (xMin xMax : Float) : Except CurveFault Unit :=
  if !(xMin.isFinite && xMax.isFinite) then .error .boundsNotFinite
  else if xMax ≤ xMin then .error .boundsNotIncreasing
  else .ok ()

def request (s : Settings) (template : List Char) (xMin xMax : Float) (count : Int) :
    Except CurveFault Curve := do
  checkBounds xMin xMax
  if count < 2 then throw .tooFewSamples
  return ⟨template, xMin, xMax, count.toNat, s⟩

/-- Why a request from outside is refused. -/
inductive RequestFault where
  | curve (fault : CurveFault)
  | conversion (fault : Fault)
  deriving DecidableEq, Repr

/-- Two bounds from outside; a third one is still converted before it is refused. -/
def readBounds (domain : List Datum) : Except Fault (Float × Float) := do
  let bounds ← (domain.take 3).mapM Datum.toFloat
  match bounds with
  | [xMin, xMax] => return (xMin, xMax)
  | _ => throw .unreadable

/--
Checks a request from outside. The bounds are converted and checked before the number of samples is looked
at.
-/
def requestRead (s : Settings) (template : List Char) (domain : List Datum) (count : Datum) :
    Except RequestFault Curve := do
  let (xMin, xMax) ← (readBounds domain).mapError .conversion
  (checkBounds xMin xMax).mapError .curve
  let count ← count.toInt.mapError .conversion
  (request s template xMin xMax count).mapError .curve

/-! ## Segments -/

/-- Counts the runs of present points behind a point that is present or not. -/
def segmentsAfter : Bool → List CurvePoint → Nat
  | _, [] => 0
  | before, p :: rest =>
    (if p.present && !before then 1 else 0) + segmentsAfter p.present rest

def countSegments (points : List CurvePoint) : Nat :=
  segmentsAfter false points

end Curve

end Reckoner
