import Reckoner.Settings
import Reckoner.Text.Quoted

/-!
# The functions of the calculator

Thirteen functions of one argument. The trigonometric functions and their inverses follow the angle unit;
the logarithms, the square root and the tangent are undefined for some arguments, which is a `DomainGap`.
Floor, ceiling and rounding are exact; rounding takes a half upward.
-/

namespace Reckoner.Expression

set_option autoImplicit false

inductive Function where
  | asin
  | acos
  | atan
  | sin
  | cos
  | tan
  | log
  | ln
  | sqrt
  | abs
  | ceil
  | floor
  | round
  deriving DecidableEq, Repr

inductive DomainGap where
  | tangentPole
  | logNotPositive
  | lnNotPositive
  | sqrtNegative
  deriving DecidableEq, Repr

def DomainGap.message : DomainGap → String
  | .tangentPole => "tan is undefined at odd multiples of 90°"
  | .logNotPositive => "log is undefined for values ≤ 0"
  | .lnNotPositive => "ln is undefined for values ≤ 0"
  | .sqrtNegative => "sqrt is undefined for negative numbers"

namespace Function

def name : Function → String
  | .asin => "asin"
  | .acos => "acos"
  | .atan => "atan"
  | .sin => "sin"
  | .cos => "cos"
  | .tan => "tan"
  | .log => "log"
  | .ln => "ln"
  | .sqrt => "sqrt"
  | .abs => "abs"
  | .ceil => "ceil"
  | .floor => "floor"
  | .round => "round"

def all : List Function :=
  [.asin, .acos, .atan, .sin, .cos, .tan, .log, .ln, .sqrt, .abs, .ceil, .floor, .round]

def ofName? (name : String) : Option Function :=
  all.find? fun f => f.name == name

/-- Whether a text starts with the name of a function, in capitals or small letters. -/
def opens (f : Function) (text : List Char) : Bool :=
  Text.lower (text.take f.name.toList.length) == f.name.toList

def match? (text : List Char) : Option Function :=
  all.find? fun f => f.opens text

/-! ## Angles -/

def pi : Float := Float.ofBits 0x400921FB54442D18

def e : Float := Float.ofBits 0x4005BF0A8B145769

/-- An angle of the settings' unit in radians. -/
def toRadians (s : Settings) (x : Float) : Float :=
  if s.usesDegrees then x * (pi / 180) else x

/-- An angle in radians in the settings' unit. -/
def fromRadians (s : Settings) (x : Float) : Float :=
  if s.usesDegrees then x * (180 / pi) else x

/-- Below this size of the cosine the tangent is undefined. -/
def tangentBound : Float := Double.ofDecimal false 1 (-10)

/-! ## Values -/

/-- A function of an integer part; values that are not finite stay. -/
def viaInteger (part : Float → Option Int) (x : Float) : Float :=
  match part x with
  | some n => Double.ofInt n
  | none => x

/-- The integer nearest to a finite number, a half going up. -/
def roundHalfUp? (x : Float) : Option Int :=
  (Double.floor? x).map fun lower =>
    if 0.5 ≤ x - Double.ofInt lower then lower + 1 else lower

/-- The value of a function, or the gap that its argument falls into. -/
def apply (s : Settings) (f : Function) (x : Float) : Except DomainGap Float :=
  match f with
  | .sin => .ok (toRadians s x).sin
  | .cos => .ok (toRadians s x).cos
  | .tan =>
    if (toRadians s x).cos.abs < tangentBound then .error .tangentPole
    else .ok (toRadians s x).tan
  | .asin => .ok (fromRadians s x.asin)
  | .acos => .ok (fromRadians s x.acos)
  | .atan => .ok (fromRadians s x.atan)
  | .log => if x ≤ 0 then .error .logNotPositive else .ok x.log10
  | .ln => if x ≤ 0 then .error .lnNotPositive else .ok x.log
  | .sqrt => if x < 0 then .error .sqrtNegative else .ok x.sqrt
  | .abs => .ok x.abs
  | .ceil => .ok (viaInteger Double.ceil? x)
  | .floor => .ok (viaInteger Double.floor? x)
  | .round => .ok (viaInteger roundHalfUp? x)

/-! ## Functions by name -/

inductive NamedFault where
  | gap (gap : DomainGap)
  | unknown (name : String)
  deriving DecidableEq, Repr

def unknownMessage (name : String) : String :=
  "No evaluation rule for function " ++ String.ofList (Text.quoted name.toList)

def applyNamed (s : Settings) (name : String) (x : Float) : Except NamedFault Float :=
  match ofName? name with
  | some f => (f.apply s x).mapError .gap
  | none => .error (.unknown name)

end Function

end Reckoner.Expression
