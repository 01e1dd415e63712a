/-!
# Doubles as exact numbers

A double is not-a-number, an infinity, or a signed multiple `mantissa * 2 ^ exponent`.
`Double.content` reads that off the 64 bits. `Double.nearest` goes the other way: it is the double
nearest to an exact fraction, a tie going to the even mantissa, beyond the range an infinity.
Truncation, floor and ceiling are computed on the exact content, so no rounding takes part in them.
-/

namespace Reckoner.Double

set_option autoImplicit false

-- The powers below are the plain ones, whatever else is imported.
attribute [local instance (high)] instPowNat

/-- What the 64 bits of a double stand for. -/
inductive Content where
  | nan
  | infinite (negative : Bool)
  /-- The number `± mantissa * 2 ^ exponent`; a zero has mantissa 0 and keeps its sign. -/
  | finite (negative : Bool) (mantissa : Nat) (exponent : Int)
  deriving DecidableEq, Repr

/-- The exponent of the smallest positive double, `2 ^ (-1074)`. -/
def leastExponent : Int := -1074

/-- The content of a bit pattern: sign bit, eleven exponent bits, fifty-two fraction bits. -/
def contentOfBits (bits : Nat) : Content :=
  let negative : Bool := bits / 2 ^ (63 : Nat) % 2 == 1
  let scale : Nat := bits / 2 ^ (52 : Nat) % 2 ^ (11 : Nat)
  let fraction : Nat := bits % 2 ^ (52 : Nat)
  if scale = 2047 then
    if fraction = 0 then .infinite negative else .nan
  else if scale = 0 then .finite negative fraction leastExponent
  else .finite negative (2 ^ (52 : Nat) + fraction) (leastExponent + (scale - 1 : Nat))

def content (x : Float) : Content :=
  contentOfBits x.toBits.toNat

/-! ## From exact numbers to doubles -/

def infinityBits : Nat := 2047 * 2 ^ (52 : Nat)

/-- The double with the given sign and the given 63 magnitude bits. -/
def ofMagnitude (negative : Bool) (bits : Nat) : Float :=
  Float.ofBits (UInt64.ofNat ((if negative then 2 ^ (63 : Nat) else 0) + bits))

def infinity (negative : Bool) : Float :=
  ofMagnitude negative infinityBits

def zero (negative : Bool) : Float :=
  ofMagnitude negative 0

def nan : Float :=
  Float.ofBits 0x7FF8000000000000

/-- The integer nearest to `num / den`, a tie going to the even one. -/
def roundHalfEven (num den : Nat) : Nat :=
  let q : Nat := num / den
  let r : Nat := num % den
  if 2 * r < den then q
  else if den < 2 * r then q + 1
  else q + q % 2

/-- The fraction `num / den` divided by `2 ^ exponent`, again as a fraction. -/
def scaleDown (num den : Nat) (exponent : Int) : Nat × Nat :=
  (num * 2 ^ (-exponent).toNat, den * 2 ^ exponent.toNat)

/--
The exponent at which `num / den` has a mantissa below `2 ^ 53`, and at least `2 ^ 52` unless the
exponent is already the least one.
-/
def targetExponent (num den : Nat) : Int :=
  let guess : Int := max ((num.log2 : Int) - den.log2 - 53) leastExponent
  let (n, d) := scaleDown num den guess
  if n / d < 2 ^ (53 : Nat) then guess else guess + 1

/--
The magnitude bits of the double nearest to the positive fraction `num / den`. A mantissa rounded up
to the next power of two carries into the exponent bits, which is the next double.
-/
def nearestBits (num den : Nat) : Nat :=
  let exponent : Int := targetExponent num den
  let (n, d) := scaleDown num den exponent
  min ((exponent - leastExponent).toNat * 2 ^ (52 : Nat) + roundHalfEven n d) infinityBits

/-- The double nearest to `± num / den`; the denominator is not zero. -/
def nearest (negative : Bool) (num den : Nat) : Float :=
  if num = 0 then zero negative else ofMagnitude negative (nearestBits num den)

def ofInt (n : Int) : Float :=
  nearest (n < 0) n.natAbs 1

/--
The double nearest to `± coefficient * 10 ^ exponent`. Exponents far outside the range are settled
without computing the power.
-/
def ofDecimal (negative : Bool) (coefficient : Nat) (exponent : Int) : Float :=
  if coefficient = 0 then zero negative
  else if 400 < exponent then infinity negative
  else if exponent < -(400 + (coefficient.log2 : Int)) then zero negative
  else nearest negative (coefficient * 10 ^ exponent.toNat) (10 ^ (-exponent).toNat)

/-! ## Integer parts -/

def signed (negative : Bool) (n : Nat) : Int :=
  if negative then -(n : Int) else n

/-- The greatest integer that is at most the content; none for the specials. -/
def Content.floor? : Content → Option Int
  | .finite negative mantissa exponent =>
    some (signed negative mantissa * 2 ^ exponent.toNat / 2 ^ (-exponent).toNat)
  | _ => none

/-- The least integer that is at least the content; none for the specials. -/
def Content.ceil? : Content → Option Int
  | .finite negative mantissa exponent =>
    some (-(signed (!negative) mantissa * 2 ^ exponent.toNat / 2 ^ (-exponent).toNat))
  | _ => none

/-- The content without its fraction part; none for the specials. -/
def Content.trunc? : Content → Option Int
  | .finite negative mantissa exponent =>
    some (signed negative (mantissa * 2 ^ exponent.toNat / 2 ^ (-exponent).toNat))
  | _ => none

def Content.isInteger : Content → Bool
  | .finite _ mantissa exponent => mantissa % 2 ^ (-exponent).toNat == 0
  | _ => false

def floor? (x : Float) : Option Int := (content x).floor?

def ceil? (x : Float) : Option Int := (content x).ceil?

def trunc? (x : Float) : Option Int := (content x).trunc?

def isInteger (x : Float) : Bool := (content x).isInteger

def isOddInteger (x : Float) : Bool :=
  isInteger x &&
    match trunc? x with
    | some n => n % 2 == 1
    | none => false

/-- Whether the sign bit is set; not-a-number counts as unsigned. -/
def isNegative (x : Float) : Bool :=
  match content x with
  | .nan => false
  | .infinite negative => negative
  | .finite negative _ _ => negative

def isNonzeroNumber (x : Float) : Bool :=
  !x.isNaN && !(x == 0)

def finite? (x : Float) : Option Float :=
  if x.isFinite then some x else none

end Reckoner.Double
