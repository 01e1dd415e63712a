import Reckoner.Number.Double

/-!
# Decimal numbers

A `Decimal` is a coefficient times a power of ten. The module rounds an exact fraction to a number of
significant digits (halves go up) and writes a decimal number in positional or in scientific notation.
-/

namespace Reckoner

set_option autoImplicit false

-- The powers below are the plain ones, whatever else is imported.
attribute [local instance (high)] instPowNat

structure Decimal where
  coefficient : Nat
  exponent : Int
  deriving DecidableEq, Repr

namespace Decimal

/-- The decimal digits of a natural number, most significant first. -/
def digits (n : Nat) : List Char :=
  Nat.toDigits 10 n

/-- The number of decimal digits; zero has one. -/
def digitCount (n : Nat) : Nat :=
  (digits n).length

/-- The exponent `e` with `10 ^ e ≤ num / den < 10 ^ (e + 1)`, for a positive fraction. -/
def leadingExponent (num den : Nat) : Int :=
  if den ≤ num then (digitCount (num / den) : Int) - 1
  else -(digitCount ((den - 1) / num) : Int)

/-- The fraction `num / den` divided by `10 ^ exponent`, again as a fraction. -/
def scaleDown (num den : Nat) (exponent : Int) : Nat × Nat :=
  (num * 10 ^ (-exponent).toNat, den * 10 ^ exponent.toNat)

/-- The integer nearest to `num / den`, a tie going up. -/
def roundHalfUp (num den : Nat) : Nat :=
  (2 * num + den) / (2 * den)

/--
The positive fraction `num / den` rounded to `count` significant digits, a half going up. The
coefficient has `count` digits, or is the next power of ten.
-/
def significant (count num den : Nat) : Decimal :=
  let exponent : Int := leadingExponent num den - count + 1
  let (n, d) := scaleDown num den exponent
  ⟨roundHalfUp n d, exponent⟩

/-! ## Positional notation -/

def dropZeros (text : List Char) : List Char :=
  (text.reverse.dropWhile (· == '0')).reverse

/-- Integer digits with a fraction part whose closing zeros, and then a bare point, are dropped. -/
def withFraction (whole fraction : List Char) : List Char :=
  match dropZeros fraction with
  | [] => whole
  | kept => whole ++ '.' :: kept

/-- The number without exponent, without zeros at the end of a fraction and without a bare point. -/
def positional (d : Decimal) : List Char :=
  let ds : List Char := digits d.coefficient
  if 0 ≤ d.exponent then
    if d.coefficient = 0 then ['0'] else ds ++ List.replicate d.exponent.toNat '0'
  else
    let places : Nat := (-d.exponent).toNat
    let padded : List Char := List.replicate (places + 1 - ds.length) '0' ++ ds
    withFraction (padded.take (padded.length - places)) (padded.drop (padded.length - places))

/-! ## Scientific notation -/

def scientificExponent (d : Decimal) : Int :=
  (digitCount d.coefficient : Int) - 1 + d.exponent

/-- An exponent mark: `e`, a sign and at least `width` digits. -/
def exponentMark (width : Nat) (exponent : Int) : List Char :=
  let ds : List Char := digits exponent.natAbs
  'e' :: (if exponent < 0 then '-' else '+') :: (List.replicate (width - ds.length) '0' ++ ds)

/-- One digit, a point, exactly `places` digits and the exponent. -/
def scientific (places : Nat) (d : Decimal) : List Char :=
  let ds : List Char := digits d.coefficient ++ List.replicate places '0'
  match ds with
  | [] => []
  | lead :: more => lead :: '.' :: more.take places ++ exponentMark 1 d.scientificExponent

end Decimal

def signedText (negative : Bool) (text : List Char) : List Char :=
  if negative then '-' :: text else text

end Reckoner
