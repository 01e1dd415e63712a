import Reckoner.Number.Radix
import Reckoner.Settings

/-!
# Displayed numbers

A number is shown rounded to the significant digits of the settings, without zeros at the end of a fraction
and, if wanted, with commas between groups of three integer digits. From `10 ^ 15` on and below `10 ^ -10`
it is shown with seven digits and an exponent. Infinities have a sign of their own and everything else is
an error.
-/

namespace Reckoner.Display

set_option autoImplicit false

-- The powers below are the plain ones, whatever else is imported.
attribute [local instance (high)] instPowNat

def errorText : String := "Error"

def infinityText : String := "∞"

def negativeInfinityText : String := "-∞"

def infinityTextFor (negative : Bool) : String :=
  if negative then negativeInfinityText else infinityText

/-- From this size on numbers have an exponent. -/
def scientificUpper : Float := Double.ofDecimal false 1 15

/-- Below this size numbers other than zero have an exponent. -/
def scientificLower : Float := Double.ofDecimal false 1 (-10)

/-- The places behind the point in front of an exponent. -/
def scientificPlaces : Nat := 6

/-! ## Groups of three -/

/--
Groups the integer part of a number text; the integer part is read as an integer, so that blanks, signs,
underscores and the digits of all scripts in it come out in plain form.
-/
def groupThousands (text : List Char) : Except Fault (List Char) :=
  let (negative, body) : Bool × List Char :=
    match text with
    | '-' :: rest => (true, rest)
    | _ => (false, text)
  match Literal.int? (body.takeWhile (· != '.')) with
  | some n => .ok (signedText negative (Radix.grouped n ++ body.dropWhile (· != '.')))
  | none => .error .unreadable

/-- The same for a text whose integer part is known to be digits. -/
def withSeparators (text : List Char) : List Char :=
  match groupThousands text with
  | .ok grouped => grouped
  | .error _ => text

/-! ## Finite numbers -/

/-- A positive dyadic number as a fraction. -/
def fraction (mantissa : Nat) (exponent : Int) : Nat × Nat :=
  (mantissa * 2 ^ exponent.toNat, 2 ^ (-exponent).toNat)

def scientific (negative : Bool) (mantissa : Nat) (exponent : Int) : List Char :=
  let (n, d) := fraction mantissa exponent
  signedText negative
    ((Decimal.significant (scientificPlaces + 1) n d).scientific scientificPlaces)

/-- A number rounded to the given significant digits, without exponent. -/
def fixed (digits : Nat) (negative : Bool) (mantissa : Nat) (exponent : Int) : List Char :=
  let (n, d) := fraction mantissa exponent
  signedText negative (Decimal.significant digits n d).positional

def usesExponent (x : Float) : Bool :=
  scientificUpper ≤ x.abs || (x.abs < scientificLower && !(x == 0))

def formatChars (s : Settings) (x : Float) : List Char :=
  match Double.content x with
  | .nan => errorText.toList
  | .infinite negative => (infinityTextFor negative).toList
  | .finite _ 0 _ => ['0']
  | .finite negative mantissa exponent =>
    if usesExponent x then scientific negative mantissa exponent
    else if s.thousandsSeparator then
      withSeparators (fixed s.significantDigits negative mantissa exponent)
    else fixed s.significantDigits negative mantissa exponent

def format (s : Settings) (x : Float) : String :=
  String.ofList (formatChars s x)

/-- The text of an exact number, given its sign and the double nearest to it. -/
def formatExact (s : Settings) (negative : Bool) (nearest : Float) : String :=
  if nearest.isFinite then format s nearest else infinityTextFor negative

/-- The text of a value from outside; whatever is no number shows as an error. -/
def formatDatum (s : Settings) : Datum → String
  | .value (.int n) => formatExact s (n < 0) (Double.ofInt n)
  | .value (.float x) => format s x
  | .ratio p q => formatExact s (p < 0) (Double.nearest (p < 0) p.natAbs q)
  | _ => errorText

end Reckoner.Display
