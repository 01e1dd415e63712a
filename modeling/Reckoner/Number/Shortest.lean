import Reckoner.Number.Decimal

/-!
# Shortest decimal text of a double

`shortest` finds a decimal number with the fewest digits among those that round to a given double, and
the nearest of them to it. `Double.positional` writes it without exponent. `Double.text` writes it
positionally from `0.0001` up to below `10 ^ 16` and otherwise with an exponent; an integer gets `.0`.
-/

namespace Reckoner.Double

set_option autoImplicit false

-- The powers below are the plain ones, whatever else is imported.
attribute [local instance (high)] instPowNat

/-! ## The interval that rounds to a double -/

/--
The numbers that round to a positive double lie between `low / den` and `high / den` around
`value / den`; the bounds themselves round to it when `closed` holds.
-/
structure Interval where
  low : Nat
  value : Nat
  high : Nat
  den : Nat
  closed : Bool
  deriving DecidableEq, Repr

/--
The interval of `mantissa * 2 ^ exponent`: half a unit on either side, but a quarter of a unit below a
power of two, where the doubles become twice as dense.
-/
def interval (mantissa : Nat) (exponent : Int) : Interval :=
  let below : Nat := if mantissa = 2 ^ (52 : Nat) && leastExponent < exponent then 1 else 2
  let factor : Nat := 2 ^ (exponent - 2).toNat
  { low := (4 * mantissa - below) * factor
    value := 4 * mantissa * factor
    high := (4 * mantissa + 2) * factor
    den := 2 ^ (2 - exponent).toNat
    closed := mantissa % 2 == 0 }

/-- Whether a decimal number rounds to the double of the interval. -/
def Interval.contains (i : Interval) (d : Decimal) : Bool :=
  let scaled : Nat := d.coefficient * 10 ^ d.exponent.toNat * i.den
  let unit : Nat := 10 ^ (-d.exponent).toNat
  if i.closed then i.low * unit ≤ scaled && scaled ≤ i.high * unit
  else i.low * unit < scaled && scaled < i.high * unit

/--
The better of the two neighbours of the value on the grid `10 ^ exponent`, if one of them lies in the
interval: the nearer one, on a tie the even one.
-/
def Interval.onGrid? (i : Interval) (exponent : Int) : Option Decimal :=
  let (n, d) := Decimal.scaleDown i.value i.den exponent
  let lower : Decimal := ⟨n / d, exponent⟩
  let upper : Decimal := ⟨n / d + 1, exponent⟩
  let nearer : Decimal := ⟨roundHalfEven n d, exponent⟩
  if i.contains nearer then some nearer
  else if i.contains lower then some lower
  else if i.contains upper then some upper
  else none

/-- The first grid with a hit, going through `count` grids, each ten times finer than the last. -/
def Interval.search (i : Interval) : Nat → Int → Option Decimal
  | 0, _ => none
  | count + 1, exponent =>
    match i.onGrid? exponent with
    | some d => some d
    | none => i.search count (exponent - 1)

/--
The shortest decimal number that rounds to the positive double `mantissa * 2 ^ exponent`. Seventeen
digits always suffice.
-/
def shortest (mantissa : Nat) (exponent : Int) : Decimal :=
  let i : Interval := interval mantissa exponent
  (i.search 17 (Decimal.leadingExponent i.value i.den)).getD ⟨0, 0⟩

/-! ## Texts -/

/-- Positional text of a double without exponent and without zeros at the end of a fraction. -/
def positional (x : Float) : List Char :=
  match content x with
  | .nan => ['N', 'a', 'N']
  | .infinite negative => signedText negative ['I', 'n', 'f', 'i', 'n', 'i', 't', 'y']
  | .finite negative 0 _ => signedText negative ['0']
  | .finite negative mantissa exponent =>
    signedText negative (shortest mantissa exponent).positional

structure SpecialTexts where
  nan : List Char
  infinity : List Char
  deriving DecidableEq, Repr

def plainSpecials : SpecialTexts := ⟨['n', 'a', 'n'], ['i', 'n', 'f']⟩

/-- Positional text that shows a point in every case. -/
def pointed (d : Decimal) : List Char :=
  let text : List Char := d.positional
  if text.contains '.' then text else text ++ ['.', '0']

/-- Scientific text without needless digits and with an exponent of at least two digits. -/
def compactScientific (d : Decimal) : List Char :=
  let mark : List Char := Decimal.exponentMark 2 d.scientificExponent
  match Decimal.digits d.coefficient with
  | [] => mark
  | lead :: more => Decimal.withFraction [lead] more ++ mark

/-- The text of a positive decimal number: positional for leading exponents from -4 to 15. -/
def decimalText (d : Decimal) : List Char :=
  if -4 ≤ d.scientificExponent && d.scientificExponent < 16 then pointed d
  else compactScientific d

/-- The shortest text that reads back as the double, with the given texts for the specials. -/
def textWith (specials : SpecialTexts) (x : Float) : List Char :=
  match content x with
  | .nan => specials.nan
  | .infinite negative => signedText negative specials.infinity
  | .finite negative 0 _ => signedText negative ['0', '.', '0']
  | .finite negative mantissa exponent =>
    signedText negative (decimalText (shortest mantissa exponent))

/-- The shortest text that reads back as the double. -/
def text (x : Float) : List Char :=
  textWith plainSpecials x

end Reckoner.Double
