import Reckoner.Number.Double

/-!
# Whole numbers in several bases

`bases?` truncates a double toward zero and writes the integer in the bases 16, 10, 8 and 2;
`grouped` writes an integer with a comma before every group of three digits.
-/

namespace Reckoner.Radix

set_option autoImplicit false

/-- The digits of a natural number, the letters in capitals. -/
def digits (base n : Nat) : List Char :=
  (Nat.toDigits base n).map Char.toUpper

/-- An integer in a base: a minus sign when negative, then the digits of the magnitude. -/
def text (base : Nat) (n : Int) : List Char :=
  if n < 0 then '-' :: digits base n.natAbs else digits base n.natAbs

structure Bases where
  hex : String
  dec : String
  oct : String
  bin : String
  deriving DecidableEq, Repr

def Bases.ofInt (n : Int) : Bases :=
  { hex := String.ofList (text 16 n)
    dec := String.ofList (text 10 n)
    oct := String.ofList (text 8 n)
    bin := String.ofList (text 2 n) }

/-- The four texts of a double without its fraction part; none unless it is finite. -/
def bases? (x : Float) : Option Bases :=
  (Double.trunc? x).map Bases.ofInt

/-! ## Groups of three digits -/

/-- Puts a comma in front of every character that has a positive multiple of three behind it. -/
def groupDigits : List Char → List Char
  | [] => []
  | [c] => [c]
  | c :: d :: rest =>
    if (rest.length + 1) % 3 = 0 then c :: ',' :: groupDigits (d :: rest)
    else c :: groupDigits (d :: rest)

def grouped (n : Int) : List Char :=
  if n < 0 then '-' :: groupDigits (digits 10 n.natAbs) else groupDigits (digits 10 n.natAbs)

end Reckoner.Radix
