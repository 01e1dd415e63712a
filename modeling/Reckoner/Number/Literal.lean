import Reckoner.Number.Double
import Reckoner.Text.Digit

/-!
# Number texts

Three readings of number texts. `mantissa?` reads digits with at most one point, which is all an
expression knows. `plainFloat?` adds a sign, an exponent, infinities and not-a-number in any case.
`float?` and `int?` are the tolerant readings of settings and command arguments: white space around the
number, single underscores between digits and the digits of all scripts are accepted.
-/

namespace Reckoner.Literal

set_option autoImplicit false

-- The powers below are the plain ones, whatever else is imported.
attribute [local instance (high)] instPowNat

def isDigit (c : Char) : Bool :=
  '0' ≤ c && c ≤ '9'

def natOfDigits (text : List Char) : Nat :=
  Nat.ofDigitChars 10 text 0

/-! ## Digits with a point -/

/-- A coefficient and a power of ten: the reading of digits with or without a point. -/
structure Scaled where
  coefficient : Nat
  exponent : Int
  deriving DecidableEq, Repr

/-- The reading of two digit runs on either side of a point; none when both are empty. -/
def scaled? (whole fraction : List Char) : Option Scaled :=
  if whole.isEmpty && fraction.isEmpty then none
  else some ⟨natOfDigits (whole ++ fraction), -(fraction.length : Int)⟩

/-- Splits digits, an optional point and more digits off the front of a text. -/
def takeMantissa (text : List Char) : Option (Scaled × List Char) :=
  let whole : List Char := text.takeWhile isDigit
  match text.dropWhile isDigit with
  | '.' :: rest =>
    (scaled? whole (rest.takeWhile isDigit)).map fun s => (s, rest.dropWhile isDigit)
  | rest => (scaled? whole []).map fun s => (s, rest)

/-- Reads a text that consists of digits with at most one point and at least one digit. -/
def mantissa? (text : List Char) : Option Float :=
  match takeMantissa text with
  | some (s, []) => some (Double.ofDecimal false s.coefficient s.exponent)
  | _ => none

/-! ## Signs and exponents -/

/-- Splits an optional sign off a text; `true` stands for minus. -/
def takeSign : List Char → Bool × List Char
  | '-' :: rest => (true, rest)
  | '+' :: rest => (false, rest)
  | text => (false, text)

/-- Reads a whole text as digits with an optional sign. -/
def signedDigits? (text : List Char) : Option Int :=
  let (negative, ds) := takeSign text
  if !ds.isEmpty && ds.all isDigit then some (Double.signed negative (natOfDigits ds)) else none

/-- Reads the exponent part that may follow a mantissa. -/
def exponent? : List Char → Option Int
  | [] => some 0
  | mark :: rest => if mark == 'e' || mark == 'E' then signedDigits? rest else none

/-- Reads an unsigned number with an optional exponent. -/
def unsigned? (text : List Char) : Option Scaled :=
  match takeMantissa text with
  | some (s, rest) => (exponent? rest).map fun e => ⟨s.coefficient, s.exponent + e⟩
  | none => none

inductive Real where
  | nan
  | infinite (negative : Bool)
  | finite (negative : Bool) (scaled : Scaled)
  deriving DecidableEq, Repr

def Real.toFloat : Real → Float
  | .nan => Double.nan
  | .infinite negative => Double.infinity negative
  | .finite negative s => Double.ofDecimal negative s.coefficient s.exponent

/-- Reads a signed number, an infinity or not-a-number; nothing may surround it. -/
def real? (text : List Char) : Option Real :=
  let (negative, body) := takeSign text
  let word : List Char := Text.lower body
  if word == ['n', 'a', 'n'] then some .nan
  else if word == ['i', 'n', 'f'] || word == ['i', 'n', 'f', 'i', 'n', 'i', 't', 'y'] then
    some (.infinite negative)
  else (unsigned? body).map (.finite negative ·)

def plainFloat? (text : List Char) : Option Float :=
  (real? text).map Real.toFloat

/-! ## Tolerant readings -/

/--
Drops single underscores between digits; none when an underscore stands elsewhere. The flag says
whether the character before was a digit.
-/
def dropUnderscores? : Bool → List Char → Option (List Char)
  | _, [] => some []
  | afterDigit, '_' :: rest =>
    match afterDigit, rest with
    | true, c :: _ => if isDigit c then dropUnderscores? false rest else none
    | _, _ => none
  | _, c :: rest => (dropUnderscores? (isDigit c) rest).map (c :: ·)

def plainForm? (text : List Char) : Option (List Char) :=
  dropUnderscores? false (Text.trimBy Text.isWhiteSpace (Text.foldNumeral text))

def tolerantReal? (text : List Char) : Option Real :=
  (plainForm? text).bind real?

def float? (text : List Char) : Option Float :=
  (tolerantReal? text).map Real.toFloat

/-- The most digits that an integer text may have. -/
def maxIntegerDigits : Nat := 4300

/-- An integer with no more digits than an integer text may have: a longer one is neither read nor written. -/
def Short (n : Int) : Prop :=
  n.natAbs < 10 ^ maxIntegerDigits

instance : DecidablePred Short := fun n => inferInstanceAs (Decidable (n.natAbs < 10 ^ maxIntegerDigits))

/-- The tolerant reading of an integer of at most `maxIntegerDigits` digits. -/
def int? (text : List Char) : Option Int :=
  match plainForm? text with
  | some plain =>
    if (takeSign plain).2.length ≤ maxIntegerDigits then signedDigits? plain else none
  | none => none

end Reckoner.Literal
