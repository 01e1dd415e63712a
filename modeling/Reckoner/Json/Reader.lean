import Reckoner.Json.Value
import Reckoner.Number.Literal

/-!
# Reading documents

`read` accepts JSON together with the number words `NaN`, `Infinity` and `-Infinity`. The last of several
fields of one name counts. A document may nest `nestingLimit` lists and objects; that bound is the only
fuel of the recursion, and going beyond it is an outcome of its own.
-/

namespace Reckoner.Json

set_option autoImplicit false

inductive ReadFault where
  | malformed
  | tooDeep
  deriving DecidableEq, Repr

def nestingLimit : Nat := 975

/-- A value and the text behind it. -/
abbrev Reading := Except ReadFault (Value × List Char)

/-- The four blank characters between tokens. -/
def isSpace (c : Char) : Bool :=
  c == ' ' || c == '\t' || c == '\n' || c == '\r'

def skipSpace (text : List Char) : List Char :=
  text.dropWhile isSpace

/-! ## Texts -/

def hexDigit? (c : Char) : Option Nat :=
  if Literal.isDigit c then some (c.toNat - 48)
  else if 'a' ≤ c && c ≤ 'f' then some (c.toNat - 87)
  else if 'A' ≤ c && c ≤ 'F' then some (c.toNat - 55)
  else none

def hexUnit? (a b c d : Char) : Option Nat :=
  match hexDigit? a, hexDigit? b, hexDigit? c, hexDigit? d with
  | some w, some x, some y, some z => some (4096 * w + 256 * x + 16 * y + z)
  | _, _, _, _ => none

def escaped? : Char → Option Char
  | '"' => some '"'
  | '\\' => some '\\'
  | '/' => some '/'
  | 'b' => some '\x08'
  | 'f' => some '\x0c'
  | 'n' => some '\n'
  | 'r' => some '\r'
  | 't' => some '\t'
  | _ => none

def isHighSurrogate (unit : Nat) : Bool := 0xD800 ≤ unit && unit ≤ 0xDBFF

def isLowSurrogate (unit : Nat) : Bool := 0xDC00 ≤ unit && unit ≤ 0xDFFF

/-- The characters of a text token; an unpaired surrogate is an entry without character. -/
abbrev Units := List (Option Char)

/-- Puts one more character in front of a text that was read behind it. -/
def consUnit (unit : Option Char) (tail : Option (Units × List Char)) : Option (Units × List Char) :=
  tail.map fun (units, rest) => (unit :: units, rest)

/-- Reads a text token behind its opening quote. -/
def readUnits : List Char → Option (Units × List Char)
  | [] => none
  | '"' :: rest => some ([], rest)
  | '\\' :: 'u' :: a :: b :: c :: d :: '\\' :: 'u' :: e :: f :: g :: h :: rest =>
    match hexUnit? a b c d with
    | none => none
    | some unit =>
      match hexUnit? e f g h with
      | none => none
      | some next =>
        if isHighSurrogate unit && isLowSurrogate next then
          consUnit (some (Char.ofNat (0x10000 + (unit - 0xD800) * 1024 + (next - 0xDC00))))
            (readUnits rest)
        else
          consUnit (if isHighSurrogate unit || isLowSurrogate unit then none else some (Char.ofNat unit))
            (readUnits ('\\' :: 'u' :: e :: f :: g :: h :: rest))
  | '\\' :: 'u' :: a :: b :: c :: d :: rest =>
    match hexUnit? a b c d with
    | none => none
    | some unit =>
      consUnit (if isHighSurrogate unit || isLowSurrogate unit then none else some (Char.ofNat unit))
        (readUnits rest)
  | '\\' :: c :: rest =>
    match escaped? c with
    | some plain => consUnit (some plain) (readUnits rest)
    | none => none
  | c :: rest => if c.toNat < 32 then none else consUnit (some c) (readUnits rest)

def textValue (units : Units) : Value :=
  if units.all Option.isSome then .text (String.ofList (units.filterMap id)) else .unpaired

/-- The name of a field; an unpaired surrogate in it becomes the replacement character. -/
def fieldName (units : Units) : String :=
  String.ofList (units.map fun unit => unit.getD '\uFFFD')

/-! ## Numbers -/

/-- Splits the integer digits off a number: a lone zero, or digits that start with none. -/
def takeWhole : List Char → Option (List Char × List Char)
  | '0' :: rest => some (['0'], rest)
  | text =>
    if (text.takeWhile Literal.isDigit).isEmpty then none
    else some (text.takeWhile Literal.isDigit, text.dropWhile Literal.isDigit)

/-- Splits a fraction part off: a point with at least one digit behind it. -/
def takeFraction : List Char → List Char × List Char
  | '.' :: rest =>
    if (rest.takeWhile Literal.isDigit).isEmpty then ([], '.' :: rest)
    else (rest.takeWhile Literal.isDigit, rest.dropWhile Literal.isDigit)
  | text => ([], text)

/-- Splits an exponent off: a mark, an optional sign and at least one digit. -/
def takeExponent (text : List Char) : Option Int × List Char :=
  match text with
  | mark :: rest =>
    let (negative, body) := Literal.takeSign rest
    let ds : List Char := body.takeWhile Literal.isDigit
    if (mark == 'e' || mark == 'E') && !ds.isEmpty then
      (some (Double.signed negative (Literal.natOfDigits ds)), body.dropWhile Literal.isDigit)
    else (none, text)
  | [] => (none, [])

/-- Reads an unsigned number; without fraction part and exponent it is an integer. -/
def readUnsigned (negative : Bool) (text : List Char) : Reading :=
  match takeWhole text with
  | none => .error .malformed
  | some (whole, afterWhole) =>
    let (fraction, afterFraction) := takeFraction afterWhole
    let (exponent, rest) := takeExponent afterFraction
    if fraction.isEmpty && exponent.isNone then
      if whole.length ≤ Literal.maxIntegerDigits then
        .ok (.int (Double.signed negative (Literal.natOfDigits whole)), rest)
      else .error .malformed
    else
      let scale : Int := exponent.getD 0 - (fraction.length : Int)
      .ok (.float (Double.ofDecimal negative (Literal.natOfDigits (whole ++ fraction)) scale), rest)

/-! ## Words -/

def words : List (String × Value) :=
  [("null", .null), ("true", .bool true), ("false", .bool false), ("NaN", .float Double.nan),
    ("Infinity", .float (Double.infinity false)), ("-Infinity", .float (Double.infinity true))]

def readScalar (text : List Char) : Reading :=
  match words.find? fun word => word.1.toList.isPrefixOf text with
  | some (word, value) => .ok (value, text.drop word.length)
  | none =>
    match text with
    | '-' :: rest => readUnsigned true rest
    | _ => readUnsigned false text

/-! ## Lists and objects -/

/-- Reads the items of a list; `budget` is at least the length of the text. -/
def readItems (inner : List Char → Reading) :
    Nat → List Char → Except ReadFault (List Value × List Char)
  | 0, _ => .error .malformed
  | budget + 1, text =>
    match inner text with
    | .error fault => .error fault
    | .ok (item, afterItem) =>
      match skipSpace afterItem with
      | ']' :: rest => .ok ([item], rest)
      | ',' :: rest =>
        match readItems inner budget (skipSpace rest) with
        | .error fault => .error fault
        | .ok (items, afterItems) => .ok (item :: items, afterItems)
      | _ => .error .malformed

def readName : List Char → Option (String × List Char)
  | '"' :: body =>
    match readUnits body with
    | none => none
    | some (units, afterName) =>
      match skipSpace afterName with
      | ':' :: rest => some (fieldName units, skipSpace rest)
      | _ => none
  | _ => none

/-- Reads the fields of an object in front of which `read` fields were read already. -/
def readFields (inner : List Char → Reading) :
    Nat → Fields → List Char → Except ReadFault (Fields × List Char)
  | 0, _, _ => .error .malformed
  | budget + 1, read, text =>
    match readName text with
    | none => .error .malformed
    | some (name, afterName) =>
      match inner afterName with
      | .error fault => .error fault
      | .ok (value, afterValue) =>
        match skipSpace afterValue with
        | '\x7d' :: rest => .ok (read.set name value, rest)
        | ',' :: rest => readFields inner budget (read.set name value) (skipSpace rest)
        | _ => .error .malformed

/-- Reads a value in which at most `levels` lists and objects are open at once. -/
def readValue : Nat → List Char → Reading
  | levels, '"' :: body =>
    match levels, readUnits body with
    | _, some (units, rest) => .ok (textValue units, rest)
    | _, none => .error .malformed
  | 0, '[' :: _ => .error .tooDeep
  | levels + 1, '[' :: body =>
    match skipSpace body with
    | ']' :: rest => .ok (.list [], rest)
    | text =>
      match readItems (readValue levels) text.length text with
      | .ok (items, rest) => .ok (.list items, rest)
      | .error fault => .error fault
  | 0, '\x7b' :: _ => .error .tooDeep
  | levels + 1, '\x7b' :: body =>
    match skipSpace body with
    | '\x7d' :: rest => .ok (.object [], rest)
    | text =>
      match readFields (readValue levels) text.length [] text with
      | .ok (fields, rest) => .ok (.object fields, rest)
      | .error fault => .error fault
  | _, text => readScalar text

def read (text : List Char) : Except ReadFault Value :=
  match readValue nestingLimit (skipSpace text) with
  | .error fault => .error fault
  | .ok (value, rest) => if (skipSpace rest).isEmpty then .ok value else .error .malformed

end Reckoner.Json
