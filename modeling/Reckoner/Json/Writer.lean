import Reckoner.Json.Value
import Reckoner.Number.Shortest

/-!
# Writing documents

`write` puts a document on one line. `writeIndented` puts every item and field on a line of its own, two
blanks deeper than the brackets around it, and sorts the fields of every object by name. Characters
outside ASCII stand for themselves; a double is its shortest text.
-/

namespace Reckoner.Json

set_option autoImplicit false

/-! ## Texts and numbers -/

def hexChar (n : Nat) : Char :=
  Nat.digitChar (n % 16)

def escape (c : Char) : List Char :=
  match c with
  | '"' => ['\\', '"']
  | '\\' => ['\\', '\\']
  | '\n' => ['\\', 'n']
  | '\r' => ['\\', 'r']
  | '\t' => ['\\', 't']
  | '\x08' => ['\\', 'b']
  | '\x0c' => ['\\', 'f']
  | _ =>
    if c.toNat < 32 then ['\\', 'u', '0', '0', hexChar (c.toNat / 16), hexChar c.toNat] else [c]

def quoted (s : String) : List Char :=
  '"' :: s.toList.flatMap escape ++ ['"']

def specialWords : Double.SpecialTexts := ⟨"NaN".toList, "Infinity".toList⟩

/-- A value without items and fields. -/
def writeScalar : Value → List Char
  | .null => "null".toList
  | .bool true => "true".toList
  | .bool false => "false".toList
  | .int n => n.repr.toList
  | .float x => Double.textWith specialWords x
  | .text s => quoted s
  | .unpaired => quoted "\uFFFD"
  | .list _ => "[]".toList
  | .object _ => ['\x7b', '\x7d']

/-! ## Layouts -/

/-- How the items inside brackets are set apart. -/
inductive Layout where
  | line
  /-- Each item on its own line, at this depth of brackets. -/
  | block (depth : Nat)
  deriving DecidableEq, Repr

def Layout.deeper : Layout → Layout
  | .line => .line
  | .block depth => .block (depth + 1)

/-- What stands in front of an item or a closing bracket. -/
def Layout.gap : Layout → List Char
  | .line => []
  | .block depth => '\n' :: List.replicate (2 * depth) ' '

def Layout.sorts : Layout → Bool
  | .line => false
  | .block _ => true

/-- Encloses items in brackets; `inside` is the layout of the items. -/
def enclose (layout : Layout) (opening closing : Char) (items : List (List Char)) : List Char :=
  match items with
  | [] => [opening, closing]
  | _ =>
    opening :: (List.intersperse [','] (items.map (layout.deeper.gap ++ ·))).flatten
      ++ layout.gap ++ [closing]

/-- The fields of an object in the order in which they are written. -/
def arranged (layout : Layout) (fields : List (String × List Char)) : List (String × List Char) :=
  if layout.sorts then fields.mergeSort fun a b => decide (a.1 ≤ b.1) else fields

mutual

def writeIn (layout : Layout) : Value → List Char
  | .list items => enclose layout '[' ']' (writeItems layout.deeper items)
  | .object fields =>
    enclose layout '\x7b' '\x7d'
      ((arranged layout (writeFields layout.deeper fields)).map fun field =>
        quoted field.1 ++ ':' :: ' ' :: field.2)
  | scalar => writeScalar scalar

def writeItems (layout : Layout) : List Value → List (List Char)
  | [] => []
  | item :: rest => writeIn layout item :: writeItems layout rest

def writeFields (layout : Layout) : List (String × Value) → List (String × List Char)
  | [] => []
  | (name, value) :: rest => (name, writeIn layout value) :: writeFields layout rest

end

def write (value : Value) : String :=
  String.ofList (writeIn .line value)

/-- A document with one item or field per line and sorted fields. -/
def writeIndented (value : Value) : String :=
  String.ofList (writeIn (.block 0) value)

end Reckoner.Json
