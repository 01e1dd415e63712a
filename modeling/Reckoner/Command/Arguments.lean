import Reckoner.Number.Literal

/-!
# Command arguments

An argument that starts with a minus sign is an option, unless it is a lone minus sign, a negative number
or holds a blank; behind `--` every argument is a value. Options may be shortened as long as one option
matches, and a value may be attached with an equals sign. `Arguments.read` sorts arguments into options and
the values of the single positional slot; whatever does not fit is refused.
-/

namespace Reckoner.Command

set_option autoImplicit false

inductive Opt where
  | help
  | angleUnit
  | precision
  | noSeparators
  | xMin
  | xMax
  | samples
  deriving DecidableEq, Repr

def Opt.labels : Opt → List String
  | .help => ["-h", "--help"]
  | .angleUnit => ["--angle-unit"]
  | .precision => ["--precision"]
  | .noSeparators => ["--no-separators"]
  | .xMin => ["--x-min"]
  | .xMax => ["--x-max"]
  | .samples => ["--samples"]

def Opt.takesValue : Opt → Bool
  | .help | .noSeparators => false
  | _ => true

/-! ## Kinds of arguments -/

inductive Piece where
  | value (text : String)
  /-- The first `--`. -/
  | separator
  | option (opt : Opt) (attached : Option String)
  deriving DecidableEq, Repr

inductive Stop where
  | usage
  | help
  deriving DecidableEq, Repr

def spellings (opts : List Opt) : List (String × Opt) :=
  opts.flatMap fun opt => opt.labels.map fun label => (label, opt)

/-- Whether a text is a digit of any script. -/
def isAnyDigit (c : Char) : Bool :=
  (Text.decimalDigit? c).isSome

/-- Whether a text is a negative number without exponent; one line feed may follow it. -/
def isNegativeNumber (text : List Char) : Bool :=
  match text with
  | '-' :: body =>
    let number : List Char := if body.getLast? == some '\n' then body.dropLast else body
    match number.dropWhile isAnyDigit with
    | [] => !number.isEmpty
    | '.' :: fraction => !fraction.isEmpty && fraction.all isAnyDigit
    | _ => false
  | _ => false

def splitAttached (text : String) : String × Option String :=
  let cs : List Char := text.toList
  match cs.dropWhile (· != '=') with
  | '=' :: rest => (String.ofList (cs.takeWhile (· != '=')), some (String.ofList rest))
  | _ => (text, none)

/-- The options that an argument may stand for when it is shortened. -/
def candidates (opts : List Opt) (text : String) : List (Opt × Option String) :=
  if "--".toList.isPrefixOf text.toList then
    let (stem, attached) := splitAttached text
    ((spellings opts).filter fun s => stem.toList.isPrefixOf s.1.toList).map fun s =>
      (s.2, attached)
  else
    let cs : List Char := text.toList
    ((spellings opts).filter fun s => s.1.toList == cs.take 2).map fun s =>
      (s.2, some (String.ofList (cs.drop 2)))

def classify (opts : List Opt) (text : String) : Except Stop Piece :=
  if text.toList.head? != some '-' || text.length == 1 then .ok (.value text)
  else
    match (spellings opts).lookup text with
    | some opt => .ok (.option opt none)
    | none =>
      let (stem, attached) := splitAttached text
      match attached.bind fun _ => (spellings opts).lookup stem with
      | some opt => .ok (.option opt attached)
      | none =>
        match candidates opts text with
        | [(opt, attached)] => .ok (.option opt attached)
        | [] =>
          if isNegativeNumber text.toList || text.toList.contains ' ' then .ok (.value text)
          else .error .usage
        | _ => .error .usage

def pieces (opts : List Opt) : List String → Except Stop (List Piece)
  | [] => .ok []
  | text :: rest =>
    if text = "--" then .ok (.separator :: rest.map .value)
    else do
      let piece ← classify opts text
      let more ← pieces opts rest
      return piece :: more

/-! ## Sorting the arguments -/

/-- The arguments of a command: the positional values, if any came, and the options in order. -/
structure Arguments where
  values : Option (List String) := none
  options : List (Opt × String) := []
  deriving DecidableEq, Repr

def Arguments.given (a : Arguments) (opt : Opt) : List String :=
  (a.options.filter fun given => given.1 == opt).map (·.2)

/-- The texts of the values and separators at the front, and what follows them. -/
def takeValues : List Piece → List String × List Piece
  | .value text :: rest => let (texts, more) := takeValues rest; (text :: texts, more)
  | .separator :: rest => let (texts, more) := takeValues rest; ("--" :: texts, more)
  | rest => ([], rest)

/-- The positional values at the front: one or, if `many`, as many as there are. -/
def takePositional (many : Bool) (input : List Piece) : Option (List String × List Piece) :=
  if many then
    let (texts, rest) := takeValues input
    let values : List String := texts.erase "--"
    if values.isEmpty then none else some (values, rest)
  else
    match input with
    | .separator :: .value text :: rest => some ([text], rest)
    | .value text :: .separator :: rest => some ([text], rest)
    | .value text :: rest => some ([text], rest)
    | _ => none

/-- Sorts what is left of the arguments; `budget` is at least their number. -/
def sort (many : Bool) : Nat → Arguments → List Piece → Except Stop Arguments
  | _, a, [] => .ok a
  | 0, _, _ => .error .usage
  | budget + 1, a, .option opt attached :: rest =>
    match opt, attached, rest with
    | .help, none, _ => .error .help
    | .noSeparators, none, _ => sort many budget { a with options := a.options ++ [(opt, "")] } rest
    | .help, some _, _ => .error .usage
    | .noSeparators, some _, _ => .error .usage
    | _, some text, _ => sort many budget { a with options := a.options ++ [(opt, text)] } rest
    | _, none, .value text :: more =>
      sort many budget { a with options := a.options ++ [(opt, text)] } more
    | _, none, _ => .error .usage
  | budget + 1, a, input =>
    match a.values, takePositional many input with
    | none, some (values, rest) => sort many budget { a with values := some values } rest
    | _, _ => .error .usage

def Arguments.read (opts : List Opt) (many : Bool) (texts : List String) :
    Except Stop Arguments := do
  let input ← pieces (.help :: opts) texts
  sort many input.length {} input

end Reckoner.Command
