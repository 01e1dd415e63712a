import Reckoner.Command.Arguments
import Reckoner.Curve
import Reckoner.Json.Writer
import Reckoner.Report
import Reckoner.Session

/-!
# Commands

Five commands: `eval` evaluates an expression, `format` formats a number, `plot` samples a curve, `bases`
writes a value in four bases and `keys` replays keys of the pad. A command prints one document. Arguments
that cannot be used end with code 2, a failure of the expression is printed and ends with code 1.
-/

namespace Reckoner.Command

set_option autoImplicit false

inductive Name where
  | eval
  | format
  | plot
  | bases
  | keys
  deriving DecidableEq, Repr

def Name.all : List (String × Name) :=
  [("eval", .eval), ("format", .format), ("plot", .plot), ("bases", .bases), ("keys", .keys)]

def Name.options : Name → List Opt
  | .plot => [.xMin, .xMax, .samples, .angleUnit, .precision, .noSeparators]
  | _ => [.angleUnit, .precision, .noSeparators]

/-- A command with all its values read. -/
inductive Invocation where
  | eval (s : Settings) (expression : String)
  | format (s : Settings) (value : Float)
  | plot (s : Settings) (expression : String) (xMin xMax : Float) (samples : Int)
  | bases (s : Settings) (expression : String)
  | keys (s : Settings) (labels : List String)
  deriving DecidableEq, Repr

structure Ending where
  code : Nat
  output : String
  message : Option String := none
  deriving DecidableEq, Repr

/-! ## Reading the values -/

def readValue {α : Type} (read : List Char → Option α) (text : String) : Except Stop α :=
  match read text.toList with
  | some value => .ok value
  | none => .error .usage

/--
The value of an option: the last one given, or a default. The values before the last must be readable, too.
-/
def readOption {α : Type} (a : Arguments) (opt : Opt) (default : α) (read : List Char → Option α) :
    Except Stop α :=
  (a.given opt).foldlM (fun _ text => readValue read text) default

/-- Reads a unit by its exact name. -/
def unit? (text : List Char) : Option AngleUnit :=
  if text == "deg".toList then some .degrees
  else if text == "rad".toList then some .radians
  else none

def settingsOf (a : Arguments) : Except Stop Settings := do
  let angleUnit ← readOption a .angleUnit .degrees unit?
  let precision ← readOption a .precision 8 Literal.int?
  return { angleUnit, precision, thousandsSeparator := (a.given .noSeparators).isEmpty }

def defaultSamples : Int := 41

/-- Reads the values of a command; at least one value must be given. -/
def invocation (name : Name) (a : Arguments) : Except Stop Invocation := do
  let s ← settingsOf a
  match name, a.values.getD [] with
  | _, [] => throw .usage
  | .keys, labels => return .keys s labels
  | .eval, text :: _ => return .eval s text
  | .bases, text :: _ => return .bases s text
  | .format, text :: _ =>
    match Literal.float? text.toList with
    | some x => return .format s x
    | none => throw .usage
  | .plot, text :: _ =>
    let xMin ← readOption a .xMin Curve.defaultMin Literal.float?
    let xMax ← readOption a .xMax Curve.defaultMax Literal.float?
    let samples ← readOption a .samples defaultSamples Literal.int?
    return .plot s text xMin xMax samples

def parse (arguments : List String) : Except Stop Invocation :=
  match arguments with
  | [] => .error .usage
  | first :: rest =>
    match Name.all.lookup first with
    | some name => do
      let a ← Arguments.read name.options (name == .keys) rest
      invocation name a
    | none =>
      match pieces [.help] [first] with
      | .ok [.option .help none] => .error .help
      | _ => .error .usage

/-! ## Running -/

def printed (fields : Json.Fields) : String :=
  Json.writeIndented (.object fields) ++ "\n"

def failed (f : Expression.Failure) : Ending :=
  ⟨1, printed [("error", Report.failure f)], none⟩

def pointValue (p : CurvePoint) : Json.Value :=
  .list [.float p.x, .ofFloat? p.y]

def snapshotFields (v : Session.Snapshot) : Json.Fields :=
  [("expression", .text v.expression),
    ("display", .text v.display),
    ("value", .ofFloat? v.value),
    ("error", (v.failure.map Report.failure).getD .null),
    ("memory", .ofText? v.memory)]

def runEval (s : Settings) (expression : String) : Ending :=
  match Expression.evaluate s expression with
  | .error f => failed f
  | .ok x =>
    ⟨0, printed [("expression", .text expression), ("result", .finiteOrNull x),
      ("formatted", .text (Display.format s x))], none⟩

def runPlot (s : Settings) (expression : String) (xMin xMax : Float) (samples : Int) : Ending :=
  match Curve.request s expression.toList xMin xMax samples with
  | .error fault => ⟨1, "", some fault.message⟩
  | .ok curve =>
    let points : List CurvePoint := curve.points
    ⟨0, printed [("expression", .text expression), ("samples", .int points.length),
      ("segments", .int (Curve.countSegments points)), ("series", .list (points.map pointValue))],
      none⟩

def runBases (s : Settings) (expression : String) : Ending :=
  match Expression.evaluate s expression with
  | .error f => failed f
  | .ok x =>
    ⟨0, printed [("value", .finiteOrNull x), ("bases", Report.bases? (Radix.bases? x))], none⟩

def Invocation.run : Invocation → Ending
  | .eval s expression => runEval s expression
  | .format s x => ⟨0, printed [("formatted", .text (Display.format s x))], none⟩
  | .plot s expression xMin xMax samples => runPlot s expression xMin xMax samples
  | .bases s expression => runBases s expression
  | .keys s labels =>
    ⟨0, printed (snapshotFields ((Session.start s).pressAll labels).snapshot), none⟩

def run (arguments : List String) : Ending :=
  match parse arguments with
  | .ok command => command.run
  | .error .usage => ⟨2, "", none⟩
  | .error .help => ⟨0, "", none⟩

end Reckoner.Command
