import Reckoner.Display
import Reckoner.Expression.Evaluate
import Reckoner.Memory

/-!
# Keypad sessions

A session is the state of one keypad: the typed expression, the display, the last value, the failure of the
last `=`, the failure of the live preview and the memory register. `press` takes one key. After every key
that edits the expression the preview evaluates it; text that is only half typed fails there quietly and
keeps the display. The percent key divides the value of the expression by a hundred, and the sign key adds
or removes a minus sign in front.
-/

namespace Reckoner

set_option autoImplicit false

inductive MemoryKey where
  | clear
  | retrieve
  | add
  | subtract
  | store
  deriving DecidableEq, Repr

/-- The keys of the pad; a key without a meaning of its own types its label. -/
inductive Key where
  | clear
  | equals
  | memory (key : MemoryKey)
  | backspace
  | sign
  | percent
  | typed (label : String)
  deriving DecidableEq, Repr

def MemoryKey.ofLabel? (label : String) : Option MemoryKey :=
  [("MC", MemoryKey.clear), ("MR", .retrieve), ("M+", .add), ("M-", .subtract), ("MS", .store)].lookup
    label

/-- The keys with a meaning of their own, the memory keys apart. -/
def Key.commands : List (String × Key) :=
  [("AC", .clear), ("C", .clear), ("=", .equals), ("⌫", .backspace), ("±", .sign), ("%", .percent)]

def Key.ofLabel (label : String) : Key :=
  match Key.commands.lookup label with
  | some key => key
  | none =>
    match MemoryKey.ofLabel? label with
    | some key => .memory key
    | none => .typed label

structure Session where
  settings : Settings
  expression : List Char
  display : String
  value : Float
  failure : Option Expression.Failure
  previewFailure : Option Expression.Failure
  memory : Memory
  deriving DecidableEq, Repr

namespace Session

def start (s : Settings) : Session :=
  { settings := s
    expression := []
    display := "0"
    value := 0
    failure := none
    previewFailure := none
    memory := .empty }

/-! ## Evaluating the expression -/

def outcome (s : Session) : Except Expression.Failure Float :=
  Expression.evaluateChars s.settings s.expression

/-- Shows a result and forgets the preview's failure. -/
def showResult (s : Session) (x : Float) : Session :=
  { s with previewFailure := none, value := x, display := Display.format s.settings x }

/-- Forgets all but the settings and the memory. -/
def clear (s : Session) : Session :=
  { start s.settings with memory := s.memory }

def preview (s : Session) : Session :=
  if s.expression.isEmpty then { s with failure := none, previewFailure := none }
  else
    match s.outcome with
    | .ok x => { s with failure := none }.showResult x
    | .error failure => { s with failure := none, previewFailure := some failure }

/-- Evaluates the expression for good: a result empties it, a failure is kept. -/
def commit (s : Session) : Session :=
  if s.expression.isEmpty then s
  else
    match s.outcome with
    | .ok x => { s.showResult x with failure := none, expression := [] }
    | .error failure => { s with failure := some failure }

/-! ## Editing the expression -/

/-- Adds or removes a minus sign in front of the expression. -/
def toggleSign (s : Session) : Session :=
  match s.expression with
  | [] => s
  | '-' :: rest => { s with expression := rest }
  | text => { s with expression := '-' :: text }

/-- Replaces the expression by the hundredth of its value. -/
def applyPercent (s : Session) : Session :=
  if s.expression.isEmpty then s
  else
    match s.outcome with
    | .ok x =>
      if (x / 100).isFinite then { s with expression := Double.positional (x / 100) } else s
    | .error failure => { s with previewFailure := some failure }

/-! ## Memory -/

/-- The number on the display without separators, if it is one. -/
def shown? (s : Session) : Option Float :=
  Literal.float? (s.display.toList.filter (· != ','))

/-- The number for a memory key: the value of the expression, else the number shown, else zero. -/
def memoryOperand (s : Session) : Float :=
  match s.outcome with
  | .error _ => 0
  | .ok x =>
    if Double.isNonzeroNumber x then x
    else
      match s.shown? with
      | some shown => if Double.isNonzeroNumber shown then shown else 0
      | none => 0

/-- Types the number in memory in the place of the expression. -/
def retrieveMemory (s : Session) : Session :=
  match s.memory.stored? with
  | some x => if x.isFinite then { s with expression := Double.positional x } else s
  | none => s

def pressMemory (s : Session) : MemoryKey → Session
  | .clear => { s with memory := .empty }
  | .retrieve => s.retrieveMemory
  | .add => { s with memory := s.memory.add s.memoryOperand }
  | .subtract => { s with memory := s.memory.subtract s.memoryOperand }
  | .store => { s with memory := s.memory.store s.memoryOperand }

/-- Works on the memory register by a label; a label that is no memory key is refused. -/
def pressMemoryLabel (s : Session) (label : String) : Except String Session :=
  match MemoryKey.ofLabel? label with
  | some key => .ok (s.pressMemory key)
  | none => .error ("Unknown memory key: " ++ label)

/-! ## Keys -/

def pressKey (s : Session) : Key → Session
  | .clear => s.clear
  | .equals => s.commit
  | .memory key => s.pressMemory key
  | .backspace => { s with expression := s.expression.dropLast }.preview
  | .sign => s.toggleSign.preview
  | .percent => s.applyPercent.preview
  | .typed label => { s with expression := s.expression ++ label.toList }.preview

def press (s : Session) (label : String) : Session :=
  s.pressKey (.ofLabel label)

def pressAll (s : Session) (labels : List String) : Session :=
  labels.foldl press s

/-! ## Views -/

structure Snapshot where
  expression : String
  display : String
  value : Option Float
  failure : Option Expression.Failure
  memory : Option String
  deriving DecidableEq, Repr

/-- The view of a session; a value that is not finite is left out. -/
def snapshot (s : Session) : Snapshot :=
  { expression := String.ofList s.expression
    display := s.display
    value := Double.finite? s.value
    failure := s.failure
    memory := s.memory.stored?.map (Display.format s.settings) }

def bases? (s : Session) : Option Radix.Bases :=
  Radix.bases? s.value

end Session

end Reckoner
