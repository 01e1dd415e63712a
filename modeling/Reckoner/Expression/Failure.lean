import Reckoner.Expression.Function

/-!
# Failures of an expression

An expression fails because the grammar cannot take it, because a function gets an argument outside its
domain, or because a division has divisor zero. `Failure.message` words each cause and
`Failure.position?` is the place in the trimmed text, where one is known.
-/

namespace Reckoner.Expression

set_option autoImplicit false

/-- What the grammar found wrong at a position. -/
inductive Fault where
  /-- A complete expression is followed by this character. -/
  | unexpected (c : Char)
  | unclosedGroup
  | unclosedCall (f : Function)
  /-- A function name without an opening parenthesis behind it. -/
  | unopenedCall (f : Function)
  | missingNumber
  /-- Digits and points that are no number. -/
  | invalidNumber (token : List Char)
  /-- An opening parenthesis beyond the nesting limit. -/
  | tooDeep
  deriving DecidableEq, Repr

inductive Failure where
  | malformed (fault : Fault) (position : Nat)
  | outsideDomain (gap : DomainGap)
  | divisionByZero (position : Nat)
  deriving DecidableEq, Repr

inductive FailureKind where
  | grammar
  | domain
  | arithmetic
  deriving DecidableEq, Repr

def FailureKind.name : FailureKind → String
  | .grammar => "Syntax"
  | .domain => "Domain"
  | .arithmetic => "Arithmetic"

def Fault.message (position : Nat) : Fault → String
  | .unexpected c => "Unexpected character '" ++ c.toString ++ "' at position " ++ position.repr
  | .unclosedGroup => "Missing closing parenthesis at position " ++ position.repr
  | .unclosedCall f => "Missing closing parenthesis for " ++ f.name
  | .unopenedCall f => "Expected ( after " ++ f.name
  | .missingNumber => "Expected number at position " ++ position.repr
  | .invalidNumber token => "Invalid number: " ++ String.ofList token
  | .tooDeep => "Expression is nested too deeply"

namespace Failure

def kind : Failure → FailureKind
  | .malformed _ _ => .grammar
  | .outsideDomain _ => .domain
  | .divisionByZero _ => .arithmetic

def message : Failure → String
  | .malformed fault position => fault.message position
  | .outsideDomain gap => gap.message
  | .divisionByZero _ => "divide by zero"

/-- The place in the trimmed text, where one is known. -/
def position? : Failure → Option Nat
  | .malformed _ position => some position
  | .outsideDomain _ => none
  | .divisionByZero position => some position

end Failure

end Reckoner.Expression
