import Reckoner.Expression.Failure
import Reckoner.Expression.Power

/-!
# Expression trees and their meanings

A `Meaning` says what each production of the grammar contributes. `arithmetic` computes with doubles under
given settings, `trees` builds the expression tree. `Tree.fold` gives a tree any meaning, operands before
operators and from left to right; with `arithmetic` this is the value of the tree.
-/

namespace Reckoner.Expression

set_option autoImplicit false

/-- The operators between two operands, powers apart. -/
inductive Operator where
  | plus
  | minus
  | times
  | over
  /-- A percentage: `a % b` is `a * b / 100`. -/
  | percent
  deriving DecidableEq, Repr

inductive Constant where
  | pi
  | e
  deriving DecidableEq, Repr

/-- What the productions of the grammar contribute. -/
structure Meaning (α : Type) where
  number : Float → α
  constant : Constant → α
  negate : α → α
  /-- The operator, its position in the text and the operands. -/
  binary : Operator → Nat → α → α → Except Failure α
  power : α → α → α
  call : Function → α → Except Failure α

/-- A parsed expression; an operator keeps its position in the text. -/
inductive Tree where
  | number (x : Float)
  | constant (c : Constant)
  | negate (operand : Tree)
  | binary (op : Operator) (position : Nat) (left right : Tree)
  | power (base exponent : Tree)
  | call (f : Function) (argument : Tree)
  deriving DecidableEq, Repr

def Constant.value : Constant → Float
  | .pi => Function.pi
  | .e => Function.e

/-- The value of an operator; only a division by zero has none. -/
def Operator.apply (op : Operator) (position : Nat) (left right : Float) : Except Failure Float :=
  match op with
  | .plus => .ok (left + right)
  | .minus => .ok (left - right)
  | .times => .ok (left * right)
  | .over => if right == 0 then .error (.divisionByZero position) else .ok (left / right)
  | .percent => .ok (left * right / 100)

def arithmetic (s : Settings) : Meaning Float where
  number x := x
  constant := Constant.value
  negate x := -x
  binary := Operator.apply
  power := Expression.power
  call f x := (f.apply s x).mapError .outsideDomain

def trees : Meaning Tree where
  number := .number
  constant := .constant
  negate := .negate
  binary op position left right := .ok (.binary op position left right)
  power := .power
  call f argument := .ok (.call f argument)

/-- Gives a tree a meaning, from left to right. -/
def Tree.fold {α : Type} (m : Meaning α) : Tree → Except Failure α
  | .number x => .ok (m.number x)
  | .constant c => .ok (m.constant c)
  | .negate operand => do
    let x ← operand.fold m
    return m.negate x
  | .binary op position left right => do
    let x ← left.fold m
    let y ← right.fold m
    m.binary op position x y
  | .power base exponent => do
    let x ← base.fold m
    let y ← exponent.fold m
    return m.power x y
  | .call f argument => do
    let x ← argument.fold m
    m.call f x

def Tree.value (s : Settings) (t : Tree) : Except Failure Float :=
  t.fold (arithmetic s)

end Reckoner.Expression
