import Reckoner.Expression.Tree

/-!
# Recursive descent over an expression

The grammar, from the loosest to the tightest binding:

    sum      := product (("+" | "-") product)*
    product  := power (("*" | "/" | "%") power)*    "%" only in front of something
    power    := signed ("^" signed)?                a single exponent
    signed   := "-" atom | "+" atom | atom
    atom     := "(" sum ")" | function "(" sum ")" | "pi" | "e" | digits with at most one point

`e` is the constant unless an ASCII digit follows it. Every reader takes a cursor to a value and the cursor
behind it, or halts. `sum` at level `n + 1` uses `sum` at level `n` inside parentheses, so the levels are
the only fuel, and `parse` starts with one level more than parentheses may be open at once.
-/

namespace Reckoner.Expression

set_option autoImplicit false

/-! ## Cursors -/

/-- A place in the text: what follows, how much came before, how many parentheses are open. -/
structure Cursor where
  rest : List Char
  position : Nat
  depth : Nat
  deriving DecidableEq, Repr

namespace Cursor

def start (text : List Char) : Cursor := ⟨text, 0, 0⟩

def skip (c : Cursor) (count : Nat) : Cursor :=
  { c with rest := c.rest.drop count, position := c.position + count }

def opened (c : Cursor) : Cursor :=
  { c.skip 1 with depth := c.depth + 1 }

def closed (c : Cursor) : Cursor :=
  { c.skip 1 with depth := c.depth - 1 }

end Cursor

/-! ## Outcomes -/

inductive Cause where
  | failed (failure : Failure)
  /-- The levels are used up. -/
  | exhausted
  deriving DecidableEq, Repr

/-- A cause and the place where the reader stood. -/
structure Halt where
  cause : Cause
  cursor : Cursor
  deriving DecidableEq, Repr

def Halt.failure (h : Halt) : Failure :=
  match h.cause with
  | .failed failure => failure
  | .exhausted => .malformed .tooDeep h.cursor.position

abbrev Reader (α : Type) := Cursor → Except Halt (α × Cursor)

def refuse {α : Type} (fault : Fault) (c : Cursor) : Except Halt α :=
  .error ⟨.failed (.malformed fault c.position), c⟩

/-- Attaches the place to the failure of a meaning. -/
def settle {α : Type} (c : Cursor) (outcome : Except Failure α) : Except Halt (α × Cursor) :=
  match outcome with
  | .ok value => .ok (value, c)
  | .error failure => .error ⟨.failed failure, c⟩

def nestingLimit : Nat := 64

/-! ## Atoms -/

/-- Steps over an opening parenthesis, unless too many are open. -/
def openParen (c : Cursor) : Except Halt Cursor :=
  if nestingLimit ≤ c.depth then refuse .tooDeep c else .ok c.opened

/-- Steps over the closing parenthesis, which must stand here. -/
def closeParen (fault : Fault) (c : Cursor) : Except Halt Cursor :=
  match c.rest with
  | ')' :: _ => .ok c.closed
  | _ => refuse fault c

def isNumeral (c : Char) : Bool :=
  Literal.isDigit c || c == '.'

section
variable {α : Type} (m : Meaning α)

/-- Reads a number: the longest run of digits and points. -/
def readNumber : Reader α := fun c =>
  let token : List Char := c.rest.takeWhile isNumeral
  if token.isEmpty then refuse .missingNumber c
  else
    let behind : Cursor := c.skip token.length
    match Literal.mantissa? token with
    | some x => .ok (m.number x, behind)
    | none => .error ⟨.failed (.malformed (.invalidNumber token) c.position), behind⟩

def readGroup (inner : Reader α) : Reader α := fun c => do
  let c₁ ← openParen c
  let (value, c₂) ← inner c₁
  let c₃ ← closeParen .unclosedGroup c₂
  return (value, c₃)

def readCall (inner : Reader α) (f : Function) : Reader α := fun c => do
  let c₁ : Cursor := c.skip f.name.toList.length
  match c₁.rest with
  | '(' :: _ =>
    let c₂ ← openParen c₁
    let (argument, c₃) ← inner c₂
    let c₄ ← closeParen (.unclosedCall f) c₃
    settle c₄ (m.call f argument)
  | _ => refuse (.unopenedCall f) c₁

def readOperand : Reader α := fun c =>
  match c.rest with
  | 'p' :: 'i' :: _ => .ok (m.constant .pi, c.skip 2)
  | 'e' :: next :: _ =>
    if Literal.isDigit next then readNumber m c else .ok (m.constant .e, c.skip 1)
  | ['e'] => .ok (m.constant .e, c.skip 1)
  | _ => readNumber m c

def readAtom (inner : Reader α) : Reader α := fun c =>
  match c.rest with
  | '(' :: _ => readGroup inner c
  | _ =>
    match Function.match? c.rest with
    | some f => readCall m inner f c
    | none => readOperand m c

/-! ## Operators -/

def readSigned (inner : Reader α) : Reader α := fun c =>
  match c.rest with
  | '-' :: _ => do
    let (value, c₁) ← readAtom m inner (c.skip 1)
    return (m.negate value, c₁)
  | '+' :: _ => readAtom m inner (c.skip 1)
  | _ => readAtom m inner c

/-- Reads a power with at most one exponent. -/
def readPower (inner : Reader α) : Reader α := fun c => do
  let (base, c₁) ← readSigned m inner c
  match c₁.rest with
  | '^' :: _ =>
    let (exponent, c₂) ← readSigned m inner (c₁.skip 1)
    return (m.power base exponent, c₂)
  | _ => return (base, c₁)

/-- The operator of a product in front of a text; a percent sign at the very end is none. -/
def productOperator? : List Char → Option Operator
  | '*' :: _ => some .times
  | '/' :: _ => some .over
  | '%' :: _ :: _ => some .percent
  | _ => none

def sumOperator? : List Char → Option Operator
  | '+' :: _ => some .plus
  | '-' :: _ => some .minus
  | _ => none

/--
Goes on with operators and operands, folding to the left. Every step takes at least its operator from the
text, so the text itself is enough budget: it loses one character per step.
-/
def readChain (operator? : List Char → Option Operator) (operand : Reader α) :
    List Char → α → Reader α
  | [], left, c => .ok (left, c)
  | _ :: budget, left, c =>
    match operator? c.rest with
    | none => .ok (left, c)
    | some op => do
      let (right, c₁) ← operand (c.skip 1)
      let (value, c₂) ← settle c₁ (m.binary op c.position left right)
      readChain operator? operand budget value c₂

def readProduct (inner : Reader α) : Reader α := fun c => do
  let (first, c₁) ← readPower m inner c
  readChain m productOperator? (readPower m inner) c₁.rest first c₁

/-- Reads a sum whose parentheses are read by `inner`. -/
def readSumOver (inner : Reader α) : Reader α := fun c => do
  let (first, c₁) ← readProduct m inner c
  readChain m sumOperator? (readProduct m inner) c₁.rest first c₁

def readSum : Nat → Reader α
  | 0 => fun c => .error ⟨.exhausted, c⟩
  | levels + 1 => readSumOver m (readSum levels)

/-! ## Whole texts -/

def parseWith (levels : Nat) (text : List Char) : Except Halt (α × Cursor) := do
  let (value, c) ← readSum m levels (.start text)
  match c.rest with
  | [] => return (value, c)
  | next :: _ => refuse (.unexpected next) c

def parse (text : List Char) : Except Halt (α × Cursor) :=
  parseWith m (nestingLimit + 1) text

end

/-- The tree of a text, found without computing anything. -/
def recognize (text : List Char) : Except Halt (Tree × Cursor) :=
  parse trees text

end Reckoner.Expression
