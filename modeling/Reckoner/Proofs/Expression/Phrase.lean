import Reckoner.Expression.Evaluate

/-!
# Phrases of the grammar

The grammar as a family of types, apart from any reader:

    sum      := product (("+" | "-") product)*
    product  := power (("*" | "/" | "%") power)*
    power    := signed ("^" signed)?
    signed   := "-" atom | "+" atom | atom
    atom     := "(" sum ")" | function "(" sum ")" | "pi" | "e" | numeral | variable

`Phrase V l` holds the derivations of the level `l`; a chain of operators grows at its right end, so that
operators of one rank group to the left. The type `V` holds the variables: none in an expression, one in the
template of a curve. A phrase has a text, a depth of nesting, and a tree for every place where it may stand.
-/

namespace Reckoner.Expression

set_option autoImplicit false

/-! ## Levels -/

/-- The two kinds of chains of operators. -/
inductive Rank where
  | sum
  | product
  deriving DecidableEq, Repr

inductive Level where
  | chain (rank : Rank)
  | power
  | signed
  | atom
  deriving DecidableEq, Repr

/-- The level between the operators of a chain. -/
def Rank.operand : Rank → Level
  | .sum => .chain .product
  | .product => .power

def Rank.operator? : Rank → List Char → Option Operator
  | .sum => sumOperator?
  | .product => productOperator?

namespace Operator

def rank : Operator → Rank
  | .plus => .sum
  | .minus => .sum
  | .times => .product
  | .over => .product
  | .percent => .product

def symbol : Operator → Char
  | .plus => '+'
  | .minus => '-'
  | .times => '*'
  | .over => '/'
  | .percent => '%'

end Operator

/-! ## Words of the grammar -/

/-- A run of digits and points with at least one digit and at most one point. -/
@[ext] structure Numeral where
  text : List Char
  all_numeral : ∀ c ∈ text, isNumeral c = true
  some_digit : ∃ c ∈ text, Literal.isDigit c = true
  one_point : text.count '.' ≤ 1

def Numeral.places (n : Numeral) : Nat :=
  (n.text.dropWhile Literal.isDigit).length - 1

/-- The double nearest to a numeral: its digits as an integer, scaled by the places behind the point. -/
def Numeral.value (n : Numeral) : Float :=
  Double.ofDecimal false (Literal.natOfDigits (n.text.filter Literal.isDigit)) (-(n.places : Int))

/-- A spelling of a function's name in capitals and small letters. -/
@[ext] structure Spelling (f : Function) where
  text : List Char
  spells : Text.lower text = f.name.toList

def Constant.word : Constant → List Char
  | .pi => ['p', 'i']
  | .e => ['e']

/-! ## Phrases -/

/-- The derivations of a level of the grammar with variables in `V`. -/
inductive Phrase (V : Type) : Level → Type where
  | single {rank : Rank} (operand : Phrase V rank.operand) : Phrase V (.chain rank)
  | extend {rank : Rank} (left : Phrase V (.chain rank)) (op : Operator)
      (belongs : op.rank = rank) (right : Phrase V rank.operand) : Phrase V (.chain rank)
  | base (base : Phrase V .signed) : Phrase V .power
  | raise (base exponent : Phrase V .signed) : Phrase V .power
  | bare (operand : Phrase V .atom) : Phrase V .signed
  | plus (operand : Phrase V .atom) : Phrase V .signed
  | minus (operand : Phrase V .atom) : Phrase V .signed
  | group (inner : Phrase V (.chain .sum)) : Phrase V .atom
  | call (f : Function) (name : Spelling f) (argument : Phrase V (.chain .sum)) : Phrase V .atom
  | constant (c : Constant) : Phrase V .atom
  | number (n : Numeral) : Phrase V .atom
  | unknown (v : V) : Phrase V .atom

abbrev Sentence : Type := Phrase Empty (.chain .sum)

namespace Phrase

variable {V : Type}

/-- The text of a phrase; every variable is written `x`. -/
def text : {l : Level} → Phrase V l → List Char
  | _, .single operand => operand.text
  | _, .extend left op _ right => left.text ++ op.symbol :: right.text
  | _, .base b => b.text
  | _, .raise b exponent => b.text ++ '^' :: exponent.text
  | _, .bare operand => operand.text
  | _, .plus operand => '+' :: operand.text
  | _, .minus operand => '-' :: operand.text
  | _, .group inner => '(' :: inner.text ++ [')']
  | _, .call _ name argument => name.text ++ '(' :: argument.text ++ [')']
  | _, .constant c => c.word
  | _, .number n => n.text
  | _, .unknown _ => ['x']

theorem text_ne_nil : {l : Level} → (p : Phrase V l) → p.text ≠ []
  | _, .single operand => operand.text_ne_nil
  | _, .extend left _ _ _ => by simp [text, left.text_ne_nil]
  | _, .base b => b.text_ne_nil
  | _, .raise b _ => by simp [text, b.text_ne_nil]
  | _, .bare operand => operand.text_ne_nil
  | _, .plus _ => by simp [text]
  | _, .minus _ => by simp [text]
  | _, .group _ => by simp [text]
  | _, .call _ _ _ => by simp [text]
  | _, .constant c => by cases c <;> simp [text, Constant.word]
  | _, .number n => by
    obtain ⟨c, hc, -⟩ := n.some_digit
    exact List.ne_nil_of_mem hc
  | _, .unknown _ => by simp [text]

/-- The most parentheses open at once; a variable counts as one. -/
def nesting : {l : Level} → Phrase V l → Nat
  | _, .single operand => operand.nesting
  | _, .extend left _ _ right => max left.nesting right.nesting
  | _, .base b => b.nesting
  | _, .raise b exponent => max b.nesting exponent.nesting
  | _, .bare operand => operand.nesting
  | _, .plus operand => operand.nesting
  | _, .minus operand => operand.nesting
  | _, .group inner => inner.nesting + 1
  | _, .call _ _ argument => argument.nesting + 1
  | _, .constant _ => 0
  | _, .number _ => 0
  | _, .unknown _ => 1

/-- The tree of a phrase that starts at the given position, with the numbers that the variables stand for. -/
def tree (binding : V → Float) : {l : Level} → Phrase V l → Nat → Tree
  | _, .single operand, start => operand.tree binding start
  | _, .extend left op _ right, start =>
    .binary op (start + left.text.length) (left.tree binding start)
      (right.tree binding (start + left.text.length + 1))
  | _, .base b, start => b.tree binding start
  | _, .raise b exponent, start =>
    .power (b.tree binding start) (exponent.tree binding (start + b.text.length + 1))
  | _, .bare operand, start => operand.tree binding start
  | _, .plus operand, start => operand.tree binding (start + 1)
  | _, .minus operand, start => .negate (operand.tree binding (start + 1))
  | _, .group inner, start => inner.tree binding (start + 1)
  | _, .call f name argument, start =>
    .call f (argument.tree binding (start + name.text.length + 1))
  | _, .constant c, _ => .constant c
  | _, .number n, _ => .number n.value
  | _, .unknown v, _ => .number (binding v)

abbrev treeAt {l : Level} (p : Phrase Empty l) (start : Nat) : Tree :=
  p.tree Empty.elim start

/--
The rules that look past the end of a word: no digit follows the constant `e`, and no digit or point follows
a numeral. The phrase stands in front of the given text.
-/
def LooksAhead : {l : Level} → Phrase V l → List Char → Prop
  | _, .single operand, after => operand.LooksAhead after
  | _, .extend left op _ right, after =>
    left.LooksAhead (op.symbol :: right.text ++ after) ∧ right.LooksAhead after
  | _, .base b, after => b.LooksAhead after
  | _, .raise b exponent, after =>
    b.LooksAhead ('^' :: exponent.text ++ after) ∧ exponent.LooksAhead after
  | _, .bare operand, after => operand.LooksAhead after
  | _, .plus operand, after => operand.LooksAhead after
  | _, .minus operand, after => operand.LooksAhead after
  | _, .group inner, after => inner.LooksAhead (')' :: after)
  | _, .call _ _ argument, after => argument.LooksAhead (')' :: after)
  | _, .constant .pi, _ => True
  | _, .constant .e, after => ∀ c ∈ after.head?, Literal.isDigit c = false
  | _, .number _, after => ∀ c ∈ after.head?, isNumeral c = false
  | _, .unknown _, _ => True

/-- Induction along the operators of a chain. -/
@[elab_as_elim]
theorem chainInduction {rank : Rank} {motive : Phrase V (.chain rank) → Prop}
    (single : ∀ operand : Phrase V rank.operand, motive (.single operand))
    (extend : ∀ (left : Phrase V (.chain rank)) (op : Operator) (belongs : op.rank = rank)
      (right : Phrase V rank.operand), motive left → motive (.extend left op belongs right)) :
    ∀ p : Phrase V (.chain rank), motive p
  | .single operand => single operand
  | .extend left op belongs right => extend left op belongs right (chainInduction single extend left)
termination_by p => sizeOf p

end Phrase

end Reckoner.Expression
