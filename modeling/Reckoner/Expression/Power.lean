import Reckoner.Number.Double

/-!
# Powers

`power?` is the power of two doubles as far as it is finite or its arguments are not: a finite base and a
finite exponent with no finite power end in a `PowerGap`. `completePower` fills the gaps of such a function: overflow
gives an infinity with the sign of the exact power, a pole an infinity with the sign of the zero for odd exponents,
and a negative base with a fractional exponent gives not-a-number. `power` is `power?` without gaps.
-/

namespace Reckoner.Expression

set_option autoImplicit false

/-- Why two finite numbers have no finite power. -/
inductive PowerGap where
  | overflow
  /-- A pole, or a negative base with a fractional exponent. -/
  | undefined
  deriving DecidableEq, Repr

/-- The power of two doubles, unless finite arguments have no finite power. -/
def power? (base exponent : Float) : Except PowerGap Float :=
  let result : Float := base.pow exponent
  if base.isFinite && exponent.isFinite && !result.isFinite then
    .error (if result.isNaN || base == 0 then .undefined else .overflow)
  else .ok result

/-- The value in the place of a gap. -/
def fillGap (base exponent : Float) : PowerGap → Float
  | .overflow => Double.infinity (base < 0 && Double.isOddInteger exponent)
  | .undefined =>
    if base == 0 && exponent < 0 then
      Double.infinity (Double.isOddInteger exponent && Double.isNegative base)
    else Double.nan

/-- A power function with its gaps filled. -/
def completePower (pow? : Float → Float → Except PowerGap Float) (base exponent : Float) : Float :=
  match pow? base exponent with
  | .ok result => result
  | .error gap => fillGap base exponent gap

def power (base exponent : Float) : Float :=
  completePower power? base exponent

end Reckoner.Expression
