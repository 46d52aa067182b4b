import Douro.Decimal.Basic

/-!
# Rounding to the working format

Results keep 28 digits. The exponent of the leading digit is at most 999999; the exponent of the
last digit is at least -1000026, which leaves room for numbers with fewer digits below
`10 ^ -999999`. Rounding is to the nearest, and a tie goes to the even neighbour.

* `roundDiv`: a quotient of naturals rounded to a natural.
* `round`: an exact result, rounded once; a result that is too large is an overflow.
-/

namespace Douro

namespace Decimal

/-! ## The working format -/

/-- How many digits a result keeps. -/
def precision : Nat := 28

/-- The greatest exponent of a leading digit. -/
def maxAdjusted : Int := 999999

/-- The least exponent of a leading digit for which a number keeps all its digits. -/
def minAdjusted : Int := -999999

/-- The least exponent of a last digit. -/
def minExponent : Int := minAdjusted - (precision - 1)

/-- Why an operation has no result. -/
inductive Signal where
  | overflow
  | divisionByZero
  | invalidOperation
deriving DecidableEq

namespace Signal

/-- The name of a signal in messages. -/
def name : Signal → String
  | overflow => "Overflow"
  | divisionByZero => "DivisionByZero"
  | invalidOperation => "InvalidOperation"

end Signal

/-! ## Rounding -/

/-- The quotient `n / d` rounded to the nearest natural number, a tie to the even one. -/
def roundDiv (n d : Nat) : Nat :=
  let quotient := n / d
  let rest := n % d
  if 2 * rest < d ∨ 2 * rest = d ∧ quotient % 2 = 0 then quotient else quotient + 1

/-- A coefficient without its last `count` digits, rounded. When there are fewer digits than that,
what is left is below a tenth and rounds to zero. -/
def dropDigits (coefficient count : Nat) : Nat :=
  if digitCount coefficient < count then 0 else roundDiv coefficient (powerOfTen count)

/-- A rounded number, unless its leading digit stands too high. -/
def checkOverflow (negative : Bool) (coefficient : Nat) (exponent : Int) : Except Signal Decimal :=
  if maxAdjusted < adjusted coefficient exponent then .error .overflow
  else .ok (finite negative coefficient exponent)

/-- The exponent of the last digit that `coefficient · 10 ^ exponent` keeps. -/
def lastKept (coefficient : Nat) (exponent : Int) : Int :=
  max (exponent + digitCount coefficient - precision) minExponent

/-- The number `±coefficient · 10 ^ exponent` in the working format. A zero takes the nearest
exponent that the format has. A carry into a 29th digit moves the exponent up by one. -/
def round (negative : Bool) (coefficient : Nat) (exponent : Int) : Except Signal Decimal :=
  if coefficient = 0 then .ok (finite negative 0 (min (max exponent minExponent) maxAdjusted))
  else
    let last := lastKept coefficient exponent
    if last ≤ exponent then checkOverflow negative coefficient exponent
    else
      let rounded := dropDigits coefficient (last - exponent).toNat
      if precision < digitCount rounded then checkOverflow negative (rounded / 10) (last + 1)
      else checkOverflow negative rounded last

end Decimal

end Douro
