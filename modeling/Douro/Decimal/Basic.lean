/-!
# Decimals

A finite decimal is a sign, a coefficient and an exponent: `±coefficient · 10 ^ exponent`. Two
decimals of one value may differ in their exponents, and a zero has a sign. Beside the finite
decimals there are two infinities and the not-a-numbers, quiet or signaling, with a payload.

* `digitCount`: the number of decimal digits of a coefficient; zero has one.
* `adjusted`: the exponent of the leading digit.
-/

namespace Douro

/-- A decimal number, an infinity or a not-a-number. -/
inductive Decimal where
  | finite (negative : Bool) (coefficient : Nat) (exponent : Int)
  | infinity (negative : Bool)
  | nan (negative signaling : Bool) (payload : Nat)
deriving DecidableEq

namespace Decimal

/-- The decimal `0`. -/
def zero : Decimal := finite false 0 0

/-- Is the decimal a zero, of either sign and with any exponent? -/
def isZero : Decimal → Bool
  | finite _ coefficient _ => coefficient == 0
  | _ => false

/-- The decimal with its sign turned. -/
def negate : Decimal → Decimal
  | finite negative coefficient exponent => finite (!negative) coefficient exponent
  | infinity negative => infinity (!negative)
  | nan negative signaling payload => nan (!negative) signaling payload

/-- The decimal digits of a coefficient, the most significant first. -/
def digits (coefficient : Nat) : List Char := Nat.toDigits 10 coefficient

/-- How many decimal digits a coefficient has. -/
def digitCount (coefficient : Nat) : Nat := (digits coefficient).length

/-- The number `10 ^ count`. -/
def powerOfTen (count : Nat) : Nat := Nat.pow 10 count

/-- The exponent of the leading digit of `coefficient · 10 ^ exponent`. -/
def adjusted (coefficient : Nat) (exponent : Int) : Int := exponent + digitCount coefficient - 1

end Decimal

end Douro
