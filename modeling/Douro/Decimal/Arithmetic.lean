import Douro.Decimal.Rounding

/-!
# Arithmetic

Each operation rounds its exact result once. Infinities and not-a-numbers follow the General
Decimal Arithmetic rules: a quiet not-a-number is handed on, a signaling one is an invalid
operation, and so are the forms that have no limit. A zero divisor has a signal of its own, except
under a zero.

* `add`, `subtract`, `multiply`, `divide`: the four operations.
-/

namespace Douro

namespace Decimal

/-! ## Not-a-numbers -/

/-- A not-a-number as a result: its payload keeps as many digits as a number does. -/
def quiet (negative : Bool) (payload : Nat) : Decimal :=
  nan negative false (payload % powerOfTen precision)

/-- The result when an operand is a not-a-number; the first operand goes before the second. -/
def nanResult? : Decimal → Decimal → Option (Except Signal Decimal)
  | nan _ true _, _ => some (.error .invalidOperation)
  | _, nan _ true _ => some (.error .invalidOperation)
  | nan negative false payload, _ => some (.ok (quiet negative payload))
  | _, nan negative false payload => some (.ok (quiet negative payload))
  | _, _ => none

/-! ## Sums -/

/-- A coefficient with its sign. -/
def signed (negative : Bool) (coefficient : Nat) : Int :=
  if negative then -(coefficient : Int) else coefficient

/-- The exponent under which an addend beside `coefficient · 10 ^ exponent` can no longer change a
digit of the sum, except by being there at all. -/
def sumGuard (coefficient : Nat) (exponent : Int) : Int :=
  exponent - 1 +
    if precision < digitCount coefficient then 0 else (digitCount coefficient : Int) - precision - 1

/-- The addend of the smaller exponent, as near as the other one needs it: an addend that lies
wholly under the guard of a nonzero one is replaced by a unit at the guard, or by a zero there. -/
def nearAddend (coefficient : Nat) (exponent : Int) (coefficient' : Nat) (exponent' : Int) :
    Nat × Int :=
  if coefficient ≠ 0 ∧ adjusted coefficient' exponent' < sumGuard coefficient exponent then
    (min coefficient' 1, sumGuard coefficient exponent)
  else (coefficient', exponent')

/-- A coefficient written `count` digits longer; zero needs no power. -/
def extend (coefficient count : Nat) : Nat :=
  if coefficient = 0 then 0 else coefficient * powerOfTen count

/-- The sum of signed coefficients of one exponent. A sum that cancels is negative only if both
addends are. -/
def addAligned (negative : Bool) (coefficient : Nat) (negative' : Bool) (coefficient' : Nat)
    (exponent : Int) : Except Signal Decimal :=
  let sum := signed negative coefficient + signed negative' coefficient'
  round (if sum = 0 then negative && negative' else sum < 0) sum.natAbs exponent

/-- The sum of two finite decimals of which the first has the greater exponent, or the same. -/
def addOrdered (negative : Bool) (coefficient : Nat) (exponent : Int)
    (negative' : Bool) (coefficient' : Nat) (exponent' : Int) : Except Signal Decimal :=
  let (near, last) := nearAddend coefficient exponent coefficient' exponent'
  addAligned negative (extend coefficient (exponent - last).toNat) negative' near last

/-- The sum. -/
def add (a b : Decimal) : Except Signal Decimal :=
  match nanResult? a b with
  | some result => result
  | none =>
    match a, b with
    | finite negative coefficient exponent, finite negative' coefficient' exponent' =>
      if exponent = exponent' then addAligned negative coefficient negative' coefficient' exponent
      else if exponent' < exponent then
        addOrdered negative coefficient exponent negative' coefficient' exponent'
      else addOrdered negative' coefficient' exponent' negative coefficient exponent
    | infinity negative, infinity negative' =>
      if negative = negative' then .ok (infinity negative) else .error .invalidOperation
    | infinity negative, _ => .ok (infinity negative)
    | _, other => .ok other

/-- The difference. A not-a-number is handed on as it is, with its own sign. -/
def subtract (a b : Decimal) : Except Signal Decimal :=
  match nanResult? a b with
  | some result => result
  | none => add a b.negate

/-! ## Products and quotients -/

/-- The product. -/
def multiply (a b : Decimal) : Except Signal Decimal :=
  match nanResult? a b with
  | some result => result
  | none =>
    match a, b with
    | finite negative coefficient exponent, finite negative' coefficient' exponent' =>
      round (negative != negative') (coefficient * coefficient') (exponent + exponent')
    | infinity negative, infinity negative' => .ok (infinity (negative != negative'))
    | infinity negative, finite negative' coefficient _
    | finite negative coefficient _, infinity negative' =>
      if coefficient = 0 then .error .invalidOperation else .ok (infinity (negative != negative'))
    | other, _ => .ok other

/-- Take off up to `count` zeros from the end of a coefficient. -/
def stripZeros : (count : Nat) → (coefficient : Nat) → (exponent : Int) → Nat × Int
  | 0, coefficient, exponent => (coefficient, exponent)
  | count + 1, coefficient, exponent =>
    if coefficient % 10 = 0 then stripZeros count (coefficient / 10) (exponent + 1)
    else (coefficient, exponent)

/-- The quotient of two finite decimals whose coefficients are not zero, with one or two digits
more than a result keeps. If the division goes on, the last digit is made neither `0` nor `5`, so
that rounding sees that something follows it. If it ends, the quotient takes the exponent nearest
to `exponent - exponent'`. -/
def quotient (coefficient : Nat) (exponent : Int) (coefficient' : Nat) (exponent' : Int) :
    Nat × Int :=
  let shift : Int := digitCount coefficient' - digitCount coefficient + precision + 1
  let dividend := coefficient * powerOfTen shift.toNat
  let divisor := coefficient' * powerOfTen (-shift).toNat
  let whole := dividend / divisor
  let ideal := exponent - exponent'
  if dividend % divisor ≠ 0 then (if whole % 5 = 0 then whole + 1 else whole, ideal - shift)
  else stripZeros shift.toNat whole (ideal - shift)

/-- The quotient. Of the finite decimals, only a zero divided by a zero is an invalid operation; an
infinity has a quotient by every finite decimal. -/
def divide (a b : Decimal) : Except Signal Decimal :=
  match nanResult? a b with
  | some result => result
  | none =>
    match a, b with
    | finite negative coefficient exponent, finite negative' coefficient' exponent' =>
      if coefficient' = 0 then
        .error (if coefficient = 0 then .invalidOperation else .divisionByZero)
      else if coefficient = 0 then round (negative != negative') 0 (exponent - exponent')
      else
        let (whole, last) := quotient coefficient exponent coefficient' exponent'
        round (negative != negative') whole last
    | infinity _, infinity _ => .error .invalidOperation
    | infinity negative, finite negative' _ _ => .ok (infinity (negative != negative'))
    | finite negative _ _, infinity negative' => .ok (finite (negative != negative') 0 minExponent)
    | other, _ => .ok other

end Decimal

end Douro
