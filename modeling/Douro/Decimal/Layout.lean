import Douro.Decimal.Basic

/-!
# The text of a decimal

* `toScientific`: the text that keeps coefficient and exponent apart. An exponent is written when it
  is positive or when more than six zeros would stand before the first digit that counts.
* `toPlain`: the text without an exponent. A zero with a positive exponent is a single `0`.
-/

namespace Douro

namespace Decimal

/-- The sign before a text. -/
def signText (negative : Bool) : List Char := if negative then ['-'] else []

/-- Digits with a point behind the first `place` of them, filled up with zeros on either side. -/
def pointAt (digits : List Char) (place : Int) : List Char :=
  if place ≤ 0 then '0' :: '.' :: List.replicate (-place).toNat '0' ++ digits
  else if digits.length ≤ place then digits ++ List.replicate (place.toNat - digits.length) '0'
  else digits.take place.toNat ++ '.' :: digits.drop place.toNat

/-- An exponent with its mark and its sign. -/
def exponentText (exponent : Int) : List Char :=
  'E' :: (if exponent < 0 then '-' else '+') :: Nat.toDigits 10 exponent.natAbs

/-- The payload of a not-a-number, left out when it is zero. -/
def payloadText (payload : Nat) : List Char := if payload = 0 then [] else digits payload

/-- An infinity or a not-a-number. -/
def wordText (signaling : Bool) (payload : Nat) : List Char :=
  (if signaling then ['s', 'N', 'a', 'N'] else ['N', 'a', 'N']) ++ payloadText payload

/-- The characters of the infinity. -/
def infinityText : List Char := ['I', 'n', 'f', 'i', 'n', 'i', 't', 'y']

/-- Is a finite decimal written without an exponent? -/
def isPlain (coefficient : Nat) (exponent : Int) : Bool :=
  exponent ≤ 0 && -6 ≤ adjusted coefficient exponent

/-- The text with coefficient and exponent apart, as characters. -/
def scientificChars : Decimal → List Char
  | finite negative coefficient exponent =>
    signText negative ++
      if isPlain coefficient exponent then
        pointAt (digits coefficient) (exponent + digitCount coefficient)
      else pointAt (digits coefficient) 1 ++ exponentText (adjusted coefficient exponent)
  | infinity negative => signText negative ++ infinityText
  | nan negative signaling payload => signText negative ++ wordText signaling payload

/-- The text without an exponent, as characters. -/
def plainChars : Decimal → List Char
  | finite negative coefficient exponent =>
    signText negative ++
      if coefficient = 0 ∧ 0 < exponent then ['0']
      else pointAt (digits coefficient) (exponent + digitCount coefficient)
  | infinity negative => signText negative ++ infinityText
  | nan negative signaling payload => signText negative ++ wordText signaling payload

/-- The text with coefficient and exponent apart. -/
def toScientific (decimal : Decimal) : String := String.ofList (scientificChars decimal)

/-- The text without an exponent. -/
def toPlain (decimal : Decimal) : String := String.ofList (plainChars decimal)

end Decimal

end Douro
