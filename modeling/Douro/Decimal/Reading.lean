import Douro.Decimal.Basic
import Douro.Text.Blank
import Douro.Text.Digit

/-!
# Reading a decimal

Blanks at the ends and underscores anywhere do not count, and the digits of every script do. What
is left is a sign, and then digits with an optional point and an optional exponent, or the word
`inf`, `infinity`, `nan` or `snan`, in any case, a payload behind the last two. A decimal is read
exactly, whatever its length; only exponents of about 18 digits are refused.

* `Decimal.read`: the decimal of a text.
-/

namespace Douro

namespace Decimal

/-- Why a text is not read. -/
inductive ReadError where
  /-- It is not a decimal. -/
  | malformed
  /-- Its exponent is too great or too small. -/
  | outsideLimits
deriving DecidableEq

/-! ## The characters that count -/

/-- The characters of a text that count, its digits in ASCII. -/
def significant (text : String) : List Char :=
  ((Text.trimBlanks text.toList).filter (· != '_')).map Text.toAsciiDigit

/-- A sign at the front, and what stands behind it. -/
def splitSign : List Char → Bool × List Char
  | '-' :: cs => (true, cs)
  | '+' :: cs => (false, cs)
  | cs => (false, cs)

/-! ## Numbers -/

/-- The exponent behind the digits of a number; zero if nothing stands there. -/
def readExponent? : List Char → Option Int
  | [] => some 0
  | mark :: cs =>
    if mark = 'e' ∨ mark = 'E' then
      let (negative, ds) := splitSign cs
      if ds ≠ [] ∧ ds.all Char.isDigit then
        let size : Int := Nat.ofDigitChars 10 ds 0
        some (if negative then -size else size)
      else none
    else none

/-- The digits behind a point at the front, and what stands behind them. -/
def splitFraction : List Char → List Char × List Char
  | '.' :: cs => (cs.takeWhile Char.isDigit, cs.dropWhile Char.isDigit)
  | cs => ([], cs)

/-- The coefficient and exponent of an unsigned number. -/
def readNumber? (cs : List Char) : Option (Nat × Int) :=
  let whole := cs.takeWhile Char.isDigit
  let (fraction, rest) := splitFraction (cs.dropWhile Char.isDigit)
  if whole = [] ∧ fraction = [] then none
  else
    (readExponent? rest).map fun exponent =>
      (Nat.ofDigitChars 10 (whole ++ fraction) 0, exponent - fraction.length)

/-! ## Limits -/

/-- The greatest exponent of a leading digit in a text. -/
def maxRead : Int := 999999999999999999

/-- The least exponent of a last digit in a text. -/
def minRead : Int := -1999999999999999997

/-- Is a number within the limits of reading? -/
def withinLimits (coefficient : Nat) (exponent : Int) : Bool :=
  minRead ≤ exponent &&
    (if coefficient = 0 then exponent else adjusted coefficient exponent) ≤ maxRead

/-! ## Words -/

/-- The payload of a not-a-number: no digits, or only digits. -/
def readPayload? (cs : List Char) : Option Nat :=
  if cs.all Char.isDigit then some (Nat.ofDigitChars 10 cs 0) else none

/-- The infinity or not-a-number that a word names. -/
def readWord? (negative : Bool) (cs : List Char) : Option Decimal :=
  match cs.map Char.toLower with
  | ['i', 'n', 'f'] => some (infinity negative)
  | ['i', 'n', 'f', 'i', 'n', 'i', 't', 'y'] => some (infinity negative)
  | 'n' :: 'a' :: 'n' :: payload => (readPayload? payload).map (nan negative false)
  | 's' :: 'n' :: 'a' :: 'n' :: payload => (readPayload? payload).map (nan negative true)
  | _ => none

/-- The decimal of a text. -/
def read (text : String) : Except ReadError Decimal :=
  let (negative, cs) := splitSign (significant text)
  match readNumber? cs with
  | some (coefficient, exponent) =>
    if withinLimits coefficient exponent then .ok (finite negative coefficient exponent)
    else .error .outsideLimits
  | none =>
    match readWord? negative cs with
    | some decimal => .ok decimal
    | none => .error .malformed

end Decimal

end Douro
