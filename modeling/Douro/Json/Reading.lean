import Douro.Json.Basic

/-!
# Reading JSON

Blanks are the space, the tab and the two line end characters. A string holds no control character
below the space. The words `NaN`, `Infinity` and `-Infinity` count as numbers. A key that comes
twice keeps its last value.

* `Json.read?`: the value of a whole text.
-/

namespace Douro

namespace Json

/-! ## Blanks, words and numbers -/

/-- A blank between the parts of a value. -/
def isBlank (c : Char) : Bool := c == ' ' || c == '\t' || c == '\n' || c == '\r'

/-- The text behind the blanks. -/
def skipBlanks (cs : List Char) : List Char := cs.dropWhile isBlank

/-- The text behind `word`, if it starts with it. -/
def dropWord? : (word : List Char) → List Char → Option (List Char)
  | [], cs => some cs
  | w :: ws, c :: cs => if w = c then dropWord? ws cs else none
  | _ :: _, [] => none

/-- The digits of a whole number: a single zero, or digits that start with another one. -/
def wholeDigits : List Char → List Char
  | [] => []
  | '0' :: _ => ['0']
  | cs => cs.takeWhile Char.isDigit

/-- The point and digits of a fraction, empty if there is none. -/
def fractionPart : List Char → List Char
  | '.' :: c :: cs => if c.isDigit then '.' :: c :: cs.takeWhile Char.isDigit else []
  | _ => []

/-- The mark, sign and digits of an exponent, empty if there is none. -/
def exponentPart : List Char → List Char
  | mark :: sign :: c :: cs =>
    if mark = 'e' ∨ mark = 'E' then
      if sign = '+' ∨ sign = '-' then
        if c.isDigit then mark :: sign :: c :: cs.takeWhile Char.isDigit else []
      else if sign.isDigit then mark :: sign :: (c :: cs).takeWhile Char.isDigit
      else []
    else []
  | [mark, c] => if (mark = 'e' ∨ mark = 'E') ∧ c.isDigit then [mark, c] else []
  | _ => []

/-- A number without its sign, and the text behind it. -/
def readUnsigned? (negative : Bool) (cs : List Char) : Option (Json × List Char) :=
  let whole := wholeDigits cs
  if whole = [] then none
  else
    let behind := cs.drop whole.length
    let fraction := fractionPart behind
    let exponent := exponentPart (behind.drop fraction.length)
    let rest := behind.drop (fraction.length + exponent.length)
    let sign := if negative then ['-'] else []
    if fraction = [] ∧ exponent = [] then
      let size : Int := Nat.ofDigitChars 10 whole 0
      some (int (if negative then -size else size), rest)
    else some (real (String.ofList (sign ++ whole ++ fraction ++ exponent)), rest)

/-! ## Strings -/

/-- The value of a hexadecimal digit. -/
def hexValue? (c : Char) : Option Nat :=
  if c.isDigit then some (c.toNat - '0'.toNat)
  else if 'a' ≤ c ∧ c ≤ 'f' then some (c.toNat - 'a'.toNat + 10)
  else if 'A' ≤ c ∧ c ≤ 'F' then some (c.toNat - 'A'.toNat + 10)
  else none

/-- The code unit that four hexadecimal digits write. -/
def codeUnit? (a b c d : Char) : Option Nat := do
  return (((← hexValue? a) * 16 + (← hexValue? b)) * 16 + (← hexValue? c)) * 16 + (← hexValue? d)

/-- The character of a one-letter escape. -/
def escapeLetter? (c : Char) : Option Char :=
  if c = '\x22' ∨ c = '\\' ∨ c = '/' then some c
  else if c = 'b' then some '\x08'
  else if c = 'f' then some '\x0c'
  else if c = 'n' then some '\n'
  else if c = 'r' then some '\r'
  else if c = 't' then some '\t'
  else none

/-- The code units of a string whose opening quote has been read, and the text behind the closing
one. An unescaped character counts as one unit, whatever its code point. -/
def readUnits? : List Char → Option (List Nat × List Char)
  | [] => none
  | '\\' :: 'u' :: a :: b :: c :: d :: cs =>
    match codeUnit? a b c d with
    | some unit => (readUnits? cs).map fun r => (unit :: r.1, r.2)
    | none => none
  | '\\' :: c :: cs =>
    match escapeLetter? c with
    | some char => (readUnits? cs).map fun r => (char.toNat :: r.1, r.2)
    | none => none
  | c :: cs =>
    if c = '\x22' then some ([], cs)
    else if c.toNat < 0x20 ∨ c = '\\' then none
    else (readUnits? cs).map fun r => (c.toNat :: r.1, r.2)

/-- The character of a code unit that stands alone. -/
def loneUnit? (unit : Nat) : Option Char :=
  if 0xd800 ≤ unit ∧ unit < 0xe000 then none else some (Char.ofNat unit)

/-- The character of a high and a low surrogate. -/
def pairedUnits? (high low : Nat) : Option Char :=
  if 0xd800 ≤ high ∧ high < 0xdc00 ∧ 0xdc00 ≤ low ∧ low < 0xe000 then
    some (Char.ofNat (0x10000 + (high - 0xd800) * 0x400 + (low - 0xdc00)))
  else none

/-- The characters of code units. A surrogate counts only as a half of a pair. -/
def charsOfUnits? : List Nat → Option (List Char)
  | [] => some []
  | [unit] => (loneUnit? unit).map ([·])
  | high :: low :: units =>
    match pairedUnits? high low with
    | some char => (charsOfUnits? units).map (char :: ·)
    | none =>
      match loneUnit? high with
      | some char => (charsOfUnits? (low :: units)).map (char :: ·)
      | none => none

/-- The string whose opening quote has been read, and the text behind it. -/
def readString? (cs : List Char) : Option (String × List Char) := do
  let (units, rest) ← readUnits? cs
  let chars ← charsOfUnits? units
  return (String.ofList chars, rest)

/-! ## Values -/

mutual

/-- The value at the front of a text, and the text behind it. -/
def readValue? : (fuel : Nat) → List Char → Option (Json × List Char)
  | 0, _ => none
  | _ + 1, [] => none
  | fuel + 1, c :: cs =>
    if c = '\x22' then (readString? cs).map fun r => (string r.1, r.2)
    else if c = '\x7b' then
      match skipBlanks cs with
      | '\x7d' :: rest => some (object [], rest)
      | rest => (readFields? fuel [] rest).map fun r => (object r.1, r.2)
    else if c = '[' then
      match skipBlanks cs with
      | ']' :: rest => some (array [], rest)
      | rest => (readItems? fuel rest).map fun r => (array r.1, r.2)
    else if c = '-' then
      match dropWord? ['I', 'n', 'f', 'i', 'n', 'i', 't', 'y'] cs with
      | some rest => some (real "-Infinity", rest)
      | none => readUnsigned? true cs
    else if c.isDigit then readUnsigned? false (c :: cs)
    else if c = 'n' then (dropWord? ['u', 'l', 'l'] cs).map (null, ·)
    else if c = 't' then (dropWord? ['r', 'u', 'e'] cs).map (bool true, ·)
    else if c = 'f' then (dropWord? ['a', 'l', 's', 'e'] cs).map (bool false, ·)
    else if c = 'N' then (dropWord? ['a', 'N'] cs).map (real "NaN", ·)
    else if c = 'I' then
      (dropWord? ['n', 'f', 'i', 'n', 'i', 't', 'y'] cs).map (real "Infinity", ·)
    else none

/-- The items of an array, of which there is at least one, and the text behind the array. -/
def readItems? : (fuel : Nat) → List Char → Option (List Json × List Char)
  | 0, _ => none
  | fuel + 1, cs =>
    match readValue? fuel cs with
    | none => none
    | some (item, rest) =>
      match skipBlanks rest with
      | ']' :: behind => some ([item], behind)
      | ',' :: behind => (readItems? fuel (skipBlanks behind)).map fun r => (item :: r.1, r.2)
      | _ => none

/-- The fields of an object, of which at least one is still to come, put to those that have been
read, and the text behind the object. -/
def readFields? : (fuel : Nat) → (before : List (String × Json)) → List Char →
    Option (List (String × Json) × List Char)
  | 0, _, _ => none
  | fuel + 1, before, cs =>
    match cs with
    | '\x22' :: inside =>
      match readString? inside with
      | none => none
      | some (key, rest) =>
        match skipBlanks rest with
        | ':' :: behind =>
          match readValue? fuel (skipBlanks behind) with
          | none => none
          | some (value, rest) =>
            let fields := putField key value before
            match skipBlanks rest with
            | '\x7d' :: behind => some (fields, behind)
            | ',' :: behind => readFields? fuel fields (skipBlanks behind)
            | _ => none
        | _ => none
    | _ => none

end

/-- How deep the reading functions may call each other for a text: a character opens at most two
levels. -/
def readingFuel (cs : List Char) : Nat := 2 * (cs.length + 1)

/-- The value of a text that holds one value and blanks around it. -/
def read? (source : String) : Option Json :=
  let cs := source.toList
  match readValue? (readingFuel cs) (skipBlanks cs) with
  | some (value, rest) => if skipBlanks rest = [] then some value else none
  | none => none

end Json

end Douro
