import Douro.Text.Digit
import Douro.Text.LineEnd
import Douro.Token.Basic

/-!
# From text to tokens

A source is cut from left to right into lexemes, each the longest that can stand at its place.
Blanks and comments are lexemes without a token. The first character that starts no lexeme ends the
scan with an error.

* `lexeme?`: the lexeme at the front of a text. It takes at least one character, so scanning ends.
* `scanSource`: the tokens of a source.
-/

namespace Douro

/-! ## Places -/

/-- A line and a column of a text, counted from one. -/
structure Place where
  line : Nat
  column : Nat
deriving DecidableEq

namespace Place

/-- Where a text starts. -/
def start : Place := ⟨1, 1⟩

/-- The place behind the character `c`. -/
def next (place : Place) (c : Char) : Place :=
  if c = '\n' then ⟨place.line + 1, 1⟩ else ⟨place.line, place.column + 1⟩

/-- The place behind the characters `cs`. -/
def after (place : Place) (cs : List Char) : Place := cs.foldl next place

/-- The place as a position. -/
def toPosition (place : Place) : Position := ⟨some place.line, some place.column⟩

end Place

/-! ## Lexemes -/

namespace Lexeme

/-- A blank inside a line. -/
def isGap (c : Char) : Bool := c == ' ' || c == '\t'

/-- The first character of a name. -/
def isNameStart (c : Char) : Bool := c.isAlpha || c == '_'

/-- A further character of a name. -/
def isNameRest (c : Char) : Bool := c.isAlphanum || c == '_'

/-- The characters that are operators. -/
def operators : List Char := ['+', '-', '*', '/']

/-- The characters that are punctuation marks. -/
def marks : List Char := ['=', '(', ')', ',', ';']

/-- The names that are keywords. -/
def keywords : List String := ["print", "function"]

/-- The fraction of a number: a point and the digits behind it, if a digit follows the point. -/
def fraction : List Char → List Char
  | '.' :: c :: cs => if Text.isDigit c then '.' :: c :: cs.takeWhile Text.isDigit else []
  | _ => []

/-- The rest of a number whose first digit has been read. -/
def numberRest (cs : List Char) : List Char :=
  cs.takeWhile Text.isDigit ++ fraction (cs.dropWhile Text.isDigit)

/-- The kind of a name. -/
def nameKind (name : List Char) : TokenKind :=
  if keywords.contains (String.ofList name) then .keyword else .identifier

end Lexeme

/-- A piece of text that scanning takes at once: blanks or a comment if it has no kind, otherwise a
token of that kind. A lexeme has a first character, so only those behind it are kept. -/
structure Lexeme where
  kind : Option TokenKind
  more : List Char

open Lexeme in
/-- The longest lexeme that starts with `c` in a text where `cs` stands behind `c`. -/
def lexeme? (c : Char) (cs : List Char) : Option Lexeme :=
  if isGap c then some ⟨none, cs.takeWhile isGap⟩
  else if c = '#' then some ⟨none, cs.takeWhile (· != '\n')⟩
  else if c = '\n' then some ⟨some .newline, []⟩
  else if isNameStart c then
    let more := cs.takeWhile isNameRest
    some ⟨some (nameKind (c :: more)), more⟩
  else if Text.isDigit c then some ⟨some .number, numberRest cs⟩
  else if operators.contains c then some ⟨some .operator, []⟩
  else if marks.contains c then some ⟨some .punctuation, []⟩
  else none

/-! ## Scanning -/

/-- A character that starts no lexeme, and where it stands. -/
structure LexicalError where
  found : Char
  place : Place
deriving DecidableEq

namespace LexicalError

/-- What is wrong. -/
def message (error : LexicalError) : String :=
  "unexpected character " ++ Text.quoted (String.ofList [error.found])

end LexicalError

/-- The token that characters of a given kind make at a place; none without a kind. -/
def Place.token? (place : Place) (kind : Option TokenKind) (chars : List Char) : Option Token :=
  kind.map fun kind => ⟨kind, String.ofList chars, place.line, place.column⟩

/-- The tokens of a text whose line ends are line feeds and which starts at `place`. -/
def scan (place : Place) : List Char → Except LexicalError (List Token)
  | [] => .ok []
  | c :: cs =>
    match lexeme? c cs with
    | none => .error ⟨c, place⟩
    | some ⟨kind, more⟩ => do
      let tokens ← scan (place.after (c :: more)) (cs.drop more.length)
      return (place.token? kind (c :: more)).toList ++ tokens
termination_by cs => cs.length
decreasing_by
  simp only [List.length_drop, List.length_cons]
  omega

/-- The tokens of a source, with any line ends. -/
def scanSource (source : String) : Except LexicalError (List Token) :=
  scan Place.start (Text.normaliseLineEnds source.toList)

end Douro
