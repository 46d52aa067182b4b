import Douro.Json.Basic
import Douro.Text.Quoted

/-!
# Writing JSON

Characters beyond ASCII are written as themselves; only the quote, the backslash and the control
characters below the space are escaped.

* `Json.write`: the text of a value in a given layout.
-/

namespace Douro

namespace Json

/-- How the parts of an array or object are laid out. -/
structure Layout where
  /-- Does every part stand on a line of its own? -/
  broken : Bool
  /-- Blanks before a part, for each level. -/
  indent : Nat

namespace Layout

/-- Everything on one line, without blanks. -/
def compact : Layout := ⟨false, 0⟩

/-- A part a line, indented by two blanks a level. -/
def indented : Layout := ⟨true, 2⟩

/-- What stands before a part at level `depth`. -/
def lineBreak (layout : Layout) (depth : Nat) : List Char :=
  if layout.broken then '\n' :: List.replicate (layout.indent * depth) ' ' else []

/-- What stands between a key and its value. -/
def colon (layout : Layout) : List Char := if layout.broken then [':', ' '] else [':']

end Layout

/-- How a character is written in a string. -/
def escapedChar (c : Char) : List Char :=
  if c = '\x22' then ['\\', '\x22']
  else if c = '\\' then ['\\', '\\']
  else if c = '\n' then ['\\', 'n']
  else if c = '\r' then ['\\', 'r']
  else if c = '\t' then ['\\', 't']
  else if c = '\x0c' then ['\\', 'f']
  else if c = '\x08' then ['\\', 'b']
  else if c.toNat < 0x20 then '\\' :: 'u' :: Text.hexDigits 4 c.toNat
  else [c]

/-- A string between quotes. -/
def writeString (text : String) : List Char :=
  '\x22' :: text.toList.flatMap escapedChar ++ ['\x22']

mutual

/-- A value that stands at level `depth`. -/
def write (layout : Layout) (depth : Nat) : Json → List Char
  | null => ['n', 'u', 'l', 'l']
  | bool true => ['t', 'r', 'u', 'e']
  | bool false => ['f', 'a', 'l', 's', 'e']
  | int value => (toString value).toList
  | real text => text.toList
  | string value => writeString value
  | array [] => ['[', ']']
  | array (item :: items) =>
    '[' :: layout.lineBreak (depth + 1) ++ write layout (depth + 1) item ++
      writeItems layout (depth + 1) items ++ layout.lineBreak depth ++ [']']
  | object [] => ['\x7b', '\x7d']
  | object ((key, value) :: fields) =>
    '\x7b' :: layout.lineBreak (depth + 1) ++ writeString key ++ layout.colon ++
      write layout (depth + 1) value ++ writeFields layout (depth + 1) fields ++
      layout.lineBreak depth ++ ['\x7d']

/-- The items of an array behind the first. -/
def writeItems (layout : Layout) (depth : Nat) : List Json → List Char
  | [] => []
  | item :: items =>
    ',' :: layout.lineBreak depth ++ write layout depth item ++ writeItems layout depth items

/-- The fields of an object behind the first. -/
def writeFields (layout : Layout) (depth : Nat) : List (String × Json) → List Char
  | [] => []
  | (key, value) :: fields =>
    ',' :: layout.lineBreak depth ++ writeString key ++ layout.colon ++ write layout depth value ++
      writeFields layout depth fields

end

/-- The text of a value. -/
def text (layout : Layout) (value : Json) : String := String.ofList (write layout 0 value)

end Json

end Douro
