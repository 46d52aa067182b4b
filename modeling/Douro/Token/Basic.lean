import Douro.Position
import Douro.Text.Quoted

/-!
# Tokens

A token is a piece of source with its kind and with the position of its first character.

* `Token.inWords`: how a message names a token.
-/

namespace Douro

/-- The kinds of token. -/
inductive TokenKind where
  | number
  | identifier
  | keyword
  | operator
  | punctuation
  | newline
deriving DecidableEq

namespace TokenKind

/-- The name of a kind in messages. -/
def name : TokenKind → String
  | number => "NUMBER"
  | identifier => "IDENT"
  | keyword => "KEYWORD"
  | operator => "OPERATOR"
  | punctuation => "PUNCT"
  | newline => "NEWLINE"

/-- All kinds. -/
def all : List TokenKind := [number, identifier, keyword, operator, punctuation, newline]

/-- The kind of a given name. -/
def ofName? (text : String) : Option TokenKind := all.find? fun kind => kind.name == text

/-- Are tokens of this kind told apart by their text? -/
def isFixed : TokenKind → Bool
  | keyword | operator | punctuation => true
  | number | identifier | newline => false

end TokenKind

/-- A piece of source. -/
structure Token where
  kind : TokenKind
  text : String
  line : Int
  column : Int
deriving DecidableEq

namespace Token

/-- Where the token starts. -/
def position (token : Token) : Position := ⟨some token.line, some token.column⟩

/-- Does the token answer to `word`? Every token answers to the name of its kind; a keyword, an
operator and a punctuation mark answer to their text too. -/
def answers (token : Token) (word : String) : Bool :=
  token.kind.name == word || (token.kind.isFixed && token.text == word)

/-- How a message names the token. -/
def inWords (token : Token) : String :=
  if token.kind = .newline then "end of line"
  else token.kind.name ++ " " ++ Text.quoted token.text

end Token

end Douro
