/-!
# Line ends

A line ends with a line feed, a carriage return, or a carriage return and a line feed together.

* `unifyLineEnds`: what reading a file does, in one pass from left to right.
* `normaliseLineEnds`: what scanning a source does, first the pairs and then the single returns.
-/

namespace Douro

namespace Text

/-- Every line end becomes one line feed, in one pass. -/
def unifyLineEnds : List Char → List Char
  | [] => []
  | '\r' :: '\n' :: cs => '\n' :: unifyLineEnds cs
  | '\r' :: cs => '\n' :: unifyLineEnds cs
  | c :: cs => c :: unifyLineEnds cs

/-- Every pair of a carriage return and a line feed becomes one line feed. -/
def mergeReturnPairs : List Char → List Char
  | [] => []
  | '\r' :: '\n' :: cs => '\n' :: mergeReturnPairs cs
  | c :: cs => c :: mergeReturnPairs cs

/-- A carriage return becomes a line feed. -/
def returnToFeed (c : Char) : Char := if c = '\r' then '\n' else c

/-- Every line end becomes one line feed: pairs first, then the returns that are left. -/
def normaliseLineEnds (cs : List Char) : List Char := (mergeReturnPairs cs).map returnToFeed

end Text

end Douro
