/-!
# Positions

Where something stands in a source: a line and a column, counted from one. Either may be unknown,
for a tree need not come from a source.
-/

namespace Douro

/-- A line and a column, each known or not. -/
structure Position where
  line : Option Int
  column : Option Int
deriving DecidableEq

namespace Position

/-- No position at all. -/
def unknown : Position := ⟨none, none⟩

/-- A line or column as text; `None` when it is unknown. -/
def coordinateText : Option Int → String
  | some n => toString n
  | none => "None"

/-- The end of an error text: the position, if at least the line is known. -/
def suffix (position : Position) : String :=
  match position.line with
  | some line => " at " ++ toString line ++ ":" ++ coordinateText position.column
  | none => ""

end Position

end Douro
