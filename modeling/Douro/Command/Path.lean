/-!
# Paths

A path is a root and the names of the steps from it. Steps to the same place (`.`) and doubled or
final slashes do not count; steps upwards (`..`) do.

* `Path.ofText`, `Path.text`: reading and showing a path.
* `Path.addSuffix`: the path of a file beside another one.
-/

namespace Douro

/-- A path of files. -/
structure Path where
  /-- Empty for a path from the current directory. -/
  root : String
  steps : List String
deriving DecidableEq

namespace Path

/-- The root of a path: two slashes count as such, three or more as one. -/
def rootOf : List Char → String
  | '/' :: '/' :: '/' :: _ => "/"
  | '/' :: '/' :: _ => "//"
  | '/' :: _ => "/"
  | _ => ""

/-- Does a step between slashes count? -/
def counts (step : List Char) : Bool := step != [] && step != ['.']

/-- The path that a text names. -/
def ofText (text : String) : Path :=
  ⟨rootOf text.toList, ((text.toList.splitOn '/').filter counts).map String.ofList⟩

/-- The text of a path; the current directory is a point. -/
def text (path : Path) : String :=
  if path.root = "" ∧ path.steps = [] then "."
  else path.root ++ String.intercalate "/" path.steps

/-- The path with `suffix` behind its last name. -/
def addSuffix (path : Path) (suffix : String) : Path :=
  match path.steps.getLast? with
  | some name => { path with steps := path.steps.dropLast ++ [name ++ suffix] }
  | none => path

/-- Does the path lead to a directory wherever it is followed? -/
def isUpward (path : Path) : Bool := path.steps.all (· == "..")

end Path

end Douro
