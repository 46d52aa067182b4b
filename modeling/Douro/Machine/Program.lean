import Douro.Machine.Evaluation
import Douro.Tree.Reading

/-!
# Running a whole program

Each run has a budget for the calls that may be under way inside each other, and a level for its
log.

* `runFresh`: a program on a machine of its own, whose log is closed at the end.
* `runSource`: the program of a source.
* `runContent`: the program of a file, whose line ends reading has made alike.
-/

namespace Douro

/-- How a run ends: with a failure or without one, and with the machine it leaves. -/
structure Ending where
  failure? : Option Failure
  machine : Machine

namespace Ending

/-- The ending of a computation. -/
def ofResult {α : Type} : EStateM.Result Failure Machine α → Ending
  | .ok _ machine => ⟨none, machine⟩
  | .error failure machine => ⟨some failure, machine⟩

/-- The ending with its log closed. -/
def close (ending : Ending) : Ending :=
  { ending with machine := { ending.machine with log := ending.machine.log.close } }

end Ending

/-- Run a program on a machine that logs at a given level. -/
def runFresh (budget : Nat) (level : Int) (program : Node) : Ending :=
  (Ending.ofResult (runWithin budget program (Machine.start level))).close

/-- Run the program of a source. -/
def runSource (budget : Nat) (level : Int) (source : String) : Except SourceError Ending :=
  (Node.ofSource source).map (runFresh budget level)

/-- What reading a file gives, from the text that it holds. -/
def fileText (content : String) : String := String.ofList (Text.unifyLineEnds content.toList)

/-- Run the program of a file that holds a given text. -/
def runContent (budget : Nat) (level : Int) (content : String) : Except SourceError Ending :=
  runSource budget level (fileText content)

end Douro
