import Douro.Tree.Display

/-!
# The log of a run

A log takes down events up to a level of detail: first the statements of the program with the calls
and their values, then what is bound, then every operation.

* `Event.level`: the least level at which an event is taken down.
* `Event.text`: the line of an event.
* `Log.note`: take an event down, if the level of the log asks for it.
-/

namespace Douro

/-! ## Events -/

/-- What happens in a run. -/
inductive Event where
  /-- A statement of the program starts. -/
  | execute (kind : String)
  /-- A call starts. -/
  | call (name : String) (args : List Node)
  /-- A call ends. -/
  | finish (name : String) (value : Node)
  /-- A name is bound while `depth` calls are under way. -/
  | define (name : String) (value : Node) (depth : Nat)
  /-- Two values are combined. -/
  | operate (op : String) (left right result : Node)
  /-- Something is remarked from outside of the run. -/
  | remark (text : String)

namespace Event

/-- The least level at which an event is taken down. -/
def level : Event → Int
  | execute .. | call .. | finish .. | remark .. => 1
  | define .. => 2
  | operate .. => 3

/-- The line of an event. -/
def text : Event → String
  | execute kind => "execute " ++ kind
  | call name args =>
    "call " ++ name ++ "(" ++ String.intercalate ", " (args.map Node.display) ++ ")"
  | finish name value => "return " ++ name ++ " -> " ++ value.display
  | define name value depth =>
    "define " ++ name ++ " = " ++ value.display ++ " (depth " ++ toString depth ++ ")"
  | operate op left right result =>
    left.display ++ " " ++ op ++ " " ++ right.display ++ " -> " ++ result.display
  | remark text => text

end Event

/-! ## Logs -/

/-- The events of a run, up to a level of detail. -/
structure Log where
  level : Int
  isOpen : Bool
  events : Array Event

namespace Log

/-- A log of a given level; it is open only if the level is positive. -/
def start (level : Int) : Log := ⟨level, 0 < level, #[]⟩

/-- Take an event down, if the log is open and its level asks for the event. -/
def note (log : Log) (event : Event) : Log :=
  if log.isOpen ∧ event.level ≤ log.level then { log with events := log.events.push event } else log

/-- Take nothing down any more. -/
def close (log : Log) : Log := { log with isOpen := false }

/-- The lines of the log. -/
def lines (log : Log) : List String := log.events.toList.map Event.text

end Log

end Douro
