import Douro.Machine.Failure
import Douro.Machine.Log
import Douro.Scope

/-!
# The machine

A machine holds what a run changes: the scopes, the lines printed so far and the log. A failing
step keeps what it has printed and logged.

* `Run`: a computation on a machine that may fail.
* `Run.inScope`: run inside a call scope, which is left in every case.
-/

namespace Douro

/-! ## Machines -/

/-- What a run changes. -/
structure Machine where
  scopes : Scopes Node
  printed : Array String
  log : Log

namespace Machine

/-- A machine with nothing bound, that logs at a given level. -/
def start (level : Int) : Machine := ⟨Scopes.empty, #[], Log.start level⟩

end Machine

/-! ## Computations -/

/-- A computation on a machine that may fail. -/
abbrev Run := EStateM Failure Machine

namespace Run

/-- The value of a name. -/
def lookup (name : String) (position : Position) : Run Node := fun machine =>
  match machine.scopes.get? name with
  | some value => .ok value machine
  | none => .error (.unbound name position) machine

/-- Bind a name in the innermost scope. -/
def define (name : String) (value : Node) : Run Unit := fun machine =>
  .ok () { machine with scopes := machine.scopes.define name value }

/-- Bind names to values, pair by pair. -/
def defineAll : List (String × Node) → Run Unit
  | [] => pure ()
  | (name, value) :: bindings => do
    define name value
    defineAll bindings

/-- How many calls are under way. -/
def depth : Run Nat := fun machine => .ok machine.scopes.depth machine

/-- Print a line. -/
def print (line : String) : Run Unit := fun machine =>
  .ok () { machine with printed := machine.printed.push line }

/-- Take an event down in the log. -/
def note (event : Event) : Run Unit := fun machine =>
  .ok () { machine with log := machine.log.note event }

/-- A result or a failure that does not depend on the machine. -/
def ofExcept {α : Type} : Except Failure α → Run α
  | .ok value => fun machine => .ok value machine
  | .error failure => fun machine => .error failure machine

/-- Leave the innermost scope with a result. If only the global one is left, that is the failure,
whatever the result was. -/
def leave {α : Type} : EStateM.Result Failure Machine α → EStateM.Result Failure Machine α
  | .ok value machine =>
    match machine.scopes.pop? with
    | some scopes => .ok value { machine with scopes }
    | none => .error .globalScope machine
  | .error failure machine =>
    match machine.scopes.pop? with
    | some scopes => .error failure { machine with scopes }
    | none => .error .globalScope machine

/-- Run inside a call scope of its own, which is left also after a failure. -/
def inScope {α : Type} (body : Run α) : Run α := fun machine =>
  leave (body { machine with scopes := machine.scopes.push })

end Run

end Douro
