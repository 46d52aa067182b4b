import Douro.Machine.Evaluation

/-!
# Sessions

A session runs one step after the other on one machine, which prints and logs for all of them. The
scopes that a step works on are chosen by the name of their environment. An environment starts empty
when it is first named.

* `Session.within`: run a computation in an environment.
* `Session.drain`: take what has been printed and logged.
-/

namespace Douro

namespace Run

/-- Enter a call scope. -/
def push : Run Unit := fun machine => .ok () { machine with scopes := machine.scopes.push }

/-- Leave the innermost call scope. -/
def pop : Run Unit := fun machine =>
  match machine.scopes.pop? with
  | some scopes => .ok () { machine with scopes }
  | none => .error .globalScope machine

/-- Is a name bound where running code sees it? -/
def contains (name : String) : Run Bool := fun machine =>
  .ok (machine.scopes.contains name) machine

/-- Remark something in the log. -/
def remark (text : String) : Run Unit := note (.remark text)

/-- Close the log. -/
def closeLog : Run Unit := fun machine => .ok () { machine with log := machine.log.close }

/-- The value of an expression, with a budget for nested calls. -/
def value (budget : Nat) (node : Node) : Run Node := evaluate (invoke budget) node

/-- Run a statement, with a budget for nested calls. -/
def statement (budget : Nat) (node : Node) : Run Node := execute (invoke budget) node

/-- Run statements in order, with a budget for nested calls. -/
def block (budget : Nat) (nodes : List Node) : Run Node := executeBody (invoke budget) nodes

end Run

/-- A machine and the scopes of its environments. -/
structure Session where
  machine : Machine
  environments : Scope (Scopes Node)

namespace Session

/-- A session that logs at a given level. -/
def start (level : Int) : Session := ⟨Machine.start level, []⟩

/-- The scopes of an environment. -/
def environment (session : Session) (name : String) : Scopes Node :=
  (session.environments.get? name).getD Scopes.empty

/-- The session after a computation in an environment has left a machine behind. -/
def keep (session : Session) (name : String) (machine : Machine) : Session :=
  ⟨machine, session.environments.insert name machine.scopes⟩

/-- Run a computation in an environment. -/
def within {α : Type} (session : Session) (name : String) (action : Run α) :
    Except Failure α × Session :=
  match action { session.machine with scopes := session.environment name } with
  | .ok value machine => (.ok value, session.keep name machine)
  | .error failure machine => (.error failure, session.keep name machine)

/-- The lines printed and the lines logged since the last time, and the session without them. -/
def drain (session : Session) : (List String × List String) × Session :=
  let machine := session.machine
  let emptied := { machine with printed := #[], log := { machine.log with events := #[] } }
  ((machine.printed.toList, machine.log.lines), { session with machine := emptied })

end Session

end Douro
