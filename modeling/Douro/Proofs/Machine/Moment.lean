import Mathlib.Logic.Relation
import Douro.Machine.Program

/-!
# The moments of a run

A run is made of tasks: to run a program it executes statements, to execute a statement it evaluates
an expression, and so on down to the body of a call inside a call. `Stage.Enters` says which tasks a
task carries out itself, each with the machine on which it starts. The moments of a run are the
machines on which the tasks inside it start and those that they leave; between two of them nothing
changes but the log.

* `Stage.after`: the machine that a task leaves, whether or not it fails.
* `Stage.Passes`: the machine is one of the moments of a task.
* `Stage.Passes.of_invariant`: what holds of every task inside a run holds at every moment of it.
-/

namespace Douro

/-- Something that a run carries out. -/
inductive Task where
  | program (body : List Node)
  | statement (node : Node)
  | expression (node : Node)
  /-- The arguments of a call. -/
  | expressions (nodes : List Node)
  /-- A call whose scope has been entered: the parameters that are still to be bound. -/
  | bindings (bindings : List (String × Node)) (body : List Node)
  /-- The statements of a call that are still to run, after one of value `last`. -/
  | body (last : Node) (nodes : List Node)

/-- A task with a budget for the calls inside it and the machine on which it starts. -/
structure Stage where
  budget : Nat
  task : Task
  machine : Machine

namespace Stage

/-- The machine that the task leaves, whether or not it fails. -/
def after : Stage → Machine
  | ⟨n, .program body, m⟩ => (Ending.ofResult (runStatements (invoke n) body m)).machine
  | ⟨n, .statement node, m⟩ => (Ending.ofResult (execute (invoke n) node m)).machine
  | ⟨n, .expression node, m⟩ => (Ending.ofResult (evaluate (invoke n) node m)).machine
  | ⟨n, .expressions nodes, m⟩ => (Ending.ofResult (evaluateAll (invoke n) nodes m)).machine
  | ⟨n, .bindings bindings body, m⟩ =>
    (Ending.ofResult ((do Run.defineAll bindings; executeBody (invoke n) body) m)).machine
  | ⟨n, .body last nodes, m⟩ => (Ending.ofResult (executeFrom (invoke n) last nodes m)).machine

/-- The machine on which a call starts its body, before its parameters are bound. -/
def entered (name : String) (args : List Node) (m : Machine) : Machine :=
  { m with scopes := m.scopes.push, log := m.log.note (.call name args) }

/-- A task carries out another one itself, which starts on the given machine. -/
inductive Enters : Stage → Stage → Prop
  | firstOfProgram {n node nodes m} :
    Enters ⟨n, .program (node :: nodes), m⟩
      ⟨n, .statement node, { m with log := m.log.note (.execute node.kindName) }⟩
  | restOfProgram {n node nodes m value m'} :
    execute (invoke n) node { m with log := m.log.note (.execute node.kindName) } = .ok value m' →
    Enters ⟨n, .program (node :: nodes), m⟩ ⟨n, .program nodes, m'⟩
  | assigned {n name expr m} :
    Enters ⟨n, .statement (.assign name expr), m⟩ ⟨n, .expression expr, m⟩
  | evaluated {n expr m} : Enters ⟨n, .statement (.expression expr), m⟩ ⟨n, .expression expr, m⟩
  | left {n op left right position m} :
    Enters ⟨n, .expression (.binary op left right position), m⟩ ⟨n, .expression left, m⟩
  | right {n op left right position m value m'} :
    evaluate (invoke n) left m = .ok value m' →
    Enters ⟨n, .expression (.binary op left right position), m⟩ ⟨n, .expression right, m'⟩
  | printed {n expr m} : Enters ⟨n, .expression (.print expr), m⟩ ⟨n, .expression expr, m⟩
  | arguments {n name args position m params body} :
    m.scopes.get? name = some (.function params body) →
    Enters ⟨n, .expression (.call name args position), m⟩ ⟨n, .expressions args, m⟩
  | call {n name args position m params body values m'} :
    m.scopes.get? name = some (.function params body) →
    evaluateAll (invoke (n + 1)) args m = .ok values m' → values.length = params.length →
    Enters ⟨n + 1, .expression (.call name args position), m⟩
      ⟨n, .bindings (params.zip values) body, entered name values m'⟩
  | firstArgument {n node nodes m} :
    Enters ⟨n, .expressions (node :: nodes), m⟩ ⟨n, .expression node, m⟩
  | restOfArguments {n node nodes m value m'} :
    evaluate (invoke n) node m = .ok value m' →
    Enters ⟨n, .expressions (node :: nodes), m⟩ ⟨n, .expressions nodes, m'⟩
  | bound {n name value bindings body m} :
    Enters ⟨n, .bindings ((name, value) :: bindings) body, m⟩
      ⟨n, .bindings bindings body, { m with scopes := m.scopes.define name value }⟩
  | body {n body m} :
    Enters ⟨n, .bindings [] body, m⟩ ⟨n, .body (.number Decimal.zero) body, m⟩
  | firstOfBody {n last node nodes m} :
    Enters ⟨n, .body last (node :: nodes), m⟩ ⟨n, .statement node, m⟩
  | restOfBody {n last node nodes m value m'} :
    execute (invoke n) node m = .ok value m' →
    Enters ⟨n, .body last (node :: nodes), m⟩ ⟨n, .body value nodes, m'⟩

/-- The machine is one of the moments of the task: a task inside it starts on that machine or leaves
it. -/
def Passes (start : Stage) (m : Machine) : Prop :=
  ∃ stage, Relation.ReflTransGen Enters start stage ∧ (m = stage.machine ∨ m = stage.after)

theorem Passes.of_invariant {I : Stage → Prop} {P : Machine → Prop} {start : Stage} {m : Machine}
    (h : start.Passes m) (hstart : I start) (henters : ∀ s s', I s → Enters s s' → I s')
    (hmachine : ∀ s, I s → P s.machine) (hafter : ∀ s, I s → P s.after) : P m := by
  obtain ⟨stage, hreach, hm⟩ := h
  have hI : I stage := by
    clear hm
    induction hreach with
    | refl => exact hstart
    | tail _ hs ih => exact henters _ _ ih hs
  rcases hm with rfl | rfl
  · exact hmachine stage hI
  · exact hafter stage hI

end Stage

end Douro
