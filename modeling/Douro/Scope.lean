/-!
# Scopes

A scope binds names to values in the order in which they were first bound. Running code sees one
global scope and one scope for each call that is under way, but of the latter only the innermost:
what a caller binds is invisible to the function it calls.

* `Scopes.get?`: the value of a name, from the innermost scope or else from the global one.
* `Scopes.define`: bind a name in the innermost scope.
* `Scopes.push`, `Scopes.pop?`: enter and leave a call; the global scope is never left.
-/

namespace Douro

/-! ## One scope -/

/-- Names with their values. -/
abbrev Scope (α : Type) := List (String × α)

namespace Scope

variable {α : Type}

/-- The value of a name. -/
def get? (scope : Scope α) (name : String) : Option α := List.lookup name scope

/-- Bind a name: in its place if it is bound, at the end otherwise. -/
def insert (scope : Scope α) (name : String) (value : α) : Scope α :=
  match scope with
  | [] => [(name, value)]
  | (key, old) :: rest =>
    if key = name then (key, value) :: rest else (key, old) :: insert rest name value

end Scope

/-! ## The scopes of a run -/

/-- A global scope and the scopes of the calls under way, the innermost first. -/
structure Scopes (α : Type) where
  globals : Scope α
  calls : List (Scope α)

namespace Scopes

variable {α : Type}

/-- No bindings, and no call under way. -/
def empty : Scopes α := ⟨[], []⟩

/-- How many calls are under way. -/
def depth (scopes : Scopes α) : Nat := scopes.calls.length

/-- The innermost scope; the global one outside of any call. -/
def innermost (scopes : Scopes α) : Scope α := scopes.calls.headD scopes.globals

/-- The value of a name in the innermost or else in the global scope. -/
def get? (scopes : Scopes α) (name : String) : Option α :=
  (scopes.innermost.get? name).or (scopes.globals.get? name)

/-- Is the name bound where running code sees it? -/
def contains (scopes : Scopes α) (name : String) : Bool := (scopes.get? name).isSome

/-- Bind a name in the innermost scope. -/
def define (scopes : Scopes α) (name : String) (value : α) : Scopes α :=
  match scopes.calls with
  | [] => ⟨scopes.globals.insert name value, []⟩
  | scope :: outer => ⟨scopes.globals, scope.insert name value :: outer⟩

/-- Enter a call. -/
def push (scopes : Scopes α) : Scopes α := ⟨scopes.globals, [] :: scopes.calls⟩

/-- Leave the innermost call; nothing when none is under way. -/
def pop? (scopes : Scopes α) : Option (Scopes α) :=
  match scopes.calls with
  | [] => none
  | _ :: outer => some ⟨scopes.globals, outer⟩

/-- All scopes, from the global one inwards. -/
def toList (scopes : Scopes α) : List (Scope α) := scopes.globals :: scopes.calls.reverse

end Scopes

end Douro
