import Douro.Machine.Program
import Douro.Machine.Session
import Douro.Proofs.Scope

/-!
# Scopes are a stack

Code may bind names and look them up, enter and leave scopes one at a time, and run blocks in scopes
of their own, which end normally or with a failure. The scopes need not be balanced: a block may
leave scopes that it has not entered, its own one included.

* `Use`, `Use.perform`: what code does with the scopes.
* `Scopes.Step`, `Use.steps`: the single steps that this comes down to.
* `Use.scopesAfter_perform`: a run leaves the scopes to which its steps lead.
* `Scopes.Above`: what stays as it is while a scope is under way.
* `scope_stack_discipline`: what holds of the scopes at all times.
-/

namespace Douro

/-! ## Single steps -/

namespace Scopes

variable {α : Type}

/-- What can happen to scopes. -/
inductive Step (α : Type) where
  | define (name : String) (value : α)
  | lookup (name : String)
  | contains (name : String)
  | push
  | pop

/-- The scopes behind a step. The global scope is not left. -/
def Step.apply (scopes : Scopes α) : Step α → Scopes α
  | .define name value => scopes.define name value
  | .lookup _ | .contains _ => scopes
  | .push => scopes.push
  | .pop => scopes.pop?.getD scopes

/-- The scopes behind some steps. -/
def after (scopes : Scopes α) (steps : List (Step α)) : Scopes α := steps.foldl Step.apply scopes

variable (scopes : Scopes α)

theorem after_cons (step : Step α) (steps : List (Step α)) :
    scopes.after (step :: steps) = (step.apply scopes).after steps := rfl

theorem after_append (steps more : List (Step α)) :
    scopes.after (steps ++ more) = (scopes.after steps).after more := List.foldl_append

theorem length_toList : scopes.toList.length = scopes.depth + 1 := by
  simp [toList, depth]

theorem pop?_eq_none_iff : scopes.pop? = none ↔ scopes.depth = 0 := by
  obtain ⟨globals, calls⟩ := scopes
  cases calls <;> simp [pop?, depth]

/-- Leaving a scope takes away the innermost one. -/
theorem toList_of_pop? {scopes outer : Scopes α} (h : scopes.pop? = some outer) :
    scopes.toList = outer.toList ++ [scopes.innermost] := by
  obtain ⟨globals, calls⟩ := scopes
  cases calls with
  | nil => cases h
  | cons scope calls =>
    cases h
    simp [toList, innermost]

/-! ## Between entering a scope and leaving it -/

/-- The scopes are those in `outer` with at least one call scope on top of them. -/
def Above (outer scopes : Scopes α) : Prop :=
  ∃ scope inner, scopes = ⟨outer.globals, scope :: (inner ++ outer.calls)⟩

variable {scopes} {outer : Scopes α}

theorem above_push : outer.Above outer.push := ⟨[], [], rfl⟩

/-- A step that stays above the outer scopes does not touch them. -/
theorem Above.apply (h : outer.Above scopes) (step : Step α)
    (hdepth : outer.depth < (step.apply scopes).depth) : outer.Above (step.apply scopes) := by
  obtain ⟨scope, inner, rfl⟩ := h
  cases step with
  | define name value => exact ⟨scope.insert name value, inner, rfl⟩
  | lookup name | contains name => exact ⟨scope, inner, rfl⟩
  | push => exact ⟨[], scope :: inner, rfl⟩
  | pop =>
    cases inner with
    | nil => exact absurd hdepth (Nat.lt_irrefl _)
    | cons next inner => exact ⟨next, inner, rfl⟩

theorem Above.after {steps : List (Step α)} (h : outer.Above scopes)
    (hdepth : ∀ done, done <+: steps → outer.depth < (scopes.after done).depth) :
    outer.Above (scopes.after steps) := by
  induction steps generalizing scopes with
  | nil => exact h
  | cons step steps ih =>
    have hstep : outer.depth < (step.apply scopes).depth :=
      hdepth [step] (List.prefix_append [step] steps)
    refine ih (h.apply step hstep) fun done hdone => ?_
    exact hdepth (step :: done) (List.cons_prefix_cons.mpr ⟨rfl, hdone⟩)

/-- With one scope on top of them, the outer scopes come back. -/
theorem Above.pop? (h : outer.Above scopes) (hdepth : scopes.depth = outer.depth + 1) :
    scopes.pop? = some outer := by
  obtain ⟨scope, inner, rfl⟩ := h
  have hinner : inner = [] := by
    simp only [depth, List.length_cons, List.length_append] at hdepth
    exact List.length_eq_zero_iff.mp (by omega)
  subst hinner
  exact Inside.pop? ⟨scope, rfl⟩

/-- Leaving a scope gives back what was there before it was entered, if the steps in between have
never been outside of it and end right inside. -/
theorem pop?_after_push {steps : List (Step α)}
    (hdepth : ∀ done, done <+: steps → outer.push.depth ≤ (outer.push.after done).depth)
    (hend : (outer.push.after steps).depth = outer.push.depth) :
    (outer.push.after steps).pop? = some outer :=
  (above_push.after hdepth).pop? hend

end Scopes

/-! ## Code that uses the scopes -/

/-- What code does with the scopes. -/
inductive Use where
  | define (name : String) (value : Node)
  | lookup (name : String) (position : Position)
  | contains (name : String)
  | push
  | pop
  /-- Fail for a cause of its own. -/
  | fail (failure : Failure)
  /-- Run in a scope of its own. -/
  | block (body : List Use)
  /-- If the body fails, go on with the handler. -/
  | attempt (body handler : List Use)

namespace Use

mutual

/-- Carry out one use of the scopes. -/
def perform : Use → Run Unit
  | .define name value => Run.define name value
  | .lookup name position => do let _ ← Run.lookup name position
  | .contains name => do let _ ← Run.contains name
  | .push => Run.push
  | .pop => Run.pop
  | .fail failure => throw failure
  | .block body => Run.inScope (performAll body)
  | .attempt body handler => try performAll body catch _ => performAll handler

/-- Carry out uses in order, up to the first failure. -/
def performAll : List Use → Run Unit
  | [] => pure ()
  | use :: uses => do
    perform use
    performAll uses

end

mutual

/-- The steps that a use of the scopes takes on a machine. -/
def steps (m : Machine) : Use → List (Scopes.Step Node)
  | .define name value => [.define name value]
  | .lookup name _ => [.lookup name]
  | .contains name => [.contains name]
  | .push => [.push]
  | .pop => [.pop]
  | .fail _ => []
  | .block body => .push :: (stepsAll { m with scopes := m.scopes.push } body ++ [.pop])
  | .attempt body handler =>
    match performAll body m with
    | .ok _ _ => stepsAll m body
    | .error _ m' => stepsAll m body ++ stepsAll m' handler

/-- The steps that uses take in order, up to the first failure. -/
def stepsAll (m : Machine) : List Use → List (Scopes.Step Node)
  | [] => []
  | use :: uses =>
    match perform use m with
    | .ok _ m' => steps m use ++ stepsAll m' uses
    | .error _ _ => steps m use

end

end Use

namespace Run

variable {α : Type}

/-- The scopes that a computation leaves, be it with a value or with a failure. -/
def scopesAfter (c : Run α) (m : Machine) : Scopes Node := (Ending.ofResult (c m)).machine.scopes

/-- The same value or failure, on another machine. -/
def onMachine (m : Machine) :
    EStateM.Result Failure Machine α → EStateM.Result Failure Machine α
  | .ok value _ => .ok value m
  | .error failure _ => .error failure m

theorem scopesAfter_pop (m : Machine) : scopesAfter pop m = Scopes.Step.pop.apply m.scopes := by
  unfold scopesAfter pop
  simp only [Scopes.Step.apply]
  cases m.scopes.pop? <;> rfl

/-- The global scope is not left. -/
theorem pop_of_depth_eq_zero {m : Machine} (h : m.scopes.depth = 0) :
    pop m = .error .globalScope m := by
  unfold pop
  rw [(Scopes.pop?_eq_none_iff _).mpr h]

theorem pop_of_pop? {m : Machine} {scopes : Scopes Node} (h : m.scopes.pop? = some scopes) :
    pop m = .ok () { m with scopes } := by
  unfold pop
  rw [h]

/-- What leaving a scope makes of a result. -/
theorem leave_eq (result : EStateM.Result Failure Machine α) :
    leave result =
      match (Ending.ofResult result).machine.scopes.pop? with
      | some scopes => onMachine { (Ending.ofResult result).machine with scopes } result
      | none => .error .globalScope (Ending.ofResult result).machine := by
  cases result <;> rfl

theorem scopesAfter_inScope (body : Run α) (m : Machine) :
    scopesAfter (inScope body) m =
      Scopes.Step.pop.apply (scopesAfter body { m with scopes := m.scopes.push }) := by
  unfold scopesAfter inScope
  rw [leave_eq]
  cases body { m with scopes := m.scopes.push } with
  | ok value m' | error failure m' =>
    simp only [Ending.ofResult, Scopes.Step.apply]
    cases m'.scopes.pop? <;> rfl

/-- Leaving keeps the value or the failure, and takes one scope away. -/
theorem leave_of_depth_ne_zero (result : EStateM.Result Failure Machine α)
    (h : (Ending.ofResult result).machine.scopes.depth ≠ 0) :
    let inner := (Ending.ofResult result).machine
    ∃ outer, inner.scopes.toList = outer.toList ++ [inner.scopes.innermost] ∧
      leave result = onMachine { inner with scopes := outer } result := by
  intro inner
  cases hpop : inner.scopes.pop? with
  | none => exact absurd ((Scopes.pop?_eq_none_iff _).mp hpop) h
  | some outer =>
    refine ⟨outer, Scopes.toList_of_pop? hpop, ?_⟩
    rw [leave_eq, hpop]

/-- When only the global scope is there, leaving fails, whatever the result is. -/
theorem leave_of_depth_eq_zero (result : EStateM.Result Failure Machine α)
    (h : (Ending.ofResult result).machine.scopes.depth = 0) :
    leave result = .error .globalScope (Ending.ofResult result).machine := by
  rw [leave_eq, (Scopes.pop?_eq_none_iff _).mpr h]

end Run

namespace Use

open Run

mutual

/-- A use of the scopes leaves those to which its steps lead. -/
theorem scopesAfter_perform (m : Machine) :
    (use : Use) → scopesAfter use.perform m = m.scopes.after (use.steps m)
  | .define _ _ | .contains _ | .push | .fail _ => by rw [perform]; rfl
  | .lookup name position => by
    rw [perform]
    show (Ending.ofResult (EStateM.bind (Run.lookup name position) _ m)).machine.scopes = m.scopes
    unfold EStateM.bind Run.lookup
    cases m.scopes.get? name <;> rfl
  | .pop => by rw [perform]; exact scopesAfter_pop m
  | .block body => by
    rw [perform, steps, scopesAfter_inScope, scopesAfter_performAll _ body, Scopes.after_cons,
      Scopes.after_append]
    rfl
  | .attempt body handler => by
    have hbody := scopesAfter_performAll m body
    rw [perform, steps]
    show (Ending.ofResult (EStateM.tryCatch (performAll body) _ m)).machine.scopes = _
    unfold EStateM.tryCatch
    unfold scopesAfter at hbody
    cases hr : performAll body m with
    | ok value m' =>
      rw [hr] at hbody
      exact hbody
    | error failure m' =>
      rw [hr] at hbody
      simp only [Scopes.after_append, ← hbody]
      exact scopesAfter_performAll m' handler

/-- Uses of the scopes leave those to which their steps lead. -/
theorem scopesAfter_performAll (m : Machine) :
    (uses : List Use) → scopesAfter (performAll uses) m = m.scopes.after (stepsAll m uses)
  | [] => by rw [performAll]; rfl
  | use :: uses => by
    have huse := scopesAfter_perform m use
    rw [performAll, stepsAll]
    show (Ending.ofResult (EStateM.bind use.perform _ m)).machine.scopes = _
    unfold EStateM.bind
    unfold scopesAfter at huse
    cases hr : use.perform m with
    | ok value m' =>
      rw [hr] at huse
      simp only [Scopes.after_append, ← huse]
      exact scopesAfter_performAll m' uses
    | error failure m' =>
      rw [hr] at huse
      exact huse

end

end Use

/-! ## The whole -/

/-- From any machine on: code leaves the scopes to which its single steps lead; after any steps at
least the global scope is there; leaving that one fails and changes nothing; a block leaves exactly
one scope and ends as its body does, or fails because only the global scope is there; and leaving a
scope gives back exactly what was there before it was entered, if the steps in between have never
been outside of it and end right inside. -/
theorem scope_stack_discipline (m : Machine) :
    (∀ uses, (Use.performAll uses).scopesAfter m = m.scopes.after (Use.stepsAll m uses)) ∧
    (∀ steps, (m.scopes.after steps).toList.length = (m.scopes.after steps).depth + 1) ∧
    (m.scopes.depth = 0 → Run.pop m = .error .globalScope m) ∧
    (∀ (α : Type) (body : Run α),
      let result := body { m with scopes := m.scopes.push }
      let inner := (Ending.ofResult result).machine
      (inner.scopes.depth = 0 → Run.inScope body m = .error .globalScope inner) ∧
      (inner.scopes.depth ≠ 0 → ∃ outer : Scopes Node,
        inner.scopes.toList = outer.toList ++ [inner.scopes.innermost] ∧
          Run.inScope body m = Run.onMachine { inner with scopes := outer } result)) ∧
    ∀ front middle,
      let before := m.scopes.after front
      (∀ done, done <+: middle → before.push.depth ≤ (before.push.after done).depth) →
      (before.push.after middle).depth = before.push.depth →
      ∀ machine : Machine, machine.scopes = m.scopes.after (front ++ .push :: middle) →
        Run.pop machine = .ok () { machine with scopes := before } := by
  refine ⟨Use.scopesAfter_performAll m, fun steps => Scopes.length_toList _, Run.pop_of_depth_eq_zero,
    fun α body => ⟨Run.leave_of_depth_eq_zero _, Run.leave_of_depth_ne_zero _⟩, ?_⟩
  intro front middle before hdepth hend machine hmachine
  apply Run.pop_of_pop?
  rw [hmachine, Scopes.after_append, Scopes.after_cons]
  exact Scopes.pop?_after_push hdepth hend

/-- A block that rebinds a name and fails, inside a scope entered by hand. -/
theorem scope_stack_discipline_of_failing_block :
    let m := Machine.start 0
    let front : List (Scopes.Step Node) := [.define "x" (.number Decimal.zero)]
    let uses : List Use := [.define "x" (.number Decimal.zero), .push,
      .attempt [.block [.define "x" .absent, .fail .tooDeep, .pop]] [.contains "x"]]
    Use.stepsAll m uses = front ++ .push :: [.push, .define "x" .absent, .pop, .contains "x"] ∧
      ∀ machine : Machine, machine.scopes = (Use.performAll uses).scopesAfter m →
        Run.pop machine = .ok () { machine with scopes := m.scopes.after front } := by
  intro m front uses
  have hsteps : Use.stepsAll m uses =
      front ++ .push :: [.push, .define "x" .absent, .pop, .contains "x"] := rfl
  obtain ⟨hruns, -, -, -, hrestores⟩ := scope_stack_discipline m
  refine ⟨hsteps, fun machine hmachine => ?_⟩
  rw [hruns, hsteps] at hmachine
  refine hrestores front _ (fun done hdone => ?_) rfl machine hmachine
  simp only [List.prefix_cons_iff, List.prefix_nil] at hdone
  obtain rfl | ⟨_, rfl, rfl | ⟨_, rfl, rfl | ⟨_, rfl, rfl | ⟨_, rfl, rfl⟩⟩⟩⟩ := hdone <;> decide

end Douro
