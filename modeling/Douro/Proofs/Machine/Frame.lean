import Douro.Proofs.Machine.Triple
import Douro.Proofs.Scope

/-!
# What a run changes in the scopes

Evaluating an expression changes no scope, whatever the expression is and however its evaluation
ends: a call works in a scope of its own, which it leaves in every case. A statement changes one
name of the innermost scope, and only if it is an assignment whose expression has a value.

* `evaluate_keepsScopes`, `invoke_keepsScopes`: evaluation and calls keep all scopes.
* `execute_assign_scopes`, `execute_scopes_of_not_assigned`: what a statement does to them.
* `runStatements_error`: a failing run has the scopes that the statements before the failing one
  leave.
* `scopes_change_only_by_assignment`: all of this, for every budget and every machine.
-/

namespace Douro

/-! ## Expressions -/

/-- The machine has the scopes `scopes`. -/
def Machine.HasScopes (scopes : Scopes Node) (m : Machine) : Prop := m.scopes = scopes

namespace Run

/-- The computation leaves the scopes as they are, whether or not it fails. -/
def KeepsScopes {α : Type} (c : Run α) : Prop :=
  ∀ scopes, Triple (Machine.HasScopes scopes) c (fun _ => Machine.HasScopes scopes)
    fun _ => Machine.HasScopes scopes

theorem KeepsScopes.machine {α : Type} {c : Run α} (h : c.KeepsScopes) (m : Machine) :
    (Ending.ofResult (c m)).machine.scopes = m.scopes :=
  (h m.scopes).machine (fun _ _ hm => hm) (fun _ _ hm => hm) rfl

end Run

/-- Every call of the callee keeps the scopes. -/
def Callee.KeepsScopes (callee : Callee) : Prop :=
  ∀ name position params body args, (callee name position params body args).KeepsScopes

open Run

mutual

theorem evaluate_keepsScopes {callee : Callee} (hcallee : callee.KeepsScopes) :
    (node : Node) → (evaluate callee node).KeepsScopes
  | .numeral _ => fun _ => Triple.ofExcept (fun _ _ _ h => h) fun _ _ _ h => h
  | .literal _ | .number _ | .function _ _ => fun _ _ h => h
  | .lookup _ _ => fun _ => Triple.lookup (fun _ _ h _ => h) fun _ h => h
  | .binary _ left right _ => by
    intro scopes
    refine Triple.bind (evaluate_keepsScopes hcallee left scopes) fun _ => ?_
    refine Triple.bind (evaluate_keepsScopes hcallee right scopes) fun _ => ?_
    refine Triple.bind (Triple.ofExcept (fun _ _ _ h => h) fun _ _ _ h => h) fun _ => ?_
    exact Triple.bind (Triple.note fun _ h => h) fun _ => Triple.ret fun _ h => h
  | .print expr => by
    intro scopes
    refine Triple.bind (evaluate_keepsScopes hcallee expr scopes) fun _ => ?_
    exact Triple.bind (Triple.print fun _ h => h) fun _ => Triple.ret fun _ h => h
  | .call name args position => by
    intro scopes
    refine Triple.bind (Triple.lookup (fun _ _ h _ => h) fun _ h => h) fun value => ?_
    split
    · next params body =>
      exact Triple.bind (evaluateAll_keepsScopes hcallee args scopes) fun values =>
        hcallee name position params body values scopes
    · exact Triple.fail fun _ h => h
  | .absent | .program _ | .assign _ _ | .expression _ => fun _ => Triple.fail fun _ h => h

theorem evaluateAll_keepsScopes {callee : Callee} (hcallee : callee.KeepsScopes) :
    (nodes : List Node) → (evaluateAll callee nodes).KeepsScopes
  | [] => fun _ _ h => h
  | node :: nodes => by
    intro scopes
    refine Triple.bind (evaluate_keepsScopes hcallee node scopes) fun _ => ?_
    exact Triple.bind (evaluateAll_keepsScopes hcallee nodes scopes) fun _ => Triple.ret fun _ h => h

end

/-! ## Statements -/

section Statements

variable {callee : Callee} (hcallee : callee.KeepsScopes)
include hcallee

/-- An assignment whose expression has a value binds its name to it. -/
theorem execute_assign_scopes (name : String) {expr value : Node} {m m' : Machine}
    (h : evaluate callee expr m = .ok value m') :
    ∃ m'', execute callee (.assign name expr) m = .ok value m'' ∧
      m''.scopes = m.scopes.define name value := by
  have hm' : m'.scopes = m.scopes :=
    (evaluate_keepsScopes hcallee expr m.scopes).of_ok (m := m) rfl h
  exact ⟨_, bind_of_ok h, congrArg (Scopes.define · name value) hm'⟩

/-- Any other statement keeps the scopes, and so does an assignment whose expression fails. -/
theorem execute_scopes_of_not_assigned (node : Node) (m : Machine)
    (h : ∀ name expr value m', node = .assign name expr →
      evaluate callee expr m ≠ .ok value m') :
    (Ending.ofResult (execute callee node m)).machine.scopes = m.scopes := by
  cases node with
  | assign name expr =>
    cases he : evaluate callee expr m with
    | ok value m' => exact absurd he (h name expr value m' rfl)
    | error failure m' =>
      have hm' : m'.scopes = m.scopes :=
        (evaluate_keepsScopes hcallee expr m.scopes).of_error (m := m) rfl he
      have hx : execute callee (.assign name expr) m = .error failure m' := bind_of_error he
      rw [hx]
      exact hm'
  | expression expr => exact (evaluate_keepsScopes hcallee expr).machine m
  | _ => rfl

/-- A statement that fails keeps the scopes. -/
theorem execute_error_scopes {node : Node} {failure : Failure} {m m' : Machine}
    (h : execute callee node m = .error failure m') : m'.scopes = m.scopes := by
  have := execute_scopes_of_not_assigned hcallee node m fun name expr value m₁ hn he => by
    obtain ⟨m₂, hx, -⟩ := execute_assign_scopes hcallee name he
    rw [hn, hx] at h
    cases h
  rwa [h] at this

/-- Inside a call scope, a statement changes nothing outside of it. -/
theorem execute_inside (outer : Scopes Node) (node : Node) :
    Triple (fun m => outer.Inside m.scopes) (execute callee node) (fun _ m => outer.Inside m.scopes)
      fun _ m => outer.Inside m.scopes := by
  intro m hm
  cases hx : execute callee node m with
  | error failure m' =>
    show outer.Inside m'.scopes
    rw [execute_error_scopes hcallee hx]
    exact hm
  | ok value m' =>
    show outer.Inside m'.scopes
    by_cases ha : ∃ name expr value m', node = .assign name expr ∧
        evaluate callee expr m = .ok value m'
    · obtain ⟨name, expr, value, m₁, rfl, he⟩ := ha
      obtain ⟨m₂, hx', hs⟩ := execute_assign_scopes hcallee name he
      rw [hx'] at hx
      cases hx
      rw [hs]
      exact hm.define name value
    · have := execute_scopes_of_not_assigned hcallee node m
        fun name expr value m' hn he => ha ⟨name, expr, value, m', hn, he⟩
      rw [hx] at this
      rw [show m'.scopes = m.scopes from this]
      exact hm

theorem executeFrom_inside (outer : Scopes Node) (last : Node) (body : List Node) :
    Triple (fun m => outer.Inside m.scopes) (executeFrom callee last body)
      (fun _ m => outer.Inside m.scopes) fun _ m => outer.Inside m.scopes := by
  induction body generalizing last with
  | nil => exact Triple.ret fun _ hm => hm
  | cons node nodes ih => exact Triple.bind (execute_inside hcallee outer node) fun value => ih value

/-- So do the parameters and the body of a call. -/
theorem bindAndExecute_inside (outer : Scopes Node) (bindings : List (String × Node))
    (body : List Node) :
    Triple (fun m => outer.Inside m.scopes) (do defineAll bindings; executeBody callee body)
      (fun _ m => outer.Inside m.scopes) fun _ m => outer.Inside m.scopes :=
  Triple.bind (Triple.defineAll fun _ _ _ hm => hm.define _ _) fun _ =>
    executeFrom_inside hcallee outer _ body

end Statements

/-! ## Calls -/

/-- A call keeps the scopes: it binds its parameters and runs its body in a scope of its own. -/
theorem invoke_keepsScopes (budget : Nat) : (invoke budget).KeepsScopes := by
  induction budget with
  | zero => exact fun _ _ _ _ _ _ => Triple.fail fun _ h => h
  | succ budget ih =>
    intro name position params body args scopes
    by_cases hlen : args.length = params.length
    case neg =>
      rw [invoke_of_length_ne budget name position params body args hlen]
      exact Triple.fail fun _ h => h
    rw [invoke_of_length_eq budget name position params body args hlen]
    refine Triple.bind (R := fun _ => Machine.HasScopes scopes) (Triple.note fun _ h => h) fun _ => ?_
    refine Triple.bind (R := fun _ => Machine.HasScopes scopes) ?_ fun result => ?_
    · refine Triple.inScope (I := fun m => scopes.Inside m.scopes)
        (R := fun _ m => scopes.Inside m.scopes) (F := fun _ m => scopes.Inside m.scopes) ?_ ?_ ?_ ?_
      · exact bindAndExecute_inside ih scopes (params.zip args) body
      · rintro m rfl
        exact m.scopes.inside_push
      · exact fun _ m hm => ⟨scopes, hm.pop?, rfl⟩
      · exact fun _ m hm => ⟨scopes, hm.pop?, rfl⟩
    · exact Triple.bind (Triple.note fun _ h => h) fun _ => Triple.ret fun _ h => h

/-! ## Programs -/

theorem runStatements_cons_ok {callee : Callee} {node value : Node} {nodes : List Node}
    {m m' : Machine}
    (h : execute callee node { m with log := m.log.note (.execute node.kindName) } = .ok value m') :
    runStatements callee (node :: nodes) m = runStatements callee nodes m' :=
  (bind_of_ok rfl).trans (bind_of_ok h)

theorem runStatements_cons_error {callee : Callee} {node : Node} {nodes : List Node}
    {failure : Failure} {m m' : Machine}
    (h : execute callee node { m with log := m.log.note (.execute node.kindName) } =
      .error failure m') :
    runStatements callee (node :: nodes) m = .error failure m' :=
  (bind_of_ok rfl).trans (bind_of_error h)

theorem runStatements_append (callee : Callee) (body body' : List Node) :
    runStatements callee (body ++ body') =
      (do runStatements callee body; runStatements callee body') := by
  induction body with
  | nil => rfl
  | cons node nodes ih =>
    rw [List.cons_append, runStatements, runStatements, ih]
    simp only [bind_assoc]

/-- A failing run: the statements before the failing one run, and their scopes are left. -/
theorem runStatements_error {callee : Callee} (hcallee : callee.KeepsScopes) {body : List Node}
    {failure : Failure} {m m' : Machine} (h : runStatements callee body m = .error failure m') :
    ∃ k m'', k < body.length ∧ runStatements callee (body.take k) m = .ok () m'' ∧
      m'.scopes = m''.scopes := by
  induction body generalizing m with
  | nil => cases h
  | cons node nodes ih =>
    cases hx : execute callee node { m with log := m.log.note (.execute node.kindName) } with
    | error failure' m₁ =>
      rw [runStatements_cons_error hx] at h
      cases h
      have hs := execute_error_scopes hcallee hx
      exact ⟨0, m, Nat.succ_pos _, rfl, hs⟩
    | ok value m₁ =>
      rw [runStatements_cons_ok hx] at h
      obtain ⟨k, m₂, hk, hrun, hs⟩ := ih h
      exact ⟨k + 1, m₂, Nat.succ_lt_succ hk, by rw [List.take_succ_cons, runStatements_cons_ok hx, hrun],
        hs⟩

/-- Evaluation changes no scope; a statement changes none unless it is an assignment whose
expression has a value, and then only that name in the innermost scope; and a run that fails has
the scopes that its first `k` statements leave, for some `k`. -/
theorem scopes_change_only_by_assignment (budget : Nat) (m : Machine) :
    (∀ node, (Ending.ofResult (evaluate (invoke budget) node m)).machine.scopes = m.scopes) ∧
    (∀ name expr value m', evaluate (invoke budget) expr m = .ok value m' →
      ∃ m'', execute (invoke budget) (.assign name expr) m = .ok value m'' ∧
        m''.scopes = m.scopes.define name value ∧ m.scopes.BindsOnly name value m''.scopes) ∧
    (∀ node, (∀ name expr value m', node = .assign name expr →
        evaluate (invoke budget) expr m ≠ .ok value m') →
      (Ending.ofResult (execute (invoke budget) node m)).machine.scopes = m.scopes) ∧
    (∀ body failure m', runWithin budget (.program body) m = .error failure m' →
      ∃ k m'', k < body.length ∧ runWithin budget (.program (body.take k)) m = .ok () m'' ∧
        m'.scopes = m''.scopes) := by
  have hkeep := invoke_keepsScopes budget
  refine ⟨fun node => (evaluate_keepsScopes hkeep node).machine m, ?_,
    fun node => execute_scopes_of_not_assigned hkeep node m, fun body failure m' =>
      runStatements_error hkeep⟩
  intro name expr value m' he
  obtain ⟨m'', hx, hs⟩ := execute_assign_scopes hkeep name he
  exact ⟨m'', hx, hs, hs ▸ m.scopes.define_bindsOnly name value⟩

/-- A function that binds a local name and then fails, and a call of it. -/
def failingCall : List Node :=
  [.assign "f" (.literal (.function ["n"]
    [.assign "x" (.lookup "n" .unknown), .expression (.lookup "z" .unknown)])),
    .expression (.call "f" [.number .zero] .unknown)]

/-- The failure inside the call leaves no local name behind. -/
theorem scopes_change_only_by_assignment_in_call :
    ∃ failure m' k m'', runWithin 1 (.program failingCall) (Machine.start 0) = .error failure m' ∧
      k < failingCall.length ∧
      runWithin 1 (.program (failingCall.take k)) (Machine.start 0) = .ok () m'' ∧
      m'.scopes = m''.scopes := by
  obtain ⟨failure, m', h⟩ : ∃ failure m',
      runWithin 1 (.program failingCall) (Machine.start 0) = .error failure m' := ⟨_, _, rfl⟩
  obtain ⟨k, m'', hk, hrun, hs⟩ :=
    (scopes_change_only_by_assignment 1 (Machine.start 0)).2.2.2 failingCall failure m' h
  exact ⟨failure, m', k, m'', h, hk, hrun, hs⟩

end Douro
