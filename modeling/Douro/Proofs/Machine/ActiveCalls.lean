import Douro.Proofs.Machine.Bracketing
import Douro.Proofs.Machine.Frame
import Douro.Proofs.Machine.Moment
import Douro.Proofs.Reading.Budget

/-!
# The trace and the calls under way

A machine keeps track of its calls: those that its trace leaves open are as many as its call scopes.
A computation that ends leaves them as they were, because it has ended every call that it has started.
A computation that fails has a chain of tasks inside it down to one that fails by itself. Nothing is
taken down behind that failure, so that the trace leaves the calls open through which the chain goes.

* `Machine.Tracks`, `invoke_keepsTrack`: what holds before and after everything that ends.
* `Stage.FailsAmid`: the calls that are under way when a task fails.
* `Stage.Enters.tracks`, `Stage.Enters.fails`, `Stage.tracked_of_breaks`: one step down the chain, one
  step up, and its end.
* `Stage.Leads.fails`, `Stage.Fails.exists_failsAmid`: whole chains.
* `trace_is_well_bracketed`: the traces of programs.
-/

namespace Douro

/-! ## Depths -/

namespace Scopes

variable {α : Type}

@[simp] theorem depth_define (scopes : Scopes α) (name : String) (value : α) :
    (scopes.define name value).depth = scopes.depth := by
  obtain ⟨globals, calls⟩ := scopes
  cases calls <;> rfl

theorem exists_pop? {scopes : Scopes α} {depth : Nat} (h : scopes.depth = depth + 1) :
    ∃ outer, scopes.pop? = some outer ∧ outer.depth = depth := by
  obtain ⟨globals, calls⟩ := scopes
  cases calls with
  | nil => cases h
  | cons scope calls => exact ⟨⟨globals, calls⟩, rfl, Nat.succ.inj h⟩

end Scopes

/-! ## Machines that keep track -/

/-- The trace leaves `calls` open, and these are as many as the machine has call scopes. -/
structure Machine.Tracks (calls : List Call) (m : Machine) : Prop where
  log : m.log.Tracked calls
  depth : m.scopes.depth = calls.length

namespace Machine.Tracks

variable {calls calls' : List Call} {m : Machine}

theorem note (h : m.Tracks calls) {event : Event} (hbracket : event.isBracket = false)
    (hdepth : ∀ name value depth, event = .define name value depth → calls.length = depth) :
    Tracks calls { m with log := m.log.note event } :=
  ⟨h.log.note (Event.openAfter?_of_not_isBracket hbracket calls) hdepth, h.depth⟩

theorem define (h : m.Tracks calls) (name : String) (value : Node) :
    Tracks calls { m with scopes := m.scopes.define name value } :=
  ⟨h.log, by rw [Scopes.depth_define, h.depth]⟩

/-- A call that starts. -/
theorem entered (h : m.Tracks calls) (name : String) (args : List Node) :
    Tracks (⟨name, args⟩ :: calls) (Stage.entered name args m) :=
  ⟨h.log.note rfl nofun, congrArg (· + 1) h.depth⟩

end Machine.Tracks

namespace Run

/-- A computation that ends leaves the open calls as they were. If it fails, it has left the scopes of
the calls that it has started. -/
def KeepsTrack {α : Type} (c : Run α) : Prop :=
  ∀ calls, Triple (Machine.Tracks calls) c (fun _ => Machine.Tracks calls)
    fun _ m => m.scopes.depth = calls.length

end Run

/-- Every call of the callee keeps track. -/
def Callee.KeepsTrack (callee : Callee) : Prop :=
  ∀ name position params body args, (callee name position params body args).KeepsTrack

open Run

mutual

theorem evaluate_keepsTrack {callee : Callee} (hcallee : callee.KeepsTrack) :
    (node : Node) → (evaluate callee node).KeepsTrack
  | .numeral _ => fun _ => Triple.ofExcept (fun _ _ _ h => h) fun _ _ _ h => h.depth
  | .literal _ | .number _ | .function _ _ => fun _ _ h => h
  | .lookup _ _ => fun _ => Triple.lookup (fun _ _ h _ => h) fun _ h => h.depth
  | .binary _ left right _ => by
    intro calls
    refine Triple.bind (evaluate_keepsTrack hcallee left calls) fun _ => ?_
    refine Triple.bind (evaluate_keepsTrack hcallee right calls) fun _ => ?_
    refine Triple.bind (Triple.ofExcept (fun _ _ _ h => h) fun _ _ _ h => h.depth) fun _ => ?_
    exact Triple.bind (Triple.note fun _ h => h.note rfl (by simp)) fun _ => Triple.ret fun _ h => h
  | .print expr => by
    intro calls
    refine Triple.bind (evaluate_keepsTrack hcallee expr calls) fun _ => ?_
    exact Triple.bind (Triple.print fun _ h => ⟨h.log, h.depth⟩) fun _ => Triple.ret fun _ h => h
  | .call name args position => by
    intro calls
    refine Triple.bind (Triple.lookup (fun _ _ h _ => h) fun _ h => h.depth) fun value => ?_
    split
    · next params body =>
      exact Triple.bind (evaluateAll_keepsTrack hcallee args calls) fun values =>
        hcallee name position params body values calls
    · exact Triple.fail fun _ h => h.depth
  | .absent | .program _ | .assign _ _ | .expression _ => fun _ => Triple.fail fun _ h => h.depth

theorem evaluateAll_keepsTrack {callee : Callee} (hcallee : callee.KeepsTrack) :
    (nodes : List Node) → (evaluateAll callee nodes).KeepsTrack
  | [] => fun _ _ h => h
  | node :: nodes => by
    intro calls
    refine Triple.bind (evaluate_keepsTrack hcallee node calls) fun _ => ?_
    exact Triple.bind (evaluateAll_keepsTrack hcallee nodes calls) fun _ => Triple.ret fun _ h => h

end

section Statements

variable {callee : Callee} (hcallee : callee.KeepsTrack)
include hcallee

theorem execute_keepsTrack (node : Node) : (execute callee node).KeepsTrack := by
  intro calls
  cases node with
  | assign name expr =>
    refine Triple.bind (evaluate_keepsTrack hcallee expr calls) fun value => ?_
    refine Triple.bind (R := fun _ => Machine.Tracks calls)
      (Triple.define fun _ h => h.define name value) fun _ => ?_
    refine Triple.bind (R := fun depth m => m.Tracks calls ∧ calls.length = depth)
      (Triple.depth fun _ h => ⟨h, h.depth.symm⟩) fun depth => ?_
    refine Triple.bind (Triple.note fun m h => ?_) fun _ => Triple.ret fun _ h => h
    exact h.1.note rfl (by rintro _ _ _ ⟨⟩; exact h.2)
  | expression expr => exact evaluate_keepsTrack hcallee expr calls
  | _ => exact Triple.fail fun _ h => h.depth

theorem executeFrom_keepsTrack (last : Node) (body : List Node) :
    (executeFrom callee last body).KeepsTrack := by
  induction body generalizing last with
  | nil => exact fun _ _ h => h
  | cons node nodes ih =>
    exact fun calls => Triple.bind (execute_keepsTrack hcallee node calls) fun value => ih value calls

/-- The parameters are bound and the body is run. -/
theorem bindAndExecute_keepsTrack (bindings : List (String × Node)) (body : List Node) :
    (do defineAll bindings; executeBody callee body).KeepsTrack := fun calls =>
  Triple.bind (Triple.defineAll fun _ _ _ h => h.define _ _) fun _ =>
    executeFrom_keepsTrack hcallee _ body calls

theorem runStatements_keepsTrack (body : List Node) : (runStatements callee body).KeepsTrack := by
  induction body with
  | nil => exact fun _ _ h => h
  | cons node nodes ih =>
    intro calls
    refine Triple.bind (R := fun _ => Machine.Tracks calls)
      (Triple.note fun _ h => h.note rfl nofun) fun _ => ?_
    exact Triple.bind (execute_keepsTrack hcallee node calls) fun _ => ih calls

end Statements

/-- A call is taken down when it starts and, if it has a value, when it ends. -/
theorem invoke_keepsTrack (budget : Nat) : (invoke budget).KeepsTrack := by
  induction budget with
  | zero => exact fun _ _ _ _ _ _ => Triple.fail fun _ h => h.depth
  | succ budget ih =>
    intro name position params body args calls
    by_cases hlen : args.length = params.length
    case neg =>
      rw [invoke_of_length_ne budget name position params body args hlen]
      exact Triple.fail fun _ h => h.depth
    rw [invoke_of_length_eq budget name position params body args hlen]
    let started (m : Machine) : Prop :=
      m.log.Tracked (⟨name, args⟩ :: calls) ∧ m.scopes.depth = calls.length
    refine Triple.bind (R := fun _ => started)
      (Triple.note fun _ h => ⟨h.log.note rfl nofun, h.depth⟩) fun _ => ?_
    refine Triple.bind (R := fun _ => started) ?_ fun result => ?_
    · refine Triple.inScope (bindAndExecute_keepsTrack ih (params.zip args) body (⟨name, args⟩ :: calls))
        ?_ ?_ ?_
      · exact fun m h => ⟨h.1, congrArg (· + 1) h.2⟩
      · intro value m h
        obtain ⟨outer, hpop, hdepth⟩ := Scopes.exists_pop? h.depth
        exact ⟨outer, hpop, h.log, hdepth⟩
      · intro failure m h
        exact Scopes.exists_pop? h
    · refine Triple.bind (Triple.note fun _ h => ?_) fun _ => Triple.ret fun _ h => h
      exact ⟨h.1.note (by simp [Event.openAfter?]) nofun, h.2⟩

/-! ## How computations fail -/

namespace Run

variable {α β : Type} {c : Run α} {f : α → Run β} {m m' : Machine} {failure : Failure}

/-- A computation in two parts fails in the first or in the second. -/
theorem bind_eq_error (h : (c >>= f) m = .error failure m') :
    c m = .error failure m' ∨ ∃ value m₁, c m = .ok value m₁ ∧ f value m₁ = .error failure m' := by
  cases hc : c m with
  | ok value m₁ =>
    rw [bind_of_ok hc] at h
    exact .inr ⟨value, m₁, rfl, h⟩
  | error failure₁ m₁ =>
    rw [bind_of_error hc] at h
    cases h
    exact .inl rfl

theorem lookup_of_get? {name : String} {position : Position} {value : Node}
    (h : m.scopes.get? name = some value) : lookup name position m = .ok value m := by
  rw [lookup, h]

theorem lookup_eq_ok {name : String} {position : Position} {value : Node}
    (h : lookup name position m = .ok value m') : m' = m ∧ m.scopes.get? name = some value := by
  unfold lookup at h
  split at h <;> cases h
  next hget => exact ⟨rfl, hget⟩

theorem lookup_eq_error {name : String} {position : Position}
    (h : lookup name position m = .error failure m') : m' = m := by
  unfold lookup at h
  split at h <;> cases h
  rfl

theorem ofExcept_eq_error {result : Except Failure α} (h : ofExcept result m = .error failure m') :
    m' = m := by
  cases result <;> cases h
  rfl

end Run

/-! ## How calls fail -/

section Calls

variable {n : Nat} {name : String} {position : Position} {params : List String}
  {body args : List Node} {m m' : Machine} {failure : Failure} {calls : List Call}

/-- A call whose body fails. -/
theorem invoke_of_body_error (hlen : args.length = params.length) (ht : m.Tracks calls)
    (h : (do defineAll (params.zip args); executeBody (invoke n) body) (Stage.entered name args m) =
      .error failure m') :
    ∃ outer, invoke (n + 1) name position params body args m =
      .error failure { m' with scopes := outer } := by
  have hdepth := (bindAndExecute_keepsTrack (invoke_keepsTrack n) (params.zip args) body _).of_error
    (ht.entered name args) h
  obtain ⟨outer, hpop, -⟩ := Scopes.exists_pop? hdepth
  have hscope : inScope (do defineAll (params.zip args); executeBody (invoke n) body)
      { m with log := m.log.note (.call name args) } =
        .error failure { m' with scopes := outer } := inScope_of_error h hpop
  refine ⟨outer, ?_⟩
  rw [invoke_of_length_eq n name position params body args hlen]
  exact (bind_of_ok rfl).trans (bind_of_error hscope)

/-- A call with the right number of arguments fails only if its body does. -/
theorem body_error_of_invoke (hlen : args.length = params.length) (ht : m.Tracks calls)
    (h : invoke (n + 1) name position params body args m = .error failure m') :
    ∃ m₁, (do defineAll (params.zip args); executeBody (invoke n) body)
      (Stage.entered name args m) = .error failure m₁ := by
  cases hbody : (do defineAll (params.zip args); executeBody (invoke n) body)
      (Stage.entered name args m) with
  | ok value m₁ =>
    have hkept := (bindAndExecute_keepsTrack (invoke_keepsTrack n) (params.zip args) body _).of_ok
      (ht.entered name args) hbody
    obtain ⟨outer, hpop, -⟩ := Scopes.exists_pop? hkept.depth
    have hscope : inScope (do defineAll (params.zip args); executeBody (invoke n) body)
        { m with log := m.log.note (.call name args) } =
          .ok value { m₁ with scopes := outer } := inScope_of_ok hbody hpop
    rw [invoke_of_length_eq n name position params body args hlen] at h
    cases ((bind_of_ok rfl).trans (bind_of_ok hscope)).symm.trans h
  | error failure₁ m₁ =>
    obtain ⟨outer, hinvoke⟩ := invoke_of_body_error hlen ht hbody
    cases hinvoke.symm.trans h
    exact ⟨m₁, rfl⟩

end Calls

/-! ## Tasks that fail -/

namespace Stage

/-- The task fails and leaves a machine. -/
def Fails : Stage → Failure → Machine → Prop
  | ⟨n, .program body, m⟩, failure, m' => runStatements (invoke n) body m = .error failure m'
  | ⟨n, .statement node, m⟩, failure, m' => execute (invoke n) node m = .error failure m'
  | ⟨n, .expression node, m⟩, failure, m' => evaluate (invoke n) node m = .error failure m'
  | ⟨n, .expressions nodes, m⟩, failure, m' => evaluateAll (invoke n) nodes m = .error failure m'
  | ⟨n, .bindings bindings body, m⟩, failure, m' =>
    (do Run.defineAll bindings; executeBody (invoke n) body) m = .error failure m'
  | ⟨n, .body last nodes, m⟩, failure, m' =>
    executeFrom (invoke n) last nodes m = .error failure m'

/-- No task that the given one carries out fails. -/
def InnerSucceed (s : Stage) : Prop := ∀ s', s.Enters s' → ∀ failure m, ¬ s'.Fails failure m

/-- The task fails, but none that it carries out. -/
def Breaks (s : Stage) (failure : Failure) : Prop := (∃ m, s.Fails failure m) ∧ s.InnerSucceed

/-- The call that a task starts when it carries out another: if the one is a call, and the other its
body. -/
def opened : Stage → Stage → List Call
  | ⟨_, .expression (.call name _ _), _⟩, ⟨_, .bindings bindings _, _⟩ =>
    [⟨name, bindings.map Prod.snd⟩]
  | _, _ => []

/-- A task leads to another inside it, and `calls` have started and not ended between them, the
innermost first. -/
inductive Leads : Stage → List Call → Stage → Prop
  | refl {s : Stage} : Leads s [] s
  | enter {s s' last : Stage} {calls : List Call} : s.Enters s' → Leads s' calls last →
    Leads s (calls ++ s.opened s') last

/-- The task fails while `calls` are under way inside it, the innermost first. -/
def FailsAmid (s : Stage) (failure : Failure) (calls : List Call) : Prop :=
  ∃ last, s.Leads calls last ∧ last.Breaks failure

variable {s s' : Stage} {failure : Failure} {m : Machine} {calls : List Call}

theorem Fails.unique {failure' : Failure} {m' : Machine} (h : s.Fails failure m)
    (h' : s.Fails failure' m') : failure = failure' ∧ m = m' := by
  obtain ⟨n, task, start⟩ := s
  cases task <;> cases h.symm.trans h' <;> exact ⟨rfl, rfl⟩

/-- A task starts where the trace leaves those calls open that have started before it. -/
theorem Enters.tracks (h : s.Enters s') (ht : s.machine.Tracks calls) :
    s'.machine.Tracks (s.opened s' ++ calls) := by
  cases h with
  | assigned | evaluated | left | printed | arguments | firstArgument | body | firstOfBody =>
    exact ht
  | firstOfProgram => exact ht.note rfl (by simp)
  | bound => exact ht.define _ _
  | @restOfProgram n node _ _ _ _ hx =>
    exact (execute_keepsTrack (invoke_keepsTrack n) node calls).of_ok (ht.note rfl (by simp)) hx
  | @right n _ left _ _ _ _ _ hx =>
    exact (evaluate_keepsTrack (invoke_keepsTrack n) left calls).of_ok ht hx
  | @call n name args _ _ params _ values _ _ hargs hlen =>
    -- The calls in the arguments have ended when this one starts.
    have ht' := (evaluateAll_keepsTrack (invoke_keepsTrack (n + 1)) args calls).of_ok ht hargs
    show Machine.Tracks (⟨name, (params.zip values).map Prod.snd⟩ :: calls) _
    rw [List.map_snd_zip (Nat.le_of_eq hlen)]
    exact ht'.entered name values
  | @restOfArguments n node _ _ _ _ hx =>
    exact (evaluate_keepsTrack (invoke_keepsTrack n) node calls).of_ok ht hx
  | @restOfBody n _ node _ _ _ _ hx =>
    exact (execute_keepsTrack (invoke_keepsTrack n) node calls).of_ok ht hx

/-- A task fails as one that it carries out, and nothing is taken down behind that. -/
theorem Enters.fails (h : s.Enters s') (ht : s.machine.Tracks calls) (hf : s'.Fails failure m) :
    ∃ m', s.Fails failure m' ∧ m'.log = m.log := by
  cases h with
  | evaluated | bound | body => exact ⟨m, hf, rfl⟩
  | firstOfProgram => exact ⟨m, runStatements_cons_error hf, rfl⟩
  | restOfProgram hx => exact ⟨m, (runStatements_cons_ok hx).trans hf, rfl⟩
  | assigned | left | printed | firstArgument | firstOfBody => exact ⟨m, bind_of_error hf, rfl⟩
  | right hx | restOfArguments hx => exact ⟨m, (bind_of_ok hx).trans (bind_of_error hf), rfl⟩
  | restOfBody hx => exact ⟨m, (bind_of_ok hx).trans hf, rfl⟩
  | arguments hget =>
    exact ⟨m, (bind_of_ok (lookup_of_get? hget)).trans (bind_of_error hf), rfl⟩
  | @call n _ args _ _ _ _ _ _ hget hargs hlen =>
    have ht₁ := (evaluateAll_keepsTrack (invoke_keepsTrack (n + 1)) args calls).of_ok ht hargs
    obtain ⟨outer, hinvoke⟩ := invoke_of_body_error hlen ht₁ hf
    refine ⟨{ m with scopes := outer }, ?_, rfl⟩
    exact ((bind_of_ok (lookup_of_get? hget)).trans (bind_of_ok hargs)).trans hinvoke

section Breaks

variable {n : Nat} {start : Machine} (ht : start.Tracks calls)
include ht

/-- A call that fails before it has started. -/
theorem tracked_of_call_breaks {name : String} {args : List Node} {position : Position}
    (hinner : InnerSucceed ⟨n, .expression (.call name args position), start⟩)
    (hf : evaluate (invoke n) (.call name args position) start = .error failure m) :
    m.log.Tracked calls := by
  rcases bind_eq_error hf with hlookup | ⟨value, m₁, hlookup, hrest⟩
  · rw [lookup_eq_error hlookup]
    exact ht.log
  obtain ⟨rfl, hget⟩ := lookup_eq_ok hlookup
  split at hrest
  case h_2 =>
    cases hrest
    exact ht.log
  case h_1 params body =>
    rcases bind_eq_error hrest with hargs | ⟨values, m₂, hargs, hinvoke⟩
    · exact absurd hargs (hinner _ (.arguments hget) _ _)
    have ht₂ := (evaluateAll_keepsTrack (invoke_keepsTrack n) args calls).of_ok ht hargs
    -- What is refused here, for its depth or its arguments, has not been taken down.
    cases n with
    | zero =>
      cases hinvoke
      exact ht₂.log
    | succ n =>
      by_cases hlen : values.length = params.length
      · obtain ⟨m₃, hbody⟩ := body_error_of_invoke hlen ht₂ hinvoke
        exact absurd hbody (hinner _ (.call hget hargs hlen) _ _)
      · rw [invoke_of_length_ne n name position params body values hlen] at hinvoke
        cases hinvoke
        exact ht₂.log

/-- An expression that fails by itself. -/
theorem tracked_of_expression_breaks {node : Node}
    (hinner : InnerSucceed ⟨n, .expression node, start⟩)
    (hf : evaluate (invoke n) node start = .error failure m) : m.log.Tracked calls := by
  cases node with
  | literal | number | function => cases hf
  | absent | program | assign | expression =>
    cases hf
    exact ht.log
  | numeral text =>
    rw [ofExcept_eq_error hf]
    exact ht.log
  | lookup name position =>
    rw [lookup_eq_error hf]
    exact ht.log
  | print expr =>
    rcases bind_eq_error hf with hexpr | ⟨value, m₁, -, hprint⟩
    · exact absurd hexpr (hinner _ .printed _ _)
    · cases hprint
  | binary op left right position =>
    rcases bind_eq_error hf with hleft | ⟨a, m₁, hleft, hrest⟩
    · exact absurd hleft (hinner _ .left _ _)
    have ht₁ := (evaluate_keepsTrack (invoke_keepsTrack n) left calls).of_ok ht hleft
    rcases bind_eq_error hrest with hright | ⟨b, m₂, hright, hcombine⟩
    · exact absurd hright (hinner _ (.right hleft) _ _)
    have ht₂ := (evaluate_keepsTrack (invoke_keepsTrack n) right calls).of_ok ht₁ hright
    rcases bind_eq_error hcombine with hcombine | ⟨result, m₃, -, hnote⟩
    · rw [ofExcept_eq_error hcombine]
      exact ht₂.log
    · cases hnote
  | call name args position => exact tracked_of_call_breaks ht hinner hf

end Breaks

/-- A task that fails by itself leaves the calls open that have started before it. -/
theorem tracked_of_breaks (ht : s.machine.Tracks calls) (hf : s.Fails failure m)
    (hinner : s.InnerSucceed) : m.log.Tracked calls := by
  obtain ⟨n, task, start⟩ := s
  cases task with
  | program body =>
    cases body with
    | nil => cases hf
    | cons node nodes =>
      cases hx : execute (invoke n) node { start with log := start.log.note (.execute node.kindName) } with
      | error failure' m' => exact absurd hx (hinner _ .firstOfProgram _ _)
      | ok value m' =>
        exact absurd ((runStatements_cons_ok hx).symm.trans hf) (hinner _ (.restOfProgram hx) _ _)
  | statement node =>
    cases node with
    | assign name expr =>
      rcases bind_eq_error hf with hexpr | ⟨value, m₁, -, hdefine⟩
      · exact absurd hexpr (hinner _ .assigned _ _)
      · cases hdefine
    | expression expr => exact absurd hf (hinner _ .evaluated _ _)
    | _ =>
      cases hf
      exact ht.log
  | expression node => exact tracked_of_expression_breaks ht hinner hf
  | expressions nodes =>
    cases nodes with
    | nil => cases hf
    | cons node nodes =>
      rcases bind_eq_error hf with hnode | ⟨value, m₁, hnode, hrest⟩
      · exact absurd hnode (hinner _ .firstArgument _ _)
      rcases bind_eq_error hrest with hnodes | ⟨values, m₂, -, hreturn⟩
      · exact absurd hnodes (hinner _ (.restOfArguments hnode) _ _)
      · cases hreturn
  | bindings bindings body =>
    cases bindings with
    | nil => exact absurd hf (hinner _ .body _ _)
    | cons binding bindings => exact absurd hf (hinner _ .bound _ _)
  | body last nodes =>
    cases nodes with
    | nil => cases hf
    | cons node nodes =>
      rcases bind_eq_error hf with hnode | ⟨value, m₁, hnode, hrest⟩
      · exact absurd hnode (hinner _ .firstOfBody _ _)
      · exact absurd hrest (hinner _ (.restOfBody hnode) _ _)

/-! ## Chains of tasks -/

/-- A task fails as the last one of a chain inside it does by itself, and leaves the calls of the chain
open. -/
theorem Leads.fails {last : Stage} {inner : List Call} (h : s.Leads inner last)
    (ht : s.machine.Tracks calls) (hb : last.Breaks failure) :
    ∃ m, s.Fails failure m ∧ m.log.Tracked (inner ++ calls) := by
  induction h generalizing calls with
  | refl =>
    obtain ⟨⟨m, hf⟩, hinner⟩ := hb
    exact ⟨m, hf, tracked_of_breaks ht hf hinner⟩
  | enter he _ ih =>
    obtain ⟨m, hf, hm⟩ := ih (he.tracks ht) hb
    obtain ⟨m', hf', hlog⟩ := he.fails ht hf
    refine ⟨m', hf', ?_⟩
    rw [hlog, List.append_assoc]
    exact hm

/-- How much of the program is left to a task, apart from the bodies of calls. -/
noncomputable def workload : Stage → Nat
  | ⟨_, .program nodes, _⟩ | ⟨_, .expressions nodes, _⟩ | ⟨_, .body _ nodes, _⟩ => sizeOf nodes
  | ⟨_, .statement node, _⟩ | ⟨_, .expression node, _⟩ => sizeOf node
  | ⟨_, .bindings bindings body, _⟩ => sizeOf body + bindings.length + 1

/-- A task has less to do than the one that carries it out, or has a smaller budget for calls. -/
theorem Enters.decreases (h : s.Enters s') :
    s'.budget < s.budget ∨ s'.budget = s.budget ∧ s'.workload < s.workload := by
  cases h with
  | call => exact .inl (Nat.lt_succ_self _)
  | _ =>
    refine .inr ⟨rfl, ?_⟩
    simp only [workload, List.cons.sizeOf_spec, Node.assign.sizeOf_spec,
      Node.expression.sizeOf_spec, Node.binary.sizeOf_spec, Node.print.sizeOf_spec,
      Node.call.sizeOf_spec, List.length_cons, List.length_nil]
    omega

/-- A task that fails leads to one that fails by itself. -/
theorem Fails.exists_failsAmid {s : Stage} {m : Machine} {calls : List Call}
    (hf : s.Fails failure m) (ht : s.machine.Tracks calls) : ∃ inner, s.FailsAmid failure inner := by
  by_cases h : ∃ s' failure' m', s.Enters s' ∧ s'.Fails failure' m'
  · obtain ⟨s', failure', m', he, hf'⟩ := h
    obtain ⟨m₁, hf₁, -⟩ := he.fails ht hf'
    obtain ⟨rfl, -⟩ := hf.unique hf₁
    obtain ⟨inner, last, hleads, hb⟩ := hf'.exists_failsAmid (he.tracks ht)
    exact ⟨_, last, .enter he hleads, hb⟩
  · exact ⟨[], s, .refl, ⟨m, hf⟩, fun s' he failure' m' hf' => h ⟨s', failure', m', he, hf'⟩⟩
termination_by (s.budget, s.workload)
decreasing_by
  rcases he.decreases with hb | ⟨hb, hw⟩
  · exact .left _ _ hb
  · rw [hb]
    exact .right _ hw

/-- Where no call was open, the calls under way at a failure are left open. -/
theorem FailsAmid.tracked {inner : List Call} (h : s.FailsAmid failure inner)
    (ht : s.machine.Tracks []) {failure' : Failure} (hf : s.Fails failure' m) :
    m.log.Tracked inner := by
  obtain ⟨last, hleads, hb⟩ := h
  obtain ⟨m', hf', hm'⟩ := hleads.fails ht hb
  obtain ⟨-, rfl⟩ := hf.unique hf'
  rwa [List.append_nil] at hm'

end Stage

/-! ## Whole runs -/

/-- The starts and ends of calls in the trace of a run match as far as it goes. All calls are closed if
the run ends without a failure. Otherwise those are open that were under way when it failed: there is
a chain of tasks that leads to the failure, and these are the calls that any such chain goes through.
And each binding tells how many calls are open at its place. -/
theorem trace_is_well_bracketed {source : String} {program : Node}
    (h : Node.ofSource source = .ok program) (budget : Nat) {level : Int} (hlevel : 1 ≤ level) :
    let ending := Ending.ofResult (runWithin budget program (Machine.start level))
    let events := ending.machine.log.events.toList
    ∃ body, program = .program body ∧ ending.machine.log.lines = events.map Event.text ∧
      (∃ more, WellNested (events.filter Event.isBracket ++ more)) ∧
      (ending.failure? = none → WellNested (events.filter Event.isBracket)) ∧
      (∀ failure, ending.failure? = some failure →
        (∃ calls, Stage.FailsAmid ⟨budget, .program body, Machine.start level⟩ failure calls) ∧
        ∀ calls, Stage.FailsAmid ⟨budget, .program body, Machine.start level⟩ failure calls →
          openCalls? events = some calls) ∧
      DepthsFit events := by
  obtain ⟨tokens, -, hread⟩ := Reading.ofSource_eq_ok_iff.mp h
  obtain ⟨body, rfl, -⟩ := Reading.ofTokens_eq_ok_iff.mp hread
  have hstart : (Machine.start level).Tracks [] := ⟨Log.tracked_start hlevel, rfl⟩
  refine ⟨body, rfl, rfl, ?_⟩
  cases hrun : runWithin budget (.program body) (Machine.start level) with
  | ok value m =>
    have hm := ((runStatements_keepsTrack (invoke_keepsTrack budget) body []).of_ok hstart hrun).log
    have hnested := wellNested_of_openCalls? hm.openCalls
    refine ⟨⟨_, hnested⟩, fun _ => ?_, nofun, hm.depths⟩
    rwa [endsOf, List.map_nil, List.append_nil] at hnested
  | error failure m =>
    have hf : Stage.Fails ⟨budget, .program body, Machine.start level⟩ failure m := hrun
    obtain ⟨calls, hamid⟩ := hf.exists_failsAmid hstart
    have hm := hamid.tracked hstart hf
    refine ⟨⟨_, wellNested_of_openCalls? hm.openCalls⟩, nofun, ?_, hm.depths⟩
    rintro _ ⟨⟩
    exact ⟨⟨calls, hamid⟩, fun other hother => (hother.tracked hstart hf).openCalls⟩

/-- A function that binds a name and then calls itself with too many arguments. The call that is
refused is not taken down. -/
theorem trace_is_well_bracketed_at_refused_call :
    ∃ program, Node.ofSource "f = function(n) (m = n; f(m, n))\nf(1)" = .ok program ∧
      let ending := Ending.ofResult (runWithin 2 program (Machine.start 2))
      let events := ending.machine.log.events.toList
      (ending.failure? = some (.arity "f" 1 2 ⟨some 1, some 25⟩) ∧
        ending.machine.log.lines = ["execute Assign", "define f = <function(n)> (depth 0)",
          "execute ExprStmt", "call f(1)", "define m = 1 (depth 1)"]) ∧
      ∃ body, program = .program body ∧ ending.machine.log.lines = events.map Event.text ∧
        (∃ more, WellNested (events.filter Event.isBracket ++ more)) ∧
        (ending.failure? = none → WellNested (events.filter Event.isBracket)) ∧
        (∀ failure, ending.failure? = some failure →
          (∃ calls, Stage.FailsAmid ⟨2, .program body, Machine.start 2⟩ failure calls) ∧
          ∀ calls, Stage.FailsAmid ⟨2, .program body, Machine.start 2⟩ failure calls →
            openCalls? events = some calls) ∧
        DepthsFit events := by
  have hscan : scanSource "f = function(n) (m = n; f(m, n))\nf(1)" = .ok
      [⟨.identifier, "f", 1, 1⟩, ⟨.punctuation, "=", 1, 3⟩, ⟨.keyword, "function", 1, 5⟩,
        ⟨.punctuation, "(", 1, 13⟩, ⟨.identifier, "n", 1, 14⟩, ⟨.punctuation, ")", 1, 15⟩,
        ⟨.punctuation, "(", 1, 17⟩, ⟨.identifier, "m", 1, 18⟩, ⟨.punctuation, "=", 1, 20⟩,
        ⟨.identifier, "n", 1, 22⟩, ⟨.punctuation, ";", 1, 23⟩, ⟨.identifier, "f", 1, 25⟩,
        ⟨.punctuation, "(", 1, 26⟩, ⟨.identifier, "m", 1, 27⟩, ⟨.punctuation, ",", 1, 28⟩,
        ⟨.identifier, "n", 1, 30⟩, ⟨.punctuation, ")", 1, 31⟩, ⟨.punctuation, ")", 1, 32⟩,
        ⟨.newline, "\n", 1, 33⟩, ⟨.identifier, "f", 2, 1⟩, ⟨.punctuation, "(", 2, 2⟩,
        ⟨.number, "1", 2, 3⟩, ⟨.punctuation, ")", 2, 4⟩] := by
    with_unfolding_all rfl
  have hread : Node.ofSource "f = function(n) (m = n; f(m, n))\nf(1)" = .ok (.program
      [.assign "f" (.literal (.function ["n"] [.assign "m" (.lookup "n" ⟨some 1, some 22⟩),
        .expression (.call "f" [.lookup "m" ⟨some 1, some 27⟩, .lookup "n" ⟨some 1, some 30⟩]
          ⟨some 1, some 25⟩)])),
      .expression (.call "f" [.numeral "1"] ⟨some 2, some 1⟩)]) := by
    rw [Node.ofSource, hscan]
    rfl
  exact ⟨_, hread, ⟨rfl, by decide⟩, trace_is_well_bracketed hread 2 (by decide)⟩

end Douro
