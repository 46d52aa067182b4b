import Douro.Proofs.Machine.Frame

/-!
# A smaller budget only cuts a run short

Two runs of one program with different budgets for nested calls take the same steps until the smaller
budget is used up. The call that has no budget left fails, and so does everything around it. On the
way out nothing is printed, logged or bound, so that the run with the smaller budget is a beginning of
the other one.

* `Machine.Precedes`: what has been printed and logged is a beginning.
* `Run.Truncates`: one computation is another one, or a beginning of it.
* `evaluate_truncates`, `execute_truncates`, `invoke_truncates`, `runStatements_truncates`: every step
  with a smaller budget truncates the same step with a larger one.
* `smaller_budget_truncates`: whole runs.
-/

namespace Douro

/-! ## Beginnings -/

/-- What the first machine has printed and logged is a beginning of what the second one has. -/
structure Machine.Precedes (m m' : Machine) : Prop where
  printed : m.printed.toList <+: m'.printed.toList
  events : m.log.events.toList <+: m'.log.events.toList

namespace Machine.Precedes

variable {m m' m'' : Machine}

theorem refl (m : Machine) : m.Precedes m := ⟨List.prefix_refl _, List.prefix_refl _⟩

theorem trans (h : m.Precedes m') (h' : m'.Precedes m'') : m.Precedes m'' :=
  ⟨h.printed.trans h'.printed, h.events.trans h'.events⟩

/-- The scopes do not matter. -/
theorem withScopes (h : m.Precedes m') (scopes scopes' : Scopes Node) :
    Precedes { m with scopes } { m' with scopes := scopes' } := ⟨h.printed, h.events⟩

theorem print (m : Machine) (line : String) :
    m.Precedes { m with printed := m.printed.push line } := by
  refine ⟨?_, List.prefix_refl _⟩
  rw [Array.toList_push]
  exact List.prefix_append _ _

theorem note (m : Machine) (event : Event) : m.Precedes { m with log := m.log.note event } := by
  refine ⟨List.prefix_refl _, ?_⟩
  unfold Log.note
  split
  · rw [Array.toList_push]
    exact List.prefix_append _ _
  · exact List.prefix_refl _

theorem lines (h : m.Precedes m') : m.log.lines <+: m'.log.lines := h.events.map _

end Machine.Precedes

namespace Run

variable {α β : Type}

/-- The machine that a computation leaves, whether or not it fails. -/
def after (c : Run α) (m : Machine) : Machine := (Ending.ofResult (c m)).machine

/-- The first computation ends as the second one does, or it fails in the middle of it because calls
are nested too deep. The second one takes back nothing that has been printed or logged. -/
structure Truncates (c c' : Run α) : Prop where
  grows (m : Machine) : m.Precedes (c'.after m)
  same_or_cut (m : Machine) :
    c m = c' m ∨ ∃ m', c m = .error .tooDeep m' ∧ m'.Precedes (c'.after m)

namespace Truncates

variable {c c' : Run α}

/-! ## The operations of a machine -/

/-- A computation truncates itself if it takes back nothing. -/
theorem of_grows (h : ∀ m : Machine, m.Precedes (c.after m)) : c.Truncates c :=
  ⟨h, fun _ => .inl rfl⟩

theorem ret (value : α) : (pure value : Run α).Truncates (pure value) :=
  of_grows fun m => .refl m

theorem fail (failure : Failure) : (throw failure : Run α).Truncates (throw failure) :=
  of_grows fun m => .refl m

theorem ofExcept (result : Except Failure α) :
    (Run.ofExcept result).Truncates (Run.ofExcept result) := by
  cases result with
  | ok value => exact ret value
  | error failure => exact fail failure

theorem lookup (name : String) (position : Position) :
    (Run.lookup name position).Truncates (Run.lookup name position) := by
  refine of_grows fun m => ?_
  unfold after Run.lookup
  cases m.scopes.get? name with
  | some value => exact .refl m
  | none => exact .refl m

theorem define (name : String) (value : Node) :
    (Run.define name value).Truncates (Run.define name value) :=
  of_grows fun m => (Machine.Precedes.refl m).withScopes m.scopes _

theorem depth : Run.depth.Truncates Run.depth := of_grows fun m => .refl m

theorem print (line : String) : (Run.print line).Truncates (Run.print line) :=
  of_grows fun m => .print m line

theorem note (event : Event) : (Run.note event).Truncates (Run.note event) :=
  of_grows fun m => .note m event

/-! ## Composition -/

/-- What follows a computation takes back nothing of it. -/
theorem after_bind {f : α → Run β} (hf : ∀ value (m : Machine), m.Precedes ((f value).after m))
    (m : Machine) :
    (c.after m).Precedes ((c >>= f).after m) := by
  unfold after
  cases hc : c m with
  | ok value m' =>
    rw [bind_of_ok hc]
    exact hf value m'
  | error failure m' =>
    rw [bind_of_error hc]
    exact .refl m'

theorem bind {f f' : α → Run β} (hc : c.Truncates c')
    (hf : ∀ value, (f value).Truncates (f' value)) : (c >>= f).Truncates (c' >>= f') := by
  have hbehind := after_bind (c := c') fun value => (hf value).grows
  refine ⟨fun m => (hc.grows m).trans (hbehind m), fun m => ?_⟩
  rcases hc.same_or_cut m with hsame | ⟨m', hcut, hm'⟩
  · cases hr : c' m with
    | ok value m' =>
      have hrest := (hf value).same_or_cut m'
      unfold after at hrest ⊢
      rwa [bind_of_ok (hsame.trans hr), bind_of_ok hr]
    | error failure m' =>
      left
      rw [bind_of_error (hsame.trans hr), bind_of_error hr]
  · exact .inr ⟨m', bind_of_error hcut, hm'.trans (hbehind m)⟩

theorem defineAll (bindings : List (String × Node)) :
    (Run.defineAll bindings).Truncates (Run.defineAll bindings) := by
  induction bindings with
  | nil => exact ret ()
  | cons binding bindings ih => exact (define binding.1 binding.2).bind fun _ => ih

/-- Leaving a scope takes back nothing. -/
theorem after_inScope (m : Machine) :
    (c.after { m with scopes := m.scopes.push }).Precedes ((Run.inScope c).after m) := by
  unfold after Run.inScope
  cases c { m with scopes := m.scopes.push } with
  | ok value m' =>
    simp only [leave]
    cases m'.scopes.pop? <;> exact ⟨List.prefix_refl _, List.prefix_refl _⟩
  | error failure m' =>
    simp only [leave]
    cases m'.scopes.pop? <;> exact ⟨List.prefix_refl _, List.prefix_refl _⟩

/-- A computation that is cut short in a call scope still leaves that scope. -/
theorem inScope (h : c.Truncates c')
    (hinside : ∀ outer : Scopes Node, Triple (fun m => outer.Inside m.scopes) c
      (fun _ m => outer.Inside m.scopes) fun _ m => outer.Inside m.scopes) :
    (Run.inScope c).Truncates (Run.inScope c') := by
  refine ⟨fun m => ?_, fun m => ?_⟩
  · have hentered := h.grows { m with scopes := m.scopes.push }
    exact (hentered.withScopes m.scopes _).trans (after_inScope m)
  · rcases h.same_or_cut { m with scopes := m.scopes.push } with hsame | ⟨m', hcut, hm'⟩
    · exact .inl (congrArg leave hsame)
    · have hpop := ((hinside m.scopes).of_error m.scopes.inside_push hcut).pop?
      exact .inr ⟨_, inScope_of_error hcut hpop, (hm'.withScopes m.scopes _).trans (after_inScope m)⟩

end Truncates

end Run

/-! ## Expressions -/

/-- Every call of the first callee truncates that of the second. -/
def Callee.Truncates (callee callee' : Callee) : Prop :=
  ∀ name position params body args,
    (callee name position params body args).Truncates (callee' name position params body args)

open Run

mutual

theorem evaluate_truncates {callee callee' : Callee} (hcallee : callee.Truncates callee') :
    (node : Node) → (evaluate callee node).Truncates (evaluate callee' node)
  | .numeral _ => .ofExcept _
  | .literal _ | .number _ | .function _ _ => .ret _
  | .lookup name position => .lookup name position
  | .binary _ left right _ => by
    refine (evaluate_truncates hcallee left).bind fun _ => ?_
    refine (evaluate_truncates hcallee right).bind fun _ => ?_
    refine (Truncates.ofExcept _).bind fun _ => ?_
    exact (Truncates.note _).bind fun _ => .ret _
  | .print expr => by
    refine (evaluate_truncates hcallee expr).bind fun _ => ?_
    exact (Truncates.print _).bind fun _ => .ret _
  | .call name args position => by
    refine (Truncates.lookup name position).bind fun value => ?_
    split
    · next params body =>
      exact (evaluateAll_truncates hcallee args).bind fun values =>
        hcallee name position params body values
    · exact .fail _
  | .absent | .program _ | .assign _ _ | .expression _ => .fail _

theorem evaluateAll_truncates {callee callee' : Callee} (hcallee : callee.Truncates callee') :
    (nodes : List Node) → (evaluateAll callee nodes).Truncates (evaluateAll callee' nodes)
  | [] => .ret _
  | node :: nodes => by
    refine (evaluate_truncates hcallee node).bind fun _ => ?_
    exact (evaluateAll_truncates hcallee nodes).bind fun _ => .ret _

end

/-! ## Statements -/

section Statements

variable {callee callee' : Callee} (hcallee : callee.Truncates callee')
include hcallee

theorem execute_truncates (node : Node) : (execute callee node).Truncates (execute callee' node) := by
  cases node with
  | assign name expr =>
    refine (evaluate_truncates hcallee expr).bind fun value => ?_
    refine (Truncates.define name value).bind fun _ => ?_
    refine Truncates.depth.bind fun depth => ?_
    exact (Truncates.note _).bind fun _ => .ret value
  | expression expr => exact evaluate_truncates hcallee expr
  | _ => exact .fail _

theorem executeFrom_truncates (last : Node) (body : List Node) :
    (executeFrom callee last body).Truncates (executeFrom callee' last body) := by
  induction body generalizing last with
  | nil => exact .ret last
  | cons node nodes ih => exact (execute_truncates hcallee node).bind ih

theorem runStatements_truncates (body : List Node) :
    (runStatements callee body).Truncates (runStatements callee' body) := by
  induction body with
  | nil => exact .ret ()
  | cons node nodes ih =>
    exact (Truncates.note _).bind fun _ => (execute_truncates hcallee node).bind fun _ => ih

end Statements

/-! ## Calls -/

/-- One more call in both budgets. -/
theorem invoke_succ_truncates {n m : Nat} (h : (invoke n).Truncates (invoke m)) :
    (invoke (n + 1)).Truncates (invoke (m + 1)) := by
  intro name position params body args
  by_cases hlen : args.length = params.length
  case neg =>
    rw [invoke_of_length_ne n name position params body args hlen,
      invoke_of_length_ne m name position params body args hlen]
    exact .fail _
  rw [invoke_of_length_eq n name position params body args hlen,
    invoke_of_length_eq m name position params body args hlen]
  refine (Truncates.note _).bind fun _ => ?_
  refine Truncates.bind ?_ fun result => (Truncates.note _).bind fun _ => .ret result
  refine Truncates.inScope ?_ fun outer => ?_
  · exact (Truncates.defineAll _).bind fun _ => executeFrom_truncates h _ body
  · exact bindAndExecute_inside (invoke_keepsScopes n) outer (params.zip args) body

/-- No call takes back what has been printed or logged. -/
theorem invoke_truncates_self (budget : Nat) : (invoke budget).Truncates (invoke budget) := by
  induction budget with
  | zero => exact fun _ _ _ _ _ => .fail _
  | succ budget ih => exact invoke_succ_truncates ih

theorem invoke_truncates {n m : Nat} (h : n ≤ m) : (invoke n).Truncates (invoke m) := by
  induction n generalizing m with
  | zero =>
    intro name position params body args
    have hgrows := (invoke_truncates_self m name position params body args).grows
    exact ⟨hgrows, fun start => .inr ⟨start, rfl, hgrows start⟩⟩
  | succ n ih =>
    obtain ⟨k, rfl⟩ : ∃ k, m = k + 1 := ⟨m - 1, by omega⟩
    exact invoke_succ_truncates (ih (by omega))

/-! ## Programs -/

theorem runWithin_truncates {n m : Nat} (h : n ≤ m) (program : Node) :
    (runWithin n program).Truncates (runWithin m program) := by
  unfold runWithin
  split
  · exact runStatements_truncates (invoke_truncates h) _
  · exact .fail _

/-- A run that the smaller budget is enough for is the run with the larger one. -/
theorem runWithin_eq_of_le {n m : Nat} (h : n ≤ m) {program : Node} {start : Machine}
    (hdeep : (Ending.ofResult (runWithin n program start)).failure? ≠ some .tooDeep) :
    runWithin m program start = runWithin n program start := by
  rcases (runWithin_truncates h program).same_or_cut start with hsame | ⟨m', hcut, -⟩
  · exact hsame.symm
  · rw [hcut] at hdeep
    exact absurd rfl hdeep

/-- Some first statements of a program, but not all, run to their end and leave the given scopes. The
run of the whole program goes on from there with the other statements. -/
def PassesScopes (budget : Nat) (program : Node) (start : Machine) (scopes : Scopes Node) : Prop :=
  ∃ body k middle, program.body? = some body ∧ k < body.length ∧
    runWithin budget (.program (body.take k)) start = .ok () middle ∧
    runWithin budget program start = runWithin budget (.program (body.drop k)) middle ∧
    middle.scopes = scopes

/-- A run that fails because calls are nested too deep has scopes that the run with a larger budget
passes. -/
theorem passesScopes_of_tooDeep {n m : Nat} (h : n ≤ m) {program : Node} {start m' : Machine}
    (hdeep : runWithin n program start = .error .tooDeep m') :
    PassesScopes m program start m'.scopes := by
  cases hbody : program.body? with
  | none =>
    simp only [runWithin, hbody] at hdeep
    cases hdeep
  | some body =>
    have hrun : ∀ budget, runWithin budget program = runStatements (invoke budget) body := by
      intro budget
      simp only [runWithin, hbody]
    rw [hrun] at hdeep
    obtain ⟨k, middle, hk, hfirst, hscopes⟩ := runStatements_error (invoke_keepsScopes n) hdeep
    -- The first statements end with the smaller budget, so they do the same with the larger one.
    have hfirst' : runWithin m (.program (body.take k)) start = .ok () middle := by
      have hends : runWithin n (.program (body.take k)) start = .ok () middle := hfirst
      rw [runWithin_eq_of_le h (by rw [hends]; nofun), hends]
    refine ⟨body, k, middle, hbody, hk, hfirst', ?_, hscopes.symm⟩
    have hsplit := runStatements_append (invoke m) (body.take k) (body.drop k)
    rw [List.take_append_drop] at hsplit
    rw [hrun, hsplit]
    exact bind_of_ok hfirst'

/-- A program is run on any machine with two budgets for nested calls. If the run with the smaller one
ends without calls that are nested too deep, the run with the larger one ends in the same way: with
the same lines, scopes, log and failure. Otherwise what the first run has printed and logged is a
beginning of what the second one has, and it leaves the scopes that some first statements of the
program leave in the second run. -/
theorem smaller_budget_truncates {n m : Nat} (h : n ≤ m) (program : Node) (start : Machine) :
    let ending := Ending.ofResult (runWithin n program start)
    let ending' := Ending.ofResult (runWithin m program start)
    (ending.failure? ≠ some .tooDeep → ending' = ending) ∧
    (ending.failure? = some .tooDeep →
      ending.machine.printed.toList <+: ending'.machine.printed.toList ∧
      ending.machine.log.lines <+: ending'.machine.log.lines ∧
      PassesScopes m program start ending.machine.scopes) := by
  refine ⟨fun hdeep => congrArg Ending.ofResult (runWithin_eq_of_le h hdeep), fun hdeep => ?_⟩
  cases hrun : runWithin n program start with
  | ok value m' =>
    rw [hrun] at hdeep
    cases hdeep
  | error failure m' =>
    rw [hrun] at hdeep
    obtain rfl : failure = .tooDeep := Option.some.inj hdeep
    have hprecedes : m'.Precedes (Ending.ofResult (runWithin m program start)).machine := by
      rcases (runWithin_truncates h program).same_or_cut start with hsame | ⟨m₁, hcut, hm₁⟩
      · rw [← hsame, hrun]
        exact .refl m'
      · rw [hrun] at hcut
        cases hcut
        exact hm₁
    exact ⟨hprecedes.printed, hprecedes.lines, passesScopes_of_tooDeep h hrun⟩

/-- A function that calls another one behind a print and an assignment of its own. -/
def nestedCalls : Node :=
  .program [.assign "g" (.literal (.function ["n"] [.expression (.print (.lookup "n" .unknown))])),
    .assign "f" (.literal (.function ["n"] [.assign "y" (.print (.lookup "n" .unknown)),
      .expression (.call "g" [.binary "+" (.lookup "y" .unknown) (.numeral "1") .unknown] .unknown)])),
    .assign "z" (.call "f" [.numeral "1"] .unknown)]

/-- With a budget of one call the inner call fails, and the outer one has printed. A budget of three
calls is not more than a budget of two. -/
theorem smaller_budget_truncates_nested :
    let ending := fun budget => Ending.ofResult (runWithin budget nestedCalls (Machine.start 1))
    ((ending 1).failure? = some .tooDeep ∧ (ending 1).machine.printed = #["1"] ∧
      (ending 2).failure? = none ∧ (ending 2).machine.printed = #["1", "2"]) ∧
    ((ending 1).machine.printed.toList <+: (ending 2).machine.printed.toList ∧
      (ending 1).machine.log.lines <+: (ending 2).machine.log.lines ∧
      PassesScopes 2 nestedCalls (Machine.start 1) (ending 1).machine.scopes) ∧
    ending 3 = ending 2 := by
  have hdeep : (Ending.ofResult (runWithin 1 nestedCalls (Machine.start 1))).failure? =
      some .tooDeep := by decide +kernel
  have hends : (Ending.ofResult (runWithin 2 nestedCalls (Machine.start 1))).failure? = none := by
    decide +kernel
  have hone := smaller_budget_truncates (by decide : 1 ≤ 2) nestedCalls (Machine.start 1)
  have htwo := smaller_budget_truncates (by decide : 2 ≤ 3) nestedCalls (Machine.start 1)
  dsimp only
  refine ⟨⟨hdeep, ?_, hends, ?_⟩, hone.2 hdeep, htwo.1 (by rw [hends]; nofun)⟩
  · decide +kernel
  · decide +kernel

end Douro
