import Douro.Machine.Program

/-!
# Triples for computations on a machine

`Triple P c Q E`: from a machine of which `P` holds, `c` either gives a value and leaves a machine
of which `Q` holds, or fails and leaves a machine of which `E` holds. There is one rule for each
operation of `Run`, so that a proof about a run never opens the machine.

* `bind_of_ok`, `bind_of_error`, `inScope_of_ok`, `inScope_of_error`: results from those of the parts.
* `Triple.bind`, `Triple.and`: composition, and two triples of one computation.
* `Triple.inScope`: a computation in a call scope, which is left in both cases.
-/

namespace Douro

namespace Run

variable {α β : Type}

/-! ## Results -/

section Results

variable {c : Run α} {f : α → Run β} {m m' : Machine} {failure : Failure}

theorem bind_of_ok {value : α} (h : c m = .ok value m') : (c >>= f) m = f value m' := by
  show EStateM.bind c f m = _
  unfold EStateM.bind
  rw [h]

theorem bind_of_error (h : c m = .error failure m') : (c >>= f) m = .error failure m' := by
  show EStateM.bind c f m = _
  unfold EStateM.bind
  rw [h]

theorem inScope_of_ok {value : α} {outer : Scopes Node}
    (h : c { m with scopes := m.scopes.push } = .ok value m') (hpop : m'.scopes.pop? = some outer) :
    inScope c m = .ok value { m' with scopes := outer } := by
  rw [inScope, h]
  simp only [leave, hpop]

theorem inScope_of_error {outer : Scopes Node}
    (h : c { m with scopes := m.scopes.push } = .error failure m')
    (hpop : m'.scopes.pop? = some outer) :
    inScope c m = .error failure { m' with scopes := outer } := by
  rw [inScope, h]
  simp only [leave, hpop]

end Results

/-! ## Triples -/

/-- What a result meets: `Q` if it is a value, `E` if it is a failure. -/
def Meets (Q : α → Machine → Prop) (E : Failure → Machine → Prop) :
    EStateM.Result Failure Machine α → Prop
  | .ok value machine => Q value machine
  | .error failure machine => E failure machine

/-- From a machine with `P`, the computation ends with `Q` or fails with `E`. -/
def Triple (P : Machine → Prop) (c : Run α) (Q : α → Machine → Prop)
    (E : Failure → Machine → Prop) : Prop :=
  ∀ m, P m → Meets Q E (c m)

namespace Triple

variable {P P' : Machine → Prop} {Q Q' : α → Machine → Prop} {E E' : Failure → Machine → Prop}

theorem of_ok {c : Run α} {m m' : Machine} {value : α} (h : Triple P c Q E) (hm : P m)
    (hc : c m = .ok value m') : Q value m' := by
  have := h m hm
  rwa [hc] at this

theorem of_error {c : Run α} {m m' : Machine} {failure : Failure} (h : Triple P c Q E) (hm : P m)
    (hc : c m = .error failure m') : E failure m' := by
  have := h m hm
  rwa [hc] at this

/-- What both postconditions give holds of the machine that is left. -/
theorem machine {c : Run α} {I : Machine → Prop} (h : Triple P c Q E)
    (hQ : ∀ value m, Q value m → I m) (hE : ∀ failure m, E failure m → I m) {m : Machine}
    (hm : P m) : I (Ending.ofResult (c m)).machine := by
  have := h m hm
  cases hc : c m with
  | ok value m' => rw [hc] at this; exact hQ value m' this
  | error failure m' => rw [hc] at this; exact hE failure m' this

/-- A fact beside the precondition may be used. -/
theorem assume {c : Run α} {φ : Prop} (h : φ → Triple P c Q E) :
    Triple (fun m => P m ∧ φ) c Q E := fun m hm => h hm.2 m hm.1

/-- Two triples of one computation hold together. -/
theorem and {c : Run α} (h : Triple P c Q E) (h' : Triple P' c Q' E') :
    Triple (fun m => P m ∧ P' m) c (fun value m => Q value m ∧ Q' value m)
      fun failure m => E failure m ∧ E' failure m := by
  intro m hm
  have := h m hm.1
  have := h' m hm.2
  cases hc : c m with
  | ok value m' => simp_all only [Meets]; trivial
  | error failure m' => simp_all only [Meets]; trivial

/-! ## Values, failures, composition -/

theorem ret {value : α} (h : ∀ m, P m → Q value m) : Triple P (pure value) Q E := h

theorem fail {failure : Failure} (h : ∀ m, P m → E failure m) :
    Triple P (throw failure : Run α) Q E := h

theorem bind {c : Run α} {f : α → Run β} {R : α → Machine → Prop} {Q : β → Machine → Prop}
    (hc : Triple P c R E) (hf : ∀ value, Triple (R value) (f value) Q E) :
    Triple P (c >>= f) Q E := by
  intro m hm
  have h := hc m hm
  cases hr : c m with
  | ok value m' => rw [hr] at h; rw [bind_of_ok hr]; exact hf value m' h
  | error failure m' => rw [hr] at h; rw [bind_of_error hr]; exact h

theorem ofExcept {result : Except Failure α}
    (hok : ∀ value m, result = .ok value → P m → Q value m)
    (herror : ∀ failure m, result = .error failure → P m → E failure m) :
    Triple P (Run.ofExcept result) Q E := by
  intro m hm
  cases result with
  | ok value => exact hok value m rfl hm
  | error failure => exact herror failure m rfl hm

/-! ## The operations of a machine -/

theorem lookup {name : String} {position : Position} {Q : Node → Machine → Prop}
    (hsome : ∀ m value, P m → m.scopes.get? name = some value → Q value m)
    (hnone : ∀ m, P m → E (.unbound name position) m) :
    Triple P (Run.lookup name position) Q E := by
  intro m hm
  unfold Run.lookup
  cases hv : m.scopes.get? name with
  | some value => exact hsome m value hm hv
  | none => exact hnone m hm

theorem define {name : String} {value : Node} {Q : Unit → Machine → Prop}
    (h : ∀ m, P m → Q () { m with scopes := m.scopes.define name value }) :
    Triple P (Run.define name value) Q E := h

theorem depth {Q : Nat → Machine → Prop} (h : ∀ m, P m → Q m.scopes.depth m) :
    Triple P Run.depth Q E := h

theorem print {line : String} {Q : Unit → Machine → Prop}
    (h : ∀ m, P m → Q () { m with printed := m.printed.push line }) :
    Triple P (Run.print line) Q E := h

theorem note {event : Event} {Q : Unit → Machine → Prop}
    (h : ∀ m, P m → Q () { m with log := m.log.note event }) : Triple P (Run.note event) Q E := h

theorem defineAll {bindings : List (String × Node)}
    (h : ∀ binding ∈ bindings, ∀ m, P m →
      P { m with scopes := m.scopes.define binding.1 binding.2 }) :
    Triple P (Run.defineAll bindings) (fun _ => P) E := by
  induction bindings with
  | nil => exact ret fun _ hm => hm
  | cons binding rest ih =>
    exact bind (define (h binding List.mem_cons_self))
      fun _ => ih fun b hb => h b (List.mem_cons_of_mem _ hb)

/-- A computation in a call scope. `I` holds when the scope has been entered; what the computation
leaves has a scope to leave, and `Q` and `E` hold once that is done. -/
theorem inScope {c : Run α} {I : Machine → Prop} {R : α → Machine → Prop}
    {F : Failure → Machine → Prop} (hc : Triple I c R F)
    (henter : ∀ m, P m → I { m with scopes := m.scopes.push })
    (hok : ∀ value m, R value m → ∃ scopes, m.scopes.pop? = some scopes ∧ Q value { m with scopes })
    (herror : ∀ failure m, F failure m →
      ∃ scopes, m.scopes.pop? = some scopes ∧ E failure { m with scopes }) :
    Triple P (Run.inScope c) Q E := by
  intro m hm
  have h := hc _ (henter m hm)
  cases hr : c { m with scopes := m.scopes.push } with
  | ok value m' =>
    rw [hr] at h
    obtain ⟨scopes, hpop, hq⟩ := hok value m' h
    rw [inScope_of_ok hr hpop]
    exact hq
  | error failure m' =>
    rw [hr] at h
    obtain ⟨scopes, hpop, he⟩ := herror failure m' h
    rw [inScope_of_error hr hpop]
    exact he

end Triple

end Run

/-! ## Calls -/

/-- A call with the wrong number of arguments. -/
theorem invoke_of_length_ne (budget : Nat) (name : String) (position : Position)
    (params : List String) (body args : List Node) (h : args.length ≠ params.length) :
    invoke (budget + 1) name position params body args =
      throw (.arity name params.length args.length position) := by
  rw [invoke]
  simp only [if_pos h]
  rfl

/-- A call with the right number of arguments. -/
theorem invoke_of_length_eq (budget : Nat) (name : String) (position : Position)
    (params : List String) (body args : List Node) (h : args.length = params.length) :
    invoke (budget + 1) name position params body args = do
      Run.note (.call name args)
      let result ← Run.inScope do
        Run.defineAll (params.zip args)
        executeBody (invoke budget) body
      Run.note (.finish name result)
      return result := by
  rw [invoke]
  simp only [h, ne_eq, not_true_eq_false, if_false]

end Douro
