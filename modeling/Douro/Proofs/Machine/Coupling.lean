import Douro.Proofs.Machine.Triple

/-!
# Two runs side by side

`Coupled P c c' Q E`: from two machines that `P` relates, `c` and `c'` either both give a value, and
`Q` relates the values and the machines that are left, or both fail, and `E` relates the failures
and the machines. There is one rule for each operation of `Run`, as there is for triples, so that a
proof about two runs never opens a machine.

* `Coupled.bind`: composition; both runs take the same step next, on values that are related.
* `Coupled.inScope_of_leave`, `Coupled.inScope`: two computations in call scopes, which are both left
  in both cases.
-/

namespace Douro

namespace Run

variable {α α' β β' : Type}

/-- What two results meet: `Q` if both are values, `E` if both are failures. -/
def BothMeet (Q : α → α' → Machine → Machine → Prop) (E : Failure → Failure → Machine → Machine → Prop) :
    EStateM.Result Failure Machine α → EStateM.Result Failure Machine α' → Prop
  | .ok value machine, .ok value' machine' => Q value value' machine machine'
  | .error failure machine, .error failure' machine' => E failure failure' machine machine'
  | .ok _ _, .error _ _ | .error _ _, .ok _ _ => False

/-- From machines with `P`, the computations both end with `Q` or both fail with `E`. -/
def Coupled (P : Machine → Machine → Prop) (c : Run α) (c' : Run α')
    (Q : α → α' → Machine → Machine → Prop) (E : Failure → Failure → Machine → Machine → Prop) :
    Prop :=
  ∀ m m', P m m' → BothMeet Q E (c m) (c' m')

namespace Coupled

variable {P : Machine → Machine → Prop} {Q : α → α' → Machine → Machine → Prop}
  {E : Failure → Failure → Machine → Machine → Prop}

/-- A fact about the values of two computations may be used behind them. -/
theorem assume {c : Run α} {c' : Run α'} {φ : Prop} (h : φ → Coupled P c c' Q E) :
    Coupled (fun m m' => φ ∧ P m m') c c' Q E := fun m m' hm => h hm.1 m m' hm.2

/-! ## Values, failures, composition -/

theorem ret {value : α} {value' : α'} (h : ∀ m m', P m m' → Q value value' m m') :
    Coupled P (pure value) (pure value') Q E := h

theorem fail {failure failure' : Failure} (h : ∀ m m', P m m' → E failure failure' m m') :
    Coupled P (throw failure : Run α) (throw failure' : Run α') Q E := h

theorem bind {c : Run α} {c' : Run α'} {f : α → Run β} {f' : α' → Run β'}
    {R : α → α' → Machine → Machine → Prop} {Q : β → β' → Machine → Machine → Prop}
    (hc : Coupled P c c' R E) (hf : ∀ value value', Coupled (R value value') (f value) (f' value') Q E) :
    Coupled P (c >>= f) (c' >>= f') Q E := by
  intro m m' hm
  have h := hc m m' hm
  show BothMeet Q E (EStateM.bind c f m) (EStateM.bind c' f' m')
  unfold EStateM.bind
  cases hr : c m with
  | ok value m₁ =>
    cases hr' : c' m' with
    | ok value' m₁' => rw [hr, hr'] at h; exact hf value value' m₁ m₁' h
    | error failure' m₁' => rw [hr, hr'] at h; exact h.elim
  | error failure m₁ =>
    cases hr' : c' m' with
    | ok value' m₁' => rw [hr, hr'] at h; exact h.elim
    | error failure' m₁' => rw [hr, hr'] at h; exact h

theorem ofExcept {result : Except Failure α} {Q : α → α → Machine → Machine → Prop}
    (hok : ∀ value m m', P m m' → Q value value m m')
    (herror : ∀ failure m m', P m m' → E failure failure m m') :
    Coupled P (Run.ofExcept result) (Run.ofExcept result) Q E := by
  intro m m' hm
  cases result with
  | ok value => exact hok value m m' hm
  | error failure => exact herror failure m m' hm

/-! ## The operations of a machine -/

/-- A name that both machines bind to the same value, or neither binds. -/
theorem lookup {name : String} {position : Position} {Q : Node → Node → Machine → Machine → Prop}
    (hsame : ∀ m m', P m m' → m.scopes.get? name = m'.scopes.get? name)
    (hsome : ∀ m m' value, P m m' → Q value value m m')
    (hnone : ∀ m m', P m m' → E (.unbound name position) (.unbound name position) m m') :
    Coupled P (Run.lookup name position) (Run.lookup name position) Q E := by
  intro m m' hm
  unfold Run.lookup
  rw [hsame m m' hm]
  cases m'.scopes.get? name with
  | some value => exact hsome m m' value hm
  | none => exact hnone m m' hm

theorem define {name : String} {value value' : Node} {Q : Unit → Unit → Machine → Machine → Prop}
    (h : ∀ m m', P m m' → Q () () { m with scopes := m.scopes.define name value }
      { m' with scopes := m'.scopes.define name value' }) :
    Coupled P (Run.define name value) (Run.define name value') Q E := h

theorem depth {Q : Nat → Nat → Machine → Machine → Prop}
    (h : ∀ m m', P m m' → Q m.scopes.depth m'.scopes.depth m m') :
    Coupled P Run.depth Run.depth Q E := h

theorem print {line line' : String} {Q : Unit → Unit → Machine → Machine → Prop}
    (h : ∀ m m', P m m' → Q () () { m with printed := m.printed.push line }
      { m' with printed := m'.printed.push line' }) :
    Coupled P (Run.print line) (Run.print line') Q E := h

theorem note {event event' : Event} {Q : Unit → Unit → Machine → Machine → Prop}
    (h : ∀ m m', P m m' → Q () () { m with log := m.log.note event }
      { m' with log := m'.log.note event' }) :
    Coupled P (Run.note event) (Run.note event') Q E := h

theorem defineAll {bindings : List (String × Node)}
    (h : ∀ binding ∈ bindings, ∀ m m', P m m' →
      P { m with scopes := m.scopes.define binding.1 binding.2 }
        { m' with scopes := m'.scopes.define binding.1 binding.2 }) :
    Coupled P (Run.defineAll bindings) (Run.defineAll bindings) (fun _ _ => P) E := by
  induction bindings with
  | nil => exact ret fun _ _ hm => hm
  | cons binding rest ih =>
    exact bind (define (h binding List.mem_cons_self))
      fun _ _ => ih fun b hb => h b (List.mem_cons_of_mem _ hb)

/-- Two computations in call scopes. `I` holds when the scopes have been entered; `Q` and `E` hold of
what leaving the scopes makes of the results. -/
theorem inScope_of_leave {c : Run α} {c' : Run α'} {I : Machine → Machine → Prop}
    {R : α → α' → Machine → Machine → Prop} {F : Failure → Failure → Machine → Machine → Prop}
    (hc : Coupled I c c' R F)
    (henter : ∀ m m', P m m' →
      I { m with scopes := m.scopes.push } { m' with scopes := m'.scopes.push })
    (hok : ∀ value value' m m', R value value' m m' →
      BothMeet Q E (leave (.ok value m)) (leave (.ok value' m')))
    (herror : ∀ failure failure' m m', F failure failure' m m' →
      BothMeet Q E (leave (.error failure m)) (leave (.error failure' m'))) :
    Coupled P (Run.inScope c) (Run.inScope c') Q E := by
  intro m m' hm
  have h := hc _ _ (henter m m' hm)
  unfold Run.inScope
  cases hr : c { m with scopes := m.scopes.push } with
  | ok value m₁ =>
    cases hr' : c' { m' with scopes := m'.scopes.push } with
    | ok value' m₁' => rw [hr, hr'] at h; exact hok value value' m₁ m₁' h
    | error failure' m₁' => rw [hr, hr'] at h; exact h.elim
  | error failure m₁ =>
    cases hr' : c' { m' with scopes := m'.scopes.push } with
    | ok value' m₁' => rw [hr, hr'] at h; exact h.elim
    | error failure' m₁' => rw [hr, hr'] at h; exact herror failure failure' m₁ m₁' h

/-- The same if what the computations leave has scopes to leave. -/
theorem inScope {c : Run α} {c' : Run α'} {I : Machine → Machine → Prop}
    {R : α → α' → Machine → Machine → Prop} {F : Failure → Failure → Machine → Machine → Prop}
    (hc : Coupled I c c' R F)
    (henter : ∀ m m', P m m' →
      I { m with scopes := m.scopes.push } { m' with scopes := m'.scopes.push })
    (hok : ∀ value value' m m', R value value' m m' → ∃ scopes scopes',
      m.scopes.pop? = some scopes ∧ m'.scopes.pop? = some scopes' ∧
        Q value value' { m with scopes } { m' with scopes := scopes' })
    (herror : ∀ failure failure' m m', F failure failure' m m' → ∃ scopes scopes',
      m.scopes.pop? = some scopes ∧ m'.scopes.pop? = some scopes' ∧
        E failure failure' { m with scopes } { m' with scopes := scopes' }) :
    Coupled P (Run.inScope c) (Run.inScope c') Q E := by
  refine inScope_of_leave hc henter (fun value value' m m' h => ?_) fun failure failure' m m' h => ?_
  · obtain ⟨scopes, scopes', hpop, hpop', hq⟩ := hok value value' m m' h
    simp only [leave, hpop, hpop']
    exact hq
  · obtain ⟨scopes, scopes', hpop, hpop', he⟩ := herror failure failure' m m' h
    simp only [leave, hpop, hpop']
    exact he

end Coupled

end Run

end Douro
