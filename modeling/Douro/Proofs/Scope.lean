import Douro.Scope

/-!
# Bindings and scopes

* `Scopes.define_bindsOnly`: binding a name changes that name in the innermost scope, and nothing
  else.
* `Scopes.Inside`: the scopes that running code can reach from a call scope of its own.
* `Scopes.All`: a property of every bound value, kept by all operations.
* `Scopes.map`: every bound value changed in one way, with which all operations commute.
-/

namespace Douro

/-! ## One scope -/

namespace Scope

variable {α : Type}

theorem get?_insert_self (scope : Scope α) (name : String) (value : α) :
    (scope.insert name value).get? name = some value := by
  induction scope with
  | nil => simp [insert, get?]
  | cons binding rest ih =>
    obtain ⟨key, old⟩ := binding
    by_cases hk : key = name
    · simp [insert, get?, hk]
    · have hb : (name == key) = false := by simpa using Ne.symm hk
      simpa [insert, get?, List.lookup_cons, hk, hb] using ih

theorem get?_insert_of_ne (scope : Scope α) {name other : String} (value : α) (h : other ≠ name) :
    (scope.insert name value).get? other = scope.get? other := by
  induction scope with
  | nil =>
    have hb : (other == name) = false := by simpa using h
    simp [insert, get?, List.lookup_cons, hb]
  | cons binding rest ih =>
    obtain ⟨key, old⟩ := binding
    by_cases hk : key = name
    · subst hk
      have hb : (other == key) = false := by simpa using h
      simp [insert, get?, List.lookup_cons, hb]
    · simp only [insert, hk, if_false]
      simp only [get?, List.lookup_cons]
      split
      · rfl
      · exact ih

theorem mem_of_get? {scope : Scope α} {name : String} {value : α}
    (h : scope.get? name = some value) : ∃ binding ∈ scope, binding.2 = value := by
  induction scope with
  | nil => cases h
  | cons binding rest ih =>
    obtain ⟨key, old⟩ := binding
    simp only [get?, List.lookup_cons] at h
    split at h
    · cases h
      exact ⟨_, List.mem_cons_self, rfl⟩
    · obtain ⟨b, hb, hv⟩ := ih h
      exact ⟨b, List.mem_cons_of_mem _ hb, hv⟩

theorem mem_insert {scope : Scope α} {name : String} {value : α}
    {binding : String × α} (h : binding ∈ scope.insert name value) :
    binding ∈ scope ∨ binding.2 = value := by
  induction scope with
  | nil =>
    rw [List.mem_singleton.mp h]
    exact .inr rfl
  | cons first rest ih =>
    obtain ⟨key, old⟩ := first
    unfold insert at h
    split at h
    · rcases List.mem_cons.mp h with rfl | h
      · exact .inr rfl
      · exact .inl (List.mem_cons_of_mem _ h)
    · rcases List.mem_cons.mp h with rfl | h
      · exact .inl List.mem_cons_self
      · exact (ih h).imp_left (List.mem_cons_of_mem _)

/-- The scope with every value changed by `f`. -/
def map {β : Type} (f : α → β) (scope : Scope α) : Scope β :=
  List.map (fun binding => (binding.1, f binding.2)) scope

variable {β : Type} (f : α → β) (scope : Scope α) (name : String)

theorem get?_map : (scope.map f).get? name = (scope.get? name).map f := by
  induction scope with
  | nil => rfl
  | cons binding rest ih =>
    have ih : List.lookup name (map f rest) = (List.lookup name rest).map f := ih
    show List.lookup name ((binding.1, f binding.2) :: map f rest) =
      (List.lookup name ((binding.1, binding.2) :: rest)).map f
    rw [List.lookup_cons, List.lookup_cons]
    split
    · rfl
    · exact ih

theorem map_insert (value : α) :
    (scope.insert name value).map f = (scope.map f).insert name (f value) := by
  induction scope with
  | nil => rfl
  | cons binding rest ih =>
    show map f (insert ((binding.1, binding.2) :: rest) name value) =
      insert ((binding.1, f binding.2) :: map f rest) name (f value)
    unfold insert
    split
    · rfl
    · exact congrArg ((binding.1, f binding.2) :: ·) ih

end Scope

/-! ## The scopes of a run -/

namespace Scopes

variable {α : Type}

/-- The scopes `new` are the scopes `old`, but for one name that is bound in the innermost one. -/
structure BindsOnly (old : Scopes α) (name : String) (value : α) (new : Scopes α) : Prop where
  depth : new.depth = old.depth
  callers : new.calls.tail = old.calls.tail
  globals : old.calls ≠ [] → new.globals = old.globals
  bound : new.innermost.get? name = some value
  others : ∀ other, other ≠ name → new.innermost.get? other = old.innermost.get? other

theorem define_bindsOnly (scopes : Scopes α) (name : String) (value : α) :
    scopes.BindsOnly name value (scopes.define name value) := by
  obtain ⟨globals, calls⟩ := scopes
  cases calls with
  | nil =>
    exact ⟨rfl, rfl, fun h => absurd rfl h, Scope.get?_insert_self _ _ _,
      fun _ h => Scope.get?_insert_of_ne _ _ h⟩
  | cons scope outer =>
    exact ⟨rfl, rfl, fun _ => rfl, Scope.get?_insert_self _ _ _,
      fun _ h => Scope.get?_insert_of_ne _ _ h⟩

/-- The scopes `new` are those in `outer` with one more call scope. -/
def Inside (outer new : Scopes α) : Prop :=
  ∃ scope, new = ⟨outer.globals, scope :: outer.calls⟩

theorem inside_push (scopes : Scopes α) : scopes.Inside scopes.push := ⟨[], rfl⟩

theorem Inside.define {outer new : Scopes α} (h : outer.Inside new) (name : String) (value : α) :
    outer.Inside (new.define name value) := by
  obtain ⟨scope, rfl⟩ := h
  exact ⟨scope.insert name value, rfl⟩

theorem Inside.pop? {outer new : Scopes α} (h : outer.Inside new) : new.pop? = some outer := by
  obtain ⟨scope, rfl⟩ := h
  rfl

section All

variable {P : α → Prop} {scopes : Scopes α}

/-- Every bound value, in whatever scope, has the property. -/
def All (P : α → Prop) (scopes : Scopes α) : Prop :=
  ∀ scope ∈ scopes.toList, ∀ binding ∈ scope, P binding.2

theorem all_iff : scopes.All P ↔ (∀ binding ∈ scopes.globals, P binding.2) ∧
    ∀ scope ∈ scopes.calls, ∀ binding ∈ scope, P binding.2 := by
  simp [All, toList]

theorem All.get? (h : scopes.All P) {name : String} {value : α}
    (hv : scopes.get? name = some value) : P value := by
  obtain ⟨hglobals, hcalls⟩ := all_iff.mp h
  have hinner : ∀ binding ∈ scopes.innermost, P binding.2 := by
    unfold innermost
    cases hc : scopes.calls with
    | nil => exact hglobals
    | cons scope outer => exact hcalls scope (by rw [hc]; exact List.mem_cons_self)
  rcases Option.or_eq_some_iff.mp hv with hv | ⟨-, hv⟩
  · obtain ⟨binding, hb, rfl⟩ := Scope.mem_of_get? hv
    exact hinner binding hb
  · obtain ⟨binding, hb, rfl⟩ := Scope.mem_of_get? hv
    exact hglobals binding hb

theorem All.define (h : scopes.All P) (name : String) {value : α} (hv : P value) :
    (scopes.define name value).All P := by
  obtain ⟨hglobals, hcalls⟩ := all_iff.mp h
  have hinsert : ∀ scope : Scope α, (∀ binding ∈ scope, P binding.2) →
      ∀ binding ∈ scope.insert name value, P binding.2 := by
    intro scope hs binding hb
    rcases Scope.mem_insert hb with hb | hb
    · exact hs binding hb
    · rw [hb]
      exact hv
  refine all_iff.mpr ?_
  unfold Scopes.define
  cases hc : scopes.calls with
  | nil => exact ⟨hinsert _ hglobals, nofun⟩
  | cons scope outer =>
    rw [hc] at hcalls
    refine ⟨hglobals, fun s hs => ?_⟩
    rcases List.mem_cons.mp hs with rfl | hs
    · exact hinsert _ (hcalls scope List.mem_cons_self)
    · exact hcalls s (List.mem_cons_of_mem _ hs)

theorem All.push (h : scopes.All P) : scopes.push.All P := by
  obtain ⟨hglobals, hcalls⟩ := all_iff.mp h
  refine all_iff.mpr ⟨hglobals, fun s hs => ?_⟩
  rcases List.mem_cons.mp hs with rfl | hs
  · exact nofun
  · exact hcalls s hs

theorem All.pop? (h : scopes.All P) {scopes' : Scopes α} (hp : scopes.pop? = some scopes') :
    scopes'.All P := by
  obtain ⟨hglobals, hcalls⟩ := all_iff.mp h
  unfold Scopes.pop? at hp
  split at hp
  · cases hp
  next scope outer hc =>
  cases hp
  rw [hc] at hcalls
  exact all_iff.mpr ⟨hglobals, fun s hs => hcalls s (List.mem_cons_of_mem _ hs)⟩

end All

section Map

variable {β : Type} (f : α → β) (scopes : Scopes α)

/-- The scopes with every value changed by `f`. -/
def map : Scopes β := ⟨scopes.globals.map f, scopes.calls.map (Scope.map f)⟩

@[simp] theorem depth_map : (scopes.map f).depth = scopes.depth := List.length_map _

@[simp] theorem push_map : (scopes.map f).push = scopes.push.map f := rfl

theorem innermost_map : (scopes.map f).innermost = scopes.innermost.map f := by
  obtain ⟨globals, calls⟩ := scopes
  cases calls <;> rfl

theorem get?_map (name : String) : (scopes.map f).get? name = (scopes.get? name).map f := by
  rw [get?, innermost_map, Scope.get?_map]
  show Option.or _ ((scopes.globals.map f).get? name) = _
  rw [Scope.get?_map, get?]
  cases scopes.innermost.get? name <;> rfl

theorem define_map (name : String) (value : α) :
    (scopes.map f).define name (f value) = (scopes.define name value).map f := by
  obtain ⟨globals, calls⟩ := scopes
  cases calls with
  | nil => exact congrArg (Scopes.mk · []) (Scope.map_insert f globals name value).symm
  | cons scope outer =>
    exact congrArg (fun scope => Scopes.mk _ (scope :: _)) (Scope.map_insert f scope name value).symm

theorem pop?_map : (scopes.map f).pop? = scopes.pop?.map (map f) := by
  obtain ⟨globals, calls⟩ := scopes
  cases calls <;> rfl

end Map

end Scopes

end Douro
