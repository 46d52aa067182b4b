import Douro.Proofs.Machine.Coupling
import Douro.Proofs.Scope

/-!
# What running code sees

Of all scopes, running code sees the innermost one and the global one. So two runs of one expression
agree as long as both see the same values, however many calls are under way around them and whatever
those calls have bound. A call starts with a scope of its own: it depends only on the function, on its
arguments and on the global scope.

* `Scopes.LooksLike`: scopes that running code cannot tell apart.
* `evaluate_sees`, `invoke_sees`: expressions and calls, between machines of such scopes.
* `callers_are_invisible`: the same for whole outcomes.
-/

namespace Douro

/-! ## Scopes that look alike -/

namespace Scopes

variable {α : Type} {scopes scopes' outer outer' : Scopes α}

/-- The global scopes bind the same names to the same values. -/
def SameGlobals (scopes scopes' : Scopes α) : Prop :=
  ∀ name, scopes.globals.get? name = scopes'.globals.get? name

/-- Running code sees the same values in both, now and inside any call. -/
structure LooksLike (scopes scopes' : Scopes α) : Prop where
  globals : scopes.SameGlobals scopes'
  values : ∀ name, scopes.get? name = scopes'.get? name

/-- A call that has just been entered sees the global scope only. -/
theorem SameGlobals.push (h : scopes.SameGlobals scopes') : scopes.push.LooksLike scopes'.push :=
  ⟨h, h⟩

theorem Inside.globals_eq (h : outer.Inside scopes) : scopes.globals = outer.globals := by
  obtain ⟨scope, rfl⟩ := h
  rfl

/-- Inside a call, a name that is bound has its value, and the others keep theirs. -/
theorem Inside.get?_define (h : outer.Inside scopes) (name : String) (value : α) (other : String) :
    (scopes.define name value).get? other =
      if other = name then some value else scopes.get? other := by
  obtain ⟨scope, rfl⟩ := h
  show ((scope.insert name value).get? other).or (outer.globals.get? other) = _
  split
  · next heq => rw [heq, Scope.get?_insert_self, Option.some_or]
  · next hne => rw [Scope.get?_insert_of_ne scope value hne]; rfl

theorem LooksLike.define (h : scopes.LooksLike scopes') (hi : outer.Inside scopes)
    (hi' : outer'.Inside scopes') (name : String) (value : α) :
    (scopes.define name value).LooksLike (scopes'.define name value) := by
  constructor
  · intro other
    rw [(hi.define name value).globals_eq, (hi'.define name value).globals_eq, ← hi.globals_eq,
      ← hi'.globals_eq]
    exact h.globals other
  · intro other
    rw [hi.get?_define, hi'.get?_define, h.values]

end Scopes

/-! ## Machines side by side -/

namespace Machine

/-- Since they had printed `before` and `before'`, the machines have printed the same lines. -/
def SamePrinted (before before' : Array String) (m m' : Machine) : Prop :=
  ∃ lines, m.printed = before ++ lines ∧ m'.printed = before' ++ lines

/-- The machines have these scopes, and have printed the same lines. -/
structure At (before before' : Array String) (scopes scopes' : Scopes Node) (m m' : Machine) :
    Prop where
  left : m.scopes = scopes
  right : m'.scopes = scopes'
  printed : SamePrinted before before' m m'

/-- The machines are inside calls that look alike, and have printed the same lines. -/
structure InsideCalls (before before' : Array String) (outer outer' : Scopes Node) (m m' : Machine) :
    Prop where
  left : outer.Inside m.scopes
  right : outer'.Inside m'.scopes
  alike : m.scopes.LooksLike m'.scopes
  printed : SamePrinted before before' m m'

end Machine

open Run

section Runs

variable {before before' : Array String} {scopes scopes' outer outer' : Scopes Node} {α : Type}

/-- Two runs of one computation end alike between machines that `P` relates. -/
def Run.EndAlike (P : Machine → Machine → Prop) (c : Run α) : Prop :=
  Coupled P c c (fun value value' m m' => value = value' ∧ P m m')
    fun failure failure' m m' => failure = failure' ∧ P m m'

/-- Every call of the callee ends alike for equal globals. -/
def Callee.SeesGlobals (callee : Callee) : Prop :=
  ∀ name position params body args before before' scopes scopes', Scopes.SameGlobals scopes scopes' →
    (callee name position params body args).EndAlike (Machine.At before before' scopes scopes')

/-! ## Expressions -/

/-- One more step behind a computation that ends alike. -/
theorem Run.EndAlike.bind {β : Type} {P : Machine → Machine → Prop} {c : Run α} {f : α → Run β}
    (hc : c.EndAlike P) (hf : ∀ value, (f value).EndAlike P) : (c >>= f).EndAlike P := by
  refine Coupled.bind hc fun value value' => Coupled.assume ?_
  rintro rfl
  exact hf value

theorem Run.EndAlike.ofExcept {P : Machine → Machine → Prop} (result : Except Failure α) :
    (Run.ofExcept result).EndAlike P :=
  Coupled.ofExcept (fun _ _ _ h => ⟨rfl, h⟩) fun _ _ _ h => ⟨rfl, h⟩

theorem Run.EndAlike.ret {P : Machine → Machine → Prop} (value : α) :
    (pure value : Run α).EndAlike P := Coupled.ret fun _ _ h => ⟨rfl, h⟩

theorem Run.EndAlike.fail {P : Machine → Machine → Prop} (failure : Failure) :
    (throw failure : Run α).EndAlike P := Coupled.fail fun _ _ h => ⟨rfl, h⟩

theorem Machine.At.note (event : Event) : (Run.note event).EndAlike (At before before' scopes scopes') :=
  Coupled.note fun _ _ h => ⟨rfl, h.left, h.right, h.printed⟩

theorem Machine.At.print (line : String) :
    (Run.print line).EndAlike (At before before' scopes scopes') := by
  refine Coupled.print fun m m' h => ⟨rfl, h.left, h.right, ?_⟩
  obtain ⟨lines, hl, hr⟩ := h.printed
  exact ⟨lines.push line, by rw [hl, Array.push_append], by rw [hr, Array.push_append]⟩

theorem Machine.At.lookup (h : scopes.LooksLike scopes') (name : String) (position : Position) :
    (Run.lookup name position).EndAlike (At before before' scopes scopes') := by
  refine Coupled.lookup (fun m m' hm => ?_) (fun _ _ _ hm => ⟨rfl, hm⟩) fun _ _ hm => ⟨rfl, hm⟩
  rw [hm.left, hm.right]
  exact h.values name

/-- What expressions do ends alike: looking up, logging, printing and calling. -/
structure Callee.StepsEndAlike (P : Machine → Machine → Prop) (callee : Callee) : Prop where
  lookup (name : String) (position : Position) : (Run.lookup name position).EndAlike P
  note (event : Event) : (Run.note event).EndAlike P
  print (line : String) : (Run.print line).EndAlike P
  call (name : String) (position : Position) (params : List String) (body args : List Node) :
    (callee name position params body args).EndAlike P

mutual

theorem evaluate_endAlike {P : Machine → Machine → Prop} {callee : Callee}
    (h : callee.StepsEndAlike P) : (node : Node) → (evaluate callee node).EndAlike P
  | .numeral _ => .ofExcept _
  | .literal _ | .number _ | .function _ _ => .ret _
  | .lookup name position => h.lookup name position
  | .binary _ left right _ => by
    refine (evaluate_endAlike h left).bind fun _ => ?_
    refine (evaluate_endAlike h right).bind fun _ => ?_
    refine (Run.EndAlike.ofExcept _).bind fun _ => ?_
    exact (h.note _).bind fun _ => .ret _
  | .print expr => by
    refine (evaluate_endAlike h expr).bind fun _ => ?_
    exact (h.print _).bind fun _ => .ret _
  | .call name args position => by
    refine (h.lookup name position).bind fun value => ?_
    split
    · next params body =>
      exact (evaluateAll_endAlike h args).bind fun values => h.call name position params body values
    · exact .fail _
  | .absent | .program _ | .assign _ _ | .expression _ => .fail _

theorem evaluateAll_endAlike {P : Machine → Machine → Prop} {callee : Callee}
    (h : callee.StepsEndAlike P) : (nodes : List Node) → (evaluateAll callee nodes).EndAlike P
  | [] => .ret _
  | node :: nodes => by
    refine (evaluate_endAlike h node).bind fun _ => ?_
    exact (evaluateAll_endAlike h nodes).bind fun _ => .ret _

end

theorem evaluate_sees {callee : Callee} (hcallee : callee.SeesGlobals)
    (h : scopes.LooksLike scopes') (node : Node) :
    (evaluate callee node).EndAlike (Machine.At before before' scopes scopes') :=
  evaluate_endAlike ⟨Machine.At.lookup h, Machine.At.note, Machine.At.print,
    fun name position params body args => hcallee name position params body args _ _ _ _ h.globals⟩
    node

/-! ## Statements inside calls -/

theorem Machine.InsideCalls.define (name : String) (value : Node) :
    (Run.define name value).EndAlike (InsideCalls before before' outer outer') :=
  Coupled.define fun _ _ h => ⟨rfl, h.left.define name value, h.right.define name value,
    h.alike.define h.left h.right name value, h.printed⟩

/-- An expression inside a call sees the scope of that call. -/
theorem evaluate_inside {callee : Callee} (hcallee : callee.SeesGlobals) (node : Node) :
    (evaluate callee node).EndAlike (Machine.InsideCalls before before' outer outer') := by
  intro m m' hm
  -- Evaluation keeps the scopes, so the machines stay where they are.
  have h := evaluate_sees hcallee hm.alike node m m' ⟨rfl, rfl, hm.printed⟩
  have hback : ∀ m₁ m₁', Machine.At before before' m.scopes m'.scopes m₁ m₁' →
      Machine.InsideCalls before before' outer outer' m₁ m₁' := by
    intro m₁ m₁' h₁
    refine ⟨?_, ?_, ?_, h₁.printed⟩
    · rw [h₁.left]; exact hm.left
    · rw [h₁.right]; exact hm.right
    · rw [h₁.left, h₁.right]; exact hm.alike
  revert h
  cases evaluate callee node m <;> cases evaluate callee node m'
  · exact fun h => ⟨h.1, hback _ _ h.2⟩
  · exact id
  · exact id
  · exact fun h => ⟨h.1, hback _ _ h.2⟩

theorem execute_inside_sees {callee : Callee} (hcallee : callee.SeesGlobals) (node : Node) :
    (execute callee node).EndAlike (Machine.InsideCalls before before' outer outer') := by
  cases node with
  | assign name expr =>
    refine (evaluate_inside hcallee expr).bind fun value => ?_
    refine (Machine.InsideCalls.define name value).bind fun _ => ?_
    -- The depths differ, but only the log shows them.
    refine Coupled.bind (R := fun _ _ => Machine.InsideCalls before before' outer outer')
      (Coupled.depth fun _ _ h => h) fun _ _ => ?_
    refine Coupled.bind (R := fun _ _ => Machine.InsideCalls before before' outer outer')
      (Coupled.note fun _ _ h => ⟨h.left, h.right, h.alike, h.printed⟩) fun _ _ => ?_
    exact Run.EndAlike.ret value
  | expression expr => exact evaluate_inside hcallee expr
  | _ => exact .fail _

theorem executeFrom_inside_sees {callee : Callee} (hcallee : callee.SeesGlobals) (last : Node)
    (body : List Node) :
    (executeFrom callee last body).EndAlike (Machine.InsideCalls before before' outer outer') := by
  induction body generalizing last with
  | nil => exact .ret last
  | cons node nodes ih => exact (execute_inside_sees hcallee node).bind ih

end Runs

/-! ## Calls -/

/-- A call depends on the globals only: it binds its parameters and runs its body in a scope of its
own. -/
theorem invoke_sees (budget : Nat) : (invoke budget).SeesGlobals := by
  induction budget with
  | zero => exact fun _ _ _ _ _ _ _ _ _ _ => .fail _
  | succ budget ih =>
    intro name position params body args before before' scopes scopes' hglobals
    by_cases hlen : args.length = params.length
    case neg =>
      rw [invoke_of_length_ne budget name position params body args hlen]
      exact .fail _
    rw [invoke_of_length_eq budget name position params body args hlen]
    refine (Machine.At.note _).bind fun _ => ?_
    refine Run.EndAlike.bind ?_ fun result => (Machine.At.note _).bind fun _ => .ret result
    refine Coupled.inScope (I := Machine.InsideCalls before before' scopes scopes')
      (Coupled.bind (Coupled.defineAll fun binding _ m m' hm => ?_) fun _ _ =>
        executeFrom_inside_sees ih _ body) ?_ ?_ ?_
    · exact ⟨hm.left.define _ _, hm.right.define _ _, hm.alike.define hm.left hm.right _ _, hm.printed⟩
    · rintro m m' ⟨rfl, rfl, hprinted⟩
      exact ⟨m.scopes.inside_push, m'.scopes.inside_push, hglobals.push, hprinted⟩
    · rintro value value' m m' ⟨rfl, hm⟩
      exact ⟨scopes, scopes', hm.left.pop?, hm.right.pop?, rfl, rfl, rfl, hm.printed⟩
    · rintro failure failure' m m' ⟨rfl, hm⟩
      exact ⟨scopes, scopes', hm.left.pop?, hm.right.pop?, rfl, rfl, rfl, hm.printed⟩

/-! ## Whole outcomes -/

namespace Run

variable {α : Type}

/-- The value or the failure of a result. -/
def outcome : EStateM.Result Failure Machine α → Except Failure α
  | .ok value _ => .ok value
  | .error failure _ => .error failure

/-- The computation has one value or one failure on both machines, and prints the same lines. -/
def SameOutcome (c : Run α) (m m' : Machine) : Prop :=
  outcome (c m) = outcome (c m') ∧ ∃ lines,
    (Ending.ofResult (c m)).machine.printed = m.printed ++ lines ∧
    (Ending.ofResult (c m')).machine.printed = m'.printed ++ lines

theorem EndAlike.sameOutcome {c : Run α} {m m' : Machine}
    (h : c.EndAlike (Machine.At m.printed m'.printed m.scopes m'.scopes)) : c.SameOutcome m m' := by
  have hstart : Machine.At m.printed m'.printed m.scopes m'.scopes m m' :=
    ⟨rfl, rfl, #[], by rw [Array.append_empty], by rw [Array.append_empty]⟩
  have := h m m' hstart
  unfold SameOutcome
  revert this
  cases c m <;> cases c m'
  · rintro ⟨rfl, hm⟩
    exact ⟨rfl, hm.printed⟩
  · exact False.elim
  · exact False.elim
  · rintro ⟨rfl, hm⟩
    exact ⟨rfl, hm.printed⟩

end Run

/-- Between machines of equal global scopes, an expression has the same outcome if both see the same
values, and a call has the same outcome whatever they see. -/
theorem callers_are_invisible (budget : Nat) {m m' : Machine}
    (hglobals : m.scopes.SameGlobals m'.scopes) :
    (∀ node, (∀ name, m.scopes.get? name = m'.scopes.get? name) →
      (evaluate (invoke budget) node).SameOutcome m m') ∧
    ∀ name position params body args,
      (invoke budget name position params body args).SameOutcome m m' := by
  constructor
  · intro node hvalues
    exact (evaluate_sees (invoke_sees budget) ⟨hglobals, hvalues⟩ node).sameOutcome
  · intro name position params body args
    exact (invoke_sees budget name position params body args _ _ _ _ hglobals).sameOutcome

/-- A function that prints the global `y`. -/
def printsGlobal : Scope Node :=
  [("f", .function ["x"] [.expression (.print (.binary "+" (.lookup "x" .unknown)
    (.lookup "y" .unknown) .unknown))]), ("y", .number (.finite false 5 0))]

/-- No call is under way. -/
def outsideCalls : Machine := { Machine.start 0 with scopes := ⟨printsGlobal, []⟩ }

/-- Two calls are under way, and the outer one has a `y` of its own. -/
def behindCaller : Machine :=
  { Machine.start 3 with
    scopes := ⟨printsGlobal, [[], [("y", .number .zero), ("z", .number .zero)]]⟩ }

/-- A call is under way that has a `y` of its own. -/
def besideLocal : Machine :=
  { Machine.start 1 with scopes := ⟨printsGlobal, [[("y", .number .zero)]]⟩ }

/-- Calling the function prints the sum with the global `y` from everywhere. -/
theorem callers_are_invisible_to_sum :
    (evaluate (invoke 9) (.call "f" [.numeral "2"] .unknown)).SameOutcome outsideCalls behindCaller ∧
    (invoke 9 "f" .unknown ["x"] [.expression (.print (.binary "+" (.lookup "x" .unknown)
      (.lookup "y" .unknown) .unknown))] [.number .zero]).SameOutcome outsideCalls besideLocal := by
  have hbehind : outsideCalls.scopes.SameGlobals behindCaller.scopes := fun _ => rfl
  have hbeside : outsideCalls.scopes.SameGlobals besideLocal.scopes := fun _ => rfl
  have hvalues : ∀ name, outsideCalls.scopes.get? name = behindCaller.scopes.get? name := by
    intro name
    show (printsGlobal.get? name).or (printsGlobal.get? name) = printsGlobal.get? name
    exact Option.or_self
  exact ⟨(callers_are_invisible 9 hbehind).1 _ hvalues, (callers_are_invisible 9 hbeside).2 _ _ _ _ _⟩

end Douro
