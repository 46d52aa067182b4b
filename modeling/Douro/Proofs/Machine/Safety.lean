import Douro.Proofs.Decimal.Closure
import Douro.Proofs.Decimal.Reading
import Douro.Proofs.Machine.Frame
import Douro.Proofs.Machine.Moment
import Douro.Proofs.Reading.Image

/-!
# Programs that are read do not go wrong

A program that comes from a source keeps to the trees that its tokens can make, and so do the
functions that it binds and calls. Its values are finite numbers and functions, arithmetic on them
gives such a value or overflows, and every failure stands at one of its tokens.

* `Failure.Expected`: the failures of such a program.
* `Machine.Sound`: the invariant of its runs.
* `evaluate_sound`, `execute_sound`, `invoke_sound`, `runStatements_sound`: every step keeps it.
* `ofSource_run_safe`: the runs of a source, at every moment.
-/

namespace Douro

open Reading Run

/-! ## What a sound run may meet -/

/-- The position is that of an identifier or of an operator among the tokens. -/
def IsNamedAt (tokens : List Token) (position : Position) : Prop :=
  ∃ token ∈ tokens, (token.kind = .identifier ∨ token.kind = .operator) ∧
    position = token.position

/-- The failures of a program of these tokens: calls that are nested too deep, and faults at one of
its names or operators. -/
inductive Failure.Expected (tokens : List Token) : Failure → Prop
  | tooDeep : Expected tokens .tooDeep
  | unbound {name position} : IsNamedAt tokens position → Expected tokens (.unbound name position)
  | notFunction {name type position} : IsNamedAt tokens position →
    Expected tokens (.notFunction name type position)
  | operandTypes {op left right position} : IsNamedAt tokens position →
    Expected tokens (.operandTypes op left right position)
  | arity {name expected got position} : IsNamedAt tokens position →
    Expected tokens (.arity name expected got position)
  | divisionByZero {position} : IsNamedAt tokens position →
    Expected tokens (.divisionByZero position)
  | overflow {op position} : IsNamedAt tokens position →
    Expected tokens (.outOfRange op .overflow position)

/-- A finite number or a function. -/
def Node.IsValue : Node → Prop
  | .number value => value.IsFinite
  | .function _ _ => True
  | _ => False

/-- A value of a program of these tokens: the body of a function is made of them too. -/
def Node.IsValueOf (tokens : List Token) : Node → Prop
  | .number value => value.IsFinite
  | .function _ body => ∀ statement ∈ body, IsStatement tokens statement
  | _ => False

theorem Node.IsValueOf.isValue {tokens : List Token} {node : Node} (h : node.IsValueOf tokens) :
    node.IsValue := by
  cases node <;> first | exact h | trivial

/-- Everything bound is a value of the program, and everything printed was one. -/
structure Machine.Sound (tokens : List Token) (m : Machine) : Prop where
  bound : m.scopes.All (Node.IsValueOf tokens)
  printed : ∀ line ∈ m.printed, ∃ value : Node, value.IsValueOf tokens ∧ line = value.display

/-- The tokens are spelled like their kinds, and no number has `10 ^ 17` digits. -/
structure Legible (tokens : List Token) : Prop where
  spelled : ∀ token ∈ tokens, token.Spelled
  digits : ∀ token ∈ tokens, token.kind = .number → Decimal.digitTotal token.text < Decimal.powerOfTen 17

/-! ## Operations -/

section Sound

variable {tokens : List Token}

theorem isNamedAt_identifier {token : Token} (ht : token ∈ tokens) (hk : token.kind = .identifier) :
    IsNamedAt tokens token.position := ⟨token, ht, .inl hk, rfl⟩

/-- A token that adds a term or a factor is one of the four operators. -/
theorem operator_of_adds {token : Token} (hs : token.Spelled)
    (h : addsTerm token = true ∨ addsFactor token = true) :
    token.kind = .operator ∧ ∃ operator, Operator.ofText? token.text = some operator := by
  simp only [addsTerm, addsFactor, Bool.or_eq_true] at h
  rcases h with (h | h) | (h | h)
  · obtain ⟨hk, ht⟩ := (hs.answers_operator_iff (by decide)).mp h
    exact ⟨hk, .add, by rw [ht]; rfl⟩
  · obtain ⟨hk, ht⟩ := (hs.answers_operator_iff (by decide)).mp h
    exact ⟨hk, .subtract, by rw [ht]; rfl⟩
  · obtain ⟨hk, ht⟩ := (hs.answers_operator_iff (by decide)).mp h
    exact ⟨hk, .multiply, by rw [ht]; rfl⟩
  · obtain ⟨hk, ht⟩ := (hs.answers_operator_iff (by decide)).mp h
    exact ⟨hk, .divide, by rw [ht]; rfl⟩

/-- A value of the program, or an expected failure. -/
def IsSoundResult (tokens : List Token) : Except Failure Node → Prop
  | .ok value => value.IsValueOf tokens
  | .error failure => failure.Expected tokens

theorem combineNumbers_sound {op : Token} (hat : IsNamedAt tokens op.position) {operator : Operator}
    (hop : Operator.ofText? op.text = some operator) {a b : Decimal} (ha : a.IsFinite)
    (hb : b.IsFinite) :
    IsSoundResult tokens ((combineNumbers op.text op.position a b).map .number) := by
  simp only [combineNumbers, hop]
  split
  · exact Failure.Expected.divisionByZero hat
  next hguard =>
  have hclosed := operator.apply_closed ha hb (Operator.isZero_of_guard hguard)
  split
  · next result hr =>
    rw [hr] at hclosed
    exact hclosed
  · next signal hr =>
    rw [hr] at hclosed
    cases hclosed
    exact Failure.Expected.overflow hat

/-- Combining two values gives a value or fails as expected. -/
theorem combine_sound {op : Token} (hop : op ∈ tokens) (hs : op.Spelled)
    (hadds : addsTerm op = true ∨ addsFactor op = true) {a b : Node} (ha : a.IsValueOf tokens)
    (hb : b.IsValueOf tokens) : IsSoundResult tokens (combine op.text op.position a b) := by
  obtain ⟨hkind, operator, hoperator⟩ := operator_of_adds hs hadds
  have hat : IsNamedAt tokens op.position := ⟨op, hop, .inr hkind, rfl⟩
  unfold combine
  split
  · exact combineNumbers_sound hat hoperator ha hb
  · exact Failure.Expected.operandTypes hat

/-! ## Expressions -/

/-- The computation keeps the machine sound; its value is one of the program, and its failure an
expected one. -/
def Run.Sound (tokens : List Token) (c : Run Node) : Prop :=
  Triple (Machine.Sound tokens) c (fun value m => m.Sound tokens ∧ value.IsValueOf tokens)
    fun failure m => m.Sound tokens ∧ failure.Expected tokens

theorem Run.Sound.ofExcept {result : Except Failure Node} (h : IsSoundResult tokens result) :
    (Run.ofExcept result).Sound tokens :=
  Triple.ofExcept (fun value m hr hm => ⟨hm, by rw [hr] at h; exact h⟩)
    fun failure m hr hm => ⟨hm, by rw [hr] at h; exact h⟩

/-- Calls at a name of the program, of a function of it, with values of it, are sound. -/
def Callee.Sound (tokens : List Token) (callee : Callee) : Prop :=
  ∀ name position params body args, IsNamedAt tokens position →
    (∀ statement ∈ body, IsStatement tokens statement) →
    (∀ arg ∈ args, Node.IsValueOf tokens arg) →
    (callee name position params body args).Sound tokens

theorem Machine.Sound.note {m : Machine} (h : m.Sound tokens) (event : Event) :
    Machine.Sound tokens { m with log := m.log.note event } := ⟨h.bound, h.printed⟩

theorem Machine.Sound.define {m : Machine} (h : m.Sound tokens) (name : String) {value : Node}
    (hv : value.IsValueOf tokens) :
    Machine.Sound tokens { m with scopes := m.scopes.define name value } :=
  ⟨h.bound.define name hv, h.printed⟩

theorem Machine.Sound.print {m : Machine} (h : m.Sound tokens) {value : Node}
    (hv : value.IsValueOf tokens) :
    Machine.Sound tokens { m with printed := m.printed.push value.display } := by
  refine ⟨h.bound, fun line hl => ?_⟩
  rcases Array.mem_push.mp hl with hl | rfl
  · exact h.printed line hl
  · exact ⟨value, hv, rfl⟩

theorem Machine.Sound.enter {m : Machine} (h : m.Sound tokens) :
    Machine.Sound tokens { m with scopes := m.scopes.push } := ⟨h.bound.push, h.printed⟩

theorem lookup_sound (name : String) {position : Position} (hat : IsNamedAt tokens position) :
    (Run.lookup name position).Sound tokens :=
  Triple.lookup (fun _ _ hm hv => ⟨hm, hm.bound.get? hv⟩) fun _ hm => ⟨hm, .unbound hat⟩

mutual

theorem evaluate_sound (hl : Legible tokens) {callee : Callee} (hcallee : callee.Sound tokens) :
    (node : Node) → IsExpression tokens node → (evaluate callee node).Sound tokens
  | .numeral text, h => by
    obtain ⟨ht, hk⟩ : ∃ token ∈ tokens, token.kind = .number ∧ token.text = text := by
      cases h with
      | numeral ht hk => exact ⟨_, ht, hk, rfl⟩
    obtain ⟨hmem, hk, rfl⟩ := hk
    have hnumeral := hl.spelled _ hmem
    rw [Token.Spelled, hk] at hnumeral
    obtain ⟨c, e, hread⟩ := Decimal.read_of_isNumeral hnumeral (hl.digits _ hmem hk)
    simp only [evaluate, hread]
    exact fun m hm => ⟨hm, trivial⟩
  | .literal value, h => by
    cases h with
    | function hbody => exact fun m hm => ⟨hm, hbody⟩
  | .lookup name position, h => by
    cases h with
    | lookup ht hk => exact lookup_sound _ (isNamedAt_identifier ht hk)
  | .binary _ left right _, h => by
    cases h with
    | binary hop hadds hleft hright =>
      refine Triple.bind (evaluate_sound hl hcallee left hleft) fun a => Triple.assume fun ha => ?_
      refine Triple.bind (evaluate_sound hl hcallee right hright) fun b => Triple.assume fun hb => ?_
      have hresult := combine_sound hop (hl.spelled _ hop) hadds ha hb
      refine Triple.bind (Run.Sound.ofExcept hresult) fun result => Triple.assume fun hr => ?_
      exact Triple.bind (R := fun _ => Machine.Sound tokens) (Triple.note fun m hm => hm.note _)
        fun _ => Triple.ret fun m hm => ⟨hm, hr⟩
  | .print expr, h => by
    cases h with
    | print hexpr =>
      refine Triple.bind (evaluate_sound hl hcallee expr hexpr) fun value =>
        Triple.assume fun hv => ?_
      exact Triple.bind (R := fun _ => Machine.Sound tokens)
        (Triple.print fun m hm => hm.print hv) fun _ => Triple.ret fun m hm => ⟨hm, hv⟩
  | .call name args position, h => by
    cases h with
    | call ht hk hargs =>
      have hat := isNamedAt_identifier ht hk
      refine Triple.bind (lookup_sound _ hat) fun value => Triple.assume fun hv => ?_
      split
      · next params body =>
        exact Triple.bind (evaluateAll_sound hl hcallee args hargs) fun values =>
          Triple.assume fun hvalues => hcallee _ _ params body values hat hv hvalues
      · exact Triple.fail fun m hm => ⟨hm, .notFunction hat⟩

theorem evaluateAll_sound (hl : Legible tokens) {callee : Callee} (hcallee : callee.Sound tokens) :
    (nodes : List Node) → (∀ node ∈ nodes, IsExpression tokens node) →
      Triple (Machine.Sound tokens) (evaluateAll callee nodes)
        (fun values m => m.Sound tokens ∧ ∀ value ∈ values, Node.IsValueOf tokens value)
        fun failure m => m.Sound tokens ∧ failure.Expected tokens
  | [], _ => fun m hm => ⟨hm, nofun⟩
  | node :: nodes, h => by
    refine Triple.bind (evaluate_sound hl hcallee node (h node List.mem_cons_self)) fun value =>
      Triple.assume fun hv => ?_
    refine Triple.bind (evaluateAll_sound hl hcallee nodes fun n hn => h n (List.mem_cons_of_mem _ hn))
      fun values => Triple.assume fun hvs => ?_
    exact Triple.ret fun m hm => ⟨hm, List.forall_mem_cons.mpr ⟨hv, hvs⟩⟩

end

/-! ## Statements and calls -/

theorem execute_sound (hl : Legible tokens) {callee : Callee} (hcallee : callee.Sound tokens)
    {node : Node} (h : IsStatement tokens node) : (execute callee node).Sound tokens := by
  cases h with
  | assign hexpr =>
    refine Triple.bind (evaluate_sound hl hcallee _ hexpr) fun value => Triple.assume fun hv => ?_
    refine Triple.bind (R := fun _ => Machine.Sound tokens)
      (Triple.define fun m hm => hm.define _ hv) fun _ => ?_
    refine Triple.bind (R := fun _ => Machine.Sound tokens) (Triple.depth fun m hm => hm) fun _ => ?_
    exact Triple.bind (R := fun _ => Machine.Sound tokens) (Triple.note fun m hm => hm.note _)
      fun _ => Triple.ret fun m hm => ⟨hm, hv⟩
  | expression hexpr => exact evaluate_sound hl hcallee _ hexpr

theorem executeFrom_sound (hl : Legible tokens) {callee : Callee} (hcallee : callee.Sound tokens)
    {last : Node} (hlast : last.IsValueOf tokens) {body : List Node}
    (h : ∀ node ∈ body, IsStatement tokens node) : (executeFrom callee last body).Sound tokens := by
  induction body generalizing last with
  | nil => exact Triple.ret fun m hm => ⟨hm, hlast⟩
  | cons node nodes ih =>
    exact Triple.bind (execute_sound hl hcallee (h node List.mem_cons_self)) fun value =>
      Triple.assume fun hv => ih hv fun n hn => h n (List.mem_cons_of_mem _ hn)

/-- A body keeps the call scope in which it runs. -/
theorem executeFrom_keepsCall {callee : Callee} (hcallee : callee.KeepsScopes) (last : Node)
    (body : List Node) :
    Triple (fun m => m.scopes.calls ≠ []) (executeFrom callee last body)
      (fun _ m => m.scopes.calls ≠ []) fun _ m => m.scopes.calls ≠ [] := by
  intro m hm
  obtain ⟨scope, outer, hc⟩ := List.exists_cons_of_ne_nil hm
  have hin : Scopes.Inside ⟨m.scopes.globals, outer⟩ m.scopes := ⟨scope, by rw [← hc]⟩
  have h := executeFrom_inside hcallee ⟨m.scopes.globals, outer⟩ last body m hin
  cases hr : executeFrom callee last body m with
  | ok value m' =>
    rw [hr] at h
    obtain ⟨scope', hs⟩ := h
    show m'.scopes.calls ≠ []
    rw [hs]
    exact List.cons_ne_nil _ _
  | error failure m' =>
    rw [hr] at h
    obtain ⟨scope', hs⟩ := h
    show m'.scopes.calls ≠ []
    rw [hs]
    exact List.cons_ne_nil _ _

private theorem define_calls_ne_nil {scopes : Scopes Node} (h : scopes.calls ≠ []) (name : String)
    (value : Node) : (scopes.define name value).calls ≠ [] := by
  unfold Scopes.define
  split
  · next hc => exact absurd hc h
  · exact List.cons_ne_nil _ _

/-- Binding values and running a body. -/
theorem bindings_sound (hl : Legible tokens) {callee : Callee} (hcallee : callee.Sound tokens)
    {bindings : List (String × Node)} (hb : ∀ binding ∈ bindings, Node.IsValueOf tokens binding.2)
    {body : List Node} (h : ∀ node ∈ body, IsStatement tokens node) :
    Run.Sound tokens (do Run.defineAll bindings; executeBody callee body) :=
  Triple.bind (Triple.defineAll fun binding hm _ hs => hs.define _ (hb binding hm)) fun _ =>
    executeFrom_sound hl hcallee (by trivial) h

theorem bindings_keepsCall {callee : Callee} (hcallee : callee.KeepsScopes)
    (bindings : List (String × Node)) (body : List Node) :
    Triple (fun m => m.scopes.calls ≠ []) (do Run.defineAll bindings; executeBody callee body)
      (fun _ m => m.scopes.calls ≠ []) fun _ m => m.scopes.calls ≠ [] :=
  Triple.bind (Triple.defineAll fun _ _ _ hc => define_calls_ne_nil hc _ _) fun _ =>
    executeFrom_keepsCall hcallee _ body

theorem mem_zip_isValueOf {params : List String} {args : List Node}
    (h : ∀ arg ∈ args, Node.IsValueOf tokens arg) :
    ∀ binding ∈ params.zip args, Node.IsValueOf tokens binding.2 :=
  fun binding hb => h binding.2 (List.of_mem_zip hb).2

theorem leave_sound {m : Machine} (h : m.Sound tokens) (hc : m.scopes.calls ≠ []) :
    ∃ scopes, m.scopes.pop? = some scopes ∧ Machine.Sound tokens { m with scopes } := by
  obtain ⟨scope, outer, hcalls⟩ := List.exists_cons_of_ne_nil hc
  have hp : m.scopes.pop? = some ⟨m.scopes.globals, outer⟩ := by
    unfold Scopes.pop?
    rw [hcalls]
  exact ⟨_, hp, h.bound.pop? hp, h.printed⟩

theorem invoke_sound (hl : Legible tokens) (budget : Nat) : (invoke budget).Sound tokens := by
  induction budget with
  | zero => exact fun _ _ _ _ _ _ _ _ => Triple.fail fun m hm => ⟨hm, .tooDeep⟩
  | succ budget ih =>
    intro name position params body args hat hbody hargs
    by_cases hlen : args.length = params.length
    case neg =>
      rw [invoke_of_length_ne budget name position params body args hlen]
      exact Triple.fail fun m hm => ⟨hm, .arity hat⟩
    rw [invoke_of_length_eq budget name position params body args hlen]
    refine Triple.bind (R := fun _ => Machine.Sound tokens) (Triple.note fun m hm => hm.note _)
      fun _ => ?_
    refine Triple.bind (R := fun value m => m.Sound tokens ∧ value.IsValueOf tokens) ?_
      fun result => Triple.assume fun hr => ?_
    · refine Triple.inScope (Triple.and (bindings_sound hl ih (mem_zip_isValueOf hargs) hbody)
        (bindings_keepsCall (invoke_keepsScopes budget) _ body)) ?_ ?_ ?_
      · exact fun m hm => ⟨hm.enter, List.cons_ne_nil _ _⟩
      · rintro value m ⟨⟨hm, hv⟩, hc⟩
        obtain ⟨scopes, hp, hs⟩ := leave_sound hm hc
        exact ⟨scopes, hp, hs, hv⟩
      · rintro failure m ⟨⟨hm, hf⟩, hc⟩
        obtain ⟨scopes, hp, hs⟩ := leave_sound hm hc
        exact ⟨scopes, hp, hs, hf⟩
    · exact Triple.bind (R := fun _ => Machine.Sound tokens) (Triple.note fun m hm => hm.note _)
        fun _ => Triple.ret fun m hm => ⟨hm, hr⟩

theorem runStatements_sound (hl : Legible tokens) (budget : Nat) {body : List Node}
    (h : ∀ node ∈ body, IsStatement tokens node) :
    Triple (Machine.Sound tokens) (runStatements (invoke budget) body) (fun _ => Machine.Sound tokens)
      fun failure m => m.Sound tokens ∧ failure.Expected tokens := by
  induction body with
  | nil => exact Triple.ret fun m hm => hm
  | cons node nodes ih =>
    refine Triple.bind (R := fun _ => Machine.Sound tokens) (Triple.note fun m hm => hm.note _)
      fun _ => ?_
    refine Triple.bind (execute_sound hl (invoke_sound hl budget) (h node List.mem_cons_self))
      fun value => Triple.assume fun _ => ?_
    exact ih fun n hn => h n (List.mem_cons_of_mem _ hn)

/-! ## Every moment of a run -/

/-- What the task is about is made of the tokens, and the values that it holds are values. -/
def Task.IsMade (tokens : List Token) : Task → Prop
  | .program nodes => ∀ node ∈ nodes, IsStatement tokens node
  | .statement node => IsStatement tokens node
  | .expression node => IsExpression tokens node
  | .expressions nodes => ∀ node ∈ nodes, IsExpression tokens node
  | .bindings pairs nodes =>
    (∀ pair ∈ pairs, Node.IsValueOf tokens pair.2) ∧ ∀ node ∈ nodes, IsStatement tokens node
  | .body last nodes => last.IsValueOf tokens ∧ ∀ node ∈ nodes, IsStatement tokens node

/-- The task is one of a sound run. -/
def Stage.Sound (tokens : List Token) (stage : Stage) : Prop :=
  stage.machine.Sound tokens ∧ stage.task.IsMade tokens

theorem Stage.Sound.enters (hl : Legible tokens) {stage stage' : Stage} (h : stage.Sound tokens)
    (he : stage.Enters stage') : stage'.Sound tokens := by
  obtain ⟨hm, ht⟩ := h
  cases he with
  | firstOfProgram => exact ⟨hm.note _, ht _ List.mem_cons_self⟩
  | restOfProgram hx =>
    have := (execute_sound hl (invoke_sound hl _) (ht _ List.mem_cons_self)).of_ok (hm.note _) hx
    exact ⟨this.1, fun n hn => ht n (List.mem_cons_of_mem _ hn)⟩
  | assigned =>
    cases ht with
    | assign hexpr => exact ⟨hm, hexpr⟩
  | evaluated =>
    cases ht with
    | expression hexpr => exact ⟨hm, hexpr⟩
  | left =>
    cases ht with
    | binary _ _ hleft _ => exact ⟨hm, hleft⟩
  | right hx =>
    cases ht with
    | binary _ _ hleft hright =>
      exact ⟨((evaluate_sound hl (invoke_sound hl _) _ hleft).of_ok hm hx).1, hright⟩
  | printed =>
    cases ht with
    | print hexpr => exact ⟨hm, hexpr⟩
  | arguments _ =>
    cases ht with
    | call _ _ hargs => exact ⟨hm, hargs⟩
  | call hf hx _ =>
    cases ht with
    | call _ _ hargs =>
      obtain ⟨hm', hvalues⟩ :=
        (evaluateAll_sound hl (invoke_sound hl _) _ hargs).of_ok hm hx
      exact ⟨(hm'.note _).enter, mem_zip_isValueOf hvalues, hm.bound.get? hf⟩
  | firstArgument => exact ⟨hm, ht _ List.mem_cons_self⟩
  | restOfArguments hx =>
    have := (evaluate_sound hl (invoke_sound hl _) _ (ht _ List.mem_cons_self)).of_ok hm hx
    exact ⟨this.1, fun n hn => ht n (List.mem_cons_of_mem _ hn)⟩
  | bound =>
    exact ⟨hm.define _ (ht.1 _ List.mem_cons_self),
      fun b hb => ht.1 b (List.mem_cons_of_mem _ hb), ht.2⟩
  | body => exact ⟨hm, by trivial, ht.2⟩
  | firstOfBody => exact ⟨hm, ht.2 _ List.mem_cons_self⟩
  | restOfBody hx =>
    have := (execute_sound hl (invoke_sound hl _) (ht.2 _ List.mem_cons_self)).of_ok hm hx
    exact ⟨this.1, this.2, fun n hn => ht.2 n (List.mem_cons_of_mem _ hn)⟩

theorem Stage.Sound.after (hl : Legible tokens) {stage : Stage} (h : stage.Sound tokens) :
    stage.after.Sound tokens := by
  obtain ⟨n, task, m⟩ := stage
  obtain ⟨hm, ht⟩ := h
  have hcallee := invoke_sound hl n
  cases task with
  | program body =>
    exact (runStatements_sound hl n ht).machine (fun _ _ h => h) (fun _ _ h => h.1) hm
  | statement node =>
    exact (execute_sound hl hcallee ht).machine (fun _ _ h => h.1) (fun _ _ h => h.1) hm
  | expression node =>
    exact (evaluate_sound hl hcallee node ht).machine (fun _ _ h => h.1) (fun _ _ h => h.1) hm
  | expressions nodes =>
    exact (evaluateAll_sound hl hcallee nodes ht).machine (fun _ _ h => h.1) (fun _ _ h => h.1) hm
  | bindings bindings body =>
    exact (bindings_sound hl hcallee ht.1 ht.2).machine (fun _ _ h => h.1) (fun _ _ h => h.1) hm
  | body last nodes =>
    exact (executeFrom_sound hl hcallee ht.1 ht.2).machine (fun _ _ h => h.1) (fun _ _ h => h.1) hm

theorem Machine.start_sound (tokens : List Token) (level : Int) :
    (Machine.start level).Sound tokens :=
  ⟨Scopes.all_iff.mpr ⟨nofun, nofun⟩, fun _ hl => by cases Array.mem_toList_iff.mpr hl⟩

end Sound

/-- A source that is read runs to its end, or it exceeds the limit of nested calls, or it stops at
one of the expected faults, at an identifier or an operator of the source. At every moment of the
run every bound value is a finite number or a function, and so was everything printed. -/
theorem ofSource_run_safe {source : String} {program : Node}
    (h : Node.ofSource source = .ok program)
    (hdigits : ∀ tokens, scanSource source = .ok tokens → ∀ token ∈ tokens,
      token.kind = .number → Decimal.digitTotal token.text < Decimal.powerOfTen 17)
    (budget : Nat) (level : Int) :
    ∃ tokens body, scanSource source = .ok tokens ∧ program = .program body ∧
      (∀ failure m, runWithin budget program (Machine.start level) = .error failure m →
        failure.Expected tokens) ∧
      ∀ m, Stage.Passes ⟨budget, .program body, Machine.start level⟩ m →
        m.scopes.All Node.IsValue ∧
          ∀ line ∈ m.printed, ∃ value : Node, value.IsValue ∧ line = value.display := by
  unfold Node.ofSource at h
  split at h
  · cases h
  next tokens hscan =>
  cases hread : Node.ofTokens tokens with
  | error e => rw [hread] at h; cases h
  | ok program' =>
    rw [hread] at h
    cases h
    obtain ⟨body, rfl, hbody⟩ := ofTokens_image hread
    have hl : Legible tokens := ⟨scanSource_spelled hscan, hdigits tokens hscan⟩
    have hstart := Machine.start_sound tokens level
    refine ⟨tokens, body, hscan, rfl, fun failure m hrun => ?_, fun m hm => ?_⟩
    · exact ((runStatements_sound hl budget hbody).of_error hstart hrun).2
    · have hsound : m.Sound tokens := hm.of_invariant (I := Stage.Sound tokens) ⟨hstart, hbody⟩
        (fun _ _ hs he => hs.enters hl he) (fun _ hs => hs.1) fun _ hs => hs.after hl
      refine ⟨fun scope hscope binding hb => (hsound.bound scope hscope binding hb).isValue,
        fun line hline => ?_⟩
      obtain ⟨value, hv, hd⟩ := hsound.printed line hline
      exact ⟨value, hv.isValue, hd⟩

/-- A function that divides by zero, called with a numeral that has a point. -/
theorem ofSource_run_safe_at_division :
    ∃ program tokens, Node.ofSource "f = function(n) (n / 0)\nf(1.5)" = .ok program ∧
      scanSource "f = function(n) (n / 0)\nf(1.5)" = .ok tokens ∧
      (∀ token ∈ tokens, token.kind = .number → Decimal.digitTotal token.text < Decimal.powerOfTen 17) ∧
      ∀ failure m, runWithin 1 program (Machine.start 3) = .error failure m →
        failure.Expected tokens := by
  have hscan : scanSource "f = function(n) (n / 0)\nf(1.5)" = .ok
      [⟨.identifier, "f", 1, 1⟩, ⟨.punctuation, "=", 1, 3⟩, ⟨.keyword, "function", 1, 5⟩,
        ⟨.punctuation, "(", 1, 13⟩, ⟨.identifier, "n", 1, 14⟩, ⟨.punctuation, ")", 1, 15⟩,
        ⟨.punctuation, "(", 1, 17⟩, ⟨.identifier, "n", 1, 18⟩, ⟨.operator, "/", 1, 20⟩,
        ⟨.number, "0", 1, 22⟩, ⟨.punctuation, ")", 1, 23⟩, ⟨.newline, "\n", 1, 24⟩,
        ⟨.identifier, "f", 2, 1⟩, ⟨.punctuation, "(", 2, 2⟩, ⟨.number, "1.5", 2, 3⟩,
        ⟨.punctuation, ")", 2, 6⟩] := by with_unfolding_all rfl
  have hread : Node.ofSource "f = function(n) (n / 0)\nf(1.5)" = .ok (.program
      [.assign "f" (.literal (.function ["n"]
        [.expression (.binary "/" (.lookup "n" ⟨some 1, some 18⟩) (.numeral "0")
          ⟨some 1, some 20⟩)])),
        .expression (.call "f" [.numeral "1.5"] ⟨some 2, some 1⟩)]) := by
    rw [Node.ofSource, hscan]
    rfl
  have hdigits : ∀ tokens, scanSource "f = function(n) (n / 0)\nf(1.5)" = .ok tokens →
      ∀ token ∈ tokens, token.kind = .number → Decimal.digitTotal token.text < Decimal.powerOfTen 17 := by
    intro tokens h
    rw [hscan] at h
    cases h
    decide
  obtain ⟨tokens, _, ht, -, hfail, -⟩ := ofSource_run_safe hread hdigits 1 3
  exact ⟨_, tokens, hread, ht, hdigits tokens ht, hfail⟩

end Douro
