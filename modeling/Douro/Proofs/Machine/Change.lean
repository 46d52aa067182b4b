import Douro.Machine.Program
import Douro.Proofs.Machine.Coupling
import Douro.Proofs.Reading.Image
import Douro.Proofs.Scope

/-!
# Changed programs

A change of trees follows their shape if it does the same at every node: names, numerals and
operators stay, positions are changed in one way, and `print` stays everywhere or goes everywhere.
The changed program then takes the steps of the program. It binds the changed values, it stops with
the changed failure, and its log has the same lines. It prints the same lines, or none if `print`
has gone.

This holds of programs that come from tokens. Their values are numbers and functions, whose texts
show neither positions nor bodies.

* `Change`: a map of trees, and how it acts on each kind of node.
* `Failure.mapPosition`: the failure with its position changed.
* `Machine.Changed`: what the two runs have in common.
* `evaluate_changed`, `execute_changed`, `invoke_changed`, `runStatements_changed`: every step keeps
  it.
* `runWithin_changed`: whole runs.
-/

namespace Douro

open Reading Run

/-- A change of trees that follows their shape. -/
structure Change where
  tree : Node → Node
  position : Position → Position
  /-- Does an expression stand in the place of its `print`? -/
  silent : Bool
  tree_number (value : Decimal) : tree (.number value) = .number value
  tree_function (params : List String) (body : List Node) :
    tree (.function params body) = .function params (body.map tree)
  tree_numeral (text : String) : tree (.numeral text) = .numeral text
  tree_literal (value : Node) : tree (.literal value) = .literal (tree value)
  tree_lookup (name : String) (place : Position) :
    tree (.lookup name place) = .lookup name (position place)
  tree_call (name : String) (args : List Node) (place : Position) :
    tree (.call name args place) = .call name (args.map tree) (position place)
  tree_print (expr : Node) :
    tree (.print expr) = if silent then tree expr else .print (tree expr)
  tree_binary (op : String) (left right : Node) (place : Position) :
    tree (.binary op left right place) = .binary op (tree left) (tree right) (position place)
  tree_assign (name : String) (expr : Node) : tree (.assign name expr) = .assign name (tree expr)
  tree_expression (expr : Node) : tree (.expression expr) = .expression (tree expr)
  tree_program (body : List Node) : tree (.program body) = .program (body.map tree)

/-! ## Failures, values and logs -/

namespace Failure

/-- The failure with its position changed by `f`. -/
def mapPosition (f : Position → Position) : Failure → Failure
  | unbound name position => unbound name (f position)
  | notFunction name type position => notFunction name type (f position)
  | arity name expected got position => arity name expected got (f position)
  | operandTypes op left right position => operandTypes op left right (f position)
  | unknownOperator op position => unknownOperator op (f position)
  | outOfRange op signal position => outOfRange op signal (f position)
  | divisionByZero position => divisionByZero (f position)
  | failure => failure

theorem mapPosition_id (failure : Failure) : failure.mapPosition id = failure := by
  cases failure <;> rfl

/-- The position is all of the diagnostic that changes. -/
theorem diagnostic?_mapPosition (f : Position → Position) (failure : Failure) :
    (failure.mapPosition f).diagnostic? =
      failure.diagnostic?.map fun fault => { fault with position := f fault.position } := by
  cases failure <;> rfl

end Failure

/-- A value of a program of these tokens: a number, or a function whose body is made of them. -/
def Node.IsMadeValue (tokens : List Token) : Node → Prop
  | .number _ => True
  | .function _ body => ∀ statement ∈ body, IsStatement tokens statement
  | _ => False

/-- The logs hold the same lines and take down the same events. -/
structure Log.Alike (log log' : Log) : Prop where
  level : log'.level = log.level
  isOpen : log'.isOpen = log.isOpen
  lines : log'.lines = log.lines

theorem Log.Alike.note {log log' : Log} (h : log.Alike log') {event event' : Event}
    (hlevel : event'.level = event.level) (htext : event'.text = event.text) :
    (log.note event).Alike (log'.note event') := by
  unfold Log.note
  rw [h.level, h.isOpen, hlevel]
  split
  · refine ⟨rfl, rfl, ?_⟩
    have hlines : log'.events.toList.map Event.text = log.events.toList.map Event.text := h.lines
    simp only [Log.lines, Array.toList_push, List.map_append, hlines, List.map_cons, List.map_nil,
      htext]
  · exact h

section Changed

variable {change : Change} {tokens : List Token}

namespace Node.IsMadeValue

theorem number_or_function {value : Node} (h : value.IsMadeValue tokens) :
    (∃ x, value = .number x) ∨ ∃ params body, value = .function params body := by
  cases value with
  | number x => exact .inl ⟨x, rfl⟩
  | function params body => exact .inr ⟨params, body, rfl⟩
  | _ => exact h.elim

theorem display_tree {value : Node} (h : value.IsMadeValue tokens) :
    (change.tree value).display = value.display := by
  obtain ⟨x, rfl⟩ | ⟨params, body, rfl⟩ := h.number_or_function
  · rw [change.tree_number]
  · rw [change.tree_function]
    rfl

theorem kindName_tree {value : Node} (h : value.IsMadeValue tokens) :
    (change.tree value).kindName = value.kindName := by
  obtain ⟨x, rfl⟩ | ⟨params, body, rfl⟩ := h.number_or_function
  · rw [change.tree_number]
  · rw [change.tree_function]
    rfl

end Node.IsMadeValue

theorem display_map_tree {values : List Node}
    (h : ∀ value ∈ values, Node.IsMadeValue tokens value) :
    (values.map change.tree).map Node.display = values.map Node.display := by
  rw [List.map_map]
  exact List.map_congr_left fun value hv => (h value hv).display_tree

theorem kindName_tree_of_isStatement {node : Node} (h : IsStatement tokens node) :
    (change.tree node).kindName = node.kindName := by
  cases h with
  | assign _ => rw [change.tree_assign]; rfl
  | expression _ => rw [change.tree_expression]; rfl

theorem combineNumbers_mapPosition (f : Position → Position) (op : String) (position : Position)
    (x y : Decimal) :
    combineNumbers op (f position) x y =
      (combineNumbers op position x y).mapError (Failure.mapPosition f) := by
  unfold combineNumbers
  cases Operator.ofText? op with
  | none => rfl
  | some operator =>
    simp only
    split
    · rfl
    · cases operator.apply x y <;> rfl

/-- Arithmetic looks at the types of the operands and at the numbers. -/
theorem combine_tree (op : String) (position : Position) {a b : Node} (ha : a.IsMadeValue tokens)
    (hb : b.IsMadeValue tokens) :
    combine op (change.position position) (change.tree a) (change.tree b) =
      ((combine op position a b).map change.tree).mapError
        (Failure.mapPosition change.position) := by
  have hkind : (change.tree b).kindName = b.kindName := hb.kindName_tree
  obtain ⟨x, rfl⟩ | ⟨params, body, rfl⟩ := ha.number_or_function
  · obtain ⟨y, rfl⟩ | ⟨params, body, rfl⟩ := hb.number_or_function
    · rw [change.tree_number, change.tree_number, combine, combineNumbers_mapPosition, combine]
      cases combineNumbers op position x y with
      | ok z => exact congrArg Except.ok (change.tree_number z).symm
      | error failure => rfl
    · rw [change.tree_number, change.tree_function]
      rfl
  · rw [change.tree_function, combine, hkind]
    · rfl
    · exact nofun

/-- The result of arithmetic is a number. -/
theorem combine_isMadeValue {op : String} {position : Position} {a b value : Node}
    (h : combine op position a b = .ok value) : value.IsMadeValue tokens := by
  unfold combine at h
  split at h
  · cases hn : combineNumbers op position _ _ with
    | ok x => rw [hn] at h; cases h; trivial
    | error failure => rw [hn] at h; cases h
  · cases h

/-! ## Two machines -/

variable (change tokens) in
/-- The values of the second machine are the changed values of the first. -/
structure Machine.Changed (m m' : Machine) : Prop where
  made : m.scopes.All (Node.IsMadeValue tokens)
  scopes : m'.scopes = m.scopes.map change.tree
  printed : m'.printed = if change.silent then #[] else m.printed
  log : m.log.Alike m'.log

variable (change tokens) in
/-- The second failure is the changed first one. -/
def Run.FailChanged (failure failure' : Failure) (m m' : Machine) : Prop :=
  failure' = failure.mapPosition change.position ∧ m.Changed change tokens m'

variable (change tokens) in
/-- The computations end with a value and the changed value, or with a failure and the changed
failure. -/
def Run.EndChanged (c c' : Run Node) : Prop :=
  Coupled (Machine.Changed change tokens) c c'
    (fun value value' m m' =>
      (value.IsMadeValue tokens ∧ value' = change.tree value) ∧ m.Changed change tokens m')
    (FailChanged change tokens)

namespace Run.EndChanged

theorem ret {value : Node} (h : value.IsMadeValue tokens) :
    EndChanged change tokens (pure value) (pure (change.tree value)) :=
  Coupled.ret fun _ _ hm => ⟨⟨h, rfl⟩, hm⟩

theorem number (x : Decimal) :
    EndChanged change tokens (pure (.number x)) (pure (.number x)) :=
  Coupled.ret fun _ _ hm => ⟨⟨trivial, (change.tree_number x).symm⟩, hm⟩

theorem fail (failure : Failure) :
    EndChanged change tokens (throw failure) (throw (failure.mapPosition change.position)) :=
  Coupled.fail fun _ _ hm => ⟨rfl, hm⟩

theorem ofExcept {result : Except Failure Node}
    (h : ∀ value, result = .ok value → value.IsMadeValue tokens) :
    EndChanged change tokens (Run.ofExcept result)
      (Run.ofExcept ((result.map change.tree).mapError (Failure.mapPosition change.position))) := by
  cases result with
  | ok value => exact .ret (h value rfl)
  | error failure => exact .fail failure

/-- Both runs print the value that they have found. -/
theorem print {c c' : Run Node} (h : EndChanged change tokens c c')
    (hloud : change.silent = false) :
    EndChanged change tokens
      (do let value ← c; Run.print value.display; return value)
      (do let value ← c'; Run.print value.display; return value) := by
  refine Coupled.bind h fun value _ => Coupled.assume ?_
  rintro ⟨hv, rfl⟩
  refine Coupled.bind (R := fun _ _ => Machine.Changed change tokens)
    (Coupled.print fun m m' hm => ⟨hm.made, hm.scopes, ?_, hm.log⟩) fun _ _ => EndChanged.ret hv
  have hprinted : m'.printed = m.printed := by simpa [hloud] using hm.printed
  simp only [hprinted, hv.display_tree, hloud]
  rfl

/-- Only the first run prints; the second is done with the value. -/
theorem printFirst {c c' : Run Node} (h : EndChanged change tokens c c')
    (hsilent : change.silent = true) :
    EndChanged change tokens (do let value ← c; Run.print value.display; return value) c' := by
  rw [← bind_pure c']
  refine Coupled.bind h fun value _ => Coupled.assume ?_
  rintro ⟨hv, rfl⟩ m m' hm
  refine ⟨⟨hv, rfl⟩, hm.made, hm.scopes, ?_, hm.log⟩
  simpa [hsilent] using hm.printed

end Run.EndChanged

namespace Machine.Changed

variable {E : Failure → Failure → Machine → Machine → Prop} {m m' : Machine}

theorem define (h : m.Changed change tokens m') (name : String) {value : Node}
    (hv : value.IsMadeValue tokens) :
    Machine.Changed change tokens { m with scopes := m.scopes.define name value }
      { m' with scopes := m'.scopes.define name (change.tree value) } :=
  ⟨h.made.define name hv, by simp only [h.scopes, Scopes.define_map], h.printed, h.log⟩

theorem note {event event' : Event} (hlevel : event'.level = event.level)
    (htext : event'.text = event.text) :
    Coupled (Changed change tokens) (Run.note event) (Run.note event')
      (fun _ _ => Changed change tokens) E :=
  Coupled.note fun _ _ h => ⟨h.made, h.scopes, h.printed, h.log.note hlevel htext⟩

theorem lookup (name : String) (position : Position) :
    EndChanged change tokens (Run.lookup name position)
      (Run.lookup name (change.position position)) := by
  intro m m' h
  unfold Run.lookup
  rw [h.scopes, Scopes.get?_map]
  cases hv : m.scopes.get? name with
  | some value => exact ⟨⟨h.made.get? hv, rfl⟩, h⟩
  | none => exact ⟨rfl, h⟩

theorem depth : Coupled (Changed change tokens) Run.depth Run.depth
    (fun d d' m m' => d' = d ∧ m.Changed change tokens m') E :=
  Coupled.depth fun m _ h => ⟨by rw [h.scopes, Scopes.depth_map], h⟩

theorem defineAll {params : List String} {args : List Node}
    (h : ∀ arg ∈ args, Node.IsMadeValue tokens arg) :
    Coupled (Changed change tokens) (Run.defineAll (params.zip args))
      (Run.defineAll (params.zip (args.map change.tree))) (fun _ _ => Changed change tokens) E := by
  induction params generalizing args with
  | nil => exact Coupled.ret fun _ _ hm => hm
  | cons param params ih =>
    cases args with
    | nil => exact Coupled.ret fun _ _ hm => hm
    | cons arg args =>
      obtain ⟨harg, hargs⟩ := List.forall_mem_cons.mp h
      exact Coupled.bind (Coupled.define fun _ _ hm => hm.define param harg) fun _ _ => ih hargs

/-- Both machines have a call scope to leave, or neither has. -/
theorem inScope {c c' : Run Node} (hc : EndChanged change tokens c c') :
    EndChanged change tokens (Run.inScope c) (Run.inScope c') := by
  refine Coupled.inScope_of_leave hc
    (fun m m' h => ⟨h.made.push, by simp only [h.scopes, Scopes.push_map], h.printed, h.log⟩) ?_ ?_
  · rintro value value' m m' ⟨hv, h⟩
    simp only [leave, h.scopes, Scopes.pop?_map]
    cases hp : m.scopes.pop? with
    | none => exact ⟨rfl, h⟩
    | some scopes => exact ⟨hv, h.made.pop? hp, rfl, h.printed, h.log⟩
  · rintro failure failure' m m' ⟨hf, h⟩
    simp only [leave, h.scopes, Scopes.pop?_map]
    cases hp : m.scopes.pop? with
    | none => exact ⟨rfl, h⟩
    | some scopes => exact ⟨hf, h.made.pop? hp, rfl, h.printed, h.log⟩

end Machine.Changed

/-! ## Expressions -/

variable (change tokens) in
/-- Calls of functions of the program with values of it end alike, wherever they stand. -/
def Callee.Changed (callee callee' : Callee) : Prop :=
  ∀ name position params body args, (∀ statement ∈ body, IsStatement tokens statement) →
    (∀ arg ∈ args, Node.IsMadeValue tokens arg) →
    EndChanged change tokens (callee name position params body args)
      (callee' name (change.position position) params (body.map change.tree) (args.map change.tree))

mutual

theorem evaluate_changed {callee callee' : Callee}
    (hcallee : callee.Changed change tokens callee') :
    (node : Node) → IsExpression tokens node →
      EndChanged change tokens (evaluate callee node) (evaluate callee' (change.tree node))
  | .numeral text, _ => by
    simp only [change.tree_numeral, evaluate]
    cases Decimal.read text with
    | ok x => exact .number x
    | error e => exact .fail (.numeral e)
  | .literal value, h => by
    rw [change.tree_literal]
    cases h with
    | function hbody => exact .ret hbody
  | .lookup name position, _ => by
    rw [change.tree_lookup]
    exact Machine.Changed.lookup name position
  | .binary op left right position, h => by
    rw [change.tree_binary]
    cases h with
    | binary _ _ hleft hright =>
      refine Coupled.bind (evaluate_changed hcallee left hleft) fun a _ => Coupled.assume ?_
      rintro ⟨ha, rfl⟩
      refine Coupled.bind (evaluate_changed hcallee right hright) fun b _ => Coupled.assume ?_
      rintro ⟨hb, rfl⟩
      rw [combine_tree _ _ ha hb]
      refine Coupled.bind (EndChanged.ofExcept fun value hv => combine_isMadeValue hv) fun r _ =>
        Coupled.assume ?_
      rintro ⟨hr, rfl⟩
      refine Coupled.bind (Machine.Changed.note rfl ?_) fun _ _ => EndChanged.ret hr
      simp only [Event.text, ha.display_tree, hb.display_tree, hr.display_tree]
  | .print expr, h => by
    cases h with
    | print hexpr =>
      have hends := evaluate_changed hcallee expr hexpr
      rw [change.tree_print]
      cases hsilent : change.silent with
      | false => exact hends.print hsilent
      | true => exact hends.printFirst hsilent
  | .call name args position, h => by
    rw [change.tree_call]
    cases h with
    | call _ _ hargs =>
      refine Coupled.bind (Machine.Changed.lookup _ _) fun value _ => Coupled.assume ?_
      rintro ⟨hv, rfl⟩
      cases value with
      | function params body =>
        rw [change.tree_function]
        refine Coupled.bind (evaluateAll_changed hcallee args hargs) fun values _ =>
          Coupled.assume ?_
        rintro ⟨hvalues, rfl⟩
        exact hcallee _ _ params body values hv hvalues
      | number x =>
        rw [change.tree_number]
        exact EndChanged.fail (.notFunction ..)
      | _ => exact hv.elim

theorem evaluateAll_changed {callee callee' : Callee}
    (hcallee : callee.Changed change tokens callee') :
    (nodes : List Node) → (∀ node ∈ nodes, IsExpression tokens node) →
      Coupled (Machine.Changed change tokens) (evaluateAll callee nodes)
        (evaluateAll callee' (nodes.map change.tree))
        (fun values values' m m' => ((∀ value ∈ values, Node.IsMadeValue tokens value) ∧
          values' = values.map change.tree) ∧ m.Changed change tokens m')
        (FailChanged change tokens)
  | [], _ => Coupled.ret fun _ _ hm => ⟨⟨nofun, rfl⟩, hm⟩
  | node :: nodes, h => by
    obtain ⟨hnode, hnodes⟩ := List.forall_mem_cons.mp h
    refine Coupled.bind (evaluate_changed hcallee node hnode) fun value _ => Coupled.assume ?_
    rintro ⟨hv, rfl⟩
    refine Coupled.bind (evaluateAll_changed hcallee nodes hnodes) fun values _ =>
      Coupled.assume ?_
    rintro ⟨hvs, rfl⟩
    exact Coupled.ret fun _ _ hm => ⟨⟨List.forall_mem_cons.mpr ⟨hv, hvs⟩, rfl⟩, hm⟩

end

/-! ## Statements, calls and programs -/

theorem execute_changed {callee callee' : Callee} (hcallee : callee.Changed change tokens callee')
    {node : Node} (h : IsStatement tokens node) :
    EndChanged change tokens (execute callee node) (execute callee' (change.tree node)) := by
  cases h with
  | assign hexpr =>
    rw [change.tree_assign]
    refine Coupled.bind (evaluate_changed hcallee _ hexpr) fun value _ => Coupled.assume ?_
    rintro ⟨hv, rfl⟩
    refine Coupled.bind (R := fun _ _ => Machine.Changed change tokens)
      (Coupled.define fun _ _ hm => hm.define _ hv) fun _ _ => ?_
    refine Coupled.bind Machine.Changed.depth fun depth _ => Coupled.assume ?_
    rintro rfl
    refine Coupled.bind (Machine.Changed.note rfl ?_) fun _ _ => EndChanged.ret hv
    simp only [Event.text, hv.display_tree]
  | expression hexpr =>
    rw [change.tree_expression]
    exact evaluate_changed hcallee _ hexpr

theorem executeFrom_changed {callee callee' : Callee}
    (hcallee : callee.Changed change tokens callee') {last : Node}
    (hlast : last.IsMadeValue tokens) {body : List Node}
    (h : ∀ node ∈ body, IsStatement tokens node) :
    EndChanged change tokens (executeFrom callee last body)
      (executeFrom callee' (change.tree last) (body.map change.tree)) := by
  induction body generalizing last with
  | nil => exact .ret hlast
  | cons node nodes ih =>
    obtain ⟨hnode, hnodes⟩ := List.forall_mem_cons.mp h
    refine Coupled.bind (execute_changed hcallee hnode) fun value _ => Coupled.assume ?_
    rintro ⟨hv, rfl⟩
    exact ih hv hnodes

theorem executeBody_changed {callee callee' : Callee}
    (hcallee : callee.Changed change tokens callee') {body : List Node}
    (h : ∀ node ∈ body, IsStatement tokens node) :
    EndChanged change tokens (executeBody callee body)
      (executeBody callee' (body.map change.tree)) := by
  have hzero : (Node.number Decimal.zero).IsMadeValue tokens := trivial
  have hends := executeFrom_changed hcallee hzero h
  rwa [change.tree_number] at hends

theorem invoke_changed (budget : Nat) : (invoke budget).Changed change tokens (invoke budget) := by
  induction budget with
  | zero => exact fun _ _ _ _ _ _ _ => .fail .tooDeep
  | succ budget ih =>
    intro name position params body args hbody hargs
    have hmap : (args.map change.tree).length = args.length := List.length_map _
    by_cases hlen : args.length = params.length
    · rw [invoke_of_length_eq budget name position params body args hlen,
        invoke_of_length_eq budget name _ params _ _ (hmap.trans hlen)]
      refine Coupled.bind (Machine.Changed.note rfl ?_) fun _ _ => ?_
      · simp only [Event.text, display_map_tree hargs]
      refine Coupled.bind (Machine.Changed.inScope (Coupled.bind (Machine.Changed.defineAll hargs)
        fun _ _ => executeBody_changed ih hbody)) fun result _ => Coupled.assume ?_
      rintro ⟨hr, rfl⟩
      refine Coupled.bind (Machine.Changed.note rfl ?_) fun _ _ => EndChanged.ret hr
      simp only [Event.text, hr.display_tree]
    · rw [invoke_of_length_ne budget name position params body args hlen,
        invoke_of_length_ne budget name _ params _ _ (hmap ▸ hlen), hmap]
      exact .fail (.arity ..)

theorem runStatements_changed {callee callee' : Callee}
    (hcallee : callee.Changed change tokens callee') {body : List Node}
    (h : ∀ node ∈ body, IsStatement tokens node) :
    Coupled (Machine.Changed change tokens) (runStatements callee body)
      (runStatements callee' (body.map change.tree)) (fun _ _ => Machine.Changed change tokens)
      (FailChanged change tokens) := by
  induction body with
  | nil => exact Coupled.ret fun _ _ hm => hm
  | cons node nodes ih =>
    obtain ⟨hnode, hnodes⟩ := List.forall_mem_cons.mp h
    refine Coupled.bind (Machine.Changed.note rfl ?_) fun _ _ => ?_
    · simp only [Event.text, kindName_tree_of_isStatement hnode]
    refine Coupled.bind (execute_changed hcallee hnode) fun value _ => Coupled.assume fun _ => ?_
    exact ih hnodes

/-! ## Whole runs -/

variable (change) in
/-- The second ending is the changed first one. -/
structure Ending.Changed (ending ending' : Ending) : Prop where
  failure : ending'.failure? = ending.failure?.map (Failure.mapPosition change.position)
  scopes : ending'.machine.scopes = ending.machine.scopes.map change.tree
  values : ending.machine.scopes.All fun value =>
    (∃ x, value = .number x) ∨ ∃ params body, value = .function params body
  printed : ending'.machine.printed = if change.silent then #[] else ending.machine.printed
  lines : ending'.machine.log.lines = ending.machine.log.lines

theorem Machine.Changed.ending {m m' : Machine} (h : m.Changed change tokens m')
    {failure? failure?' : Option Failure}
    (hf : failure?' = failure?.map (Failure.mapPosition change.position)) :
    Ending.Changed change ⟨failure?, m⟩ ⟨failure?', m'⟩ :=
  ⟨hf, h.scopes, fun scope hscope binding hb => (h.made scope hscope binding hb).number_or_function,
    h.printed, h.log.lines⟩

/-- A changed program runs to the changed ending. -/
theorem runWithin_changed (change : Change) (budget : Nat) (level : Int) {body : List Node}
    (h : ∀ node ∈ body, IsStatement tokens node) :
    (Ending.ofResult (runWithin budget (.program body) (Machine.start level))).Changed change
      (Ending.ofResult (runWithin budget (change.tree (.program body)) (Machine.start level))) := by
  have hstart : (Machine.start level).Changed change tokens (Machine.start level) :=
    ⟨Scopes.all_iff.mpr ⟨nofun, nofun⟩, rfl, (ite_self _).symm, rfl, rfl, rfl⟩
  have hruns := runStatements_changed (invoke_changed budget) h _ _ hstart
  rw [change.tree_program]
  simp only [runWithin, Node.body?]
  revert hruns
  cases runStatements (invoke budget) body (Machine.start level) <;>
    cases runStatements (invoke budget) (body.map change.tree) (Machine.start level)
  · exact fun hm => hm.ending rfl
  · exact False.elim
  · exact False.elim
  · rintro ⟨hf, hm⟩
    exact hm.ending (congrArg some hf)

end Changed

end Douro
