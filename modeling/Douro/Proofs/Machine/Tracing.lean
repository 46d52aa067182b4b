import Douro.Machine.Session
import Douro.Proofs.Machine.Visibility
import Mathlib.Data.List.Basic

/-!
# Tracing only observes

What happens in a run does not depend on the log. All logs are offered the same events, and each
takes down those that its level asks for. So two runs that differ in their logs print the same lines,
leave the same scopes and fail in the same way, and a log of a higher level holds all that one of a
lower level holds, in the same order.

* `Log.noteAll`: what a log is after some events, and which of them it has taken down.
* `Machine.Offered`: machines that differ only in their logs, which have been offered the same events.
* `evaluate_offered`, `execute_offered`, `invoke_offered`, `runWithin_offered`: every step keeps that.
* `tracing_only_observes`: two levels, no level, and a log that is closed.
-/

namespace Douro

/-! ## Logs -/

namespace Log

variable {log : Log} {events : List Event}

/-- Is an event taken down? -/
def takes (log : Log) (event : Event) : Bool := log.isOpen && decide (event.level ≤ log.level)

/-- The log after some events. -/
def noteAll (log : Log) (events : List Event) : Log := events.foldl note log

theorem note_eq (log : Log) (event : Event) :
    log.note event = if log.takes event then { log with events := log.events.push event } else log := by
  simp [note, takes]

/-- Whether an event is taken down does not depend on those before it. -/
theorem takes_note (log : Log) (event : Event) : (log.note event).takes = log.takes := by
  rw [note_eq]
  split <;> rfl

theorem noteAll_append_singleton (log : Log) (events : List Event) (event : Event) :
    log.noteAll (events ++ [event]) = (log.noteAll events).note event :=
  List.foldl_append

/-- A log takes down the events that it asks for, in their order. -/
theorem events_noteAll (log : Log) (events : List Event) :
    (log.noteAll events).events.toList = log.events.toList ++ events.filter log.takes := by
  induction events generalizing log with
  | nil => rw [noteAll, List.foldl_nil, List.filter_nil, List.append_nil]
  | cons event events ih =>
    show ((log.note event).noteAll events).events.toList = _
    rw [ih, takes_note, note_eq]
    by_cases h : log.takes event = true
    · simp [h]
    · simp [h]

/-- A log that is not open stays as it is. -/
theorem noteAll_of_not_isOpen (h : log.isOpen = false) : log.noteAll events = log := by
  have hnote : ∀ event, log.note event = log := fun event => by simp [note_eq, takes, h]
  induction events with
  | nil => rfl
  | cons event events ih =>
    show (log.note event).noteAll events = log
    rw [hnote, ih]

theorem not_isOpen_start {level : Int} (h : level ≤ 0) : (start level).isOpen = false := by
  simpa [start] using h

/-- A higher level takes down what a lower level takes down. -/
theorem takes_start_of_le {level level' : Int} (h : level ≤ level') {event : Event}
    (ht : (start level).takes event = true) : (start level').takes event = true := by
  obtain ⟨hopen, hlevel⟩ := Bool.and_eq_true_iff.mp ht
  refine Bool.and_eq_true_iff.mpr ⟨?_, ?_⟩
  · exact decide_eq_true (Int.lt_of_lt_of_le (of_decide_eq_true hopen) h)
  · exact decide_eq_true (Int.le_trans (of_decide_eq_true hlevel) h)

/-- After the same events, the lines of a lower level are among those of a higher one. -/
theorem lines_sublist_of_le {level level' : Int} (h : level ≤ level') (events : List Event) :
    ((start level).noteAll events).lines.Sublist ((start level').noteAll events).lines := by
  have hnone : ∀ level, (start level).events.toList = [] := fun _ => rfl
  rw [lines, lines, events_noteAll, events_noteAll, hnone, hnone]
  exact (List.monotone_filter_right events fun _ => takes_start_of_le h).map _

end Log

/-! ## Machines side by side -/

/-- The machines differ only in their logs. Since the logs were `log` and `log'`, they have been
offered the same events. -/
structure Machine.Offered (log log' : Log) (m m' : Machine) : Prop where
  scopes : m.scopes = m'.scopes
  printed : m.printed = m'.printed
  events : ∃ events, m.log = log.noteAll events ∧ m'.log = log'.noteAll events

open Run

section Offered

variable {log log' : Log}

namespace Machine.Offered

variable {m m' : Machine}

theorem noteBoth (h : m.Offered log log' m') (event : Event) :
    Machine.Offered log log' { m with log := m.log.note event }
      { m' with log := m'.log.note event } := by
  obtain ⟨events, hl, hl'⟩ := h.events
  refine ⟨h.scopes, h.printed, events ++ [event], ?_, ?_⟩
  · rw [Log.noteAll_append_singleton, ← hl]
  · rw [Log.noteAll_append_singleton, ← hl']

theorem note (event : Event) : (Run.note event).EndAlike (Offered log log') :=
  Coupled.note fun _ _ h => ⟨rfl, h.noteBoth event⟩

theorem print (line : String) : (Run.print line).EndAlike (Offered log log') :=
  Coupled.print fun _ _ h => ⟨rfl, h.scopes, congrArg (·.push line) h.printed, h.events⟩

theorem lookup (name : String) (position : Position) :
    (Run.lookup name position).EndAlike (Offered log log') :=
  Coupled.lookup (fun _ _ h => congrArg (Scopes.get? · name) h.scopes) (fun _ _ _ h => ⟨rfl, h⟩)
    fun _ _ h => ⟨rfl, h⟩

theorem define (name : String) (value : Node) :
    (Run.define name value).EndAlike (Offered log log') :=
  Coupled.define fun _ _ h =>
    ⟨rfl, congrArg (Scopes.define · name value) h.scopes, h.printed, h.events⟩

theorem defineAll (bindings : List (String × Node)) :
    (Run.defineAll bindings).EndAlike (Offered log log') := by
  induction bindings with
  | nil => exact .ret ()
  | cons binding bindings ih => exact (define binding.1 binding.2).bind fun _ => ih

theorem depth : Run.depth.EndAlike (Offered log log') :=
  Coupled.depth fun _ _ h => ⟨congrArg Scopes.depth h.scopes, h⟩

/-- Both computations find a scope to leave, or neither does. -/
theorem inScope {α : Type} {c : Run α} (hc : c.EndAlike (Offered log log')) :
    (Run.inScope c).EndAlike (Offered log log') := by
  refine Coupled.inScope_of_leave hc
    (fun m m' h => ⟨congrArg Scopes.push h.scopes, h.printed, h.events⟩) ?_ ?_
  · rintro value _ m m' ⟨rfl, h⟩
    simp only [leave, h.scopes]
    cases m'.scopes.pop? with
    | none => exact ⟨rfl, h⟩
    | some scopes => exact ⟨rfl, rfl, h.printed, h.events⟩
  · rintro failure _ m m' ⟨rfl, h⟩
    simp only [leave, h.scopes]
    cases m'.scopes.pop? with
    | none => exact ⟨rfl, h⟩
    | some scopes => exact ⟨rfl, rfl, h.printed, h.events⟩

end Machine.Offered

/-! ## Every step -/

/-- Every call of the callee is the same for both machines. -/
def Callee.Offered (log log' : Log) (callee : Callee) : Prop :=
  ∀ name position params body args,
    (callee name position params body args).EndAlike (Machine.Offered log log')

theorem evaluate_offered {callee : Callee} (hcallee : callee.Offered log log') (node : Node) :
    (evaluate callee node).EndAlike (Machine.Offered log log') :=
  evaluate_endAlike ⟨Machine.Offered.lookup, Machine.Offered.note, Machine.Offered.print, hcallee⟩ node

theorem execute_offered {callee : Callee} (hcallee : callee.Offered log log') (node : Node) :
    (execute callee node).EndAlike (Machine.Offered log log') := by
  cases node with
  | assign name expr =>
    refine (evaluate_offered hcallee expr).bind fun value => ?_
    refine (Machine.Offered.define name value).bind fun _ => ?_
    refine Machine.Offered.depth.bind fun depth => ?_
    exact (Machine.Offered.note _).bind fun _ => .ret value
  | expression expr => exact evaluate_offered hcallee expr
  | _ => exact .fail _

theorem executeFrom_offered {callee : Callee} (hcallee : callee.Offered log log') (last : Node)
    (body : List Node) : (executeFrom callee last body).EndAlike (Machine.Offered log log') := by
  induction body generalizing last with
  | nil => exact .ret last
  | cons node nodes ih => exact (execute_offered hcallee node).bind ih

theorem invoke_offered (budget : Nat) : (invoke budget).Offered log log' := by
  induction budget with
  | zero => exact fun _ _ _ _ _ => .fail _
  | succ budget ih =>
    intro name position params body args
    by_cases hlen : args.length = params.length
    case neg =>
      rw [invoke_of_length_ne budget name position params body args hlen]
      exact .fail _
    rw [invoke_of_length_eq budget name position params body args hlen]
    refine (Machine.Offered.note _).bind fun _ => ?_
    refine Run.EndAlike.bind ?_ fun result => (Machine.Offered.note _).bind fun _ => .ret result
    exact Machine.Offered.inScope ((Machine.Offered.defineAll _).bind fun _ =>
      executeFrom_offered ih _ body)

theorem runStatements_offered {callee : Callee} (hcallee : callee.Offered log log')
    (body : List Node) : (runStatements callee body).EndAlike (Machine.Offered log log') := by
  induction body with
  | nil => exact .ret ()
  | cons node nodes ih =>
    exact (Machine.Offered.note _).bind fun _ => (execute_offered hcallee node).bind fun _ => ih

theorem runWithin_offered (budget : Nat) (program : Node) :
    (runWithin budget program).EndAlike (Machine.Offered log log') := by
  unfold runWithin
  split
  · exact runStatements_offered (invoke_offered budget) _
  · exact .fail _

end Offered

/-! ## Whole runs -/

/-- The machine with another log. -/
def Machine.withLog (m : Machine) (log : Log) : Machine := { m with log }

/-- Two runs of a program that differ in their logs end in the same way, and offer the same events to
their logs. -/
theorem runWithin_withLog (budget : Nat) (program : Node) (m : Machine) (log log' : Log) :
    let ending := Ending.ofResult (runWithin budget program (m.withLog log))
    let ending' := Ending.ofResult (runWithin budget program (m.withLog log'))
    ending.failure? = ending'.failure? ∧ ending.machine.Offered log log' ending'.machine := by
  have hstart : Machine.Offered log log' (m.withLog log) (m.withLog log') :=
    ⟨rfl, rfl, [], rfl, rfl⟩
  have := runWithin_offered budget program _ _ hstart
  revert this
  cases runWithin budget program (m.withLog log) <;> cases runWithin budget program (m.withLog log')
  · exact fun h => ⟨rfl, h.2⟩
  · exact False.elim
  · exact False.elim
  · rintro ⟨rfl, h⟩
    exact ⟨rfl, h⟩

/-- A run keeps a log that is not open. -/
theorem runWithin_log_of_not_isOpen (budget : Nat) (program : Node) (m : Machine)
    (h : m.log.isOpen = false) :
    (Ending.ofResult (runWithin budget program m)).machine.log = m.log := by
  obtain ⟨-, -, -, events, hl, -⟩ := runWithin_withLog budget program m m.log m.log
  exact hl.trans (Log.noteAll_of_not_isOpen h)

/-- Of a program on any machine: a run that logs at a level and one that logs at a higher level print
the same lines, leave the same scopes and have the same failure or none, and the lines of the first
log are among those of the second, in the same order. At no level, and when the log has been closed,
nothing is written, neither by a run nor by a remark. -/
theorem tracing_only_observes (budget : Nat) (program : Node) (m : Machine) :
    (∀ level level' : Int, level ≤ level' →
      let ending := Ending.ofResult (runWithin budget program (m.withLog (.start level)))
      let ending' := Ending.ofResult (runWithin budget program (m.withLog (.start level')))
      ending.machine.printed = ending'.machine.printed ∧
        ending.machine.scopes = ending'.machine.scopes ∧ ending.failure? = ending'.failure? ∧
        ending.machine.log.lines.Sublist ending'.machine.log.lines) ∧
    (∀ level : Int, level ≤ 0 →
      (Ending.ofResult (runWithin budget program (m.withLog (.start level)))).machine.log.lines = [] ∧
      ∀ text, (Ending.ofResult (remark text (m.withLog (.start level)))).machine.log.lines = []) ∧
    (Ending.ofResult ((do closeLog; runWithin budget program) m)).machine.log.lines = m.log.lines ∧
    ∀ text, (Ending.ofResult ((do closeLog; remark text) m)).machine.log.lines = m.log.lines := by
  refine ⟨fun level level' h => ?_, fun level h => ⟨?_, fun text => ?_⟩, ?_, fun text => ?_⟩
  · obtain ⟨hfailure, hscopes, hprinted, events, hl, hl'⟩ :=
      runWithin_withLog budget program m (.start level) (.start level')
    refine ⟨hprinted, hscopes, hfailure, ?_⟩
    rw [hl, hl']
    exact Log.lines_sublist_of_le h events
  · rw [runWithin_log_of_not_isOpen budget program _ (Log.not_isOpen_start h)]
    rfl
  · show ((Log.start level).noteAll [.remark text]).lines = _
    rw [Log.noteAll_of_not_isOpen (Log.not_isOpen_start h)]
    rfl
  · show (Ending.ofResult (runWithin budget program (m.withLog m.log.close))).machine.log.lines = _
    rw [runWithin_log_of_not_isOpen budget program _ rfl]
    rfl
  · show (m.log.close.noteAll [.remark text]).lines = _
    rw [Log.noteAll_of_not_isOpen rfl]
    rfl

/-- A function that prints its argument, binds it and divides it by zero, and a call of it. -/
def dividesByZero : Node :=
  .program [.assign "f" (.literal (.function ["x"] [
    .assign "y" (.print (.lookup "x" .unknown)),
    .expression (.binary "/" (.lookup "y" .unknown) (.number .zero) .unknown)])),
    .expression (.call "f" [.number (.finite false 7 0)] .unknown)]

/-- The call fails at every level; only a log of level 2 tells what it has bound. -/
theorem tracing_only_observes_division :
    let ending := fun level =>
      Ending.ofResult (runWithin 9 dividesByZero (besideLocal.withLog (.start level)))
    ((ending 1).failure? = some (.divisionByZero .unknown) ∧
      (ending 1).machine.log.lines = ["execute Assign", "execute ExprStmt", "call f(7)"] ∧
      "define y = 7 (depth 2)" ∈ (ending 2).machine.log.lines) ∧
    ((ending 1).machine.printed = (ending 2).machine.printed ∧
      (ending 1).machine.scopes = (ending 2).machine.scopes ∧
      (ending 1).failure? = (ending 2).failure? ∧
      (ending 1).machine.log.lines.Sublist (ending 2).machine.log.lines) ∧
    (ending 0).machine.log.lines = [] := by
  have h := tracing_only_observes 9 dividesByZero besideLocal
  exact ⟨⟨rfl, by decide, by decide⟩, h.1 1 2 (by decide), (h.2.1 0 (by decide)).1⟩

end Douro
