import Douro.Machine.Log

/-!
# The calls that a trace leaves open

The start and the end of a call are brackets. An end closes the innermost call that is open, which
has to have its name. What a trace leaves open can be computed event by event, and a trace for which
this succeeds is the front of one in which all brackets match.

* `WellNested`: brackets that match.
* `openCalls?`: the calls that a trace leaves open, if its ends match.
* `wellNested_of_openCalls?`: such a trace, followed by the ends of the open calls, is well nested.
* `Log.Tracked`: the log leaves certain calls open, and each binding in it tells how many there were.
-/

namespace Douro

/-- A call: the name that was called and the values of the arguments. -/
structure Call where
  name : String
  args : List Node

namespace Event

/-- Does the event start or end a call? -/
def isBracket : Event → Bool
  | call .. | finish .. => true
  | execute _ | define .. | operate .. | remark _ => false

/-- The open calls after an event, the innermost first. An end has to have the name of the innermost
one. -/
def openAfter? (calls : List Call) : Event → Option (List Call)
  | call name args => some (⟨name, args⟩ :: calls)
  | finish name _ =>
    match calls with
    | [] => none
    | innermost :: outer => if innermost.name = name then some outer else none
  | execute _ | define .. | operate .. | remark _ => some calls

theorem openAfter?_of_not_isBracket {event : Event} (h : event.isBracket = false)
    (calls : List Call) : event.openAfter? calls = some calls := by
  cases event with
  | call | finish => cases h
  | _ => rfl

end Event

/-- The calls that are open after some events, if `calls` were open before them. -/
def openCallsFrom? (calls : List Call) (events : List Event) : Option (List Call) :=
  events.foldlM Event.openAfter? calls

/-- The calls that are open after some events, the innermost first. -/
def openCalls? (events : List Event) : Option (List Call) := openCallsFrom? [] events

theorem openCalls?_append_singleton {events : List Event} {calls : List Call}
    (h : openCalls? events = some calls) (event : Event) :
    openCalls? (events ++ [event]) = event.openAfter? calls := by
  unfold openCalls? openCallsFrom? at h ⊢
  rw [List.foldlM_append, h]
  simp

/-! ## Brackets that match -/

/-- Starts and ends of calls that match: the end of a call has its name and comes when all calls
inside it have ended. -/
inductive WellNested : List Event → Prop
  | nil : WellNested []
  | call {name : String} {args : List Node} {value : Node} {inside behind : List Event} :
    WellNested inside → WellNested behind →
    WellNested (.call name args :: (inside ++ .finish name value :: behind))

/-- The brackets match if `calls` are open before them, the innermost first. -/
def Closes : List Call → List Event → Prop
  | [], events => WellNested events
  | call :: calls, events => ∃ inside value behind,
    events = inside ++ .finish call.name value :: behind ∧ WellNested inside ∧ Closes calls behind

/-- The ends of calls. -/
def endsOf (calls : List Call) : List Event := calls.map fun call => .finish call.name .absent

theorem closes_endsOf (calls : List Call) : Closes calls (endsOf calls) := by
  induction calls with
  | nil => exact .nil
  | cons call calls ih => exact ⟨[], .absent, endsOf calls, rfl, .nil, ih⟩

/-- A call that starts and ends before the open ones end. -/
theorem Closes.cons_call {calls : List Call} {name : String} {args : List Node} {value : Node}
    {inside behind : List Event} (hinside : WellNested inside) (h : Closes calls behind) :
    Closes calls (.call name args :: (inside ++ .finish name value :: behind)) := by
  cases calls with
  | nil => exact .call hinside h
  | cons call calls =>
    obtain ⟨inside', value', behind', rfl, hinside', hbehind⟩ := h
    refine ⟨.call name args :: (inside ++ .finish name value :: inside'), value', behind', ?_,
      .call hinside hinside', hbehind⟩
    simp

/-- Brackets that close what some events leave open close, behind these events, what was open
before them. -/
theorem Closes.of_openCallsFrom? {calls calls' : List Call} {events more : List Event}
    (h : openCallsFrom? calls events = some calls') (hmore : Closes calls' more) :
    Closes calls (events.filter Event.isBracket ++ more) := by
  induction events generalizing calls with
  | nil =>
    cases h
    exact hmore
  | cons event events ih =>
    obtain ⟨calls₁, hstep, hrest⟩ := Option.bind_eq_some_iff.mp h
    have hclosed := ih hrest
    cases event with
    | call name args =>
      cases hstep
      obtain ⟨inside, value, behind, hevents, hinside, hbehind⟩ := hclosed
      rw [List.filter_cons_of_pos rfl, List.cons_append, hevents]
      exact .cons_call hinside hbehind
    | finish name value =>
      cases calls with
      | nil => cases hstep
      | cons call calls =>
        by_cases hname : call.name = name
        · simp only [Event.openAfter?, hname, if_true, Option.some.injEq] at hstep
          subst hname hstep
          exact ⟨[], value, _, rfl, .nil, hclosed⟩
        · simp [Event.openAfter?, hname] at hstep
    | execute | define | operate | remark =>
      cases hstep
      exact hclosed

/-- The brackets of a trace, followed by the ends of the calls that it leaves open, match. -/
theorem wellNested_of_openCalls? {events : List Event} {calls : List Call}
    (h : openCalls? events = some calls) :
    WellNested (events.filter Event.isBracket ++ endsOf calls) :=
  Closes.of_openCallsFrom? h (closes_endsOf calls)

/-! ## Bindings and open calls -/

/-- Every binding tells how many calls are open at its place in the trace. -/
def DepthsFit (events : List Event) : Prop :=
  ∀ before name value depth behind, events = before ++ .define name value depth :: behind →
    ∃ calls, openCalls? before = some calls ∧ calls.length = depth

theorem DepthsFit.nil : DepthsFit [] := by
  rintro (_ | _) _ _ _ _ h <;> cases h

theorem DepthsFit.append_singleton {events : List Event} {event : Event} {calls : List Call}
    (h : DepthsFit events) (hcalls : openCalls? events = some calls)
    (hevent : ∀ name value depth, event = .define name value depth → calls.length = depth) :
    DepthsFit (events ++ [event]) := by
  intro before name value depth behind heq
  rcases List.eq_nil_or_concat behind with rfl | ⟨front, last, rfl⟩
  · obtain ⟨rfl, hlast⟩ := List.append_inj' heq rfl
    exact ⟨calls, hcalls, hevent name value depth (List.singleton_inj.mp hlast)⟩
  · have heq' : events ++ [event] = (before ++ .define name value depth :: front) ++ [last] := by
      rw [heq]
      simp
    exact h before name value depth front (List.append_inj' heq' rfl).1

namespace Log

/-- The log takes calls down. It leaves `calls` open, and its bindings tell how many were open. -/
structure Tracked (calls : List Call) (log : Log) : Prop where
  isOpen : log.isOpen = true
  level : 1 ≤ log.level
  openCalls : openCalls? log.events.toList = some calls
  depths : DepthsFit log.events.toList

theorem tracked_start {level : Int} (h : 1 ≤ level) : (start level).Tracked [] where
  isOpen := decide_eq_true (by omega)
  level := h
  openCalls := rfl
  depths := .nil

variable {calls calls' : List Call} {log : Log}

/-- An event that the log takes down. -/
theorem Tracked.note {event : Event} (h : log.Tracked calls)
    (hcalls : event.openAfter? calls = some calls')
    (hdepth : ∀ name value depth, event = .define name value depth → calls.length = depth) :
    (log.note event).Tracked calls' := by
  by_cases htaken : event.level ≤ log.level
  · have hnote : log.note event = { log with events := log.events.push event } :=
      if_pos ⟨h.isOpen, htaken⟩
    rw [hnote]
    refine ⟨h.isOpen, h.level, ?_, ?_⟩
    · rw [Array.toList_push, openCalls?_append_singleton h.openCalls, hcalls]
    · rw [Array.toList_push]
      exact h.depths.append_singleton h.openCalls hdepth
  · -- A log that takes calls down leaves out only events that are no brackets.
    have hnote : log.note event = log := if_neg fun hboth => htaken hboth.2
    have hlevel := h.level
    have hbracket : event.isBracket = false := by
      cases event with
      | call | finish => exact absurd hlevel htaken
      | _ => rfl
    rw [Event.openAfter?_of_not_isBracket hbracket] at hcalls
    cases hcalls
    rwa [hnote]

end Log

end Douro
