import Douro.Proofs.Machine.Change
import Douro.Proofs.Reading.Rendering

/-!
# Running does not look at positions

A position decides nothing in a run: it is copied into the functions that the program binds and into
the failure that stops it. So a program whose positions have been changed prints and logs the same
lines, binds the changed values and stops with the changed failure.

* `Change.relocation`: the change of positions alone.
* `runWithin_mapPosition`: whole runs.
* `layout_does_not_matter`: sources with the same words.
-/

namespace Douro

open Reading

/-! ## Whole runs -/

/-- Every position changed by `f`, and nothing else. -/
def Change.relocation (f : Position → Position) : Change where
  tree := Node.mapPosition f
  position := f
  silent := false
  tree_number _ := rfl
  tree_function params body := congrArg (Node.function params) (Node.mapPositionAll_eq_map f body)
  tree_numeral _ := rfl
  tree_literal _ := rfl
  tree_lookup _ _ := rfl
  tree_call name args place :=
    congrArg (Node.call name · (f place)) (Node.mapPositionAll_eq_map f args)
  tree_print _ := rfl
  tree_binary _ _ _ _ := rfl
  tree_assign _ _ := rfl
  tree_expression _ := rfl
  tree_program body := congrArg Node.program (Node.mapPositionAll_eq_map f body)

/-- The second ending is the first with its positions changed by `f`. -/
structure Ending.Moved (f : Position → Position) (ending ending' : Ending) : Prop where
  printed : ending'.machine.printed = ending.machine.printed
  scopes : ending'.machine.scopes = ending.machine.scopes.map (Node.mapPosition f)
  failure : ending'.failure? = ending.failure?.map (Failure.mapPosition f)
  lines : ending'.machine.log.lines = ending.machine.log.lines

/-- A program with changed positions runs to the changed ending. -/
theorem runWithin_mapPosition {f : Position → Position} {tokens : List Token} (budget : Nat)
    (level : Int) {body : List Node} (h : ∀ node ∈ body, IsStatement tokens node) :
    (Ending.ofResult (runWithin budget (.program body) (Machine.start level))).Moved f
      (Ending.ofResult
        (runWithin budget ((Node.program body).mapPosition f) (Machine.start level))) := by
  have hends := runWithin_changed (.relocation f) budget level h
  exact ⟨hends.printed, hends.scopes, hends.failure, hends.lines⟩

/-! ## Sources with the same words -/

/-- What a diagnostic says, without the position. -/
def Diagnostic.report (fault : Diagnostic) : DiagnosticKind × String := (fault.kind, fault.message)

/-- The endings are equal up to positions. -/
structure Ending.Alike (ending ending' : Ending) : Prop where
  printed : ending.machine.printed = ending'.machine.printed
  scopes : ending.machine.scopes.map (Node.mapPosition fun _ => .unknown) =
    ending'.machine.scopes.map (Node.mapPosition fun _ => .unknown)
  failure : ending.failure?.map (Failure.mapPosition fun _ => .unknown) =
    ending'.failure?.map (Failure.mapPosition fun _ => .unknown)
  lines : ending.machine.log.lines = ending'.machine.log.lines

/-- Failures that are equal up to positions report the same. -/
theorem Ending.Alike.report {ending ending' : Ending} (h : ending.Alike ending') :
    ending.failure?.map (fun failure => failure.diagnostic?.map Diagnostic.report) =
      ending'.failure?.map fun failure => failure.diagnostic?.map Diagnostic.report := by
  have hreport : ∀ failure : Failure,
      (failure.mapPosition fun _ => .unknown).diagnostic?.map Diagnostic.report =
        failure.diagnostic?.map Diagnostic.report := by
    intro failure
    rw [Failure.diagnostic?_mapPosition, Option.map_map]
    rfl
  have := congrArg (Option.map fun failure => failure.diagnostic?.map Diagnostic.report) h.failure
  simpa only [Option.map_map, Function.comp_def, hreport] using this

/-- Programs that are equal up to positions run alike. -/
theorem Node.Alike.runWithin {body body' : List Node} {tokens tokens' : List Token}
    (halike : (Node.program body).Alike (.program body'))
    (h : ∀ node ∈ body, IsStatement tokens node) (h' : ∀ node ∈ body', IsStatement tokens' node)
    (budget : Nat) (level : Int) :
    (Ending.ofResult (runWithin budget (.program body) (Machine.start level))).Alike
      (Ending.ofResult (runWithin budget (.program body') (Machine.start level))) := by
  have hmoved := runWithin_mapPosition (f := fun _ => .unknown) budget level h
  have hmoved' := runWithin_mapPosition (f := fun _ => .unknown) budget level h'
  rw [← halike] at hmoved'
  exact ⟨hmoved.printed.symm.trans hmoved'.printed, hmoved.scopes.symm.trans hmoved'.scopes,
    hmoved.failure.symm.trans hmoved'.failure, hmoved.lines.symm.trans hmoved'.lines⟩

/-- Tokens with the same words are read as programs that are equal up to positions, or refused with
the same message. -/
theorem ofTokens_of_words {tokens tokens' : List Token}
    (h : tokens.map Token.word = tokens'.map Token.word) :
    (∃ error error', Node.ofTokens tokens = .error error ∧ Node.ofTokens tokens' = .error error' ∧
      error.message = error'.message) ∨
    ∃ program program', Node.ofTokens tokens = .ok program ∧ Node.ofTokens tokens' = .ok program' ∧
      program.Alike program' := by
  have hmove : ∀ tokens : List Token, tokens.map (fun token => token.word.token) =
      (tokens.map Token.word).map Word.token := fun tokens => by rw [List.map_map]; rfl
  have hmoved := ofTokens_relocated relocates_origin tokens
  rw [hmove, h, ← hmove, ofTokens_relocated relocates_origin tokens'] at hmoved
  cases hread : Node.ofTokens tokens with
  | error error =>
    cases hread' : Node.ofTokens tokens' with
    | error error' =>
      rw [hread, hread'] at hmoved
      have := congrArg GrammarError.message (Except.error.inj hmoved)
      rw [relocates_origin.message, relocates_origin.message] at this
      exact .inl ⟨error, error', rfl, rfl, this.symm⟩
    | ok program' => rw [hread, hread'] at hmoved; cases hmoved
  | ok program =>
    cases hread' : Node.ofTokens tokens' with
    | error error' => rw [hread, hread'] at hmoved; cases hmoved
    | ok program' =>
      rw [hread, hread'] at hmoved
      exact .inr ⟨program, program', rfl, rfl, .of_mapPosition (Except.ok.inj hmoved).symm⟩

/-- Of two sources with the same words, in whatever layout: either none is a program, and both are
told the same, or both are programs, equal up to positions. Then they print and log the same lines,
they leave the same values, up to the positions in the bodies of functions, and they both succeed or
both fail for the same cause. -/
theorem layout_does_not_matter {source source' : String} {tokens tokens' : List Token}
    (h : scanSource source = .ok tokens) (h' : scanSource source' = .ok tokens')
    (hwords : tokens.map Token.word = tokens'.map Token.word) :
    (∃ error error', Node.ofSource source = .error error ∧ Node.ofSource source' = .error error' ∧
      error.diagnostic.report = error'.diagnostic.report) ∨
    ∃ program program', Node.ofSource source = .ok program ∧ Node.ofSource source' = .ok program' ∧
      program.Alike program' ∧ ∀ budget level,
        let ending := Ending.ofResult (runWithin budget program (Machine.start level))
        let ending' := Ending.ofResult (runWithin budget program' (Machine.start level))
        ending.Alike ending' ∧
          ending.failure?.map (fun failure => failure.diagnostic?.map Diagnostic.report) =
            ending'.failure?.map fun failure => failure.diagnostic?.map Diagnostic.report := by
  simp only [Node.ofSource, h, h']
  rcases ofTokens_of_words hwords with ⟨error, error', he, he', hmessage⟩ |
    ⟨program, program', hp, hp', halike⟩
  · rw [he, he']
    exact .inl ⟨_, _, rfl, rfl, congrArg (Prod.mk DiagnosticKind.grammar) hmessage⟩
  · rw [hp, hp']
    obtain ⟨body, rfl, hbody⟩ := ofTokens_image hp
    obtain ⟨body', rfl, hbody'⟩ := ofTokens_image hp'
    refine .inr ⟨_, _, rfl, rfl, halike, fun budget level => ?_⟩
    have hruns := halike.runWithin hbody hbody' budget level
    exact ⟨hruns, hruns.report⟩

/-- A function that divides by zero and a call of it, in two layouts. -/
theorem layout_does_not_matter_in_calls :
    ∃ tokens tokens', scanSource "f = function(n) (n / 0)\nf(1.5)" = .ok tokens ∧
      scanSource "f=function(n)( n/0 )# half\r\n\tf( 1.5 )" = .ok tokens' ∧
      tokens.map Token.position ≠ tokens'.map Token.position ∧
      tokens.map Token.word = tokens'.map Token.word ∧
      ∃ program program', Node.ofSource "f = function(n) (n / 0)\nf(1.5)" = .ok program ∧
        Node.ofSource "f=function(n)( n/0 )# half\r\n\tf( 1.5 )" = .ok program' ∧
        program.Alike program' ∧ ∀ budget level,
          (Ending.ofResult (runWithin budget program (Machine.start level))).Alike
            (Ending.ofResult (runWithin budget program' (Machine.start level))) := by
  have hscan : scanSource "f = function(n) (n / 0)\nf(1.5)" = .ok
      [⟨.identifier, "f", 1, 1⟩, ⟨.punctuation, "=", 1, 3⟩, ⟨.keyword, "function", 1, 5⟩,
        ⟨.punctuation, "(", 1, 13⟩, ⟨.identifier, "n", 1, 14⟩, ⟨.punctuation, ")", 1, 15⟩,
        ⟨.punctuation, "(", 1, 17⟩, ⟨.identifier, "n", 1, 18⟩, ⟨.operator, "/", 1, 20⟩,
        ⟨.number, "0", 1, 22⟩, ⟨.punctuation, ")", 1, 23⟩, ⟨.newline, "\n", 1, 24⟩,
        ⟨.identifier, "f", 2, 1⟩, ⟨.punctuation, "(", 2, 2⟩, ⟨.number, "1.5", 2, 3⟩,
        ⟨.punctuation, ")", 2, 6⟩] := by with_unfolding_all rfl
  have hscan' : scanSource "f=function(n)( n/0 )# half\r\n\tf( 1.5 )" = .ok
      [⟨.identifier, "f", 1, 1⟩, ⟨.punctuation, "=", 1, 2⟩, ⟨.keyword, "function", 1, 3⟩,
        ⟨.punctuation, "(", 1, 11⟩, ⟨.identifier, "n", 1, 12⟩, ⟨.punctuation, ")", 1, 13⟩,
        ⟨.punctuation, "(", 1, 14⟩, ⟨.identifier, "n", 1, 16⟩, ⟨.operator, "/", 1, 17⟩,
        ⟨.number, "0", 1, 18⟩, ⟨.punctuation, ")", 1, 20⟩, ⟨.newline, "\n", 1, 27⟩,
        ⟨.identifier, "f", 2, 2⟩, ⟨.punctuation, "(", 2, 3⟩, ⟨.number, "1.5", 2, 5⟩,
        ⟨.punctuation, ")", 2, 9⟩] := by with_unfolding_all rfl
  refine ⟨_, _, hscan, hscan', by decide, by rfl, ?_⟩
  rcases layout_does_not_matter hscan hscan' rfl with ⟨error, _, he, -⟩ |
    ⟨program, program', hp, hp', halike, hruns⟩
  · rw [Node.ofSource, hscan] at he
    cases he
  · exact ⟨program, program', hp, hp', halike, fun budget level => (hruns budget level).1⟩

end Douro
