import Douro.Proofs.Machine.Frame
import Douro.Proofs.Machine.Relocation
import Douro.Proofs.Reading.Seam
import Douro.Proofs.Token.Seam

/-!
# Programs compose by concatenation

A source that is a program, with another source behind it on a line of its own: the statements of
both, those of the second further down; or the error of the second, further down. Running them
together is running one and then the other on one machine.

* `Position.down`, `Position.up`: the lines of the second source among those of both, and back.
* `ofSource_behind_error`, `ofSource_behind_ok`: what both sources are read as.
* `runWithin_append`: statements behind each other are run one after the other.
* `concatenation_composes`: reading and running.
-/

namespace Douro

open Reading

/-! ## Lines further down -/

namespace Position

/-- The position some lines further down, if its line is known. -/
def down (lines : Nat) (position : Position) : Position :=
  { position with line := position.line.map (· + lines) }

/-- The position without some lines before it, if it stands below all of them. -/
def up (lines : Nat) (position : Position) : Position :=
  { position with line := position.line.map fun line : Int =>
      if (lines : Int) < line then line - lines else line }

end Position

/-- The diagnostic some lines further down. -/
def Diagnostic.down (lines : Nat) (fault : Diagnostic) : Diagnostic :=
  { fault with position := fault.position.down lines }

/-- The token without some lines before it, if it stands below all of them. -/
def Token.up (lines : Nat) (token : Token) : Token :=
  { token with line := if (lines : Int) < token.line then token.line - lines else token.line }

section Lines

variable (lines : Nat)

theorem relocates_down : Relocates (Token.down lines) (Position.down lines) :=
  ⟨fun _ => rfl, fun _ => rfl, fun _ => rfl⟩

theorem relocates_up : Relocates (Token.up lines) (Position.up lines) :=
  ⟨fun _ => rfl, fun _ => rfl, fun _ => rfl⟩

theorem Place.toPosition_down (place : Place) :
    (place.down lines).toPosition = place.toPosition.down lines := by
  simp [toPosition, down, Position.down]

variable {lines}

theorem map_up_of_le {tokens : List Token} (h : ∀ token ∈ tokens, token.line ≤ lines) :
    tokens.map (Token.up lines) = tokens := by
  have hup : ∀ token ∈ tokens, token.up lines = token := by
    intro token ht
    have := h token ht
    simp only [Token.up, if_neg (show ¬ (lines : Int) < token.line by omega)]
  rw [List.map_congr_left hup, List.map_id']

theorem map_up_down {tokens : List Token} (h : ∀ token ∈ tokens, 1 ≤ token.line) :
    (tokens.map (Token.down lines)).map (Token.up lines) = tokens := by
  have hup : ∀ token ∈ tokens, (token.down lines).up lines = token := by
    intro token ht
    have := h token ht
    simp only [Token.up, Token.down, if_pos (show (lines : Int) < token.line + lines by omega),
      Int.add_sub_cancel]
  calc (tokens.map (Token.down lines)).map (Token.up lines)
      = tokens.map (Token.up lines ∘ Token.down lines) := List.map_map
    _ = tokens.map id := List.map_congr_left hup
    _ = tokens := List.map_id _

end Lines

/-! ## Reading -/

theorem ofTokens_moved {tokens tokens' : List Token} {move : Token → Token} {f : Position → Position}
    {program : Node} (h : Relocates move f) (hread : Node.ofTokens tokens = .ok program)
    (hmove : tokens.map move = tokens') : Node.ofTokens tokens' = .ok (program.mapPosition f) := by
  rw [← hmove, ofTokens_relocated h, hread]
  rfl

section Behind

variable {source : String} {body : List Node} {lines : Nat}

/-- A source with an error behind a program. -/
theorem ofSource_behind_error (h : Node.ofSource source = .ok (.program body)) {source' : String}
    {error : SourceError} (he : Node.ofSource source' = .error error)
    (hlines : lines = Text.lineEndCount (source ++ "\n").toList) :
    ∃ error', Node.ofSource (source ++ "\n" ++ source') = .error error' ∧
      error'.diagnostic = error.diagnostic.down lines := by
  obtain ⟨tokens, hscan, hread⟩ := ofSource_eq_ok_iff.mp h
  obtain ⟨-, seam, newline, hkind, hseam, hboth⟩ := scanSource_behind hscan source'
  rw [← hlines] at hboth
  rcases ofSource_eq_error_iff.mp he with ⟨e, hscan', rfl⟩ | ⟨tokens', e, hscan', hread', rfl⟩
  · rw [scanDown, hscan'] at hboth
    exact ⟨.lexical (e.down lines), ofSource_eq_error_iff.mpr (.inl ⟨_, hboth, rfl⟩),
      congrArg (Diagnostic.mk .lexical e.message) (e.place.toPosition_down lines)⟩
  · rw [scanDown, hscan'] at hboth
    have hdown : Node.ofTokens (tokens'.map (Token.down lines)) = .error (e.mapToken (Token.down lines)) := by
      rw [ofTokens_relocated (relocates_down lines), hread']
      rfl
    have hspelled := (List.forall_mem_append.mp (scanSource_spelled hboth)).1
    refine ⟨.grammar (e.mapToken (Token.down lines)), ofSource_eq_error_iff.mpr
      (.inr ⟨_, _, hboth, (ofTokens_behind hread hspelled hkind hseam).2 _ hdown, rfl⟩), ?_⟩
    exact congrArg₂ (Diagnostic.mk .grammar) ((relocates_down lines).message e)
      ((relocates_down lines).errorPosition rfl e)

/-- A program behind a program: the statements of both. Without the lines before it, the second is
what it was. -/
theorem ofSource_behind_ok (h : Node.ofSource source = .ok (.program body)) {source' : String}
    {body' : List Node} (h' : Node.ofSource source' = .ok (.program body'))
    (hlines : lines = Text.lineEndCount (source ++ "\n").toList) :
    let both := body ++ body'.map (Node.mapPosition (Position.down lines))
    Node.ofSource (source ++ "\n" ++ source') = .ok (.program both) ∧
      (∃ tokens, ∀ node ∈ both, IsStatement tokens node) ∧
      (Node.program both).mapPosition (Position.up lines) = .program (body ++ body') := by
  intro both
  obtain ⟨tokens, hscan, hread⟩ := ofSource_eq_ok_iff.mp h
  obtain ⟨tokens', hscan', hread'⟩ := ofSource_eq_ok_iff.mp h'
  obtain ⟨hline, seam, newline, hkind, hseam, hboth⟩ := scanSource_behind hscan source'
  rw [← hlines] at hline hboth
  rw [scanDown, hscan'] at hboth
  have hdown : Node.ofTokens (tokens'.map (Token.down lines)) =
      .ok ((Node.program body').mapPosition (Position.down lines)) :=
    ofTokens_moved (relocates_down lines) hread' rfl
  have hup : (Node.program body).mapPosition (Position.up lines) = .program body :=
    Except.ok.inj ((ofTokens_moved (relocates_up lines) hread (map_up_of_le hline)).symm.trans hread)
  have hup' : ((Node.program body').mapPosition (Position.down lines)).mapPosition (Position.up lines) =
      .program body' :=
    Except.ok.inj ((ofTokens_moved (relocates_up lines) hdown
      (map_up_down (scanSource_line hscan'))).symm.trans hread')
  simp only [Node.mapPosition, Node.mapPositionAll_eq_map, Node.program.injEq] at hdown hup hup'
  have hspelled := (List.forall_mem_append.mp (scanSource_spelled hboth)).1
  have hall := (ofTokens_behind hread hspelled hkind hseam).1 _ hdown
  refine ⟨ofSource_eq_ok_iff.mpr ⟨_, hboth, hall⟩, ?_, ?_⟩
  · obtain ⟨_, heq, hmade⟩ := ofTokens_image hall
    cases heq
    exact ⟨_, hmade⟩
  · rw [Node.mapPosition, Node.mapPositionAll_eq_map, List.map_append, hup, hup']

end Behind

/-! ## Running -/

/-- Statements behind each other are run one after the other. -/
theorem runWithin_append (budget : Nat) (body body' : List Node) :
    runWithin budget (.program (body ++ body')) =
      (do runWithin budget (.program body); runWithin budget (.program body')) :=
  runStatements_append _ body body'

/-- Of a source that is a program and any source behind it, on a line of its own: if the second has an
error, both have it, further down. If the second is a program, so are both, with the statements of the
first and then those of the second further down. Then running both prints and logs what running the
first and, if that does not fail, the second on the same machine does, and it leaves the same values
and fails in the same way, up to the lines that the second stands further down. -/
theorem concatenation_composes {source : String} {body : List Node}
    (h : Node.ofSource source = .ok (.program body)) (source' : String) :
    let lines := Text.lineEndCount (source ++ "\n").toList
    (∀ error, Node.ofSource source' = .error error →
      ∃ error', Node.ofSource (source ++ "\n" ++ source') = .error error' ∧
        error'.diagnostic = error.diagnostic.down lines) ∧
    ∀ body', Node.ofSource source' = .ok (.program body') →
      let both := Node.program (body ++ body'.map (Node.mapPosition (Position.down lines)))
      Node.ofSource (source ++ "\n" ++ source') = .ok both ∧
        ∀ budget level,
          (Ending.ofResult (runWithin budget both (Machine.start level))).Moved (Position.up lines)
            (Ending.ofResult ((do runWithin budget (.program body); runWithin budget (.program body'))
              (Machine.start level))) := by
  intro lines
  refine ⟨fun error he => ofSource_behind_error h he rfl, fun body' h' => ?_⟩
  obtain ⟨hboth, ⟨tokens, hmade⟩, hup⟩ := ofSource_behind_ok h h' rfl
  refine ⟨hboth, fun budget level => ?_⟩
  have hmoved := runWithin_mapPosition (f := Position.up lines) budget level hmade
  rwa [hup, runWithin_append budget body body'] at hmoved

/-- A definition that ends with a comment and a carriage return, with a call of it behind, and with a
character behind that starts no token. -/
theorem concatenation_composes_behind_return :
    ∃ body body', Node.ofSource "f = function(n) (n / 0) # half\r" = .ok (.program body) ∧
      Node.ofSource "f(1.5)" = .ok (.program body') ∧
      (∃ error, Node.ofSource ("f = function(n) (n / 0) # half\r" ++ "\n" ++ "f ~") = .error error ∧
        error.diagnostic = ⟨.lexical, LexicalError.message ⟨'~', ⟨1, 3⟩⟩, ⟨some 2, some 3⟩⟩) ∧
      Node.ofSource ("f = function(n) (n / 0) # half\r" ++ "\n" ++ "f(1.5)") =
        .ok (.program (body ++ body'.map (Node.mapPosition (Position.down 1)))) ∧
      ∀ budget level, (Ending.ofResult (runWithin budget (.program
          (body ++ body'.map (Node.mapPosition (Position.down 1)))) (Machine.start level))).Moved
        (Position.up 1) (Ending.ofResult
          ((do runWithin budget (.program body); runWithin budget (.program body'))
            (Machine.start level))) := by
  have hlines : Text.lineEndCount ("f = function(n) (n / 0) # half\r" ++ "\n").toList = 1 := by decide
  have hscan : scanSource "f = function(n) (n / 0) # half\r" = .ok
      [⟨.identifier, "f", 1, 1⟩, ⟨.punctuation, "=", 1, 3⟩, ⟨.keyword, "function", 1, 5⟩,
        ⟨.punctuation, "(", 1, 13⟩, ⟨.identifier, "n", 1, 14⟩, ⟨.punctuation, ")", 1, 15⟩,
        ⟨.punctuation, "(", 1, 17⟩, ⟨.identifier, "n", 1, 18⟩, ⟨.operator, "/", 1, 20⟩,
        ⟨.number, "0", 1, 22⟩, ⟨.punctuation, ")", 1, 23⟩, ⟨.newline, "\n", 1, 31⟩] := by
    with_unfolding_all rfl
  have hread : Node.ofSource "f = function(n) (n / 0) # half\r" = .ok (.program
      [.assign "f" (.literal (.function ["n"] [.expression (.binary "/"
        (.lookup "n" ⟨some 1, some 18⟩) (.numeral "0") ⟨some 1, some 20⟩)]))]) := by
    rw [Node.ofSource, hscan]
    rfl
  have hscan' : scanSource "f(1.5)" = .ok [⟨.identifier, "f", 1, 1⟩, ⟨.punctuation, "(", 1, 2⟩,
      ⟨.number, "1.5", 1, 3⟩, ⟨.punctuation, ")", 1, 6⟩] := by with_unfolding_all rfl
  have hread' : Node.ofSource "f(1.5)" =
      .ok (.program [.expression (.call "f" [.numeral "1.5"] ⟨some 1, some 1⟩)]) := by
    rw [Node.ofSource, hscan']
    rfl
  have hscan'' : scanSource "f ~" = .error ⟨'~', ⟨1, 3⟩⟩ := by with_unfolding_all rfl
  have herror : Node.ofSource "f ~" = .error (.lexical ⟨'~', ⟨1, 3⟩⟩) := by
    rw [Node.ofSource, hscan'']
  obtain ⟨error, he, hd⟩ := (concatenation_composes hread "f ~").1 _ herror
  obtain ⟨hboth, hruns⟩ := (concatenation_composes hread "f(1.5)").2 _ hread'
  rw [hlines] at hd hboth
  rw [hlines] at hruns
  exact ⟨_, _, hread, hread', ⟨error, he, hd⟩, hboth, hruns⟩

end Douro
