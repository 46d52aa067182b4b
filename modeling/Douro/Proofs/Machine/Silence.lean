import Douro.Proofs.Machine.Change

/-!
# Printing is all that `print` does

The value of `print e` is that of `e`, and printing is seen by nothing else. So a program whose
`print e` are all replaced by `e` runs in the same way, but prints nothing. Its functions have lost
their `print` as well, which no other step can tell: it shows neither in the text of a function nor
in its type.

* `Node.withoutPrint`: the tree with `e` for every `print e`.
* `Change.silence`: the change that takes `print` away.
* `print_is_transparent`: whole runs.
-/

namespace Douro

open Reading

/-! ## Trees without `print` -/

namespace Node

mutual

/-- The tree with `e` in the place of every `print e`. -/
def withoutPrint : Node → Node
  | absent => absent
  | program body => program (withoutPrintAll body)
  | assign name expr => assign name (withoutPrint expr)
  | expression expr => expression (withoutPrint expr)
  | numeral text => numeral text
  | literal value => literal (withoutPrint value)
  | lookup name position => lookup name position
  | call name args position => call name (withoutPrintAll args) position
  | print expr => withoutPrint expr
  | binary op left right position => binary op (withoutPrint left) (withoutPrint right) position
  | number value => number value
  | function params body => function params (withoutPrintAll body)

/-- The trees with `e` in the place of every `print e`. -/
def withoutPrintAll : List Node → List Node
  | [] => []
  | node :: nodes => withoutPrint node :: withoutPrintAll nodes

end

theorem withoutPrintAll_eq_map (nodes : List Node) :
    withoutPrintAll nodes = nodes.map withoutPrint := by
  induction nodes with
  | nil => rfl
  | cons node nodes ih => rw [withoutPrintAll, ih, List.map_cons]

end Node

/-- Every `print e` replaced by `e`, and nothing else. -/
def Change.silence : Change where
  tree := Node.withoutPrint
  position := id
  silent := true
  tree_number _ := rfl
  tree_function params body := congrArg (Node.function params) (Node.withoutPrintAll_eq_map body)
  tree_numeral _ := rfl
  tree_literal _ := rfl
  tree_lookup _ _ := rfl
  tree_call name args place := congrArg (Node.call name · place) (Node.withoutPrintAll_eq_map args)
  tree_print _ := rfl
  tree_binary _ _ _ _ := rfl
  tree_assign _ _ := rfl
  tree_expression _ := rfl
  tree_program body := congrArg Node.program (Node.withoutPrintAll_eq_map body)

/-! ## Whole runs -/

/-- The second ending is the first without `print`. -/
structure Ending.Silenced (ending ending' : Ending) : Prop where
  failure : ending'.failure? = ending.failure?
  scopes : ending'.machine.scopes = ending.machine.scopes.map Node.withoutPrint
  values : ending.machine.scopes.All fun value =>
    (∃ x, value = .number x) ∨ ∃ params body, value = .function params body
  printed : ending'.machine.printed = #[]
  lines : ending'.machine.log.lines = ending.machine.log.lines

/-- Without its `print`, the program of a source ends with the same failure or with none, as it does
with them. It binds the same names to the same numbers and to the same functions, without their
`print`. It prints nothing. -/
theorem print_is_transparent {source : String} {program : Node}
    (h : Node.ofSource source = .ok program) (budget : Nat) (level : Int) :
    (Ending.ofResult (runWithin budget program (Machine.start level))).Silenced
      (Ending.ofResult (runWithin budget program.withoutPrint (Machine.start level))) := by
  obtain ⟨tokens, -, hread⟩ := ofSource_eq_ok_iff.mp h
  obtain ⟨body, rfl, hbody⟩ := ofTokens_image hread
  have hends := runWithin_changed .silence budget level hbody
  have hid : Failure.mapPosition Change.silence.position = id := funext Failure.mapPosition_id
  have hfailure := hends.failure
  rw [hid, Option.map_id_apply] at hfailure
  exact ⟨hfailure, hends.scopes, hends.values, hends.printed, hends.lines⟩

/-- A function that prints before it divides by zero, and a call that prints its argument. -/
theorem print_is_transparent_in_calls :
    ∃ program, Node.ofSource "f = function(n) (print n; n / 0)\nprint f(print 1)" = .ok program ∧
      program.withoutPrint = .program
        [.assign "f" (.literal (.function ["n"] [.expression (.lookup "n" ⟨some 1, some 24⟩),
          .expression (.binary "/" (.lookup "n" ⟨some 1, some 27⟩) (.numeral "0")
            ⟨some 1, some 29⟩)])),
        .expression (.call "f" [.numeral "1"] ⟨some 2, some 7⟩)] ∧
      (Ending.ofResult (runWithin 1 program (Machine.start 0))).Silenced
        (Ending.ofResult (runWithin 1 program.withoutPrint (Machine.start 0))) := by
  have hscan : scanSource "f = function(n) (print n; n / 0)\nprint f(print 1)" = .ok
      [⟨.identifier, "f", 1, 1⟩, ⟨.punctuation, "=", 1, 3⟩, ⟨.keyword, "function", 1, 5⟩,
        ⟨.punctuation, "(", 1, 13⟩, ⟨.identifier, "n", 1, 14⟩, ⟨.punctuation, ")", 1, 15⟩,
        ⟨.punctuation, "(", 1, 17⟩, ⟨.keyword, "print", 1, 18⟩, ⟨.identifier, "n", 1, 24⟩,
        ⟨.punctuation, ";", 1, 25⟩, ⟨.identifier, "n", 1, 27⟩, ⟨.operator, "/", 1, 29⟩,
        ⟨.number, "0", 1, 31⟩, ⟨.punctuation, ")", 1, 32⟩, ⟨.newline, "\n", 1, 33⟩,
        ⟨.keyword, "print", 2, 1⟩, ⟨.identifier, "f", 2, 7⟩, ⟨.punctuation, "(", 2, 8⟩,
        ⟨.keyword, "print", 2, 9⟩, ⟨.number, "1", 2, 15⟩, ⟨.punctuation, ")", 2, 16⟩] := by
    with_unfolding_all rfl
  have hread : Node.ofSource "f = function(n) (print n; n / 0)\nprint f(print 1)" = .ok (.program
      [.assign "f" (.literal (.function ["n"] [.expression (.print (.lookup "n" ⟨some 1, some 24⟩)),
        .expression (.binary "/" (.lookup "n" ⟨some 1, some 27⟩) (.numeral "0")
          ⟨some 1, some 29⟩)])),
      .expression (.print (.call "f" [.print (.numeral "1")] ⟨some 2, some 7⟩))]) := by
    rw [Node.ofSource, hscan]
    rfl
  exact ⟨_, hread, rfl, print_is_transparent hread 1 0⟩

end Douro
