import Douro.Command.Report
import Douro.Proofs.Json.RoundTrip
import Douro.Proofs.Reading.Image
import Douro.Proofs.Token.Seam
import Douro.Proofs.Token.Writing
import Douro.Proofs.Tree.RoundTrip

/-!
# A program is read back from the text of its tree

The JSON of a tree has keys that differ and whole numbers only, so its text gives it back. A program
that is read holds names and numerals but no numbers, so its tree has no limits of reading to meet.

* `faithful_toJson`: the JSON of a tree is given back by its text.
* `numbers_of_ofTokens`: a program that is read holds no numbers.
* `fileText_text_toJson`: a file gives the text of a tree as it was written.
* `readTree_stored`: a program is read back from the file of its tree.
-/

namespace Douro

namespace Node

/-! ## The JSON of a tree -/

private theorem faithful_coordinateJson (coordinate : Option Int) :
    (coordinateJson coordinate).Faithful := by
  cases coordinate with
  | none => exact .null
  | some n => exact .int n

private theorem faithful_texts (texts : List String) :
    (Json.array (texts.map .string)).Faithful := by
  refine .array fun item hi => ?_
  obtain ⟨text, -, rfl⟩ := List.mem_map.mp hi
  exact .string text

mutual

theorem faithful_toJson : (node : Node) → node.toJson.Faithful
  | absent => .null
  | program body => by
    refine .object (by simp) ?_
    simp [Json.Faithful.string, Json.Faithful.array (faithful_toJsonAll body)]
  | assign _ expr => by
    refine .object (by simp) ?_
    simp [Json.Faithful.string, faithful_toJson expr]
  | expression expr => by
    refine .object (by simp) ?_
    simp [Json.Faithful.string, faithful_toJson expr]
  | numeral _ => by
    refine .object (by simp) ?_
    simp [Json.Faithful.string]
  | literal value => by
    refine .object (by simp) ?_
    simp [Json.Faithful.string, faithful_toJson value]
  | lookup _ _ => by
    refine .object (by simp) ?_
    simp [Json.Faithful.string, faithful_coordinateJson]
  | call _ args _ => by
    refine .object (by simp) ?_
    simp [Json.Faithful.string, Json.Faithful.array (faithful_toJsonAll args),
      faithful_coordinateJson]
  | print expr => by
    refine .object (by simp) ?_
    simp [Json.Faithful.string, faithful_toJson expr]
  | binary _ left right _ => by
    refine .object (by simp) ?_
    simp [Json.Faithful.string, faithful_toJson left, faithful_toJson right,
      faithful_coordinateJson]
  | number _ => by
    refine .object (by simp) ?_
    simp [Json.Faithful.string]
  | function params body => by
    refine .object (by simp) ?_
    simp [Json.Faithful.string, faithful_texts params,
      Json.Faithful.array (faithful_toJsonAll body)]

theorem faithful_toJsonAll : (nodes : List Node) → ∀ json ∈ toJsonAll nodes, json.Faithful
  | [] => nofun
  | node :: nodes => List.forall_mem_cons.mpr ⟨faithful_toJson node, faithful_toJsonAll nodes⟩

end

/-- The text of a tree holds no line end but line feeds, so a file gives it as it was written. -/
theorem fileText_text_toJson (layout : Json.Layout) (node : Node) :
    fileText (Json.text layout node.toJson) = Json.text layout node.toJson := by
  have hreturn := (faithful_toJson node).return_not_mem layout 0
  rw [fileText, Json.text, String.toList_ofList, ← Text.normaliseLineEnds_eq_unifyLineEnds,
    Text.normaliseLineEnds_of_no_return hreturn]

/-! ## Numbers in a program -/

theorem numbersOfAll_eq_nil {nodes : List Node} (h : ∀ node ∈ nodes, node.numbers = []) :
    numbersOfAll nodes = [] := by
  induction nodes with
  | nil => rfl
  | cons node nodes ih =>
    rw [List.forall_mem_cons] at h
    rw [numbersOfAll, h.1, ih h.2, List.append_nil]

end Node

namespace Reading

variable {tokens : List Token}

mutual

theorem IsExpression.numbers {node : Node} : IsExpression tokens node → node.numbers = []
  | .numeral _ _ => rfl
  | .lookup _ _ => rfl
  | .call _ _ hargs => Node.numbersOfAll_eq_nil fun arg ha => (hargs arg ha).numbers
  | .print hexpr => hexpr.numbers
  | .binary _ _ hleft hright => by rw [Node.numbers, hleft.numbers, hright.numbers, List.append_nil]
  | .function hbody => Node.numbersOfAll_eq_nil fun statement hs => (hbody statement hs).numbers

theorem IsStatement.numbers {node : Node} : IsStatement tokens node → node.numbers = []
  | .assign hexpr => hexpr.numbers
  | .expression hexpr => hexpr.numbers

end

/-- A program that is read holds no numbers. -/
theorem numbers_of_ofTokens {program : Node} (h : Node.ofTokens tokens = .ok program) :
    program.numbers = [] := by
  obtain ⟨body, rfl, hbody⟩ := ofTokens_image h
  exact Node.numbersOfAll_eq_nil fun statement hs => (hbody statement hs).numbers

end Reading

/-- A program is read back from the file that holds the text of its tree. -/
theorem readTree_stored {source : String} {program : Node} (h : Node.ofSource source = .ok program)
    (layout : Json.Layout) :
    Command.readTree (fileText (Json.text layout program.toJson)) = .ok program := by
  obtain ⟨tokens, -, hread⟩ := Reading.ofSource_eq_ok_iff.mp h
  have hnumbers : ∀ d ∈ program.numbers, d.Readable := by
    rw [Reading.numbers_of_ofTokens hread]
    exact nofun
  simp only [Command.readTree, Node.fileText_text_toJson,
    (Node.faithful_toJson program).read?_text, Node.ofJson_toJson program hnumbers]

end Douro
