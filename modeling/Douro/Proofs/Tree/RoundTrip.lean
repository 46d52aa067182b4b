import Douro.Proofs.Decimal.RoundTrip
import Douro.Tree.Schema

/-!
# The JSON of a tree is read back

`toJson` writes every part of a node under a key of its own, and `ofJson` looks the parts up by
their keys. Nothing is lost on the way: the only texts that are not taken as they are written are
those of the numbers, and they are read back as long as they are within the limits of reading.

* `Node.numbers`: the numbers in a tree.
* `lookup_fieldsOf`: a field of an object, in the ways in which a schema can use it.
* `ofJson_toJson`, `ofJsonAll_toJsonAll`: the tree is read back.
* `toJson_lossless`: the same, for trees and for decimals.
-/

namespace Douro

namespace Node

mutual

/-- The numbers in a tree, from left to right. -/
def numbers : Node → List Decimal
  | absent | numeral _ | lookup .. => []
  | number value => [value]
  | program body | function _ body => numbersOfAll body
  | call _ args _ => numbersOfAll args
  | assign _ expr | expression expr | print expr => numbers expr
  | literal value => numbers value
  | binary _ left right _ => numbers left ++ numbers right

/-- The numbers in several trees. -/
def numbersOfAll : List Node → List Decimal
  | [] => []
  | node :: nodes => numbers node ++ numbersOfAll nodes

end

/-! ## Fields -/

theorem lookup_fieldsOf (key : String) (members : List (String × Json)) :
    (fieldsOf members).lookup key =
      (members.lookup key).map fun value => ⟨value, ofJson value, listOfJson value⟩ := by
  induction members with
  | nil => rfl
  | cons member members ih =>
    obtain ⟨name, value⟩ := member
    rw [fieldsOf, List.lookup_cons, List.lookup_cons, ih]
    cases key == name <;> rfl

section Fields

variable {members : List (String × Json)} (key : String)

theorem get_fieldsOf {value : Json} (h : members.lookup key = some value) :
    (fieldsOf members).get key = .ok ⟨value, ofJson value, listOfJson value⟩ := by
  rw [Fields.get, lookup_fieldsOf, h]
  rfl

theorem node_fieldsOf {value : Json} (h : members.lookup key = some value) :
    (fieldsOf members).node key = ofJson value := by
  rw [Fields.node, get_fieldsOf key h]
  rfl

theorem nodes_fieldsOf {items : List Json} (h : members.lookup key = some (.array items)) :
    (fieldsOf members).nodes key = ofJsonAll items := by
  rw [Fields.nodes, get_fieldsOf key h, listOfJson.eq_def]
  rfl

theorem text_fieldsOf {value : String} (h : members.lookup key = some (.string value)) :
    (fieldsOf members).text key = .ok value := by
  rw [Fields.text, get_fieldsOf key h]
  rfl

theorem textsOf_map_string (texts : List String) :
    Fields.textsOf key (texts.map Json.string) = .ok texts := by
  induction texts with
  | nil => rfl
  | cons text texts ih =>
    rw [List.map_cons, Fields.textsOf, ih]
    rfl

theorem texts_fieldsOf {texts : List String}
    (h : members.lookup key = some (.array (texts.map Json.string))) :
    (fieldsOf members).texts key = .ok texts := by
  rw [Fields.texts, get_fieldsOf key h]
  exact textsOf_map_string key texts

theorem decimal_fieldsOf {value : Decimal} (hv : value.Readable)
    (h : members.lookup key = some (.string value.toScientific)) :
    (fieldsOf members).decimal key = .ok value := by
  have hread : Decimal.read value.toScientific = .ok value := by
    rw [Decimal.read_toScientific, if_pos hv]
  rw [Fields.decimal, get_fieldsOf key h]
  simp only [bind, Except.bind, hread]
  rfl

theorem coordinate_fieldsOf {coordinate : Option Int}
    (h : members.lookup key = some (coordinateJson coordinate)) :
    (fieldsOf members).coordinate key = .ok coordinate := by
  rw [Fields.coordinate, lookup_fieldsOf, h]
  cases coordinate <;> rfl

theorem position_fieldsOf {position : Position}
    (hline : members.lookup "line" = some (coordinateJson position.line))
    (hcolumn : members.lookup "column" = some (coordinateJson position.column)) :
    (fieldsOf members).position = .ok position := by
  rw [Fields.position, coordinate_fieldsOf "line" hline, coordinate_fieldsOf "column" hcolumn]
  rfl

end Fields

/-! ## Trees -/

/-- An object with a `type` and no `__value__` is the node of that type. -/
theorem ofJson_typed {members : List (String × Json)} {type : String}
    (hv : members.lookup "__value__" = none) (ht : members.lookup "type" = some (.string type)) :
    ofJson (.object members) = ofType (fieldsOf members) type := by
  rw [ofJson, ofFields, lookup_fieldsOf, lookup_fieldsOf, hv, ht]
  rfl

/-- A `__value__` goes before any `type`. -/
theorem ofJson_number {members : List (String × Json)}
    (h : members.lookup "__value__" = some (.string "Number")) :
    ofJson (.object members) = (do return number (← (fieldsOf members).decimal "value")) := by
  rw [ofJson, ofFields, lookup_fieldsOf, h]
  rfl

theorem ofJson_function {members : List (String × Json)}
    (h : members.lookup "__value__" = some (.string "Function")) :
    ofJson (.object members) = (do
      let params ← (fieldsOf members).texts "params"
      return function params (← (fieldsOf members).nodes "body")) := by
  rw [ofJson, ofFields, lookup_fieldsOf, h]
  rfl

mutual

/-- The tree of the JSON of a tree is that tree. -/
theorem ofJson_toJson : (node : Node) → (∀ d ∈ node.numbers, d.Readable) →
    ofJson node.toJson = .ok node
  | absent, _ => by rw [toJson, ofJson]
  | program body, h => by
    rw [toJson, ofJson_typed rfl rfl, ofType, nodes_fieldsOf "body" rfl, ofJsonAll_toJsonAll body h]
    rfl
  | assign name expr, h => by
    rw [toJson, ofJson_typed rfl rfl, ofType, text_fieldsOf "name" rfl, node_fieldsOf "expr" rfl,
      ofJson_toJson expr h]
    rfl
  | expression expr, h => by
    rw [toJson, ofJson_typed rfl rfl, ofType, node_fieldsOf "expr" rfl, ofJson_toJson expr h]
    rfl
  | numeral text, _ => by
    rw [toJson, ofJson_typed rfl rfl, ofType, text_fieldsOf "text" rfl]
    rfl
  | literal value, h => by
    rw [toJson, ofJson_typed rfl rfl, ofType, node_fieldsOf "value" rfl, ofJson_toJson value h]
    rfl
  | lookup name position, _ => by
    rw [toJson, ofJson_typed rfl rfl, ofType, text_fieldsOf "name" rfl, position_fieldsOf rfl rfl]
    rfl
  | call name args position, h => by
    rw [toJson, ofJson_typed rfl rfl, ofType, text_fieldsOf "name" rfl, nodes_fieldsOf "args" rfl,
      ofJsonAll_toJsonAll args h, position_fieldsOf rfl rfl]
    rfl
  | print expr, h => by
    rw [toJson, ofJson_typed rfl rfl, ofType, node_fieldsOf "expr" rfl, ofJson_toJson expr h]
    rfl
  | binary op left right position, h => by
    rw [numbers] at h
    rw [toJson, ofJson_typed rfl rfl, ofType, text_fieldsOf "op" rfl, node_fieldsOf "left" rfl,
      node_fieldsOf "right" rfl,
      ofJson_toJson left fun d hd => h d (List.mem_append_left _ hd),
      ofJson_toJson right fun d hd => h d (List.mem_append_right _ hd), position_fieldsOf rfl rfl]
    rfl
  | number value, h => by
    rw [toJson, ofJson_number rfl, decimal_fieldsOf "value" (h value List.mem_cons_self) rfl]
    rfl
  | function params body, h => by
    rw [toJson, ofJson_function rfl, texts_fieldsOf "params" rfl, nodes_fieldsOf "body" rfl,
      ofJsonAll_toJsonAll body h]
    rfl

theorem ofJsonAll_toJsonAll : (nodes : List Node) → (∀ d ∈ numbersOfAll nodes, d.Readable) →
    ofJsonAll (toJsonAll nodes) = .ok nodes
  | [], _ => by rw [toJsonAll, ofJsonAll]
  | node :: nodes, h => by
    rw [numbersOfAll] at h
    rw [toJsonAll, ofJsonAll, ofJson_toJson node fun d hd => h d (List.mem_append_left _ hd),
      ofJsonAll_toJsonAll nodes fun d hd => h d (List.mem_append_right _ hd)]
    rfl

end

/-- The JSON of a tree loses nothing: every tree, with parts that are absent and positions that are
unknown, is read back, and so is the text of every decimal. -/
theorem toJson_lossless :
    (∀ node : Node, (∀ d ∈ node.numbers, d.Readable) → ofJson node.toJson = .ok node) ∧
      ∀ d : Decimal, d.Readable → Decimal.read d.toScientific = .ok d := by
  refine ⟨ofJson_toJson, fun d hd => ?_⟩
  rw [Decimal.read_toScientific, if_pos hd]

/-- A function of a negative zero, a not-a-number with a payload and an absent part. -/
theorem toJson_lossless_function :
    ofJson (toJson (literal (function ["x", "x"] [assign "y" (number (.finite true 0 (-9))),
      expression (binary "+" absent (number (.nan true true 12)) ⟨some (-1), none⟩)]))) =
      .ok (literal (function ["x", "x"] [assign "y" (number (.finite true 0 (-9))),
        expression (binary "+" absent (number (.nan true true 12)) ⟨some (-1), none⟩)])) ∧
      Decimal.read (Decimal.toScientific (.finite true 1234 20)) = .ok (.finite true 1234 20) :=
  ⟨toJson_lossless.1 _ (by decide), toJson_lossless.2 _ (by decide)⟩

end Node

end Douro
