import Douro.Decimal.Layout
import Douro.Decimal.Reading
import Douro.Json.Basic
import Douro.Tree.Basic

/-!
# Trees as JSON

A node is an object whose `type` names what it is; a value is an object with `__value__` in place of
it. A decimal is stored by its text, so no digit is lost. An absent part is `null`.

* `Node.toJson`: the JSON of a tree.
* `Node.ofJson`: the tree of a JSON value. Fields are looked at in the order in which `toJson`
  writes them, and the first that is wrong is the error.
-/

namespace Douro

/-- Why a JSON value is not a tree. -/
inductive SchemaError where
  /-- A value in the place of a node is neither null nor an object. -/
  | notAnObject
  /-- A value in the place of a list has no items. -/
  | notAList (found : Json)
  /-- A field is missing. -/
  | missing (key : String)
  /-- A field has the wrong type. -/
  | wrongType (key : String)
  /-- The type is not a known one. -/
  | unknownType (type : Option Json)
  /-- A number without a text. -/
  | nullNumber
  /-- A text that is not a decimal. -/
  | number (error : Decimal.ReadError)

namespace Node

/-! ## Writing -/

/-- A line or column as JSON. -/
def coordinateJson : Option Int → Json
  | some n => .int n
  | none => .null

mutual

/-- The JSON of a tree. -/
def toJson : Node → Json
  | absent => .null
  | program body => .object [("type", .string "Program"), ("body", .array (toJsonAll body))]
  | assign name expr =>
    .object [("type", .string "Assign"), ("name", .string name), ("expr", toJson expr)]
  | expression expr => .object [("type", .string "ExprStmt"), ("expr", toJson expr)]
  | numeral text => .object [("type", .string "NumberLiteral"), ("text", .string text)]
  | literal value => .object [("type", .string "Literal"), ("value", toJson value)]
  | lookup name position =>
    .object [("type", .string "Lookup"), ("name", .string name),
      ("line", coordinateJson position.line), ("column", coordinateJson position.column)]
  | call name args position =>
    .object [("type", .string "FunctionCall"), ("name", .string name),
      ("args", .array (toJsonAll args)),
      ("line", coordinateJson position.line), ("column", coordinateJson position.column)]
  | print expr => .object [("type", .string "PrintExpr"), ("expr", toJson expr)]
  | binary op left right position =>
    .object [("type", .string "BinaryOp"), ("op", .string op), ("left", toJson left),
      ("right", toJson right),
      ("line", coordinateJson position.line), ("column", coordinateJson position.column)]
  | number value =>
    .object [("__value__", .string "Number"), ("value", .string value.toScientific)]
  | function params body =>
    .object [("__value__", .string "Function"), ("params", .array (params.map .string)),
      ("body", .array (toJsonAll body))]

/-- The JSON of several trees. -/
def toJsonAll : List Node → List Json
  | [] => []
  | node :: nodes => toJson node :: toJsonAll nodes

end

/-! ## Fields -/

/-- A field in the ways in which a schema can use it. -/
structure Field where
  json : Json
  node : Except SchemaError Node
  nodes : Except SchemaError (List Node)

/-- The fields of an object. -/
abbrev Fields := List (String × Field)

namespace Fields

/-- A field that has to be there. -/
def get (fields : Fields) (key : String) : Except SchemaError Field :=
  match fields.lookup key with
  | some field => .ok field
  | none => .error (.missing key)

/-- A field that holds a node. -/
def node (fields : Fields) (key : String) : Except SchemaError Node := do (← get fields key).node

/-- A field that holds a list of nodes. -/
def nodes (fields : Fields) (key : String) : Except SchemaError (List Node) := do
  (← get fields key).nodes

/-- A field that holds a text. -/
def text (fields : Fields) (key : String) : Except SchemaError String := do
  match (← get fields key).json with
  | .string value => .ok value
  | _ => .error (.wrongType key)

/-- A line or column, unknown if the field is null or missing. -/
def coordinate (fields : Fields) (key : String) : Except SchemaError (Option Int) :=
  match (fields.lookup key).map Field.json with
  | none | some .null => .ok none
  | some (.int n) => .ok (some n)
  | some _ => .error (.wrongType key)

/-- The two fields of a position. -/
def position (fields : Fields) : Except SchemaError Position := do
  let line ← coordinate fields "line"
  let column ← coordinate fields "column"
  return ⟨line, column⟩

/-- The texts in an array. -/
def textsOf (key : String) : List Json → Except SchemaError (List String)
  | [] => .ok []
  | .string value :: items => do return value :: (← textsOf key items)
  | _ :: _ => .error (.wrongType key)

/-- A field that holds texts: an array of them, the characters of a string or the keys of an
object. -/
def texts (fields : Fields) (key : String) : Except SchemaError (List String) := do
  match (← get fields key).json with
  | .array items => textsOf key items
  | .string value => .ok (value.toList.map fun c => String.ofList [c])
  | .object members => .ok (members.map Prod.fst)
  | other => .error (.notAList other)

/-- A field that holds the text of a decimal. -/
def decimal (fields : Fields) (key : String) : Except SchemaError Decimal := do
  match (← get fields key).json with
  | .string value => (Decimal.read value).mapError .number
  | .null => .error .nullNumber
  | _ => .error (.wrongType key)

end Fields

/-! ## Reading -/

/-- The node of a given `type`. -/
def ofType (fields : Fields) (type : String) : Except SchemaError Node :=
  match type with
  | "Program" => do return program (← fields.nodes "body")
  | "Assign" => do
    let name ← fields.text "name"
    return assign name (← fields.node "expr")
  | "ExprStmt" => do return expression (← fields.node "expr")
  | "NumberLiteral" => do return numeral (← fields.text "text")
  | "Literal" => do return literal (← fields.node "value")
  | "Lookup" => do
    let name ← fields.text "name"
    return lookup name (← fields.position)
  | "FunctionCall" => do
    let name ← fields.text "name"
    let args ← fields.nodes "args"
    return call name args (← fields.position)
  | "PrintExpr" => do return print (← fields.node "expr")
  | "BinaryOp" => do
    let op ← fields.text "op"
    let left ← fields.node "left"
    let right ← fields.node "right"
    return binary op left right (← fields.position)
  | other => .error (.unknownType (some (.string other)))

/-- The node of an object. The two spellings of `__value__` go before the `type`. -/
def ofFields (fields : Fields) : Except SchemaError Node :=
  match (fields.lookup "__value__").map Field.json with
  | some (.string "Number") => do return number (← fields.decimal "value")
  | some (.string "Function") => do
    let params ← fields.texts "params"
    return function params (← fields.nodes "body")
  | _ =>
    match (fields.lookup "type").map Field.json with
    | some (.string type) => ofType fields type
    | other => .error (.unknownType other)

/-- Nothing, if there are no items; otherwise the first item, which is a text, is not a node. -/
def noNodes (isEmpty : Bool) : Except SchemaError (List Node) :=
  if isEmpty then .ok [] else .error .notAnObject

mutual

/-- The tree of a JSON value. -/
def ofJson : Json → Except SchemaError Node
  | .null => .ok absent
  | .object members => ofFields (fieldsOf members)
  | .bool _ | .int _ | .real _ | .string _ | .array _ => .error .notAnObject

/-- The trees of a JSON value in the place of a list. The items of a string are its characters and
those of an object its keys, none of which is a node. -/
def listOfJson : Json → Except SchemaError (List Node)
  | .array items => ofJsonAll items
  | .string value => noNodes value.toList.isEmpty
  | .object members => noNodes members.isEmpty
  | .null => .error (.notAList .null)
  | .bool value => .error (.notAList (.bool value))
  | .int value => .error (.notAList (.int value))
  | .real text => .error (.notAList (.real text))

/-- The trees of several JSON values. -/
def ofJsonAll : List Json → Except SchemaError (List Node)
  | [] => .ok []
  | item :: items => do
    let node ← ofJson item
    return node :: (← ofJsonAll items)

/-- The fields of an object. -/
def fieldsOf : List (String × Json) → Fields
  | [] => []
  | (key, value) :: members => (key, ⟨value, ofJson value, listOfJson value⟩) :: fieldsOf members

end

end Node

end Douro
