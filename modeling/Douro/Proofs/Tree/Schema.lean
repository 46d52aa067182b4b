import Douro.Proofs.Tree.RoundTrip

/-!
# What is a tree in JSON

There are eleven shapes of objects. Each has a key by which an object names it and a table of fields.
A value is a tree if it is null or if it names a shape and has the fields of that shape, down to the
leaves. Writing and reading follow this one table, field by field. So the JSON of a tree that has
been read holds what was read: no field of the shape is lost, and all others are dropped.

* `Shape`, `Shape.fields`: the table. `Shape.of?`: the shape that an object names.
* `Json.IsTree`: the values that are trees. `Json.trimmed`: what is left of a value.
* `Shape.toJson_build`, `ofJson_of_shape`: writing and reading follow the table.
* `Json.WellTyped`: the values whose fields have the types of their sorts.
* `ofJson_accepts_schema`: reading succeeds exactly on trees, and loses only what they do not hold.
-/

namespace Douro

/-! ## Shapes -/

/-- What a field holds. -/
inductive FieldSort where
  | node
  | nodes
  | text
  | texts
  /-- The text of a decimal. -/
  | decimal
  /-- A line or a column, which may be unknown. -/
  | coordinate
deriving DecidableEq

/-- What an object can be. -/
inductive Shape where
  | number
  | function
  | program
  | assign
  | expression
  | numeral
  | literal
  | lookup
  | call
  | print
  | binary
deriving DecidableEq

namespace Shape

/-- The shapes of values. -/
def values : List Shape := [number, function]

/-- The shapes of the other nodes. -/
def types : List Shape :=
  [program, assign, expression, numeral, literal, lookup, call, print, binary]

/-- The key by which an object names the shape. -/
def key : Shape → String
  | number | function => "__value__"
  | _ => "type"

/-- The name of the shape under its key. -/
def name : Shape → String
  | number => "Number"
  | function => "Function"
  | program => "Program"
  | assign => "Assign"
  | expression => "ExprStmt"
  | numeral => "NumberLiteral"
  | literal => "Literal"
  | lookup => "Lookup"
  | call => "FunctionCall"
  | print => "PrintExpr"
  | binary => "BinaryOp"

/-- The fields of the shape. All are required but lines and columns. -/
@[reducible]
def fields : Shape → List (String × FieldSort)
  | number => [("value", .decimal)]
  | function => [("params", .texts), ("body", .nodes)]
  | program => [("body", .nodes)]
  | assign => [("name", .text), ("expr", .node)]
  | expression => [("expr", .node)]
  | numeral => [("text", .text)]
  | literal => [("value", .node)]
  | lookup => [("name", .text), ("line", .coordinate), ("column", .coordinate)]
  | call => [("name", .text), ("args", .nodes), ("line", .coordinate), ("column", .coordinate)]
  | print => [("expr", .node)]
  | binary =>
    [("op", .text), ("left", .node), ("right", .node), ("line", .coordinate), ("column", .coordinate)]

/-- Does an object with these members name the shape? -/
def isNamed (members : List (String × Json)) (shape : Shape) : Bool :=
  match members.lookup shape.key with
  | some (.string text) => text == shape.name
  | _ => false

/-- The shape that an object with these members names. A value goes before any type. -/
def of? (members : List (String × Json)) : Option Shape :=
  (values.find? (isNamed members)).or (types.find? (isNamed members))

end Shape

namespace Json

/-! ## Trees -/

mutual

/-- The value is a tree. -/
inductive IsTree : Json → Prop
  | null : IsTree .null
  | object {members : List (String × Json)} {shape : Shape} : Shape.of? members = some shape →
    (∀ field ∈ shape.fields, HasField members field.1 field.2) → IsTree (.object members)

/-- The members have a field that holds what one of its sort has to hold. -/
inductive HasField : List (String × Json) → String → FieldSort → Prop
  | node {members : List (String × Json)} {key : String} {value : Json} :
    members.lookup key = some value → IsTree value → HasField members key .node
  | nodes {members : List (String × Json)} {key : String} {items : List Json} :
    members.lookup key = some (.array items) → (∀ item ∈ items, IsTree item) →
    HasField members key .nodes
  | text {members : List (String × Json)} {key : String} {value : Json} :
    members.lookup key = some value → HasField members key .text
  | texts {members : List (String × Json)} {key : String} {value : Json} :
    members.lookup key = some value → HasField members key .texts
  | decimal {members : List (String × Json)} {key text : String} {value : Decimal} :
    members.lookup key = some (.string text) → Decimal.read text = .ok value →
    HasField members key .decimal
  | coordinate {members : List (String × Json)} {key : String} : HasField members key .coordinate

end

mutual

/-- The fields of every object have the types of their sorts, down to the leaves. This says nothing
about fields that are missing and nothing about objects that name no shape. -/
inductive WellTyped : Json → Prop
  | object {members : List (String × Json)} :
    (∀ shape, Shape.of? members = some shape → ∀ field ∈ shape.fields,
      ∀ value, members.lookup field.1 = some value → HasType field.2 value) →
    WellTyped (.object members)
  | other {json : Json} : (∀ members, json ≠ .object members) → WellTyped json

/-- The value has the type of a field of the sort. -/
inductive HasType : FieldSort → Json → Prop
  | node {value : Json} : WellTyped value → HasType .node value
  | nodes {items : List Json} : (∀ item ∈ items, WellTyped item) → HasType .nodes (.array items)
  | text {text : String} : HasType .text (.string text)
  | texts {texts : List String} : HasType .texts (.array (texts.map .string))
  | decimal {text : String} : HasType .decimal (.string text)
  | coordinate {n : Int} : HasType .coordinate (.int n)
  | unknown : HasType .coordinate .null

end

/-! ## Trimming -/

mutual

/-- A value in a field of the sort, without what a tree does not hold: an object keeps the name of its
shape and the fields of that shape, a line or column that is missing is null, and a number has the
text that its decimal has. -/
def trimmed : FieldSort → Json → Json
  | .node, .object members =>
    match Shape.of? members with
    | some shape =>
      .object ((shape.key, .string shape.name) :: shape.fields.map fun field =>
        (field.1, (((trimmedMembers members).lookup field.1).map (· field.2)).getD .null))
    | none => .object members
  | .nodes, .array items => .array (trimmedAll items)
  | .decimal, .string text =>
    match Decimal.read text with
    | .ok value => .string value.toScientific
    | .error _ => .string text
  | _, json => json

/-- Nodes, each trimmed. -/
def trimmedAll : List Json → List Json
  | [] => []
  | item :: items => trimmed .node item :: trimmedAll items

/-- The members of an object, each trimmed for every sort of field. -/
def trimmedMembers : List (String × Json) → List (String × (FieldSort → Json))
  | [] => []
  | (key, value) :: members => (key, fun sort => trimmed sort value) :: trimmedMembers members

end

theorem lookup_trimmedMembers (key : String) (members : List (String × Json)) :
    (trimmedMembers members).lookup key =
      (members.lookup key).map fun value sort => trimmed sort value := by
  induction members with
  | nil => rfl
  | cons member members ih =>
    obtain ⟨name, value⟩ := member
    rw [trimmedMembers, List.lookup_cons, List.lookup_cons, ih]
    cases key == name <;> rfl

/-- What is left of an object. -/
theorem trimmed_object {members : List (String × Json)} {shape : Shape}
    (h : Shape.of? members = some shape) :
    trimmed .node (.object members) =
      .object ((shape.key, .string shape.name) :: shape.fields.map fun field =>
        (field.1, ((members.lookup field.1).map (trimmed field.2)).getD .null)) := by
  simp only [trimmed, h, lookup_trimmedMembers, Option.map_map]
  rfl

end Json

/-! ## The table in both directions -/

namespace FieldSort

/-- What a field of the sort is read as. -/
@[reducible]
def Content : FieldSort → Type
  | node => Node
  | nodes => List Node
  | text => String
  | texts => List String
  | decimal => Decimal
  | coordinate => Option Int

/-- Read a field of the sort. -/
def read (fields : Node.Fields) (key : String) : (sort : FieldSort) → Except SchemaError sort.Content
  | node => fields.node key
  | nodes => fields.nodes key
  | text => fields.text key
  | texts => fields.texts key
  | decimal => fields.decimal key
  | coordinate => fields.coordinate key

/-- Write a field of the sort. -/
def write : (sort : FieldSort) → sort.Content → Json
  | node, tree => tree.toJson
  | nodes, trees => .array (Node.toJsonAll trees)
  | text, value => .string value
  | texts, values => .array (values.map .string)
  | decimal, value => .string value.toScientific
  | coordinate, value => Node.coordinateJson value

end FieldSort

/-- What some fields are read as. -/
@[reducible]
def Contents : List (String × FieldSort) → Type
  | [] => Unit
  | field :: fields => field.2.Content × Contents fields

namespace Contents

/-- Read fields in their order. -/
def read (source : Node.Fields) :
    (fields : List (String × FieldSort)) → Except SchemaError (Contents fields)
  | [] => pure ()
  | field :: fields => do
    let content ← field.2.read source field.1
    return (content, ← read source fields)

/-- Write fields in their order. -/
def write : (fields : List (String × FieldSort)) → Contents fields → List (String × Json)
  | [], () => []
  | field :: fields, (content, contents) =>
    (field.1, field.2.write content) :: write fields contents

end Contents

namespace Shape

/-- The node of a shape with these contents. -/
def build : (shape : Shape) → Contents shape.fields → Node
  | number, (value, ()) => .number value
  | function, (params, body, ()) => .function params body
  | program, (body, ()) => .program body
  | assign, (name, expr, ()) => .assign name expr
  | expression, (expr, ()) => .expression expr
  | numeral, (text, ()) => .numeral text
  | literal, (value, ()) => .literal value
  | lookup, (name, line, column, ()) => .lookup name ⟨line, column⟩
  | call, (name, args, line, column, ()) => .call name args ⟨line, column⟩
  | print, (expr, ()) => .print expr
  | binary, (op, left, right, line, column, ()) => .binary op left right ⟨line, column⟩

/-- Writing follows the table. -/
theorem toJson_build (shape : Shape) (contents : Contents shape.fields) :
    (shape.build contents).toJson =
      .object ((shape.key, .string shape.name) :: Contents.write shape.fields contents) := by
  cases shape <;> rfl

theorem key_of_mem_types : ∀ shape ∈ types, shape.key = "type" := by decide

theorem isNamed_iff {members : List (String × Json)} {shape : Shape} :
    shape.isNamed members = true ↔ members.lookup shape.key = some (.string shape.name) := by
  unfold isNamed
  split
  · next text heq => simp [heq]
  · next hne => simpa using hne shape.name

theorem lookup_ne_of_not_isNamed {members : List (String × Json)} {shape : Shape}
    (h : shape.isNamed members = false) :
    members.lookup shape.key ≠ some (.string shape.name) := by
  simp [← isNamed_iff, h]

end Shape

/-- Reading a node of a known type follows the table. -/
theorem ofType_name (fields : Node.Fields) {shape : Shape} (h : shape.key = "type") :
    Node.ofType fields shape.name = shape.build <$> Contents.read fields shape.fields := by
  cases shape
  case number | function => exact absurd h (by decide)
  all_goals
    simp [Node.ofType, Shape.name, Contents.read, FieldSort.read, Node.Fields.position, Shape.build]

/-- A type that is not known is not read. -/
theorem ofType_ne_ok (fields : Node.Fields) {type : String}
    (h : type ∉ Shape.types.map Shape.name) (node : Node) : Node.ofType fields type ≠ .ok node := by
  intro hread
  unfold Node.ofType at hread
  split at hread
  case h_10 => cases hread
  all_goals exact absurd (by decide) h

section Objects

variable {members : List (String × Json)}

theorem lookup_map_json (key : String) :
    ((Node.fieldsOf members).lookup key).map Node.Field.json = members.lookup key := by
  rw [Node.lookup_fieldsOf, Option.map_map]
  exact Option.map_id'

/-- An object that names no value is read by its type. -/
theorem ofJson_of_not_value (h : ∀ shape ∈ Shape.values, shape.isNamed members = false) :
    Node.ofJson (.object members) =
      match members.lookup "type" with
      | some (.string type) => Node.ofType (Node.fieldsOf members) type
      | other => .error (.unknownType other) := by
  have hnumber := Shape.lookup_ne_of_not_isNamed (h .number (by decide))
  have hfunction := Shape.lookup_ne_of_not_isNamed (h .function (by decide))
  rw [Node.ofJson, Node.ofFields, lookup_map_json, lookup_map_json]
  split
  · next heq => exact absurd heq hnumber
  · next heq => exact absurd heq hfunction
  · rfl

/-- Reading an object follows the table. -/
theorem ofJson_of_shape {shape : Shape} (h : Shape.of? members = some shape) :
    Node.ofJson (.object members) =
      shape.build <$> Contents.read (Node.fieldsOf members) shape.fields := by
  rcases Option.or_eq_some_iff.mp h with hvalue | ⟨hvalues, htype⟩
  · have hnamed := Shape.isNamed_iff.mp (List.find?_some hvalue)
    have hmem := List.mem_of_find?_eq_some hvalue
    simp only [Shape.values, List.mem_cons, List.not_mem_nil, or_false] at hmem
    rcases hmem with rfl | rfl
    · rw [Node.ofJson_number hnamed]
      simp [Contents.read, FieldSort.read, Shape.build]
    · rw [Node.ofJson_function hnamed]
      simp [Contents.read, FieldSort.read, Shape.build]
  · have hkey := Shape.key_of_mem_types shape (List.mem_of_find?_eq_some htype)
    have hnamed := Shape.isNamed_iff.mp (List.find?_some htype)
    rw [hkey] at hnamed
    rw [ofJson_of_not_value (by simpa using hvalues), hnamed]
    exact ofType_name _ hkey

/-- An object that names no shape is not read. -/
theorem ofJson_of_no_shape (h : Shape.of? members = none) (node : Node) :
    Node.ofJson (.object members) ≠ .ok node := by
  obtain ⟨hvalues, htypes⟩ := Option.or_eq_none_iff.mp h
  rw [ofJson_of_not_value (by simpa using hvalues)]
  split
  · next type heq =>
    refine ofType_ne_ok _ ?_ node
    rw [List.mem_map]
    rintro ⟨shape, hs, rfl⟩
    have hnot := List.find?_eq_none.mp htypes shape hs
    exact hnot (Shape.isNamed_iff.mpr (by rw [Shape.key_of_mem_types shape hs, heq]))
  · nofun

end Objects

/-! ## Reading exactly -/

/-- Reading succeeds exactly if `P` holds, and then `Q` holds of what is read. -/
structure Exactly {α : Type} (result : Except SchemaError α) (P : Prop) (Q : α → Prop) : Prop where
  sound : ∀ value, result = .ok value → P ∧ Q value
  complete : P → ∃ value, result = .ok value

namespace Exactly

variable {α β γ : Type} {result : Except SchemaError α} {result' : Except SchemaError β}
  {P P' : Prop} {Q : α → Prop} {Q' : β → Prop}

theorem of_ok {value : α} (hP : P) (hQ : Q value) : Exactly (.ok value) P Q :=
  ⟨fun _ h => by cases h; exact ⟨hP, hQ⟩, fun _ => ⟨value, rfl⟩⟩

theorem of_error {error : SchemaError} (hP : ¬ P) : Exactly (.error error) P Q :=
  ⟨nofun, fun h => absurd h hP⟩

theorem map {f : α → γ} {R : γ → Prop} (h : Exactly result P Q) (hf : ∀ value, Q value → R (f value)) :
    Exactly (f <$> result) P R := by
  cases result with
  | ok value =>
    obtain ⟨hP, hQ⟩ := h.sound value rfl
    exact of_ok hP (hf value hQ)
  | error error =>
    refine of_error fun hP => ?_
    obtain ⟨value, hv⟩ := h.complete hP
    cases hv

theorem congr (h : Exactly result P Q) (hP : P ↔ P') : Exactly result P' Q := by
  rwa [hP] at h

theorem weaken {R : α → Prop} (h : Exactly result P Q) (hQ : ∀ value, Q value → R value) :
    Exactly result P R :=
  ⟨fun value hv => ⟨(h.sound value hv).1, hQ value (h.sound value hv).2⟩, h.complete⟩

/-- Two parts are read if both can be read. -/
theorem both {f : α → β → γ} {R : γ → Prop} (h : Exactly result P Q) (h' : Exactly result' P' Q')
    (hf : ∀ value value', Q value → Q' value' → R (f value value')) :
    Exactly (do let value ← result; return f value (← result')) (P ∧ P') R := by
  cases result with
  | ok value =>
    obtain ⟨hP, hQ⟩ := h.sound value rfl
    have hmap : Exactly (f value <$> result') P' R := h'.map fun value' => hf value value' hQ
    rw [← bind_pure_comp] at hmap
    exact hmap.congr (by simp [hP])
  | error error =>
    refine of_error fun hP => ?_
    obtain ⟨value, hv⟩ := h.complete hP.1
    cases hv

end Exactly

open Json

/-- Fields are read if each of them can be read. -/
theorem Contents.read_exactly {source : Node.Fields} {fields : List (String × FieldSort)}
    {P : String × FieldSort → Prop} {trim : String × FieldSort → Json}
    (h : ∀ field ∈ fields,
      Exactly (field.2.read source field.1) (P field) fun content => field.2.write content = trim field) :
    Exactly (read source fields) (∀ field ∈ fields, P field) fun contents =>
      write fields contents = fields.map fun field => (field.1, trim field) := by
  induction fields with
  | nil => exact .of_ok nofun rfl
  | cons field fields ih =>
    rw [List.forall_mem_cons] at h
    refine (h.1.both (ih h.2) fun content contents hc hcs => ?_).congr List.forall_mem_cons.symm
    rw [write, hc, hcs, List.map_cons]

/-- The value is read if it is a tree, and what is read is what trimming leaves of it. -/
def ReadsTree (json : Json) : Prop :=
  Exactly (Node.ofJson json) (IsTree json) fun node => node.toJson = trimmed .node json

theorem ofJsonAll_exactly {items : List Json} (h : ∀ item ∈ items, ReadsTree item) :
    Exactly (Node.ofJsonAll items) (∀ item ∈ items, IsTree item) fun nodes =>
      Node.toJsonAll nodes = trimmedAll items := by
  induction items with
  | nil =>
    rw [Node.ofJsonAll]
    exact .of_ok nofun rfl
  | cons item items ih =>
    rw [List.forall_mem_cons] at h
    rw [Node.ofJsonAll]
    refine (h.1.both (ih h.2) fun node nodes hn hns => ?_).congr List.forall_mem_cons.symm
    rw [Node.toJsonAll, hn, hns, trimmedAll]

/-- The field of some members is read if it is there as its sort asks for, and what is read is what
trimming leaves of it. -/
def ReadsField (members : List (String × Json)) (field : String × FieldSort) : Prop :=
  Exactly (field.2.read (Node.fieldsOf members) field.1) (HasField members field.1 field.2)
    fun content => field.2.write content = ((members.lookup field.1).map (trimmed field.2)).getD .null

section Fields

variable {members : List (String × Json)} {key : String}

/-- Only a line or a column may be missing. -/
theorem not_hasField {sort : FieldSort} (h : members.lookup key = none) (hs : sort ≠ .coordinate) :
    ¬ HasField members key sort := by
  intro hfield
  cases hfield <;> simp_all

theorem readsField_of_none (h : members.lookup key = none) (sort : FieldSort) :
    ReadsField members (key, sort) := by
  have hget : (Node.fieldsOf members).get key = .error (.missing key) := by
    rw [Node.Fields.get, Node.lookup_fieldsOf, h]
    rfl
  cases sort
  case coordinate =>
    have hread : (Node.fieldsOf members).coordinate key = .ok none := by
      rw [Node.Fields.coordinate, lookup_map_json, h]
    simp only [ReadsField, FieldSort.read, hread, h]
    exact .of_ok .coordinate rfl
  all_goals
    simp only [ReadsField, FieldSort.read, Node.Fields.node, Node.Fields.nodes, Node.Fields.text,
      Node.Fields.texts, Node.Fields.decimal, hget]
    exact .of_error (not_hasField h (by decide))

/-- What is left of a field that is there. -/
theorem readsField_of_some {value : Json} {sort : FieldSort} (h : members.lookup key = some value) :
    ReadsField members (key, sort) ↔
      Exactly (sort.read (Node.fieldsOf members) key) (HasField members key sort) fun content =>
        sort.write content = trimmed sort value := by
  simp only [ReadsField, h, Option.map_some, Option.getD_some]

theorem readsField_node {value : Json} (h : members.lookup key = some value) (hv : ReadsTree value) :
    ReadsField members (key, .node) := by
  have hfield : IsTree value ↔ HasField members key .node := by
    refine ⟨.node h, fun hf => ?_⟩
    cases hf with
    | node h' ht =>
      rw [h, Option.some.injEq] at h'
      exact h' ▸ ht
  rw [readsField_of_some h, FieldSort.read, Node.node_fieldsOf key h]
  exact hv.congr hfield

theorem readsField_nodes {items : List Json} (h : members.lookup key = some (.array items))
    (hi : ∀ item ∈ items, ReadsTree item) : ReadsField members (key, .nodes) := by
  have hfield : (∀ item ∈ items, IsTree item) ↔ HasField members key .nodes := by
    refine ⟨.nodes h, fun hf => ?_⟩
    cases hf with
    | nodes h' ht =>
      rw [h, Option.some.injEq, Json.array.injEq] at h'
      exact h' ▸ ht
  rw [readsField_of_some h, FieldSort.read, Node.nodes_fieldsOf key h]
  refine ((ofJsonAll_exactly hi).congr hfield).weaken fun nodes hn => ?_
  rw [FieldSort.write, hn, trimmed]

/-- The text of a number is read if it is that of a decimal. -/
theorem readsField_decimal {text : String} (h : members.lookup key = some (.string text)) :
    ReadsField members (key, .decimal) := by
  have hread : (Node.fieldsOf members).decimal key = (Decimal.read text).mapError .number := by
    rw [Node.Fields.decimal, Node.get_fieldsOf key h]
    rfl
  simp only [ReadsField, FieldSort.read, hread, h, Option.map_some, Option.getD_some, trimmed]
  cases hd : Decimal.read text with
  | ok value => exact .of_ok (.decimal h hd) rfl
  | error error =>
    refine .of_error fun hfield => ?_
    cases hfield with
    | decimal h' hd' =>
      rw [h] at h'
      cases h'
      rw [hd] at hd'
      cases hd'

theorem readsField_coordinate {coordinate : Option Int}
    (h : members.lookup key = some (Node.coordinateJson coordinate)) :
    ReadsField members (key, .coordinate) := by
  rw [readsField_of_some h, FieldSort.read, Node.coordinate_fieldsOf key h]
  refine .of_ok .coordinate ?_
  cases coordinate <;> rfl

end Fields

/-! ## Trees -/

/-- A value that is neither null nor an object is no tree. -/
theorem readsTree_of_not_object {json : Json} (h : ∀ members, json ≠ .object members) :
    ReadsTree json := by
  cases json with
  | null =>
    rw [ReadsTree, Node.ofJson]
    exact .of_ok .null rfl
  | object members => exact absurd rfl (h members)
  | _ =>
    rw [ReadsTree, Node.ofJson]
    exact .of_error nofun

/-- An object is read if it names a shape of which all fields can be read. -/
theorem readsTree_of_fields {members : List (String × Json)}
    (h : ∀ shape, Shape.of? members = some shape → ∀ field ∈ shape.fields, ReadsField members field) :
    ReadsTree (.object members) := by
  cases hs : Shape.of? members with
  | none =>
    refine ⟨fun node hn => absurd hn (ofJson_of_no_shape hs node), fun ht => ?_⟩
    cases ht with
    | object hs' _ =>
      rw [hs] at hs'
      cases hs'
  | some shape =>
    have htree : IsTree (.object members) ↔ ∀ field ∈ shape.fields, HasField members field.1 field.2 := by
      refine ⟨fun ht => ?_, .object hs⟩
      cases ht with
      | object hs' hfields =>
        rw [hs] at hs'
        cases hs'
        exact hfields
    rw [ReadsTree, ofJson_of_shape hs, htree, trimmed_object hs]
    refine (Contents.read_exactly (h shape hs)).map fun contents hc => ?_
    rw [Shape.toJson_build, hc]

mutual

theorem Json.WellTyped.readsTree : {json : Json} → json.WellTyped → ReadsTree json
  | _, .other h => readsTree_of_not_object h
  | _, @WellTyped.object members h => readsTree_of_fields fun shape hs field hf => by
    cases hv : members.lookup field.1 with
    | none => exact readsField_of_none hv field.2
    | some value => exact (h shape hs field hf value hv).readsField hv

theorem Json.HasType.readsField : {sort : FieldSort} → {value : Json} → HasType sort value →
    ∀ {members : List (String × Json)} {key : String}, members.lookup key = some value →
      ReadsField members (key, sort)
  | _, _, .node h, _, _, hv => readsField_node hv h.readsTree
  | _, _, .nodes h, _, _, hv => readsField_nodes hv fun item hi => (h item hi).readsTree
  | _, _, .text, _, _, hv => by
    rw [readsField_of_some hv, FieldSort.read, Node.text_fieldsOf _ hv]
    exact .of_ok (.text hv) rfl
  | _, _, .texts, _, _, hv => by
    rw [readsField_of_some hv, FieldSort.read, Node.texts_fieldsOf _ hv]
    exact .of_ok (.texts hv) rfl
  | _, _, .decimal, _, _, hv => readsField_decimal hv
  | _, _, @HasType.coordinate n, _, _, hv => @readsField_coordinate _ _ (some n) hv
  | _, _, .unknown, _, _, hv => @readsField_coordinate _ _ none hv

end

/-- Of JSON in which the fields have their types: reading succeeds exactly on trees, and the JSON of what
is read is the trimmed JSON. -/
theorem ofJson_accepts_schema {json : Json} (h : json.WellTyped) :
    ((∃ node, Node.ofJson json = .ok node) ↔ json.IsTree) ∧
      ∀ node, Node.ofJson json = .ok node → node.toJson = json.trimmed .node := by
  have hexact := h.readsTree
  refine ⟨⟨fun hread => ?_, hexact.complete⟩, fun node hn => (hexact.sound node hn).2⟩
  obtain ⟨node, hn⟩ := hread
  exact (hexact.sound node hn).1

/-- A call with an argument that names a value and a type, a key that no call has, and no line. -/
def strayCall : Json :=
  .object [("note", .bool true), ("type", .string "FunctionCall"), ("name", .string "f"),
    ("args", .array [.object [("type", .string "Assign"), ("__value__", .string "Number"),
      ("value", .string " +1_0e2")], .null]), ("column", .int 7)]

theorem strayCall_wellTyped : strayCall.WellTyped := by
  have hnumber : WellTyped (.object [("type", .string "Assign"), ("__value__", .string "Number"),
      ("value", .string " +1_0e2")]) := by
    refine .object fun shape hs field hf value hv => ?_
    cases (show some Shape.number = some shape from hs)
    cases List.mem_singleton.mp hf
    cases hv
    exact .decimal
  refine .object fun shape hs field hf value hv => ?_
  cases (show some Shape.call = some shape from hs)
  simp only [List.mem_cons, List.not_mem_nil, or_false] at hf
  rcases hf with rfl | rfl | rfl | rfl <;> cases hv
  · exact .text
  · exact .nodes (List.forall_mem_cons.mpr ⟨hnumber, List.forall_mem_singleton.mpr (.other nofun)⟩)
  · exact .coordinate

/-- The call is a tree, and what it keeps is written out. -/
theorem ofJson_accepts_schema_of_strayCall :
    strayCall.WellTyped ∧ (∃ node, Node.ofJson strayCall = .ok node) ∧ strayCall.IsTree ∧
      ∀ node, Node.ofJson strayCall = .ok node → node.toJson =
        .object [("type", .string "FunctionCall"), ("name", .string "f"),
          ("args", .array [.object [("__value__", .string "Number"), ("value", .string "1.0E+3")],
            .null]), ("line", .null), ("column", .int 7)] := by
  obtain ⟨haccepts, htrims⟩ := ofJson_accepts_schema strayCall_wellTyped
  have hread : ∃ node, Node.ofJson strayCall = .ok node := ⟨_, by with_unfolding_all rfl⟩
  refine ⟨strayCall_wellTyped, hread, haccepts.mp hread, fun node hn => ?_⟩
  rw [htrims node hn]
  with_unfolding_all rfl

end Douro
