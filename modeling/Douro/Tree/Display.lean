import Douro.Decimal.Layout
import Douro.Text.Quoted
import Douro.Tree.Basic

/-!
# Values as text

* `Node.display`: what printing a value writes: a number in plain digits, a function by its
  parameters, anything else in full.
* `Node.describe`: a node in full, every field by name.
-/

namespace Douro

namespace Node

/-- A function by its parameters. -/
def functionText (params : List String) : String :=
  "<function(" ++ String.intercalate ", " params ++ ")>"

/-- The two fields of a position. -/
def positionText (position : Position) : String :=
  "line=" ++ Position.coordinateText position.line ++
    ", column=" ++ Position.coordinateText position.column

mutual

/-- A node in full. -/
def describe : Node → String
  | absent => "None"
  | program body => "Program(body=[" ++ describeAll body ++ "])"
  | assign name expr => "Assign(name=" ++ Text.quoted name ++ ", expr=" ++ describe expr ++ ")"
  | expression expr => "ExprStmt(expr=" ++ describe expr ++ ")"
  | numeral text => "NumberLiteral(text=" ++ Text.quoted text ++ ")"
  | literal value => "Literal(value=" ++ describe value ++ ")"
  | lookup name position =>
    "Lookup(name=" ++ Text.quoted name ++ ", " ++ positionText position ++ ")"
  | call name args position =>
    "FunctionCall(name=" ++ Text.quoted name ++ ", args=[" ++ describeAll args ++ "], " ++
      positionText position ++ ")"
  | print expr => "PrintExpr(expr=" ++ describe expr ++ ")"
  | binary op left right position =>
    "BinaryOp(op=" ++ Text.quoted op ++ ", left=" ++ describe left ++ ", right=" ++
      describe right ++ ", " ++ positionText position ++ ")"
  | number value => "Number(" ++ value.toPlain ++ ")"
  | function params _ => functionText params

/-- Nodes in full, with commas between them. -/
def describeAll : List Node → String
  | [] => ""
  | node :: nodes => describe node ++ describeMore nodes

/-- Nodes in full, with a comma before each. -/
def describeMore : List Node → String
  | [] => ""
  | node :: nodes => ", " ++ describe node ++ describeMore nodes

end

/-- What printing a value writes. -/
def display : Node → String
  | number value => value.toPlain
  | node => describe node

end Node

end Douro
