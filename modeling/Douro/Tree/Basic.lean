import Douro.Decimal.Basic
import Douro.Position

/-!
# Program trees

A program is a list of statements: assignments and expressions. The values of a program, numbers
and functions, are trees too, because a literal holds one and a function holds statements. A tree
that does not come from a source can lack a part; `absent` stands there.
-/

namespace Douro

/-- A program, a part of one, or a value. -/
inductive Node where
  /-- Nothing, in the place of a part. -/
  | absent
  | program (body : List Node)
  /-- The statement that binds a name. -/
  | assign (name : String) (expr : Node)
  /-- The statement that only evaluates. -/
  | expression (expr : Node)
  /-- A number as it is written. -/
  | numeral (text : String)
  /-- An expression that is a value already. -/
  | literal (value : Node)
  | lookup (name : String) (position : Position)
  | call (name : String) (args : List Node) (position : Position)
  | print (expr : Node)
  | binary (op : String) (left right : Node) (position : Position)
  /-- The value of a number. -/
  | number (value : Decimal)
  /-- The value of a function. -/
  | function (params : List String) (body : List Node)

namespace Node

/-- The name of a node's type in messages. -/
def kindName : Node → String
  | absent => "NoneType"
  | program .. => "Program"
  | assign .. => "Assign"
  | expression .. => "ExprStmt"
  | numeral .. => "NumberLiteral"
  | literal .. => "Literal"
  | lookup .. => "Lookup"
  | call .. => "FunctionCall"
  | print .. => "PrintExpr"
  | binary .. => "BinaryOp"
  | number .. => "Number"
  | function .. => "Function"

/-- The statements of a node that has some to run. -/
def body? : Node → Option (List Node)
  | program body => some body
  | function _ body => some body
  | _ => none

end Node

end Douro
