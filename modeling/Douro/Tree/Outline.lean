import Douro.Tree.Display

/-!
# Outlines

A tree as lines, a level of the tree indented by two blanks. A literal has no line of its own; its
value stands in its place.

* `Node.outline?`: the lines of a tree. A tree that lacks a part has no outline.
-/

namespace Douro

namespace Node

/-- A line at a level of the tree. -/
def outlineLine (depth : Nat) (text : String) : String :=
  String.ofList (List.replicate (2 * depth) ' ') ++ text

mutual

/-- The lines of a node that stands at level `depth`. -/
def outlineAt (depth : Nat) : Node → Option (List String)
  | absent => none
  | program body => do
    return outlineLine depth "program:" :: (← outlineAll (depth + 1) body)
  | assign name expr => do
    return outlineLine depth ("assign: " ++ name) :: (← outlineAt (depth + 1) expr)
  | expression expr => do
    return outlineLine depth "expr:" :: (← outlineAt (depth + 1) expr)
  | numeral text => some [outlineLine depth ("number: " ++ text)]
  | literal value => outlineAt depth value
  | number value => some [outlineLine depth ("number: " ++ value.toPlain)]
  | function params body => do
    let head := "function (" ++ String.intercalate ", " params ++ ") =>"
    return outlineLine depth head :: (← outlineAll (depth + 1) body)
  | lookup name _ => some [outlineLine depth ("lookup: " ++ name)]
  | call name args _ => do
    return outlineLine depth ("call: " ++ name) :: (← outlineAll (depth + 1) args)
  | print expr => do
    return outlineLine depth "print:" :: (← outlineAt (depth + 1) expr)
  | binary op left right _ => do
    let lines ← outlineAt (depth + 1) left
    return outlineLine depth ("binary: " ++ op) :: lines ++ (← outlineAt (depth + 1) right)

/-- The lines of nodes that stand at level `depth`. -/
def outlineAll (depth : Nat) : List Node → Option (List String)
  | [] => some []
  | node :: nodes => do
    let lines ← outlineAt depth node
    return lines ++ (← outlineAll depth nodes)

end

/-- The lines of a tree. -/
def outline? (node : Node) : Option (List String) := outlineAt 0 node

end Node

end Douro
