import Douro.Tree.Basic

/-!
# Trees up to their positions

Two trees say the same if they differ only in where their names and operators stand.

* `Node.mapPosition`: the tree with every position changed in one way.
* `Node.Alike`: equality up to positions.
-/

namespace Douro

namespace Node

mutual

/-- The tree with every position changed by `f`. -/
def mapPosition (f : Position → Position) : Node → Node
  | absent => absent
  | program body => program (mapPositionAll f body)
  | assign name expr => assign name (mapPosition f expr)
  | expression expr => expression (mapPosition f expr)
  | numeral text => numeral text
  | literal value => literal (mapPosition f value)
  | lookup name position => lookup name (f position)
  | call name args position => call name (mapPositionAll f args) (f position)
  | print expr => print (mapPosition f expr)
  | binary op left right position =>
    binary op (mapPosition f left) (mapPosition f right) (f position)
  | number value => number value
  | function params body => function params (mapPositionAll f body)

/-- The trees with every position changed by `f`. -/
def mapPositionAll (f : Position → Position) : List Node → List Node
  | [] => []
  | node :: nodes => mapPosition f node :: mapPositionAll f nodes

end

variable (f g : Position → Position)

theorem mapPositionAll_eq_map (nodes : List Node) :
    mapPositionAll f nodes = nodes.map (mapPosition f) := by
  induction nodes with
  | nil => rfl
  | cons node nodes ih => rw [mapPositionAll, ih, List.map_cons]

mutual

theorem mapPosition_mapPosition : (node : Node) →
    mapPosition f (mapPosition g node) = mapPosition (f ∘ g) node
  | absent | numeral _ | number _ => rfl
  | lookup .. => rfl
  | program body => by simp only [mapPosition, mapPositionAll_mapPositionAll body]
  | function _ body => by simp only [mapPosition, mapPositionAll_mapPositionAll body]
  | call _ args _ => by
    simp only [mapPosition, mapPositionAll_mapPositionAll args, Function.comp_apply]
  | assign _ expr => by simp only [mapPosition, mapPosition_mapPosition expr]
  | expression expr => by simp only [mapPosition, mapPosition_mapPosition expr]
  | literal value => by simp only [mapPosition, mapPosition_mapPosition value]
  | print expr => by simp only [mapPosition, mapPosition_mapPosition expr]
  | binary _ left right _ => by
    simp only [mapPosition, mapPosition_mapPosition left, mapPosition_mapPosition right,
      Function.comp_apply]

theorem mapPositionAll_mapPositionAll : (nodes : List Node) →
    mapPositionAll f (mapPositionAll g nodes) = mapPositionAll (f ∘ g) nodes
  | [] => rfl
  | node :: nodes => by
    simp only [mapPositionAll, mapPosition_mapPosition node, mapPositionAll_mapPositionAll nodes]

end

/-- The trees are equal up to their positions. -/
def Alike (node node' : Node) : Prop :=
  node.mapPosition (fun _ => .unknown) = node'.mapPosition (fun _ => .unknown)

/-- Trees that are equal with their positions changed are equal up to positions. -/
theorem Alike.of_mapPosition {f g : Position → Position} {node node' : Node}
    (h : node.mapPosition f = node'.mapPosition g) : node.Alike node' := by
  have := congrArg (mapPosition fun _ => .unknown) h
  rwa [mapPosition_mapPosition, mapPosition_mapPosition] at this

end Node

end Douro
