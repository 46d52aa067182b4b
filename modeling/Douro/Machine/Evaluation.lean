import Douro.Machine.Basic
import Douro.Machine.Operation

/-!
# Running trees

Expressions are evaluated from left to right. A call looks its function up before it evaluates its
arguments. Its body runs in a scope of its own, and its value is that of its last statement. The
number of calls inside each other is bounded by a budget.

* `evaluate`: the value of an expression, for a given way to carry out calls.
* `execute`: a statement.
* `invoke`: a call, with a budget for it and the calls inside it.
* `runWithin`: the statements of a program, with a budget for nested calls.
-/

namespace Douro

/-- A way to carry out calls: from the name and position of the call, the parameters and body of the
function and the values of the arguments. -/
abbrev Callee :=
  (name : String) → (position : Position) → (params : List String) → (body : List Node) →
    (args : List Node) → Run Node

/-! ## Expressions -/

mutual

/-- The value of an expression. -/
def evaluate (callee : Callee) : Node → Run Node
  | .numeral text => Run.ofExcept (((Decimal.read text).map Node.number).mapError .numeral)
  | .literal value => pure value
  | .number value => pure (.number value)
  | .function params body => pure (.function params body)
  | .lookup name position => Run.lookup name position
  | .binary op left right position => do
    let a ← evaluate callee left
    let b ← evaluate callee right
    let result ← Run.ofExcept (combine op position a b)
    Run.note (.operate op a b result)
    return result
  | .print expr => do
    let value ← evaluate callee expr
    Run.print value.display
    return value
  | .call name args position => do
    match ← Run.lookup name position with
    | .function params body =>
      let values ← evaluateAll callee args
      callee name position params body values
    | other => throw (.notFunction name other.kindName position)
  | .absent => throw (.notExpression Node.absent.kindName)
  | .program body => throw (.notExpression (Node.program body).kindName)
  | .assign name expr => throw (.notExpression (Node.assign name expr).kindName)
  | .expression expr => throw (.notExpression (Node.expression expr).kindName)

/-- The values of expressions, from left to right. -/
def evaluateAll (callee : Callee) : List Node → Run (List Node)
  | [] => pure []
  | node :: nodes => do
    let value ← evaluate callee node
    let values ← evaluateAll callee nodes
    return value :: values

end

/-! ## Statements -/

/-- Run a statement. Its value is that of its expression. -/
def execute (callee : Callee) : Node → Run Node
  | .assign name expr => do
    let value ← evaluate callee expr
    Run.define name value
    let depth ← Run.depth
    Run.note (.define name value depth)
    return value
  | .expression expr => evaluate callee expr
  | node => throw (.notStatement node.kindName)

/-- Run statements in order, after one of value `last`. The value is that of the last one. -/
def executeFrom (callee : Callee) (last : Node) : List Node → Run Node
  | [] => pure last
  | node :: nodes => do
    let value ← execute callee node
    executeFrom callee value nodes

/-- Run statements in order. The value is that of the last one, or `0` if there is none. -/
def executeBody (callee : Callee) (body : List Node) : Run Node :=
  executeFrom callee (.number Decimal.zero) body

/-! ## Calls -/

/-- Carry out a call. The budget is the number of calls that may be under way inside each other, this
one included. -/
def invoke : (budget : Nat) → Callee
  | 0 => fun _ _ _ _ _ => throw .tooDeep
  | budget + 1 => fun name position params body args => do
    if args.length ≠ params.length then
      throw (.arity name params.length args.length position)
    Run.note (.call name args)
    let result ← Run.inScope do
      Run.defineAll (params.zip args)
      executeBody (invoke budget) body
    Run.note (.finish name result)
    return result

/-! ## Programs -/

/-- Run the statements of a program in order. -/
def runStatements (callee : Callee) : List Node → Run Unit
  | [] => pure ()
  | node :: nodes => do
    Run.note (.execute node.kindName)
    let _ ← execute callee node
    runStatements callee nodes

/-- Run a program, or the statements of a function, with a budget for nested calls. -/
def runWithin (budget : Nat) (program : Node) : Run Unit :=
  match program.body? with
  | some body => runStatements (invoke budget) body
  | none => throw (.notProgram program.kindName)

end Douro
