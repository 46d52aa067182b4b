import Douro.Decimal.Arithmetic
import Douro.Machine.Failure
import Douro.Tree.Basic

/-!
# Arithmetic on values

* `Operator`: the four operators and their texts.
* `combine`: the value of `a op b`. The types of the operands are looked at first, then the
  operator, then a zero divisor.
-/

namespace Douro

/-- The arithmetic operators. -/
inductive Operator where
  | add
  | subtract
  | multiply
  | divide
deriving DecidableEq

namespace Operator

/-- The operator that a text writes. -/
def ofText? (text : String) : Option Operator :=
  if text = "+" then some add
  else if text = "-" then some subtract
  else if text = "*" then some multiply
  else if text = "/" then some divide
  else none

/-- The operation on decimals. -/
def apply : Operator → Decimal → Decimal → Except Decimal.Signal Decimal
  | add => Decimal.add
  | subtract => Decimal.subtract
  | multiply => Decimal.multiply
  | divide => Decimal.divide

end Operator

/-- The number `a op b`. -/
def combineNumbers (op : String) (position : Position) (a b : Decimal) : Except Failure Decimal :=
  match Operator.ofText? op with
  | none => .error (.unknownOperator op position)
  | some operator =>
    if operator = .divide ∧ b.isZero then .error (.divisionByZero position)
    else
      match operator.apply a b with
      | .ok result => .ok result
      | .error signal => .error (.outOfRange op signal position)

/-- The value of `a op b`. -/
def combine (op : String) (position : Position) (a b : Node) : Except Failure Node :=
  match a, b with
  | .number x, .number y => (combineNumbers op position x y).map .number
  | _, _ => .error (.operandTypes op a.kindName b.kindName position)

end Douro
