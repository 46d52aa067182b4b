import Douro.Decimal.Reading
import Douro.Decimal.Rounding
import Douro.Diagnostic

/-!
# Why a run stops

* `Failure`: the causes.
* `Failure.diagnostic?`: a fault of the program. Other causes come from a tree that no source has,
  or from calls that are nested too deep.
* `Failure.message`: a cause in words.
-/

namespace Douro

/-- Why running a tree stops. -/
inductive Failure where
  /-- A name without a value. -/
  | unbound (name : String) (position : Position)
  /-- A call of something that is not a function. -/
  | notFunction (name type : String) (position : Position)
  /-- A call with too few or too many arguments. -/
  | arity (name : String) (expected got : Nat) (position : Position)
  /-- Arithmetic on something that is not a number. -/
  | operandTypes (op left right : String) (position : Position)
  /-- An operator that there is not. -/
  | unknownOperator (op : String) (position : Position)
  /-- Arithmetic without a result. -/
  | outOfRange (op : String) (signal : Decimal.Signal) (position : Position)
  | divisionByZero (position : Position)
  /-- More calls inside each other than the machine takes. -/
  | tooDeep
  /-- A node in the place of a statement. -/
  | notStatement (type : String)
  /-- A node in the place of an expression. -/
  | notExpression (type : String)
  /-- A node in the place of a program. -/
  | notProgram (type : String)
  /-- A numeral that is not a decimal. -/
  | numeral (error : Decimal.ReadError)
  /-- The global scope cannot be left. -/
  | globalScope
deriving DecidableEq

namespace Failure

/-- The failure as a fault of the program, if it is one. -/
def diagnostic? : Failure → Option Diagnostic
  | unbound name position => some ⟨.unbound, "undefined variable " ++ name, position⟩
  | notFunction name type position =>
    some ⟨.type, name ++ " is a " ++ type ++ ", not a Function", position⟩
  | arity name expected got position =>
    some ⟨.arity, name ++ " expects " ++ toString expected ++ " arguments, got " ++ toString got,
      position⟩
  | operandTypes op left right position =>
    some ⟨.type, "unsupported " ++ op ++ " for " ++ left ++ " and " ++ right, position⟩
  | unknownOperator op position => some ⟨.type, "unknown operator " ++ op, position⟩
  | outOfRange op signal position =>
    some ⟨.arithmetic, op ++ " result out of range (" ++ signal.name ++ ")", position⟩
  | divisionByZero position => some ⟨.arithmetic, "division by zero", position⟩
  | tooDeep | notStatement _ | notExpression _ | notProgram _ | numeral _ | globalScope => none

/-- The failure in words. -/
def message : Failure → String
  | tooDeep => "calls are nested too deep"
  | notStatement type => type ++ " is not a statement"
  | notExpression type => type ++ " is not an expression"
  | notProgram type => type ++ " has no statements to run"
  | numeral .malformed => "a numeral is not a decimal"
  | numeral .outsideLimits => "a numeral has an exponent outside the limits"
  | globalScope => "cannot pop the global scope"
  | failure => (failure.diagnostic?.map Diagnostic.text).getD ""

end Failure

end Douro
