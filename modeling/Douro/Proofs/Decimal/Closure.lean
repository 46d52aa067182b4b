import Douro.Machine.Operation

/-!
# Arithmetic on finite decimals

The four operations on finite decimals give a finite decimal, or the result is too large: rounding
knows no other outcome, and of two finite operands only a zero divisor is refused.

* `round_closed`: an exact result rounds to a finite decimal or overflows.
* `Operator.apply_closed`: the operations.
* `combine_number`: the value of `a op b` for two numbers.
-/

namespace Douro

namespace Decimal

/-- A decimal that is neither an infinity nor a not-a-number. -/
def IsFinite : Decimal → Prop
  | finite _ _ _ => True
  | infinity _ | nan _ _ _ => False

theorem isZero_finite_eq_false {negative : Bool} {coefficient : Nat} {exponent : Int} :
    (finite negative coefficient exponent).isZero = false ↔ coefficient ≠ 0 :=
  beq_eq_false_iff_ne

/-- A finite decimal, or an overflow. -/
def Closed : Except Signal Decimal → Prop
  | .ok result => result.IsFinite
  | .error signal => signal = .overflow

theorem checkOverflow_closed (negative : Bool) (coefficient : Nat) (exponent : Int) :
    Closed (checkOverflow negative coefficient exponent) := by
  unfold checkOverflow
  split
  · rfl
  · trivial

theorem round_closed (negative : Bool) (coefficient : Nat) (exponent : Int) :
    Closed (round negative coefficient exponent) := by
  unfold round
  split
  · trivial
  simp only
  split
  · exact checkOverflow_closed _ _ _
  split
  · exact checkOverflow_closed _ _ _
  · exact checkOverflow_closed _ _ _

section Operations

variable {a b : Decimal}

theorem add_closed (ha : a.IsFinite) (hb : b.IsFinite) : Closed (add a b) := by
  cases a <;> try cases ha
  cases b <;> try cases hb
  simp only [add, nanResult?]
  split
  · exact round_closed _ _ _
  split
  · exact round_closed _ _ _
  · exact round_closed _ _ _

theorem subtract_closed (ha : a.IsFinite) (hb : b.IsFinite) : Closed (subtract a b) := by
  have hb' : b.negate.IsFinite := by
    cases b <;> try cases hb
    trivial
  have hsum := add_closed ha hb'
  cases a <;> try cases ha
  cases b <;> try cases hb
  simpa only [subtract, nanResult?] using hsum

theorem multiply_closed (ha : a.IsFinite) (hb : b.IsFinite) : Closed (multiply a b) := by
  cases a <;> try cases ha
  cases b <;> try cases hb
  simp only [multiply, nanResult?]
  exact round_closed _ _ _

theorem divide_closed (ha : a.IsFinite) (hb : b.IsFinite) (hzero : b.isZero = false) :
    Closed (divide a b) := by
  cases a <;> try cases ha
  cases b <;> try cases hb
  simp only [divide, nanResult?, if_neg (isZero_finite_eq_false.mp hzero)]
  split
  · exact round_closed _ _ _
  · exact round_closed _ _ _

end Operations

end Decimal

/-- What is known of a divisor behind the check for zero. -/
theorem Operator.isZero_of_guard {operator : Operator} {b : Decimal}
    (h : ¬ (operator = .divide ∧ b.isZero = true)) (hdivide : operator = .divide) :
    b.isZero = false :=
  Bool.eq_false_iff.mpr fun hzero => h ⟨hdivide, hzero⟩

/-- Every operator takes finite decimals to a finite one, or overflows, unless it divides by zero. -/
theorem Operator.apply_closed (operator : Operator) {a b : Decimal} (ha : a.IsFinite)
    (hb : b.IsFinite) (hzero : operator = .divide → b.isZero = false) :
    Decimal.Closed (operator.apply a b) := by
  cases operator with
  | add => exact Decimal.add_closed ha hb
  | subtract => exact Decimal.subtract_closed ha hb
  | multiply => exact Decimal.multiply_closed ha hb
  | divide => exact Decimal.divide_closed ha hb (hzero rfl)

/-- The value of `a op b` from the result on decimals. -/
theorem combine_number {op : String} {operator : Operator} (hop : Operator.ofText? op = some operator)
    (position : Position) (a b : Decimal) (hzero : operator = .divide → b.isZero = false) :
    combine op position (.number a) (.number b) =
      ((operator.apply a b).map Node.number).mapError fun signal => .outOfRange op signal position := by
  have hne : ¬ (operator = .divide ∧ b.isZero = true) := by
    rintro ⟨hop, hz⟩
    rw [hzero hop] at hz
    cases hz
  simp only [combine, combineNumbers, hop, if_neg hne]
  cases operator.apply a b <;> rfl

end Douro
