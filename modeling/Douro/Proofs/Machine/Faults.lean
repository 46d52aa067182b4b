import Douro.Proofs.Decimal.Closure

/-!
# When arithmetic fails

Arithmetic looks at the types of its operands, then at the operator, then at a zero divisor, and leaves
the rest to the decimals. Of two numbers an operation is either invalid, which their forms decide, or has
a result, unless both are finite and the result is too large.

* `Operator.Invalid`: the operations without a result.
* `Operator.apply_ends`: how the operations on decimals end.
* `combine_fails_exactly`: which fault goes before which, for all values.
-/

namespace Douro

namespace Operator

/-- The text of an operator. -/
def text : Operator → String
  | add => "+"
  | subtract => "-"
  | multiply => "*"
  | divide => "/"

@[simp]
theorem ofText?_text (operator : Operator) : ofText? operator.text = some operator := by
  cases operator <;> rfl

theorem ofText?_eq_none {op : String} (h : op ∉ ["+", "-", "*", "/"]) : ofText? op = none := by
  simp only [List.mem_cons, List.not_mem_nil, or_false, not_or] at h
  obtain ⟨hadd, hsubtract, hmultiply, hdivide⟩ := h
  simp only [ofText?, if_neg hadd, if_neg hsubtract, if_neg hmultiply, if_neg hdivide]

theorem text_eq_divide_iff (operator : Operator) : operator.text = "/" ↔ operator = .divide := by
  cases operator <;> decide

/-! ## Operations without a result -/

/-- An operation that has no result: an operand is a signaling not-a-number, or infinities cancel, a zero
meets an infinity in a product, or an infinity is divided by one. -/
inductive Invalid : Operator → Decimal → Decimal → Prop where
  | signalingLeft (operator : Operator) (negative : Bool) (payload : Nat) (b : Decimal) :
    Invalid operator (.nan negative true payload) b
  | signalingRight (operator : Operator) (a : Decimal) (negative : Bool) (payload : Nat) :
    Invalid operator a (.nan negative true payload)
  | sum (negative : Bool) : Invalid .add (.infinity negative) (.infinity !negative)
  | difference (negative : Bool) : Invalid .subtract (.infinity negative) (.infinity negative)
  | zeroProduct (negative : Bool) (exponent : Int) (negative' : Bool) :
    Invalid .multiply (.finite negative 0 exponent) (.infinity negative')
  | productZero (negative negative' : Bool) (exponent : Int) :
    Invalid .multiply (.infinity negative) (.finite negative' 0 exponent)
  | quotient (negative negative' : Bool) : Invalid .divide (.infinity negative) (.infinity negative')

/-- How an operation may end: invalid exactly if it has no result or divides a zero by a zero, with a signal
of its own only under a zero divisor, and too large only if both operands are finite. -/
def Ends (operator : Operator) (a b : Decimal) : Except Decimal.Signal Decimal → Prop
  | .ok _ => ¬ operator.Invalid a b
  | .error .invalidOperation => operator.Invalid a b ∨ operator = .divide ∧ a.isZero ∧ b.isZero
  | .error .divisionByZero => operator = .divide ∧ a.isZero = false ∧ b.isZero
  | .error .overflow => ¬ operator.Invalid a b ∧ a.IsFinite ∧ b.IsFinite

/-- A signaling not-a-number is invalid wherever it stands; without one, a quiet one is a result. -/
theorem nanResult?_ends (operator : Operator) {a b : Decimal} {outcome : Except Decimal.Signal Decimal}
    (h : Decimal.nanResult? a b = some outcome) : operator.Ends a b outcome := by
  unfold Decimal.nanResult? at h
  split at h
  · cases h
    exact .inl (.signalingLeft ..)
  · cases h
    exact .inl (.signalingRight ..)
  · next hright =>
    cases h
    rintro ⟨⟩
    exact hright _ _ rfl
  · next hleft _ =>
    cases h
    rintro ⟨⟩
    exact hleft _ _ rfl
  · cases h

theorem ne_nan_of_nanResult?_eq_none {a b : Decimal} (h : Decimal.nanResult? a b = none) :
    (∀ negative signaling payload, a ≠ .nan negative signaling payload) ∧
      ∀ negative signaling payload, b ≠ .nan negative signaling payload := by
  unfold Decimal.nanResult? at h
  split at h
  case h_5 hsignaling hquiet hsignaling' hquiet' =>
    constructor
    · rintro negative (_ | _) payload rfl
      · exact hquiet negative payload rfl
      · exact hsignaling negative payload rfl
    · rintro negative (_ | _) payload rfl
      · exact hquiet' negative payload rfl
      · exact hsignaling' negative payload rfl
  all_goals cases h

theorem apply_eq_of_nanResult? (operator : Operator) {a b : Decimal}
    {outcome : Except Decimal.Signal Decimal} (h : Decimal.nanResult? a b = some outcome) :
    operator.apply a b = outcome := by
  cases operator <;>
    simp only [apply, Decimal.add, Decimal.subtract, Decimal.multiply, Decimal.divide, h]

/-- A finite decimal under a zero divisor: a zero is told apart from all others. -/
theorem divide_zero_ends {a b : Decimal} (ha : a.IsFinite) (hb : b.isZero = true) :
    divide.Ends a b (divide.apply a b) := by
  cases a <;> try cases ha
  cases b <;> try cases hb
  next negative coefficient exponent negative' coefficient' exponent' =>
  have hzero : coefficient' = 0 := beq_iff_eq.mp hb
  simp only [apply, Decimal.divide, Decimal.nanResult?, if_pos hzero]
  split
  · next hcoefficient => exact .inr ⟨rfl, beq_iff_eq.mpr hcoefficient, hb⟩
  · next hcoefficient => exact ⟨rfl, Decimal.isZero_finite_eq_false.mpr hcoefficient, hb⟩

/-- Finite operands overflow or have a result, unless the divisor is a zero. -/
theorem apply_finite_ends (operator : Operator) {a b : Decimal} (ha : a.IsFinite) (hb : b.IsFinite) :
    operator.Ends a b (operator.apply a b) := by
  by_cases hguard : operator = .divide ∧ b.isZero = true
  · obtain ⟨rfl, hzero⟩ := hguard
    exact divide_zero_ends ha hzero
  have hvalid : ¬ operator.Invalid a b := by
    rintro ⟨⟩
    all_goals first | exact ha | exact hb
  have hclosed := operator.apply_closed ha hb (isZero_of_guard hguard)
  cases hresult : operator.apply a b with
  | ok result => exact hvalid
  | error signal =>
    rw [hresult] at hclosed
    cases hclosed
    exact ⟨hvalid, ha, hb⟩

/-- An infinity on the left of a finite decimal. -/
theorem apply_infinity_finite_ends (operator : Operator) (negative negative' : Bool) (coefficient : Nat)
    (exponent : Int) :
    operator.Ends (.infinity negative) (.finite negative' coefficient exponent)
      (operator.apply (.infinity negative) (.finite negative' coefficient exponent)) := by
  cases operator with
  | add | subtract | divide => exact nofun
  | multiply =>
    simp only [apply, Decimal.multiply, Decimal.nanResult?]
    split
    · next hzero =>
      subst hzero
      exact .inl (.productZero ..)
    · next hne =>
      rintro ⟨⟩
      exact hne rfl

/-- An infinity on the right of a finite decimal. -/
theorem apply_finite_infinity_ends (operator : Operator) (negative negative' : Bool) (coefficient : Nat)
    (exponent : Int) :
    operator.Ends (.finite negative coefficient exponent) (.infinity negative')
      (operator.apply (.finite negative coefficient exponent) (.infinity negative')) := by
  cases operator with
  | add | subtract | divide => exact nofun
  | multiply =>
    simp only [apply, Decimal.multiply, Decimal.nanResult?]
    split
    · next hzero =>
      subst hzero
      exact .inl (.zeroProduct ..)
    · next hne =>
      rintro ⟨⟩
      exact hne rfl

theorem apply_infinities_ends (operator : Operator) (negative negative' : Bool) :
    operator.Ends (.infinity negative) (.infinity negative')
      (operator.apply (.infinity negative) (.infinity negative')) := by
  cases operator with
  | add =>
    cases negative <;> cases negative'
    · exact nofun
    · exact .inl (.sum false)
    · exact .inl (.sum true)
    · exact nofun
  | subtract =>
    cases negative <;> cases negative'
    · exact .inl (.difference false)
    · exact nofun
    · exact nofun
    · exact .inl (.difference true)
  | multiply => exact nofun
  | divide => exact .inl (.quotient ..)

/-- Every operation on decimals ends as its operands say. -/
theorem apply_ends (operator : Operator) (a b : Decimal) :
    operator.Ends a b (operator.apply a b) := by
  cases hnan : Decimal.nanResult? a b with
  | some outcome =>
    rw [operator.apply_eq_of_nanResult? hnan]
    exact operator.nanResult?_ends hnan
  | none =>
    obtain ⟨ha, hb⟩ := ne_nan_of_nanResult?_eq_none hnan
    cases a <;> cases b
    case finite.finite => exact operator.apply_finite_ends trivial trivial
    case finite.infinity => exact operator.apply_finite_infinity_ends ..
    case infinity.finite => exact operator.apply_infinity_finite_ends ..
    case infinity.infinity => exact operator.apply_infinities_ends ..
    all_goals first | exact absurd rfl (ha _ _ _) | exact absurd rfl (hb _ _ _)

end Operator

/-! ## Arithmetic on values -/

section Faults

variable {op : String} {position : Position} {a b : Node}

/-- The faults of arithmetic. Only operands that are not both numbers are refused for their types. No zero
divisor reaches the decimals, so that their own signal for it never comes back. -/
theorem combine_error {failure : Failure} (h : combine op position a b = .error failure) :
    failure = .operandTypes op a.kindName b.kindName position ∧
      (¬ ∃ x y, a = .number x ∧ b = .number y) ∨
    failure = .unknownOperator op position ∨ failure = .divisionByZero position ∨
    ∃ signal, signal ≠ .divisionByZero ∧ failure = .outOfRange op signal position := by
  unfold combine at h
  split at h
  · next x y =>
    unfold combineNumbers at h
    split at h
    · cases h
      exact .inr (.inl rfl)
    split at h
    · cases h
      exact .inr (.inr (.inl rfl))
    next operator _ hguard =>
    have hends := operator.apply_ends x y
    split at h
    · cases h
    · next signal hsignal =>
      cases h
      rw [hsignal] at hends
      refine .inr (.inr (.inr ⟨signal, ?_, rfl⟩))
      rintro rfl
      exact hguard ⟨hends.1, hends.2.2⟩
  · next hne =>
    cases h
    refine .inl ⟨rfl, ?_⟩
    rintro ⟨x, y, rfl, rfl⟩
    exact hne x y rfl rfl

theorem combine_operandTypes (h : ¬ ∃ x y, a = .number x ∧ b = .number y) :
    combine op position a b = .error (.operandTypes op a.kindName b.kindName position) := by
  unfold combine
  split
  · exact absurd ⟨_, _, rfl, rfl⟩ h
  · rfl

theorem combine_unknownOperator (h : op ∉ ["+", "-", "*", "/"]) (x y : Decimal) :
    combine op position (.number x) (.number y) = .error (.unknownOperator op position) := by
  simp only [combine, combineNumbers, Operator.ofText?_eq_none h]
  rfl

theorem combine_divisionByZero (x : Decimal) {y : Decimal} (h : y.isZero) :
    combine "/" position (.number x) (.number y) = .error (.divisionByZero position) := by
  have hop : Operator.ofText? "/" = some .divide := rfl
  simp only [combine, combineNumbers, hop, h, and_self, if_true]
  rfl

/-- A fault of arithmetic tells its position, and which of two signals there was. -/
theorem combine_diagnostic {failure : Failure} (h : combine op position a b = .error failure) :
    ∃ kind message, failure.diagnostic? = some ⟨kind, message, position⟩ ∧
      (kind = .type ∧ message ∈ ["unsupported " ++ op ++ " for " ++ a.kindName ++ " and " ++ b.kindName,
          "unknown operator " ++ op] ∨
        kind = .arithmetic ∧ message ∈ ["division by zero", op ++ " result out of range (Overflow)",
          op ++ " result out of range (InvalidOperation)"]) := by
  obtain ⟨rfl, -⟩ | rfl | rfl | ⟨signal, hsignal, rfl⟩ := combine_error h
  · exact ⟨_, _, rfl, .inl ⟨rfl, .head _⟩⟩
  · exact ⟨_, _, rfl, .inl ⟨rfl, .tail _ (.head _)⟩⟩
  · exact ⟨_, _, rfl, .inr ⟨rfl, .head _⟩⟩
  · refine ⟨_, _, rfl, .inr ⟨rfl, ?_⟩⟩
    cases signal with
    | overflow | invalidOperation => simp [Decimal.Signal.name, String.append_assoc]
    | divisionByZero => exact absurd rfl hsignal

end Faults

/-- Arithmetic refuses operands by their types exactly if they are not both numbers, then an operator that
there is not, then every zero divisor. Otherwise it is an invalid operation exactly if an operand is a
signaling not-a-number or the operation is one of those that have no result, it overflows only if both
operands are finite, and in all other cases it gives a number. Each fault has the position of the
operation, and no signal but these two is ever named: a zero divisor is refused before the decimals see
it. -/
theorem combine_fails_exactly (op : String) (position : Position) (a b : Node) :
    ((∃ left right, combine op position a b = .error (.operandTypes op left right position)) ↔
      ¬ ∃ x y, a = .number x ∧ b = .number y) ∧
    (∀ x y, a = .number x → b = .number y →
      (op ∉ ["+", "-", "*", "/"] → combine op position a b = .error (.unknownOperator op position)) ∧
      (op = "/" → y.isZero → combine op position a b = .error (.divisionByZero position)) ∧
      ∀ operator : Operator, op = operator.text → ¬ (op = "/" ∧ y.isZero) →
        (combine op position a b = .error (.outOfRange op .invalidOperation position) ↔
          operator.Invalid x y) ∧
        (combine op position a b = .error (.outOfRange op .overflow position) →
          x.IsFinite ∧ y.IsFinite) ∧
        (combine op position a b ≠ .error (.outOfRange op .invalidOperation position) →
          combine op position a b ≠ .error (.outOfRange op .overflow position) →
          ∃ z, combine op position a b = .ok (.number z))) ∧
    ∀ failure, combine op position a b = .error failure → ∃ kind message,
      failure.diagnostic? = some ⟨kind, message, position⟩ ∧
      (kind = .type ∧ message ∈ ["unsupported " ++ op ++ " for " ++ a.kindName ++ " and " ++ b.kindName,
          "unknown operator " ++ op] ∨
        kind = .arithmetic ∧ message ∈ ["division by zero", op ++ " result out of range (Overflow)",
          op ++ " result out of range (InvalidOperation)"]) := by
  refine ⟨⟨?_, ?_⟩, ?_, fun failure h => combine_diagnostic h⟩
  · rintro ⟨left, right, h⟩
    obtain ⟨-, hne⟩ | h | h | ⟨_, -, h⟩ := combine_error h
    · exact hne
    all_goals cases h
  · intro hne
    exact ⟨_, _, combine_operandTypes hne⟩
  · rintro x y rfl rfl
    refine ⟨fun hop => combine_unknownOperator hop x y, ?_, ?_⟩
    · rintro rfl hzero
      exact combine_divisionByZero x hzero
    · rintro operator rfl hzero
      rw [operator.text_eq_divide_iff] at hzero
      have hends := operator.apply_ends x y
      rw [combine_number operator.ofText?_text position x y (Operator.isZero_of_guard hzero)]
      match hresult : operator.apply x y with
      | .ok result =>
        rw [hresult] at hends
        exact ⟨iff_of_false nofun hends, nofun, fun _ _ => ⟨result, rfl⟩⟩
      | .error .invalidOperation =>
        rw [hresult] at hends
        have hinvalid : operator.Invalid x y := hends.resolve_right fun h => hzero ⟨h.1, h.2.2⟩
        exact ⟨iff_of_true rfl hinvalid, nofun, fun hne => absurd rfl hne⟩
      | .error .divisionByZero =>
        rw [hresult] at hends
        exact absurd ⟨hends.1, hends.2.2⟩ hzero
      | .error .overflow =>
        rw [hresult] at hends
        exact ⟨iff_of_false nofun hends.1, fun _ => hends.2, fun _ hne => absurd rfl hne⟩

/-- A zero divisor goes before a signaling not-a-number, and types go before the operator; equal infinities
cancel in a difference. -/
theorem combine_fails_exactly_at_specials :
    combine "/" .unknown (.number (.nan false true 7)) (.number (.finite true 0 5)) =
      .error (.divisionByZero .unknown) ∧
    (∃ left right, combine "^" .unknown (.number (.nan false true 7)) (.function [] []) =
      .error (.operandTypes "^" left right .unknown)) ∧
    combine "-" .unknown (.number (.infinity true)) (.number (.infinity true)) =
      .error (.outOfRange "-" .invalidOperation .unknown) := by
  refine ⟨?_, ?_, ?_⟩
  · exact ((combine_fails_exactly "/" _ _ _).2.1 _ _ rfl rfl).2.1 rfl rfl
  · exact (combine_fails_exactly "^" _ _ _).1.mpr nofun
  · exact (((combine_fails_exactly "-" _ _ _).2.1 _ _ rfl rfl).2.2 .subtract rfl (by decide)).1.mpr
      (.difference true)

end Douro
