import Douro.Proofs.Decimal.Accuracy
import Mathlib.Tactic.LinearCombination

/-!
# Arithmetic rounds once

Each operation hands an exact result to `round`, or a coefficient that stands for it: a quotient that
does not end has its last digit kept off zero and five, and an addend that is far too small is
replaced by one unit beyond the last digit that counts. So the result of every operation on finite
decimals is the exact result, rounded once. Each operation has an exponent that it would like its result
to have, and what it hands over is written as near to it as matters.

* `HandsOver`: what an operation hands to `round`.
* `quotient_standsFor`, `quotient_leans`: the digits of a quotient.
* `addOrdered_handsOver`: the sum of two decimals, however far apart their exponents are.
* `Operator.apply_handsOver`: the four operations.
* `combine_rounds_once`: what follows for values, with all bounds written out.
-/

namespace Douro

namespace Decimal

variable {negative negative' : Bool} {coefficient coefficient' : ℕ} {exponent exponent' : ℤ}

/-! ## What is rounded -/

/-- The exponent is ideal. Or it is less, and no zero can be taken off the coefficient to raise it. Or it
is greater, and the coefficient has more digits than are kept anyway. -/
def LeansTo (ideal : ℤ) (coefficient : ℕ) (exponent : ℤ) : Prop :=
  exponent = ideal ∨ exponent < ideal ∧ coefficient % 10 ≠ 0 ∨
    ideal ≤ exponent ∧ precision < digitCount coefficient

/-- The outcome is the exact value `r`, rounded once, from a coefficient that leans to an ideal exponent.
An exact zero has the sign `zero`. -/
def HandsOver (r : ℚ) (ideal : ℤ) (zero : Bool) (outcome : Except Signal Decimal) : Prop :=
  ∃ negative coefficient exponent x, outcome = round negative coefficient exponent ∧
    StandsFor coefficient x ∧ withSign negative (x * 10 ^ exponent) = r ∧
    LeansTo ideal coefficient exponent ∧ (coefficient = 0 → negative = zero)

theorem HandsOver.isRounded {r : ℚ} {ideal : ℤ} {zero : Bool} {outcome : Except Signal Decimal}
    (h : HandsOver r ideal zero outcome) : IsRounded r outcome := by
  obtain ⟨negative, coefficient, exponent, x, rfl, hx, rfl, -, -⟩ := h
  exact round_isRounded hx negative exponent

/-! ## Products -/

theorem cast_signed (negative : Bool) (coefficient : ℕ) :
    (signed negative coefficient : ℚ) = withSign negative coefficient := by
  cases negative <;> simp [signed, withSign]

theorem toRat_finite (negative : Bool) (coefficient : ℕ) (exponent : ℤ) :
    (finite negative coefficient exponent).toRat = withSign negative (coefficient * 10 ^ exponent) := by
  rw [toRat, cast_signed]
  cases negative <;> simp [withSign]

theorem withSign_mul (negative negative' : Bool) (r r' : ℚ) :
    withSign negative r * withSign negative' r' = withSign (negative != negative') (r * r') := by
  cases negative <;> cases negative' <;> simp [withSign]

theorem withSign_div (negative negative' : Bool) (r r' : ℚ) :
    withSign negative r / withSign negative' r' = withSign (negative != negative') (r / r') := by
  cases negative <;> cases negative' <;> simp [withSign, neg_div, div_neg]

theorem multiply_handsOver :
    HandsOver ((finite negative coefficient exponent).toRat * (finite negative' coefficient' exponent').toRat)
      (exponent + exponent') (negative != negative')
      (multiply (finite negative coefficient exponent) (finite negative' coefficient' exponent')) := by
  have hproduct : (coefficient : ℚ) * 10 ^ exponent * (coefficient' * 10 ^ exponent') =
      (coefficient * coefficient' : ℕ) * 10 ^ (exponent + exponent') := by
    rw [ten_zpow_add]
    push_cast
    ring
  rw [toRat_finite, toRat_finite, withSign_mul, hproduct]
  exact ⟨_, _, _, _, rfl, .inl rfl, rfl, .inl rfl, fun _ => rfl⟩

/-! ## Quotients -/

/-- Zeros that are taken off go into the exponent. -/
theorem stripZeros_value (count coefficient : ℕ) (exponent : ℤ) :
    ((stripZeros count coefficient exponent).1 : ℚ) * 10 ^ (stripZeros count coefficient exponent).2 =
      coefficient * 10 ^ exponent := by
  induction count generalizing coefficient exponent with
  | zero => rfl
  | succ count ih =>
    unfold stripZeros
    split
    · next hzero =>
      have hten : (coefficient : ℚ) = (coefficient / 10 : ℕ) * 10 := by
        exact_mod_cast (Nat.div_mul_cancel (Nat.dvd_of_mod_eq_zero hzero)).symm
      rw [ih, ten_zpow_add, zpow_one, hten]
      ring
    · rfl

/-- Zeros are taken off until the exponent is high enough or there are no more of them. -/
theorem stripZeros_leans (count coefficient : ℕ) (exponent : ℤ) :
    LeansTo (exponent + count) (stripZeros count coefficient exponent).1
      (stripZeros count coefficient exponent).2 := by
  induction count generalizing coefficient exponent with
  | zero => exact .inl (by simp [stripZeros])
  | succ count ih =>
    unfold stripZeros
    split
    · have h := ih (coefficient / 10) (exponent + 1)
      rwa [show exponent + 1 + (count : ℤ) = exponent + (count + 1 : ℕ) by push_cast; ring] at h
    · next hzero => exact .inr (.inl ⟨by push_cast; omega, hzero⟩)

/-- The whole part of a fraction, with its last digit kept off zero and five, stands for it. -/
theorem standsFor_of_not_dvd {dividend divisor : ℕ} (hpos : 0 < divisor)
    (hrest : dividend % divisor ≠ 0) (hmany : 10 ^ precision * divisor ≤ dividend) :
    StandsFor (if dividend / divisor % 5 = 0 then dividend / divisor + 1 else dividend / divisor)
      (dividend / divisor) := by
  have hmany : 10 ^ precision ≤ dividend / divisor := (Nat.le_div_iff_mul_le hpos).mpr hmany
  have hlt := Nat.mod_lt dividend hpos
  have hposq : (0 : ℚ) < divisor := Nat.cast_pos.mpr hpos
  have hvalue : (dividend : ℚ) / divisor =
      (dividend / divisor : ℕ) + ((dividend % divisor : ℕ) : ℚ) / divisor := by
    have : (dividend : ℚ) = divisor * (dividend / divisor : ℕ) + (dividend % divisor : ℕ) := by
      exact_mod_cast (Nat.div_add_mod dividend divisor).symm
    rw [this, add_div, mul_div_cancel_left₀ _ hposq.ne']
  have hgt : (0 : ℚ) < ((dividend % divisor : ℕ) : ℚ) / divisor :=
    div_pos (Nat.cast_pos.mpr (Nat.pos_of_ne_zero hrest)) hposq
  have hone : ((dividend % divisor : ℕ) : ℚ) / divisor < 1 :=
    (div_lt_one hposq).mpr (Nat.cast_lt.mpr hlt)
  rw [hvalue]
  generalize dividend / divisor = whole at *
  have hdown : ((5 * (whole / 5) : ℕ) : ℚ) ≤ whole := Nat.cast_le.mpr (by omega)
  have hup : ((whole + 1 : ℕ) : ℚ) ≤ (5 * (whole / 5 + 1) : ℕ) := Nat.cast_le.mpr (by omega)
  push_cast at hdown hup
  refine .inr ⟨?_, whole / 5, ?_, ?_, by linarith, by linarith⟩
  · split <;> exact lt_digitCount (by omega)
  · split <;> omega
  · split <;> omega

/-- The whole part of a quotient has more digits than are kept. -/
theorem quotient_many (hc : coefficient ≠ 0) (coefficient' : ℕ) {shift : ℤ}
    (hshift : (digitCount coefficient' : ℤ) - digitCount coefficient + precision + 1 = shift) :
    10 ^ precision * (coefficient' * powerOfTen (-shift).toNat) ≤
      coefficient * powerOfTen shift.toNat := by
  have hle := pow_digitCount_le hc
  have hlt := lt_pow_digitCount coefficient'
  have hcount := digitCount_pos coefficient
  calc 10 ^ precision * (coefficient' * powerOfTen (-shift).toNat)
      ≤ 10 ^ precision * (10 ^ digitCount coefficient' * 10 ^ (-shift).toNat) :=
        Nat.mul_le_mul_left _ (Nat.mul_le_mul_right _ hlt.le)
    _ = 10 ^ (digitCount coefficient - 1) * 10 ^ shift.toNat := by
        rw [← pow_add, ← pow_add, ← pow_add]
        congr 1
        omega
    _ ≤ coefficient * powerOfTen shift.toNat := Nat.mul_le_mul_right _ hle

/-- A quotient has one or two digits more than are kept, or it is exact. -/
theorem quotient_standsFor (hc : coefficient ≠ 0) (hc' : coefficient' ≠ 0) (exponent exponent' : ℤ) :
    ∃ x, StandsFor (quotient coefficient exponent coefficient' exponent').1 x ∧
      x * 10 ^ (quotient coefficient exponent coefficient' exponent').2 =
        (coefficient * 10 ^ exponent) / (coefficient' * 10 ^ exponent') := by
  unfold quotient
  simp only
  generalize hshift : (digitCount coefficient' : ℤ) - digitCount coefficient + precision + 1 = shift
  have hpos : 0 < coefficient' * powerOfTen (-shift).toNat :=
    Nat.mul_pos (Nat.pos_of_ne_zero hc') (Nat.pow_pos (by norm_num))
  have hvalue : ((coefficient * powerOfTen shift.toNat : ℕ) : ℚ) /
      (coefficient' * powerOfTen (-shift).toNat : ℕ) * 10 ^ (exponent - exponent' - shift) =
      (coefficient * 10 ^ exponent) / (coefficient' * 10 ^ exponent') := by
    have hsplit : (10 : ℚ) ^ exponent * 10 ^ (-shift).toNat =
        10 ^ shift.toNat * (10 ^ (exponent - exponent' - shift) * 10 ^ exponent') := by
      rw [← zpow_natCast, ← zpow_natCast, ← ten_zpow_add, ← ten_zpow_add, ← ten_zpow_add]
      congr 1
      omega
    have hcq : (coefficient' : ℚ) ≠ 0 := Nat.cast_ne_zero.mpr hc'
    have hpow : ∀ n, ((powerOfTen n : ℕ) : ℚ) = 10 ^ n := fun n => by
      show ((10 ^ n : ℕ) : ℚ) = 10 ^ n
      push_cast
      rfl
    push_cast
    rw [hpow, hpow, div_mul_eq_mul_div, div_eq_div_iff]
    · linear_combination (-(coefficient : ℚ) * coefficient') * hsplit
    · exact mul_ne_zero hcq (pow_ne_zero _ (by norm_num))
    · exact mul_ne_zero hcq (ten_zpow_ne_zero _)
  split
  · next hrest =>
    exact ⟨_, standsFor_of_not_dvd hpos hrest (quotient_many hc coefficient' hshift), hvalue⟩
  · next hrest =>
    refine ⟨_, .inl rfl, ?_⟩
    rw [stripZeros_value, ← hvalue]
    congr 1
    rw [eq_div_iff (Nat.cast_ne_zero.mpr hpos.ne')]
    exact_mod_cast Nat.div_mul_cancel (Nat.dvd_of_mod_eq_zero (not_not.mp hrest))

theorem quotient_leans (hc : coefficient ≠ 0) (hc' : coefficient' ≠ 0) (exponent exponent' : ℤ) :
    LeansTo (exponent - exponent') (quotient coefficient exponent coefficient' exponent').1
      (quotient coefficient exponent coefficient' exponent').2 := by
  unfold quotient
  simp only
  generalize hshift : (digitCount coefficient' : ℤ) - digitCount coefficient + precision + 1 = shift
  have hpos : 0 < coefficient' * powerOfTen (-shift).toNat :=
    Nat.mul_pos (Nat.pos_of_ne_zero hc') (Nat.pow_pos (by norm_num))
  have hmany := (Nat.le_div_iff_mul_le hpos).mpr (quotient_many hc coefficient' hshift)
  generalize coefficient * powerOfTen shift.toNat / (coefficient' * powerOfTen (-shift).toNat) = whole at *
  split
  · have hlast : precision < digitCount (if whole % 5 = 0 then whole + 1 else whole) ∧
        (if whole % 5 = 0 then whole + 1 else whole) % 10 ≠ 0 := by
      refine ⟨lt_digitCount ?_, ?_⟩ <;> split <;> omega
    by_cases hless : 0 < shift
    · exact .inr (.inl ⟨by omega, hlast.2⟩)
    · exact .inr (.inr ⟨by omega, hlast.1⟩)
  · by_cases hless : 0 ≤ shift
    · have h := stripZeros_leans shift.toNat whole (exponent - exponent' - shift)
      rwa [show exponent - exponent' - shift + (shift.toNat : ℤ) = exponent - exponent' by omega] at h
    · rw [show shift.toNat = 0 by omega]
      have hle : exponent - exponent' ≤ exponent - exponent' - shift := by omega
      exact .inr (.inr ⟨hle, lt_digitCount hmany⟩)

theorem divide_handsOver (hc' : coefficient' ≠ 0) :
    HandsOver ((finite negative coefficient exponent).toRat / (finite negative' coefficient' exponent').toRat)
      (exponent - exponent') (negative != negative')
      (divide (finite negative coefficient exponent) (finite negative' coefficient' exponent')) := by
  rw [toRat_finite, toRat_finite, withSign_div]
  simp only [divide, nanResult?, if_neg hc']
  split
  · next hc =>
    refine ⟨_, 0, _, 0, rfl, .inl (Nat.cast_zero), ?_, .inl rfl, fun _ => rfl⟩
    rw [hc, Nat.cast_zero, zero_mul, zero_mul, zero_div]
  · next hc =>
    obtain ⟨x, hx, hvalue⟩ := quotient_standsFor hc hc' exponent exponent'
    rw [← hvalue]
    exact ⟨_, _, _, x, rfl, hx, rfl, quotient_leans hc hc' exponent exponent', fun _ => rfl⟩

/-! ## Sums -/

/-- A signed coefficient stands for a signed number. -/
theorem round_signed_handsOver {sum : ℤ} {s : ℚ} (h : StandsFor sum.natAbs |s|)
    (hsign : sum < 0 ↔ s < 0) (zero : Bool) {ideal exponent : ℤ}
    (hlean : LeansTo ideal sum.natAbs exponent) :
    HandsOver (s * 10 ^ exponent) ideal zero
      (round (if sum = 0 then zero else sum < 0) sum.natAbs exponent) := by
  refine ⟨_, _, _, |s|, rfl, h, ?_, hlean, fun hzero => if_pos (Int.natAbs_eq_zero.mp hzero)⟩
  by_cases hz : sum = 0
  · have : |s| = 0 := by
      rw [h.eq_of_digitCount_le (by rw [hz]; decide), hz]
      norm_num
    rw [abs_eq_zero.mp this, abs_zero, zero_mul, withSign, neg_zero, ite_self]
  · rw [if_neg hz]
    unfold withSign
    by_cases hneg : sum < 0
    · rw [if_pos (decide_eq_true hneg), abs_of_neg (hsign.mp hneg), neg_mul, neg_neg]
    · rw [if_neg (by simpa using hneg), abs_of_nonneg (not_lt.mp (hsign.not.mp hneg))]

/-- A sum of one exponent is exact before it is rounded. -/
theorem addAligned_handsOver {ideal : ℤ}
    (hlean : LeansTo ideal (signed negative coefficient + signed negative' coefficient').natAbs exponent) :
    HandsOver (((signed negative coefficient + signed negative' coefficient' : ℤ) : ℚ) * 10 ^ exponent)
      ideal (negative && negative')
      (addAligned negative coefficient negative' coefficient' exponent) := by
  refine round_signed_handsOver (.inl ?_) (by rw [Int.cast_lt_zero]) _ hlean
  rw [Nat.cast_natAbs, Int.cast_abs]

theorem extend_eq (coefficient count : ℕ) : extend coefficient count = coefficient * 10 ^ count := by
  unfold extend
  split
  · next h => rw [h, zero_mul]
  · rfl

/-- A coefficient that is written down to a lower exponent. -/
theorem cast_signed_extend (negative : Bool) (coefficient : ℕ) (h : exponent' ≤ exponent) :
    (signed negative (extend coefficient (exponent - exponent').toNat) : ℚ) * 10 ^ exponent' =
      signed negative coefficient * 10 ^ exponent := by
  rw [cast_signed, cast_signed, extend_eq, ten_zpow_of_le h]
  cases negative <;> simp only [withSign, if_true, if_false, Bool.false_eq_true] <;> push_cast <;> ring

/-- At the guard, a coefficient has two digits more than are kept, and the last of them is a zero. -/
theorem extend_sumGuard (hc : coefficient ≠ 0) (exponent : ℤ) : ∃ tens,
    extend coefficient (exponent - sumGuard coefficient exponent).toNat = 10 * tens ∧
      10 ^ precision ≤ tens := by
  have hle := pow_digitCount_le hc
  have hpos := digitCount_pos coefficient
  unfold sumGuard
  rw [extend_eq]
  split
  · next hmany =>
    have hone : (exponent - (exponent - 1 + 0)).toNat = 1 := by omega
    refine ⟨coefficient, by rw [hone, pow_one, Nat.mul_comm], le_trans ?_ hle⟩
    exact Nat.pow_le_pow_right (by norm_num) (by omega)
  · next hfew =>
    have hcount : (exponent - (exponent - 1 + ((digitCount coefficient : ℤ) - precision - 1))).toNat =
        (precision + 1 - digitCount coefficient) + 1 := by omega
    refine ⟨coefficient * 10 ^ (precision + 1 - digitCount coefficient),
      by rw [hcount, pow_succ]; ring, ?_⟩
    calc 10 ^ precision
        = 10 ^ (digitCount coefficient - 1) * 10 ^ (precision + 1 - digitCount coefficient) := by
          rw [← pow_add]
          congr 1
          omega
      _ ≤ _ := Nat.mul_le_mul_right _ hle

/-- Beside a multiple of ten that has many digits, one unit leaves many digits. -/
theorem digits_unit {tens : ℕ} (htens : 10 ^ precision ≤ tens) (negative negative' : Bool) {unit : ℕ}
    (hunit : unit ≤ 1) :
    precision < digitCount (signed negative (10 * tens) + signed negative' unit).natAbs := by
  have hpos : 1 ≤ tens := le_trans (Nat.one_le_pow _ _ (by norm_num)) htens
  apply lt_digitCount
  cases negative <;> cases negative' <;>
    simp only [signed, if_true, if_false, Bool.false_eq_true] <;> omega

/-- A unit beyond a multiple of ten stands for anything between zero and that unit. -/
theorem round_unit_handsOver {tens : ℕ} (htens : 10 ^ precision ≤ tens) {y : ℚ} (h0 : 0 < y)
    (h1 : y < 1) (negative negative' zero : Bool) {ideal exponent : ℤ} (hideal : ideal ≤ exponent) :
    HandsOver ((signed negative (10 * tens) + withSign negative' y) * 10 ^ exponent) ideal zero
      (round (if signed negative (10 * tens) + signed negative' 1 = 0 then zero
        else signed negative (10 * tens) + signed negative' 1 < 0)
        (signed negative (10 * tens) + signed negative' 1).natAbs exponent) := by
  have hpos : 1 ≤ tens := le_trans (Nat.one_le_pow _ _ (by norm_num)) htens
  have hposq : (1 : ℚ) ≤ tens := by exact_mod_cast hpos
  -- Both the unit and `y` go away from zero, or both go towards it.
  have haway : StandsFor (10 * tens + 1) (10 * tens + y) :=
    .inr ⟨lt_digitCount (by omega), 2 * tens, by omega, by omega, by push_cast; linarith,
      by push_cast; linarith⟩
  have htowards : StandsFor (10 * tens - 1) (10 * tens - y) :=
    .inr ⟨lt_digitCount (by omega), 2 * tens - 1, by omega, by omega,
      by push_cast [Nat.cast_sub (by omega : 1 ≤ 2 * tens)]; linarith,
      by push_cast [Nat.cast_sub (by omega : 1 ≤ 2 * tens)]; linarith⟩
  refine round_signed_handsOver ?_ ?_ zero
    (.inr (.inr ⟨hideal, digits_unit htens negative negative' le_rfl⟩))
  · rw [cast_signed]
    cases negative <;> cases negative' <;>
      simp only [signed, withSign, if_true, if_false, Bool.false_eq_true] <;> push_cast
    · rw [abs_of_pos (by linarith), show ((10 * tens : ℤ) + 1).natAbs = 10 * tens + 1 by omega]
      exact haway
    · rw [abs_of_pos (by linarith), show ((10 * tens : ℤ) + -1).natAbs = 10 * tens - 1 by omega,
        ← sub_eq_add_neg]
      exact htowards
    · rw [abs_of_neg (by linarith), show (-(10 * tens : ℤ) + 1).natAbs = 10 * tens - 1 by omega,
        neg_add, neg_neg, ← sub_eq_add_neg]
      exact htowards
    · rw [abs_of_neg (by linarith), show (-(10 * tens : ℤ) + -1).natAbs = 10 * tens + 1 by omega,
        neg_add, neg_neg, neg_neg]
      exact haway
  · rw [cast_signed]
    cases negative <;> cases negative' <;>
      simp only [signed, withSign, if_true, if_false, Bool.false_eq_true] <;> push_cast
    · exact iff_of_false (by omega) (by linarith)
    · exact iff_of_false (by omega) (by linarith)
    · exact iff_of_true (by omega) (by linarith)
    · exact iff_of_true (by omega) (by linarith)

/-- A number whose leading digit stands under an exponent is less than that power of ten. -/
theorem mul_zpow_lt_of_adjusted_lt {guard : ℤ} (h : adjusted coefficient exponent < guard) :
    (coefficient : ℚ) * 10 ^ exponent < 10 ^ guard := by
  have hlt : (coefficient : ℚ) < ((10 ^ digitCount coefficient : ℕ) : ℚ) :=
    Nat.cast_lt.mpr (lt_pow_digitCount coefficient)
  calc (coefficient : ℚ) * 10 ^ exponent
      < ((10 ^ digitCount coefficient : ℕ) : ℚ) * 10 ^ exponent :=
        mul_lt_mul_of_pos_right hlt (ten_zpow_pos exponent)
    _ = 10 ^ ((digitCount coefficient : ℤ) + exponent) := by
        rw [ten_zpow_add, zpow_natCast]
        push_cast
        rfl
    _ ≤ 10 ^ guard := ten_zpow_le_iff.mpr (by unfold adjusted at h; omega)

theorem exponent_le_of_adjusted_lt {guard : ℤ} (h : adjusted coefficient exponent < guard) :
    exponent ≤ guard := by
  have hpos := digitCount_pos coefficient
  unfold adjusted at h
  omega

theorem sumGuard_le (coefficient : ℕ) (exponent : ℤ) : sumGuard coefficient exponent ≤ exponent := by
  unfold sumGuard
  split <;> omega

/-- An addend that is aligned exactly. -/
theorem addAligned_extend_handsOver {near : ℕ} {last ideal : ℤ} (hlast : last ≤ exponent)
    (hnear : (signed negative' near : ℚ) * 10 ^ last = signed negative' coefficient' * 10 ^ exponent')
    (hlean : LeansTo ideal (signed negative (extend coefficient (exponent - last).toNat) +
      signed negative' near).natAbs last) :
    HandsOver ((finite negative coefficient exponent).toRat + (finite negative' coefficient' exponent').toRat)
      ideal (negative && negative')
      (addAligned negative (extend coefficient (exponent - last).toNat) negative' near last) := by
  have hsum := addAligned_handsOver hlean
  rwa [Int.cast_add, add_mul, cast_signed_extend negative coefficient hlast, hnear] at hsum

/-- An addend that lies wholly under the guard is as good as one unit there. -/
theorem addAligned_unit_handsOver (hc : coefficient ≠ 0) (hc' : coefficient' ≠ 0)
    (hfar : adjusted coefficient' exponent' < sumGuard coefficient exponent) :
    HandsOver ((finite negative coefficient exponent).toRat + (finite negative' coefficient' exponent').toRat)
      exponent' (negative && negative')
      (addAligned negative (extend coefficient (exponent - sumGuard coefficient exponent).toNat)
        negative' 1 (sumGuard coefficient exponent)) := by
  obtain ⟨tens, htens, hmany⟩ := extend_sumGuard hc exponent
  have hguard := ten_zpow_pos (sumGuard coefficient exponent)
  have hy0 : 0 < (coefficient' : ℚ) * 10 ^ exponent' / 10 ^ sumGuard coefficient exponent :=
    div_pos (mul_pos (Nat.cast_pos.mpr (Nat.pos_of_ne_zero hc')) (ten_zpow_pos _)) hguard
  have hy1 : (coefficient' : ℚ) * 10 ^ exponent' / 10 ^ sumGuard coefficient exponent < 1 :=
    (div_lt_one hguard).mpr (mul_zpow_lt_of_adjusted_lt hfar)
  have hround := round_unit_handsOver hmany hy0 hy1 negative negative' (negative && negative')
    (exponent_le_of_adjusted_lt hfar)
  have hleft := cast_signed_extend negative coefficient (sumGuard_le coefficient exponent)
  have hright : withSign negative'
      (coefficient' * 10 ^ exponent' / 10 ^ sumGuard coefficient exponent) *
      10 ^ sumGuard coefficient exponent = (finite negative' coefficient' exponent').toRat := by
    rw [toRat_finite]
    cases negative' <;> simp only [withSign, if_true, if_false, Bool.false_eq_true] <;>
      field_simp [hguard.ne']
  rw [htens] at hleft ⊢
  rwa [add_mul, hleft, hright] at hround

theorem addOrdered_handsOver (h : exponent' ≤ exponent) :
    HandsOver ((finite negative coefficient exponent).toRat + (finite negative' coefficient' exponent').toRat)
      exponent' (negative && negative')
      (addOrdered negative coefficient exponent negative' coefficient' exponent') := by
  unfold addOrdered nearAddend
  by_cases hfar : coefficient ≠ 0 ∧ adjusted coefficient' exponent' < sumGuard coefficient exponent
  case neg =>
    rw [if_neg hfar]
    exact addAligned_extend_handsOver h rfl (.inl rfl)
  rw [if_pos hfar]
  by_cases hzero : coefficient' = 0
  · subst hzero
    obtain ⟨tens, htens, hmany⟩ := extend_sumGuard hfar.1 exponent
    refine addAligned_extend_handsOver (sumGuard_le coefficient exponent)
      (by cases negative' <;> simp [signed]) ?_
    rw [htens]
    exact .inr (.inr ⟨exponent_le_of_adjusted_lt hfar.2,
      digits_unit hmany negative negative' (Nat.min_le_right 0 1)⟩)
  · rw [Nat.min_eq_right (Nat.one_le_iff_ne_zero.mpr hzero)]
    exact addAligned_unit_handsOver hfar.1 hzero hfar.2

theorem add_handsOver :
    HandsOver ((finite negative coefficient exponent).toRat + (finite negative' coefficient' exponent').toRat)
      (min exponent exponent') (negative && negative')
      (add (finite negative coefficient exponent) (finite negative' coefficient' exponent')) := by
  simp only [add, nanResult?]
  split
  · next heq =>
    subst heq
    have hsum : HandsOver
        (((signed negative coefficient + signed negative' coefficient' : ℤ) : ℚ) * 10 ^ exponent)
        (min exponent exponent) (negative && negative')
        (addAligned negative coefficient negative' coefficient' exponent) :=
      addAligned_handsOver (.inl (min_self exponent).symm)
    rwa [Int.cast_add, add_mul] at hsum
  split
  · next hlt =>
    rw [min_eq_right hlt.le]
    exact addOrdered_handsOver hlt.le
  · next hne hge =>
    rw [add_comm, Bool.and_comm, min_eq_left (not_lt.mp hge)]
    exact addOrdered_handsOver (not_lt.mp hge)

theorem subtract_handsOver :
    HandsOver ((finite negative coefficient exponent).toRat - (finite negative' coefficient' exponent').toRat)
      (min exponent exponent') (negative && !negative')
      (subtract (finite negative coefficient exponent) (finite negative' coefficient' exponent')) := by
  have hneg : -(finite negative' coefficient' exponent').toRat =
      (finite (!negative') coefficient' exponent').toRat := by
    rw [toRat_finite, toRat_finite]
    cases negative' <;> simp [withSign]
  rw [sub_eq_add_neg, hneg]
  exact add_handsOver

end Decimal

/-! ## The four operations -/

/-- The exact result of an operation. -/
def Operator.exact : Operator → ℚ → ℚ → ℚ
  | add, r, r' => r + r'
  | subtract, r, r' => r - r'
  | multiply, r, r' => r * r'
  | divide, r, r' => r / r'

/-- The exponent that the result of an operation would like to have. -/
def Operator.ideal : Operator → ℤ → ℤ → ℤ
  | add, e, e' | subtract, e, e' => min e e'
  | multiply, e, e' => e + e'
  | divide, e, e' => e - e'

/-- The sign of an exact zero. A sum is negative if both addends are, and a difference is the sum with
the second operand negated. -/
def Operator.zeroSign : Operator → Bool → Bool → Bool
  | add, negative, negative' => negative && negative'
  | subtract, negative, negative' => negative && !negative'
  | multiply, negative, negative' | divide, negative, negative' => negative != negative'

open Decimal

/-- Every operator hands its exact result to `round`. -/
theorem Operator.apply_handsOver (operator : Operator) (negative negative' : Bool)
    (coefficient : ℕ) {coefficient' : ℕ} (exponent exponent' : ℤ)
    (hzero : operator = .divide → coefficient' ≠ 0) :
    HandsOver (operator.exact (finite negative coefficient exponent).toRat
        (finite negative' coefficient' exponent').toRat)
      (operator.ideal exponent exponent') (operator.zeroSign negative negative')
      (operator.apply (finite negative coefficient exponent) (finite negative' coefficient' exponent')) := by
  cases operator with
  | add => exact add_handsOver
  | subtract => exact subtract_handsOver
  | multiply => exact multiply_handsOver
  | divide => exact divide_handsOver (hzero rfl)

/-- Every operator gives its exact result, rounded once. -/
theorem Operator.apply_isRounded (operator : Operator) {a b : Decimal} (ha : a.IsFinite)
    (hb : b.IsFinite) (hzero : operator = .divide → b.isZero = false) :
    IsRounded (operator.exact a.toRat b.toRat) (operator.apply a b) := by
  cases a <;> try cases ha
  cases b <;> try cases hb
  exact (operator.apply_handsOver _ _ _ _ _ fun hop => isZero_finite_eq_false.mp (hzero hop)).isRounded

/-- Arithmetic on finite decimals overflows exactly if the exact result, rounded to 28 digits, is at
least `10 ^ 1000000`. Otherwise the result has at most 28 digits and no exponent under -1000026, and
its value is the exact result, rounded once: to 28 digits, or to a multiple of `10 ^ -1000026` if it is
less than `10 ^ -999999`. It has the sign of the exact result, also as a zero. -/
theorem combine_rounds_once {op : String} {operator : Operator}
    (hop : Operator.ofText? op = some operator) (position : Position) {a b : Decimal}
    (ha : a.IsFinite) (hb : b.IsFinite) (hzero : operator = .divide → b.isZero = false) {r : ℚ}
    (hr : r = operator.exact a.toRat b.toRat) :
    (combine op position (.number a) (.number b) = .error (.outOfRange op .overflow position) ↔
      10 ^ (1000000 : ℤ) ≤ |roundDigits 28 r|) ∧
    (|roundDigits 28 r| < 10 ^ (1000000 : ℤ) → ∃ negative coefficient exponent,
      combine op position (.number a) (.number b) =
        .ok (.number (.finite negative coefficient exponent)) ∧
      digitCount coefficient ≤ 28 ∧ -1000026 ≤ exponent ∧
      (Decimal.finite negative coefficient exponent).toRat =
        (if 0 < |r| ∧ |r| < 10 ^ (-999999 : ℤ) then roundAt (-1000026) r else roundDigits 28 r) ∧
      (r ≠ 0 → (negative = true ↔ r < 0))) := by
  have h := operator.apply_isRounded ha hb hzero
  have hmax : maxAdjusted + 1 = 1000000 := rfl
  have hmin : minExponent = -1000026 := rfl
  have hadjusted : minAdjusted = -999999 := rfl
  have hdigits : precision = 28 := rfl
  rw [combine_number hop position a b hzero]
  rw [← hr] at h
  cases hresult : operator.apply a b with
  | error signal =>
    rw [hresult, IsRounded, hmax, hdigits] at h
    obtain ⟨rfl, hover⟩ := h
    exact ⟨iff_of_true rfl hover, fun hlt => absurd hover (not_le.mpr hlt)⟩
  | ok result =>
    cases result with
    | finite negative coefficient exponent =>
      rw [hresult, IsRounded, kept, hmax, hmin, hadjusted, hdigits] at h
      obtain ⟨hlt, hcount, hexp, hvalue, hsign⟩ := h
      exact ⟨iff_of_false nofun (not_le.mpr hlt),
        fun _ => ⟨negative, coefficient, exponent, rfl, hcount, hexp, hvalue, hsign⟩⟩
    | infinity negative => rw [hresult] at h; exact h.elim
    | nan negative signaling payload => rw [hresult] at h; exact h.elim

/-- A product that overflows, and a quotient that does not end. -/
theorem combine_rounds_once_at_limits :
    10 ^ (1000000 : ℤ) ≤
      |roundDigits 28 ((Decimal.finite false 9 999999).toRat * (Decimal.finite true 2 0).toRat)| ∧
    ∃ negative coefficient exponent,
      combine "/" .unknown (.number (.finite false 2 0)) (.number (.finite true 3 0)) =
        .ok (.number (.finite negative coefficient exponent)) ∧
      digitCount coefficient ≤ 28 ∧ -1000026 ≤ exponent := by
  have htimes : Operator.ofText? "*" = some .multiply := rfl
  have hover : Operator.ofText? "/" = some .divide := rfl
  have hproduct := combine_rounds_once htimes .unknown
    (a := .finite false 9 999999) (b := .finite true 2 0) trivial trivial nofun rfl
  have hquotient := combine_rounds_once hover .unknown
    (a := .finite false 2 0) (b := .finite true 3 0) trivial trivial (fun _ => rfl) rfl
  refine ⟨hproduct.1.mp rfl, ?_⟩
  obtain ⟨negative, coefficient, exponent, heq, hcount, hexp, -⟩ :=
    hquotient.2 (lt_of_not_ge fun hge => by
      have := hquotient.1.mpr hge
      cases this)
  exact ⟨negative, coefficient, exponent, heq, hcount, hexp⟩

end Douro
