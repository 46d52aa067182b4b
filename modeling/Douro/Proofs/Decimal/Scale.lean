import Douro.Proofs.Decimal.Operations

/-!
# The scale of results

A number can have several exponents: `1.50` is also `1.5`. Each operation has an ideal exponent. If the
exact result can be written in the working format at all, it is written with the exponent nearest to the
ideal one. If it cannot, all 28 digits are used, or the digits go down to the least exponent that there
is.

* `WritableAt`: the exponents that a number can be written with.
* `WritableAt.of_standsFor`: such an exponent is not under the last digit that is kept.
* `round_hasScale`: the exponent that `round` chooses.
* `combine_keeps_scale`: the exponent and the sign of a zero that arithmetic gives.
-/

namespace Douro

namespace Decimal

/-- The coefficient and the exponent are of the working format. -/
def InFormat (coefficient : ℕ) (exponent : ℤ) : Prop :=
  digitCount coefficient ≤ 28 ∧ -1000026 ≤ exponent ∧ exponent ≤ 999999

/-- The number can be written in the working format with the given exponent. -/
def WritableAt (r : ℚ) (exponent : ℤ) : Prop :=
  ∃ negative coefficient, InFormat coefficient exponent ∧ (finite negative coefficient exponent).toRat = r

/-- The decimal is `r` with the exponent nearest to the ideal one, if `r` can be written. Otherwise it uses
all digits. -/
structure HasScale (r : ℚ) (ideal : ℤ) (negative : Bool) (coefficient : ℕ) (exponent : ℤ) : Prop where
  exact : ∀ e, WritableAt r e → (finite negative coefficient exponent).toRat = r ∧
    InFormat coefficient exponent ∧ (e ≠ exponent → (exponent - ideal).natAbs < (e - ideal).natAbs)
  inexact : (∀ e, ¬ WritableAt r e) → digitCount coefficient = precision ∨ exponent = minExponent

/-! ## Numbers that can be written -/

theorem abs_withSign (negative : Bool) (r : ℚ) : |withSign negative r| = |r| := by
  cases negative
  · rfl
  · exact abs_neg r

theorem WritableAt.exists_coefficient {negative : Bool} {y : ℚ} {e : ℤ}
    (h : WritableAt (withSign negative y) e) (hy : 0 ≤ y) :
    ∃ c : ℕ, digitCount c ≤ precision ∧ minExponent ≤ e ∧ c * 10 ^ e = y := by
  obtain ⟨negative', c, ⟨hdigits, hmin, -⟩, hvalue⟩ := h
  refine ⟨c, hdigits, hmin, ?_⟩
  have habs := congrArg abs hvalue
  rwa [toRat_finite, abs_withSign, abs_withSign, abs_of_nonneg hy,
    abs_of_nonneg (mul_nonneg (Nat.cast_nonneg c) (ten_zpow_pos e).le)] at habs

section Written

variable {negative : Bool} {coefficient : ℕ} {x : ℚ} {exponent e : ℤ}

/-- If the number that a coefficient stands for can be written, the coefficient is exact. The last digit is
then not under the last one that is kept, and what stands under it are zeros. -/
theorem WritableAt.of_standsFor (hw : WritableAt (withSign negative (x * 10 ^ exponent)) e)
    (h : StandsFor coefficient x) (hc : coefficient ≠ 0) :
    x = coefficient ∧ lastKept coefficient exponent ≤ e ∧
      (exponent ≤ e → 10 ^ (e - exponent).toNat ∣ coefficient) := by
  have hpos := mul_pos (h.pos hc) (ten_zpow_pos exponent)
  obtain ⟨c, hdigits, hmin, hvalue⟩ := hw.exists_coefficient hpos.le
  have hc0 : c ≠ 0 := by
    rintro rfl
    rw [← hvalue, Nat.cast_zero, zero_mul] at hpos
    exact lt_irrefl _ hpos
  have hexact : StandsFor c c := .inl rfl
  have hleading : adjusted c e = adjusted coefficient exponent := by
    rw [← h.log_eq hc exponent, ← hexact.log_eq hc0 e, hvalue]
  unfold adjusted at hleading
  have hx : exponent ≤ e → x = (c * 10 ^ (e - exponent).toNat : ℕ) := by
    intro hle
    rw [ten_zpow_of_le hle, ← mul_assoc] at hvalue
    rw [← mul_right_cancel₀ (ten_zpow_ne_zero exponent) hvalue]
    push_cast
    rfl
  have hcoefficient : x = coefficient := by
    rcases h with heq | ⟨hmany, k, -, -, hl, hr⟩
    · exact heq.symm
    -- A coefficient of too many digits stands for no multiple of ten.
    obtain ⟨m, hm⟩ : ∃ m, (e - exponent).toNat = m + 1 := ⟨(e - exponent).toNat - 1, by omega⟩
    have hten : x = ((5 * (2 * c * 10 ^ m) : ℕ) : ℚ) := by
      rw [hx (by omega), hm, pow_succ]
      push_cast
      ring
    rw [hten] at hl hr
    have hl : 5 * k < 5 * (2 * c * 10 ^ m) := by exact_mod_cast hl
    have hr : 5 * (2 * c * 10 ^ m) < 5 * (k + 1) := by exact_mod_cast hr
    omega
  refine ⟨hcoefficient, max_le (by omega) hmin, fun hle => ⟨c, ?_⟩⟩
  rw [mul_comm]
  exact_mod_cast hcoefficient.symm.trans (hx hle)

/-! ## Digits that are dropped -/

theorem dropDigits_mul (c count : ℕ) : dropDigits (c * 10 ^ count) count = c := by
  have hpos : 0 < 10 ^ count := Nat.pow_pos (by norm_num)
  rw [dropDigits_eq_roundDiv, roundDiv]
  simp only [Nat.mul_mod_left, Nat.mul_div_cancel c hpos]
  exact if_pos (.inl (by omega))

/-- Zeros that are dropped leave few digits and no carry. -/
theorem exists_of_dropped_zeros (h : exponent < lastKept coefficient exponent)
    (hzeros : 10 ^ (lastKept coefficient exponent - exponent).toNat ∣ coefficient) :
    ∃ c, dropDigits coefficient (lastKept coefficient exponent - exponent).toNat = c ∧
      digitCount c ≤ precision ∧
      (c : ℚ) * 10 ^ lastKept coefficient exponent = coefficient * 10 ^ exponent := by
  have hfirst : exponent + digitCount coefficient - precision ≤ lastKept coefficient exponent :=
    le_max_left _ _
  have hlt := lt_pow_digitCount coefficient
  generalize lastKept coefficient exponent = last at *
  obtain ⟨c, hc⟩ := hzeros
  rw [mul_comm] at hc
  refine ⟨c, by rw [hc, dropDigits_mul], ?_, ?_⟩
  · rw [digitCount_le_iff c (by decide)]
    have hpow : 10 ^ digitCount coefficient ≤ 10 ^ precision * 10 ^ (last - exponent).toNat := by
      rw [← pow_add]
      exact Nat.pow_le_pow_right (by norm_num) (by omega)
    exact Nat.lt_of_mul_lt_mul_right (hc ▸ lt_of_lt_of_le hlt hpow)
  · rw [ten_zpow_of_le h.le, ← mul_assoc]
    exact_mod_cast congrArg (fun n : ℕ => (n : ℚ) * 10 ^ exponent) hc.symm

/-- Digits are dropped until 28 are left, unless the least exponent is reached before. -/
theorem dropDigits_bounds (hc : coefficient ≠ 0) (h : exponent < lastKept coefficient exponent) :
    dropDigits coefficient (lastKept coefficient exponent - exponent).toNat ≤ 10 ^ precision ∧
      (lastKept coefficient exponent = minExponent ∨
        10 ^ (precision - 1) ≤ dropDigits coefficient (lastKept coefficient exponent - exponent).toNat) := by
  have hpos := digitCount_pos coefficient
  have hfirst : exponent + digitCount coefficient - precision ≤ lastKept coefficient exponent :=
    le_max_left _ _
  have hlast : lastKept coefficient exponent = exponent + digitCount coefficient - precision ∨
      lastKept coefficient exponent = minExponent := max_choice _ _
  generalize lastKept coefficient exponent = last at *
  obtain ⟨count, hcount⟩ : ∃ count, (last - exponent).toNat = count := ⟨_, rfl⟩
  rw [hcount, dropDigits_eq_roundDiv]
  have hpow : 0 < 10 ^ count := Nat.pow_pos (by norm_num)
  have hround : coefficient / 10 ^ count ≤ roundDiv coefficient (10 ^ count) ∧
      roundDiv coefficient (10 ^ count) ≤ coefficient / 10 ^ count + 1 := by
    unfold roundDiv
    simp only
    split <;> omega
  have hlt : coefficient / 10 ^ count < 10 ^ precision := by
    rw [Nat.div_lt_iff_lt_mul hpow, ← pow_add]
    exact lt_of_lt_of_le (lt_pow_digitCount coefficient)
      (Nat.pow_le_pow_right (by norm_num) (by omega))
  refine ⟨by omega, hlast.symm.imp_right fun hlast => le_trans ?_ hround.1⟩
  rw [Nat.le_div_iff_mul_le hpow, ← pow_add]
  refine le_trans (Nat.pow_le_pow_right (by norm_num) ?_) (pow_digitCount_le hc)
  unfold precision at *
  omega

theorem digitCount_eq_precision (hl : 10 ^ (precision - 1) ≤ coefficient)
    (hr : coefficient < 10 ^ precision) : digitCount coefficient = precision := by
  have hlow := lt_digitCount hl
  have hhigh := (digitCount_le_iff coefficient (by decide : 0 < precision)).mpr hr
  unfold precision at *
  omega

/-! ## Rounding -/

/-- What `round` can give: the number as it is, the number without its last digits, or the latter with a
carry. -/
theorem round_eq_ok (hc : coefficient ≠ 0) {result : Decimal}
    (h : round negative coefficient exponent = .ok result) :
    ∃ c e, result = finite negative c e ∧ adjusted c e ≤ maxAdjusted ∧
      (lastKept coefficient exponent ≤ exponent ∧ c = coefficient ∧ e = exponent ∨
        exponent < lastKept coefficient exponent ∧ digitCount c ≤ precision ∧
          c = dropDigits coefficient (lastKept coefficient exponent - exponent).toNat ∧
          e = lastKept coefficient exponent ∨
        exponent < lastKept coefficient exponent ∧
          precision < digitCount (dropDigits coefficient (lastKept coefficient exponent - exponent).toNat) ∧
          c = dropDigits coefficient (lastKept coefficient exponent - exponent).toNat / 10) := by
  have hchecked : ∀ {c : ℕ} {e : ℤ}, checkOverflow negative c e = .ok result →
      result = finite negative c e ∧ adjusted c e ≤ maxAdjusted := by
    intro c e hcheck
    unfold checkOverflow at hcheck
    split at hcheck
    · cases hcheck
    · next hfits =>
      cases hcheck
      exact ⟨rfl, by omega⟩
  unfold round at h
  rw [if_neg hc] at h
  simp only at h
  split at h
  · next hle =>
    obtain ⟨hresult, hmax⟩ := hchecked h
    exact ⟨_, _, hresult, hmax, .inl ⟨hle, rfl, rfl⟩⟩
  · next hlt =>
    split at h
    · next hmany =>
      obtain ⟨hresult, hmax⟩ := hchecked h
      exact ⟨_, _, hresult, hmax, .inr (.inr ⟨by omega, hmany, rfl⟩)⟩
    · next hfew =>
      obtain ⟨hresult, hmax⟩ := hchecked h
      exact ⟨_, _, hresult, hmax, .inr (.inl ⟨by omega, by omega, rfl, rfl⟩)⟩

theorem inFormat_of_adjusted_le (hdigits : digitCount coefficient ≤ precision)
    (hmin : minExponent ≤ exponent) (hmax : adjusted coefficient exponent ≤ maxAdjusted) :
    InFormat coefficient exponent := by
  have hpos := digitCount_pos coefficient
  refine ⟨hdigits, hmin, ?_⟩
  unfold adjusted maxAdjusted at hmax
  omega

/-- A result that is written as it is. -/
theorem hasScale_of_kept (h : StandsFor coefficient x) (hc : coefficient ≠ 0) {ideal : ℤ}
    (hlean : LeansTo ideal coefficient exponent) (hkept : lastKept coefficient exponent ≤ exponent)
    (hmax : adjusted coefficient exponent ≤ maxAdjusted) :
    HasScale (withSign negative (x * 10 ^ exponent)) ideal negative coefficient exponent := by
  have hmin : minExponent ≤ lastKept coefficient exponent := le_max_right _ _
  have hfew : digitCount coefficient ≤ precision := by
    have hfirst : exponent + digitCount coefficient - precision ≤ lastKept coefficient exponent :=
      le_max_left _ _
    omega
  obtain rfl := h.eq_of_digitCount_le hfew
  have hvalue : (finite negative coefficient exponent).toRat =
      withSign negative (coefficient * 10 ^ exponent) := toRat_finite _ _ _
  have hformat := inFormat_of_adjusted_le hfew (le_trans hmin hkept) hmax
  refine ⟨fun e hw => ⟨hvalue, hformat, fun hne => ?_⟩,
    fun hnone => absurd ⟨negative, coefficient, hformat, hvalue⟩ (hnone exponent)⟩
  obtain ⟨-, -, hzeros⟩ := hw.of_standsFor h hc
  rcases hlean with rfl | ⟨hless, hlast⟩ | ⟨-, hmany⟩
  · omega
  · -- Without zeros at the end the exponent cannot be raised.
    have hle : e ≤ exponent := by
      by_contra hgt
      have hten : 10 ∣ coefficient :=
        (dvd_pow_self 10 (by omega : (e - exponent).toNat ≠ 0)).trans (hzeros (by omega))
      omega
    omega
  · omega

/-- A result whose last digits are dropped. -/
theorem hasScale_of_dropped (h : StandsFor coefficient x) (hc : coefficient ≠ 0) {ideal : ℤ}
    (hlean : LeansTo ideal coefficient exponent) (hdropped : exponent < lastKept coefficient exponent)
    {c : ℕ} {e : ℤ} (hmax : adjusted c e ≤ maxAdjusted)
    (hresult : digitCount c ≤ precision ∧
        c = dropDigits coefficient (lastKept coefficient exponent - exponent).toNat ∧
        e = lastKept coefficient exponent ∨
      precision < digitCount (dropDigits coefficient (lastKept coefficient exponent - exponent).toNat) ∧
        c = dropDigits coefficient (lastKept coefficient exponent - exponent).toNat / 10) :
    HasScale (withSign negative (x * 10 ^ exponent)) ideal negative c e := by
  have hmin : minExponent ≤ lastKept coefficient exponent := le_max_right _ _
  have hbounds := dropDigits_bounds hc hdropped
  constructor
  · intro e' hw
    obtain ⟨rfl, hle, hzeros⟩ := hw.of_standsFor h hc
    have hdvd : 10 ^ (lastKept coefficient exponent - exponent).toNat ∣ coefficient :=
      (pow_dvd_pow 10 (by omega)).trans (hzeros (by omega))
    have hideal : ideal ≤ exponent := by
      have hten : 10 ∣ coefficient := (dvd_pow_self 10 (by omega)).trans hdvd
      unfold LeansTo at hlean
      omega
    obtain ⟨c', hc', hfew, hvalue⟩ := exists_of_dropped_zeros hdropped hdvd
    rw [hc'] at hresult
    obtain ⟨-, rfl, rfl⟩ := hresult.resolve_right fun hmany => by omega
    rw [← hvalue]
    exact ⟨toRat_finite _ _ _, inFormat_of_adjusted_le hfew hmin hmax, fun hne => by omega⟩
  · intro _
    generalize dropDigits coefficient (lastKept coefficient exponent - exponent).toNat = dropped at *
    rcases hresult with ⟨hfew, rfl, rfl⟩ | ⟨hmany, rfl⟩
    · refine hbounds.2.symm.imp_left fun hlow => digitCount_eq_precision hlow ?_
      exact (digitCount_le_iff _ (by decide)).mp hfew
    · have hcarry : dropped = 10 ^ precision := by
        have := (digitCount_le_iff dropped (by decide : 0 < precision)).not.mp (by omega)
        omega
      subst hcarry
      left
      rfl

/-- A zero can be written with every exponent of the format, and takes the nearest one. -/
theorem hasScale_zero (negative : Bool) (ideal : ℤ) :
    HasScale 0 ideal negative 0 (min (max ideal minExponent) maxAdjusted) := by
  have hlimits : minExponent = -1000026 ∧ maxAdjusted = 999999 := by decide
  have hvalue : ∀ e, (finite negative 0 e).toRat = 0 := by
    intro e
    cases negative <;> simp [toRat, signed]
  rw [hlimits.1, hlimits.2]
  refine ⟨fun e hw => ⟨hvalue _, ⟨by decide, by omega, by omega⟩, fun hne => ?_⟩, fun hnone => ?_⟩
  · obtain ⟨-, -, ⟨-, hmin, hmax⟩, -⟩ := hw
    omega
  · exact absurd ⟨negative, 0, by unfold InFormat; decide, hvalue 0⟩ (hnone 0)

/-- What `round` gives has the exponent nearest to the ideal one that the coefficient leans to. -/
theorem round_hasScale (h : StandsFor coefficient x) {ideal : ℤ}
    (hlean : LeansTo ideal coefficient exponent) {result : Decimal}
    (hr : round negative coefficient exponent = .ok result) :
    ∃ c e, result = finite negative c e ∧
      HasScale (withSign negative (x * 10 ^ exponent)) ideal negative c e := by
  by_cases hc : coefficient = 0
  · subst hc
    obtain rfl : exponent = ideal := by
      have hone : digitCount 0 = 1 := by decide
      unfold LeansTo precision at hlean
      omega
    have hx : x = 0 := by rw [h.eq_of_digitCount_le (by decide), Nat.cast_zero]
    cases hr
    rw [hx, zero_mul, withSign, neg_zero, ite_self]
    exact ⟨_, _, rfl, hasScale_zero negative exponent⟩
  · obtain ⟨c, e, rfl, hmax, ⟨hkept, rfl, rfl⟩ | hdropped⟩ := round_eq_ok hc hr
    · exact ⟨c, e, rfl, hasScale_of_kept h hc hlean hkept hmax⟩
    · refine ⟨c, e, rfl, hasScale_of_dropped h hc hlean ?_ hmax ?_⟩
      · exact hdropped.elim And.left And.left
      · exact hdropped.imp And.right And.right

end Written

/-- What an operation hands over gets the exponent nearest to its ideal one, and a zero its sign. -/
theorem HandsOver.hasScale {r : ℚ} {ideal : ℤ} {zero : Bool} {outcome : Except Signal Decimal}
    (h : HandsOver r ideal zero outcome) {result : Decimal} (hr : outcome = .ok result) :
    ∃ negative coefficient exponent, result = finite negative coefficient exponent ∧
      HasScale r ideal negative coefficient exponent ∧ (r = 0 → negative = zero) := by
  obtain ⟨negative, coefficient, exponent, x, rfl, hx, rfl, hlean, hzero⟩ := h
  obtain ⟨c, e, rfl, hscale⟩ := round_hasScale hx hlean hr
  refine ⟨negative, c, e, rfl, hscale, fun hr0 => hzero ?_⟩
  by_contra hc
  have hpos := mul_pos (hx.pos hc) (ten_zpow_pos exponent)
  have habs := abs_withSign negative (x * 10 ^ exponent)
  rw [hr0, abs_zero, abs_of_pos hpos] at habs
  exact hpos.ne habs

end Decimal

/-! ## Arithmetic on values -/

open Decimal

/-- If arithmetic on finite decimals has a result and the exact result can be written with at most 28
digits and an exponent from -1000026 up to 999999, then the result is exact, and its exponent is the nearest
to the ideal one of all that it can be written with. If not, the result has 28 digits or the exponent
-1000026. An exact zero has the sign that the signs of the operands give. -/
theorem combine_keeps_scale {op : String} {operator : Operator}
    (hop : Operator.ofText? op = some operator) (position : Position)
    {negative negative' : Bool} {coefficient coefficient' : ℕ} {exponent exponent' : ℤ}
    (hzero : operator = .divide → coefficient' ≠ 0) {value : Node}
    (hvalue : combine op position (.number (.finite negative coefficient exponent))
      (.number (.finite negative' coefficient' exponent')) = .ok value) {r : ℚ}
    (hr : r = operator.exact (Decimal.finite negative coefficient exponent).toRat
      (Decimal.finite negative' coefficient' exponent').toRat) {ideal : ℤ}
    (hideal : ideal = operator.ideal exponent exponent') :
    ∃ sign digits scale, value = .number (.finite sign digits scale) ∧
      (∀ e, WritableAt r e → (Decimal.finite sign digits scale).toRat = r ∧ InFormat digits scale ∧
        (e ≠ scale → (scale - ideal).natAbs < (e - ideal).natAbs)) ∧
      ((∀ e, ¬ WritableAt r e) → digitCount digits = 28 ∨ scale = -1000026) ∧
      (r = 0 → sign = operator.zeroSign negative negative') := by
  have hhands := operator.apply_handsOver negative negative' coefficient exponent exponent' hzero
  rw [← hr, ← hideal] at hhands
  rw [combine_number hop position _ _ fun hdiv => isZero_finite_eq_false.mpr (hzero hdiv)] at hvalue
  cases happly : operator.apply (.finite negative coefficient exponent)
      (.finite negative' coefficient' exponent') with
  | error signal =>
    rw [happly] at hvalue
    cases hvalue
  | ok result =>
    rw [happly] at hvalue
    cases hvalue
    obtain ⟨sign, digits, scale, rfl, hscale, hsign⟩ := hhands.hasScale happly
    exact ⟨sign, digits, scale, rfl, hscale.exact, hscale.inexact, hsign⟩

/-- The quotient `1.00 / -8` needs one place more than its ideal exponent gives it, and it gets no second
one. -/
theorem combine_keeps_scale_of_eighth :
    let r := (Decimal.finite false 100 (-2)).toRat / (Decimal.finite true 8 0).toRat
    combine "/" .unknown (.number (.finite false 100 (-2))) (.number (.finite true 8 0)) =
      .ok (.number (.finite true 125 (-3))) ∧
    WritableAt r (-3) ∧ ∀ e, WritableAt r e → e ≠ -3 → 1 < (e + 2).natAbs := by
  intro r
  have hvalue : combine "/" .unknown (.number (.finite false 100 (-2))) (.number (.finite true 8 0)) =
      .ok (.number (.finite true 125 (-3))) := rfl
  obtain ⟨sign, digits, scale, hresult, hexact, -, -⟩ :=
    combine_keeps_scale (show Operator.ofText? "/" = some .divide from rfl) .unknown (by decide) hvalue
      (r := r) rfl rfl
  cases hresult
  have hr : (Decimal.finite true 125 (-3)).toRat = r := by
    simp only [r, toRat, signed]
    norm_num
  refine ⟨hvalue, ⟨true, 125, by unfold InFormat; decide, hr⟩, fun e hw hne => ?_⟩
  have hnear := (hexact e hw).2.2 hne
  simpa [Operator.ideal] using hnear

end Douro
