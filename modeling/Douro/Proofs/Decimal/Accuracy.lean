import Douro.Proofs.Decimal.Closure
import Douro.Proofs.Decimal.Nearest
import Douro.Proofs.Decimal.Reading

/-!
# Rounding to the working format

`round` does to a coefficient and an exponent what `roundDigits` does to the number they write, unless
the number is so small that its last digits fall under the least exponent, or so large that it
overflows. The coefficient need not be exact: a coefficient of more digits than are kept may stand for
any number that no multiple of five divides it from, because every tie and every power of ten beyond
its last digit is one.

* `StandsFor`: the numbers that a coefficient can be rounded for.
* `dropDigits_eq_nearestEven`: digits that are dropped are rounded once.
* `round_isRounded`: what `round` gives, and when it overflows.
-/

namespace Douro

namespace Decimal

/-! ## Digits -/

theorem digitCount_le_iff (coefficient : ℕ) {count : ℕ} (hc : 0 < count) :
    digitCount coefficient ≤ count ↔ coefficient < 10 ^ count :=
  Nat.length_toDigits_le_iff (by norm_num) hc

theorem lt_pow_digitCount (coefficient : ℕ) : coefficient < 10 ^ digitCount coefficient :=
  (digitCount_le_iff coefficient (digitCount_pos coefficient)).mp le_rfl

theorem lt_digitCount {coefficient count : ℕ} (h : 10 ^ count ≤ coefficient) :
    count < digitCount coefficient :=
  (Nat.pow_lt_pow_iff_right (by norm_num)).mp (lt_of_le_of_lt h (lt_pow_digitCount coefficient))

theorem pow_digitCount_le {coefficient : ℕ} (h : coefficient ≠ 0) :
    10 ^ (digitCount coefficient - 1) ≤ coefficient := by
  by_cases hone : digitCount coefficient - 1 = 0
  · rw [hone, pow_zero]
    omega
  · have hpos := digitCount_pos coefficient
    have := (digitCount_le_iff coefficient (Nat.pos_of_ne_zero hone)).not.mp (by omega)
    omega

/-! ## Coefficients that stand for a number -/

/-- Rounding the coefficient is rounding `x`: it is `x`, or it has more digits than are kept and no
multiple of five lies between them. -/
def StandsFor (coefficient : ℕ) (x : ℚ) : Prop :=
  coefficient = x ∨ precision < digitCount coefficient ∧ ∃ k : ℕ,
    5 * k < coefficient ∧ coefficient < 5 * (k + 1) ∧ (5 * k : ℚ) < x ∧ x < 5 * (k + 1)

namespace StandsFor

variable {coefficient : ℕ} {x : ℚ}

/-- Multiples of five are not greater than `x` exactly if they are not greater than the coefficient
that stands for it. -/
theorem five_mul_le_iff (h : StandsFor coefficient x) (n : ℕ) :
    ((5 * n : ℕ) : ℚ) ≤ x ↔ 5 * n ≤ coefficient := by
  rcases h with rfl | ⟨-, k, hl, hr, hl', hr'⟩
  · exact Nat.cast_le
  · constructor
    · intro hn
      have hlt : ((5 * n : ℕ) : ℚ) < ((5 * (k + 1) : ℕ) : ℚ) := by
        push_cast at hn ⊢
        linarith
      have := Nat.cast_lt.mp hlt
      omega
    · intro hn
      have hle : ((5 * n : ℕ) : ℚ) ≤ ((5 * k : ℕ) : ℚ) := Nat.cast_le.mpr (by omega)
      push_cast at hle ⊢
      linarith

theorem pos (h : StandsFor coefficient x) (hc : coefficient ≠ 0) : 0 < x := by
  rcases h with rfl | ⟨-, k, -, -, hl, -⟩
  · exact_mod_cast Nat.pos_of_ne_zero hc
  · have : (0 : ℚ) ≤ 5 * k := by positivity
    linarith

theorem eq_of_digitCount_le (h : StandsFor coefficient x) (hd : digitCount coefficient ≤ precision) :
    x = coefficient := by
  rcases h with h | ⟨hlt, -⟩
  · exact h.symm
  · omega

/-- The exponent of the first digit. -/
theorem log_eq (h : StandsFor coefficient x) (hc : coefficient ≠ 0) (exponent : ℤ) :
    Int.log 10 (x * 10 ^ exponent) = adjusted coefficient exponent := by
  have hpos := digitCount_pos coefficient
  have hle := pow_digitCount_le hc
  have hlt := lt_pow_digitCount coefficient
  have hbounds : ((10 ^ (digitCount coefficient - 1) : ℕ) : ℚ) ≤ x ∧
      x < ((10 ^ digitCount coefficient : ℕ) : ℚ) := by
    rcases h with rfl | ⟨hmany, h⟩
    · exact ⟨Nat.cast_le.mpr hle, Nat.cast_lt.mpr hlt⟩
    · -- There are at least two digits, so both powers of ten are multiples of five.
      have h : StandsFor coefficient x := .inr ⟨hmany, h⟩
      have hten : ∀ n, 10 ^ (n + 1) = 5 * (2 * 10 ^ n) := fun n => by rw [pow_succ]; ring
      unfold precision at hmany
      obtain ⟨n, hn⟩ : ∃ n, digitCount coefficient = n + 2 := ⟨digitCount coefficient - 2, by omega⟩
      rw [hn, Nat.add_sub_assoc (by norm_num), hten] at hle
      rw [hn, hten] at hlt
      rw [hn, Nat.add_sub_assoc (by norm_num), hten, hten]
      exact ⟨(h.five_mul_le_iff _).mpr hle, lt_of_not_ge fun hge =>
        Nat.not_le.mpr hlt ((h.five_mul_le_iff _).mp hge)⟩
  have hscale := ten_zpow_pos exponent
  have hlow : adjusted coefficient exponent = ((digitCount coefficient - 1 : ℕ) : ℤ) + exponent := by
    unfold adjusted
    omega
  have hhigh : adjusted coefficient exponent + 1 = (digitCount coefficient : ℤ) + exponent := by
    unfold adjusted
    omega
  apply log_eq_of_bounds
  · rw [hlow, ten_zpow_add, zpow_natCast]
    exact mul_le_mul_of_nonneg_right (by exact_mod_cast hbounds.1) hscale.le
  · rw [hhigh, ten_zpow_add, zpow_natCast]
    exact mul_lt_mul_of_pos_right (by exact_mod_cast hbounds.2) hscale

end StandsFor

/-! ## Dropping digits -/

theorem isNearestEven_roundDiv (n : ℕ) {d : ℕ} (hd : 0 < d) :
    IsNearestEven ((n : ℚ) / d) (roundDiv n d) := by
  have hdq : (0 : ℚ) < d := Nat.cast_pos.mpr hd
  have hn : (n : ℚ) = d * (n / d : ℕ) + (n % d : ℕ) := by exact_mod_cast (Nat.div_add_mod n d).symm
  have hlt := Nat.mod_lt n hd
  unfold roundDiv
  simp only
  generalize n / d = q at *
  generalize n % d = r at *
  have hrq : (0 : ℚ) ≤ r := Nat.cast_nonneg r
  split
  · next h =>
    have hdiff : |(n : ℚ) / d - ((q : ℕ) : ℤ)| = r / d := by
      rw [hn, Int.cast_natCast, add_div, mul_div_cancel_left₀ _ hdq.ne', add_sub_cancel_left,
        abs_of_nonneg (by positivity)]
    rw [IsNearestEven, hdiff, div_lt_div_iff₀ hdq (by norm_num), div_eq_div_iff hdq.ne' (by norm_num)]
    rcases h with h | ⟨h, heven⟩
    · have : ((2 * r : ℕ) : ℚ) < (d : ℕ) := Nat.cast_lt.mpr h
      push_cast at this
      exact .inl (by linarith)
    · have : ((2 * r : ℕ) : ℚ) = (d : ℕ) := congrArg _ h
      push_cast at this
      exact .inr ⟨by linarith, (Int.even_coe_nat q).mpr (Nat.even_iff.mpr heven)⟩
  · next h =>
    have hdiff : |(n : ℚ) / d - ((q + 1 : ℕ) : ℤ)| = (d - r) / d := by
      have hrd : (r : ℚ) ≤ d := Nat.cast_le.mpr hlt.le
      rw [hn, Int.cast_natCast, add_div, mul_div_cancel_left₀ _ hdq.ne', abs_sub_comm, abs_of_nonneg]
      · push_cast
        field_simp
        ring
      · have : (r : ℚ) / d ≤ 1 := (div_le_one hdq).mpr hrd
        push_cast
        linarith
    rw [IsNearestEven, hdiff, div_lt_div_iff₀ hdq (by norm_num), div_eq_div_iff hdq.ne' (by norm_num)]
    rw [not_or, not_lt, not_and] at h
    rcases Nat.lt_or_eq_of_le h.1 with hgt | heq
    · have : ((d : ℕ) : ℚ) < (2 * r : ℕ) := Nat.cast_lt.mpr hgt
      push_cast at this
      exact .inl (by linarith)
    · have : ((d : ℕ) : ℚ) = (2 * r : ℕ) := congrArg _ heq
      push_cast at this
      have hodd := h.2 heq.symm
      exact .inr ⟨by linarith, (Int.even_coe_nat _).mpr (Nat.even_iff.mpr (by omega))⟩

/-- Too few digits to drop leave nothing, as rounding does. -/
theorem dropDigits_eq_roundDiv (coefficient count : ℕ) :
    dropDigits coefficient count = roundDiv coefficient (10 ^ count) := by
  unfold dropDigits
  split
  · next h =>
    have hlt := lt_pow_digitCount coefficient
    have hpow : 10 ^ digitCount coefficient * 10 ≤ 10 ^ count := by
      rw [← pow_succ]
      exact Nat.pow_le_pow_right (by norm_num) h
    have hmod : coefficient % 10 ^ count = coefficient := Nat.mod_eq_of_lt (by omega)
    unfold roundDiv
    simp only [hmod]
    rw [if_pos (.inl (by omega)), Nat.div_eq_of_lt (by omega)]
  · rfl

/-- Dropping digits of a coefficient rounds the number that it stands for. -/
theorem dropDigits_eq_nearestEven {coefficient : ℕ} {x : ℚ} (h : StandsFor coefficient x) {count : ℕ}
    (hc : 0 < count) : (dropDigits coefficient count : ℤ) = nearestEven (x / (10 ^ count : ℕ)) := by
  have hround := isNearestEven_roundDiv coefficient (d := 10 ^ count) (by positivity)
  rw [dropDigits_eq_roundDiv]
  symm
  rw [nearestEven_eq_iff]
  rcases h with rfl | ⟨-, k, hl, hr, hl', hr'⟩
  · exact hround
  -- A tie would be a multiple of five, so neither the coefficient nor `x` is one.
  obtain ⟨p, hp, hpos⟩ : ∃ p, 10 ^ count = 10 * p ∧ 0 < p :=
    ⟨10 ^ (count - 1), by rw [← pow_succ']; congr 1; omega, by positivity⟩
  rw [hp] at hround ⊢
  generalize roundDiv coefficient (10 * p) = n at *
  have hpq : (0 : ℚ) < (10 * p : ℕ) := by exact_mod_cast (by omega : 0 < 10 * p)
  have hle : |(coefficient : ℚ) / (10 * p : ℕ) - ((n : ℕ) : ℤ)| ≤ 1 / 2 :=
    hround.elim le_of_lt fun h => le_of_eq h.1
  obtain ⟨hdown, hup⟩ := abs_le.mp hle
  have hup' : (coefficient : ℚ) ≤ (1 / 2 + (n : ℚ)) * (10 * p : ℕ) := by
    rw [← div_le_iff₀ hpq]
    rw [Int.cast_natCast] at hup
    linarith
  have hdown' : (-(1 / 2) + (n : ℚ)) * (10 * p : ℕ) ≤ (coefficient : ℚ) := by
    rw [← le_div_iff₀ hpq]
    rw [Int.cast_natCast] at hdown
    linarith
  have hup' : k + 1 ≤ (2 * n + 1) * p := by
    have : ((5 * k : ℕ) : ℚ) < (5 * ((2 * n + 1) * p) : ℕ) := by
      have hlq : ((5 * k : ℕ) : ℚ) < coefficient := Nat.cast_lt.mpr hl
      push_cast at hup' hlq ⊢
      linarith
    have := Nat.cast_lt.mp this
    omega
  have hdown' : 2 * n * p ≤ k + p := by
    have : ((5 * (2 * n * p) : ℕ) : ℚ) < (5 * (k + 1 + p) : ℕ) := by
      have hrq : (coefficient : ℚ) < (5 * (k + 1) : ℕ) := Nat.cast_lt.mpr hr
      push_cast at hdown' hrq ⊢
      linarith
    have := Nat.cast_lt.mp this
    omega
  have hup'' : ((k + 1 : ℕ) : ℚ) ≤ ((2 * n + 1) * p : ℕ) := Nat.cast_le.mpr hup'
  have hdown'' : ((2 * n * p : ℕ) : ℚ) ≤ (k + p : ℕ) := Nat.cast_le.mpr hdown'
  push_cast at hup'' hdown''
  left
  rw [abs_lt, Int.cast_natCast]
  constructor
  · rw [lt_sub_iff_add_lt, lt_div_iff₀ hpq]
    push_cast
    linarith
  · rw [sub_lt_iff_lt_add, div_lt_iff₀ hpq]
    push_cast
    linarith

/-! ## Rounding once -/

/-- An exact value as the format keeps it, if its exponent may be as great as it wants: numbers below
the least adjusted exponent keep the digits down to the least exponent, and all others 28 digits. -/
def kept (r : ℚ) : ℚ :=
  if 0 < |r| ∧ |r| < 10 ^ minAdjusted then roundAt minExponent r else roundDigits precision r

theorem kept_neg (r : ℚ) : kept (-r) = -kept r := by
  unfold kept
  rw [abs_neg, roundAt_neg, roundDigits_neg]
  split <;> rfl

theorem minExponent_eq : minExponent = minAdjusted + 1 - precision := by
  unfold minExponent
  omega

/-- The last digit that is kept, of the number that a coefficient stands for. -/
theorem kept_eq_roundAt {coefficient : ℕ} {x : ℚ} (h : StandsFor coefficient x)
    (hc : coefficient ≠ 0) (exponent : ℤ) :
    kept (x * 10 ^ exponent) = roundAt (lastKept coefficient exponent) (x * 10 ^ exponent) := by
  have hpos : 0 < x * 10 ^ exponent := mul_pos (h.pos hc) (ten_zpow_pos exponent)
  have hlog := h.log_eq hc exponent
  have hsmall : x * 10 ^ exponent < 10 ^ minAdjusted ↔ adjusted coefficient exponent < minAdjusted := by
    rw [← hlog, ← Int.lt_zpow_iff_log_lt (by norm_num) hpos]
    norm_cast
  have hlast : adjusted coefficient exponent + 1 - precision =
      exponent + digitCount coefficient - precision := by
    unfold adjusted
    omega
  unfold kept lastKept
  rw [abs_of_pos hpos, ← hlast, minExponent_eq]
  split
  · next hlt =>
    have := hsmall.mp hlt.2
    rw [max_eq_right (by omega)]
  · next hge =>
    have := (not_congr hsmall).mp fun hlt => hge ⟨hpos, hlt⟩
    rw [max_eq_left (by omega), roundDigits, abs_of_pos hpos, hlog]

/-- A result before the check for an overflow: it writes the number as it is kept. -/
structure Writes (coefficient : ℕ) (exponent : ℤ) (value : ℚ) : Prop where
  digits_le : digitCount coefficient ≤ precision
  le_exponent : minExponent ≤ exponent
  eq_value : coefficient * 10 ^ exponent = value
  /-- A zero is far from an overflow. -/
  zero_le : coefficient = 0 → exponent ≤ maxAdjusted

/-- A carry into a digit too many moves the exponent. -/
theorem exists_writes_of_le {rounded : ℕ} {last : ℤ} (hr : rounded ≤ 10 ^ precision)
    (hl : minExponent ≤ last) (hz : rounded = 0 → last ≤ maxAdjusted) (negative : Bool) :
    ∃ coefficient exponent,
      (if precision < digitCount rounded then checkOverflow negative (rounded / 10) (last + 1)
        else checkOverflow negative rounded last) = checkOverflow negative coefficient exponent ∧
      Writes coefficient exponent (rounded * 10 ^ last) := by
  split
  · next hmany =>
    have heq : rounded = 10 ^ precision := by
      have := (digitCount_le_iff rounded (by decide : 0 < precision)).not.mp (by omega)
      omega
    subst heq
    have hcarry : 10 ^ precision / 10 = 10 ^ 27 := by unfold precision; norm_num
    refine ⟨_, _, rfl, ?_, by omega, ?_, ?_⟩
    · rw [hcarry, digitCount_le_iff _ (by decide)]
      unfold precision
      norm_num
    · rw [hcarry, ten_zpow_add]
      unfold precision
      push_cast
      ring
    · rw [hcarry]
      intro h
      norm_num at h
  · next hfew => exact ⟨rounded, last, rfl, by omega, hl, rfl, hz⟩

/-- Before the check for an overflow, `round` keeps the digits of the number that its coefficient
stands for. -/
theorem exists_writes {coefficient : ℕ} {x : ℚ} (h : StandsFor coefficient x) (hc : coefficient ≠ 0)
    (negative : Bool) (exponent : ℤ) : ∃ coefficient' exponent',
      round negative coefficient exponent = checkOverflow negative coefficient' exponent' ∧
      Writes coefficient' exponent' (kept (x * 10 ^ exponent)) := by
  have hkept := kept_eq_roundAt h hc exponent
  have hmin : minExponent ≤ lastKept coefficient exponent := le_max_right _ _
  have hfirst : exponent + digitCount coefficient - precision ≤ lastKept coefficient exponent :=
    le_max_left _ _
  unfold round
  rw [if_neg hc]
  simp only
  split
  · next hle =>
    -- Nothing is dropped, so there are few digits and the coefficient is exact.
    obtain rfl := h.eq_of_digitCount_le (by omega)
    refine ⟨coefficient, exponent, rfl, by omega, by omega, ?_, fun h => absurd h hc⟩
    rw [hkept]
    exact (roundAt_eq_self hle coefficient).symm
  · next hlt =>
    have hcount : ((lastKept coefficient exponent - exponent).toNat : ℤ) =
        lastKept coefficient exponent - exponent := by omega
    have hdrop := dropDigits_eq_nearestEven h (by omega : 0 < (lastKept coefficient exponent - exponent).toNat)
    have hscale : (10 : ℚ) ^ lastKept coefficient exponent =
        ((10 ^ (lastKept coefficient exponent - exponent).toNat : ℕ) : ℚ) * 10 ^ exponent :=
      ten_zpow_of_le (by omega)
    have hquot : x * 10 ^ exponent / 10 ^ lastKept coefficient exponent =
        x / (10 ^ (lastKept coefficient exponent - exponent).toNat : ℕ) := by
      rw [hscale, mul_div_mul_right _ _ (ten_zpow_ne_zero exponent)]
    rw [← hquot] at hdrop
    have hvalue : (dropDigits coefficient (lastKept coefficient exponent - exponent).toNat : ℚ) *
        10 ^ lastKept coefficient exponent = kept (x * 10 ^ exponent) := by
      rw [hkept, roundAt, ← hdrop, Int.cast_natCast]
    have hpos := mul_pos (h.pos hc) (ten_zpow_pos exponent)
    have hlog := h.log_eq hc exponent
    rw [← hvalue]
    generalize hrounded : dropDigits coefficient (lastKept coefficient exponent - exponent).toNat =
      rounded at *
    refine exists_writes_of_le ?_ hmin (fun hzero => ?_) negative
    · have hbound : roundAt (lastKept coefficient exponent) (x * 10 ^ exponent) ≤
          10 ^ (lastKept coefficient exponent + precision) := by
        refine roundAt_le (by omega) ?_
        have := Int.lt_zpow_succ_log_self (b := 10) (by norm_num) (x * 10 ^ exponent)
        rw [hlog] at this
        refine le_trans (le_of_lt (by exact_mod_cast this)) (ten_zpow_le_iff.mpr ?_)
        unfold adjusted
        omega
      rw [← hkept, ← hvalue, add_comm, ten_zpow_add, zpow_natCast] at hbound
      have := le_of_mul_le_mul_right hbound (ten_zpow_pos _)
      exact_mod_cast this
    · by_contra hgreat
      have hlast : lastKept coefficient exponent = adjusted coefficient exponent + 1 - precision := by
        have hsmall : minExponent < lastKept coefficient exponent := by
          unfold minExponent minAdjusted maxAdjusted precision at *
          omega
        unfold lastKept adjusted at *
        omega
      have hlow : (10 : ℚ) ^ adjusted coefficient exponent ≤ x * 10 ^ exponent := by
        have := Int.zpow_log_le_self (b := 10) (by norm_num) hpos
        rw [hlog] at this
        exact_mod_cast this
      have hle := le_roundAt (e := lastKept coefficient exponent)
        (by rw [hlast]; unfold precision; omega) hlow
      rw [← hkept, ← hvalue, hzero, Nat.cast_zero, zero_mul] at hle
      exact absurd hle (not_le.mpr (ten_zpow_pos _))

/-! ## Results -/

/-- A finite decimal as a rational number. -/
def toRat : Decimal → ℚ
  | finite negative coefficient exponent => signed negative coefficient * 10 ^ exponent
  | infinity _ | nan _ _ _ => 0

/-- What the result of an operation has to be if its exact value is `r`. -/
def IsRounded (r : ℚ) : Except Signal Decimal → Prop
  | .error signal => signal = .overflow ∧ 10 ^ (maxAdjusted + 1) ≤ |roundDigits precision r|
  | .ok (finite negative coefficient exponent) =>
    |roundDigits precision r| < 10 ^ (maxAdjusted + 1) ∧ digitCount coefficient ≤ precision ∧
      minExponent ≤ exponent ∧ (finite negative coefficient exponent).toRat = kept r ∧
      (r ≠ 0 → (negative = true ↔ r < 0))
  | .ok (infinity _) | .ok (nan _ _ _) => False

/-- A number that is kept overflows exactly if it does with 28 digits. -/
theorem overflows_iff_kept {r : ℚ} (h : 0 < r) :
    10 ^ (maxAdjusted + 1) ≤ roundDigits precision r ↔ 10 ^ (maxAdjusted + 1) ≤ kept r := by
  unfold kept
  rw [abs_of_pos h]
  split
  · next hsmall =>
    have hlt : (10 : ℚ) ^ minAdjusted < 10 ^ (maxAdjusted + 1) := ten_zpow_lt_iff.mpr (by decide)
    have hdigits := roundDigits_le (by decide : 0 < precision) h hsmall.2
    have hkept := roundAt_le (e := minExponent) (by decide) hsmall.2.le
    exact iff_of_false (not_le.mpr (lt_of_le_of_lt hdigits hlt))
      (not_le.mpr (lt_of_le_of_lt hkept hlt))
  · rfl

theorem Writes.overflows_iff {coefficient : ℕ} {exponent : ℤ} {value : ℚ}
    (h : Writes coefficient exponent value) :
    maxAdjusted < adjusted coefficient exponent ↔ 10 ^ (maxAdjusted + 1) ≤ value := by
  by_cases hc : coefficient = 0
  · have hz := h.zero_le hc
    have hv := h.eq_value
    subst hc
    rw [Nat.cast_zero, zero_mul] at hv
    rw [← hv]
    refine iff_of_false ?_ (not_le.mpr (ten_zpow_pos _))
    have : adjusted 0 exponent = exponent := by
      unfold adjusted digitCount digits
      rw [Nat.toDigits_zero]
      simp
    omega
  · have hexact : StandsFor coefficient coefficient := .inl rfl
    rw [← h.eq_value, ← hexact.log_eq hc exponent, ← Int.add_one_le_iff]
    rw [← Int.zpow_le_iff_le_log (by norm_num) (mul_pos (hexact.pos hc) (ten_zpow_pos exponent))]
    norm_cast

/-- The signed number. -/
def withSign (negative : Bool) (r : ℚ) : ℚ := if negative then -r else r

theorem checkOverflow_isRounded {coefficient : ℕ} {exponent : ℤ} {r : ℚ} (hr : 0 < r)
    (h : Writes coefficient exponent (kept r)) (negative : Bool) :
    IsRounded (withSign negative r) (checkOverflow negative coefficient exponent) := by
  have hdigits : |roundDigits precision (withSign negative r)| = roundDigits precision r := by
    have hnonneg : 0 ≤ roundDigits precision r := roundAt_nonneg hr.le
    cases negative
    · exact abs_of_nonneg hnonneg
    · rw [withSign, if_pos rfl, roundDigits_neg, abs_neg, abs_of_nonneg hnonneg]
  have hiff := h.overflows_iff.trans (overflows_iff_kept hr).symm
  unfold checkOverflow
  split
  · next hover => exact ⟨rfl, by rw [hdigits]; exact hiff.mp hover⟩
  · next hfits =>
    refine ⟨by rw [hdigits]; exact lt_of_not_ge (hiff.not.mp hfits), h.digits_le, h.le_exponent, ?_, ?_⟩
    · cases negative
      · show ((coefficient : ℤ) : ℚ) * 10 ^ exponent = kept r
        rw [Int.cast_natCast, h.eq_value]
      · show ((-(coefficient : ℤ) : ℤ) : ℚ) * 10 ^ exponent = kept (-r)
        rw [Int.cast_neg, Int.cast_natCast, neg_mul, h.eq_value, kept_neg]
    · intro _
      cases negative
      · exact iff_of_false (by decide) (not_lt.mpr hr.le)
      · exact iff_of_true rfl (neg_neg_of_pos hr)

/-- A zero is exact, with the nearest exponent that the format has. -/
theorem zero_isRounded (negative : Bool) (exponent : ℤ) :
    IsRounded 0 (round negative 0 exponent) := by
  have hkept : kept 0 = 0 := by
    unfold kept
    rw [abs_zero, if_neg (fun h => lt_irrefl _ h.1), roundDigits_zero]
  refine ⟨?_, by decide, ?_, ?_, fun h => absurd rfl h⟩
  · rw [roundDigits_zero, abs_zero]
    exact ten_zpow_pos _
  · unfold minExponent minAdjusted maxAdjusted precision
    omega
  · rw [hkept]
    cases negative <;> simp [toRat, signed]

/-- `round` rounds the number that its coefficient stands for, and rounds it once. -/
theorem round_isRounded {coefficient : ℕ} {x : ℚ} (h : StandsFor coefficient x) (negative : Bool)
    (exponent : ℤ) :
    IsRounded (withSign negative (x * 10 ^ exponent)) (round negative coefficient exponent) := by
  by_cases hc : coefficient = 0
  · subst hc
    have hx : x = 0 := by
      rw [h.eq_of_digitCount_le (by decide), Nat.cast_zero]
    rw [hx, zero_mul, withSign, neg_zero, ite_self]
    exact zero_isRounded negative exponent
  · obtain ⟨coefficient', exponent', heq, hw⟩ := exists_writes h hc negative exponent
    rw [heq]
    exact checkOverflow_isRounded (mul_pos (h.pos hc) (ten_zpow_pos exponent)) hw negative

end Decimal

end Douro
