import Mathlib.Data.Int.Log
import Mathlib.Data.Rat.Floor
import Mathlib.Tactic.FieldSimp
import Mathlib.Tactic.Linarith
import Mathlib.Tactic.Positivity
import Mathlib.Tactic.Ring

/-!
# Rounding of exact values

What it means to round a rational number, apart from any format: to the nearest integer, to the
nearest multiple of a power of ten, to a number of significant digits. A tie goes to the even
neighbour.

* `nearestEven_eq_iff`: the integer that a number is rounded to is the only one that is nearest, and
  even if there is another one as near.
* `roundAt_eq_self`, `roundAt_le`: rounding keeps multiples and never passes one.
* `roundDigits_eq_roundAt`: the last digit that is kept, from the exponent of the first one.
-/

namespace Douro

namespace Decimal

/-! ## To an integer -/

/-- The integer nearest to `x`; of two that are equally near, the even one. -/
def nearestEven (x : ℚ) : ℤ :=
  if Int.fract x < 1 / 2 ∨ Int.fract x = 1 / 2 ∧ Even ⌊x⌋ then ⌊x⌋ else ⌊x⌋ + 1

/-- An integer is nearest, or it is even and at the least as near as any other. -/
def IsNearestEven (x : ℚ) (n : ℤ) : Prop := |x - n| < 1 / 2 ∨ |x - n| = 1 / 2 ∧ Even n

theorem isNearestEven_nearestEven (x : ℚ) : IsNearestEven x (nearestEven x) := by
  have hx := Int.floor_add_fract x
  have hnonneg := Int.fract_nonneg x
  have hlt := Int.fract_lt_one x
  unfold nearestEven
  split
  · next h =>
    have hdiff : |x - ⌊x⌋| = Int.fract x := by rw [← Int.fract, abs_of_nonneg hnonneg]
    rw [IsNearestEven, hdiff]
    exact h
  · next h =>
    rw [not_or, not_lt, not_and] at h
    have hdiff : |x - ((⌊x⌋ + 1 : ℤ) : ℚ)| = 1 - Int.fract x := by
      push_cast
      rw [abs_sub_comm, abs_of_nonneg (by linarith)]
      linarith
    rw [IsNearestEven, hdiff]
    rcases lt_or_eq_of_le h.1 with hgt | heq
    · exact .inl (by linarith)
    · exact .inr ⟨by linarith, (Int.not_even_iff_odd.mp (h.2 heq.symm)).add_one⟩

/-- No two integers are both the even nearest one. -/
theorem IsNearestEven.unique {x : ℚ} {n n' : ℤ} (h : IsNearestEven x n) (h' : IsNearestEven x n') :
    n = n' := by
  have hle : |x - n| ≤ 1 / 2 := h.elim le_of_lt fun h => le_of_eq h.1
  have hle' : |x - n'| ≤ 1 / 2 := h'.elim le_of_lt fun h => le_of_eq h.1
  obtain ⟨hl, hr⟩ := abs_le.mp hle
  obtain ⟨hl', hr'⟩ := abs_le.mp hle'
  have hup : (n : ℚ) ≤ ((n' + 1 : ℤ) : ℚ) := by push_cast; linarith
  have hdown : (n' : ℚ) ≤ ((n + 1 : ℤ) : ℚ) := by push_cast; linarith
  have hup := Int.cast_le.mp hup
  have hdown := Int.cast_le.mp hdown
  by_contra hne
  -- Neighbours are equally near only half-way between them, and then one of them is odd.
  have htie : |x - n| = 1 / 2 ∧ |x - n'| = 1 / 2 := by
    rcases (by omega : n = n' + 1 ∨ n' = n + 1) with rfl | rfl
    · push_cast at *
      constructor
      · rw [abs_of_nonpos] <;> linarith
      · rw [abs_of_nonneg] <;> linarith
    · push_cast at *
      constructor
      · rw [abs_of_nonneg] <;> linarith
      · rw [abs_of_nonpos] <;> linarith
  have heven : Even n := (h.resolve_left (by rw [htie.1]; exact lt_irrefl _)).2
  have heven' : Even n' := (h'.resolve_left (by rw [htie.2]; exact lt_irrefl _)).2
  rw [Int.even_iff] at heven heven'
  omega

theorem nearestEven_eq_iff {x : ℚ} {n : ℤ} : nearestEven x = n ↔ IsNearestEven x n :=
  ⟨fun h => h ▸ isNearestEven_nearestEven x, fun h => (isNearestEven_nearestEven x).unique h⟩

theorem nearestEven_neg (x : ℚ) : nearestEven (-x) = -nearestEven x := by
  rw [nearestEven_eq_iff, IsNearestEven]
  have hdiff : |-x - ((-nearestEven x : ℤ) : ℚ)| = |x - nearestEven x| := by
    rw [← abs_neg]
    push_cast
    ring_nf
  rw [hdiff, even_neg]
  exact isNearestEven_nearestEven x

theorem nearestEven_intCast (n : ℤ) : nearestEven n = n := by
  rw [nearestEven_eq_iff, IsNearestEven, sub_self, abs_zero]
  exact .inl (by norm_num)

/-- Rounding does not pass an integer. -/
theorem nearestEven_le {x : ℚ} {n : ℤ} (h : x ≤ n) : nearestEven x ≤ n := by
  have hspec := isNearestEven_nearestEven x
  have hle : |x - nearestEven x| ≤ 1 / 2 := hspec.elim le_of_lt fun h => le_of_eq h.1
  have hlt : ((nearestEven x : ℤ) : ℚ) < ((n + 1 : ℤ) : ℚ) := by
    push_cast
    linarith [(abs_le.mp hle).1]
  have := Int.cast_lt.mp hlt
  omega

theorem le_nearestEven {x : ℚ} {n : ℤ} (h : n ≤ x) : n ≤ nearestEven x := by
  have := nearestEven_le (x := -x) (n := -n) (by push_cast; linarith)
  rw [nearestEven_neg] at this
  omega

/-! ## To a power of ten -/

theorem ten_zpow_pos (exponent : ℤ) : (0 : ℚ) < 10 ^ exponent := zpow_pos (by norm_num) _

theorem ten_zpow_ne_zero (exponent : ℤ) : (10 : ℚ) ^ exponent ≠ 0 := (ten_zpow_pos exponent).ne'

theorem ten_zpow_add (e e' : ℤ) : (10 : ℚ) ^ (e + e') = 10 ^ e * 10 ^ e' :=
  zpow_add₀ (by norm_num) e e'

theorem ten_zpow_le_iff {e e' : ℤ} : (10 : ℚ) ^ e ≤ 10 ^ e' ↔ e ≤ e' :=
  zpow_le_zpow_iff_right₀ (by norm_num)

theorem ten_zpow_lt_iff {e e' : ℤ} : (10 : ℚ) ^ e < 10 ^ e' ↔ e < e' :=
  zpow_lt_zpow_iff_right₀ (by norm_num)

/-- A natural power from an exponent that is not less than another one. -/
theorem ten_zpow_of_le {e e' : ℤ} (h : e ≤ e') :
    (10 : ℚ) ^ e' = ((10 ^ (e' - e).toNat : ℕ) : ℚ) * 10 ^ e := by
  have he : e' = ((e' - e).toNat : ℤ) + e := by omega
  conv_lhs => rw [he]
  rw [ten_zpow_add, zpow_natCast]
  push_cast
  rfl

/-- The number rounded to a multiple of `10 ^ exponent`. -/
def roundAt (exponent : ℤ) (r : ℚ) : ℚ := nearestEven (r / 10 ^ exponent) * 10 ^ exponent

theorem roundAt_neg (exponent : ℤ) (r : ℚ) : roundAt exponent (-r) = -roundAt exponent r := by
  unfold roundAt
  rw [neg_div, nearestEven_neg]
  push_cast
  ring

/-- A multiple stays as it is. -/
theorem roundAt_eq_self {e e' : ℤ} (h : e ≤ e') (n : ℤ) :
    roundAt e (n * 10 ^ e') = n * 10 ^ e' := by
  have hquot : (n * 10 ^ e' : ℚ) / 10 ^ e = ((n * (10 ^ (e' - e).toNat : ℕ) : ℤ) : ℚ) := by
    rw [ten_zpow_of_le h]
    push_cast
    field_simp [ten_zpow_ne_zero e]
  rw [roundAt, hquot, nearestEven_intCast, ten_zpow_of_le h]
  push_cast
  ring

/-- Rounding does not pass a multiple. -/
theorem roundAt_le {e e' : ℤ} {r : ℚ} (he : e ≤ e') (h : r ≤ 10 ^ e') : roundAt e r ≤ 10 ^ e' := by
  have hpos := ten_zpow_pos e
  rw [ten_zpow_of_le he] at h ⊢
  have hquot : r / 10 ^ e ≤ ((10 ^ (e' - e).toNat : ℕ) : ℤ) := by
    rw [div_le_iff₀ hpos]
    exact_mod_cast h
  have := Int.cast_le (R := ℚ).mpr (nearestEven_le hquot)
  exact mul_le_mul_of_nonneg_right (by exact_mod_cast this) hpos.le

theorem le_roundAt {e e' : ℤ} {r : ℚ} (he : e ≤ e') (h : 10 ^ e' ≤ r) : 10 ^ e' ≤ roundAt e r := by
  have hpos := ten_zpow_pos e
  rw [ten_zpow_of_le he] at h ⊢
  have hquot : (((10 ^ (e' - e).toNat : ℕ) : ℤ) : ℚ) ≤ r / 10 ^ e := by
    rw [le_div_iff₀ hpos]
    exact_mod_cast h
  have := Int.cast_le (R := ℚ).mpr (le_nearestEven hquot)
  exact mul_le_mul_of_nonneg_right (by exact_mod_cast this) hpos.le

theorem roundAt_nonneg {e : ℤ} {r : ℚ} (h : 0 ≤ r) : 0 ≤ roundAt e r := by
  have hquot : ((0 : ℤ) : ℚ) ≤ r / 10 ^ e := by
    push_cast
    exact div_nonneg h (ten_zpow_pos e).le
  have := Int.cast_le (R := ℚ).mpr (le_nearestEven hquot)
  exact mul_nonneg (by exact_mod_cast this) (ten_zpow_pos e).le

/-! ## To a number of digits -/

/-- The number rounded to `count` significant digits, whatever its exponent. -/
def roundDigits (count : ℕ) (r : ℚ) : ℚ := roundAt (Int.log 10 |r| + 1 - count) r

theorem roundDigits_zero (count : ℕ) : roundDigits count 0 = 0 := by
  have h := roundAt_eq_self (le_refl (Int.log 10 |(0 : ℚ)| + 1 - count)) 0
  rw [Int.cast_zero, zero_mul] at h
  exact h

theorem roundDigits_neg (count : ℕ) (r : ℚ) : roundDigits count (-r) = -roundDigits count r := by
  unfold roundDigits
  rw [abs_neg, roundAt_neg]

/-- The exponent of the first digit, from the powers of ten around a number. -/
theorem log_eq_of_bounds {r : ℚ} {e : ℤ} (hl : 10 ^ e ≤ r) (hr : r < 10 ^ (e + 1)) :
    Int.log 10 r = e := by
  have hpos : 0 < r := lt_of_lt_of_le (ten_zpow_pos e) hl
  have h := (Int.zpow_le_iff_le_log (b := 10) (by norm_num) hpos).mp (by exact_mod_cast hl)
  have h' := (Int.lt_zpow_iff_log_lt (b := 10) (by norm_num) hpos).mp (by exact_mod_cast hr)
  omega

/-- Rounding to at least one digit does not pass the next power of ten. -/
theorem roundDigits_le {count : ℕ} (hc : 0 < count) {r : ℚ} {e : ℤ} (h0 : 0 < r)
    (h : r < 10 ^ e) : roundDigits count r ≤ 10 ^ e := by
  have hlog := (Int.lt_zpow_iff_log_lt (b := 10) (by norm_num) h0).mp (by exact_mod_cast h)
  unfold roundDigits
  rw [abs_of_pos h0]
  exact roundAt_le (by omega) h.le

end Decimal

end Douro
