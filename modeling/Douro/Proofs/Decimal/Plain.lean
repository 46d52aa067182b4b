import Douro.Machine.Evaluation
import Douro.Proofs.Decimal.Operations
import Douro.Proofs.Decimal.RoundTrip
import Douro.Proofs.Token.Legality
import Mathlib.Data.List.TakeWhile

/-!
# Numbers as plain digits

A number is printed without an exponent: its digits, with the point at its place and zeros where digits
lack. `padded` is the row of these digits before the point is put in, so the three layouts of `pointAt`
are one. A numeral is such a row already, apart from leading zeros and from the scripts of its digits.

* `pointAt_eq`: a printed number is its padded digits, cut at the point.
* `plainChars_extend`: a positive exponent is printed as zeros, and then as nothing else.
* `padded_ofDigitChars`: the padded digits of a numeral are its digits without leading zeros.
* `printed_numbers_are_read_back`: printing, and reading and scanning what is printed.
* `numerals_keep_their_digits`: evaluating a numeral, and printing its value.
-/

namespace Douro

namespace Decimal

/-! ## Digits -/

theorem digits_eq_if (n : Nat) :
    digits n = if n < 10 then [n.digitChar] else digits (n / 10) ++ [(n % 10).digitChar] :=
  Nat.toDigits_eq_if (by decide)

/-- A power of ten behind a number is zeros behind its digits. -/
theorem digits_mul_pow {n : Nat} (hn : n ≠ 0) (count : Nat) :
    digits (n * 10 ^ count) = digits n ++ List.replicate count '0' := by
  induction count with
  | zero => simp
  | succ count ih =>
    have hpos : 10 ≤ n * 10 ^ (count + 1) := by
      have : 0 < n * 10 ^ count := Nat.mul_pos (Nat.pos_of_ne_zero hn) (by positivity)
      rw [Nat.pow_succ, ← Nat.mul_assoc]
      omega
    have hdiv : n * 10 ^ (count + 1) / 10 = n * 10 ^ count := by
      rw [Nat.pow_succ, ← Nat.mul_assoc, Nat.mul_div_cancel _ (by decide)]
    have hmod : n * 10 ^ (count + 1) % 10 = 0 := by
      rw [Nat.pow_succ, ← Nat.mul_assoc, Nat.mul_mod_left]
    rw [digits_eq_if, if_neg (by omega), hdiv, hmod, ih, List.replicate_succ', List.append_assoc]
    rfl

theorem digitChar_of_isDigit {d : Char} (h : d.isDigit = true) :
    d.toNat - '0'.toNat < 10 ∧ (d.toNat - '0'.toNat).digitChar = d := by
  simp only [Char.isDigit, Bool.and_eq_true, decide_eq_true_eq, ge_iff_le] at h
  have hlow : 48 ≤ d.toNat := h.1
  have hhigh : d.toNat ≤ 57 := h.2
  have hzero : '0'.toNat = 48 := rfl
  have hchar : ∀ k < 10, Nat.digitChar k = Char.ofNat (48 + k) := by decide
  refine ⟨by omega, ?_⟩
  rw [hchar _ (by omega), hzero, Nat.add_sub_cancel' hlow, Char.ofNat_toNat]

/-- Digits are the digits of their value, with zeros before them. -/
theorem zeros_append_digits {ds : List Char} (hne : ds ≠ []) (hd : ∀ d ∈ ds, d.isDigit = true) :
    List.replicate (ds.length - digitCount (Nat.ofDigitChars 10 ds 0)) '0' ++
      digits (Nat.ofDigitChars 10 ds 0) = ds := by
  induction ds using List.reverseRecOn with
  | nil => exact absurd rfl hne
  | append_singleton ds d ih =>
    obtain ⟨hlt, hchar⟩ := digitChar_of_isDigit (hd d (by simp))
    have hds : ∀ d ∈ ds, d.isDigit = true := fun e he => hd e (List.mem_append_left _ he)
    have hvalue : Nat.ofDigitChars 10 (ds ++ [d]) 0 =
        10 * Nat.ofDigitChars 10 ds 0 + (d.toNat - '0'.toNat) := by
      rw [Nat.ofDigitChars_append, Nat.ofDigitChars_cons, Nat.ofDigitChars_nil]
    rw [hvalue]
    generalize d.toNat - '0'.toNat = k at hlt hchar
    by_cases hnil : ds = []
    · subst hnil
      have hsingle : digits k = [d] := by rw [digits_eq_if, if_pos hlt, hchar]
      simp [digitCount, hsingle]
    have ih := ih hnil hds
    generalize Nat.ofDigitChars 10 ds 0 = n at ih
    -- Digits of value zero are zeros, and their value has a digit of its own.
    by_cases hn : n = 0
    · subst hn
      have hsingle : digits k = [d] := by rw [digits_eq_if, if_pos hlt, hchar]
      have hzeros : List.replicate ds.length '0' = ds := by
        have hlen : 0 < ds.length := List.length_pos_iff.mpr hnil
        have hcount : digitCount 0 = 1 := rfl
        rw [hcount, show digits 0 = ['0'] from rfl, ← List.replicate_succ'] at ih
        rwa [Nat.sub_add_cancel hlen] at ih
      simp [digitCount, hsingle, hzeros]
    · have hdigits : digits (10 * n + k) = digits n ++ [d] := by
        rw [digits_eq_if, if_neg (by omega), show (10 * n + k) / 10 = n by omega,
          show (10 * n + k) % 10 = k by omega, hchar]
      have hcount : digitCount (10 * n + k) = digitCount n + 1 := by simp [digitCount, hdigits]
      rw [hdigits, hcount, List.length_append, List.length_singleton, Nat.add_sub_add_right,
        ← List.append_assoc, ih]

/-! ## The point -/

/-- The digits behind the point, and the point before them; nothing if there are none. -/
def pointed : List Char → List Char
  | [] => []
  | d :: ds => '.' :: d :: ds

theorem pointed_of_ne_nil {ds : List Char} (h : ds ≠ []) : pointed ds = '.' :: ds := by
  cases ds with
  | nil => exact absurd rfl h
  | cons d ds => rfl

theorem sublist_pointed (ds : List Char) : List.Sublist ds (pointed ds) := by
  cases ds with
  | nil => exact .slnil
  | cons d ds => exact List.sublist_cons_self _ _

theorem mem_pointed {ds : List Char} {c : Char} (h : c ∈ pointed ds) : c = '.' ∨ c ∈ ds := by
  cases ds with
  | nil => cases h
  | cons d ds => exact List.mem_cons.mp h

/-- The digits of a coefficient, with zeros before them so that one digit stands before the point. -/
def padded (coefficient places : Nat) : List Char :=
  List.replicate (places + 1 - digitCount coefficient) '0' ++ digits coefficient

theorem isDigit_of_mem_padded {coefficient places : Nat} {d : Char} (h : d ∈ padded coefficient places) :
    d.isDigit = true := by
  rcases List.mem_append.mp h with h | h
  · rw [List.eq_of_mem_replicate h]
    rfl
  · exact isDigit_of_mem_digits h

theorem length_padded (coefficient places : Nat) :
    (padded coefficient places).length = max (places + 1) (digitCount coefficient) := by
  simp only [padded, List.length_append, List.length_replicate]
  show places + 1 - digitCount coefficient + digitCount coefficient = _
  omega

/-- A coefficient with a point in it or before it is its padded digits, cut at the point. -/
theorem pointAt_eq (coefficient places : Nat) :
    ∃ whole fraction, pointAt (digits coefficient) (-(places : Int) + digitCount coefficient) =
        whole ++ pointed fraction ∧
      whole ++ fraction = padded coefficient places ∧ fraction.length = places := by
  have hlen : (digits coefficient).length = digitCount coefficient := rfl
  have hpos := digitCount_pos coefficient
  unfold pointAt padded
  split
  · have hzeros : (-(-(places : Int) + digitCount coefficient)).toNat =
        places - digitCount coefficient := by omega
    refine ⟨['0'], List.replicate (places - digitCount coefficient) '0' ++ digits coefficient, ?_, ?_, ?_⟩
    · rw [pointed_of_ne_nil (by simp [digits_ne_nil]), hzeros]
      rfl
    · rw [← List.append_assoc, ← List.replicate_one, List.replicate_append_replicate]
      congr 2
      omega
    · rw [List.length_append, List.length_replicate]
      omega
  split
  · have hplaces : places = 0 := by omega
    subst hplaces
    exact ⟨digits coefficient, [], by simp [pointed]; omega, by simp; omega, rfl⟩
  · have hplace : (-(places : Int) + digitCount coefficient).toNat = digitCount coefficient - places := by
      omega
    have hzeros : places + 1 - digitCount coefficient = 0 := by omega
    rw [hplace, hzeros]
    refine ⟨_, (digits coefficient).drop (digitCount coefficient - places), ?_,
      List.take_append_drop _ _, ?_⟩
    · rw [pointed_of_ne_nil]
      rw [Ne, List.drop_eq_nil_iff]
      omega
    · rw [List.length_drop]
      omega

/-! ## Printing -/

/-- A point behind all digits is not written. -/
theorem pointAt_of_length_le {ds : List Char} {place : Int} (hne : ds ≠ []) (h : ds.length ≤ place) :
    pointAt ds place = ds ++ List.replicate (place.toNat - ds.length) '0' := by
  have hpos : 0 < ds.length := List.length_pos_iff.mpr hne
  rw [pointAt, if_neg (by omega), if_pos h]

/-- A positive exponent is printed as zeros behind the digits. -/
theorem plainChars_extend (negative : Bool) (coefficient : Nat) (exponent : Int) :
    plainChars (finite negative (extend coefficient (exponent - min exponent 0).toNat)
      (min exponent 0)) = plainChars (finite negative coefficient exponent) := by
  by_cases he : exponent ≤ 0
  · rw [min_eq_left he, extend_eq]
    simp
  have hpos : 0 < exponent := not_le.mp he
  rw [min_eq_right hpos.le, Int.sub_zero, extend_eq]
  by_cases hc : coefficient = 0
  · subst hc
    simp only [plainChars, hpos, Nat.zero_mul, and_true, if_true]
    rfl
  · have hdigits := digits_mul_pow hc exponent.toNat
    have hlen : (digits coefficient).length = digitCount coefficient := rfl
    have hcount : digitCount (coefficient * 10 ^ exponent.toNat) =
        digitCount coefficient + exponent.toNat := by
      simp [digitCount, hdigits]
    have hlong : pointAt _ (0 + digitCount (coefficient * 10 ^ exponent.toNat)) = _ :=
      pointAt_of_length_le (digits_ne_nil (coefficient * 10 ^ exponent.toNat)) (Int.zero_add _).ge
    have hshort : pointAt _ (exponent + digitCount coefficient) = _ :=
      pointAt_of_length_le (digits_ne_nil coefficient) (by omega)
    rw [plainChars, plainChars, if_neg (by omega), if_neg (by omega), hlong, hshort, hdigits, hcount]
    simp only [List.append_assoc, List.replicate_append_replicate, List.length_append,
      List.length_replicate, hlen]
    congr 3
    omega

theorem significant_toPlain (negative : Bool) (coefficient : Nat) (exponent : Int) :
    significant (toPlain (finite negative coefficient exponent)) =
      plainChars (finite negative coefficient exponent) := by
  refine significant_of_stands fun c hc => ?_
  rcases List.mem_append.mp hc with hc | hc
  · exact stands_signText negative c hc
  split at hc
  · rw [List.mem_singleton.mp hc]
    decide
  · exact stands_pointAt _ (stands_digits coefficient) c hc

/-- The text of a number without a positive exponent. -/
theorem plainChars_of_nonpos (negative : Bool) (coefficient places : Nat) :
    ∃ whole fraction, plainChars (finite negative coefficient (-places)) =
        signText negative ++ (whole ++ pointed fraction) ∧
      whole ++ fraction = padded coefficient places ∧ fraction.length = places := by
  obtain ⟨whole, fraction, htext, hparts⟩ := pointAt_eq coefficient places
  refine ⟨whole, fraction, ?_, hparts⟩
  rw [plainChars, if_neg (by omega), htext]

/-- The text of a number without a positive exponent is read as that number. -/
theorem read_toPlain (negative : Bool) (coefficient places : Nat)
    (hlen : (plainChars (finite negative coefficient (-places))).length < 10 ^ 17) :
    read (toPlain (finite negative coefficient (-places))) =
      .ok (finite negative coefficient (-places)) := by
  obtain ⟨whole, fraction, htext, hparts, hplaces⟩ := plainChars_of_nonpos negative coefficient places
  have hcount := congrArg List.length hparts
  have hpoint := (sublist_pointed fraction).length_le
  rw [length_padded, List.length_append] at hcount
  rw [htext] at hlen
  simp only [List.length_append] at hlen
  have hlimits : withinLimits coefficient (-places) = true :=
    withinLimits_of_lt places (show places < 10 ^ 17 by omega) (Nat.le_refl _)
      (show digitCount coefficient < 10 ^ 17 by omega)
  have hnumber := readNumber?_pointAt coefficient (-places + digitCount coefficient) [] (by omega) trivial
  rw [List.append_nil] at hnumber
  unfold read
  rw [significant_toPlain, plainChars, if_neg (by omega),
    splitSign_signText negative (unsigned_of_readNumber? hnumber)]
  simp only [hnumber, readExponent?, Option.map_some]
  rw [show (0 : Int) - (digitCount coefficient - (-places + digitCount coefficient)) = -places by omega]
  exact if_pos hlimits

/-! ## Numerals -/

/-- Digits without the zeros before them; the last digit stays. -/
def withoutLeadingZeros : List Char → List Char
  | '0' :: d :: ds => withoutLeadingZeros (d :: ds)
  | ds => ds

/-- The digits of a numeral without leading zeros are the padded digits of its value. -/
theorem padded_ofDigitChars {ds fs : List Char} (hne : ds ≠ []) (hd : ∀ d ∈ ds, d.isDigit = true)
    (hf : ∀ d ∈ fs, d.isDigit = true) :
    padded (Nat.ofDigitChars 10 (ds ++ fs) 0) fs.length = withoutLeadingZeros ds ++ fs := by
  fun_induction withoutLeadingZeros ds with
  | case1 d ds ih => exact ih (List.cons_ne_nil d ds) fun e he => hd e (List.mem_cons_of_mem _ he)
  | case2 ds hlast =>
    have hall : ∀ d ∈ ds ++ fs, d.isDigit = true := fun d hm =>
      (List.mem_append.mp hm).elim (hd d) (hf d)
    have hrow := zeros_append_digits (by simp [hne]) hall
    generalize Nat.ofDigitChars 10 (ds ++ fs) 0 = n at hrow ⊢
    rw [List.length_append] at hrow
    cases ds with
    | nil => exact absurd rfl hne
    | cons d ds =>
    by_cases hzero : d = '0'
    · -- A zero that stays is the only digit before the point.
      cases ds with
      | cons e ds => exact (hlast e ds (by rw [hzero])).elim
      | nil => rw [padded, ← hrow, List.length_singleton, Nat.add_comm]
    · -- No zero stands before the digits, so there are as many as the value has.
      have hnone : ((d :: ds).length + fs.length) - digitCount n = 0 := by
        cases hcount : ((d :: ds).length + fs.length) - digitCount n with
        | zero => rfl
        | succ count =>
          rw [hcount, List.replicate_succ] at hrow
          exact absurd (List.cons.inj hrow).1.symm hzero
      rw [hnone, List.replicate_zero, List.nil_append] at hrow
      rw [List.length_cons] at hnone
      rw [padded, show fs.length + 1 - digitCount n = 0 by omega]
      exact hrow

end Decimal

namespace Text

/-- The number that digits of any script write. -/
def digitsValue (ds : List Char) : Nat :=
  ds.foldl (fun n d => 10 * n + (digitValue? d).getD 0) 0

/-- The digits before the point. -/
def wholeDigits (cs : List Char) : List Char := cs.takeWhile isDigit

/-- The digits behind the point; none if there is no point. -/
def fractionDigits (cs : List Char) : List Char := (cs.dropWhile isDigit).tail

theorem toAsciiDigit_value {d : Char} (h : isDigit d = true) :
    (toAsciiDigit d).toNat - '0'.toNat = (digitValue? d).getD 0 := by
  obtain ⟨z, -, hle, hlt, hv⟩ := exists_zero_of_isDigit h
  have hchar : ∀ k < 10, (Nat.digitChar k).toNat - '0'.toNat = k := by decide
  rw [toAsciiDigit, hv]
  exact hchar _ (by omega)

theorem ofDigitChars_map_toAsciiDigit {ds : List Char} (h : ∀ d ∈ ds, isDigit d = true) :
    Nat.ofDigitChars 10 (ds.map toAsciiDigit) 0 = digitsValue ds := by
  rw [Nat.ofDigitChars_eq_foldl, List.foldl_map, digitsValue]
  refine List.foldl_ext _ _ _ fun n d hd => ?_
  rw [toAsciiDigit_value (h d hd)]

end Text

open Decimal

theorem IsNumeral.parts {cs : List Char} (h : IsNumeral cs) :
    cs = Text.wholeDigits cs ++ pointed (Text.fractionDigits cs) ∧ Text.wholeDigits cs ≠ [] ∧
      (∀ d ∈ Text.wholeDigits cs, Text.isDigit d = true) ∧
      ∀ d ∈ Text.fractionDigits cs, Text.isDigit d = true := by
  cases h with
  | whole hne hd =>
    have hwhole : Text.wholeDigits cs = cs := List.takeWhile_eq_self_iff.mpr hd
    have hfraction : Text.fractionDigits cs = [] := by
      rw [Text.fractionDigits, List.dropWhile_eq_nil_iff.mpr hd]
      rfl
    rw [hwhole, hfraction]
    exact ⟨(List.append_nil cs).symm, hne, hd, nofun⟩
  | @fraction ds fs hne hd hne' hf =>
    have hpoint : Text.isDigit '.' = false := by decide
    have hwhole : Text.wholeDigits (ds ++ '.' :: fs) = ds := by
      rw [Text.wholeDigits, List.takeWhile_append_of_pos hd, List.takeWhile_cons_of_neg (by simp [hpoint]),
        List.append_nil]
    have hfraction : Text.fractionDigits (ds ++ '.' :: fs) = fs := by
      rw [Text.fractionDigits, List.dropWhile_append_of_pos hd,
        List.dropWhile_cons_of_neg (by simp [hpoint]), List.tail_cons]
    rw [hwhole, hfraction, pointed_of_ne_nil hne']
    exact ⟨rfl, hne, hd, hf⟩

namespace Decimal

/-- A numeral is read exactly. -/
theorem read_parts {whole fraction : List Char} (hne : whole ≠ [])
    (hw : ∀ d ∈ whole, Text.isDigit d = true) (hf : ∀ d ∈ fraction, Text.isDigit d = true)
    (hlen : (whole ++ fraction).length < 10 ^ 17) :
    read (String.ofList (whole ++ pointed fraction)) =
      .ok (finite false (Text.digitsValue (whole ++ fraction)) (-fraction.length)) := by
  have hall : ∀ d ∈ whole ++ fraction, Text.isDigit d = true := fun d hd =>
    (List.mem_append.mp hd).elim (hw d) (hf d)
  rw [← Text.ofDigitChars_map_toAsciiDigit hall]
  cases fraction with
  | nil =>
    rw [List.append_nil] at hlen ⊢
    exact (congrArg read (by rw [pointed, List.append_nil])).trans (read_whole hne hw hlen)
  | cons d ds => exact read_fraction hne hw hf hlen

/-- The value of a numeral is printed with the digits of the numeral. -/
theorem toPlain_parts {whole fraction : List Char} (hne : whole ≠ [])
    (hw : ∀ d ∈ whole, Text.isDigit d = true) (hf : ∀ d ∈ fraction, Text.isDigit d = true) :
    toPlain (finite false (Text.digitsValue (whole ++ fraction)) (-fraction.length)) =
      String.ofList (withoutLeadingZeros (whole.map Text.toAsciiDigit) ++
        pointed (fraction.map Text.toAsciiDigit)) := by
  have hall : ∀ d ∈ whole ++ fraction, Text.isDigit d = true := fun d hd =>
    (List.mem_append.mp hd).elim (hw d) (hf d)
  have hrow := padded_ofDigitChars (mt List.map_eq_nil_iff.mp hne) (isDigit_map_toAsciiDigit hw)
    (isDigit_map_toAsciiDigit hf)
  rw [← List.map_append, Text.ofDigitChars_map_toAsciiDigit hall, List.length_map] at hrow
  obtain ⟨whole', fraction', htext, hparts, hplaces⟩ :=
    plainChars_of_nonpos false (Text.digitsValue (whole ++ fraction)) fraction.length
  -- Both cut the same row of digits, as many places from its end.
  obtain ⟨rfl, rfl⟩ := List.append_inj' (hparts.trans hrow) (by rw [hplaces, List.length_map])
  rw [toPlain, htext]
  rfl

end Decimal

/-- Digits with a point between them are a numeral. -/
theorem isNumeral_parts {whole fraction : List Char} (hne : whole ≠ [])
    (hd : ∀ d ∈ whole ++ fraction, d.isDigit = true) : IsNumeral (whole ++ pointed fraction) := by
  have hw : ∀ d ∈ whole, Text.isDigit d = true := fun d hm =>
    Text.isDigit_of_ascii (hd d (List.mem_append_left _ hm))
  cases fraction with
  | nil =>
    rw [pointed, List.append_nil]
    exact .whole hne hw
  | cons f fs =>
    exact .fraction hne hw (List.cons_ne_nil f fs) fun d hm =>
      Text.isDigit_of_ascii (hd d (List.mem_append_right _ hm))

/-! ## Printing and evaluating -/

/-- Only signs, points and digits are printed. -/
theorem eq_or_isDigit_of_mem_parts {negative : Bool} {whole fraction : List Char} {c : Char}
    (hd : ∀ d ∈ whole ++ fraction, d.isDigit = true)
    (hc : c ∈ signText negative ++ (whole ++ pointed fraction)) :
    c = '-' ∨ c = '.' ∨ c.isDigit = true := by
  rcases List.mem_append.mp hc with hc | hc
  · cases negative with
    | false => cases hc
    | true => exact .inl (List.mem_singleton.mp hc)
  rcases List.mem_append.mp hc with hc | hc
  · exact .inr (.inr (hd c (List.mem_append_left _ hc)))
  · exact .inr ((mem_pointed hc).imp_right fun hc => hd c (List.mem_append_right _ hc))

/-- A printed number has no exponent and as many digits behind its point as its exponent asks for. It is
read as a number of the same sign and value whose exponent is not positive, and that one is printed alike.
Without a sign it is one token. -/
theorem printed_numbers_are_read_back (negative : Bool) (coefficient : Nat) (exponent : Int)
    {text : String} (htext : text = (Node.number (.finite negative coefficient exponent)).display)
    (hlen : text.length < 10 ^ 17) :
    'e' ∉ text.toList ∧ 'E' ∉ text.toList ∧
    (∃ whole fraction, text.toList = signText negative ++ (whole ++ pointed fraction) ∧ whole ≠ [] ∧
      (∀ d ∈ whole ++ fraction, d.isDigit = true) ∧ (fraction.length : Int) = max 0 (-exponent)) ∧
    (∃ coefficient', Decimal.read text = .ok (.finite negative coefficient' (min exponent 0)) ∧
      (Decimal.finite negative coefficient' (min exponent 0)).toRat =
        (Decimal.finite negative coefficient exponent).toRat ∧
      (Node.number (.finite negative coefficient' (min exponent 0))).display = text) ∧
    (Decimal.read text = .ok (.finite negative coefficient exponent) ↔ exponent ≤ 0) ∧
    (negative = false → ∃ token, scanSource text = .ok [token] ∧ token.Is .number text) := by
  obtain ⟨places, hplaces⟩ : ∃ places : Nat, min exponent 0 = -places :=
    ⟨(-exponent).toNat, by omega⟩
  have hextend := plainChars_extend negative coefficient exponent
  have hvalue := cast_signed_extend negative coefficient (min_le_left exponent 0)
  have hsame : exponent ≤ 0 → extend coefficient (exponent - min exponent 0).toNat = coefficient := by
    intro he
    rw [min_eq_left he, Int.sub_self, extend_eq]
    exact Nat.mul_one coefficient
  generalize extend coefficient (exponent - min exponent 0).toNat = coefficient' at hextend hvalue hsame
  have hdisplay : (Node.number (.finite negative coefficient' (min exponent 0))).display = text := by
    rw [htext, Node.display, Node.display, toPlain, toPlain, hextend]
  have hchars : text.toList = plainChars (.finite negative coefficient' (-places)) := by
    rw [← hdisplay, hplaces]
    exact String.toList_ofList
  obtain ⟨whole, fraction, hparts, hrow, hcount⟩ := plainChars_of_nonpos negative coefficient' places
  have hdigits : ∀ d ∈ whole ++ fraction, d.isDigit = true := by
    rw [hrow]
    exact fun d => isDigit_of_mem_padded
  have hwhole : whole ≠ [] := by
    rintro rfl
    have hlong := congrArg List.length hrow
    rw [length_padded, List.nil_append] at hlong
    omega
  have hread : Decimal.read text = .ok (.finite negative coefficient' (min exponent 0)) := by
    rw [hplaces, ← read_toPlain negative coefficient' places (by rwa [← hchars, String.length_toList]),
      ← hdisplay, hplaces]
    rfl
  have hletter : ∀ c ∈ text.toList, c = '-' ∨ c = '.' ∨ c.isDigit = true := by
    rw [hchars, hparts]
    exact fun c => eq_or_isDigit_of_mem_parts hdigits
  refine ⟨fun he => absurd (hletter _ he) (by decide), fun he => absurd (hletter _ he) (by decide),
    ⟨whole, fraction, hchars.trans hparts, hwhole, hdigits, by omega⟩,
    ⟨coefficient', hread, hvalue, hdisplay⟩, ⟨fun h => ?_, fun he => ?_⟩, ?_⟩
  · rw [hread, Except.ok.injEq, Decimal.finite.injEq] at h
    exact min_eq_left_iff.mp h.2.2
  · rw [hread, min_eq_left he, hsame he]
  · rintro rfl
    have hnumeral : TokenKind.number.Spells text := by
      rw [TokenKind.Spells, hchars, hparts]
      exact isNumeral_parts hwhole hdigits
    exact ⟨_, scanSource_of_spells hnumeral, rfl, rfl⟩

/-- The number `-1.20E-4` and the number `7E+3`. -/
theorem printed_numbers_are_read_back_of_powers :
    (Node.number (.finite true 120 (-6))).display = "-0.000120" ∧
    Decimal.read "-0.000120" = .ok (.finite true 120 (-6)) ∧
    (Node.number (.finite false 7 3)).display = "7000" ∧
    Decimal.read "7000" ≠ .ok (.finite false 7 3) ∧
    ∃ token, scanSource "7000" = .ok [token] ∧ token.Is .number "7000" := by
  have hsmall : (Node.number (.finite true 120 (-6))).display = "-0.000120" := rfl
  have hlarge : (Node.number (.finite false 7 3)).display = "7000" := rfl
  obtain ⟨-, -, -, -, hsame, -⟩ := printed_numbers_are_read_back true 120 (-6) hsmall.symm (by decide)
  obtain ⟨-, -, -, -, hother, hscan⟩ := printed_numbers_are_read_back false 7 3 hlarge.symm (by decide)
  exact ⟨hsmall, hsame.mpr (by decide), hlarge, fun h => absurd (hother.mp h) (by decide), hscan rfl⟩

/-- A numeral of any scripts is evaluated to the number that its digits write, with as many places as its
fraction has digits. That number is printed with the digits of the numeral, leading zeros apart. -/
theorem numerals_keep_their_digits {text : String} (h : IsNumeral text.toList)
    (hlen : digitTotal text < 10 ^ 17) (callee : Callee) (machine : Machine) :
    let whole := Text.wholeDigits text.toList
    let fraction := Text.fractionDigits text.toList
    let value := Decimal.finite false (Text.digitsValue (whole ++ fraction)) (-fraction.length)
    text.toList = whole ++ pointed fraction ∧
    evaluate callee (.numeral text) machine = .ok (.number value) machine ∧
    (Node.number value).display = String.ofList (withoutLeadingZeros (whole.map Text.toAsciiDigit) ++
      pointed (fraction.map Text.toAsciiDigit)) := by
  intro whole fraction value
  obtain ⟨hparts, hne, hwhole, hfraction⟩ := h.parts
  have hcount : (whole ++ fraction).length ≤ digitTotal text := by
    rw [digitTotal, hparts, List.countP_append, List.countP_eq_length.mpr hwhole, List.length_append]
    refine Nat.add_le_add_left ?_ _
    calc fraction.length = fraction.countP Text.isDigit := (List.countP_eq_length.mpr hfraction).symm
      _ ≤ (pointed fraction).countP Text.isDigit := (sublist_pointed fraction).countP_le
  have hread : Decimal.read text = .ok value := by
    rw [← String.ofList_toList (s := text), hparts]
    exact read_parts hne hwhole hfraction (hcount.trans_lt hlen)
  refine ⟨hparts, ?_, toPlain_parts hne hwhole hfraction⟩
  rw [evaluate, hread]
  rfl

/-- Digits of four scripts behind each other, with zeros before them and behind them. -/
theorem numerals_keep_their_digits_of_scripts :
    evaluate (invoke 0) (.numeral "0٠4৭.५0") (Machine.start 0) =
      .ok (.number (.finite false 4750 (-2))) (Machine.start 0) ∧
    (Node.number (.finite false 4750 (-2))).display = "47.50" := by
  have hnumeral : IsNumeral "0٠4৭.५0".toList :=
    @IsNumeral.fraction ['0', '٠', '4', '৭'] ['५', '0'] (by decide) (List.all_eq_true.mp rfl) (by decide)
      (List.all_eq_true.mp rfl)
  obtain ⟨-, heval, hdisplay⟩ := numerals_keep_their_digits hnumeral (by decide) (invoke 0) (Machine.start 0)
  have hvalue : Text.digitsValue (Text.wholeDigits "0٠4৭.५0".toList ++
      Text.fractionDigits "0٠4৭.५0".toList) = 4750 := by decide
  have hdigits : withoutLeadingZeros ((Text.wholeDigits "0٠4৭.५0".toList).map Text.toAsciiDigit) ++
      pointed ((Text.fractionDigits "0٠4৭.५0".toList).map Text.toAsciiDigit) =
        ['4', '7', '.', '5', '0'] := by decide +kernel
  rw [hvalue] at heval hdisplay
  rw [hdigits] at hdisplay
  exact ⟨heval, hdisplay⟩

end Douro
