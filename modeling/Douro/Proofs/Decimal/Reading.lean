import Douro.Decimal.Reading
import Douro.Proofs.Token.Spelling

/-!
# What reading a decimal gives

A text without blanks and underscores is read as it stands, each digit by its value. Its whole part
and its fraction together are the coefficient, and each digit of the fraction lowers the exponent
by one.

* `Text.toAsciiDigit_of_lt`, `Text.isBlank_of_isDigit`: the characters that stay as they are.
* `splitSign_of_unsigned`: a text that starts with no sign.
* `readNumber?_whole`, `readNumber?_fraction`: a number, whatever stands behind its digits.
* `read_of_isNumeral`: a numeral of fewer than `10 ^ 17` digits is read as a finite decimal.
-/

namespace Douro

/-! ## Digits -/

namespace Text

theorem exists_zero_of_isDigit {c : Char} (h : isDigit c = true) :
    ∃ z ∈ digitZeros, z ≤ c.toNat ∧ c.toNat < z + 10 ∧ digitValue? c = some (c.toNat - z) := by
  obtain ⟨value, hv⟩ := Option.isSome_iff_exists.mp h
  obtain ⟨z, hz, rfl⟩ := Option.map_eq_some_iff.mp hv
  have hp := List.find?_some hz
  simp only [Bool.and_eq_true, decide_eq_true_eq] at hp
  exact ⟨z, List.mem_of_find?_eq_some hz, hp.1, hp.2, hv⟩

/-- No digit of any script has the code point of a blank. -/
theorem isBlankCode_digit : ∀ z ∈ digitZeros, ∀ k < 10, isBlankCode (z + k) = false := by decide

theorem isBlank_of_isDigit {c : Char} (h : isDigit c = true) : isBlank c = false := by
  obtain ⟨z, hz, hle, hlt, -⟩ := exists_zero_of_isDigit h
  have := isBlankCode_digit z hz (c.toNat - z) (by omega)
  rwa [Nat.add_sub_cancel' hle] at this

theorem ne_of_isDigit {c d : Char} (h : isDigit c = true) (hd : isDigit d = false) : c ≠ d := by
  rintro rfl
  rw [h] at hd
  cases hd

theorem isDigit_toAsciiDigit {c : Char} (h : isDigit c = true) :
    (toAsciiDigit c).isDigit = true := by
  obtain ⟨z, -, hle, hlt, hv⟩ := exists_zero_of_isDigit h
  unfold toAsciiDigit
  rw [hv]
  have key : ∀ k < 10, (Nat.digitChar k).isDigit = true := by decide
  exact key _ (by omega)

/-- ASCII characters, and some more, stay as they are. -/
theorem toAsciiDigit_of_lt {c : Char} (h : c.toNat < 0x660) : toAsciiDigit c = c := by
  unfold toAsciiDigit
  split
  · next value hv =>
    obtain ⟨z, hz, hle, hlt, hv'⟩ := exists_zero_of_isDigit (by rw [isDigit, hv]; rfl : isDigit c = true)
    have hz' : z = 0x30 := by
      have key : ∀ z ∈ digitZeros, z = 0x30 ∨ 0x660 ≤ z := by decide
      rcases key z hz with hz | hz <;> omega
    subst hz'
    rw [hv] at hv'
    cases hv'
    have key : ∀ k < 10, Nat.digitChar k = Char.ofNat (0x30 + k) := by decide
    rw [key _ (by omega), Nat.add_sub_cancel' hle, Char.ofNat_toNat]
  · rfl

theorem trimBlanks_of_forall {cs : List Char} (h : ∀ c ∈ cs, isBlank c = false) :
    trimBlanks cs = cs := by
  have key : ∀ ds : List Char, (∀ c ∈ ds, isBlank c = false) → ds.dropWhile isBlank = ds := by
    intro ds hd
    cases ds with
    | nil => rfl
    | cons d ds => rw [List.dropWhile_cons, hd d List.mem_cons_self]; rfl
  unfold trimBlanks
  rw [key cs h, key _ fun c hc => h c (List.mem_reverse.mp hc), List.reverse_reverse]

end Text

namespace Decimal

theorem significant_of_forall {text : String}
    (h : ∀ c ∈ text.toList, Text.isBlank c = false ∧ c ≠ '_') :
    significant text = text.toList.map Text.toAsciiDigit := by
  unfold significant
  rw [Text.trimBlanks_of_forall fun c hc => (h c hc).1,
    List.filter_eq_self.mpr fun c hc => by simpa using (h c hc).2]

/-! ## Signs -/

/-- A text that starts with no sign. -/
def Unsigned : List Char → Prop
  | [] => True
  | c :: _ => c ≠ '-' ∧ c ≠ '+'

theorem splitSign_of_unsigned {cs : List Char} (h : Unsigned cs) : splitSign cs = (false, cs) := by
  unfold splitSign
  split
  · exact absurd rfl h.1
  · exact absurd rfl h.2
  · rfl

theorem unsigned_append {ds : List Char} (rest : List Char) (hne : ds ≠ [])
    (hd : ∀ d ∈ ds, d.isDigit = true) : Unsigned (ds ++ rest) := by
  cases ds with
  | nil => exact absurd rfl hne
  | cons d ds =>
    have h := hd d List.mem_cons_self
    constructor <;> rintro rfl <;> cases h

/-! ## Numbers -/

/-- A text that starts with neither a digit nor a point. -/
def EndsNumber : List Char → Prop
  | [] => True
  | c :: _ => c.isDigit = false ∧ c ≠ '.'

theorem takeWhile_append_digits {ds : List Char} (rest : List Char) (hd : ∀ d ∈ ds, d.isDigit = true)
    (hr : ∀ c cs, rest = c :: cs → c.isDigit = false) :
    (ds ++ rest).takeWhile Char.isDigit = ds ∧ (ds ++ rest).dropWhile Char.isDigit = rest := by
  rw [List.takeWhile_append_of_pos hd, List.dropWhile_append_of_pos hd]
  cases rest with
  | nil => exact ⟨List.append_nil ds, rfl⟩
  | cons c cs =>
    have hc := hr c cs rfl
    rw [List.takeWhile_cons, List.dropWhile_cons, hc]
    exact ⟨List.append_nil ds, rfl⟩

/-- A number without a fraction. -/
theorem readNumber?_whole {ds : List Char} (rest : List Char) (hne : ds ≠ [])
    (hd : ∀ d ∈ ds, d.isDigit = true) (hr : EndsNumber rest) :
    readNumber? (ds ++ rest) =
      (readExponent? rest).map fun exponent => (Nat.ofDigitChars 10 ds 0, exponent) := by
  have hr' : ∀ c cs, rest = c :: cs → c.isDigit = false := by
    rintro c cs rfl
    exact hr.1
  obtain ⟨h₁, h₂⟩ := takeWhile_append_digits rest hd hr'
  have hs : splitFraction rest = ([], rest) := by
    unfold splitFraction
    split
    · exact absurd rfl hr.2
    · rfl
  unfold readNumber?
  simp only [h₁, h₂, hs, hne, false_and, if_false, List.append_nil, List.length_nil,
    Int.natCast_zero, Int.sub_zero]

/-- A number with a fraction. -/
theorem readNumber?_fraction {ds fs : List Char} (rest : List Char) (hne : ds ≠ [])
    (hd : ∀ d ∈ ds, d.isDigit = true) (hf : ∀ d ∈ fs, d.isDigit = true) (hr : EndsNumber rest) :
    readNumber? (ds ++ '.' :: (fs ++ rest)) =
      (readExponent? rest).map fun exponent =>
        (Nat.ofDigitChars 10 (ds ++ fs) 0, exponent - (fs.length : Int)) := by
  obtain ⟨h₁, h₂⟩ := takeWhile_append_digits ('.' :: (fs ++ rest)) hd (by
    rintro c cs h
    cases h
    rfl)
  obtain ⟨h₃, h₄⟩ := takeWhile_append_digits rest hf (by
    rintro c cs rfl
    exact hr.1)
  unfold readNumber?
  simp only [h₁, h₂, splitFraction, h₃, h₄, hne, false_and, if_false]

/-! ## Limits -/

theorem powerOfTen_succ (count : Nat) : powerOfTen (count + 1) = powerOfTen count * 10 := rfl

theorem ofDigitChars_lt_powerOfTen {ds : List Char} (hd : ∀ d ∈ ds, d.isDigit = true) :
    Nat.ofDigitChars 10 ds 0 < powerOfTen ds.length := by
  induction ds with
  | nil => decide
  | cons d ds ih =>
    rw [Nat.ofDigitChars_cons, Nat.ofDigitChars_eq_ofDigitChars_zero]
    have hlt := ih fun e he => hd e (List.mem_cons_of_mem _ he)
    have hv : d.toNat - '0'.toNat ≤ 9 := by
      have := hd d List.mem_cons_self
      simp only [Char.isDigit, Bool.and_eq_true, decide_eq_true_eq, ge_iff_le] at this
      have h2 : d.toNat ≤ 57 := this.2
      show d.toNat - 48 ≤ 9
      omega
    calc powerOfTen ds.length * (10 * 0 + (d.toNat - '0'.toNat)) + Nat.ofDigitChars 10 ds 0
        < powerOfTen ds.length * 9 + powerOfTen ds.length :=
          Nat.add_lt_add_of_le_of_lt (Nat.mul_le_mul_left _ (by omega)) hlt
      _ = powerOfTen (d :: ds).length := by rw [List.length_cons, powerOfTen_succ]; omega

theorem digitCount_pos (n : Nat) : 0 < digitCount n := Nat.length_toDigits_pos

theorem digitCount_ofDigitChars_le {ds : List Char} (hne : ds ≠ [])
    (hd : ∀ d ∈ ds, d.isDigit = true) : digitCount (Nat.ofDigitChars 10 ds 0) ≤ ds.length :=
  (Nat.length_toDigits_le_iff (by decide) (List.length_pos_iff.mpr hne)).mpr (ofDigitChars_lt_powerOfTen hd)

/-- A number of few digits with an exponent that is not positive is within the limits. -/
theorem withinLimits_of_lt {coefficient count : Nat} (places : Nat) (hp : places < powerOfTen 17)
    (hc : digitCount coefficient ≤ count) (hn : count < powerOfTen 17) :
    withinLimits coefficient (-(places : Int)) = true := by
  have hpos := digitCount_pos coefficient
  have hmost : powerOfTen 17 = 100000000000000000 := rfl
  unfold withinLimits minRead maxRead
  simp only [Bool.and_eq_true, decide_eq_true_eq]
  refine ⟨by omega, ?_⟩
  split
  · omega
  · unfold adjusted
    omega

/-! ## Numerals -/

/-- How many digits a text has. -/
def digitTotal (text : String) : Nat := text.toList.countP Text.isDigit

theorem isDigit_map_toAsciiDigit {ds : List Char} (h : ∀ d ∈ ds, Text.isDigit d = true) :
    ∀ d ∈ ds.map Text.toAsciiDigit, d.isDigit = true := by
  intro d hd
  obtain ⟨c, hc, rfl⟩ := List.mem_map.mp hd
  exact Text.isDigit_toAsciiDigit (h c hc)

private theorem not_blank_of_isDigit {c : Char} (h : Text.isDigit c = true) :
    Text.isBlank c = false ∧ c ≠ '_' :=
  ⟨Text.isBlank_of_isDigit h, Text.ne_of_isDigit h (by decide)⟩

/-- A numeral without a fraction is the value of its digits. -/
theorem read_whole {ds : List Char} (hne : ds ≠ []) (hd : ∀ d ∈ ds, Text.isDigit d = true)
    (hlen : ds.length < powerOfTen 17) :
    read (String.ofList ds) =
      .ok (.finite false (Nat.ofDigitChars 10 (ds.map Text.toAsciiDigit) 0) 0) := by
  have hne' : ds.map Text.toAsciiDigit ≠ [] := by simpa using hne
  have hd' := isDigit_map_toAsciiDigit hd
  have hsig : significant (String.ofList ds) = ds.map Text.toAsciiDigit ++ [] := by
    rw [significant_of_forall, String.toList_ofList, List.append_nil]
    rw [String.toList_ofList]
    exact fun c hc => not_blank_of_isDigit (hd c hc)
  have hcount := digitCount_ofDigitChars_le hne' hd'
  rw [List.length_map] at hcount
  have hlimits := withinLimits_of_lt 0 (by decide) hcount hlen
  unfold read
  rw [hsig, splitSign_of_unsigned (unsigned_append _ hne' hd')]
  simp only [readNumber?_whole [] hne' hd' trivial, readExponent?, Option.map_some]
  exact if_pos hlimits

/-- A numeral with a fraction is the value of all its digits, as many places down as the fraction
has digits. -/
theorem read_fraction {ds fs : List Char} (hne : ds ≠ []) (hd : ∀ d ∈ ds, Text.isDigit d = true)
    (hf : ∀ d ∈ fs, Text.isDigit d = true) (hlen : (ds ++ fs).length < powerOfTen 17) :
    read (String.ofList (ds ++ '.' :: fs)) =
      .ok (.finite false (Nat.ofDigitChars 10 ((ds ++ fs).map Text.toAsciiDigit) 0)
        (-(fs.length : Int))) := by
  have hne' : ds.map Text.toAsciiDigit ≠ [] := by simpa using hne
  have hd' := isDigit_map_toAsciiDigit hd
  have hf' := isDigit_map_toAsciiDigit hf
  have hsig : significant (String.ofList (ds ++ '.' :: fs)) =
      ds.map Text.toAsciiDigit ++ '.' :: (fs.map Text.toAsciiDigit ++ []) := by
    rw [significant_of_forall, String.toList_ofList, List.map_append, List.map_cons, List.append_nil,
      Text.toAsciiDigit_of_lt (by decide : '.'.toNat < 0x660)]
    rw [String.toList_ofList]
    intro c hc
    rcases List.mem_append.mp hc with hc | hc
    · exact not_blank_of_isDigit (hd c hc)
    rcases List.mem_cons.mp hc with rfl | hc
    · decide
    · exact not_blank_of_isDigit (hf c hc)
  have hall : ∀ d ∈ ds ++ fs, Text.isDigit d = true := by
    intro d hm
    rcases List.mem_append.mp hm with hm | hm
    · exact hd d hm
    · exact hf d hm
  have hne'' : (ds ++ fs).map Text.toAsciiDigit ≠ [] := by simp [hne]
  have hcount := digitCount_ofDigitChars_le hne'' (isDigit_map_toAsciiDigit hall)
  rw [List.length_map] at hcount
  have hlimits := withinLimits_of_lt fs.length (by
    rw [List.length_append] at hlen
    omega) hcount hlen
  unfold read
  rw [hsig, splitSign_of_unsigned (unsigned_append _ hne' hd')]
  simp only [readNumber?_fraction [] hne' hd' hf' trivial, readExponent?, Option.map_some,
    List.length_map, Int.zero_sub, ← List.map_append]
  exact if_pos hlimits

theorem read_of_isNumeral {text : String} (h : IsNumeral text.toList)
    (hlen : digitTotal text < powerOfTen 17) :
    ∃ coefficient exponent, read text = .ok (.finite false coefficient exponent) := by
  obtain ⟨cs, rfl⟩ : ∃ cs, text = String.ofList cs := ⟨text.toList, by simp⟩
  rw [digitTotal] at hlen
  rw [String.toList_ofList] at h hlen
  cases h with
  | whole hne hd =>
    rw [List.countP_eq_length.mpr hd] at hlen
    exact ⟨_, _, read_whole hne hd hlen⟩
  | fraction hne hd _ hf =>
    rw [List.countP_append, List.countP_cons, List.countP_eq_length.mpr hd,
      List.countP_eq_length.mpr hf] at hlen
    exact ⟨_, _, read_fraction hne hd hf (by rw [List.length_append]; omega)⟩

end Decimal

end Douro
