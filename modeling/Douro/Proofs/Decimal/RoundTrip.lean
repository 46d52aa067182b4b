import Douro.Decimal.Layout
import Douro.Proofs.Decimal.Reading

/-!
# The text of a decimal is read back

The text of a decimal keeps its sign, its coefficient and its exponent apart. A point that stands
`place` digits into the coefficient lowers the exponent by the digits behind it, so the three
layouts of `pointAt` are read by one rule.

* `significant_toScientific`: every character of the text counts.
* `readNumber?_pointAt`: a coefficient with a point in it.
* `readExponent?_exponentText`, `readWord?_wordText`: the other parts of the text.
* `read_toScientific`: the text gives the decimal back, or it is outside the limits of reading.
-/

namespace Douro

namespace Decimal

/-- Is a decimal within the limits of reading? Only finite ones have limits. -/
def Readable : Decimal → Prop
  | finite _ coefficient exponent => withinLimits coefficient exponent = true
  | infinity _ | nan .. => True

instance : DecidablePred Readable := fun decimal =>
  match decimal with
  | finite _ coefficient exponent => inferInstanceAs (Decidable (withinLimits coefficient exponent))
  | infinity _ | nan .. => inferInstanceAs (Decidable True)

/-! ## Digits -/

theorem isDigit_of_mem_digits {n : Nat} {d : Char} (h : d ∈ digits n) : d.isDigit = true :=
  Nat.isDigit_of_mem_toDigits (by decide) (by decide) h

theorem digits_ne_nil (n : Nat) : digits n ≠ [] := Nat.toDigits_ne_nil

theorem ofDigitChars_digits (n : Nat) : Nat.ofDigitChars 10 (digits n) 0 = n :=
  Nat.ofDigitChars_ten_toDigits

private theorem isDigit_of_mem_replicate {n : Nat} {d : Char} (h : d ∈ List.replicate n '0') :
    d.isDigit = true := by
  rw [List.eq_of_mem_replicate h]
  rfl

/-- Zeros before digits change nothing. -/
theorem ofDigitChars_replicate_append (count : Nat) (ds : List Char) :
    Nat.ofDigitChars 10 (List.replicate count '0' ++ ds) 0 = Nat.ofDigitChars 10 ds 0 := by
  rw [Nat.ofDigitChars_append, Nat.ofDigitChars_replicate_zero, Nat.mul_zero]

/-! ## The characters of the text -/

/-- A character that is read as it stands: ASCII, no blank and no underscore. -/
def Stands (c : Char) : Prop := 0x20 < c.toNat ∧ c.toNat < 0x7f ∧ c ≠ '_'

instance (c : Char) : Decidable (Stands c) := inferInstanceAs (Decidable (_ ∧ _))

theorem stands_of_isDigit {c : Char} (h : c.isDigit = true) : Stands c := by
  simp only [Char.isDigit, Bool.and_eq_true, decide_eq_true_eq, ge_iff_le] at h
  have hlow : 48 ≤ c.toNat := h.1
  have hhigh : c.toNat ≤ 57 := h.2
  refine ⟨by omega, by omega, ?_⟩
  rintro rfl
  exact absurd hhigh (by decide)

theorem significant_of_stands {cs : List Char} (h : ∀ c ∈ cs, Stands c) :
    significant (String.ofList cs) = cs := by
  have hcounts : ∀ c ∈ cs, Text.isBlank c = false ∧ c ≠ '_' := by
    intro c hc
    obtain ⟨hlow, hhigh, hne⟩ := h c hc
    refine ⟨?_, hne⟩
    unfold Text.isBlank Text.isBlankCode
    grind
  have hself : ∀ c ∈ cs, Text.toAsciiDigit c = c := fun c hc =>
    Text.toAsciiDigit_of_lt (Nat.lt_trans (h c hc).2.1 (by decide))
  rw [significant_of_forall (by rwa [String.toList_ofList]), String.toList_ofList,
    List.map_congr_left hself, List.map_id']

private theorem stands_of_all {cs : List Char} (h : cs.all fun c => Stands c) :
    ∀ c ∈ cs, Stands c := fun c hc => of_decide_eq_true (List.all_eq_true.mp h c hc)

theorem stands_signText (negative : Bool) : ∀ c ∈ signText negative, Stands c :=
  stands_of_all (by cases negative <;> decide)

theorem stands_pointAt {ds : List Char} (place : Int) (hd : ∀ d ∈ ds, Stands d) :
    ∀ c ∈ pointAt ds place, Stands c := by
  intro c hc
  unfold pointAt at hc
  split at hc
  · simp only [List.cons_append, List.mem_cons, List.mem_append, List.mem_replicate] at hc
    rcases hc with rfl | rfl | ⟨-, rfl⟩ | hc
    · decide
    · decide
    · decide
    · exact hd c hc
  split at hc
  · rcases List.mem_append.mp hc with hc | hc
    · exact hd c hc
    · exact stands_of_isDigit (isDigit_of_mem_replicate hc)
  · rcases List.mem_append.mp hc with hc | hc
    · exact hd c (List.mem_of_mem_take hc)
    rcases List.mem_cons.mp hc with rfl | hc
    · decide
    · exact hd c (List.mem_of_mem_drop hc)

theorem stands_digits (n : Nat) : ∀ d ∈ digits n, Stands d :=
  fun _ hd => stands_of_isDigit (isDigit_of_mem_digits hd)

private theorem stands_exponentText (exponent : Int) : ∀ c ∈ exponentText exponent, Stands c := by
  intro c hc
  unfold exponentText at hc
  rcases List.mem_cons.mp hc with rfl | hc
  · decide
  rcases List.mem_cons.mp hc with rfl | hc
  · split <;> decide
  · exact stands_digits _ c hc

private theorem stands_wordText (signaling : Bool) (payload : Nat) :
    ∀ c ∈ wordText signaling payload, Stands c := by
  intro c hc
  rcases List.mem_append.mp hc with hc | hc
  · exact stands_of_all (by cases signaling <;> decide) c hc
  · unfold payloadText at hc
    split at hc
    · cases hc
    · exact stands_digits payload c hc

/-- Every character of the text of a decimal counts. -/
theorem significant_toScientific (decimal : Decimal) :
    significant decimal.toScientific = decimal.scientificChars := by
  refine significant_of_stands fun c hc => ?_
  cases decimal with
  | finite negative coefficient exponent =>
    have hds := stands_digits coefficient
    rcases List.mem_append.mp hc with hc | hc
    · exact stands_signText negative c hc
    split at hc
    · exact stands_pointAt _ hds c hc
    rcases List.mem_append.mp hc with hc | hc
    · exact stands_pointAt _ hds c hc
    · exact stands_exponentText _ c hc
  | infinity negative =>
    rcases List.mem_append.mp hc with hc | hc
    · exact stands_signText negative c hc
    · exact stands_of_all (by decide) c hc
  | nan negative signaling payload =>
    rcases List.mem_append.mp hc with hc | hc
    · exact stands_signText negative c hc
    · exact stands_wordText signaling payload c hc

/-! ## The parts of the text -/

theorem splitSign_signText (negative : Bool) {cs : List Char} (h : Unsigned cs) :
    splitSign (signText negative ++ cs) = (negative, cs) := by
  cases negative with
  | false => exact splitSign_of_unsigned h
  | true => rfl

/-- A coefficient with a point in it or before it: the digits behind the point lower the
exponent. -/
theorem readNumber?_pointAt (coefficient : Nat) (place : Int) (rest : List Char)
    (hp : place ≤ digitCount coefficient) (hr : EndsNumber rest) :
    readNumber? (pointAt (digits coefficient) place ++ rest) =
      (readExponent? rest).map fun exponent =>
        (coefficient, exponent - (digitCount coefficient - place)) := by
  have hd : ∀ d ∈ digits coefficient, d.isDigit = true := fun _ => isDigit_of_mem_digits
  have hlen : (digits coefficient).length = digitCount coefficient := rfl
  unfold pointAt
  split
  · next hle =>
    have hf : ∀ d ∈ List.replicate (-place).toNat '0' ++ digits coefficient, d.isDigit = true := by
      intro d hm
      rcases List.mem_append.mp hm with hm | hm
      · exact isDigit_of_mem_replicate hm
      · exact hd d hm
    have hvalue : Nat.ofDigitChars 10
        (['0'] ++ (List.replicate (-place).toNat '0' ++ digits coefficient)) 0 = coefficient := by
      rw [← List.append_assoc, ← List.replicate_one, List.replicate_append_replicate,
        ofDigitChars_replicate_append, ofDigitChars_digits]
    have hzero : ∀ d ∈ ['0'], d.isDigit = true := List.forall_mem_singleton.mpr rfl
    have hfraction := readNumber?_fraction rest (List.cons_ne_nil '0' []) hzero hf hr
    rw [hvalue, List.length_append, List.length_replicate, hlen] at hfraction
    have hshift : (((-place).toNat + digitCount coefficient : Nat) : Int) =
        digitCount coefficient - place := by omega
    rw [hshift] at hfraction
    simpa using hfraction
  split
  · next hwhole =>
    have hplace : place = digitCount coefficient := by omega
    have hnone : place.toNat - (digits coefficient).length = 0 := by omega
    rw [hnone, List.replicate_zero, List.append_nil,
      readNumber?_whole rest (digits_ne_nil coefficient) hd hr, ofDigitChars_digits, hplace,
      Int.sub_self]
    simp only [Int.sub_zero]
  · next hpos hinside =>
    have htake : ∀ d ∈ (digits coefficient).take place.toNat, d.isDigit = true :=
      fun d hm => hd d (List.mem_of_mem_take hm)
    have hdrop : ∀ d ∈ (digits coefficient).drop place.toNat, d.isDigit = true :=
      fun d hm => hd d (List.mem_of_mem_drop hm)
    have hne : (digits coefficient).take place.toNat ≠ [] := by
      rw [Ne, List.take_eq_nil_iff, not_or]
      exact ⟨by omega, digits_ne_nil coefficient⟩
    have hshift : ((digitCount coefficient - place.toNat : Nat) : Int) =
        digitCount coefficient - place := by omega
    rw [List.append_assoc, List.cons_append, readNumber?_fraction rest hne htake hdrop hr,
      List.take_append_drop, ofDigitChars_digits, List.length_drop, hlen, hshift]

private theorem readExponent?_mark (negative : Bool) {n : Nat} {cs : List Char}
    (h : splitSign cs = (negative, digits n)) :
    readExponent? ('E' :: cs) = some (if negative then -(n : Int) else n) := by
  have hall : (digits n).all Char.isDigit = true :=
    List.all_eq_true.mpr fun _ => isDigit_of_mem_digits
  rw [readExponent?, if_pos (.inr rfl), h]
  simp only [ofDigitChars_digits]
  exact if_pos ⟨digits_ne_nil n, hall⟩

theorem readExponent?_exponentText (exponent : Int) :
    readExponent? (exponentText exponent) = some exponent := by
  unfold exponentText
  by_cases hneg : exponent < 0
  · rw [if_pos hneg, readExponent?_mark true rfl, if_pos rfl]
    congr 1
    omega
  · rw [if_neg hneg, readExponent?_mark false rfl, if_neg Bool.false_ne_true]
    congr 1
    omega

theorem readPayload?_payloadText (payload : Nat) :
    readPayload? (payloadText payload) = some payload := by
  unfold payloadText
  split
  · next h => rw [h]; rfl
  · rw [readPayload?, if_pos (List.all_eq_true.mpr fun _ => isDigit_of_mem_digits),
      ofDigitChars_digits]

private theorem toLower_of_isDigit {c : Char} (h : c.isDigit = true) : c.toLower = c := by
  simp only [Char.isDigit, Bool.and_eq_true, decide_eq_true_eq, ge_iff_le] at h
  unfold Char.toLower
  rw [dif_neg]
  intro hupper
  exact absurd (UInt32.le_trans hupper.1 h.2) (by decide)

private theorem map_toLower_payloadText (payload : Nat) :
    (payloadText payload).map Char.toLower = payloadText payload := by
  unfold payloadText
  split
  · rfl
  · rw [List.map_congr_left fun d hd => toLower_of_isDigit (isDigit_of_mem_digits hd), List.map_id']

theorem readWord?_wordText (negative signaling : Bool) (payload : Nat) :
    readWord? negative (wordText signaling payload) = some (nan negative signaling payload) := by
  unfold readWord? wordText
  rw [List.map_append, map_toLower_payloadText]
  cases signaling with
  | false =>
    show (readPayload? (payloadText payload)).map _ = _
    rw [readPayload?_payloadText]
    rfl
  | true =>
    show (readPayload? (payloadText payload)).map _ = _
    rw [readPayload?_payloadText]
    rfl

/-! ## The text as a whole -/

/-- The unsigned text of a finite decimal is read as its coefficient and its exponent. -/
theorem readNumber?_scientific (coefficient : Nat) (exponent : Int) :
    readNumber? (if isPlain coefficient exponent then
        pointAt (digits coefficient) (exponent + digitCount coefficient)
      else pointAt (digits coefficient) 1 ++ exponentText (adjusted coefficient exponent)) =
      some (coefficient, exponent) := by
  have hpos := digitCount_pos coefficient
  split
  · next hplain =>
    have hle : exponent ≤ 0 := by
      unfold isPlain at hplain
      simp only [Bool.and_eq_true, decide_eq_true_eq] at hplain
      exact hplain.1
    have h := readNumber?_pointAt coefficient (exponent + digitCount coefficient) [] (by omega)
      trivial
    rw [List.append_nil] at h
    rw [h]
    simp only [readExponent?, Option.map_some, Option.some.injEq, Prod.mk.injEq, true_and]
    omega
  · rw [readNumber?_pointAt coefficient 1 (exponentText _) (by omega) ⟨by decide, by decide⟩,
      readExponent?_exponentText]
    simp only [adjusted, Option.map_some, Option.some.injEq, Prod.mk.injEq, true_and]
    omega

/-- A number that is read starts with no sign. -/
theorem unsigned_of_readNumber? {cs : List Char} {value : Nat × Int}
    (h : readNumber? cs = some value) : Unsigned cs := by
  cases cs with
  | nil => trivial
  | cons c cs => constructor <;> rintro rfl <;> cases h

/-- The text of a decimal gives the decimal back, unless that is outside the limits of reading. -/
theorem read_toScientific (decimal : Decimal) :
    read decimal.toScientific =
      if decimal.Readable then .ok decimal else .error .outsideLimits := by
  unfold read
  rw [significant_toScientific]
  cases decimal with
  | finite negative coefficient exponent =>
    have hnumber := readNumber?_scientific coefficient exponent
    rw [scientificChars, splitSign_signText negative (unsigned_of_readNumber? hnumber)]
    simp only [hnumber]
    rfl
  | infinity negative =>
    have hunsigned : Unsigned infinityText := ⟨by decide, by decide⟩
    rw [scientificChars, splitSign_signText negative hunsigned]
    rfl
  | nan negative signaling payload =>
    have hunsigned : Unsigned (wordText signaling payload) := by
      cases signaling <;> exact ⟨by decide, by decide⟩
    have hnumber : readNumber? (wordText signaling payload) = none := by
      cases signaling <;> rfl
    rw [scientificChars, splitSign_signText negative hunsigned]
    simp only [hnumber, readWord?_wordText]
    rfl

end Decimal

end Douro
