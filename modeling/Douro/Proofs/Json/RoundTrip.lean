import Douro.Json.Reading
import Douro.Json.Writing
import Douro.Proofs.Decimal.RoundTrip

/-!
# The text of a JSON value is read back

A value is read from its text with anything behind it, as long as that does not go on with a number.
The text gives back every value whose numbers are whole and whose objects have no key twice: other
numbers are kept as they are written, and of a key that comes twice only the last value is kept.

* `readString?_writeString`: a string, whatever its characters.
* `Faithful`: the values that their texts give back.
* `Faithful.readBack`: such a value, with a text behind it.
* `Faithful.read?_text`: such a value as a whole text.
-/

namespace Douro

namespace Json

/-! ## Strings -/

/-- A character is written by a letter behind a backslash, by its code or as itself. -/
theorem escapedChar_cases (c : Char) :
    (∃ letter, letter ≠ 'u' ∧ escapeLetter? letter = some c ∧ escapedChar c = ['\\', letter]) ∨
    (c.toNat < 0x20 ∧ escapedChar c = '\\' :: 'u' :: Text.hexDigits 4 c.toNat) ∨
    (0x20 ≤ c.toNat ∧ c ≠ '\x22' ∧ c ≠ '\\' ∧ escapedChar c = [c]) := by
  by_cases h : c ∈ ['\x22', '\\', '\n', '\r', '\t', '\x0c', '\x08']
  · refine .inl ?_
    simp only [List.mem_cons, List.not_mem_nil, or_false] at h
    rcases h with rfl | rfl | rfl | rfl | rfl | rfl | rfl
    · exact ⟨'\x22', by decide⟩
    · exact ⟨'\\', by decide⟩
    · exact ⟨'n', by decide⟩
    · exact ⟨'r', by decide⟩
    · exact ⟨'t', by decide⟩
    · exact ⟨'f', by decide⟩
    · exact ⟨'b', by decide⟩
  · simp only [List.mem_cons, List.not_mem_nil, or_false, not_or] at h
    unfold escapedChar
    grind

private theorem codeUnit?_hexDigits {n : Nat} (h : n < 0x20) :
    ∃ a b c d, Text.hexDigits 4 n = [a, b, c, d] ∧ codeUnit? a b c d = some n := by
  have hall : ∀ n < 0x20, codeUnit? (Nat.digitChar (n / 16 / 16 / 16 % 16))
      (Nat.digitChar (n / 16 / 16 % 16)) (Nat.digitChar (n / 16 % 16)) (Nat.digitChar (n % 16)) =
        some n := by decide
  exact ⟨_, _, _, _, rfl, hall n h⟩

/-- A character of a string is read from the way it is written. -/
theorem readUnits?_escapedChar (c : Char) (cs : List Char) :
    readUnits? (escapedChar c ++ cs) = (readUnits? cs).map fun r => (c.toNat :: r.1, r.2) := by
  obtain ⟨letter, hu, hl, he⟩ | ⟨hc, he⟩ | ⟨hc, hq, hb, he⟩ := escapedChar_cases c
  · rw [he, List.cons_append, List.cons_append, List.nil_append, readUnits?.eq_def]
    simp [hu, hl]
  · obtain ⟨a, b, x, d, hd, hunit⟩ := codeUnit?_hexDigits hc
    rw [he, hd, List.cons_append, List.cons_append, readUnits?.eq_def]
    simp [hunit]
  · rw [he, List.cons_append, List.nil_append, readUnits?.eq_def]
    simp [hq, hb, Nat.not_lt.mpr hc]

theorem readUnits?_flatMap (chars cs : List Char) :
    readUnits? (chars.flatMap escapedChar ++ '\x22' :: cs) = some (chars.map Char.toNat, cs) := by
  induction chars with
  | nil => simp [readUnits?.eq_def]
  | cons c chars ih =>
    rw [List.flatMap_cons, List.append_assoc, readUnits?_escapedChar, ih]
    rfl

/-- The code point of a character is no surrogate. -/
private theorem not_surrogate (c : Char) : ¬ (0xd800 ≤ c.toNat ∧ c.toNat < 0xe000) := by
  have h : c.toNat < 0xd800 ∨ 0xdfff < c.toNat ∧ c.toNat < 0x110000 := c.valid
  omega

private theorem loneUnit?_toNat (c : Char) : loneUnit? c.toNat = some c := by
  rw [loneUnit?, if_neg (not_surrogate c), Char.ofNat_toNat]

theorem charsOfUnits?_map_toNat : (chars : List Char) →
    charsOfUnits? (chars.map Char.toNat) = some chars
  | [] => rfl
  | [c] => by
    rw [List.map_singleton, charsOfUnits?, loneUnit?_toNat]
    rfl
  | c :: d :: chars => by
    have hpair : pairedUnits? c.toNat d.toNat = none :=
      if_neg fun h => not_surrogate c ⟨h.1, by omega⟩
    have ih := charsOfUnits?_map_toNat (d :: chars)
    rw [List.map_cons] at ih
    simp only [List.map_cons, charsOfUnits?, hpair, loneUnit?_toNat, ih]
    rfl

theorem readString?_writeString (text : String) (rest : List Char) :
    ∃ cs, writeString text ++ rest = '\x22' :: cs ∧ readString? cs = some (text, rest) := by
  refine ⟨text.toList.flatMap escapedChar ++ '\x22' :: rest, ?_, ?_⟩
  · rw [writeString, List.cons_append, List.cons_append, List.append_assoc]
    rfl
  · rw [readString?, readUnits?_flatMap]
    simp only [Option.bind_eq_bind, Option.bind_some, charsOfUnits?_map_toNat, String.ofList_toList]
    rfl

/-! ## Whole numbers -/

/-- A text that does not go on with a number. -/
def EndsNumber (rest : List Char) : Prop :=
  ∀ c ∈ rest.head?, c.isDigit = false ∧ c ∉ ['.', 'e', 'E']

/-- The digits of a number start with a zero only if they are nothing else. -/
theorem digits_cons_zero {n : Nat} {ds : List Char} (h : Decimal.digits n = '0' :: ds) :
    ds = [] := by
  refine Decidable.byContradiction fun hne => ?_
  have hd : ∀ d ∈ ds, d.isDigit = true := fun d hd =>
    Decimal.isDigit_of_mem_digits (h ▸ List.mem_cons_of_mem _ hd)
  have hn : Nat.ofDigitChars 10 ds 0 = n := by
    rw [← Decimal.ofDigitChars_digits n, h, Nat.ofDigitChars_cons]
    rfl
  have hle := Decimal.digitCount_ofDigitChars_le hne hd
  rw [hn, Decimal.digitCount, h, List.length_cons] at hle
  omega

theorem wholeDigits_digits (n : Nat) {rest : List Char} (hr : EndsNumber rest) :
    wholeDigits (Decimal.digits n ++ rest) = Decimal.digits n := by
  have hdigits : ∀ d ∈ Decimal.digits n, d.isDigit = true := fun _ => Decimal.isDigit_of_mem_digits
  have hrest : ∀ c cs, rest = c :: cs → c.isDigit = false := by
    rintro c cs rfl
    exact (hr c rfl).1
  have htake := (Decimal.takeWhile_append_digits rest hdigits hrest).1
  cases hd : Decimal.digits n with
  | nil => exact absurd hd (Decimal.digits_ne_nil n)
  | cons d ds =>
    rw [hd, List.cons_append] at htake
    rw [List.cons_append, wholeDigits.eq_def]
    split
    · cases ‹_›
    · rename_i heq
      cases heq
      rw [digits_cons_zero hd]
    · exact htake

theorem fractionPart_of_endsNumber {rest : List Char} (hr : EndsNumber rest) :
    fractionPart rest = [] := by
  unfold fractionPart
  split
  · exact absurd List.mem_cons_self (hr _ rfl).2
  · rfl

theorem exponentPart_of_endsNumber {rest : List Char} (hr : EndsNumber rest) :
    exponentPart rest = [] := by
  have hmark : ∀ mark cs, rest = mark :: cs → ¬ (mark = 'e' ∨ mark = 'E') := by
    rintro mark cs rfl (rfl | rfl)
    · exact absurd (hr _ rfl).2 (by decide)
    · exact absurd (hr _ rfl).2 (by decide)
  unfold exponentPart
  split
  · rw [if_neg (hmark _ _ rfl)]
  · rw [if_neg fun h => hmark _ _ rfl h.1]
  · rfl

theorem readUnsigned?_digits (negative : Bool) (n : Nat) {rest : List Char} (hr : EndsNumber rest) :
    readUnsigned? negative (Decimal.digits n ++ rest) =
      some (int (if negative then -n else n), rest) := by
  unfold readUnsigned?
  simp [wholeDigits_digits n hr, Decimal.digits_ne_nil, fractionPart_of_endsNumber hr,
    exponentPart_of_endsNumber hr, Decimal.ofDigitChars_digits]

/-- The text of a whole number: its digits, behind a dash if it is negative. -/
theorem toList_toString_int (value : Int) :
    (toString value).toList =
      (if value < 0 then ['-'] else []) ++ Decimal.digits value.natAbs := by
  have hdigits (n : Nat) : (toString n).toList = Decimal.digits n := by
    rw [Nat.toString_eq_ofList_toDigits, String.toList_ofList]
    rfl
  cases value with
  | ofNat n =>
    have hn : ¬ Int.ofNat n < 0 := Int.not_lt.mpr (Int.natCast_nonneg n)
    rw [if_neg hn]
    exact hdigits n
  | negSucc n =>
    rw [if_pos (Int.negSucc_lt_zero n)]
    exact (String.toList_append (s := "-")).trans (congrArg (['-'] ++ ·) (hdigits (n + 1)))

/-! ## Line breaks -/

theorem skipBlanks_cons {c : Char} (hc : isBlank c = false) (cs : List Char) :
    skipBlanks (c :: cs) = c :: cs := by
  rw [skipBlanks, List.dropWhile_cons, hc]
  rfl

theorem skipBlanks_lineBreak (layout : Layout) (depth : Nat) {c : Char} (hc : isBlank c = false)
    (cs : List Char) : skipBlanks (layout.lineBreak depth ++ c :: cs) = c :: cs := by
  have hblank : ∀ b ∈ layout.lineBreak depth, isBlank b = true := by
    intro b hb
    unfold Layout.lineBreak at hb
    split at hb
    · rcases List.mem_cons.mp hb with rfl | hb
      · rfl
      · rw [List.eq_of_mem_replicate hb]
        rfl
    · cases hb
  rw [skipBlanks, List.dropWhile_append_of_pos hblank]
  exact skipBlanks_cons hc cs

theorem endsNumber_cons {c : Char} (hc : c.isDigit = false ∧ c ∉ ['.', 'e', 'E'])
    (cs : List Char) : EndsNumber (c :: cs) := by
  rintro d ⟨⟩
  exact hc

theorem endsNumber_lineBreak (layout : Layout) (depth : Nat) {c : Char}
    (hc : c.isDigit = false ∧ c ∉ ['.', 'e', 'E']) (cs : List Char) :
    EndsNumber (layout.lineBreak depth ++ c :: cs) := by
  unfold Layout.lineBreak
  split
  · exact endsNumber_cons (by decide) _
  · exact endsNumber_cons hc cs

/-! ## Values -/

/-- A value that its text gives back. -/
inductive Faithful : Json → Prop
  | null : Faithful null
  | bool (value : Bool) : Faithful (bool value)
  | int (value : Int) : Faithful (int value)
  | string (value : String) : Faithful (string value)
  | array {items : List Json} : (∀ item ∈ items, Faithful item) → Faithful (array items)
  | object {fields : List (String × Json)} : (fields.map Prod.fst).Nodup →
    (∀ field ∈ fields, Faithful field.2) → Faithful (object fields)

/-- A value is read from its text, at every level and whatever stands behind it. Every character of
the text pays for two levels of reading. -/
def ReadBack (layout : Layout) (value : Json) : Prop :=
  ∀ {depth fuel : Nat} {rest : List Char}, 2 * (write layout depth value).length ≤ fuel + 2 →
    EndsNumber rest → readValue? (fuel + 1) (write layout depth value ++ rest) = some (value, rest)

private theorem exists_digit (n : Nat) : ∃ d ds, Decimal.digits n = d :: ds ∧ d.isDigit = true := by
  obtain ⟨d, ds, hd⟩ := List.exists_cons_of_ne_nil (Decimal.digits_ne_nil n)
  exact ⟨d, ds, hd, Decimal.isDigit_of_mem_digits (hd ▸ List.mem_cons_self)⟩

private theorem ne_of_isDigit {c d : Char} (hc : c.isDigit = true) (hd : d.isDigit = false) :
    c ≠ d := by
  rintro rfl
  rw [hc] at hd
  cases hd

/-- The text of a value starts with neither a blank nor the end of an array. -/
theorem Faithful.exists_cons {value : Json} (h : Faithful value) (layout : Layout) (depth : Nat) :
    ∃ c cs, write layout depth value = c :: cs ∧ isBlank c = false ∧ c ≠ ']' := by
  cases h with
  | null => exact ⟨_, _, rfl, by decide⟩
  | bool value => cases value <;> exact ⟨_, _, rfl, by decide⟩
  | int value =>
    rw [write, toList_toString_int]
    split
    · exact ⟨_, _, rfl, by decide⟩
    · obtain ⟨d, ds, hd, hdigit⟩ := exists_digit value.natAbs
      have hne := @ne_of_isDigit d
      refine ⟨d, ds, hd, ?_, hne hdigit rfl⟩
      simp [isBlank, hne hdigit]
  | string value => exact ⟨_, _, rfl, by decide⟩
  | @array items h => cases items <;> exact ⟨_, _, rfl, by decide⟩
  | @object fields _ h => cases fields <;> exact ⟨_, _, rfl, by decide⟩

theorem Faithful.skipBlanks {value : Json} (h : Faithful value) (layout : Layout)
    (outer depth : Nat) (rest : List Char) :
    skipBlanks (layout.lineBreak outer ++ (write layout depth value ++ rest)) =
      write layout depth value ++ rest := by
  obtain ⟨c, cs, hw, hblank, -⟩ := h.exists_cons layout depth
  rw [hw, List.cons_append, skipBlanks_lineBreak layout outer hblank]

/-- A colon, and behind it the value. -/
theorem Faithful.skipBlanks_colon {value : Json} (h : Faithful value) (layout : Layout)
    (depth : Nat) (rest : List Char) :
    ∃ behind, Json.skipBlanks (layout.colon ++ (write layout depth value ++ rest)) = ':' :: behind ∧
      Json.skipBlanks behind = write layout depth value ++ rest := by
  obtain ⟨c, cs, hw, hblank, -⟩ := h.exists_cons layout depth
  rw [hw, List.cons_append]
  unfold Layout.colon
  split
  · exact ⟨_, rfl, skipBlanks_cons hblank _⟩
  · exact ⟨_, rfl, skipBlanks_cons hblank _⟩

theorem skipBlanks_writeString (layout : Layout) (outer : Nat) (text : String) (rest : List Char) :
    skipBlanks (layout.lineBreak outer ++ (writeString text ++ rest)) = writeString text ++ rest :=
  skipBlanks_lineBreak layout outer (by decide) _

/-- Digits are read as the number that they write. -/
theorem readValue?_digits (n : Nat) {fuel : Nat} {rest : List Char} (hr : EndsNumber rest) :
    readValue? (fuel + 1) (Decimal.digits n ++ rest) = some (int n, rest) := by
  obtain ⟨d, ds, hd, hdigit⟩ := exists_digit n
  have hne : ∀ c : Char, c.isDigit = false → ¬ d = c := fun c => ne_of_isDigit hdigit
  rw [hd, List.cons_append, readValue?, if_neg (hne _ rfl), if_neg (hne _ rfl), if_neg (hne _ rfl),
    if_neg (hne _ rfl), if_pos hdigit, ← List.cons_append, ← hd, readUnsigned?_digits false n hr]
  rfl

theorem readValue?_dash (n : Nat) {fuel : Nat} {rest : List Char} (hr : EndsNumber rest) :
    readValue? (fuel + 1) ('-' :: (Decimal.digits n ++ rest)) = some (int (-n), rest) := by
  obtain ⟨d, ds, hd, hdigit⟩ := exists_digit n
  have hdrop : dropWord? ['I', 'n', 'f', 'i', 'n', 'i', 't', 'y'] (Decimal.digits n ++ rest) =
      none := by
    rw [hd]
    exact if_neg (ne_of_isDigit hdigit rfl).symm
  rw [readValue?, if_neg (by decide), if_neg (by decide), if_neg (by decide), if_pos rfl, hdrop]
  exact readUnsigned?_digits true n hr

theorem readBack_int (layout : Layout) (value : Int) : ReadBack layout (int value) := by
  intro depth fuel rest _ hr
  rw [write, toList_toString_int]
  split
  · rw [List.cons_append, List.cons_append, List.nil_append, readValue?_dash _ hr,
      Int.ofNat_natAbs_of_nonpos (by omega), Int.neg_neg]
  · rw [List.nil_append, readValue?_digits _ hr, Int.natAbs_of_nonneg (by omega)]

theorem readValue?_open_array {fuel : Nat} {cs : List Char}
    (h : (skipBlanks cs).head? ≠ some ']') :
    readValue? (fuel + 1) ('[' :: cs) =
      (readItems? fuel (skipBlanks cs)).map fun r => (array r.1, r.2) := by
  rw [readValue?, if_neg (by decide), if_neg (by decide), if_pos rfl]
  split
  · rename_i heq
    rw [heq] at h
    exact absurd rfl h
  · rfl

theorem readValue?_open_object {fuel : Nat} {cs : List Char}
    (h : (skipBlanks cs).head? ≠ some '\x7d') :
    readValue? (fuel + 1) ('\x7b' :: cs) =
      (readFields? fuel [] (skipBlanks cs)).map fun r => (object r.1, r.2) := by
  rw [readValue?, if_neg (by decide), if_pos rfl]
  split
  · rename_i heq
    rw [heq] at h
    exact absurd rfl h
  · rfl

section Parts

variable {layout : Layout} {outer depth : Nat}

/-- What stands behind an item does not go on with a number. -/
theorem endsNumber_writeItems (items : List Json) (rest : List Char) :
    EndsNumber (writeItems layout depth items ++ (layout.lineBreak outer ++ ']' :: rest)) := by
  cases items with
  | nil => exact endsNumber_lineBreak layout outer (by decide) rest
  | cons item items => exact endsNumber_cons (by decide) _

/-- What stands behind an item that is not the last. -/
theorem skipBlanks_writeItems (next : Json) (items : List Json) (rest : List Char) :
    skipBlanks (writeItems layout depth (next :: items) ++ rest) =
      ',' :: (layout.lineBreak depth ++ (write layout depth next ++
        (writeItems layout depth items ++ rest))) := by
  rw [writeItems, List.cons_append, List.cons_append, List.cons_append, skipBlanks_cons rfl,
    List.append_assoc, List.append_assoc]

theorem endsNumber_writeFields (fields : List (String × Json)) (rest : List Char) :
    EndsNumber (writeFields layout depth fields ++ (layout.lineBreak outer ++ '\x7d' :: rest)) := by
  cases fields with
  | nil => exact endsNumber_lineBreak layout outer (by decide) rest
  | cons field fields => exact endsNumber_cons (by decide) _

theorem skipBlanks_writeFields (name : String) (next : Json) (fields : List (String × Json))
    (rest : List Char) :
    skipBlanks (writeFields layout depth ((name, next) :: fields) ++ rest) =
      ',' :: (layout.lineBreak depth ++ (writeString name ++ (layout.colon ++
        (write layout depth next ++ (writeFields layout depth fields ++ rest))))) := by
  simp only [writeFields, List.cons_append, List.append_assoc]
  exact skipBlanks_cons rfl _

/-- The first item is read from its text; it may be the last or not. -/
theorem readItems?_item {item : Json} {fuel : Nat} {rest : List Char} (hr : ReadBack layout item)
    (hfuel : 2 * (write layout depth item).length ≤ fuel + 2) (hrest : EndsNumber rest) :
    (∀ behind, skipBlanks rest = ']' :: behind →
      readItems? (fuel + 2) (write layout depth item ++ rest) = some ([item], behind)) ∧
    ∀ behind, skipBlanks rest = ',' :: behind →
      readItems? (fuel + 2) (write layout depth item ++ rest) =
        (readItems? (fuel + 1) (skipBlanks behind)).map fun r => (item :: r.1, r.2) := by
  constructor <;> intro behind h <;> rw [readItems?, hr hfuel hrest] <;> simp only [h]

/-- The items of an array are read from the text of the first and of those behind it. -/
theorem readItems?_write {items : List Json} {item : Json} {fuel : Nat} {rest : List Char}
    (hf : ∀ i ∈ item :: items, Faithful i) (hr : ∀ i ∈ item :: items, ReadBack layout i)
    (hfuel : 2 * ((write layout depth item).length + (writeItems layout depth items).length) ≤
      fuel) :
    readItems? (fuel + 2) (write layout depth item ++ (writeItems layout depth items ++
      (layout.lineBreak outer ++ ']' :: rest))) = some (item :: items, rest) := by
  induction items generalizing item fuel with
  | nil =>
    exact (readItems?_item (hr item List.mem_cons_self) (by omega)
      (endsNumber_writeItems [] rest)).1 _ (skipBlanks_lineBreak layout outer rfl rest)
  | cons next items ih =>
    have hnext : Faithful next := hf next (List.mem_cons_of_mem _ List.mem_cons_self)
    rw [(readItems?_item (hr item List.mem_cons_self) (by omega)
      (endsNumber_writeItems _ _)).2 _ (skipBlanks_writeItems _ _ _), hnext.skipBlanks]
    -- The comma pays for the level at which the next item is read.
    simp only [writeItems, List.length_cons, List.length_append] at hfuel
    obtain ⟨fuel, rfl⟩ : ∃ f, fuel = f + 1 := ⟨fuel - 1, by omega⟩
    rw [ih (fun i hi => hf i (List.mem_cons_of_mem _ hi))
      (fun i hi => hr i (List.mem_cons_of_mem _ hi)) (by omega)]
    rfl

theorem putField_of_not_mem {key : String} (value : Json) {fields : List (String × Json)}
    (h : key ∉ fields.map Prod.fst) : putField key value fields = fields ++ [(key, value)] := by
  induction fields with
  | nil => rfl
  | cons field fields ih =>
    obtain ⟨name, old⟩ := field
    rw [List.map_cons, List.mem_cons, not_or] at h
    rw [putField, if_neg (Ne.symm h.1), ih h.2, List.cons_append]

private theorem key_not_mem {before fields : List (String × Json)} {key : String} {value : Json}
    (h : ((before ++ (key, value) :: fields).map Prod.fst).Nodup) : key ∉ before.map Prod.fst := by
  intro hmem
  rw [List.map_append] at h
  exact (List.nodup_append.mp h).2.2 key hmem key List.mem_cons_self rfl

/-- The first field is read from its text, and put behind those that have been read; it may be the
last or not. -/
theorem readFields?_field {before : List (String × Json)} {key : String} {value : Json} {fuel : Nat}
    {rest : List Char} (hkey : key ∉ before.map Prod.fst) (hf : Faithful value)
    (hr : ReadBack layout value) (hfuel : 2 * (write layout depth value).length ≤ fuel + 2)
    (hrest : EndsNumber rest) :
    (∀ behind, skipBlanks rest = '\x7d' :: behind →
      readFields? (fuel + 2) before
          (writeString key ++ (layout.colon ++ (write layout depth value ++ rest))) =
        some (before ++ [(key, value)], behind)) ∧
    ∀ behind, skipBlanks rest = ',' :: behind →
      readFields? (fuel + 2) before
          (writeString key ++ (layout.colon ++ (write layout depth value ++ rest))) =
        readFields? (fuel + 1) (before ++ [(key, value)]) (skipBlanks behind) := by
  obtain ⟨inside, hstring, hread⟩ :=
    readString?_writeString key (layout.colon ++ (write layout depth value ++ rest))
  obtain ⟨cs, hcolon, hcs⟩ := hf.skipBlanks_colon layout depth rest
  rw [hstring]
  constructor <;> intro behind h <;> rw [readFields?] <;>
    simp only [hread, hcolon, hcs, hr hfuel hrest, putField_of_not_mem value hkey, h]

/-- The fields of an object are read from the text of the first and of those behind it. -/
theorem readFields?_write {fields before : List (String × Json)} {key : String} {value : Json}
    {fuel : Nat} {rest : List Char}
    (hkeys : ((before ++ (key, value) :: fields).map Prod.fst).Nodup)
    (hf : ∀ field ∈ (key, value) :: fields, Faithful field.2)
    (hr : ∀ field ∈ (key, value) :: fields, ReadBack layout field.2)
    (hfuel : 2 * ((write layout depth value).length + (writeFields layout depth fields).length) ≤
      fuel) :
    readFields? (fuel + 2) before (writeString key ++ (layout.colon ++ (write layout depth value ++
      (writeFields layout depth fields ++ (layout.lineBreak outer ++ '\x7d' :: rest))))) =
      some (before ++ (key, value) :: fields, rest) := by
  have hvalue : Faithful value := hf (key, value) List.mem_cons_self
  have hread : ReadBack layout value := hr (key, value) List.mem_cons_self
  induction fields generalizing before key value fuel with
  | nil =>
    exact (readFields?_field (key_not_mem hkeys) hvalue hread (by omega)
      (endsNumber_writeFields [] rest)).1 _ (skipBlanks_lineBreak layout outer rfl rest)
  | cons next fields ih =>
    obtain ⟨name, next⟩ := next
    rw [(readFields?_field (key_not_mem hkeys) hvalue hread (by omega)
      (endsNumber_writeFields _ _)).2 _ (skipBlanks_writeFields _ _ _ _), skipBlanks_writeString]
    simp only [writeFields, List.length_cons, List.length_append] at hfuel
    obtain ⟨fuel, rfl⟩ : ∃ f, fuel = f + 1 := ⟨fuel - 1, by omega⟩
    rw [List.append_cons before] at hkeys
    rw [List.append_cons before (key, value) (_ :: _)]
    refine ih hkeys (fun i hi => hf i (List.mem_cons_of_mem _ hi))
      (fun i hi => hr i (List.mem_cons_of_mem _ hi)) ?_
      (hf (name, next) (List.mem_cons_of_mem _ List.mem_cons_self))
      (hr (name, next) (List.mem_cons_of_mem _ List.mem_cons_self))
    omega

theorem readBack_array {items : List Json} (hf : ∀ item ∈ items, Faithful item)
    (hr : ∀ item ∈ items, ReadBack layout item) : ReadBack layout (array items) := by
  intro depth fuel rest hfuel _
  cases items with
  | nil => rfl
  | cons item items =>
    simp only [write, List.length_cons, List.length_append] at hfuel
    obtain ⟨fuel, rfl⟩ : ∃ f, fuel = f + 2 := ⟨fuel - 2, by omega⟩
    have hitem : Faithful item := hf item List.mem_cons_self
    obtain ⟨c, cs, hw, -, hend⟩ := hitem.exists_cons layout (depth + 1)
    simp only [write, List.cons_append, List.append_assoc, List.nil_append]
    rw [readValue?_open_array, hitem.skipBlanks, readItems?_write hf hr (by omega)]
    · rfl
    · rw [hitem.skipBlanks, hw]
      exact fun h => hend (Option.some.inj h)

theorem readBack_object {fields : List (String × Json)} (hkeys : (fields.map Prod.fst).Nodup)
    (hf : ∀ field ∈ fields, Faithful field.2) (hr : ∀ field ∈ fields, ReadBack layout field.2) :
    ReadBack layout (object fields) := by
  intro depth fuel rest hfuel _
  cases fields with
  | nil => rfl
  | cons field fields =>
    obtain ⟨key, value⟩ := field
    simp only [write, List.length_cons, List.length_append] at hfuel
    obtain ⟨fuel, rfl⟩ : ∃ f, fuel = f + 2 := ⟨fuel - 2, by omega⟩
    simp only [write, List.cons_append, List.append_assoc, List.nil_append]
    rw [readValue?_open_object, skipBlanks_writeString, readFields?_write hkeys hf hr (by omega)]
    · rfl
    · rw [skipBlanks_writeString]
      exact fun h => absurd (Option.some.inj h) (by decide)

end Parts

/-- A value without numbers that are kept as texts and without doubled keys is read from its
text. -/
theorem Faithful.readBack {value : Json} (h : Faithful value) (layout : Layout) :
    ReadBack layout value := by
  induction h with
  | null => exact fun _ _ => rfl
  | bool value =>
    intro depth fuel rest _ _
    cases value <;> rfl
  | int value => exact readBack_int layout value
  | string value =>
    intro depth fuel rest _ _
    obtain ⟨inside, hstring, hread⟩ := readString?_writeString value rest
    rw [write, hstring, readValue?]
    simp [hread]
  | array hf ih => exact readBack_array hf ih
  | object hkeys hf ih => exact readBack_object hkeys hf ih

/-- The text of a value gives the value back. -/
theorem Faithful.read?_text {value : Json} (h : Faithful value) (layout : Layout) :
    read? (text layout value) = some value := by
  have hread : readValue? (readingFuel (write layout 0 value)) (write layout 0 value ++ []) =
      some (value, []) := h.readBack layout (Nat.le_add_right _ 3) nofun
  obtain ⟨c, cs, hw, hblank, -⟩ := h.exists_cons layout 0
  have hskip : Json.skipBlanks (write layout 0 value) = write layout 0 value := by
    rw [hw, skipBlanks_cons hblank]
  rw [List.append_nil] at hread
  simp only [read?, text, String.toList_ofList, hskip, hread]
  rfl

/-! ## Line ends -/

section NoReturn

variable {layout : Layout} {depth : Nat}

private theorem return_not_mem_digits (n : Nat) : '\r' ∉ Decimal.digits n :=
  fun h => absurd (Decimal.isDigit_of_mem_digits h) (by decide)

theorem return_not_mem_lineBreak : '\r' ∉ layout.lineBreak depth := by
  unfold Layout.lineBreak
  split
  · simp
  · exact List.not_mem_nil

theorem return_not_mem_colon : '\r' ∉ layout.colon := by
  unfold Layout.colon
  split <;> decide

theorem return_not_mem_escapedChar (c : Char) : '\r' ∉ escapedChar c := by
  have hhex : ∀ n < 0x20, '\r' ∉ Text.hexDigits 4 n := by decide
  obtain ⟨letter, -, hl, he⟩ | ⟨hc, he⟩ | ⟨hc, -, -, he⟩ := escapedChar_cases c
  · have hletter : letter ≠ '\r' := by
      rintro rfl
      cases hl
    simp [he, hletter.symm]
  · simp [he, hhex c.toNat hc]
  · have hne : c ≠ '\r' := by
      rintro rfl
      exact absurd hc (by decide)
    simp [he, hne.symm]

theorem return_not_mem_writeString (text : String) : '\r' ∉ writeString text := by
  simp [writeString, return_not_mem_escapedChar]

theorem return_not_mem_writeItems {items : List Json}
    (h : ∀ item ∈ items, '\r' ∉ write layout depth item) :
    '\r' ∉ writeItems layout depth items := by
  induction items with
  | nil => exact List.not_mem_nil
  | cons item items ih =>
    rw [List.forall_mem_cons] at h
    simp [writeItems, return_not_mem_lineBreak, h.1, ih h.2]

theorem return_not_mem_writeFields {fields : List (String × Json)}
    (h : ∀ field ∈ fields, '\r' ∉ write layout depth field.2) :
    '\r' ∉ writeFields layout depth fields := by
  induction fields with
  | nil => exact List.not_mem_nil
  | cons field fields ih =>
    rw [List.forall_mem_cons] at h
    simp [writeFields, return_not_mem_lineBreak, return_not_mem_writeString, return_not_mem_colon,
      h.1, ih h.2]

end NoReturn

/-- The text of a value has no carriage return. -/
theorem Faithful.return_not_mem {value : Json} (h : Faithful value) (layout : Layout)
    (depth : Nat) : '\r' ∉ write layout depth value := by
  induction h generalizing depth with
  | null => simp [write]
  | bool value => cases value <;> simp [write]
  | int value =>
    rw [write, toList_toString_int]
    split <;> simp [return_not_mem_digits]
  | string value => exact return_not_mem_writeString value
  | @array items hf ih =>
    cases items with
    | nil => simp [write]
    | cons item items =>
      have hitems : '\r' ∉ writeItems layout (depth + 1) items :=
        return_not_mem_writeItems fun next hn => ih next (List.mem_cons_of_mem _ hn) _
      simp [write, return_not_mem_lineBreak, ih, hitems]
  | @object fields hkeys hf ih =>
    cases fields with
    | nil => simp [write]
    | cons field fields =>
      have hfields : '\r' ∉ writeFields layout (depth + 1) fields :=
        return_not_mem_writeFields fun next hn => ih next (List.mem_cons_of_mem _ hn) _
      simp [write, return_not_mem_lineBreak, return_not_mem_writeString, return_not_mem_colon, ih,
        hfields]

end Json

end Douro
