import Douro.Proofs.Decimal.Reading

/-!
# Words that are written down are scanned back

A word is a token without its position. A word is a lexeme wherever the character behind it cannot
go on with it, so words with a blank behind each of them are scanned as they are.

* `TokenKind.EndsBefore`: the characters that cannot go on with a token.
* `lexeme?_of_spells`: a spelled text is a lexeme in front of such a character.
* `scanSource_spellOut`: words that are spelled out are scanned back.
-/

namespace Douro

/-- A token without its position. -/
structure Word where
  kind : TokenKind
  text : String
deriving DecidableEq

namespace Word

/-- The word is spelled like one of its kind. -/
def Spelled (word : Word) : Prop := word.kind.Spells word.text

/-- The mark of a text. -/
def mark (text : String) : Word := ⟨.punctuation, text⟩

theorem spelled_mark {text : String} (h : text ∈ ["=", "(", ")", ",", ";"]) : (mark text).Spelled := h

/-- The end of a line. -/
def newline : Word := ⟨.newline, "\n"⟩

/-- The token of a word, at no place of a source. -/
def token (word : Word) : Token := ⟨word.kind, word.text, 0, 0⟩

/-- Words with a blank behind each of them. -/
def spellOut (words : List Word) : String :=
  String.ofList (words.flatMap fun word => word.text.toList ++ [' '])

end Word

/-- The token without its position. -/
def Token.word (token : Token) : Word := ⟨token.kind, token.text⟩

/-! ## Classes of characters -/

theorem Text.isNameStart_of_isDigit {c : Char} (h : isDigit c = true) :
    Lexeme.isNameStart c = false := by
  obtain ⟨z, hz, hle, hlt, -⟩ := exists_zero_of_isDigit h
  have hgap : ∀ z ∈ digitZeros, z + 10 ≤ 65 ∨ 122 < z := by decide
  have hz := hgap z hz
  have hletter : c.isAlpha = false := by
    rw [← Bool.not_eq_true]
    intro ha
    change (decide (65 ≤ c.val ∧ c.val ≤ 90) || decide (97 ≤ c.val) && decide (c.val ≤ 122)) = true
      at ha
    simp only [Bool.or_eq_true, Bool.and_eq_true, decide_eq_true_eq, UInt32.le_iff_toNat_le] at ha
    change (65 ≤ c.toNat ∧ c.toNat ≤ 90) ∨ (97 ≤ c.toNat ∧ c.toNat ≤ 122) at ha
    omega
  rw [Lexeme.isNameStart, hletter, Bool.false_or]
  exact beq_false_of_ne (ne_of_isDigit h (by decide))

private theorem ne_of_class {p : Char → Bool} {c d : Char} (h : p c = true) (hd : p d = false) :
    c ≠ d := by
  rintro rfl
  rw [h] at hd
  cases hd

/-! ## Lexemes -/

/-- The character cannot go on with a token of the kind. -/
def TokenKind.EndsBefore : TokenKind → Char → Prop
  | .number, c => Text.isDigit c = false ∧ c ≠ '.'
  | .identifier, c | .keyword, c => Lexeme.isNameRest c = false
  | .operator, _ | .punctuation, _ | .newline, _ => True

private theorem takeWhile_append {p : Char → Bool} {cs rest : List Char}
    (hcs : ∀ c ∈ cs, p c = true) (hrest : ∀ c ∈ rest.head?, p c = false) :
    (cs ++ rest).takeWhile p = cs := by
  rw [List.takeWhile_append_of_pos hcs]
  cases rest with
  | nil => simp
  | cons c rest => simp [hrest c rfl]

private theorem dropWhile_append {p : Char → Bool} {cs rest : List Char}
    (hcs : ∀ c ∈ cs, p c = true) (hrest : ∀ c ∈ rest.head?, p c = false) :
    (cs ++ rest).dropWhile p = rest := by
  rw [List.dropWhile_append_of_pos hcs]
  cases rest with
  | nil => rfl
  | cons c rest => simp [hrest c rfl]

private theorem fraction_eq_nil {rest : List Char} (h : ∀ c ∈ rest.head?, c ≠ '.') :
    Lexeme.fraction rest = [] := by
  unfold Lexeme.fraction
  split
  · exact absurd rfl (h _ rfl)
  · rfl

/-- The digits behind the first one of a numeral, and its fraction. -/
private theorem numberRest_append {c : Char} {more rest : List Char} (h : IsNumeral (c :: more))
    (hr : ∀ d ∈ rest.head?, TokenKind.number.EndsBefore d) :
    Text.isDigit c = true ∧ Lexeme.numberRest (more ++ rest) = more := by
  have hdigit : ∀ d ∈ rest.head?, Text.isDigit d = false := fun d hd => (hr d hd).1
  generalize hcs : c :: more = cs at h
  cases h with
  | whole _ hds =>
    subst hcs
    rw [List.forall_mem_cons] at hds
    rw [Lexeme.numberRest, takeWhile_append hds.2 hdigit, dropWhile_append hds.2 hdigit,
      fraction_eq_nil fun d hd => (hr d hd).2, List.append_nil]
    exact ⟨hds.1, rfl⟩
  | @fraction ds fs hne hds hne' hfs =>
    obtain ⟨d, ds, rfl⟩ := List.exists_cons_of_ne_nil hne
    obtain ⟨f, fs, rfl⟩ := List.exists_cons_of_ne_nil hne'
    rw [List.cons_append] at hcs
    obtain ⟨rfl, rfl⟩ := List.cons.inj hcs
    rw [List.forall_mem_cons] at hds hfs
    have hpoint : ∀ e ∈ ('.' :: f :: (fs ++ rest)).head?, Text.isDigit e = false := by
      rintro e ⟨⟩
      decide
    rw [List.append_assoc, List.cons_append, List.cons_append]
    rw [Lexeme.numberRest, takeWhile_append hds.2 hpoint, dropWhile_append hds.2 hpoint,
      Lexeme.fraction, if_pos hfs.1, takeWhile_append hfs.2 hdigit]
    exact ⟨hds.1, rfl⟩

/-- A name of some kind is a lexeme of that kind. -/
private theorem lexeme?_name {kind : TokenKind} {c : Char} {more rest : List Char}
    (h : IsName (c :: more)) (hkind : Lexeme.nameKind (c :: more) = kind)
    (hr : ∀ d ∈ rest.head?, Lexeme.isNameRest d = false) :
    lexeme? c (more ++ rest) = some ⟨some kind, more⟩ := by
  have hgap : Lexeme.isGap c = false := by
    rw [Lexeme.isGap, beq_false_of_ne (ne_of_class h.1 (by decide)),
      beq_false_of_ne (ne_of_class h.1 (by decide)), Bool.or_false]
  rw [lexeme?, hgap, if_neg Bool.false_ne_true, if_neg (ne_of_class h.1 (by decide)),
    if_neg (ne_of_class h.1 (by decide)), if_pos h.1]
  simp only [takeWhile_append h.2 hr, hkind]

/-- A spelled text is a lexeme in front of a character that cannot go on with it. -/
theorem lexeme?_of_spells {kind : TokenKind} {text : String} {c : Char} {more rest : List Char}
    (h : kind.Spells text) (ht : text.toList = c :: more)
    (hr : ∀ d ∈ rest.head?, kind.EndsBefore d) :
    lexeme? c (more ++ rest) = some ⟨some kind, more⟩ := by
  cases kind with
  | number =>
    rw [TokenKind.Spells, ht] at h
    obtain ⟨hc, hmore⟩ := numberRest_append h hr
    have hgap : Lexeme.isGap c = false := by
      rw [Lexeme.isGap, beq_false_of_ne (Text.ne_of_isDigit hc (by decide)),
        beq_false_of_ne (Text.ne_of_isDigit hc (by decide)), Bool.or_false]
    rw [lexeme?, hgap, Text.isNameStart_of_isDigit hc, if_neg Bool.false_ne_true,
      if_neg (Text.ne_of_isDigit hc (by decide)), if_neg (Text.ne_of_isDigit hc (by decide)),
      if_neg Bool.false_ne_true, if_pos hc, hmore]
  | identifier =>
    obtain ⟨hn, hne⟩ := h
    rw [ht] at hn
    refine lexeme?_name hn ?_ hr
    rw [Lexeme.nameKind, ← ht, String.ofList_toList]
    exact if_neg (by simpa [Lexeme.keywords] using hne)
  | keyword =>
    have hn : IsName text.toList := by
      rcases h with rfl | rfl <;> exact ⟨by decide, List.all_eq_true.mp (by decide)⟩
    rw [ht] at hn
    refine lexeme?_name hn ?_ hr
    rw [Lexeme.nameKind, ← ht, String.ofList_toList]
    exact if_pos (by simpa [Lexeme.keywords, TokenKind.Spells] using h)
  | operator =>
    simp only [TokenKind.Spells, List.mem_cons, List.not_mem_nil, or_false] at h
    rcases h with rfl | rfl | rfl | rfl <;> cases ht <;> rfl
  | punctuation =>
    simp only [TokenKind.Spells, List.mem_cons, List.not_mem_nil, or_false] at h
    rcases h with rfl | rfl | rfl | rfl | rfl <;> cases ht <;> rfl
  | newline =>
    cases h
    cases ht
    rfl

/-- The texts of the kinds that have only some. -/
def fixedTexts : List String :=
  ["print", "function", "+", "-", "*", "/", "=", "(", ")", ",", ";", "\n"]

namespace TokenKind.Spells

variable {kind : TokenKind} {text : String} (h : kind.Spells text)
include h

theorem mem_fixedTexts (hn : kind ≠ .number) (hi : kind ≠ .identifier) : text ∈ fixedTexts := by
  cases kind with
  | number => exact absurd rfl hn
  | identifier => exact absurd rfl hi
  | keyword => rcases h with rfl | rfl <;> decide
  | operator =>
    have hsub : ["+", "-", "*", "/"] ⊆ fixedTexts := by decide
    exact hsub h
  | punctuation =>
    have hsub : ["=", "(", ")", ",", ";"] ⊆ fixedTexts := by decide
    exact hsub h
  | newline =>
    cases h
    decide

theorem exists_cons : ∃ c more, text.toList = c :: more := by
  refine List.exists_cons_of_ne_nil ?_
  cases kind with
  | number =>
    rw [TokenKind.Spells] at h
    generalize text.toList = cs at h ⊢
    cases h with
    | whole hne _ => exact hne
    | fraction _ _ _ _ => simp
  | identifier =>
    intro hnil
    rw [TokenKind.Spells, hnil] at h
    exact h.1
  | keyword | operator | punctuation | newline =>
    have hne : ∀ text ∈ fixedTexts, text.toList ≠ [] := by decide
    exact hne text (h.mem_fixedTexts (by decide) (by decide))

/-- No spelled text starts with a blank. -/
theorem not_isGap {c : Char} {more : List Char} (ht : text.toList = c :: more) :
    Lexeme.isGap c = false := by
  have hend : ∀ d ∈ ([] : List Char).head?, kind.EndsBefore d := nofun
  have hl := lexeme?_of_spells h ht hend
  rw [← Bool.not_eq_true]
  intro hgap
  rw [lexeme?, if_pos hgap] at hl
  cases hl

theorem no_return : '\r' ∉ text.toList := by
  cases kind with
  | number =>
    rw [TokenKind.Spells] at h
    generalize text.toList = cs at h ⊢
    have hdigits : ∀ {ds : List Char}, (∀ d ∈ ds, Text.isDigit d = true) → '\r' ∉ ds :=
      fun hds hm => Text.ne_of_isDigit (hds _ hm) (by decide) rfl
    cases h with
    | whole _ hds => exact hdigits hds
    | fraction _ hds _ hfs =>
      rw [List.mem_append, List.mem_cons]
      rintro (hm | hm | hm)
      · exact hdigits hds hm
      · cases hm
      · exact hdigits hfs hm
  | identifier =>
    obtain ⟨hn, -⟩ := h
    generalize text.toList = cs at hn ⊢
    cases cs with
    | nil => exact List.not_mem_nil
    | cons c cs =>
      rw [List.mem_cons]
      rintro (rfl | hm)
      · exact absurd hn.1 (by decide)
      · exact absurd (hn.2 _ hm) (by decide)
  | keyword | operator | punctuation | newline =>
    have hfixed : ∀ text ∈ fixedTexts, '\r' ∉ text.toList := by decide
    exact hfixed text (h.mem_fixedTexts (by decide) (by decide))

end TokenKind.Spells

/-! ## Scanning -/

/-- A spelled text gives its token. -/
theorem scan_word {kind : TokenKind} {text : String} {rest : List Char} (h : kind.Spells text)
    (hr : ∀ d ∈ rest.head?, kind.EndsBefore d) (place : Place) :
    scan place (text.toList ++ rest) = (scan (place.after text.toList) rest).map
      (⟨kind, text, place.line, place.column⟩ :: ·) := by
  obtain ⟨c, more, ht⟩ := h.exists_cons
  have htext : String.ofList (c :: more) = text := by rw [← ht, String.ofList_toList]
  rw [ht, List.cons_append, scan, lexeme?_of_spells h ht hr]
  simp only [List.drop_left, Place.token?, htext]
  cases scan (place.after (c :: more)) rest <;> rfl

/-- Blanks give no token. -/
theorem scan_gap {gap rest : List Char} (hne : gap ≠ []) (hg : ∀ c ∈ gap, Lexeme.isGap c = true)
    (hr : ∀ c ∈ rest.head?, Lexeme.isGap c = false) (place : Place) :
    scan place (gap ++ rest) = scan (place.after gap) rest := by
  obtain ⟨c, more, rfl⟩ := List.exists_cons_of_ne_nil hne
  rw [List.forall_mem_cons] at hg
  rw [List.cons_append, scan, lexeme?, if_pos hg.1, takeWhile_append hg.2 hr]
  simp only [List.drop_left, Place.token?]
  cases scan (place.after (c :: more)) rest <;> rfl

private theorem endsBefore_blank (kind : TokenKind) : kind.EndsBefore ' ' := by
  cases kind <;> simp only [TokenKind.EndsBefore] <;> decide

theorem scan_spellOut {words : List Word} (h : ∀ word ∈ words, word.Spelled) (place : Place) :
    ∃ tokens, scan place (words.flatMap fun word => word.text.toList ++ [' ']) = .ok tokens ∧
      tokens.map Token.word = words := by
  induction words generalizing place with
  | nil => exact ⟨[], by rw [List.flatMap_nil, scan], rfl⟩
  | cons word words ih =>
    rw [List.forall_mem_cons] at h
    have hblank : ∀ d ∈ ([' '] ++ words.flatMap fun word => word.text.toList ++ [' ']).head?,
        word.kind.EndsBefore d := by
      rintro d ⟨⟩
      exact endsBefore_blank _
    have hnext : ∀ c ∈ (words.flatMap fun word => word.text.toList ++ [' ']).head?,
        Lexeme.isGap c = false := by
      cases words with
      | nil =>
        intro c hc
        cases hc
      | cons next words =>
        obtain ⟨c, more, ht⟩ := TokenKind.Spells.exists_cons (h.2 next List.mem_cons_self)
        rw [List.flatMap_cons, ht]
        rintro d ⟨⟩
        exact TokenKind.Spells.not_isGap (h.2 next List.mem_cons_self) ht
    obtain ⟨tokens, hscan, htokens⟩ := ih h.2 ((place.after word.text.toList).after [' '])
    refine ⟨⟨word.kind, word.text, place.line, place.column⟩ :: tokens, ?_, ?_⟩
    · rw [List.flatMap_cons, List.append_assoc, scan_word h.1 hblank,
        scan_gap (List.cons_ne_nil _ _) (List.forall_mem_singleton.mpr rfl) hnext, hscan]
      rfl
    · rw [List.map_cons, htokens]
      rfl

/-! ## Sources -/

theorem Text.normaliseLineEnds_of_no_return {cs : List Char} (h : '\r' ∉ cs) :
    normaliseLineEnds cs = cs := by
  have hmerge : mergeReturnPairs cs = cs := by
    induction cs with
    | nil => rfl
    | cons c cs ih =>
      rw [List.mem_cons, not_or] at h
      rw [mergeReturnPairs.eq_def]
      split
      · next heq => cases heq
      · next heq =>
        cases heq
        exact absurd rfl h.1
      · next heq =>
        cases heq
        rw [ih h.2]
  have hfeed : ∀ c ∈ cs, returnToFeed c = c := fun c hc => if_neg (by rintro rfl; exact h hc)
  rw [normaliseLineEnds, hmerge, List.map_congr_left hfeed, List.map_id']

/-- A spelled text alone is one token. -/
theorem scanSource_of_spells {kind : TokenKind} {text : String} (h : kind.Spells text) :
    scanSource text = .ok [⟨kind, text, 1, 1⟩] := by
  have hscan := @scan_word kind text [] h nofun Place.start
  rw [List.append_nil, scan] at hscan
  rw [scanSource, Text.normaliseLineEnds_of_no_return h.no_return, hscan]
  rfl

/-- Spelled words that are written down are scanned back. -/
theorem scanSource_spellOut {words : List Word} (h : ∀ word ∈ words, word.Spelled) :
    ∃ tokens, scanSource (Word.spellOut words) = .ok tokens ∧ tokens.map Token.word = words := by
  have hreturn : '\r' ∉ words.flatMap fun word => word.text.toList ++ [' '] := by
    rw [List.mem_flatMap]
    rintro ⟨word, hw, hm⟩
    rcases List.mem_append.mp hm with hm | hm
    · exact TokenKind.Spells.no_return (h word hw) hm
    · cases List.mem_singleton.mp hm
  rw [scanSource, Word.spellOut, String.toList_ofList, Text.normaliseLineEnds_of_no_return hreturn]
  exact scan_spellOut h _

end Douro
