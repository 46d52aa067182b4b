import Douro.Token.Scan

/-!
# How tokens are spelled

A token that scanning can give has the spelling of its kind. `Token.Spelled` states the spellings
apart from the scanner: numerals with an optional fraction, names that are not keywords, the two
keywords, the operators, the punctuation marks and the line feed.

* `scanSource_spelled`: every token of a source is spelled like one of its kind.
* `Token.Is`: a token of a kind with a text.
* `Token.Spelled.answers_iff`: a spelled token answers to a keyword, an operator or a mark exactly
  if it is that one.
* `Token.Spelled.answers_name_iff`: it answers to the name of a kind exactly if it is of that kind.
-/

namespace Douro

/-! ## Spellings -/

/-- Digits of any script, and maybe a point with digits behind it. -/
inductive IsNumeral : List Char → Prop
  | whole {ds : List Char} : ds ≠ [] → (∀ d ∈ ds, Text.isDigit d = true) → IsNumeral ds
  | fraction {ds fs : List Char} : ds ≠ [] → (∀ d ∈ ds, Text.isDigit d = true) → fs ≠ [] →
    (∀ d ∈ fs, Text.isDigit d = true) → IsNumeral (ds ++ '.' :: fs)

/-- A letter or an underscore, and then letters, digits and underscores, all in ASCII. -/
def IsName : List Char → Prop
  | [] => False
  | c :: cs => Lexeme.isNameStart c = true ∧ ∀ d ∈ cs, Lexeme.isNameRest d = true

/-- The texts of a kind of token. -/
def TokenKind.Spells : TokenKind → String → Prop
  | .number, text => IsNumeral text.toList
  | .identifier, text => IsName text.toList ∧ text ≠ "print" ∧ text ≠ "function"
  | .keyword, text => text = "print" ∨ text = "function"
  | .operator, text => text ∈ ["+", "-", "*", "/"]
  | .punctuation, text => text ∈ ["=", "(", ")", ",", ";"]
  | .newline, text => text = "\n"

/-- The token is spelled like one of its kind. -/
def Token.Spelled (token : Token) : Prop := token.kind.Spells token.text

/-! ## Scanning spells its tokens -/

private theorem takeWhile_all (p : Char → Bool) (cs : List Char) :
    ∀ c ∈ cs.takeWhile p, p c = true := List.all_eq_true.mp List.all_takeWhile

private theorem isNumeral_cons_numberRest {c : Char} (hc : Text.isDigit c = true) (cs : List Char) :
    IsNumeral (c :: Lexeme.numberRest cs) := by
  have hwhole : ∀ d ∈ c :: cs.takeWhile Text.isDigit, Text.isDigit d = true := by
    intro d hd
    rcases List.mem_cons.mp hd with rfl | hd
    · exact hc
    · exact takeWhile_all _ cs d hd
  unfold Lexeme.numberRest
  generalize cs.dropWhile Text.isDigit = rest
  unfold Lexeme.fraction
  split
  · next d ds =>
    split
    · next hd =>
      rw [← List.cons_append]
      refine .fraction (List.cons_ne_nil _ _) hwhole (List.cons_ne_nil _ _) fun e he => ?_
      rcases List.mem_cons.mp he with rfl | he
      · exact hd
      · exact takeWhile_all _ ds e he
    · rw [List.append_nil]
      exact .whole (List.cons_ne_nil _ _) hwhole
  · rw [List.append_nil]
    exact .whole (List.cons_ne_nil _ _) hwhole

private theorem nameKind_spells (cs : List Char) (h : IsName cs) :
    (Lexeme.nameKind cs).Spells (String.ofList cs) := by
  unfold Lexeme.nameKind
  split
  · next hk =>
    simpa [TokenKind.Spells, Lexeme.keywords] using hk
  · next hk =>
    refine ⟨by simpa using h, ?_⟩
    simpa [Lexeme.keywords] using hk

/-- A lexeme of some kind is spelled like it. -/
theorem spells_of_lexeme? {c : Char} {cs more : List Char} {kind : TokenKind}
    (h : lexeme? c cs = some ⟨some kind, more⟩) : kind.Spells (String.ofList (c :: more)) := by
  unfold lexeme? at h
  split at h
  · cases h
  split at h
  · cases h
  split at h
  · next hc =>
    cases h
    subst hc
    rfl
  split at h
  · next hc =>
    cases h
    exact nameKind_spells (c :: cs.takeWhile Lexeme.isNameRest) ⟨hc, takeWhile_all _ cs⟩
  split at h
  · next hc =>
    cases h
    simpa [TokenKind.Spells] using isNumeral_cons_numberRest hc cs
  split at h
  · next hc =>
    cases h
    simp only [Lexeme.operators, List.contains_cons, List.contains_nil, Bool.or_false, Bool.or_eq_true,
      beq_iff_eq] at hc
    rcases hc with rfl | rfl | rfl | rfl <;> simp [TokenKind.Spells]
  split at h
  · next hc =>
    cases h
    simp only [Lexeme.marks, List.contains_cons, List.contains_nil, Bool.or_false, Bool.or_eq_true,
      beq_iff_eq] at hc
    rcases hc with rfl | rfl | rfl | rfl | rfl <;> simp [TokenKind.Spells]
  · cases h

theorem scan_spelled {place : Place} {cs : List Char} {tokens : List Token}
    (h : scan place cs = .ok tokens) : ∀ token ∈ tokens, token.Spelled := by
  fun_induction scan place cs generalizing tokens with
  | case1 place =>
    cases h
    nofun
  | case2 place c cs hl => cases h
  | case3 place c cs kind more hl ih =>
    cases hr : scan (place.after (c :: more)) (cs.drop more.length) with
    | error e => rw [hr] at h; cases h
    | ok tokens' =>
      rw [hr] at h
      cases h
      intro token ht
      rcases List.mem_append.mp ht with ht | ht
      · cases kind with
        | none => cases ht
        | some kind =>
          rw [List.mem_singleton.mp ht]
          exact spells_of_lexeme? hl
      · exact ih hr token ht

theorem scanSource_spelled {source : String} {tokens : List Token}
    (h : scanSource source = .ok tokens) : ∀ token ∈ tokens, token.Spelled := scan_spelled h

/-! ## What a token answers to -/

namespace Token

variable {token : Token} {kind : TokenKind} {text word : String}

/-- The token is this one of a fixed kind. -/
def Is (token : Token) (kind : TokenKind) (text : String) : Prop :=
  token.kind = kind ∧ token.text = text

theorem Is.kind_ne_newline (h : token.Is kind text) (hk : kind.isFixed = true) :
    token.kind ≠ .newline := by
  rw [h.1]
  rintro rfl
  cases hk

theorem Is.answers (h : token.Is kind text) (hk : kind.isFixed = true) :
    token.answers text = true := by
  rw [Token.answers, h.1, h.2, hk, Bool.true_and, beq_self_eq_true, Bool.or_true]

theorem Is.not_answers (h : token.Is kind text) (hw : word ∉ [kind.name, text]) :
    token.answers word = false := by
  simp only [List.mem_cons, List.not_mem_nil, or_false, not_or] at hw
  rw [Token.answers, h.1, h.2, beq_false_of_ne (Ne.symm hw.1), beq_false_of_ne (Ne.symm hw.2),
    Bool.and_false, Bool.or_false]

theorem answers_name (h : token.kind = kind) : token.answers kind.name = true := by
  rw [answers, h, beq_self_eq_true, Bool.true_or]

theorem not_answers_of_kind (h : token.kind = kind) (hk : kind.isFixed = false)
    (hw : word ≠ kind.name) : token.answers word = false := by
  rw [answers, h, hk, beq_false_of_ne (Ne.symm hw), Bool.false_and, Bool.or_false]

end Token

/-! ## Spelled tokens answer to what they are -/

/-- The fixed kinds have no text in common. -/
theorem TokenKind.Spells.kind_unique {kind kind' : TokenKind} {text : String}
    (hk : kind.isFixed = true) (hk' : kind'.isFixed = true) (h : kind.Spells text)
    (h' : kind'.Spells text) : kind = kind' := by
  cases kind <;> cases hk <;> cases kind' <;> cases hk' <;> try rfl
  all_goals
    simp only [Spells, List.mem_cons, List.not_mem_nil, or_false] at h h'
    rcases h with rfl | rfl | rfl | rfl | rfl <;> simp at h'

/-- No text of a fixed kind is the name of a kind. -/
theorem TokenKind.Spells.ne_name {kind : TokenKind} {text : String} (hk : kind.isFixed = true)
    (h : kind.Spells text) (kind' : TokenKind) : kind'.name ≠ text := by
  rintro rfl
  cases kind <;> cases hk <;> cases kind' <;> simp [Spells, name] at h

namespace Token.Spelled

variable {token : Token} (h : token.Spelled)
include h

theorem answers_iff {kind : TokenKind} {word : String} (hk : kind.isFixed = true)
    (hw : kind.Spells word) :
    token.answers word = true ↔ token.Is kind word := by
  unfold answers Is
  simp only [Bool.or_eq_true, beq_iff_eq, Bool.and_eq_true]
  constructor
  · rintro (hn | ⟨hf, rfl⟩)
    · exact absurd hn (hw.ne_name hk _)
    · exact ⟨TokenKind.Spells.kind_unique hf hk h hw, rfl⟩
  · rintro ⟨rfl, rfl⟩
    exact .inr ⟨hk, rfl⟩

theorem answers_keyword_iff {word : String} (hw : word = "print" ∨ word = "function") :
    token.answers word = true ↔ token.Is .keyword word := h.answers_iff rfl hw

theorem answers_operator_iff {word : String} (hw : word ∈ ["+", "-", "*", "/"]) :
    token.answers word = true ↔ token.Is .operator word := h.answers_iff rfl hw

theorem answers_mark_iff {word : String} (hw : word ∈ ["=", "(", ")", ",", ";"]) :
    token.answers word = true ↔ token.Is .punctuation word := h.answers_iff rfl hw

theorem answers_name_iff (kind : TokenKind) :
    token.answers kind.name = true ↔ token.kind = kind := by
  unfold answers
  simp only [Bool.or_eq_true, beq_iff_eq, Bool.and_eq_true]
  constructor
  · rintro (hn | ⟨hf, ht⟩)
    · cases hkind : token.kind <;> cases kind <;> simp [hkind, TokenKind.name] at hn ⊢
    · exact absurd ht.symm (TokenKind.Spells.ne_name hf h kind)
  · rintro rfl
    exact .inl rfl

end Token.Spelled

end Douro
