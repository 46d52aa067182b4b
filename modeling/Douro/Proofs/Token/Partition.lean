import Mathlib.Data.List.Induction
import Douro.Proofs.Token.Seam

/-!
# Tokens and the text that they are cut from

The tokens of a text are pieces of it, in order. What stands between them is ignored: blanks, and
comments up to the end of their line. Each token carries the place of its first character, and it is
as long as a token of its kind can be there.

* `Cut`: a text is cut into tokens and what is ignored between them.
* `Token.StandsAt`: what a token has to do with the text before it and behind it.
* `TokenKind.IsComplete.longest`: a lexeme that cannot go on is the longest one.
* `tokens_partition_source`: the tokens of a source cut it.
-/

namespace Douro

/-! ## What is ignored -/

/-- A comment goes up to the end of its line or of the text, where `rest` stands. -/
def IsComment (comment rest : List Char) : Prop :=
  (∃ text, comment = '#' :: text ∧ '\n' ∉ text) ∧ (rest = [] ∨ ∃ more, rest = '\n' :: more)

/-- Blanks, and maybe a comment behind them; `rest` follows. -/
def IsIgnored (gap rest : List Char) : Prop :=
  ∃ blanks comment, gap = blanks ++ comment ∧ (∀ c ∈ blanks, c = ' ' ∨ c = '\t') ∧
    (comment = [] ∨ IsComment comment rest)

theorem isIgnored_nil (rest : List Char) : IsIgnored [] rest := ⟨[], [], rfl, nofun, .inl rfl⟩

theorem IsComment.isIgnored {comment rest : List Char} (h : IsComment comment rest) :
    IsIgnored comment rest := ⟨[], comment, rfl, nofun, .inr h⟩

theorem IsIgnored.blanks {blanks gap rest : List Char} (hb : ∀ c ∈ blanks, c = ' ' ∨ c = '\t')
    (h : IsIgnored gap rest) : IsIgnored (blanks ++ gap) rest := by
  obtain ⟨blanks', comment, rfl, hb', hc⟩ := h
  refine ⟨blanks ++ blanks', comment, (List.append_assoc ..).symm, fun c hm => ?_, hc⟩
  rcases List.mem_append.mp hm with hm | hm
  · exact hb c hm
  · exact hb' c hm

/-- Nothing that is ignored starts with a line feed. -/
theorem IsIgnored.eq_nil_of_feed {gap rest more : List Char} (h : IsIgnored gap rest)
    (hfeed : gap ++ rest = '\n' :: more) : gap = [] := by
  obtain ⟨blanks, comment, rfl, hb, hc⟩ := h
  cases blanks with
  | cons c blanks =>
    obtain ⟨rfl, -⟩ := List.cons.inj hfeed
    rcases hb '\n' List.mem_cons_self with h | h <;> cases h
  | nil =>
    rcases hc with rfl | ⟨⟨text, rfl, -⟩, -⟩
    · rfl
    · cases hfeed

/-! ## Complete lexemes -/

namespace TokenKind

/-- The lexemes of a kind. A keyword is a name. -/
def IsLexeme : TokenKind → List Char → Prop
  | .number, cs => IsNumeral cs
  | .identifier, cs | .keyword, cs => IsName cs
  | .operator, cs => ∃ c, cs = [c] ∧ c ∈ ['+', '-', '*', '/']
  | .punctuation, cs => ∃ c, cs = [c] ∧ c ∈ ['=', '(', ')', ',', ';']
  | .newline, cs => cs = ['\n']

/-- A lexeme does not go on in the text behind it: a number neither with a digit nor, unless it has a
fraction, with a point and a digit; a name neither with a letter nor with a digit nor with an
underscore. -/
def IsComplete : TokenKind → (lexeme behind : List Char) → Prop
  | .number, lexeme, behind => (∀ c ∈ behind.head?, Text.isDigit c = false) ∧
    ('.' ∉ lexeme → ∀ c rest, behind = '.' :: c :: rest → Text.isDigit c = false)
  | .identifier, _, behind | .keyword, _, behind =>
    ∀ c ∈ behind.head?, Lexeme.isNameRest c = false
  | .operator, _, _ | .punctuation, _, _ | .newline, _, _ => True

end TokenKind

theorem not_mem_point {ds : List Char} (h : ∀ d ∈ ds, Text.isDigit d = true) : '.' ∉ ds := by
  intro hm
  have := h '.' hm
  revert this
  decide

/-- How a numeral goes on behind a shorter one: with a digit, or with a point and a digit. -/
theorem IsNumeral.goesOn {cs rest : List Char} {c : Char} (h : IsNumeral (cs ++ c :: rest)) :
    Text.isDigit c = true ∨
      '.' ∉ cs ∧ c = '.' ∧ ∃ d ds, rest = d :: ds ∧ Text.isDigit d = true := by
  generalize hall : cs ++ c :: rest = all at h
  cases h with
  | whole _ hds =>
    subst hall
    exact .inl (hds c (by simp))
  | @fraction ds fs _ hds hne hfs =>
    have hpoint : cs = ds → c :: rest = '.' :: fs → '.' ∉ cs ∧ c = '.' ∧
        ∃ d ds, rest = d :: ds ∧ Text.isDigit d = true := by
      rintro rfl ⟨⟩
      obtain ⟨f, fs, rfl⟩ := List.exists_cons_of_ne_nil hne
      exact ⟨not_mem_point hds, rfl, f, fs, rfl, hfs f List.mem_cons_self⟩
    -- The point stands behind `c`, at `c` or before it.
    rcases List.append_eq_append_iff.mp hall with ⟨more, hcs, hmore⟩ | ⟨more, hcs, hmore⟩
    · cases more with
      | nil => exact .inr (hpoint (by simpa using hcs.symm) hmore)
      | cons d more =>
        obtain ⟨rfl, -⟩ := List.cons.inj hmore
        exact .inl (hds c (by simp [hcs]))
    · cases more with
      | nil => exact .inr (hpoint (by simpa using hcs) hmore.symm)
      | cons d more =>
        obtain ⟨-, rfl⟩ := List.cons.inj hmore
        exact .inl (hfs c (by simp))

/-- A complete lexeme is the longest of its kind at its place. -/
theorem TokenKind.IsComplete.longest {kind : TokenKind} {cs behind longer : List Char}
    (h : kind.IsComplete cs behind) (hcs : kind.IsLexeme cs) (hl : kind.IsLexeme longer)
    (hp : longer <+: cs ++ behind) : longer.length ≤ cs.length := by
  by_contra hlt
  obtain ⟨more, rfl⟩ : cs <+: longer :=
    List.prefix_of_prefix_length_le (List.prefix_append cs behind) hp (by omega)
  obtain ⟨tail, htail⟩ := hp
  rw [List.append_assoc] at htail
  obtain rfl := List.append_cancel_left htail
  cases more with
  | nil => simp at hlt
  | cons c more =>
    cases kind with
    | number =>
      rcases hl.goesOn with hd | ⟨hpoint, rfl, d, ds, rfl, hd⟩
      · rw [h.1 c rfl] at hd
        cases hd
      · rw [h.2 hpoint d _ rfl] at hd
        cases hd
    | identifier | keyword =>
      cases cs with
      | nil => exact hcs
      | cons d cs =>
        have hd := hl.2 c (by simp)
        rw [h c rfl] at hd
        cases hd
    | operator | punctuation =>
      obtain ⟨d, rfl, -⟩ := hcs
      obtain ⟨e, he, -⟩ := hl
      simp at he
    | newline =>
      cases hcs
      simp [IsLexeme] at hl

/-- A spelled text is a lexeme of its kind. -/
theorem TokenKind.Spells.isLexeme {kind : TokenKind} {text : String} (h : kind.Spells text) :
    kind.IsLexeme text.toList := by
  cases kind with
  | number => exact h
  | identifier => exact h.1
  | keyword => rcases h with rfl | rfl <;> exact ⟨by decide, List.all_eq_true.mp (by decide)⟩
  | operator =>
    simp only [Spells, List.mem_cons, List.not_mem_nil, or_false] at h
    rcases h with rfl | rfl | rfl | rfl <;> exact ⟨_, rfl, by decide⟩
  | punctuation =>
    simp only [Spells, List.mem_cons, List.not_mem_nil, or_false] at h
    rcases h with rfl | rfl | rfl | rfl | rfl <;> exact ⟨_, rfl, by decide⟩
  | newline =>
    cases h
    rfl

/-- A name is a keyword exactly if its text is one. -/
theorem Token.Spelled.isKeyword_iff {token : Token} (h : token.Spelled)
    (hname : token.kind = .identifier ∨ token.kind = .keyword) :
    token.kind = .keyword ↔ token.text = "print" ∨ token.text = "function" := by
  rcases hname with hk | hk
  · rw [Spelled, hk] at h
    simp [hk, h.2.1, h.2.2]
  · rw [Spelled, hk] at h
    exact iff_of_true hk h

/-! ## Lexemes that are scanned are complete -/

/-- What stands behind all characters of a class does not start with one. -/
theorem head_behind_takeWhile {p : Char → Bool} {cs behind : List Char}
    (h : cs.takeWhile p ++ behind = cs) : ∀ c ∈ behind.head?, p c = false := by
  intro c hc
  have hbehind : behind = cs.dropWhile p :=
    List.append_cancel_left (h.trans List.takeWhile_append_dropWhile.symm)
  have hnot := List.head?_dropWhile_not p cs
  rwa [← hbehind, Option.mem_def.mp hc] at hnot

/-- Behind its fraction a number does not go on. -/
theorem fraction_complete {cs behind : List Char} (h : Lexeme.fraction cs ++ behind = cs)
    (hcs : ∀ c ∈ cs.head?, Text.isDigit c = false) :
    (∀ c ∈ behind.head?, Text.isDigit c = false) ∧
      ('.' ∉ Lexeme.fraction cs → ∀ c rest, behind = '.' :: c :: rest → Text.isDigit c = false) := by
  unfold Lexeme.fraction at h ⊢
  split at h
  · next d ds =>
    split at h
    · next hd =>
      simp only [List.cons_append, List.cons.injEq, true_and] at h
      exact ⟨head_behind_takeWhile h, fun hp => absurd (by simp [hd]) hp⟩
    · next hd =>
      obtain rfl : behind = _ := h
      refine ⟨hcs, ?_⟩
      rintro - c rest ⟨⟩
      simpa using hd
  · next hne =>
    obtain rfl : behind = _ := h
    refine ⟨hcs, ?_⟩
    rintro - c rest rfl
    exact absurd rfl (hne c rest)

theorem numberRest_complete {c : Char} {cs behind : List Char}
    (h : Lexeme.numberRest cs ++ behind = cs) :
    TokenKind.number.IsComplete (c :: Lexeme.numberRest cs) behind := by
  rw [Lexeme.numberRest, List.append_assoc] at h
  have hrest : Lexeme.fraction (cs.dropWhile Text.isDigit) ++ behind = cs.dropWhile Text.isDigit :=
    List.append_cancel_left (h.trans List.takeWhile_append_dropWhile.symm)
  obtain ⟨hdigit, hpoint⟩ :=
    fraction_complete hrest (head_behind_takeWhile List.takeWhile_append_dropWhile)
  refine ⟨hdigit, fun hp => hpoint fun hm => hp ?_⟩
  rw [Lexeme.numberRest]
  simp [hm]

/-- A lexeme takes all that belongs to it. -/
theorem isComplete_of_lexeme? {c : Char} {cs more behind : List Char} {kind : TokenKind}
    (h : lexeme? c cs = some ⟨some kind, more⟩) (hcs : more ++ behind = cs) :
    kind.IsComplete (c :: more) behind := by
  unfold lexeme? at h
  split at h
  · cases h
  split at h
  · cases h
  split at h
  · cases h
    trivial
  split at h
  · cases h
    unfold Lexeme.nameKind
    split <;> exact head_behind_takeWhile hcs
  split at h
  · cases h
    exact numberRest_complete hcs
  split at h
  · cases h
    trivial
  split at h
  · cases h
    trivial
  · cases h

/-- A lexeme without a kind is ignored. -/
theorem isIgnored_of_lexeme? {c : Char} {cs more behind : List Char}
    (h : lexeme? c cs = some ⟨none, more⟩) (hcs : more ++ behind = cs) :
    (∀ d ∈ c :: more, d = ' ' ∨ d = '\t') ∨ IsComment (c :: more) behind := by
  have hgap : ∀ d, Lexeme.isGap d = true → d = ' ' ∨ d = '\t' := by
    intro d hd
    simpa [Lexeme.isGap] using hd
  unfold lexeme? at h
  split at h
  · next hc =>
    cases h
    refine .inl fun d hd => ?_
    rcases List.mem_cons.mp hd with rfl | hd
    · exact hgap d hc
    · exact hgap d (List.all_eq_true.mp List.all_takeWhile d hd)
  split at h
  · next hc =>
    cases h
    refine .inr ⟨⟨_, by rw [hc], fun hm => ?_⟩, ?_⟩
    · have := List.all_eq_true.mp List.all_takeWhile _ hm
      simp at this
    · cases behind with
      | nil => exact .inl rfl
      | cons d more =>
        have hd := head_behind_takeWhile hcs d rfl
        obtain rfl : d = '\n' := by simpa using hd
        exact .inr ⟨more, rfl⟩
  repeat' split at h
  all_goals cases h

/-! ## Cutting a text into tokens -/

/-- The token stands in a text, with `before` before it and `behind` behind it: its line and its
column are those of its first character, it is spelled like a token of its kind, and it is the longest
lexeme of its kind there. -/
structure Token.StandsAt (token : Token) (before behind : List Char) : Prop where
  line : token.line = 1 + before.count '\n'
  column : token.column = 1 + (before.reverse.takeWhile (· != '\n')).length
  spelled : token.Spelled
  complete : token.kind.IsComplete token.text.toList behind
  longest : ∀ lexeme, token.kind.IsLexeme lexeme → lexeme <+: token.text.toList ++ behind →
    lexeme.length ≤ token.text.toList.length
  keyword : token.kind = .identifier ∨ token.kind = .keyword →
    (token.kind = .keyword ↔ token.text = "print" ∨ token.text = "function")

/-- The text `rest`, with `before` before it, is cut into the tokens and what is ignored around
them. -/
inductive Cut : (before rest : List Char) → List Token → Prop
  | last {before gap} : IsIgnored gap [] → Cut before gap []
  | token {before gap token behind tokens} : IsIgnored gap (token.text.toList ++ behind) →
    token.StandsAt (before ++ gap) behind →
    Cut (before ++ gap ++ token.text.toList) behind tokens →
    Cut before (gap ++ (token.text.toList ++ behind)) (token :: tokens)

theorem Cut.blanks {before blanks rest : List Char} {tokens : List Token}
    (hb : ∀ c ∈ blanks, c = ' ' ∨ c = '\t') (h : Cut (before ++ blanks) rest tokens) :
    Cut before (blanks ++ rest) tokens := by
  cases h with
  | last hg => exact .last (hg.blanks hb)
  | token hg ht hcut =>
    rw [List.append_assoc] at ht hcut
    rw [← List.append_assoc]
    exact .token (hg.blanks hb) ht (by simpa using hcut)

theorem Cut.comment {before comment rest : List Char} {tokens : List Token}
    (hc : IsComment comment rest) (h : Cut (before ++ comment) rest tokens) :
    Cut before (comment ++ rest) tokens := by
  cases h with
  | last hg =>
    obtain rfl : rest = [] := by
      rcases hc.2 with h | ⟨more, rfl⟩
      · exact h
      · exact hg.eq_nil_of_feed (List.append_nil _)
    rw [List.append_nil]
    exact .last hc.isIgnored
  | @token _ gap token behind tokens hg ht hcut =>
    -- Behind a comment nothing is ignored before the next token, which is the end of the line.
    obtain rfl : gap = [] := by
      rcases hc.2 with h | ⟨more, h⟩
      · exact (List.append_eq_nil_iff.mp h).1
      · exact hg.eq_nil_of_feed h
    rw [List.append_nil] at ht hcut
    exact .token hc.isIgnored ht hcut

/-- Each token is a piece of the text. -/
theorem Cut.exists_of_mem {before rest : List Char} {tokens : List Token} (h : Cut before rest tokens)
    {token : Token} (ht : token ∈ tokens) :
    ∃ front behind, before ++ rest = front ++ token.text.toList ++ behind ∧
      token.StandsAt front behind := by
  induction h with
  | last => cases ht
  | @token before gap first behind tokens _ hfirst _ ih =>
    rcases List.mem_cons.mp ht with rfl | ht
    · exact ⟨before ++ gap, behind, by simp, hfirst⟩
    · obtain ⟨front, behind', htext, hstands⟩ := ih ht
      exact ⟨front, behind', by rw [← htext]; simp, hstands⟩

/-- The column of a place tells how many characters stand before it in its line. -/
theorem Place.column_after (before : List Char) :
    (Place.start.after before).column = 1 + (before.reverse.takeWhile (· != '\n')).length := by
  induction before using List.reverseRecOn with
  | nil => rfl
  | append_singleton before c ih =>
    rw [after, List.foldl_append, List.reverse_append]
    show ((Place.start.after before).next c).column = _
    by_cases hc : c = '\n'
    · simp [next, hc]
    · simp [next, hc, ih]
      omega

/-- The token of a lexeme stands where the lexeme does. -/
theorem standsAt_of_lexeme? {before cs more behind : List Char} {c : Char} {kind : TokenKind}
    (h : lexeme? c cs = some ⟨some kind, more⟩) (hcs : more ++ behind = cs) :
    let place := Place.start.after before
    Token.StandsAt ⟨kind, String.ofList (c :: more), place.line, place.column⟩ before behind := by
  intro place
  have hspelled : kind.Spells (String.ofList (c :: more)) := spells_of_lexeme? h
  have hcomplete : kind.IsComplete (String.ofList (c :: more)).toList behind := by
    rw [String.toList_ofList]
    exact isComplete_of_lexeme? h hcs
  refine ⟨?_, ?_, hspelled, hcomplete, fun lexeme hl hp =>
    hcomplete.longest hspelled.isLexeme hl hp, Token.Spelled.isKeyword_iff hspelled⟩
  · simp only [place, Place.line_after, Place.start]
    omega
  · simp only [place, Place.column_after]
    omega

/-- What is scanned is cut into the tokens. -/
theorem scan_cuts {place : Place} {before cs : List Char} {tokens : List Token}
    (hplace : place = Place.start.after before) (h : scan place cs = .ok tokens) :
    Cut before cs tokens := by
  fun_induction scan place cs generalizing before tokens with
  | case1 place =>
    cases h
    exact .last (isIgnored_nil [])
  | case2 place c cs hl => cases h
  | case3 place c cs kind more hl ih =>
    obtain ⟨behind, hcs⟩ := prefix_of_lexeme? hl
    have hdrop : cs.drop more.length = behind := by rw [← hcs, List.drop_left]
    rw [hdrop] at h ih
    cases hr : scan (place.after (c :: more)) behind with
    | error e =>
      rw [hr] at h
      cases h
    | ok tokens' =>
      rw [hr] at h
      cases h
      have hnext : Cut (before ++ c :: more) behind tokens' :=
        ih (by simp only [hplace, Place.after, List.foldl_append]) hr
      rw [← hcs, ← List.cons_append]
      cases kind with
      | none =>
        rcases isIgnored_of_lexeme? hl hcs with hb | hc
        · exact hnext.blanks hb
        · exact hnext.comment hc
      | some kind =>
        have htoken : Token.StandsAt ⟨kind, String.ofList (c :: more), place.line, place.column⟩
            (before ++ []) behind := by
          rw [List.append_nil, hplace]
          exact standsAt_of_lexeme? hl hcs
        have hcut := Cut.token (isIgnored_nil _) htoken (by simpa using hnext)
        simpa [Place.token?] using hcut

/-- The tokens of a source cut its text, once its line ends are made alike: they are pieces of it, in
order, each with the line and the column of its first character and as long as it can be, and around
them there are only blanks and comments. -/
theorem tokens_partition_source {source : String} {tokens : List Token}
    (h : scanSource source = .ok tokens) :
    Cut [] (Text.normaliseLineEnds source.toList) tokens ∧
    ∀ token ∈ tokens, ∃ front behind,
      Text.normaliseLineEnds source.toList = front ++ token.text.toList ++ behind ∧
        token.StandsAt front behind := by
  have hcut : Cut [] (Text.normaliseLineEnds source.toList) tokens := scan_cuts rfl h
  exact ⟨hcut, fun token ht => hcut.exists_of_mem ht⟩

/-- A name that goes on behind a keyword, the keyword, a number in the digits of two scripts, and a
comment before a line end of two characters. -/
theorem tokens_partition_source_of_lines :
    scanSource "print1 print 1٣.5# .\r\n\tx" = .ok
      [⟨.identifier, "print1", 1, 1⟩, ⟨.keyword, "print", 1, 8⟩, ⟨.number, "1٣.5", 1, 14⟩,
        ⟨.newline, "\n", 1, 21⟩, ⟨.identifier, "x", 2, 2⟩] ∧
    Cut [] (Text.normaliseLineEnds "print1 print 1٣.5# .\r\n\tx".toList)
      [⟨.identifier, "print1", 1, 1⟩, ⟨.keyword, "print", 1, 8⟩, ⟨.number, "1٣.5", 1, 14⟩,
        ⟨.newline, "\n", 1, 21⟩, ⟨.identifier, "x", 2, 2⟩] := by
  have hscan : scanSource "print1 print 1٣.5# .\r\n\tx" = .ok
      [⟨.identifier, "print1", 1, 1⟩, ⟨.keyword, "print", 1, 8⟩, ⟨.number, "1٣.5", 1, 14⟩,
        ⟨.newline, "\n", 1, 21⟩, ⟨.identifier, "x", 2, 2⟩] := by with_unfolding_all rfl
  exact ⟨hscan, (tokens_partition_source hscan).1⟩

end Douro
