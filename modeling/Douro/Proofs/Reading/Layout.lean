import Douro.Proofs.Reading.Lookahead

/-!
# Newlines and separators

Where newlines do not count, any number of them may stand between two tokens; where they do, any run of
separators is as good as any other, and at the edges of a block it is as good as none. Which of these a
point between two tokens is follows from the parentheses that are open there and from what stands before
it, so it can be told from the tokens alone.

`Relaid point tokens tokens'` states that two lists of tokens are laid out differently and otherwise the
same, token by token. Each phrase is read from both of them alike.

* `Point.after`, `Point.mode`: the point behind some tokens, and whether newlines count there.
* `Reads.relaid`: a phrase is read from tokens that are laid out differently.
* `newlines_in_parentheses_are_ignored`: newlines where they do not count.
* `separators_are_interchangeable`: separators between statements and at the edges of blocks.
-/

namespace Douro

instance (token : Token) (kind : TokenKind) (text : String) : Decidable (token.Is kind text) :=
  inferInstanceAs (Decidable (_ ∧ _))

namespace Reading

instance (token : Token) : Decidable (Separates token) := inferInstanceAs (Decidable (_ ∨ _))

/-! ## Points between tokens -/

/-- What an open parenthesis encloses. -/
inductive Paren where
  /-- A group, or the arguments of a call. -/
  | group
  | parameters
  | body
deriving DecidableEq

/-- What stands before a point, separators apart. -/
inductive Before where
  /-- Nothing of the program, or nothing of the body of a function. -/
  | opening
  /-- The word `function`. -/
  | function
  /-- The parameters of a function and their closing parenthesis. -/
  | parameters
  | other
deriving DecidableEq

/-- A point between two tokens: the open parentheses around it, the innermost first, and what stands
before it. -/
structure Point where
  opened : List Paren
  before : Before
deriving DecidableEq

namespace Point

/-- The point before all tokens. -/
def start : Point := ⟨[], .opening⟩

/-- The point behind the next token. The parenthesis behind `function` is that of the parameters, the one
behind the parameters is that of the body. -/
def next (point : Point) (token : Token) : Point :=
  if Separates token then point
  else if token.Is .keyword "function" then ⟨point.opened, .function⟩
  else if token.Is .punctuation "(" then
    match point.before with
    | .function => ⟨.parameters :: point.opened, .other⟩
    | .parameters => ⟨.body :: point.opened, .opening⟩
    | .opening | .other => ⟨.group :: point.opened, .other⟩
  else if token.Is .punctuation ")" then
    match point.opened with
    | .parameters :: opened => ⟨opened, .parameters⟩
    | _ :: opened => ⟨opened, .other⟩
    | [] => ⟨[], .other⟩
  else ⟨point.opened, .other⟩

/-- The point behind some tokens. -/
def after (point : Point) (tokens : List Token) : Point := tokens.foldl next point

/-- Do newlines count at a point? They do not between `function` and the body behind it, and they do not
where the innermost parenthesis is that of a group, of arguments or of parameters. -/
def mode (point : Point) : LineMode :=
  match point.before, point.opened with
  | .function, _ | .parameters, _ => .ignored
  | _, .group :: _ | _, .parameters :: _ => .ignored
  | _, .body :: _ | _, [] => .counted

/-- The tokens that mean nothing at a point by themselves. -/
def Skips (point : Point) (token : Token) : Prop :=
  match point.mode with
  | .counted => Separates token
  | .ignored => token.kind = .newline

/-- The block around a point ends before the tokens that follow. -/
def EndsBlock (point : Point) : List Token → Prop
  | [] => True
  | token :: _ => point.opened ≠ [] ∧ token.Is .punctuation ")"

/-- Before the tokens that follow, something may be skipped or nothing: newlines do not count, or the
point is at an edge of its block. -/
def Loose (point : Point) (tokens : List Token) : Prop :=
  point.mode = .ignored ∨ point.before = .opening ∨ point.EndsBlock tokens

variable {point : Point} {token : Token} {kind : TokenKind} {text : String} {opened : List Paren}

theorem Skips.separates (h : point.Skips token) : Separates token := by
  unfold Skips at h
  split at h
  · exact h
  · exact .inl h

theorem skips_of_ignored (hm : point.mode = .ignored) : point.Skips token ↔ token.kind = .newline := by
  rw [Skips, hm]

theorem skips_of_counted (hm : point.mode = .counted) : point.Skips token ↔ Separates token := by
  rw [Skips, hm]

theorem mode_opening (opened : List Paren) : mode ⟨opened, .opening⟩ = mode ⟨opened, .other⟩ := by
  rcases opened with - | ⟨- | - | -, opened⟩ <;> rfl

theorem skips_opening : Skips ⟨opened, .opening⟩ token ↔ Skips ⟨opened, .other⟩ token := by
  rw [Skips, Skips, mode_opening]

theorem next_of_separates (h : Separates token) : point.next token = point := if_pos h

/-- Only the kind and the text of a token matter. -/
theorem next_of_is (h : token.Is kind text) : point.next token = point.next ⟨kind, text, 0, 0⟩ := by
  obtain ⟨rfl, rfl⟩ := h
  rfl

theorem next_of_kind (h : token.kind ∈ [TokenKind.number, .identifier, .operator]) :
    point.next token = ⟨point.opened, .other⟩ := by
  simp only [List.mem_cons, List.not_mem_nil, or_false] at h
  rcases h with h | h | h <;> simp [next, Separates, Token.Is, h]

theorem next_print (h : token.Is .keyword "print") : point.next token = ⟨point.opened, .other⟩ :=
  next_of_is h

theorem next_function (h : token.Is .keyword "function") :
    point.next token = ⟨point.opened, .function⟩ := next_of_is h

theorem next_opening (h : token.Is .punctuation "(") :
    (⟨opened, .other⟩ : Point).next token = ⟨.group :: opened, .other⟩ := next_of_is h

theorem next_opening_parameters (h : token.Is .punctuation "(") :
    (⟨opened, .function⟩ : Point).next token = ⟨.parameters :: opened, .other⟩ := next_of_is h

theorem next_opening_body (h : token.Is .punctuation "(") :
    (⟨opened, .parameters⟩ : Point).next token = ⟨.body :: opened, .opening⟩ := next_of_is h

theorem next_closing_parameters (h : token.Is .punctuation ")") :
    (⟨.parameters :: opened, .other⟩ : Point).next token = ⟨opened, .parameters⟩ := next_of_is h

theorem next_closing {paren : Paren} (hp : paren ≠ .parameters) (h : token.Is .punctuation ")") :
    (⟨paren :: opened, .other⟩ : Point).next token = ⟨opened, .other⟩ := by
  rw [next_of_is h]
  cases paren with
  | group | body => rfl
  | parameters => exact absurd rfl hp

theorem next_mark (h : token.Is .punctuation text) (ht : text ∈ ["=", ","]) :
    point.next token = ⟨point.opened, .other⟩ := by
  rw [next_of_is h]
  simp only [List.mem_cons, List.not_mem_nil, or_false] at ht
  rcases ht with rfl | rfl <;> rfl

/-- What a token does before the first statement of a block it does everywhere in the block. -/
theorem next_of_opening (h : ¬ Separates token) :
    (⟨opened, .opening⟩ : Point).next token = (⟨opened, .other⟩ : Point).next token := by
  simp only [next, if_neg h]

end Point

/-! ## Tokens that are laid out differently -/

/-- Two lists of tokens from a point on are laid out differently and are otherwise the same. The tokens
that they share are spelled. -/
inductive Relaid : Point → List Token → List Token → Prop
  | done {point gap gap'} : (∀ token ∈ gap, point.Skips token) → (∀ token ∈ gap', point.Skips token) →
    Relaid point gap gap'
  | next {point gap gap' token rest rest'} : (∀ token ∈ gap, point.Skips token) →
    (∀ token ∈ gap', point.Skips token) → ¬ point.Skips token → token.Spelled →
    ((gap = [] ↔ gap' = []) ∨ point.Loose (token :: rest)) → Relaid (point.next token) rest rest' →
    Relaid point (gap ++ token :: rest) (gap' ++ token :: rest')

namespace Relaid

variable {point : Point} {token : Token} {tokens tokens' rest rest' : List Token} {opened : List Paren}

theorem symm (h : Relaid point tokens tokens') : Relaid point tokens' tokens := by
  induction h with
  | done hg hg' => exact .done hg' hg
  | next hg hg' ht hsp hgaps _ ih => exact .next hg' hg ht hsp (hgaps.imp_left Iff.symm) ih

/-- The same token in front of both lists. -/
theorem cons (hsp : token.Spelled) (h : Relaid (point.next token) rest rest') :
    Relaid point (token :: rest) (token :: rest') := by
  by_cases hs : point.Skips token
  · rw [Point.next_of_separates hs.separates] at h
    cases h with
    | done hg hg' =>
      exact .done (List.forall_mem_cons.mpr ⟨hs, hg⟩) (List.forall_mem_cons.mpr ⟨hs, hg'⟩)
    | next hg hg' ht hsp _ hr =>
      exact @next _ (token :: _) (token :: _) _ _ _ (List.forall_mem_cons.mpr ⟨hs, hg⟩)
        (List.forall_mem_cons.mpr ⟨hs, hg'⟩) ht hsp (.inl (by simp)) hr
  · exact @next _ [] [] _ _ _ nofun nofun hs hsp (.inl Iff.rfl) h

/-- The same tokens in front of both lists. -/
theorem append {front : List Token} (hsp : ∀ token ∈ front, token.Spelled)
    (h : Relaid (point.after front) rest rest') : Relaid point (front ++ rest) (front ++ rest') := by
  induction front generalizing point with
  | nil => exact h
  | cons token front ih =>
    obtain ⟨hsp, hsps⟩ := List.forall_mem_cons.mp hsp
    exact (ih hsps h).cons hsp

theorem refl (hsp : ∀ token ∈ tokens, token.Spelled) (point : Point) : Relaid point tokens tokens := by
  have h : Relaid point (tokens ++ []) (tokens ++ []) := append hsp (.done nofun nofun)
  rwa [List.append_nil] at h

/-- What is skipped may be replaced. It may be left out only where the point is loose. -/
theorem replace {gap gap' : List Token} (h : Relaid point tokens tokens')
    (hg : ∀ token ∈ gap, point.Skips token) (hg' : ∀ token ∈ gap', point.Skips token)
    (hgaps : gap ≠ [] ∧ gap' ≠ [] ∨ point.Loose tokens) :
    Relaid point (gap ++ tokens) (gap' ++ tokens') := by
  have hjoin : ∀ {gap more : List Token}, (∀ token ∈ gap, point.Skips token) →
      (∀ token ∈ more, point.Skips token) → ∀ token ∈ gap ++ more, point.Skips token :=
    fun hg hm token ht => (List.mem_append.mp ht).elim (hg token) (hm token)
  cases h with
  | done hm hm' => exact .done (hjoin hg hm) (hjoin hg' hm')
  | @next _ more more' token rest rest' hm hm' ht hsp hsame hr =>
    rw [← List.append_assoc, ← List.append_assoc]
    refine .next (hjoin hg hm) (hjoin hg' hm') ht hsp ?_ hr
    rcases hgaps with ⟨hne, hne'⟩ | hmode | hopening | hend
    · exact .inl (by simp [hne, hne'])
    · exact .inr (.inl hmode)
    · exact .inr (.inr (.inl hopening))
    · cases more with
      | nil => exact .inr (.inr (.inr hend))
      | cons first more =>
        -- The parenthesis that ends a block is nothing that is skipped.
        have hsep := (hm first List.mem_cons_self).separates
        exact absurd (hend.2.answers rfl) (by rw [hsep.not_answers (by decide)]; decide)

end Relaid

/-! ## The next token -/

/-- A token that neither separates statements nor ends a block. -/
def Firm (token : Token) : Prop := ¬ Separates token ∧ ¬ token.Is .punctuation ")"

section Firm

variable {token : Token} {word : String}

theorem firm_of_kind (h : token.kind = .number ∨ token.kind = .identifier) : Firm token := by
  rcases h with h | h <;> simp [Firm, Separates, Token.Is, h]

theorem firm_of_answers (h : token.answers word = true)
    (hw : word ∉ [TokenKind.newline.name, TokenKind.punctuation.name, ";", ")"]) : Firm token := by
  simp only [List.mem_cons, List.not_mem_nil, or_false, not_or] at hw
  refine ⟨?_, fun hc => ?_⟩
  · rintro (hk | hm)
    · rw [Token.not_answers_of_kind hk rfl hw.1] at h
      cases h
    · rw [hm.not_answers (by simp [hw])] at h
      cases h
  · rw [hc.not_answers (by simp [hw])] at h
    cases h

theorem firm_of_addsTerm (h : addsTerm token = true) : Firm token := by
  rcases Bool.or_eq_true_iff.mp h with h | h
  · exact firm_of_answers h (by decide)
  · exact firm_of_answers h (by decide)

theorem firm_of_addsFactor (h : addsFactor token = true) : Firm token := by
  rcases Bool.or_eq_true_iff.mp h with h | h
  · exact firm_of_answers h (by decide)
  · exact firm_of_answers h (by decide)

end Firm

theorem accept?_eq_none_iff {mode : LineMode} {word : String} {tokens : List Token} :
    accept? mode word tokens = none ↔
      ∀ token rest, settle mode tokens = token :: rest → token.answers word = false := by
  unfold accept?
  split
  · next hs => simp [hs]
  · next token rest hs => simp [hs]

namespace Relaid

variable {point : Point} {token : Token} {tokens tokens' rest : List Token} {opened : List Paren}
  {mode : LineMode} {word name : String} {seen : List String}

/-- Where newlines do not count, the next token is the same. -/
theorem settle_ignored (h : Relaid point tokens tokens') (hm : point.mode = .ignored)
    (hs : settle .ignored tokens = token :: rest) :
    token.Spelled ∧ ∃ rest', settle .ignored tokens' = token :: rest' ∧
      Relaid (point.next token) rest rest' := by
  have hgap : ∀ {gap : List Token}, (∀ token ∈ gap, point.Skips token) → Gap .ignored gap :=
    fun hg token ht => (Point.skips_of_ignored hm).mp (hg token ht)
  cases h with
  | done hg _ =>
    have hmem : token ∈ tokens := (cons_suffix_of_settle hs).mem List.mem_cons_self
    exact absurd (hgap hg token hmem) (kind_ne_newline_of_settle hs)
  | next hg hg' ht hsp _ hr =>
    rw [Point.skips_of_ignored hm] at ht
    rw [settle_gap (hgap hg) ht] at hs
    cases hs
    exact ⟨hsp, _, settle_gap (hgap hg') ht, hr⟩

/-- A first token that separates nothing is shared, maybe behind something that is skipped. -/
theorem cons_inv (h : Relaid point (token :: rest) tokens') (ht : ¬ Separates token) :
    token.Spelled ∧ ∃ gap' rest', tokens' = gap' ++ token :: rest' ∧ (∀ sep ∈ gap', Separates sep) ∧
      (gap' = [] ∨ point.Loose (token :: rest)) ∧ Relaid (point.next token) rest rest' := by
  generalize htokens : token :: rest = tokens at h
  cases h with
  | done hg _ =>
    subst htokens
    exact absurd (hg token List.mem_cons_self).separates ht
  | @next _ gap gap' _ _ rest' hg hg' _ hsp hgaps hr =>
    cases gap with
    | cons sep gap =>
      cases htokens
      exact absurd (hg token List.mem_cons_self).separates ht
    | nil =>
      cases htokens
      exact ⟨hsp, gap', rest', rfl, fun sep hs => (hg' sep hs).separates,
        hgaps.imp_left fun hgaps => hgaps.mp rfl, hr⟩

/-- Where newlines count, a firm token inside a block is followed alike. -/
theorem cons_counted (h : Relaid ⟨opened, .other⟩ (token :: rest) tokens')
    (hm : Point.mode ⟨opened, .other⟩ = .counted) (hf : Firm token) :
    token.Spelled ∧ ∃ rest', tokens' = token :: rest' ∧
      Relaid (Point.next ⟨opened, .other⟩ token) rest rest' := by
  obtain ⟨hsp, gap', rest', rfl, -, rfl | hmode | hopening | hend, hr⟩ := h.cons_inv hf.1
  · exact ⟨hsp, rest', rfl, hr⟩
  · rw [hm] at hmode
    cases hmode
  · cases hopening
  · exact absurd hend.2 hf.2

/-- A firm token inside a block is the next one in both lists. -/
theorem settle_firm (h : Relaid ⟨opened, .other⟩ tokens tokens')
    (hm : Point.mode ⟨opened, .other⟩ = mode) (hs : settle mode tokens = token :: rest)
    (hf : Firm token) :
    token.Spelled ∧ ∃ rest', settle mode tokens' = token :: rest' ∧
      Relaid (Point.next ⟨opened, .other⟩ token) rest rest' := by
  cases mode with
  | ignored => exact h.settle_ignored hm hs
  | counted =>
    cases hs
    exact h.cons_counted hm hf

/-- What is not next in one list and could only be firm is not next in the other. -/
theorem not_next (h : Relaid ⟨opened, .other⟩ tokens tokens')
    (hm : Point.mode ⟨opened, .other⟩ = mode) {p : Token → Bool}
    (hfirm : ∀ {token}, p token = true → Firm token)
    (hp : ∀ token rest, settle mode tokens = token :: rest → p token = false) (token : Token)
    (rest : List Token) (hs : settle mode tokens' = token :: rest) : p token = false := by
  refine Bool.eq_false_iff.mpr fun ht => ?_
  obtain ⟨-, rest', hs', -⟩ := h.symm.settle_firm hm hs (hfirm ht)
  rw [hp token rest' hs'] at ht
  cases ht

theorem settle_kind (h : Relaid ⟨opened, .other⟩ tokens tokens')
    (hm : Point.mode ⟨opened, .other⟩ = mode) (hs : settle mode tokens = token :: rest)
    (hk : token.kind = .number ∨ token.kind = .identifier) :
    ∃ rest', settle mode tokens' = token :: rest' ∧ Relaid ⟨opened, .other⟩ rest rest' := by
  obtain ⟨-, rest', hs', hr⟩ := h.settle_firm hm hs (firm_of_kind hk)
  rw [Point.next_of_kind (by rcases hk with hk | hk <;> simp [hk])] at hr
  exact ⟨rest', hs', hr⟩

theorem settle_operator (h : Relaid ⟨opened, .other⟩ tokens tokens')
    (hm : Point.mode ⟨opened, .other⟩ = mode) {p : Token → Bool} {signs : List String}
    (hfirm : ∀ {token}, p token = true → Firm token)
    (hsign : ∀ {token : Token}, token.Spelled → (p token = true ↔ IsOperator signs token))
    (hs : settle mode tokens = token :: rest) (hp : p token = true) :
    ∃ rest', settle mode tokens' = token :: rest' ∧ Relaid ⟨opened, .other⟩ rest rest' := by
  obtain ⟨hsp, rest', hs', hr⟩ := h.settle_firm hm hs (hfirm hp)
  obtain ⟨sign, -, hk, -⟩ := (hsign hsp).mp hp
  rw [Point.next_of_kind (by simp [hk])] at hr
  exact ⟨rest', hs', hr⟩

theorem not_assigns (h : Relaid ⟨opened, .other⟩ tokens tokens')
    (hm : Point.mode ⟨opened, .other⟩ = .counted) (ha : ¬ Assigns tokens) : ¬ Assigns tokens' := by
  intro ha'
  unfold Assigns at ha'
  split at ha'
  · next name equals more =>
    obtain ⟨hk, he⟩ := ha'
    obtain ⟨rest, hs, hr⟩ := h.symm.settle_kind hm rfl (.inr hk)
    cases hs
    obtain ⟨-, rest', rfl, -⟩ := hr.cons_counted hm (firm_of_answers he (by decide))
    exact ha ⟨hk, he⟩
  · exact ha'

theorem expect_ignored (h : Relaid point tokens tokens') (hm : point.mode = .ignored)
    (hw : word ∈ ["=", "(", ")", ",", ";"]) (he : expect .ignored word tokens = .ok (token, rest)) :
    token.Is .punctuation word ∧ ∃ rest', expect .ignored word tokens' = .ok (token, rest') ∧
      Relaid (point.next token) rest rest' := by
  obtain ⟨hs, ha⟩ := expect_eq_ok he
  obtain ⟨hsp, rest', hs', hr⟩ := h.settle_ignored hm hs
  refine ⟨(hsp.answers_mark_iff hw).mp ha, rest', ?_, hr⟩
  rw [expect, hs']
  exact if_pos ha

theorem accept?_ignored (h : Relaid point tokens tokens') (hm : point.mode = .ignored)
    (hw : word ∈ ["=", "(", ")", ",", ";"]) (ha : accept? .ignored word tokens = some rest) :
    ∃ token rest', token.Is .punctuation word ∧ accept? .ignored word tokens' = some rest' ∧
      Relaid (point.next token) rest rest' := by
  obtain ⟨token, hs, ha⟩ := accept?_eq_some ha
  obtain ⟨hsp, rest', hs', hr⟩ := h.settle_ignored hm hs
  refine ⟨token, rest', (hsp.answers_mark_iff hw).mp ha, ?_, hr⟩
  rw [accept?, hs']
  exact if_pos ha

theorem accept?_none_ignored (h : Relaid point tokens tokens') (hm : point.mode = .ignored)
    (ha : accept? .ignored word tokens = none) : accept? .ignored word tokens' = none := by
  rw [accept?_eq_none_iff] at ha ⊢
  intro token rest hs
  obtain ⟨-, rest', hs', -⟩ := h.symm.settle_ignored hm hs
  exact ha token rest' hs'

theorem parameter_ignored (h : Relaid ⟨opened, .other⟩ tokens tokens')
    (hm : Point.mode ⟨opened, .other⟩ = .ignored) (hp : parameter seen tokens = .ok (name, rest)) :
    ∃ rest', parameter seen tokens' = .ok (name, rest') ∧ Relaid ⟨opened, .other⟩ rest rest' := by
  obtain ⟨token, hs, ha, rfl, hseen⟩ := parameter_eq_ok hp
  obtain ⟨hsp, rest', hs', hr⟩ := h.settle_ignored hm hs
  have hk := (hsp.answers_name_iff _).mp ha
  rw [Point.next_of_kind (by simp [hk])] at hr
  refine ⟨rest', ?_, hr⟩
  rw [parameter, expect, hs']
  simp only [ha, if_true]
  exact if_neg (by simpa using hseen)

end Relaid

/-! ## Blocks -/

/-- Tokens behind a statement: the end of its block or a separator. -/
def BehindStatement (closed : Bool) (tokens : List Token) : Prop :=
  blockEnds closed tokens = true ∨ ∃ sep more, tokens = sep :: more ∧ isSeparator sep = true

/-- A statement in front of the rest of its block. -/
theorem Reads.block_statement {closed : Bool} {tokens tokens₁ rest : List Token} {node : Node}
    {nodes : List Node} (hend : Reading.blockEnds closed (tokens.dropWhile isSeparator) = false)
    (hs : Reads .statement (tokens.dropWhile isSeparator) node tokens₁)
    (ht : BehindStatement closed tokens₁) (hr : Reads (.block closed) tokens₁ nodes rest) :
    Reads (.block closed) tokens (node :: nodes) rest := by
  rcases ht with hend₁ | ⟨sep, more, rfl, hsep⟩
  · have hd := dropWhile_of_blockEnds hend₁
    cases hr with
    | emptyBlock _ =>
      rw [hd]
      exact .lastStatement hend hs hend₁
    | lastStatement hend₂ _ _ | nextStatement hend₂ _ _ _ _ =>
      rw [hd, hend₁] at hend₂
      cases hend₂
  · have hend₁ : Reading.blockEnds closed (sep :: more) = false := by
      refine Bool.eq_false_iff.mpr fun hend₁ => ?_
      rw [not_isSeparator_of_closing (Bool.and_eq_true_iff.mp hend₁).2] at hsep
      cases hsep
    exact .nextStatement hend hs hend₁ hsep hr

namespace Relaid

variable {tokens tokens' rest : List Token} {opened : List Paren} {closed : Bool} {paren : Token}

/-- Anything goes before a block that goes inside it. -/
theorem opening (h : Relaid ⟨opened, .other⟩ tokens tokens')
    (hm : Point.mode ⟨opened, .other⟩ = .counted) : Relaid ⟨opened, .opening⟩ tokens tokens' := by
  cases h with
  | done hg hg' =>
    exact .done (fun token ht => Point.skips_opening.mpr (hg token ht))
      fun token ht => Point.skips_opening.mpr (hg' token ht)
  | next hg hg' ht hsp _ hr =>
    rw [← Point.next_of_opening fun hs => ht ((Point.skips_of_counted hm).mpr hs)] at hr
    exact .next (fun token ht => Point.skips_opening.mpr (hg token ht))
      (fun token ht => Point.skips_opening.mpr (hg' token ht)) (fun hs => ht (Point.skips_opening.mp hs))
      hsp (.inr (.inr (.inl rfl))) hr

/-- Behind the separators before a block both lists go on with the same token. -/
theorem skip_separators (h : Relaid ⟨opened, .opening⟩ tokens tokens')
    (hm : Point.mode ⟨opened, .other⟩ = .counted) :
    next? .counted (tokens'.dropWhile isSeparator) = next? .counted (tokens.dropWhile isSeparator) ∧
      Relaid ⟨opened, .other⟩ (tokens.dropWhile isSeparator) (tokens'.dropWhile isSeparator) := by
  have hskip : ∀ {gap rest : List Token}, (∀ token ∈ gap, Point.Skips ⟨opened, .opening⟩ token) →
      (gap ++ rest).dropWhile isSeparator = rest.dropWhile isSeparator :=
    fun hg => dropWhile_separators (fun token ht => (hg token ht).separates) _
  cases h with
  | done hg hg' =>
    rw [← List.append_nil tokens, ← List.append_nil tokens', hskip hg, hskip hg']
    exact ⟨rfl, .done nofun nofun⟩
  | @next _ _ _ token rest rest' hg hg' ht hsp _ hr =>
    rw [Point.skips_opening, Point.skips_of_counted hm] at ht
    have hcons : ∀ rest, (token :: rest).dropWhile isSeparator = token :: rest :=
      fun rest => List.dropWhile_cons_of_neg fun hs => ht ((isSeparator_iff hsp).mp hs)
    rw [hskip hg, hskip hg', hcons, hcons]
    rw [Point.next_of_opening ht] at hr
    exact ⟨rfl, hr.cons hsp⟩

/-- What ends a statement in one list ends it in the other. -/
theorem behindStatement (h : Relaid ⟨opened, .other⟩ tokens tokens')
    (hm : Point.mode ⟨opened, .other⟩ = .counted) (hc : closed = true ↔ opened ≠ [])
    (ht : BehindStatement closed tokens) : BehindStatement closed tokens' := by
  cases h with
  | done _ hg' =>
    cases tokens' with
    | nil => exact .inl rfl
    | cons sep more => exact .inr ⟨sep, more, rfl, (hg' sep List.mem_cons_self).separates.isSeparator⟩
  | @next _ gap gap' token _ _ _ hg' hs hsp hgaps _ =>
    cases gap' with
    | cons sep more => exact .inr ⟨sep, _, rfl, (hg' sep List.mem_cons_self).separates.isSeparator⟩
    | nil =>
      refine .inl ?_
      rcases hgaps with hgaps | hmode | hopening | ⟨hne, hend⟩
      · rw [hgaps.mpr rfl] at ht
        rcases ht with ht | ⟨sep, more, ht, hsep⟩
        · exact ht
        · cases ht
          exact absurd ((Point.skips_of_counted hm).mpr ((isSeparator_iff hsp).mp hsep)) hs
      · rw [hm] at hmode
        cases hmode
      · cases hopening
      · exact Bool.and_eq_true_iff.mpr ⟨hc.mpr hne, hend.answers rfl⟩

/-- The parenthesis behind a body is the same. -/
theorem cons_closing (h : Relaid ⟨opened, .other⟩ (paren :: rest) tokens')
    (hp : paren.answers ")" = true) (hend : blockEnds true tokens' = true) :
    paren.Spelled ∧ ∃ rest', tokens' = paren :: rest' ∧
      Relaid (Point.next ⟨opened, .other⟩ paren) rest rest' := by
  have hsep : ∀ {token : Token}, token.answers ")" = true → ¬ Separates token := by
    intro token ha hs
    rw [hs.not_answers (by decide)] at ha
    cases ha
  obtain ⟨hsp, gap', rest', rfl, hg', -, hr⟩ := h.cons_inv (hsep hp)
  cases gap' with
  | nil => exact ⟨hsp, rest', rfl, hr⟩
  | cons sep more => exact absurd (hg' sep List.mem_cons_self) (hsep hend)

end Relaid

/-! ## Phrases -/

namespace Phrase

/-- The point before a phrase inside some parentheses. -/
def entryPoint (opened : List Paren) : Phrase → Point
  | parameters => ⟨opened, .function⟩
  | moreParameters _ => ⟨.parameters :: opened, .other⟩
  | arguments | moreArguments => ⟨.group :: opened, .other⟩
  | block _ => ⟨opened, .opening⟩
  | statement | expression _ | moreTerms _ _ | term _ | moreFactors _ _ | factor _ => ⟨opened, .other⟩

/-- The point behind a phrase inside some parentheses. -/
def exitPoint (opened : List Paren) : Phrase → Point
  | parameters | moreParameters _ => ⟨opened, .parameters⟩
  | arguments | moreArguments | block _ | statement | expression _ | moreTerms _ _ | term _
    | moreFactors _ _ | factor _ => ⟨opened, .other⟩

/-- The phrase can stand inside these parentheses. -/
def Within (opened : List Paren) : Phrase → Prop
  | parameters | moreParameters _ | arguments | moreArguments => True
  | block closed => Point.mode ⟨opened, .other⟩ = .counted ∧ (closed = true ↔ opened ≠ [])
  | statement => Point.mode ⟨opened, .other⟩ = .counted
  | expression mode | moreTerms mode _ | term mode | moreFactors mode _ | factor mode =>
    Point.mode ⟨opened, .other⟩ = mode

theorem within_group (opened : List Paren) :
    (expression .ignored).Within (.group :: opened) := rfl

theorem within_body (opened : List Paren) : (block true).Within (.body :: opened) := ⟨rfl, by simp⟩

theorem within_program : (block false).Within [] := ⟨rfl, by simp⟩

end Phrase

/-- A phrase is read from tokens that are laid out differently, and what is left is again laid out
differently. -/
theorem Reads.relaid {phrase : Phrase} {tokens rest tokens' : List Token} {result : phrase.Result}
    {opened : List Paren} (h : Reads phrase tokens result rest) (hw : phrase.Within opened)
    (hr : Relaid (phrase.entryPoint opened) tokens tokens') :
    ∃ rest', Reads phrase tokens' result rest' ∧ Relaid (phrase.exitPoint opened) rest rest' := by
  induction h generalizing opened tokens' with
  | noParameters he ha =>
    obtain ⟨hp, tokens₁', he', hr⟩ := hr.expect_ignored rfl (by decide) he
    rw [Phrase.entryPoint, Point.next_opening_parameters hp] at hr
    obtain ⟨paren, rest', hp, ha', hr⟩ := hr.accept?_ignored rfl (by decide) ha
    rw [Point.next_closing_parameters hp] at hr
    exact ⟨rest', .noParameters he' ha', hr⟩
  | someParameters he ha hp _ ih =>
    obtain ⟨hopening, tokens₁', he', hr⟩ := hr.expect_ignored rfl (by decide) he
    rw [Phrase.entryPoint, Point.next_opening_parameters hopening] at hr
    obtain ⟨tokens₂', hp', hr'⟩ := hr.parameter_ignored rfl hp
    obtain ⟨rest', hread, hr'⟩ := ih trivial hr'
    exact ⟨rest', .someParameters he' (hr.accept?_none_ignored rfl ha) hp' hread, hr'⟩
  | nextParameter ha hp _ ih =>
    obtain ⟨comma, tokens₁', hc, ha', hr⟩ := hr.accept?_ignored rfl (by decide) ha
    rw [Point.next_mark hc (by decide)] at hr
    obtain ⟨tokens₂', hp', hr⟩ := hr.parameter_ignored rfl hp
    obtain ⟨rest', hread, hr⟩ := ih trivial hr
    exact ⟨rest', .nextParameter ha' hp' hread, hr⟩
  | lastParameter ha he =>
    obtain ⟨hp, rest', he', hr'⟩ := hr.expect_ignored rfl (by decide) he
    rw [Phrase.entryPoint, Point.next_closing_parameters hp] at hr'
    exact ⟨rest', .lastParameter (hr.accept?_none_ignored rfl ha) he', hr'⟩
  | emptyBlock hend =>
    obtain ⟨hnext, hr⟩ := hr.skip_separators hw.1
    exact ⟨_, .emptyBlock ((blockEnds_of_next hnext).trans hend), hr⟩
  | @lastStatement closed _ _ rest hend _ hend' ih =>
    obtain ⟨hnext, hr⟩ := hr.skip_separators hw.1
    rw [← blockEnds_of_next hnext] at hend
    obtain ⟨rest', hread, hr⟩ := ih hw.1 hr
    -- In the other list, separators may stand before the end of the block.
    obtain ⟨hnext', hr'⟩ := (hr.opening hw.1).skip_separators hw.1
    rw [dropWhile_of_blockEnds hend'] at hnext' hr'
    have hempty : Reads (.block closed) rest' [] _ :=
      .emptyBlock ((blockEnds_of_next hnext').trans hend')
    exact ⟨_, hread.block_statement hend (hr.behindStatement hw.1 hw.2 (.inl hend')) hempty, hr'⟩
  | nextStatement hend _ _ hsep _ ih ih' =>
    obtain ⟨hnext, hr⟩ := hr.skip_separators hw.1
    rw [← blockEnds_of_next hnext] at hend
    obtain ⟨tokens₁', hread, hr⟩ := ih hw.1 hr
    obtain ⟨rest', hread', hr'⟩ := ih' hw (hr.opening hw.1)
    have hbehind := hr.behindStatement hw.1 hw.2 (.inr ⟨_, _, rfl, hsep⟩)
    exact ⟨rest', hread.block_statement hend hbehind hread', hr'⟩
  | assign hk ha _ ih =>
    obtain ⟨tokens₁', hs, hr₁⟩ := hr.settle_kind hw rfl (.inr hk)
    cases hs
    obtain ⟨hsp, tokens₂', rfl, hr₂⟩ := hr₁.cons_counted hw (firm_of_answers ha (by decide))
    rw [Point.next_mark ((hsp.answers_mark_iff (by decide)).mp ha) (by decide)] at hr₂
    obtain ⟨rest', hread, hr'⟩ := ih hw hr₂
    exact ⟨rest', .assign hk ha hread, hr'⟩
  | evaluate ha _ ih =>
    obtain ⟨rest', hread, hr'⟩ := ih hw hr
    exact ⟨rest', .evaluate (hr.not_assigns hw ha) hread, hr'⟩
  | expression _ _ ih ih' =>
    obtain ⟨tokens₁', hread, hr⟩ := ih hw hr
    obtain ⟨rest', hread', hr⟩ := ih' hw hr
    exact ⟨rest', .expression hread hread', hr⟩
  | lastTerm hs => exact ⟨tokens', .lastTerm (hr.not_next hw firm_of_addsTerm hs), hr⟩
  | nextTerm hs hop _ _ ih ih' =>
    obtain ⟨tokens₁', hs', hr⟩ := hr.settle_operator hw firm_of_addsTerm addsTerm_iff hs hop
    obtain ⟨tokens₂', hread, hr⟩ := ih hw hr
    obtain ⟨rest', hread', hr⟩ := ih' hw hr
    exact ⟨rest', .nextTerm hs' hop hread hread', hr⟩
  | term _ _ ih ih' =>
    obtain ⟨tokens₁', hread, hr⟩ := ih hw hr
    obtain ⟨rest', hread', hr⟩ := ih' hw hr
    exact ⟨rest', .term hread hread', hr⟩
  | lastFactor hs => exact ⟨tokens', .lastFactor (hr.not_next hw firm_of_addsFactor hs), hr⟩
  | nextFactor hs hop _ _ ih ih' =>
    obtain ⟨tokens₁', hs', hr⟩ := hr.settle_operator hw firm_of_addsFactor addsFactor_iff hs hop
    obtain ⟨tokens₂', hread, hr⟩ := ih hw hr
    obtain ⟨rest', hread', hr⟩ := ih' hw hr
    exact ⟨rest', .nextFactor hs' hop hread hread', hr⟩
  | number hs hk =>
    obtain ⟨rest', hs', hr⟩ := hr.settle_kind hw hs (.inl hk)
    exact ⟨rest', .number hs' hk, hr⟩
  | call hs hk ha _ ih =>
    obtain ⟨tokens₁', hs', hr⟩ := hr.settle_kind hw hs (.inr hk)
    obtain ⟨paren, hp, hopening⟩ := accept?_eq_some ha
    obtain ⟨hsp, tokens₂', hp', hr⟩ := hr.settle_firm hw hp (firm_of_answers hopening (by decide))
    rw [Point.next_opening ((hsp.answers_mark_iff (by decide)).mp hopening)] at hr
    obtain ⟨rest', hread, hr⟩ := ih trivial hr
    refine ⟨rest', .call hs' hk ?_ hread, hr⟩
    rw [accept?, hp']
    exact if_pos hopening
  | lookup hs hk ha =>
    obtain ⟨rest', hs', hr⟩ := hr.settle_kind hw hs (.inr hk)
    rw [accept?_eq_none_iff] at ha
    refine ⟨rest', .lookup hs' hk ?_, hr⟩
    exact accept?_eq_none_iff.mpr (hr.not_next hw (fun hp => firm_of_answers hp (by decide)) ha)
  | print hs hnumber hname ha _ ih =>
    obtain ⟨hsp, tokens₁', hs', hr⟩ := hr.settle_firm hw hs (firm_of_answers ha (by decide))
    rw [Point.next_print ((hsp.answers_keyword_iff (.inl rfl)).mp ha)] at hr
    obtain ⟨rest', hread, hr⟩ := ih hw hr
    exact ⟨rest', .print hs' hnumber hname ha hread, hr⟩
  | @function mode _ _ _ _ _ _ _ _ _ _ _ hs hnumber hname hprint ha _ he hbody hclose ih ih' =>
    obtain ⟨hsp, tokens₁', hs', hr⟩ := hr.settle_firm hw hs (firm_of_answers ha (by decide))
    rw [Point.next_function ((hsp.answers_keyword_iff (.inr rfl)).mp ha)] at hr
    obtain ⟨tokens₂', hread, hr⟩ := ih trivial hr
    obtain ⟨hopening, tokens₃', he', hr⟩ := hr.expect_ignored rfl (by decide) he
    rw [Phrase.exitPoint, Point.next_opening_body hopening] at hr
    obtain ⟨tokens₄', hread', hr⟩ := ih' (Phrase.within_body opened) hr
    have htokens := (expect_closing_iff hbody.blockEnds).mp hclose
    have hp := (expect_eq_ok hclose).2
    rw [htokens] at hr
    obtain ⟨hsp, rest', htokens', hr⟩ := hr.cons_closing hp hread'.blockEnds
    rw [Point.next_closing (by decide) ((hsp.answers_mark_iff (by decide)).mp hp)] at hr
    exact ⟨rest', .function hs' hnumber hname hprint ha hread he' hread'
      ((expect_closing_iff hread'.blockEnds).mpr htokens'), hr⟩
  | group hs hnumber hname hprint hfunction ha _ he ih =>
    obtain ⟨hsp, tokens₁', hs', hr⟩ := hr.settle_firm hw hs (firm_of_answers ha (by decide))
    rw [Point.next_opening ((hsp.answers_mark_iff (by decide)).mp ha)] at hr
    obtain ⟨tokens₂', hread, hr⟩ := ih (Phrase.within_group opened) hr
    obtain ⟨hp, rest', he', hr⟩ := hr.expect_ignored rfl (by decide) he
    rw [Phrase.exitPoint, Point.next_closing (by decide) hp] at hr
    exact ⟨rest', .group hs' hnumber hname hprint hfunction ha hread he', hr⟩
  | noArguments ha =>
    obtain ⟨paren, rest', hp, ha', hr⟩ := hr.accept?_ignored rfl (by decide) ha
    rw [Phrase.entryPoint, Point.next_closing (by decide) hp] at hr
    exact ⟨rest', .noArguments ha', hr⟩
  | someArguments ha _ _ ih ih' =>
    obtain ⟨tokens₁', hread, hr'⟩ := ih (Phrase.within_group opened) hr
    obtain ⟨rest', hread', hr'⟩ := ih' trivial hr'
    exact ⟨rest', .someArguments (hr.accept?_none_ignored rfl ha) hread hread', hr'⟩
  | nextArgument ha _ _ ih ih' =>
    obtain ⟨comma, tokens₁', hc, ha', hr⟩ := hr.accept?_ignored rfl (by decide) ha
    rw [Point.next_mark hc (by decide)] at hr
    obtain ⟨tokens₂', hread, hr⟩ := ih (Phrase.within_group opened) hr
    obtain ⟨rest', hread', hr⟩ := ih' trivial hr
    exact ⟨rest', .nextArgument ha' hread hread', hr⟩
  | lastArgument ha he =>
    obtain ⟨hp, rest', he', hr'⟩ := hr.expect_ignored rfl (by decide) he
    rw [Phrase.entryPoint, Point.next_closing (by decide) hp] at hr'
    exact ⟨rest', .lastArgument (hr.accept?_none_ignored rfl ha) he', hr'⟩

/-! ## Programs -/

/-- What is skipped at a point of a program may be replaced. It may be left out, or put where nothing is
skipped, only where the point is loose. -/
theorem ofTokens_replace {front gap gap' back : List Token} {program : Node}
    (hsp : ∀ token ∈ front ++ (gap ++ back), token.Spelled)
    (hg : ∀ token ∈ gap, (Point.start.after front).Skips token)
    (hg' : ∀ token ∈ gap', (Point.start.after front).Skips token)
    (hgaps : gap ≠ [] ∧ gap' ≠ [] ∨ (Point.start.after front).Loose back)
    (h : Node.ofTokens (front ++ (gap ++ back)) = .ok program) :
    Node.ofTokens (front ++ (gap' ++ back)) = .ok program := by
  simp only [List.forall_mem_append] at hsp
  obtain ⟨hfront, -, hback⟩ := hsp
  obtain ⟨body, rfl, hread⟩ := ofTokens_eq_ok_iff.mp h
  have hr : Relaid Point.start (front ++ (gap ++ back)) (front ++ (gap' ++ back)) :=
    .append hfront ((Relaid.refl hback _).replace hg hg' hgaps)
  obtain ⟨rest', hread', -⟩ := hread.relaid Phrase.within_program hr
  rw [rest_eq_nil_of_blockEnds hread'.blockEnds] at hread'
  exact ofTokens_eq_ok_iff.mpr ⟨body, rfl, hread'⟩

/-- The second list of tokens comes from the first one by newlines that are put in or taken out where they
do not count. -/
inductive Respaced (tokens : List Token) : List Token → Prop
  | refl : Respaced tokens tokens
  | insert {front newline back} : Respaced tokens (front ++ back) →
    (Point.start.after front).mode = .ignored → newline.kind = .newline → newline.Spelled →
    Respaced tokens (front ++ newline :: back)
  | delete {front newline back} : Respaced tokens (front ++ newline :: back) →
    (Point.start.after front).mode = .ignored → newline.kind = .newline →
    Respaced tokens (front ++ back)

/-- The second list of tokens comes from the first one by runs of separators that are replaced where
newlines count. At an edge of a block a run may be empty. -/
inductive Reseparated (tokens : List Token) : List Token → Prop
  | refl : Reseparated tokens tokens
  | replace {front run run' back} : Reseparated tokens (front ++ (run ++ back)) →
    (Point.start.after front).mode = .counted → (∀ sep ∈ run, Separates sep) →
    (∀ sep ∈ run', Separates sep ∧ sep.Spelled) →
    run ≠ [] ∧ run' ≠ [] ∨ (Point.start.after front).before = .opening ∨
      (Point.start.after front).EndsBlock back →
    Reseparated tokens (front ++ (run' ++ back))

theorem Respaced.spelled {tokens tokens' : List Token} (h : Respaced tokens tokens')
    (hsp : ∀ token ∈ tokens, token.Spelled) : ∀ token ∈ tokens', token.Spelled := by
  induction h with
  | refl => exact hsp
  | insert _ _ _ hs ih =>
    simp only [List.forall_mem_append, List.forall_mem_cons] at ih ⊢
    exact ⟨ih.1, hs, ih.2⟩
  | delete _ _ _ ih =>
    simp only [List.forall_mem_append, List.forall_mem_cons] at ih ⊢
    exact ⟨ih.1, ih.2.2⟩

theorem Reseparated.spelled {tokens tokens' : List Token} (h : Reseparated tokens tokens')
    (hsp : ∀ token ∈ tokens, token.Spelled) : ∀ token ∈ tokens', token.Spelled := by
  induction h with
  | refl => exact hsp
  | replace _ _ _ hrun' _ ih =>
    simp only [List.forall_mem_append] at ih ⊢
    exact ⟨ih.1, fun sep hs => (hrun' sep hs).2, ih.2.2⟩

end Reading

open Reading

/-- Newlines inside the parentheses of a group, of arguments or of parameters, and between the parts of a
function, may be put in and taken out: the program stays the same. -/
theorem newlines_in_parentheses_are_ignored {tokens tokens' : List Token} {program : Node}
    (hspelled : ∀ token ∈ tokens, token.Spelled) (hread : Node.ofTokens tokens = .ok program)
    (h : Respaced tokens tokens') : Node.ofTokens tokens' = .ok program := by
  induction h with
  | refl => exact hread
  | @insert front newline back hr hm hk _ ih =>
    have hskip : ∀ token ∈ [newline], (Point.start.after front).Skips token := by
      simpa [Point.skips_of_ignored hm] using hk
    exact @ofTokens_replace front [] [newline] back _ (hr.spelled hspelled) nofun hskip
      (.inr (.inl hm)) ih
  | @delete front newline back hr hm hk ih =>
    have hskip : ∀ token ∈ [newline], (Point.start.after front).Skips token := by
      simpa [Point.skips_of_ignored hm] using hk
    exact @ofTokens_replace front [newline] [] back _ (hr.spelled hspelled) hskip nofun
      (.inr (.inl hm)) ih

/-- A newline in a group goes and one behind `function` comes. The one in the body stays. -/
theorem newlines_in_parentheses_are_ignored_of_group :
    ∃ tokens tokens' program, scanSource "(\nfunction()(1\n2))" = .ok tokens ∧
      Node.ofTokens tokens = .ok program ∧ Respaced tokens tokens' ∧
      tokens'.map (·.text) = ["(", "function", "\n", "(", ")", "(", "1", "\n", "2", ")", ")"] ∧
      Node.ofTokens tokens' = .ok program := by
  have hscan : scanSource "(\nfunction()(1\n2))" = .ok
      [⟨.punctuation, "(", 1, 1⟩, ⟨.newline, "\n", 1, 2⟩, ⟨.keyword, "function", 2, 1⟩,
        ⟨.punctuation, "(", 2, 9⟩, ⟨.punctuation, ")", 2, 10⟩, ⟨.punctuation, "(", 2, 11⟩,
        ⟨.number, "1", 2, 12⟩, ⟨.newline, "\n", 2, 13⟩, ⟨.number, "2", 3, 1⟩,
        ⟨.punctuation, ")", 3, 2⟩, ⟨.punctuation, ")", 3, 3⟩] := by with_unfolding_all rfl
  have hr := @Respaced.insert _ [⟨.punctuation, "(", 1, 1⟩, ⟨.keyword, "function", 2, 1⟩]
    ⟨.newline, "\n", 2, 9⟩
    [⟨.punctuation, "(", 2, 9⟩, ⟨.punctuation, ")", 2, 10⟩, ⟨.punctuation, "(", 2, 11⟩,
      ⟨.number, "1", 2, 12⟩, ⟨.newline, "\n", 2, 13⟩, ⟨.number, "2", 3, 1⟩,
      ⟨.punctuation, ")", 3, 2⟩, ⟨.punctuation, ")", 3, 3⟩]
    (@Respaced.delete _ [⟨.punctuation, "(", 1, 1⟩] ⟨.newline, "\n", 1, 2⟩ _ .refl rfl rfl) rfl rfl rfl
  exact ⟨_, _, _, hscan, rfl, hr, rfl,
    newlines_in_parentheses_are_ignored (scanSource_spelled hscan) rfl hr⟩

/-- Separators between statements may be replaced by other ones, and before the first and behind the last
statement of a block they may be put in and taken out: the program stays the same. -/
theorem separators_are_interchangeable {tokens tokens' : List Token} {program : Node}
    (hspelled : ∀ token ∈ tokens, token.Spelled) (hread : Node.ofTokens tokens = .ok program)
    (h : Reseparated tokens tokens') : Node.ofTokens tokens' = .ok program := by
  induction h with
  | refl => exact hread
  | replace hr hm hrun hrun' hedge ih =>
    refine ofTokens_replace (hr.spelled hspelled) (fun sep hs => ?_) (fun sep hs => ?_)
      (hedge.imp_right .inr) ih
    · exact (Point.skips_of_counted hm).mpr (hrun sep hs)
    · exact (Point.skips_of_counted hm).mpr (hrun' sep hs).1

/-- A semicolon before the program goes, one between two statements becomes two newlines, and one comes
behind the last statement of a body. -/
theorem separators_are_interchangeable_of_body :
    ∃ tokens tokens' program, scanSource ";function()(1;2)\n" = .ok tokens ∧
      Node.ofTokens tokens = .ok program ∧ Reseparated tokens tokens' ∧
      tokens'.map (·.text) = ["function", "(", ")", "(", "1", "\n", "\n", "2", ";", ")", "\n"] ∧
      Node.ofTokens tokens' = .ok program := by
  have hscan : scanSource ";function()(1;2)\n" = .ok
      [⟨.punctuation, ";", 1, 1⟩, ⟨.keyword, "function", 1, 2⟩, ⟨.punctuation, "(", 1, 10⟩,
        ⟨.punctuation, ")", 1, 11⟩, ⟨.punctuation, "(", 1, 12⟩, ⟨.number, "1", 1, 13⟩,
        ⟨.punctuation, ";", 1, 14⟩, ⟨.number, "2", 1, 15⟩, ⟨.punctuation, ")", 1, 16⟩,
        ⟨.newline, "\n", 1, 17⟩] := by with_unfolding_all rfl
  have hr := @Reseparated.replace _
    [⟨.keyword, "function", 1, 2⟩, ⟨.punctuation, "(", 1, 10⟩, ⟨.punctuation, ")", 1, 11⟩,
      ⟨.punctuation, "(", 1, 12⟩, ⟨.number, "1", 1, 13⟩, ⟨.newline, "\n", 1, 14⟩,
      ⟨.newline, "\n", 2, 1⟩, ⟨.number, "2", 1, 15⟩]
    [] [⟨.punctuation, ";", 1, 16⟩] [⟨.punctuation, ")", 1, 16⟩, ⟨.newline, "\n", 1, 17⟩]
    (@Reseparated.replace _
      [⟨.keyword, "function", 1, 2⟩, ⟨.punctuation, "(", 1, 10⟩, ⟨.punctuation, ")", 1, 11⟩,
        ⟨.punctuation, "(", 1, 12⟩, ⟨.number, "1", 1, 13⟩]
      [⟨.punctuation, ";", 1, 14⟩] [⟨.newline, "\n", 1, 14⟩, ⟨.newline, "\n", 2, 1⟩] _
      (@Reseparated.replace _ [] [⟨.punctuation, ";", 1, 1⟩] [] _ .refl rfl (by decide) nofun
        (.inr (.inl rfl)))
      rfl (by decide) (by simp [Separates, Token.Spelled, TokenKind.Spells]) (.inl (by decide)))
    rfl nofun (by simp [Separates, Token.Is, Token.Spelled, TokenKind.Spells])
    (.inr (.inr ⟨by decide, by decide⟩))
  exact ⟨_, _, _, hscan, rfl, hr, rfl,
    separators_are_interchangeable (scanSource_spelled hscan) rfl hr⟩

end Douro
