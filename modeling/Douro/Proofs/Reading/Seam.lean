import Douro.Proofs.Reading.Lookahead
import Mathlib.Data.List.TakeWhile

/-!
# Programs behind each other

A statement that ends with the tokens also ends at a separator. So tokens that are a program, with a
separator and more tokens behind them, are read as the statements of that program and then as the
tokens behind it, whether these are a program or not.

* `Shields`: what is left in front of more tokens keeps reading from going on with them.
* `Reads.append`: what is read is read also with more tokens behind.
* `Derives.ends`: a statement does not end with a newline.
* `ofTokens_append`, `ofTokens_behind`: a program with more tokens behind it.
-/

namespace Douro

namespace Reading

/-! ## More tokens behind -/

section Append

variable {mode : LineMode} {word name : String} {seen : List String} {token : Token}
  {tokens rest : List Token}

theorem settle_append (h : settle mode tokens = token :: rest) (more : List Token) :
    settle mode (tokens ++ more) = token :: (rest ++ more) := by
  obtain ⟨gap, rfl, hgap⟩ := exists_settle h
  rw [List.append_assoc, List.cons_append]
  exact hgap _

theorem expect_append (h : expect mode word tokens = .ok (token, rest)) (more : List Token) :
    expect mode word (tokens ++ more) = .ok (token, rest ++ more) := by
  obtain ⟨hs, ha⟩ := expect_eq_ok h
  rw [expect, settle_append hs]
  exact if_pos ha

theorem accept?_append (h : accept? mode word tokens = some rest) (more : List Token) :
    accept? mode word (tokens ++ more) = some (rest ++ more) := by
  obtain ⟨token, hs, ha⟩ := accept?_eq_some h
  rw [accept?, settle_append hs]
  exact if_pos ha

theorem parameter_append (h : parameter seen tokens = .ok (name, rest)) (more : List Token) :
    parameter seen (tokens ++ more) = .ok (name, rest ++ more) := by
  obtain ⟨token, hs, ha, rfl, hseen⟩ := parameter_eq_ok h
  rw [parameter, expect, settle_append hs]
  simp only [ha, if_true]
  exact if_neg (by simpa using hseen)

theorem accept?_none_append (h : accept? mode word tokens = none) (hne : settle mode tokens ≠ [])
    (more : List Token) : accept? mode word (tokens ++ more) = none := by
  obtain ⟨token, rest, hs⟩ := List.exists_cons_of_ne_nil hne
  rw [accept?, hs] at h
  rw [accept?, settle_append hs]
  simp only at h ⊢
  split at h
  · cases h
  · next ha => exact if_neg ha

theorem settle_ne_nil_of_expect (h : expect mode word tokens = .ok (token, rest)) :
    settle mode tokens ≠ [] := by
  rw [(expect_eq_ok h).1]
  exact List.cons_ne_nil _ _

theorem settle_ne_nil_of_accept? (h : accept? mode word tokens = some rest) :
    settle mode tokens ≠ [] := by
  obtain ⟨token, hs, -⟩ := accept?_eq_some h
  rw [hs]
  exact List.cons_ne_nil _ _

theorem settle_ne_nil_of_suffix (h : rest <:+ tokens) (hne : settle mode rest ≠ []) :
    settle mode tokens ≠ [] := by
  cases mode with
  | counted => exact fun hnil => hne (List.suffix_nil.mp (hnil ▸ h))
  | ignored =>
    simp only [settle, ne_eq, List.dropWhile_eq_nil_iff] at hne ⊢
    exact fun hall => hne fun token ht => hall token (h.mem ht)

theorem dropWhile_append_of_ne_nil (hne : tokens.dropWhile isSeparator ≠ []) (more : List Token) :
    (tokens ++ more).dropWhile isSeparator = tokens.dropWhile isSeparator ++ more := by
  rw [List.dropWhile_append, if_neg (by simpa using hne)]

theorem blockEnds_append (closed : Bool) (hne : tokens ≠ []) (more : List Token) :
    blockEnds closed (tokens ++ more) = blockEnds closed tokens := by
  obtain ⟨token, rest, rfl⟩ := List.exists_cons_of_ne_nil hne
  rfl

theorem ne_nil_of_blockEnds {closed : Bool} (h : blockEnds closed tokens = false) : tokens ≠ [] := by
  rintro rfl
  cases h

end Append

theorem Separates.isStop {token : Token} (h : Separates token) : IsStop token := by
  rcases h with hk | hm
  · exact isStop_of_newline hk
  · exact isStop_of_mark hm (by decide)

/-- An expression in front of these tokens does not go on with `more`: something else is left before
it, or newlines count and a separator comes first. -/
def Shields (mode : LineMode) (rest more : List Token) : Prop :=
  settle mode rest ≠ [] ∨ mode = .counted ∧ ∃ sep tail, more = sep :: tail ∧ Separates sep

section Shields

variable {mode : LineMode} {tokens rest more : List Token}

theorem Shields.of_suffix (h : Shields mode rest more) (hs : rest <:+ tokens) :
    Shields mode tokens more := h.imp_left (settle_ne_nil_of_suffix hs)

/-- No token is next that is not the end of an expression, if none was. -/
theorem Shields.next (h : Shields mode rest more) {p : Token → Bool}
    (hstop : ∀ token, IsStop token → p token = false)
    (hp : ∀ token tail, settle mode rest = token :: tail → p token = false) {token : Token}
    {tail : List Token} (hs : settle mode (rest ++ more) = token :: tail) : p token = false := by
  cases hr : settle mode rest with
  | cons first rest' =>
    rw [settle_append hr] at hs
    cases hs
    exact hp _ _ hr
  | nil =>
    rcases h with hne | ⟨rfl, sep, tail', rfl, hsep⟩
    · exact absurd hr hne
    · cases show rest = [] from hr
      cases hs
      exact hstop _ hsep.isStop

theorem Shields.accept?_none (h : Shields mode rest more) (ha : accept? mode "(" rest = none) :
    accept? mode "(" (rest ++ more) = none := by
  have hp : ∀ token tail, settle mode rest = token :: tail → token.answers "(" = false := by
    intro token tail hs
    rw [accept?, hs] at ha
    simp only at ha
    split at ha
    · cases ha
    · next hne => simpa using hne
  unfold accept?
  split
  · rfl
  · next token tail hs =>
    have := h.next (p := (·.answers "(")) (fun token ht => ht "(" (by decide)) hp hs
    exact if_neg (by rw [this]; decide)

/-- A statement that starts with no assignment does not start with one in front of a separator. -/
theorem Shields.not_assigns (h : Shields .counted rest more) (ha : ¬ Assigns tokens)
    (hlt : rest.length < tokens.length) : ¬ Assigns (tokens ++ more) := by
  match tokens with
  | [] => cases hlt
  | _ :: _ :: _ => exact ha
  | [name] =>
    rcases h with hne | ⟨-, sep, tail, rfl, hsep⟩
    · cases List.length_eq_zero_iff.mp (Nat.lt_one_iff.mp hlt)
      exact absurd rfl hne
    · rintro ⟨-, hequals⟩
      rw [hsep.not_answers (by decide)] at hequals
      cases hequals

end Shields

/-- What a phrase leaves in front of `more` is enough for it not to go on. -/
def Phrase.Shielded (rest more : List Token) : Phrase → Prop
  | block closed => closed = true ∧ rest ≠ []
  | statement => Shields .counted rest more
  | expression mode | moreTerms mode _ | term mode | moreFactors mode _ | factor mode =>
    Shields mode rest more
  | parameters | moreParameters _ | arguments | moreArguments => True

private theorem Reads.settle_moreArguments {tokens rest : List Token} {nodes : List Node}
    (h : Reads .moreArguments tokens nodes rest) : settle .ignored tokens ≠ [] := by
  cases h with
  | nextArgument ha _ _ => exact settle_ne_nil_of_accept? ha
  | lastArgument _ he => exact settle_ne_nil_of_expect he

/-- What is read is read also with more tokens behind it. -/
theorem Reads.append {phrase : Phrase} {tokens rest : List Token} {result : phrase.Result}
    (h : Reads phrase tokens result rest) {more : List Token} (hs : phrase.Shielded rest more) :
    Reads phrase (tokens ++ more) result (rest ++ more) := by
  induction h with
  | noParameters he ha => exact .noParameters (expect_append he _) (accept?_append ha _)
  | someParameters he ha hp _ ih =>
    obtain ⟨_, hnext, -⟩ := parameter_eq_ok hp
    exact .someParameters (expect_append he _)
      (accept?_none_append ha (by rw [hnext]; exact List.cons_ne_nil _ _) _)
      (parameter_append hp _) (ih trivial)
  | nextParameter ha hp _ ih =>
    exact .nextParameter (accept?_append ha _) (parameter_append hp _) (ih trivial)
  | lastParameter ha he =>
    exact .lastParameter (accept?_none_append ha (settle_ne_nil_of_expect he) _) (expect_append he _)
  | emptyBlock hend =>
    have hd := dropWhile_append_of_ne_nil hs.2 more
    rw [← hd]
    exact .emptyBlock (by rw [hd, blockEnds_append _ hs.2]; exact hend)
  | lastStatement hend hr hend' ih =>
    have hne := ne_nil_of_blockEnds hend
    have hd := dropWhile_append_of_ne_nil hne more
    refine .lastStatement (by rw [hd, blockEnds_append _ hne]; exact hend) ?_
      (by rw [blockEnds_append _ hs.2]; exact hend')
    rw [hd]
    exact ih (.inl hs.2)
  | nextStatement hend hr hend' hsep _ ih ih' =>
    have hne := ne_nil_of_blockEnds hend
    have hd := dropWhile_append_of_ne_nil hne more
    have hstatement := ih (.inl (List.cons_ne_nil _ _))
    rw [← hd] at hstatement
    exact .nextStatement (by rw [hd, blockEnds_append _ hne]; exact hend) hstatement hend' hsep (ih' hs)
  | assign hn he _ ih => exact .assign hn he (ih hs)
  | evaluate ha he ih => exact .evaluate (hs.not_assigns ha (he.length_lt rfl)) (ih hs)
  | expression _ hm ih ih' => exact .expression (ih (hs.of_suffix hm.suffix)) (ih' hs)
  | lastTerm hlast =>
    exact .lastTerm fun _ _ => hs.next (fun _ hstop => hstop.not_addsTerm) hlast
  | nextTerm hsettle hop _ hm ih ih' =>
    exact .nextTerm (settle_append hsettle _) hop (ih (hs.of_suffix hm.suffix)) (ih' hs)
  | term _ hm ih ih' => exact .term (ih (hs.of_suffix hm.suffix)) (ih' hs)
  | lastFactor hlast =>
    exact .lastFactor fun _ _ => hs.next (fun _ hstop => hstop.not_addsFactor) hlast
  | nextFactor hsettle hop _ hm ih ih' =>
    exact .nextFactor (settle_append hsettle _) hop (ih (hs.of_suffix hm.suffix)) (ih' hs)
  | number hsettle hk => exact .number (settle_append hsettle _) hk
  | call hsettle hk ha _ ih =>
    exact .call (settle_append hsettle _) hk (accept?_append ha _) (ih trivial)
  | lookup hsettle hk ha => exact .lookup (settle_append hsettle _) hk (hs.accept?_none ha)
  | print hsettle hn hi hw _ ih => exact .print (settle_append hsettle _) hn hi hw (ih hs)
  | function hsettle hn hi hp hw _ ho _ hc ih ih' =>
    have hne := settle_ne_nil_of_expect hc
    refine .function (settle_append hsettle _) hn hi hp hw (ih trivial) (expect_append ho _)
      (ih' ⟨rfl, ?_⟩) (expect_append hc _)
    rintro rfl
    cases ‹LineMode› <;> exact hne rfl
  | group hsettle hn hi hp hw hg _ hc ih =>
    exact .group (settle_append hsettle _) hn hi hp hw hg (ih (.inl (settle_ne_nil_of_expect hc)))
      (expect_append hc _)
  | noArguments ha => exact .noArguments (accept?_append ha _)
  | someArguments ha he hm ih ih' =>
    have hne := hm.settle_moreArguments
    exact .someArguments (accept?_none_append ha (settle_ne_nil_of_suffix he.suffix hne) _)
      (ih (.inl hne)) (ih' trivial)
  | nextArgument ha _ hm ih ih' =>
    exact .nextArgument (accept?_append ha _) (ih (.inl hm.settle_moreArguments)) (ih' trivial)
  | lastArgument ha he =>
    exact .lastArgument (accept?_none_append ha (settle_ne_nil_of_expect he) _) (expect_append he _)

/-! ## How statements end -/

/-- The last token is no newline. -/
def Ends (tokens : List Token) : Prop :=
  ∃ token, tokens.getLast? = some token ∧ token.kind ≠ .newline

theorem Ends.append {tokens : List Token} (h : Ends tokens) (front : List Token) :
    Ends (front ++ tokens) := by
  obtain ⟨token, ht, hk⟩ := h
  exact ⟨token, by rw [List.getLast?_append, ht, Option.some_or], hk⟩

theorem Ends.cons {tokens : List Token} (h : Ends tokens) (token : Token) : Ends (token :: tokens) :=
  h.append [token]

theorem Derives.ends {symbol : Symbol} {tokens : List Token} (h : Derives symbol tokens) :
    match symbol with
    | .statement | .expression _ | .term _ | .factor _ => Ends tokens
    | .block | .statements | .arguments | .expressions => True := by
  have hclosing : ∀ {token : Token}, token.Is .punctuation ")" → token.kind ≠ .newline := fun h =>
    h.kind_ne_newline (by decide)
  induction h with
  | separators | block | oneStatement | moreStatements | noArguments | someArguments | oneExpression
  | moreExpressions => trivial
  | assign _ _ _ ih => exact (ih.cons _).cons _
  | evaluate _ ih | oneTerm _ ih | oneFactor _ ih => exact ih
  | sum _ _ _ _ _ ih | product _ _ _ _ _ ih => exact ((ih.cons _).append _).append _
  | print _ _ _ ih => exact (ih.cons _).append _
  | number _ hk | lookup _ hk => exact ⟨_, List.getLast?_concat .., by rw [hk]; decide⟩
  | group _ _ _ _ hc _ | call _ _ _ _ _ _ hc _ | function _ _ _ _ _ _ _ _ _ _ hc _ =>
    exact ⟨_, by simp [List.getLast?_cons], hclosing hc⟩

/-! ## Programs -/

/-- More tokens behind some do not go on with the last statement: a separator comes first, or the
tokens end with a newline. -/
def Severed (tokens more : List Token) : Prop :=
  (∃ sep tail, more = sep :: tail ∧ Separates sep) ∨
    ∃ front newline, tokens = front ++ [newline] ∧ newline.kind = .newline

theorem Severed.of_suffix {tokens rest more : List Token} (h : Severed tokens more)
    (hs : rest <:+ tokens) (hne : rest ≠ []) : Severed rest more := by
  refine h.imp_right ?_
  rintro ⟨front, newline, rfl, hk⟩
  rcases List.suffix_concat_iff.mp hs with rfl | ⟨front', rfl, -⟩
  · exact absurd rfl hne
  · exact ⟨front', newline, rfl, hk⟩

/-- A statement that takes all tokens has a separator behind it. -/
theorem Severed.exists_separator {tokens more : List Token} {node : Node} (h : Severed tokens more)
    (hspelled : ∀ token ∈ tokens, token.Spelled) (hr : Reads .statement tokens node []) :
    ∃ sep tail, more = sep :: tail ∧ Separates sep := by
  rcases h with h | ⟨front, newline, rfl, hk⟩
  · exact h
  obtain ⟨tokens₁, ht, hd⟩ := hr.derived hspelled
  rw [List.append_nil] at ht
  subst ht
  obtain ⟨token, ht, hne⟩ := hd.ends
  rw [List.getLast?_concat] at ht
  cases ht
  exact absurd hk hne

/-- A statement of a program and a separator, in front of the rest. -/
theorem block_statement {budget : Nat} {tokens rest : List Token} {node : Node} {sep : Token}
    (hend : blockEnds false (tokens.dropWhile isSeparator) = false)
    (hread : statement budget (tokens.dropWhile isSeparator) = .ok (node, sep :: rest))
    (hsep : isSeparator sep = true) :
    block (budget + 1) false tokens =
      (block budget false (sep :: rest)).map fun read => (node :: read.1, read.2) := by
  have hend' : blockEnds false (sep :: rest) = false := rfl
  rw [block]
  simp only [hend, hread, hend', hsep, Bool.false_eq_true, if_false, if_true, bind, Except.bind]
  cases block budget false (sep :: rest) <;> rfl

/-- The statements of a program are read in front of more tokens, whatever these are read as. -/
theorem block_append {tokens more : List Token} {body : List Node} {budget : Nat}
    (h : Reads (.block false) tokens body []) (hspelled : ∀ token ∈ tokens, token.Spelled)
    (hsevered : Severed tokens more) (hb : readingBudget (tokens ++ more).length ≤ budget) :
    block budget false (tokens ++ more) =
      (block (readingBudget more.length) false more).map fun read => (body ++ read.1, read.2) := by
  induction hn : tokens.length using Nat.strongRecOn generalizing tokens body budget with
  | ind n ih =>
  simp only [readingBudget, List.length_append] at hb
  obtain ⟨budget, rfl⟩ : ∃ b, budget = b + 1 := ⟨budget - 1, by omega⟩
  have hmore : ∀ {k}, 8 * (more.length + 1) ≤ k →
      block k false more = block (readingBudget more.length) false more := fun hk => block_of_le hk _
  have hle := (List.dropWhile_sublist (l := tokens) isSeparator).length_le
  have hstatement : ∀ {rest node}, Reads .statement (tokens.dropWhile isSeparator ++ more) node rest →
      statement budget (tokens.dropWhile isSeparator ++ more) = .ok (node, rest) := fun hr => by
    refine read_of_reads hr ?_
    simp only [Phrase.rank, List.length_append]
    omega
  generalize hrest : ([] : List Token) = rest at h
  cases h with
  | emptyBlock hend =>
    have hd : (tokens ++ more).dropWhile isSeparator = more.dropWhile isSeparator := by
      rw [List.dropWhile_append, ← hrest]
      rfl
    have hnone : ∀ outcome : Except GrammarError (List Node × List Token),
        outcome.map (fun read => ([] ++ read.1, read.2)) = outcome := fun outcome => by
      cases outcome <;> rfl
    rw [hnone, ← hmore (k := budget + 1) (by omega), block, block, hd]
  | @lastStatement _ _ node _ hend hr hend' =>
    subst hrest
    have hne := ne_nil_of_blockEnds hend
    have hlt := Nat.lt_of_lt_of_le (hr.length_lt rfl) hle
    obtain ⟨sep, tail, rfl, hsep⟩ := (hsevered.of_suffix (List.dropWhile_suffix _) hne).exists_separator
      (fun token ht => hspelled token ((List.dropWhile_suffix _).mem ht)) hr
    have hd := dropWhile_append_of_ne_nil hne (sep :: tail)
    have hread := hstatement (hr.append (.inr ⟨rfl, sep, tail, rfl, hsep⟩))
    rw [← hd] at hread
    rw [block_statement (by rw [hd, blockEnds_append _ hne]; exact hend) hread hsep.isSeparator,
      hmore (by omega)]
    rfl
  | @nextStatement _ _ node token tokens₁ nodes _ hend hr hend' hsep hr' =>
    subst hrest
    have hne := ne_nil_of_blockEnds hend
    have hd := dropWhile_append_of_ne_nil hne more
    have hread := hstatement (hr.append (.inl (List.cons_ne_nil _ _)))
    have hsuffix := hr.suffix.trans (List.dropWhile_suffix isSeparator)
    have hlt := Nat.lt_of_lt_of_le (hr.length_lt rfl) hle
    have hb' : readingBudget (token :: tokens₁ ++ more).length ≤ budget := by
      simp only [readingBudget, List.length_append]
      omega
    have hrest := ih (token :: tokens₁).length (by omega) hr'
      (fun t ht => hspelled t (hsuffix.mem ht)) (hsevered.of_suffix hsuffix (List.cons_ne_nil _ _))
      hb' rfl
    rw [← hd] at hread
    rw [block_statement (by rw [hd, blockEnds_append _ hne]; exact hend) hread hsep]
    refine (congrArg _ hrest).trans ?_
    cases block (readingBudget more.length) false more <;> rfl

/-- Tokens that are a program, with more tokens behind them: the statements of both, or the error of
those behind. -/
theorem ofTokens_append {tokens more : List Token} {body : List Node}
    (h : Node.ofTokens tokens = .ok (.program body)) (hspelled : ∀ token ∈ tokens, token.Spelled)
    (hsevered : Severed tokens more) :
    (∀ body', Node.ofTokens more = .ok (.program body') →
      Node.ofTokens (tokens ++ more) = .ok (.program (body ++ body'))) ∧
    ∀ error, Node.ofTokens more = .error error → Node.ofTokens (tokens ++ more) = .error error := by
  obtain ⟨_, heq, hr⟩ := ofTokens_eq_ok_iff.mp h
  cases heq
  have happend := block_append hr hspelled hsevered (Nat.le_refl _)
  unfold Node.ofTokens
  rw [happend]
  cases block (readingBudget more.length) false more with
  | error error => exact ⟨nofun, fun _ h => by cases h; rfl⟩
  | ok read => exact ⟨fun _ h => by cases h; rfl, nofun⟩

/-- The same with a newline between the tokens, or at the end of the program. -/
theorem ofTokens_behind {tokens seam more : List Token} {newline : Token} {body : List Node}
    (h : Node.ofTokens tokens = .ok (.program body))
    (hspelled : ∀ token ∈ tokens ++ seam, token.Spelled) (hkind : newline.kind = .newline)
    (hseam : seam = [newline] ∨ seam = [] ∧ ∃ front, tokens = front ++ [newline]) :
    (∀ body', Node.ofTokens more = .ok (.program body') →
      Node.ofTokens (tokens ++ seam ++ more) = .ok (.program (body ++ body'))) ∧
    ∀ error, Node.ofTokens more = .error error →
      Node.ofTokens (tokens ++ seam ++ more) = .error error := by
  obtain ⟨htokens, hnewline⟩ := List.forall_mem_append.mp hspelled
  rw [List.append_assoc]
  rcases hseam with rfl | ⟨rfl, front, hfront⟩
  · have hblank : Node.ofTokens [newline] = .ok (.program []) := by
      have hsep : Separates newline := .inl hkind
      have hd : [newline].dropWhile isSeparator = [] := by simp [hsep.isSeparator]
      refine ofTokens_eq_ok_iff.mpr ⟨[], rfl, ?_⟩
      have hr : Reads (.block false) [newline] [] ([newline].dropWhile isSeparator) :=
        .emptyBlock (by rw [hd]; rfl)
      rwa [hd] at hr
    have hbehind : Severed [newline] more := .inr ⟨[], _, rfl, hkind⟩
    have hbefore : Severed tokens ([newline] ++ more) := .inl ⟨_, _, rfl, .inl hkind⟩
    obtain ⟨hok, herror⟩ := ofTokens_append hblank hnewline hbehind
    obtain ⟨hok', herror'⟩ := ofTokens_append h htokens hbefore
    exact ⟨fun body' hb => hok' body' (hok body' hb), fun error he => herror' error (herror error he)⟩
  · exact ofTokens_append h htokens (.inr ⟨front, newline, hfront, hkind⟩)

end Reading

end Douro
