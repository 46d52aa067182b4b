import Douro.Proofs.Reading.Lookahead
import Douro.Proofs.Token.Writing

/-!
# Tokens that end too soon can be completed

Reading complains about the end of the tokens only where some more of them would do. What has been
read is derived by the grammar; what is missing is a number, a name, some parentheses.

* `Completable`, `Phrase.Completes`: more tokens make a phrase of the grammar.
* `completes_of_read`: the tokens of a phrase that end too soon can be completed.
* `ofTokens_completes`: the same for programs.
-/

namespace Douro

/-- The tokens end too soon. -/
def GrammarError.AtEnd : GrammarError → Prop
  | endBefore _ | endOfExpression => True
  | _ => False

namespace Reading

/-! ## What is missing -/

/-- With some more tokens, these are what the grammar says of a phrase. -/
def Phrase.Completes (tokens : List Token) (phrase : Phrase) : Prop :=
  ∃ more, (∀ token ∈ more, token.Spelled) ∧ ∀ result, phrase.Derived (tokens ++ more) [] result

/-- Some more tokens give these a property. -/
def Completable (property : List Token → Prop) (tokens : List Token) : Prop :=
  ∃ more, (∀ token ∈ more, token.Spelled) ∧ property (tokens ++ more)

/-- The tokens go on with what is derived from a symbol. -/
def Extends (symbol : Symbol) (tokens : List Token) : Prop :=
  ∀ front, Derives symbol front → Derives symbol (front ++ tokens)

section Completes

variable {mode : LineMode} {left : Node} {tokens : List Token}

private theorem completes_iff {phrase : Phrase} (property : List Token → Prop)
    (result : phrase.Result)
    (h : ∀ tokens result, phrase.Derived tokens [] result ↔ property tokens) :
    phrase.Completes tokens ↔ Completable property tokens := by
  simp only [Phrase.Completes, h]
  exact ⟨fun ⟨more, hm, hd⟩ => ⟨more, hm, hd result⟩, fun ⟨more, hm, hd⟩ => ⟨more, hm, fun _ => hd⟩⟩

theorem completes_statement :
    Phrase.statement.Completes tokens ↔ Completable (Derives .statement) tokens :=
  completes_iff _ .absent fun _ _ => by simp [Phrase.Derived]

theorem completes_expression :
    (Phrase.expression mode).Completes tokens ↔ Completable (Derives (.expression mode)) tokens :=
  completes_iff _ .absent fun _ _ => by simp [Phrase.Derived]

theorem completes_term :
    (Phrase.term mode).Completes tokens ↔ Completable (Derives (.term mode)) tokens :=
  completes_iff _ .absent fun _ _ => by simp [Phrase.Derived]

theorem completes_factor :
    (Phrase.factor mode).Completes tokens ↔ Completable (Derives (.factor mode)) tokens :=
  completes_iff _ .absent fun _ _ => by simp [Phrase.Derived]

theorem completes_moreTerms :
    (Phrase.moreTerms mode left).Completes tokens ↔ Completable (Extends (.expression mode)) tokens :=
  completes_iff _ .absent fun _ _ => by simp [Phrase.Derived, Extends]

theorem completes_moreFactors :
    (Phrase.moreFactors mode left).Completes tokens ↔ Completable (Extends (.term mode)) tokens :=
  completes_iff _ .absent fun _ _ => by simp [Phrase.Derived, Extends]

end Completes

private theorem spelled_closing : ∀ token ∈ [(Word.mark ")").token], token.Spelled :=
  List.forall_mem_singleton.mpr (@Word.spelled_mark ")" (by decide))

private theorem spelled_parentheses :
    ∀ token ∈ [(Word.mark "(").token, (Word.mark ")").token], token.Spelled :=
  List.forall_mem_cons.mpr ⟨@Word.spelled_mark "(" (by decide), spelled_closing⟩

/-- Some tokens and a closing parenthesis. -/
private theorem spelled_close {more : List Token} (h : ∀ token ∈ more, token.Spelled) :
    ∀ token ∈ more ++ [(Word.mark ")").token], token.Spelled :=
  List.forall_mem_append.mpr ⟨h, spelled_closing⟩

private theorem closes_end : Closes [(Word.mark ")").token] [] := ⟨[], _, rfl, nofun, rfl, rfl⟩

private theorem nodup_concat {seen : List String} {name : String} (h : seen.Nodup)
    (hn : name ∉ seen) : (seen ++ [name]).Nodup := by
  rw [List.nodup_append]
  refine ⟨h, by simp, ?_⟩
  rintro _ hm _ hm' rfl
  exact hn (List.mem_singleton.mp hm' ▸ hm)

/-- A name that is not among some others. -/
theorem exists_fresh (seen : List String) :
    ∃ name, TokenKind.identifier.Spells name ∧ name ∉ seen := by
  -- A name that is longer than all of them, and of one letter only, so that it is no keyword.
  obtain ⟨n, hn⟩ : ∃ n, ∀ name ∈ seen, name.toList.length ≤ n := by
    induction seen with
    | nil => exact ⟨0, nofun⟩
    | cons first seen ih =>
      obtain ⟨n, hn⟩ := ih
      refine ⟨max first.toList.length n, List.forall_mem_cons.mpr ⟨Nat.le_max_left .., ?_⟩⟩
      exact fun name hm => Nat.le_trans (hn name hm) (Nat.le_max_right ..)
  have htext : (String.ofList (List.replicate (n + 1) 'a')).toList = List.replicate (n + 1) 'a' :=
    String.toList_ofList
  have hletters : ∀ c ∈ (String.ofList (List.replicate (n + 1) 'a')).toList, c = 'a' := by
    rw [htext]
    exact fun c hc => List.eq_of_mem_replicate hc
  refine ⟨String.ofList (List.replicate (n + 1) 'a'), ⟨?_, ?_, ?_⟩, fun hm => ?_⟩
  · rw [htext, List.replicate_succ]
    exact ⟨by decide, fun d hd => by rw [List.eq_of_mem_replicate hd]; decide⟩
  · intro heq
    rw [heq] at hletters
    exact absurd (hletters 'p' (by decide)) (by decide)
  · intro heq
    rw [heq] at hletters
    exact absurd (hletters 'f' (by decide)) (by decide)
  · have := hn _ hm
    rw [htext, List.length_replicate] at this
    omega

/-- What the grammar says of statements that are read to their end. -/
private theorem derives_of_block {closed : Bool} {tokens : List Token} {nodes : List Node}
    (hspelled : ∀ token ∈ tokens, token.Spelled)
    (h : (Phrase.block closed).Derived tokens [] nodes) : Derives .block tokens := by
  obtain ⟨body, hskip, hends⟩ := h
  obtain ⟨seps, rfl, hseps⟩ := exists_separators hspelled hskip
  exact hends.block hseps nofun

/-! ## Errors at the end -/

section Errors

variable {mode : LineMode} {tokens : List Token} {e : GrammarError}

private theorem bind_error {α β : Type} {x : Except GrammarError α}
    {f : α → Except GrammarError β} (h : (x >>= f) = .error e) :
    x = .error e ∨ ∃ a, x = .ok a ∧ f a = .error e := by
  cases x with
  | error e' =>
    cases h
    exact .inl rfl
  | ok a => exact .inr ⟨a, rfl, h⟩

theorem gap_of_settle_nil (h : settle mode tokens = []) : Gap mode tokens := by
  cases mode with
  | counted => exact h
  | ignored =>
    have hall : tokens.takeWhile (fun token => token.kind = .newline) ++ [] = tokens :=
      h ▸ List.takeWhile_append_dropWhile
    intro token ht
    rw [← hall, List.append_nil] at ht
    simpa using List.all_eq_true.mp List.all_takeWhile token ht

theorem gap_of_expect {word : String} (h : expect mode word tokens = .error e) (he : e.AtEnd) :
    Gap mode tokens := by
  unfold expect at h
  split at h
  · next hs => exact gap_of_settle_nil hs
  · split at h
    · cases h
    · cases h
      exact he.elim

theorem gap_of_parameter {seen : List String} (h : parameter seen tokens = .error e) (he : e.AtEnd) :
    Gap .ignored tokens := by
  rcases bind_error h with h | ⟨⟨token, rest⟩, -, h⟩
  · exact gap_of_expect h he
  · simp only at h
    split at h
    · cases h
      exact he.elim
    · cases h

end Errors

/-! ## Phrases -/

/-- Within the budget, tokens that end too soon can be completed. -/
private def CompletesWithin (budget : Nat) : Prop :=
  ∀ (phrase : Phrase) (tokens : List Token) (e : GrammarError), (∀ token ∈ tokens, token.Spelled) →
    phrase.read budget tokens = .error e → e.AtEnd → phrase.Completes tokens

section Succ

variable {budget : Nat} {tokens : List Token} {e : GrammarError}
  (hspelled : ∀ token ∈ tokens, token.Spelled) (he : e.AtEnd) (ih : CompletesWithin budget)
include hspelled he ih

private theorem moreParameters_completes {seen : List String}
    (h : moreParameters (budget + 1) seen tokens = .error e) :
    (Phrase.moreParameters seen).Completes tokens := by
  rw [moreParameters] at h
  split at h
  · next rest ha =>
    obtain ⟨gap, comma, rfl, hg, hc⟩ := accept?_mark hspelled (by decide) ha
    have hrest := spelled_of_suffix hspelled (suffix_of_cons (List.suffix_append gap _))
    rcases bind_error h with h | ⟨⟨name, rest'⟩, hp, h⟩
    · obtain ⟨name, hname, hfresh⟩ := exists_fresh seen
      have hg' := gap_of_parameter h he
      have hkind : (Word.token ⟨.identifier, name⟩).kind = .identifier := rfl
      refine ⟨[Word.token ⟨.identifier, name⟩, (Word.mark ")").token], ?_, fun _ hn names hns => ?_⟩
      · exact List.forall_mem_cons.mpr ⟨hname, spelled_closing⟩
      · exact ⟨_, [(Word.mark ")").token], by simp, .some (hns.more hg hc hg' hkind)
          (nodup_concat hn hfresh), closes_end⟩
    · obtain ⟨gap', token, rfl, hg', hk, rfl, hfresh⟩ := parameter_name hrest hp
      have hrest' := spelled_of_suffix hrest (suffix_of_cons (List.suffix_append gap' _))
      obtain ⟨more, hmore, hd⟩ := ih (.moreParameters _) _ _ hrest' h he
      refine ⟨more, hmore, fun _ hn names hns => ?_⟩
      obtain ⟨params, tokens₁, ht, hps, hcl⟩ := hd [] (nodup_concat hn hfresh) _
        (hns.more hg hc hg' hk)
      exact ⟨params, tokens₁, by rw [← ht]; simp, hps, hcl⟩
  · rcases bind_error h with h | ⟨_, _, h⟩
    · have hg := gap_of_expect h he
      exact ⟨_, spelled_closing, fun _ hn names hns =>
        ⟨names, _, rfl, .some hns hn, tokens, _, rfl, hg, rfl, rfl⟩⟩
    · cases h

omit ih in
private theorem parameters_completes
    (ih : ∀ seen tokens, (∀ token ∈ tokens, token.Spelled) →
      moreParameters budget seen tokens = .error e → (Phrase.moreParameters seen).Completes tokens)
    (h : parameters budget tokens = .error e) : Phrase.parameters.Completes tokens := by
  rcases bind_error h with herr | ⟨⟨opening, rest⟩, ho, herr⟩
  · have hg := gap_of_expect herr he
    exact ⟨[(Word.mark "(").token, (Word.mark ")").token], spelled_parentheses, fun _ =>
      ⟨tokens, _, [], _, rfl, hg, ⟨rfl, rfl⟩, .none, closes_end⟩⟩
  obtain ⟨gap, rfl, hg, hopen⟩ := expect_mark hspelled (by decide) ho
  have hrest := spelled_of_suffix hspelled (suffix_of_cons (List.suffix_append gap _))
  simp only at herr
  split at herr
  · cases herr
  rcases bind_error herr with herr | ⟨⟨name, rest'⟩, hp, herr⟩
  · have hg' := gap_of_parameter herr he
    obtain ⟨name, hname, -⟩ := exists_fresh []
    have hkind : (Word.token ⟨.identifier, name⟩).kind = .identifier := rfl
    refine ⟨[Word.token ⟨.identifier, name⟩, (Word.mark ")").token], ?_, fun _ => ?_⟩
    · exact List.forall_mem_cons.mpr ⟨hname, spelled_closing⟩
    · exact ⟨gap, opening, _, [(Word.mark ")").token], by simp, hg, hopen,
        .some (.one hg' hkind) (by simp), closes_end⟩
  · obtain ⟨gap', token, rfl, hg', hk, rfl, -⟩ := parameter_name hrest hp
    have hrest' := spelled_of_suffix hrest (suffix_of_cons (List.suffix_append gap' _))
    obtain ⟨more, hmore, hd⟩ := ih _ _ hrest' herr
    refine ⟨more, hmore, fun _ => ?_⟩
    obtain ⟨params, tokens₁, ht, hps, hcl⟩ := hd [] (by simp) _ (.one hg' hk)
    refine ⟨gap, opening, params, tokens₁, ?_, hg, hopen, hps, hcl⟩
    rw [← ht]
    simp

private theorem block_completes {closed : Bool} (h : block (budget + 1) closed tokens = .error e) :
    (Phrase.block closed).Completes tokens := by
  rw [block] at h
  split at h
  · cases h
  next hend =>
  have hbody := spelled_of_suffix hspelled (List.dropWhile_suffix isSeparator)
  -- There is a token behind the separators, so nothing behind the tokens is skipped.
  have hskip : ∀ more, (tokens ++ more).dropWhile isSeparator =
      tokens.dropWhile isSeparator ++ more := by
    intro more
    rw [List.dropWhile_append]
    refine if_neg fun hnil => hend ?_
    rw [List.isEmpty_iff.mp hnil]
    rfl
  rcases bind_error h with h | ⟨⟨node, rest⟩, hs, h⟩
  · obtain ⟨more, hmore, hd⟩ := completes_statement.mp (ih .statement _ _ hbody h he)
    exact ⟨more, hmore, fun _ => ⟨_, by rw [hskip, List.append_nil],
      .inr ⟨_, [], by rw [List.append_nil], .oneStatement hd, List.forall_mem_nil _⟩⟩⟩
  have hs : Phrase.statement.read budget (tokens.dropWhile isSeparator) = .ok (node, rest) := hs
  have hreads := reads_of_read _ hs
  obtain ⟨tokens₁, ht, hstatement⟩ := hreads.derived hbody
  simp only at h
  split at h
  · cases h
  cases rest with
  | nil => cases h
  | cons token rest =>
    simp only at h
    split at h
    · next hsep =>
      rcases bind_error h with herr | ⟨⟨nodes, rest'⟩, -, h⟩
      · have hrest := spelled_of_suffix hbody hreads.suffix
        obtain ⟨more, hmore, hd⟩ := ih (.block closed) _ _ hrest herr he
        obtain ⟨body, hb, hends⟩ := hd []
        have hall : ∀ other ∈ token :: rest ++ more, other.Spelled :=
          List.forall_mem_append.mpr ⟨hrest, hmore⟩
        refine ⟨more, hmore, fun _ => ⟨tokens₁ ++ (List.takeWhile isSeparator _ ++ body), ?_,
          hends.cons hstatement ?_ (separates_of_mem_takeWhile hall)⟩⟩
        · rw [List.append_nil] at hb
          rw [hskip, ht, List.append_nil, List.append_assoc, ← hb, List.takeWhile_append_dropWhile]
        · rw [List.cons_append, List.takeWhile_cons, hsep]
          exact List.cons_ne_nil _ _
      · cases h
    · cases h
      exact he.elim

private theorem statement_completes (h : statement (budget + 1) tokens = .error e) :
    Phrase.statement.Completes tokens := by
  rw [completes_statement]
  by_cases ha : Assigns tokens
  · unfold Assigns at ha
    split at ha
    · next name equals rest =>
      rw [statement, if_pos ha] at h
      have hequals := ((hspelled _ (List.mem_cons_of_mem _ List.mem_cons_self)).answers_mark_iff
        (by decide)).mp ha.2
      have hrest := spelled_of_suffix hspelled (List.suffix_append [name, equals] rest)
      rcases bind_error h with herr | ⟨_, _, h⟩
      · obtain ⟨more, hmore, hexpr⟩ :=
          completes_expression.mp (ih (.expression .counted) _ _ hrest herr he)
        exact ⟨more, hmore, .assign ha.1 hequals hexpr⟩
      · cases h
    · exact ha.elim
  · rw [statement_eq_of_not_assigns ha] at h
    rcases bind_error h with herr | ⟨_, _, h⟩
    · obtain ⟨more, hmore, hexpr⟩ :=
        completes_expression.mp (ih (.expression .counted) _ _ hspelled herr he)
      exact ⟨more, hmore, .evaluate hexpr⟩
    · cases h

omit he ih in
/-- The first operand, and the operators behind it. -/
private theorem operands_complete {symbol operand : Symbol} {f : Reader Node}
    {more : Node → Reader Node} (hone : ∀ {tokens}, Derives operand tokens → Derives symbol tokens)
    (hok : ∀ {tokens node rest}, (∀ token ∈ tokens, token.Spelled) → f tokens = .ok (node, rest) →
      ∃ front, tokens = front ++ rest ∧ Derives operand front)
    (herror : ∀ {tokens}, (∀ token ∈ tokens, token.Spelled) → f tokens = .error e →
      Completable (Derives operand) tokens)
    (hmore : ∀ left {tokens}, (∀ token ∈ tokens, token.Spelled) → more left tokens = .error e →
      Completable (Extends symbol) tokens)
    (h : (do
      let (left, rest) ← f tokens
      more left rest) = .error e) : Completable (Derives symbol) tokens := by
  rcases bind_error h with herr | ⟨⟨left, rest⟩, hr, herr⟩
  · obtain ⟨more, hspelled', hd⟩ := herror hspelled herr
    exact ⟨more, hspelled', hone hd⟩
  · obtain ⟨front, rfl, hd⟩ := hok hspelled hr
    obtain ⟨more, hspelled', hextends⟩ :=
      hmore left (spelled_of_suffix hspelled (List.suffix_append front rest)) herr
    exact ⟨more, hspelled', by simpa using hextends _ (hone hd)⟩

omit he ih in
/-- Operators with operands behind them. -/
private theorem operators_complete {mode : LineMode} {sign : Token → Bool}
    {f : Nat → Reader Node} {more : Nat → Node → Reader Node} {symbol operand : Symbol}
    (heq : ReadsOperators mode sign f more)
    (hjoin : ∀ {front gap op tokens}, Derives symbol front → Gap mode gap → op.Spelled →
      sign op = true → Derives operand tokens → Derives symbol (front ++ (gap ++ op :: tokens)))
    (hok : ∀ {tokens node rest}, (∀ token ∈ tokens, token.Spelled) →
      f budget tokens = .ok (node, rest) → ∃ front, tokens = front ++ rest ∧ Derives operand front)
    (herror : ∀ {tokens}, (∀ token ∈ tokens, token.Spelled) → f budget tokens = .error e →
      Completable (Derives operand) tokens)
    (hmore : ∀ left {tokens}, (∀ token ∈ tokens, token.Spelled) →
      more budget left tokens = .error e → Completable (Extends symbol) tokens)
    {left : Node} (h : more (budget + 1) left tokens = .error e) :
    Completable (Extends symbol) tokens := by
  rw [heq] at h
  split at h
  · cases h
  next op rest hs =>
  split at h
  · next hop =>
    have hsign := spelled_of_settle hspelled hs
    obtain ⟨gap, rfl, hg⟩ := exists_gap_of_settle hs
    have hrest := spelled_of_suffix hspelled (suffix_of_cons (List.suffix_append gap _))
    rcases bind_error h with herr | ⟨⟨right, rest'⟩, hr, herr⟩
    · obtain ⟨more, hspelled', hd⟩ := herror hrest herr
      refine ⟨more, hspelled', fun front hf => ?_⟩
      simpa using hjoin hf hg hsign hop hd
    · obtain ⟨operand, rfl, hd⟩ := hok hrest hr
      obtain ⟨more, hspelled', hextends⟩ :=
        hmore _ (spelled_of_suffix hrest (List.suffix_append operand rest')) herr
      refine ⟨more, hspelled', fun front hf => ?_⟩
      simpa using hextends _ (hjoin hf hg hsign hop hd)
  · cases h

private theorem expression_completes {mode : LineMode}
    (h : expression (budget + 1) mode tokens = .error e) :
    (Phrase.expression mode).Completes tokens := by
  rw [completes_expression]
  rw [expression] at h
  exact operands_complete hspelled .oneTerm
    (fun hs hr => (reads_of_read (.term mode) hr).derived hs)
    (fun hs herr => completes_term.mp (ih (.term mode) _ _ hs herr he))
    (fun left _ hs herr => completes_moreTerms.mp (ih (.moreTerms mode left) _ _ hs herr he)) h

private theorem moreTerms_completes {mode : LineMode} {left : Node}
    (h : moreTerms (budget + 1) mode left tokens = .error e) :
    (Phrase.moreTerms mode left).Completes tokens := by
  rw [completes_moreTerms]
  exact operators_complete hspelled (moreTerms_readsOperators mode)
    (fun hf hg hs hop hd => .sum hf hg ((addsTerm_iff hs).mp hop) hd)
    (fun hs hr => (reads_of_read (.term mode) hr).derived hs)
    (fun hs herr => completes_term.mp (ih (.term mode) _ _ hs herr he))
    (fun left _ hs herr => completes_moreTerms.mp (ih (.moreTerms mode left) _ _ hs herr he)) h

private theorem term_completes {mode : LineMode} (h : term (budget + 1) mode tokens = .error e) :
    (Phrase.term mode).Completes tokens := by
  rw [completes_term]
  rw [term] at h
  exact operands_complete hspelled .oneFactor
    (fun hs hr => (reads_of_read (.factor mode) hr).derived hs)
    (fun hs herr => completes_factor.mp (ih (.factor mode) _ _ hs herr he))
    (fun left _ hs herr => completes_moreFactors.mp (ih (.moreFactors mode left) _ _ hs herr he)) h

private theorem moreFactors_completes {mode : LineMode} {left : Node}
    (h : moreFactors (budget + 1) mode left tokens = .error e) :
    (Phrase.moreFactors mode left).Completes tokens := by
  rw [completes_moreFactors]
  exact operators_complete hspelled (moreFactors_readsOperators mode)
    (fun hf hg hs hop hd => .product hf hg ((addsFactor_iff hs).mp hop) hd)
    (fun hs hr => (reads_of_read (.factor mode) hr).derived hs)
    (fun hs herr => completes_factor.mp (ih (.factor mode) _ _ hs herr he))
    (fun left _ hs herr => completes_moreFactors.mp (ih (.moreFactors mode left) _ _ hs herr he)) h

private theorem arguments_completes (h : arguments (budget + 1) tokens = .error e) :
    Phrase.arguments.Completes tokens := by
  rw [arguments] at h
  split at h
  · cases h
  rcases bind_error h with herr | ⟨⟨node, rest⟩, hr, herr⟩
  · obtain ⟨more, hmore, hexpr⟩ :=
      completes_expression.mp (ih (.expression .ignored) _ _ hspelled herr he)
    exact ⟨more ++ [(Word.mark ")").token], spelled_close hmore, fun _ =>
      ⟨_, _, by simp, .someArguments (.oneExpression hexpr), closes_end⟩⟩
  · have hreads := reads_of_read (.expression .ignored) hr
    obtain ⟨tokens₁, rfl, hexpr⟩ := hreads.derived hspelled
    rcases bind_error herr with herr | ⟨_, _, herr⟩
    · obtain ⟨more, hmore, hd⟩ :=
        ih .moreArguments _ _ (spelled_of_suffix hspelled hreads.suffix) herr he
      obtain ⟨args, tokens₂, ht, hc, hm⟩ := hd []
      refine ⟨more, hmore, fun _ => ⟨tokens₁ ++ args, tokens₂, ?_,
        .someArguments (hm _ (.oneExpression hexpr)), hc⟩⟩
      rw [List.append_assoc, ht, List.append_assoc]
    · cases herr

private theorem moreArguments_completes (h : moreArguments (budget + 1) tokens = .error e) :
    Phrase.moreArguments.Completes tokens := by
  rw [moreArguments] at h
  split at h
  · next rest ha =>
    obtain ⟨gap, comma, rfl, hg, hcomma⟩ := accept?_mark hspelled (by decide) ha
    have hrest := spelled_of_suffix hspelled (suffix_of_cons (List.suffix_append gap _))
    rcases bind_error h with herr | ⟨⟨node, rest'⟩, hr, herr⟩
    · obtain ⟨more, hmore, hexpr⟩ :=
        completes_expression.mp (ih (.expression .ignored) _ _ hrest herr he)
      exact ⟨more ++ [(Word.mark ")").token], spelled_close hmore, fun _ =>
        ⟨_, _, by simp, closes_end, fun _ hd => .moreExpressions hd hg hcomma hexpr⟩⟩
    · have hreads := reads_of_read (.expression .ignored) hr
      obtain ⟨tokens₁, rfl, hexpr⟩ := hreads.derived hrest
      rcases bind_error herr with herr | ⟨_, _, herr⟩
      · obtain ⟨more, hmore, hd⟩ :=
          ih .moreArguments _ _ (spelled_of_suffix hrest hreads.suffix) herr he
        obtain ⟨args, tokens₂, ht, hc, hm⟩ := hd []
        refine ⟨more, hmore, fun _ => ⟨gap ++ comma :: (tokens₁ ++ args), tokens₂, ?_, hc,
          fun exprs hd => ?_⟩⟩
        · simp [ht]
        · simpa using hm _ (.moreExpressions hd hg hcomma hexpr)
      · cases herr
  · rcases bind_error h with herr | ⟨_, _, h⟩
    · have hg := gap_of_expect herr he
      exact ⟨_, spelled_closing, fun _ =>
        ⟨[], _, rfl, ⟨tokens, _, rfl, hg, rfl, rfl⟩, fun exprs hd => by simpa using hd⟩⟩
    · cases h

omit hspelled in
/-- A function whose parts are cut off at any place. -/
private theorem function_completes {mode : LineMode} {gap rest : List Token} {word : Token}
    (hg : Gap mode gap) (hw : word.Is .keyword "function")
    (hrest : ∀ token ∈ rest, token.Spelled)
    (h : (do
      let (params, rest) ← parameters budget rest
      let (_, rest) ← expect .ignored "(" rest
      let (body, rest) ← block budget true rest
      let (_, rest) ← expect mode ")" rest
      .ok (Node.literal (.function params body), rest)) = .error e) :
    Completable (Derives (.factor mode)) (gap ++ word :: rest) := by
  have hblock : Derives .block [] := .separators nofun
  have hopen : (Word.mark "(").token.Is .punctuation "(" := ⟨rfl, rfl⟩
  have hclose : (Word.mark ")").token.Is .punctuation ")" := ⟨rfl, rfl⟩
  rcases bind_error h with herr | ⟨⟨params, rest₁⟩, hp, h₁⟩
  · obtain ⟨more, hmore, hd⟩ := ih .parameters _ _ hrest herr he
    obtain ⟨gap₁, opening, params, _, ht, hg₁, ho, hps, gap₂, closing, rfl, hg₂, hc⟩ := hd []
    have hd := Derives.function hg hw hg₁ ho hps hg₂ hc (gap_nil _) hopen hblock hclose
    refine ⟨more ++ [(Word.mark "(").token, (Word.mark ")").token],
      List.forall_mem_append.mpr ⟨hmore, spelled_parentheses⟩, ?_⟩
    have hsplit := congrArg (· ++ [(Word.mark "(").token, (Word.mark ")").token]) ht
    simp only [List.append_assoc, List.cons_append, List.nil_append] at hsplit hd ⊢
    rwa [hsplit]
  have hreads := reads_of_read .parameters hp
  obtain ⟨gap₁, opening, params', _, rfl, hg₁, ho, hps, gap₂, closing, rfl, hg₂, hc⟩ :=
    hreads.derived hrest
  have hrest₁ := spelled_of_suffix hrest hreads.suffix
  rcases bind_error h₁ with herr | ⟨⟨opening', rest₂⟩, ho', h₂⟩
  · have hg₃ := gap_of_expect herr he
    have hd := Derives.function hg hw hg₁ ho hps hg₂ hc hg₃ hopen hblock hclose
    exact ⟨_, spelled_parentheses, by simpa using hd⟩
  obtain ⟨gap₃, rfl, hg₃, hopen'⟩ := expect_mark hrest₁ (by decide) ho'
  have hrest₂ := spelled_of_suffix hrest₁ (suffix_of_cons (List.suffix_append gap₃ _))
  rcases bind_error h₂ with herr | ⟨⟨body, rest₃⟩, hb, h₃⟩
  · obtain ⟨more, hmore, hd⟩ := ih (.block true) _ _ hrest₂ herr he
    have hbody := derives_of_block (List.forall_mem_append.mpr ⟨hrest₂, hmore⟩) (hd [])
    have hd := Derives.function hg hw hg₁ ho hps hg₂ hc hg₃ hopen' hbody hclose
    exact ⟨_, spelled_close hmore, by simpa using hd⟩
  obtain ⟨body', hskip, hends⟩ := (reads_of_read (.block true) hb).derived hrest₂
  obtain ⟨seps, rfl, hseps⟩ := exists_separators hrest₂ hskip
  rcases bind_error h₃ with herr | ⟨_, _, h₄⟩
  · have hbody := hends.block hseps (gap_of_expect herr he).separates
    have hd := Derives.function hg hw hg₁ ho hps hg₂ hc hg₃ hopen' hbody hclose
    exact ⟨_, spelled_closing, by simpa using hd⟩
  · cases h₄

private theorem factor_completes {mode : LineMode}
    (h : factor (budget + 1) mode tokens = .error e) : (Phrase.factor mode).Completes tokens := by
  rw [completes_factor]
  rw [factor] at h
  split at h
  · next hs =>
    have hkind : (Word.token ⟨.number, "0"⟩).kind = .number := rfl
    refine ⟨_, List.forall_mem_singleton.mpr ?_, .number (gap_of_settle_nil hs) hkind⟩
    exact .whole (List.cons_ne_nil _ _) (List.forall_mem_singleton.mpr rfl)
  next token rest hs =>
  have htoken := spelled_of_settle hspelled hs
  obtain ⟨gap, rfl, hg⟩ := exists_gap_of_settle hs
  have hrest := spelled_of_suffix hspelled (suffix_of_cons (List.suffix_append gap _))
  split at h
  · cases h
  split at h
  · next hk =>
    split at h
    · next rest' ha =>
      obtain ⟨gap₁, opening, rfl, hg₁, ho⟩ := accept?_mark hrest (by decide) ha
      have hrest' := spelled_of_suffix hrest (suffix_of_cons (List.suffix_append gap₁ _))
      rcases bind_error h with herr | ⟨_, _, h⟩
      · obtain ⟨more, hmore, hd⟩ := ih .arguments _ _ hrest' herr he
        obtain ⟨args, _, ht, hargs, gap₂, closing, rfl, hg₂, hc⟩ := hd []
        have hd := Derives.call hg hk hg₁ ho hargs hg₂ hc
        exact ⟨more, hmore, by simpa [ht] using hd⟩
      · cases h
    · cases h
  split at h
  · next hp =>
    have hw := (htoken.answers_keyword_iff (.inl rfl)).mp hp
    rcases bind_error h with herr | ⟨_, _, h⟩
    · obtain ⟨more, hmore, hexpr⟩ :=
        completes_expression.mp (ih (.expression mode) _ _ hrest herr he)
      exact ⟨more, hmore, by simpa using Derives.print hg hw hexpr⟩
    · cases h
  split at h
  · next hf =>
    exact function_completes he ih hg ((htoken.answers_keyword_iff (.inr rfl)).mp hf) hrest h
  split at h
  · next hp =>
    have ho := (htoken.answers_mark_iff (by decide)).mp hp
    have hclose : (Word.mark ")").token.Is .punctuation ")" := ⟨rfl, rfl⟩
    rcases bind_error h with herr | ⟨⟨node, rest'⟩, hr, h₁⟩
    · obtain ⟨more, hmore, hexpr⟩ :=
        completes_expression.mp (ih (.expression .ignored) _ _ hrest herr he)
      have hd := Derives.group hg ho hexpr (gap_nil _) hclose
      exact ⟨_, spelled_close hmore, by simpa using hd⟩
    obtain ⟨tokens₁, rfl, hexpr⟩ := (reads_of_read (.expression .ignored) hr).derived hrest
    rcases bind_error h₁ with herr | ⟨_, _, h₂⟩
    · have hd := Derives.group hg ho hexpr (gap_of_expect herr he) hclose
      exact ⟨_, spelled_closing, by simpa using hd⟩
    · cases h₂
  · cases h
    exact he.elim

end Succ

/-- Tokens of a phrase that end too soon can be completed. -/
theorem completes_of_read {budget : Nat} (phrase : Phrase) {tokens : List Token} {e : GrammarError}
    (hspelled : ∀ token ∈ tokens, token.Spelled) (h : phrase.read budget tokens = .error e)
    (he : e.AtEnd) : phrase.Completes tokens := by
  induction budget generalizing phrase tokens e with
  | zero =>
    cases phrase with
    | parameters =>
      refine parameters_completes hspelled he (fun seen tokens _ h => ?_) h
      cases h
      exact he.elim
    | _ =>
      cases h
      exact he.elim
  | succ budget ih =>
    have ih : CompletesWithin budget := fun phrase tokens e => ih phrase
    cases phrase with
    | parameters =>
      exact parameters_completes hspelled he
        (fun seen tokens hspelled h => moreParameters_completes hspelled he ih h) h
    | moreParameters seen => exact moreParameters_completes hspelled he ih h
    | block closed => exact block_completes hspelled he ih h
    | statement => exact statement_completes hspelled he ih h
    | expression mode => exact expression_completes hspelled he ih h
    | moreTerms mode left => exact moreTerms_completes hspelled he ih h
    | term mode => exact term_completes hspelled he ih h
    | moreFactors mode left => exact moreFactors_completes hspelled he ih h
    | factor mode => exact factor_completes hspelled he ih h
    | arguments => exact arguments_completes hspelled he ih h
    | moreArguments => exact moreArguments_completes hspelled he ih h

/-- The tokens of a program that end too soon can be completed. -/
theorem ofTokens_completes {tokens : List Token} {e : GrammarError}
    (hspelled : ∀ token ∈ tokens, token.Spelled) (h : Node.ofTokens tokens = .error e)
    (he : e.AtEnd) :
    ∃ more, (∀ token ∈ more, token.Spelled) ∧
      ∃ program, Node.ofTokens (tokens ++ more) = .ok program := by
  obtain ⟨more, hmore, hd⟩ := completes_of_read _ hspelled (ofTokens_eq_error_iff.mp h) he
  have hderives := derives_of_block (List.forall_mem_append.mpr ⟨hspelled, hmore⟩) (hd [])
  obtain ⟨nodes, hr⟩ := hderives.accepted false [] (.inl rfl)
  rw [List.append_nil] at hr
  exact ⟨more, hmore, .program nodes, ofTokens_eq_ok_iff.mpr ⟨nodes, rfl, hr⟩⟩

end Reading

end Douro
