import Douro.Proofs.Reading.Descent

/-!
# What a reading function reads inside

To read a phrase, a reading function makes attempts at other phrases: a block at its statements, an
expression at its terms, a loop at its next round. `Attempt.Makes` says which ones, each with the
tokens that are left for it, and `Attempt.Within` how deep one attempt stands inside another. Neither
of them mentions the budget.

An attempt starts where the one that makes it starts, or further on. If no token has been taken in
between, it is of a lower rank. So attempts do not stand inside each other without end, and a budget
that runs out shows how deep they stand.

* `Attempt.Makes.behind_or_lower`: what one attempt does.
* `Attempt.Within.suffix`, `Attempt.Within.depth_le`: how far attempts go, and how deep they stand.
* `Attempt.exists_within_of_budget`: a budget runs out only if attempts stand that deep.
* `Phrase.read_ne_budget`: the budget for its tokens is enough for a phrase.
-/

namespace Douro

namespace Reading

/-! ## Attempts -/

/-- The attempt to read a phrase at the front of the tokens that are left. -/
structure Attempt where
  phrase : Phrase
  tokens : List Token

namespace Attempt

/-- An attempt makes another one itself. -/
inductive Makes : Attempt → Attempt → Prop
  | parameterList {tokens tokens₁ tokens₂ paren name} :
    expect .ignored "(" tokens = .ok (paren, tokens₁) → accept? .ignored ")" tokens₁ = none →
    parameter [] tokens₁ = .ok (name, tokens₂) →
    Makes ⟨.parameters, tokens⟩ ⟨.moreParameters [name], tokens₂⟩
  | nextParameter {seen tokens tokens₁ tokens₂ name} :
    accept? .ignored "," tokens = some tokens₁ → parameter seen tokens₁ = .ok (name, tokens₂) →
    Makes ⟨.moreParameters seen, tokens⟩ ⟨.moreParameters (seen ++ [name]), tokens₂⟩
  | statement {closed tokens} :
    blockEnds closed (tokens.dropWhile isSeparator) = false →
    Makes ⟨.block closed, tokens⟩ ⟨.statement, tokens.dropWhile isSeparator⟩
  | nextStatement {closed tokens node token tokens₁} :
    blockEnds closed (tokens.dropWhile isSeparator) = false →
    Reads .statement (tokens.dropWhile isSeparator) node (token :: tokens₁) →
    blockEnds closed (token :: tokens₁) = false → isSeparator token = true →
    Makes ⟨.block closed, tokens⟩ ⟨.block closed, token :: tokens₁⟩
  | assigned {name equals tokens} :
    name.kind = .identifier → equals.answers "=" = true →
    Makes ⟨.statement, name :: equals :: tokens⟩ ⟨.expression .counted, tokens⟩
  | evaluated {tokens} :
    ¬ Assigns tokens → Makes ⟨.statement, tokens⟩ ⟨.expression .counted, tokens⟩
  | firstTerm {mode tokens} : Makes ⟨.expression mode, tokens⟩ ⟨.term mode, tokens⟩
  | restOfTerms {mode tokens left tokens₁} :
    Reads (.term mode) tokens left tokens₁ →
    Makes ⟨.expression mode, tokens⟩ ⟨.moreTerms mode left, tokens₁⟩
  | addedTerm {mode left tokens op tokens₁} :
    settle mode tokens = op :: tokens₁ → addsTerm op = true →
    Makes ⟨.moreTerms mode left, tokens⟩ ⟨.term mode, tokens₁⟩
  | nextTerm {mode left tokens op tokens₁ right tokens₂} :
    settle mode tokens = op :: tokens₁ → addsTerm op = true →
    Reads (.term mode) tokens₁ right tokens₂ →
    Makes ⟨.moreTerms mode left, tokens⟩
      ⟨.moreTerms mode (.binary op.text left right op.position), tokens₂⟩
  | firstFactor {mode tokens} : Makes ⟨.term mode, tokens⟩ ⟨.factor mode, tokens⟩
  | restOfFactors {mode tokens left tokens₁} :
    Reads (.factor mode) tokens left tokens₁ →
    Makes ⟨.term mode, tokens⟩ ⟨.moreFactors mode left, tokens₁⟩
  | addedFactor {mode left tokens op tokens₁} :
    settle mode tokens = op :: tokens₁ → addsFactor op = true →
    Makes ⟨.moreFactors mode left, tokens⟩ ⟨.factor mode, tokens₁⟩
  | nextFactor {mode left tokens op tokens₁ right tokens₂} :
    settle mode tokens = op :: tokens₁ → addsFactor op = true →
    Reads (.factor mode) tokens₁ right tokens₂ →
    Makes ⟨.moreFactors mode left, tokens⟩
      ⟨.moreFactors mode (.binary op.text left right op.position), tokens₂⟩
  | called {mode tokens token tokens₁ tokens₂} :
    settle mode tokens = token :: tokens₁ → token.kind = .identifier →
    accept? mode "(" tokens₁ = some tokens₂ →
    Makes ⟨.factor mode, tokens⟩ ⟨.arguments, tokens₂⟩
  | printed {mode tokens token tokens₁} :
    settle mode tokens = token :: tokens₁ → token.kind ≠ .number → token.kind ≠ .identifier →
    token.answers "print" = true → Makes ⟨.factor mode, tokens⟩ ⟨.expression mode, tokens₁⟩
  | parameters {mode tokens token tokens₁} :
    settle mode tokens = token :: tokens₁ → token.kind ≠ .number → token.kind ≠ .identifier →
    token.answers "print" = false → token.answers "function" = true →
    Makes ⟨.factor mode, tokens⟩ ⟨.parameters, tokens₁⟩
  | body {mode tokens token tokens₁ params tokens₂ paren tokens₃} :
    settle mode tokens = token :: tokens₁ → token.kind ≠ .number → token.kind ≠ .identifier →
    token.answers "print" = false → token.answers "function" = true →
    Reads .parameters tokens₁ params tokens₂ → expect .ignored "(" tokens₂ = .ok (paren, tokens₃) →
    Makes ⟨.factor mode, tokens⟩ ⟨.block true, tokens₃⟩
  | grouped {mode tokens token tokens₁} :
    settle mode tokens = token :: tokens₁ → token.kind ≠ .number → token.kind ≠ .identifier →
    token.answers "print" = false → token.answers "function" = false → token.answers "(" = true →
    Makes ⟨.factor mode, tokens⟩ ⟨.expression .ignored, tokens₁⟩
  | firstArgument {tokens} :
    accept? .ignored ")" tokens = none → Makes ⟨.arguments, tokens⟩ ⟨.expression .ignored, tokens⟩
  | restOfArguments {tokens node tokens₁} :
    accept? .ignored ")" tokens = none → Reads (.expression .ignored) tokens node tokens₁ →
    Makes ⟨.arguments, tokens⟩ ⟨.moreArguments, tokens₁⟩
  | addedArgument {tokens tokens₁} :
    accept? .ignored "," tokens = some tokens₁ →
    Makes ⟨.moreArguments, tokens⟩ ⟨.expression .ignored, tokens₁⟩
  | nextArgument {tokens tokens₁ node tokens₂} :
    accept? .ignored "," tokens = some tokens₁ → Reads (.expression .ignored) tokens₁ node tokens₂ →
    Makes ⟨.moreArguments, tokens⟩ ⟨.moreArguments, tokens₂⟩

/-- An attempt stands so many levels inside another one. -/
inductive Within : Nat → Attempt → Attempt → Prop
  | here {a} : Within 0 a a
  | deeper {a b c depth} : a.Makes b → Within depth b c → Within (depth + 1) a c

end Attempt

/-! ## Ranks -/

/-- How many reading functions, this one included, call each other before a token is taken. -/
def Phrase.rank : Phrase → Nat
  | block _ => 5
  | statement | arguments => 4
  | expression _ => 3
  | term _ => 2
  | factor _ | moreTerms _ _ | moreFactors _ _ | moreArguments | moreParameters _ => 1
  | parameters => 0

theorem Phrase.rank_le (phrase : Phrase) : phrase.rank ≤ 5 := by
  cases phrase <;> simp [rank]

/-- The first token of some tokens counts, if newlines do. -/
theorem Behind.of_suffix {mode : LineMode} {tokens tokens' rest : List Token}
    (h : Behind mode tokens' rest) (hs : tokens' <:+ tokens) : Behind .counted tokens rest := by
  obtain ⟨token, tail, ht, hr⟩ := h
  have hcons := (cons_suffix_of_settle ht).trans hs
  cases tokens with
  | nil => exact absurd (List.suffix_nil.mp hcons) (by simp)
  | cons first others =>
    rcases List.suffix_cons_iff.mp hcons with heq | hcons
    · exact ⟨first, others, rfl, by cases heq; exact hr⟩
    · exact ⟨first, others, rfl, hr.trans (suffix_of_cons hcons)⟩

namespace Attempt

/-- How deep attempts can stand inside one. A token is worth more than the difference of two ranks. -/
def weight (a : Attempt) : Nat := 8 * a.tokens.length + a.phrase.rank

/-- An attempt starts behind the first token of the one that makes it, or it is of a lower rank and
starts no further back. -/
theorem Makes.behind_or_lower {a b : Attempt} (h : a.Makes b) :
    Behind a.phrase.mode a.tokens b.tokens ∨
      b.tokens <:+ a.tokens ∧ b.phrase.rank < a.phrase.rank := by
  cases h with
  | parameterList he _ hp =>
    exact .inl ((Behind.of_expect he).trans_suffix (Behind.of_parameter hp).suffix)
  | nextParameter ha hp =>
    exact .inl ((Behind.of_accept? ha).trans_suffix (Behind.of_parameter hp).suffix)
  | statement _ => exact .inr ⟨List.dropWhile_suffix _, Nat.lt_succ_self _⟩
  | nextStatement _ hr _ _ => exact .inl ((hr.behind rfl).of_suffix (List.dropWhile_suffix _))
  | assigned _ _ => exact .inl ⟨_, _, rfl, List.suffix_cons _ _⟩
  | evaluated _ => exact .inr ⟨List.suffix_refl _, Nat.lt_succ_self _⟩
  | firstTerm => exact .inr ⟨List.suffix_refl _, Nat.lt_succ_self _⟩
  | restOfTerms hr => exact .inl (hr.behind rfl)
  | addedTerm hs _ => exact .inl (.of_settle hs)
  | nextTerm hs _ hr => exact .inl ((Behind.of_settle hs).trans_suffix hr.suffix)
  | firstFactor => exact .inr ⟨List.suffix_refl _, Nat.lt_succ_self _⟩
  | restOfFactors hr => exact .inl (hr.behind rfl)
  | addedFactor hs _ => exact .inl (.of_settle hs)
  | nextFactor hs _ hr => exact .inl ((Behind.of_settle hs).trans_suffix hr.suffix)
  | called hs _ ha => exact .inl ((Behind.of_settle hs).trans_suffix (Behind.of_accept? ha).suffix)
  | printed hs _ _ _ => exact .inl (.of_settle hs)
  | parameters hs _ _ _ _ => exact .inl (.of_settle hs)
  | body hs _ _ _ _ hr he =>
    exact .inl ((Behind.of_settle hs).trans_suffix ((Behind.of_expect he).suffix.trans hr.suffix))
  | grouped hs _ _ _ _ _ => exact .inl (.of_settle hs)
  | firstArgument _ => exact .inr ⟨List.suffix_refl _, Nat.lt_succ_self _⟩
  | restOfArguments _ hr => exact .inl (hr.behind rfl)
  | addedArgument ha => exact .inl (.of_accept? ha)
  | nextArgument ha hr => exact .inl ((Behind.of_accept? ha).trans_suffix hr.suffix)

theorem Makes.suffix {a b : Attempt} (h : a.Makes b) : b.tokens <:+ a.tokens := by
  rcases h.behind_or_lower with hbehind | ⟨hsuffix, -⟩
  · exact hbehind.suffix
  · exact hsuffix

theorem Makes.weight_lt {a b : Attempt} (h : a.Makes b) : b.weight < a.weight := by
  unfold weight
  rcases h.behind_or_lower with hbehind | ⟨hsuffix, hlower⟩
  · have := hbehind.length_lt
    have := b.phrase.rank_le
    omega
  · have := hsuffix.length_le
    omega

theorem Within.suffix {depth : Nat} {a b : Attempt} (h : Within depth a b) : b.tokens <:+ a.tokens := by
  induction h with
  | here => exact List.suffix_refl _
  | deeper hmakes _ ih => exact ih.trans hmakes.suffix

theorem Within.depth_le {depth : Nat} {a b : Attempt} (h : Within depth a b) :
    depth + b.weight ≤ a.weight := by
  induction h with
  | here => omega
  | deeper hmakes _ ih =>
    have := hmakes.weight_lt
    omega

/-! ## Budgets that run out -/

/-- Read the phrase of an attempt. -/
def read (budget : Nat) (a : Attempt) : Except GrammarError (a.phrase.Result × List Token) :=
  a.phrase.read budget a.tokens

end Attempt

theorem statement_eq_of_not_assigns {tokens : List Token} (h : ¬ Assigns tokens)
    (budget : Nat) :
    statement (budget + 1) tokens = (do
      let (node, rest) ← expression budget .counted tokens
      .ok (.expression node, rest)) := by
  rw [statement.eq_def]
  simp only
  split
  · exact if_neg h
  · rfl

theorem bind_ne_budget {α β : Type} {x : Except GrammarError α}
    {f : α → Except GrammarError β} (hx : x ≠ .error .budget)
    (hf : ∀ a, x = .ok a → f a ≠ .error .budget) : (x >>= f) ≠ .error .budget := by
  cases x with
  | error e => exact fun h => hx (by cases h; rfl)
  | ok a => exact hf a rfl

theorem ok_ne_budget {α : Type} (a : α) : (.ok a : Except GrammarError α) ≠ .error .budget := by
  intro h
  cases h

theorem expect_ne_budget (mode : LineMode) (word : String) (tokens : List Token) :
    expect mode word tokens ≠ .error .budget := by
  unfold expect
  split
  · exact fun h => by cases h
  split
  · exact ok_ne_budget _
  · exact fun h => by cases h

theorem parameter_ne_budget (seen : List String) (tokens : List Token) :
    parameter seen tokens ≠ .error .budget := by
  refine bind_ne_budget (expect_ne_budget _ _ _) fun read _ => ?_
  simp only
  split
  · exact fun h => by cases h
  · exact ok_ne_budget _

/-- The budget is enough for all that an attempt makes itself. -/
private def MadeEnough (budget : Nat) (a : Attempt) : Prop :=
  ∀ b, a.Makes b → b.read budget ≠ .error .budget

section Succ

variable {budget : Nat} {tokens : List Token}

private theorem parameters_enough (made : MadeEnough budget ⟨.parameters, tokens⟩) :
    parameters budget tokens ≠ .error .budget := by
  refine bind_ne_budget (expect_ne_budget _ _ _) fun read he => ?_
  obtain ⟨paren, rest⟩ := read
  simp only
  split
  · exact ok_ne_budget _
  · next hnone =>
    refine bind_ne_budget (parameter_ne_budget _ _) fun read hp => ?_
    exact made _ (.parameterList he hnone hp)

private theorem moreParameters_enough {seen : List String}
    (made : MadeEnough budget ⟨.moreParameters seen, tokens⟩) :
    moreParameters (budget + 1) seen tokens ≠ .error .budget := by
  rw [moreParameters]
  split
  · next rest ha =>
    refine bind_ne_budget (parameter_ne_budget _ _) fun read hp => ?_
    exact made _ (.nextParameter ha hp)
  · exact bind_ne_budget (expect_ne_budget _ _ _) fun _ _ => ok_ne_budget _

private theorem block_enough {closed : Bool} (made : MadeEnough budget ⟨.block closed, tokens⟩) :
    block (budget + 1) closed tokens ≠ .error .budget := by
  rw [block]
  split
  · exact ok_ne_budget _
  next hend =>
  rw [Bool.not_eq_true] at hend
  refine bind_ne_budget (made _ (.statement hend)) fun read hs => ?_
  obtain ⟨node, rest⟩ := read
  simp only
  split
  · exact ok_ne_budget _
  next hend' =>
  rw [Bool.not_eq_true] at hend'
  split
  · exact ok_ne_budget _
  split
  · next hsep =>
    have hmakes := Attempt.Makes.nextStatement hend (reads_of_read .statement hs) hend' hsep
    exact bind_ne_budget (made _ hmakes) fun _ _ => ok_ne_budget _
  · exact fun h => by cases h

private theorem statement_enough (made : MadeEnough budget ⟨.statement, tokens⟩) :
    statement (budget + 1) tokens ≠ .error .budget := by
  by_cases ha : Assigns tokens
  case neg =>
    rw [statement_eq_of_not_assigns ha]
    exact bind_ne_budget (made _ (.evaluated ha)) fun _ _ => ok_ne_budget _
  match tokens, ha with
  | name :: equals :: rest, ha =>
    rw [statement, if_pos ⟨ha.1, ha.2⟩]
    exact bind_ne_budget (made _ (.assigned ha.1 ha.2)) fun _ _ => ok_ne_budget _

private theorem expression_enough {mode : LineMode}
    (made : MadeEnough budget ⟨.expression mode, tokens⟩) :
    expression (budget + 1) mode tokens ≠ .error .budget := by
  rw [expression]
  refine bind_ne_budget (made _ .firstTerm) fun read ht => ?_
  exact made _ (.restOfTerms (reads_of_read (.term mode) ht))

private theorem moreTerms_enough {mode : LineMode} {left : Node}
    (made : MadeEnough budget ⟨.moreTerms mode left, tokens⟩) :
    moreTerms (budget + 1) mode left tokens ≠ .error .budget := by
  rw [moreTerms]
  split
  · exact ok_ne_budget _
  next op rest hs =>
  split
  · next hop =>
    refine bind_ne_budget (made _ (.addedTerm hs hop)) fun read ht => ?_
    exact made _ (.nextTerm hs hop (reads_of_read (.term mode) ht))
  · exact ok_ne_budget _

private theorem term_enough {mode : LineMode} (made : MadeEnough budget ⟨.term mode, tokens⟩) :
    term (budget + 1) mode tokens ≠ .error .budget := by
  rw [term]
  refine bind_ne_budget (made _ .firstFactor) fun read ht => ?_
  exact made _ (.restOfFactors (reads_of_read (.factor mode) ht))

private theorem moreFactors_enough {mode : LineMode} {left : Node}
    (made : MadeEnough budget ⟨.moreFactors mode left, tokens⟩) :
    moreFactors (budget + 1) mode left tokens ≠ .error .budget := by
  rw [moreFactors]
  split
  · exact ok_ne_budget _
  next op rest hs =>
  split
  · next hop =>
    refine bind_ne_budget (made _ (.addedFactor hs hop)) fun read ht => ?_
    exact made _ (.nextFactor hs hop (reads_of_read (.factor mode) ht))
  · exact ok_ne_budget _

private theorem factor_enough {mode : LineMode} (made : MadeEnough budget ⟨.factor mode, tokens⟩) :
    factor (budget + 1) mode tokens ≠ .error .budget := by
  rw [factor]
  split
  · exact fun h => by cases h
  next token rest hs =>
  split
  · exact ok_ne_budget _
  next hnumber =>
  split
  · next hkind =>
    split
    · next rest' ha =>
      exact bind_ne_budget (made _ (.called hs hkind ha)) fun _ _ => ok_ne_budget _
    · exact ok_ne_budget _
  next hidentifier =>
  split
  · next hprint =>
    exact bind_ne_budget (made _ (.printed hs hnumber hidentifier hprint)) fun _ _ => ok_ne_budget _
  next hprint =>
  rw [Bool.not_eq_true] at hprint
  split
  · next hfunction =>
    refine bind_ne_budget (made _ (.parameters hs hnumber hidentifier hprint hfunction))
      fun read hp => ?_
    refine bind_ne_budget (expect_ne_budget _ _ _) fun read ho => ?_
    have hmakes := Attempt.Makes.body hs hnumber hidentifier hprint hfunction
      (reads_of_read .parameters hp) ho
    refine bind_ne_budget (made _ hmakes) fun _ _ => ?_
    exact bind_ne_budget (expect_ne_budget _ _ _) fun _ _ => ok_ne_budget _
  next hfunction =>
  rw [Bool.not_eq_true] at hfunction
  split
  · next hgroup =>
    refine bind_ne_budget (made _ (.grouped hs hnumber hidentifier hprint hfunction hgroup))
      fun _ _ => ?_
    exact bind_ne_budget (expect_ne_budget _ _ _) fun _ _ => ok_ne_budget _
  · exact fun h => by cases h

private theorem arguments_enough (made : MadeEnough budget ⟨.arguments, tokens⟩) :
    arguments (budget + 1) tokens ≠ .error .budget := by
  rw [arguments]
  split
  · exact ok_ne_budget _
  · next hnone =>
    refine bind_ne_budget (made _ (.firstArgument hnone)) fun read he => ?_
    have hmakes := Attempt.Makes.restOfArguments hnone (reads_of_read (.expression .ignored) he)
    exact bind_ne_budget (made _ hmakes) fun _ _ => ok_ne_budget _

private theorem moreArguments_enough (made : MadeEnough budget ⟨.moreArguments, tokens⟩) :
    moreArguments (budget + 1) tokens ≠ .error .budget := by
  rw [moreArguments]
  split
  · next rest ha =>
    refine bind_ne_budget (made _ (.addedArgument ha)) fun read he => ?_
    have hmakes := Attempt.Makes.nextArgument ha (reads_of_read (.expression .ignored) he)
    exact bind_ne_budget (made _ hmakes) fun _ _ => ok_ne_budget _
  · exact bind_ne_budget (expect_ne_budget _ _ _) fun _ _ => ok_ne_budget _

end Succ

namespace Attempt

/-- If the budget of an attempt runs out, it has run out in one that it makes. -/
theorem exists_made_of_budget {budget : Nat} {a : Attempt} (hp : a.phrase ≠ .parameters)
    (h : a.read (budget + 1) = .error .budget) : ∃ b, a.Makes b ∧ b.read budget = .error .budget := by
  refine Classical.byContradiction fun hnone => ?_
  have made : MadeEnough budget a := fun b hmakes hread => hnone ⟨b, hmakes, hread⟩
  obtain ⟨phrase, tokens⟩ := a
  cases phrase with
  | parameters => exact hp rfl
  | moreParameters seen => exact moreParameters_enough made h
  | block closed => exact block_enough made h
  | statement => exact statement_enough made h
  | expression mode => exact expression_enough made h
  | moreTerms mode left => exact moreTerms_enough made h
  | term mode => exact term_enough made h
  | moreFactors mode left => exact moreFactors_enough made h
  | factor mode => exact factor_enough made h
  | arguments => exact arguments_enough made h
  | moreArguments => exact moreArguments_enough made h

/-- A list of parameters hands all of its budget on to the loop behind its first one. -/
theorem exists_made_of_parameters {budget : Nat} {a : Attempt} (hp : a.phrase = .parameters)
    (h : a.read budget = .error .budget) :
    ∃ b, a.Makes b ∧ b.phrase ≠ .parameters ∧ b.read budget = .error .budget := by
  refine Classical.byContradiction fun hnone => ?_
  obtain ⟨phrase, tokens⟩ := a
  cases hp
  refine parameters_enough (fun b hmakes hread => hnone ⟨b, hmakes, ?_, hread⟩) h
  cases hmakes with
  | parameterList => nofun

theorem weight_pos {a : Attempt} (hp : a.phrase ≠ .parameters) : 0 < a.weight := by
  have hrank : 0 < a.phrase.rank := by
    cases h : a.phrase with
    | parameters => exact absurd h hp
    | _ => exact Nat.succ_pos _
  exact Nat.lt_of_lt_of_le hrank (Nat.le_add_left _ _)

/-- A budget runs out only if attempts stand inside each other as deep as that. -/
theorem exists_within_of_budget {budget : Nat} {a : Attempt} (h : a.read budget = .error .budget) :
    ∃ depth b, budget ≤ depth ∧ Within depth a b ∧ 0 < b.weight := by
  induction budget generalizing a with
  | zero =>
    by_cases hp : a.phrase = .parameters
    · obtain ⟨b, hmakes, hb, -⟩ := exists_made_of_parameters hp h
      exact ⟨1, b, Nat.zero_le _, .deeper hmakes .here, weight_pos hb⟩
    · exact ⟨0, a, Nat.le_refl _, .here, weight_pos hp⟩
  | succ budget ih =>
    by_cases hp : a.phrase = .parameters
    · obtain ⟨b, hmakes, hb, hread⟩ := exists_made_of_parameters hp h
      obtain ⟨c, hmakes', hread'⟩ := exists_made_of_budget hb hread
      obtain ⟨depth, d, hdepth, hwithin, hd⟩ := ih hread'
      exact ⟨depth + 2, d, by omega, .deeper hmakes (.deeper hmakes' hwithin), hd⟩
    · obtain ⟨b, hmakes, hread⟩ := exists_made_of_budget hp h
      obtain ⟨depth, c, hdepth, hwithin, hc⟩ := ih hread
      exact ⟨depth + 1, c, by omega, .deeper hmakes hwithin, hc⟩

end Attempt

/-- The budget for its tokens is enough for a phrase. -/
theorem Phrase.read_ne_budget {budget : Nat} (phrase : Phrase) (tokens : List Token)
    (h : 8 * tokens.length + phrase.rank ≤ budget) :
    phrase.read budget tokens ≠ .error .budget := by
  intro hread
  have hread : (Attempt.mk phrase tokens).read budget = .error .budget := hread
  obtain ⟨depth, b, hdepth, hwithin, hpos⟩ := Attempt.exists_within_of_budget hread
  have hle : depth + b.weight ≤ 8 * tokens.length + phrase.rank := hwithin.depth_le
  omega

end Reading

end Douro
