import Douro.Proofs.Reading.Budget

/-!
# Reading always ends

Nothing is assumed of the tokens: a keyword may have the text of a semicolon, and a number any text at
all. How far a reader has come shows in what it has left, an end of all tokens. It never goes back.
Statements, expressions, terms, factors with the functions among them, arguments and parameters take
at least one token, and so does every round of a loop. So reading functions stand inside each other no
deeper than a budget that is linear in the number of tokens, and reading ends with a program or with
an error about the tokens.

* `Phrase.loop?`: the loops of the reader.
* `Attempt.Advances`: how an attempt moves on.
* `reading_ends`: all attempts that are made to read a list of tokens, and the outcome.
-/

namespace Douro

namespace Reading

/-! ## Loops -/

/-- The loops of the reader, apart from those that skip newlines and separators. -/
inductive Loop where
  | parameters
  | statements
  | terms
  | factors
  | arguments
deriving DecidableEq

/-- The loop of which a phrase is a round and all rounds behind it. -/
def Phrase.loop? : Phrase → Option Loop
  | moreParameters _ => some .parameters
  | block _ => some .statements
  | moreTerms _ _ => some .terms
  | moreFactors _ _ => some .factors
  | moreArguments => some .arguments
  | parameters | statement | expression _ | term _ | factor _ | arguments => none

theorem Phrase.rank_eq_of_loop? {phrase phrase' : Phrase} {loop : Loop}
    (h : phrase.loop? = some loop) (h' : phrase'.loop? = some loop) : phrase.rank = phrase'.rank := by
  cases phrase <;> cases h <;> cases phrase' <;> cases h' <;> rfl

namespace Attempt

/-- The next round of a loop starts behind the first token of the round before it. -/
theorem Makes.behind_of_loop? {a b : Attempt} {loop : Loop} (h : a.Makes b)
    (ha : a.phrase.loop? = some loop) (hb : b.phrase.loop? = some loop) :
    Behind a.phrase.mode a.tokens b.tokens := by
  rcases h.behind_or_lower with hbehind | ⟨-, hlower⟩
  · exact hbehind
  · have := Phrase.rank_eq_of_loop? ha hb
    omega

/-! ## Moving on -/

/-- How an attempt moves on while all tokens are read. -/
structure Advances (all : List Token) (a : Attempt) : Prop where
  /-- It starts at one of the tokens or at their end. -/
  starts : a.tokens <:+ all
  /-- What it makes does not start before it. -/
  makes {b : Attempt} : a.Makes b → b.tokens <:+ a.tokens
  /-- The next round of a loop starts behind at least one token that counts. -/
  rounds {b : Attempt} {loop : Loop} : a.Makes b → a.phrase.loop? = some loop →
    b.phrase.loop? = some loop → Behind a.phrase.mode a.tokens b.tokens
  /-- What it leaves does not start before it. -/
  leaves {budget : Nat} {result : a.phrase.Result} {rest : List Token} :
    a.read budget = .ok (result, rest) → rest <:+ a.tokens
  /-- Unless it may read nothing, it leaves what is behind at least one token that counts. -/
  takes {budget : Nat} {result : a.phrase.Result} {rest : List Token} :
    a.phrase.takesToken = true → a.read budget = .ok (result, rest) →
      Behind a.phrase.mode a.tokens rest
  /-- A budget runs out only if attempts stand inside it as deep as that. -/
  exhausts {budget : Nat} : a.read budget = .error .budget →
    ∃ depth b, budget ≤ depth ∧ Within depth a b
  /-- Its weight is a budget that does not run out. -/
  enough {budget : Nat} : a.weight ≤ budget → a.read budget ≠ .error .budget

theorem Within.advances {depth : Nat} {a b : Attempt} (h : Within depth a b) :
    b.Advances a.tokens where
  starts := h.suffix
  makes := Makes.suffix
  rounds := Makes.behind_of_loop?
  leaves hread := (reads_of_read b.phrase hread).suffix
  takes ht hread := (reads_of_read b.phrase hread).behind ht
  exhausts hread :=
    let ⟨depth, c, hdepth, hwithin, _⟩ := exists_within_of_budget hread
    ⟨depth, c, hdepth, hwithin⟩
  enough := b.phrase.read_ne_budget b.tokens

theorem Within.depth_lt {depth : Nat} {tokens : List Token} {a : Attempt}
    (h : Within depth ⟨.block false, tokens⟩ a) : depth < readingBudget tokens.length := by
  have hle := h.depth_le
  simp only [weight, Phrase.rank] at hle
  unfold readingBudget
  omega

end Attempt

end Reading

open Reading

/-! ## Programs -/

/-- Any tokens are read as a program, or there is an error that is about the tokens; a larger budget
gives the same. Skipping separators goes on behind each of them. Every attempt that is made on the way
moves on, and none stands deeper than the budget, which is linear in the number of tokens. -/
theorem reading_ends (tokens : List Token) :
    ((∃ body, Node.ofTokens tokens = .ok (.program body)) ∨
      ∃ e, Node.ofTokens tokens = .error e ∧ e ≠ .budget) ∧
    (∀ budget, readingBudget tokens.length ≤ budget →
      block budget false tokens = block (readingBudget tokens.length) false tokens) ∧
    (∀ token left, isSeparator token = true →
      (token :: left).dropWhile isSeparator = left.dropWhile isSeparator) ∧
    ∀ depth attempt, Attempt.Within depth ⟨.block false, tokens⟩ attempt →
      depth < readingBudget tokens.length ∧ attempt.Advances tokens := by
  refine ⟨?_, fun budget hb => block_of_le hb false, fun token left => List.dropWhile_cons_of_pos,
    fun depth attempt h => ⟨h.depth_lt, h.advances⟩⟩
  cases hread : Node.ofTokens tokens with
  | ok program =>
    obtain ⟨body, rfl, -⟩ := ofTokens_eq_ok_iff.mp hread
    exact .inl ⟨body, rfl⟩
  | error e => exact .inr ⟨e, rfl, fun he => ofTokens_ne_budget tokens (he ▸ hread)⟩

/-- Tokens that are never scanned: a keyword that separates, a number without digits, an operator of
the name of a newline and an assignment to an empty name. -/
def strayTokens : List Token :=
  [⟨.keyword, ";", 1, 1⟩, ⟨.keyword, "print", 1, 2⟩, ⟨.number, "IDENT", 1, 3⟩,
    ⟨.operator, "NEWLINE", 1, 4⟩, ⟨.identifier, "", 1, 5⟩, ⟨.keyword, "=", 1, 6⟩]

/-- The operator ends the first statement, so that the second round starts there. Reading ends where
the tokens do. -/
theorem reading_ends_on_strays :
    Node.ofTokens strayTokens = .error .endOfExpression ∧
    Attempt.Makes ⟨.block false, strayTokens⟩ ⟨.block false, strayTokens.drop 3⟩ ∧
    Behind .counted strayTokens (strayTokens.drop 3) ∧
    ∀ budget, readingBudget 6 ≤ budget →
      block budget false strayTokens = block (readingBudget 6) false strayTokens := by
  have hstatement : (Phrase.statement).read 8 (strayTokens.dropWhile isSeparator) =
      .ok (.expression (.print (.numeral "IDENT")), strayTokens.drop 3) := by rfl
  have hmakes : Attempt.Makes ⟨.block false, strayTokens⟩ ⟨.block false, strayTokens.drop 3⟩ :=
    .nextStatement (by decide) (reads_of_read .statement hstatement) rfl (by decide)
  obtain ⟨-, hbudget, -, hattempts⟩ := reading_ends strayTokens
  exact ⟨by rfl, hmakes, (hattempts 0 _ .here).2.rounds hmakes rfl rfl, hbudget⟩

end Douro
