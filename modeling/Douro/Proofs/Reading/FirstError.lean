import Douro.Proofs.Reading.Completion
import Douro.Proofs.Reading.Lookahead

/-!
# The first token that cannot be right

An error at a token stays whatever is put behind that token, so no program starts with it. The tokens
before it are read to their end and can be completed. A list may hold the same token twice, so the
token that an error names is looked for from the front.

* `IsProgram`, `Viable`: tokens of a program, and tokens that a program may start with.
* `ofTokens_refused`: no program starts with the tokens up to one that an error names.
* `exists_first_refused`: the first such token has viable tokens before it.
* `syntax_errors_are_first`: the outcomes of reading, told apart.
-/

namespace Douro

namespace GrammarError

theorem message_of_atEnd {e : GrammarError} (h : e.AtEnd) :
    "unexpected end of input".toList <+: e.message.toList := by
  cases e with
  | endBefore expected =>
    have hstart : "unexpected end of input".toList <+:
        "unexpected end of input, expected ".toList := by decide
    have hmessage : (endBefore expected).message.toList =
        "unexpected end of input, expected ".toList ++ expected.toList := String.toList_append
    exact hmessage ▸ hstart.trans (List.prefix_append ..)
  | endOfExpression => decide
  | _ => exact h.elim

theorem position_of_atEnd {e : GrammarError} (h : e.AtEnd) : e.position = Position.unknown := by
  cases e with
  | endBefore _ | endOfExpression => rfl
  | _ => exact h.elim

/-- An error of the descent is about the end of the tokens or about one of them. -/
theorem atEnd_or_token {e : GrammarError} (h : e ≠ .budget) :
    e.AtEnd ∨ ∃ token, e.token? = some token := by
  cases e with
  | endBefore _ | endOfExpression => exact .inl trivial
  | mismatch _ found | unfinishedStatement found | misplaced found | duplicateParameter found =>
    exact .inr ⟨found, rfl⟩
  | budget => exact absurd rfl h

end GrammarError

/-- The tokens are those of a program. -/
def IsProgram (tokens : List Token) : Prop := ∃ program, Node.ofTokens tokens = .ok program

/-- Some more tokens make a program. -/
def Viable (tokens : List Token) : Prop :=
  ∃ more, (∀ token ∈ more, token.Spelled) ∧ IsProgram (tokens ++ more)

/-- The error says that the tokens end, and they can be completed. -/
def EndsTooSoon (tokens : List Token) : Prop :=
  ∃ e, Node.ofTokens tokens = .error e ∧ e.position = Position.unknown ∧
    "unexpected end of input".toList <+: e.message.toList ∧ Viable tokens

/-- The error has the position of a token. The tokens before it can be completed, those up to it
cannot, not even by tokens that are never scanned. -/
def RefusesToken (tokens : List Token) : Prop :=
  ∃ e, Node.ofTokens tokens = .error e ∧ ∃ k, ∃ hk : k < tokens.length,
    e.position = tokens[k].position ∧ Viable (tokens.take k) ∧
      ∀ more, ¬ IsProgram (tokens.take (k + 1) ++ more)

namespace Reading

theorem viable_of_isProgram {tokens : List Token} (h : IsProgram tokens) : Viable tokens :=
  ⟨[], nofun, by rwa [List.append_nil]⟩

/-- An error that names a token stays with a larger budget. -/
theorem read_error_of_le {phrase : Phrase} {tokens : List Token} {budget budget' : Nat}
    {e : GrammarError} {token : Token} (hb : budget ≤ budget')
    (h : phrase.read budget tokens = .error e) (he : e.token? = some token) :
    phrase.read budget' tokens = .error e := by
  obtain ⟨before, behind, rfl, hstay⟩ := (read_local hb phrase tokens).error h he
  exact (hstay behind).2

/-- No program starts with the tokens up to one that an error names, and the error stays with more
tokens behind all of them. -/
theorem ofTokens_refused {tokens : List Token} {e : GrammarError} {token : Token}
    (h : Node.ofTokens tokens = .error e) (he : e.token? = some token) :
    ∃ before behind, tokens = before ++ token :: behind ∧
      (∀ more, ¬ IsProgram (before ++ token :: more)) ∧
      ∀ more, Node.ofTokens (tokens ++ more) = .error e := by
  have hlocal := read_local (Nat.le_refl (readingBudget tokens.length)) (.block false) tokens
  obtain ⟨before, behind, ht, hstay⟩ := hlocal.error (ofTokens_eq_error_iff.mp h) he
  refine ⟨before, behind, ht, ?_, fun more => ?_⟩
  · rintro more ⟨program, hp⟩
    obtain ⟨body, -, hr⟩ := ofTokens_eq_ok_iff.mp hp
    -- Within a budget that is enough for both, the rules and the error disagree.
    have hok := read_of_reads hr (Nat.le_max_right (readingBudget tokens.length) _)
    rw [read_error_of_le (Nat.le_max_left ..) (hstay more).2 he] at hok
    cases hok
  · have hb : readingBudget tokens.length ≤ readingBudget (tokens ++ more).length := by
      simp only [readingBudget, List.length_append]
      omega
    rw [ofTokens_eq_error_iff]
    refine read_error_of_le hb ?_ he
    rw [ht, List.append_assoc, List.cons_append, ← ht]
    exact (hstay (behind ++ more)).2

/-- Of the tokens that are named by an error, the first one has viable tokens before it. -/
theorem exists_first_refused {tokens : List Token} {e : GrammarError} {token : Token}
    (hspelled : ∀ token ∈ tokens, token.Spelled) (h : Node.ofTokens tokens = .error e)
    (he : e.token? = some token) :
    ∃ before behind, tokens = before ++ token :: behind ∧ Viable before ∧
      ∀ more, ¬ IsProgram (before ++ token :: more) := by
  induction hn : tokens.length using Nat.strongRecOn generalizing tokens with
  | ind n ih =>
    obtain ⟨before, behind, rfl, hrefused, -⟩ := ofTokens_refused h he
    have hbefore : ∀ token ∈ before, token.Spelled := fun token ht =>
      hspelled token (List.mem_append_left _ ht)
    cases hout : Node.ofTokens before with
    | ok program => exact ⟨before, behind, rfl, viable_of_isProgram ⟨program, hout⟩, hrefused⟩
    | error e' =>
      have hbudget : e' ≠ .budget := fun heq => ofTokens_ne_budget before (heq ▸ hout)
      rcases GrammarError.atEnd_or_token hbudget with hend | ⟨token', he'⟩
      · exact ⟨before, behind, rfl, ofTokens_completes hbefore hout hend, hrefused⟩
      -- The error of the tokens before is that of all tokens, so it names the same token earlier.
      obtain ⟨-, -, -, -, hstay⟩ := ofTokens_refused hout he'
      have heq : e' = e := Except.error.inj ((hstay (token :: behind)).symm.trans h)
      have hlt : before.length < n := by
        rw [← hn, List.length_append, List.length_cons]
        omega
      obtain ⟨first, between, rfl, hviable, hfirst⟩ := ih _ hlt hbefore (heq ▸ hout) rfl
      exact ⟨first, between ++ token :: behind, by simp, hviable, hfirst⟩

end Reading

open Reading

/-- Tokens are a program, or they end too soon, or a token is refused that is the first one which
cannot be right. -/
theorem syntax_errors_are_first {tokens : List Token} (hspelled : ∀ token ∈ tokens, token.Spelled) :
    (IsProgram tokens ∨ EndsTooSoon tokens ∨ RefusesToken tokens) ∧
      ¬ (IsProgram tokens ∧ EndsTooSoon tokens) ∧ ¬ (IsProgram tokens ∧ RefusesToken tokens) ∧
      ¬ (EndsTooSoon tokens ∧ RefusesToken tokens) := by
  refine ⟨?_, ?_, ?_, ?_⟩
  · cases hout : Node.ofTokens tokens with
    | ok program => exact .inl ⟨program, hout⟩
    | error e =>
      have hbudget : e ≠ .budget := fun heq => ofTokens_ne_budget tokens (heq ▸ hout)
      rcases GrammarError.atEnd_or_token hbudget with hend | ⟨token, he⟩
      · exact .inr (.inl ⟨e, hout, GrammarError.position_of_atEnd hend,
          GrammarError.message_of_atEnd hend, ofTokens_completes hspelled hout hend⟩)
      · obtain ⟨before, behind, rfl, hviable, hrefused⟩ := exists_first_refused hspelled hout he
        refine .inr (.inr ⟨e, hout, before.length, by simp, ?_, ?_, fun more => ?_⟩)
        · rw [GrammarError.position_eq he, List.getElem_append_right (Nat.le_refl _)]
          simp
        · rwa [List.take_left]
        · rw [List.take_length_add_append, List.append_assoc]
          exact hrefused more
  · rintro ⟨⟨program, hp⟩, e, he, -⟩
    rw [hp] at he
    cases he
  · rintro ⟨⟨program, hp⟩, e, he, -⟩
    rw [hp] at he
    cases he
  · rintro ⟨⟨e, he, hposition, -⟩, e', he', k, hk, hposition', -⟩
    rw [he] at he'
    cases he'
    rw [hposition] at hposition'
    cases hposition'

/-- A parenthesis behind a comma is refused, whatever stands behind it. A body without its
parenthesis ends too soon. -/
theorem syntax_errors_are_first_in_calls :
    (∃ tokens, scanSource "f(1,\n) + 2" = .ok tokens ∧ (∀ token ∈ tokens, token.Spelled) ∧
      Node.ofTokens tokens = .error (.misplaced ⟨.punctuation, ")", 2, 1⟩) ∧ RefusesToken tokens) ∧
    ∃ tokens, scanSource "g = function(a) (a" = .ok tokens ∧ (∀ token ∈ tokens, token.Spelled) ∧
      Node.ofTokens tokens = .error (.endBefore ")") ∧ EndsTooSoon tokens := by
  obtain ⟨tokens, hscan, herror⟩ : ∃ tokens, scanSource "f(1,\n) + 2" = .ok tokens ∧
      Node.ofTokens tokens = .error (.misplaced ⟨.punctuation, ")", 2, 1⟩) :=
    ⟨[⟨.identifier, "f", 1, 1⟩, ⟨.punctuation, "(", 1, 2⟩, ⟨.number, "1", 1, 3⟩,
      ⟨.punctuation, ",", 1, 4⟩, ⟨.newline, "\n", 1, 5⟩, ⟨.punctuation, ")", 2, 1⟩,
      ⟨.operator, "+", 2, 3⟩, ⟨.number, "2", 2, 5⟩], by with_unfolding_all rfl, rfl⟩
  obtain ⟨tokens', hscan', herror'⟩ : ∃ tokens, scanSource "g = function(a) (a" = .ok tokens ∧
      Node.ofTokens tokens = .error (.endBefore ")") :=
    ⟨[⟨.identifier, "g", 1, 1⟩, ⟨.punctuation, "=", 1, 3⟩, ⟨.keyword, "function", 1, 5⟩,
      ⟨.punctuation, "(", 1, 13⟩, ⟨.identifier, "a", 1, 14⟩, ⟨.punctuation, ")", 1, 15⟩,
      ⟨.punctuation, "(", 1, 17⟩, ⟨.identifier, "a", 1, 18⟩], by with_unfolding_all rfl, rfl⟩
  have hspelled := scanSource_spelled hscan
  have hspelled' := scanSource_spelled hscan'
  refine ⟨⟨tokens, hscan, hspelled, herror, ?_⟩, tokens', hscan', hspelled', herror', ?_⟩
  · rcases (syntax_errors_are_first hspelled).1 with ⟨program, h⟩ | ⟨e, h, hposition, -⟩ | h
    · rw [herror] at h
      cases h
    · rw [herror] at h
      cases h
      cases hposition
    · exact h
  · rcases (syntax_errors_are_first hspelled').1 with ⟨program, h⟩ | h | ⟨e, h, k, hk, hposition, -⟩
    · rw [herror'] at h
      cases h
    · exact h
    · rw [herror'] at h
      cases h
      cases hposition

end Douro
