import Douro.Proofs.Reading.Attempt

/-!
# The budget of the descent is enough

No more than five reading functions call each other before a token is taken. So the budget that
`readingBudget` gives is never used up, and a program is read exactly if the rules of `Reads` read
it.

* `read_of_reads`: within the budget for its tokens, a phrase is read as the rules read it.
* `Phrase.read_lessBudget`: a larger budget gives the same outcome, if the smaller one is enough.
* `ofTokens_eq_ok_iff`, `ofTokens_eq_error_iff`, `ofTokens_ne_budget`: the same for whole programs.
* `ofSource_eq_ok_iff`, `ofSource_eq_error_iff`: the same for sources, through their tokens.
-/

namespace Douro

namespace Reading

/-! ## From the rules to the functions -/

private theorem exists_succ_of_le {n rank budget : Nat} (h : 8 * n + (rank + 1) ≤ budget) :
    ∃ k, budget = k + 1 ∧ 8 * n + rank ≤ k := ⟨budget - 1, by omega, by omega⟩

private theorem length_dropWhile_le (tokens : List Token) :
    (tokens.dropWhile isSeparator).length ≤ tokens.length :=
  (List.dropWhile_suffix _).length_le

theorem read_of_reads {phrase : Phrase} {tokens rest : List Token} {result : phrase.Result}
    (h : Reads phrase tokens result rest) {budget : Nat}
    (hb : 8 * tokens.length + phrase.rank ≤ budget) :
    phrase.read budget tokens = .ok (result, rest) := by
  induction h generalizing budget with
  | noParameters he ha =>
    show parameters budget _ = _
    simp only [parameters, he, bind, Except.bind, ha]
  | someParameters he ha hp _ ih =>
    have := (Behind.of_expect he).length_lt
    have := (Behind.of_parameter hp).length_lt
    have e := @ih budget (by simp only [Phrase.rank] at *; omega)
    show parameters budget _ = _
    simp only [parameters, he, bind, Except.bind, ha, hp]
    exact e
  | nextParameter ha hp _ ih =>
    obtain ⟨k, rfl, hk⟩ := exists_succ_of_le hb
    have := (Behind.of_accept? ha).length_lt
    have := (Behind.of_parameter hp).length_lt
    have e := @ih k (by simp only [Phrase.rank] at *; omega)
    show moreParameters (k + 1) _ _ = _
    simp only [moreParameters, ha, hp, bind, Except.bind]
    exact e
  | lastParameter ha he =>
    obtain ⟨k, rfl, -⟩ := exists_succ_of_le hb
    show moreParameters (k + 1) _ _ = _
    simp only [moreParameters, ha, he, bind, Except.bind]
  | emptyBlock hend =>
    obtain ⟨k, rfl, -⟩ := exists_succ_of_le hb
    show block (k + 1) _ _ = _
    rw [block, if_pos hend]
  | @lastStatement _ tokens _ _ hend _ hend' ih =>
    obtain ⟨k, rfl, hk⟩ := exists_succ_of_le hb
    have := length_dropWhile_le tokens
    have e : statement k _ = _ := ih (by simp only [Phrase.rank] at *; omega)
    show block (k + 1) _ _ = _
    rw [block, if_neg (by simpa using hend), e]
    simp only [bind, Except.bind, hend', if_true]
  | @nextStatement _ tokens _ _ _ _ _ hend hs hend' hsep _ ih ih' =>
    obtain ⟨k, rfl, hk⟩ := exists_succ_of_le hb
    have := length_dropWhile_le tokens
    have := hs.length_lt rfl
    have e₁ : statement k _ = _ := ih (by simp only [Phrase.rank] at *; omega)
    have e₂ : block k _ _ = _ := ih' (by simp only [Phrase.rank] at *; omega)
    show block (k + 1) _ _ = _
    rw [block, if_neg (by simpa using hend), e₁]
    simp only [bind, Except.bind, hend', hsep, if_true, e₂]
    rfl
  | assign hkind ha _ ih =>
    obtain ⟨k, rfl, hk⟩ := exists_succ_of_le hb
    have e : expression k _ _ = _ := ih (by simp only [Phrase.rank, List.length_cons] at *; omega)
    show statement (k + 1) (_ :: _ :: _) = _
    rw [statement, if_pos ⟨hkind, ha⟩, e]
    rfl
  | evaluate ha _ ih =>
    obtain ⟨k, rfl, hk⟩ := exists_succ_of_le hb
    have e : expression k _ _ = _ := ih (by simp only [Phrase.rank] at *; omega)
    show statement (k + 1) _ = _
    rw [statement_eq_of_not_assigns ha, e]
    rfl
  | expression ht _ ih ih' =>
    obtain ⟨k, rfl, hk⟩ := exists_succ_of_le hb
    have := ht.length_lt rfl
    have e₁ : term k _ _ = _ := ih (by simp only [Phrase.rank] at *; omega)
    have e₂ : moreTerms k _ _ _ = _ := ih' (by simp only [Phrase.rank] at *; omega)
    show expression (k + 1) _ _ = _
    rw [expression, e₁]
    exact e₂
  | lastTerm hs =>
    obtain ⟨k, rfl, -⟩ := exists_succ_of_le hb
    show moreTerms (k + 1) _ _ _ = _
    rw [moreTerms]
    split
    · rfl
    · next op rest hop => exact if_neg (by simpa [addsTerm] using hs op rest hop)
  | nextTerm hs hop ht _ ih ih' =>
    obtain ⟨k, rfl, hk⟩ := exists_succ_of_le hb
    have := (Behind.of_settle hs).length_lt
    have := ht.length_lt rfl
    have e₁ : term k _ _ = _ := ih (by simp only [Phrase.rank] at *; omega)
    have e₂ : moreTerms k _ _ _ = _ := ih' (by simp only [Phrase.rank] at *; omega)
    show moreTerms (k + 1) _ _ _ = _
    simp only [moreTerms, hs]
    rw [addsTerm] at hop
    rw [if_pos hop, e₁]
    exact e₂
  | term ht _ ih ih' =>
    obtain ⟨k, rfl, hk⟩ := exists_succ_of_le hb
    have := ht.length_lt rfl
    have e₁ : factor k _ _ = _ := ih (by simp only [Phrase.rank] at *; omega)
    have e₂ : moreFactors k _ _ _ = _ := ih' (by simp only [Phrase.rank] at *; omega)
    show term (k + 1) _ _ = _
    rw [term, e₁]
    exact e₂
  | lastFactor hs =>
    obtain ⟨k, rfl, -⟩ := exists_succ_of_le hb
    show moreFactors (k + 1) _ _ _ = _
    rw [moreFactors]
    split
    · rfl
    · next op rest hop => exact if_neg (by simpa [addsFactor] using hs op rest hop)
  | nextFactor hs hop ht _ ih ih' =>
    obtain ⟨k, rfl, hk⟩ := exists_succ_of_le hb
    have := (Behind.of_settle hs).length_lt
    have := ht.length_lt rfl
    have e₁ : factor k _ _ = _ := ih (by simp only [Phrase.rank] at *; omega)
    have e₂ : moreFactors k _ _ _ = _ := ih' (by simp only [Phrase.rank] at *; omega)
    show moreFactors (k + 1) _ _ _ = _
    simp only [moreFactors, hs]
    rw [addsFactor] at hop
    rw [if_pos hop, e₁]
    exact e₂
  | number hs hk =>
    obtain ⟨k, rfl, -⟩ := exists_succ_of_le hb
    show factor (k + 1) _ _ = _
    simp only [factor, hs, hk, if_true]
  | call hs hkind ha _ ih =>
    obtain ⟨k, rfl, hk⟩ := exists_succ_of_le hb
    have := (Behind.of_settle hs).length_lt
    have := (Behind.of_accept? ha).length_lt
    have e : arguments k _ = _ := ih (by simp only [Phrase.rank] at *; omega)
    show factor (k + 1) _ _ = _
    simp only [factor, hs, hkind, ha, e, if_true, reduceCtorEq, if_false]
    rfl
  | lookup hs hkind ha =>
    obtain ⟨k, rfl, -⟩ := exists_succ_of_le hb
    show factor (k + 1) _ _ = _
    simp only [factor, hs, hkind, ha, if_true, reduceCtorEq, if_false]
  | print hs hn hi hp _ ih =>
    obtain ⟨k, rfl, hk⟩ := exists_succ_of_le hb
    have := (Behind.of_settle hs).length_lt
    have e : expression k _ _ = _ := ih (by simp only [Phrase.rank] at *; omega)
    show factor (k + 1) _ _ = _
    simp only [factor, hs, hn, hi, hp, e, if_true, if_false]
    rfl
  | function hs hn hi hp hf hparams ho _ hc ih ih' =>
    obtain ⟨k, rfl, hk⟩ := exists_succ_of_le hb
    have := (Behind.of_settle hs).length_lt
    have := hparams.length_lt rfl
    have := (Behind.of_expect ho).length_lt
    have e₁ : parameters k _ = _ := ih (by simp only [Phrase.rank] at *; omega)
    have e₂ : block k _ _ = _ := ih' (by simp only [Phrase.rank] at *; omega)
    show factor (k + 1) _ _ = _
    simp only [factor, hs, hn, hi, hp, hf, e₁, if_true, if_false, bind, Except.bind, ho, e₂, hc,
      Bool.false_eq_true]
  | group hs hn hi hp hf hg _ hc ih =>
    obtain ⟨k, rfl, hk⟩ := exists_succ_of_le hb
    have := (Behind.of_settle hs).length_lt
    have e : expression k _ _ = _ := ih (by simp only [Phrase.rank] at *; omega)
    show factor (k + 1) _ _ = _
    simp only [factor, hs, hn, hi, hp, hf, hg, e, if_true, if_false, bind, Except.bind, hc,
      Bool.false_eq_true]
  | noArguments ha =>
    obtain ⟨k, rfl, -⟩ := exists_succ_of_le hb
    show arguments (k + 1) _ = _
    simp only [arguments, ha]
  | someArguments ha he _ ih ih' =>
    obtain ⟨k, rfl, hk⟩ := exists_succ_of_le hb
    have := he.length_lt rfl
    have e₁ : expression k _ _ = _ := ih (by simp only [Phrase.rank] at *; omega)
    have e₂ : moreArguments k _ = _ := ih' (by simp only [Phrase.rank] at *; omega)
    show arguments (k + 1) _ = _
    simp only [arguments, ha, e₁, bind, Except.bind, e₂]
  | nextArgument ha he _ ih ih' =>
    obtain ⟨k, rfl, hk⟩ := exists_succ_of_le hb
    have := (Behind.of_accept? ha).length_lt
    have := he.length_lt rfl
    have e₁ : expression k _ _ = _ := ih (by simp only [Phrase.rank] at *; omega)
    have e₂ : moreArguments k _ = _ := ih' (by simp only [Phrase.rank] at *; omega)
    show moreArguments (k + 1) _ = _
    simp only [moreArguments, ha, e₁, bind, Except.bind, e₂]
  | lastArgument ha he =>
    obtain ⟨k, rfl, -⟩ := exists_succ_of_le hb
    show moreArguments (k + 1) _ = _
    simp only [moreArguments, ha, he, bind, Except.bind]

/-! ## Larger budgets -/

/-- The first outcome lacks budget, or it is the second. -/
def LessBudget {α : Type} (x y : Except GrammarError α) : Prop := x = .error .budget ∨ x = y

namespace LessBudget

theorem refl {α : Type} (x : Except GrammarError α) : LessBudget x x := .inr rfl

theorem bind {α β : Type} {x y : Except GrammarError α} {f g : α → Except GrammarError β}
    (h : LessBudget x y) (hf : ∀ a, LessBudget (f a) (g a)) : LessBudget (x >>= f) (y >>= g) := by
  rcases h with rfl | rfl
  · exact .inl rfl
  cases x with
  | error e => exact refl _
  | ok a => exact hf a

end LessBudget

/-- What is read within the first budget is read within the second. -/
private def LessBudgetWithin (n m : Nat) : Prop :=
  ∀ (phrase : Phrase) (tokens : List Token), LessBudget (phrase.read n tokens) (phrase.read m tokens)

section Succ

variable {n m : Nat} (ih : LessBudgetWithin n m) {tokens : List Token}

private theorem parameters_lessBudget
    (ih : ∀ seen tokens, LessBudget (moreParameters n seen tokens) (moreParameters m seen tokens)) :
    LessBudget (parameters n tokens) (parameters m tokens) := by
  refine .bind (.refl _) fun read => ?_
  simp only
  split
  · exact .refl _
  · exact .bind (.refl _) fun read => ih _ _

include ih

private theorem moreParameters_lessBudget (seen : List String) :
    LessBudget (moreParameters (n + 1) seen tokens) (moreParameters (m + 1) seen tokens) := by
  rw [moreParameters, moreParameters]
  split
  · exact .bind (.refl _) fun read => ih (.moreParameters _) _
  · exact .refl _

private theorem block_lessBudget (closed : Bool) :
    LessBudget (block (n + 1) closed tokens) (block (m + 1) closed tokens) := by
  rw [block, block]
  simp only
  split
  · exact .refl _
  refine .bind (ih .statement _) fun read => ?_
  obtain ⟨node, rest⟩ := read
  simp only
  split
  · exact .refl _
  cases rest with
  | nil => exact .refl _
  | cons token rest =>
    simp only
    split
    · exact .bind (ih (.block closed) _) fun _ => .refl _
    · exact .refl _

private theorem statement_lessBudget : LessBudget (statement (n + 1) tokens) (statement (m + 1) tokens) := by
  rw [statement.eq_def, statement.eq_def]
  simp only
  split
  · split
    · exact .bind (ih (.expression .counted) _) fun _ => .refl _
    · exact .bind (ih (.expression .counted) _) fun _ => .refl _
  · exact .bind (ih (.expression .counted) _) fun _ => .refl _

private theorem expression_lessBudget (mode : LineMode) :
    LessBudget (expression (n + 1) mode tokens) (expression (m + 1) mode tokens) := by
  rw [expression, expression]
  exact .bind (ih (.term mode) _) fun read => ih (.moreTerms mode read.1) _

private theorem term_lessBudget (mode : LineMode) :
    LessBudget (term (n + 1) mode tokens) (term (m + 1) mode tokens) := by
  rw [term, term]
  exact .bind (ih (.factor mode) _) fun read => ih (.moreFactors mode read.1) _

private theorem moreTerms_lessBudget (mode : LineMode) (left : Node) :
    LessBudget (moreTerms (n + 1) mode left tokens) (moreTerms (m + 1) mode left tokens) := by
  rw [moreTerms, moreTerms]
  split
  · exact .refl _
  split
  · exact .bind (ih (.term mode) _) fun read => ih (.moreTerms mode _) _
  · exact .refl _

private theorem moreFactors_lessBudget (mode : LineMode) (left : Node) :
    LessBudget (moreFactors (n + 1) mode left tokens) (moreFactors (m + 1) mode left tokens) := by
  rw [moreFactors, moreFactors]
  split
  · exact .refl _
  split
  · exact .bind (ih (.factor mode) _) fun read => ih (.moreFactors mode _) _
  · exact .refl _

private theorem factor_lessBudget (mode : LineMode) :
    LessBudget (factor (n + 1) mode tokens) (factor (m + 1) mode tokens) := by
  rw [factor, factor]
  split
  · exact .refl _
  split
  · exact .refl _
  split
  · split
    · exact .bind (ih .arguments _) fun _ => .refl _
    · exact .refl _
  split
  · exact .bind (ih (.expression mode) _) fun _ => .refl _
  split
  · refine .bind (ih .parameters _) fun _ => .bind (.refl _) fun _ => ?_
    exact .bind (ih (.block true) _) fun _ => .refl _
  split
  · exact .bind (ih (.expression .ignored) _) fun _ => .refl _
  · exact .refl _

private theorem arguments_lessBudget : LessBudget (arguments (n + 1) tokens) (arguments (m + 1) tokens) := by
  rw [arguments, arguments]
  split
  · exact .refl _
  · exact .bind (ih (.expression .ignored) _) fun _ => .bind (ih .moreArguments _) fun _ => .refl _

private theorem moreArguments_lessBudget :
    LessBudget (moreArguments (n + 1) tokens) (moreArguments (m + 1) tokens) := by
  rw [moreArguments, moreArguments]
  split
  · exact .bind (ih (.expression .ignored) _) fun _ => .bind (ih .moreArguments _) fun _ => .refl _
  · exact .refl _

end Succ

/-- A larger budget gives the same outcome, if the smaller one is enough. -/
theorem Phrase.read_lessBudget {n m : Nat} (h : n ≤ m) (phrase : Phrase) (tokens : List Token) :
    LessBudget (phrase.read n tokens) (phrase.read m tokens) := by
  induction n generalizing m phrase tokens with
  | zero =>
    cases phrase with
    | parameters => exact parameters_lessBudget fun _ _ => .inl rfl
    | _ => exact .inl rfl
  | succ n ih =>
    obtain ⟨m, rfl⟩ : ∃ k, m = k + 1 := ⟨m - 1, by omega⟩
    have ih : LessBudgetWithin n m := ih (by omega)
    cases phrase with
    | parameters => exact parameters_lessBudget fun seen _ => moreParameters_lessBudget ih seen
    | moreParameters seen => exact moreParameters_lessBudget ih seen
    | block closed => exact block_lessBudget ih closed
    | statement => exact statement_lessBudget ih
    | expression mode => exact expression_lessBudget ih mode
    | moreTerms mode left => exact moreTerms_lessBudget ih mode left
    | term mode => exact term_lessBudget ih mode
    | moreFactors mode left => exact moreFactors_lessBudget ih mode left
    | factor mode => exact factor_lessBudget ih mode
    | arguments => exact arguments_lessBudget ih
    | moreArguments => exact moreArguments_lessBudget ih

/-! ## Programs -/

private theorem block_rank_le_readingBudget (tokens : List Token) (closed : Bool) :
    8 * tokens.length + (Phrase.block closed).rank ≤ readingBudget tokens.length := by
  simp only [Phrase.rank, readingBudget]
  omega

theorem rest_eq_nil_of_blockEnds {tokens : List Token} (h : blockEnds false tokens = true) :
    tokens = [] := by
  cases tokens with
  | nil => rfl
  | cons token rest => simp [blockEnds] at h

/-- The end of a block stands behind it. -/
theorem Reads.blockEnds {closed : Bool} {tokens rest : List Token} {nodes : List Node}
    (h : Reads (.block closed) tokens nodes rest) : Reading.blockEnds closed rest = true := by
  have key : ∀ {phrase tokens rest} {result : phrase.Result}, Reads phrase tokens result rest →
      phrase = .block closed → Reading.blockEnds closed rest = true := by
    intro phrase tokens rest result h
    induction h with
    | emptyBlock hend => rintro ⟨⟩; exact hend
    | lastStatement _ _ hend _ => rintro ⟨⟩; exact hend
    | nextStatement _ _ _ _ _ _ ih => rintro ⟨⟩; exact ih rfl
    | _ => rintro ⟨⟩
  exact key h rfl

/-- A list of tokens is a program exactly if the rules read it as one. -/
theorem ofTokens_eq_ok_iff {tokens : List Token} {program : Node} :
    Node.ofTokens tokens = .ok program ↔
      ∃ body, program = .program body ∧ Reads (.block false) tokens body [] := by
  constructor
  · intro h
    unfold Node.ofTokens at h
    cases hr : block (readingBudget tokens.length) false tokens with
    | error e => rw [hr] at h; cases h
    | ok read =>
      obtain ⟨body, rest⟩ := read
      rw [hr] at h
      cases h
      have hr : (Phrase.block false).read (readingBudget tokens.length) tokens = .ok (body, rest) := hr
      have hreads := reads_of_read _ hr
      have hrest := rest_eq_nil_of_blockEnds hreads.blockEnds
      exact ⟨body, rfl, hrest ▸ hreads⟩
  · rintro ⟨body, rfl, h⟩
    have hr : block (readingBudget tokens.length) false tokens = .ok (body, []) :=
      read_of_reads h (block_rank_le_readingBudget tokens false)
    unfold Node.ofTokens
    rw [hr]
    rfl

/-- Reading a program fails as reading its statements does. -/
theorem ofTokens_eq_error_iff {tokens : List Token} {e : GrammarError} :
    Node.ofTokens tokens = .error e ↔
      (Phrase.block false).read (readingBudget tokens.length) tokens = .error e := by
  show Node.ofTokens tokens = .error e ↔ block (readingBudget tokens.length) false tokens = .error e
  unfold Node.ofTokens
  cases block (readingBudget tokens.length) false tokens with
  | error e' => simp [bind, Except.bind]
  | ok read => exact ⟨nofun, nofun⟩

/-- No larger budget changes what the statements of a program are read as. -/
theorem block_of_le {tokens : List Token} {budget : Nat}
    (h : readingBudget tokens.length ≤ budget) (closed : Bool) :
    block budget closed tokens = block (readingBudget tokens.length) closed tokens := by
  rcases (Phrase.block closed).read_lessBudget h tokens with hbudget | hsame
  · exact absurd hbudget
      ((Phrase.block closed).read_ne_budget tokens (block_rank_le_readingBudget tokens closed))
  · exact hsame.symm

/-- Reading a program never runs out of its budget. -/
theorem ofTokens_ne_budget (tokens : List Token) : Node.ofTokens tokens ≠ .error .budget :=
  bind_ne_budget ((Phrase.block false).read_ne_budget tokens (block_rank_le_readingBudget tokens false))
    fun _ _ => ok_ne_budget _

/-! ## Sources -/

theorem ofSource_eq_ok_iff {source : String} {program : Node} :
    Node.ofSource source = .ok program ↔
      ∃ tokens, scanSource source = .ok tokens ∧ Node.ofTokens tokens = .ok program := by
  unfold Node.ofSource
  cases scanSource source with
  | error e => simp
  | ok tokens =>
    show (Node.ofTokens tokens).mapError SourceError.grammar = .ok program ↔ _
    cases hread : Node.ofTokens tokens with
    | ok read =>
      show Except.ok read = .ok program ↔ _
      simp [hread]
    | error e =>
      show Except.error (SourceError.grammar e) = .ok program ↔ _
      simp [hread]

theorem ofSource_eq_error_iff {source : String} {error : SourceError} :
    Node.ofSource source = .error error ↔
      (∃ e, scanSource source = .error e ∧ error = .lexical e) ∨
        ∃ tokens e, scanSource source = .ok tokens ∧ Node.ofTokens tokens = .error e ∧
          error = .grammar e := by
  unfold Node.ofSource
  cases scanSource source with
  | error e => simp [eq_comm]
  | ok tokens =>
    show (Node.ofTokens tokens).mapError SourceError.grammar = .error error ↔ _
    cases hread : Node.ofTokens tokens with
    | ok read =>
      show Except.ok read = .error error ↔ _
      simp [hread]
    | error e =>
      show Except.error (.grammar e) = .error error ↔ _
      simp [hread, eq_comm]

end Reading

end Douro
