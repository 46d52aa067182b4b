import Douro.Proofs.Reading.Acceptance

/-!
# How far reading looks ahead

A reading function looks at no more than the next token behind those that it takes. With other tokens
there that have the same next one, it takes the same. An error that names a token depends on nothing
behind that token.

* `Locality`: what one outcome of a reading function says about its outcomes on other tokens.
* `Locality.bind`, `Locality.advance`, `Locality.of_next`, …: the rules for the steps of a function.
* `read_local`: every reading function obeys it.
-/

namespace Douro

/-- The token that an error names. -/
def GrammarError.token? : GrammarError → Option Token
  | mismatch _ found | unfinishedStatement found | misplaced found | duplicateParameter found =>
    some found
  | endBefore _ | endOfExpression | budget => none

theorem GrammarError.position_eq {e : GrammarError} {token : Token} (h : e.token? = some token) :
    e.position = token.position := by
  cases e <;> cases h <;> rfl

namespace Reading

/-! ## The next token -/

/-- The next token that counts. -/
def next? (mode : LineMode) (tokens : List Token) : Option Token := (settle mode tokens).head?

section Next

variable {mode : LineMode} {token : Token} {tokens tokens' rest : List Token} {word : String}

theorem next?_eq_some (h : next? mode tokens = some token) :
    settle mode tokens = token :: (settle mode tokens).tail := by
  unfold next? at h
  cases hs : settle mode tokens with
  | nil =>
    rw [hs] at h
    cases h
  | cons first rest =>
    rw [hs] at h
    cases h
    rfl

theorem next?_of_settle (h : settle mode tokens = token :: rest) : next? mode tokens = some token := by
  rw [next?, h]
  rfl

/-- Where newlines do not count, the next token is not one of them. -/
theorem kind_ne_newline_of_settle (h : settle .ignored tokens = token :: rest) :
    token.kind ≠ .newline := by
  have hhead := List.head?_dropWhile_not (fun token => token.kind = .newline) tokens
  rw [show List.dropWhile _ tokens = token :: rest from h] at hhead
  simpa using hhead

/-- The next token stays the next one, whatever stands behind it. -/
theorem exists_settle (h : settle mode tokens = token :: rest) :
    ∃ gap, tokens = gap ++ token :: rest ∧
      ∀ rest', settle mode (gap ++ token :: rest') = token :: rest' := by
  obtain ⟨gap, rfl, hg⟩ := exists_gap_of_settle h
  refine ⟨gap, rfl, fun rest' => ?_⟩
  cases mode with
  | counted =>
    cases hg
    rfl
  | ignored => exact settle_gap hg (kind_ne_newline_of_settle h)

theorem next?_append (front : List Token) (h : next? mode tokens = next? mode tokens') :
    next? mode (front ++ tokens) = next? mode (front ++ tokens') := by
  cases mode with
  | counted =>
    cases front with
    | nil => exact h
    | cons token front => rfl
  | ignored =>
    induction front with
    | nil => exact h
    | cons token front ih =>
      simp only [next?, settle, List.cons_append, List.dropWhile_cons]
      split
      · exact ih
      · rfl

theorem accept?_of_next (h : next? mode tokens = some token) (ha : token.answers word = true) :
    accept? mode word tokens = some (settle mode tokens).tail := by
  rw [accept?, next?_eq_some h]
  exact if_pos ha

theorem accept?_eq_none_of_next (h : next? mode tokens = next? mode tokens')
    (ha : accept? mode word tokens' = none) : accept? mode word tokens = none := by
  unfold accept? at ha ⊢
  unfold next? at h
  cases hs : settle mode tokens with
  | nil => rfl
  | cons token rest =>
    cases hs' : settle mode tokens' with
    | nil =>
      rw [hs, hs'] at h
      cases h
    | cons token' rest' =>
      rw [hs, hs'] at h
      cases h
      rw [hs'] at ha
      by_cases hw : token.answers word = true
      · simp only [hw, if_true] at ha
        cases ha
      · exact if_neg hw

end Next

/-! ## Locality -/

/-- A function that reads something at the front of some tokens. -/
abbrev Reader (α : Type) := List Token → Except GrammarError (α × List Token)

/-- What the outcome of `f` on some tokens says about the outcomes of `g`. If `f` takes some tokens,
`g` takes them too, whatever stands behind them with the same next token in the mode `exit`, if there
is one. If `f` fails at a token, `g` fails there too, whatever stands behind it. Neither can change
the next token in the mode `entry`. -/
structure Locality {α : Type} (entry : LineMode) (exit : Option LineMode) (f g : Reader α)
    (tokens : List Token) : Prop where
  ok {a : α} {rest : List Token} : f tokens = .ok (a, rest) →
    ∃ taken, tokens = taken ++ rest ∧ ∀ rest', (∀ mode ∈ exit, next? mode rest' = next? mode rest) →
      next? entry (taken ++ rest') = next? entry tokens ∧ g (taken ++ rest') = .ok (a, rest')
  error {e : GrammarError} {token : Token} : f tokens = .error e → e.token? = some token →
    ∃ before behind, tokens = before ++ token :: behind ∧ ∀ behind',
      next? entry (before ++ token :: behind') = next? entry tokens ∧
        g (before ++ token :: behind') = .error e

namespace Locality

variable {α β : Type} {entry entry' : LineMode} {exit exit' : Option LineMode} {f g f' g' : Reader α}
  {tokens rest : List Token} {token : Token} {e : GrammarError}

/-- Only the next token decides what to do. -/
theorem of_next (h : Locality entry exit f' g' tokens) (hf : f tokens = f' tokens)
    (hg : ∀ tokens', next? entry tokens' = next? entry tokens → g tokens' = g' tokens') :
    Locality entry exit f g tokens where
  ok hok := by
    obtain ⟨taken, ht, hstay⟩ := h.ok (hf ▸ hok)
    refine ⟨taken, ht, fun rest' hr => ?_⟩
    obtain ⟨hnext, hout⟩ := hstay rest' hr
    exact ⟨hnext, (hg _ hnext).trans hout⟩
  error herr htoken := by
    obtain ⟨before, behind, ht, hstay⟩ := h.error (hf ▸ herr) htoken
    refine ⟨before, behind, ht, fun behind' => ?_⟩
    obtain ⟨hnext, hout⟩ := hstay behind'
    exact ⟨hnext, (hg _ hnext).trans hout⟩

/-- One step behind another. The second one starts where the first one looks. -/
theorem bind {k k' : α × List Token → Except GrammarError (β × List Token)}
    (h : Locality entry exit' f g tokens) (he : ∀ mode ∈ exit', mode = entry')
    (hk : ∀ a rest, f tokens = .ok (a, rest) →
      Locality entry' exit (fun rest => k (a, rest)) (fun rest => k' (a, rest)) rest) :
    Locality entry exit (fun tokens => f tokens >>= k) (fun tokens => g tokens >>= k') tokens where
  ok {b rest₂} hok := by
    cases hf : f tokens with
    | error e =>
      rw [hf] at hok
      cases hok
    | ok read =>
      obtain ⟨a, rest₁⟩ := read
      rw [hf] at hok
      obtain ⟨taken, rfl, hstay⟩ := h.ok hf
      obtain ⟨taken', rfl, hstay'⟩ := (hk a rest₁ hf).ok hok
      refine ⟨taken ++ taken', (List.append_assoc ..).symm, fun rest' hr => ?_⟩
      obtain ⟨hnext', hout'⟩ := hstay' rest' hr
      obtain ⟨hnext, hout⟩ := hstay (taken' ++ rest') fun mode hm => he mode hm ▸ hnext'
      rw [List.append_assoc]
      refine ⟨hnext, ?_⟩
      rw [hout]
      exact hout'
  error {e token} herr htoken := by
    cases hf : f tokens with
    | error e' =>
      rw [hf] at herr
      cases herr
      obtain ⟨before, behind, ht, hstay⟩ := h.error hf htoken
      refine ⟨before, behind, ht, fun behind' => ?_⟩
      obtain ⟨hnext, hout⟩ := hstay behind'
      refine ⟨hnext, ?_⟩
      rw [hout]
      rfl
    | ok read =>
      obtain ⟨a, rest₁⟩ := read
      rw [hf] at herr
      obtain ⟨taken, rfl, hstay⟩ := h.ok hf
      obtain ⟨before, behind, rfl, hstay'⟩ := (hk a rest₁ hf).error herr htoken
      refine ⟨taken ++ before, behind, (List.append_assoc ..).symm, fun behind' => ?_⟩
      obtain ⟨hnext', hout'⟩ := hstay' behind'
      obtain ⟨hnext, hout⟩ := hstay (before ++ token :: behind') fun mode hm => he mode hm ▸ hnext'
      rw [List.append_assoc]
      refine ⟨hnext, ?_⟩
      rw [hout]
      exact hout'

/-- One step behind another that looks at its first token. -/
theorem andThen {k k' : α × List Token → Except GrammarError (β × List Token)}
    (h : Locality entry (some entry') f g tokens)
    (hk : ∀ a rest, f tokens = .ok (a, rest) →
      Locality entry' exit (fun rest => k (a, rest)) (fun rest => k' (a, rest)) rest) :
    Locality entry exit (fun tokens => f tokens >>= k) (fun tokens => g tokens >>= k') tokens :=
  h.bind (by rintro mode ⟨⟩; rfl) hk

/-- A step that only changes the result. -/
theorem map {k : α × List Token → Except GrammarError (β × List Token)} {change : α → β}
    (h : Locality entry exit f g tokens) (hk : ∀ a rest, k (a, rest) = .ok (change a, rest)) :
    Locality entry exit (fun tokens => f tokens >>= k) (fun tokens => g tokens >>= k) tokens where
  ok {b rest} hok := by
    cases hf : f tokens with
    | error e =>
      rw [hf] at hok
      cases hok
    | ok read =>
      rw [hf] at hok
      have hok : k read = .ok (b, rest) := hok
      rw [hk] at hok
      cases hok
      obtain ⟨taken, ht, hstay⟩ := h.ok hf
      refine ⟨taken, ht, fun rest' hr => ?_⟩
      obtain ⟨hnext, hout⟩ := hstay rest' hr
      refine ⟨hnext, ?_⟩
      rw [hout]
      exact hk _ _
  error {e token} herr htoken := by
    cases hf : f tokens with
    | error e' =>
      rw [hf] at herr
      cases herr
      obtain ⟨before, behind, ht, hstay⟩ := h.error hf htoken
      refine ⟨before, behind, ht, fun behind' => ?_⟩
      obtain ⟨hnext, hout⟩ := hstay behind'
      refine ⟨hnext, ?_⟩
      rw [hout]
      rfl
    | ok read =>
      rw [hf] at herr
      have herr : k read = .error e := herr
      rw [hk] at herr
      cases herr

/-- Nothing is taken. -/
theorem pure (a : α) (tokens : List Token) :
    Locality entry (some entry) (fun tokens => .ok (a, tokens)) (fun tokens => .ok (a, tokens))
      tokens where
  ok := by
    rintro b rest ⟨⟩
    exact ⟨[], rfl, fun rest' hr => ⟨hr entry rfl, rfl⟩⟩
  error := by
    rintro e token ⟨⟩

/-- The next token is taken. -/
theorem skipNext {k k' : Reader α} (hs : settle entry tokens = token :: rest)
    (h : Locality entry' exit k k' rest) :
    Locality entry exit (fun tokens => k (settle entry tokens).tail)
      (fun tokens => k' (settle entry tokens).tail) tokens where
  ok {a rest₂} hok := by
    rw [hs] at hok
    obtain ⟨gap, ht, hgap⟩ := exists_settle hs
    obtain ⟨taken, rfl, hstay⟩ := h.ok hok
    refine ⟨gap ++ token :: taken, by simp [ht], fun rest' hr => ?_⟩
    rw [List.append_assoc, List.cons_append, hgap, next?_of_settle hs, next?_of_settle (hgap _)]
    exact ⟨rfl, (hstay rest' hr).2⟩
  error {e token'} herr htoken := by
    rw [hs] at herr
    obtain ⟨gap, ht, hgap⟩ := exists_settle hs
    obtain ⟨before, behind, rfl, hstay⟩ := h.error herr htoken
    refine ⟨gap ++ token :: before, behind, by simp [ht], fun behind' => ?_⟩
    rw [List.append_assoc, List.cons_append, hgap, next?_of_settle hs, next?_of_settle (hgap _)]
    exact ⟨rfl, (hstay behind').2⟩

/-- The next token is taken, and nothing behind it matters. -/
theorem take (hs : settle entry tokens = token :: rest) (a : α) :
    Locality entry exit (fun tokens => .ok (a, (settle entry tokens).tail))
      (fun tokens => .ok (a, (settle entry tokens).tail)) tokens where
  ok := by
    rintro a' rest' ⟨⟩
    obtain ⟨gap, ht, hgap⟩ := exists_settle hs
    refine ⟨gap ++ [token], by simp [ht, hgap], fun rest' _ => ?_⟩
    rw [List.append_assoc, List.singleton_append, hgap, next?_of_settle hs, next?_of_settle (hgap _)]
    exact ⟨rfl, rfl⟩
  error := by
    rintro e token' ⟨⟩

/-- The next token is wrong. -/
theorem fail (hs : settle entry tokens = token :: rest) (he : e.token? = some token) :
    Locality entry exit (fun _ => (.error e : Except GrammarError (α × List Token)))
      (fun _ => .error e) tokens where
  ok := by
    rintro a rest ⟨⟩
  error := by
    rintro e' token' ⟨⟩ htoken
    rw [he] at htoken
    cases htoken
    obtain ⟨gap, ht, hgap⟩ := exists_settle hs
    refine ⟨gap, rest, ht, fun behind' => ⟨?_, rfl⟩⟩
    rw [next?_of_settle hs, next?_of_settle (hgap _)]

/-- An error that names no token says nothing. -/
theorem lost (hf : f tokens = .error e) (he : e.token? = none) : Locality entry exit f g tokens where
  ok hok := by
    rw [hf] at hok
    cases hok
  error herr htoken := by
    rw [hf] at herr
    cases herr
    rw [he] at htoken
    cases htoken

section Branches

variable {n m : Nat} (F K : Nat → Reader α)

/-- The next token decides what a function does. -/
theorem branch (heq : ∀ budget tokens', next? entry tokens' = next? entry tokens →
      F budget tokens' = K budget tokens')
    (h : Locality entry exit (K n) (K m) tokens) : Locality entry exit (F n) (F m) tokens :=
  h.of_next (heq n tokens rfl) (heq m)

/-- A function goes on behind the next token. -/
theorem advance (hs : settle entry tokens = token :: rest)
    (heq : ∀ budget tokens', next? entry tokens' = some token →
      F budget tokens' = K budget (settle entry tokens').tail)
    (h : Locality entry' exit (K n) (K m) rest) : Locality entry exit (F n) (F m) tokens := by
  rw [← next?_of_settle hs] at heq
  exact (skipNext hs h).of_next (heq n tokens rfl) (heq m)

end Branches

/-- What does not look at the next token need not have the same one. -/
theorem weaken (h : Locality entry none f g tokens) : Locality entry exit f g tokens where
  ok hok := by
    obtain ⟨taken, ht, hstay⟩ := h.ok hok
    exact ⟨taken, ht, fun rest' _ => hstay rest' nofun⟩
  error := h.error

/-- Separators are skipped before the first step. -/
theorem skip {k k' : Reader α} (h : Locality .counted exit k k' (tokens.dropWhile isSeparator)) :
    Locality .counted exit (fun tokens => k (tokens.dropWhile isSeparator))
      (fun tokens => k' (tokens.dropWhile isSeparator)) tokens := by
  obtain ⟨seps, body, rfl, hseps, hbody⟩ : ∃ seps body, tokens = seps ++ body ∧
      (∀ token ∈ seps, isSeparator token = true) ∧ tokens.dropWhile isSeparator = body :=
    ⟨_, _, List.takeWhile_append_dropWhile.symm, List.all_eq_true.mp List.all_takeWhile, rfl⟩
  rw [hbody] at h
  -- The first token behind the separators is none, so other tokens with the same one keep them.
  have hstop : ∀ token ∈ next? .counted body, isSeparator token = false := by
    intro token ht
    have hhead := List.head?_dropWhile_not isSeparator (seps ++ body)
    rw [hbody, show body.head? = some token from ht] at hhead
    exact hhead
  have hskip : ∀ body', next? .counted body' = next? .counted body →
      (seps ++ body').dropWhile isSeparator = body' := by
    intro body' hb
    rw [List.dropWhile_append_of_pos hseps]
    cases body' with
    | nil => rfl
    | cons token rest =>
      exact List.dropWhile_cons_of_neg (by rw [hstop token (hb ▸ rfl)]; decide)
  constructor
  · intro a rest hok
    obtain ⟨taken, rfl, hstay⟩ := h.ok (by simpa only [hbody] using hok)
    refine ⟨seps ++ taken, (List.append_assoc ..).symm, fun rest' hr => ?_⟩
    obtain ⟨hnext, hout⟩ := hstay rest' hr
    rw [List.append_assoc, hskip _ hnext]
    exact ⟨next?_append seps hnext, hout⟩
  · intro e token herr htoken
    obtain ⟨before, behind, rfl, hstay⟩ := h.error (by simpa only [hbody] using herr) htoken
    refine ⟨seps ++ before, behind, (List.append_assoc ..).symm, fun behind' => ?_⟩
    obtain ⟨hnext, hout⟩ := hstay behind'
    rw [List.append_assoc, hskip _ hnext]
    exact ⟨next?_append seps hnext, hout⟩

end Locality

/-! ## Phrases -/

theorem expect_of_next {mode : LineMode} {word : String} {token : Token} {tokens : List Token}
    (h : next? mode tokens = some token) :
    expect mode word tokens = if token.answers word then .ok (token, (settle mode tokens).tail)
      else .error (.mismatch word token) := by
  rw [expect, next?_eq_some h]
  rfl

theorem expect_local (mode : LineMode) (word : String) (tokens : List Token) :
    Locality mode none (expect mode word) (expect mode word) tokens := by
  cases hs : settle mode tokens with
  | nil => exact .lost (by rw [expect, hs]) rfl
  | cons token rest =>
    have heq : ∀ tokens', next? mode tokens' = next? mode tokens → expect mode word tokens' = _ :=
      fun _ hn => expect_of_next (hn.trans (next?_of_settle hs))
    by_cases ha : token.answers word = true
    · simp only [ha, if_true] at heq
      exact (Locality.take hs token).of_next (heq tokens rfl) heq
    · simp only [ha, Bool.false_eq_true, if_false] at heq
      exact (Locality.fail hs rfl).of_next (heq tokens rfl) heq

theorem parameter_of_next {seen : List String} {token : Token} {tokens : List Token}
    (h : next? .ignored tokens = some token) :
    parameter seen tokens =
      if token.answers TokenKind.identifier.name then
        if seen.contains token.text then .error (.duplicateParameter token)
        else .ok (token.text, (settle .ignored tokens).tail)
      else .error (.mismatch TokenKind.identifier.name token) := by
  rw [parameter, expect_of_next h]
  split <;> rfl

theorem parameter_local (seen : List String) (tokens : List Token) :
    Locality .ignored none (parameter seen) (parameter seen) tokens := by
  cases hs : settle .ignored tokens with
  | nil => exact .lost (by rw [parameter, expect, hs]; rfl) rfl
  | cons token rest =>
    have heq : ∀ tokens', next? .ignored tokens' = next? .ignored tokens →
        parameter seen tokens' = _ :=
      fun _ hn => parameter_of_next (hn.trans (next?_of_settle hs))
    by_cases ha : token.answers TokenKind.identifier.name = true
    · by_cases hd : seen.contains token.text = true
      · simp only [ha, hd, if_true] at heq
        exact (Locality.fail hs rfl).of_next (heq tokens rfl) heq
      · simp only [ha, hd, Bool.false_eq_true, if_true, if_false] at heq
        exact (Locality.take hs token.text).of_next (heq tokens rfl) heq
    · simp only [ha, Bool.false_eq_true, if_false] at heq
      exact (Locality.fail hs rfl).of_next (heq tokens rfl) heq

/-- The mode in which a phrase looks at its first token. -/
def Phrase.entry : Phrase → LineMode
  | parameters | moreParameters _ | arguments | moreArguments => .ignored
  | block _ | statement => .counted
  | expression mode | moreTerms mode _ | term mode | moreFactors mode _ | factor mode => mode

/-- The mode in which a phrase looks at the token behind it. What ends with a parenthesis does not. -/
def Phrase.exit : Phrase → Option LineMode
  | parameters | moreParameters _ | arguments | moreArguments => none
  | block _ | statement => some .counted
  | expression mode | moreTerms mode _ | term mode | moreFactors mode _ | factor mode => some mode

theorem blockEnds_of_next {closed : Bool} {tokens tokens' : List Token}
    (h : next? .counted tokens' = next? .counted tokens) :
    blockEnds closed tokens' = blockEnds closed tokens := by
  cases tokens with
  | nil =>
    cases tokens' with
    | nil => rfl
    | cons token' rest' => cases h
  | cons token rest =>
    cases tokens' with
    | nil => cases h
    | cons token' rest' =>
      cases h
      rfl

/-- Whether tokens start like an assignment depends on the first two. -/
theorem not_assigns_of_next {first : Token} {tokens tokens' : List Token}
    (h : ¬ Assigns (first :: tokens)) (hn : next? .counted tokens' = next? .counted tokens) :
    ¬ Assigns (first :: tokens') := by
  cases tokens' with
  | nil => exact id
  | cons second rest' =>
    cases tokens with
    | nil => cases hn
    | cons second rest =>
      cases hn
      exact h

/-- A name alone is an expression, if the budget is enough. -/
private theorem expression_name {name : Token} (hk : name.kind = .identifier) (budget : Nat) :
    expression budget .counted [name] = .ok (.lookup name.text name.position, []) ∨
      expression budget .counted [name] = .error .budget := by
  match budget with
  | 0 => exact .inr rfl
  | 1 => exact .inr rfl
  | 2 => exact .inr rfl
  | budget + 3 =>
    refine .inl ?_
    simp [expression, term, factor, moreFactors, moreTerms, settle, accept?, hk, bind, Except.bind]

/-- What a block does behind one of its statements. -/
private def behindStatement (budget : Nat) (closed : Bool) :
    Node × List Token → Except GrammarError (List Node × List Token)
  | (node, rest) =>
    if blockEnds closed rest then .ok ([node], rest)
    else
      match rest with
      | [] => .ok ([node], rest)
      | token :: _ =>
        if isSeparator token then do
          let (nodes, rest) ← block budget closed rest
          .ok (node :: nodes, rest)
        else .error (.unfinishedStatement token)

/-- What a block does behind the first separators. -/
private def blockBody (budget : Nat) (closed : Bool) (tokens : List Token) :
    Except GrammarError (List Node × List Token) :=
  if blockEnds closed tokens then .ok ([], tokens)
  else statement budget tokens >>= behindStatement budget closed

private theorem behindStatement_local {n m : Nat} {closed : Bool}
    (h : ∀ tokens, Locality .counted (some .counted) (block n closed) (block m closed) tokens)
    (node : Node) (tokens : List Token) :
    Locality .counted (some .counted) (fun rest => behindStatement n closed (node, rest))
      (fun rest => behindStatement m closed (node, rest)) tokens := by
  cases hend : blockEnds closed tokens with
  | true =>
    refine .branch (fun budget rest => behindStatement budget closed (node, rest))
      (fun _ tokens => .ok ([node], tokens)) (fun budget tokens' hn => ?_) (.pure [node] tokens)
    exact if_pos ((blockEnds_of_next hn).trans hend)
  | false =>
    cases tokens with
    | nil => cases hend
    | cons token rest =>
      have hs : settle .counted (token :: rest) = token :: rest := rfl
      have hopen : ∀ tokens', next? .counted tokens' = next? .counted (token :: rest) →
          ∃ rest', tokens' = token :: rest' ∧ ¬ blockEnds closed tokens' = true := by
        intro tokens' hn
        exact ⟨_, next?_eq_some hn, by rw [blockEnds_of_next hn, hend]; decide⟩
      by_cases hsep : isSeparator token = true
      · refine .branch (fun budget rest => behindStatement budget closed (node, rest))
          (fun budget tokens => do
            let (nodes, rest) ← block budget closed tokens
            .ok (node :: nodes, rest)) (fun budget tokens' hn => ?_)
          ((h (token :: rest)).map fun _ _ => rfl)
        obtain ⟨rest', rfl, hopen⟩ := hopen tokens' hn
        exact (if_neg hopen).trans (if_pos hsep)
      · refine .branch (fun budget rest => behindStatement budget closed (node, rest))
          (fun _ _ => .error (.unfinishedStatement token)) (fun budget tokens' hn => ?_) (.fail hs rfl)
        obtain ⟨rest', rfl, hopen⟩ := hopen tokens' hn
        exact (if_neg hopen).trans (if_neg hsep)

/-- The parameters of a function behind the opening parenthesis, and the closing one. -/
private def parameterList (budget : Nat) (tokens : List Token) :
    Except GrammarError (List String × List Token) :=
  match accept? .ignored ")" tokens with
  | some rest => .ok ([], rest)
  | none => do
    let (name, rest) ← parameter [] tokens
    moreParameters budget [name] rest

/-- What a factor does behind its first token. -/
private def factorRest (mode : LineMode) (token : Token) (budget : Nat) (rest : List Token) :
    Except GrammarError (Node × List Token) :=
  if token.kind = .number then .ok (.numeral token.text, rest)
  else if token.kind = .identifier then
    match accept? mode "(" rest with
    | some rest => do
      let (args, rest) ← arguments budget rest
      .ok (.call token.text args token.position, rest)
    | none => .ok (.lookup token.text token.position, rest)
  else if token.answers "print" then do
    let (node, rest) ← expression budget mode rest
    .ok (.print node, rest)
  else if token.answers "function" then do
    let (params, rest) ← parameters budget rest
    let (_, rest) ← expect .ignored "(" rest
    let (body, rest) ← block budget true rest
    let (_, rest) ← expect mode ")" rest
    .ok (.literal (.function params body), rest)
  else if token.answers "(" then do
    let (node, rest) ← expression budget .ignored rest
    let (_, rest) ← expect .ignored ")" rest
    .ok (node, rest)
  else .error (.misplaced token)

private theorem factor_of_next {mode : LineMode} {token : Token} {tokens : List Token}
    (h : next? mode tokens = some token) (budget : Nat) :
    factor (budget + 1) mode tokens = factorRest mode token budget (settle mode tokens).tail := by
  rw [factor, next?_eq_some h]
  rfl

/-- Behind a body there is a parenthesis or nothing, so newlines are not skipped. -/
theorem expect_closing_iff {mode : LineMode} {tokens rest : List Token} {paren : Token}
    (h : blockEnds true tokens = true) :
    expect mode ")" tokens = .ok (paren, rest) ↔ tokens = paren :: rest := by
  cases tokens with
  | nil => cases mode <;> exact ⟨nofun, nofun⟩
  | cons token more =>
    have hclose : token.answers ")" = true := h
    have hkind : token.kind ≠ .newline := fun hk => by
      rw [Token.not_answers_of_kind hk rfl (by decide)] at hclose
      cases hclose
    have hexpect : expect mode ")" (token :: more) = .ok (token, more) :=
      expect_of_gap (gap_nil mode) hkind hclose
    rw [hexpect, Except.ok.injEq, Prod.mk.injEq, List.cons.injEq]

private theorem expect_behind_block {tokens : List Token} (h : blockEnds true tokens = true)
    (mode : LineMode) :
    Locality .counted none (expect mode ")") (expect mode ")") tokens := by
  cases tokens with
  | nil => exact .lost (by cases mode <;> rfl) rfl
  | cons token rest =>
    have hs : settle .counted (token :: rest) = token :: rest := rfl
    have heq : ∀ tokens', next? .counted tokens' = next? .counted (token :: rest) →
        expect mode ")" tokens' = .ok (token, (settle .counted tokens').tail) := by
      intro tokens' hn
      cases tokens' with
      | nil => cases hn
      | cons token' rest' =>
        cases hn
        have hend : blockEnds true (token :: rest') = true := h
        exact (expect_closing_iff hend).mpr rfl
    exact (Locality.take hs token).of_next (heq _ rfl) heq

/-- Operators with operands behind them are read in one way, whatever the operators are. -/
def ReadsOperators (mode : LineMode) (sign : Token → Bool) (operand : Nat → Reader Node)
    (more : Nat → Node → Reader Node) : Prop :=
  ∀ budget left tokens, more (budget + 1) left tokens =
    match settle mode tokens with
    | [] => .ok (left, tokens)
    | op :: rest =>
      if sign op then do
        let (right, rest) ← operand budget rest
        more budget (.binary op.text left right op.position) rest
      else .ok (left, tokens)

theorem moreTerms_readsOperators (mode : LineMode) : ReadsOperators mode addsTerm
    (fun budget => term budget mode) (fun budget => moreTerms budget mode) := by
  intro budget left tokens
  show moreTerms (budget + 1) mode left tokens = _
  rw [moreTerms]
  rfl

theorem moreFactors_readsOperators (mode : LineMode) : ReadsOperators mode addsFactor
    (fun budget => factor budget mode) (fun budget => moreFactors budget mode) := by
  intro budget left tokens
  show moreFactors (budget + 1) mode left tokens = _
  rw [moreFactors]
  rfl

/-- Within two budgets, the second at least the first, reading is local. -/
private def LocalWithin (budget budget' : Nat) : Prop :=
  ∀ (phrase : Phrase) (tokens : List Token),
    Locality phrase.entry phrase.exit (phrase.read budget) (phrase.read budget') tokens

section Succ

variable {n m : Nat} (ih : LocalWithin n m)
include ih

private theorem moreParameters_local (seen : List String) (tokens : List Token) :
    Locality .ignored none (moreParameters (n + 1) seen) (moreParameters (m + 1) seen) tokens := by
  cases ha : accept? .ignored "," tokens with
  | some rest =>
    obtain ⟨token, hs, hcomma⟩ := accept?_eq_some ha
    refine .advance (fun budget => moreParameters (budget + 1) seen) (fun budget rest => do
      let (name, rest) ← parameter seen rest
      moreParameters budget (seen ++ [name]) rest) hs (fun budget tokens' hn => ?_)
      ((parameter_local seen rest).bind nofun fun name rest _ =>
        ih (.moreParameters (seen ++ [name])) rest)
    rw [moreParameters, accept?_of_next hn hcomma]
  | none =>
    refine .branch (fun budget => moreParameters (budget + 1) seen) (fun _ tokens => do
      let (_, rest) ← expect .ignored ")" tokens
      .ok (seen, rest)) (fun budget tokens' hn => ?_)
      ((expect_local _ _ tokens).map fun _ _ => rfl)
    rw [moreParameters, accept?_eq_none_of_next hn ha]

private theorem block_local (closed : Bool) (tokens : List Token) :
    Locality .counted (some .counted) (block (n + 1) closed) (block (m + 1) closed) tokens := by
  refine .branch (fun budget => block (budget + 1) closed)
    (fun budget tokens => blockBody budget closed (tokens.dropWhile isSeparator))
    (fun budget tokens' _ => by rw [block]; rfl) (.skip ?_)
  generalize tokens.dropWhile isSeparator = tokens
  cases hend : blockEnds closed tokens with
  | true =>
    refine .branch (fun budget => blockBody budget closed) (fun _ tokens => .ok ([], tokens))
      (fun budget tokens' hn => ?_) (.pure [] tokens)
    exact if_pos ((blockEnds_of_next hn).trans hend)
  | false =>
    refine .branch (fun budget => blockBody budget closed) (fun budget tokens =>
      statement budget tokens >>= behindStatement budget closed) (fun budget tokens' hn => ?_)
      ((ih .statement tokens).andThen fun node rest _ =>
        behindStatement_local (ih (.block closed)) node rest)
    exact if_neg (by rw [blockEnds_of_next hn, hend]; decide)

private theorem expression_local (mode : LineMode) (tokens : List Token) :
    Locality mode (some mode) (expression (n + 1) mode) (expression (m + 1) mode) tokens :=
  .branch (fun budget => expression (budget + 1) mode) (fun budget tokens => do
    let (left, rest) ← term budget mode tokens
    moreTerms budget mode left rest) (fun budget tokens' _ => by rw [expression])
    ((ih (.term mode) tokens).andThen fun left rest _ => ih (.moreTerms mode left) rest)

private theorem term_local (mode : LineMode) (tokens : List Token) :
    Locality mode (some mode) (term (n + 1) mode) (term (m + 1) mode) tokens :=
  .branch (fun budget => term (budget + 1) mode) (fun budget tokens => do
    let (left, rest) ← factor budget mode tokens
    moreFactors budget mode left rest) (fun budget tokens' _ => by rw [term])
    ((ih (.factor mode) tokens).andThen fun left rest _ => ih (.moreFactors mode left) rest)

omit ih in
private theorem operators_local {mode : LineMode} {sign : Token → Bool} {operand : Nat → Reader Node}
    {more : Nat → Node → Reader Node} (heq : ReadsOperators mode sign operand more)
    (hoperand : ∀ tokens, Locality mode (some mode) (operand n) (operand m) tokens)
    (hmore : ∀ left tokens, Locality mode (some mode) (more n left) (more m left) tokens)
    (left : Node) (tokens : List Token) :
    Locality mode (some mode) (more (n + 1) left) (more (m + 1) left) tokens := by
  by_cases h : ∃ op ∈ next? mode tokens, sign op = true
  · obtain ⟨op, hnext, hop⟩ := h
    refine .advance (fun budget => more (budget + 1) left) (fun budget rest => do
      let (right, rest) ← operand budget rest
      more budget (.binary op.text left right op.position) rest) (next?_eq_some hnext)
      (fun budget tokens' hn => ?_)
      ((hoperand _).andThen fun right rest _ => hmore (.binary op.text left right op.position) rest)
    rw [heq, next?_eq_some hn]
    exact if_pos hop
  · refine .branch (fun budget => more (budget + 1) left) (fun _ tokens => .ok (left, tokens))
      (fun budget tokens' hn => ?_) (.pure left tokens)
    rw [heq]
    cases hs : settle mode tokens' with
    | nil => rfl
    | cons op rest => exact if_neg fun hop => h ⟨op, hn ▸ next?_of_settle hs, hop⟩

private theorem moreTerms_local (mode : LineMode) (left : Node) (tokens : List Token) :
    Locality mode (some mode) (moreTerms (n + 1) mode left) (moreTerms (m + 1) mode left) tokens :=
  operators_local (moreTerms_readsOperators mode) (ih (.term mode))
    (fun left => ih (.moreTerms mode left)) left tokens

private theorem moreFactors_local (mode : LineMode) (left : Node) (tokens : List Token) :
    Locality mode (some mode) (moreFactors (n + 1) mode left) (moreFactors (m + 1) mode left)
      tokens :=
  operators_local (moreFactors_readsOperators mode) (ih (.factor mode))
    (fun left => ih (.moreFactors mode left)) left tokens

private theorem moreArguments_local (tokens : List Token) :
    Locality .ignored none (moreArguments (n + 1)) (moreArguments (m + 1)) tokens := by
  cases ha : accept? .ignored "," tokens with
  | some rest =>
    obtain ⟨token, hs, hcomma⟩ := accept?_eq_some ha
    refine .advance (fun budget => moreArguments (budget + 1)) (fun budget rest => do
      let (node, rest) ← expression budget .ignored rest
      let (nodes, rest) ← moreArguments budget rest
      .ok (node :: nodes, rest)) hs (fun budget tokens' hn => ?_)
      ((ih (.expression .ignored) rest).andThen fun node rest _ =>
        (ih .moreArguments rest).map fun _ _ => rfl)
    rw [moreArguments, accept?_of_next hn hcomma]
  | none =>
    refine .branch (fun budget => moreArguments (budget + 1)) (fun _ tokens => do
      let (_, rest) ← expect .ignored ")" tokens
      .ok ([], rest)) (fun budget tokens' hn => ?_)
      ((expect_local _ _ tokens).map fun _ _ => rfl)
    rw [moreArguments, accept?_eq_none_of_next hn ha]

private theorem arguments_local (tokens : List Token) :
    Locality .ignored none (arguments (n + 1)) (arguments (m + 1)) tokens := by
  cases ha : accept? .ignored ")" tokens with
  | some rest =>
    obtain ⟨token, hs, hclose⟩ := accept?_eq_some ha
    refine .branch (fun budget => arguments (budget + 1))
      (fun _ tokens => .ok ([], (settle .ignored tokens).tail)) (fun budget tokens' hn => ?_)
      (.take hs [])
    rw [arguments, accept?_of_next (hn.trans (next?_of_settle hs)) hclose]
  | none =>
    refine .branch (fun budget => arguments (budget + 1)) (fun budget tokens => do
      let (node, rest) ← expression budget .ignored tokens
      let (nodes, rest) ← moreArguments budget rest
      .ok (node :: nodes, rest)) (fun budget tokens' hn => ?_)
      ((ih (.expression .ignored) tokens).andThen fun node rest _ =>
        (ih .moreArguments rest).map fun _ _ => rfl)
    rw [arguments, accept?_eq_none_of_next hn ha]

omit ih in
private theorem parameters_local
    (ih : ∀ seen tokens, Locality .ignored none (moreParameters n seen) (moreParameters m seen) tokens)
    (tokens : List Token) : Locality .ignored none (parameters n) (parameters m) tokens := by
  have hlist : ∀ tokens, Locality .ignored none (parameterList n) (parameterList m) tokens := by
    intro tokens
    cases ha : accept? .ignored ")" tokens with
    | some rest =>
      obtain ⟨token, hs, hclose⟩ := accept?_eq_some ha
      refine .branch parameterList (fun _ tokens => .ok ([], (settle .ignored tokens).tail))
        (fun budget tokens' hn => ?_) (.take hs [])
      rw [parameterList, accept?_of_next (hn.trans (next?_of_settle hs)) hclose]
    | none =>
      refine .branch parameterList (fun budget tokens => do
        let (name, rest) ← parameter [] tokens
        moreParameters budget [name] rest) (fun budget tokens' hn => ?_)
        ((parameter_local [] tokens).bind nofun fun name rest _ => ih [name] rest)
      rw [parameterList, accept?_eq_none_of_next hn ha]
  exact .branch parameters (fun budget tokens => do
    let (_, rest) ← expect .ignored "(" tokens
    parameterList budget rest) (fun _ _ _ => rfl)
    ((expect_local _ _ tokens).bind nofun fun _ rest _ => hlist rest)

private theorem statement_local (tokens : List Token) :
    Locality .counted (some .counted) (statement (n + 1)) (statement (m + 1)) tokens := by
  by_cases ha : Assigns tokens
  · unfold Assigns at ha
    split at ha
    · next name equals rest =>
      have heq : ∀ budget rest, statement (budget + 1) (name :: equals :: rest) = (do
          let (node, rest) ← expression budget .counted rest
          .ok (.assign name.text node, rest)) := fun budget rest => by rw [statement, if_pos ha]
      have h : Locality .counted (some .counted) (fun rest => do
          let (node, rest) ← expression n .counted rest
          .ok (Node.assign name.text node, rest)) (fun rest => do
          let (node, rest) ← expression m .counted rest
          .ok (Node.assign name.text node, rest)) rest :=
        (ih (.expression .counted) rest).map fun _ _ => rfl
      constructor
      · intro node rest' hok
        obtain ⟨taken, rfl, hstay⟩ := h.ok ((heq n rest).symm.trans hok)
        exact ⟨name :: equals :: taken, rfl, fun rest' hr =>
          ⟨rfl, (heq m _).trans (hstay rest' hr).2⟩⟩
      · intro e token herr htoken
        obtain ⟨before, behind, rfl, hstay⟩ := h.error ((heq n rest).symm.trans herr) htoken
        exact ⟨name :: equals :: before, behind, rfl, fun behind' =>
          ⟨rfl, (heq m _).trans (hstay behind').2⟩⟩
    · exact ha.elim
  · have h : Locality .counted (some .counted) (fun tokens => do
        let (node, rest) ← expression n .counted tokens
        .ok (Node.expression node, rest)) (fun tokens => do
        let (node, rest) ← expression m .counted tokens
        .ok (Node.expression node, rest)) tokens :=
      (ih (.expression .counted) tokens).map fun _ _ => rfl
    have heq := statement_eq_of_not_assigns ha n
    constructor
    · intro node rest hok
      have hread : Phrase.statement.read (n + 1) tokens = .ok (node, rest) := hok
      have hlt := (reads_of_read _ hread).length_lt rfl
      obtain ⟨taken, rfl, hstay⟩ := h.ok (heq.symm.trans hok)
      refine ⟨taken, rfl, fun rest' hr => ?_⟩
      obtain ⟨hnext, hout⟩ := hstay rest' hr
      refine ⟨hnext, (statement_eq_of_not_assigns ?_ m).trans hout⟩
      cases taken with
      | nil => exact absurd hlt (Nat.lt_irrefl _)
      | cons first taken =>
        exact not_assigns_of_next ha (next?_append taken (hr .counted rfl))
    · intro e token herr htoken
      obtain ⟨before, behind, rfl, hstay⟩ := h.error (heq.symm.trans herr) htoken
      refine ⟨before, behind, rfl, fun behind' => ?_⟩
      obtain ⟨hnext, hout⟩ := hstay behind'
      refine ⟨hnext, (statement_eq_of_not_assigns ?_ m).trans hout⟩
      cases before with
      | nil =>
        intro ha'
        have hname : token.kind = .identifier := by
          unfold Assigns at ha'
          split at ha'
          · next heq =>
            cases heq
            exact ha'.1
          · exact ha'.elim
        obtain ⟨-, hout⟩ := hstay []
        rcases expression_name hname m with hexpr | hexpr
        · rw [List.nil_append, hexpr] at hout
          cases hout
        · rw [List.nil_append, hexpr] at hout
          cases hout
          cases htoken
      | cons first before =>
        refine not_assigns_of_next ha (next?_append before ?_)
        rfl

/-- Behind a token that starts an expression, a factor looks on in one of the modes. -/
private theorem factorRest_local {mode : LineMode} {token : Token}
    (h : token.kind = .number ∨ token.kind = .identifier ∨ token.answers "print" = true ∨
      token.answers "function" = true ∨ token.answers "(" = true) (rest : List Token) :
    ∃ entry, Locality entry (some mode) (factorRest mode token n) (factorRest mode token m) rest := by
  by_cases hnumber : token.kind = .number
  · exact ⟨mode, .branch (factorRest mode token) (fun _ rest => .ok (.numeral token.text, rest))
      (fun _ _ _ => if_pos hnumber) (.pure _ rest)⟩
  by_cases hname : token.kind = .identifier
  · refine ⟨mode, ?_⟩
    cases ha : accept? mode "(" rest with
    | some rest' =>
      obtain ⟨opening, hs, hopen⟩ := accept?_eq_some ha
      refine .advance (factorRest mode token) (fun budget rest => do
        let (args, rest) ← arguments budget rest
        .ok (.call token.text args token.position, rest)) hs (fun budget tokens' hn => ?_)
        ((ih .arguments rest').weaken.map fun _ _ => rfl)
      rw [factorRest, if_neg hnumber, if_pos hname, accept?_of_next hn hopen]
    | none =>
      refine .branch (factorRest mode token)
        (fun _ rest => .ok (.lookup token.text token.position, rest)) (fun budget tokens' hn => ?_)
        (.pure _ rest)
      rw [factorRest, if_neg hnumber, if_pos hname, accept?_eq_none_of_next hn ha]
  by_cases hprint : token.answers "print" = true
  · refine ⟨mode, .branch (factorRest mode token) (fun budget rest => do
      let (node, rest) ← expression budget mode rest
      .ok (.print node, rest)) (fun budget tokens' _ => ?_)
      ((ih (.expression mode) rest).map fun _ _ => rfl)⟩
    rw [factorRest, if_neg hnumber, if_neg hname, if_pos hprint]
  by_cases hfunction : token.answers "function" = true
  · refine ⟨.ignored, .branch (factorRest mode token) (fun budget rest => do
      let (params, rest) ← parameters budget rest
      let (_, rest) ← expect .ignored "(" rest
      let (body, rest) ← block budget true rest
      let (_, rest) ← expect mode ")" rest
      .ok (.literal (.function params body), rest)) (fun budget tokens' _ => ?_)
      ((ih .parameters rest).bind nofun fun params rest _ =>
        (expect_local _ _ rest).bind nofun fun _ rest _ =>
          (ih (.block true) rest).andThen fun body rest hb =>
            (expect_behind_block (reads_of_read (.block true) hb).blockEnds mode).weaken.map
              fun _ _ => rfl)⟩
    rw [factorRest, if_neg hnumber, if_neg hname, if_neg hprint, if_pos hfunction]
  by_cases hgroup : token.answers "(" = true
  · refine ⟨.ignored, .branch (factorRest mode token) (fun budget rest => do
      let (node, rest) ← expression budget .ignored rest
      let (_, rest) ← expect .ignored ")" rest
      .ok (node, rest)) (fun budget tokens' _ => ?_)
      ((ih (.expression .ignored) rest).andThen fun node rest _ =>
        (expect_local _ _ rest).weaken.map fun _ _ => rfl)⟩
    rw [factorRest, if_neg hnumber, if_neg hname, if_neg hprint, if_neg hfunction, if_pos hgroup]
  · simp [hnumber, hname, hprint, hfunction, hgroup] at h

private theorem factor_local (mode : LineMode) (tokens : List Token) :
    Locality mode (some mode) (factor (n + 1) mode) (factor (m + 1) mode) tokens := by
  cases hs : settle mode tokens with
  | nil => exact .lost (by rw [factor, hs]) rfl
  | cons token rest =>
    by_cases hstart : token.kind = .number ∨ token.kind = .identifier ∨
        token.answers "print" = true ∨ token.answers "function" = true ∨ token.answers "(" = true
    · obtain ⟨entry, h⟩ := factorRest_local ih hstart rest
      exact .advance (fun budget => factor (budget + 1) mode) (factorRest mode token) hs
        (fun budget _ hn => factor_of_next hn budget) h
    · refine .branch (fun budget => factor (budget + 1) mode) (fun _ _ => .error (.misplaced token))
        (fun budget tokens' hn => ?_) (.fail hs rfl)
      simp only [not_or] at hstart
      rw [factor_of_next (hn.trans (next?_of_settle hs))]
      simp only [factorRest, hstart, Bool.false_eq_true, if_false]

end Succ

/-- A reading function looks at no more than the next token behind those that it takes, and at none
behind a token that it refuses, however large its budget is. -/
theorem read_local {budget budget' : Nat} (hb : budget ≤ budget') (phrase : Phrase)
    (tokens : List Token) :
    Locality phrase.entry phrase.exit (phrase.read budget) (phrase.read budget') tokens := by
  induction budget generalizing budget' phrase tokens with
  | zero =>
    cases phrase with
    | parameters => exact parameters_local (fun _ _ => .lost rfl rfl) tokens
    | _ => exact .lost rfl rfl
  | succ n ih =>
    obtain ⟨m, rfl⟩ : ∃ m, budget' = m + 1 := ⟨budget' - 1, by omega⟩
    have ih : LocalWithin n m := ih (by omega)
    cases phrase with
    | parameters => exact parameters_local (moreParameters_local ih) tokens
    | moreParameters seen => exact moreParameters_local ih seen tokens
    | block closed => exact block_local ih closed tokens
    | statement => exact statement_local ih tokens
    | expression mode => exact expression_local ih mode tokens
    | moreTerms mode left => exact moreTerms_local ih mode left tokens
    | term mode => exact term_local ih mode tokens
    | moreFactors mode left => exact moreFactors_local ih mode left tokens
    | factor mode => exact factor_local ih mode tokens
    | arguments => exact arguments_local ih tokens
    | moreArguments => exact moreArguments_local ih tokens

end Reading

end Douro
