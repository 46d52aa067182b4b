import Douro.Proofs.Reading.Descent
import Douro.Proofs.Token.Spelling

/-!
# The grammar of programs

The grammar states which tokens are a program, apart from the functions that read one. A terminal
is a token of a certain kind, and of a certain text if its kind is a fixed one. Where newlines do not
count, a gap of them may stand before any terminal: inside a group, inside arguments and inside
parameters, and before both opening parentheses of a function. Everywhere else a newline is only a
separator.

* `Derives`: the rules of the grammar.
* `Derives.starts`: an expression and a statement start with one of a few tokens.
* `Reads.derived`: tokens that are read are derived, if they are spelled.
-/

namespace Douro

namespace Reading

/-! ## Terminals -/

/-- Newlines where they do not count, nothing where they do. -/
def Gap (mode : LineMode) (tokens : List Token) : Prop :=
  match mode with
  | .counted => tokens = []
  | .ignored => ∀ token ∈ tokens, token.kind = .newline

/-- A newline or a semicolon. -/
def Separates (token : Token) : Prop := token.kind = .newline ∨ token.Is .punctuation ";"

/-- One of some operators. -/
def IsOperator (signs : List String) (token : Token) : Prop :=
  ∃ sign ∈ signs, token.Is .operator sign

/-! ## Rules -/

/-- Names with commas between them: at least one. -/
inductive IsNames : List String → List Token → Prop
  | one {gap name} : Gap .ignored gap → name.kind = .identifier →
    IsNames [name.text] (gap ++ [name])
  | more {names tokens gap comma gap' name} : IsNames names tokens → Gap .ignored gap →
    comma.Is .punctuation "," → Gap .ignored gap' → name.kind = .identifier →
    IsNames (names ++ [name.text]) (tokens ++ (gap ++ comma :: (gap' ++ [name])))

/-- The parameters of a function, without their parentheses: none twice. -/
inductive IsParameters : List Token → Prop
  | none : IsParameters []
  | some {names tokens} : IsNames names tokens → names.Nodup → IsParameters tokens

/-- What the grammar derives tokens from. A mode tells whether newlines count. -/
inductive Symbol where
  /-- A whole program, or the body of a function. -/
  | block
  /-- Statements with separators between them: at least one. -/
  | statements
  | statement
  | expression (mode : LineMode)
  | term (mode : LineMode)
  | factor (mode : LineMode)
  /-- The arguments of a call, without their parentheses. -/
  | arguments
  /-- Expressions with commas between them: at least one. -/
  | expressions

/-- The rules of the grammar. -/
inductive Derives : Symbol → List Token → Prop
  | separators {seps} : (∀ token ∈ seps, Separates token) → Derives .block seps
  | block {seps tokens seps'} : (∀ token ∈ seps, Separates token) → Derives .statements tokens →
    (∀ token ∈ seps', Separates token) → Derives .block (seps ++ (tokens ++ seps'))
  | oneStatement {tokens} : Derives .statement tokens → Derives .statements tokens
  | moreStatements {tokens seps tokens'} : Derives .statements tokens → seps ≠ [] →
    (∀ token ∈ seps, Separates token) → Derives .statement tokens' →
    Derives .statements (tokens ++ (seps ++ tokens'))
  | assign {name equals tokens} : name.kind = .identifier → equals.Is .punctuation "=" →
    Derives (.expression .counted) tokens → Derives .statement (name :: equals :: tokens)
  | evaluate {tokens} : Derives (.expression .counted) tokens → Derives .statement tokens
  | oneTerm {mode tokens} : Derives (.term mode) tokens → Derives (.expression mode) tokens
  | sum {mode tokens gap op tokens'} : Derives (.expression mode) tokens → Gap mode gap →
    IsOperator ["+", "-"] op → Derives (.term mode) tokens' →
    Derives (.expression mode) (tokens ++ (gap ++ op :: tokens'))
  | oneFactor {mode tokens} : Derives (.factor mode) tokens → Derives (.term mode) tokens
  | product {mode tokens gap op tokens'} : Derives (.term mode) tokens → Gap mode gap →
    IsOperator ["*", "/"] op → Derives (.factor mode) tokens' →
    Derives (.term mode) (tokens ++ (gap ++ op :: tokens'))
  | number {mode gap token} : Gap mode gap → token.kind = .number →
    Derives (.factor mode) (gap ++ [token])
  | group {mode gap opening tokens gap' closing} : Gap mode gap → opening.Is .punctuation "(" →
    Derives (.expression .ignored) tokens → Gap .ignored gap' → closing.Is .punctuation ")" →
    Derives (.factor mode) (gap ++ opening :: (tokens ++ (gap' ++ [closing])))
  | call {mode gap name gap₁ opening tokens gap₂ closing} : Gap mode gap →
    name.kind = .identifier → Gap mode gap₁ → opening.Is .punctuation "(" →
    Derives .arguments tokens → Gap .ignored gap₂ → closing.Is .punctuation ")" →
    Derives (.factor mode) (gap ++ name :: (gap₁ ++ opening :: (tokens ++ (gap₂ ++ [closing]))))
  | lookup {mode gap name} : Gap mode gap → name.kind = .identifier →
    Derives (.factor mode) (gap ++ [name])
  | print {mode gap word tokens} : Gap mode gap → word.Is .keyword "print" →
    Derives (.expression mode) tokens → Derives (.factor mode) (gap ++ word :: tokens)
  | function {mode gap word gap₁ opening tokens gap₂ closing gap₃ opening' tokens' closing'} :
    Gap mode gap → word.Is .keyword "function" → Gap .ignored gap₁ → opening.Is .punctuation "(" →
    IsParameters tokens → Gap .ignored gap₂ → closing.Is .punctuation ")" → Gap .ignored gap₃ →
    opening'.Is .punctuation "(" → Derives .block tokens' → closing'.Is .punctuation ")" →
    Derives (.factor mode) (gap ++ word :: (gap₁ ++ opening :: (tokens ++ (gap₂ ++ closing ::
      (gap₃ ++ opening' :: (tokens' ++ [closing']))))))
  | noArguments : Derives .arguments []
  | someArguments {tokens} : Derives .expressions tokens → Derives .arguments tokens
  | oneExpression {tokens} : Derives (.expression .ignored) tokens → Derives .expressions tokens
  | moreExpressions {tokens gap comma tokens'} : Derives .expressions tokens → Gap .ignored gap →
    comma.Is .punctuation "," → Derives (.expression .ignored) tokens' →
    Derives .expressions (tokens ++ (gap ++ comma :: tokens'))

/-! ## How derived tokens start -/

/-- The tokens that start an expression. -/
def StartsExpression (token : Token) : Prop :=
  token.kind = .number ∨ token.kind = .identifier ∨ token.Is .keyword "print" ∨
    token.Is .keyword "function" ∨ token.Is .punctuation "("

/-- Where newlines count or not, the first token that counts starts an expression. -/
def Starts (mode : LineMode) (tokens : List Token) : Prop :=
  ∃ gap token rest, tokens = gap ++ token :: rest ∧ Gap mode gap ∧ StartsExpression token

theorem Starts.append {mode : LineMode} {tokens : List Token} (h : Starts mode tokens)
    (more : List Token) : Starts mode (tokens ++ more) := by
  obtain ⟨gap, token, rest, rfl, hg, ht⟩ := h
  exact ⟨gap, token, rest ++ more, by simp, hg, ht⟩

theorem Derives.starts {symbol : Symbol} {tokens : List Token} (h : Derives symbol tokens) :
    match symbol with
    | .expression mode | .term mode | .factor mode => Starts mode tokens
    | .statement | .statements => Starts .counted tokens
    | .block | .arguments | .expressions => True := by
  induction h with
  | separators | block | noArguments | someArguments | oneExpression | moreExpressions => trivial
  | oneStatement _ ih | evaluate _ ih | oneTerm _ ih | oneFactor _ ih => exact ih
  | moreStatements _ _ _ _ ih _ | sum _ _ _ _ ih _ | product _ _ _ _ ih _ => exact ih.append _
  | assign hn _ _ _ => exact ⟨[], _, _, rfl, rfl, .inr (.inl hn)⟩
  | number hg hk => exact ⟨_, _, _, rfl, hg, .inl hk⟩
  | group hg ho _ _ _ _ => exact ⟨_, _, _, rfl, hg, .inr (.inr (.inr (.inr ho)))⟩
  | call hg hn _ _ _ _ _ _ => exact ⟨_, _, _, rfl, hg, .inr (.inl hn)⟩
  | lookup hg hn => exact ⟨_, _, _, rfl, hg, .inr (.inl hn)⟩
  | print hg hw _ _ => exact ⟨_, _, _, rfl, hg, .inr (.inr (.inl hw))⟩
  | function hg hw _ _ _ _ _ _ _ _ _ _ => exact ⟨_, _, _, rfl, hg, .inr (.inr (.inr (.inl hw)))⟩

/-! ## Spelled tokens -/

section Spelled

variable {mode : LineMode} {tokens rest : List Token} {token : Token}
  {word name : String} {seen : List String}

theorem exists_gap_of_settle (h : settle mode tokens = token :: rest) :
    ∃ gap, tokens = gap ++ token :: rest ∧ Gap mode gap := by
  cases mode with
  | counted => exact ⟨[], h, rfl⟩
  | ignored =>
    refine ⟨tokens.takeWhile fun token => token.kind = .newline, ?_, fun other ho => ?_⟩
    · rw [← h]
      exact List.takeWhile_append_dropWhile.symm
    · simpa using List.all_eq_true.mp List.all_takeWhile other ho

theorem spelled_of_suffix (h : ∀ token ∈ tokens, token.Spelled) (hs : rest <:+ tokens) :
    ∀ token ∈ rest, token.Spelled := fun token ht => h token (hs.mem ht)

theorem spelled_of_settle (h : ∀ token ∈ tokens, token.Spelled)
    (hs : settle mode tokens = token :: rest) : token.Spelled :=
  h token ((cons_suffix_of_settle hs).mem List.mem_cons_self)

theorem expect_mark (h : ∀ token ∈ tokens, token.Spelled) (hw : word ∈ ["=", "(", ")", ",", ";"])
    (he : expect mode word tokens = .ok (token, rest)) :
    ∃ gap, tokens = gap ++ token :: rest ∧ Gap mode gap ∧ token.Is .punctuation word := by
  obtain ⟨hs, ha⟩ := expect_eq_ok he
  obtain ⟨gap, ht, hg⟩ := exists_gap_of_settle hs
  exact ⟨gap, ht, hg, ((spelled_of_settle h hs).answers_mark_iff hw).mp ha⟩

theorem accept?_mark (h : ∀ token ∈ tokens, token.Spelled) (hw : word ∈ ["=", "(", ")", ",", ";"])
    (he : accept? mode word tokens = some rest) :
    ∃ gap token, tokens = gap ++ token :: rest ∧ Gap mode gap ∧ token.Is .punctuation word := by
  obtain ⟨token, hs, ha⟩ := accept?_eq_some he
  obtain ⟨gap, ht, hg⟩ := exists_gap_of_settle hs
  exact ⟨gap, token, ht, hg, ((spelled_of_settle h hs).answers_mark_iff hw).mp ha⟩

theorem parameter_name (h : ∀ token ∈ tokens, token.Spelled)
    (hp : parameter seen tokens = .ok (name, rest)) :
    ∃ gap token, tokens = gap ++ token :: rest ∧ Gap .ignored gap ∧ token.kind = .identifier ∧
      token.text = name ∧ name ∉ seen := by
  obtain ⟨token, hs, ha, hn, hseen⟩ := parameter_eq_ok hp
  obtain ⟨gap, ht, hg⟩ := exists_gap_of_settle hs
  exact ⟨gap, token, ht, hg, ((spelled_of_settle h hs).answers_name_iff _).mp ha, hn, hseen⟩

theorem isSeparator_iff (h : token.Spelled) : isSeparator token = true ↔ Separates token := by
  rw [isSeparator, Bool.or_eq_true, h.answers_name_iff, h.answers_mark_iff (by decide)]
  rfl

theorem addsTerm_iff (h : token.Spelled) : addsTerm token = true ↔ IsOperator ["+", "-"] token := by
  rw [addsTerm, Bool.or_eq_true, h.answers_operator_iff (by decide),
    h.answers_operator_iff (by decide)]
  simp [IsOperator]

theorem addsFactor_iff (h : token.Spelled) :
    addsFactor token = true ↔ IsOperator ["*", "/"] token := by
  rw [addsFactor, Bool.or_eq_true, h.answers_operator_iff (by decide),
    h.answers_operator_iff (by decide)]
  simp [IsOperator]

end Spelled

/-! ## What is read is derived -/

/-- Newlines and a closing parenthesis. -/
def Closes (tokens rest : List Token) : Prop :=
  ∃ gap closing, tokens = gap ++ closing :: rest ∧ Gap .ignored gap ∧ closing.Is .punctuation ")"

/-- Nothing, or statements and separators behind them. -/
def EndsBlock (tokens : List Token) : Prop :=
  tokens = [] ∨ ∃ body seps, tokens = body ++ seps ∧ Derives .statements body ∧
    ∀ token ∈ seps, Separates token

/-- What the grammar says of tokens that a phrase is read from, if `rest` is left. The phrases that
go on with something say how what stands before them can be extended. -/
def Phrase.Derived (tokens rest : List Token) : (phrase : Phrase) → phrase.Result → Prop
  | .parameters, _ => ∃ gap opening params tokens₁, tokens = gap ++ opening :: (params ++ tokens₁) ∧
    Gap .ignored gap ∧ opening.Is .punctuation "(" ∧ IsParameters params ∧ Closes tokens₁ rest
  | .moreParameters seen, _ => seen.Nodup → ∀ names, IsNames seen names →
    ∃ params tokens₁, names ++ tokens = params ++ tokens₁ ∧ IsParameters params ∧
      Closes tokens₁ rest
  | .block _, _ => ∃ body, tokens.dropWhile isSeparator = body ++ rest ∧ EndsBlock body
  | .statement, _ => ∃ tokens₁, tokens = tokens₁ ++ rest ∧ Derives .statement tokens₁
  | .expression mode, _ => ∃ tokens₁, tokens = tokens₁ ++ rest ∧ Derives (.expression mode) tokens₁
  | .moreTerms mode _, _ => ∃ tokens₁, tokens = tokens₁ ++ rest ∧
    ∀ terms, Derives (.expression mode) terms → Derives (.expression mode) (terms ++ tokens₁)
  | .term mode, _ => ∃ tokens₁, tokens = tokens₁ ++ rest ∧ Derives (.term mode) tokens₁
  | .moreFactors mode _, _ => ∃ tokens₁, tokens = tokens₁ ++ rest ∧
    ∀ factors, Derives (.term mode) factors → Derives (.term mode) (factors ++ tokens₁)
  | .factor mode, _ => ∃ tokens₁, tokens = tokens₁ ++ rest ∧ Derives (.factor mode) tokens₁
  | .arguments, _ => ∃ args tokens₁, tokens = args ++ tokens₁ ∧ Derives .arguments args ∧
    Closes tokens₁ rest
  | .moreArguments, _ => ∃ args tokens₁, tokens = args ++ tokens₁ ∧ Closes tokens₁ rest ∧
    ∀ exprs, Derives .expressions exprs → Derives .expressions (exprs ++ args)

theorem expect_closes {tokens rest : List Token} {paren : Token}
    (h : ∀ token ∈ tokens, token.Spelled) (he : expect .ignored ")" tokens = .ok (paren, rest)) :
    Closes tokens rest := by
  obtain ⟨gap, ht, hg, hc⟩ := expect_mark h (by decide) he
  exact ⟨gap, paren, ht, hg, hc⟩

theorem accept?_closes {tokens rest : List Token} (h : ∀ token ∈ tokens, token.Spelled)
    (ha : accept? .ignored ")" tokens = some rest) : Closes tokens rest := by
  obtain ⟨gap, paren, ht, hg, hc⟩ := accept?_mark h (by decide) ha
  exact ⟨gap, paren, ht, hg, hc⟩

/-- A statement can be put before statements. -/
theorem Derives.statements_cons {tokens seps tokens' : List Token} (hs : Derives .statement tokens)
    (hne : seps ≠ []) (hseps : ∀ token ∈ seps, Separates token)
    (h : Derives .statements tokens') : Derives .statements (tokens ++ (seps ++ tokens')) := by
  generalize hsymbol : Symbol.statements = symbol at h
  induction h with
  | oneStatement hs' => exact .moreStatements (.oneStatement hs) hne hseps hs'
  | moreStatements _ hne' hseps' hs' ih =>
    have := Derives.moreStatements (ih rfl) hne' hseps' hs'
    simpa using this
  | _ => cases hsymbol

/-- A statement that is followed by a separator or by the end of a block. -/
theorem EndsBlock.cons {tokens seps tokens' : List Token} (hs : Derives .statement tokens)
    (hne : seps ≠ []) (hseps : ∀ token ∈ seps, Separates token) (h : EndsBlock tokens') :
    EndsBlock (tokens ++ (seps ++ tokens')) := by
  rcases h with rfl | ⟨body, seps', rfl, hb, hseps'⟩
  · exact .inr ⟨tokens, seps, by simp, .oneStatement hs, hseps⟩
  · exact .inr ⟨tokens ++ (seps ++ body), seps', by simp, hs.statements_cons hne hseps hb, hseps'⟩

theorem EndsBlock.block {seps tokens seps' : List Token} (h : EndsBlock tokens)
    (hs : ∀ token ∈ seps, Separates token) (hs' : ∀ token ∈ seps', Separates token) :
    Derives .block (seps ++ (tokens ++ seps')) := by
  rcases h with rfl | ⟨body, seps'', rfl, hb, hs''⟩
  · refine .separators fun token ht => ?_
    rcases List.mem_append.mp ht with ht | ht
    · exact hs token ht
    · exact hs' token ht
  · rw [List.append_assoc]
    refine .block hs hb fun token ht => ?_
    rcases List.mem_append.mp ht with ht | ht
    · exact hs'' token ht
    · exact hs' token ht

theorem Gap.separates {mode : LineMode} {gap : List Token} (h : Gap mode gap) :
    ∀ token ∈ gap, Separates token := by
  cases mode with
  | counted =>
    cases h
    nofun
  | ignored => exact fun token ht => .inl (h token ht)

theorem separates_of_mem_takeWhile {tokens : List Token} (h : ∀ token ∈ tokens, token.Spelled) :
    ∀ token ∈ tokens.takeWhile isSeparator, Separates token := by
  intro token ht
  have hsep := List.all_eq_true.mp List.all_takeWhile token ht
  exact (isSeparator_iff (h token (List.takeWhile_subset _ ht))).mp hsep

theorem exists_separators {tokens rest : List Token} (h : ∀ token ∈ tokens, token.Spelled)
    (hr : tokens.dropWhile isSeparator = rest) :
    ∃ seps, tokens = seps ++ rest ∧ ∀ token ∈ seps, Separates token :=
  ⟨_, by rw [← hr, List.takeWhile_append_dropWhile], separates_of_mem_takeWhile h⟩

/-- Spelled tokens that are read are derived by the grammar. -/
theorem Reads.derived {phrase : Phrase} {tokens rest : List Token} {result : phrase.Result}
    (hr : Reads phrase tokens result rest) (h : ∀ token ∈ tokens, token.Spelled) :
    phrase.Derived tokens rest result := by
  induction hr with
  | noParameters he ha =>
    obtain ⟨gap, rfl, hg, ho⟩ := expect_mark h (by decide) he
    have h₁ := spelled_of_suffix h (suffix_of_cons (expect_suffix he))
    exact ⟨gap, _, [], _, rfl, hg, ho, .none, accept?_closes h₁ ha⟩
  | someParameters he _ hp hr ih =>
    obtain ⟨gap, rfl, hg, ho⟩ := expect_mark h (by decide) he
    have h₁ := spelled_of_suffix h (suffix_of_cons (expect_suffix he))
    obtain ⟨gap', token, rfl, hg', hk, rfl, -⟩ := parameter_name h₁ hp
    have h₂ := spelled_of_suffix h₁ (suffix_of_cons (List.suffix_append gap' _))
    obtain ⟨params, tokens₁, ht, hps, hc⟩ := ih h₂ (by simp) _ (.one hg' hk)
    rw [List.append_assoc, List.singleton_append] at ht
    exact ⟨gap, _, params, tokens₁, by rw [ht], hg, ho, hps, hc⟩
  | nextParameter ha hp hr ih =>
    intro hn names hns
    obtain ⟨gap, comma, rfl, hg, hc⟩ := accept?_mark h (by decide) ha
    have h₁ := spelled_of_suffix h (suffix_of_cons (List.suffix_append gap _))
    obtain ⟨gap', token, rfl, hg', hk, rfl, hseen⟩ := parameter_name h₁ hp
    have h₂ := spelled_of_suffix h₁ (suffix_of_cons (List.suffix_append gap' _))
    have hn' : (_ ++ [token.text]).Nodup := List.nodup_append.mpr ⟨hn, by simp, by
      rintro name hname _ ht rfl
      exact hseen (List.mem_singleton.mp ht ▸ hname)⟩
    obtain ⟨params, tokens₁, ht, hps, hc⟩ := ih h₂ hn' _ (hns.more hg hc hg' hk)
    exact ⟨params, tokens₁, by rw [← ht]; simp, hps, hc⟩
  | lastParameter _ he => exact fun hn names hns => ⟨names, _, rfl, .some hns hn, expect_closes h he⟩
  | emptyBlock _ => exact ⟨[], rfl, .inl rfl⟩
  | lastStatement _ hr _ ih =>
    obtain ⟨tokens₁, ht, hs⟩ := ih (spelled_of_suffix h (List.dropWhile_suffix _))
    exact ⟨tokens₁, ht, .inr ⟨tokens₁, [], by simp, .oneStatement hs, nofun⟩⟩
  | nextStatement _ hr _ hsep hr' ih ih' =>
    have h₁ := spelled_of_suffix h (List.dropWhile_suffix isSeparator)
    obtain ⟨tokens₁, ht, hs⟩ := ih h₁
    have h₂ := spelled_of_suffix h₁ hr.suffix
    obtain ⟨body, hb, hends⟩ := ih' h₂
    refine ⟨tokens₁ ++ (List.takeWhile isSeparator _ ++ body), ?_,
      hends.cons hs ?_ (separates_of_mem_takeWhile h₂)⟩
    · rw [ht, List.append_assoc, List.append_assoc, ← hb, List.takeWhile_append_dropWhile]
    · rw [List.takeWhile_cons, hsep]
      exact List.cons_ne_nil _ _
  | assign hk ha _ ih =>
    have he := ((h _ (List.mem_cons_of_mem _ List.mem_cons_self)).answers_mark_iff (by decide)).mp ha
    obtain ⟨tokens₁, rfl, hd⟩ := ih fun token ht => h token (by simp [ht])
    exact ⟨_ :: _ :: tokens₁, rfl, .assign hk he hd⟩
  | evaluate _ _ ih =>
    obtain ⟨tokens₁, ht, hd⟩ := ih h
    exact ⟨tokens₁, ht, .evaluate hd⟩
  | expression hr hr' ih ih' =>
    obtain ⟨tokens₁, rfl, ht⟩ := ih h
    obtain ⟨tokens₂, rfl, hm⟩ := ih' (spelled_of_suffix h hr.suffix)
    exact ⟨tokens₁ ++ tokens₂, by simp, hm _ (.oneTerm ht)⟩
  | lastTerm _ => exact ⟨[], rfl, fun terms ht => by rwa [List.append_nil]⟩
  | @nextTerm _ _ _ op _ _ _ _ _ hs hop hr hr' ih ih' =>
    have hsign := (addsTerm_iff (spelled_of_settle h hs)).mp hop
    obtain ⟨gap, rfl, hg⟩ := exists_gap_of_settle hs
    have h₁ := spelled_of_suffix h (suffix_of_cons (List.suffix_append gap _))
    obtain ⟨tokens₁, rfl, hd⟩ := ih h₁
    obtain ⟨tokens₂, rfl, hm⟩ := ih' (spelled_of_suffix h₁ hr.suffix)
    refine ⟨gap ++ op :: (tokens₁ ++ tokens₂), by simp, fun before hb => ?_⟩
    simpa using hm _ (.sum hb hg hsign hd)
  | term hr hr' ih ih' =>
    obtain ⟨tokens₁, rfl, ht⟩ := ih h
    obtain ⟨tokens₂, rfl, hm⟩ := ih' (spelled_of_suffix h hr.suffix)
    exact ⟨tokens₁ ++ tokens₂, by simp, hm _ (.oneFactor ht)⟩
  | lastFactor _ => exact ⟨[], rfl, fun factors ht => by rwa [List.append_nil]⟩
  | @nextFactor _ _ _ op _ _ _ _ _ hs hop hr hr' ih ih' =>
    have hsign := (addsFactor_iff (spelled_of_settle h hs)).mp hop
    obtain ⟨gap, rfl, hg⟩ := exists_gap_of_settle hs
    have h₁ := spelled_of_suffix h (suffix_of_cons (List.suffix_append gap _))
    obtain ⟨tokens₁, rfl, hd⟩ := ih h₁
    obtain ⟨tokens₂, rfl, hm⟩ := ih' (spelled_of_suffix h₁ hr.suffix)
    refine ⟨gap ++ op :: (tokens₁ ++ tokens₂), by simp, fun before hb => ?_⟩
    simpa using hm _ (.product hb hg hsign hd)
  | number hs hk =>
    obtain ⟨gap, rfl, hg⟩ := exists_gap_of_settle hs
    exact ⟨gap ++ [_], by simp, .number hg hk⟩
  | call hs hk ha hr ih =>
    obtain ⟨gap, rfl, hg⟩ := exists_gap_of_settle hs
    have h₁ := spelled_of_suffix h (suffix_of_cons (List.suffix_append gap _))
    obtain ⟨gap₁, opening, rfl, hg₁, ho⟩ := accept?_mark h₁ (by decide) ha
    have h₂ := spelled_of_suffix h₁ (suffix_of_cons (List.suffix_append gap₁ _))
    obtain ⟨args, _, rfl, hd, gap₂, closing, rfl, hg₂, hc⟩ := ih h₂
    exact ⟨_, by simp, .call hg hk hg₁ ho hd hg₂ hc⟩
  | lookup hs hk _ =>
    obtain ⟨gap, rfl, hg⟩ := exists_gap_of_settle hs
    exact ⟨gap ++ [_], by simp, .lookup hg hk⟩
  | print hs _ _ ha hr ih =>
    have hw := ((spelled_of_settle h hs).answers_keyword_iff (.inl rfl)).mp ha
    obtain ⟨gap, rfl, hg⟩ := exists_gap_of_settle hs
    obtain ⟨tokens₁, rfl, hd⟩ := ih (spelled_of_suffix h (suffix_of_cons (List.suffix_append gap _)))
    exact ⟨_, by simp, .print hg hw hd⟩
  | function hs _ _ _ ha hr ho hr' hc ih ih' =>
    have hw := ((spelled_of_settle h hs).answers_keyword_iff (.inr rfl)).mp ha
    obtain ⟨gap, rfl, hg⟩ := exists_gap_of_settle hs
    have h₁ := spelled_of_suffix h (suffix_of_cons (List.suffix_append gap _))
    obtain ⟨gap₁, opening, params, _, rfl, hg₁, hopen, hps, gap₂, closing, rfl, hg₂, hclose⟩ := ih h₁
    have h₂ := spelled_of_suffix h₁ hr.suffix
    obtain ⟨gap₃, rfl, hg₃, hopen'⟩ := expect_mark h₂ (by decide) ho
    have h₃ := spelled_of_suffix h₂ (suffix_of_cons (List.suffix_append gap₃ _))
    obtain ⟨body, hb, hends⟩ := ih' h₃
    obtain ⟨gap₄, rfl, hg₄, hclose'⟩ := expect_mark (spelled_of_suffix h₃ hr'.suffix) (by decide) hc
    obtain ⟨seps, rfl, hseps⟩ := exists_separators h₃ hb
    have hblock := hends.block hseps hg₄.separates
    exact ⟨_, by simp, .function hg hw hg₁ hopen hps hg₂ hclose hg₃ hopen' hblock hclose'⟩
  | group hs _ _ _ _ ha hr hc ih =>
    have ho := ((spelled_of_settle h hs).answers_mark_iff (by decide)).mp ha
    obtain ⟨gap, rfl, hg⟩ := exists_gap_of_settle hs
    have h₁ := spelled_of_suffix h (suffix_of_cons (List.suffix_append gap _))
    obtain ⟨tokens₁, rfl, hd⟩ := ih h₁
    obtain ⟨gap', rfl, hg', hc⟩ := expect_mark (spelled_of_suffix h₁ hr.suffix) (by decide) hc
    exact ⟨_, by simp, .group hg ho hd hg' hc⟩
  | noArguments ha => exact ⟨[], _, rfl, .noArguments, accept?_closes h ha⟩
  | someArguments _ hr hr' ih ih' =>
    obtain ⟨tokens₁, rfl, hd⟩ := ih h
    obtain ⟨args, tokens₂, rfl, hc, hm⟩ := ih' (spelled_of_suffix h hr.suffix)
    exact ⟨tokens₁ ++ args, tokens₂, by simp, .someArguments (hm _ (.oneExpression hd)), hc⟩
  | nextArgument ha hr hr' ih ih' =>
    obtain ⟨gap, comma, rfl, hg, hcomma⟩ := accept?_mark h (by decide) ha
    have h₁ := spelled_of_suffix h (suffix_of_cons (List.suffix_append gap _))
    obtain ⟨tokens₁, rfl, hd⟩ := ih h₁
    obtain ⟨args, tokens₂, rfl, hc, hm⟩ := ih' (spelled_of_suffix h₁ hr.suffix)
    refine ⟨gap ++ comma :: (tokens₁ ++ args), tokens₂, by simp, hc, fun before hb => ?_⟩
    simpa using hm _ (.moreExpressions hb hg hcomma hd)
  | lastArgument _ he => exact ⟨[], _, rfl, expect_closes h he, fun exprs hd => by simpa using hd⟩

/-- What the rules read to its end is a program of the grammar. -/
theorem Reads.derives_block {tokens : List Token} {nodes : List Node}
    (hr : Reads (.block false) tokens nodes []) (h : ∀ token ∈ tokens, token.Spelled) :
    Derives .block tokens := by
  obtain ⟨body, hb, hends⟩ := hr.derived h
  obtain ⟨seps, rfl, hseps⟩ := exists_separators h hb
  exact hends.block hseps nofun

end Reading

end Douro
