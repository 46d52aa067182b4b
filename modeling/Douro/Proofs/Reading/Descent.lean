import Douro.Tree.Reading

/-!
# The descent without its budget

`Reads phrase tokens result rest`: reading `phrase` at the front of `tokens` succeeds with `result`
and leaves `rest`. There is one rule for each way in which a reading function can succeed, and none
of them mentions the budget. Facts about everything that is read are inductions over these rules.

* `reads_of_read`: what a reading function reads within some budget is read by the rules.
* `Reads.suffix`, `Reads.behind`, `Reads.length_lt`: what is left is an end of the tokens, and a
  shorter one.
-/

namespace Douro

namespace Reading

/-! ## Phrases -/

/-- What there is to read. -/
inductive Phrase where
  | parameters
  | moreParameters (seen : List String)
  | block (closed : Bool)
  | statement
  | expression (mode : LineMode)
  | moreTerms (mode : LineMode) (left : Node)
  | term (mode : LineMode)
  | moreFactors (mode : LineMode) (left : Node)
  | factor (mode : LineMode)
  | arguments
  | moreArguments

namespace Phrase

/-- What reading a phrase gives. -/
@[reducible]
def Result : Phrase → Type
  | parameters | moreParameters _ => List String
  | block _ | arguments | moreArguments => List Node
  | statement | expression _ | moreTerms _ _ | term _ | moreFactors _ _ | factor _ => Node

/-- Read a phrase. -/
def read (budget : Nat) :
    (phrase : Phrase) → List Token → Except GrammarError (phrase.Result × List Token)
  | parameters => Reading.parameters budget
  | moreParameters seen => Reading.moreParameters budget seen
  | block closed => Reading.block budget closed
  | statement => Reading.statement budget
  | expression mode => Reading.expression budget mode
  | moreTerms mode left => Reading.moreTerms budget mode left
  | term mode => Reading.term budget mode
  | moreFactors mode left => Reading.moreFactors budget mode left
  | factor mode => Reading.factor budget mode
  | arguments => Reading.arguments budget
  | moreArguments => Reading.moreArguments budget

end Phrase

/-! ## The rules -/

/-- Is a token the sign of a sum or of a difference? -/
def addsTerm (token : Token) : Bool := token.answers "+" || token.answers "-"

/-- Is a token the sign of a product or of a quotient? -/
def addsFactor (token : Token) : Bool := token.answers "*" || token.answers "/"

/-- Do the tokens start like an assignment? -/
def Assigns : List Token → Prop
  | name :: equals :: _ => name.kind = .identifier ∧ equals.answers "="
  | _ => False

/-- Reading a phrase at the front of some tokens gives a result and leaves a rest. -/
inductive Reads : (phrase : Phrase) → List Token → phrase.Result → List Token → Prop
  | noParameters {tokens tokens₁ rest paren} :
    expect .ignored "(" tokens = .ok (paren, tokens₁) → accept? .ignored ")" tokens₁ = some rest →
    Reads .parameters tokens [] rest
  | someParameters {tokens tokens₁ tokens₂ rest paren name names} :
    expect .ignored "(" tokens = .ok (paren, tokens₁) → accept? .ignored ")" tokens₁ = none →
    parameter [] tokens₁ = .ok (name, tokens₂) → Reads (.moreParameters [name]) tokens₂ names rest →
    Reads .parameters tokens names rest
  | nextParameter {seen tokens tokens₁ tokens₂ rest name names} :
    accept? .ignored "," tokens = some tokens₁ → parameter seen tokens₁ = .ok (name, tokens₂) →
    Reads (.moreParameters (seen ++ [name])) tokens₂ names rest →
    Reads (.moreParameters seen) tokens names rest
  | lastParameter {seen tokens rest paren} :
    accept? .ignored "," tokens = none → expect .ignored ")" tokens = .ok (paren, rest) →
    Reads (.moreParameters seen) tokens seen rest
  | emptyBlock {closed tokens} :
    blockEnds closed (tokens.dropWhile isSeparator) = true →
    Reads (.block closed) tokens [] (tokens.dropWhile isSeparator)
  | lastStatement {closed tokens node rest} :
    blockEnds closed (tokens.dropWhile isSeparator) = false →
    Reads .statement (tokens.dropWhile isSeparator) node rest → blockEnds closed rest = true →
    Reads (.block closed) tokens [node] rest
  | nextStatement {closed tokens node token tokens₁ nodes rest} :
    blockEnds closed (tokens.dropWhile isSeparator) = false →
    Reads .statement (tokens.dropWhile isSeparator) node (token :: tokens₁) →
    blockEnds closed (token :: tokens₁) = false → isSeparator token = true →
    Reads (.block closed) (token :: tokens₁) nodes rest →
    Reads (.block closed) tokens (node :: nodes) rest
  | assign {name equals tokens node rest} :
    name.kind = .identifier → equals.answers "=" = true →
    Reads (.expression .counted) tokens node rest →
    Reads .statement (name :: equals :: tokens) (.assign name.text node) rest
  | evaluate {tokens node rest} :
    ¬ Assigns tokens → Reads (.expression .counted) tokens node rest →
    Reads .statement tokens (.expression node) rest
  | expression {mode tokens left tokens₁ node rest} :
    Reads (.term mode) tokens left tokens₁ → Reads (.moreTerms mode left) tokens₁ node rest →
    Reads (.expression mode) tokens node rest
  | lastTerm {mode left tokens} :
    (∀ op rest, settle mode tokens = op :: rest → addsTerm op = false) →
    Reads (.moreTerms mode left) tokens left tokens
  | nextTerm {mode left tokens op tokens₁ right tokens₂ node rest} :
    settle mode tokens = op :: tokens₁ → addsTerm op = true →
    Reads (.term mode) tokens₁ right tokens₂ →
    Reads (.moreTerms mode (.binary op.text left right op.position)) tokens₂ node rest →
    Reads (.moreTerms mode left) tokens node rest
  | term {mode tokens left tokens₁ node rest} :
    Reads (.factor mode) tokens left tokens₁ → Reads (.moreFactors mode left) tokens₁ node rest →
    Reads (.term mode) tokens node rest
  | lastFactor {mode left tokens} :
    (∀ op rest, settle mode tokens = op :: rest → addsFactor op = false) →
    Reads (.moreFactors mode left) tokens left tokens
  | nextFactor {mode left tokens op tokens₁ right tokens₂ node rest} :
    settle mode tokens = op :: tokens₁ → addsFactor op = true →
    Reads (.factor mode) tokens₁ right tokens₂ →
    Reads (.moreFactors mode (.binary op.text left right op.position)) tokens₂ node rest →
    Reads (.moreFactors mode left) tokens node rest
  | number {mode tokens token rest} :
    settle mode tokens = token :: rest → token.kind = .number →
    Reads (.factor mode) tokens (.numeral token.text) rest
  | call {mode tokens token tokens₁ tokens₂ args rest} :
    settle mode tokens = token :: tokens₁ → token.kind = .identifier →
    accept? mode "(" tokens₁ = some tokens₂ → Reads .arguments tokens₂ args rest →
    Reads (.factor mode) tokens (.call token.text args token.position) rest
  | lookup {mode tokens token rest} :
    settle mode tokens = token :: rest → token.kind = .identifier → accept? mode "(" rest = none →
    Reads (.factor mode) tokens (.lookup token.text token.position) rest
  | print {mode tokens token tokens₁ node rest} :
    settle mode tokens = token :: tokens₁ → token.kind ≠ .number → token.kind ≠ .identifier →
    token.answers "print" = true → Reads (.expression mode) tokens₁ node rest →
    Reads (.factor mode) tokens (.print node) rest
  | function {mode tokens token tokens₁ params tokens₂ paren tokens₃ body tokens₄ paren' rest} :
    settle mode tokens = token :: tokens₁ → token.kind ≠ .number → token.kind ≠ .identifier →
    token.answers "print" = false → token.answers "function" = true →
    Reads .parameters tokens₁ params tokens₂ → expect .ignored "(" tokens₂ = .ok (paren, tokens₃) →
    Reads (.block true) tokens₃ body tokens₄ → expect mode ")" tokens₄ = .ok (paren', rest) →
    Reads (.factor mode) tokens (.literal (.function params body)) rest
  | group {mode tokens token tokens₁ node tokens₂ paren rest} :
    settle mode tokens = token :: tokens₁ → token.kind ≠ .number → token.kind ≠ .identifier →
    token.answers "print" = false → token.answers "function" = false → token.answers "(" = true →
    Reads (.expression .ignored) tokens₁ node tokens₂ →
    expect .ignored ")" tokens₂ = .ok (paren, rest) → Reads (.factor mode) tokens node rest
  | noArguments {tokens rest} :
    accept? .ignored ")" tokens = some rest → Reads .arguments tokens [] rest
  | someArguments {tokens node tokens₁ nodes rest} :
    accept? .ignored ")" tokens = none → Reads (.expression .ignored) tokens node tokens₁ →
    Reads .moreArguments tokens₁ nodes rest → Reads .arguments tokens (node :: nodes) rest
  | nextArgument {tokens tokens₁ node tokens₂ nodes rest} :
    accept? .ignored "," tokens = some tokens₁ → Reads (.expression .ignored) tokens₁ node tokens₂ →
    Reads .moreArguments tokens₂ nodes rest → Reads .moreArguments tokens (node :: nodes) rest
  | lastArgument {tokens rest paren} :
    accept? .ignored "," tokens = none → expect .ignored ")" tokens = .ok (paren, rest) →
    Reads .moreArguments tokens [] rest

/-! ## From the functions to the rules -/

private theorem bind_ok {α β : Type} {x : Except GrammarError α}
    {f : α → Except GrammarError β} {result : β} (h : (x >>= f) = .ok result) :
    ∃ a, x = .ok a ∧ f a = .ok result := by
  cases x with
  | error e => cases h
  | ok a => exact ⟨a, rfl, h⟩

/-- What is read within the budget is read by the rules. -/
private def ReadsWithin (budget : Nat) : Prop :=
  ∀ (phrase : Phrase) (tokens : List Token) (result : phrase.Result) (rest : List Token),
    phrase.read budget tokens = .ok (result, rest) → Reads phrase tokens result rest

section Succ

variable {budget : Nat} {tokens rest : List Token}

private theorem moreParameters_reads (ih : ReadsWithin budget) {seen names : List String}
    (h : moreParameters (budget + 1) seen tokens = .ok (names, rest)) :
    Reads (.moreParameters seen) tokens names rest := by
  rw [moreParameters] at h
  split at h
  · next tokens₁ ha =>
    obtain ⟨⟨name, tokens₂⟩, hp, h⟩ := bind_ok h
    exact .nextParameter ha hp (ih (.moreParameters _) _ _ _ h)
  · next ha =>
    obtain ⟨⟨paren, tokens₁⟩, he, h⟩ := bind_ok h
    cases h
    exact .lastParameter ha he

private theorem parameters_reads
    (ih : ∀ seen tokens names rest, moreParameters budget seen tokens = .ok (names, rest) →
      Reads (.moreParameters seen) tokens names rest) {names : List String}
    (h : parameters budget tokens = .ok (names, rest)) : Reads .parameters tokens names rest := by
  obtain ⟨⟨paren, tokens₁⟩, he, h⟩ := bind_ok h
  simp only at h
  split at h
  · next ha =>
    cases h
    exact .noParameters he ha
  · next ha =>
    obtain ⟨⟨name, tokens₂⟩, hp, h⟩ := bind_ok h
    exact .someParameters he ha hp (ih _ _ _ _ h)

private theorem block_reads (ih : ReadsWithin budget) {closed : Bool} {nodes : List Node}
    (h : block (budget + 1) closed tokens = .ok (nodes, rest)) :
    Reads (.block closed) tokens nodes rest := by
  rw [block] at h
  split at h
  · next hend =>
    cases h
    exact .emptyBlock hend
  next hend =>
  obtain ⟨⟨node, tokens₁⟩, hs, h⟩ := bind_ok h
  have hs := ih .statement _ _ _ hs
  rw [Bool.not_eq_true] at hend
  simp only at h
  split at h
  · next hend' =>
    cases h
    exact .lastStatement hend hs hend'
  next hend' =>
  split at h
  · exact absurd rfl hend'
  next token tokens₂ =>
  split at h
  · next hsep =>
    obtain ⟨⟨nodes, rest'⟩, hb, h⟩ := bind_ok h
    cases h
    exact .nextStatement hend hs (by simpa using hend') hsep (ih (.block closed) _ _ _ hb)
  · cases h

private theorem statement_reads (ih : ReadsWithin budget) {node : Node}
    (h : statement (budget + 1) tokens = .ok (node, rest)) : Reads .statement tokens node rest := by
  rw [statement.eq_def] at h
  simp only at h
  split at h
  · next name equals tokens₁ =>
    split at h
    · next ha =>
      obtain ⟨⟨expr, rest'⟩, he, h⟩ := bind_ok h
      cases h
      exact .assign ha.1 ha.2 (ih (.expression .counted) _ _ _ he)
    · next ha =>
      obtain ⟨⟨expr, rest'⟩, he, h⟩ := bind_ok h
      cases h
      exact .evaluate ha (ih (.expression .counted) _ _ _ he)
  · next hne =>
    obtain ⟨⟨expr, rest'⟩, he, h⟩ := bind_ok h
    cases h
    refine .evaluate ?_ (ih (.expression .counted) _ _ _ he)
    unfold Assigns
    split
    · next name equals tokens₁ => exact absurd rfl (hne name equals tokens₁)
    · exact id

private theorem expression_reads (ih : ReadsWithin budget) {mode : LineMode} {node : Node}
    (h : expression (budget + 1) mode tokens = .ok (node, rest)) :
    Reads (.expression mode) tokens node rest := by
  rw [expression] at h
  obtain ⟨⟨left, tokens₁⟩, ht, h⟩ := bind_ok h
  exact .expression (ih (.term mode) _ _ _ ht) (ih (.moreTerms mode left) _ _ _ h)

private theorem moreTerms_reads (ih : ReadsWithin budget) {mode : LineMode} {left node : Node}
    (h : moreTerms (budget + 1) mode left tokens = .ok (node, rest)) :
    Reads (.moreTerms mode left) tokens node rest := by
  rw [moreTerms] at h
  split at h
  · next hs =>
    cases h
    exact .lastTerm fun op rest' h' => by rw [hs] at h'; cases h'
  next op tokens₁ hs =>
  split at h
  · next hop =>
    obtain ⟨⟨right, tokens₂⟩, ht, h⟩ := bind_ok h
    exact .nextTerm hs hop (ih (.term mode) _ _ _ ht) (ih (.moreTerms mode _) _ _ _ h)
  · next hop =>
    cases h
    refine .lastTerm fun op' rest' h' => ?_
    rw [hs] at h'
    cases h'
    simpa [addsTerm] using hop

private theorem term_reads (ih : ReadsWithin budget) {mode : LineMode} {node : Node}
    (h : term (budget + 1) mode tokens = .ok (node, rest)) : Reads (.term mode) tokens node rest := by
  rw [term] at h
  obtain ⟨⟨left, tokens₁⟩, ht, h⟩ := bind_ok h
  exact .term (ih (.factor mode) _ _ _ ht) (ih (.moreFactors mode left) _ _ _ h)

private theorem moreFactors_reads (ih : ReadsWithin budget) {mode : LineMode} {left node : Node}
    (h : moreFactors (budget + 1) mode left tokens = .ok (node, rest)) :
    Reads (.moreFactors mode left) tokens node rest := by
  rw [moreFactors] at h
  split at h
  · next hs =>
    cases h
    exact .lastFactor fun op rest' h' => by rw [hs] at h'; cases h'
  next op tokens₁ hs =>
  split at h
  · next hop =>
    obtain ⟨⟨right, tokens₂⟩, ht, h⟩ := bind_ok h
    exact .nextFactor hs hop (ih (.factor mode) _ _ _ ht) (ih (.moreFactors mode _) _ _ _ h)
  · next hop =>
    cases h
    refine .lastFactor fun op' rest' h' => ?_
    rw [hs] at h'
    cases h'
    simpa [addsFactor] using hop

private theorem factor_reads (ih : ReadsWithin budget) {mode : LineMode} {node : Node}
    (h : factor (budget + 1) mode tokens = .ok (node, rest)) :
    Reads (.factor mode) tokens node rest := by
  rw [factor] at h
  split at h
  · cases h
  next token tokens₁ hs =>
  split at h
  · next hk =>
    cases h
    exact .number hs hk
  next hnumber =>
  split at h
  · next hk =>
    split at h
    · next tokens₂ ha =>
      obtain ⟨⟨args, rest'⟩, hr, h⟩ := bind_ok h
      cases h
      exact .call hs hk ha (ih .arguments _ _ _ hr)
    · next ha =>
      cases h
      exact .lookup hs hk ha
  next hidentifier =>
  split at h
  · next hp =>
    obtain ⟨⟨expr, rest'⟩, he, h⟩ := bind_ok h
    cases h
    exact .print hs hnumber hidentifier hp (ih (.expression mode) _ _ _ he)
  next hprint =>
  rw [Bool.not_eq_true] at hprint
  split at h
  · next hf =>
    obtain ⟨⟨params, tokens₂⟩, hp, h⟩ := bind_ok h
    obtain ⟨⟨paren, tokens₃⟩, ho, h⟩ := bind_ok h
    obtain ⟨⟨body, tokens₄⟩, hb, h⟩ := bind_ok h
    obtain ⟨⟨paren', rest'⟩, hc, h⟩ := bind_ok h
    cases h
    exact .function hs hnumber hidentifier hprint hf (ih .parameters _ _ _ hp) ho
      (ih (.block true) _ _ _ hb) hc
  next hfunction =>
  rw [Bool.not_eq_true] at hfunction
  split at h
  · next hg =>
    obtain ⟨⟨expr, tokens₂⟩, he, h⟩ := bind_ok h
    obtain ⟨⟨paren, rest'⟩, hc, h⟩ := bind_ok h
    cases h
    exact .group hs hnumber hidentifier hprint hfunction hg (ih (.expression .ignored) _ _ _ he) hc
  · cases h

private theorem arguments_reads (ih : ReadsWithin budget) {nodes : List Node}
    (h : arguments (budget + 1) tokens = .ok (nodes, rest)) : Reads .arguments tokens nodes rest := by
  rw [arguments] at h
  split at h
  · next ha =>
    cases h
    exact .noArguments ha
  · next ha =>
    obtain ⟨⟨node, tokens₁⟩, he, h⟩ := bind_ok h
    obtain ⟨⟨nodes, rest'⟩, hm, h⟩ := bind_ok h
    cases h
    exact .someArguments ha (ih (.expression .ignored) _ _ _ he) (ih .moreArguments _ _ _ hm)

private theorem moreArguments_reads (ih : ReadsWithin budget) {nodes : List Node}
    (h : moreArguments (budget + 1) tokens = .ok (nodes, rest)) :
    Reads .moreArguments tokens nodes rest := by
  rw [moreArguments] at h
  split at h
  · next ha =>
    obtain ⟨⟨node, tokens₁⟩, he, h⟩ := bind_ok h
    obtain ⟨⟨nodes, rest'⟩, hm, h⟩ := bind_ok h
    cases h
    exact .nextArgument ha (ih (.expression .ignored) _ _ _ he) (ih .moreArguments _ _ _ hm)
  · next ha =>
    obtain ⟨⟨paren, rest'⟩, he, h⟩ := bind_ok h
    cases h
    exact .lastArgument ha he

end Succ

theorem reads_of_read {budget : Nat} (phrase : Phrase) {tokens rest : List Token}
    {result : phrase.Result} (h : phrase.read budget tokens = .ok (result, rest)) :
    Reads phrase tokens result rest := by
  induction budget generalizing phrase tokens rest with
  | zero =>
    cases phrase with
    | parameters => exact parameters_reads (fun _ _ _ _ h => by cases h) h
    | _ => cases h
  | succ budget ih =>
    have ih : ReadsWithin budget := fun phrase _ _ _ h => ih phrase h
    cases phrase with
    | parameters => exact parameters_reads (fun _ _ _ _ => moreParameters_reads ih) h
    | moreParameters seen => exact moreParameters_reads ih h
    | block closed => exact block_reads ih h
    | statement => exact statement_reads ih h
    | expression mode => exact expression_reads ih h
    | moreTerms mode left => exact moreTerms_reads ih h
    | term mode => exact term_reads ih h
    | moreFactors mode left => exact moreFactors_reads ih h
    | factor mode => exact factor_reads ih h
    | arguments => exact arguments_reads ih h
    | moreArguments => exact moreArguments_reads ih h

/-! ## What is left -/

section Steps

variable {mode : LineMode} {word name : String} {seen : List String} {tokens rest : List Token}
  {token : Token}

theorem settle_suffix (mode : LineMode) (tokens : List Token) : settle mode tokens <:+ tokens := by
  cases mode with
  | counted => exact List.suffix_refl tokens
  | ignored => exact List.dropWhile_suffix _

theorem cons_suffix_of_settle (h : settle mode tokens = token :: rest) : token :: rest <:+ tokens :=
  h ▸ settle_suffix mode tokens

theorem expect_eq_ok (h : expect mode word tokens = .ok (token, rest)) :
    settle mode tokens = token :: rest ∧ token.answers word = true := by
  unfold expect at h
  split at h
  · cases h
  next token' rest' hs =>
  split at h
  · next ha =>
    cases h
    exact ⟨hs, ha⟩
  · cases h

theorem accept?_eq_some (h : accept? mode word tokens = some rest) :
    ∃ token, settle mode tokens = token :: rest ∧ token.answers word = true := by
  unfold accept? at h
  split at h
  · cases h
  next token rest' hs =>
  split at h
  · next ha =>
    cases h
    exact ⟨token, hs, ha⟩
  · cases h

theorem parameter_eq_ok (h : parameter seen tokens = .ok (name, rest)) :
    ∃ token, settle .ignored tokens = token :: rest ∧
      token.answers TokenKind.identifier.name = true ∧ token.text = name ∧ name ∉ seen := by
  unfold parameter at h
  cases he : expect .ignored TokenKind.identifier.name tokens with
  | error e => rw [he] at h; cases h
  | ok read =>
    obtain ⟨token, rest'⟩ := read
    rw [he] at h
    simp only [bind, Except.bind] at h
    split at h
    · cases h
    next hseen =>
    cases h
    obtain ⟨hs, ha⟩ := expect_eq_ok he
    exact ⟨token, hs, ha, rfl, by simpa using hseen⟩

theorem expect_suffix (h : expect mode word tokens = .ok (token, rest)) : token :: rest <:+ tokens :=
  cons_suffix_of_settle (expect_eq_ok h).1

theorem accept?_suffix (h : accept? mode word tokens = some rest) :
    ∃ token, token :: rest <:+ tokens :=
  let ⟨token, hs, _⟩ := accept?_eq_some h
  ⟨token, cons_suffix_of_settle hs⟩

theorem parameter_suffix (h : parameter seen tokens = .ok (name, rest)) :
    ∃ token, token :: rest <:+ tokens :=
  let ⟨token, hs, _⟩ := parameter_eq_ok h
  ⟨token, cons_suffix_of_settle hs⟩

theorem suffix_of_cons (h : token :: rest <:+ tokens) : rest <:+ tokens :=
  (List.suffix_cons token rest).trans h

end Steps

/-- What reading leaves is an end of the tokens. -/
theorem Reads.suffix {phrase : Phrase} {tokens rest : List Token} {result : phrase.Result}
    (h : Reads phrase tokens result rest) : rest <:+ tokens := by
  induction h with
  | noParameters he ha =>
    obtain ⟨_, ha⟩ := accept?_suffix ha
    exact (suffix_of_cons ha).trans (suffix_of_cons (expect_suffix he))
  | someParameters he _ hp _ ih =>
    obtain ⟨_, hp⟩ := parameter_suffix hp
    exact ih.trans ((suffix_of_cons hp).trans (suffix_of_cons (expect_suffix he)))
  | nextParameter ha hp _ ih =>
    obtain ⟨_, ha⟩ := accept?_suffix ha
    obtain ⟨_, hp⟩ := parameter_suffix hp
    exact ih.trans ((suffix_of_cons hp).trans (suffix_of_cons ha))
  | lastParameter _ he => exact suffix_of_cons (expect_suffix he)
  | emptyBlock _ => exact List.dropWhile_suffix _
  | lastStatement _ _ _ ih => exact ih.trans (List.dropWhile_suffix _)
  | nextStatement _ _ _ _ _ ih ih' => exact ih'.trans (ih.trans (List.dropWhile_suffix _))
  | assign _ _ _ ih => exact ih.trans (suffix_of_cons (List.suffix_cons _ _))
  | evaluate _ _ ih => exact ih
  | expression _ _ ih ih' | term _ _ ih ih' => exact ih'.trans ih
  | lastTerm _ | lastFactor _ => exact List.suffix_refl _
  | nextTerm hs _ _ _ ih ih' | nextFactor hs _ _ _ ih ih' =>
    exact ih'.trans (ih.trans (suffix_of_cons (cons_suffix_of_settle hs)))
  | number hs _ | lookup hs _ _ => exact suffix_of_cons (cons_suffix_of_settle hs)
  | call hs _ ha _ ih =>
    obtain ⟨_, ha⟩ := accept?_suffix ha
    exact ih.trans ((suffix_of_cons ha).trans (suffix_of_cons (cons_suffix_of_settle hs)))
  | print hs _ _ _ _ ih => exact ih.trans (suffix_of_cons (cons_suffix_of_settle hs))
  | function hs _ _ _ _ _ ho _ hc ih ih' =>
    have hbody := (suffix_of_cons (expect_suffix hc)).trans ih'
    have hparams := (suffix_of_cons (expect_suffix ho)).trans ih
    exact hbody.trans (hparams.trans (suffix_of_cons (cons_suffix_of_settle hs)))
  | group hs _ _ _ _ _ _ hc ih =>
    have hexpr := (suffix_of_cons (expect_suffix hc)).trans ih
    exact hexpr.trans (suffix_of_cons (cons_suffix_of_settle hs))
  | noArguments ha =>
    obtain ⟨_, ha⟩ := accept?_suffix ha
    exact suffix_of_cons ha
  | someArguments _ _ _ ih ih' => exact ih'.trans ih
  | nextArgument ha _ _ ih ih' =>
    obtain ⟨_, ha⟩ := accept?_suffix ha
    exact ih'.trans (ih.trans (suffix_of_cons ha))
  | lastArgument _ he => exact suffix_of_cons (expect_suffix he)

/-- Does a phrase take at least one token? The others may read nothing. -/
def Phrase.takesToken : Phrase → Bool
  | block _ | moreTerms _ _ | moreFactors _ _ => false
  | parameters | moreParameters _ | statement | expression _ | term _ | factor _ => true
  | arguments | moreArguments => true

theorem length_lt_of_cons_suffix {token : Token} {rest rest' tokens : List Token}
    (h : token :: rest <:+ tokens) (h' : rest' <:+ rest) : rest'.length < tokens.length := by
  have := h.length_le
  have := h'.length_le
  simp only [List.length_cons] at *
  omega

/-- In which mode a phrase looks at its first token. -/
def Phrase.mode : Phrase → LineMode
  | block _ | statement => .counted
  | expression mode | moreTerms mode _ | term mode | moreFactors mode _ | factor mode => mode
  | parameters | moreParameters _ | arguments | moreArguments => .ignored

/-- The rest lies behind the first token that counts. -/
def Behind (mode : LineMode) (tokens rest : List Token) : Prop :=
  ∃ token tail, settle mode tokens = token :: tail ∧ rest <:+ tail

namespace Behind

variable {mode : LineMode} {tokens rest rest' : List Token} {token : Token}

theorem of_settle (h : settle mode tokens = token :: rest) : Behind mode tokens rest :=
  ⟨token, rest, h, List.suffix_refl rest⟩

theorem of_expect {word : String} (h : expect mode word tokens = .ok (token, rest)) :
    Behind mode tokens rest := of_settle (expect_eq_ok h).1

theorem of_accept? {word : String} (h : accept? mode word tokens = some rest) :
    Behind mode tokens rest :=
  let ⟨_, hs, _⟩ := accept?_eq_some h
  of_settle hs

theorem of_parameter {seen : List String} {name : String}
    (h : parameter seen tokens = .ok (name, rest)) : Behind .ignored tokens rest :=
  let ⟨_, hs, _⟩ := parameter_eq_ok h
  of_settle hs

theorem trans_suffix (h : Behind mode tokens rest) (h' : rest' <:+ rest) :
    Behind mode tokens rest' :=
  let ⟨token, tail, hs, ht⟩ := h
  ⟨token, tail, hs, h'.trans ht⟩

theorem suffix (h : Behind mode tokens rest) : rest <:+ tokens :=
  let ⟨_, _, hs, ht⟩ := h
  ht.trans (suffix_of_cons (cons_suffix_of_settle hs))

theorem length_lt (h : Behind mode tokens rest) : rest.length < tokens.length :=
  let ⟨_, _, hs, ht⟩ := h
  length_lt_of_cons_suffix (cons_suffix_of_settle hs) ht

end Behind

/-- What a phrase leaves that takes a token lies behind the first token that counts. -/
theorem Reads.behind {phrase : Phrase} {tokens rest : List Token} {result : phrase.Result}
    (h : Reads phrase tokens result rest) (ht : phrase.takesToken = true) :
    Behind phrase.mode tokens rest := by
  induction h with
  | noParameters he ha => exact (Behind.of_expect he).trans_suffix (Behind.of_accept? ha).suffix
  | someParameters he _ hp hr _ =>
    exact (Behind.of_expect he).trans_suffix (hr.suffix.trans (Behind.of_parameter hp).suffix)
  | nextParameter ha hp hr _ =>
    exact (Behind.of_accept? ha).trans_suffix (hr.suffix.trans (Behind.of_parameter hp).suffix)
  | lastParameter _ he | lastArgument _ he => exact .of_expect he
  | assign _ _ hr _ => exact ⟨_, _, rfl, hr.suffix.trans (List.suffix_cons _ _)⟩
  | evaluate _ _ ih => exact ih rfl
  | expression _ hr ih _ | term _ hr ih _ => exact (ih rfl).trans_suffix hr.suffix
  | number hs _ | lookup hs _ _ => exact .of_settle hs
  | call hs _ ha hr _ =>
    exact (Behind.of_settle hs).trans_suffix (hr.suffix.trans (Behind.of_accept? ha).suffix)
  | print hs _ _ _ hr _ => exact (Behind.of_settle hs).trans_suffix hr.suffix
  | function hs _ _ _ _ hp ho hb hc _ _ =>
    have hbody := (Behind.of_expect hc).suffix.trans hb.suffix
    have hparams := (Behind.of_expect ho).suffix.trans hp.suffix
    exact (Behind.of_settle hs).trans_suffix (hbody.trans hparams)
  | group hs _ _ _ _ _ hr hc _ =>
    exact (Behind.of_settle hs).trans_suffix ((Behind.of_expect hc).suffix.trans hr.suffix)
  | noArguments ha => exact .of_accept? ha
  | someArguments _ _ hr ih _ => exact (ih rfl).trans_suffix hr.suffix
  | nextArgument ha hr hr' _ _ =>
    exact (Behind.of_accept? ha).trans_suffix (hr'.suffix.trans hr.suffix)
  | emptyBlock _ | lastStatement _ _ _ _ | nextStatement _ _ _ _ _ _ _ | lastTerm _
    | nextTerm _ _ _ _ _ _ | lastFactor _ | nextFactor _ _ _ _ _ _ => cases ht

theorem Reads.length_lt {phrase : Phrase} {tokens rest : List Token} {result : phrase.Result}
    (h : Reads phrase tokens result rest) (ht : phrase.takesToken = true) :
    rest.length < tokens.length := (h.behind ht).length_lt

end Reading

end Douro
