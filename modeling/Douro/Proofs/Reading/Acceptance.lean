import Douro.Proofs.Reading.Budget
import Douro.Proofs.Reading.Grammar

/-!
# Reading accepts exactly the grammar

The descent is greedy: a `print` takes every operator behind its expression, although the grammar
may derive them from an expression around it. So what is left behind a factor is not what stands
behind its tokens. `Tail` states what matters: the operators that are still to be read can be read,
whoever reads them, up to a place where no operator goes on.

* `Tail`: tokens behind an expression, and what is left of them.
* `Derives.accepted`: derived tokens are read.
* `ofTokens_accepts_iff`: a program is read exactly if its tokens are derived from the grammar.
-/

namespace Douro

namespace Reading

section Gaps

variable {mode : LineMode} {gap rest : List Token} {token : Token} {word : String}

theorem gap_nil (mode : LineMode) : Gap mode [] := by
  cases mode with
  | counted => rfl
  | ignored => nofun

theorem settle_gap (hg : Gap mode gap) (ht : token.kind ≠ .newline) :
    settle mode (gap ++ token :: rest) = token :: rest := by
  cases mode with
  | counted =>
    cases hg
    rfl
  | ignored =>
    unfold settle
    rw [List.dropWhile_append_of_pos fun other ho => by simpa using hg other ho,
      List.dropWhile_cons_of_neg (by simpa using ht)]

theorem expect_of_gap (hg : Gap mode gap) (ht : token.kind ≠ .newline)
    (ha : token.answers word = true) : expect mode word (gap ++ token :: rest) = .ok (token, rest) := by
  rw [expect, settle_gap hg ht]
  exact if_pos ha

theorem accept?_of_gap (hg : Gap mode gap) (ht : token.kind ≠ .newline)
    (ha : token.answers word = true) : accept? mode word (gap ++ token :: rest) = some rest := by
  rw [accept?, settle_gap hg ht]
  exact if_pos ha

theorem accept?_none_of_gap (hg : Gap mode gap) (ht : token.kind ≠ .newline)
    (ha : token.answers word = false) : accept? mode word (gap ++ token :: rest) = none := by
  rw [accept?, settle_gap hg ht]
  exact if_neg (by rw [ha]; decide)

theorem parameter_of_gap {seen : List String} (hg : Gap .ignored gap) (hk : token.kind = .identifier)
    (hn : token.text ∉ seen) : parameter seen (gap ++ token :: rest) = .ok (token.text, rest) := by
  rw [parameter, expect_of_gap hg (by rw [hk]; decide) (Token.answers_name hk)]
  exact if_neg (by simpa using hn)

end Gaps

section Classes

variable {token : Token} {signs : List String} {word : String}

theorem StartsExpression.kind_ne_newline (h : StartsExpression token) : token.kind ≠ .newline := by
  rcases h with h | h | h | h | h
  · rw [h]; decide
  · rw [h]; decide
  all_goals exact h.kind_ne_newline rfl

theorem StartsExpression.not_answers (h : StartsExpression token)
    (hw : word ∈ [")", ";", TokenKind.newline.name]) : token.answers word = false := by
  have hne : ∀ word ∈ [")", ";", TokenKind.newline.name],
      word ∉ ["NUMBER", "IDENT", "KEYWORD", "PUNCT", "print", "function", "("] := by decide
  have hne := hne word hw
  simp only [List.mem_cons, List.not_mem_nil, or_false, not_or] at hne
  rcases h with h | h | h | h | h
  · exact Token.not_answers_of_kind h rfl hne.1
  · exact Token.not_answers_of_kind h rfl hne.2.1
  all_goals exact h.not_answers (by simp [TokenKind.name, hne])

theorem StartsExpression.not_isSeparator (h : StartsExpression token) :
    isSeparator token = false := by
  rw [isSeparator, h.not_answers (by decide), h.not_answers (by decide), Bool.or_false]

theorem Separates.isSeparator (h : Separates token) : isSeparator token = true := by
  rw [Reading.isSeparator, Bool.or_eq_true]
  exact h.imp Token.answers_name fun h => h.answers rfl

theorem Separates.not_answers (h : Separates token) (hw : word ∈ [")", "="]) :
    token.answers word = false := by
  have hne : ∀ word ∈ [")", "="], word ∉ ["NEWLINE", "PUNCT", ";"] := by decide
  have hne := hne word hw
  simp only [List.mem_cons, List.not_mem_nil, or_false, not_or] at hne
  rcases h with h | h
  · exact Token.not_answers_of_kind h rfl hne.1
  · exact h.not_answers (by simp [TokenKind.name, hne])

theorem IsOperator.kind_ne_newline (h : IsOperator signs token) : token.kind ≠ .newline := by
  obtain ⟨sign, -, h⟩ := h
  exact h.kind_ne_newline rfl

theorem IsOperator.not_answers (h : IsOperator signs token) (hw : word ∉ "OPERATOR" :: signs) :
    token.answers word = false := by
  obtain ⟨sign, hs, h⟩ := h
  refine h.not_answers fun hm => hw ?_
  rcases List.mem_cons.mp hm with rfl | hm
  · exact List.mem_cons_self
  · rw [List.mem_singleton.mp hm]
    exact List.mem_cons_of_mem _ hs

theorem IsOperator.addsTerm (h : IsOperator ["+", "-"] token) : addsTerm token = true := by
  rw [Reading.addsTerm, Bool.or_eq_true]
  obtain ⟨sign, hs, h⟩ := h
  have ha := h.answers rfl
  simp only [List.mem_cons, List.not_mem_nil, or_false] at hs
  rcases hs with rfl | rfl
  · exact .inl ha
  · exact .inr ha

theorem IsOperator.addsFactor (h : IsOperator ["*", "/"] token) : addsFactor token = true := by
  rw [Reading.addsFactor, Bool.or_eq_true]
  obtain ⟨sign, hs, h⟩ := h
  have ha := h.answers rfl
  simp only [List.mem_cons, List.not_mem_nil, or_false] at hs
  rcases hs with rfl | rfl
  · exact .inl ha
  · exact .inr ha

end Classes

/-! ## What stands behind an expression -/

/-- No expression goes on with this token: it is neither an operator nor the parenthesis of a
call. -/
def IsStop (token : Token) : Prop :=
  ∀ word ∈ ["+", "-", "*", "/", "("], token.answers word = false

theorem IsStop.not_addsTerm {token : Token} (h : IsStop token) : addsTerm token = false := by
  rw [addsTerm, h "+" (by decide), h "-" (by decide), Bool.or_false]

theorem IsStop.not_addsFactor {token : Token} (h : IsStop token) : addsFactor token = false := by
  rw [addsFactor, h "*" (by decide), h "/" (by decide), Bool.or_false]

theorem isStop_of_mark {token : Token} {text : String} (h : token.Is .punctuation text)
    (ht : text ∈ [")", ",", ";"]) : IsStop token := by
  have hne : ∀ text ∈ [")", ",", ";"], ∀ word ∈ ["+", "-", "*", "/", "("],
      word ∉ [TokenKind.punctuation.name, text] := by decide
  exact fun word hw => h.not_answers (hne text ht word hw)

theorem isStop_of_newline {token : Token} (h : token.kind = .newline) : IsStop token := by
  have hne : ∀ word ∈ ["+", "-", "*", "/", "("], word ≠ TokenKind.newline.name := by decide
  exact fun word hw => Token.not_answers_of_kind h rfl (hne word hw)

theorem isStop_of_equals {token : Token} (h : token.answers "=" = true) : IsStop token := by
  have hne : ∀ kind : TokenKind, ∀ word ∈ ["+", "-", "*", "/", "("], word ∉ [kind.name, "="] := by
    intro kind
    cases kind <;> decide
  have ht : token.text = "=" := by
    unfold Token.answers at h
    cases hk : token.kind <;> simp_all [TokenKind.name, TokenKind.isFixed]
  have his : token.Is token.kind "=" := ⟨rfl, ht⟩
  exact fun word hw => his.not_answers (hne token.kind word hw)

/-- No expression goes on with these tokens. -/
def Stops (mode : LineMode) (tokens : List Token) : Prop :=
  ∀ token rest, settle mode tokens = token :: rest → IsStop token

theorem stops_gap {mode : LineMode} {gap rest : List Token} {token : Token} (hg : Gap mode gap)
    (ht : token.kind ≠ .newline) (hs : IsStop token) : Stops mode (gap ++ token :: rest) := by
  intro token' rest' h
  rw [settle_gap hg ht] at h
  cases h
  exact hs

/-- Tokens behind a factor, and what the operators in them leave, whoever reads them. -/
structure Tail (mode : LineMode) (tokens rest : List Token) : Prop where
  noCall : accept? mode "(" tokens = none
  stops : Stops mode rest
  operators (left : Node) : ∃ node tokens₁, Reads (.moreFactors mode left) tokens node tokens₁ ∧
    ∀ left, ∃ node, Reads (.moreTerms mode left) tokens₁ node rest

theorem Stops.tail {mode : LineMode} {tokens : List Token} (h : Stops mode tokens) :
    Tail mode tokens tokens where
  noCall := by
    unfold accept?
    split
    · rfl
    · next token rest hs => exact if_neg (by rw [h token rest hs "(" (by decide)]; decide)
  stops := h
  operators left := ⟨left, tokens, .lastFactor fun op rest hs => (h op rest hs).not_addsFactor,
    fun left => ⟨left, .lastTerm fun op rest hs => (h op rest hs).not_addsTerm⟩⟩

/-- Tokens behind a statement: a separator, the end of a body or nothing. -/
def EndsStatement (tokens : List Token) : Prop :=
  ∀ token rest, tokens = token :: rest → Separates token ∨ token.Is .punctuation ")"

theorem EndsStatement.stops {tokens : List Token} (h : EndsStatement tokens) :
    Stops .counted tokens := by
  intro token rest hs
  rcases h token rest hs with (hk | hm) | hm
  · exact isStop_of_newline hk
  · exact isStop_of_mark hm (by decide)
  · exact isStop_of_mark hm (by decide)

/-- Tokens behind a block. -/
def BehindBlock (closed : Bool) (tokens : List Token) : Prop :=
  tokens = [] ∨ closed = true ∧ ∃ closing rest, tokens = closing :: rest ∧
    closing.Is .punctuation ")"

/-- Tokens behind a statement of a block, and what is left behind the block. -/
def BlockTail (closed : Bool) (tokens rest : List Token) : Prop :=
  (tokens = rest ∧ BehindBlock closed rest) ∨
    ∃ sep more nodes, tokens = sep :: more ∧ Separates sep ∧ Reads (.block closed) tokens nodes rest

theorem dropWhile_separators {seps : List Token} (hs : ∀ token ∈ seps, Separates token)
    (tokens : List Token) :
    (seps ++ tokens).dropWhile isSeparator = tokens.dropWhile isSeparator :=
  List.dropWhile_append_of_pos fun token ht => (hs token ht).isSeparator

theorem not_isSeparator_of_closing {token : Token} (h : token.answers ")" = true) :
    isSeparator token = false := by
  unfold isSeparator Token.answers at *
  cases hk : token.kind <;> simp_all [TokenKind.name, TokenKind.isFixed]

/-- The end of a block is no separator. -/
theorem dropWhile_of_blockEnds {closed : Bool} {tokens : List Token}
    (h : blockEnds closed tokens = true) : tokens.dropWhile isSeparator = tokens := by
  cases tokens with
  | nil => rfl
  | cons token rest =>
    have hc : token.answers ")" = true := (Bool.and_eq_true_iff.mp h).2
    exact List.dropWhile_cons_of_neg (by rw [not_isSeparator_of_closing hc]; decide)

/-- Separators before a block change nothing. -/
theorem Reads.block_separators {closed : Bool} {seps tokens rest : List Token} {nodes : List Node}
    (hs : ∀ token ∈ seps, Separates token) (h : Reads (.block closed) tokens nodes rest) :
    Reads (.block closed) (seps ++ tokens) nodes rest := by
  have hd := dropWhile_separators hs tokens
  cases h with
  | emptyBlock hend =>
    rw [← hd] at hend ⊢
    exact .emptyBlock hend
  | lastStatement hend hr hend' =>
    rw [← hd] at hend hr
    exact .lastStatement hend hr hend'
  | nextStatement hend hr hend' hsep hr' =>
    rw [← hd] at hend hr
    exact .nextStatement hend hr hend' hsep hr'

theorem BehindBlock.blockEnds {closed : Bool} {tokens : List Token} (h : BehindBlock closed tokens) :
    blockEnds closed tokens = true := by
  rcases h with rfl | ⟨rfl, closing, rest, rfl, hc⟩
  · rfl
  · exact hc.answers rfl

theorem BehindBlock.endsStatement {closed : Bool} {tokens : List Token}
    (h : BehindBlock closed tokens) : EndsStatement tokens := by
  rintro token rest rfl
  rcases h with h | ⟨-, closing, rest, h, hc⟩
  · cases h
  · cases h
    exact .inr hc

/-- Only separators before the end of a block. -/
theorem BehindBlock.reads_separators {closed : Bool} {seps tokens : List Token}
    (h : BehindBlock closed tokens) (hs : ∀ token ∈ seps, Separates token) :
    Reads (.block closed) (seps ++ tokens) [] tokens := by
  have hd := dropWhile_of_blockEnds h.blockEnds
  have hr : Reads (.block closed) tokens [] (tokens.dropWhile isSeparator) :=
    .emptyBlock (by rw [hd]; exact h.blockEnds)
  rw [hd] at hr
  exact hr.block_separators hs

theorem BlockTail.endsStatement {closed : Bool} {tokens rest : List Token}
    (h : BlockTail closed tokens rest) : EndsStatement tokens := by
  rcases h with ⟨rfl, hb⟩ | ⟨sep, more, _, rfl, hsep, -⟩
  · exact hb.endsStatement
  · rintro token rest' h
    cases h
    exact .inl hsep

/-- A statement in front of the rest of a block. -/
theorem Reads.block_cons {closed : Bool} {tokens tail rest : List Token} {node : Node}
    {nodes : List Node} (hr : Reads .statement (tokens ++ tail) node tail)
    (hs : Starts .counted tokens)
    (ht : (nodes = [] ∧ tail = rest ∧ BehindBlock closed rest) ∨
      ∃ sep more, tail = sep :: more ∧ Separates sep ∧ Reads (.block closed) tail nodes rest) :
    Reads (.block closed) (tokens ++ tail) (node :: nodes) rest := by
  obtain ⟨gap, token, more, rfl, hgap, hstart⟩ := hs
  cases hgap
  rw [List.nil_append, List.cons_append] at hr ⊢
  have hd : (token :: (more ++ tail)).dropWhile isSeparator = token :: (more ++ tail) :=
    List.dropWhile_cons_of_neg (by rw [hstart.not_isSeparator]; decide)
  have hend : Reading.blockEnds closed (token :: (more ++ tail)) = false := by
    rw [Reading.blockEnds, hstart.not_answers (by decide), Bool.and_false]
  rw [← hd] at hr hend
  rcases ht with ⟨rfl, rfl, hb⟩ | ⟨sep, more', rfl, hsep, hr'⟩
  · exact .lastStatement hend hr hb.blockEnds
  · have hend' : Reading.blockEnds closed (sep :: more') = false := by
      rw [Reading.blockEnds, hsep.not_answers (by decide), Bool.and_false]
    exact .nextStatement hend hr hend' hsep.isSeparator hr'

/-- A block that starts with a statement. -/
theorem BlockTail.reads_statement {closed : Bool} {tokens tail rest : List Token} {node : Node}
    (h : BlockTail closed tail rest) (hs : Starts .counted tokens)
    (hr : Reads .statement (tokens ++ tail) node tail) :
    ∃ nodes, Reads (.block closed) (tokens ++ tail) nodes rest := by
  rcases h with ⟨rfl, hb⟩ | ⟨sep, more, nodes, rfl, hsep, hr'⟩
  · exact ⟨_, hr.block_cons hs (.inl ⟨rfl, rfl, hb⟩)⟩
  · exact ⟨_, hr.block_cons hs (.inr ⟨sep, more, rfl, hsep, hr'⟩)⟩

/-- A name with an equals sign behind it is the whole of an expression. -/
theorem Reads.rest_of_assigns {name equals : Token} {tokens rest : List Token} {node : Node}
    (h : Reads (.expression .counted) (name :: equals :: tokens) node rest)
    (hn : name.kind = .identifier) (he : equals.answers "=" = true) : rest = equals :: tokens := by
  have hstop := isStop_of_equals he
  cases h with
  | expression ht hm =>
  cases ht with
  | term hf hm' =>
  cases hf with
  | number hs hk =>
    cases hs
    rw [hn] at hk
    cases hk
  | call hs _ ha _ =>
    cases hs
    obtain ⟨_, hs, hp⟩ := accept?_eq_some ha
    cases hs
    rw [hstop "(" (by decide)] at hp
    cases hp
  | lookup hs _ _ =>
    cases hs
    cases hm' with
    | nextFactor hs hop _ _ =>
      cases hs
      rw [hstop.not_addsFactor] at hop
      cases hop
    | lastFactor _ =>
      cases hm with
      | nextTerm hs hop _ _ =>
        cases hs
        rw [hstop.not_addsTerm] at hop
        cases hop
      | lastTerm _ => rfl
  | print hs _ hne _ _ | function hs _ hne _ _ _ _ _ _ | group hs _ hne _ _ _ _ _ =>
    cases hs
    exact absurd hn hne

/-- An expression that ends where a statement ends does not start like an assignment. -/
theorem Reads.not_assigns {tokens rest : List Token} {node : Node}
    (h : Reads (.expression .counted) tokens node rest) (hr : EndsStatement rest) :
    ¬ Assigns tokens := by
  intro ha
  unfold Assigns at ha
  split at ha
  · next name equals more =>
    have hrest := h.rest_of_assigns ha.1 ha.2
    have he := ha.2
    rcases hr equals more hrest with hsep | hm
    · rw [hsep.not_answers (by decide)] at he
      cases he
    · rw [hm.not_answers (by decide)] at he
      cases he
  · exact ha

/-! ## What is derived is read -/

/-- The tokens are read as the symbol that they are derived from, with anything behind them that can
stand there. -/
def Symbol.Accepted (tokens : List Token) : Symbol → Prop
  | .block => ∀ closed rest, BehindBlock closed rest →
    ∃ nodes, Reads (.block closed) (tokens ++ rest) nodes rest
  | .statements => ∀ closed tail rest, BlockTail closed tail rest →
    ∃ nodes, Reads (.block closed) (tokens ++ tail) nodes rest
  | .statement => ∀ rest, EndsStatement rest → ∃ node, Reads .statement (tokens ++ rest) node rest
  | .expression mode => ∀ tail rest, Tail mode tail rest →
    ∃ node, Reads (.expression mode) (tokens ++ tail) node rest
  | .term mode => ∀ tail rest, Tail mode tail rest →
    ∃ node tokens₁, Reads (.term mode) (tokens ++ tail) node tokens₁ ∧
      ∀ left, ∃ node, Reads (.moreTerms mode left) tokens₁ node rest
  | .factor mode => ∀ tail rest, Tail mode tail rest →
    ∃ node tokens₁, Reads (.factor mode) (tokens ++ tail) node tokens₁ ∧ Tail mode tokens₁ rest
  | .arguments => ∀ tail rest, Closes tail rest → ∃ nodes, Reads .arguments (tokens ++ tail) nodes rest
  | .expressions => ∀ tail nodes rest, Stops .ignored tail → Reads .moreArguments tail nodes rest →
    ∃ nodes, Reads .arguments (tokens ++ tail) nodes rest

/-! ### Operators -/

theorem Tail.sign {mode : LineMode} {gap tokens tail rest : List Token} {op : Token}
    (ht : Tail mode tail rest) (hg : Gap mode gap) (hop : IsOperator ["+", "-"] op)
    (hd : (Symbol.term mode).Accepted tokens) : Tail mode (gap ++ op :: (tokens ++ tail)) rest where
  noCall := accept?_none_of_gap hg hop.kind_ne_newline (hop.not_answers (by decide))
  stops := ht.stops
  operators left := by
    refine ⟨left, _, .lastFactor fun op' rest' hs => ?_, fun left' => ?_⟩
    · rw [settle_gap hg hop.kind_ne_newline] at hs
      cases hs
      rw [addsFactor, hop.not_answers (by decide), hop.not_answers (by decide), Bool.or_false]
    · obtain ⟨right, tokens₁, hr, hm⟩ := hd tail rest ht
      obtain ⟨node, hm⟩ := hm (.binary op.text left' right op.position)
      exact ⟨node, .nextTerm (settle_gap hg hop.kind_ne_newline) hop.addsTerm hr hm⟩

theorem Tail.factorSign {mode : LineMode} {gap tokens tail rest : List Token} {op : Token}
    (ht : Tail mode tail rest) (hg : Gap mode gap) (hop : IsOperator ["*", "/"] op)
    (hd : (Symbol.factor mode).Accepted tokens) :
    Tail mode (gap ++ op :: (tokens ++ tail)) rest where
  noCall := accept?_none_of_gap hg hop.kind_ne_newline (hop.not_answers (by decide))
  stops := ht.stops
  operators left := by
    obtain ⟨right, tokens₁, hr, ht₁⟩ := hd tail rest ht
    obtain ⟨node, tokens₂, hm, hterms⟩ := ht₁.operators (.binary op.text left right op.position)
    exact ⟨node, tokens₂, .nextFactor (settle_gap hg hop.kind_ne_newline) hop.addsFactor hr hm, hterms⟩

/-! ### Parameters and arguments -/

theorem Closes.stops {tokens rest : List Token} (h : Closes tokens rest) : Stops .ignored tokens := by
  obtain ⟨gap, closing, rfl, hg, hc⟩ := h
  exact stops_gap hg (hc.kind_ne_newline rfl) (isStop_of_mark hc (by decide))

theorem Closes.expect {tokens rest : List Token} (h : Closes tokens rest) :
    ∃ closing, expect .ignored ")" tokens = .ok (closing, rest) := by
  obtain ⟨gap, closing, rfl, hg, hc⟩ := h
  exact ⟨closing, expect_of_gap hg (hc.kind_ne_newline rfl) (hc.answers rfl)⟩

theorem Closes.accept?_close {tokens rest : List Token} (h : Closes tokens rest) :
    accept? .ignored ")" tokens = some rest := by
  obtain ⟨gap, closing, rfl, hg, hc⟩ := h
  exact accept?_of_gap hg (hc.kind_ne_newline rfl) (hc.answers rfl)

theorem Closes.accept?_comma {tokens rest : List Token} (h : Closes tokens rest) :
    accept? .ignored "," tokens = none := by
  obtain ⟨gap, closing, rfl, hg, hc⟩ := h
  exact accept?_none_of_gap hg (hc.kind_ne_newline rfl) (hc.not_answers (by decide))

theorem Starts.accept?_close {mode : LineMode} {tokens : List Token} (h : Starts mode tokens) :
    accept? mode ")" tokens = none := by
  obtain ⟨gap, token, rest, rfl, hg, ht⟩ := h
  exact accept?_none_of_gap hg ht.kind_ne_newline (ht.not_answers (by decide))

/-- The first of some names is read, and the others behind it. -/
theorem IsNames.reads {names : List String} {tokens tail rest : List Token} {params : List String}
    (h : IsNames names tokens) (hn : names.Nodup)
    (hr : Reads (.moreParameters names) tail params rest) :
    ∃ name tokens₁, accept? .ignored ")" (tokens ++ tail) = none ∧
      parameter [] (tokens ++ tail) = .ok (name, tokens₁) ∧
      Reads (.moreParameters [name]) tokens₁ params rest := by
  induction h generalizing tail with
  | @one gap name hg hk =>
    rw [List.append_assoc, List.singleton_append]
    refine ⟨name.text, tail, ?_, parameter_of_gap hg hk List.not_mem_nil, hr⟩
    exact accept?_none_of_gap hg (by rw [hk]; decide) (Token.not_answers_of_kind hk rfl (by decide))
  | @more names tokens gap comma gap' name _ hg hc hg' hk ih =>
    obtain ⟨hn', -, hne⟩ := List.nodup_append.mp hn
    have hseen : name.text ∉ names := fun hm => hne _ hm _ (List.mem_singleton_self _) rfl
    have hcomma : accept? .ignored "," (gap ++ comma :: (gap' ++ name :: tail)) = some _ :=
      accept?_of_gap hg (hc.kind_ne_newline rfl) (hc.answers rfl)
    have hnext := ih hn' (.nextParameter hcomma (parameter_of_gap hg' hk hseen) hr)
    simpa using hnext

theorem IsParameters.reads {gap tokens tail rest : List Token} {opening : Token}
    (h : IsParameters tokens) (hg : Gap .ignored gap) (ho : opening.Is .punctuation "(")
    (ht : Closes tail rest) :
    ∃ params, Reads .parameters (gap ++ opening :: (tokens ++ tail)) params rest := by
  have he : expect .ignored "(" (gap ++ opening :: (tokens ++ tail)) = .ok (opening, tokens ++ tail) :=
    expect_of_gap hg (ho.kind_ne_newline rfl) (ho.answers rfl)
  cases h with
  | none => exact ⟨[], .noParameters he ht.accept?_close⟩
  | some hns hn =>
    obtain ⟨closing, hc⟩ := ht.expect
    obtain ⟨name, tokens₁, ha, hp, hr⟩ := hns.reads hn (.lastParameter ht.accept?_comma hc)
    exact ⟨_, .someParameters he ha hp hr⟩

/-- What the grammar derives is read. -/
theorem Derives.accepted {symbol : Symbol} {tokens : List Token} (h : Derives symbol tokens) :
    symbol.Accepted tokens := by
  induction h with
  | separators hs => exact fun closed rest hr => ⟨[], hr.reads_separators hs⟩
  | @block seps body seps' hs _ hs' ih =>
    intro closed rest hr
    have htail : BlockTail closed (seps' ++ rest) rest := by
      cases seps' with
      | nil => exact .inl ⟨rfl, hr⟩
      | cons sep more =>
        exact .inr ⟨sep, more ++ rest, [], rfl, hs' sep List.mem_cons_self, hr.reads_separators hs'⟩
    obtain ⟨nodes, hb⟩ := ih closed _ rest htail
    exact ⟨nodes, by simpa using hb.block_separators hs⟩
  | oneStatement hd ih =>
    intro closed tail rest ht
    obtain ⟨node, hr⟩ := ih tail ht.endsStatement
    exact ht.reads_statement hd.starts hr
  | @moreStatements body seps tokens' _ hne hs hd' ih ih' =>
    intro closed tail rest ht
    obtain ⟨node, hr⟩ := ih' tail ht.endsStatement
    obtain ⟨nodes, hb⟩ := ht.reads_statement hd'.starts hr
    have htail : BlockTail closed (seps ++ (tokens' ++ tail)) rest := by
      cases seps with
      | nil => exact absurd rfl hne
      | cons sep more =>
        exact .inr ⟨sep, more ++ (tokens' ++ tail), nodes, rfl, hs sep List.mem_cons_self,
          hb.block_separators hs⟩
    simpa using ih closed _ rest htail
  | assign hn he _ ih =>
    intro rest hr
    obtain ⟨node, hr⟩ := ih rest rest hr.stops.tail
    exact ⟨_, .assign hn (he.answers rfl) hr⟩
  | evaluate _ ih =>
    intro rest hr
    obtain ⟨node, hd⟩ := ih rest rest hr.stops.tail
    exact ⟨_, .evaluate (hd.not_assigns hr) hd⟩
  | oneTerm _ ih =>
    intro tail rest ht
    obtain ⟨left, tokens₁, hr, hm⟩ := ih tail rest ht
    obtain ⟨node, hm⟩ := hm left
    exact ⟨node, .expression hr hm⟩
  | sum _ hg hop _ ih ih' =>
    intro tail rest ht
    simpa using ih _ rest (ht.sign hg hop ih')
  | oneFactor _ ih =>
    intro tail rest ht
    obtain ⟨left, tokens₁, hr, ht₁⟩ := ih tail rest ht
    obtain ⟨node, tokens₂, hm, hterms⟩ := ht₁.operators left
    exact ⟨node, tokens₂, .term hr hm, hterms⟩
  | product _ hg hop _ ih ih' =>
    intro tail rest ht
    simpa using ih _ rest (ht.factorSign hg hop ih')
  | number hg hk =>
    intro tail rest ht
    rw [List.append_assoc, List.singleton_append]
    exact ⟨_, tail, .number (settle_gap hg (by rw [hk]; decide)) hk, ht⟩
  | @group _ _ _ _ gap' closing hg ho _ hg' hc ih =>
    intro tail rest ht
    have hcloses : Closes (gap' ++ closing :: tail) tail := ⟨gap', closing, rfl, hg', hc⟩
    obtain ⟨node, hr⟩ := ih _ _ hcloses.stops.tail
    obtain ⟨_, hclose⟩ := hcloses.expect
    simp only [List.append_assoc, List.cons_append, List.nil_append]
    exact ⟨node, tail, .group (settle_gap hg (ho.kind_ne_newline rfl)) (by rw [ho.1]; decide)
      (by rw [ho.1]; decide) (ho.not_answers (by decide)) (ho.not_answers (by decide))
      (ho.answers rfl) hr hclose, ht⟩
  | @call _ _ _ _ _ _ gap₂ closing hg hn hg₁ ho _ hg₂ hc ih =>
    intro tail rest ht
    obtain ⟨args, hr⟩ := ih (gap₂ ++ closing :: tail) tail ⟨gap₂, closing, rfl, hg₂, hc⟩
    simp only [List.append_assoc, List.cons_append, List.nil_append]
    exact ⟨_, tail, .call (settle_gap hg (by rw [hn]; decide)) hn
      (accept?_of_gap hg₁ (ho.kind_ne_newline rfl) (ho.answers rfl)) hr, ht⟩
  | lookup hg hn =>
    intro tail rest ht
    rw [List.append_assoc, List.singleton_append]
    exact ⟨_, tail, .lookup (settle_gap hg (by rw [hn]; decide)) hn ht.noCall, ht⟩
  | print hg hw _ ih =>
    intro tail rest ht
    -- The expression behind `print` takes all the operators, so only `rest` is left.
    obtain ⟨node, hr⟩ := ih tail rest ht
    rw [List.append_assoc, List.cons_append]
    exact ⟨_, rest, .print (settle_gap hg (hw.kind_ne_newline rfl)) (by rw [hw.1]; decide)
      (by rw [hw.1]; decide) (hw.answers rfl) hr, ht.stops.tail⟩
  | @function mode _ _ _ _ _ gap₂ closing gap₃ opening' body closing' hg hw hg₁ ho hp hg₂ hc hg₃ ho'
      _ hc' ih =>
    intro tail rest ht
    obtain ⟨nodes, hb⟩ := ih true (closing' :: tail) (.inr ⟨rfl, closing', tail, rfl, hc'⟩)
    have hcloses : Closes (gap₂ ++ closing :: (gap₃ ++ opening' :: (body ++ closing' :: tail))) _ :=
      ⟨gap₂, closing, rfl, hg₂, hc⟩
    obtain ⟨params, hps⟩ := hp.reads hg₁ ho hcloses
    have hclose : expect mode ")" (closing' :: tail) = .ok (closing', tail) :=
      expect_of_gap (gap_nil mode) (hc'.kind_ne_newline rfl) (hc'.answers rfl)
    simp only [List.append_assoc, List.cons_append, List.nil_append]
    exact ⟨_, tail, .function (settle_gap hg (hw.kind_ne_newline rfl)) (by rw [hw.1]; decide)
      (by rw [hw.1]; decide) (hw.not_answers (by decide)) (hw.answers rfl) hps
      (expect_of_gap hg₃ (ho'.kind_ne_newline rfl) (ho'.answers rfl)) hb hclose, ht⟩
  | noArguments => exact fun tail rest ht => ⟨[], .noArguments ht.accept?_close⟩
  | someArguments _ ih =>
    intro tail rest ht
    obtain ⟨closing, hc⟩ := ht.expect
    exact ih tail [] rest ht.stops (.lastArgument ht.accept?_comma hc)
  | oneExpression hd ih =>
    intro tail nodes rest hs hr
    obtain ⟨node, he⟩ := ih tail tail hs.tail
    exact ⟨_, .someArguments (hd.starts.append tail).accept?_close he hr⟩
  | @moreExpressions _ gap comma tokens' _ hg hc _ ih ih' =>
    intro tail nodes rest hs hr
    obtain ⟨node, he⟩ := ih' tail tail hs.tail
    have hcomma : accept? .ignored "," (gap ++ comma :: (tokens' ++ tail)) = some _ :=
      accept?_of_gap hg (hc.kind_ne_newline rfl) (hc.answers rfl)
    have hstops : Stops .ignored (gap ++ comma :: (tokens' ++ tail)) :=
      stops_gap hg (hc.kind_ne_newline rfl) (isStop_of_mark hc (by decide))
    simpa using ih _ (node :: nodes) rest hstops (.nextArgument hcomma he hr)

end Reading

open Reading

/-- Tokens are read as a program exactly if the grammar derives them. -/
theorem ofTokens_accepts_iff {tokens : List Token} (h : ∀ token ∈ tokens, token.Spelled) :
    (∃ program, Node.ofTokens tokens = .ok program) ↔ Derives .block tokens := by
  constructor
  · rintro ⟨program, hp⟩
    obtain ⟨body, -, hr⟩ := ofTokens_eq_ok_iff.mp hp
    exact hr.derives_block h
  · intro hd
    obtain ⟨nodes, hr⟩ := hd.accepted false [] (.inl rfl)
    rw [List.append_nil] at hr
    exact ⟨.program nodes, ofTokens_eq_ok_iff.mpr ⟨nodes, rfl, hr⟩⟩

/-- A function whose parts stand on several lines is derived, a sum that is broken before its sign
is not. -/
theorem ofTokens_accepts_iff_of_lines :
    (∃ tokens, scanSource "g = function\n(a,\nb) (print a * (\nb);)" = .ok tokens ∧
      (∀ token ∈ tokens, token.Spelled) ∧ Derives .block tokens) ∧
    ∃ tokens, scanSource "1\n+ 1" = .ok tokens ∧ (∀ token ∈ tokens, token.Spelled) ∧
      ¬ Derives .block tokens := by
  have hscan : scanSource "g = function\n(a,\nb) (print a * (\nb);)" = .ok
      [⟨.identifier, "g", 1, 1⟩, ⟨.punctuation, "=", 1, 3⟩, ⟨.keyword, "function", 1, 5⟩,
        ⟨.newline, "\n", 1, 13⟩, ⟨.punctuation, "(", 2, 1⟩, ⟨.identifier, "a", 2, 2⟩,
        ⟨.punctuation, ",", 2, 3⟩, ⟨.newline, "\n", 2, 4⟩, ⟨.identifier, "b", 3, 1⟩,
        ⟨.punctuation, ")", 3, 2⟩, ⟨.punctuation, "(", 3, 4⟩, ⟨.keyword, "print", 3, 5⟩,
        ⟨.identifier, "a", 3, 11⟩, ⟨.operator, "*", 3, 13⟩, ⟨.punctuation, "(", 3, 15⟩,
        ⟨.newline, "\n", 3, 16⟩, ⟨.identifier, "b", 4, 1⟩, ⟨.punctuation, ")", 4, 2⟩,
        ⟨.punctuation, ";", 4, 3⟩, ⟨.punctuation, ")", 4, 4⟩] := by with_unfolding_all rfl
  have hscan' : scanSource "1\n+ 1" = .ok
      [⟨.number, "1", 1, 1⟩, ⟨.newline, "\n", 1, 2⟩, ⟨.operator, "+", 2, 1⟩,
        ⟨.number, "1", 2, 3⟩] := by with_unfolding_all rfl
  refine ⟨⟨_, hscan, scanSource_spelled hscan, ?_⟩, _, hscan', scanSource_spelled hscan', ?_⟩
  · exact (ofTokens_accepts_iff (scanSource_spelled hscan)).mp ⟨.program [.assign "g"
      (.literal (.function ["a", "b"] [.expression (.print (.binary "*"
        (.lookup "a" ⟨some 3, some 11⟩) (.lookup "b" ⟨some 4, some 1⟩) ⟨some 3, some 13⟩))]))], rfl⟩
  · rw [← ofTokens_accepts_iff (scanSource_spelled hscan')]
    rintro ⟨program, h⟩
    have herror : Node.ofTokens [⟨.number, "1", 1, 1⟩, ⟨.newline, "\n", 1, 2⟩,
        ⟨.operator, "+", 2, 1⟩, ⟨.number, "1", 2, 3⟩] =
        .error (.misplaced ⟨.operator, "+", 2, 1⟩) := rfl
    rw [herror] at h
    cases h

end Douro
