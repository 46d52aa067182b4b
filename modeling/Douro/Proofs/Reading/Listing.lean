import Mathlib.Data.List.Forall2
import Douro.Proofs.Reading.Budget
import Douro.Proofs.Reading.Grammar

/-!
# A program says what its tokens say

Read from left to right, a program mentions numbers, names, keywords and operators. These are the
tokens that it was read from, in their order and without the punctuation marks and the newlines: none
is lost, none is there twice, and where a node carries a position it is that of its own token.

* `Node.mentions`: what a tree mentions, in order.
* `Token.IsMentioned`: a token is what a mention says.
* `Lists`: the words between two ends of the tokens are some mentions.
* `Reads.listed`: every phrase mentions the words that it is read from.
* `program_lists_words`: whole programs.
-/

namespace Douro

/-! ## Mentions -/

/-- Is the token a number, a name, a keyword or an operator? -/
def Token.isWord (token : Token) : Bool :=
  match token.kind with
  | .number | .identifier | .keyword | .operator => true
  | .punctuation | .newline => false

/-- A word of a tree, and its position if the tree carries it. -/
structure Mention where
  kind : TokenKind
  text : String
  position? : Option Position

namespace Mention

/-- A name whose position the tree does not carry. -/
def name (text : String) : Mention := ⟨.identifier, text, none⟩

/-- A keyword. -/
def keyword (text : String) : Mention := ⟨.keyword, text, none⟩

end Mention

namespace Node

mutual

/-- What a tree mentions, from left to right. -/
def mentions : Node → List Mention
  | absent | number _ => []
  | program body => mentionsAll body
  | assign name expr => .name name :: mentions expr
  | expression expr => mentions expr
  | numeral text => [⟨.number, text, none⟩]
  | literal value => mentions value
  | lookup name position => [⟨.identifier, name, some position⟩]
  | call name args position => ⟨.identifier, name, some position⟩ :: mentionsAll args
  | print expr => .keyword "print" :: mentions expr
  | binary op left right position =>
    mentions left ++ ⟨.operator, op, some position⟩ :: mentions right
  | function params body => .keyword "function" :: (params.map .name ++ mentionsAll body)

/-- What trees mention, one after the other. -/
def mentionsAll : List Node → List Mention
  | [] => []
  | node :: nodes => mentions node ++ mentionsAll nodes

end

end Node

/-- The token is what the mention says, and it stands where the mention says. -/
structure Token.IsMentioned (token : Token) (mention : Mention) : Prop where
  kind : token.kind = mention.kind
  text : token.text = mention.text
  position : ∀ position ∈ mention.position?, position = token.position

/-- A node that carries the text and the position of a token mentions it. -/
theorem Token.isMentioned_self {token : Token} {kind : TokenKind} (h : token.kind = kind) :
    token.IsMentioned ⟨kind, token.text, some token.position⟩ :=
  ⟨h, rfl, fun _ hp => (Option.mem_some_iff.mp hp).symm⟩

theorem Token.isMentioned_name {token : Token} (h : token.kind = .identifier) :
    token.IsMentioned (.name token.text) := ⟨h, rfl, nofun⟩

theorem Token.Is.isMentioned {token : Token} {text : String} (h : token.Is .keyword text) :
    token.IsMentioned (.keyword text) := ⟨h.1, h.2, nofun⟩

namespace Reading

/-! ## The words between two ends of the tokens -/

/-- The words before `rest` are the mentions. -/
def Lists (tokens rest : List Token) (mentions : List Mention) : Prop :=
  ∃ taken, tokens.filter Token.isWord = taken ++ rest.filter Token.isWord ∧
    List.Forall₂ Token.IsMentioned taken mentions

namespace Lists

variable {tokens tokens₁ rest gap : List Token} {token : Token} {mentions mentions₁ : List Mention}
  {mention : Mention}

theorem nil (tokens : List Token) : Lists tokens tokens [] := ⟨[], rfl, .nil⟩

theorem append (h : Lists tokens tokens₁ mentions) (h₁ : Lists tokens₁ rest mentions₁) :
    Lists tokens rest (mentions ++ mentions₁) := by
  obtain ⟨taken, ht, hm⟩ := h
  obtain ⟨taken₁, ht₁, hm₁⟩ := h₁
  exact ⟨taken ++ taken₁, by rw [ht, ht₁, List.append_assoc], List.rel_append hm hm₁⟩

/-- Tokens that are no words are not mentioned. -/
theorem skip (h : ∀ token ∈ gap, token.isWord = false) : Lists (gap ++ rest) rest [] := by
  have hgap : gap.filter Token.isWord = [] :=
    List.filter_eq_nil_iff.mpr fun token ht => by rw [h token ht]; decide
  exact ⟨[], by rw [List.filter_append, hgap], .nil⟩

theorem word (h : token.IsMentioned mention) (hw : token.isWord = true) :
    Lists (token :: rest) rest [mention] :=
  ⟨[token], List.filter_cons_of_pos hw, .cons h .nil⟩

end Lists

section Steps

variable {tokens rest gap : List Token} {token : Token} {mention : Mention} {mode : LineMode}
  {text name : String} {seen : List String}

theorem Separates.not_isWord (h : Separates token) : token.isWord = false := by
  rcases h with h | h
  · rw [Token.isWord, h]
  · rw [Token.isWord, h.1]

theorem lists_gap (h : Gap mode gap) (tokens : List Token) : Lists (gap ++ tokens) tokens [] :=
  .skip fun token ht => (h.separates token ht).not_isWord

theorem lists_mark (h : Gap mode gap) (ht : token.Is .punctuation text) :
    Lists (gap ++ token :: rest) rest [] := by
  have hmark : Lists ([token] ++ rest) rest [] :=
    .skip (List.forall_mem_singleton.mpr (by rw [Token.isWord, ht.1]))
  exact (lists_gap h _).append hmark

theorem lists_word (h : Gap mode gap) (ht : token.IsMentioned mention) (hw : token.isWord = true) :
    Lists (gap ++ token :: rest) rest [mention] := (lists_gap h _).append (.word ht hw)

theorem lists_settle (hs : settle mode tokens = token :: rest) (ht : token.IsMentioned mention)
    (hw : token.isWord = true) : Lists tokens rest [mention] := by
  obtain ⟨gap, rfl, hg⟩ := exists_gap_of_settle hs
  exact lists_word hg ht hw

theorem lists_expect (h : ∀ token ∈ tokens, token.Spelled) (hw : text ∈ ["=", "(", ")", ",", ";"])
    (he : expect mode text tokens = .ok (token, rest)) : Lists tokens rest [] := by
  obtain ⟨gap, rfl, hg, ht⟩ := expect_mark h hw he
  exact lists_mark hg ht

theorem lists_accept? (h : ∀ token ∈ tokens, token.Spelled) (hw : text ∈ ["=", "(", ")", ",", ";"])
    (ha : accept? mode text tokens = some rest) : Lists tokens rest [] := by
  obtain ⟨gap, token, rfl, hg, ht⟩ := accept?_mark h hw ha
  exact lists_mark hg ht

theorem lists_parameter (h : ∀ token ∈ tokens, token.Spelled)
    (hp : parameter seen tokens = .ok (name, rest)) : Lists tokens rest [.name name] := by
  obtain ⟨gap, token, rfl, hg, hk, rfl, -⟩ := parameter_name h hp
  exact lists_word hg (Token.isMentioned_name hk) (by rw [Token.isWord, hk])

theorem lists_separators (h : ∀ token ∈ tokens, token.Spelled) :
    Lists tokens (tokens.dropWhile isSeparator) [] := by
  have hskip : Lists (tokens.takeWhile isSeparator ++ tokens.dropWhile isSeparator)
      (tokens.dropWhile isSeparator) [] :=
    .skip fun token ht => (separates_of_mem_takeWhile h token ht).not_isWord
  rwa [List.takeWhile_append_dropWhile] at hskip

end Steps

/-! ## What is read is what is mentioned -/

/-- The words that a phrase is read from are what its result mentions; for a phrase that goes on with
something, what the result mentions beyond that. -/
def Phrase.Listed (tokens rest : List Token) : (phrase : Phrase) → phrase.Result → Prop
  | .parameters, names => Lists tokens rest (names.map .name)
  | .moreParameters seen, names =>
    ∃ more, names = seen ++ more ∧ Lists tokens rest (more.map .name)
  | .block _, nodes | .arguments, nodes | .moreArguments, nodes =>
    Lists tokens rest (Node.mentionsAll nodes)
  | .statement, node | .expression _, node | .term _, node | .factor _, node =>
    Lists tokens rest node.mentions
  | .moreTerms _ left, node | .moreFactors _ left, node =>
    ∃ more, node.mentions = left.mentions ++ more ∧ Lists tokens rest more

/-- An operator and its right operand, and what follows. -/
theorem lists_operator {mode : LineMode} {tokens tokens₁ tokens₂ rest : List Token} {op : Token}
    {left right node : Node} (hs : settle mode tokens = op :: tokens₁) (hop : op.kind = .operator)
    (hright : Lists tokens₁ tokens₂ right.mentions)
    (hmore : ∃ more, node.mentions =
      (Node.binary op.text left right op.position).mentions ++ more ∧ Lists tokens₂ rest more) :
    ∃ more, node.mentions = left.mentions ++ more ∧ Lists tokens rest more := by
  obtain ⟨more, hnode, hmore⟩ := hmore
  have hsign := lists_settle hs (Token.isMentioned_self hop) (by rw [Token.isWord, hop])
  refine ⟨_, ?_, (hsign.append hright).append hmore⟩
  rw [hnode, Node.mentions]
  simp

/-- Spelled tokens are mentioned by what is read from them. -/
theorem Reads.listed {phrase : Phrase} {tokens rest : List Token} {result : phrase.Result}
    (hr : Reads phrase tokens result rest) (h : ∀ token ∈ tokens, token.Spelled) :
    phrase.Listed tokens rest result := by
  induction hr with
  | noParameters he ha =>
    have h₁ := spelled_of_suffix h (suffix_of_cons (expect_suffix he))
    exact (lists_expect h (by decide) he).append (lists_accept? h₁ (by decide) ha)
  | someParameters he _ hp hr ih =>
    have h₁ := spelled_of_suffix h (suffix_of_cons (expect_suffix he))
    obtain ⟨_, hs⟩ := parameter_suffix hp
    obtain ⟨more, rfl, hmore⟩ := ih (spelled_of_suffix h₁ (suffix_of_cons hs))
    exact (lists_expect h (by decide) he).append ((lists_parameter h₁ hp).append hmore)
  | nextParameter ha hp hr ih =>
    obtain ⟨_, hs⟩ := accept?_suffix ha
    have h₁ := spelled_of_suffix h (suffix_of_cons hs)
    obtain ⟨_, hs₁⟩ := parameter_suffix hp
    obtain ⟨more, rfl, hmore⟩ := ih (spelled_of_suffix h₁ (suffix_of_cons hs₁))
    exact ⟨_ :: more, by simp, (lists_accept? h (by decide) ha).append
      ((lists_parameter h₁ hp).append hmore)⟩
  | lastParameter _ he => exact ⟨[], by simp, lists_expect h (by decide) he⟩
  | emptyBlock _ => exact lists_separators h
  | lastStatement _ hr _ ih =>
    have hnode := ih (spelled_of_suffix h (List.dropWhile_suffix _))
    show Lists _ _ (_ ++ [])
    rw [List.append_nil]
    exact (lists_separators h).append hnode
  | nextStatement _ hr _ _ hr' ih ih' =>
    have h₁ := spelled_of_suffix h (List.dropWhile_suffix isSeparator)
    exact (lists_separators h).append ((ih h₁).append (ih' (spelled_of_suffix h₁ hr.suffix)))
  | @assign name equals tokens node rest hk ha _ ih =>
    have he := ((h equals (by simp)).answers_mark_iff (by decide)).mp ha
    have hname : Lists (name :: equals :: tokens) (equals :: tokens) [.name name.text] :=
      .word (Token.isMentioned_name hk) (by rw [Token.isWord, hk])
    have hgap : Gap .counted [] := rfl
    have hequals : Lists ([] ++ equals :: tokens) tokens [] := lists_mark hgap he
    have hexpr := ih fun token ht => h token (by simp [ht])
    exact hname.append (hequals.append hexpr)
  | evaluate _ _ ih => exact ih h
  | expression hr hr' ih ih' | term hr hr' ih ih' =>
    obtain ⟨more, hnode, hmore⟩ := ih' (spelled_of_suffix h hr.suffix)
    show Lists _ _ _
    rw [hnode]
    exact (ih h).append hmore
  | lastTerm _ | lastFactor _ => exact ⟨[], by simp, .nil _⟩
  | nextTerm hs hop hr hr' ih ih' =>
    obtain ⟨_, -, hsign⟩ := (addsTerm_iff (spelled_of_settle h hs)).mp hop
    have h₁ := spelled_of_suffix h (suffix_of_cons (cons_suffix_of_settle hs))
    exact lists_operator hs hsign.1 (ih h₁) (ih' (spelled_of_suffix h₁ hr.suffix))
  | nextFactor hs hop hr hr' ih ih' =>
    obtain ⟨_, -, hsign⟩ := (addsFactor_iff (spelled_of_settle h hs)).mp hop
    have h₁ := spelled_of_suffix h (suffix_of_cons (cons_suffix_of_settle hs))
    exact lists_operator hs hsign.1 (ih h₁) (ih' (spelled_of_suffix h₁ hr.suffix))
  | number hs hk => exact lists_settle hs ⟨hk, rfl, nofun⟩ (by rw [Token.isWord, hk])
  | call hs hk ha hr ih =>
    have h₁ := spelled_of_suffix h (suffix_of_cons (cons_suffix_of_settle hs))
    obtain ⟨_, hs₁⟩ := accept?_suffix ha
    have hname := lists_settle hs (Token.isMentioned_self hk) (by rw [Token.isWord, hk])
    exact hname.append ((lists_accept? h₁ (by decide) ha).append
      (ih (spelled_of_suffix h₁ (suffix_of_cons hs₁))))
  | lookup hs hk _ =>
    exact lists_settle hs (Token.isMentioned_self hk) (by rw [Token.isWord, hk])
  | print hs _ _ ha hr ih =>
    have hw := ((spelled_of_settle h hs).answers_keyword_iff (.inl rfl)).mp ha
    have hword := lists_settle hs hw.isMentioned (by rw [Token.isWord, hw.1])
    exact hword.append (ih (spelled_of_suffix h (suffix_of_cons (cons_suffix_of_settle hs))))
  | function hs _ _ _ ha hr ho hr' hc ih ih' =>
    have hw := ((spelled_of_settle h hs).answers_keyword_iff (.inr rfl)).mp ha
    have hword := lists_settle hs hw.isMentioned (by rw [Token.isWord, hw.1])
    have h₁ := spelled_of_suffix h (suffix_of_cons (cons_suffix_of_settle hs))
    have h₂ := spelled_of_suffix h₁ hr.suffix
    have h₃ := spelled_of_suffix h₂ (suffix_of_cons (expect_suffix ho))
    have hbody := (lists_expect h₂ (by decide) ho).append (ih' h₃)
    have hclosed := hbody.append (lists_expect (spelled_of_suffix h₃ hr'.suffix) (by decide) hc)
    rw [List.append_nil] at hclosed
    exact hword.append ((ih h₁).append hclosed)
  | group hs _ _ _ _ ha hr hc ih =>
    have ho := ((spelled_of_settle h hs).answers_mark_iff (by decide)).mp ha
    obtain ⟨gap, rfl, hg⟩ := exists_gap_of_settle hs
    have h₁ := spelled_of_suffix h (suffix_of_cons (List.suffix_append gap _))
    have hexpr := (lists_mark hg ho).append (ih h₁)
    have hclosed := hexpr.append (lists_expect (spelled_of_suffix h₁ hr.suffix) (by decide) hc)
    rwa [List.append_nil] at hclosed
  | noArguments ha => exact lists_accept? h (by decide) ha
  | someArguments _ hr hr' ih ih' => exact (ih h).append (ih' (spelled_of_suffix h hr.suffix))
  | nextArgument ha hr hr' ih ih' =>
    obtain ⟨_, hs⟩ := accept?_suffix ha
    have h₁ := spelled_of_suffix h (suffix_of_cons hs)
    exact (lists_accept? h (by decide) ha).append
      ((ih h₁).append (ih' (spelled_of_suffix h₁ hr.suffix)))
  | lastArgument _ he => exact lists_expect h (by decide) he

end Reading

open Reading

/-- The numbers, names, keywords and operators among the tokens of a program are what the program
mentions from left to right, and each name and operator that carries a position carries that of its
own token. -/
theorem program_lists_words {tokens : List Token} {program : Node}
    (h : ∀ token ∈ tokens, token.Spelled) (hread : Node.ofTokens tokens = .ok program) :
    List.Forall₂ Token.IsMentioned (tokens.filter Token.isWord) program.mentions := by
  obtain ⟨body, rfl, hr⟩ := ofTokens_eq_ok_iff.mp hread
  obtain ⟨taken, htaken, hmentions⟩ := hr.listed h
  rw [List.filter_nil, List.append_nil] at htaken
  rw [htaken]
  exact hmentions

/-- A function whose body has two statements, and a call of it in a group. -/
theorem program_lists_words_of_function :
    ∃ tokens program, scanSource "f = function(a, b) (print a; a * b)\n(f(1, 2) -\n3)" = .ok tokens ∧
      (∀ token ∈ tokens, token.Spelled) ∧ Node.ofTokens tokens = .ok program ∧
      program.mentions.map Mention.text = ["f", "function", "a", "b", "print", "a", "a", "*", "b",
        "f", "1", "2", "-", "3"] ∧
      List.Forall₂ Token.IsMentioned (tokens.filter Token.isWord) program.mentions := by
  have hscan : scanSource "f = function(a, b) (print a; a * b)\n(f(1, 2) -\n3)" = .ok
      [⟨.identifier, "f", 1, 1⟩, ⟨.punctuation, "=", 1, 3⟩, ⟨.keyword, "function", 1, 5⟩,
        ⟨.punctuation, "(", 1, 13⟩, ⟨.identifier, "a", 1, 14⟩, ⟨.punctuation, ",", 1, 15⟩,
        ⟨.identifier, "b", 1, 17⟩, ⟨.punctuation, ")", 1, 18⟩, ⟨.punctuation, "(", 1, 20⟩,
        ⟨.keyword, "print", 1, 21⟩, ⟨.identifier, "a", 1, 27⟩, ⟨.punctuation, ";", 1, 28⟩,
        ⟨.identifier, "a", 1, 30⟩, ⟨.operator, "*", 1, 32⟩, ⟨.identifier, "b", 1, 34⟩,
        ⟨.punctuation, ")", 1, 35⟩, ⟨.newline, "\n", 1, 36⟩, ⟨.punctuation, "(", 2, 1⟩,
        ⟨.identifier, "f", 2, 2⟩, ⟨.punctuation, "(", 2, 3⟩, ⟨.number, "1", 2, 4⟩,
        ⟨.punctuation, ",", 2, 5⟩, ⟨.number, "2", 2, 7⟩, ⟨.punctuation, ")", 2, 8⟩,
        ⟨.operator, "-", 2, 10⟩, ⟨.newline, "\n", 2, 11⟩, ⟨.number, "3", 3, 1⟩,
        ⟨.punctuation, ")", 3, 2⟩] := by with_unfolding_all rfl
  have hspelled := scanSource_spelled hscan
  refine ⟨_, .program [.assign "f" (.literal (.function ["a", "b"]
      [.expression (.print (.lookup "a" ⟨some 1, some 27⟩)),
        .expression (.binary "*" (.lookup "a" ⟨some 1, some 30⟩) (.lookup "b" ⟨some 1, some 34⟩)
          ⟨some 1, some 32⟩)])),
    .expression (.binary "-" (.call "f" [.numeral "1", .numeral "2"] ⟨some 2, some 2⟩) (.numeral "3")
      ⟨some 2, some 10⟩)], hscan, hspelled, rfl, by decide, program_lists_words hspelled rfl⟩

end Douro
