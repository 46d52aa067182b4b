import Douro.Proofs.Reading.Budget

/-!
# The trees that are read

A tree that comes from tokens is made of statements and expressions in their places, and all that
it says is said by one of the tokens: a numeral by a number, a name with its position by an
identifier, an operator with its position by the token that writes it.

* `IsExpression`, `IsStatement`: the trees that some tokens can make.
* `ofTokens_image`: every program that is read is made of such statements.
-/

namespace Douro

namespace Reading

mutual

/-- An expression made of the tokens. -/
inductive IsExpression (tokens : List Token) : Node → Prop
  | numeral {token : Token} : token ∈ tokens → token.kind = .number →
    IsExpression tokens (.numeral token.text)
  | lookup {token : Token} : token ∈ tokens → token.kind = .identifier →
    IsExpression tokens (.lookup token.text token.position)
  | call {token : Token} {args : List Node} : token ∈ tokens → token.kind = .identifier →
    (∀ arg ∈ args, IsExpression tokens arg) →
    IsExpression tokens (.call token.text args token.position)
  | print {expr : Node} : IsExpression tokens expr → IsExpression tokens (.print expr)
  | binary {op : Token} {left right : Node} : op ∈ tokens →
    (addsTerm op = true ∨ addsFactor op = true) → IsExpression tokens left →
    IsExpression tokens right → IsExpression tokens (.binary op.text left right op.position)
  | function {params : List String} {body : List Node} :
    (∀ statement ∈ body, IsStatement tokens statement) →
    IsExpression tokens (.literal (.function params body))

/-- A statement made of the tokens. -/
inductive IsStatement (tokens : List Token) : Node → Prop
  | assign {name : String} {expr : Node} : IsExpression tokens expr →
    IsStatement tokens (.assign name expr)
  | expression {expr : Node} : IsExpression tokens expr → IsStatement tokens (.expression expr)

end

/-- What a phrase gives is made of the tokens; more terms or factors, if their left operand is. -/
def Phrase.IsMade (tokens : List Token) : (phrase : Phrase) → phrase.Result → Prop
  | parameters, _ | moreParameters _, _ => True
  | block _, nodes => ∀ node ∈ nodes, IsStatement tokens node
  | statement, node => IsStatement tokens node
  | expression _, node | term _, node | factor _, node => IsExpression tokens node
  | moreTerms _ left, node | moreFactors _ left, node =>
    IsExpression tokens left → IsExpression tokens node
  | arguments, nodes | moreArguments, nodes => ∀ node ∈ nodes, IsExpression tokens node

private theorem mem_of_settle {mode : LineMode} {token : Token} {rest tokens all : List Token}
    (h : settle mode tokens = token :: rest) (hall : tokens ⊆ all) : token ∈ all :=
  hall ((cons_suffix_of_settle h).subset List.mem_cons_self)

private theorem subset_of_settle {mode : LineMode} {token : Token} {rest tokens all : List Token}
    (h : settle mode tokens = token :: rest) (hall : tokens ⊆ all) : rest ⊆ all :=
  List.Subset.trans (suffix_of_cons (cons_suffix_of_settle h)).subset hall

theorem Reads.isMade {phrase : Phrase} {tokens rest : List Token} {result : phrase.Result}
    (h : Reads phrase tokens result rest) {all : List Token} (hall : tokens ⊆ all) :
    phrase.IsMade all result := by
  induction h with
  | noParameters _ _ | someParameters _ _ _ _ _ | nextParameter _ _ _ _ | lastParameter _ _ =>
    exact trivial
  | emptyBlock _ => exact nofun
  | lastStatement _ _ _ ih =>
    intro node hn
    rw [List.mem_singleton.mp hn]
    exact ih (List.Subset.trans (List.dropWhile_suffix _).subset hall)
  | nextStatement _ hs _ _ _ ih ih' =>
    have hall := List.Subset.trans (List.dropWhile_suffix isSeparator).subset hall
    intro node hn
    rcases List.mem_cons.mp hn with rfl | hn
    · exact ih hall
    · exact ih' (List.Subset.trans hs.suffix.subset hall) node hn
  | assign _ _ _ ih =>
    exact .assign (ih fun _ ht => hall (List.mem_cons_of_mem _ (List.mem_cons_of_mem _ ht)))
  | evaluate _ _ ih => exact .expression (ih hall)
  | expression ht _ ih ih' | term ht _ ih ih' =>
    exact ih' (List.Subset.trans ht.suffix.subset hall) (ih hall)
  | lastTerm _ | lastFactor _ => exact id
  | nextTerm hs hop ht _ ih ih' =>
    intro hleft
    have hrest := subset_of_settle hs hall
    exact ih' (List.Subset.trans ht.suffix.subset hrest)
      (.binary (mem_of_settle hs hall) (.inl hop) hleft (ih hrest))
  | nextFactor hs hop ht _ ih ih' =>
    intro hleft
    have hrest := subset_of_settle hs hall
    exact ih' (List.Subset.trans ht.suffix.subset hrest)
      (.binary (mem_of_settle hs hall) (.inr hop) hleft (ih hrest))
  | number hs hk => exact .numeral (mem_of_settle hs hall) hk
  | call hs hk ha _ ih =>
    obtain ⟨_, ha⟩ := accept?_suffix ha
    exact .call (mem_of_settle hs hall) hk
      (ih (List.Subset.trans (suffix_of_cons ha).subset (subset_of_settle hs hall)))
  | lookup hs hk _ => exact .lookup (mem_of_settle hs hall) hk
  | print hs _ _ _ _ ih => exact .print (ih (subset_of_settle hs hall))
  | function hs _ _ _ _ hp ho _ _ _ ih' =>
    have hrest := List.Subset.trans hp.suffix.subset (subset_of_settle hs hall)
    exact .function (ih' (List.Subset.trans (suffix_of_cons (expect_suffix ho)).subset hrest))
  | group hs _ _ _ _ _ _ _ ih => exact ih (subset_of_settle hs hall)
  | noArguments _ | lastArgument _ _ => exact nofun
  | someArguments _ he _ ih ih' =>
    intro node hn
    rcases List.mem_cons.mp hn with rfl | hn
    · exact ih hall
    · exact ih' (List.Subset.trans he.suffix.subset hall) node hn
  | nextArgument ha he _ ih ih' =>
    obtain ⟨_, ha⟩ := accept?_suffix ha
    have hrest := List.Subset.trans (suffix_of_cons ha).subset hall
    intro node hn
    rcases List.mem_cons.mp hn with rfl | hn
    · exact ih hrest
    · exact ih' (List.Subset.trans he.suffix.subset hrest) node hn

/-- A program that is read is made of its tokens. -/
theorem ofTokens_image {tokens : List Token} {program : Node}
    (h : Node.ofTokens tokens = .ok program) :
    ∃ body, program = .program body ∧ ∀ statement ∈ body, IsStatement tokens statement := by
  obtain ⟨body, rfl, hr⟩ := ofTokens_eq_ok_iff.mp h
  exact ⟨body, rfl, hr.isMade (List.Subset.refl tokens)⟩

end Reading

end Douro
