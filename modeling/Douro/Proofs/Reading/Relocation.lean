import Douro.Proofs.Reading.Descent
import Douro.Proofs.Tree.Position

/-!
# Reading does not look at positions

A token decides by its kind and its text what is read; its position is only copied into the tree or
into the error. So tokens that have been moved are read as the moved tree, or refused with the moved
error.

* `Relocates`: a way to move tokens, and what it does to positions.
* `read_relocated`: every reading function commutes with it.
* `ofTokens_relocated`: the same for programs.
-/

namespace Douro

/-- The error with the token that it names changed by `move`. -/
def GrammarError.mapToken (move : Token → Token) : GrammarError → GrammarError
  | endBefore expected => endBefore expected
  | endOfExpression => endOfExpression
  | mismatch expected found => mismatch expected (move found)
  | unfinishedStatement found => unfinishedStatement (move found)
  | misplaced found => misplaced (move found)
  | duplicateParameter found => duplicateParameter (move found)
  | budget => budget

namespace Reading

/-- `move` changes nothing of a token but its position, and that by `f`. -/
structure Relocates (move : Token → Token) (f : Position → Position) : Prop where
  kind (token : Token) : (move token).kind = token.kind
  text (token : Token) : (move token).text = token.text
  position (token : Token) : (move token).position = f token.position

namespace Phrase

/-- The phrase with the positions in its left operand changed by `f`. -/
def relocate (f : Position → Position) : Phrase → Phrase
  | moreTerms mode left => moreTerms mode (left.mapPosition f)
  | moreFactors mode left => moreFactors mode (left.mapPosition f)
  | phrase => phrase

/-- What a phrase gives, with its positions changed by `f`. -/
def relocateResult (f : Position → Position) :
    (phrase : Phrase) → phrase.Result → (phrase.relocate f).Result
  | parameters, names | moreParameters _, names => names
  | block _, nodes | arguments, nodes | moreArguments, nodes => Node.mapPositionAll f nodes
  | statement, node | expression _, node | moreTerms _ _, node | term _, node | moreFactors _ _, node
  | factor _, node => node.mapPosition f

end Phrase

/-- The outcome of reading, with the tokens in it changed by `move` and the result by `f`. -/
def relocateOutcome {α β : Type} (move : Token → Token) (f : α → β) :
    Except GrammarError (α × List Token) → Except GrammarError (β × List Token)
  | .ok (result, rest) => .ok (f result, rest.map move)
  | .error e => .error (e.mapToken move)

/-- Two steps commute with a change if each of them does. -/
theorem relocateOutcome_bind {α β α' β' : Type} {move : Token → Token} {f : α → β} {f' : α' → β'}
    {x : Except GrammarError (α × List Token)} {y : Except GrammarError (β × List Token)}
    {k : α × List Token → Except GrammarError (α' × List Token)}
    {k' : β × List Token → Except GrammarError (β' × List Token)}
    (hx : y = relocateOutcome move f x)
    (hk : ∀ result rest, k' (f result, rest.map move) = relocateOutcome move f' (k (result, rest))) :
    (y >>= k') = relocateOutcome move f' (x >>= k) := by
  subst hx
  cases x with
  | error e => rfl
  | ok read => exact hk read.1 read.2

section Relocated

variable {move : Token → Token} {f : Position → Position} (h : Relocates move f)
include h

namespace Relocates

theorem answers (token : Token) (word : String) : (move token).answers word = token.answers word := by
  rw [Token.answers, Token.answers, h.kind, h.text]

theorem inWords (token : Token) : (move token).inWords = token.inWords := by
  rw [Token.inWords, Token.inWords, h.kind, h.text]

/-- The message of an error names no position. -/
theorem message (error : GrammarError) : (error.mapToken move).message = error.message := by
  cases error with
  | mismatch expected found =>
    exact congrArg ("expected " ++ expected ++ ", got " ++ ·) (h.inWords found)
  | unfinishedStatement found =>
    exact congrArg ("expected end of statement, got " ++ ·) (h.inWords found)
  | misplaced found => exact congrArg ("unexpected token " ++ ·) (h.inWords found)
  | duplicateParameter found =>
    exact congrArg ("duplicate parameter " ++ Text.quoted ·) (h.text found)
  | endBefore | endOfExpression | budget => rfl

/-- An error without a position stays without one, if `f` keeps it so. -/
theorem errorPosition (hf : f .unknown = .unknown) (error : GrammarError) :
    (error.mapToken move).position = f error.position := by
  cases error with
  | mismatch _ found | unfinishedStatement found | misplaced found | duplicateParameter found =>
    exact h.position found
  | endBefore | endOfExpression | budget => exact hf.symm

theorem isSeparator (token : Token) : isSeparator (move token) = Reading.isSeparator token := by
  rw [Reading.isSeparator, Reading.isSeparator, h.answers, h.answers]

theorem settle (mode : LineMode) (tokens : List Token) :
    settle mode (tokens.map move) = (Reading.settle mode tokens).map move := by
  cases mode with
  | counted => rfl
  | ignored => simp only [Reading.settle, List.dropWhile_map, Function.comp_def, h.kind]

theorem dropSeparators (tokens : List Token) :
    (tokens.map move).dropWhile Reading.isSeparator =
      (tokens.dropWhile Reading.isSeparator).map move := by
  simp only [List.dropWhile_map, Function.comp_def, h.isSeparator]

theorem blockEnds (closed : Bool) (tokens : List Token) :
    blockEnds closed (tokens.map move) = Reading.blockEnds closed tokens := by
  cases tokens with
  | nil => rfl
  | cons token rest => rw [List.map_cons, Reading.blockEnds, Reading.blockEnds, h.answers]

theorem expect (mode : LineMode) (word : String) (tokens : List Token) :
    expect mode word (tokens.map move) = relocateOutcome move move (Reading.expect mode word tokens) := by
  rw [Reading.expect, Reading.expect, h.settle]
  cases Reading.settle mode tokens with
  | nil => rfl
  | cons token rest =>
    simp only [List.map_cons, h.answers]
    split <;> rfl

theorem accept? (mode : LineMode) (word : String) (tokens : List Token) :
    accept? mode word (tokens.map move) = (Reading.accept? mode word tokens).map (List.map move) := by
  rw [Reading.accept?, Reading.accept?, h.settle]
  cases Reading.settle mode tokens with
  | nil => rfl
  | cons token rest =>
    simp only [List.map_cons, h.answers]
    split <;> rfl

theorem parameter (seen : List String) (tokens : List Token) :
    parameter seen (tokens.map move) = relocateOutcome move id (Reading.parameter seen tokens) := by
  refine relocateOutcome_bind (h.expect _ _ _) fun token rest => ?_
  simp only [h.text]
  split <;> rfl

end Relocates

/-- Within the budget, reading commutes with the move. -/
private def RelocatedWithin (move : Token → Token) (f : Position → Position) (budget : Nat) : Prop :=
  ∀ (phrase : Phrase) (tokens : List Token), (phrase.relocate f).read budget (tokens.map move) =
    relocateOutcome move (phrase.relocateResult f) (phrase.read budget tokens)

section Succ

variable {budget : Nat} {tokens : List Token} (ih : RelocatedWithin move f budget)

private theorem parameters_relocated
    (ih : ∀ seen tokens, moreParameters budget seen (tokens.map move) =
      relocateOutcome move id (moreParameters budget seen tokens)) :
    parameters budget (tokens.map move) = relocateOutcome move id (parameters budget tokens) := by
  refine relocateOutcome_bind (h.expect _ _ _) fun _ rest => ?_
  simp only [h.accept?]
  cases accept? .ignored ")" rest with
  | some rest => rfl
  | none => exact relocateOutcome_bind (h.parameter _ _) fun _ rest => ih _ rest

include ih

private theorem moreParameters_relocated (seen : List String) :
    moreParameters (budget + 1) seen (tokens.map move) =
      relocateOutcome move id (moreParameters (budget + 1) seen tokens) := by
  rw [moreParameters, moreParameters, h.accept?]
  cases accept? .ignored "," tokens with
  | some rest =>
    exact relocateOutcome_bind (h.parameter _ _) fun name rest => ih (.moreParameters _) rest
  | none => exact relocateOutcome_bind (h.expect _ _ _) fun _ _ => rfl

private theorem block_relocated (closed : Bool) :
    block (budget + 1) closed (tokens.map move) =
      relocateOutcome move (Node.mapPositionAll f) (block (budget + 1) closed tokens) := by
  rw [block, block, h.dropSeparators]
  simp only [h.blockEnds]
  split
  · rfl
  refine relocateOutcome_bind (ih .statement _) fun node rest => ?_
  simp only [h.blockEnds]
  split
  · rfl
  cases rest with
  | nil => rfl
  | cons token rest =>
    simp only [List.map_cons, h.isSeparator]
    split
    · exact relocateOutcome_bind (ih (.block closed) (token :: rest)) fun _ _ => rfl
    · rfl

private theorem statement_relocated :
    statement (budget + 1) (tokens.map move) =
      relocateOutcome move (Node.mapPosition f) (statement (budget + 1) tokens) := by
  have hexpression : ∀ tokens : List Token, _ := ih (.expression .counted)
  rw [statement.eq_def, statement.eq_def]
  rcases tokens with _ | ⟨name, _ | ⟨equals, rest⟩⟩
  · exact relocateOutcome_bind (hexpression []) fun _ _ => rfl
  · exact relocateOutcome_bind (hexpression [name]) fun _ _ => rfl
  · simp only [List.map_cons, h.kind, h.answers, h.text]
    split
    · exact relocateOutcome_bind (hexpression rest) fun _ _ => rfl
    · exact relocateOutcome_bind (hexpression (name :: equals :: rest)) fun _ _ => rfl

omit h in
private theorem expression_relocated (mode : LineMode) :
    expression (budget + 1) mode (tokens.map move) =
      relocateOutcome move (Node.mapPosition f) (expression (budget + 1) mode tokens) := by
  rw [expression, expression]
  exact relocateOutcome_bind (ih (.term mode) tokens) fun left rest => ih (.moreTerms mode left) rest

omit h in
private theorem term_relocated (mode : LineMode) :
    term (budget + 1) mode (tokens.map move) =
      relocateOutcome move (Node.mapPosition f) (term (budget + 1) mode tokens) := by
  rw [term, term]
  exact relocateOutcome_bind (ih (.factor mode) tokens) fun left rest =>
    ih (.moreFactors mode left) rest

private theorem moreTerms_relocated (mode : LineMode) (left : Node) :
    moreTerms (budget + 1) mode (left.mapPosition f) (tokens.map move) =
      relocateOutcome move (Node.mapPosition f) (moreTerms (budget + 1) mode left tokens) := by
  rw [moreTerms, moreTerms, h.settle]
  cases settle mode tokens with
  | nil => rfl
  | cons op rest =>
    simp only [List.map_cons, h.answers, h.text, h.position]
    split
    · exact relocateOutcome_bind (ih (.term mode) rest) fun right rest =>
        ih (.moreTerms mode (.binary op.text left right op.position)) rest
    · rfl

private theorem moreFactors_relocated (mode : LineMode) (left : Node) :
    moreFactors (budget + 1) mode (left.mapPosition f) (tokens.map move) =
      relocateOutcome move (Node.mapPosition f) (moreFactors (budget + 1) mode left tokens) := by
  rw [moreFactors, moreFactors, h.settle]
  cases settle mode tokens with
  | nil => rfl
  | cons op rest =>
    simp only [List.map_cons, h.answers, h.text, h.position]
    split
    · exact relocateOutcome_bind (ih (.factor mode) rest) fun right rest =>
        ih (.moreFactors mode (.binary op.text left right op.position)) rest
    · rfl

private theorem factor_relocated (mode : LineMode) :
    factor (budget + 1) mode (tokens.map move) =
      relocateOutcome move (Node.mapPosition f) (factor (budget + 1) mode tokens) := by
  rw [factor, factor, h.settle]
  cases settle mode tokens with
  | nil => rfl
  | cons token rest =>
    simp only [List.map_cons, h.kind, h.answers, h.text, h.position, h.accept?]
    split
    · rfl
    split
    · cases accept? mode "(" rest with
      | some rest => exact relocateOutcome_bind (ih .arguments rest) fun _ _ => rfl
      | none => rfl
    split
    · exact relocateOutcome_bind (ih (.expression mode) rest) fun _ _ => rfl
    split
    · refine relocateOutcome_bind (ih .parameters rest) fun _ rest => ?_
      refine relocateOutcome_bind (h.expect _ _ rest) fun _ rest => ?_
      refine relocateOutcome_bind (ih (.block true) rest) fun _ rest => ?_
      exact relocateOutcome_bind (h.expect _ _ rest) fun _ _ => rfl
    split
    · refine relocateOutcome_bind (ih (.expression .ignored) rest) fun _ rest => ?_
      exact relocateOutcome_bind (h.expect _ _ rest) fun _ _ => rfl
    · rfl

private theorem moreArguments_relocated :
    moreArguments (budget + 1) (tokens.map move) =
      relocateOutcome move (Node.mapPositionAll f) (moreArguments (budget + 1) tokens) := by
  rw [moreArguments, moreArguments, h.accept?]
  cases accept? .ignored "," tokens with
  | some rest =>
    refine relocateOutcome_bind (ih (.expression .ignored) rest) fun _ rest => ?_
    exact relocateOutcome_bind (ih .moreArguments rest) fun _ _ => rfl
  | none => exact relocateOutcome_bind (h.expect _ _ _) fun _ _ => rfl

private theorem arguments_relocated :
    arguments (budget + 1) (tokens.map move) =
      relocateOutcome move (Node.mapPositionAll f) (arguments (budget + 1) tokens) := by
  rw [arguments, arguments, h.accept?]
  cases accept? .ignored ")" tokens with
  | some rest => rfl
  | none =>
    refine relocateOutcome_bind (ih (.expression .ignored) tokens) fun _ rest => ?_
    exact relocateOutcome_bind (ih .moreArguments rest) fun _ _ => rfl

end Succ

/-- Reading moved tokens gives the moved outcome. -/
theorem read_relocated (budget : Nat) (phrase : Phrase) (tokens : List Token) :
    (phrase.relocate f).read budget (tokens.map move) =
      relocateOutcome move (phrase.relocateResult f) (phrase.read budget tokens) := by
  induction budget generalizing phrase tokens with
  | zero =>
    cases phrase with
    | parameters => exact parameters_relocated h fun _ _ => rfl
    | _ => rfl
  | succ budget ih =>
    cases phrase with
    | parameters => exact parameters_relocated h fun seen _ => moreParameters_relocated h ih seen
    | moreParameters seen => exact moreParameters_relocated h ih seen
    | block closed => exact block_relocated h ih closed
    | statement => exact statement_relocated h ih
    | expression mode => exact expression_relocated ih mode
    | moreTerms mode left => exact moreTerms_relocated h ih mode left
    | term mode => exact term_relocated ih mode
    | moreFactors mode left => exact moreFactors_relocated h ih mode left
    | factor mode => exact factor_relocated h ih mode
    | arguments => exact arguments_relocated h ih
    | moreArguments => exact moreArguments_relocated h ih

/-- Moved tokens are the moved program, or refused with the moved error. -/
theorem ofTokens_relocated (tokens : List Token) :
    Node.ofTokens (tokens.map move) =
      ((Node.ofTokens tokens).map (Node.mapPosition f)).mapError (GrammarError.mapToken move) := by
  have hread := read_relocated h (readingBudget tokens.length) (.block false) tokens
  simp only [Phrase.relocate, Phrase.read] at hread
  rw [Node.ofTokens, Node.ofTokens, List.length_map, hread]
  cases block (readingBudget tokens.length) false tokens with
  | error e => rfl
  | ok read => rfl

end Relocated

end Reading

end Douro
