import Douro.Proofs.Token.Writing
import Douro.Tree.Basic

/-!
# Trees that are written down

A tree of statements and expressions is written as words: statements with newlines between them,
arguments and parameters with commas. An operand has to be enclosed in parentheses where reading
would take it apart: a sum under a product, a right operand of the same level, and a left operand
that ends in a `print`, which would take the operator behind it.

* `IsSourceExpression`, `IsSourceStatement`, `IsSourceProgram`: the trees that a source can say.
* `Style`: when to enclose; `Style.minimal` where it is needed, `Style.full` everywhere.
* `Style.write`: the source of a tree.
* `Style.spelled_of_program`: all words of a tree are spelled.
-/

namespace Douro

/-! ## Trees of a source -/

mutual

/-- An expression that a source can say. -/
inductive IsSourceExpression : Node → Prop
  | numeral {text : String} : TokenKind.number.Spells text → IsSourceExpression (.numeral text)
  | lookup {name : String} {position : Position} : TokenKind.identifier.Spells name →
    IsSourceExpression (.lookup name position)
  | call {name : String} {args : List Node} {position : Position} :
    TokenKind.identifier.Spells name → (∀ arg ∈ args, IsSourceExpression arg) →
    IsSourceExpression (.call name args position)
  | print {expr : Node} : IsSourceExpression expr → IsSourceExpression (.print expr)
  | binary {op : String} {left right : Node} {position : Position} :
    op ∈ ["+", "-", "*", "/"] → IsSourceExpression left → IsSourceExpression right →
    IsSourceExpression (.binary op left right position)
  | function {params : List String} {body : List Node} :
    (∀ name ∈ params, TokenKind.identifier.Spells name) → params.Nodup →
    (∀ statement ∈ body, IsSourceStatement statement) →
    IsSourceExpression (.literal (.function params body))

/-- A statement that a source can say. -/
inductive IsSourceStatement : Node → Prop
  | assign {name : String} {expr : Node} : TokenKind.identifier.Spells name →
    IsSourceExpression expr → IsSourceStatement (.assign name expr)
  | expression {expr : Node} : IsSourceExpression expr → IsSourceStatement (.expression expr)

end

/-- A program that a source can say. -/
def IsSourceProgram : Node → Prop
  | .program body => ∀ statement ∈ body, IsSourceStatement statement
  | _ => False

/-! ## Levels -/

/-- How tight an expression holds together. -/
inductive Level where
  | sum
  | product
  | factor
deriving DecidableEq

/-- The level of what an operator makes. -/
def Level.ofOperator (op : String) : Level := if op = "*" ∨ op = "/" then .product else .sum

theorem Level.ofOperator_ne_factor (op : String) : ofOperator op ≠ .factor := by
  unfold ofOperator
  split <;> decide

/-- How tight a level is. -/
def Level.tightness : Level → Nat
  | .sum => 0
  | .product => 1
  | .factor => 2

theorem Level.tightness_le_factor (level : Level) : level.tightness ≤ Level.factor.tightness := by
  cases level <;> decide

/-- The level of an expression. -/
def Node.level : Node → Level
  | .binary op _ _ _ => .ofOperator op
  | _ => .factor

/-- Is the operand a sum or a difference, and the operator that of a product or a quotient? -/
def Node.sumUnderProduct (op : String) (operand : Node) : Bool :=
  Level.ofOperator op = .product && operand.level = .sum

/-- Does a right operand have to be enclosed? -/
def Node.enclosedRight (op : String) (right : Node) : Bool :=
  right.sumUnderProduct op || right.level = .ofOperator op

/-- An operand that is no sum under a product is as tight as its operator. -/
theorem Node.tightness_of_not_sumUnderProduct {op : String} {operand : Node}
    (h : operand.sumUnderProduct op = false) :
    (Level.ofOperator op).tightness ≤ operand.level.tightness := by
  simp only [sumUnderProduct, Bool.and_eq_false_iff, decide_eq_false_iff_not] at h
  have hop := Level.ofOperator_ne_factor op
  cases hl : Level.ofOperator op <;> cases hl' : operand.level <;> simp_all [Level.tightness]

/-- A right operand that need not be enclosed is tighter than its operator. -/
theorem Node.tightness_of_not_enclosedRight {op : String} {right : Node}
    (h : right.enclosedRight op = false) :
    (Level.ofOperator op).tightness < right.level.tightness := by
  rw [enclosedRight, Bool.or_eq_false_iff, decide_eq_false_iff_not] at h
  have hle := tightness_of_not_sumUnderProduct h.1
  refine Nat.lt_of_le_of_ne hle fun heq => h.2 ?_
  cases hop : Level.ofOperator op <;> cases hl : right.level <;> simp_all [Level.tightness]

/-! ## Words -/

/-- Lists one behind the other, with `sep` between them. -/
def separated {α : Type} (sep : α) : List (List α) → List α
  | [] => []
  | first :: others => first ++ others.flatMap (sep :: ·)

theorem map_separated {α β : Type} (f : α → β) (sep : α) (items : List (List α)) :
    (separated sep items).map f = separated (f sep) (items.map (List.map f)) := by
  cases items with
  | nil => rfl
  | cons first others =>
    simp only [separated, List.map_append, List.map_cons, List.map_flatMap, List.flatMap_map]

namespace Word

/-- Words in parentheses. -/
def enclosed (words : List Word) : List Word := mark "(" :: words ++ [mark ")"]

end Word

/-- Which expressions are enclosed in parentheses. Those that need it are. -/
structure Style where
  encloses (needed : Bool) (node : Node) : Bool
  encloses_needed (node : Node) : encloses true node = true

namespace Style

/-- Only where it is needed. -/
def minimal : Style := ⟨fun needed _ => needed, fun _ => rfl⟩

/-- Everywhere. -/
def full : Style := ⟨fun _ _ => true, fun _ => rfl⟩

variable (style : Style)

/-- Is the last part of an expression that is not enclosed a `print`? -/
def endsInPrint : Node → Bool
  | .print _ => true
  | .binary op _ right _ => !style.encloses (right.enclosedRight op) right && endsInPrint right
  | _ => false

/-- Does a left operand have to be enclosed? -/
def enclosedLeft (op : String) (left : Node) : Bool :=
  left.sumUnderProduct op || style.endsInPrint left

/-- The words of an expression in its place, which may need parentheses. -/
def place (needed : Bool) (node : Node) (words : List Word) : List Word :=
  if style.encloses needed node then Word.enclosed words else words

mutual

/-- The words of a tree. -/
def words : Node → List Word
  | .numeral text => [⟨.number, text⟩]
  | .lookup name _ => [⟨.identifier, name⟩]
  | .call name args _ =>
    ⟨.identifier, name⟩ :: Word.enclosed (separated (.mark ",") (argumentWords args))
  | .print expr => ⟨.keyword, "print"⟩ :: style.place false expr (words expr)
  | .binary op left right _ =>
    style.place (style.enclosedLeft op left) left (words left) ++
      ⟨.operator, op⟩ :: style.place (right.enclosedRight op) right (words right)
  | .literal value => words value
  | .function params body =>
    ⟨.keyword, "function"⟩ ::
      (Word.enclosed (separated (.mark ",") (params.map fun name => [⟨.identifier, name⟩])) ++
        Word.enclosed (separated .newline (statementWords body)))
  | .assign name expr => ⟨.identifier, name⟩ :: .mark "=" :: style.place false expr (words expr)
  | .expression expr => style.place false expr (words expr)
  | .program body => separated .newline (statementWords body)
  | .absent | .number _ => []

/-- The words of each of some arguments. -/
def argumentWords : List Node → List (List Word)
  | [] => []
  | arg :: args => style.place false arg (words arg) :: argumentWords args

/-- The words of each of some statements. -/
def statementWords : List Node → List (List Word)
  | [] => []
  | statement :: statements => words statement :: statementWords statements

end

/-- The source of a tree. -/
def write (node : Node) : String := Word.spellOut (style.words node)

theorem argumentWords_eq_map (args : List Node) :
    style.argumentWords args = args.map fun arg => style.place false arg (style.words arg) := by
  induction args with
  | nil => rfl
  | cons arg args ih => rw [argumentWords, ih, List.map_cons]

theorem statementWords_eq_map (statements : List Node) :
    style.statementWords statements = statements.map style.words := by
  induction statements with
  | nil => rfl
  | cons statement statements ih => rw [statementWords, ih, List.map_cons]

/-! ## The words are spelled -/

theorem spelled_enclosed {words : List Word} (h : ∀ word ∈ words, word.Spelled) :
    ∀ word ∈ Word.enclosed words, word.Spelled := by
  intro word hw
  simp only [Word.enclosed, List.cons_append, List.mem_cons, List.mem_append, List.not_mem_nil,
    or_false] at hw
  rcases hw with rfl | hw | rfl
  · exact Word.spelled_mark (by decide)
  · exact h word hw
  · exact Word.spelled_mark (by decide)

theorem spelled_separated {sep : Word} {items : List (List Word)} (hs : sep.Spelled)
    (h : ∀ item ∈ items, ∀ word ∈ item, word.Spelled) :
    ∀ word ∈ separated sep items, word.Spelled := by
  cases items with
  | nil => nofun
  | cons first others =>
    rw [List.forall_mem_cons] at h
    intro word hw
    rcases List.mem_append.mp hw with hw | hw
    · exact h.1 word hw
    · obtain ⟨item, hi, hw⟩ := List.mem_flatMap.mp hw
      rcases List.mem_cons.mp hw with rfl | hw
      · exact hs
      · exact h.2 item hi word hw

theorem spelled_place {words : List Word} (h : ∀ word ∈ words, word.Spelled) (needed : Bool)
    (node : Node) : ∀ word ∈ style.place needed node words, word.Spelled := by
  unfold place
  split
  · exact spelled_enclosed h
  · exact h

mutual

theorem spelled_of_expression : {node : Node} → IsSourceExpression node →
    ∀ word ∈ style.words node, word.Spelled
  | _, .numeral h => List.forall_mem_singleton.mpr h
  | _, .lookup h => List.forall_mem_singleton.mpr h
  | _, .call h hargs => by
    rw [words, argumentWords_eq_map]
    refine List.forall_mem_cons.mpr ⟨h, ?_⟩
    refine spelled_enclosed (spelled_separated (Word.spelled_mark (by decide)) ?_)
    rw [List.forall_mem_map]
    exact fun arg ha => style.spelled_place (spelled_of_expression (hargs arg ha)) _ _
  | _, .print h => by
    rw [words]
    exact List.forall_mem_cons.mpr ⟨.inl rfl, style.spelled_place (spelled_of_expression h) _ _⟩
  | _, .binary hop hleft hright => by
    rw [words, List.forall_mem_append, List.forall_mem_cons]
    exact ⟨style.spelled_place (spelled_of_expression hleft) _ _, hop,
      style.spelled_place (spelled_of_expression hright) _ _⟩
  | _, .function hparams _ hbody => by
    rw [words, words, statementWords_eq_map, List.forall_mem_cons, List.forall_mem_append]
    refine ⟨.inr rfl, spelled_enclosed (spelled_separated (Word.spelled_mark (by decide)) ?_),
      spelled_enclosed (spelled_separated rfl ?_)⟩
    · rw [List.forall_mem_map]
      exact fun name hn => List.forall_mem_singleton.mpr (hparams name hn)
    · rw [List.forall_mem_map]
      exact fun statement hs => spelled_of_statement (hbody statement hs)

theorem spelled_of_statement : {node : Node} → IsSourceStatement node →
    ∀ word ∈ style.words node, word.Spelled
  | _, .assign hname h => by
    rw [words, List.forall_mem_cons, List.forall_mem_cons]
    exact ⟨hname, Word.spelled_mark (by decide), style.spelled_place (spelled_of_expression h) _ _⟩
  | _, .expression h => by
    rw [words]
    exact style.spelled_place (spelled_of_expression h) _ _

end

theorem spelled_of_program {body : List Node} (h : IsSourceProgram (.program body)) :
    ∀ word ∈ style.words (.program body), word.Spelled := by
  rw [words, statementWords_eq_map]
  refine spelled_separated rfl ?_
  rw [List.forall_mem_map]
  exact fun statement hs => style.spelled_of_statement (h statement hs)

end Style

end Douro
