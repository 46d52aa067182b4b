import Douro.Diagnostic
import Douro.Token.Scan
import Douro.Tree.Basic

/-!
# From tokens to trees

Products bind tighter than sums, both from left to right; `print` takes the whole expression behind
it. A newline or a semicolon ends a statement. Inside the parentheses of a group, of arguments or of
parameters newlines do not count; inside the body of a function they do.

Each reading function takes the tokens that are left and gives a node and the tokens behind it. All
of them share a budget for their nesting. `readingBudget` is more than any list of tokens needs.

* `Node.ofTokens`: the program of a list of tokens.
* `Node.ofSource`: the program of a source.
-/

namespace Douro

/-! ## Errors -/

/-- Why tokens are not a program. -/
inductive GrammarError where
  /-- The tokens end where a certain one has to come. -/
  | endBefore (expected : String)
  /-- The tokens end where an expression has to come. -/
  | endOfExpression
  /-- Another token stands where a certain one has to come. -/
  | mismatch (expected : String) (found : Token)
  /-- A statement is followed by something other than its end. -/
  | unfinishedStatement (found : Token)
  /-- A token starts no expression. -/
  | misplaced (found : Token)
  /-- A parameter has the name of an earlier one. -/
  | duplicateParameter (found : Token)
  /-- The budget for nesting is used up. -/
  | budget
deriving DecidableEq

namespace GrammarError

/-- What is wrong. -/
def message : GrammarError → String
  | endBefore expected => "unexpected end of input, expected " ++ expected
  | endOfExpression => "unexpected end of input in expression"
  | mismatch expected found => "expected " ++ expected ++ ", got " ++ found.inWords
  | unfinishedStatement found => "expected end of statement, got " ++ found.inWords
  | misplaced found => "unexpected token " ++ found.inWords
  | duplicateParameter found => "duplicate parameter " ++ Text.quoted found.text
  | budget => "program is nested too deep"

/-- Where it is wrong. An end of the tokens has no position. -/
def position : GrammarError → Position
  | mismatch _ found => found.position
  | unfinishedStatement found => found.position
  | misplaced found => found.position
  | duplicateParameter found => found.position
  | endBefore _ | endOfExpression | budget => Position.unknown

end GrammarError

/-- Why a source is not a program. -/
inductive SourceError where
  | lexical (error : LexicalError)
  | grammar (error : GrammarError)
deriving DecidableEq

namespace SourceError

/-- The error as a fault of the program. -/
def diagnostic : SourceError → Diagnostic
  | lexical error => ⟨.lexical, error.message, error.place.toPosition⟩
  | grammar error => ⟨.grammar, error.message, error.position⟩

end SourceError

/-! ## Looking at tokens -/

/-- Do newlines count? -/
inductive LineMode where
  | counted
  | ignored
deriving DecidableEq

namespace Reading

/-- The tokens from the next one that counts. -/
def settle (mode : LineMode) (tokens : List Token) : List Token :=
  match mode with
  | .counted => tokens
  | .ignored => tokens.dropWhile fun token => token.kind = .newline

/-- The next token, which has to answer to `word`, and those behind it. -/
def expect (mode : LineMode) (word : String) (tokens : List Token) :
    Except GrammarError (Token × List Token) :=
  match settle mode tokens with
  | [] => .error (.endBefore word)
  | token :: rest => if token.answers word then .ok (token, rest) else .error (.mismatch word token)

/-- The tokens behind the next one, if that answers to `word`. -/
def accept? (mode : LineMode) (word : String) (tokens : List Token) : Option (List Token) :=
  match settle mode tokens with
  | [] => none
  | token :: rest => if token.answers word then some rest else none

/-- Does a token end a statement? -/
def isSeparator (token : Token) : Bool :=
  token.answers TokenKind.newline.name || token.answers ";"

/-- Is a block at its end? The block of a program ends with the tokens, the body of a function at a
closing parenthesis. -/
def blockEnds (closed : Bool) : List Token → Bool
  | [] => true
  | token :: _ => closed && token.answers ")"

/-! ## Parameters -/

/-- One parameter that is not among those in `seen`. -/
def parameter (seen : List String) (tokens : List Token) :
    Except GrammarError (String × List Token) := do
  let (token, rest) ← expect .ignored TokenKind.identifier.name tokens
  if seen.contains token.text then .error (.duplicateParameter token)
  else .ok (token.text, rest)

/-- The parameters behind those in `seen`, each after a comma, and the closing parenthesis. -/
def moreParameters : (budget : Nat) → (seen : List String) → List Token →
    Except GrammarError (List String × List Token)
  | 0, _, _ => .error .budget
  | budget + 1, seen, tokens =>
    match accept? .ignored "," tokens with
    | some rest => do
      let (name, rest) ← parameter seen rest
      moreParameters budget (seen ++ [name]) rest
    | none => do
      let (_, rest) ← expect .ignored ")" tokens
      .ok (seen, rest)

/-- The parameters of a function and both their parentheses. -/
def parameters (budget : Nat) (tokens : List Token) :
    Except GrammarError (List String × List Token) := do
  let (_, tokens) ← expect .ignored "(" tokens
  match accept? .ignored ")" tokens with
  | some rest => .ok ([], rest)
  | none =>
    let (name, rest) ← parameter [] tokens
    moreParameters budget [name] rest

/-! ## Statements and expressions -/

mutual

/-- The statements of a block, up to its end. -/
def block : (budget : Nat) → (closed : Bool) → List Token →
    Except GrammarError (List Node × List Token)
  | 0, _, _ => .error .budget
  | budget + 1, closed, tokens =>
    let tokens := tokens.dropWhile isSeparator
    if blockEnds closed tokens then .ok ([], tokens)
    else do
      let (node, rest) ← statement budget tokens
      if blockEnds closed rest then .ok ([node], rest)
      else
        match rest with
        | [] => .ok ([node], rest)
        | token :: _ =>
          if isSeparator token then
            let (nodes, rest) ← block budget closed rest
            .ok (node :: nodes, rest)
          else .error (.unfinishedStatement token)

/-- A statement. A name with an equals sign behind it is assigned to. -/
def statement : (budget : Nat) → List Token → Except GrammarError (Node × List Token)
  | 0, _ => .error .budget
  | budget + 1, tokens =>
    match tokens with
    | name :: equals :: rest =>
      if name.kind = .identifier ∧ equals.answers "=" then do
        let (node, rest) ← expression budget .counted rest
        .ok (.assign name.text node, rest)
      else do
        let (node, rest) ← expression budget .counted tokens
        .ok (.expression node, rest)
    | _ => do
      let (node, rest) ← expression budget .counted tokens
      .ok (.expression node, rest)

/-- An expression: a sum of terms. -/
def expression : (budget : Nat) → LineMode → List Token →
    Except GrammarError (Node × List Token)
  | 0, _, _ => .error .budget
  | budget + 1, mode, tokens => do
    let (left, rest) ← term budget mode tokens
    moreTerms budget mode left rest

/-- The terms that are added to `left` or taken from it. -/
def moreTerms : (budget : Nat) → LineMode → (left : Node) → List Token →
    Except GrammarError (Node × List Token)
  | 0, _, _, _ => .error .budget
  | budget + 1, mode, left, tokens =>
    match settle mode tokens with
    | [] => .ok (left, tokens)
    | op :: rest =>
      if op.answers "+" || op.answers "-" then do
        let (right, rest) ← term budget mode rest
        moreTerms budget mode (.binary op.text left right op.position) rest
      else .ok (left, tokens)

/-- A term: a product of factors. -/
def term : (budget : Nat) → LineMode → List Token → Except GrammarError (Node × List Token)
  | 0, _, _ => .error .budget
  | budget + 1, mode, tokens => do
    let (left, rest) ← factor budget mode tokens
    moreFactors budget mode left rest

/-- The factors that `left` is multiplied or divided by. -/
def moreFactors : (budget : Nat) → LineMode → (left : Node) → List Token →
    Except GrammarError (Node × List Token)
  | 0, _, _, _ => .error .budget
  | budget + 1, mode, left, tokens =>
    match settle mode tokens with
    | [] => .ok (left, tokens)
    | op :: rest =>
      if op.answers "*" || op.answers "/" then do
        let (right, rest) ← factor budget mode rest
        moreFactors budget mode (.binary op.text left right op.position) rest
      else .ok (left, tokens)

/-- A factor: a number, a name, a call, a `print`, a function or a group. -/
def factor : (budget : Nat) → LineMode → List Token → Except GrammarError (Node × List Token)
  | 0, _, _ => .error .budget
  | budget + 1, mode, tokens =>
    match settle mode tokens with
    | [] => .error .endOfExpression
    | token :: rest =>
      if token.kind = .number then .ok (.numeral token.text, rest)
      else if token.kind = .identifier then
        match accept? mode "(" rest with
        | some rest => do
          let (args, rest) ← arguments budget rest
          .ok (.call token.text args token.position, rest)
        | none => .ok (.lookup token.text token.position, rest)
      else if token.answers "print" then do
        let (node, rest) ← expression budget mode rest
        .ok (.print node, rest)
      else if token.answers "function" then do
        let (params, rest) ← parameters budget rest
        let (_, rest) ← expect .ignored "(" rest
        let (body, rest) ← block budget true rest
        let (_, rest) ← expect mode ")" rest
        .ok (.literal (.function params body), rest)
      else if token.answers "(" then do
        let (node, rest) ← expression budget .ignored rest
        let (_, rest) ← expect .ignored ")" rest
        .ok (node, rest)
      else .error (.misplaced token)

/-- The arguments of a call behind the opening parenthesis, and the closing one. -/
def arguments : (budget : Nat) → List Token → Except GrammarError (List Node × List Token)
  | 0, _ => .error .budget
  | budget + 1, tokens =>
    match accept? .ignored ")" tokens with
    | some rest => .ok ([], rest)
    | none => do
      let (node, rest) ← expression budget .ignored tokens
      let (nodes, rest) ← moreArguments budget rest
      .ok (node :: nodes, rest)

/-- The arguments behind the first, each after a comma, and the closing parenthesis. -/
def moreArguments : (budget : Nat) → List Token → Except GrammarError (List Node × List Token)
  | 0, _ => .error .budget
  | budget + 1, tokens =>
    match accept? .ignored "," tokens with
    | some rest => do
      let (node, rest) ← expression budget .ignored rest
      let (nodes, rest) ← moreArguments budget rest
      .ok (node :: nodes, rest)
    | none => do
      let (_, rest) ← expect .ignored ")" tokens
      .ok ([], rest)

end

end Reading

/-! ## Programs -/

/-- How deep the reading functions may call each other for a number of tokens: a token opens at most
eight levels. -/
def readingBudget (tokenCount : Nat) : Nat := 8 * (tokenCount + 1)

namespace Node

/-- The program of a list of tokens. -/
def ofTokens (tokens : List Token) : Except GrammarError Node := do
  let (body, _) ← Reading.block (readingBudget tokens.length) false tokens
  return .program body

/-- The program of a source. -/
def ofSource (source : String) : Except SourceError Node :=
  match scanSource source with
  | .error error => .error (.lexical error)
  | .ok tokens => (ofTokens tokens).mapError .grammar

end Node

end Douro
