import Douro.Position

/-!
# Diagnostics

What a program is told about a fault in its source or in its run: the kind of fault, a message and
a position.

* `Diagnostic.text`: the whole text, `kind: message at line:column`.
-/

namespace Douro

/-- The kinds of fault. -/
inductive DiagnosticKind where
  | lexical
  | grammar
  | unbound
  | type
  | arithmetic
  | arity
deriving DecidableEq

namespace DiagnosticKind

/-- The name of a kind in texts. -/
def name : DiagnosticKind → String
  | lexical => "LexicalError"
  | grammar => "SyntaxError"
  | unbound => "UnboundNameError"
  | type => "TypeError"
  | arithmetic => "ArithmeticError"
  | arity => "ArityError"

end DiagnosticKind

/-- A fault of a program. -/
structure Diagnostic where
  kind : DiagnosticKind
  message : String
  position : Position
deriving DecidableEq

namespace Diagnostic

/-- The whole text. -/
def text (diagnostic : Diagnostic) : String :=
  diagnostic.kind.name ++ ": " ++ diagnostic.message ++ diagnostic.position.suffix

end Diagnostic

end Douro
