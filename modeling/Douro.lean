import Douro.Command.Options
import Douro.Command.Path
import Douro.Command.Report
import Douro.Decimal.Arithmetic
import Douro.Decimal.Basic
import Douro.Decimal.Layout
import Douro.Decimal.Reading
import Douro.Decimal.Rounding
import Douro.Diagnostic
import Douro.Json.Basic
import Douro.Json.Reading
import Douro.Json.Writing
import Douro.Machine.Basic
import Douro.Machine.Evaluation
import Douro.Machine.Failure
import Douro.Machine.Log
import Douro.Machine.Operation
import Douro.Machine.Program
import Douro.Machine.Session
import Douro.Main
import Douro.Position
import Douro.Proofs.Command.Emission
import Douro.Proofs.Concatenation
import Douro.Proofs.Content
import Douro.Proofs.Decimal.Accuracy
import Douro.Proofs.Decimal.Closure
import Douro.Proofs.Decimal.Nearest
import Douro.Proofs.Decimal.Operations
import Douro.Proofs.Decimal.Plain
import Douro.Proofs.Decimal.Reading
import Douro.Proofs.Decimal.RoundTrip
import Douro.Proofs.Decimal.Scale
import Douro.Proofs.Json.RoundTrip
import Douro.Proofs.Machine.ActiveCalls
import Douro.Proofs.Machine.Bracketing
import Douro.Proofs.Machine.Coupling
import Douro.Proofs.Machine.Faults
import Douro.Proofs.Machine.Frame
import Douro.Proofs.Machine.Moment
import Douro.Proofs.Machine.Relocation
import Douro.Proofs.Machine.Safety
import Douro.Proofs.Machine.Silence
import Douro.Proofs.Machine.Stack
import Douro.Proofs.Machine.Tracing
import Douro.Proofs.Machine.Triple
import Douro.Proofs.Machine.Truncation
import Douro.Proofs.Machine.Visibility
import Douro.Proofs.Reading.Acceptance
import Douro.Proofs.Reading.Attempt
import Douro.Proofs.Reading.Budget
import Douro.Proofs.Reading.Completion
import Douro.Proofs.Reading.Descent
import Douro.Proofs.Reading.FirstError
import Douro.Proofs.Reading.Grammar
import Douro.Proofs.Reading.Image
import Douro.Proofs.Reading.Layout
import Douro.Proofs.Reading.Listing
import Douro.Proofs.Reading.Lookahead
import Douro.Proofs.Reading.Relocation
import Douro.Proofs.Reading.Rendering
import Douro.Proofs.Reading.Seam
import Douro.Proofs.Reading.Sources
import Douro.Proofs.Reading.Termination
import Douro.Proofs.Scope
import Douro.Proofs.Token.Legality
import Douro.Proofs.Token.Partition
import Douro.Proofs.Token.Seam
import Douro.Proofs.Token.Spacing
import Douro.Proofs.Token.Spelling
import Douro.Proofs.Token.Writing
import Douro.Proofs.Tree.Outline
import Douro.Proofs.Tree.Position
import Douro.Proofs.Tree.RoundTrip
import Douro.Proofs.Tree.Schema
import Douro.Proofs.Tree.Storage
import Douro.Proofs.Tree.Writing
import Douro.Scope
import Douro.Text.Blank
import Douro.Text.Digit
import Douro.Text.LineEnd
import Douro.Text.Printable
import Douro.Text.Quoted
import Douro.Token.Basic
import Douro.Token.Scan
import Douro.Tree.Basic
import Douro.Tree.Display
import Douro.Tree.Outline
import Douro.Tree.Reading
import Douro.Tree.Schema
