import Descent.Diagnostic.Basic
import Descent.Diagnostic.Catalog
import Descent.Diagnostic.Code
import Descent.Diagnostic.Layout
import Descent.Diagnostic.Span
import Descent.ErrorKind
import Descent.Failure
import Descent.Fault
import Descent.Json.Grammar
import Descent.Main
import Descent.Markup.Forest
import Descent.Markup.Grammar
import Descent.Markup.Node
import Descent.Number.Binary64
import Descent.Number.Decimal
import Descent.Number.IntegerLiteral
import Descent.Number.Numeral
import Descent.Number.Shortest
import Descent.Parse.Guard
import Descent.Parse.Moment
import Descent.Parse.Record
import Descent.Parse.Run
import Descent.Parse.Step
import Descent.Parser.Basic
import Descent.Parser.Checked
import Descent.Parser.Template
import Descent.Source.Basic
import Descent.Source.Position
import Descent.Text.Basic
import Descent.Text.Blank
import Descent.Text.Digit
import Descent.Text.Printable
import Descent.Text.Quoted
import Descent.Text.Utf8
import Descent.Tour
import Descent.Validation.Validator
import Descent.Value.Basic
import Descent.Value.Condition
import Descent.Value.Displayed
import Descent.Value.Transform
import Descent.Proofs.Diagnostic.Reports
import Descent.Proofs.Parse.Equations
import Descent.Proofs.Parse.Frames
import Descent.Proofs.Parse.Refusal
import Descent.Proofs.Parse.Evaluation
import Descent.Proofs.Parse.Unread
import Descent.Proofs.Json.Balance
import Descent.Proofs.Json.Completeness
import Descent.Proofs.Markup.Language
import Descent.Proofs.Parse.Limit
import Descent.Proofs.Parse.Machine
import Descent.Proofs.Parse.Moments
import Descent.Proofs.Parse.Rewinding
import Descent.Proofs.Parse.Provenance
import Descent.Proofs.Json.Diagnostics
import Descent.Proofs.Markup.RoundTrip
import Descent.Proofs.Markup.Planting
import Descent.Proofs.Markup.Edits
import Descent.Proofs.Markup.Replacement
import Descent.Proofs.Markup.Trees
import Descent.Proofs.Markup.Joining
import Descent.Proofs.Markup.Merging
import Descent.Proofs.Markup.Unwrapping
import Descent.Proofs.Parse.Displacement
import Descent.Proofs.Parse.Bulk
import Descent.Proofs.Json.Strings
import Descent.Proofs.Json.Numbers
import Descent.Proofs.Json.Nesting
import Descent.Proofs.Validation.Denotation
import Descent.Proofs.Validation.Reordering
import Descent.Proofs.Parse.Log
import Descent.Proofs.Parse.Choice
import Descent.Proofs.Parse.Sequences
import Descent.Proofs.Template.Spelling
import Descent.Proofs.Template.Matching
import Descent.Proofs.Validation.Equality
import Descent.Proofs.Validation.Offences
import Descent.Proofs.Source.Coordinates
import Descent.Proofs.Source.Excerpts
import Descent.Proofs.Documents.Rejection
import Descent.Proofs.Diagnostic.Lines
import Descent.Proofs.Parse.Rows
import Descent.Proofs.Tour.Parentheses
import Descent.Proofs.Parse.Tracing
import Descent.Proofs.Parse.Repetition
