import AgentMarkup.Bus.Basic
import AgentMarkup.Bus.Run
import AgentMarkup.CommandLine.Arguments
import AgentMarkup.CommandLine.Config
import AgentMarkup.CommandLine.Help
import AgentMarkup.CommandLine.Host
import AgentMarkup.CommandLine.Manifest
import AgentMarkup.CommandLine.Program
import AgentMarkup.CommandLine.Report
import AgentMarkup.CommandLine.Session
import AgentMarkup.Comment
import AgentMarkup.Datum.Basic
import AgentMarkup.Datum.Decode
import AgentMarkup.Datum.Reader
import AgentMarkup.Decimal.Binary64
import AgentMarkup.Decimal.Literal
import AgentMarkup.Decimal.Shortest
import AgentMarkup.Diagnostic
import AgentMarkup.Document.Build
import AgentMarkup.Document.Encoding
import AgentMarkup.Document.Node
import AgentMarkup.Extension.Basic
import AgentMarkup.Extension.Registry
import AgentMarkup.Flow.Reader
import AgentMarkup.Flow.Scalar
import AgentMarkup.Flow.Text
import AgentMarkup.Json.Basic
import AgentMarkup.Json.Number
import AgentMarkup.Json.Printer
import AgentMarkup.Json.Reader
import AgentMarkup.Lifecycle.Approve
import AgentMarkup.Lifecycle.Basic
import AgentMarkup.Lifecycle.Builtin
import AgentMarkup.Lifecycle.Observed
import AgentMarkup.Lifecycle.Stream
import AgentMarkup.Lifecycle.Tool
import AgentMarkup.Log
import AgentMarkup.Machine.Basic
import AgentMarkup.Machine.Canonical
import AgentMarkup.Machine.Checksum
import AgentMarkup.Machine.Config
import AgentMarkup.Machine.Definition
import AgentMarkup.Machine.Observed
import AgentMarkup.Main
import AgentMarkup.Parser
import AgentMarkup.Schema.Basic
import AgentMarkup.Schema.Builtin
import AgentMarkup.Schema.Encoding
import AgentMarkup.Table
import AgentMarkup.Text.Blank
import AgentMarkup.Text.Quoted
import AgentMarkup.Text.Unprintable
import AgentMarkup.Token.Basic
import AgentMarkup.Token.Scan
import AgentMarkup.Validation
import AgentMarkup.Proofs.Registry.Operation
import AgentMarkup.Proofs.Registry.Refusal
import AgentMarkup.Proofs.Registry.Ledger
import AgentMarkup.Proofs.Registry.Undo
import AgentMarkup.Proofs.Registry.Visible
import AgentMarkup.Proofs.Document.AttributeRun
import AgentMarkup.Proofs.Document.Family
import AgentMarkup.Proofs.Token.Content
import AgentMarkup.Proofs.Token.Tag
import AgentMarkup.Proofs.Document.Linear
import AgentMarkup.Proofs.Document.ReadBack
import AgentMarkup.Proofs.Machine.Canonical
import AgentMarkup.Proofs.Validation.Conformance
import AgentMarkup.Proofs.Validation.Guarantee
import AgentMarkup.Proofs.Bus.Listeners
import AgentMarkup.Proofs.Bus.Step
import AgentMarkup.Proofs.Bus.Move
import AgentMarkup.Proofs.Bus.Registration
import AgentMarkup.Proofs.Bus.Invocation
import AgentMarkup.Proofs.Bus.Delivery
import AgentMarkup.Proofs.Bus.Once
import AgentMarkup.Proofs.Machine.Closed
import AgentMarkup.Proofs.Machine.Course
import AgentMarkup.Proofs.Lifecycle.Table
import AgentMarkup.Proofs.Machine.Path
import AgentMarkup.Proofs.Lifecycle.Simulation
import AgentMarkup.Proofs.Bus.Persistence
import AgentMarkup.Proofs.Bus.Notice
import AgentMarkup.Proofs.Bus.Roll
import AgentMarkup.Proofs.Bus.Refinement
import AgentMarkup.Proofs.Bus.Ending
import AgentMarkup.Proofs.Machine.Observer
import AgentMarkup.Proofs.Machine.Interleaving
import AgentMarkup.Proofs.Document.Kinds
import AgentMarkup.Proofs.Validation.Place
import AgentMarkup.Proofs.Validation.Reading
import AgentMarkup.Proofs.Validation.Report
import AgentMarkup.Proofs.Validation.Distinct
import AgentMarkup.Proofs.Document.Nesting
import AgentMarkup.Proofs.Comment.Cut
import AgentMarkup.Proofs.Token.Span
import AgentMarkup.Proofs.Token.Grammar
import AgentMarkup.Proofs.Token.Position
import AgentMarkup.Proofs.Token.Moved
import AgentMarkup.Proofs.Document.Moved
import AgentMarkup.Proofs.Document.Commented
import AgentMarkup.Proofs.Document.Depth
import AgentMarkup.Proofs.Parser.Options
import AgentMarkup.Proofs.Bus.Altered
import AgentMarkup.Proofs.Bus.SideBySide
import AgentMarkup.Proofs.Bus.Isolation
import AgentMarkup.Proofs.Decimal.Grammar
import AgentMarkup.Proofs.Decimal.Value
import AgentMarkup.Proofs.Decimal.Rounding
import AgentMarkup.Proofs.Schema.Number
import AgentMarkup.Proofs.Machine.FirstFault
import AgentMarkup.Proofs.Datum.Encoded
import AgentMarkup.Proofs.Machine.Encoding
import AgentMarkup.Proofs.Machine.Refusal
import AgentMarkup.Proofs.Registry.Precedence
import AgentMarkup.Proofs.Document.Encoding
import AgentMarkup.Proofs.Extension.Encoding
import AgentMarkup.Proofs.Machine.Checksum
import AgentMarkup.Proofs.CommandLine.Run
import AgentMarkup.Proofs.Document.Query
import AgentMarkup.Proofs.Parser.Pointing
import AgentMarkup.Proofs.Registry.Consistent
import AgentMarkup.Proofs.Text.Phrase
import AgentMarkup.Proofs.CommandLine.Session
import AgentMarkup.Proofs.Comment.Stripped
import AgentMarkup.Proofs.Comment.Exact
