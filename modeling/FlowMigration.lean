import FlowMigration.Command.Arguments
import FlowMigration.Command.FileStore
import FlowMigration.Command.Indent
import FlowMigration.Command.Program
import FlowMigration.Command.Request
import FlowMigration.Entries
import FlowMigration.Flow.Conformance
import FlowMigration.Flow.Log
import FlowMigration.Flow.Migration
import FlowMigration.Flow.MigrationError
import FlowMigration.Flow.NodeData
import FlowMigration.Flow.Report
import FlowMigration.Flow.ReportReader
import FlowMigration.Json.Grammar
import FlowMigration.Json.Number
import FlowMigration.Json.Reader
import FlowMigration.Json.Reader.Container
import FlowMigration.Json.Reader.Number
import FlowMigration.Json.Reader.Quoted
import FlowMigration.Json.Scan
import FlowMigration.Json.Value
import FlowMigration.Json.Writer
import FlowMigration.Text.Hex
import FlowMigration.Text.Numeral
import FlowMigration.Main
import FlowMigration.Proofs.Entries
import FlowMigration.Proofs.Json.Member
import FlowMigration.Proofs.Flow.NodeData
import FlowMigration.Proofs.Flow.Result
import FlowMigration.Proofs.Flow.Conformance
import FlowMigration.Proofs.Flow.Stability
import FlowMigration.Proofs.Flow.Quiet
import FlowMigration.Proofs.Flow.Accounting
import FlowMigration.Proofs.Flow.FixedPoint
import FlowMigration.Proofs.Flow.Frame
import FlowMigration.Proofs.Flow.Fault
import FlowMigration.Proofs.Flow.Wrapper
import FlowMigration.Proofs.Flow.NodeList
import FlowMigration.Proofs.Json.Reader.Basic
import FlowMigration.Proofs.Json.Reader.Number
import FlowMigration.Proofs.Json.Number
import FlowMigration.Proofs.Json.Reader.Container
import FlowMigration.Proofs.Json.Reader.Marked
import FlowMigration.Proofs.Json.Reader
import FlowMigration.Proofs.Command.Conversion
import FlowMigration.Proofs.Command.Acceptance
import FlowMigration.Proofs.Command.Log
import FlowMigration.Proofs.Command.FileStore
import FlowMigration.Proofs.Command.Request
import FlowMigration.Proofs.Command.Session
import FlowMigration.Proofs.Json.Reader.Follows
import FlowMigration.Proofs.Flow.ReportReader
import FlowMigration.Proofs.Command.Indent
import FlowMigration.Proofs.Command.Arguments
import FlowMigration.Proofs.Command.StandardError
import FlowMigration.Proofs.Command.Program
import FlowMigration.Proofs.Flow.NodeValue
import FlowMigration.Proofs.Flow.NodeOrder
import FlowMigration.Proofs.Flow.Reordering
import FlowMigration.Proofs.Flow.Uuid
import FlowMigration.Proofs.Flow.Identifier
import FlowMigration.Proofs.Flow.UuidForm
import FlowMigration.Proofs.Flow.UuidOrder
import FlowMigration.Proofs.Flow.Depth
import FlowMigration.Proofs.Json.RoundTrip
import FlowMigration.Proofs.Json.Brackets
import FlowMigration.Proofs.Json.Layout
import FlowMigration.Proofs.Text.Lines
import FlowMigration.Proofs.Command.IndentSetting
