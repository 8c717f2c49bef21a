import FormatAudit.Command.Environment
import FormatAudit.Command.Lookup
import FormatAudit.Command.Options
import FormatAudit.Command.Run
import FormatAudit.CommandLine.Request
import FormatAudit.CommandLine.Run
import FormatAudit.CommandLine.Words
import FormatAudit.Config.Basic
import FormatAudit.Config.Load
import FormatAudit.Config.Override
import FormatAudit.Config.Settings
import FormatAudit.Console.Log
import FormatAudit.Console.Pool
import FormatAudit.Console.Report
import FormatAudit.Console.Text
import FormatAudit.Diff.Alignment
import FormatAudit.Diff.Hunk
import FormatAudit.Discovery.Braces
import FormatAudit.Discovery.Extension
import FormatAudit.Discovery.Glob
import FormatAudit.Discovery.Search
import FormatAudit.Envelope
import FormatAudit.Failure
import FormatAudit.FileTree.Basic
import FormatAudit.FileTree.Canonical
import FormatAudit.Findings
import FormatAudit.Intake.Checked
import FormatAudit.Intake.Issue
import FormatAudit.Intake.Scalar
import FormatAudit.Json.Printer
import FormatAudit.Json.Reader
import FormatAudit.Linter.ClangFormat
import FormatAudit.Linter.Pool
import FormatAudit.Linter.Registry
import FormatAudit.Main
import FormatAudit.Number.Binary64
import FormatAudit.Number.Reading
import FormatAudit.Number.Shortest
import FormatAudit.Path
import FormatAudit.Report
import FormatAudit.Session
import FormatAudit.ShellWords
import FormatAudit.Snapshot.Basic
import FormatAudit.Snapshot.Reader
import FormatAudit.Text.Basic
import FormatAudit.Text.Blank
import FormatAudit.Text.Digits
import FormatAudit.Text.Lines
import FormatAudit.Text.Quoted
import FormatAudit.Text.Utf8
import FormatAudit.Text.Width
import FormatAudit.Toml.Reader
import FormatAudit.Toml.Scalar
import FormatAudit.Toml.Tree
import FormatAudit.Value
import FormatAudit.Value.Display
import FormatAudit.Violation.Basic
import FormatAudit.Violation.Recorder
import FormatAudit.Proofs.Diff.Alignment
import FormatAudit.Proofs.Diff.Compare
import FormatAudit.Proofs.Diff.Canonical
import FormatAudit.Proofs.Diff.Replacement
import FormatAudit.Proofs.Violation.Grouping
import FormatAudit.Proofs.Text.Margin
import FormatAudit.Proofs.Text.Pieces
import FormatAudit.Proofs.Violation.Change
import FormatAudit.Proofs.Violation.Location
import FormatAudit.Proofs.Violation.Naming
import FormatAudit.Proofs.Violation.Restoration
import FormatAudit.Proofs.Session.Ensures
import FormatAudit.Proofs.Session.Promises
import FormatAudit.Proofs.Text.Order
import FormatAudit.Proofs.Text.Utf8
import FormatAudit.Proofs.Linter.Pool
import FormatAudit.Proofs.Linter.Check
import FormatAudit.Proofs.Linter.Verdict
import FormatAudit.Proofs.Linter.Jobs
import FormatAudit.Proofs.Linter.Isolation
import FormatAudit.Proofs.Json.Strings
import FormatAudit.Proofs.Json.RoundTrip
import FormatAudit.Proofs.Envelope.RoundTrip
import FormatAudit.Proofs.Discovery.Braces
import FormatAudit.Proofs.Discovery.Extension
import FormatAudit.Proofs.Discovery.Search
import FormatAudit.Proofs.Discovery.Glob
import FormatAudit.Proofs.FileTree.Walk
import FormatAudit.Proofs.Discovery.Exact
import FormatAudit.Proofs.Config.Load
import FormatAudit.Proofs.CommandLine.Unasked
import FormatAudit.Proofs.Config.Outcome
import FormatAudit.Proofs.Discovery.Failure
import FormatAudit.Proofs.Session.Bounds
import FormatAudit.Proofs.Linter.Survival
import FormatAudit.Proofs.Linter.Setup
import FormatAudit.Proofs.Linter.Reporting
import FormatAudit.Proofs.CommandLine.Ending
import FormatAudit.Proofs.CommandLine.Quoting
import FormatAudit.Proofs.CommandLine.Extensions
import FormatAudit.Proofs.Linter.Success
import FormatAudit.Proofs.CommandLine.Misuse
import FormatAudit.Proofs.Linter.Independence
import FormatAudit.Proofs.Diff.LongestKept
import FormatAudit.Proofs.Discovery.Expansion
import FormatAudit.Proofs.Violation.Spacing
import FormatAudit.Proofs.Text.Rendering
import FormatAudit.Proofs.ShellWords
import FormatAudit.Proofs.Config.Settings
import FormatAudit.Proofs.Config.Overlay
import FormatAudit.Proofs.Linter.Commands
import FormatAudit.Proofs.Fields
import FormatAudit.Proofs.Command.Overrides
import FormatAudit.Proofs.Command.Stages
import FormatAudit.Proofs.Command.Streams
import FormatAudit.Proofs.Console.Codes
import FormatAudit.Proofs.Console.Calls
