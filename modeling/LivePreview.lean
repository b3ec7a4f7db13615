import LivePreview.Asset
import LivePreview.Binary64.Basic
import LivePreview.Binary64.Shortest
import LivePreview.Bundle.Bundler
import LivePreview.Bundle.Engine
import LivePreview.Bundle.Error
import LivePreview.Bundle.Wire
import LivePreview.Bundle.Wrapper
import LivePreview.CommandLine.Arguments
import LivePreview.CommandLine.FileAccess
import LivePreview.CommandLine.FileTree
import LivePreview.CommandLine.Help
import LivePreview.CommandLine.Session
import LivePreview.Config.Basic
import LivePreview.Config.Format
import LivePreview.Config.Wire
import LivePreview.Diagnosis.Basic
import LivePreview.Diagnosis.Classifier
import LivePreview.Diagnosis.Form
import LivePreview.Diagnosis.ImportPatch
import LivePreview.Diagnosis.Kind
import LivePreview.Diagnosis.KnownName
import LivePreview.Diagnosis.Location
import LivePreview.Diagnosis.Remedy
import LivePreview.Diagnosis.Wire
import LivePreview.Document.Basic
import LivePreview.EntryPoint
import LivePreview.FileKind
import LivePreview.Healing.Healer
import LivePreview.Healing.Options
import LivePreview.Healing.RuntimeError
import LivePreview.Healing.Wire
import LivePreview.Healing.Workspace
import LivePreview.Json.Basic
import LivePreview.Json.Document
import LivePreview.Json.Reader
import LivePreview.Linking.Clause
import LivePreview.Linking.Graph
import LivePreview.Linking.Output
import LivePreview.Linking.ScriptBody
import LivePreview.Main
import LivePreview.Path
import LivePreview.Pattern.Basic
import LivePreview.Pattern.CharClass
import LivePreview.Pattern.Matching
import LivePreview.Pattern.Reader
import LivePreview.PreviewMessage
import LivePreview.Repair.Script
import LivePreview.Repair.Service
import LivePreview.Resolution
import LivePreview.Retry.Backoff
import LivePreview.Retry.Queue
import LivePreview.Retry.Scheduler
import LivePreview.Retry.Settings
import LivePreview.Retry.Span
import LivePreview.Retry.Task
import LivePreview.Retry.Wire
import LivePreview.Script.ExportSet
import LivePreview.Script.Form
import LivePreview.Script.Literal
import LivePreview.Script.Structure
import LivePreview.Script.Tags
import LivePreview.Sources
import LivePreview.Text.Blank
import LivePreview.Text.CaseFold
import LivePreview.Text.CodePointRange
import LivePreview.Text.Cursor
import LivePreview.Text.Digit
import LivePreview.Text.Letter
import LivePreview.Text.Lines
import LivePreview.Text.NameSet
import LivePreview.Text.Numeric
import LivePreview.Text.Place
import LivePreview.Text.Quoted
import LivePreview.Text.Reader
import LivePreview.Text.Search
import LivePreview.Text.WordCharacter
import LivePreview.Toml.Basic
import LivePreview.Toml.Layout
import LivePreview.Toml.Number
import LivePreview.Toml.Quoted
import LivePreview.Toml.Statement
import LivePreview.Toml.Table
import LivePreview.Word
import LivePreview.Yaml.Basic
import LivePreview.Yaml.Character
import LivePreview.Yaml.Indentation
import LivePreview.Yaml.Layout
import LivePreview.Yaml.Node
import LivePreview.Yaml.Scalar
import LivePreview.Yaml.Token
import LivePreview.Proofs.Scheduling.Table
import LivePreview.Proofs.Scheduling.Turn
import LivePreview.Proofs.Scheduling.Ledger
import LivePreview.Proofs.Scheduling.Course
import LivePreview.Proofs.Scheduling.Invocations
import LivePreview.Proofs.Scheduling.Journal
import LivePreview.Proofs.Scheduling.Jobs
import LivePreview.Proofs.Scheduling.Coherence
import LivePreview.Proofs.Scheduling.Operations
import LivePreview.Proofs.Scheduling.Delivery
import LivePreview.Proofs.Scheduling.Steps
import LivePreview.Proofs.Scheduling.Settled
import LivePreview.Proofs.Scheduling.Notices
import LivePreview.Proofs.Scheduling.Order
import LivePreview.Proofs.Scheduling.Drained
import LivePreview.Proofs.Pattern.Reading
import LivePreview.Proofs.Pattern.Running
import LivePreview.Proofs.Pattern.Simulation
import LivePreview.Proofs.Pattern.Places
import LivePreview.Proofs.Pattern.Opening
import LivePreview.Proofs.Pattern.Taking
import LivePreview.Proofs.Linking.Replacements
import LivePreview.Proofs.Linking.Turns
import LivePreview.Proofs.Linking.Course
import LivePreview.Proofs.Linking.Growth
import LivePreview.Proofs.Linking.Registry
import LivePreview.Proofs.Linking.BreadthFirst
import LivePreview.Proofs.Linking.Reach
import LivePreview.Proofs.Linking.Names
import LivePreview.Proofs.Linking.Leading
import LivePreview.Proofs.Diagnosis.Frame
import LivePreview.Proofs.Diagnosis.Quiet
import LivePreview.Proofs.Diagnosis.Report
import LivePreview.Proofs.Script.Binding
import LivePreview.Proofs.Script.Brackets
import LivePreview.Proofs.Script.Calls
import LivePreview.Proofs.Script.Termination
import LivePreview.Proofs.Script.Stacking
import LivePreview.Proofs.Script.Statements
import LivePreview.Proofs.Diagnosis.Undefined
import LivePreview.Proofs.Sources.Paths
import LivePreview.Proofs.Sources.Spelling
import LivePreview.Proofs.Sources.Planning
import LivePreview.Proofs.Sources.Alike
import LivePreview.Proofs.Linking.Alike
import LivePreview.Proofs.Script.Merging
import LivePreview.Proofs.Scheduling.Quiet
import LivePreview.Proofs.Scheduling.Discipline
import LivePreview.Proofs.Scheduling.Locks
import LivePreview.Proofs.Scheduling.Books
import LivePreview.Proofs.Scheduling.Effort
import LivePreview.Proofs.Scheduling.Completion
import LivePreview.Proofs.Scheduling.Waiting
import LivePreview.Proofs.Healing.Reports
import LivePreview.Proofs.Healing.Attempts
import LivePreview.Proofs.Healing.Rounds
import LivePreview.Proofs.Healing.Accounts
import LivePreview.Proofs.Healing.Curable
import LivePreview.Proofs.Healing.Cure
import LivePreview.Proofs.Healing.Success
import LivePreview.Proofs.Healing.Attribution
import LivePreview.Proofs.Bundle.Outcome
import LivePreview.Proofs.Bundle.Mounting
import LivePreview.Proofs.Bundle.Protocol
import LivePreview.Proofs.Bundle.Styles
import LivePreview.Proofs.Diagnosis.Remedies
import LivePreview.Proofs.Diagnosis.Structure
import LivePreview.Proofs.Linking.Loading
import LivePreview.Proofs.Linking.Evidence
import LivePreview.Proofs.Script.Integrity
import LivePreview.Proofs.Linking.Declarations
import LivePreview.Proofs.Linking.Exports
import LivePreview.Proofs.Linking.Layout
import LivePreview.Proofs.Linking.Exporting
import LivePreview.Proofs.Linking.Leftovers
import LivePreview.Proofs.Script.Additions
import LivePreview.Proofs.Binary64.Rounding
import LivePreview.Proofs.Bundle.Wrapping
import LivePreview.Proofs.Scheduling.Pacing
import LivePreview.Proofs.Script.Streaming
import LivePreview.Proofs.Text.ByteOrder
import LivePreview.Proofs.Sources.Preparing
import LivePreview.Proofs.Sources.Resolving
import LivePreview.Proofs.Sources.Entrance
import LivePreview.Proofs.Diagnosis.Ranking
import LivePreview.Proofs.Text.Locating
import LivePreview.Proofs.Linking.Bindings
