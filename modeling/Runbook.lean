import Runbook.Calendar
import Runbook.Cli.Program
import Runbook.Cli.Usage
import Runbook.Document.Node
import Runbook.Document.Scalar
import Runbook.Document.Slots
import Runbook.Document.Source
import Runbook.Error.Failure
import Runbook.Error.Graph
import Runbook.Error.Kind
import Runbook.Error.Problem
import Runbook.Files.Path
import Runbook.Files.Tree
import Runbook.Host.Action
import Runbook.Host.Console
import Runbook.Host.Event
import Runbook.Host.Files
import Runbook.Host.Preferences
import Runbook.Host.Prompt
import Runbook.Host.World
import Runbook.Main
import Runbook.Number.Binary64
import Runbook.Number.Numeral
import Runbook.Number.Power
import Runbook.Number.Shortest
import Runbook.Redaction
import Runbook.Remote.Peer
import Runbook.Remote.Session
import Runbook.Remote.Sftp
import Runbook.Remote.Target
import Runbook.Remote.Transfer
import Runbook.Remote.View
import Runbook.Tags.Interpret
import Runbook.Tags.Memory
import Runbook.Tags.Payload
import Runbook.Task.Basic
import Runbook.Task.Command
import Runbook.Task.Description
import Runbook.Task.Execution
import Runbook.Task.Grammar
import Runbook.Text.Blank
import Runbook.Text.Cased
import Runbook.Text.Digits
import Runbook.Text.Lines
import Runbook.Text.Lower
import Runbook.Text.Printable
import Runbook.Text.Quoted
import Runbook.Text.Replace
import Runbook.Text.Similar
import Runbook.Text.Utf8
import Runbook.Text.Words
import Runbook.Workflow
import Runbook.Yaml.Cursor
import Runbook.Yaml.Document
import Runbook.Yaml.Plain
import Runbook.Yaml.Reading
import Runbook.Yaml.Scalar
import Runbook.Yaml.Token
import Runbook.Yaml.Tokens
import Runbook.Yaml.Tree
import Runbook.Proofs.FileTrees
import Runbook.Proofs.Runs
import Runbook.Proofs.LocalCalls
import Runbook.Proofs.Copies
import Runbook.Proofs.Download
import Runbook.Proofs.UploadWalk
import Runbook.Proofs.Upload
import Runbook.Proofs.Overwriting
import Runbook.Proofs.PathTexts
import Runbook.Proofs.StoredTrees
import Runbook.Proofs.RoundTrip
import Runbook.Proofs.Parsed
import Runbook.Proofs.TaskFields
import Runbook.Proofs.TaskForms
import Runbook.Proofs.References
import Runbook.Proofs.Cycles
import Runbook.Proofs.WorkflowGrammar
import Runbook.Proofs.Expansion
import Runbook.Proofs.Unread
import Runbook.Proofs.Sequences
import Runbook.Proofs.Groups
import Runbook.Proofs.Addresses
import Runbook.Proofs.Agreement
import Runbook.Proofs.Containers
import Runbook.Proofs.Passes
import Runbook.Proofs.Identifiers
import Runbook.Proofs.Shielding
import Runbook.Proofs.Redactions
import Runbook.Proofs.Children
import Runbook.Proofs.Outlines
import Runbook.Proofs.Reworking
import Runbook.Proofs.Idempotence
import Runbook.Proofs.Survival
import Runbook.Proofs.Separate
import Runbook.Proofs.KnownIdents
import Runbook.Proofs.Renderings
import Runbook.Proofs.Calls
import Runbook.Proofs.Sessions
import Runbook.Proofs.Faults
import Runbook.Proofs.Silence
import Runbook.Proofs.Disclosure
import Runbook.Proofs.Failing
import Runbook.Proofs.Refusals
import Runbook.Proofs.CleanUps
import Runbook.Proofs.ReportedFailures
import Runbook.Proofs.Loading
import Runbook.Proofs.IgnoredBlock
import Runbook.Proofs.FirstEntries
import Runbook.Proofs.JobNames
import Runbook.Proofs.Interrupts
import Runbook.Proofs.InterruptedRuns
import Runbook.Proofs.Connections
import Runbook.Proofs.Batches
import Runbook.Proofs.ParsedTrees
import Runbook.Proofs.Locations
import Runbook.Proofs.ShortForms
import Runbook.Proofs.LocalCommands
import Runbook.Proofs.Questions
import Runbook.Proofs.FailingTags
import Runbook.Proofs.TaskTrees
import Runbook.Proofs.RemainingTags
import Runbook.Proofs.ErrorChains
