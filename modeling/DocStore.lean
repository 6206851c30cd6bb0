import DocStore.SortedMap
import DocStore.Binary64.Reader
import DocStore.Binary64.Shortest
import DocStore.Calendar.Date
import DocStore.Calendar.Instant
import DocStore.Text.Digest
import DocStore.Json.Written
import DocStore.Json.Printer
import DocStore.Keyspace.Perform
import DocStore.Script.Compiled
import DocStore.Script.Eval
import DocStore.Schema.Reader
import DocStore.Schema.Printer
import DocStore.Operation.Error
import DocStore.Field.Codec
import DocStore.Operation.Build
import DocStore.Store.Rehearsed
import DocStore.Client.ScriptCache
import DocStore.Client.Runner
import DocStore.Client.Answer
import DocStore.Client.Handle
import DocStore.Client.Config
import DocStore.Client.BatchFile
import DocStore.CommandLine.Dispatch
import DocStore.Session.Basic
import DocStore.Main
import DocStore.Proofs.Script.Steps
import DocStore.Proofs.Script.Evaluation
import DocStore.Proofs.Script.Journal
import DocStore.Proofs.Keyspace.Commands
import DocStore.Proofs.Text.Decimal
import DocStore.Proofs.Documents.Model
import DocStore.Proofs.Layout.Slots
import DocStore.Proofs.Documents.Answers
import DocStore.Proofs.Documents.IndexScript
import DocStore.Proofs.Client.Answers
import DocStore.Proofs.Client.Calls
import DocStore.Proofs.Client.Setting
import DocStore.Proofs.Client.Visits
import DocStore.Proofs.Session.FirstSchema
import DocStore.Proofs.Script.Rollback
import DocStore.Proofs.Client.Running
import DocStore.Proofs.Client.Once
import DocStore.Proofs.Client.Agreeing
import DocStore.Proofs.Session.World
import DocStore.Proofs.Field.Shapes
import DocStore.Proofs.Documents.Encoded
import DocStore.Proofs.Documents.Matching
import DocStore.Proofs.Operation.Search
import DocStore.Proofs.Field.RoundTrip
import DocStore.Proofs.Calendar.RoundTrip
import DocStore.Proofs.Script.Reader
import DocStore.Proofs.Script.ReadBack
import DocStore.Proofs.Script.Unambiguous
import DocStore.Proofs.Operation.Texts
import DocStore.Proofs.Operation.Isolation
import DocStore.Proofs.Script.Policy
import DocStore.Proofs.Script.Counters
import DocStore.Proofs.Operation.Draws
import DocStore.Proofs.Operation.Inspection
import DocStore.Proofs.Calendar.Distinct
import DocStore.Proofs.Field.Canonical
import DocStore.Proofs.Documents.Borders
import DocStore.Proofs.Client.Rejected
import DocStore.Proofs.Operation.Shape
import DocStore.Proofs.Layout.Families
import DocStore.Proofs.Session.Spelling
import DocStore.Proofs.Operation.Printed
import DocStore.Proofs.Script.Literal
import DocStore.Proofs.Operation.ReadOnly
import DocStore.Proofs.Keyspace.Atomic
import DocStore.Proofs.Operation.Listed
