import Dataflow.Bytes
import Dataflow.Description
import Dataflow.Format
import Dataflow.Json.Error
import Dataflow.Json.Number
import Dataflow.Json.Reader
import Dataflow.Json.Skip
import Dataflow.Json.Text
import Dataflow.Json.Token
import Dataflow.Json.Value
import Dataflow.Json.Writer
import Dataflow.MessagePack.Error
import Dataflow.MessagePack.Head
import Dataflow.MessagePack.Reader
import Dataflow.MessagePack.Value
import Dataflow.MessagePack.Writer
import Dataflow.Model
import Dataflow.Model.Cycle
import Dataflow.Model.Error
import Dataflow.Model.Restore
import Dataflow.Model.Schedule
import Dataflow.Node
import Dataflow.Number.Double
import Dataflow.Number.Integer
import Dataflow.Number.Layout
import Dataflow.Number.Shortest
import Dataflow.Proofs.Adding
import Dataflow.Proofs.Agreement
import Dataflow.Proofs.Asking
import Dataflow.Proofs.Comparing
import Dataflow.Proofs.Coverage
import Dataflow.Proofs.Cycles
import Dataflow.Proofs.Describing
import Dataflow.Proofs.DoubleRange
import Dataflow.Proofs.Expanding
import Dataflow.Proofs.Exploring
import Dataflow.Proofs.Extending
import Dataflow.Proofs.Failures
import Dataflow.Proofs.Frames
import Dataflow.Proofs.Growth
import Dataflow.Proofs.Halting
import Dataflow.Proofs.Isolation
import Dataflow.Proofs.Json.Documents
import Dataflow.Proofs.Json.Grammar
import Dataflow.Proofs.Json.Noticing
import Dataflow.Proofs.Json.Numbers
import Dataflow.Proofs.Json.Numerals
import Dataflow.Proofs.Json.Reading
import Dataflow.Proofs.Json.RoundTrip
import Dataflow.Proofs.Json.Spelling
import Dataflow.Proofs.Json.Text
import Dataflow.Proofs.Json.Tokens
import Dataflow.Proofs.Json.Truncating
import Dataflow.Proofs.Json.Writing
import Dataflow.Proofs.Json.Yielding
import Dataflow.Proofs.Linking
import Dataflow.Proofs.Links
import Dataflow.Proofs.Listing
import Dataflow.Proofs.MessagePack.Describing
import Dataflow.Proofs.MessagePack.Documents
import Dataflow.Proofs.MessagePack.Grammar
import Dataflow.Proofs.MessagePack.Heads
import Dataflow.Proofs.MessagePack.Markers
import Dataflow.Proofs.MessagePack.Reading
import Dataflow.Proofs.MessagePack.Spelling
import Dataflow.Proofs.MessagePack.Truncating
import Dataflow.Proofs.MessagePack.Variants
import Dataflow.Proofs.MessagePack.Yielding
import Dataflow.Proofs.NormalForm
import Dataflow.Proofs.Numbering
import Dataflow.Proofs.Outcomes
import Dataflow.Proofs.Progress
import Dataflow.Proofs.Queueing
import Dataflow.Proofs.Reachable
import Dataflow.Proofs.Reading
import Dataflow.Proofs.Recording
import Dataflow.Proofs.Registration
import Dataflow.Proofs.Relabeling
import Dataflow.Proofs.Renaming
import Dataflow.Proofs.Resaving
import Dataflow.Proofs.Resolving
import Dataflow.Proofs.Restorability
import Dataflow.Proofs.Restoring
import Dataflow.Proofs.RoundTrip
import Dataflow.Proofs.Schedules
import Dataflow.Proofs.Sessions
import Dataflow.Proofs.Sinks
import Dataflow.Proofs.Slots
import Dataflow.Proofs.Storing
import Dataflow.Proofs.Stuck
import Dataflow.Proofs.Sweeping
import Dataflow.Proofs.Traversing
import Dataflow.Proofs.Truncation
import Dataflow.Proofs.Yielding
import Dataflow.Schema
import Dataflow.Schema.Violation
import Dataflow.Scope.Context
import Dataflow.Scope.Frame
import Dataflow.Scope.Registry
import Dataflow.Storage
import Dataflow.Text.Lossy
import Dataflow.Text.Quoted
import Dataflow.Text.Unprintable
import Dataflow.Value
import Dataflow.Value.Attributes
import Dataflow.Value.Normal
