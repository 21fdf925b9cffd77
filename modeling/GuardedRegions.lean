import GuardedRegions.Command.Arguments
import GuardedRegions.Command.Basic
import GuardedRegions.Command.File
import GuardedRegions.Decimal.Shortest
import GuardedRegions.Document.Basic
import GuardedRegions.Document.Build
import GuardedRegions.Document.Read
import GuardedRegions.Document.Report
import GuardedRegions.Document.Write
import GuardedRegions.Error
import GuardedRegions.Fault
import GuardedRegions.Flow.Dominance
import GuardedRegions.Flow.Drawing
import GuardedRegions.Flow.Graph
import GuardedRegions.Flow.Nearest
import GuardedRegions.Flow.Reach
import GuardedRegions.IdSet
import GuardedRegions.Json.Characters
import GuardedRegions.Json.Decode
import GuardedRegions.Json.Error
import GuardedRegions.Json.Number
import GuardedRegions.Json.Reader
import GuardedRegions.Json.Skip
import GuardedRegions.Json.Value
import GuardedRegions.Main
import GuardedRegions.Method
import GuardedRegions.Proofs.Except
import GuardedRegions.Proofs.Region.Nesting
import GuardedRegions.Region.Basic
import GuardedRegions.Region.Outline
import GuardedRegions.Region.Query
import GuardedRegions.Region.Splice
import GuardedRegions.Region.Valid
import GuardedRegions.Region.Walk
import GuardedRegions.Text.Lines
import GuardedRegions.Text.Printable
import GuardedRegions.Text.Quoted
import GuardedRegions.Trace
import GuardedRegions.TryBlock
import GuardedRegions.Wrapping.Carve
import GuardedRegions.Wrapping.Pending
import GuardedRegions.Wrapping.Reconstruct
import GuardedRegions.Wrapping.Resolve
import GuardedRegions.Wrapping.Search
import GuardedRegions.Proofs.Region.Listed
import GuardedRegions.Proofs.Region.Valid
import GuardedRegions.Proofs.Region.Examination
import GuardedRegions.Proofs.Region.Walk
import GuardedRegions.Proofs.Region.Traversal
import GuardedRegions.Proofs.Region.Query
import GuardedRegions.Proofs.Wrapping.Carve
import GuardedRegions.Proofs.Wrapping.Regroup
import GuardedRegions.Proofs.Wrapping.Sweep
import GuardedRegions.Proofs.Wrapping.Run
import GuardedRegions.Proofs.Wrapping.Visits
import GuardedRegions.Proofs.Wrapping.Atomic
import GuardedRegions.Proofs.Wrapping.Search
import GuardedRegions.Proofs.Wrapping.Beginnings
import GuardedRegions.Proofs.Wrapping.Validity
import GuardedRegions.Proofs.Wrapping.Bodies
import GuardedRegions.Proofs.Wrapping.Hierarchy
import GuardedRegions.Proofs.Wrapping.Limit
import GuardedRegions.Proofs.Wrapping.Ledger
import GuardedRegions.Proofs.Wrapping.Order
import GuardedRegions.Proofs.Wrapping.Fate
import GuardedRegions.Proofs.Warning
import GuardedRegions.Proofs.Wrapping.Outcome
import GuardedRegions.Proofs.Wrapping.Accounting
import GuardedRegions.Proofs.Region.Append
import GuardedRegions.Proofs.Wrapping.Settled
import GuardedRegions.Proofs.Document.Build
import GuardedRegions.Proofs.Document.Consistency
import GuardedRegions.Proofs.Document.Rerun
import GuardedRegions.Proofs.Wrapping.Retry
import GuardedRegions.Proofs.Flow.Dominance
import GuardedRegions.Proofs.Region.Leaves
import GuardedRegions.Proofs.Wrapping.Sequence
import GuardedRegions.Proofs.Wrapping.Traced
import GuardedRegions.Proofs.Document.Sequence
import GuardedRegions.Proofs.Flow.Forward
import GuardedRegions.Proofs.Wrapping.Handlers
import GuardedRegions.Proofs.Document.Handlers
import GuardedRegions.Proofs.Wrapping.Coverage
import GuardedRegions.Proofs.Document.Coverage
import GuardedRegions.Proofs.Flow.Reach
import GuardedRegions.Proofs.Flow.Nearest
import GuardedRegions.Proofs.Wrapping.Layout
import GuardedRegions.Proofs.Document.Lists
import GuardedRegions.Proofs.Document.Failure
import GuardedRegions.Proofs.Flow.Alike
import GuardedRegions.Proofs.Wrapping.Alike
import GuardedRegions.Proofs.Document.Alike
import GuardedRegions.Proofs.Json.Characters
import GuardedRegions.Proofs.Json.Number
import GuardedRegions.Proofs.Json.Value
import GuardedRegions.Proofs.Document.RoundTrip
import GuardedRegions.Proofs.Document.Numbering
import GuardedRegions.Proofs.Text.Lines
import GuardedRegions.Proofs.Region.Text
import GuardedRegions.Proofs.Wrapping.Splice
import GuardedRegions.Proofs.Flow.Drawing
import GuardedRegions.Proofs.Region.Reachable
import GuardedRegions.Proofs.Wrapping.Questions
