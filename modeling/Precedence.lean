import Precedence.Word
import Precedence.Text.Blank
import Precedence.Text.Column
import Precedence.Text.Decimal
import Precedence.Binary
import Precedence.Bytes
import Precedence.Text.Lossy
import Precedence.Digest
import Precedence.Time.Date
import Precedence.Time.Instant
import Precedence.Time.Reader
import Precedence.Time.Elapsed
import Precedence.Document
import Precedence.Json.Quoted
import Precedence.Json.Printer
import Precedence.Json.Reader
import Precedence.Json.Parser
import Precedence.Toml.Scalar
import Precedence.Toml.Table
import Precedence.Toml.Parser
import Precedence.Task.Id
import Precedence.Task.Status
import Precedence.Task.Basic
import Precedence.Task.Record
import Precedence.Task.Reader
import Precedence.Graph.Fault
import Precedence.Graph.Basic
import Precedence.Graph.Ranking
import Precedence.Graph.Walk
import Precedence.Graph.Cycle
import Precedence.Graph.Schedule
import Precedence.Graph.CriticalPath
import Precedence.Snapshot
import Precedence.Analyzer.Basic
import Precedence.Analyzer.Consultation
import Precedence.Analyzer.Cache
import Precedence.Settings
import Precedence.Replica.Cell
import Precedence.Replica.Row
import Precedence.Replica.Basic
import Precedence.Replica.Image
import Precedence.Replica.Edit
import Precedence.Replica.Record
import Precedence.Replica.Sidecar
import Precedence.Path
import Precedence.Disk
import Precedence.Failure
import Precedence.Store
import Precedence.Configuration
import Precedence.Replica.File
import Precedence.Project
import Precedence.Command.Basic
import Precedence.Command.Arguments
import Precedence.Command.Answer
import Precedence.Command.Views
import Precedence.Command.Queries
import Precedence.Command.Tasks
import Precedence.Command.Replicas
import Precedence.Command.Run
import Precedence.Main
import Precedence.Proofs.Operation
import Precedence.Proofs.Content
import Precedence.Proofs.Freshness
import Precedence.Proofs.Cycle
import Precedence.Proofs.Backend
import Precedence.Proofs.Session
import Precedence.Proofs.LoadOrder
import Precedence.Proofs.Validity
import Precedence.Proofs.Sharing
import Precedence.Proofs.Refusal
import Precedence.Proofs.History
import Precedence.Proofs.Part
import Precedence.Proofs.Knot
import Precedence.Proofs.CriticalPath
import Precedence.Proofs.Distance
import Precedence.Proofs.Levels
import Precedence.Proofs.Prediction
import Precedence.Proofs.Rewiring
import Precedence.Proofs.Deepening
import Precedence.Proofs.Arrival
import Precedence.Proofs.Superseded
import Precedence.Proofs.Readiness
import Precedence.Proofs.OpenWork
import Precedence.Proofs.Construction
import Precedence.Proofs.PartialReport
import Precedence.Proofs.Lossless
import Precedence.Proofs.Faithful
import Precedence.Proofs.Induced
import Precedence.Proofs.Completion
