import Dataflow.Arena
import Dataflow.Arena.Lemmas
import Dataflow.Channel
import Dataflow.Cli.Command
import Dataflow.Cli.Help
import Dataflow.Cli.Program
import Dataflow.Cli.Report
import Dataflow.Cli.Session
import Dataflow.Clock
import Dataflow.Clock.Lemmas
import Dataflow.Config
import Dataflow.Decimal.Layout
import Dataflow.Decimal.Shortest
import Dataflow.Duration
import Dataflow.Engine.Basic
import Dataflow.Engine.Drive
import Dataflow.Engine.Propagation
import Dataflow.Error
import Dataflow.Event
import Dataflow.Graph.Basic
import Dataflow.Graph.Build
import Dataflow.Graph.Plan
import Dataflow.Graph.Wiring
import Dataflow.Json.Document
import Dataflow.Json.Error
import Dataflow.Json.Printer
import Dataflow.Json.Reader
import Dataflow.Keyed
import Dataflow.Leaf.Basic
import Dataflow.Leaf.Catalogue
import Dataflow.Leaf.Registry
import Dataflow.Leaf.Script
import Dataflow.Listener
import Dataflow.Main
import Dataflow.Node
import Dataflow.Proofs.Acceptance
import Dataflow.Proofs.Advancing
import Dataflow.Proofs.Agenda
import Dataflow.Proofs.Ascent
import Dataflow.Proofs.Batches
import Dataflow.Proofs.Binding
import Dataflow.Proofs.Bounds
import Dataflow.Proofs.Broadcasts
import Dataflow.Proofs.Budgets
import Dataflow.Proofs.Census
import Dataflow.Proofs.Conduct
import Dataflow.Proofs.Declare
import Dataflow.Proofs.Decoding
import Dataflow.Proofs.Delays
import Dataflow.Proofs.Doubles
import Dataflow.Proofs.Driving
import Dataflow.Proofs.Endings
import Dataflow.Proofs.FanOut
import Dataflow.Proofs.Flow
import Dataflow.Proofs.Frames
import Dataflow.Proofs.Grammar
import Dataflow.Proofs.Guards
import Dataflow.Proofs.Hearing
import Dataflow.Proofs.History
import Dataflow.Proofs.Identifiers
import Dataflow.Proofs.Jobs
import Dataflow.Proofs.Kindled
import Dataflow.Proofs.Layout
import Dataflow.Proofs.Ledger
import Dataflow.Proofs.Limits
import Dataflow.Proofs.Logs
import Dataflow.Proofs.Nesting
import Dataflow.Proofs.Phases
import Dataflow.Proofs.Places
import Dataflow.Proofs.Popping
import Dataflow.Proofs.Positions
import Dataflow.Proofs.Printing
import Dataflow.Proofs.Probed
import Dataflow.Proofs.Probes
import Dataflow.Proofs.Probing
import Dataflow.Proofs.Reactions
import Dataflow.Proofs.Reading
import Dataflow.Proofs.References
import Dataflow.Proofs.Reports
import Dataflow.Proofs.Requests
import Dataflow.Proofs.RoundTrips
import Dataflow.Proofs.Routing
import Dataflow.Proofs.Sessions
import Dataflow.Proofs.Settling
import Dataflow.Proofs.Steps
import Dataflow.Proofs.Teardown
import Dataflow.Proofs.Timing
import Dataflow.Proofs.Tokens
import Dataflow.Proofs.Totals
import Dataflow.Proofs.Tracing
import Dataflow.Proofs.Unfolding
import Dataflow.Proofs.Unprobed
import Dataflow.Proofs.Uses
import Dataflow.Proofs.Views
import Dataflow.Proofs.Walk
import Dataflow.Proofs.Walked
import Dataflow.Proofs.WallClock
import Dataflow.Proofs.Watching
import Dataflow.Proofs.WellFormed
import Dataflow.Proofs.Wired
import Dataflow.Scope
import Dataflow.Spec.Basic
import Dataflow.Spec.Json
import Dataflow.Text.Hidden
import Dataflow.Text.Inspect
import Dataflow.Text.Quoted
import Dataflow.Value.Basic
import Dataflow.Value.Json
