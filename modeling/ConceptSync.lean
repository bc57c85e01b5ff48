import ConceptSync.CommandLine.Arguments
import ConceptSync.CommandLine.Help
import ConceptSync.CommandLine.Run
import ConceptSync.Effect
import ConceptSync.Engine.Basic
import ConceptSync.Engine.Drain
import ConceptSync.Engine.Invoke
import ConceptSync.Engine.Step
import ConceptSync.Failure
import ConceptSync.Frame
import ConceptSync.Join
import ConceptSync.Json.Printer
import ConceptSync.Json.Reader
import ConceptSync.Machine
import ConceptSync.Main
import ConceptSync.Number.Decimal
import ConceptSync.Number.Double
import ConceptSync.Pattern
import ConceptSync.Proofs.Effect
import ConceptSync.Proofs.Engine.Accounting
import ConceptSync.Proofs.Engine.Cancelling
import ConceptSync.Proofs.Engine.Consumption
import ConceptSync.Proofs.Engine.Course
import ConceptSync.Proofs.Engine.CycleGuard
import ConceptSync.Proofs.Engine.Declarations
import ConceptSync.Proofs.Engine.Demands
import ConceptSync.Proofs.Engine.DepthBound
import ConceptSync.Proofs.Engine.Failing
import ConceptSync.Proofs.Engine.FirstFiring
import ConceptSync.Proofs.Engine.Following
import ConceptSync.Proofs.Engine.Forest
import ConceptSync.Proofs.Engine.Handing
import ConceptSync.Proofs.Engine.Inert
import ConceptSync.Proofs.Engine.Isolation
import ConceptSync.Proofs.Engine.Joining
import ConceptSync.Proofs.Engine.Keeping
import ConceptSync.Proofs.Engine.Leading
import ConceptSync.Proofs.Engine.Life
import ConceptSync.Proofs.Engine.Loop
import ConceptSync.Proofs.Engine.Matching
import ConceptSync.Proofs.Engine.Outside
import ConceptSync.Proofs.Engine.Provenance
import ConceptSync.Proofs.Engine.Recursion
import ConceptSync.Proofs.Engine.Redelivery
import ConceptSync.Proofs.Engine.SecondFiring
import ConceptSync.Proofs.Engine.Sharing
import ConceptSync.Proofs.Engine.Simulation
import ConceptSync.Proofs.Engine.Tally
import ConceptSync.Proofs.Engine.Twins
import ConceptSync.Proofs.Engine.Unbound
import ConceptSync.Proofs.Engine.Undisturbed
import ConceptSync.Proofs.Engine.Upholding
import ConceptSync.Proofs.Equality
import ConceptSync.Proofs.Frame.Algebra
import ConceptSync.Proofs.Frame.Merge
import ConceptSync.Proofs.Frame.Resolving
import ConceptSync.Proofs.Frame.Templates
import ConceptSync.Proofs.Frame.Unification
import ConceptSync.Proofs.Interning
import ConceptSync.Proofs.Join.Binding
import ConceptSync.Proofs.Join.Made
import ConceptSync.Proofs.Join.Natural
import ConceptSync.Proofs.Join.Renumbering
import ConceptSync.Proofs.Join.Selections
import ConceptSync.Proofs.Json.Floats
import ConceptSync.Proofs.Json.Formats
import ConceptSync.Proofs.Json.Numerals
import ConceptSync.Proofs.Json.Reading
import ConceptSync.Proofs.Json.Rereading
import ConceptSync.Proofs.Json.Strings
import ConceptSync.Proofs.Machine
import ConceptSync.Proofs.Naming
import ConceptSync.Proofs.Number.Decimals
import ConceptSync.Proofs.Number.Rounding
import ConceptSync.Proofs.Record.Documents
import ConceptSync.Proofs.Record.Identifiers
import ConceptSync.Proofs.Record.Timestamps
import ConceptSync.Proofs.Registry
import ConceptSync.Proofs.Requesting.Answering
import ConceptSync.Proofs.Requesting.Entries
import ConceptSync.Proofs.Requesting.Exclusion
import ConceptSync.Proofs.Requesting.Expecting
import ConceptSync.Proofs.Requesting.Gateway
import ConceptSync.Proofs.Requesting.Paths
import ConceptSync.Proofs.Requesting.Protocol
import ConceptSync.Proofs.Requesting.Replies
import ConceptSync.Proofs.Requesting.Serving
import ConceptSync.Proofs.Requesting.Table
import ConceptSync.Proofs.Requesting.Waiting
import ConceptSync.Proofs.Rule.Bridging
import ConceptSync.Proofs.Rule.Building
import ConceptSync.Proofs.Rule.Checking
import ConceptSync.Proofs.Rule.Refining
import ConceptSync.Proofs.Store.Ancestors
import ConceptSync.Proofs.Store.Bookkeeping
import ConceptSync.Proofs.Store.Causality
import ConceptSync.Proofs.Store.Identifiers
import ConceptSync.Proofs.Store.Indexed
import ConceptSync.Proofs.Store.Sequence
import ConceptSync.Proofs.Store.Trees
import ConceptSync.Proofs.Travel.Actions
import ConceptSync.Proofs.Travel.Answering
import ConceptSync.Proofs.Travel.App
import ConceptSync.Proofs.Travel.Approval
import ConceptSync.Proofs.Travel.Conduct
import ConceptSync.Proofs.Travel.Contributions
import ConceptSync.Proofs.Travel.CrossReferences
import ConceptSync.Proofs.Travel.Errors
import ConceptSync.Proofs.Travel.Expiry
import ConceptSync.Proofs.Travel.Finality
import ConceptSync.Proofs.Travel.Gate
import ConceptSync.Proofs.Travel.Handling
import ConceptSync.Proofs.Travel.Identity
import ConceptSync.Proofs.Travel.Itineraries
import ConceptSync.Proofs.Travel.Lookups
import ConceptSync.Proofs.Travel.Membership
import ConceptSync.Proofs.Travel.Operations
import ConceptSync.Proofs.Travel.Outputs
import ConceptSync.Proofs.Travel.Planning
import ConceptSync.Proofs.Travel.PollRules
import ConceptSync.Proofs.Travel.PollRuns
import ConceptSync.Proofs.Travel.Polls
import ConceptSync.Proofs.Travel.Reaching
import ConceptSync.Proofs.Travel.Reporting
import ConceptSync.Proofs.Travel.Requests
import ConceptSync.Proofs.Travel.Responding
import ConceptSync.Proofs.Travel.Resting
import ConceptSync.Proofs.Travel.Rules
import ConceptSync.Proofs.Travel.Terminal
import ConceptSync.Proofs.Travel.Trips
import ConceptSync.Proofs.Travel.Turns
import ConceptSync.Proofs.Travel.Underway
import ConceptSync.Proofs.Travel.Voting
import ConceptSync.Proofs.Travel.Wiring
import ConceptSync.Proofs.Value
import ConceptSync.Record.Indexed
import ConceptSync.Record.Invocation
import ConceptSync.Record.Store
import ConceptSync.Record.Timestamp
import ConceptSync.Record.Uuid
import ConceptSync.Registry
import ConceptSync.Requesting.Concept
import ConceptSync.Requesting.Gateway
import ConceptSync.Requesting.Routes
import ConceptSync.Requesting.Table
import ConceptSync.Rule
import ConceptSync.Scope
import ConceptSync.Script.Concept
import ConceptSync.Script.Document
import ConceptSync.Script.Refinement
import ConceptSync.Script.Rule
import ConceptSync.Script.Store
import ConceptSync.Settings.Document
import ConceptSync.Settings.Environment
import ConceptSync.Table
import ConceptSync.Text.Characters
import ConceptSync.Text.Quoted
import ConceptSync.Toml.Assembly
import ConceptSync.Toml.Datum
import ConceptSync.Toml.Reader
import ConceptSync.Toml.Scalar
import ConceptSync.Travel.App
import ConceptSync.Travel.CostSplitting
import ConceptSync.Travel.ItineraryPlanner
import ConceptSync.Travel.Polling
import ConceptSync.Travel.Routes
import ConceptSync.Travel.Rules.All
import ConceptSync.Travel.Rules.Background
import ConceptSync.Travel.Rules.Requests
import ConceptSync.Travel.Sessions
import ConceptSync.Travel.State
import ConceptSync.Travel.TripPlanning
import ConceptSync.Value
import ConceptSync.World
