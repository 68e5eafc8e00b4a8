import Quinn.Store.Connection
import Quinn.Store.Atomicity
import Quinn.Store.Logic
import Quinn.Store.Interleaving
import Quinn.Store.Table
import Quinn.Store.ReadOnly
import Quinn.Store.Interference
import Quinn.Schema.Worker
import Quinn.Budget.Schema
import Quinn.Budget.Queries
import Quinn.Budget.Ledger
import Quinn.Budget.Service
import Quinn.Budget.Solvency
import Quinn.Budget.Contract
import Quinn.Budget.Atomicity
import Quinn.Budget.Conservation
import Quinn.Search.Acyclic
import Quinn.Search.Worklist
import Quinn.Delegation.Schema
import Quinn.Delegation.Queries
import Quinn.Delegation.Authority
import Quinn.Delegation.Graph
import Quinn.Delegation.Withdrawal
import Quinn.Delegation.Granting
import Quinn.Delegation.Invariant
import Quinn.Delegation.Columns
import Quinn.Delegation.Containment
import Quinn.Delegation.Compensation
import Quinn.Delegation.Audit
import Quinn.Store.Sends
import Quinn.Store.Transactions
import Quinn.Runtime.Schema
import Quinn.Runtime.Queries
import Quinn.Runtime.OptimisticLocking
import Quinn.Index.Pairing
import Quinn.Binding.Manager
import Quinn.Binding.Bijection
import Quinn.Binding.Replacement
import Quinn.Object.Program
import Quinn.Object.Interleaving
import Quinn.Session.Interface
import Quinn.Session.StateMachine
import Quinn.Object.Sequential
import Quinn.Workers.Agreement
import Quinn.Workers.Lifecycle
import Quinn.Workers.LiveSessions
import Quinn.Workers.RuntimeMoves
import Quinn.Search.FirstMatch
import Quinn.Rules.Loader
import Quinn.Text.Basic
import Quinn.Rules.Engine
import Quinn.Rules.Verdict
import Quinn.Rules.Isolation
import Quinn.Rules.Shadowing
import Quinn.Permissions.Queries
import Quinn.Beads.Wrapper
import Quinn.Machine.Run
import Quinn.Machine.Window
import Quinn.Permissions.Revocation
import Quinn.Beads.Guards
import Quinn.Channels.Queries
import Quinn.Channels.Privacy
import Quinn.Stop.Controller
import Quinn.Stop.Forgotten
import Quinn.Stop.Resume
import Quinn.Files.Tree
import Quinn.Storage.Manager
import Quinn.Storage.Nesting
import Quinn.Start.Controller
import Quinn.Start.Retry
import Quinn.Machine.Inflationary
import Quinn.Org.Apply
import Quinn.Org.Growth
import Quinn.Org.Idempotence
import Quinn.Org.Keeping
import Quinn.Org.Seating
import Quinn.Org.Realised
import Quinn.Idle.Schema
import Quinn.Idle.Runs
import Quinn.Idle.Escalations
import Quinn.Idle.Rearming
import Quinn.Work.BeadsQueue
import Quinn.Work.HandingOut
import Quinn.Work.BaseWorker
import Quinn.Work.Shutdown
import Quinn.Escalation.Manager
import Quinn.Escalation.Endings
import Quinn.Escalation.Keeping
import Quinn.Pyterm.Conversation
import Quinn.Pyterm.Persistence
import Quinn.Pyterm.RoundTrip
import Quinn.Pyterm.AgentSession
import Quinn.Pyterm.Persisting
import Quinn.Comms.Boxes
import Quinn.Comms.Delivery
import Quinn.Ddl.Resumption
import Quinn.Migrations.Schema
import Quinn.Migrations.Agreement
import Quinn.Templates.Schema
import Quinn.Templates.Orchestrator
import Quinn.Templates.Rollback
import Quinn.Store.ChangeLog
import Quinn.Budget.Readings
import Quinn.Budget.Delegating
import Quinn.Budget.Revoking
import Quinn.Providers.Base
import Quinn.Providers.Authorization
import Quinn.Providers.Completion
import Quinn.Providers.Charging
import Quinn.Delegation.Cascade
import Quinn.Delegation.Cascading
import Quinn.Storage.Archiving
import Quinn.Changes.Triggers
import Quinn.Changes.Polling
import Quinn.Board.Interventions
import Quinn.Board.Rows
import Quinn.Board.Stopping
import Quinn.Board.Firing
import Quinn.Board.Respecting
import Quinn.Object.Stages
import Quinn.Templates.Hiring
import Quinn.Templates.Phases
import Quinn.Notifications.Queries
import Quinn.Beads.Closing
import Quinn.Okr.Progress
import Quinn.Okr.DueDate
import Quinn.Permissions.History
import Quinn.Rules.Paths
import Quinn.Object.Amid
import Quinn.Session.Starting
import Quinn.Session.Prompting
import Quinn.Budget.Limits
import Quinn.Workers.Suspending
import Quinn.Checks.Order
import Quinn.Loading.Loader
import Quinn.Loading.References
import Quinn.Loading.Checking
import Quinn.Loading.Outcome
import Quinn.Search.Ordering
import Quinn.Work.Popping
import Quinn.Work.SameAnswers
import Quinn.Work.Idling
import Quinn.Escalation.Hierarchical
import Quinn.Pyterm.Frame
import Quinn.Pyterm.Statistics
import Quinn.Pyterm.Failing
import Quinn.Workers.Tasks
import Quinn.Templates.Catalog
import Quinn.Templates.Accepting
import Quinn.Templates.Building
import Quinn.Templates.Teams
import Quinn.Templates.Atomicity
import Quinn.Notifications.Dispatcher
import Quinn.Notifications.Batching
import Quinn.Store.Updates
import Quinn.Session.ToolGuard
import Quinn.Events.Replay
import Quinn.Events.Publishing
import Quinn.Session.Capture
import Quinn.Channels.Fanout
import Quinn.Okr.Queries
import Quinn.Okr.Hierarchy
import Quinn.Okr.KeyResults
import Quinn.Logs.Json
import Quinn.Logs.Reader
import Quinn.Logs.Reading
import Quinn.Pyterm.Controller
import Quinn.Pyterm.Closing
import Quinn.Pyterm.ClaudeCode
import Quinn.Pyterm.Recording
import Quinn.Pyterm.Answering
import Quinn.Delegation.Causes
import Quinn.Storage.Offboarding
import Quinn.Escalation.Org
import Quinn.Comms.Notifications
import Quinn.Templates.Chart
import Quinn.Pyterm.Rendering
import Quinn.Machine.Flow
import Quinn.Pyterm.StateMonitor
import Quinn.Stop.Cleanup
import Quinn.Store.Admission
import Quinn.Delegation.Hiring
import Quinn.Rules.Guard
