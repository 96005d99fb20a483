import FragmentLifecycle.Clock.Instant
import FragmentLifecycle.Cluster.Membership
import FragmentLifecycle.Cluster.Registry
import FragmentLifecycle.Execution.Executor
import FragmentLifecycle.Execution.Frame
import FragmentLifecycle.Execution.Notice
import FragmentLifecycle.Execution.Schedule
import FragmentLifecycle.Execution.Script
import FragmentLifecycle.Execution.Step
import FragmentLifecycle.Execution.System
import FragmentLifecycle.Execution.World
import FragmentLifecycle.Fault.Basic
import FragmentLifecycle.Fault.Collector
import FragmentLifecycle.Fault.Report
import FragmentLifecycle.Identity.Format
import FragmentLifecycle.Identity.Handle
import FragmentLifecycle.Identity.Node
import FragmentLifecycle.Identity.Principal
import FragmentLifecycle.Identity.QueryId
import FragmentLifecycle.Identity.Scope
import FragmentLifecycle.Json.Reader
import FragmentLifecycle.Json.Record
import FragmentLifecycle.Json.Value
import FragmentLifecycle.Json.Writer
import FragmentLifecycle.Lifecycle.Requests
import FragmentLifecycle.Lifecycle.State
import FragmentLifecycle.Lifecycle.Status
import FragmentLifecycle.LocalContext
import FragmentLifecycle.Number.Binary64
import FragmentLifecycle.Number.Shortest
import FragmentLifecycle.Proofs.Ambient
import FragmentLifecycle.Proofs.AtRest
import FragmentLifecycle.Proofs.Calls
import FragmentLifecycle.Proofs.CancelCalls
import FragmentLifecycle.Proofs.Cancellation
import FragmentLifecycle.Proofs.CancelledBuild
import FragmentLifecycle.Proofs.CauseOrigins
import FragmentLifecycle.Proofs.Causes
import FragmentLifecycle.Proofs.CloseOrder
import FragmentLifecycle.Proofs.ClosePanics
import FragmentLifecycle.Proofs.Closing
import FragmentLifecycle.Proofs.CollectorHistory
import FragmentLifecycle.Proofs.Concealment
import FragmentLifecycle.Proofs.Course
import FragmentLifecycle.Proofs.Custody
import FragmentLifecycle.Proofs.DeadlockFreedom
import FragmentLifecycle.Proofs.DepartureCall
import FragmentLifecycle.Proofs.Departures
import FragmentLifecycle.Proofs.Deregistration
import FragmentLifecycle.Proofs.EarlyCalls
import FragmentLifecycle.Proofs.EarlyCancel
import FragmentLifecycle.Proofs.EarlyTermination
import FragmentLifecycle.Proofs.Echoes
import FragmentLifecycle.Proofs.FailurePaths
import FragmentLifecycle.Proofs.FailureRecords
import FragmentLifecycle.Proofs.FaultHandling
import FragmentLifecycle.Proofs.FinalStatus
import FragmentLifecycle.Proofs.ForemanDeparture
import FragmentLifecycle.Proofs.GateHistory
import FragmentLifecycle.Proofs.GateOpening
import FragmentLifecycle.Proofs.Growth
import FragmentLifecycle.Proofs.HandleTexts
import FragmentLifecycle.Proofs.HostCapacity
import FragmentLifecycle.Proofs.HostSteps
import FragmentLifecycle.Proofs.HostTable
import FragmentLifecycle.Proofs.IdleWaits
import FragmentLifecycle.Proofs.Journal
import FragmentLifecycle.Proofs.JsonReadings
import FragmentLifecycle.Proofs.JsonScalars
import FragmentLifecycle.Proofs.JsonTexts
import FragmentLifecycle.Proofs.LateReports
import FragmentLifecycle.Proofs.Likeness
import FragmentLifecycle.Proofs.ListenerHistory
import FragmentLifecycle.Proofs.Listeners
import FragmentLifecycle.Proofs.LoneCalls
import FragmentLifecycle.Proofs.Notifications
import FragmentLifecycle.Proofs.Numerals
import FragmentLifecycle.Proofs.OrphanedEntries
import FragmentLifecycle.Proofs.Outcome
import FragmentLifecycle.Proofs.OwnFrames
import FragmentLifecycle.Proofs.PassiveCalls
import FragmentLifecycle.Proofs.PauseHistory
import FragmentLifecycle.Proofs.Progress
import FragmentLifecycle.Proofs.QueryTexts
import FragmentLifecycle.Proofs.Reachability
import FragmentLifecycle.Proofs.RecordTexts
import FragmentLifecycle.Proofs.Replay
import FragmentLifecycle.Proofs.RequestHistory
import FragmentLifecycle.Proofs.Resources
import FragmentLifecycle.Proofs.Returns
import FragmentLifecycle.Proofs.RunCalls
import FragmentLifecycle.Proofs.RunEnd
import FragmentLifecycle.Proofs.RunParts
import FragmentLifecycle.Proofs.RunStages
import FragmentLifecycle.Proofs.RunningTree
import FragmentLifecycle.Proofs.ScopedPrincipals
import FragmentLifecycle.Proofs.SelfWaits
import FragmentLifecycle.Proofs.SettingsSources
import FragmentLifecycle.Proofs.Settlement
import FragmentLifecycle.Proofs.Setup
import FragmentLifecycle.Proofs.ShadowSteps
import FragmentLifecycle.Proofs.Shadows
import FragmentLifecycle.Proofs.SharedState
import FragmentLifecycle.Proofs.ShutGate
import FragmentLifecycle.Proofs.SlotConservation
import FragmentLifecycle.Proofs.SlotLedger
import FragmentLifecycle.Proofs.Stack
import FragmentLifecycle.Proofs.StoppedRun
import FragmentLifecycle.Proofs.Succession
import FragmentLifecycle.Proofs.TerminalReport
import FragmentLifecycle.Proofs.Transition
import FragmentLifecycle.Proofs.Tree
import FragmentLifecycle.Proofs.UndisturbedRun
import FragmentLifecycle.Proofs.WakeUps
import FragmentLifecycle.Proofs.Watches
import FragmentLifecycle.Proofs.WireRecords
import FragmentLifecycle.Scenario.Hosted
import FragmentLifecycle.Scenario.Observation
import FragmentLifecycle.Scenario.Single
import FragmentLifecycle.Settings
import FragmentLifecycle.Sync.Gate
import FragmentLifecycle.Sync.PauseControls
import FragmentLifecycle.Sync.Slots
import FragmentLifecycle.Text.Blank
import FragmentLifecycle.Text.Decimal
import FragmentLifecycle.Text.Hexadecimal
import FragmentLifecycle.Proofs.ShadowRuns
import FragmentLifecycle.Proofs.Noninterference
