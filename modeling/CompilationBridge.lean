import CompilationBridge.Bridge
import CompilationBridge.Channel
import CompilationBridge.Counters
import CompilationBridge.Discovery
import CompilationBridge.Editor.Params
import CompilationBridge.Editor.Request
import CompilationBridge.Editors
import CompilationBridge.Event
import CompilationBridge.Fault
import CompilationBridge.FileTree
import CompilationBridge.Graph.Closure
import CompilationBridge.Graph.Reconciler
import CompilationBridge.Graph.Snapshot
import CompilationBridge.Graph.SnapshotReader
import CompilationBridge.Graph.Store
import CompilationBridge.Handle
import CompilationBridge.InfoFile
import CompilationBridge.Json.Basic
import CompilationBridge.Json.Compact
import CompilationBridge.Json.Parser
import CompilationBridge.Json.Printer
import CompilationBridge.Json.Reader
import CompilationBridge.KeyedLocks
import CompilationBridge.Labels
import CompilationBridge.LoadTracker
import CompilationBridge.LogRecord
import CompilationBridge.Manifest
import CompilationBridge.Message
import CompilationBridge.Message.Options
import CompilationBridge.Message.Printer
import CompilationBridge.Message.Reader
import CompilationBridge.Notifier
import CompilationBridge.Outages
import CompilationBridge.OutputLog
import CompilationBridge.Path
import CompilationBridge.ProjectSystem
import CompilationBridge.Restores
import CompilationBridge.Server
import CompilationBridge.Sessions
import CompilationBridge.Settings.Defaults
import CompilationBridge.Settings.Directory
import CompilationBridge.Settings.Expansion
import CompilationBridge.Settings.Logging
import CompilationBridge.Settings.Printer
import CompilationBridge.Settings.Reader
import CompilationBridge.Settings.Sections
import CompilationBridge.Settings.Service
import CompilationBridge.Simulation.Channel
import CompilationBridge.Simulation.Graph
import CompilationBridge.Simulation.Hosts
import CompilationBridge.Simulation.Restores
import CompilationBridge.Simulation.Schedule
import CompilationBridge.Simulation.Server
import CompilationBridge.Supervisor
import CompilationBridge.Table
import CompilationBridge.Text.Base64
import CompilationBridge.Text.Bytes
import CompilationBridge.Text.Double
import CompilationBridge.Text.Duration
import CompilationBridge.Text.FoldedName
import CompilationBridge.Text.Hex
import CompilationBridge.Text.Lines
import CompilationBridge.Text.LowerCase
import CompilationBridge.Text.Printable
import CompilationBridge.Text.Quoted
import CompilationBridge.TokenBucket
import CompilationBridge.Uri
import CompilationBridge.Workspace
import CompilationBridge.Workspace.Journal
import CompilationBridge.Workspace.Reader
import CompilationBridge.Yaml.Flow
import CompilationBridge.Yaml.Parser
import CompilationBridge.Yaml.Printer
import CompilationBridge.Yaml.Scalar
import CompilationBridge.Proofs.Paths
import CompilationBridge.Proofs.Tables
import CompilationBridge.Proofs.Graph.Calls
import CompilationBridge.Proofs.Graph.Edges
import CompilationBridge.Proofs.Graph.Effects
import CompilationBridge.Proofs.Graph.Teardown
import CompilationBridge.Proofs.Graph.Updates
import CompilationBridge.Proofs.Graph.Runs
import CompilationBridge.Proofs.Graph.Symmetry
import CompilationBridge.Proofs.Graph.Mirror
import CompilationBridge.Proofs.Graph.MirrorRuns
import CompilationBridge.Proofs.Graph.Records
import CompilationBridge.Proofs.Graph.Latest
import CompilationBridge.Proofs.Graph.Replay
import CompilationBridge.Proofs.Graph.Retargeting
import CompilationBridge.Proofs.Graph.Closure
import CompilationBridge.Proofs.Graph.Backing
import CompilationBridge.Proofs.Notifications
import CompilationBridge.Proofs.Graph.Clearing
import CompilationBridge.Proofs.Graph.VisitingOrder
import CompilationBridge.Proofs.Workspace
import CompilationBridge.Proofs.Graph.Lockstep
import CompilationBridge.Proofs.Graph.Recovery
import CompilationBridge.Proofs.Graph.RawBytes
import CompilationBridge.Proofs.Graph.Loading
import CompilationBridge.Proofs.Graph.Announcements
import CompilationBridge.Proofs.Graph.Resending
import CompilationBridge.Proofs.Supervisor.Runs
import CompilationBridge.Proofs.Supervisor.Custody
import CompilationBridge.Proofs.Supervisor.Turns
import CompilationBridge.Proofs.Supervisor.Launches
import CompilationBridge.Proofs.Supervisor.Callbacks
import CompilationBridge.Proofs.Initialization
import CompilationBridge.Proofs.Configurations
import CompilationBridge.Proofs.KeyedLocks
import CompilationBridge.Proofs.Restores.Bounds
import CompilationBridge.Proofs.Restores.Requests
import CompilationBridge.Proofs.Restores.Turns
import CompilationBridge.Proofs.Restores.Progress
import CompilationBridge.Proofs.Restores.Stories
import CompilationBridge.Proofs.Graph.Tracking
import CompilationBridge.Proofs.Graph.Footprint
import CompilationBridge.Proofs.Graph.Frame
import CompilationBridge.Proofs.Debouncing
import CompilationBridge.Proofs.Graph.Descriptions
import CompilationBridge.Proofs.Restores.Accounts
import CompilationBridge.Proofs.Restores.Cancellation
import CompilationBridge.Proofs.Admission
import CompilationBridge.Proofs.Reception
import CompilationBridge.Proofs.Telling
import CompilationBridge.Proofs.Broadcasts
import CompilationBridge.Proofs.Attendance
import CompilationBridge.Proofs.IdleTimer
import CompilationBridge.Proofs.Restores.Brackets
import CompilationBridge.Proofs.Supervisor.Handshake
import CompilationBridge.Proofs.Restores.Watchdog
import CompilationBridge.Proofs.Graph.Successes
import CompilationBridge.Proofs.Graph.Diffs
import CompilationBridge.Proofs.Graph.Rewiring
import CompilationBridge.Proofs.Graph.Relisting
import CompilationBridge.Proofs.Graph.Revisions
import CompilationBridge.Proofs.Graph.Repeats
import CompilationBridge.Proofs.Json.Tokens
import CompilationBridge.Proofs.Json.Documents
import CompilationBridge.Proofs.Json.Readers
import CompilationBridge.Proofs.Messages
import CompilationBridge.Proofs.TokenBucket
import CompilationBridge.Proofs.LockRegistry
import CompilationBridge.Proofs.Supervisor.Throttling
import CompilationBridge.Proofs.WorkspaceIntegrity
import CompilationBridge.Proofs.Discovery
import CompilationBridge.Proofs.Lines
import CompilationBridge.Proofs.Text.Utf8
import CompilationBridge.Proofs.Unresolved
import CompilationBridge.Proofs.Uri.Answers
import CompilationBridge.Proofs.Uri.RoundTrip
import CompilationBridge.Proofs.LoadBoard
import CompilationBridge.Proofs.Manifests
