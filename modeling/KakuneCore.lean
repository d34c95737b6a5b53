import KakuneCore.Process.Basic
import KakuneCore.Workflow.Document
import KakuneCore.Planner.Analysis
import KakuneCore.Planner.Compile
import KakuneCore.Numeric.Binary64
import KakuneCore.Runtime.Operations
import KakuneCore.Runtime.Graph
import KakuneCore.Runtime.Nodes
import KakuneCore.Process.Logic
import KakuneCore.Runtime.Execution
import KakuneCore.Planner.Accepted
import KakuneCore.Runtime.Availability
import KakuneCore.Api.Idempotency
import KakuneCore.Runtime.Accounts
import KakuneCore.Runtime.Activations
import KakuneCore.Runtime.Rounds
import KakuneCore.Runtime.Writers
import KakuneCore.Store.Completion
import KakuneCore.Store.Concurrency
import KakuneCore.Planner.LexicalScope
import KakuneCore.Runtime.Outputs
import KakuneCore.Recovery.History
import KakuneCore.Process.Lockstep
import KakuneCore.Recovery.Interruption
import KakuneCore.Runtime.Agreement
import KakuneCore.Runtime.GraphAgreement
import KakuneCore.Runtime.Secrecy
import KakuneCore.Recovery.AtMostOnce
import KakuneCore.Relational.Pages
import KakuneCore.Relational.Runs
import KakuneCore.Scheduling.Triggers
import KakuneCore.Store.EnabledTriggers
import KakuneCore.Process.Attempt
import KakuneCore.Store.Pairing
import KakuneCore.Store.Secrets
import KakuneCore.Api.Preparation
import KakuneCore.Services.Barrier
import KakuneCore.Services.References
import KakuneCore.Runtime.WorkspacePaths
import KakuneCore.Numeric.Decimal
import KakuneCore.Runtime.ScopedIds
import KakuneCore.Scheduling.Accounting
import KakuneCore.Scheduling.OneShot
import KakuneCore.Store.Timestamps
import KakuneCore.Encoding.LineLog
import KakuneCore.Lifecycle.Admission
import KakuneCore.Lifecycle.AttemptJournal
import KakuneCore.Lifecycle.Drain
import KakuneCore.Encoding.Frames
import KakuneCore.Lifecycle.Control
import KakuneCore.Lifecycle.Authorisation
import KakuneCore.Lifecycle.ControlRuns
import KakuneCore.Client.ContextRuns
import KakuneCore.Encoding.Text
import KakuneCore.Encoding.Utf8
import KakuneCore.Lifecycle.Launchd
import KakuneCore.Lifecycle.Systemd
import KakuneCore.Plugins.CommitRecovery
import KakuneCore.Plugins.EnabledCatalog
import KakuneCore.Runtime.Expressions
import KakuneCore.Store.VaultSalt
import KakuneCore.Store.TokenBudget
import KakuneCore.Store.Artifacts
import KakuneCore.Store.NodeOutcomes
import KakuneCore.Store.Deadlines
import KakuneCore.Api.Timeouts
import KakuneCore.Process.Loops
import KakuneCore.Runtime.Retries
import KakuneCore.Runtime.LoopNodes
import KakuneCore.Runtime.Panics
import KakuneCore.Runtime.ForeachNodes
import KakuneCore.Scheduling.FirstSeen
import KakuneCore.Scheduling.Filesystem
import KakuneCore.Encoding.Masking
import KakuneCore.Api.Redaction
import KakuneCore.Planner.PlanView
import KakuneCore.Planner.OpaqueLiterals
import KakuneCore.Planner.SourceRanges
import KakuneCore.Encoding.Json
import KakuneCore.Api.Cursor
import KakuneCore.Lifecycle.Ownership
import KakuneCore.Numeric.Integers
import KakuneCore.Runtime.IntegerExpressions
import KakuneCore.Runtime.Agent
import KakuneCore.Api.Messages
import KakuneCore.Workflow.CycleCheck
import KakuneCore.Lifecycle.WindowsCommandLine
import KakuneCore.Lifecycle.StartReservation
import KakuneCore.Lifecycle.UnitSyntax
import KakuneCore.Plugins.Framing
import KakuneCore.Plugins.Staging
import KakuneCore.Plugins.SourceStaging
import KakuneCore.Services.Capabilities
import KakuneCore.Client.Initialization
import KakuneCore.Lifecycle.AttemptRuns
import KakuneCore.Encoding.Base64
import KakuneCore.Process.Stateful
import KakuneCore.Mcp.Messages
import KakuneCore.Mcp.Exchange
import KakuneCore.Mcp.Stream
import KakuneCore.Relational.Keyset
import KakuneCore.Api.Pages
import KakuneCore.Api.PageWalks
import KakuneCore.Api.EventPages
import KakuneCore.Api.Authorization
