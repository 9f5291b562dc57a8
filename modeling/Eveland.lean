import Eveland.AgentAuth.AgentEnvelopes
import Eveland.AgentAuth.Credentials
import Eveland.AgentAuth.EnvelopesSurvive
import Eveland.AgentAuth.GrantKept
import Eveland.AgentAuth.OidcProvider
import Eveland.AgentAuth.RefreshFence
import Eveland.AgentAuth.RefreshGrants
import Eveland.AgentObserver.ModelCapture
import Eveland.AgentObserver.NothingLeft
import Eveland.AgentObserver.PolicyRuntime
import Eveland.Api.EagerStatus
import Eveland.Api.PlaygroundStream
import Eveland.Api.SerializedEdits
import Eveland.Api.SharedEnvironment
import Eveland.Cli.DeployWatcher
import Eveland.Cli.PollReads
import Eveland.Cli.ProjectSlugs
import Eveland.Cli.SlugsAgree
import Eveland.Cli.WatchedToEnd
import Eveland.Cli.ZipArchive
import Eveland.Cli.ZipDecodes
import Eveland.Core.ArchiveInside
import Eveland.Core.ArchivePaths
import Eveland.Core.CronTicks
import Eveland.Core.Deployments
import Eveland.Core.EveCompatibility
import Eveland.Core.EveEvents
import Eveland.Core.EveRequests
import Eveland.Core.Ids
import Eveland.Core.Jobs
import Eveland.Core.JsString
import Eveland.Core.Json
import Eveland.Core.JsonParse
import Eveland.Core.Routing
import Eveland.Core.Schedules
import Eveland.Core.Stringify
import Eveland.Core.SupportedVersions
import Eveland.Core.TextEncoding
import Eveland.Core.Transcript
import Eveland.Core.TranscriptItems
import Eveland.Core.TranscriptTree
import Eveland.Ctl.ChildrenRespawned
import Eveland.Ctl.EnvFile
import Eveland.Ctl.EnvRoundTrip
import Eveland.Ctl.GroupsContained
import Eveland.Ctl.Mutex
import Eveland.Ctl.MutexExclusion
import Eveland.Ctl.Supervisor
import Eveland.Ctl.Update
import Eveland.Ctl.UpdateResumed
import Eveland.Foundations.Accumulators
import Eveland.Foundations.Aggregates
import Eveland.Foundations.Arrivals
import Eveland.Foundations.Base64
import Eveland.Foundations.ByteRecords
import Eveland.Foundations.Crc
import Eveland.Foundations.Forests
import Eveland.Foundations.Guarantees
import Eveland.Foundations.InitialSegments
import Eveland.Foundations.KeysetPages
import Eveland.Foundations.LineReader
import Eveland.Foundations.Machine
import Eveland.Foundations.NewestRows
import Eveland.Foundations.Outcome
import Eveland.Foundations.ParentTrees
import Eveland.Foundations.PathSteps
import Eveland.Foundations.Programs
import Eveland.Foundations.Recovery
import Eveland.Foundations.RowLocks
import Eveland.Foundations.SemanticVersions
import Eveland.Foundations.Slots
import Eveland.Foundations.Substitution
import Eveland.Foundations.Table
import Eveland.Foundations.TextRecords
import Eveland.Gateway.ActivationLease
import Eveland.Gateway.Affinity
import Eveland.Gateway.Agreement
import Eveland.Gateway.Effects
import Eveland.Gateway.IdleHeartbeat
import Eveland.Gateway.ReleasedOnce
import Eveland.Gateway.Requests
import Eveland.Gateway.TargetSelection
import Eveland.Identity.CallerTokens
import Eveland.Identity.OlderLogins
import Eveland.Identity.ProviderLogins
import Eveland.Identity.PublishedKeys
import Eveland.Identity.SigningKeys
import Eveland.Identity.TokenAgreement
import Eveland.Identity.TokenVerifier
import Eveland.Memory.Backend
import Eveland.Memory.WriteChain
import Eveland.Scheduler.DispatchChannel
import Eveland.Store.ConsumedOnce
import Eveland.Store.CredentialRotation
import Eveland.Store.DeletionCarried
import Eveland.Store.DeletionQueuedOnce
import Eveland.Store.EventMoves
import Eveland.Store.EventViews
import Eveland.Store.EventsDense
import Eveland.Store.IdentityStore
import Eveland.Store.InstanceChanges
import Eveland.Store.InstanceHealth
import Eveland.Store.JobExclusion
import Eveland.Store.JobSteps
import Eveland.Store.JobStore
import Eveland.Store.LogFollowers
import Eveland.Store.LogStore
import Eveland.Store.PreflightConsumption
import Eveland.Store.ProjectDeletion
import Eveland.Store.RouteChanges
import Eveland.Store.RouteOwnership
import Eveland.Store.RoutesServe
import Eveland.Store.RoutingStore
import Eveland.Store.RoutingTransactions
import Eveland.Store.RuntimeStore
import Eveland.Store.ScheduleAdvance
import Eveland.Store.ScheduleStore
import Eveland.Store.SessionEvents
import Eveland.Store.SourcePreflights
import Eveland.Store.TrafficSafety
import Eveland.Store.UsageAnalytics
import Eveland.Store.UsagePartition
import Eveland.Telemetry.AgentEvents
import Eveland.Telemetry.ArrivalOrder
import Eveland.Telemetry.BatchHash
import Eveland.Telemetry.Deliveries
import Eveland.Telemetry.DispatchRace
import Eveland.Telemetry.Effects
import Eveland.Telemetry.Ingest
import Eveland.Telemetry.Launched
import Eveland.Telemetry.Ledger
import Eveland.Telemetry.NodeTrees
import Eveland.Telemetry.Operations
import Eveland.Telemetry.Progress
import Eveland.Telemetry.Redelivery
import Eveland.Telemetry.RootEvents
import Eveland.Telemetry.Rows
import Eveland.Telemetry.RunSteps
import Eveland.Telemetry.ScheduleRuns
import Eveland.Telemetry.SequenceOrder
import Eveland.Telemetry.Settleable
import Eveland.Telemetry.System
import Eveland.Telemetry.Usage
import Eveland.Telemetry.Writes
import Eveland.Worker.ArchiveHandshake
import Eveland.Worker.BuildVariables
import Eveland.Worker.CollectorReconciler
import Eveland.Worker.CollectorRestarted
import Eveland.Worker.DeployPipeline
import Eveland.Worker.DispatchRedemption
import Eveland.Worker.EndedJobs
import Eveland.Worker.EnvironmentChanges
import Eveland.Worker.EnvironmentsReach
import Eveland.Worker.HotfixConfirmed
import Eveland.Worker.JobExecutions
import Eveland.Worker.JobFencing
import Eveland.Worker.JobPump
import Eveland.Worker.LiveInstances
import Eveland.Worker.LogMasking
import Eveland.Worker.ModelCatalog
import Eveland.Worker.OrphanReaper
import Eveland.Worker.OwnSource
import Eveland.Worker.PolicyReaches
import Eveland.Worker.PolicySweep
import Eveland.Worker.PortAllocation
import Eveland.Worker.ProvenOrphans
import Eveland.Worker.RuntimeActors
import Eveland.Worker.ScheduleDispatch
import Eveland.Worker.SettledRuns
