/-
# The tables of sessions

Sessions, the nodes that observed them, their events and the model usage they report; schedule
runs and the executions that link them to sessions; and what these are checked against.

A session's usage columns are one value, added to as a whole. Costs are exact numbers: the
rounding of a double precision column is left out.
-/

import Mathlib.Algebra.Ring.Rat
import Mathlib.Data.List.Dedup
import Eveland.Core.EveEvents
import Eveland.Core.Routing
import Eveland.Foundations.Outcome
import Eveland.Foundations.Table
import Eveland.Store.RuntimeStore
import Eveland.Store.ScheduleStore

namespace Eveland.Telemetry

/-! ## Counters -/

/-- The usage columns of a session. No cost yet is not the same as a cost of zero. -/
@[ext]
structure UsageCounters where
  inputTokens : ℕ
  outputTokens : ℕ
  cacheReadTokens : ℕ
  cacheWriteTokens : ℕ
  costUsd : Option ℚ
  usageReportedSteps : ℕ
  usageMissingSteps : ℕ
  deriving DecidableEq

/-- `coalesce(cost, 0) + other`, where there is another. -/
def addCost : Option ℚ → Option ℚ → Option ℚ
  | cost, none => cost
  | cost, some other => some (cost.getD 0 + other)

namespace UsageCounters

instance : Zero UsageCounters := ⟨0, 0, 0, 0, none, 0, 0⟩

instance : Add UsageCounters where
  add first second :=
    { inputTokens := first.inputTokens + second.inputTokens
      outputTokens := first.outputTokens + second.outputTokens
      cacheReadTokens := first.cacheReadTokens + second.cacheReadTokens
      cacheWriteTokens := first.cacheWriteTokens + second.cacheWriteTokens
      costUsd := addCost first.costUsd second.costUsd
      usageReportedSteps := first.usageReportedSteps + second.usageReportedSteps
      usageMissingSteps := first.usageMissingSteps + second.usageMissingSteps }

/-- A sum of costs is unknown only where each cost is. -/
theorem addCost_none_left (cost : Option ℚ) : addCost none cost = cost := by
  cases cost <;> simp [addCost]

theorem addCost_comm (first second : Option ℚ) : addCost first second = addCost second first := by
  cases first <;> cases second <;> simp [addCost, add_comm]

theorem addCost_assoc (first second third : Option ℚ) :
    addCost (addCost first second) third = addCost first (addCost second third) := by
  cases first <;> cases second <;> cases third <;> simp [addCost, add_assoc]

instance : AddCommMonoid UsageCounters where
  add_assoc first second third := by
    ext1
    case costUsd => exact addCost_assoc _ _ _
    all_goals exact add_assoc _ _ _
  zero_add counters := by
    ext1
    case costUsd => exact addCost_none_left _
    all_goals exact zero_add _
  add_zero counters := by
    ext1
    case costUsd => rfl
    all_goals exact add_zero _
  add_comm first second := by
    ext1
    case costUsd => exact addCost_comm _ _
    all_goals exact add_comm _ _
  nsmul := nsmulRec

end UsageCounters

/-! ## Rows -/

/-- `SessionTrigger`. -/
inductive SessionTrigger
  | playground
  | cron
  | manual
  | webhook
  | channel
  | api
  | directHttp
  deriving DecidableEq

/-- A row of `sessions`. -/
structure Session where
  id : String
  projectId : String
  deploymentId : Option String
  eveSessionId : Option String
  rootNodeId : Option String
  routeId : Option String
  experimentId : Option String
  variantName : Option String
  trigger : SessionTrigger
  scheduleId : Option String
  scheduleRunId : Option String
  status : SessionStatus
  error : Option String
  startedAt : ℤ
  completedAt : Option ℤ
  counters : UsageCounters
  deriving DecidableEq

/-- Whether a node has reported, or was only announced. -/
inductive ResolutionStatus
  | observed
  | unresolved
  deriving DecidableEq

/-- A row of `session_nodes`. -/
structure SessionNode where
  id : String
  rootSessionId : String
  projectId : String
  eveSessionId : String
  parentNodeId : Option String
  parentEveSessionId : Option String
  startedDeploymentId : String
  lastObservedDeploymentId : String
  startedRuntimeInstanceId : Option String
  lastObservedRuntimeInstanceId : Option String
  agentId : Option String
  agentName : Option String
  nodeId : Option String
  channelKind : Option String
  modelId : Option String
  observedModelId : Option String
  eveVersion : Option String
  remoteUrl : Option String
  resolutionStatus : ResolutionStatus
  status : SessionStatus
  deriving DecidableEq

/-- `SessionEventInsert`: a row of `session_events` less its index. -/
structure SessionEventInsert where
  id : String
  sessionId : String
  sessionNodeId : Option String
  telemetryEventId : Option String
  eventFingerprint : Option String
  observedDeploymentId : Option String
  observedRuntimeInstanceId : Option String
  sourceSequence : Option ℕ
  type : String
  payload : Json
  eventAt : ℤ
  createdAt : ℤ

/-- A row of `session_events`. -/
structure SessionEvent extends SessionEventInsert where
  index : ℕ

/-- A row of `model_usage_events`. -/
structure ModelUsageEvent where
  id : String
  sessionId : String
  sessionNodeId : Option String
  eveSessionId : String
  agentId : Option String
  agentName : Option String
  turnId : String
  stepIndex : Option ℕ
  runKey : Option String
  modelId : Option String
  finishReason : Option String
  inputTokens : Option ℕ
  outputTokens : Option ℕ
  cacheReadTokens : Option ℕ
  cacheWriteTokens : Option ℕ
  costUsd : Option ℚ
  usageReported : Bool
  deriving DecidableEq

/-- The states of a schedule run. -/
inductive ScheduleRunStatus
  | queued
  | activating
  | dispatching
  | running
  | succeeded
  | failed
  | dispatchUnknown
  | skipped
  deriving DecidableEq

/-- A row of `schedule_runs`, less what it was claimed for. -/
structure ScheduleRun where
  id : String
  scheduleId : String
  deploymentId : String
  trigger : ScheduleStore.Trigger
  status : ScheduleRunStatus
  attempt : ℕ
  error : Option String
  startedAt : Option ℤ
  completedAt : Option ℤ
  createdAt : ℤ
  updatedAt : ℤ
  deriving DecidableEq

/-- A row of `schedule_run_sessions`. -/
structure ScheduleRunSession where
  scheduleRunId : String
  sessionId : String
  status : ExecutionStatus
  lastObservedAt : Option ℤ
  completedAt : Option ℤ
  error : Option String
  deriving DecidableEq

/-- What is read of a row of `session_bindings`. -/
structure SessionBinding where
  projectId : String
  eveSessionId : String
  routeId : String
  deploymentId : String
  variantName : Option String
  experimentId : Option String
  trigger : BindingTrigger
  deriving DecidableEq

/-- The trigger a binding gives its session. -/
def SessionBinding.sessionTrigger (binding : SessionBinding) : SessionTrigger :=
  match binding.trigger with
  | .api => .api
  | .playground => .playground

/-- The tables that are read and not written here. -/
structure Surroundings where
  deployments : List RuntimeStore.Deployment
  instances : List RuntimeStore.RuntimeInstance
  bindings : List SessionBinding
  schedules : List ScheduleStore.ProjectSchedule

/-- The tables. -/
structure Store extends Surroundings where
  sessions : List Session
  nodes : List SessionNode
  events : List SessionEvent
  usage : List ModelUsageEvent
  runs : List ScheduleRun
  executions : List ScheduleRunSession
  leases : List RuntimeStore.ActivationLease

namespace Store

variable (s : Store)

def getSession (id : String) : Option Session := s.sessions.find? fun row => row.id = id

/-- `sessions_project_eve_session_idx` finds one session at most. -/
def findSession (projectId eveSessionId : String) : Option Session :=
  s.sessions.find? fun row => row.projectId = projectId && row.eveSessionId = some eveSessionId

def getNode (id : String) : Option SessionNode := s.nodes.find? fun row => row.id = id

/-- `session_nodes_project_eve_idx` finds one node at most. -/
def findNode (projectId eveSessionId : String) : Option SessionNode :=
  s.nodes.find? fun row => row.projectId = projectId && row.eveSessionId = eveSessionId

def getRun (id : String) : Option ScheduleRun := s.runs.find? fun row => row.id = id

/-- The events of a session. -/
def eventsOf (sessionId : String) : List SessionEvent :=
  s.events.filter fun row => row.sessionId = sessionId

/-- The usage of a session. -/
def usageOf (sessionId : String) : List ModelUsageEvent :=
  s.usage.filter fun row => row.sessionId = sessionId

/-- The executions of a run. -/
def executionsOf (scheduleRunId : String) : List ScheduleRunSession :=
  s.executions.filter fun row => row.scheduleRunId = scheduleRunId

def findBinding (projectId eveSessionId : String) : Option SessionBinding :=
  s.bindings.find? fun row => row.projectId = projectId && row.eveSessionId = eveSessionId

end Store

end Eveland.Telemetry
