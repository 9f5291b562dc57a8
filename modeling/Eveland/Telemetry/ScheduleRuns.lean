/-
# Schedule runs and their executions

The operations that move a schedule run: claiming its activation, redeeming its dispatch,
completing it with the sessions it started, and the sweeps that fail what ran on a lost runtime
or has run for too long. Each call is one statement or one transaction.
-/

import Eveland.Telemetry.Ingest

namespace Eveland.Telemetry

open Outcome (ensure require)
open RuntimeStore (ActivationLease)

/-! ## Activation and dispatch -/

/-- A run as it is created. -/
def queuedRun (id scheduleId deploymentId : String) (trigger : ScheduleStore.Trigger) (now : ℤ) :
    ScheduleRun where
  id := id
  scheduleId := scheduleId
  deploymentId := deploymentId
  trigger := trigger
  status := .queued
  attempt := 0
  error := none
  startedAt := none
  completedAt := none
  createdAt := now
  updatedAt := now

/-- The insert of a queued run. -/
def insertRun (s : Store) (run : ScheduleRun) : Except String Store := do
  ensure (s.runs.all fun row => row.id ≠ run.id) "schedule_runs_pkey"
  pure { s with runs := s.runs ++ [run] }

/-- An update of the run a condition holds of, and the row it returns. -/
def updateRun (s : Store) (scheduleRunId : String) (condition : ScheduleRun → Bool)
    (change : ScheduleRun → ScheduleRun) : Store × Option ScheduleRun :=
  ({ s with
    runs := Table.updateWhere (fun row => row.id = scheduleRunId && condition row) change s.runs },
    ((s.getRun scheduleRunId).filter condition).map change)

/-- The run may be activated: it is queued, or its activation has gone stale. -/
def ScheduleRun.isActivatable (run : ScheduleRun) (now staleAfterMs : ℤ) : Bool :=
  run.status = .queued || (run.status = .activating && run.updatedAt ≤ now - staleAfterMs)

/-- `claimScheduleRunActivation`. -/
def claimScheduleRunActivation (s : Store) (scheduleRunId : String) (now staleAfterMs : ℤ) :
    Store × Option ScheduleRun :=
  updateRun s scheduleRunId (fun run => run.isActivatable now staleAfterMs) fun run =>
    { run with status := .activating, startedAt := some now, updatedAt := now }

/-- `redeemScheduleRunDispatch`. -/
def redeemScheduleRunDispatch (s : Store) (scheduleRunId deploymentId : String) (now : ℤ) :
    Store × Option ScheduleRun :=
  updateRun s scheduleRunId
    (fun run => run.deploymentId = deploymentId && run.status = .activating) fun run =>
    { run with status := .dispatching, attempt := run.attempt + 1, updatedAt := now }

/-! ## Completion -/

/-- The statuses a run is completed with. -/
inductive CompletionStatus
  | succeeded
  | failed
  | dispatchUnknown
  deriving DecidableEq

/-- The status of a run completed so. -/
def CompletionStatus.toRunStatus : CompletionStatus → ScheduleRunStatus
  | .succeeded => .succeeded
  | .failed => .failed
  | .dispatchUnknown => .dispatchUnknown

/-- The input of `completeScheduleRun`. -/
structure CompleteRunInput where
  status : CompletionStatus
  error : Option String
  eveSessionIds : List String

/-- The boundary event a completion reads: the last one the root has recorded since the run
started. -/
def Store.lastBoundary (s : Store) (session : Session) (rootNodeId : String) (since : ℤ) :
    Option SessionEvent :=
  ((s.eventsOf session.id).filter fun row =>
      row.sessionNodeId = some rootNodeId && since ≤ row.createdAt &&
        eveSessionBoundaryEventTypes.contains row.type).foldl
    (fun latest row => if latest.any fun other => row.index ≤ other.index then latest else some row)
    none

/-- How an execution stands when its session is linked: what is reported, or what the last
boundary event of the session says. -/
def Store.executionOf (s : Store) (run : ScheduleRun) (input : CompleteRunInput)
    (reportedError : Option String) (existing : Option Session) :
    ExecutionStatus × Option String :=
  if input.status ≠ .succeeded then (.failed, reportedError)
  else
    match existing with
    | none => (.running, none)
    | some session =>
        match session.rootNodeId with
        | none => (.running, none)
        | some rootNodeId =>
            match s.lastBoundary session rootNodeId (run.startedAt.getD run.createdAt) with
            | none => (.running, none)
            | some boundary =>
                let status :=
                  scheduleExecutionStatusFromEveEvent boundary.type session.status boundary.payload
                (status,
                  if status = .failed then
                    some (sanitizeStoredErrorText
                      (scheduleExecutionErrorFromEveEvent boundary.type boundary.payload))
                  else none)

/-- The trigger a run gives its sessions. -/
def runTrigger (trigger : ScheduleStore.Trigger) : SessionTrigger :=
  match trigger with
  | .cron => .cron
  | .manual => .manual

/-- A session that is linked to a run. -/
def linkSession (run : ScheduleRun) (row : Session) : Session :=
  { row with
    deploymentId := some run.deploymentId
    trigger := runTrigger run.trigger
    scheduleId := some run.scheduleId
    scheduleRunId := some run.id }

/-- The session a run has dispatched, linked to the run. -/
def linkDispatched (s : Store) (run : ScheduleRun) (projectId eveSessionId sessionId : String)
    (now : ℤ) : Except String (Store × String) :=
  match s.findSession projectId eveSessionId with
  | some existing =>
      .ok ({ s with
        sessions := Table.updateWhere (fun row => row.id = existing.id) (linkSession run)
          s.sessions }, existing.id)
  | none =>
      let created := linkSession run (startedSession sessionId projectId none (some eveSessionId)
        (runTrigger run.trigger) none now)
      (insertSession s created).map fun s => (s, sessionId)

/-- The insert of an execution, which does nothing where there is one. -/
def insertExecution (s : Store) (row : ScheduleRunSession) : Store :=
  if s.executions.any fun other =>
      other.scheduleRunId = row.scheduleRunId && other.sessionId = row.sessionId then s
  else { s with executions := s.executions ++ [row] }

/-- One turn of the loop of `completeScheduleRun`. -/
def dispatchSession (s : Store) (run : ScheduleRun) (projectId : String)
    (input : CompleteRunInput) (reportedError : Option String) (eveSessionId sessionId : String)
    (now : ℤ) : Except String Store := do
  let execution := s.executionOf run input reportedError (s.findSession projectId eveSessionId)
  let (s, linkedId) ← linkDispatched s run projectId eveSessionId sessionId now
  pure (insertExecution s
    { scheduleRunId := run.id, sessionId := linkedId, status := execution.1,
      lastObservedAt := none,
      completedAt := if execution.1 = .running then none else some now,
      error := execution.2 })

/-- The loop of `completeScheduleRun`. `newId` draws the identifiers. -/
def dispatchSessions (run : ScheduleRun) (projectId : String) (input : CompleteRunInput)
    (reportedError : Option String) (newId : ℕ → String) (now : ℤ) :
    List String → ℕ → Store → Except String Store
  | [], _, s => .ok s
  | eveSessionId :: rest, draw, s => do
      let s ← dispatchSession s run projectId input reportedError eveSessionId (newId draw) now
      dispatchSessions run projectId input reportedError newId now rest (draw + 1) s

/-- `new Set(values)`, in the order in which the values were added. -/
def distinct (values : List String) : List String := values.reverse.dedup.reverse

/-- What a completion leaves a run with. -/
structure Completion where
  status : ScheduleRunStatus
  error : Option String
  remainsRunning : Bool

/-- What the completion of a run comes to, given the executions of the run. -/
def completionOf (executions : List ScheduleRunSession) (input : CompleteRunInput)
    (reportedError : Option String) : Completion :=
  let failure := executions.find? fun row => row.status = .failed
  let remainsRunning := input.status = .succeeded && !input.eveSessionIds.isEmpty &&
    executions.any fun row => row.status = .running
  { status :=
      if remainsRunning then .running
      else if input.status = .succeeded && failure.isSome then .failed
      else input.status.toRunStatus
    error := (failure.bind fun row => row.error).or reportedError
    remainsRunning }

/-- A run as a completion leaves it. -/
def Completion.apply (completion : Completion) (now : ℤ) (row : ScheduleRun) : ScheduleRun :=
  { row with
    status := completion.status
    error := completion.error
    completedAt := if completion.remainsRunning then none else some now
    updatedAt := now }

/-- The last update of `completeScheduleRun`, which has no condition on the run's status, and
the release of the run's leases. -/
def finishRun (s : Store) (scheduleRunId : String) (completion : Completion) (now : ℤ) :
    Store × Option ScheduleRun :=
  let completed := updateRun s scheduleRunId (fun _ => true) (completion.apply now)
  if completion.remainsRunning then completed
  else (releaseRunLeases completed.1 (fun lease => lease.ownerId = scheduleRunId) now, completed.2)

/-- `completeScheduleRun`. -/
def completeScheduleRun (s : Store) (scheduleRunId : String) (input : CompleteRunInput)
    (newId : ℕ → String) (now : ℤ) : Except String (Store × Option ScheduleRun) :=
  match s.getRun scheduleRunId with
  | none => .ok (s, none)
  | some run => do
      let reportedError := input.error.map sanitizeStoredErrorText
      let schedule ← require (s.schedules.find? fun row => row.id = run.scheduleId)
        "ScheduleRun references an unknown ProjectSchedule."
      let s ← dispatchSessions run schedule.projectId input reportedError newId now
        (distinct input.eveSessionIds) 0 s
      let executions := if input.eveSessionIds.isEmpty then [] else s.executionsOf run.id
      pure (finishRun s scheduleRunId (completionOf executions input reportedError) now)

/-! ## Sweeps -/

/-- The end of an execution that a sweep fails. -/
def failExecution (reason : String) (now : ℤ) (row : ScheduleRunSession) : ScheduleRunSession :=
  { row with status := .failed, completedAt := some now, error := some reason }

/-- The end of a run that a sweep fails. -/
def failRun (reason : String) (now : ℤ) (row : ScheduleRun) : ScheduleRun :=
  { row with status := .failed, error := some reason, completedAt := some now, updatedAt := now }

/-- Running sessions of the given ids, failed. -/
def failSessions (s : Store) (sessionIds : List String) (error : String) (now : ℤ) : Store :=
  { s with
    sessions := Table.updateWhere
      (fun row => sessionIds.contains row.id && row.status = .running)
      (fun row => { row with status := .failed, error := some error, completedAt := some now })
      s.sessions }

/-- Running executions of the given runs and sessions, failed. -/
def failExecutions (s : Store) (runIds sessionIds : List String) (reason : String) (now : ℤ) :
    Store :=
  { s with
    executions := Table.updateWhere
      (fun row => runIds.contains row.scheduleRunId && sessionIds.contains row.sessionId &&
        row.status = .running)
      (failExecution reason now) s.executions }

/-- Running executions of a run, failed. -/
def failExecutionsOf (s : Store) (scheduleRunId reason : String) (now : ℤ) : Store :=
  { s with
    executions := Table.updateWhere
      (fun row => row.scheduleRunId = scheduleRunId && row.status = .running)
      (failExecution reason now) s.executions }

/-- The runs a condition holds of, failed. -/
def failRuns (s : Store) (selected : ScheduleRun → Bool) (reason : String) (now : ℤ) : Store :=
  { s with runs := Table.updateWhere selected (failRun reason now) s.runs }

/-- Nodes of the given ids, failed. -/
def failNodes (s : Store) (nodeIds : List String) : Store :=
  { s with
    nodes := Table.updateWhere (fun row => nodeIds.contains row.id)
      (fun row => { row with status := .failed }) s.nodes }

/-- The events that report a lost runtime, one for each of the sessions. -/
def appendRuntimeLostEvents (runtimeInstanceId reason : String) (newId : ℕ → String) (now : ℤ) :
    List (String × Option (String × String)) → ℕ → Store → Except String Store
  | [], _, s => .ok s
  | (sessionId, node) :: rest, draw, s => do
      let s ← appendRuntimeLostEventTx s sessionId runtimeInstanceId reason (newId draw) node now
      appendRuntimeLostEvents runtimeInstanceId reason newId now rest (draw + 1) s

/-- The running executions with a schedule run lease on a runtime instance, whose session
exists. -/
def Store.executionsOn (s : Store) (runtimeInstanceId : String) : List ScheduleRunSession :=
  s.executions.filter fun row =>
    row.status = .running && (s.getSession row.sessionId).isSome &&
      s.leases.any fun lease => lease.ownerId = row.scheduleRunId && lease.kind = .scheduleRun &&
        lease.runtimeInstanceId = runtimeInstanceId

/-- `failScheduleExecutionsForRuntimeInstance`. -/
def failScheduleExecutionsForRuntimeInstance (s : Store) (runtimeInstanceId reason : String)
    (newId : ℕ → String) (now : ℤ) : Except String Store := do
  let interrupted := s.executionsOn runtimeInstanceId
  let runIds := interrupted.map fun row => row.scheduleRunId
  let sessionIds := interrupted.map fun row => row.sessionId
  let s := failExecutions s runIds sessionIds reason now
  let s := failSessions s sessionIds (sanitizeStoredErrorText reason) now
  let s ← appendRuntimeLostEvents runtimeInstanceId reason newId now
    (sessionIds.map fun sessionId => (sessionId, none)) 0 s
  pure (releaseRunLeases (failRuns s (fun row => runIds.contains row.id) reason now)
    (fun lease => lease.runtimeInstanceId = runtimeInstanceId && runIds.contains lease.ownerId) now)

/-- The running sessions whose root was last observed on a runtime instance, with that root. -/
def Store.sessionsOn (s : Store) (runtimeInstanceId : String) : List SessionNode :=
  s.nodes.filter fun node =>
    node.parentNodeId.isNone && node.lastObservedRuntimeInstanceId = some runtimeInstanceId &&
      (s.getSession node.rootSessionId).any fun row => row.status = .running

/-- `failRunningSessionsForRuntimeInstance`. -/
def failRunningSessionsForRuntimeInstance (s : Store) (runtimeInstanceId reason : String)
    (newId : ℕ → String) (now : ℤ) : Except String Store := do
  let interrupted := s.sessionsOn runtimeInstanceId
  let sessionIds := interrupted.map fun node => node.rootSessionId
  let nodeIds := interrupted.map fun node => node.id
  let s := failSessions s sessionIds (sanitizeStoredErrorText reason) now
  let s := failNodes s nodeIds
  let s ← appendRuntimeLostEvents runtimeInstanceId reason newId now
    (interrupted.map fun node =>
      (node.rootSessionId, some (node.id, node.lastObservedDeploymentId))) 0 s
  let runIds := (s.executions.filter fun row =>
    sessionIds.contains row.sessionId && row.status = .running).map fun row => row.scheduleRunId
  let s := failExecutions s runIds sessionIds reason now
  pure (releaseRunLeases
    (failRuns s (fun row => runIds.contains row.id && row.status = .running) reason now)
    (fun lease => runIds.contains lease.ownerId) now)

/-- The events that report a deadline, one for each of the sessions. -/
def appendDeadlineEvents (runtimeInstanceId reason : String) (newId : ℕ → String) (now : ℤ) :
    List String → ℕ → Store → Except String Store
  | [], _, s => .ok s
  | sessionId :: rest, draw, s => do
      let (s, _) ← appendSessionEventRow s
        { id := newId draw, sessionId, sessionNodeId := none, telemetryEventId := none,
          eventFingerprint := none, observedDeploymentId := none,
          observedRuntimeInstanceId := none, sourceSequence := none,
          type := "platform.runtime_deadline_exceeded",
          payload := runtimePayload runtimeInstanceId reason, eventAt := now, createdAt := now }
      appendDeadlineEvents runtimeInstanceId reason newId now rest (draw + 1) s

/-- One turn of the loop of `failExpiredScheduleExecutions`: the executions of one run. -/
def failExpiredRun (s : Store) (scheduleRunId runtimeInstanceId : String) (newId : ℕ → String)
    (now : ℤ) : Except String Store := do
  let reason :=
    s!"ScheduleRun exceeded its maximum runtime on RuntimeInstance {runtimeInstanceId}."
  let sessionIds := ((s.executionsOf scheduleRunId).filter fun row =>
    row.status = .running && (s.getSession row.sessionId).isSome).map fun row => row.sessionId
  if sessionIds.isEmpty then pure s
  else
    let s := failExecutionsOf s scheduleRunId reason now
    let s := failSessions s sessionIds reason now
    let s ← appendDeadlineEvents runtimeInstanceId reason newId now sessionIds 0 s
    pure (releaseRunLeases (failRuns s (fun row => row.id = scheduleRunId) reason now)
      (fun lease => lease.ownerId = scheduleRunId) now)

/-- The loop of `failExpiredScheduleExecutions`. -/
def failExpiredRuns (newId : ℕ → ℕ → String) (now : ℤ) :
    List (String × String) → ℕ → Store → Except String Store
  | [], _, s => .ok s
  | (scheduleRunId, runtimeInstanceId) :: rest, draw, s => do
      let s ← failExpiredRun s scheduleRunId runtimeInstanceId (newId draw) now
      failExpiredRuns newId now rest (draw + 1) s

/-- The runs with a running execution and a lease that has expired, each with the instance of
such a lease. -/
def Store.expiredRuns (s : Store) (now : ℤ) : List (String × String) :=
  ((s.executions.filter fun row => row.status = .running).flatMap fun row =>
    (s.leases.filter fun lease => lease.ownerId = row.scheduleRunId && lease.kind = .scheduleRun &&
      lease.expiresAt ≤ now).map fun lease => (row.scheduleRunId, lease.runtimeInstanceId)).dedup

/-- `failExpiredScheduleExecutions`. -/
def failExpiredScheduleExecutions (s : Store) (limit : ℕ) (newId : ℕ → ℕ → String) (now : ℤ) :
    Except String Store :=
  if limit < 1 then .error "Expired ScheduleRun limit must be positive."
  else failExpiredRuns newId now ((s.expiredRuns now).take limit) 0 s

end Eveland.Telemetry
