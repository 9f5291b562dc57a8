/-
# Writes shared by the session operations

Appending an event to a session, folding one session into another, recording usage, and the
operations on sessions that are not driven by observations. Each call is one transaction: where
it throws, the store is left as it was.
-/

import Eveland.Telemetry.Rows

namespace Eveland.Telemetry

open Outcome (ensure require)

/-! ## Events -/

/-- `coalesce(max(index) + 1, 0)` over the events of a session. -/
def Store.nextIndex (s : Store) (sessionId : String) : ℕ :=
  (s.eventsOf sessionId).foldr (fun row next => max (row.index + 1) next) 0

/-- Whether two events carry the same identity for one node. -/
def SessionEventInsert.sameIdentity (first second : SessionEventInsert) : Bool :=
  first.sessionNodeId.isSome && first.sessionNodeId = second.sessionNodeId &&
    ((first.telemetryEventId.isSome && first.telemetryEventId = second.telemetryEventId) ||
      (first.eventFingerprint.isSome && first.eventFingerprint = second.eventFingerprint))

/-- `appendSessionEventRow`. -/
def appendSessionEventRow (s : Store) (values : SessionEventInsert) :
    Except String (Store × SessionEvent) := do
  ensure (s.getSession values.sessionId).isSome "session_events_session_id_fkey"
  ensure (s.events.all fun row => row.id ≠ values.id) "session_events_pkey"
  ensure (s.events.all fun row => !row.toSessionEventInsert.sameIdentity values)
    "session_events_node_telemetry_idx"
  let row : SessionEvent := { values with index := s.nextIndex values.sessionId }
  pure ({ s with events := s.events ++ [row] }, row)

/-- `moveSessionEventsForMerge`. -/
def moveSessionEventsForMerge (s : Store) (fromSessionId toSessionId : String) : Store :=
  let offset := s.nextIndex toSessionId
  { s with
    events := Table.updateWhere (fun row => row.sessionId = fromSessionId)
      (fun row => { row with sessionId := toSessionId, index := row.index + offset }) s.events }

/-- The payload of the events that report what became of a runtime. -/
def runtimePayload (runtimeInstanceId reason : String) : Json :=
  .obj [("runtimeInstanceId", .str runtimeInstanceId), ("reason", .str reason)]

/-- `appendRuntimeLostEventTx`, with the node and the deployment it is given, if any. -/
def appendRuntimeLostEventTx (s : Store) (sessionId runtimeInstanceId reason eventId : String)
    (node : Option (String × String)) (now : ℤ) : Except String Store :=
  if (s.eventsOf sessionId).any fun row =>
      row.type = "platform.runtime_lost" &&
        row.payload.fieldText "runtimeInstanceId" = some runtimeInstanceId then .ok s
  else
    (appendSessionEventRow s
      { id := eventId, sessionId, sessionNodeId := node.map Prod.fst, telemetryEventId := none,
        eventFingerprint := none, observedDeploymentId := node.map Prod.snd,
        observedRuntimeInstanceId := some runtimeInstanceId, sourceSequence := none,
        type := "platform.runtime_lost", payload := runtimePayload runtimeInstanceId reason,
        eventAt := now, createdAt := now }).map Prod.fst

/-! ## Usage -/

/-- What a usage row adds to its session's counters: `sessionUsageIncrement` and the step. -/
def ModelUsageEvent.contribution (row : ModelUsageEvent) : UsageCounters where
  inputTokens := row.inputTokens.getD 0
  outputTokens := row.outputTokens.getD 0
  cacheReadTokens := row.cacheReadTokens.getD 0
  cacheWriteTokens := row.cacheWriteTokens.getD 0
  costUsd := row.costUsd
  usageReportedSteps := if row.usageReported then 1 else 0
  usageMissingSteps := if row.usageReported then 0 else 1

/-- What a row without usage adds: a missing step. -/
def missingStep : UsageCounters := { (0 : UsageCounters) with usageMissingSteps := 1 }

/-- The two unique indexes of a session's usage rows. -/
def ModelUsageEvent.sameInSession (first second : ModelUsageEvent) : Bool :=
  first.sessionId = second.sessionId && first.eveSessionId = second.eveSessionId &&
    ((first.turnId = second.turnId && first.stepIndex.isSome &&
        first.stepIndex = second.stepIndex) ||
      (first.runKey.isSome && first.runKey = second.runKey))

/-- The two unique indexes of a node's usage rows. -/
def ModelUsageEvent.sameInNode (first second : ModelUsageEvent) : Bool :=
  first.sessionNodeId.isSome && first.sessionNodeId = second.sessionNodeId &&
    ((first.turnId = second.turnId && first.stepIndex.isSome &&
        first.stepIndex = second.stepIndex) ||
      (first.runKey.isSome && first.runKey = second.runKey))

/-- An update of the counters of one session. -/
def addCounters (s : Store) (sessionId : String) (f : UsageCounters → UsageCounters) : Store :=
  { s with
    sessions := Table.updateWhere (fun row => row.id = sessionId)
      (fun row => { row with counters := f row.counters }) s.sessions }

/-- The insert of a usage row and the increment that goes with it. -/
def insertUsage (s : Store) (row : ModelUsageEvent) : Store :=
  addCounters { s with usage := s.usage ++ [row] } row.sessionId fun counters =>
    counters + row.contribution

/-- The usage a caller of `recordModelUsage` gives. -/
structure ModelUsageInput where
  eveSessionId : Option String
  agentId : Option String
  agentName : Option String
  reading : ModelStepUsage

/-- The row of a call of `recordModelUsage`. -/
def ModelUsageInput.row (usage : ModelUsageInput) (sessionId id : String) : ModelUsageEvent where
  id := id
  sessionId := sessionId
  sessionNodeId := none
  eveSessionId := usage.eveSessionId.getD sessionId
  agentId := usage.agentId
  agentName := usage.agentName
  turnId := usage.reading.turnId
  stepIndex := usage.reading.stepIndex
  runKey := usage.reading.runKey
  modelId := none
  finishReason := usage.reading.finishReason
  inputTokens := usage.reading.inputTokens
  outputTokens := usage.reading.outputTokens
  cacheReadTokens := usage.reading.cacheReadTokens
  cacheWriteTokens := usage.reading.cacheWriteTokens
  costUsd := usage.reading.costUsd
  usageReported := usage.reading.usageReported

/-- The conflict target of `recordModelUsage`: the step of a row without a run key, the run of
one that has a key. -/
def ModelUsageEvent.sameTarget (row other : ModelUsageEvent) : Bool :=
  row.sessionId = other.sessionId && row.eveSessionId = other.eveSessionId &&
    (if row.runKey.isNone then
      row.turnId = other.turnId && row.stepIndex.isSome && row.stepIndex = other.stepIndex
    else row.runKey = other.runKey)

/-- `recordModelUsage`. -/
def recordModelUsage (s : Store) (sessionId : String) (usage : ModelUsageInput) (id : String) :
    Except String (Store × ModelUsageEvent) := do
  ensure (usage.reading.runKey.isSome || usage.reading.stepIndex.isSome)
    "Model usage needs a v26 step index or a v27 run key."
  let row := usage.row sessionId id
  match s.usage.find? fun other => row.sameTarget other with
  | some existing => pure (s, existing)
  | none =>
      ensure (s.getSession sessionId).isSome "model_usage_events_session_id_fkey"
      ensure (s.usage.all fun other => other.id ≠ id && !row.sameInSession other)
        "model_usage_session_eve_turn_step_idx"
      pure (insertUsage s row, row)

/-! ## Merging -/

/-- The metadata a merge may set on the session that stays. -/
structure MetadataPatch where
  rootNodeId : Option String
  deploymentId : Option String
  routeId : Option String
  experimentId : Option String
  variantName : Option String

/-- A session with the metadata of a patch. -/
def MetadataPatch.apply (patch : MetadataPatch) (row : Session) : Session :=
  { row with
    rootNodeId := patch.rootNodeId, deploymentId := patch.deploymentId, routeId := patch.routeId,
    experimentId := patch.experimentId, variantName := patch.variantName }

/-- Whether the usage of one session, moved to another, runs into a row of it. -/
def Store.usageCollides (s : Store) (fromSessionId toSessionId : String) : Bool :=
  (s.usageOf fromSessionId).any fun row =>
    (s.usageOf toSessionId).any fun other =>
      { row with sessionId := toSessionId : ModelUsageEvent }.sameInSession other

/-- `mergeSessionRows`: the row that is absorbed is as the caller has read it. Deleting its
session deletes its executions. -/
def mergeSessionRows (s : Store) (absorbed : Session) (survivingSessionId : String)
    (patch : Session → Session) : Except String Store := do
  ensure (!s.usageCollides absorbed.id survivingSessionId) "model_usage_session_eve_turn_step_idx"
  let s := { s with
    nodes := Table.updateWhere (fun row => row.rootSessionId = absorbed.id)
      (fun row => { row with rootSessionId := survivingSessionId }) s.nodes }
  let s := moveSessionEventsForMerge s absorbed.id survivingSessionId
  let s := { s with
    usage := Table.updateWhere (fun row => row.sessionId = absorbed.id)
      (fun row => { row with sessionId := survivingSessionId }) s.usage }
  let s := { s with
    sessions := Table.updateWhere (fun row => row.id = survivingSessionId)
      (fun row => { patch row with counters := row.counters + absorbed.counters }) s.sessions }
  pure { s with
    sessions := s.sessions.filter fun row => row.id ≠ absorbed.id
    executions := s.executions.filter fun row => row.sessionId ≠ absorbed.id }

/-! ## Sessions -/

/-- The insert of a session. -/
def insertSession (s : Store) (row : Session) : Except String Store := do
  ensure (s.sessions.all fun other => other.id ≠ row.id) "sessions_pkey"
  ensure (row.eveSessionId.all fun eveSessionId =>
    (s.findSession row.projectId eveSessionId).isNone) "sessions_project_eve_session_idx"
  pure { s with sessions := s.sessions ++ [row] }

/-- A session that has just been started. -/
def startedSession (id projectId : String) (deploymentId eveSessionId : Option String)
    (trigger : SessionTrigger) (scheduleId : Option String) (startedAt : ℤ) : Session where
  id := id
  projectId := projectId
  deploymentId := deploymentId
  eveSessionId := eveSessionId
  rootNodeId := none
  routeId := none
  experimentId := none
  variantName := none
  trigger := trigger
  scheduleId := scheduleId
  scheduleRunId := none
  status := .running
  error := none
  startedAt := startedAt
  completedAt := none
  counters := 0

/-- `createSession`. -/
def createSession (s : Store) (id projectId : String) (deploymentId eveSessionId : Option String)
    (trigger : SessionTrigger) (scheduleId : Option String) (now : ℤ) : Except String Store :=
  insertSession s (startedSession id projectId deploymentId eveSessionId trigger scheduleId now)

/-- `appendSessionEvent`. -/
def appendSessionEvent (s : Store) (sessionId type : String) (payload : Json) (id : String)
    (now : ℤ) : Except String (Store × SessionEvent) :=
  appendSessionEventRow s
    { id, sessionId, sessionNodeId := none, telemetryEventId := none, eventFingerprint := none,
      observedDeploymentId := none, observedRuntimeInstanceId := none, sourceSequence := none,
      type, payload, eventAt := now, createdAt := now }

/-- A session under the binding of its Eve session id. -/
def SessionBinding.bound (binding : SessionBinding) (row : Session) : Session :=
  { row with
    trigger := binding.sessionTrigger
    routeId := some binding.routeId
    experimentId := binding.experimentId
    variantName := binding.variantName
    deploymentId := some binding.deploymentId }

/-- `bindSession`: the binding is written, and copied onto the session it names. -/
def bindSession (s : Store) (binding : SessionBinding) : Store :=
  { s with
    bindings := Table.upsertWhere
      (fun row => row.projectId = binding.projectId && row.eveSessionId = binding.eveSessionId)
      (fun _ => binding) binding s.bindings
    sessions := Table.updateWhere
      (fun row => row.projectId = binding.projectId &&
        row.eveSessionId = some binding.eveSessionId) binding.bound s.sessions }

/-- The time a session in a status was completed. -/
def completionTime (status : SessionStatus) (now : ℤ) : Option ℤ :=
  if status = .completed ∨ status = .failed then some now else none

/-- The input of `completeSession`: what is not given stays, and what is given may be null. -/
structure CompleteSessionInput where
  status : SessionStatus
  eveSessionId : Option (Option String)
  error : Option (Option String)

/-- The Eve session id a completion claims. -/
def CompleteSessionInput.claimedId (input : CompleteSessionInput) : Option String :=
  input.eveSessionId.join.filter fun eveSessionId => eveSessionId ≠ ""

/-- The metadata `completeSession` coalesces: what the session has, or what was observed. -/
def coalescedPatch (current observed : Session) : MetadataPatch where
  rootNodeId := current.rootNodeId.or observed.rootNodeId
  deploymentId := current.deploymentId.or observed.deploymentId
  routeId := current.routeId.or observed.routeId
  experimentId := current.experimentId.or observed.experimentId
  variantName := current.variantName.or observed.variantName

/-- The update of `completeSession`. -/
def completedRow (input : CompleteSessionInput) (binding : Option SessionBinding) (now : ℤ)
    (row : Session) : Session :=
  let row := { row with
    status := input.status
    error :=
      if input.status = .failed then
        (input.error.map fun error => error.map sanitizeStoredErrorText).getD row.error
      else none
    eveSessionId := input.eveSessionId.getD row.eveSessionId
    completedAt := completionTime input.status now }
  match binding with
  | none => row
  | some binding => binding.bound row

/-- The merge of `completeSession`: another session that holds the Eve session id is folded. -/
def foldObserved (s : Store) (current : Session) (eveSessionId : Option String) :
    Except String Store :=
  match eveSessionId with
  | none => .ok s
  | some eveSessionId =>
      match s.sessions.find? fun row => row.projectId = current.projectId &&
          row.eveSessionId = some eveSessionId && row.id ≠ current.id with
      | none => .ok s
      | some observed =>
          mergeSessionRows s observed current.id (coalescedPatch current observed).apply

/-- `completeSession`. -/
def completeSession (s : Store) (sessionId : String) (input : CompleteSessionInput) (now : ℤ) :
    Except String Store :=
  match s.getSession sessionId with
  | none => .ok s
  | some current => do
      let s ← foldObserved s current input.claimedId
      let binding := input.claimedId.bind fun eveSessionId =>
        s.findBinding current.projectId eveSessionId
      pure { s with
        sessions := Table.updateWhere (fun row => row.id = sessionId)
          (completedRow input binding now) s.sessions }

/-- `pruneDerivedAgentTelemetry`. Executions go with their sessions. -/
def pruneDerivedAgentTelemetry (s : Store) (before : ℤ) : Store :=
  let expired (sessionId : String) : Bool :=
    s.sessions.any fun row => row.id = sessionId && row.status ≠ .running &&
      row.completedAt.getD row.startedAt < before
  { s with
    usage := s.usage.filter fun row => !expired row.sessionId
    events := s.events.filter fun row => !expired row.sessionId
    nodes := s.nodes.filter fun row => !expired row.rootSessionId
    sessions := s.sessions.filter fun row => !expired row.id
    executions := s.executions.filter fun row => !expired row.sessionId }

end Eveland.Telemetry
