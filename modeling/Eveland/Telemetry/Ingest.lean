/-
# Ingesting an observation

`ingestPostgresAgentEvent` as one transaction. It finds the node the observation is about, or
opens one; stops at an observation the node has recorded already; and otherwise appends the
event and projects it onto the node, the session, the schedule run, the node's children and the
usage, in this order.

Identifiers that are drawn during a call are an argument of it, and one that is taken makes the
call throw.
-/

import Eveland.Telemetry.Writes

namespace Eveland.Telemetry

open Outcome (ensure require)

/-! ## Observations -/

/-- The `agent` of an observation. -/
structure ObservedAgent where
  id : Option String
  name : Option String
  nodeId : Option String
  deriving DecidableEq

/-- `AgentEventObservation`. -/
structure AgentEventObservation where
  telemetryEventId : String
  eventFingerprint : String
  deploymentId : String
  runtimeInstanceId : Option String
  eveSessionId : String
  parentEveSessionId : Option String
  sourceSequence : Option ℕ
  agent : ObservedAgent
  channelKind : Option String
  /-- The `modelId` of the observed model, where there is one. -/
  observedModelId : Option String
  eventAt : ℤ
  event : Json

/-- The identifiers one call draws. -/
structure IngestIds where
  parentSession : String
  parentNode : String
  session : String
  node : String
  event : String
  child : String
  usage : String

/-- `triggerFromAgentChannel`. -/
def triggerFromAgentChannel (channelKind : Option String) : SessionTrigger :=
  match channelKind with
  | none => .directHttp
  | some kind =>
      if kind = "schedule" ∨ kind = "channel:eveland-scheduler" then .cron
      else if kind = "channel:eve" then .directHttp
      else if "channel:".toList.isPrefixOf kind.toList then .channel
      else if kind ≠ "" ∧ kind ≠ "http" ∧ kind ≠ "eve" then .webhook
      else .directHttp

/-- What is read off the event of an observation. -/
structure EventReading where
  type : String
  scope : Option Json
  payload : Json

/-- The type, the scope and the payload of an event. The turn that owns it is copied into data
that names none. -/
def readEvent (event : Json) : EventReading :=
  let eventRecord := event.record
  let scope := (eventRecord.bind fun record => record.field "scope").bind Json.record
  let data := (eventRecord.bind fun record => record.field "data").bind Json.record
  { type := (Json.stringField "type" eventRecord).getD "event"
    scope
    payload :=
      match data, Json.filledField "turnId" scope with
      | some (.obj fields), some turnId =>
          if ((Json.obj fields).field "turnId").isNone then
            .obj (fields ++ [("turnId", .str turnId)])
          else .obj fields
      | some value, _ => value
      | none, _ => event }

/-- `isNewestNodeObservation`: at least as new as everything the node has recorded, where there
is an order. -/
def Store.isNewestNodeObservation (s : Store) (nodeId : String) (sourceSequence : Option ℕ) :
    Bool :=
  sourceSequence.all fun sequence =>
    s.events.all fun row =>
      row.sessionNodeId ≠ some nodeId || row.sourceSequence.all fun other => other ≤ sequence

/-! ## The node -/

/-- The update of a node from an observation, the latest one or a late one. -/
def touchNode (o : AgentEventObservation) (isLatest : Bool) (node : SessionNode) : SessionNode :=
  { node with
    lastObservedDeploymentId := if isLatest then o.deploymentId else node.lastObservedDeploymentId
    lastObservedRuntimeInstanceId :=
      if isLatest then o.runtimeInstanceId.or node.lastObservedRuntimeInstanceId
      else node.lastObservedRuntimeInstanceId
    agentName := o.agent.name.or node.agentName
    nodeId := o.agent.nodeId.or node.nodeId
    channelKind := o.channelKind.or node.channelKind
    resolutionStatus := .observed }

/-- The trigger a root observation discovers for a session that has none of its own. -/
def discoverTrigger (o : AgentEventObservation) (row : Session) : Session :=
  if row.trigger = .directHttp then { row with trigger := triggerFromAgentChannel o.channelKind }
  else row

/-- A node found: it is updated, and so is the trigger of its session where it is the root. -/
def resolveNode (s : Store) (o : AgentEventObservation) (node : SessionNode) :
    Except String (Store × Session × SessionNode × Bool) := do
  let sessionRow ← require (s.getSession node.rootSessionId)
    "Failed to resolve Agent telemetry session node."
  let isLatest := s.isNewestNodeObservation node.id o.sourceSequence
  let s := { s with
    nodes := Table.updateWhere (fun row => row.id = node.id) (touchNode o isLatest) s.nodes }
  if node.parentNodeId.isNone then
    pure ({ s with
      sessions := Table.updateWhere (fun row => row.id = sessionRow.id) (discoverTrigger o)
        s.sessions }, discoverTrigger o sessionRow, touchNode o isLatest node, isLatest)
  else pure (s, sessionRow, touchNode o isLatest node, isLatest)

/-- The insert of a node. -/
def insertNode (s : Store) (row : SessionNode) : Except String Store := do
  ensure (s.nodes.all fun other => other.id ≠ row.id) "session_nodes_pkey"
  ensure (s.findNode row.projectId row.eveSessionId).isNone "session_nodes_project_eve_idx"
  pure { s with nodes := s.nodes ++ [row] }

/-- A node as an observation opens one, of the given status of resolution. -/
def openedNode (o : AgentEventObservation) (projectId id rootSessionId eveSessionId : String)
    (resolutionStatus : ResolutionStatus) : SessionNode where
  id := id
  rootSessionId := rootSessionId
  projectId := projectId
  eveSessionId := eveSessionId
  parentNodeId := none
  parentEveSessionId := none
  startedDeploymentId := o.deploymentId
  lastObservedDeploymentId := o.deploymentId
  startedRuntimeInstanceId := o.runtimeInstanceId
  lastObservedRuntimeInstanceId := o.runtimeInstanceId
  agentId := none
  agentName := none
  nodeId := none
  channelKind := none
  modelId := none
  observedModelId := none
  eveVersion := none
  remoteUrl := none
  resolutionStatus := resolutionStatus
  status := .running

/-- A session as an observation opens one, with what its binding says. -/
def openedSession (o : AgentEventObservation) (projectId id eveSessionId : String)
    (binding : Option SessionBinding) (trigger : SessionTrigger) : Session :=
  { startedSession id projectId
      (some ((binding.map fun b => b.deploymentId).getD o.deploymentId)) (some eveSessionId)
      ((binding.map SessionBinding.sessionTrigger).getD trigger) none o.eventAt with
    routeId := binding.map fun b => b.routeId
    experimentId := binding.bind fun b => b.experimentId
    variantName := binding.bind fun b => b.variantName }

/-- A new session for an Eve session id. -/
def openSession (s : Store) (o : AgentEventObservation) (projectId id eveSessionId : String)
    (trigger : SessionTrigger) : Except String (Store × Session) :=
  let row := openedSession o projectId id eveSessionId (s.findBinding projectId eveSessionId)
    trigger
  (insertSession s row).map fun s => (s, row)

/-- The session of an Eve session id, or a new one. -/
def findOrOpenSession (s : Store) (o : AgentEventObservation) (projectId id eveSessionId : String)
    (trigger : SessionTrigger) : Except String (Store × Session) :=
  match s.findSession projectId eveSessionId with
  | some row => .ok (s, row)
  | none => openSession s o projectId id eveSessionId trigger

/-- A node that is a root: the session is given its node, and its Eve session id. -/
def setRoot (s : Store) (sessionId nodeId eveSessionId : String) : Store :=
  { s with
    sessions := Table.updateWhere (fun row => row.id = sessionId)
      (fun row => { row with rootNodeId := some nodeId, eveSessionId := some eveSessionId })
      s.sessions }

/-- The parent an observation names: its node, or a placeholder for it. -/
def resolveParent (s : Store) (o : AgentEventObservation) (projectId : String) (ids : IngestIds) :
    Except String (Store × Option SessionNode) :=
  match o.parentEveSessionId with
  | none => .ok (s, none)
  | some parentEveSessionId =>
      match s.findNode projectId parentEveSessionId with
      | some parent => .ok (s, some parent)
      | none => do
          let (s, sessionRow) ← findOrOpenSession s o projectId ids.parentSession
            parentEveSessionId .directHttp
          let parent := openedNode o projectId ids.parentNode sessionRow.id parentEveSessionId
            .unresolved
          let s ← insertNode s parent
          pure (setRoot s sessionRow.id parent.id parentEveSessionId, some parent)

/-- The session a new node belongs to: its parent's, or its own. -/
def resolveSession (s : Store) (o : AgentEventObservation) (projectId : String)
    (parent : Option SessionNode) (ids : IngestIds) : Except String (Store × Session) :=
  let trigger := triggerFromAgentChannel o.channelKind
  match parent with
  | none => findOrOpenSession s o projectId ids.session o.eveSessionId trigger
  | some node =>
      match s.getSession node.rootSessionId with
      | some row => .ok (s, row)
      | none => openSession s o projectId ids.session o.eveSessionId trigger

/-- No node found: one is opened under the parent the observation names, or as a root. -/
def openNode (s : Store) (o : AgentEventObservation) (projectId : String) (ids : IngestIds) :
    Except String (Store × Session × SessionNode × Bool) := do
  let (s, parent) ← resolveParent s o projectId ids
  let (s, sessionRow) ← resolveSession s o projectId parent ids
  let node : SessionNode :=
    { openedNode o projectId ids.node sessionRow.id o.eveSessionId .observed with
      parentNodeId := parent.map fun row => row.id
      parentEveSessionId := o.parentEveSessionId
      agentId := o.agent.id
      agentName := o.agent.name
      nodeId := o.agent.nodeId
      channelKind := o.channelKind }
  let s ← insertNode s node
  if parent.isNone then
    pure (setRoot s sessionRow.id node.id node.eveSessionId,
      { sessionRow with rootNodeId := some node.id, eveSessionId := some node.eveSessionId },
      node, true)
  else pure (s, sessionRow, node, true)

/-! ## Projections -/

/-- The update of a node from its event. -/
def projectNode (o : AgentEventObservation) (reading : EventReading)
    (projected : Option SessionStatus) (node : SessionNode) : SessionNode :=
  let runtime :=
    if reading.type = "session.started" then
      (reading.payload.record.bind fun record => record.field "runtime").bind Json.record
    else none
  let configuredModelId := (Json.stringField "modelId" runtime).or
    (if reading.type = "step.started" ∨ reading.type = "model.started" then
      Json.stringField "modelId" reading.payload.record
    else none)
  { node with
    status := projected.getD node.status
    resolutionStatus := .observed
    agentId := (Json.stringField "agentId" runtime).or node.agentId
    agentName := (Json.stringField "agentName" runtime).or node.agentName
    modelId := configuredModelId.or node.modelId
    observedModelId := o.observedModelId.or node.observedModelId
    eveVersion := (Json.stringField "eveVersion" runtime).or node.eveVersion }

/-- The update of a session from an event of its root. -/
def projectSession (reading : EventReading) (status : SessionStatus) (now : ℤ) (row : Session) :
    Session :=
  { row with
    status
    error :=
      if status = .failed then
        some (sanitizeStoredErrorText (sessionErrorFromEveEvent reading.type reading.payload))
      else none
    completedAt := completionTime status now }

/-- The projection of an event onto the status of its node, and of its session where the node
is the root. -/
def projectStatus (s : Store) (o : AgentEventObservation) (reading : EventReading)
    (node : SessionNode) (sessionRow : Session) (projected : Option SessionStatus) (now : ℤ) :
    Store × SessionNode × Session :=
  let s := { s with
    nodes := Table.updateWhere (fun row => row.id = node.id) (projectNode o reading projected)
      s.nodes }
  let node := projectNode o reading projected node
  match projected with
  | none => (s, node, sessionRow)
  | some status =>
      if node.parentNodeId.isNone then
        ({ s with
          sessions := Table.updateWhere (fun row => row.id = sessionRow.id)
            (projectSession reading status now) s.sessions },
          node, projectSession reading status now sessionRow)
      else (s, node, sessionRow)

/-- `nonRunning`. -/
def nonRunning : ExecutionStatus → Option ExecutionStatus
  | .running => none
  | status => some status

/-- The end of an execution. -/
def endExecution (reading : EventReading) (status : ExecutionStatus) (now : ℤ)
    (row : ScheduleRunSession) : ScheduleRunSession :=
  { row with
    status
    lastObservedAt := some now
    completedAt := some now
    error :=
      if status = .failed then
        some (sanitizeStoredErrorText
          (scheduleExecutionErrorFromEveEvent reading.type reading.payload))
      else none }

/-- The release of the leases of schedule runs. -/
def releaseRunLeases (s : Store) (owns : RuntimeStore.ActivationLease → Bool) (now : ℤ) : Store :=
  { s with
    leases := Table.updateWhere
      (fun lease => lease.kind = .scheduleRun && owns lease && lease.releasedAt.isNone)
      (fun lease => { lease with releasedAt := some now }) s.leases }

/-- A run none of whose executions is running any more is settled, if it is running itself. -/
def settleRun (s : Store) (scheduleRunId : String) (now : ℤ) : Store :=
  let executions := s.executionsOf scheduleRunId
  if executions.isEmpty || executions.any fun row => row.status = .running then s
  else
    let failure := executions.find? fun row => row.status = .failed
    releaseRunLeases { s with
      runs := Table.updateWhere (fun row => row.id = scheduleRunId && row.status = .running)
        (fun row => { row with
          status := if failure.isSome then .failed else .succeeded
          error := failure.bind fun row => row.error
          completedAt := some now
          updatedAt := now }) s.runs }
      (fun lease => lease.ownerId = scheduleRunId) now

/-- The projection of an event onto the execution of a scheduled session. Only the root ends
it, and an execution ends once. -/
def projectExecution (s : Store) (reading : EventReading) (node : SessionNode)
    (sessionRow : Session) (now : ℤ) : Store :=
  match sessionRow.scheduleRunId with
  | none => s
  | some scheduleRunId =>
      let isOurs (row : ScheduleRunSession) : Bool :=
        row.scheduleRunId = scheduleRunId && row.sessionId = sessionRow.id
      let ended :=
        if node.parentNodeId.isNone then
          nonRunning (scheduleExecutionStatusFromEveEvent reading.type node.status reading.payload)
        else none
      match ended with
      | none =>
          { s with
            executions := Table.updateWhere isOurs
              (fun row => { row with lastObservedAt := some now }) s.executions }
      | some status =>
          settleRun { s with
            executions := Table.updateWhere (fun row => isOurs row && row.status = .running)
              (endExecution reading status now) s.executions } scheduleRunId now

/-- The Eve session id of the child an event announces. -/
def announcedChild (reading : EventReading) : Option String :=
  if reading.type = "subagent.called" then
    Json.filledField "childSessionId" reading.payload.record
  else if reading.type = "agent.started" ∨ reading.type = "child.opened" then
    Json.filledField "sessionId" reading.payload.record
  else none

/-- The url of the child an event announces. -/
def announcedUrl (reading : EventReading) : Option String :=
  Json.stringField "url"
    ((reading.payload.record.bind fun record => record.field "remote").bind Json.record)

/-- The session of a child that belongs elsewhere, folded into the session of its parent. A
session that is gone already leaves nodes, events and usage to be moved. -/
def adoptSession (s : Store) (oldRootSessionId sessionId : String) : Except String Store :=
  if oldRootSessionId = sessionId then .ok s
  else
    match s.getSession oldRootSessionId with
    | some oldRoot => mergeSessionRows s oldRoot sessionId id
    | none =>
        let s := { s with
          nodes := Table.updateWhere (fun row => row.rootSessionId = oldRootSessionId)
            (fun row => { row with rootSessionId := sessionId }) s.nodes }
        let s := moveSessionEventsForMerge s oldRootSessionId sessionId
        .ok { s with
          usage := Table.updateWhere (fun row => row.sessionId = oldRootSessionId)
            (fun row => { row with sessionId }) s.usage }

/-- The update of a child from the event that announces it. -/
def linkNode (reading : EventReading) (node : SessionNode) (sessionId : String)
    (child : SessionNode) : SessionNode :=
  { child with
    rootSessionId := sessionId
    parentNodeId := some node.id
    parentEveSessionId := some node.eveSessionId
    agentName := (Json.stringField "name" reading.payload.record).or child.agentName
    remoteUrl := (announcedUrl reading).or child.remoteUrl }

/-- The node of a child that has not reported yet. -/
def announcedNode (o : AgentEventObservation) (reading : EventReading) (node : SessionNode)
    (projectId id sessionId eveSessionId : String) : SessionNode :=
  { openedNode o projectId id sessionId eveSessionId .unresolved with
    parentNodeId := some node.id
    parentEveSessionId := some node.eveSessionId
    startedRuntimeInstanceId := none
    lastObservedRuntimeInstanceId := none
    agentName := Json.stringField "name" reading.payload.record
    channelKind := some "subagent"
    remoteUrl := announcedUrl reading }

/-- The projection of an event that announces a child. -/
def linkChild (s : Store) (o : AgentEventObservation) (reading : EventReading)
    (node : SessionNode) (projectId sessionId id : String) : Except String Store :=
  match announcedChild reading with
  | none => .ok s
  | some childEveSessionId =>
      match s.findNode projectId childEveSessionId with
      | some child => do
          let s ← adoptSession s child.rootSessionId sessionId
          pure { s with
            nodes := Table.updateWhere (fun row => row.id = child.id)
              (linkNode reading node sessionId) s.nodes }
      | none => insertNode s (announcedNode o reading node projectId id sessionId childEveSessionId)

/-- The usage row of an observation. -/
def usageRow (o : AgentEventObservation) (usage : ModelStepUsage) (node : SessionNode)
    (sessionId id : String) : ModelUsageEvent where
  id := id
  sessionId := sessionId
  sessionNodeId := some node.id
  eveSessionId := o.eveSessionId
  agentId := node.agentId
  agentName := node.agentName
  turnId := usage.turnId
  stepIndex := usage.stepIndex
  runKey := usage.runKey
  modelId := o.observedModelId
  finishReason := usage.finishReason
  inputTokens := usage.inputTokens
  outputTokens := usage.outputTokens
  cacheReadTokens := usage.cacheReadTokens
  cacheWriteTokens := usage.cacheWriteTokens
  costUsd := usage.costUsd
  usageReported := usage.usageReported

/-- The missing row of a run that the report of the run fills in. -/
def ModelUsageEvent.awaits (row report : ModelUsageEvent) : Bool :=
  row.sessionNodeId = report.sessionNodeId && report.runKey.isSome &&
    row.runKey = report.runKey && !row.usageReported

/-- A missing row, filled in by the report of its run. -/
def ModelUsageEvent.fill (report row : ModelUsageEvent) : ModelUsageEvent :=
  { row with
    usageReported := true
    inputTokens := report.inputTokens
    outputTokens := report.outputTokens
    cacheReadTokens := report.cacheReadTokens
    cacheWriteTokens := report.cacheWriteTokens
    costUsd := report.costUsd
    modelId := report.modelId.or row.modelId
    finishReason := report.finishReason.or row.finishReason }

/-- The counters once a step that was counted as missing is reported. -/
def UsageCounters.reconcile (counters : UsageCounters) (row : ModelUsageEvent) : UsageCounters :=
  { counters + row.contribution with usageMissingSteps := counters.usageMissingSteps - 1 }

/-- The projection of usage: a row is inserted, or a report fills the missing row of its run. -/
def projectUsage (s : Store) (row : ModelUsageEvent) : Store :=
  if s.usage.any fun other =>
      other.id = row.id || row.sameInSession other || row.sameInNode other then
    if row.usageReported && (s.usage.any fun other => other.awaits row) then
      addCounters { s with
        usage := Table.updateWhere (fun other => other.awaits row) row.fill s.usage }
        row.sessionId fun counters => counters.reconcile row
    else s
  else insertUsage s row

/-! ## The call -/

/-- The result of `ingestPostgresAgentEvent`. -/
structure IngestResult where
  session : Session
  node : SessionNode
  event : SessionEvent
  duplicate : Bool

/-- The deployment of an observation, where it and the instance it names are known. -/
def checkManaged (s : Store) (o : AgentEventObservation) :
    Except String RuntimeStore.Deployment := do
  let instanceText := o.runtimeInstanceId.getD ""
  let deployment ← require (s.deployments.find? fun row => row.id = o.deploymentId)
    s!"Telemetry deployment {o.deploymentId} is not managed by Eveland."
  ensure (o.runtimeInstanceId.all fun runtimeInstanceId => s.instances.any fun row =>
      row.id = runtimeInstanceId && row.deploymentId = o.deploymentId)
    s!"Telemetry RuntimeInstance {instanceText} does not belong to Deployment {o.deploymentId}."
  pure deployment

/-- The node of an observation, found or opened. -/
def locateNode (s : Store) (o : AgentEventObservation) (projectId : String) (ids : IngestIds) :
    Except String (Store × Session × SessionNode × Bool) :=
  match s.findNode projectId o.eveSessionId with
  | some node => resolveNode s o node
  | none => openNode s o projectId ids

/-- The event of a node with the identity of an observation. -/
def Store.findDuplicate (s : Store) (nodeId : String) (o : AgentEventObservation) :
    Option SessionEvent :=
  s.events.find? fun row => row.sessionNodeId = some nodeId &&
    (row.telemetryEventId = some o.telemetryEventId ||
      row.eventFingerprint = some o.eventFingerprint)

/-- The event of an observation, as it is stored. -/
def eventInsert (o : AgentEventObservation) (reading : EventReading) (sessionId nodeId id : String)
    (now : ℤ) : SessionEventInsert where
  id := id
  sessionId := sessionId
  sessionNodeId := some nodeId
  telemetryEventId := some o.telemetryEventId
  eventFingerprint := some o.eventFingerprint
  observedDeploymentId := some o.deploymentId
  observedRuntimeInstanceId := o.runtimeInstanceId
  sourceSequence := o.sourceSequence
  type := reading.type
  payload := reading.payload
  eventAt := o.eventAt
  createdAt := now

/-- The status an observation may move its node to: only the newest one moves it. -/
def projectedStatus (reading : EventReading) (status : SessionStatus) (isLatest : Bool) :
    Option SessionStatus :=
  if isLatest then sessionStatusFromEveEvent reading.type status reading.payload else none

/-- The projection of an event onto the usage of its node. -/
def projectReading (s : Store) (o : AgentEventObservation) (reading : EventReading)
    (node : SessionNode) (sessionId id : String) : Store :=
  match usageOfEvent reading.type reading.payload reading.scope with
  | none => s
  | some usage => projectUsage s (usageRow o usage node sessionId id)

/-- What is done with an observation that is not recorded yet. -/
def recordObservation (s : Store) (o : AgentEventObservation) (projectId : String)
    (sessionRow : Session) (node : SessionNode) (isLatest : Bool) (ids : IngestIds) (now : ℤ) :
    Except String (Store × IngestResult) := do
  let reading := readEvent o.event
  let (s, event) ← appendSessionEventRow s (eventInsert o reading sessionRow.id node.id ids.event now)
  let projected := projectedStatus reading node.status isLatest
  let (s, node, sessionRow) := projectStatus s o reading node sessionRow projected now
  let s := projectExecution s reading node sessionRow now
  let s ← linkChild s o reading node projectId sessionRow.id ids.child
  let s := projectReading s o reading node sessionRow.id ids.usage
  let sessionRow ← require (s.getSession sessionRow.id)
    "Agent telemetry projection lost its root session."
  pure (s, { session := sessionRow, node, event, duplicate := false })

/-- `ingestPostgresAgentEvent`. -/
def ingestAgentEvent (s : Store) (o : AgentEventObservation) (ids : IngestIds) (now : ℤ) :
    Except String (Store × IngestResult) := do
  let deployment ← checkManaged s o
  let (s, sessionRow, node, isLatest) ← locateNode s o deployment.projectId ids
  match s.findDuplicate node.id o with
  | some event => pure (s, { session := sessionRow, node, event, duplicate := true })
  | none => recordObservation s o deployment.projectId sessionRow node isLatest ids now

end Eveland.Telemetry
