/-
# The progress of a root

An abstract account of one Eve session that reports for itself: the status of its node, the
runtime that last reported, the status of the session, and what was recorded. An observation
that arrives moves it by a function of the observation and of the account alone. Ingestion moves
the store in the same way, whatever else the store holds and whatever else the event does to it.
-/

import Mathlib.Data.List.Find
import Eveland.Telemetry.RootEvents

namespace Eveland.Telemetry

variable {s t : Store} {projectId eveSessionId : String}

/-! ## The account -/

/-- An observation with what its ingestion draws, and the time of the ingestion. -/
structure Delivery where
  observation : AgentEventObservation
  ids : IngestIds
  now : ℤ

/-- What is kept of an event that a node has recorded. -/
structure Trace where
  telemetryEventId : Option String
  eventFingerprint : Option String
  sourceSequence : Option ℕ
  type : String
  payload : Json
  createdAt : ℤ

def SessionEventInsert.trace (event : SessionEventInsert) : Trace :=
  ⟨event.telemetryEventId, event.eventFingerprint, event.sourceSequence, event.type,
    event.payload, event.createdAt⟩

namespace Delivery

variable (d : Delivery)

def reading : EventReading := readEvent d.observation.event

def trace : Trace :=
  ⟨some d.observation.telemetryEventId, some d.observation.eventFingerprint,
    d.observation.sourceSequence, d.reading.type, d.reading.payload, d.now⟩

/-- The event announces the Eve session that reports it. -/
def announcesItself : Bool := announcedChild d.reading = some d.observation.eveSessionId

end Delivery

/-- The progress of a root. -/
@[ext]
structure Progress where
  status : SessionStatus
  lastObservedDeploymentId : String
  lastObservedRuntimeInstanceId : Option String
  isRoot : Bool
  sessionStatus : SessionStatus
  completedAt : Option ℤ
  recorded : List Trace

namespace Progress

variable (p : Progress) (d : Delivery)

/-- As new as everything that is recorded. -/
def isNewest : Bool :=
  d.observation.sourceSequence.all fun sequence =>
    p.recorded.all fun row => row.sourceSequence.all fun other => other ≤ sequence

/-- An observation of this identity is recorded already. -/
def isRecorded : Bool :=
  p.recorded.any fun row => row.telemetryEventId = some d.observation.telemetryEventId ||
    row.eventFingerprint = some d.observation.eventFingerprint

/-- The runtime that reports is noted where the observation is the newest. -/
def touch : Progress :=
  if p.isNewest d then
    { p with
      lastObservedDeploymentId := d.observation.deploymentId
      lastObservedRuntimeInstanceId :=
        d.observation.runtimeInstanceId.or p.lastObservedRuntimeInstanceId }
  else p

/-- The status the observation moves the node to. -/
def projected : Option SessionStatus := projectedStatus d.reading p.status (p.isNewest d)

/-- The observation is recorded, and its event projected. -/
def record : Progress :=
  let moved := (p.projected d).filter fun _ => p.isRoot
  { p with
    status := (p.projected d).getD p.status
    isRoot := p.isRoot && !d.announcesItself
    sessionStatus := moved.getD p.sessionStatus
    completedAt := moved.elim p.completedAt fun status => completionTime status d.now
    recorded := p.recorded ++ [d.trace] }

/-- An observation arrives. -/
def observe : Progress :=
  if p.isRecorded d then p.touch d else (p.touch d).record d

/-- The end an observation puts to the execution of its session. -/
def ending : Option ExecutionStatus :=
  if p.isRoot && !p.isRecorded d then
    nonRunning (scheduleExecutionStatusFromEveEvent d.reading.type
      ((p.projected d).getD p.status) d.reading.payload)
  else none

/-! ### What touching leaves alone -/

@[simp]
theorem touch_status : (p.touch d).status = p.status := by
  rw [touch]
  split <;> rfl

@[simp]
theorem touch_isRoot : (p.touch d).isRoot = p.isRoot := by
  rw [touch]
  split <;> rfl

@[simp]
theorem touch_sessionStatus : (p.touch d).sessionStatus = p.sessionStatus := by
  rw [touch]
  split <;> rfl

@[simp]
theorem touch_completedAt : (p.touch d).completedAt = p.completedAt := by
  rw [touch]
  split <;> rfl

@[simp]
theorem touch_recorded : (p.touch d).recorded = p.recorded := by
  rw [touch]
  split <;> rfl

@[simp]
theorem touch_isNewest : (p.touch d).isNewest d = p.isNewest d := by
  rw [isNewest, isNewest, touch_recorded]

@[simp]
theorem touch_isRecorded : (p.touch d).isRecorded d = p.isRecorded d := by
  rw [isRecorded, isRecorded, touch_recorded]

@[simp]
theorem touch_projected : (p.touch d).projected d = p.projected d := by
  rw [projected, projected, touch_status, touch_isNewest]

@[simp]
theorem touch_ending : (p.touch d).ending d = p.ending d := by
  rw [ending, ending, touch_isRoot, touch_isRecorded, touch_projected, touch_status]

end Progress

/-! ## The account of a store -/

/-- Where the store keeps a root: its node, the session of the node, and the run and the root
node the session names. -/
@[ext]
structure Place where
  nodeId : String
  sessionId : String
  scheduleRunId : Option String
  rootNodeId : Option String

/-- The progress of a node in its session. -/
def Store.progressOf (s : Store) (node : SessionNode) (row : Session) : Progress where
  status := node.status
  lastObservedDeploymentId := node.lastObservedDeploymentId
  lastObservedRuntimeInstanceId := node.lastObservedRuntimeInstanceId
  isRoot := node.parentNodeId.isNone
  sessionStatus := row.status
  completedAt := row.completedAt
  recorded := (s.recordedBy node.id).map fun event => event.trace

/-- The store shows an Eve session at this place, with this progress. -/
def Shows (s : Store) (projectId eveSessionId : String) (place : Place) (progress : Progress) :
    Prop :=
  ∃ node row, s.findNode projectId eveSessionId = some node ∧
    s.getSession node.rootSessionId = some row ∧
    place = ⟨node.id, row.id, row.scheduleRunId, row.rootNodeId⟩ ∧
    progress = s.progressOf node row

/-- The newest observation of a node is the newest one of its progress. -/
theorem isNewestNodeObservation_eq (node : SessionNode) (row : Session) (d : Delivery) :
    s.isNewestNodeObservation node.id d.observation.sourceSequence =
      (s.progressOf node row).isNewest d := by
  rw [Store.isNewestNodeObservation, Progress.isNewest, Store.progressOf, Store.recordedBy]
  cases d.observation.sourceSequence with
  | none => rfl
  | some sequence =>
      simp only [Option.all_some, List.all_map, List.all_filter]
      congr 1
      funext event
      simp only [Function.comp_apply, SessionEventInsert.trace]
      by_cases hof : event.sessionNodeId = some node.id <;> simp [hof]

/-- A duplicate of a node is recorded in its progress. -/
theorem findDuplicate_isSome_eq (node : SessionNode) (row : Session) (d : Delivery) :
    (s.findDuplicate node.id d.observation).isSome = (s.progressOf node row).isRecorded d := by
  rw [Store.findDuplicate, Progress.isRecorded, Store.progressOf, Store.recordedBy,
    List.isSome_find?, List.any_map, List.any_filter]
  rfl

/-! ## Recording an observation -/

theorem moveStanding_eq (isRoot : Bool) (projected : Option SessionStatus) (now : ℤ)
    (standing : Standing) :
    moveStanding isRoot projected now standing =
      { standing with
        status := (projected.filter fun _ => isRoot).getD standing.status
        completedAt := (projected.filter fun _ => isRoot).elim standing.completedAt fun status =>
          completionTime status now } := by
  cases projected with
  | none => rfl
  | some status => cases isRoot <;> rfl

/-- The progress that a recorded observation leaves. -/
theorem Reports.shows {d : Delivery} {node : SessionNode} {row : Session} {isLatest : Bool}
    (hreports : Reports d.observation projectId node row isLatest d.ids d.now s t)
    (hlatest : isLatest = (s.progressOf node row).isNewest d)
    (hrow : s.getSession node.rootSessionId = some row) :
    Shows t projectId d.observation.eveSessionId
      ⟨node.id, row.id, row.scheduleRunId, row.rootNodeId⟩
      ((s.progressOf node row).record d) := by
  obtain ⟨after, hafter, hstanding⟩ := hreports.moved
  have hroot : node.rootSessionId = row.id := (Store.id_of_getSession hrow).symm
  obtain ⟨row', hrow', hkey, hmoved⟩ := getSession_reshapes hreports.projected (hroot ▸ hrow)
  have hid : row'.id = row.id := congrArg SessionKey.id hkey
  rw [moveStanding_eq] at hmoved
  have hafterId : after.id = node.id := congrArg NodeStanding.id hstanding
  have hafterRoot : after.rootSessionId = node.rootSessionId :=
    congrArg NodeStanding.rootSessionId hstanding
  refine ⟨after, row', hafter, by rw [hafterRoot, hroot]; exact hrow', ?_, ?_⟩
  · have hscheduled : row'.scheduleRunId = row.scheduleRunId :=
      congrArg Standing.scheduleRunId hmoved
    have hrootNode : row'.rootNodeId = row.rootNodeId := congrArg Standing.rootNodeId hmoved
    rw [hafterId, hid, hscheduled, hrootNode]
  · have hprojected : (s.progressOf node row).projected d =
        projectedStatus (readEvent d.observation.event) node.status isLatest := by
      rw [hlatest]
      rfl
    have hstatus : after.status = _ := congrArg NodeStanding.status hstanding
    have hparent : after.parentNodeId = _ := congrArg NodeStanding.parentNodeId hstanding
    have hsessionStatus : row'.status = _ := congrArg Standing.status hmoved
    have hcompleted : row'.completedAt = _ := congrArg Standing.completedAt hmoved
    ext1
    case status =>
      show _ = after.status
      rw [hstatus, Progress.record, hprojected]
      rfl
    case lastObservedDeploymentId =>
      exact (congrArg NodeStanding.lastObservedDeploymentId hstanding).symm
    case lastObservedRuntimeInstanceId =>
      exact (congrArg NodeStanding.lastObservedRuntimeInstanceId hstanding).symm
    case isRoot =>
      show (node.parentNodeId.isNone && !d.announcesItself) = after.parentNodeId.isNone
      rw [hparent, Delivery.announcesItself, Delivery.reading]
      split <;> simp [*]
    case sessionStatus =>
      show _ = row'.status
      rw [hsessionStatus, Progress.record, hprojected]
      rfl
    case completedAt =>
      show _ = row'.completedAt
      rw [hcompleted, Progress.record, hprojected]
      rfl
    case recorded =>
      show _ = (t.recordedBy after.id).map _
      rw [hafterId, hreports.recorded, List.map_append]
      rfl

/-! ## Locating the node -/

theorem discoverTrigger_keeps (o : AgentEventObservation) (row : Session) :
    (discoverTrigger o row).key = row.key ∧ (discoverTrigger o row).standing = row.standing := by
  rw [discoverTrigger]
  split <;> exact ⟨rfl, rfl⟩

/-- A node that is there is touched. -/
theorem resolveNode_found {o : AgentEventObservation} {node node' : SessionNode} {row : Session}
    {isLatest : Bool} (hnode : s.findNode projectId eveSessionId = some node)
    (hresolve : resolveNode s o node = .ok (t, row, node', isLatest)) :
    ∃ old, s.getSession node.rootSessionId = some old ∧ row.key = old.key ∧
      row.standing = old.standing ∧
      isLatest = s.isNewestNodeObservation node.id o.sourceSequence ∧
      node' = touchNode o isLatest node ∧
      t.findNode projectId eveSessionId = some node' ∧
      t.getSession node'.rootSessionId = some row ∧ t.events = s.events ∧
      Reshapes node.rootSessionId id s t := by
  obtain ⟨old, hold, hresolve⟩ := Outcome.bind_eq_ok.mp hresolve
  rw [Outcome.require_eq_ok] at hold
  have hfound : ∀ isLatest, (Table.updateWhere (fun row : SessionNode => row.id = node.id)
      (touchNode o isLatest) s.nodes).find?
        (fun row => row.projectId = projectId && row.eveSessionId = eveSessionId) =
      some (touchNode o isLatest node) := by
    intro isLatest
    have hupdated : Store.findNode { s with
        nodes := Table.updateWhere (fun row => row.id = node.id) (touchNode o isLatest) s.nodes }
          projectId eveSessionId = _ :=
      findNode_updateWhere rfl fun _ => ⟨rfl, rfl⟩
    rw [hnode, Option.map_some, if_pos (by simp)] at hupdated
    exact hupdated
  dsimp only at hresolve
  split at hresolve
  · cases hresolve
    obtain ⟨hkey, hstanding⟩ := discoverTrigger_keeps o old
    refine ⟨old, hold, hkey, hstanding, rfl, rfl, hfound _, ?_, rfl, ?_⟩
    · show (Table.updateWhere _ _ s.sessions).find? _ = _
      have hid := Store.id_of_getSession hold
      rw [Table.find?_updateWhere_of fun row => by rw [discoverTrigger_id]]
      show (s.getSession node.rootSessionId).map _ = _
      rw [hold, Option.map_some, if_pos (by simp)]
    · exact Reshapes.of_updateWhere rfl (fun row => (discoverTrigger_keeps o row).1)
        fun row => (discoverTrigger_keeps o row).2
  · cases hresolve
    exact ⟨row, hold, rfl, rfl, rfl, rfl, hfound _, hold, rfl, Reshapes.of_eq rfl⟩

/-- The progress of a node that an observation opens as a root. -/
def Store.openedProgress (s : Store) (projectId : String) (d : Delivery) : Progress where
  status := .running
  lastObservedDeploymentId := d.observation.deploymentId
  lastObservedRuntimeInstanceId := d.observation.runtimeInstanceId
  isRoot := true
  sessionStatus :=
    (s.findSession projectId d.observation.eveSessionId).elim .running fun row => row.status
  completedAt :=
    (s.findSession projectId d.observation.eveSessionId).bind fun row => row.completedAt
  recorded := []

/-- A session that is found or opened is there, under its Eve session id, as it was. -/
theorem findOrOpenSession_found {o : AgentEventObservation} {id : String}
    {trigger : SessionTrigger} {row : Session} (hkeyed : Keyed s)
    (hfind : findOrOpenSession s o projectId id eveSessionId trigger = .ok (t, row)) :
    t.findSession projectId eveSessionId = some row ∧ t.getSession row.id = some row ∧
      t.events = s.events ∧ t.nodes = s.nodes ∧
      ((s.findSession projectId eveSessionId = some row ∧ t = s) ∨
        (s.findSession projectId eveSessionId = none ∧ row.id = id ∧ row.status = .running ∧
          row.completedAt = none ∧ row.scheduleRunId = none)) := by
  rw [findOrOpenSession] at hfind
  split at hfind
  · next found hfound =>
      cases hfind
      have hmem := (Store.mem_of_findSession hfound).1
      exact ⟨hfound, hkeyed.sessionIds.find?_eq_some hmem, rfl, rfl, Or.inl ⟨hfound, rfl⟩⟩
  · next hnone =>
      rw [openSession] at hfind
      obtain ⟨opened, hinsert, heq⟩ := Outcome.map_eq_ok.mp hfind
      cases heq
      obtain ⟨hfresh, _, rfl⟩ := insertSession_eq_ok.mp hinsert
      refine ⟨?_, ?_, rfl, rfl, Or.inr ⟨hnone, rfl, rfl, rfl, rfl⟩⟩
      · rw [Store.findSession, List.find?_append]
        rw [Store.findSession] at hnone
        rw [hnone, Option.none_or, List.find?_singleton, if_pos]
        simp [openedSession, startedSession]
      · rw [Store.getSession, List.find?_append, List.find?_eq_none.mpr, Option.none_or,
          List.find?_singleton, if_pos (by simp)]
        intro other hother
        simpa using hfresh other hother

/-- A session as it is given its root. -/
def Session.rooted (nodeId eveSessionId : String) (row : Session) : Session :=
  { row with rootNodeId := some nodeId, eveSessionId := some eveSessionId }

theorem setRoot_getSession {sessionId nodeId : String} {row : Session}
    (hrow : s.getSession sessionId = some row) :
    (setRoot s sessionId nodeId eveSessionId).getSession sessionId =
      some (row.rooted nodeId eveSessionId) := by
  have hid := Store.id_of_getSession hrow
  have hfound := Table.find?_updateWhere_of (p := fun other : Session => other.id = sessionId)
    (q := fun other => other.id = sessionId) (f := Session.rooted nodeId eveSessionId)
    (fun _ => rfl) s.sessions
  rw [show s.sessions.find? (fun r => r.id = sessionId) = some row from hrow, Option.map_some,
    if_pos (by simpa using hid)] at hfound
  exact hfound

/-- A session that is given its root keeps its Eve session id. -/
theorem setRoot_findSession {nodeId : String} {row : Session} (hkeyed : Keyed s)
    (hrow : s.findSession projectId eveSessionId = some row) :
    (setRoot s row.id nodeId eveSessionId).findSession projectId eveSessionId =
      some (row.rooted nodeId eveSessionId) := by
  obtain ⟨hmem, hproject, heve⟩ := Store.mem_of_findSession hrow
  show (Table.updateWhere _ _ s.sessions).find? _ = _
  rw [Table.updateWhere, List.find?_map]
  have hsame : ∀ other ∈ s.sessions,
      ((fun found : Session => decide (found.projectId = projectId) &&
        decide (found.eveSessionId = some eveSessionId)) ∘
          fun found => if decide (found.id = row.id) = true then
            found.rooted nodeId eveSessionId else found) other =
        (decide (other.projectId = projectId) &&
          decide (other.eveSessionId = some eveSessionId)) := by
    intro other hother
    by_cases hid : other.id = row.id
    · rw [hkeyed.sessionIds.eq hother hmem hid]
      simp [Session.rooted, hproject, heve]
    · simp [hid]
  refine (congrArg _ (List.find?_congr hsame)).trans ?_
  show (s.findSession projectId eveSessionId).map _ = _
  rw [hrow, Option.map_some]
  simp [Session.rooted]

/-- A root that is opened is there, with the progress it is opened with, in the session of its
Eve session id. -/
theorem openNode_root {d : Delivery} {node : SessionNode} {row : Session} {isLatest : Bool}
    (hkeyed : Keyed s) (hparent : d.observation.parentEveSessionId = none)
    (hopen : openNode s d.observation projectId d.ids = .ok (t, row, node, isLatest)) :
    isLatest = true ∧ node.resolutionStatus = .observed ∧
      t.findNode projectId d.observation.eveSessionId = some node ∧
      t.getSession node.rootSessionId = some row ∧
      t.findSession projectId d.observation.eveSessionId = some row ∧
      row.rootNodeId = some node.id ∧ t.events = s.events ∧
      t.progressOf node row = s.openedProgress projectId d ∧
      (∀ old, s.findSession projectId d.observation.eveSessionId = some old →
        row.id = old.id ∧ row.scheduleRunId = old.scheduleRunId) ∧
      (s.findSession projectId d.observation.eveSessionId = none → row.scheduleRunId = none) := by
  obtain ⟨⟨located, parent⟩, hresolved, hopen⟩ := Outcome.bind_eq_ok.mp hopen
  rw [resolveParent, hparent] at hresolved
  cases hresolved
  obtain ⟨⟨resolved, session⟩, hfind, hopen⟩ := Outcome.bind_eq_ok.mp hopen
  obtain ⟨inserted, hinsert, hopen⟩ := Outcome.bind_eq_ok.mp hopen
  cases hopen
  obtain ⟨hfound, hget, hevents, hnodes, hcases⟩ := findOrOpenSession_found hkeyed hfind
  have hkeyed' := (findOrOpenSession_writes hfind).1.keyed hkeyed
  obtain ⟨hfresh, hnone, rfl⟩ := insertNode_eq_ok.mp hinsert
  have hkeyedInserted := (Write.openNode _ hfresh (findOrOpenSession_writes hfind).2).keyed hkeyed'
  have hnew : ∀ (p : SessionNode → Bool) (new : SessionNode), resolved.nodes.find? p = none →
      p new = true → (resolved.nodes ++ [new]).find? p = some new := by
    intro p new hmissing hp
    rw [List.find?_append, hmissing, Option.none_or, List.find?_singleton, if_pos hp]
  refine ⟨rfl, rfl, hnew _ _ hnone (by simp [openedNode]), setRoot_getSession hget,
    setRoot_findSession hkeyedInserted hfound, rfl, hevents, ?_, ?_, ?_⟩
  · have hunrecorded : resolved.recordedBy d.ids.node = [] := by
      rw [Store.recordedBy, List.filter_eq_nil_iff]
      intro event hevent hof
      obtain ⟨other, hother, hid, _⟩ :=
        hkeyed'.eventsOwned event hevent d.ids.node (by simpa using hof)
      exact hfresh other hother hid
    ext1
    case recorded =>
      exact congrArg (List.map fun event : SessionEvent => event.trace) hunrecorded
    case sessionStatus =>
      rcases hcases with ⟨hsame, _⟩ | ⟨hmissing, _, hrunning, _, _⟩
      · rw [Store.openedProgress, hsame]
        rfl
      · rw [Store.openedProgress, hmissing]
        exact hrunning
    case completedAt =>
      rcases hcases with ⟨hsame, _⟩ | ⟨hmissing, _, _, hopened, _⟩
      · rw [Store.openedProgress, hsame]
        rfl
      · rw [Store.openedProgress, hmissing]
        exact hopened
    all_goals rfl
  · intro old hold
    rcases hcases with ⟨hsame, _⟩ | ⟨hmissing, _⟩
    · rw [hold] at hsame
      cases hsame
      exact ⟨rfl, rfl⟩
    · rw [hold] at hmissing
      cases hmissing
  · intro hmissing
    rcases hcases with ⟨hsame, _⟩ | ⟨_, _, _, _, hunlinked⟩
    · rw [hmissing] at hsame
      cases hsame
    · exact hunlinked

/-! ## Executions and runs -/

/-- The executions of a run: the session of each, and how it stands. -/
def Store.statusesOf (s : Store) (scheduleRunId : String) : List (String × ExecutionStatus) :=
  (s.executionsOf scheduleRunId).map fun row => (row.sessionId, row.status)

/-- An execution of a session, once an event has ended the session's running ones or has not. -/
def conclude (sessionId : String) (ending : Option ExecutionStatus)
    (execution : String × ExecutionStatus) : String × ExecutionStatus :=
  if execution.1 = sessionId ∧ execution.2 = .running then (execution.1, ending.getD .running)
  else execution

/-- A run, once an event has ended an execution of it or has not: it is settled where it was
running and all its executions are over. -/
def settled (ending : Option ExecutionStatus) (executions : List (String × ExecutionStatus))
    (status : ScheduleRunStatus) : ScheduleRunStatus :=
  if ending.isSome ∧ status = .running ∧ executions ≠ [] ∧
      ∀ execution ∈ executions, execution.2 ≠ .running then
    if ∃ execution ∈ executions, execution.2 = .failed then .failed else .succeeded
  else status

@[simp]
theorem conclude_none (sessionId : String) : conclude sessionId none = id := by
  funext execution
  rw [conclude]
  split
  · next hours => rw [Option.getD_none, ← hours.2]; rfl
  · rfl

@[simp]
theorem conclude_fst (sessionId : String) (ending : Option ExecutionStatus)
    (execution : String × ExecutionStatus) :
    (conclude sessionId ending execution).1 = execution.1 := by
  rw [conclude]
  split <;> rfl

@[simp]
theorem settled_none (executions : List (String × ExecutionStatus)) (status : ScheduleRunStatus) :
    settled none executions status = status := by
  simp [settled]

/-- What an event does to the executions and the runs: it ends the running executions of one
session, as it does for each run; runs are settled; and executions of other sessions are lost. -/
structure Concludes (sessionId : String) (ending : String → Option ExecutionStatus)
    (lost : String → Bool) (s t : Store) : Prop where
  spared : lost sessionId = false
  statuses : ∀ scheduleRunId, t.statusesOf scheduleRunId =
    ((s.statusesOf scheduleRunId).map (conclude sessionId (ending scheduleRunId))).filter
      fun execution => !lost execution.1
  runs : ∀ scheduleRunId, (t.getRun scheduleRunId).map (fun run => run.status) =
    (s.getRun scheduleRunId).map fun run => settled (ending scheduleRunId)
      ((s.statusesOf scheduleRunId).map (conclude sessionId (ending scheduleRunId))) run.status
  quiet : (∀ scheduleRunId, ending scheduleRunId = none) → t.runs = s.runs

namespace Concludes

variable {sessionId : String} {ending : String → Option ExecutionStatus} {lost : String → Bool}

/-- The runs and the executions are the same. -/
theorem of_eq (hruns : t.runs = s.runs) (hexecutions : t.executions = s.executions) :
    Concludes sessionId (fun _ => none) (fun _ => false) s t where
  spared := rfl
  statuses scheduleRunId := by
    simp [Store.statusesOf, Store.executionsOf, hexecutions]
  runs scheduleRunId := by
    simp [Store.getRun_congr hruns]
  quiet _ := hruns

theorem congr_left {u : Store} (hconcludes : Concludes sessionId ending lost u t)
    (hruns : u.runs = s.runs) (hexecutions : u.executions = s.executions) :
    Concludes sessionId ending lost s t where
  spared := hconcludes.spared
  statuses scheduleRunId := by
    rw [hconcludes.statuses, Store.statusesOf, Store.executionsOf, hexecutions]
    rfl
  runs scheduleRunId := by
    rw [hconcludes.runs, Store.getRun_congr hruns, Store.statusesOf, Store.executionsOf,
      hexecutions]
    rfl
  quiet hnone := (hconcludes.quiet hnone).trans hruns

/-- Sessions that are lost after the event take their executions with them. -/
theorem drops {u : Store} (hconcludes : Concludes sessionId ending (fun _ => false) s t)
    (hdrops : Drops lost t u) (hspared : lost sessionId = false) :
    Concludes sessionId ending lost s u where
  spared := hspared
  statuses scheduleRunId := by
    have hbefore := hconcludes.statuses scheduleRunId
    rw [List.filter_eq_self.mpr (by simp)] at hbefore
    rw [← hbefore, Store.statusesOf, Store.executionsOf, hdrops.executions, List.filter_filter,
      Store.statusesOf, Store.executionsOf, List.filter_map, List.filter_filter]
    congr 2
    funext row
    rw [Function.comp_apply, Bool.and_comm]
  runs scheduleRunId := by
    rw [Store.getRun_congr hdrops.runs]
    exact hconcludes.runs scheduleRunId
  quiet hnone := hdrops.runs.trans (hconcludes.quiet hnone)

end Concludes

/-- The end an event puts to the executions of a session, for each run: none for a run that the
session is not linked to. -/
def endingFor (linked : Option String) (ending : Option ExecutionStatus) (scheduleRunId : String) :
    Option ExecutionStatus :=
  if linked = some scheduleRunId then ending else none

/-- The executions of a run after an update of executions that keeps what they are of. -/
theorem statusesOf_updateWhere {p : ScheduleRunSession → Bool}
    {f : ScheduleRunSession → ScheduleRunSession} (scheduleRunId : String)
    (hexecutions : t.executions = Table.updateWhere p f s.executions)
    (hkeys : ∀ row, (f row).scheduleRunId = row.scheduleRunId ∧ (f row).sessionId = row.sessionId) :
    t.statusesOf scheduleRunId = (s.executionsOf scheduleRunId).map fun row =>
      (row.sessionId, if p row then (f row).status else row.status) := by
  rw [Store.statusesOf, Store.executionsOf, hexecutions,
    Table.filter_updateWhere fun row => by rw [(hkeys row).1], Table.updateWhere, List.map_map]
  apply List.map_congr_left
  intro row _
  rw [Function.comp_apply]
  split
  · rw [(hkeys row).2]
  · rfl

/-- Settling a run reads its executions as they stand. -/
theorem settleRun_runs (s : Store) (scheduleRunId other : String) (now : ℤ)
    (ending : ExecutionStatus) :
    ((settleRun s scheduleRunId now).getRun other).map (fun run => run.status) =
      (s.getRun other).map fun run =>
        settled (endingFor (some scheduleRunId) (some ending) other) (s.statusesOf other)
          run.status := by
  have hempty : (s.statusesOf scheduleRunId = []) ↔ s.executionsOf scheduleRunId = [] := by
    rw [Store.statusesOf, List.map_eq_nil_iff]
  rw [settleRun]
  dsimp only
  split
  · next hunder =>
      congr 1
      funext run
      rw [settled, if_neg]
      rintro ⟨hended, _, hsome, hover⟩
      have hsame : scheduleRunId = other := by
        by_contra hne
        rw [endingFor, if_neg fun heq => hne (Option.some.inj heq)] at hended
        cases hended
      rw [← hsame] at hsome hover
      rcases Bool.or_eq_true_iff.mp hunder with hnone | hany
      · exact hsome (hempty.mpr (List.isEmpty_iff.mp hnone))
      · obtain ⟨row, hrow, hrunning⟩ := List.any_eq_true.mp hany
        exact hover _ (List.mem_map_of_mem hrow) (by simpa using hrunning)
  · next hover =>
      rw [Bool.or_eq_true, not_or] at hover
      obtain ⟨hsome, hnone⟩ := hover
      show ((Table.updateWhere _ _ s.runs).find? fun run => run.id = other).map _ = _
      rw [Table.find?_updateWhere_of fun _ => by rfl, Option.map_map]
      show (s.getRun other).map _ = _
      cases hrun : s.getRun other with
      | none => rfl
      | some run =>
          have hid := Store.id_of_getRun hrun
          simp only [Option.map_some, Function.comp_apply, Option.some.injEq]
          by_cases hsame : run.id = scheduleRunId
          · have hother : scheduleRunId = other := hsame.symm.trans hid
            have hcondition : endingFor (some scheduleRunId) (some ending) other = some ending := by
              rw [endingFor, if_pos (congrArg some hother)]
            have hfailed : (((s.executionsOf scheduleRunId).find? fun row =>
                decide (row.status = .failed)).isSome = true) ↔
                ∃ execution ∈ s.statusesOf other, execution.2 = .failed := by
              rw [← hother]
              simp [Store.statusesOf]
            have hall : ∀ execution ∈ s.statusesOf other, execution.2 ≠ .running := by
              rw [← hother]
              simpa [Store.statusesOf] using hnone
            have hne : s.statusesOf other ≠ [] := by
              rw [← hother, ne_eq, hempty]
              simpa using hsome
            rw [settled, hcondition]
            by_cases hrunning : run.status = .running
            · have hselected : (decide (run.id = scheduleRunId) &&
                  decide (run.status = .running)) = true := by
                simp [hsame, hrunning]
              rw [if_pos hselected]
              exact (if_congr hfailed rfl rfl).trans (if_pos ⟨rfl, hrunning, hne, hall⟩).symm
            · rw [if_neg (by simp [hrunning]), if_neg fun h => hrunning h.2.1]
          · have hother : some scheduleRunId ≠ some other := by
              intro heq
              exact hsame (hid.trans (Option.some.inj heq).symm)
            rw [if_neg (by simp [hsame]), endingFor, if_neg hother, settled_none]

/-- The projection of an event onto the executions. -/
theorem projectExecution_concludes (s : Store) (reading : EventReading) (node : SessionNode)
    (sessionRow : Session) (now : ℤ) :
    Concludes sessionRow.id
      (endingFor sessionRow.scheduleRunId
        (if node.parentNodeId.isNone then
          nonRunning (scheduleExecutionStatusFromEveEvent reading.type node.status reading.payload)
        else none))
      (fun _ => false) s (projectExecution s reading node sessionRow now) := by
  rw [projectExecution]
  cases hlinked : sessionRow.scheduleRunId with
  | none =>
      have hnone : ∀ ending, endingFor none ending = fun _ => none := by
        intro ending
        funext scheduleRunId
        simp [endingFor]
      rw [hnone]
      exact Concludes.of_eq rfl rfl
  | some linked =>
      dsimp only
      generalize (if node.parentNodeId.isNone then
        nonRunning (scheduleExecutionStatusFromEveEvent reading.type node.status reading.payload)
        else none) = ending
      cases ending with
      | none =>
          dsimp only
          have hnone : endingFor (some linked) none = fun _ => none := by
            funext scheduleRunId
            simp [endingFor]
          rw [hnone]
          refine ⟨rfl, ?_, fun scheduleRunId => by simp [Store.getRun], fun _ => rfl⟩
          intro scheduleRunId
          rw [statusesOf_updateWhere (s := s) scheduleRunId rfl fun _ => by exact ⟨rfl, rfl⟩]
          simp [Store.statusesOf]
      | some status =>
          dsimp only
          generalize hupdated : ({ s with
            executions := Table.updateWhere (fun row => decide (row.scheduleRunId = linked) &&
              decide (row.sessionId = sessionRow.id) && decide (row.status = .running))
              (endExecution reading status now) s.executions } : Store) = updated
          have hstatuses : ∀ scheduleRunId, updated.statusesOf scheduleRunId =
              (s.statusesOf scheduleRunId).map
                (conclude sessionRow.id (endingFor (some linked) (some status) scheduleRunId)) := by
            intro scheduleRunId
            rw [← hupdated, statusesOf_updateWhere (s := s) scheduleRunId rfl
              fun _ => by exact ⟨rfl, rfl⟩, Store.statusesOf, List.map_map]
            apply List.map_congr_left
            intro row hrow
            have hof : row.scheduleRunId = scheduleRunId := by
              simpa using (List.mem_filter.mp hrow).2
            rw [Function.comp_apply, conclude, endingFor]
            by_cases hlink : linked = scheduleRunId
            · by_cases hsession : row.sessionId = sessionRow.id <;>
                by_cases hrunning : row.status = .running <;>
                simp [hof, hsession, hrunning, hlink, endExecution]
            · simp only [hof, Ne.symm hlink, Option.some.injEq, hlink]
              by_cases hrunning : row.status = .running <;> simp [hrunning]
          refine ⟨rfl, ?_, ?_, fun hnone => ?_⟩
          · intro scheduleRunId
            rw [List.filter_eq_self.mpr (by simp), ← hstatuses, Store.statusesOf,
              Store.executionsOf]
            rw [settleRun]
            dsimp only
            split <;> rfl
          · intro scheduleRunId
            rw [settleRun_runs _ _ _ _ status, ← hstatuses, ← hupdated]
            rfl
          · have hended := hnone linked
            rw [endingFor, if_pos rfl] at hended
            cases hended

/-! ## Ingesting an observation -/

/-- The events of a node are indexed in the order in which they were recorded. -/
def Store.Indexed (s : Store) (nodeId : String) : Prop :=
  (s.recordedBy nodeId).Pairwise fun first second => first.index < second.index

/-- The next index of a session is above those of its events. -/
theorem Store.index_lt_nextIndex {sessionId : String} {event : SessionEvent}
    (hevent : event ∈ s.eventsOf sessionId) : event.index < s.nextIndex sessionId := by
  rw [Store.nextIndex]
  generalize s.eventsOf sessionId = events at hevent ⊢
  induction events with
  | nil => cases hevent
  | cons first rest ih =>
      rw [List.foldr_cons]
      rcases List.mem_cons.mp hevent with rfl | hrest
      · exact lt_of_lt_of_le (Nat.lt_succ_self _) (le_max_left _ _)
      · exact lt_of_lt_of_le (ih hrest) (le_max_right _ _)

theorem Reports.indexed {d : Delivery} {node : SessionNode} {row : Session} {isLatest : Bool}
    (hreports : Reports d.observation projectId node row isLatest d.ids d.now s t)
    (hkeyed : Keyed s) (hmem : node ∈ s.nodes) (hroot : node.rootSessionId = row.id)
    (hindexed : s.Indexed node.id) : t.Indexed node.id := by
  rw [Store.Indexed, hreports.recorded, List.pairwise_append]
  refine ⟨hindexed, List.pairwise_singleton _ _, ?_⟩
  intro event hevent last hlast
  rw [List.mem_singleton.mp hlast]
  apply Store.index_lt_nextIndex
  refine List.mem_filter.mpr ⟨(List.mem_filter.mp hevent).1, ?_⟩
  rw [hkeyed.recordedBy_sessionId hmem hevent, hroot]
  exact decide_eq_true rfl

/-- What becomes of an observation once its node is located. -/
def finishIngestion (s : Store) (projectId : String) (d : Delivery) (row : Session)
    (node : SessionNode) (isLatest : Bool) : Except String (Store × IngestResult) :=
  match s.findDuplicate node.id d.observation with
  | some event => pure (s, { session := row, node, event, duplicate := true })
  | none => recordObservation s d.observation projectId row node isLatest d.ids d.now

/-- An observation of a node that is located: its progress is as it was, or records it. -/
theorem finishIngestion_observes {d : Delivery} {node : SessionNode} {row : Session}
    {isLatest : Bool} {result : IngestResult} (hkeyed : Keyed s)
    (hnode : s.findNode projectId d.observation.eveSessionId = some node)
    (hobserved : node.resolutionStatus = .observed)
    (hrow : s.getSession node.rootSessionId = some row)
    (hlatest : isLatest = (s.progressOf node row).isNewest d)
    (hfinish : finishIngestion s projectId d row node isLatest = .ok (t, result)) :
    Shows t projectId d.observation.eveSessionId
        ⟨node.id, row.id, row.scheduleRunId, row.rootNodeId⟩
        (if (s.progressOf node row).isRecorded d then s.progressOf node row
          else (s.progressOf node row).record d) ∧
      (∃ change, Reshapes row.id change s t) ∧
      (∃ lost, Concludes row.id
        (endingFor row.scheduleRunId ((s.progressOf node row).ending d)) lost s t) ∧
      (s.Indexed node.id → t.Indexed node.id) := by
  have hrecorded := findDuplicate_isSome_eq (s := s) node row d
  rw [finishIngestion] at hfinish
  split at hfinish
  · next event hduplicate =>
      cases hfinish
      rw [hduplicate, Option.isSome_some] at hrecorded
      have hnone : endingFor row.scheduleRunId ((s.progressOf node row).ending d) =
          fun _ => none := by
        funext scheduleRunId
        simp [endingFor, Progress.ending, ← hrecorded]
      rw [← hrecorded, if_pos rfl, hnone]
      exact ⟨⟨node, row, hnode, hrow, rfl, rfl⟩, ⟨id, Reshapes.refl s⟩,
        ⟨_, Concludes.of_eq rfl rfl⟩, fun hindexed => hindexed⟩
  · next hfresh =>
      rw [hfresh, Option.isSome_none] at hrecorded
      have hroot : node.rootSessionId = row.id := (Store.id_of_getSession hrow).symm
      have hreports := recordObservation_reports hkeyed hnode hobserved hroot hfinish
      rw [← hrecorded, if_neg (by simp)]
      refine ⟨hreports.shows hlatest hrow, ⟨_, hreports.projected⟩, ?_,
        hreports.indexed hkeyed (Store.mem_of_findNode hnode).1 hroot⟩
      obtain ⟨before, node', row', lost, hruns, hexecutions, hstatus, hparent, hid, hlinked, hspared,
        hdrops⟩ := hreports.executed
      have hconcludes := (projectExecution_concludes before (readEvent d.observation.event) node'
        row' d.now).congr_left hruns hexecutions
      rw [hid, hlinked, hparent, hstatus, hlatest] at hconcludes
      have hending : (s.progressOf node row).ending d =
          if node.parentNodeId.isNone then
            nonRunning (scheduleExecutionStatusFromEveEvent (readEvent d.observation.event).type
              ((projectedStatus (readEvent d.observation.event) node.status
                ((s.progressOf node row).isNewest d)).getD node.status)
              (readEvent d.observation.event).payload)
          else none := by
        rw [Progress.ending, ← hrecorded, Bool.not_false, Bool.and_true]
        rfl
      rw [hending]
      exact ⟨lost, hconcludes.drops hdrops hspared⟩

/-- The project of a deployment. -/
def Store.projectOf (s : Store) (deploymentId : String) : Option String :=
  (s.deployments.find? fun row => row.id = deploymentId).map fun row => row.projectId

/-- An ingestion locates the node and finishes. -/
theorem ingestAgentEvent_located {d : Delivery} {result : IngestResult}
    (hproject : s.projectOf d.observation.deploymentId = some projectId)
    (hingest : ingestAgentEvent s d.observation d.ids d.now = .ok (t, result)) :
    ∃ located row node isLatest,
      locateNode s d.observation projectId d.ids = .ok (located, row, node, isLatest) ∧
      finishIngestion located projectId d row node isLatest = .ok (t, result) := by
  obtain ⟨deployment, hmanaged, hingest⟩ := Outcome.bind_eq_ok.mp hingest
  obtain ⟨⟨located, row, node, isLatest⟩, hlocate, hfinish⟩ := Outcome.bind_eq_ok.mp hingest
  obtain ⟨found, hfound, hmanaged⟩ := Outcome.bind_eq_ok.mp hmanaged
  obtain ⟨_, _, heq⟩ := Outcome.bind_eq_ok.mp hmanaged
  cases heq
  rw [Outcome.require_eq_ok] at hfound
  rw [Store.projectOf, hfound] at hproject
  cases hproject
  exact ⟨located, row, node, isLatest, hlocate, hfinish⟩

/-- **Observing.** An observation of an Eve session the store shows moves its progress as the
account says, at the same place. -/
theorem ingestAgentEvent_observes {d : Delivery} {place : Place} {progress : Progress}
    {result : IngestResult} (hkeyed : Keyed s)
    (hproject : s.projectOf d.observation.deploymentId = some projectId)
    (hshows : Shows s projectId d.observation.eveSessionId place progress)
    (hingest : ingestAgentEvent s d.observation d.ids d.now = .ok (t, result)) :
    Shows t projectId d.observation.eveSessionId place (progress.observe d) ∧
      (∃ change, Reshapes place.sessionId change s t) ∧
      (∃ lost, Concludes place.sessionId
        (endingFor place.scheduleRunId (progress.ending d)) lost s t) ∧
      (s.Indexed place.nodeId → t.Indexed place.nodeId) := by
  obtain ⟨node, old, hnode, hold, rfl, rfl⟩ := hshows
  obtain ⟨located, row, node', isLatest, hlocate, hfinish⟩ :=
    ingestAgentEvent_located hproject hingest
  have hlocateWrites := locateNode_writes hlocate
  have hquiet := locateNode_quiet hlocate
  rw [locateNode, hnode] at hlocate
  obtain ⟨old', hold', hkey, hstanding, hlatest, rfl, hfound, hrow, hevents, hreshapes⟩ :=
    resolveNode_found hnode hlocate
  rw [hold] at hold'
  cases hold'
  have hid : row.id = old.id := congrArg SessionKey.id hkey
  have hrootId : node.rootSessionId = old.id := (Store.id_of_getSession hold).symm
  -- The node that is located shows the progress, touched.
  have htouched : located.progressOf (touchNode d.observation isLatest node) row =
      (s.progressOf node old).touch d := by
    rw [isNewestNodeObservation_eq node old d] at hlatest
    have hstatus : row.status = old.status := congrArg Standing.status hstanding
    have hcompleted : row.completedAt = old.completedAt := congrArg Standing.completedAt hstanding
    have hrecorded : located.recordedBy node.id = s.recordedBy node.id := by
      rw [Store.recordedBy, hevents]
      rfl
    rw [Store.progressOf, Progress.touch, ← hlatest, hstatus, hcompleted]
    cases isLatest <;> simp [touchNode, Store.progressOf, hrecorded]
  have hplace : (⟨(touchNode d.observation isLatest node).id, row.id, row.scheduleRunId,
      row.rootNodeId⟩ : Place) = ⟨node.id, old.id, old.scheduleRunId, old.rootNodeId⟩ := by
    rw [hid, show row.scheduleRunId = old.scheduleRunId from
      congrArg Standing.scheduleRunId hstanding,
      show row.rootNodeId = old.rootNodeId from congrArg Standing.rootNodeId hstanding]
    rfl
  have hnewest : isLatest =
      (located.progressOf (touchNode d.observation isLatest node) row).isNewest d := by
    rw [htouched, Progress.touch_isNewest, ← isNewestNodeObservation_eq]
    exact hlatest
  obtain ⟨hafter, ⟨change, hmoved⟩, ⟨lost, hconcludes⟩, hindexed⟩ := finishIngestion_observes
    (hlocateWrites.1.keyed hkeyed) hfound rfl hrow hnewest hfinish
  rw [hplace, htouched, Progress.touch_isRecorded] at hafter
  rw [htouched, Progress.touch_ending, hid, show row.scheduleRunId = old.scheduleRunId from
    congrArg Standing.scheduleRunId hstanding] at hconcludes
  rw [hid] at hmoved
  refine ⟨hafter, ⟨change ∘ id, (hrootId ▸ hreshapes).trans hmoved⟩, ⟨lost, ?_⟩, ?_⟩
  · exact hconcludes.congr_left hquiet.runs hquiet.executions_eq
  · intro hbefore
    apply hindexed
    rw [Store.Indexed, Store.recordedBy, hevents]
    exact hbefore

/-- **Opening.** An observation without a parent, of an Eve session that has no node yet, opens
one in the session of its id. -/
theorem ingestAgentEvent_opens {d : Delivery} {result : IngestResult} (hkeyed : Keyed s)
    (hproject : s.projectOf d.observation.deploymentId = some projectId)
    (hnone : s.findNode projectId d.observation.eveSessionId = none)
    (hparent : d.observation.parentEveSessionId = none)
    (hingest : ingestAgentEvent s d.observation d.ids d.now = .ok (t, result)) :
    ∃ place, Shows t projectId d.observation.eveSessionId place
        ((s.openedProgress projectId d).observe d) ∧
      place.rootNodeId = some place.nodeId ∧
      (∀ old, s.findSession projectId d.observation.eveSessionId = some old →
        place.sessionId = old.id ∧ place.scheduleRunId = old.scheduleRunId) ∧
      (s.findSession projectId d.observation.eveSessionId = none → place.scheduleRunId = none) ∧
      (∃ row, t.findSession projectId d.observation.eveSessionId = some row ∧
        row.id = place.sessionId) ∧
      (∃ lost, Concludes place.sessionId (endingFor place.scheduleRunId
        ((s.openedProgress projectId d).ending d)) lost s t) ∧
      t.Indexed place.nodeId := by
  obtain ⟨located, row, node, isLatest, hlocate, hfinish⟩ :=
    ingestAgentEvent_located hproject hingest
  have hwrites := locateNode_writes hlocate
  have hquiet := locateNode_quiet hlocate
  rw [locateNode, hnone] at hlocate
  obtain ⟨rfl, hobserved, hfound, hrow, hsession, hrooted, hevents, hprogress, hsome, hfresh⟩ :=
    openNode_root hkeyed hparent hlocate
  have hnewest : true = (located.progressOf node row).isNewest d := by
    rw [hprogress, Progress.isNewest, Store.openedProgress]
    cases d.observation.sourceSequence <;> rfl
  obtain ⟨hafter, ⟨change, hmoved⟩, ⟨lost, hconcludes⟩, hindexed⟩ := finishIngestion_observes
    (hwrites.1.keyed hkeyed) hfound hobserved hrow hnewest hfinish
  have htouched : (s.openedProgress projectId d).touch d = s.openedProgress projectId d := by
    rw [Progress.touch]
    split
    · cases hinstance : d.observation.runtimeInstanceId <;>
        simp [Store.openedProgress, hinstance]
    · rfl
  have hunrecorded : (s.openedProgress projectId d).isRecorded d = false := rfl
  rw [hprogress, hunrecorded, if_neg (by simp)] at hafter
  rw [hprogress] at hconcludes
  refine ⟨⟨node.id, row.id, row.scheduleRunId, row.rootNodeId⟩, ?_, hrooted, hsome, hfresh, ?_,
    ⟨lost, hconcludes.congr_left hquiet.runs hquiet.executions_eq⟩, ?_⟩
  · rw [Progress.observe, hunrecorded, if_neg (by simp), htouched]
    exact hafter
  · obtain ⟨row', hrow', hkey, _⟩ := findSession_reshapes hmoved hsession rfl
    exact ⟨row', hrow', congrArg SessionKey.id hkey⟩
  · apply hindexed
    have hempty : (located.recordedBy node.id).map (fun event => event.trace) = [] :=
      congrArg Progress.recorded hprogress
    rw [Store.Indexed, List.map_eq_nil_iff.mp hempty]
    exact List.Pairwise.nil

end Eveland.Telemetry
