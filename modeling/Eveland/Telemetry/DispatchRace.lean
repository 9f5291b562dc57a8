/-
# The race between a dispatch and its session

A run is dispatched, its session starts, and the session's events are ingested while the dispatch
is still being completed. The completion reads the outcome off the last boundary event that is
recorded by then; what is ingested afterwards ends the execution with its first ending event.
The module says when both readings give one outcome, wherever the completion falls.
-/

import Eveland.Telemetry.Deliveries
import Eveland.Telemetry.Launched

namespace Eveland.Telemetry

variable {s t u : Store} {projectId eveSessionId : String}

/-! ## The boundary event a completion reads -/

/-- The last boundary event that is recorded since a time. -/
def Progress.lastBoundary (p : Progress) (since : ℤ) : Option Trace :=
  (p.recorded.filter fun row =>
    since ≤ row.createdAt && eveSessionBoundaryEventTypes.contains row.type).getLast?

/-- How a completion reads the execution of a session. -/
def Progress.lookup (p : Progress) (since : ℤ) : ExecutionStatus :=
  (p.lastBoundary since).elim .running fun boundary =>
    scheduleExecutionStatusFromEveEvent boundary.type p.sessionStatus boundary.payload

/-- Among events in the order of their indexes, the one with the highest index is the last. -/
theorem foldl_highest_eq_getLast? {events : List SessionEvent} (latest : Option SessionEvent)
    (hordered : events.Pairwise fun first second => first.index < second.index)
    (hlatest : ∀ other ∈ latest, ∀ event ∈ events, other.index < event.index) :
    events.foldl (fun latest row =>
      if latest.any fun other => row.index ≤ other.index then latest else some row) latest =
        events.getLast?.or latest := by
  induction events generalizing latest with
  | nil => rfl
  | cons event rest ih =>
      obtain ⟨hfirst, hrest⟩ := List.pairwise_cons.mp hordered
      have hnewer : (latest.any fun other => event.index ≤ other.index) = false := by
        rw [Option.any_eq_false_iff_get]
        intro hsome
        have hbelow := hlatest _ (Option.get_mem hsome) event List.mem_cons_self
        simpa using hbelow
      rw [List.foldl_cons, hnewer, if_neg (by simp), ih _ hrest ?_, List.getLast?_cons]
      · cases rest.getLast? <;> simp
      · intro other hother later hlater
        cases hother
        exact hfirst later hlater

/-- The boundary event a completion reads is the one the progress of the root has. -/
theorem lastBoundary_eq {node : SessionNode} {row : Session} (hkeyed : Keyed s)
    (hmem : node ∈ s.nodes) (hroot : node.rootSessionId = row.id) (hindexed : s.Indexed node.id)
    (since : ℤ) :
    (s.lastBoundary row node.id since).map (fun event => event.trace) =
      (s.progressOf node row).lastBoundary since := by
  have hevents : ((s.eventsOf row.id).filter fun event =>
      event.sessionNodeId = some node.id && since ≤ event.createdAt &&
        eveSessionBoundaryEventTypes.contains event.type) =
      (s.recordedBy node.id).filter fun event =>
        since ≤ event.createdAt && eveSessionBoundaryEventTypes.contains event.type := by
    rw [Store.eventsOf, Store.recordedBy, List.filter_filter, List.filter_filter]
    apply List.filter_congr
    intro event hevent
    by_cases hof : event.sessionNodeId = some node.id
    · have hin := hkeyed.recordedBy_sessionId hmem
        (List.mem_filter.mpr ⟨hevent, by simpa using hof⟩)
      simp [hof, hin, hroot]
    · simp [hof]
  rw [Store.lastBoundary, hevents, foldl_highest_eq_getLast? none (hindexed.filter _) (by simp),
    Option.or_none, Progress.lastBoundary, Store.progressOf, List.filter_map, List.getLast?_map]
  rfl

/-! ## The completion -/

/-- A completion that reports one session. -/
def reportOf (eveSessionId : String) (error : Option String) : CompleteRunInput :=
  { status := .succeeded, error, eveSessionIds := [eveSessionId] }

/-- The status of a run with one execution. -/
def runStatusOf : ExecutionStatus → ScheduleRunStatus
  | .running => .running
  | .failed => .failed
  | .succeeded => .succeeded
  | .parked => .succeeded

theorem executionOf_eq {node : SessionNode} {row : Session} (hkeyed : Keyed s)
    (hmem : node ∈ s.nodes) (hroot : node.rootSessionId = row.id) (hindexed : s.Indexed node.id)
    (hrooted : row.rootNodeId = some node.id) (run : ScheduleRun) (error : Option String)
    (reportedError : Option String) :
    (s.executionOf run (reportOf eveSessionId error) reportedError (some row)).1 =
      (s.progressOf node row).lookup (run.startedAt.getD run.createdAt) := by
  rw [Progress.lookup, ← lastBoundary_eq hkeyed hmem hroot hindexed, Store.executionOf,
    if_neg (by simp [reportOf])]
  simp only [hrooted]
  cases s.lastBoundary row node.id (run.startedAt.getD run.createdAt) <;> rfl

/-- The completion of a run with one execution leaves the run as its execution is. -/
theorem completionOf_single {execution : ScheduleRunSession} (error reportedError : Option String) :
    (completionOf [execution] (reportOf eveSessionId error) reportedError).status =
      runStatusOf execution.status := by
  rw [completionOf, reportOf]
  cases hstatus : execution.status <;> simp [hstatus, runStatusOf, CompletionStatus.toRunStatus]

/-- What a completion does that reports one session: the session is linked to the run, and the
run has one execution, of this session. -/
structure Completes (run : ScheduleRun) (sessionId : String) (status : ExecutionStatus)
    (s t : Store) : Prop where
  nodes : t.nodes = s.nodes
  events : t.events = s.events
  surroundings : SameSurroundings s t
  keyed : Keyed t
  statuses : t.statusesOf run.id = [(sessionId, status)]
  run : (t.getRun run.id).map (fun row => row.status) = some (runStatusOf status)

/-- Linking a session writes sessions only. -/
theorem linkDispatched_keeps {run : ScheduleRun} {sessionId linkedId : String} {now : ℤ}
    (hlink : linkDispatched s run projectId eveSessionId sessionId now = .ok (t, linkedId)) :
    t.nodes = s.nodes ∧ t.events = s.events ∧ t.executions = s.executions ∧ t.runs = s.runs ∧
      SameSurroundings s t := by
  rw [linkDispatched] at hlink
  split at hlink
  · cases hlink
    exact ⟨rfl, rfl, rfl, rfl, rfl⟩
  · obtain ⟨inserted, hinsert, heq⟩ := Outcome.map_eq_ok.mp hlink
    cases heq
    obtain ⟨_, _, rfl⟩ := insertSession_eq_ok.mp hinsert
    exact ⟨rfl, rfl, rfl, rfl, rfl⟩

/-- The insert of the first execution of a run, and the end of the completion. -/
theorem finishRun_single {run : ScheduleRun} {row : ScheduleRunSession}
    {error reportedError : Option String} {now : ℤ} (hnone : s.executionsOf run.id = [])
    (hrun : s.getRun run.id = some run) (hof : row.scheduleRunId = run.id)
    (hfinish : t = (finishRun (insertExecution s row) run.id
      (completionOf ((insertExecution s row).executionsOf run.id) (reportOf eveSessionId error)
        reportedError) now).1) :
    t.nodes = s.nodes ∧ t.events = s.events ∧ t.sessions = s.sessions ∧ SameSurroundings s t ∧
      t.statusesOf run.id = [(row.sessionId, row.status)] ∧
      (t.getRun run.id).map (fun row => row.status) = some (runStatusOf row.status) := by
  have hinsert : insertExecution s row = { s with executions := s.executions ++ [row] } := by
    rw [insertExecution, if_neg]
    intro hany
    obtain ⟨other, hother, hsame⟩ := List.any_eq_true.mp hany
    simp only [hof, Bool.and_eq_true, decide_eq_true_eq] at hsame
    have hfirst : other ∈ s.executionsOf run.id :=
      List.mem_filter.mpr ⟨hother, by simpa using hsame.1⟩
    rw [hnone] at hfirst
    cases hfirst
  have hexecutions : (insertExecution s row).executionsOf run.id = [row] := by
    rw [hinsert]
    show (s.executions ++ [row]).filter _ = _
    rw [List.filter_append]
    show s.executionsOf run.id ++ _ = _
    rw [hnone, List.nil_append, List.filter_cons_of_pos (by simp [hof]), List.filter_nil]
  generalize hcompletion : completionOf ((insertExecution s row).executionsOf run.id)
    (reportOf eveSessionId error) reportedError = completion at hfinish
  have hstatus : completion.status = runStatusOf row.status := by
    rw [← hcompletion, hexecutions]
    exact completionOf_single error reportedError
  obtain ⟨hkeptExecutions, hkeptSessions⟩ :=
    finishRun_keeps (insertExecution s row) run.id completion now
  have hkept : t.nodes = s.nodes ∧ t.events = s.events ∧ SameSurroundings s t := by
    rw [hfinish, hinsert, finishRun]
    split <;> exact ⟨rfl, rfl, rfl⟩
  refine ⟨hkept.1, hkept.2.1, ?_, hkept.2.2, ?_, ?_⟩
  · rw [hfinish, hkeptSessions, hinsert]
  · rw [hfinish, Store.statusesOf, Store.executionsOf, hkeptExecutions]
    show ((insertExecution s row).executionsOf run.id).map _ = _
    rw [hexecutions, List.map_singleton]
  · rw [hfinish, Store.getRun, finishRun_runs, hinsert, Table.find?_updateWhere_of fun _ => by rfl]
    show ((s.getRun run.id).map _).map _ = _
    rw [hrun, Option.map_some, Option.map_some, if_pos (by simp)]
    exact congrArg some hstatus

/-- The completion of a run without executions. -/
theorem completeScheduleRun_single {run : ScheduleRun} {schedule : ScheduleStore.ProjectSchedule}
    {error : Option String} {newId : ℕ → String} {now : ℤ} {result : Option ScheduleRun}
    (hkeyed : Keyed s) (hrun : s.getRun run.id = some run)
    (hschedule : (s.schedules.find? fun row => row.id = run.scheduleId) = some schedule)
    (hnone : s.executionsOf run.id = [])
    (hcomplete : completeScheduleRun s run.id (reportOf eveSessionId error) newId now =
      .ok (t, result)) :
    ∃ linked sessionId,
      linkDispatched s run schedule.projectId eveSessionId (newId 0) now = .ok (linked, sessionId) ∧
      t.sessions = linked.sessions ∧
      Completes run sessionId
        (s.executionOf run (reportOf eveSessionId error) (error.map sanitizeStoredErrorText)
          (s.findSession schedule.projectId eveSessionId)).1 s t := by
  obtain ⟨schedule', dispatched, hschedule', hdispatch, hfinish⟩ :=
    (completeScheduleRun_eq_ok hrun).mp hcomplete
  rw [hschedule] at hschedule'
  cases hschedule'
  have hkeyed' := (completeScheduleRun_writes hcomplete).keyed hkeyed
  have hdistinct : distinct (reportOf eveSessionId error).eveSessionIds = [eveSessionId] := by
    simp [distinct, reportOf]
  rw [hdistinct] at hdispatch
  obtain ⟨dispatched', hfirst, heq⟩ := Outcome.bind_eq_ok.mp hdispatch
  cases heq
  obtain ⟨⟨linked, sessionId⟩, hlink, heq⟩ := Outcome.bind_eq_ok.mp hfirst
  cases heq
  obtain ⟨hnodes, hevents, hexecutions, hruns, hsurroundings⟩ := linkDispatched_keeps hlink
  have hnone' : linked.executionsOf run.id = [] := by
    rw [Store.executionsOf, hexecutions]
    exact hnone
  have hrun' : linked.getRun run.id = some run := (Store.getRun_congr hruns _).trans hrun
  obtain ⟨hnodes', hevents', hsessions, hsurroundings', hstatuses, hstatus⟩ :=
    finishRun_single hnone' hrun' (by rfl) (congrArg Prod.fst hfinish)
  exact ⟨linked, sessionId, hlink, hsessions, hnodes'.trans hnodes, hevents'.trans hevents,
    hsurroundings.trans hsurroundings', hkeyed', hstatuses, hstatus⟩

/-- A completion after some of the session's events: the session stays where it is, linked to the
run, and its execution is read off the last boundary event. -/
theorem completeScheduleRun_known {run : ScheduleRun} {schedule : ScheduleStore.ProjectSchedule}
    {error : Option String} {newId : ℕ → String} {now : ℤ} {result : Option ScheduleRun}
    {place : Place} {progress : Progress} {found : Session} (hkeyed : Keyed s)
    (hrun : s.getRun run.id = some run)
    (hschedule : (s.schedules.find? fun row => row.id = run.scheduleId) = some schedule)
    (hnone : s.executionsOf run.id = [])
    (hshows : Shows s schedule.projectId eveSessionId place progress)
    (hrooted : place.rootNodeId = some place.nodeId) (hindexed : s.Indexed place.nodeId)
    (hfound : s.findSession schedule.projectId eveSessionId = some found)
    (hid : found.id = place.sessionId)
    (hcomplete : completeScheduleRun s run.id (reportOf eveSessionId error) newId now =
      .ok (t, result)) :
    Shows t schedule.projectId eveSessionId { place with scheduleRunId := some run.id } progress ∧
      Completes run place.sessionId (progress.lookup (run.startedAt.getD run.createdAt)) s t := by
  obtain ⟨node, row, hnode, hrow, rfl, rfl⟩ := hshows
  obtain ⟨linked, sessionId, hlink, hsessions, hcompletes⟩ :=
    completeScheduleRun_single hkeyed hrun hschedule hnone hcomplete
  obtain rfl : found = row := hkeyed.sessionIds.eq (Store.mem_of_findSession hfound).1
    (List.mem_of_find?_eq_some hrow) hid
  have hroot : node.rootSessionId = found.id := (Store.id_of_getSession hrow).symm
  have hmem := (Store.mem_of_findNode hnode).1
  rw [hfound, executionOf_eq hkeyed hmem hroot hindexed hrooted] at hcompletes
  rw [linkDispatched, hfound] at hlink
  cases hlink
  refine ⟨⟨node, linkSession run found, ?_, ?_, rfl, ?_⟩, hcompletes⟩
  · rw [Store.findNode, hcompletes.nodes]
    exact hnode
  · rw [Store.getSession, hsessions, Table.find?_updateWhere_of fun _ => by rfl]
    show (s.getSession node.rootSessionId).map _ = _
    rw [hrow, Option.map_some, if_pos (by simp)]
  · rw [Store.progressOf, Store.progressOf, Store.recordedBy, Store.recordedBy, hcompletes.events]
    rfl

/-- A completion before any event of the session: the session is opened, linked to the run, and
waits for its node. -/
theorem completeScheduleRun_new {run : ScheduleRun} {schedule : ScheduleStore.ProjectSchedule}
    {error : Option String} {newId : ℕ → String} {now : ℤ} {result : Option ScheduleRun}
    (hkeyed : Keyed s) (hrun : s.getRun run.id = some run)
    (hschedule : (s.schedules.find? fun row => row.id = run.scheduleId) = some schedule)
    (hnone : s.executionsOf run.id = [])
    (hsession : s.findSession schedule.projectId eveSessionId = none)
    (hcomplete : completeScheduleRun s run.id (reportOf eveSessionId error) newId now =
      .ok (t, result)) :
    ∃ row, t.findSession schedule.projectId eveSessionId = some row ∧ row.status = .running ∧
      row.completedAt = none ∧ row.scheduleRunId = some run.id ∧
      Completes run row.id .running s t := by
  obtain ⟨linked, sessionId, hlink, hsessions, hcompletes⟩ :=
    completeScheduleRun_single hkeyed hrun hschedule hnone hcomplete
  have hread : (s.executionOf run (reportOf eveSessionId error)
      (error.map sanitizeStoredErrorText) none).1 = .running := by
    rw [Store.executionOf, if_neg (by simp [reportOf])]
  rw [hsession, hread] at hcompletes
  rw [linkDispatched, hsession] at hlink
  obtain ⟨inserted, hinsert, heq⟩ := Outcome.map_eq_ok.mp hlink
  cases heq
  obtain ⟨_, _, rfl⟩ := insertSession_eq_ok.mp hinsert
  refine ⟨linkSession run (startedSession (newId 0) schedule.projectId none (some eveSessionId)
    (runTrigger run.trigger) none now), ?_, rfl, rfl, rfl, hcompletes⟩
  rw [Store.findSession, hsessions, List.find?_append]
  show (s.findSession schedule.projectId eveSessionId).or _ = _
  rw [hsession, Option.none_or, List.find?_singleton, if_pos (by simp [linkSession, startedSession])]

/-- What is ingested after a completion: the execution that runs on is ended by the first event
that ends it, and its run is settled with it. -/
theorem Completes.concluded {run : ScheduleRun} {sessionId : String} {status : ExecutionStatus}
    {ending : Option ExecutionStatus} (hcompletes : Completes run sessionId status s t)
    (hconcluded : Concluded sessionId (endingFor (some run.id) ending) t u)
    (hended : ending ≠ some .running) :
    u.statusesOf run.id = [(sessionId, if status = .running then ending.getD .running else status)] ∧
      (u.getRun run.id).map (fun row => row.status) =
        some (runStatusOf (if status = .running then ending.getD .running else status)) := by
  have hours : endingFor (some run.id) ending run.id = ending := if_pos rfl
  have hstatuses : u.statusesOf run.id =
      [(sessionId, if status = .running then ending.getD .running else status)] := by
    obtain ⟨lost, hspared, hstatuses⟩ := hconcluded.statuses
    rw [hstatuses, hours, hcompletes.statuses, List.map_singleton,
      List.filter_cons_of_pos (by simp [hspared]), List.filter_nil, conclude]
    by_cases hrunning : status = .running <;> simp [hrunning]
  refine ⟨hstatuses, ?_⟩
  have hruns := hconcluded.runs run.id (by rw [hstatuses, hcompletes.statuses]; rfl)
  have hrun := congrArg (Option.map fun status =>
    settled ending (u.statusesOf run.id) status) hcompletes.run
  rw [Option.map_map, Option.map_some] at hrun
  rw [hruns, hours]
  refine hrun.trans (congrArg some ?_)
  rw [hstatuses]
  by_cases hrunning : status = .running
  · rw [if_pos hrunning, hrunning]
    cases ending with
    | none => rfl
    | some ended =>
        have hne : ended ≠ .running := fun heq => hended (congrArg some heq)
        rw [Option.getD_some, settled, if_pos (by simp [hne, runStatusOf])]
        cases ended <;> simp_all [runStatusOf]
  · rw [if_neg hrunning]
    apply settled_of_ne_running
    cases status <;> simp_all [runStatusOf]

/-! ## The race -/

/-- The progress of an Eve session that is new to the store, at the first of its observations. -/
def Progress.fresh (stream : List AgentEventObservation) : Progress where
  status := .running
  lastObservedDeploymentId := stream.head?.elim "" fun o => o.deploymentId
  lastObservedRuntimeInstanceId := stream.head?.bind fun o => o.runtimeInstanceId
  isRoot := true
  sessionStatus := .running
  completedAt := none
  recorded := []

/-- A stream of observations as one run of the race ingests it, and what its completion reports
and draws. -/
structure Race where
  deliveries : List Delivery
  error : Option String
  newId : ℕ → String
  now : ℤ

/-- The completion of the run after the first `k` observations. -/
def Race.run (race : Race) (s : Store) (scheduleRunId eveSessionId : String) (k : ℕ) :
    Except String Store := do
  let s ← ingestAll (race.deliveries.take k) s
  let (s, _) ←
    completeScheduleRun s scheduleRunId (reportOf eveSessionId race.error) race.newId race.now
  ingestAll (race.deliveries.drop k) s

theorem Race.run_eq_ok {race : Race} {scheduleRunId : String} {k : ℕ} :
    race.run s scheduleRunId eveSessionId k = .ok u ↔ ∃ before after result,
      ingestAll (race.deliveries.take k) s = .ok before ∧
      completeScheduleRun before scheduleRunId (reportOf eveSessionId race.error) race.newId
        race.now = .ok (after, result) ∧
      ingestAll (race.deliveries.drop k) after = .ok u := by
  rw [run, Outcome.bind_eq_ok]
  simp only [Outcome.bind_eq_ok]
  constructor
  · rintro ⟨before, hbefore, ⟨after, result⟩, hcomplete, hafter⟩
    exact ⟨before, after, result, hbefore, hcomplete, hafter⟩
  · rintro ⟨before, after, result, hbefore, hcomplete, hafter⟩
    exact ⟨before, hbefore, (after, result), hcomplete, hafter⟩

/-- A run in dispatching, and the stream of the Eve session it has started: a session without a
parent that the store does not know yet. -/
structure Dispatched (s : Store) (run : ScheduleRun) (projectId eveSessionId : String)
    (stream : List AgentEventObservation) : Prop where
  reachable : system.Reachable s
  stored : s.getRun run.id = some run
  dispatching : run.status = .dispatching
  schedule : ∃ schedule : ScheduleStore.ProjectSchedule, schedule.projectId = projectId ∧
    (s.schedules.find? fun row => row.id = run.scheduleId) = some schedule
  session : s.findSession projectId eveSessionId = none
  node : s.findNode projectId eveSessionId = none
  own : ∀ o ∈ stream, o.eveSessionId = eveSessionId ∧ s.projectOf o.deploymentId = some projectId
  root : ∀ o ∈ stream.head?, o.parentEveSessionId = none

/-- The status the execution comes to where the run is completed after the first `k`
observations. -/
def Progress.outcome (p : Progress) (since : ℤ) (deliveries : List Delivery) (k : ℕ) :
    ExecutionStatus :=
  if (p.observeAll (deliveries.take k)).lookup since = .running then
    ((p.observeAll (deliveries.take k)).firstEnding (deliveries.drop k)).getD .running
  else (p.observeAll (deliveries.take k)).lookup since

namespace Dispatched

variable {run : ScheduleRun} {stream : List AgentEventObservation} {race : Race} {k : ℕ}

/-- The completion comes first. -/
theorem run_before (hdispatched : Dispatched s run projectId eveSessionId stream)
    (hstream : race.deliveries.map Delivery.observation = stream)
    (hrun : race.run s run.id eveSessionId 0 = .ok u) :
    ∃ sessionId, u.statusesOf run.id =
        [(sessionId, ((Progress.fresh stream).firstEnding race.deliveries).getD .running)] ∧
      (u.getRun run.id).map (fun row => row.status) =
        some (runStatusOf
          (((Progress.fresh stream).firstEnding race.deliveries).getD .running)) := by
  have hkeyed := reachable_keyed hdispatched.reachable
  obtain ⟨schedule, rfl, hschedule⟩ := hdispatched.schedule
  have hnone := (reachable_launched hdispatched.reachable).executionsOf_eq_nil hdispatched.stored
    (by simp [ScheduleRun.isPastDispatch, hdispatched.dispatching])
  obtain ⟨before, after, result, hbefore, hcomplete, hafter⟩ := Race.run_eq_ok.mp hrun
  cases hbefore
  obtain ⟨row, hrow, hstatus, hcompleted, hlinked, hcompletes⟩ :=
    completeScheduleRun_new hkeyed hdispatched.stored hschedule hnone hdispatched.session hcomplete
  rw [List.drop_zero] at hafter
  have hconcluded : Concluded row.id (endingFor (some run.id)
      ((Progress.fresh stream).firstEnding race.deliveries)) after u := by
    cases hdeliveries : race.deliveries with
    | nil =>
        rw [hdeliveries] at hafter
        cases hafter
        have hquiet : endingFor (some run.id) ((Progress.fresh stream).firstEnding []) =
            fun _ => none := by
          funext scheduleRunId
          simp [endingFor, Progress.firstEnding]
        rw [hquiet]
        exact Concluded.refl _
    | cons d rest =>
        rw [hdeliveries] at hafter hstream
        have hhead : stream.head? = some d.observation := by rw [← hstream]; rfl
        have hdelivered : DeliveredTo after schedule.projectId eveSessionId (d :: rest) := by
          intro other hother
          rw [hcompletes.surroundings.projectOf]
          exact hdispatched.own _ (hstream ▸ List.mem_map_of_mem hother)
        have hnode : after.findNode schedule.projectId eveSessionId = none := by
          rw [Store.findNode, hcompletes.nodes]
          exact hdispatched.node
        obtain ⟨place, _, _, hsame, _, _, hconcluded, _⟩ := ingestAll_opens hcompletes.keyed
          hdelivered hnode (hdispatched.root _ (by simp [hhead])) hafter
        obtain ⟨hid, hscheduled⟩ := hsame row hrow
        have hopened : after.openedProgress schedule.projectId d = Progress.fresh stream := by
          have heve := (hdelivered d List.mem_cons_self).1
          rw [Store.openedProgress, heve, hrow, Progress.fresh, hhead]
          simp [hstatus, hcompleted]
        rw [hid, hscheduled, hlinked, hopened] at hconcluded
        exact hconcluded
  have hended := hcompletes.concluded hconcluded (Progress.firstEnding_ne_running _ _)
  rw [if_pos rfl] at hended
  exact ⟨row.id, hended⟩

/-- The first observations come before the completion. -/
theorem run_after (hdispatched : Dispatched s run projectId eveSessionId stream)
    (hstream : race.deliveries.map Delivery.observation = stream) (hk : k < stream.length)
    (hrun : race.run s run.id eveSessionId (k + 1) = .ok u) :
    ∃ sessionId, u.statusesOf run.id = [(sessionId, (Progress.fresh stream).outcome
        (run.startedAt.getD run.createdAt) race.deliveries (k + 1))] ∧
      (u.getRun run.id).map (fun row => row.status) =
        some (runStatusOf ((Progress.fresh stream).outcome
          (run.startedAt.getD run.createdAt) race.deliveries (k + 1))) := by
  have hkeyed := reachable_keyed hdispatched.reachable
  obtain ⟨schedule, rfl, hschedule⟩ := hdispatched.schedule
  have hnone := (reachable_launched hdispatched.reachable).executionsOf_eq_nil hdispatched.stored
    (by simp [ScheduleRun.isPastDispatch, hdispatched.dispatching])
  obtain ⟨before, after, result, hbefore, hcomplete, hafter⟩ := Race.run_eq_ok.mp hrun
  obtain ⟨d, rest, hdeliveries⟩ : ∃ d rest, race.deliveries = d :: rest := by
    cases hdeliveries : race.deliveries with
    | nil => rw [← hstream, hdeliveries] at hk; cases hk
    | cons d rest => exact ⟨d, rest, rfl⟩
  have hhead : stream.head? = some d.observation := by rw [← hstream, hdeliveries]; rfl
  have hdelivered : DeliveredTo s schedule.projectId eveSessionId (d :: rest) := by
    intro other hother
    exact hdispatched.own _ (hstream ▸ hdeliveries ▸ List.mem_map_of_mem hother)
  rw [hdeliveries, List.take_succ_cons] at hbefore
  rw [hdeliveries, List.drop_succ_cons] at hafter
  have hopened : s.openedProgress schedule.projectId d = Progress.fresh stream := by
    have heve := (hdelivered d List.mem_cons_self).1
    rw [Store.openedProgress, heve, hdispatched.session, Progress.fresh, hhead]
    rfl
  obtain ⟨place, hshows, hrooted, _, hunlinked, ⟨found, hfound, hid⟩, hconcluded, hindexed⟩ :=
    ingestAll_opens hkeyed (fun other hother => hdelivered other
      (List.mem_cons.mpr ((List.mem_cons.mp hother).imp_right List.mem_of_mem_take)))
      hdispatched.node (hdispatched.root _ (by simp [hhead])) hbefore
  have hquiet : endingFor place.scheduleRunId
      ((s.openedProgress schedule.projectId d).firstEnding (d :: rest.take k)) =
        fun _ => none := by
    funext scheduleRunId
    rw [hunlinked hdispatched.session, endingFor, if_neg (by simp)]
  rw [hquiet] at hconcluded
  have hsame := ingestAll_surroundings hbefore
  have hstored : before.getRun run.id = some run :=
    (Store.getRun_congr (hconcluded.quiet fun _ => rfl) _).trans hdispatched.stored
  have hnone' : before.executionsOf run.id = [] := by
    have hlength := hconcluded.length_le run.id
    rw [Store.statusesOf, Store.statusesOf, hnone] at hlength
    simpa using hlength
  have hschedule' : (before.schedules.find? fun row => row.id = run.scheduleId) = some schedule := by
    rw [hsame]
    exact hschedule
  obtain ⟨hshows', hcompletes⟩ := completeScheduleRun_known (ingestAll_keyed hkeyed hbefore) hstored
    hschedule' hnone' hshows hrooted hindexed hfound hid hcomplete
  have hdelivered' : DeliveredTo after schedule.projectId eveSessionId (rest.drop k) := by
    intro other hother
    rw [hcompletes.surroundings.projectOf, hsame.projectOf]
    exact hdelivered other (List.mem_cons_of_mem _ (List.mem_of_mem_drop hother))
  obtain ⟨_, _, hconcluded', _⟩ := ingestAll_observes hcompletes.keyed hdelivered' hshows' hafter
  refine ⟨place.sessionId, ?_⟩
  rw [Progress.outcome, hdeliveries, List.take_succ_cons, List.drop_succ_cons, ← hopened]
  exact hcompletes.concluded hconcluded' (Progress.firstEnding_ne_running _ _)

/-- Wherever the completion falls. -/
theorem run_outcome (hdispatched : Dispatched s run projectId eveSessionId stream)
    (hstream : race.deliveries.map Delivery.observation = stream) (hk : k ≤ stream.length)
    (hrun : race.run s run.id eveSessionId k = .ok u) :
    ∃ sessionId, u.statusesOf run.id = [(sessionId, (Progress.fresh stream).outcome
        (run.startedAt.getD run.createdAt) race.deliveries k)] ∧
      (u.getRun run.id).map (fun row => row.status) =
        some (runStatusOf ((Progress.fresh stream).outcome
          (run.startedAt.getD run.createdAt) race.deliveries k)) := by
  cases k with
  | zero => exact hdispatched.run_before hstream hrun
  | succ k => exact hdispatched.run_after hstream hk hrun

end Dispatched

/-! ## One end of a stream -/

/-- Two accounts that differ in times and in runtimes only. -/
structure Progress.Alike (p q : Progress) : Prop where
  status : p.status = q.status
  isRoot : p.isRoot = q.isRoot
  recorded : p.recorded.map (fun row => (row.telemetryEventId, row.eventFingerprint,
      row.sourceSequence)) =
    q.recorded.map fun row => (row.telemetryEventId, row.eventFingerprint, row.sourceSequence)

namespace Progress.Alike

variable {p q : Progress} {d d' : Delivery}

theorem isRecorded (halike : Alike p q) (hsame : d.observation = d'.observation) :
    p.isRecorded d = q.isRecorded d' := by
  have hany := congrArg (List.any · fun mark : Option String × Option String × Option ℕ =>
    mark.1 = some d'.observation.telemetryEventId ||
      mark.2.1 = some d'.observation.eventFingerprint) halike.recorded
  simp only [List.any_map] at hany
  rw [Progress.isRecorded, Progress.isRecorded, hsame]
  exact hany

theorem isNewest (halike : Alike p q) (hsame : d.observation = d'.observation) :
    p.isNewest d = q.isNewest d' := by
  rw [Progress.isNewest, Progress.isNewest, hsame]
  congr 1
  funext sequence
  have hall := congrArg (List.all · fun mark : Option String × Option String × Option ℕ =>
    mark.2.2.all fun other => other ≤ sequence) halike.recorded
  simp only [List.all_map] at hall
  exact hall

theorem projected (halike : Alike p q) (hsame : d.observation = d'.observation) :
    p.projected d = q.projected d' := by
  rw [Progress.projected, Progress.projected, halike.status, halike.isNewest hsame,
    Delivery.reading, hsame]
  rfl

theorem ending (halike : Alike p q) (hsame : d.observation = d'.observation) :
    p.ending d = q.ending d' := by
  rw [Progress.ending, Progress.ending, halike.isRoot, halike.isRecorded hsame,
    halike.projected hsame, halike.status, Delivery.reading, hsame]
  rfl

theorem observe (halike : Alike p q) (hsame : d.observation = d'.observation) :
    Alike (p.observe d) (q.observe d') := by
  rw [Progress.observe, Progress.observe, halike.isRecorded hsame]
  split
  · exact ⟨by simp [halike.status], by simp [halike.isRoot], by simpa using halike.recorded⟩
  · refine ⟨?_, ?_, ?_⟩
    · simp only [record, touch_projected, touch_status]
      rw [halike.projected hsame, halike.status]
    · have hself : d.announcesItself = d'.announcesItself :=
        congrArg (fun o : AgentEventObservation =>
          decide (announcedChild (readEvent o.event) = some o.eveSessionId)) hsame
      simp only [record, touch_isRoot, halike.isRoot, hself]
    · simp only [record, touch_recorded, List.map_append, halike.recorded, List.map_singleton,
        Delivery.trace, hsame]

/-- The first end is a matter of the observations. -/
theorem firstEnding {deliveries deliveries' : List Delivery} (halike : Alike p q)
    (hsame : deliveries.map Delivery.observation = deliveries'.map Delivery.observation) :
    p.firstEnding deliveries = q.firstEnding deliveries' := by
  induction deliveries generalizing deliveries' p q with
  | nil =>
      rw [List.map_nil, eq_comm, List.map_eq_nil_iff] at hsame
      rw [hsame]
      rfl
  | cons d rest ih =>
      obtain ⟨d', rest', rfl, hd, hrest⟩ := List.map_eq_cons_iff.mp hsame.symm
      rw [Progress.firstEnding, Progress.firstEnding, halike.ending hd.symm,
        ih (halike.observe hd.symm) hrest.symm]

end Progress.Alike

/-- The two readings of a stream agree where the completion falls after the first `k`
observations. -/
structure Progress.ReadingsAgree (p : Progress) (since : ℤ) (deliveries : List Delivery) (k : ℕ) :
    Prop where
  /-- The last boundary event before the completion, read under the status the session then has,
  puts the end that the first ending event of the stream puts. -/
  boundary : ∀ boundary status,
    (p.observeAll (deliveries.take k)).lastBoundary since = some boundary →
    scheduleExecutionStatusFromEveEvent boundary.type
      (p.observeAll (deliveries.take k)).sessionStatus boundary.payload = status →
    status ≠ .running → p.firstEnding deliveries = some status
  /-- Where it puts none, the first ending event after the completion puts that end. -/
  later : (p.observeAll (deliveries.take k)).lookup since = .running →
    (p.observeAll (deliveries.take k)).firstEnding (deliveries.drop k) = p.firstEnding deliveries

/-- The readings agree where the outcome is the one of the first ending event. -/
theorem Progress.readingsAgree_iff (p : Progress) (since : ℤ) (deliveries : List Delivery) (k : ℕ) :
    p.ReadingsAgree since deliveries k ↔
      p.outcome since deliveries k = (p.firstEnding deliveries).getD .running := by
  have hwhole := p.firstEnding_ne_running deliveries
  have hrest := firstEnding_ne_running (p.observeAll (deliveries.take k)) (deliveries.drop k)
  rw [outcome]
  by_cases hrunning : (p.observeAll (deliveries.take k)).lookup since = .running
  · rw [if_pos hrunning]
    constructor
    · intro hagree
      rw [hagree.later hrunning]
    · intro hsame
      refine ⟨?_, fun _ => ?_⟩
      · intro boundary status hboundary hstatus hended
        rw [lookup, hboundary] at hrunning
        exact absurd (hstatus.symm.trans hrunning) hended
      · cases hfirst : p.firstEnding deliveries <;>
          cases hlater : (p.observeAll (deliveries.take k)).firstEnding (deliveries.drop k) <;>
          simp_all
  · rw [if_neg hrunning]
    constructor
    · intro hagree
      cases hboundary : (p.observeAll (deliveries.take k)).lastBoundary since with
      | none => rw [lookup, hboundary] at hrunning; exact absurd rfl hrunning
      | some boundary =>
          have hlookup : (p.observeAll (deliveries.take k)).lookup since =
              scheduleExecutionStatusFromEveEvent boundary.type
                (p.observeAll (deliveries.take k)).sessionStatus boundary.payload := by
            rw [lookup, hboundary]
            rfl
          rw [hagree.boundary boundary _ hboundary rfl (hlookup ▸ hrunning), hlookup]
          rfl
    · intro hsame
      refine ⟨?_, fun hnot => absurd hnot hrunning⟩
      intro boundary status hboundary hstatus hended
      rw [lookup, hboundary, Option.elim_some, hstatus] at hsame
      cases hfirst : p.firstEnding deliveries with
      | none => rw [hfirst] at hsame; exact absurd hsame hended
      | some ended => rw [hsame, hfirst]; rfl

/-- **The race.** The execution and its run come to the same statuses, wherever the completion
falls among the observations, if and only if at every place the last boundary event read by the
completion puts the end that the first ending event of the stream puts. -/
theorem dispatch_race_iff {run : ScheduleRun} {stream : List AgentEventObservation}
    {races : ℕ → Race} {ends : ℕ → Store}
    (hdispatched : Dispatched s run projectId eveSessionId stream)
    (hraces : ∀ k ≤ stream.length, (races k).deliveries.map Delivery.observation = stream ∧
      (races k).run s run.id eveSessionId k = .ok (ends k)) :
    (∀ j ≤ stream.length, ∀ k ≤ stream.length,
      ((ends j).statusesOf run.id).map Prod.snd = ((ends k).statusesOf run.id).map Prod.snd ∧
        ((ends j).getRun run.id).map (fun row => row.status) =
          ((ends k).getRun run.id).map fun row => row.status) ↔
    ∀ k ≤ stream.length, (Progress.fresh stream).ReadingsAgree
      (run.startedAt.getD run.createdAt) (races k).deliveries k := by
  have houtcome : ∀ k ≤ stream.length,
      ((ends k).statusesOf run.id).map Prod.snd = [(Progress.fresh stream).outcome
        (run.startedAt.getD run.createdAt) (races k).deliveries k] ∧
      ((ends k).getRun run.id).map (fun row => row.status) =
        some (runStatusOf ((Progress.fresh stream).outcome
          (run.startedAt.getD run.createdAt) (races k).deliveries k)) := by
    intro k hk
    obtain ⟨sessionId, hstatuses, hrun⟩ := hdispatched.run_outcome (hraces k hk).1 hk (hraces k hk).2
    exact ⟨by rw [hstatuses]; rfl, hrun⟩
  have hfirst : ∀ k ≤ stream.length,
      (Progress.fresh stream).firstEnding (races k).deliveries =
        (Progress.fresh stream).firstEnding (races 0).deliveries := by
    intro k hk
    refine Progress.Alike.firstEnding ⟨rfl, rfl, rfl⟩ ?_
    rw [(hraces k hk).1, (hraces 0 (Nat.zero_le _)).1]
  have hzero : (Progress.fresh stream).outcome (run.startedAt.getD run.createdAt)
      (races 0).deliveries 0 =
        ((Progress.fresh stream).firstEnding (races 0).deliveries).getD .running := rfl
  simp only [Progress.readingsAgree_iff]
  constructor
  · intro hsame k hk
    have hstatuses := (hsame k hk 0 (Nat.zero_le _)).1
    rw [(houtcome k hk).1, (houtcome 0 (Nat.zero_le _)).1] at hstatuses
    rw [hfirst k hk, ← hzero]
    exact List.singleton_inj.mp hstatuses
  · intro hagree j hj k hk
    rw [(houtcome j hj).1, (houtcome j hj).2, (houtcome k hk).1, (houtcome k hk).2,
      hagree j hj, hagree k hk, hfirst j hj, hfirst k hk]
    exact ⟨rfl, rfl⟩

/-- The store in which a run is being dispatched. -/
def dispatchingStore : Store :=
  (system.exec sampleStore ((sampleDispatch "first" "one" 1).take 3)).getD sampleStore

def dispatchingRun : ScheduleRun where
  id := "first"
  scheduleId := "daily"
  deploymentId := "deployment"
  trigger := .cron
  status := .dispatching
  attempt := 1
  error := none
  startedAt := some 1
  completedAt := none
  createdAt := 1
  updatedAt := 1

/-- Events of the session the run has started. -/
def sampleStream (types : List String) : List Delivery :=
  types.mapIdx fun n type =>
    ⟨sampleObservation (toString n) "one" (some n) type [], sampleIds (toString n), 2 + n⟩

def sampleRace (types : List String) : Race where
  deliveries := sampleStream types
  error := none
  newId n := "session-" ++ toString n
  now := 10

/-- The store after the race. -/
def sampleEnd (types : List String) (k : ℕ) : Store :=
  ((sampleRace types).run dispatchingStore "first" "one" k).toOption.getD dispatchingStore

theorem dispatchingStore_dispatched (types : List String) :
    Dispatched dispatchingStore dispatchingRun "shop" "one"
      ((sampleStream types).map Delivery.observation) where
  reachable := (Machine.Reachable.of_init sampleStore_initial).of_exec
    (show system.exec sampleStore ((sampleDispatch "first" "one" 1).take 3) =
      some dispatchingStore from rfl)
  stored := by decide
  dispatching := rfl
  schedule := ⟨_, rfl, rfl⟩
  session := by decide
  node := by decide
  own := by
    intro o ho
    obtain ⟨d, hd, rfl⟩ := List.mem_map.mp ho
    obtain ⟨n, hn, rfl⟩ := List.mem_mapIdx.mp hd
    exact ⟨rfl, rfl⟩
  root := by
    intro o ho
    obtain ⟨d, hd, rfl⟩ := List.mem_map.mp (List.mem_of_mem_head? ho)
    obtain ⟨n, hn, rfl⟩ := List.mem_mapIdx.mp hd
    rfl

/-- The turn is completed, and the session waits: the run comes to the same status whether it is
completed before both events or after them. -/
theorem dispatch_race_iff_completedTurn :
    ((sampleEnd ["turn.completed", "session.waiting"] 0).statusesOf "first").map Prod.snd =
      ((sampleEnd ["turn.completed", "session.waiting"] 2).statusesOf "first").map Prod.snd ∧
    ((sampleEnd ["turn.completed", "session.waiting"] 0).getRun "first").map
        (fun row => row.status) =
      ((sampleEnd ["turn.completed", "session.waiting"] 2).getRun "first").map
        fun row => row.status := by
  refine (@dispatch_race_iff _ _ _ _ _ (fun _ => sampleRace ["turn.completed", "session.waiting"])
    _ (dispatchingStore_dispatched ["turn.completed", "session.waiting"]) ?_).mpr ?_ 0 (by decide) 2
      (by decide)
  · intro k hk
    refine ⟨rfl, ?_⟩
    change k ≤ 2 at hk
    obtain rfl | rfl | rfl : k = 0 ∨ k = 1 ∨ k = 2 := by omega
    all_goals rfl
  · intro k hk
    rw [Progress.readingsAgree_iff]
    change k ≤ 2 at hk
    obtain rfl | rfl | rfl : k = 0 ∨ k = 1 ∨ k = 2 := by omega
    all_goals decide

/-- The turn fails, and the session waits: a completion that comes first leaves the run failed,
one that comes last leaves it succeeded. -/
theorem failed_turn_succeeds :
    ¬∀ (s : Store) (run : ScheduleRun) (projectId eveSessionId : String)
      (stream : List AgentEventObservation) (races : ℕ → Race) (ends : ℕ → Store),
      Dispatched s run projectId eveSessionId stream →
      (∀ k ≤ stream.length, (races k).deliveries.map Delivery.observation = stream ∧
        (races k).run s run.id eveSessionId k = .ok (ends k)) →
      ∀ j ≤ stream.length, ∀ k ≤ stream.length,
        ((ends j).statusesOf run.id).map Prod.snd = ((ends k).statusesOf run.id).map Prod.snd ∧
          ((ends j).getRun run.id).map (fun row => row.status) =
            ((ends k).getRun run.id).map fun row => row.status := by
  intro hall
  have hsame := hall dispatchingStore dispatchingRun "shop" "one" _
    (fun _ => sampleRace ["turn.failed", "session.waiting"])
    (sampleEnd ["turn.failed", "session.waiting"])
    (dispatchingStore_dispatched ["turn.failed", "session.waiting"]) ?_ 0 (by decide) 2 (by decide)
  · revert hsame
    decide
  · intro k hk
    refine ⟨rfl, ?_⟩
    change k ≤ 2 at hk
    obtain rfl | rfl | rfl : k = 0 ∨ k = 1 ∨ k = 2 := by omega
    all_goals rfl

end Eveland.Telemetry
