/-
# Deliveries, one after another

What a list of observations of one Eve session comes to, ingested one at a time: the progress
observes each in turn, and the first event that ends a running execution of the session decides
how it ended.
-/

import Eveland.Foundations.Arrivals
import Eveland.Telemetry.Progress

namespace Eveland.Telemetry

variable {s t u : Store} {projectId eveSessionId : String}

/-! ## The account of a list of deliveries -/

/-- The log of the deliveries to a node. -/
def arrivalLog : Arrivals.Log Delivery Trace ℕ where
  trace := Delivery.trace
  rank := Trace.sourceSequence
  same first second := first.telemetryEventId = second.telemetryEventId ||
    first.eventFingerprint = second.eventFingerprint

namespace Progress

variable (p : Progress)

def observeAll (deliveries : List Delivery) : Progress := deliveries.foldl observe p

/-- The first end that is put to the execution of the session. -/
def firstEnding (p : Progress) : List Delivery → Option ExecutionStatus
  | [] => none
  | d :: rest => (p.ending d).or (firstEnding (p.observe d) rest)

theorem isRecorded_eq (d : Delivery) : p.isRecorded d = arrivalLog.isKept p.recorded d := rfl

theorem isNewest_eq (d : Delivery) : p.isNewest d = arrivalLog.isNewest p.recorded d := rfl

/-- What is recorded is what the log keeps. -/
theorem observe_recorded (d : Delivery) : (p.observe d).recorded = arrivalLog.keep p.recorded d := by
  rw [observe, Arrivals.Log.keep, ← isRecorded_eq]
  split
  · exact p.touch_recorded d
  · rw [record, touch_recorded]
    rfl

theorem firstEnding_append (first second : List Delivery) :
    p.firstEnding (first ++ second) =
      (p.firstEnding first).or ((p.observeAll first).firstEnding second) := by
  induction first generalizing p with
  | nil => rfl
  | cons d rest ih =>
      rw [List.cons_append, firstEnding, firstEnding, ih, Option.or_assoc]
      rfl

/-- An end is never that the execution is running. -/
theorem ending_ne_running (d : Delivery) : p.ending d ≠ some .running := by
  rw [ending]
  split
  · generalize scheduleExecutionStatusFromEveEvent _ _ _ = status
    cases status <;> simp [nonRunning]
  · simp

theorem firstEnding_ne_running (deliveries : List Delivery) :
    p.firstEnding deliveries ≠ some .running := by
  induction deliveries generalizing p with
  | nil => simp [firstEnding]
  | cons d rest ih =>
      rw [firstEnding]
      have hending := p.ending_ne_running d
      cases hfirst : p.ending d with
      | none => simpa using ih _
      | some status =>
          rw [hfirst] at hending
          simpa using hending

end Progress

/-! ## Executions and runs -/

theorem conclude_conclude {sessionId : String} {first second : Option ExecutionStatus}
    (hfirst : first ≠ some .running) (execution : String × ExecutionStatus) :
    conclude sessionId second (conclude sessionId first execution) =
      conclude sessionId (first.or second) execution := by
  cases first with
  | none => simp
  | some status =>
      have hne : status ≠ .running := fun hrunning => hfirst (congrArg some hrunning)
      rw [Option.some_or]
      by_cases hours : execution.1 = sessionId ∧ execution.2 = .running
      · rw [conclude, conclude, if_pos hours, if_neg (by simp [hne])]
      · rw [conclude, conclude, if_neg hours, if_neg hours]

theorem settled_of_ne_running (ending : Option ExecutionStatus)
    (executions : List (String × ExecutionStatus)) {status : ScheduleRunStatus}
    (hstatus : status ≠ .running) : settled ending executions status = status :=
  if_neg fun hover => hstatus hover.2.1

/-- Executions may be lost before or after events conclude them. -/
theorem filter_map_conclude (sessionId : String) (ending : Option ExecutionStatus)
    (lost : String → Bool) (executions : List (String × ExecutionStatus)) :
    (executions.map (conclude sessionId ending)).filter (fun execution => !lost execution.1) =
      (executions.filter fun execution => !lost execution.1).map (conclude sessionId ending) := by
  rw [List.filter_map]
  congr 2
  funext execution
  rw [Function.comp_apply, conclude_fst]

/-- A run that an event has settled is settled for good. -/
theorem settled_settled {executions : List (String × ExecutionStatus)}
    (first second : Option ExecutionStatus) {before : List (String × ExecutionStatus)}
    (hbefore : first.isSome = true → before = executions) (status : ScheduleRunStatus) :
    settled second executions (settled first before status) =
      settled (first.or second) executions status := by
  cases first with
  | none => simp
  | some ending =>
      rw [hbefore rfl, Option.some_or]
      by_cases hover : status = .running ∧ executions ≠ [] ∧
          ∀ execution ∈ executions, execution.2 ≠ .running
      · apply settled_of_ne_running
        rw [settled, if_pos ⟨rfl, hover⟩]
        split <;> simp
      · have hsame : settled (some ending) executions status = status :=
          if_neg fun hsettles => hover hsettles.2
        rw [hsame]
        exact if_neg fun hsettles => hover hsettles.2

/-- What several events do to the executions and the runs. A run is settled where none of its
executions is lost. -/
structure Concluded (sessionId : String) (ending : String → Option ExecutionStatus) (s t : Store) :
    Prop where
  statuses : ∃ lost : String → Bool, lost sessionId = false ∧
    ∀ scheduleRunId, t.statusesOf scheduleRunId =
      ((s.statusesOf scheduleRunId).map (conclude sessionId (ending scheduleRunId))).filter
        fun execution => !lost execution.1
  runs : ∀ scheduleRunId,
    (t.statusesOf scheduleRunId).length = (s.statusesOf scheduleRunId).length →
    (t.getRun scheduleRunId).map (fun run => run.status) =
      (s.getRun scheduleRunId).map fun run =>
        settled (ending scheduleRunId) (t.statusesOf scheduleRunId) run.status
  quiet : (∀ scheduleRunId, ending scheduleRunId = none) → t.runs = s.runs

namespace Concluded

variable {sessionId : String} {ending later : String → Option ExecutionStatus}

theorem refl (s : Store) : Concluded sessionId (fun _ => none) s s where
  statuses := ⟨fun _ => false, rfl, by simp⟩
  runs := by simp
  quiet _ := rfl

/-- No more executions are left than there were. -/
theorem length_le (hconcluded : Concluded sessionId ending s t) (scheduleRunId : String) :
    (t.statusesOf scheduleRunId).length ≤ (s.statusesOf scheduleRunId).length := by
  obtain ⟨lost, _, hstatuses⟩ := hconcluded.statuses
  rw [hstatuses]
  exact (List.length_filter_le _ _).trans_eq (List.length_map _)

/-- Where no execution is lost, each is as it was or concluded. -/
theorem statuses_of_length (hconcluded : Concluded sessionId ending s t) {scheduleRunId : String}
    (hlength : (t.statusesOf scheduleRunId).length = (s.statusesOf scheduleRunId).length) :
    t.statusesOf scheduleRunId =
      (s.statusesOf scheduleRunId).map (conclude sessionId (ending scheduleRunId)) := by
  obtain ⟨lost, _, hstatuses⟩ := hconcluded.statuses
  rw [hstatuses] at hlength ⊢
  have hall := hlength.trans (List.length_map (conclude sessionId (ending scheduleRunId))).symm
  exact List.filter_eq_self.mpr (List.length_filter_eq_length_iff.mp hall)

theorem trans (hfirst : Concluded sessionId ending s t) (hsecond : Concluded sessionId later t u)
    (hended : ∀ scheduleRunId, ending scheduleRunId ≠ some .running) :
    Concluded sessionId (fun scheduleRunId => (ending scheduleRunId).or (later scheduleRunId)) s u where
  statuses := by
    obtain ⟨lost, hspared, hstatuses⟩ := hfirst.statuses
    obtain ⟨lost', hspared', hstatuses'⟩ := hsecond.statuses
    refine ⟨fun id => lost id || lost' id, by simp [hspared, hspared'], ?_⟩
    intro scheduleRunId
    have hcomposed : conclude sessionId (later scheduleRunId) ∘
        conclude sessionId (ending scheduleRunId) =
          conclude sessionId ((ending scheduleRunId).or (later scheduleRunId)) :=
      funext fun execution => conclude_conclude (hended scheduleRunId) execution
    have hboth := filter_map_conclude sessionId (later scheduleRunId) (fun id => lost id || lost' id)
      ((s.statusesOf scheduleRunId).map (conclude sessionId (ending scheduleRunId)))
    rw [hstatuses', hstatuses, ← hcomposed, ← List.map_map, hboth, filter_map_conclude _ _ lost',
      List.filter_filter]
    congr 2
    funext execution
    rw [Bool.not_or, Bool.and_comm]
  runs := by
    intro scheduleRunId hlength
    have hle := hfirst.length_le scheduleRunId
    have hle' := hsecond.length_le scheduleRunId
    have hkept : (u.statusesOf scheduleRunId).length = (t.statusesOf scheduleRunId).length := by
      omega
    have hkept' : (t.statusesOf scheduleRunId).length = (s.statusesOf scheduleRunId).length := by
      omega
    rw [hsecond.runs scheduleRunId hkept]
    have hmapped := congrArg (Option.map fun status =>
      settled (later scheduleRunId) (u.statusesOf scheduleRunId) status)
      (hfirst.runs scheduleRunId hkept')
    rw [Option.map_map, Option.map_map] at hmapped
    refine hmapped.trans ?_
    congr 1
    funext run
    refine settled_settled _ _ ?_ run.status
    intro hsome
    rw [hsecond.statuses_of_length hkept, hfirst.statuses_of_length hkept', List.map_map]
    apply List.map_congr_left
    intro execution _
    rw [Function.comp_apply, conclude_conclude (hended scheduleRunId)]
    cases hending : ending scheduleRunId with
    | none => rw [hending] at hsome; cases hsome
    | some status => rfl
  quiet := by
    intro hnone
    refine (hsecond.quiet fun scheduleRunId => ?_).trans (hfirst.quiet fun scheduleRunId => ?_)
    · exact (Option.or_eq_none_iff.mp (hnone scheduleRunId)).2
    · exact (Option.or_eq_none_iff.mp (hnone scheduleRunId)).1

end Concluded

/-- What one event does. -/
theorem Concludes.concluded {sessionId : String} {ending : String → Option ExecutionStatus}
    {lost : String → Bool} (hconcludes : Concludes sessionId ending lost s t) :
    Concluded sessionId ending s t where
  statuses := ⟨lost, hconcludes.spared, hconcludes.statuses⟩
  runs := by
    intro scheduleRunId hlength
    rw [hconcludes.runs]
    have hstatuses := hconcludes.statuses scheduleRunId
    rw [hstatuses] at hlength
    have hall := hlength.trans (List.length_map (conclude sessionId (ending scheduleRunId))).symm
    rw [hstatuses, List.filter_eq_self.mpr (List.length_filter_eq_length_iff.mp hall)]
  quiet := hconcludes.quiet

theorem endingFor_ne_running {linked : Option String} {ending : Option ExecutionStatus}
    {scheduleRunId : String} (hending : ending ≠ some .running) :
    endingFor linked ending scheduleRunId ≠ some .running := by
  rw [endingFor]
  split
  · exact hending
  · simp

theorem endingFor_or (linked : Option String) (first second : Option ExecutionStatus) :
    (fun scheduleRunId =>
      (endingFor linked first scheduleRunId).or (endingFor linked second scheduleRunId)) =
      endingFor linked (first.or second) := by
  funext scheduleRunId
  rw [endingFor, endingFor, endingFor]
  split <;> rfl

/-! ## Ingesting a list of deliveries -/

/-- Deliveries are ingested one at a time, and each call ends. -/
def ingestAll : List Delivery → Store → Except String Store
  | [], s => .ok s
  | d :: rest, s => do
      let (s, _) ← ingestAgentEvent s d.observation d.ids d.now
      ingestAll rest s

theorem ingestAll_cons {d : Delivery} {rest : List Delivery} :
    ingestAll (d :: rest) s = .ok t ↔ ∃ u result,
      ingestAgentEvent s d.observation d.ids d.now = .ok (u, result) ∧ ingestAll rest u = .ok t := by
  rw [ingestAll, Outcome.bind_eq_ok]
  constructor
  · rintro ⟨⟨u, result⟩, hfirst, hrest⟩
    exact ⟨u, result, hfirst, hrest⟩
  · rintro ⟨u, result, hfirst, hrest⟩
    exact ⟨(u, result), hfirst, hrest⟩

theorem ingestAll_append {first second : List Delivery} :
    ingestAll (first ++ second) s = .ok t ↔
      ∃ u, ingestAll first s = .ok u ∧ ingestAll second u = .ok t := by
  induction first generalizing s with
  | nil => simp [ingestAll]
  | cons d rest ih =>
      rw [List.cons_append, ingestAll_cons]
      simp only [ih, ingestAll_cons]
      constructor
      · rintro ⟨v, result, hfirst, u, hrest, hsecond⟩
        exact ⟨u, ⟨v, result, hfirst, hrest⟩, hsecond⟩
      · rintro ⟨u, ⟨v, result, hfirst, hrest⟩, hsecond⟩
        exact ⟨v, result, hfirst, u, hrest, hsecond⟩

theorem ingestAll_keyed {deliveries : List Delivery} (hkeyed : Keyed s)
    (hingest : ingestAll deliveries s = .ok t) : Keyed t := by
  induction deliveries generalizing s with
  | nil => cases hingest; exact hkeyed
  | cons d rest ih =>
      obtain ⟨u, result, hfirst, hrest⟩ := ingestAll_cons.mp hingest
      exact ih ((ingestAgentEvent_writes hkeyed hfirst).keyed hkeyed) hrest

theorem ingestAll_surroundings {deliveries : List Delivery}
    (hingest : ingestAll deliveries s = .ok t) : SameSurroundings s t := by
  induction deliveries generalizing s with
  | nil => cases hingest; exact SameSurroundings.refl _
  | cons d rest ih =>
      obtain ⟨u, result, hfirst, hrest⟩ := ingestAll_cons.mp hingest
      exact (ingestAgentEvent_surroundings hfirst).trans (ih hrest)

theorem SameSurroundings.projectOf (hsame : SameSurroundings s t) (deploymentId : String) :
    t.projectOf deploymentId = s.projectOf deploymentId := by
  rw [Store.projectOf, Store.projectOf, hsame]

/-- Deliveries of one Eve session of a project. -/
def DeliveredTo (s : Store) (projectId eveSessionId : String) (deliveries : List Delivery) : Prop :=
  ∀ d ∈ deliveries, d.observation.eveSessionId = eveSessionId ∧
    s.projectOf d.observation.deploymentId = some projectId

/-- **A list of deliveries.** Where the store shows the Eve session, its progress observes each
delivery in turn, and the executions of its session are concluded by the first end. -/
theorem ingestAll_observes {deliveries : List Delivery} {place : Place} {progress : Progress}
    (hkeyed : Keyed s) (hdelivered : DeliveredTo s projectId eveSessionId deliveries)
    (hshows : Shows s projectId eveSessionId place progress)
    (hingest : ingestAll deliveries s = .ok t) :
    Shows t projectId eveSessionId place (progress.observeAll deliveries) ∧
      (∃ change, Reshapes place.sessionId change s t) ∧
      Concluded place.sessionId
        (endingFor place.scheduleRunId (progress.firstEnding deliveries)) s t ∧
      (s.Indexed place.nodeId → t.Indexed place.nodeId) := by
  induction deliveries generalizing s progress with
  | nil =>
      cases hingest
      have hnone : endingFor place.scheduleRunId (progress.firstEnding []) = fun _ => none := by
        funext scheduleRunId
        simp [endingFor, Progress.firstEnding]
      rw [hnone]
      exact ⟨hshows, ⟨id, Reshapes.refl _⟩, Concluded.refl _, fun hindexed => hindexed⟩
  | cons d rest ih =>
      obtain ⟨u, result, hfirst, hrest⟩ := ingestAll_cons.mp hingest
      obtain ⟨heve, hproject⟩ := hdelivered d List.mem_cons_self
      subst heve
      obtain ⟨hshows', ⟨change, hmoved⟩, ⟨lost, hconcludes⟩, hindexed⟩ :=
        ingestAgentEvent_observes hkeyed hproject hshows hfirst
      have hsame := ingestAgentEvent_surroundings hfirst
      have hdelivered' : DeliveredTo u projectId d.observation.eveSessionId rest := by
        intro other hother
        rw [hsame.projectOf]
        exact hdelivered other (List.mem_cons_of_mem _ hother)
      obtain ⟨hshows'', ⟨change', hmoved'⟩, hconcluded, hindexed'⟩ :=
        ih ((ingestAgentEvent_writes hkeyed hfirst).keyed hkeyed) hdelivered' hshows' hrest
      refine ⟨hshows'', ⟨_, hmoved.trans hmoved'⟩, ?_, fun hbefore => hindexed' (hindexed hbefore)⟩
      have hboth := hconcludes.concluded.trans hconcluded
        fun scheduleRunId => endingFor_ne_running (progress.ending_ne_running d)
      rw [endingFor_or] at hboth
      exact hboth

/-- Where no node is found, the first delivery opens a root, and the rest is observed there. -/
theorem ingestAll_opens {d : Delivery} {rest : List Delivery} (hkeyed : Keyed s)
    (hdelivered : DeliveredTo s projectId eveSessionId (d :: rest))
    (hnone : s.findNode projectId eveSessionId = none)
    (hparent : d.observation.parentEveSessionId = none)
    (hingest : ingestAll (d :: rest) s = .ok t) :
    ∃ place, Shows t projectId eveSessionId place
        ((s.openedProgress projectId d).observeAll (d :: rest)) ∧
      place.rootNodeId = some place.nodeId ∧
      (∀ old, s.findSession projectId eveSessionId = some old →
        place.sessionId = old.id ∧ place.scheduleRunId = old.scheduleRunId) ∧
      (s.findSession projectId eveSessionId = none → place.scheduleRunId = none) ∧
      (∃ row, t.findSession projectId eveSessionId = some row ∧ row.id = place.sessionId) ∧
      Concluded place.sessionId (endingFor place.scheduleRunId
        ((s.openedProgress projectId d).firstEnding (d :: rest))) s t ∧
      t.Indexed place.nodeId := by
  obtain ⟨u, result, hfirst, hrest⟩ := ingestAll_cons.mp hingest
  obtain ⟨heve, hproject⟩ := hdelivered d List.mem_cons_self
  subst heve
  obtain ⟨place, hshows, hrooted, hsome, hfresh, ⟨row, hrow, hid⟩, ⟨lost, hconcludes⟩, hindexed⟩ :=
    ingestAgentEvent_opens hkeyed hproject hnone hparent hfirst
  have hsame := ingestAgentEvent_surroundings hfirst
  have hdelivered' : DeliveredTo u projectId d.observation.eveSessionId rest := by
    intro other hother
    rw [hsame.projectOf]
    exact hdelivered other (List.mem_cons_of_mem _ hother)
  obtain ⟨hshows', ⟨change, hmoved⟩, hconcluded, hindexed'⟩ := ingestAll_observes
    ((ingestAgentEvent_writes hkeyed hfirst).keyed hkeyed) hdelivered' hshows hrest
  refine ⟨place, hshows', hrooted, hsome, hfresh, ?_, ?_, hindexed' hindexed⟩
  · obtain ⟨row', hrow', hkey, _⟩ := findSession_reshapes hmoved hrow hid
    exact ⟨row', hrow', (congrArg SessionKey.id hkey).trans hid⟩
  · have hboth := hconcludes.concluded.trans hconcluded
      fun scheduleRunId => endingFor_ne_running (Progress.ending_ne_running _ d)
    rw [endingFor_or] at hboth
    exact hboth

end Eveland.Telemetry
