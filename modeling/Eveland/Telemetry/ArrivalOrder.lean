/-
# Observations that arrive in any order

Delivery is at least once, and observations of one root may arrive in any order. An observation
moves the statuses only if it is the newest when it arrives; one that arrives late moves none.
So the statuses depend on the order of arrival through the observations that are the newest, and
the runtime that was last observed does not depend on it at all. The execution of a scheduled
session is ended by the first event to arrive that ends it, newest or late.
-/

import Eveland.Telemetry.Deliveries
import Eveland.Telemetry.System

namespace Eveland.Telemetry

variable {s t u : Store} {projectId eveSessionId : String}

/-! ## Statuses -/

/-- The status of a node, and the status and the completion of its session. -/
@[ext]
structure Statuses where
  status : SessionStatus
  sessionStatus : SessionStatus
  completedAt : Option ℤ
  deriving DecidableEq

/-- The statuses after the newest observation of a root. -/
def Statuses.move (statuses : Statuses) (d : Delivery) : Statuses :=
  match sessionStatusFromEveEvent d.reading.type statuses.status d.reading.payload with
  | none => statuses
  | some status => ⟨status, status, completionTime status d.now⟩

/-- An observation that moves any status to one status decides it. -/
theorem Statuses.move_of_always {status : SessionStatus} {d : Delivery}
    (halways : ∀ current,
      sessionStatusFromEveEvent d.reading.type current d.reading.payload = some status)
    (statuses : Statuses) : statuses.move d = ⟨status, status, completionTime status d.now⟩ := by
  rw [move, halways]

namespace Progress

variable (p : Progress)

def statuses : Statuses := ⟨p.status, p.sessionStatus, p.completedAt⟩

/-- The deliveries that are new, and the newest when they arrive. -/
def movers (deliveries : List Delivery) : List Delivery := arrivalLog.movers p.recorded deliveries

variable {p} {d : Delivery}

theorem observe_isRoot (hroot : p.isRoot = true) (hself : d.announcesItself = false) :
    (p.observe d).isRoot = true := by
  rw [observe]
  split
  · rw [touch_isRoot, hroot]
  · rw [record, touch_isRoot, hroot, hself]
    rfl

/-- A delivery to a root moves its statuses if it is new and the newest. -/
theorem observe_statuses (hroot : p.isRoot = true) :
    (p.observe d).statuses =
      if !p.isRecorded d && p.isNewest d then p.statuses.move d else p.statuses := by
  rw [observe]
  by_cases hrecorded : p.isRecorded d = true
  · rw [if_pos hrecorded, hrecorded, Bool.not_true, Bool.false_and, if_neg (by simp)]
    simp [statuses]
  · rw [if_neg hrecorded, Bool.eq_false_of_not_eq_true hrecorded, Bool.not_false, Bool.true_and,
      statuses, record, touch_projected, touch_isRoot, touch_status, touch_sessionStatus,
      touch_completedAt, hroot, projected, projectedStatus]
    by_cases hnewest : p.isNewest d = true
    · rw [if_pos hnewest, if_pos hnewest, Statuses.move, statuses]
      cases sessionStatusFromEveEvent d.reading.type p.status d.reading.payload <;> rfl
    · rw [if_neg hnewest, if_neg hnewest]
      rfl

/-- A late delivery is recorded and changes nothing else. -/
theorem observe_late (hself : d.announcesItself = false) (hlate : p.isNewest d = false) :
    p.observe d = { p with recorded := (p.observe d).recorded } := by
  have htouch : p.touch d = p := by
    rw [touch, hlate]
    rfl
  rw [observe, htouch]
  split
  · rfl
  · rw [record, projected, hlate, projectedStatus, if_neg (by simp), hself]
    simp

/-- The statuses of a root are moved by the deliveries that are new and the newest, in the order
in which they arrive. -/
theorem observeAll_statuses {deliveries : List Delivery} (hroot : p.isRoot = true)
    (hself : ∀ d ∈ deliveries, d.announcesItself = false) :
    (p.observeAll deliveries).statuses =
      (p.movers deliveries).foldl Statuses.move p.statuses := by
  induction deliveries generalizing p with
  | nil => rfl
  | cons d rest ih =>
      have hrest := ih (p := p.observe d) (observe_isRoot hroot (hself d List.mem_cons_self))
        fun other hother => hself other (List.mem_cons_of_mem _ hother)
      rw [observeAll, List.foldl_cons]
      refine hrest.trans ?_
      rw [observe_statuses hroot, movers, movers, observe_recorded, Arrivals.Log.movers,
        ← isRecorded_eq, ← isNewest_eq]
      split
      · rw [List.foldl_cons]
      · rfl

/-- The runtime that was last observed: that of the deliveries, if any of them is as new as what
was recorded before all of them. -/
theorem observeAll_lastObserved {deliveries : List Delivery} {deploymentId : String}
    {runtimeInstanceId : Option String}
    (hruntime : ∀ d ∈ deliveries, d.observation.deploymentId = deploymentId ∧
      d.observation.runtimeInstanceId = runtimeInstanceId) :
    ((p.observeAll deliveries).lastObservedDeploymentId,
        (p.observeAll deliveries).lastObservedRuntimeInstanceId) =
      if deliveries.any p.isNewest then
        (deploymentId, runtimeInstanceId.or p.lastObservedRuntimeInstanceId)
      else (p.lastObservedDeploymentId, p.lastObservedRuntimeInstanceId) := by
  induction deliveries generalizing p with
  | nil => rfl
  | cons d rest ih =>
      obtain ⟨hdeployment, hinstance⟩ := hruntime d List.mem_cons_self
      have hrest := ih (p := p.observe d)
        fun other hother => hruntime other (List.mem_cons_of_mem _ hother)
      have htouched : ((p.observe d).lastObservedDeploymentId,
          (p.observe d).lastObservedRuntimeInstanceId) =
            if p.isNewest d then (deploymentId, runtimeInstanceId.or p.lastObservedRuntimeInstanceId)
            else (p.lastObservedDeploymentId, p.lastObservedRuntimeInstanceId) := by
        have hsame : ((p.observe d).lastObservedDeploymentId,
            (p.observe d).lastObservedRuntimeInstanceId) =
              ((p.touch d).lastObservedDeploymentId, (p.touch d).lastObservedRuntimeInstanceId) := by
          rw [observe]
          split <;> rfl
        rw [hsame, touch]
        split <;> simp [hdeployment, hinstance]
      rw [observeAll, List.foldl_cons]
      refine hrest.trans ?_
      rw [List.any_cons]
      by_cases hnewest : p.isNewest d = true
      · rw [if_pos hnewest] at htouched
        obtain ⟨hdeployment', hinstance'⟩ := Prod.mk.inj htouched
        rw [hdeployment', hinstance', hnewest, Bool.true_or, if_pos rfl]
        split
        · cases runtimeInstanceId <;> rfl
        · rfl
      · -- A late delivery leaves open which of the others are the newest.
        rw [if_neg hnewest] at htouched
        obtain ⟨hdeployment', hinstance'⟩ := Prod.mk.inj htouched
        have hsame : (p.observe d).isNewest = p.isNewest := by
          funext other
          rw [isNewest_eq, observe_recorded]
          exact Arrivals.Log.isNewest_keep (Bool.eq_false_of_not_eq_true hnewest)
        rw [hdeployment', hinstance', hsame, Bool.eq_false_of_not_eq_true hnewest, Bool.false_or]

end Progress

/-! ## A batch of observations of one root -/

/-- Observations of one root, from one runtime, that are told apart by their sequences. None of
them announces the root as a child of itself. -/
structure Batch (s : Store) (projectId eveSessionId deploymentId : String)
    (runtimeInstanceId : Option String) (observations : List AgentEventObservation) : Prop where
  managed : s.projectOf deploymentId = some projectId
  own : ∀ o ∈ observations, o.eveSessionId = eveSessionId
  runtime : ∀ o ∈ observations, o.deploymentId = deploymentId ∧
    o.runtimeInstanceId = runtimeInstanceId
  ranked : ∀ o ∈ observations, o.sourceSequence.isSome = true
  ordered : observations.Pairwise fun first second => first.sourceSequence ≠ second.sourceSequence
  root : ∀ node, s.findNode projectId eveSessionId = some node → node.parentNodeId = none
  opening : s.findNode projectId eveSessionId = none →
    ∀ o ∈ observations, o.parentEveSessionId = none
  separate : ∀ o ∈ observations, announcedChild (readEvent o.event) ≠ some eveSessionId

namespace Batch

variable {deploymentId : String} {runtimeInstanceId : Option String}
  {observations others : List AgentEventObservation}

theorem perm (hbatch : Batch s projectId eveSessionId deploymentId runtimeInstanceId observations)
    (hperm : observations.Perm others) :
    Batch s projectId eveSessionId deploymentId runtimeInstanceId others where
  managed := hbatch.managed
  own o ho := hbatch.own o (hperm.mem_iff.mpr ho)
  runtime o ho := hbatch.runtime o (hperm.mem_iff.mpr ho)
  ranked o ho := hbatch.ranked o (hperm.mem_iff.mpr ho)
  ordered := (hperm.pairwise_iff fun hne => Ne.symm hne).mp hbatch.ordered
  root := hbatch.root
  opening hnone o ho := hbatch.opening hnone o (hperm.mem_iff.mpr ho)
  separate o ho := hbatch.separate o (hperm.mem_iff.mpr ho)

variable {deliveries : List Delivery}

theorem deliveredTo (hbatch : Batch s projectId eveSessionId deploymentId runtimeInstanceId
    (deliveries.map Delivery.observation)) : DeliveredTo s projectId eveSessionId deliveries := by
  intro d hd
  have hmem := List.mem_map_of_mem (f := Delivery.observation) hd
  rw [(hbatch.runtime _ hmem).1]
  exact ⟨hbatch.own _ hmem, hbatch.managed⟩

theorem announcesItself (hbatch : Batch s projectId eveSessionId deploymentId runtimeInstanceId
    (deliveries.map Delivery.observation)) {d : Delivery} (hd : d ∈ deliveries) :
    d.announcesItself = false := by
  have hmem := List.mem_map_of_mem (f := Delivery.observation) hd
  rw [Delivery.announcesItself, decide_eq_false_iff_not, hbatch.own _ hmem]
  exact hbatch.separate _ hmem

end Batch

/-- The progress from which a batch moves a root: what the store shows, or that of a root opened
from this runtime. -/
def Store.startingProgress (s : Store) (projectId eveSessionId deploymentId : String)
    (runtimeInstanceId : Option String) : Progress :=
  match s.findNode projectId eveSessionId with
  | some node =>
      { status := node.status
        lastObservedDeploymentId := node.lastObservedDeploymentId
        lastObservedRuntimeInstanceId := node.lastObservedRuntimeInstanceId
        isRoot := node.parentNodeId.isNone
        sessionStatus := (s.getSession node.rootSessionId).elim .running fun row => row.status
        completedAt := (s.getSession node.rootSessionId).bind fun row => row.completedAt
        recorded := (s.recordedBy node.id).map fun event => event.trace }
  | none =>
      { status := .running
        lastObservedDeploymentId := deploymentId
        lastObservedRuntimeInstanceId := runtimeInstanceId
        isRoot := true
        sessionStatus :=
          (s.findSession projectId eveSessionId).elim .running fun row => row.status
        completedAt := (s.findSession projectId eveSessionId).bind fun row => row.completedAt
        recorded := [] }

/-- Where the store keeps the session of a root, and the run it is linked to: those of its node,
or of the session that waits for the node. -/
def Store.linkOf (s : Store) (projectId eveSessionId : String) : Option (String × String) :=
  let row := match s.findNode projectId eveSessionId with
    | some node => s.getSession node.rootSessionId
    | none => s.findSession projectId eveSessionId
  row.bind fun row => row.scheduleRunId.map fun scheduleRunId => (row.id, scheduleRunId)

/-- The run a place is linked to. -/
def Place.link (place : Place) : Option (String × String) :=
  place.scheduleRunId.map fun scheduleRunId => (place.sessionId, scheduleRunId)

/-- A batch moves the progress it starts from. -/
theorem ingestAll_starts {deploymentId : String} {runtimeInstanceId : Option String}
    {deliveries : List Delivery} (hkeyed : Keyed s)
    (hbatch : Batch s projectId eveSessionId deploymentId runtimeInstanceId
      (deliveries.map Delivery.observation)) (hsome : deliveries ≠ [])
    (hingest : ingestAll deliveries s = .ok t) :
    ∃ place, Shows t projectId eveSessionId place
        ((s.startingProgress projectId eveSessionId deploymentId runtimeInstanceId).observeAll
          deliveries) ∧
      place.link = s.linkOf projectId eveSessionId ∧
      Concluded place.sessionId (endingFor place.scheduleRunId
        ((s.startingProgress projectId eveSessionId deploymentId runtimeInstanceId).firstEnding
          deliveries)) s t := by
  cases hnode : s.findNode projectId eveSessionId with
  | some node =>
      obtain ⟨row, hrow⟩ := Option.isSome_iff_exists.mp
        (Store.getSession_isSome.mpr (hkeyed.nodesHeld node (Store.mem_of_findNode hnode).1))
      have hshows : Shows s projectId eveSessionId
          ⟨node.id, row.id, row.scheduleRunId, row.rootNodeId⟩
          (s.startingProgress projectId eveSessionId deploymentId runtimeInstanceId) := by
        refine ⟨node, row, hnode, hrow, rfl, ?_⟩
        rw [Store.startingProgress, hnode]
        simp only [hrow]
        rfl
      obtain ⟨hafter, _, hconcluded, _⟩ :=
        ingestAll_observes hkeyed hbatch.deliveredTo hshows hingest
      refine ⟨_, hafter, ?_, hconcluded⟩
      rw [Store.linkOf, hnode]
      simp only [hrow]
      rfl
  | none =>
      obtain ⟨d, rest, rfl⟩ := List.exists_cons_of_ne_nil hsome
      have hmem : d.observation ∈ (d :: rest).map Delivery.observation := List.mem_cons_self
      have hopened : s.openedProgress projectId d =
          s.startingProgress projectId eveSessionId deploymentId runtimeInstanceId := by
        rw [Store.openedProgress, Store.startingProgress, hnode, hbatch.own _ hmem,
          (hbatch.runtime _ hmem).1, (hbatch.runtime _ hmem).2]
      obtain ⟨place, hafter, _, hfound, hfresh, _, hconcluded, _⟩ := ingestAll_opens hkeyed
        hbatch.deliveredTo hnode (hbatch.opening hnode _ hmem) hingest
      rw [hopened] at hafter hconcluded
      refine ⟨place, hafter, ?_, hconcluded⟩
      rw [Store.linkOf, hnode, Place.link]
      cases hsession : s.findSession projectId eveSessionId with
      | none =>
          rw [hfresh hsession]
          rfl
      | some old =>
          obtain ⟨hid, hlink⟩ := hfound old hsession
          rw [hid, hlink]
          rfl

/-- The observation of a batch with the highest sequence, of which nothing is recorded yet and
nothing arrives under the same identity. -/
structure IsHighest (recorded : List Trace) (observations : List AgentEventObservation)
    (o : AgentEventObservation) : Prop where
  mem : o ∈ observations
  newest : ∀ row ∈ recorded, ∀ other ∈ row.sourceSequence, ∃ sequence ∈ o.sourceSequence,
    other ≤ sequence
  new : ∀ row ∈ recorded, row.telemetryEventId ≠ some o.telemetryEventId ∧
    row.eventFingerprint ≠ some o.eventFingerprint
  above : ∀ other ∈ observations, other.sourceSequence ≠ o.sourceSequence →
    (∃ below ∈ other.sourceSequence, ∃ sequence ∈ o.sourceSequence, below < sequence) ∧
      other.telemetryEventId ≠ o.telemetryEventId ∧ other.eventFingerprint ≠ o.eventFingerprint

theorem IsHighest.perm {recorded : List Trace} {observations others : List AgentEventObservation}
    {o : AgentEventObservation} (hhighest : IsHighest recorded observations o)
    (hperm : observations.Perm others) : IsHighest recorded others o where
  mem := hperm.mem_iff.mp hhighest.mem
  newest := hhighest.newest
  new := hhighest.new
  above other hother := hhighest.above other (hperm.mem_iff.mpr hother)

/-- Whenever it arrives, the highest observation is the last that moves the root. -/
theorem movers_of_isHighest {p : Progress} {deliveries : List Delivery} {o : AgentEventObservation}
    (hordered : (deliveries.map Delivery.observation).Pairwise
      fun first second => first.sourceSequence ≠ second.sourceSequence)
    (hranked : o.sourceSequence.isSome = true)
    (hhighest : IsHighest p.recorded (deliveries.map Delivery.observation) o) :
    ∃ before d, d.observation = o ∧ p.movers deliveries = before ++ [d] := by
  obtain ⟨d, hd, rfl⟩ := List.mem_map.mp hhighest.mem
  obtain ⟨before, after, rfl⟩ := List.append_of_mem hd
  obtain ⟨rank, hrank⟩ := Option.isSome_iff_exists.mp hranked
  -- The others have other sequences.
  have hothers : ∀ other ∈ before ++ after, other.observation.sourceSequence ≠
      d.observation.sourceSequence := by
    rw [List.map_append, List.map_cons, List.pairwise_append] at hordered
    obtain ⟨_, hafter, hbefore⟩ := hordered
    intro other hother
    rcases List.mem_append.mp hother with hother | hother
    · exact hbefore _ (List.mem_map_of_mem hother) _ List.mem_cons_self
    · exact Ne.symm ((List.pairwise_cons.mp hafter).1 _ (List.mem_map_of_mem hother))
  have habove : ∀ other ∈ before ++ after, (∃ below ∈ other.observation.sourceSequence,
      ∃ sequence ∈ d.observation.sourceSequence, below < sequence) ∧
        other.observation.telemetryEventId ≠ d.observation.telemetryEventId ∧
        other.observation.eventFingerprint ≠ d.observation.eventFingerprint := by
    intro other hother
    apply hhighest.above _ _ (hothers other hother)
    apply List.mem_map_of_mem
    rcases List.mem_append.mp hother with hother | hother
    · exact List.mem_append_left _ hother
    · exact List.mem_append_right _ (List.mem_cons_of_mem _ hother)
  refine ⟨p.movers before, d, rfl, ?_⟩
  apply Arrivals.Log.movers_of_highest hrank
  · intro row hrow
    rw [Option.all_eq_true]
    intro other hother
    obtain ⟨sequence, hsequence, hle⟩ := hhighest.newest row hrow other hother
    rw [hrank] at hsequence
    cases hsequence
    exact decide_eq_true hle
  · intro other hother
    obtain ⟨⟨below, hbelow, sequence, hsequence, hlt⟩, _⟩ := habove other hother
    rw [hrank] at hsequence
    cases hsequence
    exact ⟨below, hbelow, hlt⟩
  · intro row hrow
    obtain ⟨hid, hfingerprint⟩ := hhighest.new row hrow
    simp [arrivalLog, Delivery.trace, hid, hfingerprint]
  · intro other hother
    obtain ⟨_, hid, hfingerprint⟩ := habove other (List.mem_append_left _ hother)
    simp [arrivalLog, Delivery.trace, hid, hfingerprint]

/-! ## One order, and another -/

/-- What a batch comes to in one order of arrival. -/
structure Arrives (s t : Store) (projectId eveSessionId : String) (start : Progress)
    (deliveries : List Delivery) (place : Place) : Prop where
  shown : Shows t projectId eveSessionId place (start.observeAll deliveries)
  /-- The statuses are moved by the observations that are the newest when they arrive. -/
  statuses : (start.observeAll deliveries).statuses =
    (start.movers deliveries).foldl Statuses.move start.statuses
  /-- An observation that arrives late changes neither statuses nor the runtime last observed. -/
  late : ∀ before d after u v result place' progress, deliveries = before ++ d :: after →
    ingestAll before s = .ok u →
    ingestAgentEvent u d.observation d.ids d.now = .ok (v, result) →
    Shows u projectId eveSessionId place' progress → progress.isNewest d = false →
    Shows v projectId eveSessionId place'
      { progress with recorded := (progress.observe d).recorded }
  /-- The first event that ends the execution decides how it ended, and settles the run. -/
  concluded : Concluded place.sessionId
    (endingFor place.scheduleRunId (start.firstEnding deliveries)) s t

/-- What a batch comes to alike in two orders of arrival. -/
structure SameArrival (s t t' : Store) (start : Progress) (first second : List Delivery) :
    Prop where
  runtime : (start.observeAll second).lastObservedDeploymentId =
      (start.observeAll first).lastObservedDeploymentId ∧
    (start.observeAll second).lastObservedRuntimeInstanceId =
      (start.observeAll first).lastObservedRuntimeInstanceId
  /-- The same observations were the newest when they arrived. -/
  moved : (start.movers second).map Delivery.observation =
      (start.movers first).map Delivery.observation →
    (start.observeAll second).status = (start.observeAll first).status ∧
      (start.observeAll second).sessionStatus = (start.observeAll first).sessionStatus
  /-- The highest observation moves any status to the same one. -/
  highest : ∀ o status, IsHighest start.recorded (first.map Delivery.observation) o →
    (∀ current, sessionStatusFromEveEvent (readEvent o.event).type current
      (readEvent o.event).payload = some status) →
    ((start.observeAll first).status = status ∧ (start.observeAll first).sessionStatus = status) ∧
      ((start.observeAll second).status = status ∧
        (start.observeAll second).sessionStatus = status)
  /-- The same end came first. -/
  ended : start.firstEnding second = start.firstEnding first → ∀ scheduleRunId,
    (t.statusesOf scheduleRunId).length = (s.statusesOf scheduleRunId).length →
    (t'.statusesOf scheduleRunId).length = (s.statusesOf scheduleRunId).length →
    t'.statusesOf scheduleRunId = t.statusesOf scheduleRunId ∧
      (t'.getRun scheduleRunId).map (fun run => run.status) =
        (t.getRun scheduleRunId).map fun run => run.status

theorem Batch.arrives {deploymentId : String} {runtimeInstanceId : Option String}
    {deliveries : List Delivery} (hkeyed : Keyed s)
    (hbatch : Batch s projectId eveSessionId deploymentId runtimeInstanceId
      (deliveries.map Delivery.observation)) (hsome : deliveries ≠ [])
    (hingest : ingestAll deliveries s = .ok t) :
    ∃ place, Arrives s t projectId eveSessionId
        (s.startingProgress projectId eveSessionId deploymentId runtimeInstanceId) deliveries
        place ∧ place.link = s.linkOf projectId eveSessionId := by
  obtain ⟨place, hshown, hlink, hconcluded⟩ := ingestAll_starts hkeyed hbatch hsome hingest
  refine ⟨place, ⟨hshown, ?_, ?_, hconcluded⟩, hlink⟩
  · apply Progress.observeAll_statuses
    · rw [Store.startingProgress]
      split
      · next node hnode =>
          rw [hbatch.root node hnode]
          rfl
      · rfl
    · exact fun d hd => hbatch.announcesItself hd
  · intro before d after u v result place' progress hsplit hbefore hfirst hshows hlate
    have hd : d ∈ deliveries := by
      rw [hsplit]
      exact List.mem_append_right _ List.mem_cons_self
    obtain ⟨heve, hproject⟩ := hbatch.deliveredTo d hd
    subst heve
    rw [← (ingestAll_surroundings hbefore).projectOf] at hproject
    have hafter := (ingestAgentEvent_observes (ingestAll_keyed hkeyed hbefore) hproject hshows
      hfirst).1
    rw [Progress.observe_late (hbatch.announcesItself hd) hlate] at hafter
    exact hafter

/-- The statuses are moved by the observations; when they are ingested shows in the completion
only. -/
theorem foldl_move_congr {first second : List Delivery}
    (hsame : first.map Delivery.observation = second.map Delivery.observation)
    {statuses others : Statuses} (hstatus : statuses.status = others.status)
    (hsessionStatus : statuses.sessionStatus = others.sessionStatus) :
    (first.foldl Statuses.move statuses).status = (second.foldl Statuses.move others).status ∧
      (first.foldl Statuses.move statuses).sessionStatus =
        (second.foldl Statuses.move others).sessionStatus := by
  induction first generalizing second statuses others with
  | nil =>
      rw [List.map_nil, eq_comm, List.map_eq_nil_iff] at hsame
      rw [hsame]
      exact ⟨hstatus, hsessionStatus⟩
  | cons d rest ih =>
      obtain ⟨d', rest', rfl, hd, hrest⟩ := List.map_eq_cons_iff.mp hsame.symm
      have hreading : d'.reading = d.reading := congrArg (fun o : AgentEventObservation => readEvent o.event) hd
      rw [List.foldl_cons, List.foldl_cons]
      apply ih hrest.symm
      all_goals
        rw [Statuses.move, Statuses.move, hreading, hstatus]
        split
        · assumption
        · rfl

theorem Batch.sameArrival {deploymentId : String} {runtimeInstanceId : Option String}
    {first second : List Delivery} {t' : Store} {place place' : Place} {start : Progress}
    (hbatch : Batch s projectId eveSessionId deploymentId runtimeInstanceId
      (first.map Delivery.observation))
    (hperm : (first.map Delivery.observation).Perm (second.map Delivery.observation))
    (hfirst : Arrives s t projectId eveSessionId start first place)
    (hsecond : Arrives s t' projectId eveSessionId start second place')
    (hlink : place'.link = place.link) : SameArrival s t t' start first second where
  runtime := by
    have hruntime : ∀ deliveries : List Delivery, Batch s projectId eveSessionId deploymentId
        runtimeInstanceId (deliveries.map Delivery.observation) →
        ∀ d ∈ deliveries, d.observation.deploymentId = deploymentId ∧
          d.observation.runtimeInstanceId = runtimeInstanceId :=
      fun deliveries hbatch d hd => hbatch.runtime _ (List.mem_map_of_mem hd)
    have hlast := Progress.observeAll_lastObserved (p := start) (hruntime first hbatch)
    have hlast' := Progress.observeAll_lastObserved (p := start)
      (hruntime second (hbatch.perm hperm))
    -- Whether one of them is the newest is a matter of the observations, in any order.
    have hany : ∀ deliveries : List Delivery, deliveries.any start.isNewest =
        (deliveries.map Delivery.observation).any fun o =>
          o.sourceSequence.all fun sequence =>
            start.recorded.all fun row => row.sourceSequence.all fun other => other ≤ sequence := by
      intro deliveries
      rw [List.any_map]
      rfl
    rw [hany, hperm.any_eq, ← hany, ← hlast'] at hlast
    exact ⟨(congrArg Prod.fst hlast).symm, (congrArg Prod.snd hlast).symm⟩
  moved := by
    intro hsame
    have hstatuses := hfirst.statuses
    have hstatuses' := hsecond.statuses
    obtain ⟨hstatus, hsessionStatus⟩ := foldl_move_congr hsame
      (Eq.refl start.statuses.status) (Eq.refl start.statuses.sessionStatus)
    rw [← hstatuses, ← hstatuses'] at hstatus hsessionStatus
    exact ⟨hstatus, hsessionStatus⟩
  highest := by
    intro o status hhighest halways
    have hmoved : ∀ {deliveries : List Delivery} {t place},
        Arrives s t projectId eveSessionId start deliveries place →
        Batch s projectId eveSessionId deploymentId runtimeInstanceId
          (deliveries.map Delivery.observation) →
        IsHighest start.recorded (deliveries.map Delivery.observation) o →
        (start.observeAll deliveries).status = status ∧
          (start.observeAll deliveries).sessionStatus = status := by
      intro deliveries t place harrives hbatch hhighest
      obtain ⟨before, d, rfl, hmovers⟩ :=
        movers_of_isHighest hbatch.ordered (hbatch.ranked _ hhighest.mem) hhighest
      have hstatuses := harrives.statuses
      rw [hmovers, List.foldl_append, List.foldl_cons, List.foldl_nil,
        Statuses.move_of_always halways] at hstatuses
      exact ⟨congrArg Statuses.status hstatuses, congrArg Statuses.sessionStatus hstatuses⟩
    exact ⟨hmoved hfirst hbatch hhighest,
      hmoved hsecond (hbatch.perm hperm) (hhighest.perm hperm)⟩
  ended := by
    intro hended scheduleRunId hkept hkept'
    have hstatuses := hfirst.concluded.statuses_of_length hkept
    have hstatuses' := hsecond.concluded.statuses_of_length hkept'
    have hruns := hfirst.concluded.runs scheduleRunId hkept
    have hruns' := hsecond.concluded.runs scheduleRunId hkept'
    rw [hended] at hstatuses' hruns'
    -- Both orders keep the session at the same place, or link it to no run.
    cases hscheduled : place.scheduleRunId with
    | none =>
        have hscheduled' : place'.scheduleRunId = none := by
          rw [Place.link, Place.link, hscheduled] at hlink
          simpa using hlink
        rw [hscheduled, endingFor, if_neg (by simp), conclude_none, List.map_id] at hstatuses
        rw [hscheduled', endingFor, if_neg (by simp), conclude_none, List.map_id] at hstatuses'
        rw [hscheduled, endingFor, if_neg (by simp)] at hruns
        rw [hscheduled', endingFor, if_neg (by simp)] at hruns'
        refine ⟨hstatuses'.trans hstatuses.symm, hruns'.trans ?_⟩
        rw [hruns]
        simp only [settled_none]
    | some linked =>
        rw [Place.link, Place.link, hscheduled, Option.map_some, Option.map_eq_some_iff] at hlink
        obtain ⟨linked', hscheduled', hsame⟩ := hlink
        obtain ⟨hid, rfl⟩ := Prod.mk.inj hsame
        rw [hid, hscheduled', ← hscheduled, ← hstatuses] at hstatuses'
        rw [hscheduled', ← hscheduled, hstatuses'] at hruns'
        exact ⟨hstatuses', hruns'.trans hruns.symm⟩

/-- **The order of arrival.** A batch of observations of a root, in any order: the statuses are
moved by the observations that are the newest when they arrive, a late one changes nothing but
the record, and the first event to arrive that ends the execution decides how it ended. In every
other order the runtime last observed is the same; so are the statuses, where the same
observations are the newest when they arrive or the highest one decides them; and so are the
execution and its run, where the same end comes first. -/
theorem projection_of_arrivals {deploymentId : String} {runtimeInstanceId : Option String}
    {first : List Delivery} (hreachable : system.Reachable s)
    (hbatch : Batch s projectId eveSessionId deploymentId runtimeInstanceId
      (first.map Delivery.observation)) (hsome : first ≠ [])
    (hfirst : ingestAll first s = .ok t) :
    ∃ place, Arrives s t projectId eveSessionId
        (s.startingProgress projectId eveSessionId deploymentId runtimeInstanceId) first place ∧
      ∀ second t', (first.map Delivery.observation).Perm (second.map Delivery.observation) →
        ingestAll second s = .ok t' →
        (∃ place', Arrives s t' projectId eveSessionId
          (s.startingProgress projectId eveSessionId deploymentId runtimeInstanceId) second
          place') ∧
        SameArrival s t t'
          (s.startingProgress projectId eveSessionId deploymentId runtimeInstanceId) first
          second := by
  have hkeyed := reachable_keyed hreachable
  obtain ⟨place, harrives, hlink⟩ := hbatch.arrives hkeyed hsome hfirst
  refine ⟨place, harrives, ?_⟩
  intro second t' hperm hsecond
  have hsome' : second ≠ [] := by
    rintro rfl
    rw [List.map_nil] at hperm
    exact hsome (List.map_eq_nil_iff.mp hperm.eq_nil)
  obtain ⟨place', harrives', hlink'⟩ := (hbatch.perm hperm).arrives hkeyed hsome' hsecond
  exact ⟨⟨place', harrives'⟩,
    hbatch.sameArrival hperm harrives harrives' (hlink'.trans hlink.symm)⟩

/-- The end of a session, and a step of it that is reported with a later sequence. -/
def sampleBatch (completion step : ℤ) : List Delivery :=
  [⟨sampleObservation "1" "one" (some 1) "session.completed" [], sampleIds "1", completion⟩,
    ⟨sampleObservation "2" "one" (some 2) "step.completed" [], sampleIds "2", step⟩]

theorem sampleBatch_batch (completion step : ℤ) :
    Batch sampleStore "shop" "one" "deployment" (some "instance")
      ((sampleBatch completion step).map Delivery.observation) where
  managed := by decide
  own := by simp [sampleBatch, sampleObservation]
  runtime := by simp [sampleBatch, sampleObservation]
  ranked := by simp [sampleBatch, sampleObservation]
  ordered := by simp [sampleBatch, sampleObservation]
  root := by simp [Store.findNode, sampleStore]
  opening := by simp [sampleBatch, sampleObservation]
  separate := by
    intro o ho
    simp only [sampleBatch, List.map_cons, List.map_nil, List.mem_cons, List.not_mem_nil,
      or_false] at ho
    rcases ho with rfl | rfl <;> decide

/-- The end of the session arrives first: the store shows a session that is completed. -/
theorem projection_of_arrivals_inOrder :
    ∃ t place, ingestAll (sampleBatch 1 2) sampleStore = .ok t ∧
      Arrives sampleStore t "shop" "one"
        (sampleStore.startingProgress "shop" "one" "deployment" (some "instance"))
        (sampleBatch 1 2) place := by
  have hreachable : system.Reachable sampleStore :=
    Machine.Reachable.of_init sampleStore_initial
  obtain ⟨t, hingest⟩ : ∃ t, ingestAll (sampleBatch 1 2) sampleStore = .ok t := ⟨_, rfl⟩
  obtain ⟨place, harrives, _⟩ := projection_of_arrivals hreachable (sampleBatch_batch 1 2)
    (by simp [sampleBatch]) hingest
  exact ⟨t, place, hingest, harrives⟩

/-- The step arrives first: the end of the session is late, and the node runs on. -/
theorem late_completion_not_projected :
    ¬∀ (s t t' : Store) (projectId eveSessionId deploymentId : String)
      (runtimeInstanceId : Option String) (first second : List Delivery),
      system.Reachable s →
      Batch s projectId eveSessionId deploymentId runtimeInstanceId
        (first.map Delivery.observation) →
      (first.map Delivery.observation).Perm (second.map Delivery.observation) →
      ingestAll first s = .ok t → ingestAll second s = .ok t' →
      (t.findNode projectId eveSessionId).map (fun node => node.status) =
        (t'.findNode projectId eveSessionId).map fun node => node.status := by
  intro hall
  have hsame := hall sampleStore _ _ "shop" "one" "deployment" (some "instance")
    (sampleBatch 1 2) (sampleBatch 1 2).reverse
    (Machine.Reachable.of_init sampleStore_initial) (sampleBatch_batch 1 2)
    ((List.reverse_perm _).symm.map _) rfl rfl
  revert hsame
  decide

end Eveland.Telemetry
