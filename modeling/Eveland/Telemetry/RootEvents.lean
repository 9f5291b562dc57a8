/-
# The events of one Eve session

What an ingestion does to the node of an Eve session and to the session it is in: where the node
stands, what is projected onto the session, which events the node has recorded, and what becomes
of the execution of a scheduled session. Children may be linked and other sessions folded on the
way; neither shows in these.
-/

import Eveland.Telemetry.Settleable

namespace Eveland.Telemetry

variable {s t u : Store}

/-! ## Sessions, changed in place or lost -/

/-- The columns by which a session is found. -/
structure SessionKey where
  id : String
  projectId : String
  eveSessionId : Option String

def Session.key (row : Session) : SessionKey := ⟨row.id, row.projectId, row.eveSessionId⟩

/-- The columns that the events of a session move, or that decide what they move. -/
@[ext]
structure Standing where
  status : SessionStatus
  completedAt : Option ℤ
  scheduleRunId : Option String
  rootNodeId : Option String

def Session.standing (row : Session) : Standing :=
  ⟨row.status, row.completedAt, row.scheduleRunId, row.rootNodeId⟩

/-- Sessions are changed in place and some are lost; the one with this id is kept, and its
standing changes so. -/
def Reshapes (sessionId : String) (change : Standing → Standing) (s t : Store) : Prop :=
  ∃ (keep : String → Bool) (f : Session → Session),
    t.sessions = (s.sessions.filter fun row => keep row.id).map f ∧ keep sessionId = true ∧
      (∀ row, (f row).key = row.key) ∧
      ∀ row, row.id = sessionId → (f row).standing = change row.standing

namespace Reshapes

variable {sessionId : String} {change change' : Standing → Standing}

theorem of_map {f : Session → Session} (hsessions : t.sessions = s.sessions.map f)
    (hkey : ∀ row, (f row).key = row.key)
    (hchange : ∀ row, row.id = sessionId → (f row).standing = change row.standing) :
    Reshapes sessionId change s t :=
  ⟨fun _ => true, f, by simp [hsessions], rfl, hkey, hchange⟩

theorem of_eq (hsessions : t.sessions = s.sessions) : Reshapes sessionId id s t :=
  of_map (by simpa using hsessions) (fun _ => rfl) fun _ _ => rfl

theorem refl (s : Store) : Reshapes sessionId id s s := of_eq rfl

theorem of_updateWhere {p : Session → Bool} {f : Session → Session}
    (hsessions : t.sessions = Table.updateWhere p f s.sessions)
    (hkey : ∀ row, (f row).key = row.key) (hstanding : ∀ row, (f row).standing = row.standing) :
    Reshapes sessionId id s t := by
  refine of_map (f := fun row => if p row then f row else row) hsessions ?_ ?_
  · intro row
    split
    · exact hkey row
    · rfl
  · intro row _
    split
    · exact hstanding row
    · rfl

theorem trans (hfirst : Reshapes sessionId change s t) (hsecond : Reshapes sessionId change' t u) :
    Reshapes sessionId (change' ∘ change) s u := by
  obtain ⟨keep, f, hsessions, hkept, hkey, hchange⟩ := hfirst
  obtain ⟨keep', f', hsessions', hkept', hkey', hchange'⟩ := hsecond
  refine ⟨fun id => keep id && keep' id, f' ∘ f, ?_, by simp [hkept, hkept'], ?_, ?_⟩
  · have hid : ∀ row, (f row).id = row.id := fun row => congrArg SessionKey.id (hkey row)
    rw [hsessions', hsessions, List.filter_map, List.map_map, List.filter_filter]
    congr 2
    funext row
    rw [Function.comp_apply, hid, Bool.and_comm]
  · exact fun row => (hkey' (f row)).trans (hkey row)
  · intro row hid
    have hid' : (f row).id = sessionId := (congrArg SessionKey.id (hkey row)).trans hid
    rw [Function.comp_apply, hchange' (f row) hid', hchange row hid]
    rfl

/-- A session found by its key is found again, in its new standing. -/
theorem find? (hreshapes : Reshapes sessionId change s t) {q : Session → Bool}
    (hq : ∀ row row', row.key = row'.key → q row = q row') {row : Session}
    (hrow : s.sessions.find? q = some row) (hid : row.id = sessionId) :
    ∃ row', t.sessions.find? q = some row' ∧ row'.key = row.key ∧
      row'.standing = change row.standing := by
  obtain ⟨keep, f, hsessions, hkept, hkey, hchange⟩ := hreshapes
  refine ⟨f row, ?_, hkey row, hchange row hid⟩
  rw [hsessions, List.find?_map]
  have hsame : q ∘ f = q := by
    funext other
    exact hq _ _ (hkey other)
  rw [hsame, List.find?_filter]
  obtain ⟨hselected, before, after, hsplit, hbefore⟩ := List.find?_eq_some_iff_append.mp hrow
  have hfound : s.sessions.find? (fun other => keep other.id && q other) = some row := by
    refine List.find?_eq_some_iff_append.mpr ⟨by simp [hselected, hid, hkept], before, after,
      hsplit, ?_⟩
    intro other hother
    simp only [Bool.not_eq_true', Bool.and_eq_false_imp]
    exact fun _ => by simpa using hbefore other hother
  simp only [Bool.decide_and, Bool.decide_eq_true, hfound, Option.map_some]

end Reshapes

theorem getSession_reshapes {sessionId : String} {change : Standing → Standing}
    (hreshapes : Reshapes sessionId change s t) {row : Session}
    (hrow : s.getSession sessionId = some row) :
    ∃ row', t.getSession sessionId = some row' ∧ row'.key = row.key ∧
      row'.standing = change row.standing := by
  refine hreshapes.find? ?_ hrow (Store.id_of_getSession hrow)
  intro first second hkey
  rw [show first.id = second.id from congrArg SessionKey.id hkey]

theorem findSession_reshapes {sessionId projectId eveSessionId : String}
    {change : Standing → Standing} (hreshapes : Reshapes sessionId change s t) {row : Session}
    (hrow : s.findSession projectId eveSessionId = some row) (hid : row.id = sessionId) :
    ∃ row', t.findSession projectId eveSessionId = some row' ∧ row'.key = row.key ∧
      row'.standing = change row.standing := by
  refine hreshapes.find? ?_ hrow hid
  intro first second hkey
  rw [show first.projectId = second.projectId from congrArg SessionKey.projectId hkey,
    show first.eveSessionId = second.eveSessionId from congrArg SessionKey.eveSessionId hkey]

/-! ## The parts of an ingestion -/

/-- A merge keeps every session but the one that is absorbed. -/
theorem merged_reshapes {absorbed : Session} {survivingSessionId sessionId : String}
    (hne : sessionId ≠ absorbed.id) :
    Reshapes sessionId id s (merged s absorbed survivingSessionId id) := by
  have hid : ∀ row : Session,
      (if decide (row.id = survivingSessionId) = true then
        { row with counters := row.counters + absorbed.counters : Session } else row).id =
        row.id := by
    intro row
    split <;> rfl
  refine ⟨fun id => id ≠ absorbed.id, fun row => if row.id = survivingSessionId then
    { row with counters := row.counters + absorbed.counters } else row, ?_, by simpa using hne,
    ?_, ?_⟩
  · show (Table.updateWhere _ _ s.sessions).filter _ = _
    rw [Table.updateWhere, List.filter_map]
    congr 2
    · funext row
      simp
    · funext row
      simp only [Function.comp_apply, id_eq, hid]
  · intro row
    dsimp only
    split <;> rfl
  · intro row _
    dsimp only
    split <;> rfl

theorem adoptSession_reshapes {oldRootSessionId sessionId : String}
    (hold : s.HasSession oldRootSessionId)
    (hadopt : adoptSession s oldRootSessionId sessionId = .ok t) :
    Reshapes sessionId id s t := by
  rw [adoptSession] at hadopt
  split at hadopt
  · cases hadopt
    exact Reshapes.refl _
  · next hne =>
      split at hadopt
      · next absorbed habsorbed =>
          obtain ⟨_, rfl⟩ := mergeSessionRows_eq_ok.mp hadopt
          exact merged_reshapes fun hsame => hne ((Store.id_of_getSession habsorbed) ▸ hsame.symm)
      · next hnone =>
          rw [← Store.getSession_isSome, hnone] at hold
          cases hold

theorem linkChild_reshapes {o : AgentEventObservation} {reading : EventReading}
    {node : SessionNode} {projectId sessionId id' : String} (hkeyed : Keyed s)
    (hlink : linkChild s o reading node projectId sessionId id' = .ok t) :
    Reshapes sessionId id s t := by
  rw [linkChild] at hlink
  split at hlink
  · cases hlink
    exact Reshapes.refl _
  · split at hlink
    · next child hchild =>
        obtain ⟨adopted, hadopt, heq⟩ := Outcome.bind_eq_ok.mp hlink
        cases heq
        have hold := hkeyed.nodesHeld child (Store.mem_of_findNode hchild).1
        exact (adoptSession_reshapes hold hadopt).trans (Reshapes.of_eq rfl)
    · obtain ⟨_, _, rfl⟩ := insertNode_eq_ok.mp hlink
      exact Reshapes.of_eq rfl

/-! ## The node of an Eve session -/

/-- Where a node stands. -/
@[ext]
structure NodeStanding where
  id : String
  rootSessionId : String
  parentNodeId : Option String
  status : SessionStatus
  lastObservedDeploymentId : String
  lastObservedRuntimeInstanceId : Option String

def SessionNode.standing (node : SessionNode) : NodeStanding :=
  ⟨node.id, node.rootSessionId, node.parentNodeId, node.status, node.lastObservedDeploymentId,
    node.lastObservedRuntimeInstanceId⟩

variable {projectId eveSessionId : String}

/-- An update that keeps the key of nodes shows in the node found. -/
theorem findNode_updateWhere {p : SessionNode → Bool} {f : SessionNode → SessionNode}
    (hnodes : t.nodes = Table.updateWhere p f s.nodes)
    (hkey : ∀ row, (f row).projectId = row.projectId ∧ (f row).eveSessionId = row.eveSessionId) :
    t.findNode projectId eveSessionId =
      (s.findNode projectId eveSessionId).map fun row => if p row then f row else row := by
  rw [Store.findNode, hnodes]
  apply Table.find?_updateWhere_of
  intro row
  rw [(hkey row).1, (hkey row).2]

/-- A child is linked under a node: the node itself stays as it is, unless it is that child. -/
theorem linkChild_node {o : AgentEventObservation} {reading : EventReading}
    {node node' : SessionNode} {id : String} (hkeyed : Keyed s)
    (hnode : s.findNode projectId eveSessionId = some node)
    (hlink : linkChild s o reading node' projectId node.rootSessionId id = .ok t) :
    ∃ after, t.findNode projectId eveSessionId = some after ∧
      after.standing = { node.standing with
        parentNodeId :=
          if announcedChild reading = some eveSessionId then some node'.id
          else node.parentNodeId } := by
  obtain ⟨hmem, _, heve⟩ := Store.mem_of_findNode hnode
  rw [linkChild] at hlink
  split at hlink
  · next hnone =>
      cases hlink
      refine ⟨node, hnode, ?_⟩
      rw [hnone]
      rfl
  · next childEveSessionId hannounced =>
      rw [hannounced]
      split at hlink
      · next child hchild =>
          obtain ⟨adopted, hadopt, heq⟩ := Outcome.bind_eq_ok.mp hlink
          cases heq
          obtain ⟨hchildMem, _, hchildEve⟩ := Store.mem_of_findNode hchild
          have hnodes := (adoptSession_writes (hkeyed.nodesHeld child hchildMem)
            (hkeyed.nodesHeld node hmem) hadopt).2
          have hadopted : adopted.findNode projectId eveSessionId = some node := by
            rw [findNode_updateWhere hnodes fun _ => ⟨rfl, rfl⟩, hnode, Option.map_some]
            congr 1
            split <;> rfl
          have hlinked : Store.findNode { adopted with
              nodes := Table.updateWhere (fun row => row.id = child.id)
                (linkNode reading node' node.rootSessionId) adopted.nodes }
                projectId eveSessionId = _ :=
            findNode_updateWhere rfl fun _ => ⟨rfl, rfl⟩
          rw [hadopted, Option.map_some] at hlinked
          refine ⟨_, hlinked, ?_⟩
          by_cases hsame : childEveSessionId = eveSessionId
          · rw [hsame, hnode] at hchild
            cases hchild
            rw [if_pos (congrArg some hsame), if_pos (by simp)]
            rfl
          · have hother : node.id ≠ child.id := by
              intro hid
              rw [← hkeyed.nodeIds.eq hmem hchildMem hid] at hchildEve
              exact hsame (hchildEve.symm.trans heve)
            rw [if_neg (fun h => hsame (Option.some.inj h)), if_neg (by simpa using hother)]
            rfl
      · next hnone =>
          have hne : childEveSessionId ≠ eveSessionId := by
            rintro rfl
            rw [hnode] at hnone
            cases hnone
          obtain ⟨_, _, rfl⟩ := insertNode_eq_ok.mp hlink
          refine ⟨node, ?_, ?_⟩
          · rw [Store.findNode, List.find?_append]
            rw [Store.findNode] at hnode
            rw [hnode]
            rfl
          · rw [if_neg fun h => hne (Option.some.inj h)]
            rfl

/-! ## The events a node has recorded -/

/-- The events a node has recorded. -/
def Store.recordedBy (s : Store) (nodeId : String) : List SessionEvent :=
  s.events.filter fun row => row.sessionNodeId = some nodeId

/-- The events of a node are in the session of the node. -/
theorem Keyed.recordedBy_sessionId (hkeyed : Keyed s) {node : SessionNode} (hmem : node ∈ s.nodes)
    {event : SessionEvent} (hevent : event ∈ s.recordedBy node.id) :
    event.sessionId = node.rootSessionId := by
  obtain ⟨hevent, hof⟩ := List.mem_filter.mp hevent
  obtain ⟨row, hrow, hid, hroot, _⟩ :=
    hkeyed.eventsOwned event hevent node.id (by simpa using hof)
  rw [← hroot, hkeyed.nodeIds.eq hrow hmem hid]

/-- A merge leaves the events of a node alone that is not in the session that is absorbed. -/
theorem merged_recordedBy {absorbed : Session} {survivingSessionId : String} (hkeyed : Keyed s)
    {node : SessionNode} (hmem : node ∈ s.nodes) (hne : node.rootSessionId ≠ absorbed.id) :
    (merged s absorbed survivingSessionId id).recordedBy node.id = s.recordedBy node.id := by
  show (Table.updateWhere _ _ s.events).filter _ = _
  rw [Table.filter_updateWhere fun _ => by rfl]
  apply Table.updateWhere_eq_self
  intro event hevent hmoved
  have hin := hkeyed.recordedBy_sessionId hmem hevent
  exact absurd (hin.symm.trans (by simpa using hmoved)) hne

theorem linkChild_recordedBy {o : AgentEventObservation} {reading : EventReading}
    {node node' : SessionNode} {id : String} (hkeyed : Keyed s) (hmem : node ∈ s.nodes)
    (hlink : linkChild s o reading node' projectId node.rootSessionId id = .ok t) :
    t.recordedBy node.id = s.recordedBy node.id := by
  rw [linkChild] at hlink
  split at hlink
  · cases hlink
    rfl
  · split at hlink
    · next child hchild =>
        obtain ⟨adopted, hadopt, heq⟩ := Outcome.bind_eq_ok.mp hlink
        cases heq
        show adopted.recordedBy node.id = _
        rw [adoptSession] at hadopt
        split at hadopt
        · cases hadopt
          rfl
        · next hne =>
            split at hadopt
            · next absorbed habsorbed =>
                obtain ⟨_, rfl⟩ := mergeSessionRows_eq_ok.mp hadopt
                apply merged_recordedBy hkeyed hmem
                rw [Store.id_of_getSession habsorbed]
                exact Ne.symm hne
            · next hnone =>
                have hold := hkeyed.nodesHeld child (Store.mem_of_findNode hchild).1
                rw [← Store.getSession_isSome, hnone] at hold
                cases hold
    · obtain ⟨_, _, rfl⟩ := insertNode_eq_ok.mp hlink
      rfl

/-! ## An observation that is recorded -/

/-- How a session stands once its root has moved to a status. -/
def moveStanding (isRoot : Bool) (projected : Option SessionStatus) (now : ℤ)
    (standing : Standing) : Standing :=
  match projected with
  | none => standing
  | some status =>
      if isRoot then { standing with status, completedAt := completionTime status now }
      else standing

/-- The stage of the status: the node moves, and its session if it is the root. -/
theorem projectStatus_moves (s : Store) (o : AgentEventObservation) (reading : EventReading)
    (node : SessionNode) (sessionRow : Session) (projected : Option SessionStatus) (now : ℤ) :
    Reshapes sessionRow.id (moveStanding node.parentNodeId.isNone projected now) s
        (projectStatus s o reading node sessionRow projected now).1 ∧
      (projectStatus s o reading node sessionRow projected now).2.2.id = sessionRow.id ∧
      (projectStatus s o reading node sessionRow projected now).2.2.scheduleRunId =
        sessionRow.scheduleRunId ∧
      (projectStatus s o reading node sessionRow projected now).1.events = s.events := by
  unfold projectStatus moveStanding
  cases projected with
  | none => exact ⟨Reshapes.of_eq rfl, rfl, rfl, rfl⟩
  | some status =>
      dsimp only
      by_cases hroot : node.parentNodeId.isNone = true
      · have hkept : (projectNode o reading (some status) node).parentNodeId.isNone = true := hroot
        rw [if_pos hkept, hroot]
        refine ⟨Reshapes.of_map (f := fun row => if row.id = sessionRow.id then
          projectSession reading status now row else row) ?_ ?_ ?_, rfl, rfl, rfl⟩
        · simp only [Table.updateWhere, decide_eq_true_eq]
        · intro row
          split <;> rfl
        · intro row hid
          rw [if_pos hid]
          rfl
      · have hkept : ¬(projectNode o reading (some status) node).parentNodeId.isNone = true := hroot
        rw [if_neg hkept]
        refine ⟨?_, rfl, rfl, rfl⟩
        simp only [hroot, Bool.false_eq_true, if_false]
        exact Reshapes.of_eq rfl

theorem projectExecution_keeps (s : Store) (reading : EventReading) (node : SessionNode)
    (sessionRow : Session) (now : ℤ) :
    (projectExecution s reading node sessionRow now).sessions = s.sessions ∧
      (projectExecution s reading node sessionRow now).events = s.events := by
  rw [projectExecution]
  split
  · exact ⟨rfl, rfl⟩
  · dsimp only
    split
    · exact ⟨rfl, rfl⟩
    · rw [settleRun]
      dsimp only
      split <;> exact ⟨rfl, rfl⟩

theorem addCounters_reshapes (s : Store) (sessionId id' : String)
    (f : UsageCounters → UsageCounters) : Reshapes sessionId id s (addCounters s id' f) :=
  Reshapes.of_updateWhere rfl (fun _ => rfl) fun _ => rfl

/-- The usage of an event shows in the counters only. -/
theorem projectReading_keeps (s : Store) (o : AgentEventObservation) (reading : EventReading)
    (node : SessionNode) (sessionId id' : String) :
    Reshapes sessionId id s (projectReading s o reading node sessionId id') ∧
      (projectReading s o reading node sessionId id').nodes = s.nodes ∧
      (projectReading s o reading node sessionId id').events = s.events := by
  rw [projectReading]
  split
  · exact ⟨Reshapes.refl s, rfl, rfl⟩
  · rw [projectUsage]
    split
    · split
      · refine ⟨?_, rfl, rfl⟩
        show Reshapes sessionId (id ∘ id) s _
        exact Reshapes.trans (Reshapes.of_eq rfl) (addCounters_reshapes _ _ _ _)
      · exact ⟨Reshapes.refl s, rfl, rfl⟩
    · refine ⟨?_, rfl, rfl⟩
      show Reshapes sessionId (id ∘ id) s _
      exact Reshapes.trans (Reshapes.of_eq rfl) (addCounters_reshapes _ _ _ _)

/-- What an observation that is recorded does to its node, to the session of the node, to the
events of the node and to the executions. -/
structure Reports (o : AgentEventObservation) (projectId : String) (node : SessionNode)
    (sessionRow : Session) (isLatest : Bool) (ids : IngestIds) (now : ℤ) (s t : Store) : Prop where
  moved : ∃ after, t.findNode projectId o.eveSessionId = some after ∧
    after.standing = { node.standing with
      status := (projectedStatus (readEvent o.event) node.status isLatest).getD node.status
      parentNodeId :=
        if announcedChild (readEvent o.event) = some o.eveSessionId then some node.id
        else node.parentNodeId }
  projected : Reshapes sessionRow.id
    (moveStanding node.parentNodeId.isNone
      (projectedStatus (readEvent o.event) node.status isLatest) now) s t
  recorded : t.recordedBy node.id = s.recordedBy node.id ++
    [{ eventInsert o (readEvent o.event) sessionRow.id node.id ids.event now with
      index := s.nextIndex sessionRow.id }]
  /-- The event is projected onto the execution, and then a session may be folded: another one. -/
  executed : ∃ (before : Store) (node' : SessionNode) (sessionRow' : Session)
    (lost : String → Bool), before.runs = s.runs ∧ before.executions = s.executions ∧
      node'.status =
        (projectedStatus (readEvent o.event) node.status isLatest).getD node.status ∧
      node'.parentNodeId = node.parentNodeId ∧ sessionRow'.id = sessionRow.id ∧
      sessionRow'.scheduleRunId = sessionRow.scheduleRunId ∧ lost sessionRow.id = false ∧
      Drops lost (projectExecution before (readEvent o.event) node' sessionRow' now) t

theorem recordObservation_reports {o : AgentEventObservation} {node : SessionNode}
    {sessionRow : Session} {isLatest : Bool} {ids : IngestIds} {now : ℤ} {result : IngestResult}
    (hkeyed : Keyed s) (hnode : s.findNode projectId o.eveSessionId = some node)
    (hobserved : node.resolutionStatus = .observed) (hroot : node.rootSessionId = sessionRow.id)
    (hrecord : recordObservation s o projectId sessionRow node isLatest ids now =
      .ok (t, result)) :
    Reports o projectId node sessionRow isLatest ids now s t := by
  obtain ⟨appended, projected, linked, event, node', sessionRow', happend, hprojected, hlink, rfl,
    _, _, _, _⟩ := recordObservation_eq_ok hrecord
  have hmem := (Store.mem_of_findNode hnode).1
  have happendWrite := appendSessionEventRow_write (s := s) (by
    intro nodeId hnodeId
    cases hnodeId
    exact ⟨node, hmem, rfl, hroot, fun _ => hobserved⟩) happend
  obtain ⟨_, _, _, hevent, happended⟩ := appendSessionEventRow_eq_ok.mp happend
  have hmoves := projectStatus_moves appended o (readEvent o.event) node sessionRow
    (projectedStatus (readEvent o.event) node.status isLatest) now
  have hwrites := projectStatus_writes appended o (readEvent o.event) node sessionRow
    (projectedStatus (readEvent o.event) node.status isLatest) now
  have hquiet := projectStatus_quiet appended o (readEvent o.event) node sessionRow
    (projectedStatus (readEvent o.event) node.status isLatest) now
  rw [hprojected] at hmoves hwrites hquiet
  obtain ⟨hsession, hsessionId, hscheduled, hsameEvents⟩ := hmoves
  obtain ⟨hprojectedWrites, hprojectedNodes, hnode', _⟩ := hwrites
  dsimp only at hsession hsessionId hscheduled hsameEvents
  dsimp only at hprojectedWrites hprojectedNodes hnode' hquiet
  -- The store in which the child is linked.
  have hexecuted := projectExecution_writes projected (readEvent o.event) node' sessionRow' now
  have hkept := projectExecution_keeps projected (readEvent o.event) node' sessionRow' now
  have hkeyed' : Keyed (projectExecution projected (readEvent o.event) node' sessionRow' now) :=
    Writes.keyed ((Relation.ReflTransGen.single happendWrite).trans
      (hprojectedWrites.trans hexecuted.1)) hkeyed
  have hfound : Store.findNode
      (projectExecution projected (readEvent o.event) node' sessionRow' now) projectId
      o.eveSessionId = some node' := by
    rw [findNode_updateWhere (s := appended) (hexecuted.2.trans hprojectedNodes)
      fun _ => ⟨rfl, rfl⟩, happended]
    show (s.findNode projectId o.eveSessionId).map _ = _
    rw [hnode, Option.map_some, if_pos (by simp), hnode']
  have hnodeRoot : node'.rootSessionId = sessionRow'.id := by
    rw [hnode', hsessionId]
    exact hroot
  rw [← hnodeRoot] at hlink
  have hfoundMem := (Store.mem_of_findNode hfound).1
  have hreading := projectReading_keeps linked o (readEvent o.event) node' sessionRow'.id ids.usage
  have hnodeId : node'.id = node.id := by
    rw [hnode']
    rfl
  constructor
  · obtain ⟨after, hafter, hstanding⟩ := linkChild_node hkeyed' hfound hlink
    refine ⟨after, ?_, ?_⟩
    · rw [Store.findNode, (projectReading_keeps linked o (readEvent o.event) node' sessionRow'.id
        ids.usage).2.1]
      exact hafter
    · rw [hstanding, hnode']
      rfl
  · rw [hnodeRoot.trans hsessionId] at hlink
    have hlinked := linkChild_reshapes hkeyed' hlink
    have hbefore : Reshapes sessionRow.id id s appended := Reshapes.of_eq (by rw [happended])
    have hprojection : Reshapes sessionRow.id id projected
        (projectExecution projected (readEvent o.event) node' sessionRow' now) :=
      Reshapes.of_eq hkept.1
    have hafter := (projectReading_keeps linked o (readEvent o.event) node' sessionRow'.id
      ids.usage)
    rw [hsessionId] at hafter
    have hall := (((hbefore.trans hsession).trans hprojection).trans hlinked).trans hafter.1
    rw [hsessionId]
    exact hall
  · have hlinked := linkChild_recordedBy hkeyed' hfoundMem hlink
    rw [hnodeId] at hlinked
    rw [Store.recordedBy, hreading.2.2]
    refine hlinked.trans ?_
    rw [Store.recordedBy, hkept.2, hsameEvents, happended, List.filter_append,
      List.filter_cons_of_pos (by rw [hevent]; exact decide_eq_true rfl), hevent]
    rfl
  · refine ⟨projected, node', sessionRow',
      Store.folds (projectExecution projected (readEvent o.event) node' sessionRow' now)
        (readEvent o.event) projectId node'.rootSessionId, ?_, ?_, ?_, ?_, hsessionId, hscheduled,
      ?_, ?_⟩
    · rw [hquiet.runs, happended]
    · rw [hquiet.executions_eq, happended]
    · rw [hnode']
      rfl
    · rw [hnode']
      rfl
    · rw [Store.folds, hnodeRoot, hsessionId]
      simp
    · exact (linkChild_drops hkeyed' hlink).trans_quiet (projectReading_quiet _ _ _ _ _ _)

/-! ## What is around -/

/-- Deployments, instances, bindings and schedules are the same. -/
def SameSurroundings (s t : Store) : Prop := t.toSurroundings = s.toSurroundings

namespace SameSurroundings

theorem refl (s : Store) : SameSurroundings s s := rfl

theorem trans (hfirst : SameSurroundings s t) (hsecond : SameSurroundings t u) :
    SameSurroundings s u :=
  Eq.trans hsecond hfirst

end SameSurroundings

theorem insertSession_surroundings {row : Session} (hinsert : insertSession s row = .ok t) :
    SameSurroundings s t := by
  obtain ⟨_, _, rfl⟩ := insertSession_eq_ok.mp hinsert
  rfl

theorem insertNode_surroundings {row : SessionNode} (hinsert : insertNode s row = .ok t) :
    SameSurroundings s t := by
  obtain ⟨_, _, rfl⟩ := insertNode_eq_ok.mp hinsert
  rfl

theorem openSession_surroundings {o : AgentEventObservation} {id' : String}
    {trigger : SessionTrigger} {row : Session}
    (hopen : openSession s o projectId id' eveSessionId trigger = .ok (t, row)) :
    SameSurroundings s t := by
  obtain ⟨opened, hinsert, heq⟩ := Outcome.map_eq_ok.mp hopen
  cases heq
  exact insertSession_surroundings hinsert

theorem findOrOpenSession_surroundings {o : AgentEventObservation} {id' : String}
    {trigger : SessionTrigger} {row : Session}
    (hfind : findOrOpenSession s o projectId id' eveSessionId trigger = .ok (t, row)) :
    SameSurroundings s t := by
  rw [findOrOpenSession] at hfind
  split at hfind
  · cases hfind
    exact SameSurroundings.refl _
  · exact openSession_surroundings hfind

theorem resolveParent_surroundings {o : AgentEventObservation} {ids : IngestIds}
    {parent : Option SessionNode} (hparent : resolveParent s o projectId ids = .ok (t, parent)) :
    SameSurroundings s t := by
  rw [resolveParent] at hparent
  split at hparent
  · cases hparent
    exact SameSurroundings.refl _
  · split at hparent
    · cases hparent
      exact SameSurroundings.refl _
    · obtain ⟨⟨opened, row⟩, hopen, hparent⟩ := Outcome.bind_eq_ok.mp hparent
      obtain ⟨inserted, hinsert, heq⟩ := Outcome.bind_eq_ok.mp hparent
      cases heq
      have hinserted := (findOrOpenSession_surroundings hopen).trans
        (insertNode_surroundings hinsert)
      exact hinserted

theorem resolveSession_surroundings {o : AgentEventObservation} {parent : Option SessionNode}
    {ids : IngestIds} {row : Session}
    (hresolve : resolveSession s o projectId parent ids = .ok (t, row)) :
    SameSurroundings s t := by
  unfold resolveSession at hresolve
  dsimp only at hresolve
  split at hresolve
  · exact findOrOpenSession_surroundings hresolve
  · split at hresolve
    · cases hresolve
      exact SameSurroundings.refl _
    · exact openSession_surroundings hresolve

theorem locateNode_surroundings {o : AgentEventObservation} {ids : IngestIds}
    {sessionRow : Session} {node : SessionNode} {isLatest : Bool}
    (hlocate : locateNode s o projectId ids = .ok (t, sessionRow, node, isLatest)) :
    SameSurroundings s t := by
  rw [locateNode] at hlocate
  split at hlocate
  · obtain ⟨row, _, hresolve⟩ := Outcome.bind_eq_ok.mp hlocate
    dsimp only at hresolve
    split at hresolve <;> cases hresolve <;> rfl
  · obtain ⟨⟨located, parent⟩, hparent, hopen⟩ := Outcome.bind_eq_ok.mp hlocate
    obtain ⟨⟨resolved, row⟩, hresolve, hopen⟩ := Outcome.bind_eq_ok.mp hopen
    obtain ⟨inserted, hinsert, hopen⟩ := Outcome.bind_eq_ok.mp hopen
    have hinserted := ((resolveParent_surroundings hparent).trans
      (resolveSession_surroundings hresolve)).trans (insertNode_surroundings hinsert)
    split at hopen <;> cases hopen <;> exact hinserted

theorem projectExecution_surroundings (s : Store) (reading : EventReading) (node : SessionNode)
    (sessionRow : Session) (now : ℤ) :
    SameSurroundings s (projectExecution s reading node sessionRow now) := by
  rw [projectExecution]
  split
  · rfl
  · dsimp only
    split
    · rfl
    · rw [settleRun]
      dsimp only
      split <;> rfl

theorem linkChild_surroundings {o : AgentEventObservation} {reading : EventReading}
    {node : SessionNode} {sessionId id' : String}
    (hlink : linkChild s o reading node projectId sessionId id' = .ok t) :
    SameSurroundings s t := by
  rw [linkChild] at hlink
  split at hlink
  · cases hlink
    exact SameSurroundings.refl _
  · split at hlink
    · obtain ⟨adopted, hadopt, heq⟩ := Outcome.bind_eq_ok.mp hlink
      cases heq
      show SameSurroundings s adopted
      rw [adoptSession] at hadopt
      split at hadopt
      · cases hadopt
        exact SameSurroundings.refl _
      · split at hadopt
        · obtain ⟨_, rfl⟩ := mergeSessionRows_eq_ok.mp hadopt
          rfl
        · cases hadopt
          rfl
    · exact insertNode_surroundings hlink

theorem projectReading_surroundings (s : Store) (o : AgentEventObservation)
    (reading : EventReading) (node : SessionNode) (sessionId id' : String) :
    SameSurroundings s (projectReading s o reading node sessionId id') := by
  rw [projectReading]
  split
  · rfl
  · rw [projectUsage]
    split
    · split <;> rfl
    · rfl

theorem ingestAgentEvent_surroundings {o : AgentEventObservation} {ids : IngestIds} {now : ℤ}
    {result : IngestResult} (hingest : ingestAgentEvent s o ids now = .ok (t, result)) :
    SameSurroundings s t := by
  obtain ⟨deployment, _, hingest⟩ := Outcome.bind_eq_ok.mp hingest
  obtain ⟨⟨located, sessionRow, node, isLatest⟩, hlocate, hingest⟩ := Outcome.bind_eq_ok.mp hingest
  have hlocated := locateNode_surroundings hlocate
  dsimp only at hingest
  split at hingest
  · cases hingest
    exact hlocated
  · obtain ⟨appended, projected, linked, event, node', sessionRow', happend, hprojected, hlink,
      rfl, _, _, _, _⟩ := recordObservation_eq_ok hingest
    obtain ⟨_, _, _, _, rfl⟩ := appendSessionEventRow_eq_ok.mp happend
    have hstatus : SameSurroundings located projected := by
      have hmoved := congrArg (fun moved => moved.1.toSurroundings) hprojected
      refine Eq.trans hmoved.symm ?_
      unfold projectStatus
      split
      · rfl
      · dsimp only
        split <;> rfl
    exact ((hlocated.trans hstatus).trans (projectExecution_surroundings _ _ _ _ _)).trans
      ((linkChild_surroundings hlink).trans (projectReading_surroundings _ _ _ _ _ _))

end Eveland.Telemetry
