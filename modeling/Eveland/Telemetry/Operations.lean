/-
# The writes of each operation

One lemma for each operation: where it ends without throwing, the store it leaves is reached by
writes. An operation on one session or node also says that it is still there.
-/

import Eveland.Telemetry.Effects

namespace Eveland.Telemetry

open Outcome (ensure require)
open Relation (ReflTransGen)

variable {s t : Store}

/-! ## Sessions -/

theorem insertSession_eq_ok {row : Session} :
    insertSession s row = .ok t ↔
      (∀ other ∈ s.sessions, other.id ≠ row.id) ∧
        (row.eveSessionId.all fun eveSessionId =>
          (s.findSession row.projectId eveSessionId).isNone) = true ∧
        t = { s with sessions := s.sessions ++ [row] } := by
  simp only [insertSession, Outcome.bind_eq_ok, Outcome.ensure_eq_ok, List.all_eq_true,
    decide_eq_true_eq, exists_and_left, exists_const]
  constructor
  · rintro ⟨hfresh, heve, heq⟩
    exact ⟨hfresh, heve, (Except.ok.inj heq).symm⟩
  · rintro ⟨hfresh, heve, rfl⟩
    exact ⟨hfresh, heve, rfl⟩

theorem insertSession_write {row : Session} (hcounters : row.counters = 0)
    (hinsert : insertSession s row = .ok t) : Write s t := by
  obtain ⟨hfresh, _, rfl⟩ := insertSession_eq_ok.mp hinsert
  exact Write.openSession row hfresh hcounters

theorem appendSessionEventRow_write {values : SessionEventInsert} {row : SessionEvent}
    (howned : s.OwnsEvent values) (happend : appendSessionEventRow s values = .ok (t, row)) :
    Write s t := by
  obtain ⟨hsession, _, _, rfl, rfl⟩ := appendSessionEventRow_eq_ok.mp happend
  exact Write.append { values with index := s.nextIndex values.sessionId } hsession howned

/-- An event that names no node. -/
theorem Store.ownsEvent_of_none {event : SessionEventInsert} (hnone : event.sessionNodeId = none) :
    s.OwnsEvent event := by
  intro nodeId hnodeId
  rw [hnone] at hnodeId
  cases hnodeId

/-- A node of this id is in this session. -/
def Store.HoldsNode (s : Store) (nodeId sessionId : String) : Prop :=
  ∃ node ∈ s.nodes, node.id = nodeId ∧ node.rootSessionId = sessionId

theorem appendRuntimeLostEventTx_writes {sessionId runtimeInstanceId reason eventId : String}
    {node : Option (String × String)} {now : ℤ}
    (hnode : ∀ found, node = some found → s.HoldsNode found.1 sessionId)
    (happend : appendRuntimeLostEventTx s sessionId runtimeInstanceId reason eventId node now =
      .ok t) : Writes s t ∧ t.nodes = s.nodes := by
  rw [appendRuntimeLostEventTx] at happend
  split at happend
  · cases happend
    exact ⟨ReflTransGen.refl, rfl⟩
  · obtain ⟨⟨after, row⟩, hrow, rfl⟩ := Outcome.map_eq_ok.mp happend
    refine ⟨ReflTransGen.single (appendSessionEventRow_write ?_ hrow), ?_⟩
    · intro nodeId hnodeId
      obtain ⟨found, hfound, rfl⟩ := Option.map_eq_some_iff.mp hnodeId
      obtain ⟨held, hheld, hid, hroot⟩ := hnode found hfound
      exact ⟨held, hheld, hid, hroot, fun hsome => nomatch hsome⟩
    · obtain ⟨_, _, _, _, rfl⟩ := appendSessionEventRow_eq_ok.mp hrow
      rfl

theorem bindSession_writes (s : Store) (binding : SessionBinding) :
    Writes s (bindSession s binding) := by
  apply ReflTransGen.tail (ReflTransGen.single (Write.surroundings
    { s.toSurroundings with bindings := (bindSession s binding).bindings }))
  exact Write.sessions _ binding.bound (fun _ => rfl) fun _ => rfl

theorem recordModelUsage_writes {sessionId id : String} {usage : ModelUsageInput}
    {row : ModelUsageEvent} (hrecord : recordModelUsage s sessionId usage id = .ok (t, row)) :
    Writes s t := by
  obtain ⟨_, _, hrecord⟩ := Outcome.bind_eq_ok.mp hrecord
  dsimp only at hrecord
  split at hrecord
  · cases hrecord
    exact ReflTransGen.refl
  · obtain ⟨_, hsession, hrecord⟩ := Outcome.bind_eq_ok.mp hrecord
    obtain ⟨_, hfresh, hrecord⟩ := Outcome.bind_eq_ok.mp hrecord
    cases hrecord
    simp only [Outcome.ensure_eq_ok, Store.getSession_isSome, List.all_eq_true, Bool.and_eq_true,
      decide_eq_true_eq, Bool.not_eq_true'] at hsession hfresh
    apply ReflTransGen.single
    apply Write.recordUsage
    · exact hsession
    · intro nodeId hnode
      cases hnode
    · exact fun other hother => (hfresh other hother).1
    · exact fun other hother => (hfresh other hother).2
    · intro other _
      simp [ModelUsageEvent.sameInNode, ModelUsageInput.row]
    · intro hnode
      cases hnode

theorem completedRow_id (input : CompleteSessionInput) (binding : Option SessionBinding) (now : ℤ)
    (row : Session) : (completedRow input binding now row).id = row.id := by
  cases binding <;> rfl

theorem completedRow_counters (input : CompleteSessionInput) (binding : Option SessionBinding)
    (now : ℤ) (row : Session) : (completedRow input binding now row).counters = row.counters := by
  cases binding <;> rfl

theorem foldObserved_writes {current : Session} {eveSessionId : Option String}
    (hcurrent : current ∈ s.sessions) (hfold : foldObserved s current eveSessionId = .ok t) :
    Writes s t := by
  cases eveSessionId with
  | none =>
      cases hfold
      exact ReflTransGen.refl
  | some eveSessionId =>
      rw [foldObserved] at hfold
      split at hfold
      · cases hfold
        exact ReflTransGen.refl
      · next observed hobserved =>
          obtain ⟨hcollides, rfl⟩ := mergeSessionRows_eq_ok.mp hfold
          have hselected := List.find?_some hobserved
          simp only [Bool.and_eq_true, decide_eq_true_eq] at hselected
          apply ReflTransGen.single
          exact Write.merge observed current.id _ (List.mem_of_find?_eq_some hobserved)
            ⟨current, hcurrent, rfl⟩ hselected.2 (fun _ => rfl) hcollides

theorem completeSession_writes {sessionId : String} {input : CompleteSessionInput} {now : ℤ}
    (hcomplete : completeSession s sessionId input now = .ok t) : Writes s t := by
  rw [completeSession] at hcomplete
  split at hcomplete
  · cases hcomplete
    exact ReflTransGen.refl
  · next current hcurrent =>
      obtain ⟨folded, hfold, hcomplete⟩ := Outcome.bind_eq_ok.mp hcomplete
      cases hcomplete
      apply ReflTransGen.tail (foldObserved_writes (List.mem_of_find?_eq_some hcurrent) hfold)
      exact Write.sessions _ _ (completedRow_id _ _ _) (completedRow_counters _ _ _)

/-! ## The node of an observation -/

namespace Store

variable {nodeId sessionId eveSessionId : String}

theorem HasNode.hasSession (hnode : s.HasNode nodeId sessionId eveSessionId) (hkeyed : Keyed s) :
    s.HasSession sessionId := by
  obtain ⟨node, hmem, _, rfl, _⟩ := hnode
  exact hkeyed.nodesHeld node hmem

/-- A node is in one session only. -/
theorem HasNode.eq {otherSessionId otherEveSessionId : String}
    (hnode : s.HasNode nodeId sessionId eveSessionId)
    (hother : s.HasNode nodeId otherSessionId otherEveSessionId) (hkeyed : Keyed s) :
    sessionId = otherSessionId ∧ eveSessionId = otherEveSessionId := by
  obtain ⟨node, hmem, rfl, rfl, rfl⟩ := hnode
  obtain ⟨other, hmem', hid, rfl, rfl⟩ := hother
  rw [hkeyed.nodeIds.eq hmem' hmem hid]
  exact ⟨rfl, rfl⟩

theorem HasNode.updateWhere {p : SessionNode → Bool} {f : SessionNode → SessionNode}
    (hnode : s.HasNode nodeId sessionId eveSessionId) (hid : ∀ row, (f row).id = row.id)
    (hkeeps : ∀ row ∈ s.nodes, p row = true → row.Stays (f row)) :
    HasNode { s with nodes := Table.updateWhere p f s.nodes } nodeId sessionId eveSessionId := by
  obtain ⟨node, hmem, rfl, rfl, rfl⟩ := hnode
  by_cases hp : p node = true
  · have hkept := hkeeps node hmem hp
    exact ⟨f node, Table.mem_updateWhere.mpr (Or.inr ⟨node, hmem, hp, rfl⟩), hid node, hkept.1,
      hkept.2.1⟩
  · exact ⟨node, Table.mem_updateWhere_of_not hmem (by simpa using hp), rfl, rfl, rfl⟩

theorem HasNode.append {row : SessionNode} (hnode : s.HasNode nodeId sessionId eveSessionId) :
    HasNode { s with nodes := s.nodes ++ [row] } nodeId sessionId eveSessionId := by
  obtain ⟨node, hmem, hnode⟩ := hnode
  exact ⟨node, List.mem_append_left _ hmem, hnode⟩

theorem HasNode.merged {absorbed : Session} {survivingSessionId : String}
    {patch : Session → Session} (hnode : s.HasNode nodeId sessionId eveSessionId)
    (hne : sessionId ≠ absorbed.id) :
    (merged s absorbed survivingSessionId patch).HasNode nodeId sessionId eveSessionId := by
  obtain ⟨node, hmem, rfl, rfl, rfl⟩ := hnode
  exact ⟨node, Table.mem_updateWhere_of_not hmem (by simpa using hne), rfl, rfl, rfl⟩

theorem mem_of_findNode {projectId : String} {node : SessionNode}
    (hnode : s.findNode projectId eveSessionId = some node) :
    node ∈ s.nodes ∧ node.projectId = projectId ∧ node.eveSessionId = eveSessionId := by
  have hselected := List.find?_some hnode
  simp only [Bool.and_eq_true, decide_eq_true_eq] at hselected
  exact ⟨List.mem_of_find?_eq_some hnode, hselected⟩

theorem mem_of_findSession {projectId : String} {row : Session}
    (hrow : s.findSession projectId eveSessionId = some row) :
    row ∈ s.sessions ∧ row.projectId = projectId ∧ row.eveSessionId = some eveSessionId := by
  have hselected := List.find?_some hrow
  simp only [Bool.and_eq_true, decide_eq_true_eq] at hselected
  exact ⟨List.mem_of_find?_eq_some hrow, hselected⟩

end Store

theorem discoverTrigger_id (o : AgentEventObservation) (row : Session) :
    (discoverTrigger o row).id = row.id := by
  rw [discoverTrigger]
  split <;> rfl

theorem discoverTrigger_counters (o : AgentEventObservation) (row : Session) :
    (discoverTrigger o row).counters = row.counters := by
  rw [discoverTrigger]
  split <;> rfl

/-- A node that is found is updated in place, and its session is there. -/
theorem resolveNode_writes {o : AgentEventObservation} {node node' : SessionNode}
    {sessionRow : Session} {isLatest : Bool} (hmem : node ∈ s.nodes)
    (hresolve : resolveNode s o node = .ok (t, sessionRow, node', isLatest)) :
    Writes s t ∧ t.HasNode node'.id sessionRow.id node.eveSessionId := by
  obtain ⟨row, hrow, hresolve⟩ := Outcome.bind_eq_ok.mp hresolve
  rw [Outcome.require_eq_ok] at hrow
  dsimp only at hresolve
  have htouch := Write.nodes (s := s) (fun row => row.id = node.id)
    (touchNode o (s.isNewestNodeObservation node.id o.sourceSequence)) (fun _ => rfl)
    fun _ _ _ => ⟨rfl, rfl, fun _ => rfl⟩
  have hnode : s.HasNode node.id row.id node.eveSessionId :=
    ⟨node, hmem, rfl, (Store.id_of_getSession hrow).symm, rfl⟩
  have htouched := hnode.updateWhere (p := fun row => row.id = node.id)
    (f := touchNode o (s.isNewestNodeObservation node.id o.sourceSequence))
    (fun _ => rfl) fun _ _ _ => ⟨rfl, rfl, fun _ => rfl⟩
  split at hresolve
  · cases hresolve
    constructor
    · apply ReflTransGen.tail (ReflTransGen.single htouch)
      exact Write.sessions _ _ (discoverTrigger_id o) (discoverTrigger_counters o)
    · rw [discoverTrigger_id]
      exact htouched
  · cases hresolve
    exact ⟨ReflTransGen.single htouch, htouched⟩

theorem insertNode_eq_ok {row : SessionNode} :
    insertNode s row = .ok t ↔
      (∀ other ∈ s.nodes, other.id ≠ row.id) ∧ s.findNode row.projectId row.eveSessionId = none ∧
        t = { s with nodes := s.nodes ++ [row] } := by
  simp only [insertNode, Outcome.bind_eq_ok, Outcome.ensure_eq_ok, List.all_eq_true,
    decide_eq_true_eq, Option.isNone_iff_eq_none, exists_and_left, exists_const]
  constructor
  · rintro ⟨hfresh, heve, heq⟩
    exact ⟨hfresh, heve, (Except.ok.inj heq).symm⟩
  · rintro ⟨hfresh, heve, rfl⟩
    exact ⟨hfresh, heve, rfl⟩

theorem findOrOpenSession_writes {o : AgentEventObservation} {projectId id eveSessionId : String}
    {trigger : SessionTrigger} {row : Session}
    (hfind : findOrOpenSession s o projectId id eveSessionId trigger = .ok (t, row)) :
    Writes s t ∧ t.HasSession row.id := by
  rw [findOrOpenSession] at hfind
  split at hfind
  · next found hfound =>
      cases hfind
      exact ⟨ReflTransGen.refl, row, (Store.mem_of_findSession hfound).1, rfl⟩
  · rw [openSession] at hfind
    obtain ⟨opened, hinsert, heq⟩ := Outcome.map_eq_ok.mp hfind
    cases heq
    refine ⟨ReflTransGen.single (insertSession_write rfl hinsert), ?_⟩
    obtain ⟨_, _, rfl⟩ := insertSession_eq_ok.mp hinsert
    exact ⟨_, List.mem_append_right _ (List.mem_singleton_self _), rfl⟩

theorem setRoot_write (s : Store) (sessionId nodeId eveSessionId : String) :
    Write s (setRoot s sessionId nodeId eveSessionId) :=
  Write.sessions _ _ (fun _ => rfl) fun _ => rfl

theorem resolveParent_writes {o : AgentEventObservation} {projectId : String} {ids : IngestIds}
    {parent : Option SessionNode} (hparent : resolveParent s o projectId ids = .ok (t, parent)) :
    Writes s t := by
  rw [resolveParent] at hparent
  split at hparent
  · cases hparent
    exact ReflTransGen.refl
  · split at hparent
    · cases hparent
      exact ReflTransGen.refl
    · obtain ⟨⟨opened, row⟩, hopen, hparent⟩ := Outcome.bind_eq_ok.mp hparent
      obtain ⟨inserted, hinsert, heq⟩ := Outcome.bind_eq_ok.mp hparent
      cases heq
      obtain ⟨hwrites, hsession⟩ := findOrOpenSession_writes hopen
      obtain ⟨hfresh, _, rfl⟩ := insertNode_eq_ok.mp hinsert
      exact (hwrites.tail (Write.openNode _ hfresh hsession)).tail (setRoot_write _ _ _ _)

theorem resolveSession_writes {o : AgentEventObservation} {projectId : String}
    {parent : Option SessionNode} {ids : IngestIds} {row : Session}
    (hresolve : resolveSession s o projectId parent ids = .ok (t, row)) :
    Writes s t ∧ t.HasSession row.id := by
  unfold resolveSession at hresolve
  dsimp only at hresolve
  split at hresolve
  · exact findOrOpenSession_writes hresolve
  · split at hresolve
    · next found hfound =>
        cases hresolve
        exact ⟨ReflTransGen.refl, row, List.mem_of_find?_eq_some hfound, rfl⟩
    · rw [openSession] at hresolve
      obtain ⟨opened, hinsert, heq⟩ := Outcome.map_eq_ok.mp hresolve
      cases heq
      refine ⟨ReflTransGen.single (insertSession_write rfl hinsert), ?_⟩
      obtain ⟨_, _, rfl⟩ := insertSession_eq_ok.mp hinsert
      exact ⟨_, List.mem_append_right _ (List.mem_singleton_self _), rfl⟩

theorem openNode_writes {o : AgentEventObservation} {projectId : String} {ids : IngestIds}
    {sessionRow : Session} {node : SessionNode} {isLatest : Bool}
    (hopen : openNode s o projectId ids = .ok (t, sessionRow, node, isLatest)) :
    Writes s t ∧ t.HasNode node.id sessionRow.id o.eveSessionId := by
  obtain ⟨⟨located, parent⟩, hparent, hopen⟩ := Outcome.bind_eq_ok.mp hopen
  obtain ⟨⟨resolved, row⟩, hresolve, hopen⟩ := Outcome.bind_eq_ok.mp hopen
  obtain ⟨inserted, hinsert, hopen⟩ := Outcome.bind_eq_ok.mp hopen
  obtain ⟨hwrites, hsession⟩ := resolveSession_writes hresolve
  obtain ⟨hfresh, _, rfl⟩ := insertNode_eq_ok.mp hinsert
  have hinserted := ((resolveParent_writes hparent).trans hwrites).tail
    (Write.openNode _ hfresh hsession)
  split at hopen
  · cases hopen
    exact ⟨hinserted.tail (setRoot_write _ _ _ _), _,
      List.mem_append_right _ (List.mem_singleton_self _), rfl, rfl, rfl⟩
  · cases hopen
    exact ⟨hinserted, _, List.mem_append_right _ (List.mem_singleton_self _), rfl, rfl, rfl⟩

/-- The node of an observation is in the session it is located in. -/
theorem locateNode_writes {o : AgentEventObservation} {projectId : String} {ids : IngestIds}
    {sessionRow : Session} {node : SessionNode} {isLatest : Bool}
    (hlocate : locateNode s o projectId ids = .ok (t, sessionRow, node, isLatest)) :
    Writes s t ∧ t.HasNode node.id sessionRow.id o.eveSessionId := by
  rw [locateNode] at hlocate
  split at hlocate
  · next found hfound =>
      obtain ⟨hmem, _, heve⟩ := Store.mem_of_findNode hfound
      rw [← heve]
      exact resolveNode_writes hmem hlocate
  · exact openNode_writes hlocate

/-- A node that is located has been observed. -/
theorem locateNode_observed {o : AgentEventObservation} {projectId : String} {ids : IngestIds}
    {sessionRow : Session} {node : SessionNode} {isLatest : Bool}
    (hlocate : locateNode s o projectId ids = .ok (t, sessionRow, node, isLatest)) :
    ∃ row ∈ t.nodes, row.id = node.id ∧ row.rootSessionId = sessionRow.id ∧
      row.resolutionStatus = .observed := by
  rw [locateNode] at hlocate
  split at hlocate
  · next found hfound =>
      obtain ⟨row, hrow, hresolve⟩ := Outcome.bind_eq_ok.mp hlocate
      rw [Outcome.require_eq_ok] at hrow
      have htouched : touchNode o (s.isNewestNodeObservation found.id o.sourceSequence) found ∈
          Table.updateWhere (fun row => row.id = found.id)
            (touchNode o (s.isNewestNodeObservation found.id o.sourceSequence)) s.nodes :=
        Table.mem_updateWhere.mpr (Or.inr ⟨found, (Store.mem_of_findNode hfound).1, by simp, rfl⟩)
      have hroot := (Store.id_of_getSession hrow).symm
      dsimp only at hresolve
      split at hresolve
      · cases hresolve
        exact ⟨_, htouched, rfl, (discoverTrigger_id o row).symm ▸ hroot, rfl⟩
      · cases hresolve
        exact ⟨_, htouched, rfl, hroot, rfl⟩
  · obtain ⟨⟨located, parent⟩, _, hopen⟩ := Outcome.bind_eq_ok.mp hlocate
    obtain ⟨⟨resolved, row⟩, _, hopen⟩ := Outcome.bind_eq_ok.mp hopen
    obtain ⟨inserted, hinsert, hopen⟩ := Outcome.bind_eq_ok.mp hopen
    obtain ⟨_, _, rfl⟩ := insertNode_eq_ok.mp hinsert
    split at hopen <;> cases hopen <;>
      exact ⟨_, List.mem_append_right _ (List.mem_singleton_self _), rfl, rfl, rfl⟩

/-! ## What locating a node leaves alone -/

theorem openSession_usage {o : AgentEventObservation} {projectId id eveSessionId : String}
    {trigger : SessionTrigger} {row : Session}
    (hopen : openSession s o projectId id eveSessionId trigger = .ok (t, row)) :
    t.usage = s.usage := by
  obtain ⟨opened, hinsert, heq⟩ := Outcome.map_eq_ok.mp hopen
  cases heq
  obtain ⟨_, _, rfl⟩ := insertSession_eq_ok.mp hinsert
  rfl

theorem findOrOpenSession_usage {o : AgentEventObservation} {projectId id eveSessionId : String}
    {trigger : SessionTrigger} {row : Session}
    (hfind : findOrOpenSession s o projectId id eveSessionId trigger = .ok (t, row)) :
    t.usage = s.usage := by
  rw [findOrOpenSession] at hfind
  split at hfind
  · cases hfind
    rfl
  · exact openSession_usage hfind

theorem resolveParent_usage {o : AgentEventObservation} {projectId : String} {ids : IngestIds}
    {parent : Option SessionNode} (hparent : resolveParent s o projectId ids = .ok (t, parent)) :
    t.usage = s.usage := by
  rw [resolveParent] at hparent
  split at hparent
  · cases hparent
    rfl
  · split at hparent
    · cases hparent
      rfl
    · obtain ⟨⟨opened, row⟩, hopen, hparent⟩ := Outcome.bind_eq_ok.mp hparent
      obtain ⟨inserted, hinsert, heq⟩ := Outcome.bind_eq_ok.mp hparent
      cases heq
      obtain ⟨_, _, rfl⟩ := insertNode_eq_ok.mp hinsert
      have husage := findOrOpenSession_usage hopen
      exact husage

theorem resolveSession_usage {o : AgentEventObservation} {projectId : String}
    {parent : Option SessionNode} {ids : IngestIds} {row : Session}
    (hresolve : resolveSession s o projectId parent ids = .ok (t, row)) : t.usage = s.usage := by
  unfold resolveSession at hresolve
  dsimp only at hresolve
  split at hresolve
  · exact findOrOpenSession_usage hresolve
  · split at hresolve
    · cases hresolve
      rfl
    · exact openSession_usage hresolve

theorem resolveNode_usage {o : AgentEventObservation} {node node' : SessionNode}
    {sessionRow : Session} {isLatest : Bool}
    (hresolve : resolveNode s o node = .ok (t, sessionRow, node', isLatest)) :
    t.usage = s.usage := by
  obtain ⟨row, _, hresolve⟩ := Outcome.bind_eq_ok.mp hresolve
  dsimp only at hresolve
  split at hresolve <;> cases hresolve <;> rfl

theorem locateNode_usage {o : AgentEventObservation} {projectId : String} {ids : IngestIds}
    {sessionRow : Session} {node : SessionNode} {isLatest : Bool}
    (hlocate : locateNode s o projectId ids = .ok (t, sessionRow, node, isLatest)) :
    t.usage = s.usage := by
  rw [locateNode] at hlocate
  split at hlocate
  · exact resolveNode_usage hlocate
  · obtain ⟨⟨located, parent⟩, hparent, hopen⟩ := Outcome.bind_eq_ok.mp hlocate
    obtain ⟨⟨resolved, row⟩, hresolve, hopen⟩ := Outcome.bind_eq_ok.mp hopen
    obtain ⟨inserted, hinsert, hopen⟩ := Outcome.bind_eq_ok.mp hopen
    obtain ⟨_, _, rfl⟩ := insertNode_eq_ok.mp hinsert
    have husage := (resolveSession_usage hresolve).trans (resolveParent_usage hparent)
    split at hopen <;> cases hopen <;> exact husage

/-! ## The projections -/

theorem Store.HasNode.congr {nodeId sessionId eveSessionId : String}
    (hnode : s.HasNode nodeId sessionId eveSessionId) (hnodes : t.nodes = s.nodes) :
    t.HasNode nodeId sessionId eveSessionId := by
  obtain ⟨node, hmem, hnode⟩ := hnode
  exact ⟨node, hnodes ▸ hmem, hnode⟩

theorem projectNode_keeps (o : AgentEventObservation) (reading : EventReading)
    (projected : Option SessionStatus) (node : SessionNode) :
    (projectNode o reading projected node).id = node.id ∧
      (projectNode o reading projected node).rootSessionId = node.rootSessionId ∧
      (projectNode o reading projected node).eveSessionId = node.eveSessionId ∧
      (projectNode o reading projected node).parentNodeId = node.parentNodeId :=
  ⟨rfl, rfl, rfl, rfl⟩

/-- The projection onto the status keeps nodes in their sessions. -/
theorem projectStatus_writes (s : Store) (o : AgentEventObservation) (reading : EventReading)
    (node : SessionNode) (sessionRow : Session) (projected : Option SessionStatus) (now : ℤ) :
    Writes s (projectStatus s o reading node sessionRow projected now).1 ∧
      (projectStatus s o reading node sessionRow projected now).1.nodes =
        Table.updateWhere (fun row => row.id = node.id) (projectNode o reading projected) s.nodes ∧
      (projectStatus s o reading node sessionRow projected now).2.1 =
        projectNode o reading projected node ∧
      (projectStatus s o reading node sessionRow projected now).2.2.id = sessionRow.id := by
  have hnodes := Write.nodes (s := s) (fun row => row.id = node.id)
    (projectNode o reading projected) (fun _ => rfl) fun _ _ _ => ⟨rfl, rfl, fun _ => rfl⟩
  unfold projectStatus
  cases projected with
  | none => exact ⟨ReflTransGen.single hnodes, rfl, rfl, rfl⟩
  | some status =>
      dsimp only
      split
      · refine ⟨?_, rfl, rfl, rfl⟩
        apply ReflTransGen.tail (ReflTransGen.single hnodes)
        exact Write.sessions _ _ (fun _ => rfl) fun _ => rfl
      · exact ⟨ReflTransGen.single hnodes, rfl, rfl, rfl⟩

theorem releaseRunLeases_write (s : Store) (owns : RuntimeStore.ActivationLease → Bool) (now : ℤ) :
    Write s (releaseRunLeases s owns now) :=
  Write.leases _

theorem settleRun_writes (s : Store) (scheduleRunId : String) (now : ℤ) :
    Writes s (settleRun s scheduleRunId now) ∧ (settleRun s scheduleRunId now).nodes = s.nodes := by
  rw [settleRun]
  dsimp only
  split
  · exact ⟨ReflTransGen.refl, rfl⟩
  · refine ⟨?_, rfl⟩
    apply ReflTransGen.tail (ReflTransGen.single (Write.runs _))
    exact releaseRunLeases_write _ _ _

theorem projectExecution_writes (s : Store) (reading : EventReading) (node : SessionNode)
    (sessionRow : Session) (now : ℤ) :
    Writes s (projectExecution s reading node sessionRow now) ∧
      (projectExecution s reading node sessionRow now).nodes = s.nodes := by
  rw [projectExecution]
  split
  · exact ⟨ReflTransGen.refl, rfl⟩
  · dsimp only
    split
    · exact ⟨ReflTransGen.single (Write.executions _ _ fun _ => ⟨rfl, rfl⟩), rfl⟩
    · obtain ⟨hsettle, hnodes⟩ := settleRun_writes _ _ now
      refine ⟨ReflTransGen.head ?_ hsettle, hnodes⟩
      exact Write.executions _ _ fun _ => ⟨rfl, rfl⟩

/-- Adopting a session leaves every node of it in the session that adopts it. -/
theorem adoptSession_writes {oldRootSessionId sessionId : String}
    (hold : s.HasSession oldRootSessionId) (hsession : s.HasSession sessionId)
    (hadopt : adoptSession s oldRootSessionId sessionId = .ok t) :
    Writes s t ∧ t.nodes = Table.updateWhere (fun row => row.rootSessionId = oldRootSessionId)
      (fun row => { row with rootSessionId := sessionId }) s.nodes := by
  rw [adoptSession] at hadopt
  split at hadopt
  · next hsame =>
      cases hadopt
      refine ⟨ReflTransGen.refl, ?_⟩
      symm
      apply Table.updateWhere_eq_self
      intro row _ hrow
      rw [decide_eq_true_eq] at hrow
      rw [← hsame, ← hrow]
  · next hne =>
      split at hadopt
      · next absorbed habsorbed =>
          obtain ⟨hcollides, rfl⟩ := mergeSessionRows_eq_ok.mp hadopt
          obtain rfl := Store.id_of_getSession habsorbed
          refine ⟨ReflTransGen.single ?_, rfl⟩
          exact Write.merge absorbed sessionId _ (List.mem_of_find?_eq_some habsorbed) hsession hne
            (fun _ => rfl) hcollides
      · next hnone =>
          rw [← Store.getSession_isSome, hnone] at hold
          cases hold

/-- Once its session is adopted, a child is in the session that adopts it. -/
theorem adoptSession_root {child : SessionNode} {sessionId : String} (hkeyed : Keyed s)
    (hmem : child ∈ s.nodes)
    (hnodes : t.nodes = Table.updateWhere (fun row => row.rootSessionId = child.rootSessionId)
      (fun row => { row with rootSessionId := sessionId }) s.nodes) :
    ∀ row ∈ t.nodes, row.id = child.id → row.rootSessionId = sessionId := by
  intro row hrow hid
  rw [hnodes] at hrow
  rcases Table.mem_updateWhere.mp hrow with ⟨hold, hother⟩ | ⟨old, _, _, rfl⟩
  · rw [hkeyed.nodeIds.eq hold hmem hid] at hother
    simp at hother
  · rfl

/-- The link of a child moves no node to another session: its session is adopted before. -/
theorem linkChild_writes {o : AgentEventObservation} {reading : EventReading}
    {node : SessionNode} {projectId sessionId id nodeId eveSessionId : String} (hkeyed : Keyed s)
    (hnode : s.HasNode nodeId sessionId eveSessionId)
    (hlink : linkChild s o reading node projectId sessionId id = .ok t) :
    Writes s t ∧ t.HasNode nodeId sessionId eveSessionId := by
  rw [linkChild] at hlink
  split at hlink
  · cases hlink
    exact ⟨ReflTransGen.refl, hnode⟩
  · split at hlink
    · next child hchild =>
        obtain ⟨adopted, hadopt, heq⟩ := Outcome.bind_eq_ok.mp hlink
        cases heq
        obtain ⟨hmem, _, _⟩ := Store.mem_of_findNode hchild
        obtain ⟨hwrites, hnodes⟩ := adoptSession_writes (hkeyed.nodesHeld child hmem)
          (hnode.hasSession hkeyed) hadopt
        have hroot := adoptSession_root hkeyed hmem hnodes
        have hadopted : adopted.HasNode nodeId sessionId eveSessionId := by
          obtain ⟨row, hrow, rfl, rfl, rfl⟩ := hnode
          by_cases hold : row.rootSessionId = child.rootSessionId
          · refine ⟨{ row with rootSessionId := row.rootSessionId }, ?_, rfl, rfl, rfl⟩
            rw [hnodes]
            exact Table.mem_updateWhere.mpr (Or.inr ⟨row, hrow, by simpa using hold, rfl⟩)
          · refine ⟨row, ?_, rfl, rfl, rfl⟩
            rw [hnodes]
            exact Table.mem_updateWhere_of_not hrow (by simpa using hold)
        have hkeeps : ∀ row ∈ adopted.nodes, decide (row.id = child.id) = true →
            row.Stays (linkNode reading node sessionId row) :=
          fun row hrow hid => ⟨(hroot row hrow (by simpa using hid)).symm, rfl, fun hseen => hseen⟩
        exact ⟨hwrites.tail (Write.nodes _ _ (fun _ => rfl) hkeeps),
          hadopted.updateWhere (fun _ => rfl) hkeeps⟩
    · obtain ⟨hfresh, _, rfl⟩ := insertNode_eq_ok.mp hlink
      exact ⟨ReflTransGen.single (Write.openNode _ hfresh (hnode.hasSession hkeyed)),
        hnode.append⟩

theorem projectStatus_usage (s : Store) (o : AgentEventObservation) (reading : EventReading)
    (node : SessionNode) (sessionRow : Session) (projected : Option SessionStatus) (now : ℤ) :
    (projectStatus s o reading node sessionRow projected now).1.usage = s.usage := by
  unfold projectStatus
  cases projected with
  | none => rfl
  | some status =>
      dsimp only
      split <;> rfl

theorem projectExecution_usage (s : Store) (reading : EventReading) (node : SessionNode)
    (sessionRow : Session) (now : ℤ) :
    (projectExecution s reading node sessionRow now).usage = s.usage := by
  rw [projectExecution]
  split
  · rfl
  · dsimp only
    split
    · rfl
    · rw [settleRun]
      dsimp only
      split <;> rfl

/-- Linking a child may move usage rows, and draws none. -/
theorem linkChild_usage {o : AgentEventObservation} {reading : EventReading}
    {node : SessionNode} {projectId sessionId id : String}
    (hlink : linkChild s o reading node projectId sessionId id = .ok t) :
    t.usage.map ModelUsageEvent.id = s.usage.map ModelUsageEvent.id := by
  rw [linkChild] at hlink
  split at hlink
  · cases hlink
    rfl
  · split at hlink
    · obtain ⟨adopted, hadopt, heq⟩ := Outcome.bind_eq_ok.mp hlink
      cases heq
      rw [adoptSession] at hadopt
      split at hadopt
      · cases hadopt
        rfl
      · split at hadopt
        · obtain ⟨_, rfl⟩ := mergeSessionRows_eq_ok.mp hadopt
          exact Table.map_updateWhere (fun _ => by rfl) _
        · cases hadopt
          exact Table.map_updateWhere (fun _ => by rfl) _
    · obtain ⟨_, _, rfl⟩ := insertNode_eq_ok.mp hlink
      rfl

/-- A row of usage that was read off an event and is not reported holds no figures. -/
theorem usageRow_contribution {o : AgentEventObservation} {usage : ModelStepUsage}
    (hreading : usage.IsReading) (node : SessionNode) (sessionId id : String)
    (hmissing : usage.usageReported = false) :
    (usageRow o usage node sessionId id).contribution = missingStep := by
  obtain ⟨hinput, houtput, hread, hwrite, hcost⟩ := hreading hmissing
  simp only [ModelUsageEvent.contribution, usageRow, hinput, houtput, hread, hwrite, hcost,
    hmissing]
  rfl

theorem projectUsage_writes {row : ModelUsageEvent} {nodeId : String} (hkeyed : Keyed s)
    (hnodeId : row.sessionNodeId = some nodeId)
    (howned : s.HasNode nodeId row.sessionId row.eveSessionId)
    (hreading : row.usageReported = false → row.contribution = missingStep) :
    Writes s (projectUsage s row) ∧ (projectUsage s row).nodes = s.nodes := by
  rw [projectUsage]
  split
  · split
    · next hreport =>
        simp only [Bool.and_eq_true, List.any_eq_true] at hreport
        refine ⟨ReflTransGen.single ?_, rfl⟩
        exact Write.reconcile row nodeId hnodeId howned hreport.2 hreport.1
    · exact ⟨ReflTransGen.refl, rfl⟩
  · next hfree =>
      simp only [List.any_eq_true, Bool.or_eq_true, decide_eq_true_eq, not_exists, not_and,
        not_or, Bool.not_eq_true] at hfree
      refine ⟨ReflTransGen.single ?_, rfl⟩
      apply Write.recordUsage
      · exact howned.hasSession hkeyed
      · intro other hother
        rw [hnodeId] at hother
        cases hother
        exact howned
      · exact fun other hother => (hfree other hother).1.1
      · exact fun other hother => (hfree other hother).1.2
      · exact fun other hother => (hfree other hother).2
      · exact fun _ hmissing => hreading hmissing

theorem projectReading_writes {o : AgentEventObservation} (reading : EventReading)
    {node : SessionNode} {sessionId : String} (id : String) (hkeyed : Keyed s)
    (hnode : s.HasNode node.id sessionId o.eveSessionId) :
    Writes s (projectReading s o reading node sessionId id) ∧
      (projectReading s o reading node sessionId id).nodes = s.nodes := by
  rw [projectReading]
  split
  · exact ⟨ReflTransGen.refl, rfl⟩
  · next usage husage =>
      exact projectUsage_writes hkeyed rfl hnode
        (usageRow_contribution (usageOfEvent_isReading husage) node sessionId id)

/-- The stages of an observation that is recorded. -/
theorem recordObservation_eq_ok {o : AgentEventObservation} {projectId : String}
    {sessionRow : Session} {node : SessionNode} {isLatest : Bool} {ids : IngestIds} {now : ℤ}
    {result : IngestResult}
    (hrecord : recordObservation s o projectId sessionRow node isLatest ids now =
      .ok (t, result)) :
    ∃ appended projected linked : Store, ∃ event : SessionEvent, ∃ node' : SessionNode,
      ∃ sessionRow' : Session,
      appendSessionEventRow s
          (eventInsert o (readEvent o.event) sessionRow.id node.id ids.event now) =
        .ok (appended, event) ∧
      projectStatus appended o (readEvent o.event) node sessionRow
          (projectedStatus (readEvent o.event) node.status isLatest) now =
        (projected, node', sessionRow') ∧
      linkChild (projectExecution projected (readEvent o.event) node' sessionRow' now) o
          (readEvent o.event) node' projectId sessionRow'.id ids.child =
        .ok linked ∧
      t = projectReading linked o (readEvent o.event) node' sessionRow'.id ids.usage ∧
      t.getSession sessionRow'.id = some result.session ∧ result.node = node' ∧
      result.event = event ∧ result.duplicate = false := by
  obtain ⟨⟨appended, event⟩, happend, hrecord⟩ := Outcome.bind_eq_ok.mp hrecord
  dsimp only at hrecord
  rcases hprojected : projectStatus appended o (readEvent o.event) node sessionRow
    (projectedStatus (readEvent o.event) node.status isLatest) now with
    ⟨projected, node', sessionRow'⟩
  rw [hprojected] at hrecord
  obtain ⟨linked, hlink, hrecord⟩ := Outcome.bind_eq_ok.mp hrecord
  obtain ⟨found, hfound, hrecord⟩ := Outcome.bind_eq_ok.mp hrecord
  cases hrecord
  rw [Outcome.require_eq_ok] at hfound
  exact ⟨appended, projected, linked, event, node', sessionRow', happend, hprojected, hlink, rfl,
    hfound, rfl, rfl, rfl⟩

/-- An observation that is recorded writes, finds its node still in a session once its child is
linked, and has its usage projected there at the end. -/
theorem recordObservation_stages {o : AgentEventObservation} {projectId : String}
    {sessionRow : Session} {node : SessionNode} {isLatest : Bool} {ids : IngestIds} {now : ℤ}
    {result : IngestResult} (hkeyed : Keyed s)
    (hnode : s.HasNode node.id sessionRow.id o.eveSessionId)
    (hobserved : ∃ row ∈ s.nodes, row.id = node.id ∧ row.rootSessionId = sessionRow.id ∧
      row.resolutionStatus = .observed)
    (hrecord : recordObservation s o projectId sessionRow node isLatest ids now =
      .ok (t, result)) :
    ∃ linked sessionId, Writes s linked ∧
      linked.HasNode result.node.id sessionId o.eveSessionId ∧
      linked.usage.map ModelUsageEvent.id = s.usage.map ModelUsageEvent.id ∧
      t = projectReading linked o (readEvent o.event) result.node sessionId ids.usage := by
  obtain ⟨appended, projected, linked, event, node', sessionRow', happend, hprojected, hlink, rfl,
    _, rfl, _, _⟩ := recordObservation_eq_ok hrecord
  have happended : Writes s appended := by
    apply ReflTransGen.single (appendSessionEventRow_write ?_ happend)
    intro nodeId hnodeId
    obtain ⟨row, hrow, hid, hroot, hrowObserved⟩ := hobserved
    cases hnodeId
    exact ⟨row, hrow, hid, hroot, fun _ => hrowObserved⟩
  obtain ⟨hnodes, husage⟩ : appended.nodes = s.nodes ∧ appended.usage = s.usage := by
    obtain ⟨_, _, _, _, rfl⟩ := appendSessionEventRow_eq_ok.mp happend
    exact ⟨rfl, rfl⟩
  have hstatus := projectStatus_writes appended o (readEvent o.event) node sessionRow
    (projectedStatus (readEvent o.event) node.status isLatest) now
  have hstatusUsage := projectStatus_usage appended o (readEvent o.event) node sessionRow
    (projectedStatus (readEvent o.event) node.status isLatest) now
  rw [hprojected] at hstatus hstatusUsage
  obtain ⟨hprojectedWrites, hprojectedNodes, hnode', hid⟩ := hstatus
  dsimp only at hprojectedWrites hprojectedNodes hnode' hid hstatusUsage
  have hexecuted := projectExecution_writes projected (readEvent o.event) result.node sessionRow' now
  have hexecutedUsage := projectExecution_usage projected (readEvent o.event) result.node
    sessionRow' now
  have hbefore := (happended.trans hprojectedWrites).trans hexecuted.1
  have hplaced : Store.HasNode
      (projectExecution projected (readEvent o.event) result.node sessionRow' now)
      result.node.id sessionRow'.id o.eveSessionId := by
    have hupdated := (hnode.congr hnodes).updateWhere (p := fun row => row.id = node.id)
      (f := projectNode o (readEvent o.event)
        (projectedStatus (readEvent o.event) node.status isLatest))
      (fun _ => rfl) fun _ _ _ => ⟨rfl, rfl, fun _ => rfl⟩
    have hsame : result.node.id = node.id := by rw [hnode']; rfl
    rw [hid, hsame]
    exact hupdated.congr (hexecuted.2.trans hprojectedNodes)
  have hlinked := linkChild_writes (Writes.keyed hbefore hkeyed) hplaced hlink
  refine ⟨linked, sessionRow'.id, hbefore.trans hlinked.1, hlinked.2, ?_, rfl⟩
  rw [linkChild_usage hlink, hexecutedUsage, hstatusUsage, husage]

theorem recordObservation_writes {o : AgentEventObservation} {projectId : String}
    {sessionRow : Session} {node : SessionNode} {isLatest : Bool} {ids : IngestIds} {now : ℤ}
    {result : IngestResult} (hkeyed : Keyed s)
    (hnode : s.HasNode node.id sessionRow.id o.eveSessionId)
    (hobserved : ∃ row ∈ s.nodes, row.id = node.id ∧ row.rootSessionId = sessionRow.id ∧
      row.resolutionStatus = .observed)
    (hrecord : recordObservation s o projectId sessionRow node isLatest ids now =
      .ok (t, result)) : Writes s t := by
  obtain ⟨linked, sessionId, hlinked, hplaced, _, rfl⟩ :=
    recordObservation_stages hkeyed hnode hobserved hrecord
  exact hlinked.trans (projectReading_writes _ _ (Writes.keyed hlinked hkeyed) hplaced).1

/-- `ingestPostgresAgentEvent` writes. -/
theorem ingestAgentEvent_writes {o : AgentEventObservation} {ids : IngestIds} {now : ℤ}
    {result : IngestResult} (hkeyed : Keyed s)
    (hingest : ingestAgentEvent s o ids now = .ok (t, result)) : Writes s t := by
  obtain ⟨deployment, _, hingest⟩ := Outcome.bind_eq_ok.mp hingest
  obtain ⟨⟨located, sessionRow, node, isLatest⟩, hlocate, hingest⟩ := Outcome.bind_eq_ok.mp hingest
  obtain ⟨hwrites, hnode⟩ := locateNode_writes hlocate
  dsimp only at hingest
  split at hingest
  · cases hingest
    exact hwrites
  · exact hwrites.trans (recordObservation_writes (hwrites.keyed hkeyed) hnode
      (locateNode_observed hlocate) hingest)

/-! ## Schedule runs -/

theorem insertRun_write {run : ScheduleRun} (hinsert : insertRun s run = .ok t) : Write s t := by
  obtain ⟨_, _, heq⟩ := Outcome.bind_eq_ok.mp hinsert
  cases heq
  exact Write.runs _

theorem updateRun_write (s : Store) (scheduleRunId : String) (condition : ScheduleRun → Bool)
    (change : ScheduleRun → ScheduleRun) :
    Write s (updateRun s scheduleRunId condition change).1 :=
  Write.runs _

theorem linkDispatched_writes {run : ScheduleRun} {projectId eveSessionId sessionId linkedId : String}
    {now : ℤ}
    (hlink : linkDispatched s run projectId eveSessionId sessionId now = .ok (t, linkedId)) :
    Writes s t ∧ t.HasSession linkedId := by
  rw [linkDispatched] at hlink
  split at hlink
  · next existing hexisting =>
      cases hlink
      refine ⟨ReflTransGen.single (Write.sessions _ _ (fun _ => rfl) fun _ => rfl), ?_⟩
      exact (Write.hasSession_updateWhere fun _ => by rfl).mpr
        ⟨existing, (Store.mem_of_findSession hexisting).1, rfl⟩
  · obtain ⟨inserted, hinsert, heq⟩ := Outcome.map_eq_ok.mp hlink
    cases heq
    refine ⟨ReflTransGen.single (insertSession_write rfl hinsert), ?_⟩
    obtain ⟨_, _, rfl⟩ := insertSession_eq_ok.mp hinsert
    exact ⟨_, List.mem_append_right _ (List.mem_singleton_self _), rfl⟩

theorem insertExecution_writes {row : ScheduleRunSession} (hheld : s.HasSession row.sessionId) :
    Writes s (insertExecution s row) := by
  rw [insertExecution]
  split
  · exact ReflTransGen.refl
  · exact ReflTransGen.single (Write.openExecution row hheld)

theorem dispatchSession_writes {run : ScheduleRun} {projectId : String} {input : CompleteRunInput}
    {reportedError : Option String} {eveSessionId sessionId : String} {now : ℤ}
    (hdispatch : dispatchSession s run projectId input reportedError eveSessionId sessionId now =
      .ok t) : Writes s t := by
  obtain ⟨⟨linked, linkedId⟩, hlink, heq⟩ := Outcome.bind_eq_ok.mp hdispatch
  cases heq
  obtain ⟨hwrites, hsession⟩ := linkDispatched_writes hlink
  exact hwrites.trans (insertExecution_writes hsession)

theorem dispatchSessions_writes {run : ScheduleRun} {projectId : String}
    {input : CompleteRunInput} {reportedError : Option String} {newId : ℕ → String} {now : ℤ}
    {eveSessionIds : List String} {draw : ℕ}
    (hdispatch : dispatchSessions run projectId input reportedError newId now eveSessionIds draw s =
      .ok t) : Writes s t := by
  induction eveSessionIds generalizing s draw with
  | nil =>
      cases hdispatch
      exact ReflTransGen.refl
  | cons eveSessionId rest ih =>
      obtain ⟨dispatched, hfirst, hrest⟩ := Outcome.bind_eq_ok.mp hdispatch
      exact (dispatchSession_writes hfirst).trans (ih hrest)

theorem finishRun_writes (s : Store) (scheduleRunId : String) (completion : Completion) (now : ℤ) :
    Writes s (finishRun s scheduleRunId completion now).1 := by
  have hupdate := updateRun_write s scheduleRunId (fun _ => true) (completion.apply now)
  rw [finishRun]
  split
  · exact ReflTransGen.single hupdate
  · exact (ReflTransGen.single hupdate).tail (releaseRunLeases_write _ _ now)

/-- The stages of a completion of a run that exists. -/
theorem completeScheduleRun_eq_ok {scheduleRunId : String} {input : CompleteRunInput}
    {newId : ℕ → String} {now : ℤ} {result : Option ScheduleRun} {run : ScheduleRun}
    (hrun : s.getRun scheduleRunId = some run) :
    completeScheduleRun s scheduleRunId input newId now = .ok (t, result) ↔
      ∃ schedule dispatched,
        (s.schedules.find? fun row => row.id = run.scheduleId) = some schedule ∧
        dispatchSessions run schedule.projectId input (input.error.map sanitizeStoredErrorText)
          newId now (distinct input.eveSessionIds) 0 s = .ok dispatched ∧
        (t, result) = finishRun dispatched scheduleRunId
          (completionOf (if input.eveSessionIds.isEmpty then [] else dispatched.executionsOf run.id)
            input (input.error.map sanitizeStoredErrorText)) now := by
  simp only [completeScheduleRun, hrun, Outcome.bind_eq_ok, Outcome.require_eq_ok]
  constructor
  · rintro ⟨schedule, hschedule, dispatched, hdispatch, heq⟩
    exact ⟨schedule, dispatched, hschedule, hdispatch, (Except.ok.inj heq).symm⟩
  · rintro ⟨schedule, dispatched, hschedule, hdispatch, heq⟩
    exact ⟨schedule, hschedule, dispatched, hdispatch, congrArg Except.ok heq.symm⟩

theorem completeScheduleRun_writes {scheduleRunId : String} {input : CompleteRunInput}
    {newId : ℕ → String} {now : ℤ} {result : Option ScheduleRun}
    (hcomplete : completeScheduleRun s scheduleRunId input newId now = .ok (t, result)) :
    Writes s t := by
  cases hrun : s.getRun scheduleRunId with
  | none =>
      rw [completeScheduleRun, hrun] at hcomplete
      cases hcomplete
      exact ReflTransGen.refl
  | some run =>
      obtain ⟨schedule, dispatched, _, hdispatch, hfinish⟩ :=
        (completeScheduleRun_eq_ok hrun).mp hcomplete
      have hfinished := finishRun_writes dispatched scheduleRunId (completionOf
        (if input.eveSessionIds.isEmpty then [] else dispatched.executionsOf run.id) input
        (input.error.map sanitizeStoredErrorText)) now
      rw [← hfinish] at hfinished
      exact (dispatchSessions_writes hdispatch).trans hfinished

/-! ## Sweeps -/

theorem failSessions_write (s : Store) (sessionIds : List String) (error : String) (now : ℤ) :
    Write s (failSessions s sessionIds error now) :=
  Write.sessions _ _ (fun _ => rfl) fun _ => rfl

theorem failExecutions_write (s : Store) (runIds sessionIds : List String) (reason : String)
    (now : ℤ) : Write s (failExecutions s runIds sessionIds reason now) :=
  Write.executions _ _ fun _ => ⟨rfl, rfl⟩

theorem failExecutionsOf_write (s : Store) (scheduleRunId reason : String) (now : ℤ) :
    Write s (failExecutionsOf s scheduleRunId reason now) :=
  Write.executions _ _ fun _ => ⟨rfl, rfl⟩

theorem failRuns_write (s : Store) (selected : ScheduleRun → Bool) (reason : String) (now : ℤ) :
    Write s (failRuns s selected reason now) :=
  Write.runs _

theorem failNodes_write (s : Store) (nodeIds : List String) : Write s (failNodes s nodeIds) :=
  Write.nodes _ _ (fun _ => rfl) fun _ _ _ => ⟨rfl, rfl, id⟩

theorem appendRuntimeLostEvents_writes {runtimeInstanceId reason : String} {newId : ℕ → String}
    {now : ℤ} {lost : List (String × Option (String × String))} {draw : ℕ}
    (hnodes : ∀ entry ∈ lost, ∀ found, entry.2 = some found → s.HoldsNode found.1 entry.1)
    (happend : appendRuntimeLostEvents runtimeInstanceId reason newId now lost draw s = .ok t) :
    Writes s t := by
  induction lost generalizing s draw with
  | nil =>
      cases happend
      exact ReflTransGen.refl
  | cons first rest ih =>
      obtain ⟨appended, hfirst, hrest⟩ := Outcome.bind_eq_ok.mp happend
      obtain ⟨hwrites, hsame⟩ :=
        appendRuntimeLostEventTx_writes (hnodes first List.mem_cons_self) hfirst
      refine hwrites.trans (ih ?_ hrest)
      intro entry hentry found hfound
      obtain ⟨node, hnode, hheld⟩ := hnodes entry (List.mem_cons_of_mem _ hentry) found hfound
      exact ⟨node, hsame ▸ hnode, hheld⟩

theorem failScheduleExecutionsForRuntimeInstance_writes {runtimeInstanceId reason : String}
    {newId : ℕ → String} {now : ℤ}
    (hfail : failScheduleExecutionsForRuntimeInstance s runtimeInstanceId reason newId now =
      .ok t) : Writes s t := by
  obtain ⟨appended, happend, heq⟩ := Outcome.bind_eq_ok.mp hfail
  cases heq
  have hnone : ∀ {sessionIds : List String}, ∀ entry ∈ sessionIds.map
      (fun sessionId => (sessionId, (none : Option (String × String)))),
      ∀ found, entry.2 = some found → Store.HoldsNode (failSessions (failExecutions s
        ((s.executionsOn runtimeInstanceId).map fun row => row.scheduleRunId)
        ((s.executionsOn runtimeInstanceId).map fun row => row.sessionId) reason now)
        ((s.executionsOn runtimeInstanceId).map fun row => row.sessionId)
        (sanitizeStoredErrorText reason) now) found.1 entry.1 := by
    intro sessionIds entry hentry found hfound
    obtain ⟨sessionId, _, rfl⟩ := List.mem_map.mp hentry
    cases hfound
  have hfailed := ((ReflTransGen.single (failExecutions_write s _ _ reason now)).tail
    (failSessions_write _ _ _ now)).trans (appendRuntimeLostEvents_writes hnone happend)
  exact (hfailed.tail (failRuns_write _ _ reason now)).tail (releaseRunLeases_write _ _ now)

theorem failRunningSessionsForRuntimeInstance_writes {runtimeInstanceId reason : String}
    {newId : ℕ → String} {now : ℤ}
    (hfail : failRunningSessionsForRuntimeInstance s runtimeInstanceId reason newId now = .ok t) :
    Writes s t := by
  obtain ⟨appended, happend, heq⟩ := Outcome.bind_eq_ok.mp hfail
  cases heq
  -- The nodes the events name are those that were found, failed by now.
  have hheld : ∀ entry ∈ (s.sessionsOn runtimeInstanceId).map (fun node =>
      (node.rootSessionId, some (node.id, node.lastObservedDeploymentId))),
      ∀ found, entry.2 = some found → Store.HoldsNode (failNodes (failSessions s
        ((s.sessionsOn runtimeInstanceId).map fun node => node.rootSessionId)
        (sanitizeStoredErrorText reason) now)
        ((s.sessionsOn runtimeInstanceId).map fun node => node.id)) found.1 entry.1 := by
    intro entry hentry found hfound
    obtain ⟨node, hnode, rfl⟩ := List.mem_map.mp hentry
    cases hfound
    refine ⟨{ node with status := .failed }, Table.mem_updateWhere.mpr (Or.inr ⟨node, ?_, ?_, rfl⟩),
      rfl, rfl⟩
    · exact List.mem_of_mem_filter hnode
    · simpa using ⟨node, hnode, rfl⟩
  have hfailed := ((ReflTransGen.single (failSessions_write s _ _ now)).tail
    (failNodes_write _ _)).trans (appendRuntimeLostEvents_writes hheld happend)
  exact ((hfailed.tail (failExecutions_write _ _ _ reason now)).tail
    (failRuns_write _ _ reason now)).tail (releaseRunLeases_write _ _ now)

theorem appendDeadlineEvents_writes {runtimeInstanceId reason : String} {newId : ℕ → String}
    {now : ℤ} {sessionIds : List String} {draw : ℕ}
    (happend : appendDeadlineEvents runtimeInstanceId reason newId now sessionIds draw s = .ok t) :
    Writes s t := by
  induction sessionIds generalizing s draw with
  | nil =>
      cases happend
      exact ReflTransGen.refl
  | cons sessionId rest ih =>
      obtain ⟨⟨appended, event⟩, hfirst, hrest⟩ := Outcome.bind_eq_ok.mp happend
      exact ReflTransGen.head
        (appendSessionEventRow_write (Store.ownsEvent_of_none rfl) hfirst) (ih hrest)

theorem failExpiredRun_writes {scheduleRunId runtimeInstanceId : String} {newId : ℕ → String}
    {now : ℤ} (hfail : failExpiredRun s scheduleRunId runtimeInstanceId newId now = .ok t) :
    Writes s t := by
  rw [failExpiredRun] at hfail
  dsimp only at hfail
  split at hfail
  · cases hfail
    exact ReflTransGen.refl
  · obtain ⟨appended, happend, heq⟩ := Outcome.bind_eq_ok.mp hfail
    cases heq
    have hfailed := ((ReflTransGen.single (failExecutionsOf_write s _ _ now)).tail
      (failSessions_write _ _ _ now)).trans (appendDeadlineEvents_writes happend)
    exact (hfailed.tail (failRuns_write _ _ _ now)).tail (releaseRunLeases_write _ _ now)

theorem failExpiredScheduleExecutions_writes {limit : ℕ} {newId : ℕ → ℕ → String} {now : ℤ}
    (hfail : failExpiredScheduleExecutions s limit newId now = .ok t) : Writes s t := by
  rw [failExpiredScheduleExecutions, Outcome.guard_eq_ok] at hfail
  obtain ⟨_, hfail⟩ := hfail
  generalize (s.expiredRuns now).take limit = expired at hfail
  generalize 0 = draw at hfail
  induction expired generalizing s draw with
  | nil =>
      cases hfail
      exact ReflTransGen.refl
  | cons first rest ih =>
      obtain ⟨failed, hfirst, hrest⟩ := Outcome.bind_eq_ok.mp hfail
      exact (failExpiredRun_writes hfirst).trans (ih _ hrest)

end Eveland.Telemetry
