/-
# What the session operations write

Every operation on sessions is a sequence of a few kinds of writes. `Write` lists them, with what
each may rely on: which rows it may touch, which columns it keeps, which rows it finds in place.
One lemma for each operation says which writes it makes. What every kind of write preserves is
then preserved by every operation.

Pruning is not among them: it is the only operation that deletes what was recorded.
-/

import Mathlib.Logic.Relation
import Eveland.Telemetry.ScheduleRuns

namespace Eveland.Telemetry

open Outcome (ensure require)
open Relation (ReflTransGen)

/-! ## References -/

/-- A node stays in its session, under its Eve session id, and observed if it was. -/
def SessionNode.Stays (node after : SessionNode) : Prop :=
  after.rootSessionId = node.rootSessionId ∧ after.eveSessionId = node.eveSessionId ∧
    (node.resolutionStatus = .observed → after.resolutionStatus = .observed)

namespace Store

/-- The store has a session with this id. -/
def HasSession (s : Store) (id : String) : Prop := ∃ row ∈ s.sessions, row.id = id

/-- A node of this id and Eve session id belongs to this session. -/
def HasNode (s : Store) (nodeId sessionId eveSessionId : String) : Prop :=
  ∃ node ∈ s.nodes, node.id = nodeId ∧ node.rootSessionId = sessionId ∧
    node.eveSessionId = eveSessionId

/-- The node an event names is in the event's session, and has been observed if the event has the
identity of an observation. -/
def OwnsEvent (s : Store) (event : SessionEventInsert) : Prop :=
  ∀ nodeId, event.sessionNodeId = some nodeId → ∃ node ∈ s.nodes, node.id = nodeId ∧
    node.rootSessionId = event.sessionId ∧
      ((event.telemetryEventId.isSome || event.eventFingerprint.isSome) = true →
        node.resolutionStatus = .observed)

variable {s : Store}

theorem hasSession_of_getSession {id : String} {row : Session} (hrow : s.getSession id = some row) :
    s.HasSession id :=
  ⟨row, List.mem_of_find?_eq_some hrow, by simpa using List.find?_some hrow⟩

theorem getSession_isSome {id : String} : (s.getSession id).isSome ↔ s.HasSession id := by
  simp [getSession, HasSession]

theorem id_of_getSession {id : String} {row : Session} (hrow : s.getSession id = some row) :
    row.id = id := by
  simpa using List.find?_some hrow

end Store

/-- The primary keys and the foreign keys of the tables. -/
structure Keyed (s : Store) : Prop where
  sessionIds : Table.UniqueOn Session.id s.sessions
  nodeIds : Table.UniqueOn SessionNode.id s.nodes
  nodesHeld : ∀ node ∈ s.nodes, s.HasSession node.rootSessionId
  eventsHeld : ∀ event ∈ s.events, s.HasSession event.sessionId
  eventsOwned : ∀ event ∈ s.events, s.OwnsEvent event.toSessionEventInsert
  usageHeld : ∀ row ∈ s.usage, s.HasSession row.sessionId
  executionsHeld : ∀ row ∈ s.executions, s.HasSession row.sessionId

/-! ## Single writes -/

/-- The store a merge leaves. -/
def merged (s : Store) (absorbed : Session) (survivingSessionId : String)
    (patch : Session → Session) : Store :=
  { s with
    nodes := Table.updateWhere (fun row => row.rootSessionId = absorbed.id)
      (fun row => { row with rootSessionId := survivingSessionId }) s.nodes
    events := (moveSessionEventsForMerge s absorbed.id survivingSessionId).events
    usage := Table.updateWhere (fun row => row.sessionId = absorbed.id)
      (fun row => { row with sessionId := survivingSessionId }) s.usage
    sessions := (Table.updateWhere (fun row => row.id = survivingSessionId)
      (fun row => { patch row with counters := row.counters + absorbed.counters })
      s.sessions).filter fun row => row.id ≠ absorbed.id
    executions := s.executions.filter fun row => row.sessionId ≠ absorbed.id }

theorem mergeSessionRows_eq_ok {s t : Store} {absorbed : Session} {survivingSessionId : String}
    {patch : Session → Session} :
    mergeSessionRows s absorbed survivingSessionId patch = .ok t ↔
      s.usageCollides absorbed.id survivingSessionId = false ∧
        t = merged s absorbed survivingSessionId patch := by
  simp only [mergeSessionRows, Outcome.bind_eq_ok, Outcome.ensure_eq_ok, Bool.not_eq_true',
    exists_and_left, exists_const]
  constructor
  · rintro ⟨hcollides, heq⟩
    exact ⟨hcollides, (Except.ok.inj heq).symm⟩
  · rintro ⟨hcollides, rfl⟩
    exact ⟨hcollides, rfl⟩

theorem appendSessionEventRow_eq_ok {s t : Store} {values : SessionEventInsert}
    {row : SessionEvent} :
    appendSessionEventRow s values = .ok (t, row) ↔
      s.HasSession values.sessionId ∧ (∀ other ∈ s.events, other.id ≠ values.id) ∧
        (∀ other ∈ s.events, other.toSessionEventInsert.sameIdentity values = false) ∧
        row = { values with index := s.nextIndex values.sessionId } ∧
        t = { s with events := s.events ++ [row] } := by
  simp only [appendSessionEventRow, Outcome.bind_eq_ok, Outcome.ensure_eq_ok,
    Store.getSession_isSome, List.all_eq_true, decide_eq_true_eq, Bool.not_eq_true',
    exists_and_left, exists_const]
  constructor
  · rintro ⟨hsession, hid, hidentity, heq⟩
    cases heq
    exact ⟨hsession, hid, hidentity, rfl, rfl⟩
  · rintro ⟨hsession, hid, hidentity, rfl, rfl⟩
    exact ⟨hsession, hid, hidentity, rfl⟩

/-- One write. -/
inductive Write (s : Store) : Store → Prop
  | surroundings (next : Surroundings) : Write s { s with toSurroundings := next }
  | leases (next : List RuntimeStore.ActivationLease) : Write s { s with leases := next }
  | runs (next : List ScheduleRun) : Write s { s with runs := next }
  /-- An update of nodes that moves none to another session and forgets no observation. -/
  | nodes (p : SessionNode → Bool) (f : SessionNode → SessionNode)
      (hid : ∀ row, (f row).id = row.id)
      (hkeeps : ∀ row ∈ s.nodes, p row = true → row.Stays (f row)) :
      Write s { s with nodes := Table.updateWhere p f s.nodes }
  /-- An update of sessions that leaves their counters alone. -/
  | sessions (p : Session → Bool) (f : Session → Session) (hid : ∀ row, (f row).id = row.id)
      (hcounters : ∀ row, (f row).counters = row.counters) :
      Write s { s with sessions := Table.updateWhere p f s.sessions }
  | openSession (row : Session) (hfresh : ∀ other ∈ s.sessions, other.id ≠ row.id)
      (hcounters : row.counters = 0) : Write s { s with sessions := s.sessions ++ [row] }
  | openNode (row : SessionNode) (hfresh : ∀ other ∈ s.nodes, other.id ≠ row.id)
      (hheld : s.HasSession row.rootSessionId) : Write s { s with nodes := s.nodes ++ [row] }
  | append (row : SessionEvent) (hheld : s.HasSession row.sessionId)
      (howned : s.OwnsEvent row.toSessionEventInsert) :
      Write s { s with events := s.events ++ [row] }
  /-- Another session of the store is folded into one that is there. -/
  | merge (absorbed : Session) (survivingSessionId : String) (patch : Session → Session)
      (habsorbed : absorbed ∈ s.sessions) (hsurvives : s.HasSession survivingSessionId)
      (hne : absorbed.id ≠ survivingSessionId) (hid : ∀ row, (patch row).id = row.id)
      (hcollides : s.usageCollides absorbed.id survivingSessionId = false) :
      Write s (merged s absorbed survivingSessionId patch)
  /-- Usage is recorded for a session, by one of its nodes or by none, where no row runs into
  another. -/
  | recordUsage (row : ModelUsageEvent) (hheld : s.HasSession row.sessionId)
      (howned : ∀ nodeId, row.sessionNodeId = some nodeId →
        s.HasNode nodeId row.sessionId row.eveSessionId)
      (hfresh : ∀ other ∈ s.usage, other.id ≠ row.id)
      (hsession : ∀ other ∈ s.usage, row.sameInSession other = false)
      (hnode : ∀ other ∈ s.usage, row.sameInNode other = false)
      (hreading : row.sessionNodeId.isSome → row.usageReported = false →
        row.contribution = missingStep) :
      Write s (insertUsage s row)
  /-- The report of a run fills the missing row of the run. -/
  | reconcile (report : ModelUsageEvent) (nodeId : String)
      (hnode : report.sessionNodeId = some nodeId)
      (howned : s.HasNode nodeId report.sessionId report.eveSessionId)
      (hawaits : ∃ other ∈ s.usage, other.awaits report = true)
      (hreported : report.usageReported = true) :
      Write s (addCounters { s with
        usage := Table.updateWhere (fun other => other.awaits report) report.fill s.usage }
        report.sessionId fun counters => counters.reconcile report)
  /-- An update of executions that keeps what they link. -/
  | executions (p : ScheduleRunSession → Bool) (f : ScheduleRunSession → ScheduleRunSession)
      (hkeeps : ∀ row, (f row).scheduleRunId = row.scheduleRunId ∧
        (f row).sessionId = row.sessionId) :
      Write s { s with executions := Table.updateWhere p f s.executions }
  | openExecution (row : ScheduleRunSession) (hheld : s.HasSession row.sessionId) :
      Write s { s with executions := s.executions ++ [row] }

/-- Some writes, one after another. -/
abbrev Writes : Store → Store → Prop := ReflTransGen Write


/-! ## What a write keeps -/

namespace Write

variable {s t : Store}

/-- Sessions of the store after an update of them. -/
theorem hasSession_updateWhere {p : Session → Bool} {f : Session → Session}
    (hid : ∀ row, (f row).id = row.id) {sessions : List Session} {id : String} :
    (∃ row ∈ Table.updateWhere p f sessions, row.id = id) ↔ ∃ row ∈ sessions, row.id = id := by
  have hids := Table.map_updateWhere (p := p) hid sessions
  constructor
  · rintro ⟨row, hrow, rfl⟩
    exact List.mem_map.mp (hids ▸ List.mem_map_of_mem hrow)
  · rintro ⟨row, hrow, rfl⟩
    exact List.mem_map.mp (hids.symm ▸ List.mem_map_of_mem hrow)

theorem hasSession_addCounters {sessionId id : String} {f : UsageCounters → UsageCounters} :
    (addCounters s sessionId f).HasSession id ↔ s.HasSession id :=
  hasSession_updateWhere fun _ => by rfl

/-- A merge removes one session, and no other. -/
theorem hasSession_merged {absorbed : Session} {survivingSessionId : String}
    {patch : Session → Session} (hid : ∀ row, (patch row).id = row.id) {id : String} :
    (merged s absorbed survivingSessionId patch).HasSession id ↔
      s.HasSession id ∧ id ≠ absorbed.id := by
  have hids : ∀ row : Session,
      { patch row with counters := row.counters + absorbed.counters : Session }.id = row.id := hid
  constructor
  · rintro ⟨row, hrow, rfl⟩
    obtain ⟨hmem, hkept⟩ := List.mem_filter.mp hrow
    exact ⟨(hasSession_updateWhere hids).mp ⟨row, hmem, rfl⟩, by simpa using hkept⟩
  · rintro ⟨hsession, hne⟩
    obtain ⟨row, hmem, rfl⟩ := (hasSession_updateWhere
      (p := fun row => row.id = survivingSessionId) hids).mpr hsession
    exact ⟨row, List.mem_filter.mpr ⟨hmem, by simpa using hne⟩, rfl⟩

/-- A row of a merge that referred to the absorbed session refers to the surviving one. -/
theorem held_merged {ρ : Type} (column : ρ → String) {absorbed : Session}
    {survivingSessionId : String} {patch : Session → Session}
    (hid : ∀ row, (patch row).id = row.id) (hsurvives : s.HasSession survivingSessionId)
    (hne : absorbed.id ≠ survivingSessionId) {move : ρ → ρ}
    (hmove : ∀ row, column (move row) = survivingSessionId) {rows : List ρ}
    (hheld : ∀ row ∈ rows, s.HasSession (column row)) :
    ∀ row ∈ Table.updateWhere (fun row => column row = absorbed.id) move rows,
      (merged s absorbed survivingSessionId patch).HasSession (column row) := by
  intro row hrow
  rw [hasSession_merged hid]
  rcases Table.mem_updateWhere.mp hrow with ⟨hold, hother⟩ | ⟨old, _, _, rfl⟩
  · exact ⟨hheld row hold, by simpa using hother⟩
  · rw [hmove]
    exact ⟨hsurvives, hne.symm⟩

/-- Events keep their nodes where nodes stay. -/
theorem ownsEvent_updateWhere {p : SessionNode → Bool} {f : SessionNode → SessionNode}
    (hid : ∀ row, (f row).id = row.id) (hkeeps : ∀ row ∈ s.nodes, p row = true → row.Stays (f row))
    {event : SessionEventInsert} (howned : s.OwnsEvent event) :
    Store.OwnsEvent { s with nodes := Table.updateWhere p f s.nodes } event := by
  intro nodeId hnodeId
  obtain ⟨node, hnode, rfl, hroot, hobserved⟩ := howned nodeId hnodeId
  by_cases hp : p node = true
  · obtain ⟨hrootKept, _, hobservedKept⟩ := hkeeps node hnode hp
    exact ⟨f node, Table.mem_updateWhere.mpr (Or.inr ⟨node, hnode, hp, rfl⟩), hid node,
      hrootKept.trans hroot, fun hsome => hobservedKept (hobserved hsome)⟩
  · exact ⟨node, Table.mem_updateWhere_of_not hnode (by simpa using hp), rfl, hroot, hobserved⟩

/-- The events of the absorbed session move with its nodes. -/
theorem ownsEvent_merged {absorbed : Session} {survivingSessionId : String}
    {patch : Session → Session} (howned : ∀ event ∈ s.events, s.OwnsEvent event.toSessionEventInsert) :
    ∀ event ∈ (merged s absorbed survivingSessionId patch).events,
      (merged s absorbed survivingSessionId patch).OwnsEvent event.toSessionEventInsert := by
  intro event hevent nodeId hnodeId
  rcases Table.mem_updateWhere.mp hevent with ⟨hold, hother⟩ | ⟨old, hold, hmoved, rfl⟩
  · obtain ⟨node, hnode, hid, hroot, hobserved⟩ := howned event hold nodeId hnodeId
    refine ⟨node, Table.mem_updateWhere_of_not hnode ?_, hid, hroot, hobserved⟩
    rw [hroot]
    exact hother
  · obtain ⟨node, hnode, hid, hroot, hobserved⟩ := howned old hold nodeId hnodeId
    refine ⟨{ node with rootSessionId := survivingSessionId }, ?_, hid, rfl, hobserved⟩
    refine Table.mem_updateWhere.mpr (Or.inr ⟨node, hnode, ?_, rfl⟩)
    rw [hroot]
    exact hmoved

theorem keyed (hwrite : Write s t) (hkeyed : Keyed s) : Keyed t := by
  cases hwrite with
  | surroundings next => exact { hkeyed with }
  | leases next => exact { hkeyed with }
  | runs next => exact { hkeyed with }
  | nodes p f hid hkeeps =>
      refine { hkeyed with
        nodeIds := hkeyed.nodeIds.updateWhere hid
        eventsOwned := fun event hevent =>
          ownsEvent_updateWhere hid hkeeps (hkeyed.eventsOwned event hevent)
        nodesHeld := ?_ }
      intro node hnode
      rcases Table.mem_updateWhere.mp hnode with ⟨hold, _⟩ | ⟨old, hold, hp, rfl⟩
      · exact hkeyed.nodesHeld node hold
      · rw [(hkeeps old hold hp).1]
        exact hkeyed.nodesHeld old hold
  | sessions p f hid hcounters =>
      have hsame : ∀ {id}, s.HasSession id →
          Store.HasSession { s with sessions := Table.updateWhere p f s.sessions } id :=
        (hasSession_updateWhere hid).mpr
      exact {
        sessionIds := hkeyed.sessionIds.updateWhere hid
        nodeIds := hkeyed.nodeIds
        nodesHeld := fun row hrow => hsame (hkeyed.nodesHeld row hrow)
        eventsHeld := fun row hrow => hsame (hkeyed.eventsHeld row hrow)
        eventsOwned := hkeyed.eventsOwned
        usageHeld := fun row hrow => hsame (hkeyed.usageHeld row hrow)
        executionsHeld := fun row hrow => hsame (hkeyed.executionsHeld row hrow) }
  | openSession row hfresh hcounters =>
      have hmore : ∀ {id}, s.HasSession id →
          Store.HasSession { s with sessions := s.sessions ++ [row] } id :=
        fun ⟨other, hother, hid⟩ => ⟨other, List.mem_append_left _ hother, hid⟩
      exact {
        sessionIds := hkeyed.sessionIds.append hfresh
        nodeIds := hkeyed.nodeIds
        nodesHeld := fun row hrow => hmore (hkeyed.nodesHeld row hrow)
        eventsHeld := fun row hrow => hmore (hkeyed.eventsHeld row hrow)
        eventsOwned := hkeyed.eventsOwned
        usageHeld := fun row hrow => hmore (hkeyed.usageHeld row hrow)
        executionsHeld := fun row hrow => hmore (hkeyed.executionsHeld row hrow) }
  | openNode row hfresh hheld =>
      refine { hkeyed with
        nodeIds := hkeyed.nodeIds.append hfresh
        eventsOwned := fun event hevent nodeId hnodeId =>
          (hkeyed.eventsOwned event hevent nodeId hnodeId).imp fun node hnode =>
            ⟨List.mem_append_left _ hnode.1, hnode.2⟩
        nodesHeld := ?_ }
      intro node hnode
      rcases List.mem_append.mp hnode with hold | hnew
      · exact hkeyed.nodesHeld node hold
      · rw [List.mem_singleton.mp hnew]
        exact hheld
  | append row hheld howned =>
      refine { hkeyed with eventsHeld := ?_, eventsOwned := ?_ }
      · intro event hevent
        rcases List.mem_append.mp hevent with hold | hnew
        · exact hkeyed.eventsHeld event hold
        · rw [List.mem_singleton.mp hnew]
          exact hheld
      · intro event hevent
        rcases List.mem_append.mp hevent with hold | hnew
        · exact hkeyed.eventsOwned event hold
        · rw [List.mem_singleton.mp hnew]
          exact howned
  | merge absorbed survivingSessionId patch habsorbed hsurvives hne hid hcollides =>
      have hids : ∀ row : Session,
          { patch row with counters := row.counters + absorbed.counters : Session }.id = row.id :=
        hid
      exact {
        sessionIds := (hkeyed.sessionIds.updateWhere hids).sublist (List.filter_sublist.map _)
        nodeIds := hkeyed.nodeIds.updateWhere fun _ => rfl
        nodesHeld := held_merged SessionNode.rootSessionId hid hsurvives hne (fun _ => rfl) hkeyed.nodesHeld
        eventsHeld := held_merged (fun row : SessionEvent => row.sessionId) hid hsurvives
          hne (fun _ => rfl) hkeyed.eventsHeld
        eventsOwned := ownsEvent_merged hkeyed.eventsOwned
        usageHeld := held_merged ModelUsageEvent.sessionId hid hsurvives hne (fun _ => rfl) hkeyed.usageHeld
        executionsHeld := by
          intro row hrow
          obtain ⟨hmem, hkept⟩ := List.mem_filter.mp hrow
          exact (hasSession_merged hid).mpr
            ⟨hkeyed.executionsHeld row hmem, by simpa using hkept⟩ }
  | recordUsage row hheld howned hfresh hsession hnode hreading =>
      have hsame : ∀ {id}, s.HasSession id → (insertUsage s row).HasSession id :=
        fun hsession => hasSession_addCounters.mpr hsession
      exact {
        sessionIds := hkeyed.sessionIds.updateWhere fun _ => rfl
        nodeIds := hkeyed.nodeIds
        nodesHeld := fun row hrow => hsame (hkeyed.nodesHeld row hrow)
        eventsHeld := fun row hrow => hsame (hkeyed.eventsHeld row hrow)
        eventsOwned := hkeyed.eventsOwned
        usageHeld := by
          intro other hother
          rcases List.mem_append.mp hother with hold | hnew
          · exact hsame (hkeyed.usageHeld other hold)
          · rw [List.mem_singleton.mp hnew]
            exact hsame hheld
        executionsHeld := fun row hrow => hsame (hkeyed.executionsHeld row hrow) }
  | reconcile report nodeId hnode howned hawaits hreported =>
      have hsame : ∀ {id}, s.HasSession id → Store.HasSession (addCounters { s with
          usage := Table.updateWhere (fun other => other.awaits report) report.fill s.usage }
          report.sessionId fun counters => counters.reconcile report) id :=
        fun hsession => hasSession_addCounters.mpr hsession
      exact {
        sessionIds := hkeyed.sessionIds.updateWhere fun _ => rfl
        nodeIds := hkeyed.nodeIds
        nodesHeld := fun row hrow => hsame (hkeyed.nodesHeld row hrow)
        eventsHeld := fun row hrow => hsame (hkeyed.eventsHeld row hrow)
        eventsOwned := hkeyed.eventsOwned
        usageHeld := by
          intro other hother
          rcases Table.mem_updateWhere.mp hother with ⟨hold, _⟩ | ⟨old, hold, _, rfl⟩
          · exact hsame (hkeyed.usageHeld other hold)
          · exact hsame (hkeyed.usageHeld old hold)
        executionsHeld := fun row hrow => hsame (hkeyed.executionsHeld row hrow) }
  | executions p f hkeeps =>
      refine { hkeyed with executionsHeld := ?_ }
      intro row hrow
      rcases Table.mem_updateWhere.mp hrow with ⟨hold, _⟩ | ⟨old, hold, _, rfl⟩
      · exact hkeyed.executionsHeld row hold
      · rw [(hkeeps old).2]
        exact hkeyed.executionsHeld old hold
  | openExecution row hheld =>
      refine { hkeyed with executionsHeld := ?_ }
      intro other hother
      rcases List.mem_append.mp hother with hold | hnew
      · exact hkeyed.executionsHeld other hold
      · rw [List.mem_singleton.mp hnew]
        exact hheld

end Write

theorem Writes.keyed {s t : Store} (hwrites : Writes s t) (hkeyed : Keyed s) : Keyed t := by
  induction hwrites with
  | refl => exact hkeyed
  | tail _ hwrite ih => exact hwrite.keyed ih

end Eveland.Telemetry
