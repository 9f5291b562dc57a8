/-
# What operations leave of runs, executions and links

A schedule run turns on three things: the run itself, its executions, and the sessions that are
linked to it. Most operations leave all three alone; folding and pruning lose sessions, and
their executions with them. The lemmas say so of each operation that is no business of schedule
runs, and of each part of the others that is none.
-/

import Eveland.Telemetry.Operations

namespace Eveland.Telemetry

/-- Some sessions are lost, and their executions with them. Nothing else happens to runs, to
executions, or to the link of a session to its run. -/
structure Drops (lost : String → Bool) (s t : Store) : Prop where
  runs : t.runs = s.runs
  executions : t.executions = s.executions.filter fun row => !lost row.sessionId
  links : ∀ row ∈ s.sessions, lost row.id = false →
    ∃ row' ∈ t.sessions, row'.id = row.id ∧ row'.scheduleRunId = row.scheduleRunId

/-- No session is lost. -/
abbrev Quiet : Store → Store → Prop := Drops fun _ => false

variable {s t : Store}

namespace Quiet

theorem of_sessions (hruns : t.runs = s.runs) (hexecutions : t.executions = s.executions)
    (hlinks : ∀ row ∈ s.sessions,
      ∃ row' ∈ t.sessions, row'.id = row.id ∧ row'.scheduleRunId = row.scheduleRunId) :
    Quiet s t where
  runs := hruns
  executions := by simp [hexecutions]
  links row hrow _ := hlinks row hrow

/-- The tables that matter are the same. -/
theorem of_eq (hruns : t.runs = s.runs) (hexecutions : t.executions = s.executions)
    (hsessions : t.sessions = s.sessions) : Quiet s t := by
  apply of_sessions hruns hexecutions
  intro row hrow
  exact ⟨row, hsessions ▸ hrow, rfl, rfl⟩

theorem refl (s : Store) : Quiet s s := of_eq rfl rfl rfl

/-- An update of sessions that leaves their links alone. -/
theorem of_updateWhere {p : Session → Bool} {f : Session → Session}
    (hsessions : t.sessions = Table.updateWhere p f s.sessions)
    (hkeeps : ∀ row, (f row).id = row.id ∧ (f row).scheduleRunId = row.scheduleRunId)
    (hruns : t.runs = s.runs) (hexecutions : t.executions = s.executions) : Quiet s t := by
  apply of_sessions hruns hexecutions
  intro row hrow
  rw [hsessions]
  by_cases hp : p row = true
  · exact ⟨f row, Table.mem_updateWhere.mpr (Or.inr ⟨row, hrow, hp, rfl⟩), hkeeps row⟩
  · exact ⟨row, Table.mem_updateWhere_of_not hrow (by simpa using hp), rfl, rfl⟩

theorem executions_eq (hquiet : Quiet s t) : t.executions = s.executions := by
  simp [hquiet.executions]

/-- Losing sessions after doing nothing to speak of. -/
theorem trans_drops {lost : String → Bool} {m : Store} (hquiet : Quiet s m)
    (hdrops : Drops lost m t) : Drops lost s t where
  runs := hdrops.runs.trans hquiet.runs
  executions := by rw [hdrops.executions, hquiet.executions_eq]
  links := by
    intro row hrow hkept
    obtain ⟨row', hrow', hid, hlink⟩ := hquiet.links row hrow rfl
    obtain ⟨row'', hrow'', hid', hlink'⟩ := hdrops.links row' hrow' (hid.symm ▸ hkept)
    exact ⟨row'', hrow'', hid'.trans hid, hlink'.trans hlink⟩

theorem trans {m : Store} (hfirst : Quiet s m) (hsecond : Quiet m t) : Quiet s t :=
  hfirst.trans_drops hsecond

end Quiet

theorem Drops.trans_quiet {lost : String → Bool} {m : Store} (hdrops : Drops lost s m)
    (hquiet : Quiet m t) : Drops lost s t where
  runs := hquiet.runs.trans hdrops.runs
  executions := by rw [hquiet.executions_eq, hdrops.executions]
  links := by
    intro row hrow hkept
    obtain ⟨row', hrow', hid, hlink⟩ := hdrops.links row hrow hkept
    obtain ⟨row'', hrow'', hid', hlink'⟩ := hquiet.links row' hrow' rfl
    exact ⟨row'', hrow'', hid'.trans hid, hlink'.trans hlink⟩

/-! ## Sessions -/

theorem insertSession_quiet {row : Session} (hinsert : insertSession s row = .ok t) :
    Quiet s t := by
  obtain ⟨_, _, rfl⟩ := insertSession_eq_ok.mp hinsert
  refine Quiet.of_sessions rfl rfl ?_
  intro other hother
  exact ⟨other, List.mem_append_left _ hother, rfl, rfl⟩

theorem appendSessionEventRow_quiet {values : SessionEventInsert} {row : SessionEvent}
    (happend : appendSessionEventRow s values = .ok (t, row)) : Quiet s t := by
  obtain ⟨_, _, _, _, rfl⟩ := appendSessionEventRow_eq_ok.mp happend
  exact Quiet.of_eq rfl rfl rfl

theorem appendRuntimeLostEventTx_quiet {sessionId runtimeInstanceId reason eventId : String}
    {node : Option (String × String)} {now : ℤ}
    (happend : appendRuntimeLostEventTx s sessionId runtimeInstanceId reason eventId node now =
      .ok t) : Quiet s t := by
  rw [appendRuntimeLostEventTx] at happend
  split at happend
  · cases happend
    exact Quiet.refl s
  · obtain ⟨⟨appended, row⟩, hrow, rfl⟩ := Outcome.map_eq_ok.mp happend
    exact appendSessionEventRow_quiet hrow

theorem addCounters_quiet (s : Store) (sessionId : String) (f : UsageCounters → UsageCounters) :
    Quiet s (addCounters s sessionId f) :=
  Quiet.of_updateWhere rfl (fun _ => ⟨rfl, rfl⟩) rfl rfl

theorem insertUsage_quiet (s : Store) (row : ModelUsageEvent) : Quiet s (insertUsage s row) := by
  have hinserted : Quiet s { s with usage := s.usage ++ [row] } := Quiet.of_eq rfl rfl rfl
  exact hinserted.trans (addCounters_quiet _ _ _)

theorem recordModelUsage_quiet {sessionId id : String} {usage : ModelUsageInput}
    {row : ModelUsageEvent} (hrecord : recordModelUsage s sessionId usage id = .ok (t, row)) :
    Quiet s t := by
  obtain ⟨_, _, hrecord⟩ := Outcome.bind_eq_ok.mp hrecord
  dsimp only at hrecord
  split at hrecord
  · cases hrecord
    exact Quiet.refl s
  · obtain ⟨_, _, hrecord⟩ := Outcome.bind_eq_ok.mp hrecord
    obtain ⟨_, _, heq⟩ := Outcome.bind_eq_ok.mp hrecord
    cases heq
    exact insertUsage_quiet s _

theorem bindSession_quiet (s : Store) (binding : SessionBinding) :
    Quiet s (bindSession s binding) :=
  Quiet.of_updateWhere rfl (fun _ => ⟨rfl, rfl⟩) rfl rfl

/-- A merge loses the session that is absorbed. -/
theorem mergeSessionRows_drops {absorbed : Session} {survivingSessionId : String}
    {patch : Session → Session}
    (hpatch : ∀ row, (patch row).id = row.id ∧ (patch row).scheduleRunId = row.scheduleRunId)
    (hmerge : mergeSessionRows s absorbed survivingSessionId patch = .ok t) :
    Drops (fun id => id = absorbed.id) s t := by
  obtain ⟨_, rfl⟩ := mergeSessionRows_eq_ok.mp hmerge
  refine ⟨rfl, ?_, ?_⟩
  · apply List.filter_congr
    intro row _
    simp
  · intro row hrow hkept
    have hupdated : ∃ row' ∈ Table.updateWhere (fun row => row.id = survivingSessionId)
        (fun row : Session => { patch row with counters := row.counters + absorbed.counters })
        s.sessions, row'.id = row.id ∧ row'.scheduleRunId = row.scheduleRunId := by
      by_cases hp : row.id = survivingSessionId
      · exact ⟨_, Table.mem_updateWhere.mpr (Or.inr ⟨row, hrow, by simpa using hp, rfl⟩),
          hpatch row⟩
      · exact ⟨row, Table.mem_updateWhere_of_not hrow (by simpa using hp), rfl, rfl⟩
    obtain ⟨row', hrow', hid, hlink⟩ := hupdated
    refine ⟨row', List.mem_filter.mpr ⟨hrow', ?_⟩, hid, hlink⟩
    rw [hid]
    simpa using hkept

theorem completedRow_scheduleRunId (input : CompleteSessionInput) (binding : Option SessionBinding)
    (now : ℤ) (row : Session) :
    (completedRow input binding now row).scheduleRunId = row.scheduleRunId := by
  cases binding <;> rfl

/-- The session `completeSession` folds: another one that holds the claimed Eve session id. -/
def Store.observedElsewhere (s : Store) (current : Session) (eveSessionId : Option String) :
    Option Session :=
  eveSessionId.bind fun eveSessionId =>
    s.sessions.find? fun row => row.projectId = current.projectId &&
      row.eveSessionId = some eveSessionId && row.id ≠ current.id

theorem foldObserved_drops {current : Session} {eveSessionId : Option String}
    (hfold : foldObserved s current eveSessionId = .ok t) :
    Drops (fun id => (s.observedElsewhere current eveSessionId).any fun row => id = row.id) s t := by
  unfold foldObserved at hfold
  unfold Store.observedElsewhere
  cases eveSessionId with
  | none =>
      cases hfold
      exact Quiet.refl s
  | some eveSessionId =>
      dsimp only [Option.bind_some] at hfold ⊢
      split at hfold
      · next hnone =>
          cases hfold
          rw [hnone]
          exact Quiet.refl s
      · next observed hobserved =>
          rw [hobserved]
          have hpatch : ∀ row, ((coalescedPatch current observed).apply row).id = row.id ∧
              ((coalescedPatch current observed).apply row).scheduleRunId = row.scheduleRunId :=
            fun _ => ⟨rfl, rfl⟩
          exact mergeSessionRows_drops hpatch hfold

theorem completeSession_drops {sessionId : String} {input : CompleteSessionInput} {now : ℤ}
    (hcomplete : completeSession s sessionId input now = .ok t) :
    Drops (fun id => (s.getSession sessionId).any fun current =>
      (s.observedElsewhere current input.claimedId).any fun row => id = row.id) s t := by
  rw [completeSession] at hcomplete
  cases hsession : s.getSession sessionId with
  | none =>
      rw [hsession] at hcomplete
      cases hcomplete
      exact Quiet.refl s
  | some current =>
      rw [hsession] at hcomplete
      obtain ⟨folded, hfold, heq⟩ := Outcome.bind_eq_ok.mp hcomplete
      cases heq
      apply Drops.trans_quiet (foldObserved_drops hfold)
      exact Quiet.of_updateWhere rfl
        (fun row => ⟨completedRow_id input _ now row, completedRow_scheduleRunId input _ now row⟩)
        rfl rfl

/-! ## Locating a node -/

theorem openSession_quiet {o : AgentEventObservation} {projectId id eveSessionId : String}
    {trigger : SessionTrigger} {row : Session}
    (hopen : openSession s o projectId id eveSessionId trigger = .ok (t, row)) : Quiet s t := by
  obtain ⟨opened, hinsert, heq⟩ := Outcome.map_eq_ok.mp hopen
  cases heq
  exact insertSession_quiet hinsert

theorem findOrOpenSession_quiet {o : AgentEventObservation} {projectId id eveSessionId : String}
    {trigger : SessionTrigger} {row : Session}
    (hfind : findOrOpenSession s o projectId id eveSessionId trigger = .ok (t, row)) :
    Quiet s t := by
  rw [findOrOpenSession] at hfind
  split at hfind
  · cases hfind
    exact Quiet.refl s
  · exact openSession_quiet hfind

theorem insertNode_quiet {row : SessionNode} (hinsert : insertNode s row = .ok t) : Quiet s t := by
  obtain ⟨_, _, rfl⟩ := insertNode_eq_ok.mp hinsert
  exact Quiet.of_eq rfl rfl rfl

theorem setRoot_quiet (s : Store) (sessionId nodeId eveSessionId : String) :
    Quiet s (setRoot s sessionId nodeId eveSessionId) :=
  Quiet.of_updateWhere rfl (fun _ => ⟨rfl, rfl⟩) rfl rfl

theorem resolveParent_quiet {o : AgentEventObservation} {projectId : String} {ids : IngestIds}
    {parent : Option SessionNode} (hparent : resolveParent s o projectId ids = .ok (t, parent)) :
    Quiet s t := by
  rw [resolveParent] at hparent
  split at hparent
  · cases hparent
    exact Quiet.refl s
  · split at hparent
    · cases hparent
      exact Quiet.refl s
    · obtain ⟨⟨opened, row⟩, hopen, hparent⟩ := Outcome.bind_eq_ok.mp hparent
      obtain ⟨inserted, hinsert, heq⟩ := Outcome.bind_eq_ok.mp hparent
      cases heq
      exact ((findOrOpenSession_quiet hopen).trans (insertNode_quiet hinsert)).trans
        (setRoot_quiet _ _ _ _)

theorem resolveSession_quiet {o : AgentEventObservation} {projectId : String}
    {parent : Option SessionNode} {ids : IngestIds} {row : Session}
    (hresolve : resolveSession s o projectId parent ids = .ok (t, row)) : Quiet s t := by
  unfold resolveSession at hresolve
  dsimp only at hresolve
  split at hresolve
  · exact findOrOpenSession_quiet hresolve
  · split at hresolve
    · cases hresolve
      exact Quiet.refl s
    · exact openSession_quiet hresolve

theorem resolveNode_quiet {o : AgentEventObservation} {node node' : SessionNode}
    {sessionRow : Session} {isLatest : Bool}
    (hresolve : resolveNode s o node = .ok (t, sessionRow, node', isLatest)) : Quiet s t := by
  obtain ⟨row, _, hresolve⟩ := Outcome.bind_eq_ok.mp hresolve
  dsimp only at hresolve
  split at hresolve
  · cases hresolve
    refine Quiet.of_updateWhere rfl ?_ rfl rfl
    intro row
    rw [discoverTrigger]
    split <;> exact ⟨rfl, rfl⟩
  · cases hresolve
    exact Quiet.of_eq rfl rfl rfl

theorem locateNode_quiet {o : AgentEventObservation} {projectId : String} {ids : IngestIds}
    {sessionRow : Session} {node : SessionNode} {isLatest : Bool}
    (hlocate : locateNode s o projectId ids = .ok (t, sessionRow, node, isLatest)) :
    Quiet s t := by
  rw [locateNode] at hlocate
  split at hlocate
  · exact resolveNode_quiet hlocate
  · obtain ⟨⟨located, parent⟩, hparent, hopen⟩ := Outcome.bind_eq_ok.mp hlocate
    obtain ⟨⟨resolved, row⟩, hresolve, hopen⟩ := Outcome.bind_eq_ok.mp hopen
    obtain ⟨inserted, hinsert, hopen⟩ := Outcome.bind_eq_ok.mp hopen
    have hquiet := ((resolveParent_quiet hparent).trans (resolveSession_quiet hresolve)).trans
      (insertNode_quiet hinsert)
    split at hopen
    · cases hopen
      exact hquiet.trans (setRoot_quiet _ _ _ _)
    · cases hopen
      exact hquiet

/-! ## Projections -/

theorem projectStatus_quiet (s : Store) (o : AgentEventObservation) (reading : EventReading)
    (node : SessionNode) (sessionRow : Session) (projected : Option SessionStatus) (now : ℤ) :
    Quiet s (projectStatus s o reading node sessionRow projected now).1 := by
  unfold projectStatus
  cases projected with
  | none => exact Quiet.of_eq rfl rfl rfl
  | some status =>
      dsimp only
      split
      · exact Quiet.of_updateWhere rfl (fun _ => ⟨rfl, rfl⟩) rfl rfl
      · exact Quiet.of_eq rfl rfl rfl

theorem projectReading_quiet (s : Store) (o : AgentEventObservation) (reading : EventReading)
    (node : SessionNode) (sessionId id : String) :
    Quiet s (projectReading s o reading node sessionId id) := by
  rw [projectReading]
  split
  · exact Quiet.refl s
  · rw [projectUsage]
    split
    · split
      · refine Quiet.trans ?_ (addCounters_quiet _ _ _)
        exact Quiet.of_eq rfl rfl rfl
      · exact Quiet.refl s
    · exact insertUsage_quiet s _

/-- The session an event folds: that of the child it announces, where the child is elsewhere. -/
def Store.folds (s : Store) (reading : EventReading) (projectId sessionId id : String) : Bool :=
  ((announcedChild reading).bind fun eveSessionId => s.findNode projectId eveSessionId).any
    fun child => child.rootSessionId = id && id ≠ sessionId

theorem adoptSession_drops {oldRootSessionId sessionId : String}
    (hold : s.HasSession oldRootSessionId)
    (hadopt : adoptSession s oldRootSessionId sessionId = .ok t) :
    Drops (fun id => oldRootSessionId = id && id ≠ sessionId) s t := by
  rw [adoptSession] at hadopt
  split at hadopt
  · next hsame =>
      cases hadopt
      have hnone : (fun id : String => decide (oldRootSessionId = id) && decide (id ≠ sessionId)) =
          fun _ => false := by
        funext id
        by_cases hid : oldRootSessionId = id
        · simp [← hid, hsame]
        · simp [hid]
      rw [hnone]
      exact Quiet.refl s
  · next hne =>
      split at hadopt
      · next absorbed habsorbed =>
          obtain rfl := Store.id_of_getSession habsorbed
          have hsame : (fun id : String => decide (absorbed.id = id) && decide (id ≠ sessionId)) =
              fun id => decide (id = absorbed.id) := by
            funext id
            by_cases hid : id = absorbed.id
            · simp [hid, hne]
            · simp [hid, Ne.symm hid]
          rw [hsame]
          exact mergeSessionRows_drops (fun _ => ⟨rfl, rfl⟩) hadopt
      · next hnone =>
          rw [← Store.getSession_isSome, hnone] at hold
          cases hold

theorem linkChild_drops {o : AgentEventObservation} {reading : EventReading}
    {node : SessionNode} {projectId sessionId id : String} (hkeyed : Keyed s)
    (hlink : linkChild s o reading node projectId sessionId id = .ok t) :
    Drops (s.folds reading projectId sessionId) s t := by
  rw [linkChild] at hlink
  unfold Store.folds
  split at hlink
  · next hnone =>
      cases hlink
      rw [hnone]
      exact Quiet.refl s
  · next eveSessionId hannounced =>
      rw [hannounced]
      dsimp only [Option.bind_some]
      split at hlink
      · next child hchild =>
          rw [hchild]
          obtain ⟨adopted, hadopt, heq⟩ := Outcome.bind_eq_ok.mp hlink
          cases heq
          have hold := hkeyed.nodesHeld child (Store.mem_of_findNode hchild).1
          exact (adoptSession_drops hold hadopt).trans_quiet (Quiet.of_eq rfl rfl rfl)
      · next hnone =>
          rw [hnone]
          exact insertNode_quiet hlink

/-! ## Sweeps and pruning -/

theorem failSessions_quiet (s : Store) (sessionIds : List String) (error : String) (now : ℤ) :
    Quiet s (failSessions s sessionIds error now) :=
  Quiet.of_updateWhere rfl (fun _ => ⟨rfl, rfl⟩) rfl rfl

theorem failNodes_quiet (s : Store) (nodeIds : List String) : Quiet s (failNodes s nodeIds) :=
  Quiet.of_eq rfl rfl rfl

theorem releaseRunLeases_quiet (s : Store) (owns : RuntimeStore.ActivationLease → Bool)
    (now : ℤ) : Quiet s (releaseRunLeases s owns now) :=
  Quiet.of_eq rfl rfl rfl

theorem appendRuntimeLostEvents_quiet {runtimeInstanceId reason : String} {newId : ℕ → String}
    {now : ℤ} {lost : List (String × Option (String × String))} {draw : ℕ}
    (happend : appendRuntimeLostEvents runtimeInstanceId reason newId now lost draw s = .ok t) :
    Quiet s t := by
  induction lost generalizing s draw with
  | nil =>
      cases happend
      exact Quiet.refl _
  | cons first rest ih =>
      obtain ⟨appended, hfirst, hrest⟩ := Outcome.bind_eq_ok.mp happend
      exact (appendRuntimeLostEventTx_quiet hfirst).trans (ih hrest)

theorem appendDeadlineEvents_quiet {runtimeInstanceId reason : String} {newId : ℕ → String}
    {now : ℤ} {sessionIds : List String} {draw : ℕ}
    (happend : appendDeadlineEvents runtimeInstanceId reason newId now sessionIds draw s = .ok t) :
    Quiet s t := by
  induction sessionIds generalizing s draw with
  | nil =>
      cases happend
      exact Quiet.refl _
  | cons sessionId rest ih =>
      obtain ⟨⟨appended, event⟩, hfirst, hrest⟩ := Outcome.bind_eq_ok.mp happend
      exact (appendSessionEventRow_quiet hfirst).trans (ih hrest)

/-- The sessions that pruning loses. -/
def Store.expired (s : Store) (before : ℤ) (sessionId : String) : Bool :=
  s.sessions.any fun row => row.id = sessionId && row.status ≠ .running &&
    row.completedAt.getD row.startedAt < before

theorem pruneDerivedAgentTelemetry_drops (s : Store) (before : ℤ) :
    Drops (s.expired before) s (pruneDerivedAgentTelemetry s before) where
  runs := rfl
  executions := rfl
  links := by
    intro row hrow hkept
    refine ⟨row, List.mem_filter.mpr ⟨hrow, ?_⟩, rfl, rfl⟩
    show (!s.expired before row.id) = true
    rw [hkept]
    rfl

/-! ## The stages of an ingestion -/

/-- The store in which an ingestion links the child its event announces, and the session that is
folded there. -/
def Store.beforeLink (s : Store) (o : AgentEventObservation) (ids : IngestIds) (now : ℤ) :
    Except String (Store × (String → Bool)) := do
  let deployment ← checkManaged s o
  let (s, sessionRow, node, isLatest) ← locateNode s o deployment.projectId ids
  let reading := readEvent o.event
  let (s, _) ← appendSessionEventRow s (eventInsert o reading sessionRow.id node.id ids.event now)
  let (s, node, sessionRow) := projectStatus s o reading node sessionRow
    (projectedStatus reading node.status isLatest) now
  let s := projectExecution s reading node sessionRow now
  pure (s, s.folds reading deployment.projectId sessionRow.id)

/-- What an ingestion comes to for schedule runs: an observation that is recorded already, or
one whose event is projected onto an execution before a session may be folded. -/
theorem ingestAgentEvent_stages {o : AgentEventObservation} {ids : IngestIds} {now : ℤ}
    {result : IngestResult} (hkeyed : Keyed s)
    (hingest : ingestAgentEvent s o ids now = .ok (t, result)) :
    Quiet s t ∨ ∃ projected linked node sessionRow projectId,
      Quiet s projected ∧ Keyed projected ∧
      s.beforeLink o ids now =
        .ok (projectExecution projected (readEvent o.event) node sessionRow now,
          Store.folds (projectExecution projected (readEvent o.event) node sessionRow now)
            (readEvent o.event) projectId sessionRow.id) ∧
      linkChild (projectExecution projected (readEvent o.event) node sessionRow now) o
        (readEvent o.event) node projectId sessionRow.id ids.child = .ok linked ∧
      Quiet linked t := by
  obtain ⟨deployment, hmanaged, hingest⟩ := Outcome.bind_eq_ok.mp hingest
  obtain ⟨⟨located, sessionRow, node, isLatest⟩, hlocate, hingest⟩ := Outcome.bind_eq_ok.mp hingest
  obtain ⟨hwrites, hnode⟩ := locateNode_writes hlocate
  have hlocated := locateNode_quiet hlocate
  dsimp only at hingest
  split at hingest
  · cases hingest
    exact Or.inl hlocated
  · obtain ⟨appended, projected, linked, event, node', sessionRow', happend, hprojected, hlink,
      rfl, _⟩ := recordObservation_eq_ok hingest
    have hstatus := projectStatus_quiet appended o (readEvent o.event) node sessionRow
      (projectedStatus (readEvent o.event) node.status isLatest) now
    have hstatusWrites := (projectStatus_writes appended o (readEvent o.event) node sessionRow
      (projectedStatus (readEvent o.event) node.status isLatest) now).1
    rw [hprojected] at hstatus hstatusWrites
    have howned : located.OwnsEvent
        (eventInsert o (readEvent o.event) sessionRow.id node.id ids.event now) := by
      intro nodeId hnodeId
      obtain ⟨row, hrow, hid, hroot, hobserved⟩ := locateNode_observed hlocate
      cases hnodeId
      exact ⟨row, hrow, hid, hroot, fun _ => hobserved⟩
    have hkeyed' := (hstatusWrites.keyed ((appendSessionEventRow_write howned happend).keyed
      (hwrites.keyed hkeyed)))
    have hstage : s.beforeLink o ids now =
        .ok (projectExecution projected (readEvent o.event) node' sessionRow' now,
          Store.folds (projectExecution projected (readEvent o.event) node' sessionRow' now)
            (readEvent o.event) deployment.projectId sessionRow'.id) := by
      simp only [Store.beforeLink, hmanaged, hlocate, happend, hprojected, bind, Except.bind, pure,
        Except.pure]
    exact Or.inr ⟨projected, linked, node', sessionRow', deployment.projectId,
      (hlocated.trans (appendSessionEventRow_quiet happend)).trans hstatus, hkeyed', hstage, hlink,
      projectReading_quiet _ _ _ _ _ _⟩

end Eveland.Telemetry
