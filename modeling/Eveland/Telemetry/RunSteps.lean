/-
# What a call does to a schedule run

Each call of the store leaves the row of a run as it was, or moves it in one of seven ways:
`RunStep` lists them with what the call has found. What is proved of the statuses of runs is read
off this list.
-/

import Eveland.Telemetry.Ledger
import Eveland.Telemetry.System

namespace Eveland.Telemetry

/-- Every run is still there, and its row has moved as `R` says. -/
def RunsMove (R : ScheduleRun → ScheduleRun → Prop) (s t : Store) : Prop :=
  ∀ id row, s.getRun id = some row → ∃ row', t.getRun id = some row' ∧ R row row'

variable {R : ScheduleRun → ScheduleRun → Prop} {s t : Store}

theorem Store.id_of_getRun {id : String} {row : ScheduleRun} (hrow : s.getRun id = some row) :
    row.id = id := by
  simpa using List.find?_some hrow

theorem Store.getRun_congr (hruns : t.runs = s.runs) (id : String) : t.getRun id = s.getRun id := by
  rw [Store.getRun, Store.getRun, hruns]

namespace RunsMove

theorem of_eq (hrefl : ∀ row, R row row) (hruns : t.runs = s.runs) : RunsMove R s t := by
  intro id row hrow
  exact ⟨row, (Store.getRun_congr hruns id).trans hrow, hrefl row⟩

/-- An update of the runs that a condition holds of. -/
theorem of_updateWhere {p : ScheduleRun → Bool} {f : ScheduleRun → ScheduleRun}
    (hrefl : ∀ row, R row row) (hruns : t.runs = Table.updateWhere p f s.runs)
    (hid : ∀ row, (f row).id = row.id)
    (hmove : ∀ row, s.getRun row.id = some row → p row = true → R row (f row)) :
    RunsMove R s t := by
  intro id row hrow
  have hid' := Store.id_of_getRun hrow
  refine ⟨if p row then f row else row, ?_, ?_⟩
  · rw [Store.getRun, hruns, Table.find?_updateWhere hid]
    exact congrArg (Option.map _) hrow
  · by_cases hp : p row = true
    · rw [if_pos hp]
      exact hmove row (hid'.symm ▸ hrow) hp
    · rw [if_neg hp]
      exact hrefl row

theorem mono {R' : ScheduleRun → ScheduleRun → Prop} (hmove : RunsMove R s t)
    (himplies : ∀ row row', s.getRun row.id = some row → R row row' → R' row row') :
    RunsMove R' s t := by
  intro id row hrow
  obtain ⟨row', hrow', hR⟩ := hmove id row hrow
  exact ⟨row', hrow', himplies row row' ((Store.id_of_getRun hrow).symm ▸ hrow) hR⟩

theorem trans {m : Store} (htrans : ∀ a b c, R a b → R b c → R a c) (hfirst : RunsMove R s m)
    (hsecond : RunsMove R m t) : RunsMove R s t := by
  intro id row hrow
  obtain ⟨row', hrow', hmove⟩ := hfirst id row hrow
  obtain ⟨row'', hrow'', hmove'⟩ := hsecond id row' hrow'
  exact ⟨row'', hrow'', htrans row row' row'' hmove hmove'⟩

end RunsMove

/-- The runs of the executions that are running on a runtime instance. -/
def Store.runsOn (s : Store) (runtimeInstanceId : String) : List String :=
  (s.executionsOn runtimeInstanceId).map fun row => row.scheduleRunId

/-- Whether an execution of the run is running. -/
def Store.isUnderway (s : Store) (scheduleRunId : String) : Bool :=
  (s.executionsOf scheduleRunId).any fun row => row.status = .running

/-- The runs that the sweep of expired executions takes up. -/
def Store.overdueRuns (s : Store) (now : ℤ) (limit : ℕ) : List String :=
  ((s.expiredRuns now).take limit).map Prod.fst

/-- How a call moves the row of a run. -/
inductive RunStep (s : Store) : Action → ScheduleRun → ScheduleRun → Prop
  | claim {row : ScheduleRun} {now staleAfterMs : ℤ}
      (hactivatable : row.isActivatable now staleAfterMs = true) :
      RunStep s (.claimScheduleRunActivation row.id now staleAfterMs) row
        { row with status := .activating, startedAt := some now, updatedAt := now }
  | redeem {row : ScheduleRun} {deploymentId : String} {now : ℤ}
      (hactivating : row.status = .activating) :
      RunStep s (.redeemScheduleRunDispatch row.id deploymentId now) row
        { row with status := .dispatching, attempt := row.attempt + 1, updatedAt := now }
  | complete {row : ScheduleRun} {input : CompleteRunInput} {newId : ℕ → String} {now : ℤ}
      (executions : List ScheduleRunSession) (reportedError : Option String) :
      RunStep s (.completeScheduleRun row.id input newId now) row
        ((completionOf executions input reportedError).apply now row)
  | settle {row : ScheduleRun} {o : AgentEventObservation} {ids : IngestIds} {now : ℤ}
      {status : ScheduleRunStatus} {error : Option String} (hrunning : row.status = .running)
      (hstatus : status = .failed ∨ status = .succeeded) :
      RunStep s (.ingestAgentEvent o ids now) row
        { row with status, error, completedAt := some now, updatedAt := now }
  | interrupt {row : ScheduleRun} {runtimeInstanceId reason : String} {newId : ℕ → String}
      {now : ℤ} (hrunning : row.status = .running) :
      RunStep s (.failRunningSessionsForRuntimeInstance runtimeInstanceId reason newId now) row
        (failRun reason now row)
  | lose {row : ScheduleRun} {runtimeInstanceId reason : String} {newId : ℕ → String} {now : ℤ}
      (hlost : row.id ∈ s.runsOn runtimeInstanceId) :
      RunStep s (.failScheduleExecutionsForRuntimeInstance runtimeInstanceId reason newId now) row
        (failRun reason now row)
  | expire {row : ScheduleRun} {limit : ℕ} {newId : ℕ → ℕ → String} {now : ℤ} {reason : String}
      (hoverdue : row.id ∈ s.overdueRuns now limit) (hunderway : s.isUnderway row.id = true) :
      RunStep s (.failExpiredScheduleExecutions limit newId now) row (failRun reason now row)

/-- A run stays, or the call moves it. -/
abbrev MovedBy (s : Store) (a : Action) (row row' : ScheduleRun) : Prop :=
  row' = row ∨ RunStep s a row row'

theorem movedBy_refl (s : Store) (a : Action) (row : ScheduleRun) : MovedBy s a row row :=
  Or.inl rfl

theorem Drops.runsMove {lost : String → Bool} {a : Action} (hdrops : Drops lost s t) :
    RunsMove (MovedBy s a) s t :=
  RunsMove.of_eq (movedBy_refl s a) hdrops.runs

/-! ## Each call -/

theorem insertRun_runsMove {run : ScheduleRun} (hrefl : ∀ row, R row row)
    (hinsert : insertRun s run = .ok t) : RunsMove R s t := by
  obtain ⟨_, _, heq⟩ := Outcome.bind_eq_ok.mp hinsert
  cases heq
  intro id row hrow
  refine ⟨row, ?_, hrefl row⟩
  show (s.runs ++ [run]).find? (fun row => row.id = id) = some row
  rw [List.find?_append, show s.runs.find? (fun row => row.id = id) = some row from hrow]
  rfl

theorem updateRun_runsMove {scheduleRunId : String} {condition : ScheduleRun → Bool}
    {change : ScheduleRun → ScheduleRun} (hrefl : ∀ row, R row row)
    (hid : ∀ row, (change row).id = row.id)
    (hmove : ∀ row, row.id = scheduleRunId → condition row = true → R row (change row)) :
    RunsMove R s (updateRun s scheduleRunId condition change).1 := by
  refine RunsMove.of_updateWhere hrefl rfl hid ?_
  intro row _ hselected
  simp only [Bool.and_eq_true, decide_eq_true_eq] at hselected
  exact hmove row hselected.1 hselected.2

/-- An ingestion moves a run where its event ends the last running execution of the run. -/
theorem projectExecution_runs (s : Store) (reading : EventReading) (node : SessionNode)
    (sessionRow : Session) (now : ℤ) :
    (projectExecution s reading node sessionRow now).runs = s.runs ∨
      ∃ scheduleRunId status error, (status = .failed ∨ status = .succeeded) ∧
        (projectExecution s reading node sessionRow now).runs =
          Table.updateWhere (fun row => row.id = scheduleRunId && row.status = .running)
            (fun row => { row with status, error, completedAt := some now, updatedAt := now })
            s.runs := by
  rw [projectExecution]
  split
  · exact Or.inl rfl
  · next scheduleRunId _ =>
      dsimp only
      split
      · exact Or.inl rfl
      · rw [settleRun]
        dsimp only
        split
        · exact Or.inl rfl
        · refine Or.inr ⟨scheduleRunId, _, _, ?_, rfl⟩
          split
          · exact Or.inl rfl
          · exact Or.inr rfl

theorem ingestAgentEvent_runsMove {o : AgentEventObservation} {ids : IngestIds} {now : ℤ}
    {result : IngestResult} (hkeyed : Keyed s)
    (hingest : ingestAgentEvent s o ids now = .ok (t, result)) :
    RunsMove (MovedBy s (.ingestAgentEvent o ids now)) s t := by
  have hrefl := movedBy_refl s (.ingestAgentEvent o ids now)
  rcases ingestAgentEvent_stages hkeyed hingest with hquiet |
    ⟨projected, linked, node, sessionRow, projectId, hbefore, hkeyed', _, hlink, hafter⟩
  · exact hquiet.runsMove
  · have hexecuted := (projectExecution_writes projected (readEvent o.event) node sessionRow now).1
    have hlinked := (linkChild_drops (hexecuted.keyed hkeyed') hlink).runs
    rcases projectExecution_runs projected (readEvent o.event) node sessionRow now with hsame |
      ⟨scheduleRunId, status, error, hstatus, hsettled⟩
    · refine RunsMove.of_eq hrefl ?_
      rw [hafter.runs, hlinked, hsame, hbefore.runs]
    · refine RunsMove.of_updateWhere (p := fun row => row.id = scheduleRunId && row.status = .running)
        (f := fun row => { row with status, error, completedAt := some now, updatedAt := now })
        hrefl ?_ (fun _ => rfl) ?_
      · rw [hafter.runs, hlinked, hsettled, hbefore.runs]
      · intro row _ hselected
        simp only [Bool.and_eq_true, decide_eq_true_eq] at hselected
        exact Or.inr (RunStep.settle hselected.2 hstatus)

theorem insertExecution_runs (s : Store) (row : ScheduleRunSession) :
    (insertExecution s row).runs = s.runs := by
  rw [insertExecution]
  split <;> rfl

/-- Linking the sessions of a completion is no business of any run's row. -/
theorem dispatchSession_runs {run : ScheduleRun} {projectId : String} {input : CompleteRunInput}
    {reportedError : Option String} {eveSessionId sessionId : String} {now : ℤ}
    (hdispatch : dispatchSession s run projectId input reportedError eveSessionId sessionId now =
      .ok t) : t.runs = s.runs := by
  obtain ⟨⟨linked, linkedId⟩, hlink, heq⟩ := Outcome.bind_eq_ok.mp hdispatch
  cases heq
  have hlinked : linked.runs = s.runs := by
    rw [linkDispatched] at hlink
    split at hlink
    · cases hlink
      rfl
    · obtain ⟨inserted, hinsert, heq⟩ := Outcome.map_eq_ok.mp hlink
      cases heq
      exact (insertSession_quiet hinsert).runs
  exact (insertExecution_runs _ _).trans hlinked

theorem dispatchSessions_runs {run : ScheduleRun} {projectId : String}
    {input : CompleteRunInput} {reportedError : Option String} {newId : ℕ → String} {now : ℤ}
    {eveSessionIds : List String} {draw : ℕ}
    (hdispatch : dispatchSessions run projectId input reportedError newId now eveSessionIds draw s =
      .ok t) : t.runs = s.runs := by
  induction eveSessionIds generalizing s draw with
  | nil =>
      cases hdispatch
      rfl
  | cons eveSessionId rest ih =>
      obtain ⟨dispatched, hfirst, hrest⟩ := Outcome.bind_eq_ok.mp hdispatch
      exact (ih hrest).trans (dispatchSession_runs hfirst)

theorem finishRun_runs (s : Store) (scheduleRunId : String) (completion : Completion) (now : ℤ) :
    (finishRun s scheduleRunId completion now).1.runs =
      Table.updateWhere (fun row => row.id = scheduleRunId && true) (completion.apply now)
        s.runs := by
  rw [finishRun]
  split <;> rfl

theorem completeScheduleRun_runsMove {scheduleRunId : String} {input : CompleteRunInput}
    {newId : ℕ → String} {now : ℤ} {result : Option ScheduleRun}
    (hcomplete : completeScheduleRun s scheduleRunId input newId now = .ok (t, result)) :
    RunsMove (MovedBy s (.completeScheduleRun scheduleRunId input newId now)) s t := by
  have hrefl := movedBy_refl s (.completeScheduleRun scheduleRunId input newId now)
  cases hrun : s.getRun scheduleRunId with
  | none =>
      rw [completeScheduleRun, hrun] at hcomplete
      cases hcomplete
      exact RunsMove.of_eq hrefl rfl
  | some run =>
      obtain ⟨schedule, dispatched, _, hdispatch, hfinish⟩ :=
        (completeScheduleRun_eq_ok hrun).mp hcomplete
      obtain rfl := (Prod.mk.inj hfinish).1
      refine RunsMove.of_updateWhere (p := fun row => row.id = scheduleRunId && true) hrefl
        ((finishRun_runs _ _ _ _).trans (congrArg _ (dispatchSessions_runs hdispatch)))
        (fun _ => rfl) ?_
      intro row _ hselected
      simp only [Bool.and_true, decide_eq_true_eq] at hselected
      subst hselected
      exact Or.inr (RunStep.complete _ _)

theorem failScheduleExecutionsForRuntimeInstance_runsMove {runtimeInstanceId reason : String}
    {newId : ℕ → String} {now : ℤ}
    (hfail : failScheduleExecutionsForRuntimeInstance s runtimeInstanceId reason newId now =
      .ok t) :
    RunsMove (MovedBy s (.failScheduleExecutionsForRuntimeInstance runtimeInstanceId reason newId
      now)) s t := by
  obtain ⟨appended, happend, heq⟩ := Outcome.bind_eq_ok.mp hfail
  cases heq
  have hruns : appended.runs = s.runs := (appendRuntimeLostEvents_quiet happend).runs
  refine RunsMove.of_updateWhere (p := fun row => (s.runsOn runtimeInstanceId).contains row.id)
    (f := failRun reason now) (movedBy_refl s _) ?_ (fun _ => rfl) ?_
  · rw [← hruns]
    rfl
  · intro row _ hselected
    exact Or.inr (RunStep.lose (by simpa using hselected))

theorem failRunningSessionsForRuntimeInstance_runsMove {runtimeInstanceId reason : String}
    {newId : ℕ → String} {now : ℤ}
    (hfail : failRunningSessionsForRuntimeInstance s runtimeInstanceId reason newId now = .ok t) :
    RunsMove (MovedBy s (.failRunningSessionsForRuntimeInstance runtimeInstanceId reason newId
      now)) s t := by
  obtain ⟨appended, happend, heq⟩ := Outcome.bind_eq_ok.mp hfail
  cases heq
  have hruns : appended.runs = s.runs := (appendRuntimeLostEvents_quiet happend).runs
  refine RunsMove.of_updateWhere (movedBy_refl s _) (congrArg _ hruns) (fun _ => rfl) ?_
  intro row _ hselected
  simp only [Bool.and_eq_true, decide_eq_true_eq] at hselected
  exact Or.inr (RunStep.interrupt hselected.2)

/-! ## The sweep of expired executions -/

theorem Store.isUnderway_congr (hexecutions : t.executions = s.executions) (id : String) :
    t.isUnderway id = s.isUnderway id := by
  rw [Store.isUnderway, Store.isUnderway, Store.executionsOf, Store.executionsOf, hexecutions]

theorem Store.isUnderway_iff {id : String} :
    s.isUnderway id = true ↔
      ∃ row ∈ s.executions, row.scheduleRunId = id ∧ row.status = .running := by
  simp [Store.isUnderway, Store.executionsOf]

/-- Once the executions of a run are failed, none of it is running, and the other runs are as
they were. -/
theorem failExecutionsOf_isUnderway (s : Store) (scheduleRunId reason : String) (now : ℤ)
    (id : String) :
    (failExecutionsOf s scheduleRunId reason now).isUnderway id =
      (s.isUnderway id && id ≠ scheduleRunId) := by
  rw [Bool.eq_iff_iff, Bool.and_eq_true, decide_eq_true_eq, Store.isUnderway_iff,
    Store.isUnderway_iff]
  constructor
  · rintro ⟨row, hrow, hid, hrunning⟩
    rcases Table.mem_updateWhere.mp hrow with ⟨hold, hother⟩ | ⟨old, _, _, rfl⟩
    · refine ⟨⟨row, hold, hid, hrunning⟩, ?_⟩
      rintro rfl
      simp [hid, hrunning] at hother
    · cases hrunning
  · rintro ⟨⟨row, hrow, hid, hrunning⟩, hne⟩
    refine ⟨row, Table.mem_updateWhere_of_not hrow ?_, hid, hrunning⟩
    simp [hid, hne]

/-- The end of a run by the sweep. -/
def Expires (reachable : String → Prop) (s : Store) (now : ℤ) (row row' : ScheduleRun) : Prop :=
  row' = row ∨
    ∃ reason, reachable row.id ∧ s.isUnderway row.id = true ∧ row' = failRun reason now row

/-- One turn of the sweep fails one run, where it is underway, and leaves it so no more. -/
theorem failExpiredRun_runsMove {scheduleRunId runtimeInstanceId : String} {newId : ℕ → String}
    {now : ℤ} (hfail : failExpiredRun s scheduleRunId runtimeInstanceId newId now = .ok t) :
    RunsMove (Expires (fun id => id = scheduleRunId) s now) s t ∧
      (∀ id, t.isUnderway id = true → s.isUnderway id = true) ∧
      ((∀ id, t.getRun id = s.getRun id) ∨ t.isUnderway scheduleRunId = false) := by
  rw [failExpiredRun] at hfail
  dsimp only at hfail
  split at hfail
  · cases hfail
    exact ⟨RunsMove.of_eq (fun _ => Or.inl rfl) rfl, fun _ h => h, Or.inl fun _ => rfl⟩
  · next hsome =>
      obtain ⟨appended, happend, heq⟩ := Outcome.bind_eq_ok.mp hfail
      cases heq
      have hquiet := (failSessions_quiet (failExecutionsOf s scheduleRunId
        s!"ScheduleRun exceeded its maximum runtime on RuntimeInstance {runtimeInstanceId}."
        now) _ _ _).trans (appendDeadlineEvents_quiet happend)
      have hruns : appended.runs = s.runs := hquiet.runs
      have hunderway : ∀ id, appended.isUnderway id = (s.isUnderway id && id ≠ scheduleRunId) :=
        fun id => (Store.isUnderway_congr hquiet.executions_eq id).trans
          (failExecutionsOf_isUnderway s scheduleRunId _ now id)
      refine ⟨?_, ?_, Or.inr ?_⟩
      · refine RunsMove.of_updateWhere (fun _ => Or.inl rfl) (congrArg _ hruns) (fun _ => rfl) ?_
        intro row _ hselected
        rw [decide_eq_true_eq] at hselected
        refine Or.inr ⟨_, hselected, ?_, rfl⟩
        rw [hselected, Store.isUnderway_iff]
        simp only [List.isEmpty_iff, List.map_eq_nil_iff, List.filter_eq_nil_iff, not_forall,
          Bool.and_eq_true, decide_eq_true_eq, not_not] at hsome
        obtain ⟨execution, hexecution, hrunning, _⟩ := hsome
        obtain ⟨hmem, hid⟩ := List.mem_filter.mp hexecution
        exact ⟨execution, hmem, by simpa using hid, hrunning⟩
      · intro id hrunning
        have hsame := hunderway id
        rw [Store.isUnderway_congr (t := releaseRunLeases (failRuns appended _ _ now) _ now)
          (s := appended) rfl, hsame, Bool.and_eq_true] at hrunning
        exact hrunning.1
      · rw [Store.isUnderway_congr (t := releaseRunLeases (failRuns appended _ _ now) _ now)
          (s := appended) rfl, hunderway]
        simp

/-- The sweep fails a run once at most: after that none of its executions is running. -/
theorem failExpiredRuns_runsMove {newId : ℕ → ℕ → String} {now : ℤ}
    {expired : List (String × String)} {draw : ℕ}
    (hfail : failExpiredRuns newId now expired draw s = .ok t) :
    RunsMove (Expires (fun id => id ∈ expired.map Prod.fst) s now) s t := by
  induction expired generalizing s draw with
  | nil =>
      cases hfail
      exact RunsMove.of_eq (fun _ => Or.inl rfl) rfl
  | cons first rest ih =>
      obtain ⟨failed, hfirst, hrest⟩ := Outcome.bind_eq_ok.mp hfail
      obtain ⟨hmoved, hunderway, honce⟩ := failExpiredRun_runsMove hfirst
      intro id row hrow
      obtain rfl := Store.id_of_getRun hrow
      obtain ⟨row', hrow', hmove⟩ := hmoved row.id row hrow
      obtain ⟨row'', hrow'', hmove'⟩ := ih hrest row.id row' hrow'
      refine ⟨row'', hrow'', ?_⟩
      rcases hmove' with rfl | ⟨reason, hmem, hrunning, rfl⟩
      · rcases hmove with rfl | ⟨reason, hid, hrunning, rfl⟩
        · exact Or.inl rfl
        · exact Or.inr ⟨reason, by simp [hid], hrunning, rfl⟩
      · rw [Store.id_of_getRun hrow'] at hmem hrunning
        rcases hmove with rfl | ⟨_, hid, _, rfl⟩
        · exact Or.inr ⟨reason, List.mem_cons_of_mem _ hmem, hunderway _ hrunning, rfl⟩
        · -- The run has been failed before, so it is not underway any more.
          rcases honce with hsame | hover
          · rw [hsame, hrow, Option.some.injEq] at hrow'
            rw [← hrow']
            exact Or.inr ⟨reason, List.mem_cons_of_mem _ hmem, hunderway _ hrunning, rfl⟩
          · rw [hid, hover] at hrunning
            cases hrunning

theorem failExpiredScheduleExecutions_runsMove {limit : ℕ} {newId : ℕ → ℕ → String} {now : ℤ}
    (hfail : failExpiredScheduleExecutions s limit newId now = .ok t) :
    RunsMove (MovedBy s (.failExpiredScheduleExecutions limit newId now)) s t := by
  rw [failExpiredScheduleExecutions, Outcome.guard_eq_ok] at hfail
  apply (failExpiredRuns_runsMove hfail.2).mono
  intro row row' _ hexpires
  rcases hexpires with hsame | ⟨reason, hoverdue, hunderway, rfl⟩
  · exact Or.inl hsame
  · exact Or.inr (RunStep.expire hoverdue hunderway)

/-! ## Any call -/

/-- **Runs.** Whatever a call is, it moves each run as `RunStep` says, or not at all. -/
theorem perform_runsMove {a : Action} (hkeyed : Keyed s) :
    RunsMove (MovedBy s a) s (perform s a) := by
  have hrefl := movedBy_refl s a
  rcases perform_cases s a with hcall | hsame
  · generalize perform s a = t at hcall
    cases a with
    | createSession => exact (insertSession_quiet hcall).runsMove
    | bindSession binding =>
        cases hcall
        exact (bindSession_quiet s binding).runsMove
    | appendSessionEvent =>
        obtain ⟨⟨after, row⟩, happend, rfl⟩ := Outcome.map_eq_ok.mp hcall
        exact (appendSessionEventRow_quiet happend).runsMove
    | recordModelUsage =>
        obtain ⟨⟨after, row⟩, hrecord, rfl⟩ := Outcome.map_eq_ok.mp hcall
        exact (recordModelUsage_quiet hrecord).runsMove
    | completeSession => exact (completeSession_drops hcall).runsMove
    | failRunningSessionsForRuntimeInstance =>
        exact failRunningSessionsForRuntimeInstance_runsMove hcall
    | ingestAgentEvent =>
        obtain ⟨⟨after, result⟩, hingest, rfl⟩ := Outcome.map_eq_ok.mp hcall
        exact ingestAgentEvent_runsMove hkeyed hingest
    | createScheduleRun => exact insertRun_runsMove hrefl hcall
    | claimScheduleRunActivation scheduleRunId now staleAfterMs =>
        cases hcall
        refine updateRun_runsMove hrefl (fun _ => rfl) ?_
        rintro row rfl hactivatable
        exact Or.inr (RunStep.claim hactivatable)
    | redeemScheduleRunDispatch scheduleRunId deploymentId now =>
        cases hcall
        refine updateRun_runsMove hrefl (fun _ => rfl) ?_
        rintro row rfl hcondition
        simp only [Bool.and_eq_true, decide_eq_true_eq] at hcondition
        exact Or.inr (RunStep.redeem hcondition.2)
    | completeScheduleRun =>
        obtain ⟨⟨after, result⟩, hcomplete, rfl⟩ := Outcome.map_eq_ok.mp hcall
        exact completeScheduleRun_runsMove hcomplete
    | failScheduleExecutionsForRuntimeInstance =>
        exact failScheduleExecutionsForRuntimeInstance_runsMove hcall
    | failExpiredScheduleExecutions => exact failExpiredScheduleExecutions_runsMove hcall
    | pruneDerivedAgentTelemetry before =>
        cases hcall
        exact (pruneDerivedAgentTelemetry_drops s before).runsMove
    | elsewhere next leases =>
        cases hcall
        exact RunsMove.of_eq hrefl rfl
  · rw [hsame]
    exact RunsMove.of_eq hrefl rfl

end Eveland.Telemetry
