/-
# A running run can be settled

A running run is settled by an event of the session of one of its running executions, by the loss
of that session's runtime, or by the sweep of expired executions. The first takes the session to
be linked to the run: the link is stored with the session, once, while executions can be many.

The invariant says that a running run has a running execution, and that each of them is of a
session linked to the run. It is kept by all calls but three: a completion links its sessions to
its own run, whatever run they were linked to; and folding and pruning delete sessions, and their
executions with them.
-/

import Eveland.Telemetry.RunSteps

namespace Eveland.Telemetry

/-! ## The property and the invariant -/

/-- The run is running. -/
def Store.isRunningRun (s : Store) (scheduleRunId : String) : Bool :=
  s.runs.any fun row => row.id = scheduleRunId && row.status = .running

/-- The session is there, and linked to the run. -/
def Store.isLinked (s : Store) (sessionId scheduleRunId : String) : Bool :=
  s.sessions.any fun row => row.id = sessionId && row.scheduleRunId = some scheduleRunId

variable {s t : Store}

/-- Every running run has a running execution of a session that is linked to it. -/
def Store.Settleable (s : Store) : Prop :=
  ∀ run ∈ s.runs, run.status = .running → ∃ execution ∈ s.executions,
    execution.scheduleRunId = run.id ∧ execution.status = .running ∧
      s.isLinked execution.sessionId run.id = true

instance : Decidable s.Settleable :=
  inferInstanceAs (Decidable (∀ run ∈ s.runs, run.status = .running → ∃ execution ∈ s.executions,
    execution.scheduleRunId = run.id ∧ execution.status = .running ∧
      s.isLinked execution.sessionId run.id = true))

/-- Every running run has a running execution, and each is of a session linked to the run. -/
structure Store.Attended (s : Store) : Prop where
  underway : ∀ run ∈ s.runs, run.status = .running → ∃ execution ∈ s.executions,
    execution.scheduleRunId = run.id ∧ execution.status = .running
  linked : ∀ execution ∈ s.executions, execution.status = .running →
    s.isRunningRun execution.scheduleRunId = true →
      s.isLinked execution.sessionId execution.scheduleRunId = true

theorem Store.isRunningRun_iff {scheduleRunId : String} :
    s.isRunningRun scheduleRunId = true ↔
      ∃ run ∈ s.runs, run.id = scheduleRunId ∧ run.status = .running := by
  simp [Store.isRunningRun]

theorem Store.isLinked_iff {sessionId scheduleRunId : String} :
    s.isLinked sessionId scheduleRunId = true ↔
      ∃ row ∈ s.sessions, row.id = sessionId ∧ row.scheduleRunId = some scheduleRunId := by
  simp [Store.isLinked]

theorem Store.Attended.settleable (hattended : s.Attended) : s.Settleable := by
  intro run hrun hrunning
  obtain ⟨execution, hexecution, hof, hunderway⟩ := hattended.underway run hrun hrunning
  refine ⟨execution, hexecution, hof, hunderway, ?_⟩
  rw [← hof]
  exact hattended.linked execution hexecution hunderway
    (Store.isRunningRun_iff.mpr ⟨run, hrun, hof.symm, hrunning⟩)

theorem Store.Initial.attended (hinit : s.Initial) : s.Attended where
  underway := by simp [hinit.runs]
  linked := by simp [hinit.executions]

/-! ## The condition -/

/-- Every running run keeps a running execution where these sessions are lost. -/
def Store.survives (s : Store) (lost : String → Bool) : Bool :=
  s.runs.all fun run => run.status ≠ .running || s.executions.any fun execution =>
    execution.scheduleRunId = run.id && execution.status = .running && !lost execution.sessionId

/-- The session is one that a completion dispatches: it holds one of the Eve session ids. -/
def Store.isDispatched (s : Store) (projectId : String) (eveSessionIds : List String)
    (sessionId : String) : Bool :=
  eveSessionIds.any fun eveSessionId =>
    (s.findSession projectId eveSessionId).any fun row => row.id = sessionId

/-- A completion dispatches no session that has a running execution of another running run; and
where it may leave its run running, the running executions the run has already are of sessions
linked to it or dispatched again. -/
def Store.completesItsOwn (s : Store) (scheduleRunId projectId : String)
    (input : CompleteRunInput) : Bool :=
  s.executions.all fun execution =>
    execution.status ≠ .running ||
      (if execution.scheduleRunId = scheduleRunId then
        input.status ≠ .succeeded || input.eveSessionIds.isEmpty ||
          s.isLinked execution.sessionId scheduleRunId ||
          s.isDispatched projectId input.eveSessionIds execution.sessionId
      else
        !s.isRunningRun execution.scheduleRunId ||
          !s.isDispatched projectId input.eveSessionIds execution.sessionId)

/-- What a call must not do: fold or prune the session of the last running execution of a running
run, or link sessions away from a running run. -/
def isConsiderate (s : Store) : Action → Bool
  | .completeSession sessionId input _ =>
      s.survives fun id => (s.getSession sessionId).any fun current =>
        (s.observedElsewhere current input.claimedId).any fun row => id = row.id
  | .ingestAgentEvent o ids now =>
      match s.beforeLink o ids now with
      | .ok (stage, lost) => stage.survives lost
      | .error _ => true
  | .completeScheduleRun scheduleRunId input _ _ =>
      (s.getRun scheduleRunId).all fun run =>
        (s.schedules.find? fun row => row.id = run.scheduleId).all fun schedule =>
          s.completesItsOwn scheduleRunId schedule.projectId input
  | .pruneDerivedAgentTelemetry before => s.survives (s.expired before)
  | _ => true

theorem Store.survives_iff {lost : String → Bool} :
    s.survives lost = true ↔ ∀ run ∈ s.runs, run.status = .running →
      ∃ execution ∈ s.executions, execution.scheduleRunId = run.id ∧
        execution.status = .running ∧ lost execution.sessionId = false := by
  simp only [Store.survives, List.all_eq_true, Bool.or_eq_true, decide_eq_true_eq,
    List.any_eq_true, Bool.and_eq_true, Bool.not_eq_true', and_assoc, ne_eq]
  apply forall₂_congr
  intro run _
  tauto

/-! ## What keeps the invariant -/

theorem Drops.isLinked {lost : String → Bool} {sessionId scheduleRunId : String}
    (hdrops : Drops lost s t) (hkept : lost sessionId = false)
    (hlinked : s.isLinked sessionId scheduleRunId = true) :
    t.isLinked sessionId scheduleRunId = true := by
  obtain ⟨row, hrow, rfl, hlink⟩ := Store.isLinked_iff.mp hlinked
  obtain ⟨row', hrow', hid, hsame⟩ := hdrops.links row hrow hkept
  exact Store.isLinked_iff.mpr ⟨row', hrow', hid, hsame.trans hlink⟩

/-- Losing sessions keeps the invariant where every running run keeps an execution. -/
theorem Drops.attended {lost : String → Bool} (hdrops : Drops lost s t)
    (hsurvives : s.survives lost = true) (hattended : s.Attended) : t.Attended where
  underway := by
    intro run hrun hrunning
    rw [hdrops.runs] at hrun
    obtain ⟨execution, hexecution, hof, hunderway, hkept⟩ :=
      Store.survives_iff.mp hsurvives run hrun hrunning
    refine ⟨execution, ?_, hof, hunderway⟩
    rw [hdrops.executions]
    exact List.mem_filter.mpr ⟨hexecution, by simp [hkept]⟩
  linked := by
    intro execution hexecution hunderway hrunning
    rw [hdrops.executions] at hexecution
    obtain ⟨hmem, hkept⟩ := List.mem_filter.mp hexecution
    have hrunning' : s.isRunningRun execution.scheduleRunId = true := by
      rw [Store.isRunningRun, hdrops.runs] at hrunning
      exact hrunning
    exact hdrops.isLinked (by simpa using hkept)
      (hattended.linked execution hmem hunderway hrunning')

theorem Quiet.isLinked {sessionId scheduleRunId : String} (hquiet : Quiet s t)
    (hlinked : s.isLinked sessionId scheduleRunId = true) :
    t.isLinked sessionId scheduleRunId = true :=
  Drops.isLinked hquiet rfl hlinked

theorem Quiet.attended (hquiet : Quiet s t) (hattended : s.Attended) : t.Attended := by
  apply Drops.attended hquiet _ hattended
  rw [Store.survives_iff]
  intro run hrun hrunning
  obtain ⟨execution, hexecution, hof, hunderway⟩ := hattended.underway run hrun hrunning
  exact ⟨execution, hexecution, hof, hunderway, rfl⟩

/-- Executions may end and runs may stop running, as long as no running run is left without a
running execution. -/
theorem Store.Attended.of_ends (hattended : s.Attended)
    (hruns : ∀ run ∈ t.runs, run.status = .running →
      ∃ earlier ∈ s.runs, earlier.id = run.id ∧ earlier.status = .running)
    (hexecutions : ∀ execution ∈ t.executions, execution.status = .running →
      ∃ earlier ∈ s.executions, earlier.scheduleRunId = execution.scheduleRunId ∧
        earlier.sessionId = execution.sessionId ∧ earlier.status = .running)
    (hlinks : ∀ sessionId scheduleRunId, s.isLinked sessionId scheduleRunId = true →
      t.isLinked sessionId scheduleRunId = true)
    (hunderway : ∀ run ∈ t.runs, run.status = .running → ∃ execution ∈ t.executions,
      execution.scheduleRunId = run.id ∧ execution.status = .running) : t.Attended where
  underway := hunderway
  linked := by
    intro execution hexecution hstatus hrunning
    obtain ⟨earlier, hearlier, hof, hsession, hearlierStatus⟩ :=
      hexecutions execution hexecution hstatus
    obtain ⟨run, hrun, hid, hrunStatus⟩ := Store.isRunningRun_iff.mp hrunning
    obtain ⟨earlierRun, hearlierRun, hid', hstatus'⟩ := hruns run hrun hrunStatus
    rw [← hof, ← hsession]
    apply hlinks
    apply hattended.linked earlier hearlier hearlierStatus
    exact Store.isRunningRun_iff.mpr
      ⟨earlierRun, hearlierRun, hid'.trans (hid.trans hof.symm), hstatus'⟩

/-- A running run left by an update of runs was running before, if the update makes none so. -/
theorem running_of_updateWhere {p : ScheduleRun → Bool} {f : ScheduleRun → ScheduleRun}
    {runs : List ScheduleRun} (hidle : ∀ row ∈ runs, p row = true → (f row).status ≠ .running)
    {run : ScheduleRun} (hrun : run ∈ Table.updateWhere p f runs) (hrunning : run.status = .running) :
    run ∈ runs ∧ p run = false := by
  rcases Table.mem_updateWhere.mp hrun with hkept | ⟨earlier, hearlier, hp, rfl⟩
  · exact hkept
  · exact absurd hrunning (hidle earlier hearlier hp)

/-- Runs that are not running may come and go. -/
theorem Store.Attended.of_runs (hattended : s.Attended) {runs : List ScheduleRun}
    (hruns : ∀ run ∈ runs, run.status = .running → run ∈ s.runs) :
    Store.Attended { s with runs := runs } := by
  apply hattended.of_ends
  · exact fun run hrun hrunning => ⟨run, hruns run hrun hrunning, rfl, hrunning⟩
  · exact fun execution hexecution hstatus => ⟨execution, hexecution, rfl, rfl, hstatus⟩
  · exact fun _ _ hlinked => hlinked
  · exact fun run hrun hrunning => hattended.underway run (hruns run hrun hrunning) hrunning

theorem updateRun_attended {scheduleRunId : String} {condition : ScheduleRun → Bool}
    {change : ScheduleRun → ScheduleRun} (hidle : ∀ row, (change row).status ≠ .running)
    (hattended : s.Attended) : (updateRun s scheduleRunId condition change).1.Attended := by
  apply hattended.of_runs
  intro run hrun hrunning
  exact (running_of_updateWhere (fun row _ _ => hidle row) hrun hrunning).1

/-! ## Events -/

theorem settleRun_attended {scheduleRunId : String} {now : ℤ}
    (hexecutions : s.isRunningRun scheduleRunId = true →
      ∃ execution ∈ s.executions, execution.scheduleRunId = scheduleRunId)
    (hothers : ∀ run ∈ s.runs, run.status = .running → run.id ≠ scheduleRunId →
      ∃ execution ∈ s.executions, execution.scheduleRunId = run.id ∧ execution.status = .running)
    (hlinked : ∀ execution ∈ s.executions, execution.status = .running →
      s.isRunningRun execution.scheduleRunId = true →
        s.isLinked execution.sessionId execution.scheduleRunId = true) :
    (settleRun s scheduleRunId now).Attended := by
  rw [settleRun]
  dsimp only
  split
  · next hunsettled =>
      rw [Bool.or_eq_true] at hunsettled
      refine ⟨?_, hlinked⟩
      intro run hrun hrunning
      by_cases hid : run.id = scheduleRunId
      · rcases hunsettled with hempty | hany
        · obtain ⟨execution, hexecution, hof⟩ :=
            hexecutions (Store.isRunningRun_iff.mpr ⟨run, hrun, hid, hrunning⟩)
          simp only [List.isEmpty_iff, Store.executionsOf, List.filter_eq_nil_iff] at hempty
          exact absurd (by simpa using hof) (hempty execution hexecution)
        · rw [hid]
          exact Store.isUnderway_iff.mp hany
      · exact hothers run hrun hrunning hid
  · -- The run is settled, if it was running; the others stand as they did.
    have hkept : ∀ run ∈ Table.updateWhere
        (fun row => row.id = scheduleRunId && row.status = .running)
        (fun row => { row with
          status := if ((s.executionsOf scheduleRunId).find?
            fun row => row.status = .failed).isSome then .failed else .succeeded
          error := ((s.executionsOf scheduleRunId).find?
            fun row => row.status = .failed).bind fun row => row.error
          completedAt := some now
          updatedAt := now }) s.runs,
        run.status = .running → run ∈ s.runs ∧ run.id ≠ scheduleRunId := by
      intro run hrun hrunning
      obtain ⟨hmem, hother⟩ := running_of_updateWhere (by
        intro row _ _
        dsimp only
        split <;> decide) hrun hrunning
      exact ⟨hmem, by simpa [hrunning] using hother⟩
    constructor
    · intro run hrun hrunning
      obtain ⟨hmem, hother⟩ := hkept run hrun hrunning
      exact hothers run hmem hrunning hother
    · intro execution hexecution hstatus hrunning
      obtain ⟨run, hrun, hid, hrunStatus⟩ := Store.isRunningRun_iff.mp hrunning
      exact hlinked execution hexecution hstatus (Store.isRunningRun_iff.mpr
        ⟨run, (hkept run hrun hrunStatus).1, hid, hrunStatus⟩)

theorem nonRunning_ne {status ended : ExecutionStatus} (hended : nonRunning status = some ended) :
    ended ≠ .running := by
  cases status <;> cases hended <;> decide

/-- An event ends executions, and settles the run that has none left. -/
theorem projectExecution_attended (reading : EventReading) (node : SessionNode)
    (sessionRow : Session) (now : ℤ) (hattended : s.Attended) :
    (projectExecution s reading node sessionRow now).Attended := by
  rw [projectExecution]
  split
  · exact hattended
  · next scheduleRunId _ =>
      dsimp only
      split
      · -- The execution is observed, and runs on.
        apply hattended.of_ends
        · exact fun run hrun hrunning => ⟨run, hrun, rfl, hrunning⟩
        · intro execution hexecution hstatus
          rcases Table.mem_updateWhere.mp hexecution with ⟨hold, _⟩ | ⟨old, hold, _, rfl⟩
          · exact ⟨execution, hold, rfl, rfl, hstatus⟩
          · exact ⟨old, hold, rfl, rfl, hstatus⟩
        · exact fun _ _ hlinked => hlinked
        · intro run hrun hrunning
          obtain ⟨execution, hexecution, hof, hstatus⟩ := hattended.underway run hrun hrunning
          refine Or.elim (Bool.eq_false_or_eq_true
            (execution.scheduleRunId = scheduleRunId && execution.sessionId = sessionRow.id)) ?_ ?_
          · exact fun hours => ⟨_, Table.mem_updateWhere.mpr
              (Or.inr ⟨execution, hexecution, hours, rfl⟩), hof, hstatus⟩
          · exact fun hother =>
              ⟨execution, Table.mem_updateWhere_of_not hexecution hother, hof, hstatus⟩
      · next status hstatus =>
          have hended : ∀ execution ∈ Table.updateWhere
              (fun row => (row.scheduleRunId = scheduleRunId && row.sessionId = sessionRow.id) &&
                row.status = .running) (endExecution reading status now) s.executions,
              execution.status = .running → execution ∈ s.executions := by
            intro execution hexecution hrunning
            rcases Table.mem_updateWhere.mp hexecution with ⟨hold, _⟩ | ⟨old, _, _, rfl⟩
            · exact hold
            · split at hstatus
              · exact absurd hrunning (nonRunning_ne hstatus)
              · cases hstatus
          apply settleRun_attended
          · intro hrunning
            obtain ⟨run, hrun, rfl, hrunStatus⟩ := Store.isRunningRun_iff.mp hrunning
            obtain ⟨execution, hexecution, hof, _⟩ := hattended.underway run hrun hrunStatus
            refine ⟨_, List.mem_map_of_mem hexecution, ?_⟩
            split <;> exact hof
          · intro run hrun hrunning hother
            obtain ⟨execution, hexecution, hof, hunderway⟩ :=
              hattended.underway run hrun hrunning
            refine ⟨execution, Table.mem_updateWhere_of_not hexecution ?_, hof, hunderway⟩
            simp [hof, hother]
          · exact fun execution hexecution hrunning =>
              hattended.linked execution (hended execution hexecution hrunning) hrunning

/-! ## Sweeps -/

/-- A sweep fails executions, and every running run of one. -/
theorem Store.Attended.of_failures {p : ScheduleRunSession → Bool} {q : ScheduleRun → Bool}
    {reason : String} {now : ℤ} (hattended : s.Attended)
    (hexecutions : t.executions = Table.updateWhere p (failExecution reason now) s.executions)
    (hruns : t.runs = Table.updateWhere q (failRun reason now) s.runs)
    (hlinks : ∀ sessionId scheduleRunId, s.isLinked sessionId scheduleRunId = true →
      t.isLinked sessionId scheduleRunId = true)
    (hcovers : ∀ execution ∈ s.executions, p execution = true → ∀ run ∈ s.runs,
      execution.scheduleRunId = run.id → run.status = .running → q run = true) :
    t.Attended := by
  have hkept : ∀ run ∈ t.runs, run.status = .running → run ∈ s.runs ∧ q run = false := by
    intro run hrun hrunning
    rw [hruns] at hrun
    refine running_of_updateWhere (fun row _ _ hfailed => ?_) hrun hrunning
    cases hfailed
  apply hattended.of_ends
  · exact fun run hrun hrunning => ⟨run, (hkept run hrun hrunning).1, rfl, hrunning⟩
  · intro execution hexecution hstatus
    rw [hexecutions] at hexecution
    rcases Table.mem_updateWhere.mp hexecution with ⟨hold, _⟩ | ⟨old, _, _, rfl⟩
    · exact ⟨execution, hold, rfl, rfl, hstatus⟩
    · cases hstatus
  · exact hlinks
  · intro run hrun hrunning
    obtain ⟨hmem, hspared⟩ := hkept run hrun hrunning
    obtain ⟨execution, hexecution, hof, hunderway⟩ := hattended.underway run hmem hrunning
    refine ⟨execution, ?_, hof, hunderway⟩
    rw [hexecutions]
    refine Table.mem_updateWhere_of_not hexecution (Bool.eq_false_iff.mpr fun hp => ?_)
    rw [hcovers execution hexecution hp run hmem hof hrunning] at hspared
    cases hspared

theorem failScheduleExecutionsForRuntimeInstance_attended {runtimeInstanceId reason : String}
    {newId : ℕ → String} {now : ℤ} (hattended : s.Attended)
    (hfail : failScheduleExecutionsForRuntimeInstance s runtimeInstanceId reason newId now =
      .ok t) : t.Attended := by
  obtain ⟨appended, happend, heq⟩ := Outcome.bind_eq_ok.mp hfail
  cases heq
  have hquiet := (failSessions_quiet (failExecutions s _ _ reason now) _ _ _).trans
    (appendRuntimeLostEvents_quiet happend)
  refine hattended.of_failures (t := releaseRunLeases (failRuns appended _ reason now) _ now)
    hquiet.executions_eq (congrArg _ hquiet.runs)
    (fun _ _ hlinked => hquiet.isLinked hlinked) ?_
  intro execution _ hselected run _ hof _
  simp only [Bool.and_eq_true] at hselected
  rw [← hof]
  exact hselected.1.1

theorem failRunningSessionsForRuntimeInstance_attended {runtimeInstanceId reason : String}
    {newId : ℕ → String} {now : ℤ} (hattended : s.Attended)
    (hfail : failRunningSessionsForRuntimeInstance s runtimeInstanceId reason newId now = .ok t) :
    t.Attended := by
  obtain ⟨appended, happend, heq⟩ := Outcome.bind_eq_ok.mp hfail
  cases heq
  have hquiet := ((failSessions_quiet s _ _ _).trans (failNodes_quiet _ _)).trans
    (appendRuntimeLostEvents_quiet happend)
  refine (hquiet.attended hattended).of_failures
    (t := releaseRunLeases (failRuns (failExecutions appended _ _ reason now) _ reason now) _ now)
    rfl rfl (fun _ _ hlinked => hlinked) ?_
  intro execution _ hselected run _ hof hrunning
  simp only [Bool.and_eq_true] at hselected
  rw [Bool.and_eq_true, ← hof]
  exact ⟨hselected.1.1, by simpa using hrunning⟩

theorem failExpiredRun_attended {scheduleRunId runtimeInstanceId : String} {newId : ℕ → String}
    {now : ℤ} (hattended : s.Attended)
    (hfail : failExpiredRun s scheduleRunId runtimeInstanceId newId now = .ok t) :
    t.Attended := by
  rw [failExpiredRun] at hfail
  dsimp only at hfail
  split at hfail
  · cases hfail
    exact hattended
  · obtain ⟨appended, happend, heq⟩ := Outcome.bind_eq_ok.mp hfail
    cases heq
    have hquiet := (failSessions_quiet (failExecutionsOf s scheduleRunId _ now) _ _ _).trans
      (appendDeadlineEvents_quiet happend)
    refine hattended.of_failures (t := releaseRunLeases (failRuns appended _ _ now) _ now)
      hquiet.executions_eq (congrArg _ hquiet.runs)
      (fun _ _ hlinked => hquiet.isLinked hlinked) ?_
    intro execution _ hselected run _ hof _
    simp only [Bool.and_eq_true, decide_eq_true_eq] at hselected
    rw [decide_eq_true_eq, ← hof]
    exact hselected.1

theorem failExpiredScheduleExecutions_attended {limit : ℕ} {newId : ℕ → ℕ → String} {now : ℤ}
    (hattended : s.Attended)
    (hfail : failExpiredScheduleExecutions s limit newId now = .ok t) : t.Attended := by
  rw [failExpiredScheduleExecutions, Outcome.guard_eq_ok] at hfail
  obtain ⟨_, hfail⟩ := hfail
  generalize (s.expiredRuns now).take limit = expired at hfail
  generalize 0 = draw at hfail
  induction expired generalizing s draw with
  | nil =>
      cases hfail
      exact hattended
  | cons first rest ih =>
      obtain ⟨failed, hfirst, hrest⟩ := Outcome.bind_eq_ok.mp hfail
      exact ih (failExpiredRun_attended hattended hfirst) _ hrest

/-! ## Completion -/

/-- What the dispatch of sessions for a run leaves: executions of the run are added, of sessions
that are linked to it now; sessions that are not dispatched stay as they were. -/
structure Dispatches (run : ScheduleRun) (dispatched : String → Bool) (s t : Store) : Prop where
  executions : ∀ execution ∈ t.executions, execution ∈ s.executions ∨
    execution.scheduleRunId = run.id ∧ t.isLinked execution.sessionId run.id = true
  kept : ∀ execution ∈ s.executions, execution ∈ t.executions
  links : ∀ row ∈ s.sessions, dispatched row.id = false → row ∈ t.sessions
  linked : ∀ row ∈ s.sessions, dispatched row.id = true → t.isLinked row.id run.id = true

namespace Dispatches

variable {run : ScheduleRun}

/-- A session that is linked to the run stays linked to it. -/
theorem isLinked {dispatched : String → Bool} {sessionId : String}
    (hdispatches : Dispatches run dispatched s t) (hlinked : s.isLinked sessionId run.id = true) :
    t.isLinked sessionId run.id = true := by
  obtain ⟨row, hrow, rfl, hlink⟩ := Store.isLinked_iff.mp hlinked
  cases hdispatched : dispatched row.id with
  | true => exact hdispatches.linked row hrow hdispatched
  | false => exact Store.isLinked_iff.mpr ⟨row, hdispatches.links row hrow hdispatched, rfl, hlink⟩

theorem trans {first second both : String → Bool} {m : Store} (hfirst : Dispatches run first s m)
    (hsecond : Dispatches run second m t)
    (hboth : ∀ row ∈ s.sessions, both row.id = (first row.id || second row.id)) :
    Dispatches run both s t where
  executions := by
    intro execution hexecution
    rcases hsecond.executions execution hexecution with hold | hnew
    · rcases hfirst.executions execution hold with holder | ⟨hof, hlinked⟩
      · exact Or.inl holder
      · exact Or.inr ⟨hof, hsecond.isLinked hlinked⟩
    · exact Or.inr hnew
  kept := fun execution hexecution => hsecond.kept execution (hfirst.kept execution hexecution)
  links := by
    intro row hrow hneither
    rw [hboth row hrow, Bool.or_eq_false_iff] at hneither
    exact hsecond.links row (hfirst.links row hrow hneither.1) hneither.2
  linked := by
    intro row hrow heither
    rw [hboth row hrow] at heither
    cases hdispatched : first row.id with
    | true => exact hsecond.isLinked (hfirst.linked row hrow hdispatched)
    | false =>
        rw [hdispatched, Bool.false_or] at heither
        exact hsecond.linked row (hfirst.links row hrow hdispatched) heither

end Dispatches

theorem insertExecution_cases (s : Store) (row : ScheduleRunSession) :
    insertExecution s row = s ∨
      insertExecution s row = { s with executions := s.executions ++ [row] } := by
  rw [insertExecution]
  split
  · exact Or.inl rfl
  · exact Or.inr rfl

/-- The session one turn of the loop links, and the execution it may add. -/
theorem dispatchSession_dispatches {run : ScheduleRun} {projectId : String}
    {input : CompleteRunInput} {reportedError : Option String} {eveSessionId sessionId : String}
    {now : ℤ}
    (hdispatch : dispatchSession s run projectId input reportedError eveSessionId sessionId now =
      .ok t) :
    Dispatches run (fun id => (s.findSession projectId eveSessionId).any fun row => row.id = id)
      s t := by
  obtain ⟨⟨linked, linkedId⟩, hlink, heq⟩ := Outcome.bind_eq_ok.mp hdispatch
  cases heq
  rw [linkDispatched] at hlink
  -- What the link itself leaves, before the execution is inserted.
  have hlinked : linked.executions = s.executions ∧ linked.isLinked linkedId run.id = true ∧
      (∀ row ∈ s.sessions, ((s.findSession projectId eveSessionId).any fun found =>
        found.id = row.id) = false → row ∈ linked.sessions) ∧
      ∀ row ∈ s.sessions, ((s.findSession projectId eveSessionId).any fun found =>
        found.id = row.id) = true → linked.isLinked row.id run.id = true := by
    split at hlink
    · next existing hexisting =>
        cases hlink
        have hmem := (Store.mem_of_findSession hexisting).1
        have hown : Store.isLinked { s with
            sessions := Table.updateWhere (fun row => row.id = existing.id) (linkSession run)
              s.sessions } existing.id run.id = true :=
          Store.isLinked_iff.mpr ⟨linkSession run existing,
            Table.mem_updateWhere.mpr (Or.inr ⟨existing, hmem, by simp, rfl⟩), rfl, rfl⟩
        refine ⟨rfl, hown, ?_, ?_⟩
        · intro row hrow hother
          rw [hexisting] at hother
          apply Table.mem_updateWhere_of_not hrow
          simpa [eq_comm] using hother
        · intro row hrow hsame
          rw [hexisting] at hsame
          simp only [Option.any_some, decide_eq_true_eq] at hsame
          rw [← hsame]
          exact hown
    · next hnone =>
        obtain ⟨inserted, hinsert, heq⟩ := Outcome.map_eq_ok.mp hlink
        cases heq
        obtain ⟨_, _, rfl⟩ := insertSession_eq_ok.mp hinsert
        refine ⟨rfl, ?_, ?_, ?_⟩
        · exact Store.isLinked_iff.mpr
            ⟨_, List.mem_append_right _ (List.mem_singleton_self _), rfl, rfl⟩
        · exact fun row hrow _ => List.mem_append_left _ hrow
        · intro row _ hsome
          rw [hnone] at hsome
          cases hsome
  obtain ⟨hexecutions, hown, hlinks, hdispatched⟩ := hlinked
  rcases insertExecution_cases linked _ with hsame | hmore
  · rw [hsame]
    exact ⟨fun execution hmem => Or.inl (hexecutions ▸ hmem),
      fun execution hmem => hexecutions.symm ▸ hmem, hlinks, hdispatched⟩
  · rw [hmore]
    refine ⟨?_, ?_, hlinks, hdispatched⟩
    · intro execution hmem
      rcases List.mem_append.mp hmem with hold | hnew
      · exact Or.inl (hexecutions ▸ hold)
      · rw [List.mem_singleton.mp hnew]
        exact Or.inr ⟨rfl, hown⟩
    · exact fun execution hmem => List.mem_append_left _ (hexecutions.symm ▸ hmem)

/-- The sessions that are dispatched are not changed by dispatching one. -/
theorem dispatchSession_isDispatched {run : ScheduleRun} {projectId : String}
    {input : CompleteRunInput} {reportedError : Option String} {eveSessionId sessionId : String}
    {now : ℤ}
    (hdispatch : dispatchSession s run projectId input reportedError eveSessionId sessionId now =
      .ok t) (eveSessionIds : List String) {row : Session} (hrow : row ∈ s.sessions) :
    t.isDispatched projectId eveSessionIds row.id =
      s.isDispatched projectId eveSessionIds row.id := by
  obtain ⟨⟨linked, linkedId⟩, hlink, heq⟩ := Outcome.bind_eq_ok.mp hdispatch
  cases heq
  have hsame : ∀ other, ((linked.findSession projectId other).any fun found =>
      found.id = row.id) = (s.findSession projectId other).any fun found => found.id = row.id := by
    intro other
    rw [linkDispatched] at hlink
    split at hlink
    · next existing _ =>
        cases hlink
        have hid : ∀ found : Session,
            (if decide (found.id = existing.id) then linkSession run found else found).id =
              found.id := by
          intro found
          split <;> rfl
        have hfind := Table.find?_updateWhere_of (p := fun found => found.id = existing.id)
          (q := fun found => found.projectId = projectId && found.eveSessionId = some other)
          (f := linkSession run) (fun _ => rfl) s.sessions
        rw [Store.findSession]
        dsimp only
        rw [hfind, Option.any_map]
        simp only [hid]
        rfl
    · obtain ⟨inserted, hinsert, heq⟩ := Outcome.map_eq_ok.mp hlink
      cases heq
      obtain ⟨hfresh, _, rfl⟩ := insertSession_eq_ok.mp hinsert
      have hnew := hfresh row hrow
      rw [Store.findSession, List.find?_append]
      cases hfound : s.sessions.find? fun found =>
          found.projectId = projectId && found.eveSessionId = some other with
      | some found =>
          rw [Store.findSession, hfound]
          rfl
      | none =>
          rw [Store.findSession, hfound, Option.none_or, List.find?_singleton]
          split
          · simpa [eq_comm] using hnew
          · rfl
  have hfind : ∀ row, (insertExecution linked row).sessions = linked.sessions := by
    intro row
    rcases insertExecution_cases linked row with hcase | hcase <;> rw [hcase]
  unfold Store.isDispatched
  congr 1
  funext other
  rw [← hsame other, Store.findSession, hfind]
  rfl

theorem dispatchSessions_dispatches {run : ScheduleRun} {projectId : String}
    {input : CompleteRunInput} {reportedError : Option String} {newId : ℕ → String} {now : ℤ}
    {eveSessionIds : List String} {draw : ℕ}
    (hdispatch : dispatchSessions run projectId input reportedError newId now eveSessionIds draw s =
      .ok t) : Dispatches run (s.isDispatched projectId eveSessionIds) s t := by
  induction eveSessionIds generalizing s draw with
  | nil =>
      cases hdispatch
      exact ⟨fun _ hmem => Or.inl hmem, fun _ hmem => hmem, fun _ hrow _ => hrow,
        fun _ _ hdispatched => nomatch hdispatched⟩
  | cons eveSessionId rest ih =>
      obtain ⟨dispatched, hfirst, hrest⟩ := Outcome.bind_eq_ok.mp hdispatch
      apply (dispatchSession_dispatches hfirst).trans (ih hrest)
      intro row hrow
      rw [dispatchSession_isDispatched hfirst rest hrow]
      rfl

/-- The order and number of the Eve session ids do not matter. -/
theorem Store.isDispatched_distinct (s : Store) (projectId : String) (eveSessionIds : List String)
    (sessionId : String) :
    s.isDispatched projectId (distinct eveSessionIds) sessionId =
      s.isDispatched projectId eveSessionIds sessionId := by
  rw [Bool.eq_iff_iff]
  simp [Store.isDispatched, distinct]

/-- A run that a completion leaves running has succeeded with sessions, one of them running. -/
theorem completionOf_running {executions : List ScheduleRunSession} {input : CompleteRunInput}
    {reportedError : Option String}
    (hrunning : (completionOf executions input reportedError).status = .running) :
    input.status = .succeeded ∧ input.eveSessionIds.isEmpty = false ∧
      ∃ execution ∈ executions, execution.status = .running := by
  rw [completionOf] at hrunning
  dsimp only at hrunning
  split at hrunning
  · next hremains =>
      simpa [and_assoc] using hremains
  · split at hrunning
    · cases hrunning
    · cases hstatus : input.status <;> rw [hstatus] at hrunning <;> cases hrunning

theorem finishRun_keeps (s : Store) (scheduleRunId : String) (completion : Completion) (now : ℤ) :
    (finishRun s scheduleRunId completion now).1.executions = s.executions ∧
      (finishRun s scheduleRunId completion now).1.sessions = s.sessions := by
  rw [finishRun]
  split <;> exact ⟨rfl, rfl⟩

/-- The run of a completion, finished after the dispatch of its sessions. -/
theorem finishRun_attended {run : ScheduleRun} {projectId : String} {input : CompleteRunInput}
    (reportedError : Option String) (now : ℤ) (hattended : s.Attended) (hkeyed : Keyed s)
    (hown : s.completesItsOwn run.id projectId input = true) (hruns : t.runs = s.runs)
    (hloop : Dispatches run (s.isDispatched projectId input.eveSessionIds) s t) :
    (finishRun t run.id (completionOf (if input.eveSessionIds.isEmpty then [] else
      t.executionsOf run.id) input reportedError) now).1.Attended := by
  generalize hcompletion : completionOf (if input.eveSessionIds.isEmpty then [] else
    t.executionsOf run.id) input reportedError = completion
  obtain ⟨hexecutions, hsessions⟩ := finishRun_keeps t run.id completion now
  have hremains : completion.status = .running → input.status = .succeeded ∧
      input.eveSessionIds.isEmpty = false ∧
      ∃ execution ∈ t.executionsOf run.id, execution.status = .running := by
    intro hstatus
    rw [← hcompletion] at hstatus
    obtain ⟨hsucceeded, hsome, hunderway⟩ := completionOf_running hstatus
    rw [hsome] at hunderway
    exact ⟨hsucceeded, hsome, hunderway⟩
  -- A run that is running at the end is another one, or the one that is completed.
  have hrunning : ∀ row ∈ (finishRun t run.id completion now).1.runs, row.status = .running →
      (row ∈ s.runs ∧ row.id ≠ run.id) ∨ (row.id = run.id ∧ completion.status = .running) := by
    intro row hrow hstatus
    rw [finishRun_runs, hruns] at hrow
    rcases Table.mem_updateWhere.mp hrow with ⟨hold, hother⟩ | ⟨old, _, hid, rfl⟩
    · exact Or.inl ⟨hold, by simpa using hother⟩
    · rw [Bool.and_true, decide_eq_true_eq] at hid
      exact Or.inr ⟨hid, hstatus⟩
  constructor
  · intro row hrow hstatus
    rw [hexecutions]
    rcases hrunning row hrow hstatus with ⟨hold, _⟩ | ⟨hid, hcompleted⟩
    · obtain ⟨execution, hexecution, hof⟩ := hattended.underway row hold hstatus
      exact ⟨execution, hloop.kept execution hexecution, hof⟩
    · obtain ⟨_, _, execution, hexecution, hunderway⟩ := hremains hcompleted
      obtain ⟨hmem, hof⟩ := List.mem_filter.mp hexecution
      rw [decide_eq_true_eq] at hof
      exact ⟨execution, hmem, hof.trans hid.symm, hunderway⟩
  · intro execution hexecution hunderway hof
    rw [Store.isLinked, hsessions, ← Store.isLinked]
    rw [hexecutions] at hexecution
    rcases hloop.executions execution hexecution with hold | ⟨hnew, hlinked⟩
    · have hcondition := List.all_eq_true.mp hown execution hold
      simp only [hunderway, ne_eq, not_true_eq_false, decide_false, Bool.false_or] at hcondition
      obtain ⟨row, hrow, hid, hstatus⟩ := Store.isRunningRun_iff.mp hof
      rcases hrunning row hrow hstatus with ⟨hrowOld, hother⟩ | ⟨hsame, hcompleted⟩
      · -- Another run: its session is not dispatched, and stays as it was.
        have hofOld : s.isRunningRun execution.scheduleRunId = true :=
          Store.isRunningRun_iff.mpr ⟨row, hrowOld, hid, hstatus⟩
        rw [if_neg (hid ▸ hother), hofOld, Bool.not_true, Bool.false_or,
          Bool.not_eq_true'] at hcondition
        obtain ⟨session, hsession, hsessionId, hlink⟩ := Store.isLinked_iff.mp
          (hattended.linked execution hold hunderway hofOld)
        refine Store.isLinked_iff.mpr ⟨session, hloop.links session hsession ?_, hsessionId, hlink⟩
        rw [hsessionId]
        exact hcondition
      · -- The run itself: its session is linked to it already, or dispatched again.
        have hofRun : execution.scheduleRunId = run.id := hid.symm.trans hsame
        obtain ⟨hsucceeded, hsome, _⟩ := hremains hcompleted
        rw [if_pos hofRun, hsucceeded, hsome] at hcondition
        simp only [not_true_eq_false, decide_false, Bool.false_or, Bool.or_eq_true] at hcondition
        rw [hofRun]
        rcases hcondition with hlinked | hdispatched
        · exact hloop.isLinked hlinked
        · obtain ⟨session, hsession, hsessionId⟩ := hkeyed.executionsHeld execution hold
          rw [← hsessionId] at hdispatched ⊢
          exact hloop.linked session hsession hdispatched
    · rw [hnew]
      exact hlinked

/-- A completion that dispatches no session of another running run, and none of whose earlier
executions runs without a link, keeps the invariant. -/
theorem completeScheduleRun_attended {scheduleRunId : String} {input : CompleteRunInput}
    {newId : ℕ → String} {now : ℤ} {result : Option ScheduleRun} (hattended : s.Attended)
    (hkeyed : Keyed s)
    (hconsiderate : isConsiderate s (.completeScheduleRun scheduleRunId input newId now) = true)
    (hcomplete : completeScheduleRun s scheduleRunId input newId now = .ok (t, result)) :
    t.Attended := by
  cases hrun : s.getRun scheduleRunId with
  | none =>
      rw [completeScheduleRun, hrun] at hcomplete
      cases hcomplete
      exact hattended
  | some run =>
      obtain ⟨schedule, dispatched, hschedule, hdispatch, hfinish⟩ :=
        (completeScheduleRun_eq_ok hrun).mp hcomplete
      obtain rfl := Store.id_of_getRun hrun
      have hloop := dispatchSessions_dispatches hdispatch
      rw [show s.isDispatched schedule.projectId (distinct input.eveSessionIds) =
        s.isDispatched schedule.projectId input.eveSessionIds from
          funext (s.isDispatched_distinct schedule.projectId input.eveSessionIds)] at hloop
      have hown : s.completesItsOwn run.id schedule.projectId input = true := by
        simpa [isConsiderate, hrun, hschedule] using hconsiderate
      have hfinished := finishRun_attended (input.error.map sanitizeStoredErrorText) now hattended
        hkeyed hown (dispatchSessions_runs hdispatch) hloop
      rw [← hfinish] at hfinished
      exact hfinished

/-! ## Any call -/

theorem ingestAgentEvent_attended {o : AgentEventObservation} {ids : IngestIds} {now : ℤ}
    {result : IngestResult} (hattended : s.Attended) (hkeyed : Keyed s)
    (hconsiderate : isConsiderate s (.ingestAgentEvent o ids now) = true)
    (hingest : ingestAgentEvent s o ids now = .ok (t, result)) : t.Attended := by
  rcases ingestAgentEvent_stages hkeyed hingest with hquiet |
    ⟨projected, linked, node, sessionRow, projectId, hbefore, hkeyed', hstage, hlink, hafter⟩
  · exact hquiet.attended hattended
  · have hexecuted := projectExecution_attended (readEvent o.event) node sessionRow now
      (hbefore.attended hattended)
    have hwrites := (projectExecution_writes projected (readEvent o.event) node sessionRow now).1
    have hdrops := linkChild_drops (hwrites.keyed hkeyed') hlink
    have hsurvives : Store.survives
        (projectExecution projected (readEvent o.event) node sessionRow now)
        (Store.folds (projectExecution projected (readEvent o.event) node sessionRow now)
          (readEvent o.event) projectId sessionRow.id) = true := by
      simpa only [isConsiderate, hstage] using hconsiderate
    exact hafter.attended (hdrops.attended hsurvives hexecuted)

/-- A considerate call keeps the invariant. -/
theorem perform_attended {a : Action} (hattended : s.Attended) (hkeyed : Keyed s)
    (hconsiderate : isConsiderate s a = true) : (perform s a).Attended := by
  rcases perform_cases s a with hcall | hsame
  · generalize perform s a = t at hcall
    cases a with
    | createSession => exact (insertSession_quiet hcall).attended hattended
    | bindSession binding =>
        cases hcall
        exact (bindSession_quiet s binding).attended hattended
    | appendSessionEvent =>
        obtain ⟨⟨after, row⟩, happend, rfl⟩ := Outcome.map_eq_ok.mp hcall
        exact (appendSessionEventRow_quiet happend).attended hattended
    | recordModelUsage =>
        obtain ⟨⟨after, row⟩, hrecord, rfl⟩ := Outcome.map_eq_ok.mp hcall
        exact (recordModelUsage_quiet hrecord).attended hattended
    | completeSession => exact (completeSession_drops hcall).attended hconsiderate hattended
    | failRunningSessionsForRuntimeInstance =>
        exact failRunningSessionsForRuntimeInstance_attended hattended hcall
    | ingestAgentEvent =>
        obtain ⟨⟨after, result⟩, hingest, rfl⟩ := Outcome.map_eq_ok.mp hcall
        exact ingestAgentEvent_attended hattended hkeyed hconsiderate hingest
    | createScheduleRun id scheduleId deploymentId trigger now =>
        obtain ⟨_, _, heq⟩ := Outcome.bind_eq_ok.mp hcall
        cases heq
        apply hattended.of_runs
        intro run hrun hrunning
        rcases List.mem_append.mp hrun with hold | hnew
        · exact hold
        · rw [List.mem_singleton.mp hnew] at hrunning
          cases hrunning
    | claimScheduleRunActivation =>
        cases hcall
        refine updateRun_attended (fun row hrunning => ?_) hattended
        cases hrunning
    | redeemScheduleRunDispatch =>
        cases hcall
        refine updateRun_attended (fun row hrunning => ?_) hattended
        cases hrunning
    | completeScheduleRun =>
        obtain ⟨⟨after, result⟩, hcomplete, rfl⟩ := Outcome.map_eq_ok.mp hcall
        exact completeScheduleRun_attended hattended hkeyed hconsiderate hcomplete
    | failScheduleExecutionsForRuntimeInstance =>
        exact failScheduleExecutionsForRuntimeInstance_attended hattended hcall
    | failExpiredScheduleExecutions =>
        exact failExpiredScheduleExecutions_attended hattended hcall
    | pruneDerivedAgentTelemetry before =>
        cases hcall
        exact (pruneDerivedAgentTelemetry_drops s before).attended hconsiderate hattended
    | elsewhere next leases =>
        cases hcall
        have hquiet : Quiet s { s with toSurroundings := next, leases } :=
          Quiet.of_eq rfl rfl rfl
        exact hquiet.attended hattended
  · rw [hsame]
    exact hattended

/-- **Settleable runs.** Every running run has a running execution of a session that is linked to
it, in every state of a run of the system whose completions link away no session of another
running run, and whose merges and prunings leave every running run an execution. -/
theorem running_runs_settleable {s : Store} {actions : List Action} (hinit : system.init s)
    (hconsiderate : system.Meets (fun s a => isConsiderate s a = true) s actions) :
    system.Always Store.Settleable s actions := by
  refine system.always_of_meets (I := fun s => Keyed s ∧ s.Attended) ?_
    (fun _ hs => hs.2.settleable) ⟨hinit.keyed, hinit.attended⟩ hconsiderate
  rintro s a t ⟨hkeyed, hattended⟩ hstepConsiderate hstep
  cases hstep
  exact ⟨perform_keyed hkeyed, perform_attended hattended hkeyed hstepConsiderate⟩

/-- A run that is activated, dispatched and completed with the session it has started. -/
def sampleDispatch (scheduleRunId eveSessionId : String) (now : ℤ) : List Action :=
  [.createScheduleRun scheduleRunId "daily" "deployment" .cron now,
    .claimScheduleRunActivation scheduleRunId now 300000,
    .redeemScheduleRunDispatch scheduleRunId "deployment" now,
    .completeScheduleRun scheduleRunId
      { status := .succeeded, error := none, eveSessionIds := [eveSessionId] }
      (fun n => "session-" ++ scheduleRunId ++ toString n) now]

/-- Two runs with a session each, of which the second ends. -/
theorem running_runs_settleable_twoSessions :
    system.Always Store.Settleable sampleStore
      (sampleDispatch "first" "one" 1 ++ sampleDispatch "second" "two" 2 ++
        [sampleIngest "1" "two" (some 1) "session.completed" [] 3]) :=
  running_runs_settleable sampleStore_initial (by decide)

/-- Two runs report one session: it is linked to the second, and the first runs on without one. -/
theorem shared_session_strands_run :
    ¬∀ (s : Store) (actions : List Action), system.init s →
      system.Always Store.Settleable s actions := by
  intro hall
  have hshared := hall sampleStore
    (sampleDispatch "first" "one" 1 ++ sampleDispatch "second" "one" 2) sampleStore_initial
  revert hshared
  decide

end Eveland.Telemetry
