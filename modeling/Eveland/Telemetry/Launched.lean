/-
# Executions of runs that are past their dispatch

An execution is inserted by the completion of its run only, and a completion leaves the run
running or settled. No call moves such a run back. So a run that waits, is being activated or is
being dispatched has no execution yet.
-/

import Eveland.Telemetry.Settleable

namespace Eveland.Telemetry

variable {s t : Store}

/-- The run has been completed once, at least. -/
def ScheduleRun.isPastDispatch (run : ScheduleRun) : Bool :=
  run.status ≠ .queued && run.status ≠ .activating && run.status ≠ .dispatching

/-- Every execution is of a run that is past its dispatch. -/
def Store.Launched (s : Store) : Prop :=
  ∀ execution ∈ s.executions, ∃ run, s.getRun execution.scheduleRunId = some run ∧
    run.isPastDispatch = true

/-- A run that is not past its dispatch has no execution. -/
theorem Store.Launched.executionsOf_eq_nil (hlaunched : s.Launched) {run : ScheduleRun}
    (hrun : s.getRun run.id = some run) (hbefore : run.isPastDispatch = false) :
    s.executionsOf run.id = [] := by
  rw [Store.executionsOf, List.filter_eq_nil_iff]
  intro execution hexecution hof
  obtain ⟨found, hfound, hpast⟩ := hlaunched execution hexecution
  rw [show execution.scheduleRunId = run.id by simpa using hof, hrun] at hfound
  cases hfound
  rw [hbefore] at hpast
  cases hpast

/-- A completion leaves its run past its dispatch. -/
theorem completionOf_isPastDispatch (executions : List ScheduleRunSession)
    (input : CompleteRunInput) (reportedError : Option String) (now : ℤ) (run : ScheduleRun) :
    ((completionOf executions input reportedError).apply now run).isPastDispatch = true := by
  simp only [Completion.apply, ScheduleRun.isPastDispatch, completionOf]
  split
  · rfl
  · split
    · rfl
    · cases input.status <;> rfl

/-- No call moves a run back before its dispatch. -/
theorem MovedBy.isPastDispatch {a : Action} {row row' : ScheduleRun} (hmoved : MovedBy s a row row')
    (hpast : row.isPastDispatch = true) : row'.isPastDispatch = true := by
  rcases hmoved with rfl | hstep
  · exact hpast
  · cases hstep with
    | claim hactivatable =>
        simp only [ScheduleRun.isPastDispatch, Bool.and_eq_true, decide_eq_true_eq] at hpast
        simp [ScheduleRun.isActivatable, hpast] at hactivatable
    | redeem hactivating => simp [ScheduleRun.isPastDispatch, hactivating] at hpast
    | @complete _ input _ now executions reportedError =>
        exact completionOf_isPastDispatch executions input reportedError now row
    | settle _ hstatus => rcases hstatus with rfl | rfl <;> rfl
    | interrupt => rfl
    | lose => rfl
    | expire => rfl

/-! ## Executions are of the same runs -/

/-- No execution is of another run than there were executions of. -/
def OfRuns (s t : Store) : Prop :=
  ∀ execution ∈ t.executions, ∃ old ∈ s.executions, old.scheduleRunId = execution.scheduleRunId

namespace OfRuns

theorem of_eq (hexecutions : t.executions = s.executions) : OfRuns s t :=
  fun execution hexecution => ⟨execution, hexecutions ▸ hexecution, rfl⟩

theorem trans {m : Store} (hfirst : OfRuns s m) (hsecond : OfRuns m t) : OfRuns s t := by
  intro execution hexecution
  obtain ⟨middle, hmiddle, hsame⟩ := hsecond execution hexecution
  obtain ⟨old, hold, hsame'⟩ := hfirst middle hmiddle
  exact ⟨old, hold, hsame'.trans hsame⟩

theorem of_updateWhere {p : ScheduleRunSession → Bool}
    {f : ScheduleRunSession → ScheduleRunSession}
    (hexecutions : t.executions = Table.updateWhere p f s.executions)
    (hkey : ∀ row, (f row).scheduleRunId = row.scheduleRunId) : OfRuns s t := by
  intro execution hexecution
  rw [hexecutions] at hexecution
  rcases Table.mem_updateWhere.mp hexecution with ⟨hold, _⟩ | ⟨old, hold, _, rfl⟩
  · exact ⟨execution, hold, rfl⟩
  · exact ⟨old, hold, (hkey old).symm⟩

theorem of_drops {lost : String → Bool} (hdrops : Drops lost s t) : OfRuns s t := by
  intro execution hexecution
  rw [hdrops.executions] at hexecution
  exact ⟨execution, (List.mem_filter.mp hexecution).1, rfl⟩

end OfRuns

theorem projectExecution_ofRuns (s : Store) (reading : EventReading) (node : SessionNode)
    (sessionRow : Session) (now : ℤ) :
    OfRuns s (projectExecution s reading node sessionRow now) := by
  rw [projectExecution]
  split
  · exact OfRuns.of_eq rfl
  · dsimp only
    split
    · refine OfRuns.of_updateWhere rfl ?_
      intro row
      rfl
    · rw [settleRun]
      dsimp only
      split
      all_goals
        refine OfRuns.of_updateWhere rfl ?_
        intro row
        rfl

theorem failExpiredRun_ofRuns {scheduleRunId runtimeInstanceId : String} {newId : ℕ → String}
    {now : ℤ} (hfail : failExpiredRun s scheduleRunId runtimeInstanceId newId now = .ok t) :
    OfRuns s t := by
  rw [failExpiredRun] at hfail
  dsimp only at hfail
  split at hfail
  · cases hfail
    exact OfRuns.of_eq rfl
  · obtain ⟨appended, happend, heq⟩ := Outcome.bind_eq_ok.mp hfail
    cases heq
    have happended := (appendDeadlineEvents_quiet happend).executions_eq
    refine OfRuns.of_updateWhere (s := s) happended ?_
    intro row
    rfl

theorem failExpiredRuns_ofRuns {newId : ℕ → ℕ → String} {now : ℤ}
    {expired : List (String × String)} {draw : ℕ}
    (hfail : failExpiredRuns newId now expired draw s = .ok t) : OfRuns s t := by
  induction expired generalizing s draw with
  | nil =>
      cases hfail
      exact OfRuns.of_eq rfl
  | cons first rest ih =>
      obtain ⟨failed, hfirst, hrest⟩ := Outcome.bind_eq_ok.mp hfail
      exact (failExpiredRun_ofRuns hfirst).trans (ih hrest)

/-- The executions a completion adds are of its run. -/
theorem completeScheduleRun_executions {scheduleRunId : String} {input : CompleteRunInput}
    {newId : ℕ → String} {now : ℤ} {result : Option ScheduleRun}
    (hcomplete : completeScheduleRun s scheduleRunId input newId now = .ok (t, result)) :
    ∀ execution ∈ t.executions, execution ∈ s.executions ∨
      ∃ run, t.getRun execution.scheduleRunId = some run ∧ run.isPastDispatch = true := by
  cases hrun : s.getRun scheduleRunId with
  | none =>
      rw [completeScheduleRun, hrun] at hcomplete
      cases hcomplete
      exact fun execution hexecution => Or.inl hexecution
  | some run =>
      obtain ⟨schedule, dispatched, _, hdispatch, hfinish⟩ :=
        (completeScheduleRun_eq_ok hrun).mp hcomplete
      have ht : t = (finishRun dispatched scheduleRunId (completionOf
          (if input.eveSessionIds.isEmpty then [] else dispatched.executionsOf run.id) input
          (input.error.map sanitizeStoredErrorText)) now).1 := congrArg Prod.fst hfinish
      obtain rfl := Store.id_of_getRun hrun
      intro execution hexecution
      rw [ht, (finishRun_keeps _ _ _ _).1] at hexecution
      rcases (dispatchSessions_dispatches hdispatch).executions execution hexecution with
        hold | ⟨hof, _⟩
      · exact Or.inl hold
      · refine Or.inr ⟨(completionOf (if input.eveSessionIds.isEmpty then [] else
          dispatched.executionsOf run.id) input (input.error.map sanitizeStoredErrorText)).apply
          now run, ?_, ?_⟩
        · rw [ht, hof, Store.getRun, finishRun_runs, dispatchSessions_runs hdispatch,
            Table.find?_updateWhere_of fun _ => by rfl]
          show (s.getRun run.id).map _ = _
          rw [hrun, Option.map_some, if_pos (by simp)]
        · exact completionOf_isPastDispatch _ input _ now run

/-! ## Any call -/

/-- The executions of a store after a call are those of runs that had executions, or of a run
that the call has completed. -/
theorem perform_executions {a : Action} (hkeyed : Keyed s) :
    ∀ execution ∈ (perform s a).executions,
      (∃ old ∈ s.executions, old.scheduleRunId = execution.scheduleRunId) ∨
      ∃ run, (perform s a).getRun execution.scheduleRunId = some run ∧
        run.isPastDispatch = true := by
  have hkept : ∀ {t}, OfRuns s t → ∀ execution ∈ t.executions,
      (∃ old ∈ s.executions, old.scheduleRunId = execution.scheduleRunId) ∨
      ∃ run, t.getRun execution.scheduleRunId = some run ∧ run.isPastDispatch = true :=
    fun hofRuns execution hexecution => Or.inl (hofRuns execution hexecution)
  rcases perform_cases s a with hcall | hsame
  · generalize perform s a = t at hcall
    cases a with
    | createSession => exact hkept (OfRuns.of_drops (insertSession_quiet hcall))
    | bindSession binding =>
        cases hcall
        exact hkept (OfRuns.of_eq rfl)
    | appendSessionEvent =>
        obtain ⟨⟨after, row⟩, happend, rfl⟩ := Outcome.map_eq_ok.mp hcall
        exact hkept (OfRuns.of_drops (appendSessionEventRow_quiet happend))
    | recordModelUsage =>
        obtain ⟨⟨after, row⟩, hrecord, rfl⟩ := Outcome.map_eq_ok.mp hcall
        exact hkept (OfRuns.of_drops (recordModelUsage_quiet hrecord))
    | completeSession => exact hkept (OfRuns.of_drops (completeSession_drops hcall))
    | failRunningSessionsForRuntimeInstance =>
        obtain ⟨appended, happend, heq⟩ := Outcome.bind_eq_ok.mp hcall
        cases heq
        have happended := (appendRuntimeLostEvents_quiet happend).executions_eq
        refine hkept (OfRuns.of_updateWhere (s := s) (congrArg _ happended) ?_)
        intro row
        rfl
    | ingestAgentEvent o ids now =>
        obtain ⟨⟨after, result⟩, hingest, rfl⟩ := Outcome.map_eq_ok.mp hcall
        rcases ingestAgentEvent_stages hkeyed hingest with hquiet |
          ⟨projected, linked, node, sessionRow, projectId, hbefore, hkeyed', _, hlink, hafter⟩
        · exact hkept (OfRuns.of_drops hquiet)
        · have hexecuted :=
            (projectExecution_writes projected (readEvent o.event) node sessionRow now).1
          have hlinked := linkChild_drops (hexecuted.keyed hkeyed') hlink
          exact hkept ((((OfRuns.of_drops hbefore).trans (projectExecution_ofRuns _ _ _ _ _)).trans
            (OfRuns.of_drops hlinked)).trans (OfRuns.of_drops hafter))
    | createScheduleRun =>
        obtain ⟨_, _, heq⟩ := Outcome.bind_eq_ok.mp hcall
        cases heq
        exact hkept (OfRuns.of_eq rfl)
    | claimScheduleRunActivation =>
        cases hcall
        exact hkept (OfRuns.of_eq rfl)
    | redeemScheduleRunDispatch =>
        cases hcall
        exact hkept (OfRuns.of_eq rfl)
    | completeScheduleRun =>
        obtain ⟨⟨after, result⟩, hcomplete, rfl⟩ := Outcome.map_eq_ok.mp hcall
        intro execution hexecution
        rcases completeScheduleRun_executions hcomplete execution hexecution with hold | hnew
        · exact Or.inl ⟨execution, hold, rfl⟩
        · exact Or.inr hnew
    | failScheduleExecutionsForRuntimeInstance =>
        obtain ⟨appended, happend, heq⟩ := Outcome.bind_eq_ok.mp hcall
        cases heq
        have happended := (appendRuntimeLostEvents_quiet happend).executions_eq
        refine hkept (OfRuns.of_updateWhere (s := s) happended ?_)
        intro row
        rfl
    | failExpiredScheduleExecutions limit newId now =>
        rw [call, failExpiredScheduleExecutions, Outcome.guard_eq_ok] at hcall
        exact hkept (failExpiredRuns_ofRuns hcall.2)
    | pruneDerivedAgentTelemetry before =>
        cases hcall
        exact hkept (OfRuns.of_drops (pruneDerivedAgentTelemetry_drops s before))
    | elsewhere next leases =>
        cases hcall
        exact hkept (OfRuns.of_eq rfl)
  · rw [hsame]
    exact hkept (OfRuns.of_eq rfl)

theorem perform_launched {a : Action} (hkeyed : Keyed s) (hlaunched : s.Launched) :
    (perform s a).Launched := by
  intro execution hexecution
  rcases perform_executions hkeyed execution hexecution with ⟨old, hold, hsame⟩ | hpast
  · obtain ⟨run, hrun, hpast⟩ := hlaunched old hold
    obtain ⟨run', hrun', hmoved⟩ := perform_runsMove (a := a) hkeyed old.scheduleRunId run hrun
    exact ⟨run', hsame ▸ hrun', MovedBy.isPastDispatch hmoved hpast⟩
  · exact hpast

/-- **Launched runs.** In every reachable state a run has executions only if it is past its
dispatch. -/
theorem reachable_launched {s : Store} (hreachable : system.Reachable s) : s.Launched := by
  have hboth : Keyed s ∧ s.Launched := by
    refine hreachable.invariant (I := fun s => Keyed s ∧ s.Launched) ?_ ?_
    · intro s (hinit : s.Initial)
      refine ⟨hinit.keyed, ?_⟩
      rw [Store.Launched, hinit.executions]
      simp
    · rintro s a t ⟨hkeyed, hlaunched⟩ hstep
      cases hstep
      exact ⟨perform_keyed hkeyed, perform_launched hkeyed hlaunched⟩
  exact hboth.2

end Eveland.Telemetry
