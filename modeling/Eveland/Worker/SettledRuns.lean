/-
# Settled runs stay settled

A run that has succeeded or failed is left alone by ingestion and by the loss of the instance its
sessions were observed on: both write runs that are running. A completion writes the run it is
given whatever its status is by then, since its callers have read the status before; and two
sweeps write the runs of the executions they fail. So a run stays settled in every run of the
system in which no completion and no sweep writes a settled run, and a running one goes on or is
settled where no completion finds it running and reports that its outcome is unknown.
-/

import Eveland.Worker.ScheduleDispatch

namespace Eveland.Telemetry

/-- A run that has succeeded or failed. -/
def ScheduleRunStatus.isSettled (status : ScheduleRunStatus) : Bool :=
  status = .succeeded || status = .failed

/-- A settled run keeps its outcome, and a running one goes on or is settled. -/
structure Stays (row row' : ScheduleRun) : Prop where
  settled : row.status.isSettled = true →
    row'.status = row.status ∧ row'.error = row.error ∧ row'.completedAt = row.completedAt
  running : row.status = .running → row'.status = .running ∨ row'.status.isSettled = true

theorem Stays.refl (row : ScheduleRun) : Stays row row :=
  ⟨fun _ => ⟨rfl, rfl, rfl⟩, fun hrunning => Or.inl hrunning⟩

theorem Stays.trans {first second third : ScheduleRun} (hfirst : Stays first second)
    (hsecond : Stays second third) : Stays first third where
  settled := by
    intro hsettled
    obtain ⟨hstatus, herror, hcompleted⟩ := hfirst.settled hsettled
    obtain ⟨hstatus', herror', hcompleted'⟩ := hsecond.settled (hstatus ▸ hsettled)
    exact ⟨hstatus'.trans hstatus, herror'.trans herror, hcompleted'.trans hcompleted⟩
  running := by
    intro hrunning
    rcases hfirst.running hrunning with hstill | hsettled
    · exact hsecond.running hstill
    · exact Or.inr ((hsecond.settled hsettled).1 ▸ hsettled)

/-- A row that is neither settled nor running promises nothing. -/
theorem Stays.of_open {row row' : ScheduleRun} (hopen : row.status.isSettled = false)
    (hidle : row.status ≠ .running) : Stays row row' := by
  constructor
  · intro hsettled
    rw [hopen] at hsettled
    cases hsettled
  · exact fun hrunning => absurd hrunning hidle

/-- A row that is not settled may be settled. -/
theorem Stays.of_settled {row row' : ScheduleRun} (hopen : row.status.isSettled = false)
    (hsettled : row'.status.isSettled = true) : Stays row row' := by
  constructor
  · intro hearlier
    rw [hopen] at hearlier
    cases hearlier
  · exact fun _ => Or.inr hsettled

/-- The run is not settled, if there is one. -/
def Store.isOpen (s : Store) (scheduleRunId : String) : Bool :=
  (s.getRun scheduleRunId).all fun row => !row.status.isSettled

/-- The call finds no run settled that it would write: a completion, the run it is given; a
sweep, the runs of the executions it fails. Nor is a running run completed as unknown. -/
def isOrderly (s : Store) : Action → Bool
  | .completeScheduleRun scheduleRunId input _ _ =>
      s.isOpen scheduleRunId && (s.getRun scheduleRunId).all fun row =>
        row.status ≠ .running || input.status ≠ .dispatchUnknown
  | .failScheduleExecutionsForRuntimeInstance runtimeInstanceId _ _ _ =>
      (s.runsOn runtimeInstanceId).all s.isOpen
  | .failExpiredScheduleExecutions limit _ now => (s.overdueRuns now limit).all s.isOpen
  | _ => true

/-- What is not reported as unknown is running or settled in the end. -/
theorem completionOf_status (executions : List ScheduleRunSession) {input : CompleteRunInput}
    (reportedError : Option String) (hknown : input.status ≠ .dispatchUnknown) :
    (completionOf executions input reportedError).status = .running ∨
      (completionOf executions input reportedError).status.isSettled = true := by
  rw [completionOf]
  dsimp only
  split
  · exact Or.inl rfl
  · split
    · exact Or.inr rfl
    · cases hstatus : input.status with
      | succeeded => exact Or.inr rfl
      | failed => exact Or.inr rfl
      | dispatchUnknown => exact absurd hstatus hknown

variable {s : Store}

theorem Store.isOpen_of_getRun {row : ScheduleRun} (hrow : s.getRun row.id = some row)
    (hopen : s.isOpen row.id = true) : row.status.isSettled = false := by
  simpa [Store.isOpen, hrow] using hopen

theorem RunStep.stays {a : Action} {row row' : ScheduleRun} (hrow : s.getRun row.id = some row)
    (horderly : isOrderly s a = true) (hstep : RunStep s a row row') : Stays row row' := by
  cases hstep with
  | claim hactivatable =>
      simp only [ScheduleRun.isActivatable, Bool.or_eq_true, Bool.and_eq_true,
        decide_eq_true_eq] at hactivatable
      rcases hactivatable with hstatus | ⟨hstatus, _⟩ <;>
        exact Stays.of_open (by rw [hstatus]; rfl) (by rw [hstatus]; decide)
  | redeem hactivating =>
      exact Stays.of_open (by rw [hactivating]; rfl) (by rw [hactivating]; decide)
  | complete executions reportedError =>
      simp only [isOrderly, Bool.and_eq_true] at horderly
      have hopen := Store.isOpen_of_getRun hrow horderly.1
      constructor
      · intro hsettled
        rw [hopen] at hsettled
        cases hsettled
      · intro hrunning
        have hknown := horderly.2
        rw [hrow] at hknown
        simp only [Option.all_some, Bool.or_eq_true, decide_eq_true_eq] at hknown
        exact completionOf_status executions reportedError
          (hknown.resolve_left fun hidle => hidle hrunning)
  | settle hrunning hstatus =>
      refine Stays.of_settled (by rw [hrunning]; rfl) ?_
      rcases hstatus with rfl | rfl <;> rfl
  | interrupt hrunning => exact Stays.of_settled (by rw [hrunning]; rfl) rfl
  | lose hlost =>
      exact Stays.of_settled
        (Store.isOpen_of_getRun hrow (List.all_eq_true.mp horderly _ hlost)) rfl
  | expire hoverdue _ =>
      exact Stays.of_settled
        (Store.isOpen_of_getRun hrow (List.all_eq_true.mp horderly _ hoverdue)) rfl

/-- A call that finds no run settled that it would write keeps the outcomes there are. -/
theorem perform_stays {a : Action} (hkeyed : Keyed s) (horderly : isOrderly s a = true) :
    RunsMove Stays s (perform s a) := by
  apply (perform_runsMove hkeyed).mono
  intro row row' hrow hmoved
  rcases hmoved with rfl | hstep
  · exact Stays.refl row'
  · exact hstep.stays hrow horderly

end Eveland.Telemetry

namespace Eveland.ScheduleDispatch

open Telemetry

/-- The step, if it is a call on the store, finds no run settled that it would write. -/
def isOrderlyStep (pool : DispatchPool) (action : PoolAction Party Choice Action) : Bool :=
  (storeCall pool action).all (isOrderly pool.state.store)

/-- The outcomes of one state are those of a later one. -/
def KeepsOutcomes (earlier later : DispatchPool) : Prop :=
  RunsMove Stays earlier.state.store later.state.store

/-- A run that is dispatched, and completed by one post. -/
def sampleCompletion : List (PoolAction Party Choice Action) :=
  sampleRedemption ++ .launch (.dispatchPost (samplePost (.complete .succeeded none []))) ::
    sampleCalls 2 [3, 3, 3]

/-- Two posts complete the dispatch of a run, the first before either has written. -/
def racingReads : List (PoolAction Party Choice Action) :=
  sampleRedemption ++
    .launch (.dispatchPost (samplePost (.complete .succeeded none []))) :: sampleCalls 2 [3, 3] ++
    .launch (.dispatchPost (samplePost (.complete .dispatchUnknown none []))) ::
      sampleCalls 3 [3, 3] ++ sampleCalls 2 [4]

end Eveland.ScheduleDispatch
