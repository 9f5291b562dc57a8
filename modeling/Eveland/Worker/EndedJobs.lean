/-
# Jobs that have ended

A job that has completed or failed is left alone by every statement of workers, requests and other
processes, save one: a recovery sweep puts the jobs that it has chosen back on the queue whatever
has become of them since.

A step of the deploy pipeline is one of the workers at most, so the same holds of it.
-/

import Eveland.Worker.DeployPipeline
import Eveland.Worker.JobFencing

namespace Eveland.JobExecutions

open JobStore

/-- The job has completed or failed. -/
def hasEnded (row : JobRow) : Bool := row.status = .completed || row.status = .failed

theorem hasEnded_ne_running {row : JobRow} (h : hasEnded row = true) : row.status ≠ .running := by
  intro hrunning
  rw [hasEnded, hrunning] at h
  cases h

theorem hasEnded_ne_queued {row : JobRow} (h : hasEnded row = true) : row.status ≠ .queued := by
  intro hqueued
  rw [hasEnded, hqueued] at h
  cases h

/-! ## Statements -/

/-- An update of a row that has not ended, found by its id, leaves those that have. -/
theorem mem_updateJobs_of_other {s : Store} (hkeyed : WellKeyed s) {other row : JobRow}
    (hother : other ∈ s.jobs) (hopen : hasEnded other = false) (f : JobRow → JobRow)
    (hmem : row ∈ s.jobs) (hended : hasEnded row = true) :
    row ∈ (s.updateJobs (fun r => r.id = other.id) f).jobs := by
  apply Table.mem_updateWhere_of_not hmem
  rw [decide_eq_false_iff_not]
  intro hid
  rw [hkeyed.eq hmem hother hid, hopen] at hended
  cases hended

/-- What an insertion adds: a queued row under an id that no row has. -/
theorem insertJobRowTx_row {s t : Store} {projectId jobId : String} {type : JobType} {payload : Json}
    {createdAt updatedAt : ℤ}
    (hinsert : insertJobRowTx s projectId type payload jobId createdAt updatedAt = .ok t) :
    ∃ row, t.jobs = s.jobs ++ [row] ∧ row.id = jobId ∧ row.status = .queued ∧
      row.type = some type ∧ ∀ old ∈ s.jobs, old.id ≠ jobId := by
  unfold insertJobRowTx at hinsert
  obtain ⟨_, _, hinsert⟩ := Outcome.bind_eq_ok.mp hinsert
  obtain ⟨_, _, hinsert⟩ := Outcome.bind_eq_ok.mp hinsert
  obtain ⟨_, hfresh, hinsert⟩ := Outcome.bind_eq_ok.mp hinsert
  cases hinsert
  refine ⟨_, rfl, rfl, rfl, rfl, ?_⟩
  intro old hold
  exact of_decide_eq_true (List.all_eq_true.mp (Outcome.ensure_eq_ok.mp hfresh) old hold)

theorem mem_insert_of_mem {s t : Store} {projectId jobId : String} {type : JobType} {payload : Json}
    {createdAt updatedAt : ℤ}
    (hinsert : insertJobRowTx s projectId type payload jobId createdAt updatedAt = .ok t)
    {row : JobRow} (hmem : row ∈ s.jobs) : row ∈ t.jobs := by
  obtain ⟨new, hjobs, _⟩ := insertJobRowTx_row hinsert
  rw [hjobs]
  exact List.mem_append_left _ hmem

/-- Other processes leave a job that has ended. -/
theorem mem_outside_of_ended {s t : Store} (hkeyed : WellKeyed s) {action : JobStore.Action}
    (houtside : isOutside action = true) (hstep : JobStore.step s action = some t) {row : JobRow}
    (hmem : row ∈ s.jobs) (hended : hasEnded row = true) : row ∈ t.jobs := by
  cases action with
  | otherTables projects deployments runtimeInstances =>
      cases hstep
      exact hmem
  | enqueueJob projectId type payload jobId now =>
      exact mem_insert_of_mem (Outcome.toOption_eq_some.mp hstep) hmem
  | enqueueDeploymentArchive projectId deploymentId automatic jobId now =>
      have henqueue := Outcome.toOption_eq_some.mp hstep
      unfold enqueueDeploymentArchive at henqueue
      obtain ⟨_, _, henqueue⟩ := Outcome.bind_eq_ok.mp henqueue
      obtain ⟨_, _, henqueue⟩ := Outcome.bind_eq_ok.mp henqueue
      split at henqueue
      · cases henqueue
        exact hmem
      · exact mem_insert_of_mem henqueue hmem
  | enqueueDeploymentActivation projectId deploymentId runtimeInstanceId jobId now staleAfterMs =>
      have henqueue := Outcome.toOption_eq_some.mp hstep
      unfold enqueueDeploymentActivation at henqueue
      obtain ⟨_, _, henqueue⟩ := Outcome.bind_eq_ok.mp henqueue
      obtain ⟨_, _, henqueue⟩ := Outcome.bind_eq_ok.mp henqueue
      obtain ⟨_, _, henqueue⟩ := Outcome.bind_eq_ok.mp henqueue
      obtain ⟨_, _, henqueue⟩ := Outcome.bind_eq_ok.mp henqueue
      split at henqueue
      · next existing hfound =>
          split at henqueue
          · next hstale =>
              cases henqueue
              have hexisting : existing ∈ s.jobs := by
                have hsorted := List.mem_of_head? hfound
                rw [List.mem_insertionSort] at hsorted
                exact List.mem_of_mem_filter hsorted
              have hrunning : existing.status = .running := by
                rw [Bool.and_eq_true, decide_eq_true_eq] at hstale
                exact hstale.1
              have hopen : hasEnded existing = false := by
                rw [hasEnded, hrunning]
                rfl
              exact mem_updateJobs_of_other hkeyed hexisting hopen _ hmem hended
          · cases henqueue
            exact hmem
      · exact mem_insert_of_mem henqueue hmem
  | claimStatement now options locked => cases houtside
  | quarantine jobId attempts now => cases houtside
  | heartbeatJob jobId attempt now => cases houtside
  | replaceJobPayload jobId type payload attempt now => cases houtside
  | completeJob jobId attempt now => cases houtside
  | failJob jobId error attempt now => cases houtside
  | recoverStaleJobs now staleAfterMs limit => cases houtside

/-- An execution leaves a job that has ended, its own as well. -/
theorem FencedWrite.mem_of_ended {jobId : String} {attempt : ℕ} {s t : Store}
    (h : FencedWrite jobId attempt s t) {row : JobRow} (hmem : row ∈ s.jobs)
    (hended : hasEnded row = true) : row ∈ t.jobs := by
  obtain ⟨p, f, rfl, hp, _⟩ := h
  apply Table.mem_updateWhere_of_not hmem
  rw [← Bool.not_eq_true]
  intro hrow
  exact hasEnded_ne_running hended (hp row hrow).2.1

/-! ## Steps -/

/-- The sweep has not chosen the job. -/
def SparesJob (sys : System) (jobId : String) : Action → Prop
  | .requeueStale k _ => ∀ jobIds, sys.sweeps[k]? = some jobIds → jobId ∉ jobIds
  | _ => True

/-- A step that is no sweep of the job leaves it once it has ended. -/
theorem mem_step_of_ended {sys next : System} {action : Action} (hkeyed : WellKeyed sys.store)
    (hstep : step sys action = some next) {row : JobRow} (hmem : row ∈ sys.store.jobs)
    (hended : hasEnded row = true) (hspares : SparesJob sys row.id action) :
    row ∈ next.store.jobs := by
  cases action with
  | outside action =>
      simp only [step] at hstep
      split at hstep
      · next houtside =>
          obtain ⟨store, hstore, rfl⟩ := Option.map_eq_some_iff.mp hstep
          exact mem_outside_of_ended hkeyed houtside hstore hmem hended
      · cases hstep
  | claim now options locked =>
      obtain ⟨⟨store, claimed⟩, hclaim, rfl⟩ := Option.map_eq_some_iff.mp hstep
      obtain ⟨candidate, hstored, hcandidate, _, rfl⟩ := claimStatement_cases hclaim
      have hqueued : candidate.status = .queued := by
        simp only [isCandidate, Bool.and_eq_true, decide_eq_true_eq] at hcandidate
        exact hcandidate.1.1.1.1
      have hopen : hasEnded candidate = false := by
        rw [hasEnded, hqueued]
        rfl
      exact mem_updateJobs_of_other hkeyed hstored hopen _ hmem hended
  | operate i operation =>
      obtain ⟨e, store, phase, _, hoperate, rfl⟩ := step_operate hstep
      exact (operate_fenced hoperate).mem_of_ended hmem hended
  | selectStale now staleAfterMs limit =>
      cases hstep
      exact hmem
  | requeueStale k now =>
      simp only [step, Option.bind_eq_bind, Option.bind_eq_some_iff] at hstep
      obtain ⟨jobIds, hjobIds, hnext⟩ := hstep
      cases hnext
      apply Table.mem_updateWhere_of_not hmem
      rw [List.contains_eq_mem, decide_eq_false_iff_not]
      exact hspares jobIds hjobIds

theorem wellKeyed_step {sys next : System} {action : Action} (hkeyed : WellKeyed sys.store)
    (hstep : step sys action = some next) : WellKeyed next.store := by
  by_cases hclaim : ∃ now options locked, action = .claim now options locked
  · obtain ⟨now, options, locked, rfl⟩ := hclaim
    obtain ⟨⟨store, claimed⟩, hclaim, rfl⟩ := Option.map_eq_some_iff.mp hstep
    obtain ⟨candidate, _, _, _, rfl⟩ := claimStatement_cases hclaim
    exact Table.UniqueOn.updateWhere hkeyed fun _ => rfl
  · apply (step_calm _ hstep).keyed hkeyed
    intro now options locked haction
    exact hclaim ⟨now, options, locked, haction⟩

end Eveland.JobExecutions

namespace Eveland.DeployPipeline

open JobStore JobExecutions

/-! ## Steps of the pipeline -/

/-- The sweep of a step has not chosen the job. -/
def SparesJob (s : State) (jobId : String) : Action → Prop
  | .work action => JobExecutions.SparesJob s.workers jobId action
  | _ => True

/-- The workers stay as they are, or take one step. -/
def WorkersStep (s t : State) (a : Action) : Prop :=
  t.workers = s.workers ∨ ∃ action, JobExecutions.step s.workers action = some t.workers ∧
    ∀ jobId, SparesJob s jobId a → JobExecutions.SparesJob s.workers jobId action

theorem workersStep_enqueueJob {s t : State} {type : JobType} {payload : Json} {jobId : String}
    {now : ℤ} {a : Action} (h : s.enqueueJob type payload jobId now = some t) :
    t.projectId = s.projectId ∧ WorkersStep s t a := by
  obtain ⟨store, hstore, rfl⟩ := Option.map_eq_some_iff.mp h
  refine ⟨rfl, .inr ⟨.outside (.enqueueJob s.projectId type payload jobId now), ?_, ?_⟩⟩
  · simp only [JobExecutions.step, isOutside, if_true, JobStore.step, hstore, Option.map_some]
  · intro _ _
    trivial

theorem workersStep_handleImport {s t : State} {i : ℕ} {execution : Execution} {drawn : String}
    {now : ℤ} {a : Action} (h : handleImport s i execution drawn now = some t) :
    t.projectId = s.projectId ∧ WorkersStep s t a := by
  unfold handleImport at h
  split at h
  · obtain ⟨origin, _, rfl⟩ := Option.map_eq_some_iff.mp h
    exact ⟨rfl, .inl rfl⟩
  · split at h
    · obtain ⟨queued, hqueued, rfl⟩ := Option.map_eq_some_iff.mp h
      exact workersStep_enqueueJob (s := s) (t := queued) hqueued
    · cases h
      exact ⟨rfl, .inl rfl⟩
  · cases h

theorem workersStep_handleBuild {s t : State} {i : ℕ} {execution : Execution} {drawn : String}
    {now : ℤ} {a : Action} (h : handleBuild s i execution drawn now = some t) :
    t.projectId = s.projectId ∧ WorkersStep s t a := by
  unfold handleBuild at h
  split at h
  · obtain ⟨revision, _, rfl⟩ := Option.map_eq_some_iff.mp h
    exact ⟨rfl, .inl rfl⟩
  · cases h
    exact ⟨rfl, .inl rfl⟩
  · obtain ⟨workers, hworkers, rfl⟩ := Option.map_eq_some_iff.mp h
    exact ⟨rfl, .inr ⟨_, hworkers, fun _ _ => trivial⟩⟩
  · split at h
    · cases h
      exact ⟨rfl, .inl rfl⟩
    · cases h
      exact ⟨rfl, .inl rfl⟩
  · cases h

theorem workersStep_proceed {s t : State} {k : ℕ} {drawn : String} {now : ℤ} {a : Action}
    (h : proceed s k drawn now = some t) : t.projectId = s.projectId ∧ WorkersStep s t a := by
  unfold proceed at h
  split at h
  · cases h
  · split at h
    · split at h
      · split at h
        · cases h
          exact ⟨rfl, .inl rfl⟩
        · cases h
          exact ⟨rfl, .inl rfl⟩
      · cases h
        exact ⟨rfl, .inl rfl⟩
    · split at h
      · cases h
        exact ⟨rfl, .inl rfl⟩
      · cases h
        exact ⟨rfl, .inl rfl⟩
    · obtain ⟨queued, hqueued, rfl⟩ := Option.map_eq_some_iff.mp h
      exact workersStep_enqueueJob (s := s) (t := queued) hqueued

/-- **Simulation.** A step of the pipeline is one of the workers at most, and keeps the project. -/
theorem workersStep_of_step {s t : State} {a : Action} (h : step s a = some t) :
    t.projectId = s.projectId ∧ WorkersStep s t a := by
  cases a with
  | work action =>
      simp only [step] at h
      split at h
      · obtain ⟨workers, hworkers, rfl⟩ := Option.map_eq_some_iff.mp h
        exact ⟨rfl, .inr ⟨action, hworkers, fun _ hspares => hspares⟩⟩
      · cases h
  | handle i drawn now =>
      simp only [step, handle] at h
      split at h
      · cases h
      · split at h
        · split at h
          · exact workersStep_handleImport h
          · exact workersStep_handleBuild h
          · cases h
        · cases h
  | request request =>
      simp only [step, beginRequest] at h
      split at h
      · cases h
        exact ⟨rfl, .inl rfl⟩
      · cases h
  | proceed k drawn now => exact workersStep_proceed h
  | promote deployment =>
      simp only [step] at h
      split at h
      · cases h
        exact ⟨rfl, .inl rfl⟩
      · cases h

theorem wellKeyed_step {s t : State} {a : Action} (hkeyed : WellKeyed s.workers.store)
    (h : step s a = some t) : WellKeyed t.workers.store := by
  rcases (workersStep_of_step h).2 with hsame | ⟨action, haction, _⟩
  · rw [hsame]
    exact hkeyed
  · exact JobExecutions.wellKeyed_step hkeyed haction

/-- A step of the pipeline leaves a job that has ended, unless it is a sweep that has chosen it. -/
theorem mem_step_of_ended {s t : State} {a : Action} (hkeyed : WellKeyed s.workers.store)
    (h : step s a = some t) {row : JobRow} (hmem : row ∈ s.workers.store.jobs)
    (hended : hasEnded row = true) (hspares : SparesJob s row.id a) :
    row ∈ t.workers.store.jobs := by
  rcases (workersStep_of_step h).2 with hsame | ⟨action, haction, hsame⟩
  · rw [hsame]
    exact hmem
  · exact JobExecutions.mem_step_of_ended hkeyed haction hmem hended (hsame row.id hspares)

end Eveland.DeployPipeline
