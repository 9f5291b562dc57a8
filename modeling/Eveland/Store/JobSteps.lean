/-
# Statements on the jobs table

Every statement as a step, and what all of them but the claim have in common: no job
starts to run, no attempt is counted, and what a running row is stays as it was, save a
payload that is replaced while the job runs.
-/

import Eveland.Store.JobStore

namespace Eveland.JobStore

/-! ## Histories of statements -/

/-- One statement, with the clock value, the identifiers and the locked rows it meets.
`otherTables` is any change to the tables the job store only reads. -/
inductive Action
  | otherTables (projects : List Project) (deployments : List Deployment)
      (runtimeInstances : List RuntimeInstance)
  | enqueueJob (projectId : String) (type : JobType) (payload : Json) (jobId : String) (now : ℤ)
  | enqueueDeploymentArchive (projectId deploymentId : String) (automatic : Bool)
      (jobId : String) (now : ℤ)
  | enqueueDeploymentActivation (projectId deploymentId runtimeInstanceId jobId : String)
      (now staleAfterMs : ℤ)
  | claimStatement (now : ℤ) (options : ClaimOptions) (locked : List String)
  | quarantine (jobId : String) (attempts : ℕ) (now : ℤ)
  | heartbeatJob (jobId : String) (attempt : ℕ) (now : ℤ)
  | replaceJobPayload (jobId : String) (type : JobType) (payload : Json) (attempt : ℕ) (now : ℤ)
  | completeJob (jobId : String) (attempt : Option ℕ) (now : ℤ)
  | failJob (jobId error : String) (attempt : Option ℕ) (now : ℤ)
  | recoverStaleJobs (now staleAfterMs : ℤ) (limit : ℕ)

/-- The effect of a statement; one that throws has none. -/
def step (s : Store) : Action → Option Store
  | .otherTables projects deployments runtimeInstances =>
      some { s with projects, deployments, runtimeInstances }
  | .enqueueJob projectId type payload jobId now =>
      (JobStore.enqueueJob s projectId type payload jobId now).toOption
  | .enqueueDeploymentArchive projectId deploymentId automatic jobId now =>
      (JobStore.enqueueDeploymentArchive s projectId deploymentId automatic jobId now).toOption
  | .enqueueDeploymentActivation projectId deploymentId runtimeInstanceId jobId now
      staleAfterMs =>
      (JobStore.enqueueDeploymentActivation s projectId deploymentId runtimeInstanceId jobId now
        staleAfterMs).toOption
  | .claimStatement now options locked =>
      (JobStore.claimStatement s now options locked).map Prod.fst
  | .quarantine jobId attempts now => some (JobStore.quarantine s jobId attempts now)
  | .heartbeatJob jobId attempt now => some (JobStore.heartbeatJob s jobId attempt now)
  | .replaceJobPayload jobId type payload attempt now =>
      (JobStore.replaceJobPayload s jobId type payload attempt now).toOption
  | .completeJob jobId attempt now => some (JobStore.completeJob s jobId attempt now)
  | .failJob jobId error attempt now => some (JobStore.failJob s jobId error attempt now)
  | .recoverStaleJobs now staleAfterMs limit =>
      some (JobStore.recoverStaleJobs s now staleAfterMs limit)

/-- The primary key of `jobs`. -/
def WellKeyed (s : Store) : Prop := Table.UniqueOn JobRow.id s.jobs

/-- The job store, started with no job running. -/
def machine : Machine Store Action where
  init s := WellKeyed s ∧ ∀ row ∈ s.jobs, row.status ≠ .running
  step := step

/-- A call of `claimNextJob` is a history of its two statements. -/
theorem claimNextJobLoop_exec (now : ℤ) (options : ClaimOptions) (locked : List String)
    (fuel : ℕ) (s : Store) :
    ∃ actions, machine.exec s actions = some (claimNextJobLoop now options locked fuel s).1 := by
  induction fuel generalizing s with
  | zero => exact ⟨[], rfl⟩
  | succ fuel ih =>
      rw [claimNextJobLoop]
      cases hclaim : JobStore.claimStatement s now options locked with
      | none => exact ⟨[], rfl⟩
      | some claimed =>
          obtain ⟨t, row⟩ := claimed
          have hstep : machine.step s (.claimStatement now options locked) = some t := by
            simp [machine, step, hclaim]
          by_cases hdecodes : decodesJobRow row = true
          · exact ⟨[.claimStatement now options locked], by
              simp [Machine.exec_cons, hstep, hdecodes]⟩
          · obtain ⟨actions, hrest⟩ := ih (JobStore.quarantine t row.id row.attempts now)
            refine ⟨.claimStatement now options locked ::
              .quarantine row.id row.attempts now :: actions, ?_⟩
            have hquarantine : machine.step t (.quarantine row.id row.attempts now) =
                some (JobStore.quarantine t row.id row.attempts now) := rfl
            simp [Machine.exec_cons, hstep, hquarantine, hdecodes, hrest]

/-! ## Looking jobs up -/

/-- The row of a job. -/
def Store.findJob (s : Store) (jobId : String) : Option JobRow :=
  s.jobs.find? fun r => r.id = jobId

/-- How often a job has been claimed. -/
def Store.attemptsOf (s : Store) (jobId : String) : ℕ :=
  ((s.findJob jobId).map JobRow.attempts).getD 0

theorem Store.findJob_eq_some {s : Store} (hkeyed : WellKeyed s) {jobId : String} {row : JobRow} :
    s.findJob jobId = some row ↔ row ∈ s.jobs ∧ row.id = jobId := by
  constructor
  · intro hfound
    exact ⟨List.mem_of_find?_eq_some hfound, by simpa using List.find?_some hfound⟩
  · rintro ⟨hrow, rfl⟩
    exact hkeyed.find?_eq_some hrow

/-- An update shows in the row it selects. -/
theorem Store.findJob_updateJobs {s : Store} {p : JobRow → Bool} {f : JobRow → JobRow}
    (hid : ∀ row, (f row).id = row.id) (jobId : String) :
    (s.updateJobs p f).findJob jobId =
      (s.findJob jobId).map fun row => if p row then f row else row :=
  Table.find?_updateWhere hid s.jobs jobId

/-- A row under a new key is found under it, and under no other. -/
theorem Store.findJob_append {s t : Store} {new : JobRow} (h : t.jobs = s.jobs ++ [new])
    (jobId : String) :
    t.findJob jobId = (s.findJob jobId).or (if new.id = jobId then some new else none) := by
  simp only [Store.findJob, h, List.find?_append, List.find?_singleton]
  simp

/-! ## Quiet statements -/

/-- The statement gave the old row its new payload. -/
def Rewrites : Action → JobRow → JobRow → Prop
  | .replaceJobPayload jobId type payload attempt _, old, row =>
      old.id = jobId ∧ old.type = some type ∧ old.attempts = attempt ∧ row.payload = payload
  | _, _, _ => False

/-- A statement under which no job starts to run and no attempt is counted. -/
structure Quiet (action : Action) (s t : Store) : Prop where
  keyed : WellKeyed s → WellKeyed t
  rows : ∀ row ∈ t.jobs, row.status = .running → ∃ old ∈ s.jobs, old.status = .running ∧
    row.id = old.id ∧ row.projectId = old.projectId ∧ row.type = old.type ∧
    row.attempts = old.attempts ∧ (row.payload = old.payload ∨ Rewrites action old row)
  attempts : ∀ jobId, t.attemptsOf jobId = s.attemptsOf jobId
  heavy : runningHeavy t.jobs ≤ runningHeavy s.jobs

theorem Quiet.of_jobs_eq {action : Action} {s t : Store} (h : t.jobs = s.jobs) :
    Quiet action s t where
  keyed hkeyed := by
    rw [WellKeyed, h]
    exact hkeyed
  rows row hrow hrunning :=
    ⟨row, h ▸ hrow, hrunning, rfl, rfl, rfl, rfl, Or.inl rfl⟩
  attempts jobId := by rw [Store.attemptsOf, Store.findJob, h]; rfl
  heavy := by rw [h]

/-- Appending a queued row under a new key is quiet. -/
theorem Quiet.append {action : Action} {s t : Store} {new : JobRow}
    (h : t.jobs = s.jobs ++ [new]) (hnew : ∀ row ∈ s.jobs, row.id ≠ new.id)
    (hqueued : new.status = .queued) (hzero : new.attempts = 0) : Quiet action s t where
  keyed hkeyed := by
    rw [WellKeyed, h]
    exact Table.UniqueOn.append hkeyed hnew
  rows row hrow hrunning := by
    rw [h, List.mem_append, List.mem_singleton] at hrow
    rcases hrow with hrow | rfl
    · exact ⟨row, hrow, hrunning, rfl, rfl, rfl, rfl, Or.inl rfl⟩
    · rw [hqueued] at hrunning
      cases hrunning
  attempts jobId := by
    rw [Store.attemptsOf, Store.attemptsOf, Store.findJob_append h]
    cases s.findJob jobId with
    | some row => rfl
    | none => by_cases hid : new.id = jobId <;> simp [hid, hzero]
  heavy := by
    rw [h, runningHeavy, List.countP_append, List.countP_singleton]
    simp [hqueued, runningHeavy]

/-- An update is quiet when it starts no job and keeps the identity of the rows. -/
theorem Quiet.updateJobs {action : Action} {s : Store} {p : JobRow → Bool}
    {f : JobRow → JobRow} (hid : ∀ row, (f row).id = row.id)
    (hproject : ∀ row, (f row).projectId = row.projectId)
    (htype : ∀ row, (f row).type = row.type)
    (hattempts : ∀ row, (f row).attempts = row.attempts)
    (hstart : ∀ row ∈ s.jobs, p row = true → (f row).status = .running →
      row.status = .running ∧ ((f row).payload = row.payload ∨ Rewrites action row (f row))) :
    Quiet action s (s.updateJobs p f) where
  keyed hkeyed := Table.UniqueOn.updateWhere hkeyed hid
  rows row hrow hrunning := by
    rcases Table.mem_updateWhere.mp hrow with ⟨hold, _⟩ | ⟨old, hold, hp, rfl⟩
    · exact ⟨row, hold, hrunning, rfl, rfl, rfl, rfl, Or.inl rfl⟩
    · obtain ⟨hwas, hpayload⟩ := hstart old hold hp hrunning
      exact ⟨old, hold, hwas, hid old, hproject old, htype old, hattempts old, hpayload⟩
  attempts jobId := by
    rw [Store.attemptsOf, Store.attemptsOf, Store.findJob_updateJobs hid, Option.map_map]
    congr 2
    funext row
    by_cases hp : p row = true <;> simp [hp, hattempts]
  heavy := by
    apply Table.countP_updateWhere_le
    intro row hrow hp hcounted
    simp only [Bool.and_eq_true, decide_eq_true_eq] at hcounted ⊢
    refine ⟨(hstart row hrow hp hcounted.1).1, ?_⟩
    have htypes : (f row).hasType heavyJobTypes = row.hasType heavyJobTypes := by
      simp [JobRow.hasType, htype]
    rw [← htypes]
    exact hcounted.2

/-- A statement that only stops jobs is quiet. -/
theorem Quiet.updateJobs_of_stopped {action : Action} {s : Store} {p : JobRow → Bool}
    {f : JobRow → JobRow} (hid : ∀ row, (f row).id = row.id)
    (hproject : ∀ row, (f row).projectId = row.projectId)
    (htype : ∀ row, (f row).type = row.type)
    (hattempts : ∀ row, (f row).attempts = row.attempts)
    (hstop : ∀ row, (f row).status ≠ .running) : Quiet action s (s.updateJobs p f) :=
  Quiet.updateJobs hid hproject htype hattempts fun row _ _ hrunning =>
    absurd hrunning (hstop row)

theorem insertJobRowTx_quiet {action : Action} {s t : Store} {projectId jobId : String} {type : JobType}
    {payload : Json} {createdAt updatedAt : ℤ}
    (hinsert : insertJobRowTx s projectId type payload jobId createdAt updatedAt = .ok t) :
    Quiet action s t := by
  unfold insertJobRowTx at hinsert
  obtain ⟨decoded, _, hinsert⟩ := Outcome.bind_eq_ok.mp hinsert
  obtain ⟨_, _, hinsert⟩ := Outcome.bind_eq_ok.mp hinsert
  obtain ⟨_, hfresh, hinsert⟩ := Outcome.bind_eq_ok.mp hinsert
  cases hinsert
  refine Quiet.append rfl (fun row hrow => ?_) rfl rfl
  have hall := List.all_eq_true.mp (Outcome.ensure_eq_ok.mp hfresh) row hrow
  simpa using hall

theorem enqueueDeploymentArchive_quiet {action : Action} {s t : Store} {projectId deploymentId jobId : String}
    {automatic : Bool} {now : ℤ}
    (henqueue : enqueueDeploymentArchive s projectId deploymentId automatic jobId now = .ok t) :
    Quiet action s t := by
  unfold enqueueDeploymentArchive at henqueue
  obtain ⟨_, _, henqueue⟩ := Outcome.bind_eq_ok.mp henqueue
  obtain ⟨_, _, henqueue⟩ := Outcome.bind_eq_ok.mp henqueue
  split at henqueue
  · cases henqueue
    exact Quiet.of_jobs_eq rfl
  · exact insertJobRowTx_quiet henqueue

theorem enqueueDeploymentActivation_quiet {action : Action} {s t : Store}
    {projectId deploymentId runtimeInstanceId jobId : String} {now staleAfterMs : ℤ}
    (henqueue : enqueueDeploymentActivation s projectId deploymentId runtimeInstanceId jobId now
      staleAfterMs = .ok t) : Quiet action s t := by
  unfold enqueueDeploymentActivation at henqueue
  obtain ⟨_, _, henqueue⟩ := Outcome.bind_eq_ok.mp henqueue
  obtain ⟨_, _, henqueue⟩ := Outcome.bind_eq_ok.mp henqueue
  obtain ⟨_, _, henqueue⟩ := Outcome.bind_eq_ok.mp henqueue
  obtain ⟨_, _, henqueue⟩ := Outcome.bind_eq_ok.mp henqueue
  split at henqueue
  · split at henqueue
    · cases henqueue
      exact Quiet.updateJobs_of_stopped (fun _ => rfl) (fun _ => rfl) (fun _ => rfl) (fun _ => rfl)
        (by simp)
    · cases henqueue
      exact Quiet.of_jobs_eq rfl
  · exact insertJobRowTx_quiet henqueue

theorem replaceJobPayload_quiet {s t : Store} {jobId : String} {type : JobType} {payload : Json}
    {attempt : ℕ} {now : ℤ}
    (hreplace : replaceJobPayload s jobId type payload attempt now = .ok t) :
    Quiet (.replaceJobPayload jobId type payload attempt now) s t := by
  unfold replaceJobPayload at hreplace
  obtain ⟨decoded, hdecoded, hreplace⟩ := Outcome.bind_eq_ok.mp hreplace
  cases hreplace
  refine Quiet.updateJobs (fun _ => rfl) (fun _ => rfl) (fun _ => rfl) (fun _ => rfl) ?_
  intro row hrow hp hrunning
  simp only [Bool.and_eq_true, decide_eq_true_eq] at hp
  obtain ⟨⟨⟨hid, htype⟩, hstatus⟩, hattempts⟩ := hp
  exact ⟨hrunning, Or.inr ⟨hid, htype, hattempts,
    decodeJobPayload_eq (Outcome.require_eq_ok.mp hdecoded)⟩⟩

/-- Every statement but the claim is quiet. -/
theorem step_quiet {s t : Store} {action : Action}
    (hstep : step s action = some t)
    (hclaim : ∀ now options locked, action ≠ .claimStatement now options locked) :
    Quiet action s t := by
  cases action with
  | otherTables projects deployments runtimeInstances =>
      cases hstep
      exact Quiet.of_jobs_eq rfl
  | enqueueJob projectId type payload jobId now =>
      exact insertJobRowTx_quiet (Outcome.toOption_eq_some.mp hstep)
  | enqueueDeploymentArchive projectId deploymentId automatic jobId now =>
      exact enqueueDeploymentArchive_quiet (Outcome.toOption_eq_some.mp hstep)
  | enqueueDeploymentActivation projectId deploymentId runtimeInstanceId jobId now staleAfterMs =>
      exact enqueueDeploymentActivation_quiet (Outcome.toOption_eq_some.mp hstep)
  | claimStatement now options locked => exact absurd rfl (hclaim now options locked)
  | quarantine jobId attempts now =>
      cases hstep
      exact Quiet.updateJobs_of_stopped (fun _ => rfl) (fun _ => rfl) (fun _ => rfl) (fun _ => rfl)
        (by simp)
  | heartbeatJob jobId attempt now =>
      cases hstep
      exact Quiet.updateJobs (fun _ => rfl) (fun _ => rfl) (fun _ => rfl) (fun _ => rfl)
        fun row _ _ hrunning => ⟨hrunning, Or.inl rfl⟩
  | replaceJobPayload jobId type payload attempt now =>
      exact replaceJobPayload_quiet (Outcome.toOption_eq_some.mp hstep)
  | completeJob jobId attempt now =>
      cases hstep
      exact Quiet.updateJobs_of_stopped (fun _ => rfl) (fun _ => rfl) (fun _ => rfl) (fun _ => rfl)
        (by simp)
  | failJob jobId error attempt now =>
      cases hstep
      exact Quiet.updateJobs_of_stopped (fun _ => rfl) (fun _ => rfl) (fun _ => rfl) (fun _ => rfl)
        (by simp)
  | recoverStaleJobs now staleAfterMs limit =>
      cases hstep
      exact Quiet.updateJobs_of_stopped (fun _ => rfl) (fun _ => rfl) (fun _ => rfl) (fun _ => rfl)
        (by simp)

/-! ## The claim -/

/-- What a claim does: it starts one candidate. -/
theorem claimStatement_cases {s t : Store} {now : ℤ} {options : ClaimOptions}
    {locked : List String} {row : JobRow}
    (hclaim : claimStatement s now options locked = some (t, row)) :
    ∃ candidate ∈ s.jobs, isCandidate s options candidate = true ∧
      row = { candidate with
        status := .running, attempts := candidate.attempts + 1, lockedAt := some now,
        updatedAt := now } ∧
      t = s.updateJobs (fun r => r.id = candidate.id) fun r =>
        { r with
          status := .running, attempts := r.attempts + 1, lockedAt := some now,
          updatedAt := now } := by
  unfold claimStatement at hclaim
  split at hclaim
  · cases hclaim
  · next candidate rest hsorted =>
      cases hclaim
      have hmem : candidate ∈ (s.jobs.filter fun r =>
          isCandidate s options r && !locked.contains r.id) := by
        rw [← List.mem_insertionSort claimedBefore, hsorted]
        exact List.mem_cons_self
      obtain ⟨hstored, hcandidate⟩ := List.mem_filter.mp hmem
      exact ⟨candidate, hstored, (Bool.and_eq_true_iff.mp hcandidate).1, rfl, rfl⟩

end Eveland.JobStore
