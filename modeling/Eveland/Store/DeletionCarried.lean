/-
# What the statements on jobs do to deletions

A deletion is a job of type `delete_project`. No statement of the job store makes one,
gives it another project or payload, or opens it again once it is settled, as long as no
caller enqueues a deletion by itself or replaces the payload of one.
-/

import Eveland.Store.ProjectDeletion

namespace Eveland.ProjectDeletion

open JobStore (JobRow Store WellKeyed JobStatus.isOpen)

/-! ## Deletions -/

/-- The job deletes the project and is queued or running. -/
structure OpenDeletion (projectId : String) (row : JobRow) : Prop where
  project : row.projectId = projectId
  type : row.type = some .deleteProject
  isOpen : JobStatus.isOpen row.status = true

instance (projectId : String) (row : JobRow) : Decidable (OpenDeletion projectId row) :=
  decidable_of_iff (row.projectId = projectId ∧ row.type = some .deleteProject ∧
      JobStatus.isOpen row.status = true)
    ⟨fun h => ⟨h.1, h.2.1, h.2.2⟩, fun h => ⟨h.project, h.type, h.isOpen⟩⟩

/-- A deletion before and after a statement. -/
structure SameDeletion (old row : JobRow) : Prop where
  id : row.id = old.id
  project : row.projectId = old.projectId
  type : row.type = old.type
  payload : row.payload = old.payload
  isOpen : JobStatus.isOpen row.status = true → JobStatus.isOpen old.status = true

theorem SameDeletion.refl (row : JobRow) : SameDeletion row row :=
  ⟨rfl, rfl, rfl, rfl, fun h => h⟩

theorem SameDeletion.openDeletion {projectId : String} {old row : JobRow}
    (h : SameDeletion old row) (hrow : OpenDeletion projectId row) :
    OpenDeletion projectId old :=
  ⟨h.project ▸ hrow.project, h.type ▸ hrow.type, h.isOpen hrow.isOpen⟩

/-- What a statement of the job store does to deletions, and that the jobs it leaves belong
to the projects there are. -/
structure Carries (s t : Store) : Prop where
  keyed : WellKeyed t
  stored : (∀ row ∈ s.jobs, ∃ p ∈ s.projects, p.id = row.projectId) →
    ∀ row ∈ t.jobs, ∃ p ∈ s.projects, p.id = row.projectId
  deletions : ∀ row ∈ t.jobs, row.type = some .deleteProject →
    ∃ old ∈ s.jobs, SameDeletion old row
  kept : ∀ old ∈ s.jobs, old.type = some .deleteProject →
    ∃ row ∈ t.jobs, SameDeletion old row

theorem Carries.of_jobs_eq {s t : Store} (hkeyed : WellKeyed s) (h : t.jobs = s.jobs) :
    Carries s t where
  keyed := by
    rw [WellKeyed, h]
    exact hkeyed
  stored hstored row hrow := hstored row (h ▸ hrow)
  deletions row hrow _ := ⟨row, h ▸ hrow, SameDeletion.refl row⟩
  kept old hold _ := ⟨old, h ▸ hold, SameDeletion.refl old⟩

/-- An update that keeps what a deletion is, and opens no row that was settled. -/
theorem Carries.updateJobs {s : Store} {p : JobRow → Bool} {f : JobRow → JobRow}
    (hkeyed : WellKeyed s) (hid : ∀ row, (f row).id = row.id)
    (hproject : ∀ row, (f row).projectId = row.projectId)
    (htype : ∀ row, (f row).type = row.type)
    (hpayload : ∀ row, p row = true → row.type = some .deleteProject →
      (f row).payload = row.payload)
    (hopen : ∀ row ∈ s.jobs, p row = true → JobStatus.isOpen (f row).status = true →
      JobStatus.isOpen row.status = true) :
    Carries s (s.updateJobs p f) where
  keyed := Table.UniqueOn.updateWhere hkeyed hid
  stored hstored row hrow := by
    rcases Table.mem_updateWhere.mp hrow with ⟨hold, _⟩ | ⟨old, hold, _, rfl⟩
    · exact hstored row hold
    · rw [hproject]
      exact hstored old hold
  deletions row hrow hdeletion := by
    rcases Table.mem_updateWhere.mp hrow with ⟨hold, _⟩ | ⟨old, hold, hp, rfl⟩
    · exact ⟨row, hold, SameDeletion.refl row⟩
    · exact ⟨old, hold, hid old, hproject old, htype old,
        hpayload old hp ((htype old).symm.trans hdeletion), hopen old hold hp⟩
  kept old hold hdeletion := by
    by_cases hp : p old = true
    · exact ⟨f old, Table.mem_updateWhere.mpr (Or.inr ⟨old, hold, hp, rfl⟩), hid old,
        hproject old, htype old, hpayload old hp hdeletion, hopen old hold hp⟩
    · exact ⟨old, Table.mem_updateWhere_of_not hold (by simpa using hp), SameDeletion.refl old⟩

/-- An update that leaves the payloads alone, and of every row it selects says that it was
open or is not open now. -/
theorem Carries.updateStatus {s : Store} {p : JobRow → Bool} {f : JobRow → JobRow}
    (hkeyed : WellKeyed s) (hid : ∀ row, (f row).id = row.id)
    (hproject : ∀ row, (f row).projectId = row.projectId)
    (htype : ∀ row, (f row).type = row.type) (hpayload : ∀ row, (f row).payload = row.payload)
    (hopen : ∀ row ∈ s.jobs, p row = true → JobStatus.isOpen (f row).status = true →
      JobStatus.isOpen row.status = true) :
    Carries s (s.updateJobs p f) :=
  Carries.updateJobs hkeyed hid hproject htype (fun row _ _ => hpayload row) hopen

/-- An insert of a job that is no deletion. -/
theorem insertJobRowTx_carries {s t : Store} {projectId jobId : String} {type : JobType}
    {payload : Json} {createdAt updatedAt : ℤ} (hkeyed : WellKeyed s)
    (hother : type ≠ .deleteProject)
    (hinsert : JobStore.insertJobRowTx s projectId type payload jobId createdAt updatedAt =
      .ok t) : Carries s t := by
  unfold JobStore.insertJobRowTx at hinsert
  obtain ⟨decoded, _, hinsert⟩ := Outcome.bind_eq_ok.mp hinsert
  obtain ⟨_, hproject, hinsert⟩ := Outcome.bind_eq_ok.mp hinsert
  obtain ⟨_, hfresh, hinsert⟩ := Outcome.bind_eq_ok.mp hinsert
  have hproject := List.any_eq_true.mp (Outcome.ensure_eq_ok.mp hproject)
  have hfresh := List.all_eq_true.mp (Outcome.ensure_eq_ok.mp hfresh)
  cases hinsert
  constructor
  · exact Table.UniqueOn.append hkeyed fun row hrow => by simpa using hfresh row hrow
  · intro hstored row hrow
    rcases List.mem_append.mp hrow with hrow | hrow
    · exact hstored row hrow
    · obtain rfl := List.mem_singleton.mp hrow
      obtain ⟨p, hp, hid⟩ := hproject
      exact ⟨p, hp, by simpa using hid⟩
  · intro row hrow hdeletion
    rcases List.mem_append.mp hrow with hrow | hrow
    · exact ⟨row, hrow, SameDeletion.refl row⟩
    · obtain rfl := List.mem_singleton.mp hrow
      exact absurd (Option.some.inj hdeletion) hother
  · intro old hold _
    exact ⟨old, List.mem_append_left _ hold, SameDeletion.refl old⟩

theorem enqueueDeploymentArchive_carries {s t : Store} {projectId deploymentId jobId : String}
    {automatic : Bool} {now : ℤ} (hkeyed : WellKeyed s)
    (henqueue : JobStore.enqueueDeploymentArchive s projectId deploymentId automatic jobId now =
      .ok t) : Carries s t := by
  unfold JobStore.enqueueDeploymentArchive at henqueue
  obtain ⟨_, _, henqueue⟩ := Outcome.bind_eq_ok.mp henqueue
  obtain ⟨_, _, henqueue⟩ := Outcome.bind_eq_ok.mp henqueue
  split at henqueue
  · cases henqueue
    exact Carries.of_jobs_eq hkeyed rfl
  · exact insertJobRowTx_carries hkeyed (by decide) henqueue

/-- The open job of a type that a lookup finds is a row of the table, and open. -/
theorem findOpenJob_eq_some {s : Store} {projectId key value : String} {type : JobType}
    {row : JobRow} (hfound : JobStore.findOpenJob s projectId type key value = some row) :
    row ∈ s.jobs ∧ JobStatus.isOpen row.status = true := by
  have hmem := List.mem_of_mem_head? (Option.mem_def.mpr hfound)
  rw [List.mem_insertionSort, List.mem_filter] at hmem
  simp only [Bool.and_eq_true, decide_eq_true_eq] at hmem
  exact ⟨hmem.1, hmem.2.1.2⟩

theorem enqueueDeploymentActivation_carries {s t : Store}
    {projectId deploymentId runtimeInstanceId jobId : String} {now staleAfterMs : ℤ}
    (hkeyed : WellKeyed s)
    (henqueue : JobStore.enqueueDeploymentActivation s projectId deploymentId runtimeInstanceId
      jobId now staleAfterMs = .ok t) : Carries s t := by
  unfold JobStore.enqueueDeploymentActivation at henqueue
  obtain ⟨_, _, henqueue⟩ := Outcome.bind_eq_ok.mp henqueue
  obtain ⟨_, _, henqueue⟩ := Outcome.bind_eq_ok.mp henqueue
  obtain ⟨_, _, henqueue⟩ := Outcome.bind_eq_ok.mp henqueue
  obtain ⟨_, _, henqueue⟩ := Outcome.bind_eq_ok.mp henqueue
  split at henqueue
  · next existing hfound =>
      obtain ⟨hexisting, hisOpen⟩ := findOpenJob_eq_some hfound
      split at henqueue
      · cases henqueue
        refine Carries.updateStatus hkeyed (fun _ => rfl) (fun _ => rfl) (fun _ => rfl)
          (fun _ => rfl) ?_
        intro row hrow hid _
        rwa [Table.UniqueOn.eq hkeyed hrow hexisting (by simpa using hid)]
      · cases henqueue
        exact Carries.of_jobs_eq hkeyed rfl
  · exact insertJobRowTx_carries hkeyed (by decide) henqueue

theorem claimStatement_carries {s t : Store} {now : ℤ} {options : JobStore.ClaimOptions}
    {locked : List String} {claimed : JobRow} (hkeyed : WellKeyed s)
    (hclaim : JobStore.claimStatement s now options locked = some (t, claimed)) :
    Carries s t := by
  obtain ⟨candidate, hcandidate, hqueued, _, rfl⟩ := JobStore.claimStatement_cases hclaim
  refine Carries.updateStatus hkeyed (fun _ => rfl) (fun _ => rfl) (fun _ => rfl)
    (fun _ => rfl) ?_
  intro row hrow hid _
  rw [Table.UniqueOn.eq hkeyed hrow hcandidate (by simpa using hid)]
  simp only [JobStore.isCandidate, Bool.and_eq_true, decide_eq_true_eq] at hqueued
  simp [JobStatus.isOpen, hqueued.1.1.1.1]

theorem replaceJobPayload_carries {s t : Store} {jobId : String} {type : JobType}
    {payload : Json} {attempt : ℕ} {now : ℤ} (hkeyed : WellKeyed s)
    (hother : type ≠ .deleteProject)
    (hreplace : JobStore.replaceJobPayload s jobId type payload attempt now = .ok t) :
    Carries s t := by
  unfold JobStore.replaceJobPayload at hreplace
  obtain ⟨decoded, _, hreplace⟩ := Outcome.bind_eq_ok.mp hreplace
  cases hreplace
  refine Carries.updateJobs hkeyed (fun _ => rfl) (fun _ => rfl) (fun _ => rfl) ?_ ?_
  · intro row hselected hdeletion
    simp only [Bool.and_eq_true, decide_eq_true_eq] at hselected
    exact absurd (Option.some.inj (hselected.1.1.2.symm.trans hdeletion)) hother
  · intro row _ _ hisOpen
    exact hisOpen

theorem recoverStaleJobs_carries {s : Store} {now staleAfterMs : ℤ} {limit : ℕ}
    (hkeyed : WellKeyed s) : Carries s (JobStore.recoverStaleJobs s now staleAfterMs limit) := by
  refine Carries.updateStatus hkeyed (fun _ => rfl) (fun _ => rfl) (fun _ => rfl)
    (fun _ => rfl) ?_
  intro row hrow hstale _
  obtain ⟨stale, hmem, hid⟩ := List.mem_map.mp (List.contains_iff_mem.mp hstale)
  have hselected := List.mem_of_mem_take hmem
  rw [List.mem_insertionSort, List.mem_filter] at hselected
  rw [Table.UniqueOn.eq hkeyed hrow hselected.1 hid.symm]
  have hrunning := (Bool.and_eq_true_iff.mp hselected.2).1
  simp [JobStatus.isOpen, of_decide_eq_true hrunning]

/-- No caller enqueues a deletion by itself, or replaces the payload of one. -/
def Issued : Action → Prop
  | .jobs (.enqueueJob _ type _ _ _) => type ≠ .deleteProject
  | .jobs (.replaceJobPayload _ type _ _ _) => type ≠ .deleteProject
  | _ => True

/-- Every statement of the job store carries the deletions. -/
theorem step_carries {s t : Store} {action : JobStore.Action} (hkeyed : WellKeyed s)
    (hissued : Issued (.jobs action)) (hstep : JobStore.step s action = some t) :
    Carries s t := by
  cases action with
  | otherTables projects deployments runtimeInstances =>
      cases hstep
      exact Carries.of_jobs_eq hkeyed rfl
  | enqueueJob projectId type payload jobId now =>
      exact insertJobRowTx_carries hkeyed hissued (Outcome.toOption_eq_some.mp hstep)
  | enqueueDeploymentArchive projectId deploymentId automatic jobId now =>
      exact enqueueDeploymentArchive_carries hkeyed (Outcome.toOption_eq_some.mp hstep)
  | enqueueDeploymentActivation projectId deploymentId runtimeInstanceId jobId now
      staleAfterMs =>
      exact enqueueDeploymentActivation_carries hkeyed (Outcome.toOption_eq_some.mp hstep)
  | claimStatement now options locked =>
      obtain ⟨⟨u, row⟩, hclaim, rfl⟩ := Option.map_eq_some_iff.mp hstep
      exact claimStatement_carries hkeyed hclaim
  | quarantine jobId attempts now =>
      cases hstep
      exact Carries.updateStatus hkeyed (fun _ => rfl) (fun _ => rfl) (fun _ => rfl)
        (fun _ => rfl) (by simp [JobStatus.isOpen])
  | heartbeatJob jobId attempt now =>
      cases hstep
      exact Carries.updateStatus hkeyed (fun _ => rfl) (fun _ => rfl) (fun _ => rfl)
        (fun _ => rfl) fun _ _ _ hisOpen => hisOpen
  | replaceJobPayload jobId type payload attempt now =>
      exact replaceJobPayload_carries hkeyed hissued (Outcome.toOption_eq_some.mp hstep)
  | completeJob jobId attempt now =>
      cases hstep
      exact Carries.updateStatus hkeyed (fun _ => rfl) (fun _ => rfl) (fun _ => rfl)
        (fun _ => rfl) (by simp [JobStatus.isOpen])
  | failJob jobId error attempt now =>
      cases hstep
      exact Carries.updateStatus hkeyed (fun _ => rfl) (fun _ => rfl) (fun _ => rfl)
        (fun _ => rfl) (by simp [JobStatus.isOpen])
  | recoverStaleJobs now staleAfterMs limit =>
      cases hstep
      exact recoverStaleJobs_carries hkeyed

end Eveland.ProjectDeletion
