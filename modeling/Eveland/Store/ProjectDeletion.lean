/-
# Deleting a project

The project rows with their deletion status, the transaction that requests a deletion,
the one that ends it, and the two writes of a worker whose job failed: the job is marked
failed under its attempt, and what the failure means for the project is written after
that. A worker may stop between the two. The other statements on jobs are those of the
job store.

A project that is created later is there from the start, without a job.
-/

import Eveland.Store.JobSteps

namespace Eveland.ProjectDeletion

open JobStore (JobRow Deployment RuntimeInstance Store)

/-! ## Rows -/

/-- `projects.deletion_status`. -/
inductive ProjectDeletionStatus
  | deleting
  | failed
  deriving DecidableEq, Repr

/-- A row of `projects`. -/
structure ProjectRow where
  id : String
  deletionStatus : Option ProjectDeletionStatus
  deletionError : Option String
  deriving DecidableEq, Repr

/-- A `settleJobFailure` of a deletion that has not been written yet. -/
structure Settlement where
  projectId : String
  message : String
  deriving DecidableEq, Repr

/-- The tables, and the settlements the workers still owe. -/
structure State where
  projects : List ProjectRow
  jobs : List JobRow
  nextSequence : ℕ
  deployments : List Deployment
  runtimeInstances : List RuntimeInstance
  settling : List Settlement

/-- The tables as the job store reads them. -/
def State.store (s : State) : Store :=
  { jobs := s.jobs, nextSequence := s.nextSequence,
    projects := s.projects.map fun p => ⟨p.id, p.deletionStatus = some .deleting⟩,
    deployments := s.deployments, runtimeInstances := s.runtimeInstances }

/-- The tables after a statement of the job store, which writes no project. -/
def State.withStore (s : State) (store : Store) : State :=
  { s with
    jobs := store.jobs, nextSequence := store.nextSequence, deployments := store.deployments,
    runtimeInstances := store.runtimeInstances }

/-- The row of a project. -/
def State.findProject (s : State) (projectId : String) : Option ProjectRow :=
  s.projects.find? fun p => p.id = projectId

/-- The project is being deleted. -/
def State.isDeleting (s : State) (projectId : String) : Bool :=
  match s.findProject projectId with
  | some project => project.deletionStatus = some .deleting
  | none => false

/-! ## Source paths -/

/-- The strings of an array. -/
def strings : Json → List String
  | .arr elements => elements.filterMap fun element =>
      match element with
      | .str value => some value
      | _ => none
  | _ => []

/-- The paths `projectDeletionSourcePaths` reads from one payload. -/
def payloadSourcePaths (payload : Json) : List String :=
  (match payload.field "sourcePath" with
    | some (.str sourcePath) => [sourcePath]
    | _ => []) ++
  (match payload.field "sourcePaths" with
    | some sourcePaths => strings sourcePaths
    | none => [])

/-- `paths.add(sourcePath)`; a set keeps the order of insertion. -/
def addPath (paths : List String) (sourcePath : String) : List String :=
  if paths.contains sourcePath then paths else paths ++ [sourcePath]

/-- `projectDeletionSourcePaths`. -/
def projectDeletionSourcePaths (payloads : List Json) : List String :=
  payloads.foldl (fun paths payload => (payloadSourcePaths payload).foldl addPath paths) []

/-- `job.payload.sourcePaths ?? []`: the paths a deletion removes with the project. -/
def pendingSourcePaths (payload : Json) : List String :=
  match payload.field "sourcePaths" with
  | some sourcePaths => strings sourcePaths
  | none => []

theorem mem_addPath {paths : List String} {sourcePath path : String} :
    path ∈ addPath paths sourcePath ↔ path ∈ paths ∨ path = sourcePath := by
  unfold addPath
  by_cases hknown : paths.contains sourcePath = true
  · rw [if_pos hknown]
    refine ⟨Or.inl, fun h => h.elim id ?_⟩
    rintro rfl
    simpa using hknown
  · rw [if_neg hknown]
    simp

theorem mem_foldl_addPath {added paths : List String} {path : String} :
    path ∈ added.foldl addPath paths ↔ path ∈ paths ∨ path ∈ added := by
  induction added generalizing paths with
  | nil => simp
  | cons sourcePath rest ih =>
      rw [List.foldl_cons, ih, mem_addPath, List.mem_cons, or_assoc]

/-- The paths of a deletion are those of the payloads it was given. -/
theorem mem_projectDeletionSourcePaths {payloads : List Json} {path : String} :
    path ∈ projectDeletionSourcePaths payloads ↔
      ∃ payload ∈ payloads, path ∈ payloadSourcePaths payload := by
  have hfold : ∀ (payloads : List Json) (paths : List String),
      path ∈ payloads.foldl (fun paths payload =>
        (payloadSourcePaths payload).foldl addPath paths) paths ↔
          path ∈ paths ∨ ∃ payload ∈ payloads, path ∈ payloadSourcePaths payload := by
    intro payloads
    induction payloads with
    | nil => simp
    | cons payload rest ih =>
        intro paths
        rw [List.foldl_cons, ih, mem_foldl_addPath]
        simp [or_assoc]
  simpa [projectDeletionSourcePaths] using hfold payloads []

/-- What a deletion removes is among what the next request collects from its job. -/
theorem payloadSourcePaths_of_pending {payload : Json} {path : String}
    (hpath : path ∈ pendingSourcePaths payload) : path ∈ payloadSourcePaths payload :=
  List.mem_append_right _ hpath

/-- The payload of a deletion. -/
def deletionPayload (sourcePaths : List String) : Json :=
  .obj [("sourcePaths", .arr (sourcePaths.map .str))]

@[simp]
theorem pendingSourcePaths_deletionPayload (sourcePaths : List String) :
    pendingSourcePaths (deletionPayload sourcePaths) = sourcePaths := by
  simp [pendingSourcePaths, deletionPayload, Json.field, strings, List.filterMap_map]

/-! ## Requesting and ending a deletion -/

/-- What a request for a deletion answers. -/
inductive ProjectDeletionRequest
  | notFound
  | alreadyDeleting
  | queued (job : JobRow)

/-- The jobs whose payloads a request collects: the queued jobs of the project, and its
deletions in whatever state. -/
def deletionInputs (s : State) (projectId : String) : List JobRow :=
  s.jobs.filter fun r =>
    r.projectId = projectId && (r.status = JobStatus.queued || r.type = some JobType.deleteProject)

/-- What a request writes before it inserts its job: the project is being deleted, and its
queued jobs are gone. -/
def markDeleting (s : State) (projectId : String) : State :=
  { s with
    projects := Table.updateWhere (fun p => p.id = projectId)
      (fun p => { p with deletionStatus := some .deleting, deletionError := none }) s.projects
    jobs := s.jobs.filter fun r => !(r.projectId = projectId && r.status = JobStatus.queued) }

/-- `requestProjectDeletion`, which holds the project's row for the whole transaction. -/
def requestProjectDeletion (s : State) (projectId jobId : String) (now : ℤ) :
    Except String (State × ProjectDeletionRequest) :=
  match s.findProject projectId with
  | none => pure (s, .notFound)
  | some project =>
      if project.deletionStatus = some .deleting then pure (s, .alreadyDeleting)
      else do
        let sourcePaths :=
          projectDeletionSourcePaths ((deletionInputs s projectId).map JobRow.payload)
        let marked := markDeleting s projectId
        let inserted ← JobStore.insertJobRowTx marked.store projectId .deleteProject
          (deletionPayload sourcePaths) jobId now now
        let job ← Outcome.require (inserted.findJob jobId) "Failed to enqueue job."
        pure (marked.withStore inserted, .queued job)

/-- `setProjectDeletionFailed`. -/
def setProjectDeletionFailed (s : State) (projectId error : String) : State :=
  { s with
    projects := Table.updateWhere (fun p => p.id = projectId)
      (fun p => { p with deletionStatus := some .failed, deletionError := some error })
      s.projects }

/-- `deleteProject`, on the tables that are modelled. -/
def deleteProject (s : State) (projectId : String) : State :=
  { s with
    deployments := s.deployments.filter fun d => d.projectId ≠ projectId
    jobs := s.jobs.filter fun r => r.projectId ≠ projectId
    projects := s.projects.filter fun p => p.id ≠ projectId }

/-- A worker's `failJob` under the attempt it holds. Where it changed the row of a
deletion, `settleJobFailure` is still to come. -/
def failDeletion (s : State) (jobId message : String) (attempt : ℕ) (now : ℤ) : State :=
  let failed := s.withStore (JobStore.failJob s.store jobId message (some attempt) now)
  match s.jobs.find? (JobStore.settles jobId (some attempt)) with
  | some job =>
      if job.type = some .deleteProject then
        { failed with settling := s.settling ++ [⟨job.projectId, message⟩] }
      else failed
  | none => failed

/-- `settleJobFailure` of a failed deletion. -/
def settleJobFailure (s : State) (settlement : Settlement) : State :=
  setProjectDeletionFailed { s with settling := s.settling.erase settlement }
    settlement.projectId settlement.message

/-! ## Histories of calls -/

/-- One call. `jobs` is a statement of the job store; a failure it records is not settled,
as that of a worker which stops right after. -/
inductive Action
  | requestProjectDeletion (projectId jobId : String) (now : ℤ)
  | jobs (action : JobStore.Action)
  | failJob (jobId message : String) (attempt : ℕ) (now : ℤ)
  | settleJobFailure (settlement : Settlement)
  | deleteProject (projectId : String)

/-- The effect of a call; one that throws has none. -/
def step (s : State) : Action → Option State
  | .requestProjectDeletion projectId jobId now =>
      ((ProjectDeletion.requestProjectDeletion s projectId jobId now).map Prod.fst).toOption
  | .jobs action => (JobStore.step s.store action).map s.withStore
  | .failJob jobId message attempt now => some (failDeletion s jobId message attempt now)
  | .settleJobFailure settlement =>
      if settlement ∈ s.settling then some (ProjectDeletion.settleJobFailure s settlement)
      else none
  | .deleteProject projectId => some (ProjectDeletion.deleteProject s projectId)

/-- The store before anything is deleted: any projects, and no job. -/
def machine : Machine State Action where
  init s := (∀ p ∈ s.projects, p.deletionStatus = none) ∧ s.jobs = [] ∧ s.settling = []
  step := step

end Eveland.ProjectDeletion
