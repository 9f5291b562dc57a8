/-
# The job store

The `jobs` table and the statements that enqueue, claim, renew, settle and recover
jobs. A statement is atomic. `claimNextJob` is a loop of two statements, the claim and
the quarantine of a row it cannot decode, so each of them is a definition of its own.

The tables of projects, deployments and runtime instances are only read here.
-/

import Mathlib.Data.Int.Notation
import Mathlib.Data.List.Sort
import Eveland.Core.Jobs
import Eveland.Foundations.Machine
import Eveland.Foundations.Outcome
import Eveland.Foundations.Table

namespace Eveland.JobStore

open Outcome (ensure require)

/-! ## Rows -/

/-- A row of `jobs`. `type` is `none` where the stored text names no job type. -/
structure JobRow where
  id : String
  projectId : String
  type : Option JobType
  status : JobStatus
  payload : Json
  attempts : ℕ
  lastError : Option String
  lockedAt : Option ℤ
  sequence : ℕ
  createdAt : ℤ
  updatedAt : ℤ

/-- A row of `projects`; `deleting` is its deletion status compared with `deleting`. -/
structure Project where
  id : String
  deleting : Bool
  deriving DecidableEq, Repr

/-- A row of `deployments`. -/
structure Deployment where
  id : String
  projectId : String
  deriving DecidableEq, Repr

/-- A row of `runtime_instances`. -/
structure RuntimeInstance where
  id : String
  deploymentId : String
  deriving DecidableEq, Repr

/-- The jobs, the next value of their identity column, and the tables read with them. -/
structure Store where
  jobs : List JobRow
  nextSequence : ℕ
  projects : List Project
  deployments : List Deployment
  runtimeInstances : List RuntimeInstance

/-- `UPDATE jobs SET ... WHERE ...`. -/
def Store.updateJobs (s : Store) (p : JobRow → Bool) (f : JobRow → JobRow) : Store :=
  { s with jobs := Table.updateWhere p f s.jobs }

/-! ## Enqueueing -/

/-- `insertJobRowTx`, with the identifier `createId` draws. -/
def insertJobRowTx (s : Store) (projectId : String) (type : JobType) (payload : Json)
    (jobId : String) (createdAt updatedAt : ℤ) : Except String Store := do
  let payload ← require (decodeJobPayload type payload) "Invalid job payload."
  ensure (s.projects.any fun p => p.id = projectId) "jobs.project_id references no project"
  ensure (s.jobs.all fun r => r.id ≠ jobId) "duplicate jobs id"
  pure { s with
    jobs := s.jobs ++
      [{ id := jobId, projectId, type := some type, status := .queued, payload, attempts := 0,
         lastError := none, lockedAt := none, sequence := s.nextSequence, createdAt, updatedAt }]
    nextSequence := s.nextSequence + 1 }

/-- `enqueueJob`; both timestamps default to the clock. -/
def enqueueJob (s : Store) (projectId : String) (type : JobType) (payload : Json)
    (jobId : String) (now : ℤ) : Except String Store :=
  insertJobRowTx s projectId type payload jobId now now

/-- The status is queued or running. -/
def JobStatus.isOpen (status : JobStatus) : Bool := status = .queued || status = .running

/-- `ORDER BY created_at DESC`. -/
def newerFirst (first second : JobRow) : Prop := second.createdAt ≤ first.createdAt

instance : DecidableRel newerFirst := fun _ _ => inferInstanceAs (Decidable (_ ≤ _))

/-- The newest open job of a type whose payload names a value under a key. -/
def findOpenJob (s : Store) (projectId : String) (type : JobType) (key value : String) :
    Option JobRow :=
  ((s.jobs.filter fun r => r.projectId = projectId && r.type = some type &&
    JobStatus.isOpen r.status && r.payload.fieldText key = some value).insertionSort
      newerFirst).head?

/-- `enqueueDeploymentArchive`. -/
def enqueueDeploymentArchive (s : Store) (projectId deploymentId : String) (automatic : Bool)
    (jobId : String) (now : ℤ) : Except String Store := do
  let deployment ← require (s.deployments.find? fun d => d.id = deploymentId)
    "Deployment archive Project is invalid."
  ensure (deployment.projectId = projectId) "Deployment archive Project is invalid."
  match findOpenJob s projectId .archiveDeployment "deploymentId" deploymentId with
  | some _ => pure s
  | none =>
      insertJobRowTx s projectId .archiveDeployment
        (.obj (("deploymentId", .str deploymentId) ::
          if automatic then [("automatic", .bool true)] else [])) jobId now now

/-- `enqueueDeploymentActivation`: an open activation job of the instance is reused, and
requeued when it is running and has not been touched for `staleAfterMs`. -/
def enqueueDeploymentActivation (s : Store) (projectId deploymentId runtimeInstanceId : String)
    (jobId : String) (now staleAfterMs : ℤ) : Except String Store := do
  let runtimeInstance ← require (s.runtimeInstances.find? fun i => i.id = runtimeInstanceId)
    "Deployment activation RuntimeInstance is invalid."
  ensure (runtimeInstance.deploymentId = deploymentId)
    "Deployment activation RuntimeInstance is invalid."
  let deployment ← require (s.deployments.find? fun d => d.id = deploymentId)
    "Deployment activation Project is invalid."
  ensure (deployment.projectId = projectId) "Deployment activation Project is invalid."
  match findOpenJob s projectId .ensureDeploymentRunning "runtimeInstanceId" runtimeInstanceId with
  | some existing =>
      if existing.status = .running && existing.updatedAt ≤ now - staleAfterMs then
        pure (s.updateJobs (fun r => r.id = existing.id)
          fun r => { r with status := .queued, lockedAt := none, updatedAt := now })
      else pure s
  | none =>
      insertJobRowTx s projectId .ensureDeploymentRunning
        (.obj [("deploymentId", .str deploymentId),
          ("runtimeInstanceId", .str runtimeInstanceId)]) jobId now now

/-! ## Claiming -/

/-- `type in (types)`. -/
def JobRow.hasType (row : JobRow) (types : List JobType) : Bool :=
  match row.type with
  | some type => types.contains type
  | none => false

/-- `payload->>'deploymentId'`. -/
def JobRow.deploymentId (row : JobRow) : Option String := row.payload.fieldText "deploymentId"

/-- The condition inside `not exists`: a running job of the candidate's project that the
candidate may not run beside. -/
def excludes (candidate running : JobRow) : Bool :=
  candidate.hasType [.deleteProject] ||
  running.hasType [.deleteProject] ||
  (candidate.hasType deploymentScopedJobTypes && candidate.deploymentId.isNone) ||
  (running.hasType deploymentScopedJobTypes && running.deploymentId.isNone) ||
  (candidate.hasType projectMutationJobTypes && running.hasType projectMutationJobTypes) ||
  (candidate.hasType deploymentScopedJobTypes && running.hasType deploymentScopedJobTypes &&
    (candidate.deploymentId.isSome && candidate.deploymentId = running.deploymentId))

/-- `select count(*)` of the running heavy jobs. -/
def runningHeavy (jobs : List JobRow) : ℕ :=
  jobs.countP fun r => r.status = .running && r.hasType heavyJobTypes

/-- What a claim is limited to. -/
structure ClaimOptions where
  maxConcurrentHeavyJobs : Option ℕ
  types : Option (List JobType)
  deriving DecidableEq, Repr

/-- The `where` clause of the claim's subselect, joined with the candidate's project. -/
def isCandidate (s : Store) (options : ClaimOptions) (candidate : JobRow) : Bool :=
  candidate.status = .queued &&
  !(s.jobs.any fun running =>
    running.projectId = candidate.projectId && running.id ≠ candidate.id &&
      running.status = .running && excludes candidate running) &&
  (match s.projects.find? fun p => p.id = candidate.projectId with
    | some project => !project.deleting || candidate.hasType [.deleteProject]
    | none => false) &&
  (match options.maxConcurrentHeavyJobs with
    | some heavyCap => !candidate.hasType heavyJobTypes || runningHeavy s.jobs < heavyCap
    | none => true) &&
  (match options.types with
    | some types => candidate.hasType types
    | none => true)

/-- `case when type in (latencySensitiveTypes) then 0 else 1 end`. -/
def claimRank (row : JobRow) : ℕ := if row.hasType latencySensitiveJobTypes then 0 else 1

/-- The order of the claim: rank, then `created_at`, then `sequence`. -/
def claimedBefore (first second : JobRow) : Prop :=
  claimRank first < claimRank second ∨ (claimRank first = claimRank second ∧
    (first.createdAt < second.createdAt ∨
      (first.createdAt = second.createdAt ∧ first.sequence ≤ second.sequence)))

instance : DecidableRel claimedBefore := fun _ _ => inferInstanceAs (Decidable (_ ∨ _))

/-- The claim statement: the first candidate that no other transaction has locked starts
to run under its next attempt. `locked` are the rows `skip locked` passes over. -/
def claimStatement (s : Store) (now : ℤ) (options : ClaimOptions) (locked : List String) :
    Option (Store × JobRow) :=
  match (s.jobs.filter fun r =>
      isCandidate s options r && !locked.contains r.id).insertionSort claimedBefore with
  | [] => none
  | candidate :: _ =>
      let run := fun r : JobRow =>
        { r with status := .running, attempts := r.attempts + 1, lockedAt := some now,
                 updatedAt := now }
      some (s.updateJobs (fun r => r.id = candidate.id) run, run candidate)

/-- `jobRowToJob` accepts the row. -/
def decodesJobRow (row : JobRow) : Bool :=
  match row.type with
  | some type => (decodeJobPayload type row.payload).isSome
  | none => false

/-- The statement that fails a claimed row `jobRowToJob` rejects. -/
def quarantine (s : Store) (jobId : String) (attempts : ℕ) (now : ℤ) : Store :=
  s.updateJobs (fun r => r.id = jobId && r.status = .running && r.attempts = attempts)
    fun r => { r with
      status := .failed, lastError := some s!"Invalid persisted job contract for {jobId}.",
      lockedAt := none, updatedAt := now }

/-- `claimNextJob` where no other statement comes between its own: claim a row, and
quarantine it and claim again as long as the row does not decode. Every turn takes a row
off the queue, so the queued rows bound the turns. -/
def claimNextJobLoop (now : ℤ) (options : ClaimOptions) (locked : List String) :
    ℕ → Store → Store × Option JobRow
  | 0, s => (s, none)
  | fuel + 1, s =>
      match claimStatement s now options locked with
      | none => (s, none)
      | some (t, row) =>
          if decodesJobRow row then (t, some row)
          else claimNextJobLoop now options locked fuel (quarantine t row.id row.attempts now)

/-- `claimNextJob`. -/
def claimNextJob (s : Store) (now : ℤ) (options : ClaimOptions) (locked : List String) :
    Except String (Store × Option JobRow) := do
  ensure (options.maxConcurrentHeavyJobs ≠ some 0)
    "Heavy-job concurrency cap must be a positive integer."
  ensure (options.types ≠ some []) "Job-type claim filter must name at least one type."
  pure (claimNextJobLoop now options locked (s.jobs.length + 1) s)

/-! ## Running -/

/-- `heartbeatJob`. -/
def heartbeatJob (s : Store) (jobId : String) (attempt : ℕ) (now : ℤ) : Store :=
  s.updateJobs (fun r => r.id = jobId && r.status = .running && r.attempts = attempt)
    fun r => { r with lockedAt := some now, updatedAt := now }

/-- `replaceJobPayload`. -/
def replaceJobPayload (s : Store) (jobId : String) (type : JobType) (payload : Json)
    (attempt : ℕ) (now : ℤ) : Except String Store := do
  let decodedPayload ← require (decodeJobPayload type payload) "Invalid job payload."
  pure (s.updateJobs
    (fun r => r.id = jobId && r.type = some type && r.status = .running && r.attempts = attempt)
    fun r => { r with payload := decodedPayload, updatedAt := now })

/-- The condition of `completeJob` and `failJob`: without an attempt the write is not
fenced. -/
def settles (jobId : String) (attempt : Option ℕ) (row : JobRow) : Bool :=
  row.id = jobId &&
    match attempt with
    | none => true
    | some attempt => row.status = .running && row.attempts = attempt

/-- `completeJob`. -/
def completeJob (s : Store) (jobId : String) (attempt : Option ℕ) (now : ℤ) : Store :=
  s.updateJobs (settles jobId attempt)
    fun r => { r with status := .completed, updatedAt := now, lockedAt := none }

/-- `sanitizeStoredErrorText`: a null character, which a text column refuses, is stored as
the replacement character. -/
def sanitizeStoredErrorText (value : String) : String :=
  String.ofList (value.toList.map fun c => if c.toNat = 0 then Char.ofNat 0xFFFD else c)

/-- `failJob`. -/
def failJob (s : Store) (jobId error : String) (attempt : Option ℕ) (now : ℤ) : Store :=
  s.updateJobs (settles jobId attempt)
    fun r => { r with
      status := .failed, lastError := some (sanitizeStoredErrorText error), updatedAt := now,
      lockedAt := none }

/-! ## Recovery -/

/-- `ORDER BY locked_at`. -/
def lockedEarlier (first second : JobRow) : Prop :=
  first.lockedAt.getD 0 ≤ second.lockedAt.getD 0

instance : DecidableRel lockedEarlier := fun _ _ => inferInstanceAs (Decidable (_ ≤ _))

/-- The subselect of `recoverStaleJobs`: the running jobs locked at or before the
cutoff, the longest locked first. -/
def staleJobs (s : Store) (cutoff : ℤ) (limit : ℕ) : List String :=
  (((s.jobs.filter fun r => r.status = .running &&
    match r.lockedAt with
    | some lockedAt => lockedAt ≤ cutoff
    | none => false).insertionSort lockedEarlier).take limit).map JobRow.id

/-- The update of `recoverStaleJobs`, on the rows its subselect chose. -/
def requeue (s : Store) (jobIds : List String) (now : ℤ) : Store :=
  s.updateJobs (fun r => jobIds.contains r.id)
    fun r => { r with status := .queued, lockedAt := none, updatedAt := now }

/-- `recoverStaleJobs`. -/
def recoverStaleJobs (s : Store) (now staleAfterMs : ℤ) (limit : ℕ) : Store :=
  requeue s (staleJobs s (now - staleAfterMs) limit) now

end Eveland.JobStore
