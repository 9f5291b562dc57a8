/-
# The runtime store

Runtime instances, the leases on them, and the calls that read and change them, each one
transaction or one statement. Identifiers a call draws are arguments of the call; one that is
taken makes the call throw.

The texts an instance records of its last failure are left out, and so is its endpoint host,
which is the loopback address wherever there is a port.
-/

import Mathlib.Data.Int.Notation
import Mathlib.Data.List.Sort
import Eveland.Core.Deployments
import Eveland.Foundations.Outcome
import Eveland.Foundations.Table

namespace Eveland.RuntimeStore

open Outcome (ensure require)

/-! ## Rows -/

/-- A row of `deployments`. -/
structure Deployment where
  id : String
  projectId : String
  status : DeploymentStatus
  hostPort : ℕ
  deriving DecidableEq, Repr

/-- A row of `runtime_instances`. -/
structure RuntimeInstance where
  id : String
  deploymentId : String
  generation : ℕ
  status : RuntimeInstanceStatus
  endpointPort : Option ℕ
  startedAt : Option ℤ
  readyAt : Option ℤ
  stoppedAt : Option ℤ
  deriving DecidableEq, Repr

/-- What an activation lease is held for. -/
inductive LeaseKind
  | publicRequest
  | stream
  | turn
  | scheduleRun
  | workflowStep
  deriving DecidableEq, Repr

/-- A row of `activation_leases`. -/
structure ActivationLease where
  id : String
  deploymentId : String
  runtimeInstanceId : String
  kind : LeaseKind
  ownerId : String
  expiresAt : ℤ
  releasedAt : Option ℤ
  deriving DecidableEq, Repr

/-- `released_at is null and expires_at > now`. -/
def ActivationLease.isActive (now : ℤ) (lease : ActivationLease) : Bool :=
  lease.releasedAt.isNone && now < lease.expiresAt

/-- The unique index `activation_leases_deployment_kind_owner_idx`. -/
def ActivationLease.key (lease : ActivationLease) : String × LeaseKind × String :=
  (lease.deploymentId, lease.kind, lease.ownerId)

/-- The unique index `runtime_instances_deployment_generation_idx`. -/
def RuntimeInstance.key (row : RuntimeInstance) : String × ℕ := (row.deploymentId, row.generation)

/-- The tables of the runtime store. -/
structure Store where
  deployments : List Deployment
  instances : List RuntimeInstance
  leases : List ActivationLease

/-- Of two rows, the one of the higher generation. -/
def newer (row : RuntimeInstance) : Option RuntimeInstance → RuntimeInstance
  | none => row
  | some other => if other.generation < row.generation then row else other

/-- The row of the highest generation. -/
def newest : List RuntimeInstance → Option RuntimeInstance
  | [] => none
  | row :: rest => some (newer row (newest rest))

namespace Store

variable (s : Store)

/-- `getDeployment`. -/
def getDeployment (id : String) : Option Deployment := s.deployments.find? fun d => d.id = id

/-- `getRuntimeInstance`. -/
def getRuntimeInstance (id : String) : Option RuntimeInstance :=
  s.instances.find? fun row => row.id = id

/-- `listDeploymentRuntimeInstances`, in the order of their generations. -/
def listDeploymentRuntimeInstances (deploymentId : String) : List RuntimeInstance :=
  (s.instances.filter fun row => row.deploymentId = deploymentId).insertionSort
    fun first second => first.generation ≤ second.generation

/-- The latest runtime instance of a deployment: `order by generation desc limit 1`. -/
def latestRuntimeInstance (deploymentId : String) : Option RuntimeInstance :=
  newest (s.instances.filter fun row => row.deploymentId = deploymentId)

/-- `hasActiveActivationLeases`. -/
def hasActiveActivationLeases (deploymentId : String) (now : ℤ) : Bool :=
  s.leases.any fun lease => lease.deploymentId = deploymentId && lease.isActive now

/-- Whether a live instance other than `id` has the port: `runtime_instances_live_port_idx`. -/
def portTaken (id : String) (port : ℕ) : Bool :=
  s.instances.any fun row => row.id ≠ id && row.status.isLive && row.endpointPort = some port

end Store

/-! ## Leases -/

/-- The input of `acquireActivationLease`, with the time it runs at. -/
structure AcquireInput where
  deploymentId : String
  kind : LeaseKind
  ownerId : String
  expiresAt : ℤ
  now : ℤ
  deriving DecidableEq, Repr

/-- `ActivationLeaseClaim`. -/
structure ActivationLeaseClaim where
  lease : ActivationLease
  runtimeInstance : RuntimeInstance
  starter : Bool
  deriving DecidableEq, Repr

/-- The message of `RuntimeInstanceDrainingError`. -/
def drainingMessage : String := "RuntimeInstance is draining; retry activation after it stops."

/-- The latest instance, when a lease may refer to it. -/
def reusable (latest : Option RuntimeInstance) : Option RuntimeInstance :=
  latest.filter fun row => row.status = .starting || row.status = .ready

/-- The instance of the next generation. -/
def nextInstance (latest : Option RuntimeInstance) (deploymentId id : String)
    (status : RuntimeInstanceStatus) (endpointPort : Option ℕ) (readyAt : Option ℤ) (now : ℤ) :
    RuntimeInstance :=
  { id, deploymentId, generation := (latest.map fun row => row.generation).getD 0 + 1, status
    endpointPort, startedAt := some now, readyAt, stoppedAt := none }

/-- The insert of an instance. -/
def insertInstance (s : Store) (row : RuntimeInstance) : Except String Store := do
  ensure (s.instances.all fun other => other.id ≠ row.id) "duplicate runtime_instances id"
  pure { s with instances := s.instances ++ [row] }

/-- The insert of a lease, which on conflict renews and reopens the owner's lease. -/
def upsertLease (s : Store) (input : AcquireInput) (leaseId runtimeInstanceId : String) : Store :=
  { s with
    leases := Table.upsertWhere
      (fun lease => lease.key = (input.deploymentId, input.kind, input.ownerId))
      (fun lease => { lease with runtimeInstanceId, expiresAt := input.expiresAt,
                                 releasedAt := none })
      { id := leaseId, deploymentId := input.deploymentId, runtimeInstanceId, kind := input.kind,
        ownerId := input.ownerId, expiresAt := input.expiresAt, releasedAt := none } s.leases }

/-- The lease of an owner, as `returning` gives it after the upsert. -/
def Store.leaseOf (s : Store) (input : AcquireInput) : Option ActivationLease :=
  s.leases.find? fun lease => lease.key = (input.deploymentId, input.kind, input.ownerId)

/-- The instance an acquired lease refers to, and whether it is a new one. -/
def chooseInstance (s : Store) (input : AcquireInput) (instanceId : String) :
    Except String (Store × RuntimeInstance × Bool) :=
  let latest := s.latestRuntimeInstance input.deploymentId
  match reusable latest with
  | some row => .ok (s, row, false)
  | none =>
      let row := nextInstance latest input.deploymentId instanceId .starting none none input.now
      (insertInstance s row).map fun s => (s, row, true)

/-- `acquireActivationLease`. -/
def acquireActivationLease (s : Store) (input : AcquireInput) (instanceId leaseId : String) :
    Except String (Store × ActivationLeaseClaim) := do
  ensure (s.getDeployment input.deploymentId).isSome "Cannot activate an unknown Deployment."
  ensure ((s.latestRuntimeInstance input.deploymentId).all fun row => row.status ≠ .draining)
    drainingMessage
  let (s, row, starter) ← chooseInstance s input instanceId
  let s := upsertLease s input leaseId row.id
  let lease ← require (s.leaseOf input) "Failed to create ActivationLease."
  pure (s, { lease, runtimeInstance := row, starter })

/-- `renewActivationLease`. -/
def renewActivationLease (s : Store) (leaseId : String) (expiresAt now : ℤ) : Store :=
  { s with
    leases := Table.updateWhere (fun lease => lease.id = leaseId && lease.isActive now)
      (fun lease => { lease with expiresAt }) s.leases }

/-- `releaseActivationLease`. -/
def releaseActivationLease (s : Store) (leaseId : String) (now : ℤ) : Store :=
  { s with
    leases := Table.updateWhere (fun lease => lease.id = leaseId && lease.releasedAt.isNone)
      (fun lease => { lease with releasedAt := some now }) s.leases }

/-! ## Instances -/

/-- `adoptRuntimeInstance`. A port that a live instance has already makes it adopt nothing. -/
def adoptRuntimeInstance (s : Store) (deploymentId : String) (endpointPort : ℕ)
    (instanceId : String) (now : ℤ) : Except String (Store × Option RuntimeInstance) :=
  if (s.getDeployment deploymentId).isNone then .ok (s, none)
  else
    let latest := s.latestRuntimeInstance deploymentId
    if latest.any fun row => row.status.isLive then .ok (s, none)
    else if s.portTaken instanceId endpointPort then .ok (s, none)
    else do
      let row := nextInstance latest deploymentId instanceId .ready (some endpointPort) (some now) now
      let s ← insertInstance s row
      pure (s, some row)

/-- The input of `updateRuntimeInstance`: a port that is not given stays. -/
structure InstanceUpdate where
  status : RuntimeInstanceStatus
  endpointPort : Option (Option ℕ) := none
  deriving DecidableEq, Repr

/-- The row after an update. -/
def InstanceUpdate.apply (update : InstanceUpdate) (now : ℤ) (row : RuntimeInstance) :
    RuntimeInstance :=
  { row with
    status := update.status
    endpointPort := update.endpointPort.getD row.endpointPort
    readyAt := if update.status = .ready then some now else row.readyAt
    stoppedAt := if update.status = .stopped ∨ update.status = .failed then some now
      else row.stoppedAt }

/-- Whether the row would share its port with another live instance. -/
def InstanceUpdate.conflicts (s : Store) (update : InstanceUpdate) (row : RuntimeInstance) :
    Bool :=
  update.status.isLive &&
    (update.endpointPort.getD row.endpointPort).any fun port => s.portTaken row.id port

/-- `updateRuntimeInstance`: an update by id, whatever the row's status is. -/
def updateRuntimeInstance (s : Store) (id : String) (update : InstanceUpdate) (now : ℤ) :
    Except String (Store × Option RuntimeInstance) :=
  match s.getRuntimeInstance id with
  | none => .ok (s, none)
  | some row =>
      if update.conflicts s row then .error "runtime_instances_live_port_idx"
      else
        .ok ({ s with
          instances := Table.updateWhere (fun r => r.id = id) (update.apply now) s.instances },
          some (update.apply now row))

/-- `reserveRuntimeInstancePort`. -/
def reserveRuntimeInstancePort (s : Store) (id : String) (port : ℕ) : Store × Bool :=
  match s.getRuntimeInstance id with
  | none => (s, false)
  | some row =>
      if row.status.isLive && s.portTaken id port then (s, false)
      else
        ({ s with
          instances := Table.updateWhere (fun r => r.id = id)
            (fun r => { r with endpointPort := some port }) s.instances }, true)

/-- The later of two times, where either may be missing. -/
def laterOf : Option ℤ → Option ℤ → Option ℤ
  | some first, some second => some (max first second)
  | first, none => first
  | none, second => second

/-- When a lease was last in use. -/
def ActivationLease.lastUse (lease : ActivationLease) : ℤ := lease.releasedAt.getD lease.expiresAt

/-- The last use of any lease on an instance. -/
def Store.lastLeaseUse (s : Store) (instanceId : String) : Option ℤ :=
  (s.leases.filter fun lease => lease.runtimeInstanceId = instanceId).foldl
    (fun latest lease => laterOf latest (some lease.lastUse)) none

/-- The idle condition of the candidate query:
`greatest(coalesce(ready_at, started_at), max(coalesce(released_at, expires_at))) <= cutoff`. -/
def Store.idleInQuery (s : Store) (row : RuntimeInstance) (cutoff : ℤ) : Bool :=
  (laterOf (row.readyAt.or row.startedAt) (s.lastLeaseUse row.id)).all fun time => time ≤ cutoff

/-- The idle condition of the check after the lock:
`Math.max(readyAt, startedAt, ...leases) <= cutoff`. -/
def Store.idleOnCheck (s : Store) (row : RuntimeInstance) (cutoff : ℤ) : Bool :=
  (laterOf (laterOf row.readyAt row.startedAt) (s.lastLeaseUse row.id)).all fun time =>
    time ≤ cutoff

/-- The `where` of the candidate query, less its conditions on schedules. -/
def Store.isIdleCandidate (s : Store) (now cutoff : ℤ) (row : RuntimeInstance) : Bool :=
  row.status = .draining ||
    (row.status = .ready && !s.hasActiveActivationLeases row.deploymentId now &&
      s.idleInQuery row cutoff)

/-- What is checked of a ready candidate once its row is locked. -/
def Store.mayDrain (s : Store) (now cutoff : ℤ) (row : RuntimeInstance) : Bool :=
  !s.hasActiveActivationLeases row.deploymentId now && s.idleOnCheck row cutoff

/-- A ready candidate that may drain, drained. -/
def drain (row : RuntimeInstance) : RuntimeInstance := { row with status := .draining }

/-- Whether the claim moves a row to `draining`. -/
def Store.drains (s : Store) (now cutoff : ℤ) (picked : List String) (row : RuntimeInstance) :
    Bool :=
  picked.contains row.id && s.isIdleCandidate now cutoff row && row.status = .ready &&
    s.mayDrain now cutoff row

/-- `claimIdleRuntimeInstances`. Which candidates it gets to is a matter of the limit, of the
rows that others have locked and of the schedules that keep a deployment warm: `picked` are
their ids. -/
def claimIdleRuntimeInstances (s : Store) (now idleTtlMs : ℤ) (picked : List String) :
    Store × List RuntimeInstance :=
  let cutoff := now - idleTtlMs
  let candidates := s.instances.filter fun row =>
    picked.contains row.id && s.isIdleCandidate now cutoff row
  ({ s with instances := Table.updateWhere (s.drains now cutoff picked) drain s.instances },
    candidates.filterMap fun row =>
      if row.status = .draining then some row
      else if s.mayDrain now cutoff row then some (drain row)
      else none)

/-! ## Deployments -/

/-- `transitionDeploymentStatus`. -/
def transitionDeploymentStatus (s : Store) (deploymentId : String) (target : DeploymentStatus)
    (sources : List DeploymentStatus) : Store × Bool :=
  ({ s with
    deployments := Table.updateWhere
      (fun d => d.id = deploymentId && sources.contains d.status)
      (fun d => { d with status := target }) s.deployments },
    s.deployments.any fun d => d.id = deploymentId && sources.contains d.status)

end Eveland.RuntimeStore
