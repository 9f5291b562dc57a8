/-
# The parties that change runtime instances

Activations, the idle reaper, the restart, archive and activation jobs, and the sweeps that
reconcile, recover and adopt, each written as the calls it makes. Calls to the store are those
of the runtime store; calls to the host, and what is read of tables that are not modelled, are
answered by the environment. Every call may throw.

Logs and the state of the project are left out, as are the steps of a launch that only read:
they are one call that succeeds or throws.
-/

import Eveland.Foundations.Programs
import Eveland.Store.RuntimeStore

namespace Eveland.RuntimeActors

open RuntimeStore

/-! ## Calls -/

/-- What is asked of the host a deployment runs on. -/
inductive HostCall
  | prepareLaunch (deploymentId : String)
  | startProcess (deploymentId : String)
  | waitForHealth (deploymentId : String)
  | stopProcess (deploymentId : String)
  | listActiveWorkflowRuns
  | removeRelease (deploymentId : String)
  | removeBuild (deploymentId : String)
  deriving DecidableEq, Repr

/-- What an inspection finds of a process. -/
inductive ProcessStatus
  | starting
  | ready
  | stopped
  | failed
  deriving DecidableEq, Repr

/-- The calls. Where a time is optional, none stands for the time of the call. -/
inductive Op
  | readClock
  | acquireActivationLease (input : AcquireInput)
  | renewActivationLease (leaseId : String) (expiresAt now : ℤ)
  | releaseActivationLease (leaseId : String)
  | hasActiveActivationLeases (deploymentId : String) (now : ℤ)
  | getDeployment (id : String)
  | getRuntimeInstance (id : String)
  | listDeploymentRuntimeInstances (deploymentId : String)
  | listRuntimeInstances (status : RuntimeInstanceStatus)
  | updateRuntimeInstance (id : String) (update : InstanceUpdate) (now : Option ℤ)
  /-- `resolveInstancePort`, for an instance that has no port yet. -/
  | reserveInstancePort (id : String)
  | adoptRuntimeInstance (deploymentId : String) (endpointPort : ℕ) (now : ℤ)
  | claimIdleRuntimeInstances (now idleTtlMs : ℤ)
  | transitionDeploymentStatus (deploymentId : String) (target : DeploymentStatus)
      (sources : List DeploymentStatus)
  /-- `getDeploymentRetention` at a time: whether the deployment is protected. -/
  | protectsDeployment (deploymentId : String) (now : ℤ)
  | hasRunningSessionsObservedBy (instanceId : String)
  | inspectProcess (deploymentId : String)
  /-- `verifyPortOwnership`: whether a foreign process holds the port. -/
  | portIsForeign (deploymentId : String)
  | host (call : HostCall)
  deriving DecidableEq, Repr

/-- What a call returns. -/
@[reducible]
def Op.Reply : Op → Type
  | .readClock => ℤ
  | .acquireActivationLease _ => ActivationLeaseClaim
  | .renewActivationLease .. => Unit
  | .releaseActivationLease _ => Unit
  | .hasActiveActivationLeases .. => Bool
  | .getDeployment _ => Option Deployment
  | .getRuntimeInstance _ => Option RuntimeInstance
  | .listDeploymentRuntimeInstances _ => List RuntimeInstance
  | .listRuntimeInstances _ => List RuntimeInstance
  | .updateRuntimeInstance .. => Option RuntimeInstance
  | .reserveInstancePort _ => ℕ
  | .adoptRuntimeInstance .. => Option RuntimeInstance
  | .claimIdleRuntimeInstances .. => List RuntimeInstance
  | .transitionDeploymentStatus .. => Bool
  | .protectsDeployment .. => Bool
  | .hasRunningSessionsObservedBy _ => Bool
  | .inspectProcess _ => ProcessStatus
  | .portIsForeign _ => Bool
  | .host _ => Unit

/-- What a call returns or throws. -/
def Op.Answer (op : Op) : Type := Except String op.Reply

abbrev RuntimeProgram : Type := Program Op Op.Answer

/-- What the environment decides of a call: whether it throws, which identifiers it draws,
which port it settles on, which rows its limit keeps, and what the host and the other tables
say. -/
structure Choice where
  failure : Option String := none
  instanceId : String := ""
  leaseId : String := ""
  port : ℕ := 0
  picked : List String := []
  flag : Bool := false
  process : ProcessStatus := .ready

/-- The tables and the time. -/
structure RuntimeState where
  store : Store
  clock : ℤ

/-- A change of the store that returns something or throws, in which case it has no effect. -/
def RuntimeState.commit {α : Type} (s : RuntimeState) (result : Except String (Store × α)) :
    RuntimeState × Except String α :=
  match result with
  | .ok (store, value) => ({ s with store }, .ok value)
  | .error e => (s, .error e)

/-- A commit has taken place, or has thrown and changed nothing. -/
theorem RuntimeState.commit_eq {α : Type} {s t : RuntimeState} {answer : Except String α}
    {result : Except String (Store × α)} (hcommit : s.commit result = (t, answer)) :
    (t = s ∧ ∃ e, answer = .error e) ∨
      ∃ store value, result = .ok (store, value) ∧ t = { s with store } ∧ answer = .ok value := by
  cases result with
  | error e =>
      cases hcommit
      exact Or.inl ⟨rfl, e, rfl⟩
  | ok pair =>
      obtain ⟨store, value⟩ := pair
      cases hcommit
      exact Or.inr ⟨store, value, rfl, rfl, rfl⟩

/-- What a call does when the environment does not make it throw. -/
def execute (s : RuntimeState) (choice : Choice) : (op : Op) → RuntimeState × op.Answer
  | .readClock => (s, .ok s.clock)
  | .acquireActivationLease input =>
      s.commit (acquireActivationLease s.store input choice.instanceId choice.leaseId)
  | .renewActivationLease leaseId expiresAt now =>
      s.commit (.ok (renewActivationLease s.store leaseId expiresAt now, ()))
  | .releaseActivationLease leaseId =>
      s.commit (.ok (releaseActivationLease s.store leaseId s.clock, ()))
  | .hasActiveActivationLeases deploymentId now =>
      (s, .ok (s.store.hasActiveActivationLeases deploymentId now))
  | .getDeployment id => (s, .ok (s.store.getDeployment id))
  | .getRuntimeInstance id => (s, .ok (s.store.getRuntimeInstance id))
  | .listDeploymentRuntimeInstances deploymentId =>
      (s, .ok (s.store.listDeploymentRuntimeInstances deploymentId))
  | .listRuntimeInstances status =>
      (s, .ok (s.store.instances.filter fun row =>
        row.status = status && choice.picked.contains row.id))
  | .updateRuntimeInstance id update now =>
      s.commit (updateRuntimeInstance s.store id update (now.getD s.clock))
  | .reserveInstancePort id =>
      let reserved := reserveRuntimeInstancePort s.store id choice.port
      s.commit (if reserved.2 then .ok (reserved.1, choice.port)
        else .error "Deployment port is reserved by another live RuntimeInstance.")
  | .adoptRuntimeInstance deploymentId endpointPort now =>
      s.commit (adoptRuntimeInstance s.store deploymentId endpointPort choice.instanceId now)
  | .claimIdleRuntimeInstances now idleTtlMs =>
      s.commit (.ok (claimIdleRuntimeInstances s.store now idleTtlMs choice.picked))
  | .transitionDeploymentStatus deploymentId target sources =>
      s.commit (.ok (transitionDeploymentStatus s.store deploymentId target sources))
  | .protectsDeployment deploymentId now =>
      -- Active requests protect a deployment, and so do the reasons that other tables give.
      (s, .ok (s.store.hasActiveActivationLeases deploymentId now || choice.flag))
  | .hasRunningSessionsObservedBy _ => (s, .ok choice.flag)
  | .inspectProcess _ => (s, .ok choice.process)
  | .portIsForeign _ => (s, .ok choice.flag)
  | .host _ => (s, .ok ())

/-- A call, which the environment may make throw before it has any effect. -/
def perform (s : RuntimeState) (op : Op) (choice : Choice) : Option (RuntimeState × op.Answer) :=
  match choice.failure with
  | some e => some (s, .error e)
  | none => some (execute s choice op)

/-! ## Programs -/

/-- `await`, where a throw ends the party. -/
def await (op : Op) (next : op.Reply → RuntimeProgram) : RuntimeProgram :=
  .call op fun
    | .ok reply => next reply
    | .error _ => .done

/-- `await` in a `try`. -/
def attempt (op : Op) (next : op.Reply → RuntimeProgram) (caught : String → RuntimeProgram) :
    RuntimeProgram :=
  .call op fun
    | .ok reply => next reply
    | .error e => caught e

/-- A call whose outcome nothing depends on. -/
def regardless (op : Op) (next : RuntimeProgram) : RuntimeProgram := .call op fun _ => next

/-- An update to a status alone, at the time of the call. -/
def writeStatus (id : String) (status : RuntimeInstanceStatus) : Op :=
  .updateRuntimeInstance id { status } none

/-- `settleDeploymentStatus`. -/
def settleDeploymentStatus (deploymentId : String) (status : DeploymentStatus) : Op :=
  .transitionDeploymentStatus deploymentId status [.running, .stopped, .failed]

/-- The part of `startRuntimeInstance` that fails the instance when it throws. -/
def launchInstance (deploymentId id : String) (endpointPort : Option ℕ)
    (returned threw : RuntimeProgram) : RuntimeProgram :=
  let failed := regardless (writeStatus id .failed) threw
  let run (port : ℕ) : RuntimeProgram :=
    attempt (.host (.startProcess deploymentId)) (fun _ =>
      attempt (.host (.waitForHealth deploymentId)) (fun _ =>
        attempt (.updateRuntimeInstance id { status := .ready, endpointPort := some (some port) }
          none) (fun ready => if ready.isSome then returned else failed) fun _ => failed)
        fun _ => failed)
      fun _ => failed
  match endpointPort with
  | some port => run port
  | none => attempt (.reserveInstancePort id) run fun _ => failed

/-- `startRuntimeInstance`. -/
def startRuntimeInstance (deploymentId id : String) (returned threw : RuntimeProgram) :
    RuntimeProgram :=
  attempt (.getRuntimeInstance id)
    (fun current =>
      match current.filter fun row => row.deploymentId = deploymentId with
      | none => threw
      | some row =>
          match row.status with
          | .ready => returned
          | .starting => launchInstance deploymentId id row.endpointPort returned threw
          | _ => threw)
    fun _ => threw

/-- The status of the row that was read, if there is one. -/
def statusOf (row : Option RuntimeInstance) : Option RuntimeInstanceStatus :=
  row.map fun row => row.status

/-- Wait for the party that starts the instance, a number of polls at most. -/
def awaitReady (id leaseId : String) : ℕ → RuntimeProgram
  | 0 => regardless (.releaseActivationLease leaseId) .done
  | polls + 1 =>
      let threw := regardless (.releaseActivationLease leaseId) .done
      attempt (.getRuntimeInstance id)
        (fun current =>
          match statusOf current with
          | some .ready => .done
          | some .starting | some .draining => awaitReady id leaseId polls
          | _ => threw)
        fun _ => threw

/-- An activation that has found its deployment archived, or going to be. -/
def activationRefused (claim : ActivationLeaseClaim) : RuntimeProgram :=
  let release := regardless (.releaseActivationLease claim.lease.id) .done
  if claim.starter then await (writeStatus claim.runtimeInstance.id .failed) fun _ => release
  else release

/-- An activation that may start its deployment. -/
def activationPassed (deploymentId : String) (claim : ActivationLeaseClaim) (polls : ℕ) :
    RuntimeProgram :=
  if claim.runtimeInstance.status = .ready then .done
  else if claim.starter then
    startRuntimeInstance deploymentId claim.runtimeInstance.id .done
      (await (writeStatus claim.runtimeInstance.id .failed) fun _ =>
        regardless (.releaseActivationLease claim.lease.id) .done)
  else awaitReady claim.runtimeInstance.id claim.lease.id polls

/-- The statuses that refuse an activation. -/
def refusesActivation (deployment : Option Deployment) : Bool :=
  deployment.all fun d => d.status = .archiving || d.status = .archived

/-- An activation that has its lease, and reads the deployment's status again. -/
def activationRecheck (deploymentId : String) (claim : ActivationLeaseClaim) (polls : ℕ) :
    RuntimeProgram :=
  await (.getDeployment deploymentId) fun deployment =>
    if refusesActivation deployment then activationRefused claim
    else activationPassed deploymentId claim polls

/-- `ensureDeploymentActive`. Its deadlines bound how often it tries to get past a draining
instance, and how often it polls for one that is starting. -/
def ensureDeploymentActive (deploymentId : String) (kind : LeaseKind) (ownerId : String)
    (leaseTtlMs : ℤ) (polls : ℕ) : ℕ → RuntimeProgram
  | 0 => .done
  | attempts + 1 =>
      await .readClock fun now =>
        attempt (.acquireActivationLease
            { deploymentId, kind, ownerId, expiresAt := now + leaseTtlMs, now })
          (fun claim => activationRecheck deploymentId claim polls)
          fun e =>
            if e = drainingMessage then
              ensureDeploymentActive deploymentId kind ownerId leaseTtlMs polls attempts
            else .done

/-- `handleEnsureDeploymentRunningJob`, with the failure handler of its job. -/
def ensureDeploymentRunning (deploymentId runtimeInstanceId : String) : RuntimeProgram :=
  let failed := regardless (writeStatus runtimeInstanceId .failed) .done
  attempt (.getDeployment deploymentId) (fun deployment =>
    attempt (.getRuntimeInstance runtimeInstanceId) (fun row =>
      match deployment with
      | none => failed
      | some deployment =>
          if (row.filter fun row => row.deploymentId = deploymentId).isNone then failed
          else if deployment.status = .archiving ∨ deployment.status = .archived then failed
          else
            attempt (.host (.prepareLaunch deploymentId)) (fun _ =>
              startRuntimeInstance deploymentId runtimeInstanceId
                (regardless (settleDeploymentStatus deploymentId .running) .done) failed)
              fun _ => failed)
      fun _ => failed)
    fun _ => failed

/-- The loop of `reapIdleDeployments` over the instances it has claimed. -/
def reapInstances (now : ℤ) : List RuntimeInstance → RuntimeProgram
  | [] => .done
  | idle :: rest =>
      let next := reapInstances now rest
      let write (status : RuntimeInstanceStatus) : Op :=
        .updateRuntimeInstance idle.id { status } (some now)
      await (.getDeployment idle.deploymentId) fun deployment =>
        match deployment with
        | none => await (write .failed) fun _ => next
        | some deployment =>
            await (.hasActiveActivationLeases deployment.id now) fun active =>
              if active then await (write .ready) fun _ => next
              else
                await (.hasRunningSessionsObservedBy idle.id) fun running =>
                  if running then await (write .ready) fun _ => next
                  else
                    await (.getRuntimeInstance idle.id) fun claimed =>
                      if statusOf claimed = some .draining then
                        let caught :=
                          await (write .failed) fun _ =>
                            await (.transitionDeploymentStatus deployment.id .failed
                              [.running, .draining]) fun _ => next
                        attempt (.host (.stopProcess deployment.id)) (fun _ =>
                          attempt (write .stopped) (fun _ =>
                            attempt (.transitionDeploymentStatus deployment.id .stopped
                              [.running, .draining]) (fun _ => next) fun _ => caught)
                            fun _ => caught)
                          fun _ => caught
                      else next

/-- `reapIdleDeployments`. -/
def reapIdleDeployments (idleTtlMs : ℤ) : RuntimeProgram :=
  await .readClock fun now =>
    await (.claimIdleRuntimeInstances now idleTtlMs) (reapInstances now)

/-- The loop of the restart that retires the instances it found live. -/
def retireInstances (retired : RuntimeProgram) (caught : RuntimeProgram) :
    List RuntimeInstance → RuntimeProgram
  | [] => retired
  | row :: rest =>
      let next := retireInstances retired caught rest
      if row.status.isLive then
        attempt (.updateRuntimeInstance row.id { status := .stopped, endpointPort := some none }
          none) (fun _ => next) fun _ => caught
      else next

/-- `handleRestartDeploymentJob`. -/
def restartDeployment (deploymentId : String) : RuntimeProgram :=
  await (.getDeployment deploymentId) fun deployment =>
    if refusesActivation deployment then .done
    else
      await (.host (.prepareLaunch deploymentId)) fun _ =>
        await (.host (.stopProcess deploymentId)) fun _ =>
          let settled (status : DeploymentStatus) : RuntimeProgram :=
            regardless (settleDeploymentStatus deploymentId status) .done
          let restarted :=
            attempt (.host (.startProcess deploymentId)) (fun _ =>
              attempt (.host (.waitForHealth deploymentId)) (fun _ => settled .running) fun _ =>
                regardless (.host (.stopProcess deploymentId)) (settled .stopped))
              fun _ => settled .stopped
          attempt (.listDeploymentRuntimeInstances deploymentId)
            (retireInstances restarted (settled .stopped)) fun _ => settled .stopped

/-- The loop of `reconcileRuntimeInstances` over the instances it found ready. -/
def reconcileInstances (now : ℤ) : List RuntimeInstance → RuntimeProgram
  | [] => .done
  | row :: rest =>
      let next := reconcileInstances now rest
      let retire (status : RuntimeInstanceStatus) (target : DeploymentStatus) : RuntimeProgram :=
        -- `stillReadyRuntimeInstance`
        await (.getRuntimeInstance row.id) fun current =>
          if statusOf current = some .ready then
            await (.updateRuntimeInstance row.id { status } (some now)) fun _ =>
              await (.transitionDeploymentStatus row.deploymentId target [.running, .draining])
                fun _ => next
          else next
      await (.getDeployment row.deploymentId) fun deployment =>
        match deployment with
        | none => await (.updateRuntimeInstance row.id { status := .failed } (some now)) fun _ => next
        | some deployment =>
            await (.inspectProcess deployment.id) fun status =>
              match status with
              | .ready | .starting =>
                  await (.portIsForeign deployment.id) fun foreign =>
                    if foreign then retire .failed .failed else next
              | .failed => retire .failed .failed
              | .stopped => retire .stopped .stopped

/-- `reconcileRuntimeInstances`. -/
def reconcileRuntimeInstances : RuntimeProgram :=
  await .readClock fun now =>
    await (.listRuntimeInstances .ready) (reconcileInstances now)

/-- The loop of `recoverStartingRuntimeInstances`; the jobs it enqueues run on their own. -/
def recoverInstances (now : ℤ) : List RuntimeInstance → RuntimeProgram
  | [] => .done
  | row :: rest =>
      let next := recoverInstances now rest
      await (.getDeployment row.deploymentId) fun deployment =>
        if deployment.isNone then
          await (.updateRuntimeInstance row.id { status := .failed } (some now)) fun _ => next
        else next

/-- `recoverStartingRuntimeInstances`. -/
def recoverStartingRuntimeInstances : RuntimeProgram :=
  await .readClock fun now =>
    await (.listRuntimeInstances .starting) (recoverInstances now)

/-- The adoption by the orphan reaper of a process that no instance stands for. -/
def adoptOrphan (deploymentId : String) : RuntimeProgram :=
  await .readClock fun now =>
    await (.getDeployment deploymentId) fun deployment =>
      match deployment with
      | none => .done
      | some deployment =>
          await (.hasActiveActivationLeases deployment.id now) fun active =>
            if active then .done
            else
              await (.listDeploymentRuntimeInstances deployment.id) fun rows =>
                if rows.any fun row => row.status.isLive then .done
                else if deployment.status = .running ∨ deployment.status = .draining then
                  await (.adoptRuntimeInstance deployment.id deployment.hostPort now) fun _ => .done
                else .done

/-! ## Archiving -/

/-- The statuses an archive may claim from. -/
def claimable (automatic : Bool) : List DeploymentStatus :=
  if automatic then [.stopped, .archiving]
  else [.running, .draining, .stopped, .failed, .archiving]

/-- The status a failed archive hands back. -/
def priorStatus (status : DeploymentStatus) : DeploymentStatus :=
  if status = .archiving then .stopped else status

/-- The archive hands its claim back. -/
def archiveRevert (deploymentId : String) (prior : DeploymentStatus) : RuntimeProgram :=
  regardless (.transitionDeploymentStatus deploymentId prior [.archiving]) .done

/-- The archive has removed everything. -/
def archiveFinish (deploymentId : String) (prior : DeploymentStatus) : RuntimeProgram :=
  attempt (.transitionDeploymentStatus deploymentId .archived [.archiving])
    (fun archived => if archived then .done else archiveRevert deploymentId prior)
    fun _ => archiveRevert deploymentId prior

/-- The archive removes the build directory. -/
def archiveBuild (deploymentId : String) (prior : DeploymentStatus) : RuntimeProgram :=
  attempt (.host (.removeBuild deploymentId)) (fun _ => archiveFinish deploymentId prior)
    fun _ => archiveRevert deploymentId prior

/-- The archive removes the release. -/
def archiveRelease (deploymentId : String) (prior : DeploymentStatus) : RuntimeProgram :=
  attempt (.host (.removeRelease deploymentId)) (fun _ => archiveBuild deploymentId prior)
    fun _ => archiveRevert deploymentId prior

/-- The archive is free to remove: it stops the process, where there may be one, and goes on. -/
def archiveRemove (deploymentId : String) (prior : DeploymentStatus) : RuntimeProgram :=
  if prior = .running ∨ prior = .draining then
    attempt (.host (.stopProcess deploymentId)) (fun _ => archiveRelease deploymentId prior)
      fun _ => archiveRevert deploymentId prior
  else archiveRelease deploymentId prior

/-- The archive reads whether the deployment is protected at the time its check began. -/
def archiveProtection (deploymentId : String) (prior : DeploymentStatus) (now : ℤ) :
    RuntimeProgram :=
  attempt (.protectsDeployment deploymentId now)
    (fun isProtected =>
      if isProtected then archiveRevert deploymentId prior
      else archiveRemove deploymentId prior)
    fun _ => archiveRevert deploymentId prior

/-- The archive begins its check of the retention. -/
def archiveRetention (deploymentId : String) (prior : DeploymentStatus) : RuntimeProgram :=
  attempt .readClock (archiveProtection deploymentId prior)
    fun _ => archiveRevert deploymentId prior

/-- The archive holds its claim. -/
def archiveClaimed (deploymentId : String) (prior : DeploymentStatus) : RuntimeProgram :=
  attempt (.host .listActiveWorkflowRuns) (fun _ => archiveRetention deploymentId prior)
    fun _ => archiveRevert deploymentId prior

/-- The archive claims the deployment in the status it has read. -/
def archiveClaim (deploymentId : String) (status : DeploymentStatus) : RuntimeProgram :=
  await (.transitionDeploymentStatus deploymentId .archiving [status]) fun claimed =>
    if claimed then archiveClaimed deploymentId (priorStatus status) else .done

/-- `handleArchiveDeploymentJob`. -/
def archiveDeployment (deploymentId : String) (automatic : Bool) : RuntimeProgram :=
  await (.getDeployment deploymentId) fun deployment =>
    match deployment with
    | none => .done
    | some deployment =>
        if deployment.status = .archived then .done
        else if (claimable automatic).contains deployment.status then
          archiveClaim deploymentId deployment.status
        else .done

/-! ## The system -/

/-- What is launched. -/
inductive Party
  | acquireLease (input : AcquireInput)
  | renewLease (leaseId : String) (leaseTtlMs : ℤ)
  | releaseLease (leaseId : String)
  | ensureDeploymentActive (deploymentId : String) (kind : LeaseKind) (ownerId : String)
      (leaseTtlMs : ℤ) (polls attempts : ℕ)
  | ensureDeploymentRunning (deploymentId runtimeInstanceId : String)
  | reapIdleDeployments (idleTtlMs : ℤ)
  | restartDeployment (deploymentId : String)
  | reconcileRuntimeInstances
  | recoverStartingRuntimeInstances
  | adoptOrphan (deploymentId : String)
  | archiveDeployment (deploymentId : String) (automatic : Bool)

/-- The program of a party. -/
def Party.program : Party → RuntimeProgram
  | .acquireLease input => await (.acquireActivationLease input) fun _ => .done
  | .renewLease leaseId leaseTtlMs =>
      await .readClock fun now =>
        await (.renewActivationLease leaseId (now + leaseTtlMs) now) fun _ => .done
  | .releaseLease leaseId => await (.releaseActivationLease leaseId) fun _ => .done
  | .ensureDeploymentActive deploymentId kind ownerId leaseTtlMs polls attempts =>
      RuntimeActors.ensureDeploymentActive deploymentId kind ownerId leaseTtlMs polls attempts
  | .ensureDeploymentRunning deploymentId runtimeInstanceId =>
      RuntimeActors.ensureDeploymentRunning deploymentId runtimeInstanceId
  | .reapIdleDeployments idleTtlMs => RuntimeActors.reapIdleDeployments idleTtlMs
  | .restartDeployment deploymentId => RuntimeActors.restartDeployment deploymentId
  | .reconcileRuntimeInstances => RuntimeActors.reconcileRuntimeInstances
  | .recoverStartingRuntimeInstances => RuntimeActors.recoverStartingRuntimeInstances
  | .adoptOrphan deploymentId => RuntimeActors.adoptOrphan deploymentId
  | .archiveDeployment deploymentId automatic =>
      RuntimeActors.archiveDeployment deploymentId automatic

/-- Whether the party archives the deployment. -/
def Party.archives (deploymentId : String) : Party → Bool
  | .archiveDeployment id _ => id = deploymentId
  | _ => false

/-- The shared state of the system, and what is at work on it. -/
abbrev RuntimePool : Type := Pool RuntimeState Party Op Op.Answer

/-- One archive job of a deployment runs at a time, as claimed jobs exclude each other; the
others are launched at any time. -/
def admits (pool : RuntimePool) : Party → Bool
  | .archiveDeployment deploymentId _ =>
      pool.tasks.all fun task => !(task.1.archives deploymentId && task.2.head.isSome)
  | _ => true

/-- Time passes. -/
def passTime (s : RuntimeState) (clock : ℤ) : Option RuntimeState :=
  if s.clock ≤ clock then some { s with clock } else none

theorem passTime_store {s t : RuntimeState} {clock : ℤ} (hpass : passTime s clock = some t) :
    t.store = s.store := by
  unfold passTime at hpass
  split at hpass <;> cases hpass
  rfl

theorem passTime_le {s t : RuntimeState} {clock : ℤ} (hpass : passTime s clock = some t) :
    s.clock ≤ t.clock := by
  unfold passTime at hpass
  split at hpass <;> cases hpass
  assumption

/-- The parties over one store. -/
def actors : Actors RuntimeState Party Op Op.Answer Choice ℤ where
  perform := perform
  program := Party.program
  admits := admits
  outside := passTime

/-- The system, from a store with deployments and neither instances nor leases. -/
def machine : Machine RuntimePool (PoolAction Party Choice ℤ) :=
  actors.machine fun s =>
    Table.UniqueOn Deployment.id s.store.deployments ∧ s.store.instances = [] ∧
      s.store.leases = []

/-- One running deployment, and nothing at work on it. -/
def samplePool : RuntimePool :=
  { state :=
      { store :=
          { deployments := [⟨"dep", "project", .running, 4000⟩], instances := [], leases := [] }
        clock := 0 }
    tasks := [] }

theorem samplePool_init : machine.init samplePool :=
  ⟨⟨List.nodup_singleton _, rfl, rfl⟩, rfl⟩

end Eveland.RuntimeActors
