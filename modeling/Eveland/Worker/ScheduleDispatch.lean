/-
# The parties of a schedule dispatch

The trigger job, which activates a schedule run, dispatches it to its deployment and reports what
came of it, and the posts by which the deployment claims and completes the dispatch. Each is
written as the calls it makes. Calls on schedule runs are those of the schedule store; what is
asked of releases, leases, logs and the deployment itself is answered by the environment. A call
may throw before it has taken place, and its answer may be lost after it has.

The state also records which runs a call has redeemed the dispatch of.
-/

import Eveland.Foundations.Programs
import Eveland.Telemetry.RunSteps

namespace Eveland.ScheduleDispatch

open Telemetry

/-! ## Calls -/

/-- The calls. -/
inductive Op
  | getScheduleRun (scheduleRunId : String)
  | getProjectSchedule (scheduleId : String)
  | getDeployment (deploymentId : String)
  /-- `getRelease` and `listProjectScheduleVersions`, with the checks on what they return. -/
  | checkRelease (scheduleRunId : String)
  | claimScheduleRunActivation (scheduleRunId : String)
  | redeemScheduleRunDispatch (scheduleRunId deploymentId : String)
  | completeScheduleRun (scheduleRunId : String) (input : CompleteRunInput)
  /-- Credentials, source and launch prerequisites. -/
  | prepareLaunch (deploymentId : String)
  | ensureDeploymentActive (deploymentId scheduleRunId : String)
  | updateDeploymentStatus (deploymentId : String)
  | dispatchSchedule (scheduleRunId deploymentId : String)
  | renewActivationLease (leaseId : String)
  | releaseActivationLease (leaseId : String)
  | appendLog

/-- What a call returns. -/
@[reducible]
def Op.Reply : Op → Type
  | .getScheduleRun _ => Option ScheduleRun
  | .getProjectSchedule _ => Option ScheduleStore.ProjectSchedule
  | .getDeployment _ => Option RuntimeStore.Deployment
  | .checkRelease _ => Unit
  | .claimScheduleRunActivation _ => Option ScheduleRun
  | .redeemScheduleRunDispatch .. => Option ScheduleRun
  | .completeScheduleRun .. => Option ScheduleRun
  | .prepareLaunch _ => Unit
  | .ensureDeploymentActive .. => String
  | .updateDeploymentStatus _ => Unit
  | .dispatchSchedule .. => List String
  | .renewActivationLease _ => Bool
  | .releaseActivationLease _ => Unit
  | .appendLog => Unit

/-- What a call returns or throws. -/
def Op.Answer (op : Op) : Type := Except String op.Reply

abbrev DispatchProgram : Type := Program Op Op.Answer

/-- What the environment decides of a call: whether it throws before it takes place, or its
answer is lost after; the time and the identifiers it draws; and what the other tables and the
deployment say. -/
structure Choice where
  failure : Option String := none
  lost : Option String := none
  now : ℤ := 0
  newId : ℕ → String := fun _ => ""
  leaseId : String := ""
  sessionIds : List String := []
  renewed : Bool := true

/-- The tables, and the run of each call of `redeemScheduleRunDispatch` that found one to
redeem. -/
structure DispatchState where
  store : Store
  redemptions : List String

/-- The call on the store that an operation is. -/
def Op.action (choice : Choice) : Op → Option Action
  | .claimScheduleRunActivation scheduleRunId =>
      some (.claimScheduleRunActivation scheduleRunId choice.now 300000)
  | .redeemScheduleRunDispatch scheduleRunId deploymentId =>
      some (.redeemScheduleRunDispatch scheduleRunId deploymentId choice.now)
  | .completeScheduleRun scheduleRunId input =>
      some (.completeScheduleRun scheduleRunId input choice.newId choice.now)
  | _ => none

/-- What a call does when it takes place. -/
def execute (s : DispatchState) (choice : Choice) : (op : Op) → DispatchState × op.Answer
  | .getScheduleRun scheduleRunId => (s, .ok (s.store.getRun scheduleRunId))
  | .getProjectSchedule scheduleId =>
      (s, .ok (s.store.schedules.find? fun row => row.id = scheduleId))
  | .getDeployment deploymentId =>
      (s, .ok (s.store.deployments.find? fun row => row.id = deploymentId))
  | .checkRelease _ => (s, .ok ())
  | .claimScheduleRunActivation scheduleRunId =>
      let claimed := claimScheduleRunActivation s.store scheduleRunId choice.now 300000
      ({ s with store := claimed.1 }, .ok claimed.2)
  | .redeemScheduleRunDispatch scheduleRunId deploymentId =>
      let redeemed := redeemScheduleRunDispatch s.store scheduleRunId deploymentId choice.now
      ({ store := redeemed.1
         redemptions :=
          if redeemed.2.isSome then scheduleRunId :: s.redemptions else s.redemptions },
        .ok redeemed.2)
  | .completeScheduleRun scheduleRunId input =>
      match completeScheduleRun s.store scheduleRunId input choice.newId choice.now with
      | .ok (store, row) => ({ s with store }, .ok row)
      | .error e => (s, .error e)
  | .prepareLaunch _ => (s, .ok ())
  | .ensureDeploymentActive .. => (s, .ok choice.leaseId)
  | .updateDeploymentStatus _ => (s, .ok ())
  | .dispatchSchedule .. => (s, .ok choice.sessionIds)
  | .renewActivationLease _ => (s, .ok choice.renewed)
  | .releaseActivationLease _ => (s, .ok ())
  | .appendLog => (s, .ok ())

/-- A call: it throws, or takes place, and is answered or not. -/
def perform (s : DispatchState) (op : Op) (choice : Choice) :
    Option (DispatchState × op.Answer) :=
  match choice.failure with
  | some e => some (s, .error e)
  | none =>
      let result := execute s choice op
      match choice.lost with
      | some e => some (result.1, .error e)
      | none => some result

/-! ## Programs -/

/-- `await`, where a throw ends the party. -/
def await (op : Op) (next : op.Reply → DispatchProgram) : DispatchProgram :=
  .call op fun
    | .ok reply => next reply
    | .error _ => .done

/-- `await` in a `try`. -/
def attempt (op : Op) (next : op.Reply → DispatchProgram) (caught : String → DispatchProgram) :
    DispatchProgram :=
  .call op fun
    | .ok reply => next reply
    | .error e => caught e

/-- The `finally` of the trigger job: a lease that has not been handed off is released. -/
def finish (leaseId : Option String) (handedOff : Bool) : DispatchProgram :=
  match leaseId with
  | some leaseId =>
      if handedOff then .done else .call (.releaseActivationLease leaseId) fun _ => .done
  | none => .done

/-- The log at the end of the `catch`. -/
def logged (leaseId : Option String) (handedOff : Bool) : DispatchProgram :=
  .call .appendLog fun _ => finish leaseId handedOff

/-- The statuses in which the `catch` leaves a run alone. -/
def isReported (status : ScheduleRunStatus) : Bool :=
  status = .succeeded || status = .failed || status = .dispatchUnknown || status = .skipped

/-- What the `catch` completes a run with that it has read in a status. -/
def caughtInput (status : ScheduleRunStatus) (message : String) : CompleteRunInput where
  status := if status = .dispatching then .dispatchUnknown else .failed
  error := some message
  eveSessionIds := []

/-- The `catch` of the trigger job, once it has read the run again. -/
def caughtCurrent (current : Option ScheduleRun) (leaseId : Option String) (handedOff : Bool)
    (message : String) : DispatchProgram :=
  match current with
  | none => logged leaseId handedOff
  | some current =>
      match current.status, leaseId with
      | .running, some lease =>
          attempt (.renewActivationLease lease)
            (fun renewed => logged leaseId (handedOff || renewed))
            fun _ => finish leaseId handedOff
      | status, _ =>
          if isReported status then logged leaseId handedOff
          else
            attempt (.completeScheduleRun current.id (caughtInput status message))
              (fun _ => logged leaseId handedOff) fun _ => finish leaseId handedOff

/-- The `catch` of the trigger job, after a phase has thrown. -/
def caught (phase : String) (run : ScheduleRun) (leaseId : Option String) (handedOff : Bool)
    (rawMessage : String) : DispatchProgram :=
  attempt (.getScheduleRun run.id)
    (fun current => caughtCurrent current leaseId handedOff s!"{phase} failed: {rawMessage}")
    fun _ => finish leaseId handedOff

/-- The trigger job, once the dispatch is reported: the lease of a run that goes on is extended. -/
def afterReport (run : ScheduleRun) (leaseId : String) (reported : Option ScheduleRun) :
    DispatchProgram :=
  let threw := caught "Scheduler Channel dispatch" run (some leaseId)
  let ended (handedOff : Bool) : DispatchProgram :=
    attempt .appendLog (fun _ => finish (some leaseId) handedOff) (threw handedOff)
  if (reported.any fun row => row.status = .running) then
    attempt (.renewActivationLease leaseId)
      (fun renewed =>
        if renewed then ended true
        else threw false "ScheduleRun activation lease could not be extended.")
      (threw false)
  else ended false

/-- The status of the run that was read, if there is one. -/
def statusOf (run : Option ScheduleRun) : Option ScheduleRunStatus := run.map fun row => row.status

/-- The trigger job from the dispatch on. -/
def dispatchRun (run : ScheduleRun) (leaseId : String) : DispatchProgram :=
  let threw := caught "Scheduler Channel dispatch" run (some leaseId) false
  attempt (.dispatchSchedule run.id run.deploymentId)
    (fun sessionIds =>
      attempt (.getScheduleRun run.id)
        (fun reported =>
          match statusOf reported with
          | some .dispatching =>
              attempt (.completeScheduleRun run.id
                  { status := .succeeded, error := none, eveSessionIds := sessionIds })
                (afterReport run leaseId) threw
          | some .running | some .succeeded | some .failed => afterReport run leaseId reported
          | _ => threw "Scheduler Channel returned without a durable dispatch result.")
        threw)
    threw

/-- The trigger job once it has claimed the activation. -/
def activateRun (run : ScheduleRun) : DispatchProgram :=
  attempt (.prepareLaunch run.deploymentId)
    (fun _ =>
      attempt (.ensureDeploymentActive run.deploymentId run.id)
        (fun leaseId =>
          attempt (.updateDeploymentStatus run.deploymentId) (fun _ => dispatchRun run leaseId)
            (caught "Deployment activation" run (some leaseId) false))
        (caught "Deployment activation" run none false))
    (caught "ScheduleRun validation" run none false)

/-- The trigger job from its claim of the activation on. -/
def claimRun (run : ScheduleRun) : DispatchProgram :=
  let threw := caught "ScheduleRun validation" run none false
  attempt (.claimScheduleRunActivation run.id)
    (fun claimed =>
      match claimed with
      | some run => activateRun run
      | none =>
          attempt (.getScheduleRun run.id)
            (fun current =>
              if (current.any fun row => row.status ≠ .queued) then
                -- A duplicate of a job that has been at work before.
                attempt .appendLog (fun _ => .done) threw
              else threw "ScheduleRun is not eligible for activation.")
            threw)
    threw

/-- The checks of the trigger job on the rows of the schedule and the deployment. -/
def checkTrigger (projectId : String) (schedule : Option ScheduleStore.ProjectSchedule)
    (deployment : Option RuntimeStore.Deployment) : Except String Unit := do
  let schedule ← Outcome.require (schedule.filter fun row => row.projectId = projectId)
    "ScheduleRun does not belong to this project."
  Outcome.ensure schedule.enabled "Schedule is disabled."
  Outcome.ensure (deployment.any fun row => row.projectId = projectId)
    "ScheduleRun Deployment provenance is invalid."

/-- `handleTriggerScheduleJob`. -/
def handleTriggerScheduleJob (scheduleRunId projectId : String) : DispatchProgram :=
  await (.getScheduleRun scheduleRunId) fun run =>
    match run with
    | none => logged none false
    | some run =>
        let threw := caught "ScheduleRun validation" run none false
        attempt (.getProjectSchedule run.scheduleId)
          (fun schedule =>
            attempt (.getDeployment run.deploymentId)
              (fun deployment =>
                match checkTrigger projectId schedule deployment with
                | .error e => threw e
                | .ok () => attempt (.checkRelease run.id) (fun _ => claimRun run) threw)
              threw)
          threw

/-- What a post to `/internal/scheduler/dispatch` asks for. -/
inductive DispatchPhase
  | claim
  | complete (status : CompletionStatus) (error : Option String) (sessionIds : List String)

/-- A post whose credential is in order. The deployment is the credential's. -/
structure DispatchPost where
  scheduleRunId : String
  scheduleKey : String
  deploymentId : String
  phase : DispatchPhase

/-- The error a completion reports. -/
def reportedError (status : CompletionStatus) (error : Option String) : Option String :=
  match status with
  | .succeeded => none
  | .failed => error.or (some "Scheduled handler failed.")
  | .dispatchUnknown =>
      error.or (some "The dispatch outcome is unknown; the scheduled Session may still run.")

/-- `POST /internal/scheduler/dispatch`. -/
def dispatchPost (post : DispatchPost) : DispatchProgram :=
  await (.getScheduleRun post.scheduleRunId) fun run =>
    match run with
    | none => .done
    | some run =>
        await (.getProjectSchedule run.scheduleId) fun schedule =>
          if (schedule.any fun row => row.key = post.scheduleKey) &&
              run.deploymentId = post.deploymentId then
            match post.phase with
            | .claim => await (.redeemScheduleRunDispatch run.id post.deploymentId) fun _ => .done
            | .complete status error sessionIds =>
                if run.status ≠ .dispatching then .done
                else
                  await (.completeScheduleRun run.id
                    { status, error := reportedError status error, eveSessionIds := sessionIds })
                    fun _ => .done
          else .done

/-! ## The system -/

/-- What is launched: a job may be attempted again, and a post sent again. -/
inductive Party
  | triggerJob (scheduleRunId projectId : String)
  | dispatchPost (post : DispatchPost)

/-- The program of a party. -/
def Party.program : Party → DispatchProgram
  | .triggerJob scheduleRunId projectId => handleTriggerScheduleJob scheduleRunId projectId
  | .dispatchPost post => ScheduleDispatch.dispatchPost post

/-- The calls that only the parties make. -/
def ofDispatch : Action → Bool
  | .claimScheduleRunActivation .. => true
  | .redeemScheduleRunDispatch .. => true
  | .completeScheduleRun .. => true
  | _ => false

/-- Any other call of the store: runs are created, events are ingested, sweeps fail executions,
telemetry is pruned. -/
def meanwhile (s : DispatchState) (a : Action) : Option DispatchState :=
  if ofDispatch a then none else some { s with store := Telemetry.perform s.store a }

/-- The parties over one store. -/
def actors : Actors DispatchState Party Op Op.Answer Choice Action where
  perform := perform
  program := Party.program
  admits _ _ := true
  outside := meanwhile

abbrev DispatchPool : Type := Pool DispatchState Party Op Op.Answer

/-- The system, from a store without any of the rows it writes. -/
def machine : Machine DispatchPool (PoolAction Party Choice Action) :=
  actors.machine fun s => s.store.Initial ∧ s.redemptions = []

/-! ## What a step does to the store -/

/-- The call on the store that a step of the system is, if it is one. -/
def storeCall (pool : DispatchPool) : PoolAction Party Choice Action → Option Action
  | .call index choice =>
      if choice.failure.isSome then none
      else (pool.tasks[index]?.bind fun task => task.2.head).bind fun op => op.action choice
  | .outside a => some a
  | _ => none

theorem execute_store (s : DispatchState) (choice : Choice) (op : Op) :
    (execute s choice op).1.store =
      ((op.action choice).map (Telemetry.perform s.store)).getD s.store := by
  cases op with
  | completeScheduleRun scheduleRunId input =>
      show _ = Telemetry.perform s.store _
      rw [Telemetry.perform, Telemetry.call, execute]
      cases completeScheduleRun s.store scheduleRunId input choice.newId choice.now with
      | ok result => rfl
      | error e => rfl
  | _ => rfl

/-- Only a redemption that returns a row is recorded. -/
theorem execute_redemptions (s : DispatchState) (choice : Choice) (op : Op) :
    (execute s choice op).1.redemptions = s.redemptions ∨
      ∃ scheduleRunId deploymentId row, op = .redeemScheduleRunDispatch scheduleRunId deploymentId ∧
        (redeemScheduleRunDispatch s.store scheduleRunId deploymentId choice.now).2 = some row ∧
        (execute s choice op).1.redemptions = scheduleRunId :: s.redemptions := by
  cases op with
  | redeemScheduleRunDispatch scheduleRunId deploymentId =>
      rw [execute]
      dsimp only
      cases hredeemed :
          (redeemScheduleRunDispatch s.store scheduleRunId deploymentId choice.now).2 with
      | none => exact Or.inl rfl
      | some row => exact Or.inr ⟨scheduleRunId, deploymentId, row, rfl, hredeemed, rfl⟩
  | completeScheduleRun scheduleRunId input =>
      rw [execute]
      split <;> exact Or.inl rfl
  | _ => exact Or.inl rfl

theorem perform_eq_some {s t : DispatchState} {op : Op} {choice : Choice} {answer : op.Answer}
    (hperform : perform s op choice = some (t, answer)) :
    t = if choice.failure.isSome then s else (execute s choice op).1 := by
  rw [perform] at hperform
  cases hfailure : choice.failure with
  | some e =>
      rw [hfailure] at hperform
      cases hperform
      rfl
  | none =>
      rw [hfailure] at hperform
      dsimp only at hperform
      split at hperform <;> exact (Prod.mk.inj (Option.some.inj hperform)).1.symm

/-- **Steps.** A step of the system is one call of the store, or leaves the store alone. -/
theorem step_store {pool after : DispatchPool} {action : PoolAction Party Choice Action}
    (hstep : machine.step pool action = some after) :
    after.state.store =
      ((storeCall pool action).map (Telemetry.perform pool.state.store)).getD pool.state.store := by
  rcases Actors.step_cases hstep with ⟨_, rfl, _, rfl⟩ |
    ⟨index, choice, label, op, next, state, answer, rfl, htask, hperform, rfl⟩ |
    ⟨_, _, _, rfl, _, rfl⟩ | ⟨a, state, rfl, hmeanwhile, rfl⟩
  · rfl
  · obtain rfl := perform_eq_some hperform
    rw [storeCall, htask]
    split
    · rfl
    · exact execute_store pool.state choice op
  · rfl
  · have hmeanwhile : meanwhile pool.state a = some state := hmeanwhile
    rw [meanwhile] at hmeanwhile
    split at hmeanwhile <;> cases hmeanwhile
    rfl

/-- What every call of the store keeps, the system keeps. -/
theorem step_keyed {pool after : DispatchPool} {action : PoolAction Party Choice Action}
    (hkeyed : Keyed pool.state.store) (hstep : machine.step pool action = some after) :
    Keyed after.state.store := by
  rw [step_store hstep]
  cases storeCall pool action with
  | none => exact hkeyed
  | some a => exact perform_keyed hkeyed

/-! ## A dispatch to run -/

/-- A project with a schedule, and nothing at work. -/
def samplePool : DispatchPool where
  state := { store := sampleStore, redemptions := [] }
  tasks := []

theorem samplePool_init : machine.init samplePool := ⟨⟨sampleStore_initial, rfl⟩, rfl⟩

/-- A post about the run of the schedule. -/
def samplePost (phase : DispatchPhase) : DispatchPost where
  scheduleRunId := "run"
  scheduleKey := "daily"
  deploymentId := "deployment"
  phase := phase

/-- The next calls of a party, each at a time. -/
def sampleCalls (index : ℕ) (times : List ℤ) : List (PoolAction Party Choice Action) :=
  times.map fun now => .call index { now := now, newId := fun n => "session-" ++ toString n }

/-- A run is created, activated by a trigger job and redeemed by a post. -/
def sampleRedemption : List (PoolAction Party Choice Action) :=
  .outside (.createScheduleRun "run" "daily" "deployment" .cron 0) ::
    .launch (.triggerJob "run" "shop") :: sampleCalls 0 [1, 1, 1, 1, 1] ++
    .launch (.dispatchPost (samplePost .claim)) :: sampleCalls 1 [2, 2, 2]

end Eveland.ScheduleDispatch
