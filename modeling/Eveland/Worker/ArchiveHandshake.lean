/-
# Archive and activation exclude each other

The archive publishes its claim and then looks for leases; an activation publishes its lease
and then looks at the status. Whichever comes second sees the other. So once an activation has
passed its check, nothing is removed for as long as its lease is neither released nor expired.
-/

import Eveland.Store.InstanceChanges
import Eveland.Worker.RuntimeActors

namespace Eveland.RuntimeActors

open RuntimeStore

/-! ## The stages of an archive -/

/-- Where an archive job is. -/
inductive Stage
  | read (automatic : Bool)
  | claim (status : DeploymentStatus)
  | finished
  | claimed (prior : DeploymentStatus)
  | retention (prior : DeploymentStatus)
  | protection (prior : DeploymentStatus) (now : ℤ)
  | remove (prior : DeploymentStatus)
  | release (prior : DeploymentStatus)
  | build (prior : DeploymentStatus)
  | finish (prior : DeploymentStatus)
  | revert (prior : DeploymentStatus)

namespace Stage

/-- What is left of the archive of a deployment. -/
def program (deploymentId : String) : Stage → RuntimeProgram
  | .read automatic => archiveDeployment deploymentId automatic
  | .claim status => archiveClaim deploymentId status
  | .finished => .done
  | .claimed prior => archiveClaimed deploymentId prior
  | .retention prior => archiveRetention deploymentId prior
  | .protection prior now => archiveProtection deploymentId prior now
  | .remove prior => archiveRemove deploymentId prior
  | .release prior => archiveRelease deploymentId prior
  | .build prior => archiveBuild deploymentId prior
  | .finish prior => archiveFinish deploymentId prior
  | .revert prior => archiveRevert deploymentId prior

/-- Whether the archive relies on its claim. -/
def holds : Stage → Bool
  | .claimed _ | .retention _ | .protection _ _ | .remove _ | .release _ | .build _ => true
  | _ => false

/-- Whether the archive is free to remove. -/
def removes : Stage → Bool
  | .remove _ | .release _ | .build _ => true
  | _ => false

/-- The time at which the check of the retention began has come. -/
def timely (clock : ℤ) : Stage → Prop
  | .protection _ now => now ≤ clock
  | _ => True

theorem holds_of_removes {stage : Stage} (hremoves : stage.removes = true) :
    stage.holds = true := by
  cases stage <;> first | rfl | cases hremoves

theorem timely.mono {clock later : ℤ} {stage : Stage} (htimely : stage.timely clock)
    (hle : clock ≤ later) : stage.timely later := by
  cases stage with
  | protection prior now => exact le_trans htimely hle
  | _ => trivial

end Stage

/-! ## Deployments -/

/-- The deployment is claimed by an archive. -/
def IsArchiving (s : Store) (deploymentId : String) : Prop :=
  ∀ d ∈ s.deployments, d.id = deploymentId → d.status = .archiving

/-- An activation does not pass its check of a deployment that is claimed. -/
theorem IsArchiving.refuses {s : Store} {deploymentId : String}
    (harchiving : IsArchiving s deploymentId) :
    refusesActivation (s.getDeployment deploymentId) = true := by
  cases hfound : s.getDeployment deploymentId with
  | none => rfl
  | some d =>
      have hid : d.id = deploymentId := by simpa using List.find?_some hfound
      simp [refusesActivation, harchiving d (List.mem_of_find?_eq_some hfound) hid]

/-- Claims of other deployments, and of this one where the statuses a transition starts from
do not include `archiving`. -/
theorem IsArchiving.transition {s : Store} {deploymentId other : String}
    {target : DeploymentStatus} {sources : List DeploymentStatus}
    (harchiving : IsArchiving s deploymentId)
    (hkeeps : other ≠ deploymentId ∨ .archiving ∉ sources ∨ target = .archiving) :
    IsArchiving (transitionDeploymentStatus s other target sources).1 deploymentId := by
  intro d hd hid
  rcases Table.mem_updateWhere.mp hd with ⟨hold, _⟩ | ⟨old, hold, hselected, rfl⟩
  · exact harchiving d hold hid
  · simp only [Bool.and_eq_true, decide_eq_true_eq, List.contains_iff_mem] at hselected
    rcases hkeeps with hne | hsources | htarget
    · exact absurd (hselected.1.symm.trans hid) hne
    · rw [harchiving old hold hid] at hselected
      exact absurd hselected.2 hsources
    · exact htarget

/-- A transition that succeeds leaves the deployment claimed. -/
theorem isArchiving_of_claim {s : Store} {deploymentId : String} {sources : List DeploymentStatus}
    (hunique : Table.UniqueOn Deployment.id s.deployments)
    (hclaimed : (transitionDeploymentStatus s deploymentId .archiving sources).2 = true) :
    IsArchiving (transitionDeploymentStatus s deploymentId .archiving sources).1 deploymentId := by
  intro d hd hid
  obtain ⟨found, hfound, hmatch⟩ := List.any_eq_true.mp hclaimed
  rcases Table.mem_updateWhere.mp hd with ⟨hold, hother⟩ | ⟨old, _, _, rfl⟩
  · have hsame : found.id = deploymentId := by
      simpa using (Bool.and_eq_true_iff.mp hmatch).1
    rw [hunique.eq hold hfound (hid.trans hsame.symm), hmatch] at hother
    cases hother
  · rfl

/-! ## Calls that leave claims alone -/

/-- A call that neither takes a deployment out of `archiving` nor removes anything. -/
def Op.IsHarmless : Op → Prop
  | .transitionDeploymentStatus _ _ sources => .archiving ∉ sources
  | .host (.removeRelease _) => False
  | .host (.removeBuild _) => False
  | _ => True

section Uses

variable {allowed : Op → Prop}

@[simp]
theorem uses_await {op : Op} {next : op.Reply → RuntimeProgram} :
    (await op next).Uses allowed ↔ allowed op ∧ ∀ reply, (next reply).Uses allowed := by
  constructor
  · rintro ⟨hop, hnext⟩
    exact ⟨hop, fun reply => hnext (.ok reply)⟩
  · rintro ⟨hop, hnext⟩
    refine ⟨hop, fun answer => ?_⟩
    cases answer with
    | ok reply => exact hnext reply
    | error e => trivial

@[simp]
theorem uses_attempt {op : Op} {next : op.Reply → RuntimeProgram}
    {caught : String → RuntimeProgram} :
    (attempt op next caught).Uses allowed ↔
      allowed op ∧ (∀ reply, (next reply).Uses allowed) ∧ ∀ e, (caught e).Uses allowed := by
  constructor
  · rintro ⟨hop, hnext⟩
    exact ⟨hop, fun reply => hnext (.ok reply), fun e => hnext (.error e)⟩
  · rintro ⟨hop, hnext, hcaught⟩
    refine ⟨hop, fun answer => ?_⟩
    cases answer with
    | ok reply => exact hnext reply
    | error e => exact hcaught e

@[simp]
theorem uses_regardless {op : Op} {next : RuntimeProgram} :
    (regardless op next).Uses allowed ↔ allowed op ∧ next.Uses allowed := by
  constructor
  · rintro ⟨hop, hnext⟩
    exact ⟨hop, hnext (.error "")⟩
  · rintro ⟨hop, hnext⟩
    exact ⟨hop, fun _ => hnext⟩

@[simp]
theorem uses_ite {c : Prop} [Decidable c] {first second : RuntimeProgram} :
    (if c then first else second).Uses allowed ↔
      (c → first.Uses allowed) ∧ (¬c → second.Uses allowed) := by
  split <;> simp [*]

end Uses

@[simp]
theorem writeStatus_harmless (id : String) (status : RuntimeInstanceStatus) :
    (writeStatus id status).IsHarmless := trivial

@[simp]
theorem settleDeploymentStatus_harmless (deploymentId : String) (status : DeploymentStatus) :
    (settleDeploymentStatus deploymentId status).IsHarmless := by
  simp [settleDeploymentStatus, Op.IsHarmless]

theorem launchInstance_harmless {deploymentId id : String} {endpointPort : Option ℕ}
    {returned threw : RuntimeProgram} (hreturned : returned.Uses Op.IsHarmless)
    (hthrew : threw.Uses Op.IsHarmless) :
    (launchInstance deploymentId id endpointPort returned threw).Uses Op.IsHarmless := by
  cases endpointPort <;> simp [launchInstance, writeStatus, Op.IsHarmless, hreturned, hthrew]

theorem startRuntimeInstance_harmless {deploymentId id : String} {returned threw : RuntimeProgram}
    (hreturned : returned.Uses Op.IsHarmless) (hthrew : threw.Uses Op.IsHarmless) :
    (startRuntimeInstance deploymentId id returned threw).Uses Op.IsHarmless := by
  refine uses_attempt.mpr ⟨trivial, fun current => ?_, fun _ => hthrew⟩
  cases current.filter fun row => row.deploymentId = deploymentId with
  | none => exact hthrew
  | some row =>
      cases hstatus : row.status with
      | ready => simpa [hstatus] using hreturned
      | starting => simpa [hstatus] using launchInstance_harmless hreturned hthrew
      | _ => simpa [hstatus] using hthrew

theorem awaitReady_harmless (id leaseId : String) (polls : ℕ) :
    (awaitReady id leaseId polls).Uses Op.IsHarmless := by
  induction polls with
  | zero => simp [awaitReady, Op.IsHarmless]
  | succ polls ih =>
      refine uses_attempt.mpr ⟨trivial, fun current => ?_, fun _ => by simp [Op.IsHarmless]⟩
      split
      · exact Program.uses_done _
      · exact ih
      · exact ih
      · simp [Op.IsHarmless]

theorem ensureDeploymentActive_harmless (deploymentId : String) (kind : LeaseKind)
    (ownerId : String) (leaseTtlMs : ℤ) (polls attempts : ℕ) :
    (ensureDeploymentActive deploymentId kind ownerId leaseTtlMs polls attempts).Uses
      Op.IsHarmless := by
  induction attempts with
  | zero => exact Program.uses_done _
  | succ attempts ih =>
      simp only [ensureDeploymentActive, activationRecheck, activationRefused, activationPassed,
        uses_await, uses_attempt, uses_regardless, uses_ite, Program.uses_done]
      refine ⟨trivial, fun now => ⟨trivial, fun claim => ⟨trivial, fun deployment => ?_⟩, ?_⟩⟩
      · refine ⟨fun _ => ?_, fun _ => ?_⟩
        · simp [writeStatus, Op.IsHarmless]
        · exact ⟨fun _ => trivial, fun _ =>
            ⟨fun _ => startRuntimeInstance_harmless trivial (by simp [writeStatus, Op.IsHarmless]),
              fun _ => awaitReady_harmless _ _ _⟩⟩
      · exact fun e => ⟨fun _ => ih, fun _ => trivial⟩

theorem ensureDeploymentRunning_harmless (deploymentId runtimeInstanceId : String) :
    (ensureDeploymentRunning deploymentId runtimeInstanceId).Uses Op.IsHarmless := by
  refine uses_attempt.mpr ⟨trivial, fun deployment => ?_, fun _ => by simp⟩
  refine uses_attempt.mpr ⟨trivial, fun row => ?_, fun _ => by simp⟩
  cases deployment with
  | none => simp
  | some deployment =>
      simp only [uses_ite, uses_attempt]
      exact ⟨fun _ => by simp, fun _ => ⟨fun _ => by simp, fun _ => ⟨trivial,
        fun _ => startRuntimeInstance_harmless (by simp) (by simp), fun _ => by simp⟩⟩⟩

theorem reapInstances_harmless (now : ℤ) (rows : List RuntimeInstance) :
    (reapInstances now rows).Uses Op.IsHarmless := by
  induction rows with
  | nil => exact Program.uses_done _
  | cons idle rest ih =>
      refine uses_await.mpr ⟨trivial, fun deployment => ?_⟩
      cases deployment <;> simp [Op.IsHarmless, ih]

theorem retireInstances_harmless {retired caught : RuntimeProgram}
    (hretired : retired.Uses Op.IsHarmless) (hcaught : caught.Uses Op.IsHarmless)
    (rows : List RuntimeInstance) :
    (retireInstances retired caught rows).Uses Op.IsHarmless := by
  induction rows with
  | nil => exact hretired
  | cons row rest ih => simp [retireInstances, Op.IsHarmless, ih, hcaught]

theorem restartDeployment_harmless (deploymentId : String) :
    (restartDeployment deploymentId).Uses Op.IsHarmless := by
  refine uses_await.mpr ⟨trivial, fun deployment => ?_⟩
  simp only [uses_ite, uses_await, uses_attempt]
  refine ⟨fun _ => trivial, fun _ => ⟨trivial, fun _ => ⟨trivial, fun _ => ⟨trivial, ?_, ?_⟩⟩⟩⟩
  · exact retireInstances_harmless (by simp [settleDeploymentStatus, Op.IsHarmless]) (by simp)
  · simp

theorem reconcileInstances_harmless (now : ℤ) (rows : List RuntimeInstance) :
    (reconcileInstances now rows).Uses Op.IsHarmless := by
  induction rows with
  | nil => exact Program.uses_done _
  | cons row rest ih =>
      refine uses_await.mpr ⟨trivial, fun deployment => ?_⟩
      cases deployment with
      | none => simp [Op.IsHarmless, ih]
      | some deployment =>
          refine uses_await.mpr ⟨trivial, fun status => ?_⟩
          cases status <;> simp [Op.IsHarmless, ih]

theorem recoverInstances_harmless (now : ℤ) (rows : List RuntimeInstance) :
    (recoverInstances now rows).Uses Op.IsHarmless := by
  induction rows with
  | nil => exact Program.uses_done _
  | cons row rest ih => simp [recoverInstances, Op.IsHarmless, ih]

theorem adoptOrphan_harmless (deploymentId : String) :
    (adoptOrphan deploymentId).Uses Op.IsHarmless := by
  refine uses_await.mpr ⟨trivial, fun now => uses_await.mpr ⟨trivial, fun deployment => ?_⟩⟩
  cases deployment <;> simp [Op.IsHarmless]

/-- Only an archive moves a deployment out of `archiving` and removes what it left. -/
theorem Party.program_harmless {party : Party} (hparty : ∀ id, party.archives id = false) :
    party.program.Uses Op.IsHarmless := by
  cases party with
  | acquireLease input => simp [Party.program, Op.IsHarmless]
  | renewLease leaseId leaseTtlMs => simp [Party.program, Op.IsHarmless]
  | releaseLease leaseId => simp [Party.program, Op.IsHarmless]
  | ensureDeploymentActive deploymentId kind ownerId leaseTtlMs polls attempts =>
      exact ensureDeploymentActive_harmless deploymentId kind ownerId leaseTtlMs polls attempts
  | ensureDeploymentRunning deploymentId runtimeInstanceId =>
      exact ensureDeploymentRunning_harmless deploymentId runtimeInstanceId
  | reapIdleDeployments idleTtlMs =>
      exact uses_await.mpr ⟨trivial, fun now => uses_await.mpr
        ⟨trivial, fun rows => reapInstances_harmless now rows⟩⟩
  | restartDeployment deploymentId => exact restartDeployment_harmless deploymentId
  | reconcileRuntimeInstances =>
      exact uses_await.mpr ⟨trivial, fun now => uses_await.mpr
        ⟨trivial, fun rows => reconcileInstances_harmless now rows⟩⟩
  | recoverStartingRuntimeInstances =>
      exact uses_await.mpr ⟨trivial, fun now => uses_await.mpr
        ⟨trivial, fun rows => recoverInstances_harmless now rows⟩⟩
  | adoptOrphan deploymentId => exact adoptOrphan_harmless deploymentId
  | archiveDeployment deploymentId automatic =>
      have := hparty deploymentId
      simp [Party.archives] at this

/-! ## What a call does to deployments -/

theorem acquireActivationLease_deployments {s t : Store} {input : AcquireInput}
    {instanceId leaseId : String} {claim : ActivationLeaseClaim}
    (hacquire : acquireActivationLease s input instanceId leaseId = .ok (t, claim)) :
    t.deployments = s.deployments := by
  obtain ⟨_, middle, rfl, _, ⟨rfl, _⟩ | ⟨_, hinsert⟩⟩ := acquireActivationLease_spec hacquire
  · rfl
  · rw [(insertInstance_eq_ok.mp hinsert).2]
    rfl

theorem adoptRuntimeInstance_deployments {s t : Store} {deploymentId instanceId : String}
    {endpointPort : ℕ} {now : ℤ} {adopted : Option RuntimeInstance}
    (hadopt : adoptRuntimeInstance s deploymentId endpointPort instanceId now = .ok (t, adopted)) :
    t.deployments = s.deployments := by
  simp only [adoptRuntimeInstance] at hadopt
  split_ifs at hadopt
  · cases hadopt
    rfl
  · cases hadopt
    rfl
  · cases hadopt
    rfl
  · obtain ⟨inserted, hinsert, hresult⟩ := Outcome.bind_eq_ok.mp hadopt
    cases hresult
    rw [(insertInstance_eq_ok.mp hinsert).2]

theorem updateRuntimeInstance_deployments {s t : Store} {id : String} {update : InstanceUpdate}
    {now : ℤ} {updated : Option RuntimeInstance}
    (hupdate : updateRuntimeInstance s id update now = .ok (t, updated)) :
    t.deployments = s.deployments := by
  simp only [updateRuntimeInstance] at hupdate
  split at hupdate
  · cases hupdate
    rfl
  · split at hupdate <;> cases hupdate
    rfl

theorem reserveRuntimeInstancePort_deployments (s : Store) (id : String) (port : ℕ) :
    (reserveRuntimeInstancePort s id port).1.deployments = s.deployments := by
  unfold reserveRuntimeInstancePort
  split
  · rfl
  · split <;> rfl

/-- A commit of a result that leaves the deployments alone. -/
theorem RuntimeState.commit_deployments {α : Type} {s t : RuntimeState}
    {answer : Except String α} {result : Except String (Store × α)}
    (hresult : ∀ store value, result = .ok (store, value) →
      store.deployments = s.store.deployments)
    (hcommit : s.commit result = (t, answer)) :
    t.clock = s.clock ∧ t.store.deployments = s.store.deployments := by
  rcases commit_eq hcommit with ⟨rfl, _⟩ | ⟨store, value, hok, rfl, _⟩
  · exact ⟨rfl, rfl⟩
  · exact ⟨rfl, hresult store value hok⟩

/-- A call changes deployments by a transition of one of them, or not at all; and it takes no
time. -/
theorem perform_deployments {s t : RuntimeState} {op : Op} {choice : Choice} {answer : op.Answer}
    (hperform : perform s op choice = some (t, answer)) :
    t.clock = s.clock ∧
      (t.store.deployments = s.store.deployments ∨
        ∃ id target sources, op = .transitionDeploymentStatus id target sources ∧
          t.store = (transitionDeploymentStatus s.store id target sources).1) := by
  unfold perform at hperform
  cases hfailure : choice.failure with
  | some e =>
      rw [hfailure] at hperform
      cases hperform
      exact ⟨rfl, Or.inl rfl⟩
  | none =>
      rw [hfailure] at hperform
      have hexecute := Option.some.inj hperform
      have hframe : (t.clock = s.clock ∧ t.store.deployments = s.store.deployments) ∨
          ∃ id target sources, op = .transitionDeploymentStatus id target sources ∧
            t = { s with store := (transitionDeploymentStatus s.store id target sources).1 } := by
        cases op with
        | acquireActivationLease input =>
            exact Or.inl (RuntimeState.commit_deployments
              (fun _ _ hok => acquireActivationLease_deployments hok) hexecute)
        | adoptRuntimeInstance deploymentId endpointPort now =>
            exact Or.inl (RuntimeState.commit_deployments
              (fun _ _ hok => adoptRuntimeInstance_deployments hok) hexecute)
        | updateRuntimeInstance id update now =>
            exact Or.inl (RuntimeState.commit_deployments
              (fun _ _ hok => updateRuntimeInstance_deployments hok) hexecute)
        | reserveInstancePort id =>
            refine Or.inl (RuntimeState.commit_deployments (fun store port hok => ?_) hexecute)
            split at hok <;> cases hok
            exact reserveRuntimeInstancePort_deployments s.store id choice.port
        | transitionDeploymentStatus deploymentId target sources =>
            cases hexecute
            exact Or.inr ⟨deploymentId, target, sources, rfl, rfl⟩
        | _ =>
            cases hexecute
            exact Or.inl ⟨rfl, rfl⟩
      rcases hframe with ⟨hclock, hsame⟩ | ⟨id, target, sources, hop, rfl⟩
      · exact ⟨hclock, Or.inl hsame⟩
      · exact ⟨rfl, Or.inr ⟨id, target, sources, hop, rfl⟩⟩

/-! ## The archive jobs -/

/-- An archive job of a deployment is at a stage of its program. Where it relies on its claim
the deployment is claimed, and it is not free to remove a deployment that `P` keeps. -/
def AtStage (P : String → Prop) (s : RuntimeState) (deploymentId : String)
    (program : RuntimeProgram) : Prop :=
  ∃ stage : Stage, program = stage.program deploymentId ∧
    (stage.holds = true → IsArchiving s.store deploymentId) ∧ stage.timely s.clock ∧
    (P deploymentId → stage.removes = false)

namespace AtStage

variable {P : String → Prop} {s t : RuntimeState} {deploymentId : String}
  {program : RuntimeProgram}

/-- A stage that relies on no claim. -/
theorem idle (stage : Stage) (hholds : stage.holds = false) :
    AtStage P s deploymentId (stage.program deploymentId) := by
  refine ⟨stage, rfl, fun h => ?_, ?_, fun _ => ?_⟩
  · rw [hholds] at h
    cases h
  · cases stage with
    | protection prior now => cases hholds
    | _ => trivial
  · cases hremoves : stage.removes with
    | false => rfl
    | true => rw [Stage.holds_of_removes hremoves] at hholds; cases hholds

theorem done : AtStage P s deploymentId .done := idle .finished rfl

/-- A stage with the claim held. -/
theorem claimed (stage : Stage) (harchiving : IsArchiving s.store deploymentId)
    (htimely : stage.timely s.clock) (hkept : P deploymentId → stage.removes = false) :
    AtStage P s deploymentId (stage.program deploymentId) :=
  ⟨stage, rfl, fun _ => harchiving, htimely, hkept⟩

/-- An archive stays at its stage while time passes and its claim is left alone. -/
theorem mono (hstage : AtStage P s deploymentId program) (hclock : s.clock ≤ t.clock)
    (hkeeps : IsArchiving s.store deploymentId → IsArchiving t.store deploymentId) :
    AtStage P t deploymentId program := by
  obtain ⟨stage, hprogram, hholds, htimely, hremoves⟩ := hstage
  exact ⟨stage, hprogram, fun h => hkeeps (hholds h), htimely.mono hclock, hremoves⟩

end AtStage

theorem perform_cases {s t : RuntimeState} {op : Op} {choice : Choice} {answer : op.Answer}
    (hperform : perform s op choice = some (t, answer)) :
    (t = s ∧ ∃ e, answer = .error e) ∨ execute s choice op = (t, answer) := by
  unfold perform at hperform
  split at hperform
  · next e _ =>
      cases hperform
      exact Or.inl ⟨rfl, e, rfl⟩
  · exact Or.inr (Option.some.inj hperform)

/-- Calls to the host leave the store alone. -/
theorem perform_host {s t : RuntimeState} {call : HostCall} {choice : Choice}
    {answer : (Op.host call).Answer} (hperform : perform s (.host call) choice = some (t, answer)) :
    t = s := by
  rcases perform_cases hperform with ⟨rfl, _⟩ | hexecute
  · rfl
  · cases hexecute
    rfl

/-- A lease that is active is active at every earlier time. -/
theorem hasActiveActivationLeases_mono {s : Store} {deploymentId : String} {now clock : ℤ}
    (hle : now ≤ clock) (hactive : s.hasActiveActivationLeases deploymentId clock = true) :
    s.hasActiveActivationLeases deploymentId now = true := by
  simp only [Store.hasActiveActivationLeases, List.any_eq_true, Bool.and_eq_true,
    decide_eq_true_eq, ActivationLease.isActive] at hactive ⊢
  obtain ⟨lease, hlease, hdeployment, hopen, hexpires⟩ := hactive
  exact ⟨lease, hlease, hdeployment, hopen, lt_of_le_of_lt hle hexpires⟩

/-- **One call of an archive.** It goes on to a stage of its program again. It becomes free to
remove only past the check of the retention, which an active lease does not let through. -/
theorem AtStage.call {P : String → Prop} {s t : RuntimeState} {deploymentId : String} {op : Op}
    {next : op.Answer → RuntimeProgram} {choice : Choice} {answer : op.Answer}
    (hunique : Table.UniqueOn Deployment.id s.store.deployments)
    (hheld : P deploymentId → s.store.hasActiveActivationLeases deploymentId s.clock = true)
    (hstage : AtStage P s deploymentId (.call op next))
    (hperform : perform s op choice = some (t, answer)) :
    AtStage P t deploymentId (next answer) := by
  obtain ⟨stage, hprogram, hholds, htimely, hremoves⟩ := hstage
  have hrevert : ∀ prior, AtStage P t deploymentId (archiveRevert deploymentId prior) :=
    fun prior => AtStage.idle (.revert prior) rfl
  cases stage with
  | finished => cases hprogram
  | read automatic =>
      cases hprogram
      rcases perform_cases hperform with ⟨_, e, rfl⟩ | hexecute
      · exact AtStage.done
      · cases hexecute
        show AtStage P s deploymentId _
        cases s.store.getDeployment deploymentId with
        | none => exact AtStage.done
        | some deployment =>
            simp only []
            split_ifs
            · exact AtStage.done
            · exact AtStage.idle (.claim deployment.status) rfl
            · exact AtStage.done
  | claim status =>
      cases hprogram
      rcases perform_cases hperform with ⟨_, e, rfl⟩ | hexecute
      · exact AtStage.done
      · cases hexecute
        show AtStage P _ deploymentId (if _ then _ else _)
        split
        · next hclaimed =>
            exact AtStage.claimed (.claimed (priorStatus status))
              (isArchiving_of_claim hunique hclaimed) trivial fun _ => rfl
        · exact AtStage.done
  | claimed prior =>
      cases hprogram
      rcases perform_cases hperform with ⟨_, e, rfl⟩ | hexecute
      · exact hrevert prior
      · cases hexecute
        exact AtStage.claimed (.retention prior) (hholds rfl) trivial fun _ => rfl
  | retention prior =>
      cases hprogram
      rcases perform_cases hperform with ⟨_, e, rfl⟩ | hexecute
      · exact hrevert prior
      · cases hexecute
        exact AtStage.claimed (.protection prior s.clock) (hholds rfl) le_rfl fun _ => rfl
  | protection prior now =>
      cases hprogram
      rcases perform_cases hperform with ⟨_, e, rfl⟩ | hexecute
      · exact hrevert prior
      · cases hexecute
        show AtStage P _ deploymentId (if _ then _ else _)
        split
        · exact hrevert prior
        · next hfree =>
            -- Nothing that is kept gets here: its lease protects it.
            refine AtStage.claimed (.remove prior) (hholds rfl) trivial fun hP => ?_
            rw [hasActiveActivationLeases_mono htimely (hheld hP)] at hfree
            exact absurd rfl hfree
  | remove prior =>
      have hfree : ¬P deploymentId := fun hP => by cases hremoves hP
      simp only [Stage.program, archiveRemove] at hprogram
      split at hprogram
      · cases hprogram
        obtain rfl := perform_host hperform
        cases answer with
        | error e => exact hrevert prior
        | ok reply =>
            exact AtStage.claimed (.release prior) (hholds rfl) trivial fun hP => absurd hP hfree
      · cases hprogram
        obtain rfl := perform_host hperform
        cases answer with
        | error e => exact hrevert prior
        | ok reply =>
            exact AtStage.claimed (.build prior) (hholds rfl) trivial fun hP => absurd hP hfree
  | release prior =>
      have hfree : ¬P deploymentId := fun hP => by cases hremoves hP
      cases hprogram
      obtain rfl := perform_host hperform
      cases answer with
      | error e => exact hrevert prior
      | ok reply =>
          exact AtStage.claimed (.build prior) (hholds rfl) trivial fun hP => absurd hP hfree
  | build prior =>
      cases hprogram
      cases answer with
      | error e => exact hrevert prior
      | ok reply => exact AtStage.idle (.finish prior) rfl
  | finish prior =>
      cases hprogram
      cases answer with
      | error e => exact hrevert prior
      | ok archived =>
          show AtStage P t deploymentId (if archived then _ else _)
          split
          · exact AtStage.done
          · exact hrevert prior
  | revert prior =>
      cases hprogram
      exact AtStage.done

/-- The only deployment an archive moves is its own. -/
theorem AtStage.transitions {P : String → Prop} {s : RuntimeState}
    {deploymentId id : String} {target : DeploymentStatus} {sources : List DeploymentStatus}
    {next : (Op.transitionDeploymentStatus id target sources).Answer → RuntimeProgram}
    (hstage : AtStage P s deploymentId (.call (.transitionDeploymentStatus id target sources) next)) :
    id = deploymentId := by
  obtain ⟨stage, hprogram, _⟩ := hstage
  cases stage with
  | remove prior =>
      simp only [Stage.program, archiveRemove] at hprogram
      split at hprogram <;> cases hprogram
  | claim status => cases hprogram; rfl
  | finish prior => cases hprogram; rfl
  | revert prior => cases hprogram; rfl
  | _ => cases hprogram

/-- The only deployment whose files an archive removes is its own, and only when it is free
to. -/
theorem AtStage.removes_of_head {P : String → Prop} {s : RuntimeState}
    {deploymentId id : String} {program : RuntimeProgram}
    (hstage : AtStage P s deploymentId program)
    (hhead : program.head = some (.host (.removeRelease id)) ∨
      program.head = some (.host (.removeBuild id))) :
    id = deploymentId ∧ ¬P deploymentId := by
  obtain ⟨stage, rfl, _, _, hremoves⟩ := hstage
  have hfree : stage.removes = true → ¬P deploymentId := fun h hP => by
    rw [hremoves hP] at h
    cases h
  cases stage with
  | remove prior =>
      refine ⟨?_, hfree rfl⟩
      simp only [Stage.program, archiveRemove] at hhead
      split at hhead
      · rcases hhead with h | h <;> cases h
      · rcases hhead with h | h <;> cases h
        rfl
  | release prior => exact ⟨by rcases hhead with h | h <;> cases h; rfl, hfree rfl⟩
  | build prior => exact ⟨by rcases hhead with h | h <;> cases h; rfl, hfree rfl⟩
  | _ => rcases hhead with h | h <;> cases h

/-! ## The pool -/

/-- The calls a party may come to make. -/
def MayCall (party : Party) (op : Op) : Prop :=
  op.IsHarmless ∨ ∃ deploymentId, party.archives deploymentId = true

theorem Party.program_mayCall (party : Party) : party.program.Uses (MayCall party) := by
  by_cases hparty : ∃ deploymentId, party.archives deploymentId = true
  · exact Program.uses_of_forall (fun _ => Or.inr hparty) _
  · refine (Party.program_harmless fun id => ?_).mono fun _ hop => Or.inl hop
    simpa using fun h => hparty ⟨id, h⟩

/-- An archive of the deployment is under way here. -/
def Works (deploymentId : String) (tasks : List (Party × RuntimeProgram)) (index : ℕ) : Prop :=
  ∃ task, tasks[index]? = some task ∧ task.1.archives deploymentId = true ∧
    task.2.head.isSome = true

/-- At most one archive of a deployment is under way. -/
def Alone (tasks : List (Party × RuntimeProgram)) : Prop :=
  ∀ deploymentId i j, Works deploymentId tasks i → Works deploymentId tasks j → i = j

theorem Alone.set {tasks : List (Party × RuntimeProgram)} {index : ℕ} {party : Party}
    {program rest : RuntimeProgram} (halone : Alone tasks)
    (htask : tasks[index]? = some (party, program))
    (hrest : rest.head.isSome = true → program.head.isSome = true) :
    Alone (tasks.set index (party, rest)) := by
  have hworks : ∀ deploymentId i, Works deploymentId (tasks.set index (party, rest)) i →
      Works deploymentId tasks i := by
    rintro deploymentId i ⟨task, hat, harchives, hhead⟩
    rw [List.getElem?_set] at hat
    split at hat
    · next hi =>
        subst hi
        split at hat <;> cases hat
        exact ⟨(party, program), htask, harchives, hrest hhead⟩
    · exact ⟨task, hat, harchives, hhead⟩
  exact fun deploymentId i j hi hj =>
    halone deploymentId i j (hworks deploymentId i hi) (hworks deploymentId j hj)

theorem Alone.launch {pool : RuntimePool} {party : Party} (halone : Alone pool.tasks)
    (hadmits : admits pool party = true) :
    Alone (pool.tasks ++ [(party, party.program)]) := by
  have hnew : ∀ deploymentId i,
      Works deploymentId (pool.tasks ++ [(party, party.program)]) i →
        Works deploymentId pool.tasks i ∨
          i = pool.tasks.length ∧ party.archives deploymentId = true := by
    rintro deploymentId i ⟨task, hat, harchives, hhead⟩
    rw [List.getElem?_append] at hat
    split at hat
    · exact Or.inl ⟨task, hat, harchives, hhead⟩
    · rw [List.getElem?_singleton] at hat
      split at hat <;> cases hat
      exact Or.inr ⟨by omega, harchives⟩
  have hnone : ∀ deploymentId i, party.archives deploymentId = true →
      ¬Works deploymentId pool.tasks i := by
    rintro deploymentId i hparty ⟨task, hat, harchives, hhead⟩
    cases party with
    | archiveDeployment id automatic =>
        obtain rfl : id = deploymentId := of_decide_eq_true hparty
        have hfree := List.all_eq_true.mp hadmits task (List.mem_of_getElem? hat)
        rw [harchives, hhead] at hfree
        cases hfree
    | _ => cases hparty
  intro deploymentId i j hi hj
  rcases hnew deploymentId i hi with hiOld | ⟨rfl, hparty⟩ <;>
    rcases hnew deploymentId j hj with hjOld | ⟨rfl, hparty'⟩
  · exact halone deploymentId i j hiOld hjOld
  · exact absurd hiOld (hnone deploymentId i hparty')
  · exact absurd hjOld (hnone deploymentId j hparty)
  · rfl

/-- What holds of every pool, where no archive is free to remove what `P` keeps. -/
structure Handshake (P : String → Prop) (pool : RuntimePool) : Prop where
  deployments : Table.UniqueOn Deployment.id pool.state.store.deployments
  archives : ∀ task ∈ pool.tasks, ∀ deploymentId, task.1.archives deploymentId = true →
    AtStage P pool.state deploymentId task.2
  calls : ∀ task ∈ pool.tasks, task.2.Uses (MayCall task.1)
  alone : Alone pool.tasks

namespace Handshake

variable {P : String → Prop} {pool after : RuntimePool}

/-- Where a deployment does not refuse activations, no archive holds it, so none is free to
remove it. -/
theorem keep (hpool : Handshake (fun _ => False) pool) {deploymentId : String}
    (hstatus : refusesActivation (pool.state.store.getDeployment deploymentId) = false) :
    Handshake (· = deploymentId) pool where
  deployments := hpool.deployments
  archives := by
    intro task htask id harchives
    obtain ⟨stage, hprogram, hholds, htimely, _⟩ := hpool.archives task htask id harchives
    refine ⟨stage, hprogram, hholds, htimely, fun hkept => ?_⟩
    cases hremoves : stage.removes with
    | false => rfl
    | true =>
        have hrefuses := (hholds (Stage.holds_of_removes hremoves)).refuses
        rw [show id = deploymentId from hkept, hstatus] at hrefuses
        cases hrefuses
  calls := hpool.calls
  alone := hpool.alone

/-- A call of one party leaves the archives of the others at their stages. -/
theorem call_others {index : ℕ} {choice : Choice} {party : Party} {op : Op}
    {next : op.Answer → RuntimeProgram} {t : RuntimeState} {answer : op.Answer}
    (hpool : Handshake P pool) (htask : pool.tasks[index]? = some (party, .call op next))
    (hperform : perform pool.state op choice = some (t, answer))
    {other : ℕ} (hne : other ≠ index) {task : Party × RuntimeProgram}
    (hother : pool.tasks[other]? = some task) {deploymentId : String}
    (harchives : task.1.archives deploymentId = true) :
    AtStage P t deploymentId task.2 := by
  have hstage := hpool.archives task (List.mem_of_getElem? hother) deploymentId harchives
  obtain ⟨hclock, hsame | ⟨id, target, sources, rfl, hstore⟩⟩ := perform_deployments hperform
  · refine hstage.mono hclock.ge fun harchiving => ?_
    rw [IsArchiving, hsame]
    exact harchiving
  · have hcall : AtStage P pool.state id (.call (.transitionDeploymentStatus id target sources) next) ∧
        party.archives id = true ∨ .archiving ∉ sources := by
      have huses := hpool.calls _ (List.mem_of_getElem? htask)
      rcases huses.1 with hharmless | ⟨own, hown⟩
      · exact Or.inr hharmless
      · have hat := hpool.archives _ (List.mem_of_getElem? htask) own hown
        obtain rfl := hat.transitions
        exact Or.inl ⟨hat, hown⟩
    have hkeeps : (IsArchiving pool.state.store deploymentId → IsArchiving t.store deploymentId) ∨
        task.2.head.isSome = false := by
      rw [hstore]
      rcases hcall with ⟨_, hown⟩ | hsources
      · by_cases hid : id = deploymentId
        · subst hid
          -- Two archives of one deployment: only one of them is under way.
          cases hhead : task.2.head.isSome with
          | false => exact Or.inr rfl
          | true =>
              exact absurd (hpool.alone id other index ⟨task, hother, harchives, hhead⟩
                ⟨_, htask, hown, rfl⟩) hne
        · exact Or.inl fun harchiving => harchiving.transition (Or.inl hid)
      · exact Or.inl fun harchiving => harchiving.transition (Or.inr (Or.inl hsources))
    rcases hkeeps with hkeeps | hdone
    · exact hstage.mono hclock.ge hkeeps
    · obtain ⟨taskParty, program⟩ := task
      cases program with
      | done => exact AtStage.done
      | call op next => cases hdone

/-- **The handshake.** A step keeps what holds of the pool, as long as the deployments that are
kept have an active lease. -/
theorem step {action : PoolAction Party Choice ℤ} (hpool : Handshake P pool)
    (hheld : ∀ deploymentId, P deploymentId →
      pool.state.store.hasActiveActivationLeases deploymentId pool.state.clock = true)
    (hstep : actors.step pool action = some after) : Handshake P after := by
  have hcalls := Actors.step_uses (fun party => Party.program_mayCall party) hpool.calls hstep
  obtain ⟨party, _, hadmits, rfl⟩ | ⟨index, choice, party, op, next, state, answer, _, htask,
    hcall, rfl⟩ | ⟨index, party, program, _, htask, rfl⟩ | ⟨clock, state, _, hpass, rfl⟩ :=
    Actors.step_cases hstep
  · refine ⟨hpool.deployments, fun task hmem deploymentId harchives => ?_, hcalls,
      hpool.alone.launch hadmits⟩
    rcases List.mem_append.mp hmem with hold | hnew
    · exact hpool.archives task hold deploymentId harchives
    · obtain rfl := List.mem_singleton.mp hnew
      cases party with
      | archiveDeployment id automatic =>
          obtain rfl : id = deploymentId := of_decide_eq_true harchives
          exact AtStage.idle (.read automatic) rfl
      | _ => cases harchives
  · refine ⟨?_, fun task hmem deploymentId harchives => ?_, hcalls,
      hpool.alone.set htask fun _ => rfl⟩
    · obtain ⟨_, hsame | ⟨id, target, sources, _, hstore⟩⟩ := perform_deployments hcall
      · rw [hsame]
        exact hpool.deployments
      · rw [hstore]
        exact hpool.deployments.updateWhere fun _ => rfl
    · obtain ⟨other, hother⟩ := List.getElem?_of_mem hmem
      rw [List.getElem?_set] at hother
      split at hother
      · next hsame =>
          split at hother <;> cases hother
          exact (hpool.archives _ (List.mem_of_getElem? htask) deploymentId harchives).call
            hpool.deployments (hheld deploymentId) hcall
      · next hne =>
          exact hpool.call_others htask hcall (fun h => hne h.symm) hother harchives
  · refine ⟨hpool.deployments, fun task hmem deploymentId harchives => ?_, hcalls,
      hpool.alone.set htask fun h => by cases h⟩
    rcases List.mem_or_eq_of_mem_set hmem with hold | rfl
    · exact hpool.archives task hold deploymentId harchives
    · exact AtStage.done
  · have hstore := passTime_store hpass
    refine ⟨by rw [hstore]; exact hpool.deployments, fun task hmem deploymentId harchives => ?_,
      hcalls, hpool.alone⟩
    refine (hpool.archives task hmem deploymentId harchives).mono (passTime_le hpass)
      fun harchiving => ?_
    rw [hstore]
    exact harchiving

theorem of_reachable (hreach : machine.Reachable pool) : Handshake (fun _ => False) pool := by
  refine hreach.invariant (fun start hstart => ?_) fun before action after hbefore hstep =>
    hbefore.step (fun _ h => h.elim) hstep
  obtain ⟨⟨hunique, _, _⟩, hnone⟩ := hstart
  have hempty : ∀ task, task ∉ start.tasks := by simp [hnone]
  refine ⟨hunique, fun task htask => absurd htask (hempty task),
    fun task htask => absurd htask (hempty task), ?_⟩
  rintro deploymentId i j ⟨task, hat, _⟩
  exact absurd (List.mem_of_getElem? hat) (hempty task)

end Handshake

/-! ## Archive and activation -/

/-- An activation of the deployment reads its status once more, and goes on to start it. -/
def PassesRecheck (deploymentId : String) (claim : ActivationLeaseClaim)
    (pool passed : RuntimePool) : Prop :=
  ∃ index choice party polls,
    pool.tasks[index]? = some (party, activationRecheck deploymentId claim polls) ∧
      machine.step pool (.call index choice) = some passed ∧ choice.failure = none ∧
      refusesActivation (pool.state.store.getDeployment deploymentId) = false

/-- The lease is neither released nor expired. -/
def LeaseHeld (deploymentId leaseId : String) (pool : RuntimePool) : Prop :=
  ∃ lease ∈ pool.state.store.leases, lease.id = leaseId ∧ lease.deploymentId = deploymentId ∧
    lease.isActive pool.state.clock = true

instance (deploymentId leaseId : String) : DecidablePred (LeaseHeld deploymentId leaseId) :=
  fun pool => inferInstanceAs (Decidable (∃ lease ∈ pool.state.store.leases, _))

/-- Some party is about to remove the files of the deployment. -/
def Removing (deploymentId : String) (pool : RuntimePool) : Prop :=
  ∃ task ∈ pool.tasks, task.2.head = some (.host (.removeRelease deploymentId)) ∨
    task.2.head = some (.host (.removeBuild deploymentId))

/-- An activation that passes its check has only read, and goes on to wait for the instance or
to start it. -/
theorem PassesRecheck.eq_set {deploymentId : String} {claim : ActivationLeaseClaim}
    {pool passed : RuntimePool} (hpasses : PassesRecheck deploymentId claim pool passed) :
    ∃ (index : ℕ) (party : Party) (polls : ℕ), passed = { pool with
      tasks := pool.tasks.set index (party, activationPassed deploymentId claim polls) } := by
  obtain ⟨index, choice, party, polls, htask, hstep, hfailure, hstatus⟩ := hpasses
  obtain ⟨task, htask', hresult⟩ := Option.bind_eq_some_iff.mp hstep
  obtain rfl := Option.some.inj (htask.symm.trans htask')
  obtain ⟨⟨state, rest⟩, hadvance, rfl⟩ := Option.map_eq_some_iff.mp hresult
  obtain ⟨op, next, answer, hcall, hperform, rfl⟩ := Actors.advance_eq_some hadvance
  cases hcall
  simp only [actors, perform, hfailure, execute, Option.some.injEq] at hperform
  cases hperform
  refine ⟨index, party, polls, ?_⟩
  have hpassed : (if refusesActivation (pool.state.store.getDeployment deploymentId) = true then
      activationRefused claim else activationPassed deploymentId claim polls) =
        activationPassed deploymentId claim polls := by
    rw [hstatus]
    rfl
  show ({ pool with tasks := pool.tasks.set index (party, if refusesActivation
    (pool.state.store.getDeployment deploymentId) = true then activationRefused claim else
      activationPassed deploymentId claim polls) } : RuntimePool) = _
  rw [hpassed]

theorem Handshake.not_removing {P : String → Prop} {pool : RuntimePool} {deploymentId : String}
    (hpool : Handshake P pool) (hkept : P deploymentId) : ¬Removing deploymentId pool := by
  rintro ⟨task, htask, hhead⟩
  have hcall : MayCall task.1 (.host (.removeRelease deploymentId)) ∨
      MayCall task.1 (.host (.removeBuild deploymentId)) :=
    hhead.imp (hpool.calls task htask).head (hpool.calls task htask).head
  have harchive : ∃ id, task.1.archives id = true := by
    rcases hcall with (hfalse | harchive) | (hfalse | harchive)
    · exact hfalse.elim
    · exact harchive
    · exact hfalse.elim
    · exact harchive
  obtain ⟨id, hid⟩ := harchive
  obtain ⟨rfl, hfree⟩ := (hpool.archives task htask id hid).removes_of_head hhead
  exact hfree hkept

/-- An activation of the sample deployment, up to its check of the status. -/
def sampleActivation : List (PoolAction Party Choice ℤ) :=
  [.launch (.ensureDeploymentActive "dep" .turn "owner" 180000 0 1),
    .call 0 {}, .call 0 { instanceId := "first", leaseId := "lease", port := 4000 }]

/-- An archive claims the deployment, finds the lease, and hands its claim back. -/
def sampleArchive : List (PoolAction Party Choice ℤ) :=
  .launch (.archiveDeployment "dep" false) :: List.replicate 6 (.call 1 {})

/-- The claim of the sample activation. -/
def sampleClaim : ActivationLeaseClaim where
  lease := ⟨"lease", "dep", "first", .turn, "owner", 180000, none⟩
  runtimeInstance := ⟨"first", "dep", 1, .starting, none, some 0, none, none⟩
  starter := true

end Eveland.RuntimeActors
