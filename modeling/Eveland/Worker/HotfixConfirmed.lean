/-
# Hotfixes and their confirmation

A request that would retire a hotfix is refused unless it says so, by what its check reads. The
promotion comes in a queued job later. Where it finds what the check has found, no hotfix is
retired that the request has not confirmed.
-/

import Eveland.Worker.DeployPipeline

namespace Eveland.DeployPipeline

open JobStore JobExecutions

/-! ## Confirmed promotions -/

/-- The request has queued a build, directly or through its import. -/
def QueuedRequest.isOf (queued : QueuedRequest) (buildJobId : String)
    (parentJobId : Option String) : Bool :=
  queued.jobId = buildJobId || parentJobId = some queued.jobId

/-- Wherever a build has promoted a revision from git while production was in hotfix drift, a
request that has queued the build carried `replaceHotfix: true`. -/
def HotfixesConfirmed (s : State) : Prop :=
  ∀ promotion ∈ s.promotions, promotion.drift = true → promotion.git = true →
    ∃ queued ∈ s.queued, queued.isOf promotion.buildJobId promotion.parentJobId = true ∧
      queued.request.replaceHotfix = true

/-- What a request has gone by is still so: there is no drift that its check has not found, and no
revision from git where it has found another. A request that is not checked, and does not confirm,
retires no hotfix. -/
def QueuedRequest.stillHolds (queued : QueuedRequest) (drift git : Bool) : Bool :=
  match queued.check with
  | some check => (!drift || check.drift) && (!git || check.git)
  | none => queued.request.replaceHotfix || !(drift && git)

/-- A build promotes while what its request has gone by is still so. -/
def Unchanged (s : State) : Action → Bool
  | .handle i _ _ =>
      match s.workers.executions[i]?, s.handlers i with
      | some execution, .named deployment =>
          s.queued.all fun queued =>
            !queued.isOf execution.jobId (parentJobId execution.payload) ||
              queued.stillHolds s.inHotfixDrift deployment.revision.isGitSync
      | _, _ => true
  | _ => true

/-- A request has queued the job. -/
def State.IsRequested (s : State) (jobId : String) (type : Option JobType) (payload : Json) :
    Prop :=
  (type = some .importSource → ∃ queued ∈ s.queued, queued.jobId = jobId) ∧
    (type = some .buildDeploy →
      ∃ queued ∈ s.queued, queued.isOf jobId (parentJobId payload) = true)

/-- A check that lets a request through has not found both a drift and a revision from git. -/
def Check.isPassed (check : Option Check) : Prop :=
  ∀ found, check = some found → ¬ (found.drift = true ∧ found.git = true)

/-- Imports and builds come from requests, and requests have passed their checks. -/
structure Requested (s : State) : Prop where
  rows : ∀ row ∈ s.workers.store.jobs, s.IsRequested row.id row.type row.payload
  executions : ∀ (i : ℕ) execution, s.workers.executions[i]? = some execution →
    s.IsRequested execution.jobId execution.type execution.payload
  pending : ∀ pending ∈ s.requests, Check.isPassed pending.check
  passed : ∀ queued ∈ s.queued, Check.isPassed queued.check

/-! ## Payloads -/

theorem field_setField_of_ne {payload : Json} {key other : String} {value : Json}
    (hne : other ≠ key) : (setField payload key value).field other = payload.field other := by
  cases payload with
  | obj fields =>
      simp only [setField, Json.without, Json.field, List.find?_append]
      have hkept : (fields.filter fun entry => entry.1 ≠ key).find? (fun entry => entry.1 = other) =
          fields.find? fun entry => entry.1 = other := by
        rw [List.find?_filter]
        congr 1
        funext entry
        by_cases heq : entry.1 = other
        · simp [heq, hne]
        · simp [heq]
      have hnone : [(key, value)].find? (fun entry => decide (entry.1 = other)) = none := by
        simp [Ne.symm hne]
      rw [hkept, hnone, Option.or_none]
  | _ => rfl

theorem parentJobId_setField (payload value : Json) :
    parentJobId (setField payload "deploymentId" value) = parentJobId payload := by
  simp [parentJobId, stringField, field_setField_of_ne]

/-! ## Rows of the workers -/

/-- The row is one of before, with its type, and where it is a build's with its parent. -/
def Continues (before : List JobRow) (row : JobRow) : Prop :=
  ∃ old ∈ before, row.id = old.id ∧ row.type = old.type ∧
    (row.type = some .buildDeploy → parentJobId row.payload = parentJobId old.payload)

theorem Continues.of_mem {before : List JobRow} {row : JobRow} (hmem : row ∈ before) :
    Continues before row :=
  ⟨row, hmem, rfl, rfl, fun _ => rfl⟩

/-- An update that keeps ids, types and the parents of builds. -/
theorem continues_updateJobs {s : Store} {p : JobRow → Bool} {f : JobRow → JobRow}
    (hf : ∀ row ∈ s.jobs, p row = true → (f row).id = row.id ∧ (f row).type = row.type ∧
      (row.type = some .buildDeploy → parentJobId (f row).payload = parentJobId row.payload)) :
    ∀ row ∈ (s.updateJobs p f).jobs, Continues s.jobs row := by
  intro row hrow
  rcases Table.mem_updateWhere.mp hrow with ⟨hold, _⟩ | ⟨old, hold, hp, rfl⟩
  · exact Continues.of_mem hold
  · obtain ⟨hid, htype, hparent⟩ := hf old hold hp
    refine ⟨old, hold, hid, htype, ?_⟩
    rw [htype]
    exact hparent

theorem continues_insert {s t : Store} {projectId jobId : String} {type : JobType} {payload : Json}
    {createdAt updatedAt : ℤ}
    (hinsert : insertJobRowTx s projectId type payload jobId createdAt updatedAt = .ok t) :
    ∀ row ∈ t.jobs, Continues s.jobs row ∨
      row.id = jobId ∧ row.type = some type ∧ row.payload = payload := by
  unfold insertJobRowTx at hinsert
  obtain ⟨decoded, hdecoded, hinsert⟩ := Outcome.bind_eq_ok.mp hinsert
  obtain ⟨_, _, hinsert⟩ := Outcome.bind_eq_ok.mp hinsert
  obtain ⟨_, _, hinsert⟩ := Outcome.bind_eq_ok.mp hinsert
  cases hinsert
  intro row hrow
  rcases List.mem_append.mp hrow with hold | hnew
  · exact Or.inl (Continues.of_mem hold)
  · obtain rfl := List.mem_singleton.mp hnew
    exact Or.inr ⟨rfl, rfl, decodeJobPayload_eq (Outcome.require_eq_ok.mp hdecoded)⟩

theorem continues_replaceJobPayload {s t : Store} {jobId : String} {type : JobType}
    {payload : Json} {attempt : ℕ} {now : ℤ} (htype : type ≠ .buildDeploy)
    (hreplace : JobStore.replaceJobPayload s jobId type payload attempt now = .ok t) :
    ∀ row ∈ t.jobs, Continues s.jobs row := by
  unfold JobStore.replaceJobPayload at hreplace
  obtain ⟨decoded, _, hreplace⟩ := Outcome.bind_eq_ok.mp hreplace
  cases hreplace
  apply continues_updateJobs
  intro row _ hp
  simp only [Bool.and_eq_true, decide_eq_true_eq] at hp
  refine ⟨rfl, rfl, ?_⟩
  intro hbuild
  rw [hp.1.1.2] at hbuild
  exact absurd (Option.some.inj hbuild) htype

theorem continues_clear {s t : Store} {execution : Execution} {now : ℤ}
    (hclear : clearTemporaryGitCredential s execution now = .ok t) :
    ∀ row ∈ t.jobs, Continues s.jobs row := by
  unfold clearTemporaryGitCredential at hclear
  split at hclear
  · exact continues_replaceJobPayload (by decide) hclear
  · cases hclear
    exact fun row hrow => Continues.of_mem hrow

/-- An operation of an execution, other than a build's replacement of its payload. -/
theorem continues_operate {s t : Store} {execution : Execution} {operation : Operation}
    {phase : JobExecutions.Phase}
    (hreplace : ∀ type payload now, operation = .replacePayload type payload now →
      type ≠ .buildDeploy)
    (hoperate : operate s execution operation = some (t, phase)) :
    ∀ row ∈ t.jobs, Continues s.jobs row := by
  have hkept : ∀ row ∈ s.jobs, Continues s.jobs row := fun row hrow => Continues.of_mem hrow
  have hupdated : ∀ {p : JobRow → Bool} {f : JobRow → JobRow},
      (∀ row, (f row).id = row.id ∧ (f row).type = row.type ∧ (f row).payload = row.payload) →
      ∀ row ∈ (s.updateJobs p f).jobs, Continues s.jobs row := by
    intro p f hf
    apply continues_updateJobs
    intro row _ _
    exact ⟨(hf row).1, (hf row).2.1, fun _ => by rw [(hf row).2.2]⟩
  cases operation with
  | quarantine now =>
      simp only [operate] at hoperate
      split at hoperate <;> cases hoperate
      exact hupdated fun _ => ⟨rfl, rfl, rfl⟩
  | heartbeat now =>
      simp only [operate] at hoperate
      split at hoperate <;> cases hoperate
      exact hupdated fun _ => ⟨rfl, rfl, rfl⟩
  | replacePayload type payload now =>
      simp only [operate] at hoperate
      split at hoperate
      · split at hoperate
        · next hreplaced =>
            cases hoperate
            exact continues_replaceJobPayload (hreplace type payload now rfl) hreplaced
        · cases hoperate
          exact hkept
      · cases hoperate
  | dispatchEnds succeeded =>
      simp only [operate] at hoperate
      split at hoperate <;> cases hoperate
      exact hkept
  | clearCredential now replyLost =>
      simp only [operate] at hoperate
      split at hoperate
      · split at hoperate
        · next hcleared =>
            cases hoperate
            exact continues_clear hcleared
        · cases hoperate
          exact hkept
      · cases hoperate
  | complete now replyLost =>
      simp only [operate] at hoperate
      split at hoperate <;> cases hoperate
      exact hupdated fun _ => ⟨rfl, rfl, rfl⟩
  | fail error now =>
      simp only [operate] at hoperate
      split at hoperate <;> cases hoperate
      exact hupdated fun _ => ⟨rfl, rfl, rfl⟩

/-- A statement of another process, other than the request of an import or a build. -/
theorem continues_outside {s t : Store} {action : JobStore.Action}
    (houtside : isOutside action = true)
    (hother : ∀ projectId type payload jobId now,
      action = .enqueueJob projectId type payload jobId now → isPipelineType (some type) = false)
    (hstep : JobStore.step s action = some t) :
    ∀ row ∈ t.jobs, Continues s.jobs row ∨ isPipelineType row.type = false := by
  have hinserted : ∀ {projectId jobId : String} {type : JobType} {payload : Json}
      {createdAt updatedAt : ℤ}, isPipelineType (some type) = false →
      insertJobRowTx s projectId type payload jobId createdAt updatedAt = .ok t →
      ∀ row ∈ t.jobs, Continues s.jobs row ∨ isPipelineType row.type = false := by
    intro projectId jobId type payload createdAt updatedAt htype hinsert row hrow
    rcases continues_insert hinsert row hrow with hold | ⟨_, hnew, _⟩
    · exact Or.inl hold
    · exact Or.inr (by rw [hnew]; exact htype)
  have hkept : t.jobs = s.jobs →
      ∀ row ∈ t.jobs, Continues s.jobs row ∨ isPipelineType row.type = false := by
    intro hjobs row hrow
    rw [hjobs] at hrow
    exact Or.inl (Continues.of_mem hrow)
  cases action with
  | otherTables projects deployments runtimeInstances =>
      cases hstep
      exact hkept rfl
  | enqueueJob projectId type payload jobId now =>
      exact hinserted (hother projectId type payload jobId now rfl)
        (Outcome.toOption_eq_some.mp hstep)
  | enqueueDeploymentArchive projectId deploymentId automatic jobId now =>
      have henqueue := Outcome.toOption_eq_some.mp hstep
      unfold enqueueDeploymentArchive at henqueue
      obtain ⟨_, _, henqueue⟩ := Outcome.bind_eq_ok.mp henqueue
      obtain ⟨_, _, henqueue⟩ := Outcome.bind_eq_ok.mp henqueue
      split at henqueue
      · cases henqueue
        exact hkept rfl
      · exact hinserted (by decide) henqueue
  | enqueueDeploymentActivation projectId deploymentId runtimeInstanceId jobId now staleAfterMs =>
      have henqueue := Outcome.toOption_eq_some.mp hstep
      unfold enqueueDeploymentActivation at henqueue
      obtain ⟨_, _, henqueue⟩ := Outcome.bind_eq_ok.mp henqueue
      obtain ⟨_, _, henqueue⟩ := Outcome.bind_eq_ok.mp henqueue
      obtain ⟨_, _, henqueue⟩ := Outcome.bind_eq_ok.mp henqueue
      obtain ⟨_, _, henqueue⟩ := Outcome.bind_eq_ok.mp henqueue
      split at henqueue
      · split at henqueue
        · cases henqueue
          intro row hrow
          refine Or.inl (continues_updateJobs ?_ row hrow)
          exact fun _ _ _ => ⟨rfl, rfl, fun _ => rfl⟩
        · cases henqueue
          exact hkept rfl
      · exact hinserted (by decide) henqueue
  | claimStatement now options locked => cases houtside
  | quarantine jobId attempts now => cases houtside
  | heartbeatJob jobId attempt now => cases houtside
  | replaceJobPayload jobId type payload attempt now => cases houtside
  | completeJob jobId attempt now => cases houtside
  | failJob jobId error attempt now => cases houtside
  | recoverStaleJobs now staleAfterMs limit => cases houtside

/-- A step of the workers, other than one that queues or rewrites an import or a build. -/
theorem continues_step {s : State} {action : JobExecutions.Action} {workers : System}
    (hmay : s.mayWork action = true) (hstep : JobExecutions.step s.workers action = some workers) :
    ∀ row ∈ workers.store.jobs,
      Continues s.workers.store.jobs row ∨ isPipelineType row.type = false := by
  cases action with
  | outside action =>
      simp only [JobExecutions.step] at hstep
      split at hstep
      · next houtside =>
          obtain ⟨store, hstore, rfl⟩ := Option.map_eq_some_iff.mp hstep
          apply continues_outside houtside _ hstore
          rintro projectId type payload jobId now rfl
          simpa [State.mayWork] using hmay
      · cases hstep
  | claim now options locked =>
      obtain ⟨⟨store, row⟩, hclaim, rfl⟩ := Option.map_eq_some_iff.mp hstep
      obtain ⟨candidate, _, _, _, rfl⟩ := claimStatement_cases hclaim
      intro row hrow
      refine Or.inl (continues_updateJobs ?_ row hrow)
      exact fun _ _ _ => ⟨rfl, rfl, fun _ => rfl⟩
  | operate i operation =>
      obtain ⟨execution, _, hstep⟩ := Option.bind_eq_some_iff.mp hstep
      obtain ⟨⟨store, phase⟩, hoperate, hstep⟩ := Option.bind_eq_some_iff.mp hstep
      cases hstep
      intro row hrow
      refine Or.inl (continues_operate ?_ hoperate row hrow)
      rintro type payload now rfl rfl
      simp [State.mayWork, isPipelineType] at hmay
  | selectStale now staleAfterMs limit =>
      cases hstep
      exact fun row hrow => Or.inl (Continues.of_mem hrow)
  | requeueStale k now =>
      obtain ⟨jobIds, _, hstep⟩ := Option.bind_eq_some_iff.mp hstep
      cases hstep
      intro row hrow
      refine Or.inl (continues_updateJobs ?_ row hrow)
      exact fun _ _ _ => ⟨rfl, rfl, fun _ => rfl⟩

/-! ## What a step leaves -/

/-- Records of requests are only added. -/
theorem State.IsRequested.mono {s t : State} {jobId : String} {type : Option JobType}
    {payload : Json} (h : s.IsRequested jobId type payload)
    (hqueued : ∀ queued ∈ s.queued, queued ∈ t.queued) : t.IsRequested jobId type payload := by
  constructor
  · intro htype
    obtain ⟨queued, hmem, hjob⟩ := h.1 htype
    exact ⟨queued, hqueued queued hmem, hjob⟩
  · intro htype
    obtain ⟨queued, hmem, hof⟩ := h.2 htype
    exact ⟨queued, hqueued queued hmem, hof⟩

/-- A row that continues one of a requested job, or is of another kind of job. -/
theorem Requested.row {s : State} (h : Requested s) {row : JobRow}
    (hrow : Continues s.workers.store.jobs row ∨ isPipelineType row.type = false) :
    s.IsRequested row.id row.type row.payload := by
  rcases hrow with ⟨old, hold, hid, htype, hparent⟩ | hother
  · obtain ⟨himport, hbuild⟩ := h.rows old hold
    constructor
    · intro hrow
      obtain ⟨queued, hmem, hjob⟩ := himport (htype ▸ hrow)
      exact ⟨queued, hmem, hjob.trans hid.symm⟩
    · intro hrow
      obtain ⟨queued, hmem, hof⟩ := hbuild (htype ▸ hrow)
      refine ⟨queued, hmem, ?_⟩
      rw [hid, hparent hrow]
      exact hof
  · constructor
    · intro hrow
      rw [hrow] at hother
      cases hother
    · intro hrow
      rw [hrow] at hother
      cases hother

/-- A step of the workers that leaves the requests. -/
theorem Requested.work {s : State} (h : Requested s) {action : JobExecutions.Action}
    {workers : System} (hstep : JobExecutions.step s.workers action = some workers)
    (hrows : ∀ row ∈ workers.store.jobs, s.IsRequested row.id row.type row.payload) :
    Requested { s with workers } := by
  refine ⟨hrows, ?_, h.pending, h.passed⟩
  intro i later hlater
  rcases executions_step_back hstep hlater with
    ⟨execution, hmem, hjob, htype, hpayload⟩ | ⟨row, hrow, hjob, htype, hpayload⟩
  · rw [hjob, htype, hpayload]
    exact h.executions i execution hmem
  · rw [hjob, htype, hpayload]
    exact h.rows row hrow

/-- A step that changes neither workers nor requests. -/
theorem Requested.of_same {s t : State} (h : Requested s) (hworkers : t.workers = s.workers)
    (hrequests : t.requests = s.requests) (hqueued : t.queued = s.queued) : Requested t := by
  have hmono : ∀ queued ∈ s.queued, queued ∈ t.queued := by
    intro queued hmem
    rw [hqueued]
    exact hmem
  constructor
  · intro row hrow
    rw [hworkers] at hrow
    exact (h.rows row hrow).mono hmono
  · intro i execution hmem
    rw [hworkers] at hmem
    exact (h.executions i execution hmem).mono hmono
  · rw [hrequests]
    exact h.pending
  · rw [hqueued]
    exact h.passed

/-- A job is queued, with a request of its own or of its parent on record. -/
theorem Requested.enqueueJob {s t : State} {type : JobType} {payload : Json} {jobId : String}
    {now : ℤ} (h : Requested s) (hrequested : s.IsRequested jobId (some type) payload)
    (henqueue : s.enqueueJob type payload jobId now = some t) : Requested t := by
  obtain ⟨store, hstore, rfl⟩ := Option.map_eq_some_iff.mp henqueue
  refine ⟨?_, h.executions, h.pending, h.passed⟩
  intro row hrow
  rcases continues_insert (Outcome.toOption_eq_some.mp hstore) row hrow with
    hold | ⟨hid, htype, hpayload⟩
  · exact h.row (Or.inl hold)
  · rw [hid, htype, hpayload]
    exact hrequested

theorem Requested.handleImport {s t : State} {i : ℕ} {execution : Execution} {drawn : String}
    {now : ℤ} (h : Requested s) (hmem : s.workers.executions[i]? = some execution)
    (htype : execution.type = some .importSource)
    (hhandle : handleImport s i execution drawn now = some t) : Requested t := by
  unfold DeployPipeline.handleImport at hhandle
  split at hhandle
  · obtain ⟨origin, _, rfl⟩ := Option.map_eq_some_iff.mp hhandle
    exact h.of_same rfl rfl rfl
  · split at hhandle
    · obtain ⟨chained, hchained, rfl⟩ := Option.map_eq_some_iff.mp hhandle
      -- The request of the import is the request of the build that names it as parent.
      obtain ⟨queued, hqueued, hjob⟩ := (h.executions i execution hmem).1 htype
      have hrequested : s.IsRequested drawn (some .buildDeploy)
          (.obj [("promoteAfterDeploy", .bool (isTrue execution.payload "promoteAfterDeploy")),
            ("parentJobId", .str execution.jobId)]) := by
        refine ⟨(fun hnot => by cases hnot), fun _ => ⟨queued, hqueued, ?_⟩⟩
        simp [QueuedRequest.isOf, parentJobId, stringField, Json.field, hjob]
      have henqueued := h.enqueueJob hrequested hchained
      exact henqueued.of_same rfl rfl rfl
    · cases hhandle
      exact h.of_same rfl rfl rfl
  · cases hhandle

/-- A build names its deployment in its payload, and keeps its parent. -/
theorem Requested.nameDeployment {s : State} {i : ℕ} {execution : Execution} {workers : System}
    {deploymentId : String} {now : ℤ} (h : Requested s)
    (hmem : s.workers.executions[i]? = some execution)
    (htype : execution.type = some .buildDeploy)
    (hstep : JobExecutions.step s.workers (.operate i (.replacePayload .buildDeploy
      (setField execution.payload "deploymentId" (.str deploymentId)) now)) = some workers) :
    Requested { s with workers } := by
  apply h.work hstep
  obtain ⟨other, hother, hstep⟩ := Option.bind_eq_some_iff.mp hstep
  obtain rfl := Option.some.inj (hmem.symm.trans hother)
  obtain ⟨⟨store, phase⟩, hoperate, hstep⟩ := Option.bind_eq_some_iff.mp hstep
  cases hstep
  intro row hrow
  simp only [operate] at hoperate
  split at hoperate
  · split at hoperate
    · next hreplaced =>
        cases hoperate
        unfold JobStore.replaceJobPayload at hreplaced
        obtain ⟨decoded, hdecoded, hreplaced⟩ := Outcome.bind_eq_ok.mp hreplaced
        cases hreplaced
        rcases Table.mem_updateWhere.mp hrow with ⟨hold, _⟩ | ⟨old, hold, hp, rfl⟩
        · exact h.rows row hold
        · simp only [Bool.and_eq_true, decide_eq_true_eq] at hp
          obtain ⟨⟨⟨hid, hbuild⟩, _⟩, _⟩ := hp
          obtain ⟨_, hof⟩ := h.executions i execution hmem
          refine ⟨fun himport => ?_, fun _ => ?_⟩
          · rw [hbuild] at himport
            cases himport
          · obtain ⟨queued, hqueued, hof⟩ := hof htype
            refine ⟨queued, hqueued, ?_⟩
            rw [decodeJobPayload_eq (Outcome.require_eq_ok.mp hdecoded), parentJobId_setField, hid]
            exact hof
    · cases hoperate
      exact h.rows row hrow
  · cases hoperate

theorem Requested.handleBuild {s t : State} {i : ℕ} {execution : Execution} {drawn : String}
    {now : ℤ} (h : Requested s) (hmem : s.workers.executions[i]? = some execution)
    (htype : execution.type = some .buildDeploy)
    (hhandle : handleBuild s i execution drawn now = some t) : Requested t := by
  unfold DeployPipeline.handleBuild at hhandle
  split at hhandle
  · obtain ⟨revision, _, rfl⟩ := Option.map_eq_some_iff.mp hhandle
    exact h.of_same rfl rfl rfl
  · cases hhandle
    exact h.of_same rfl rfl rfl
  · obtain ⟨workers, hworkers, rfl⟩ := Option.map_eq_some_iff.mp hhandle
    have hnamed := h.nameDeployment hmem htype hworkers
    exact hnamed.of_same rfl rfl rfl
  · split at hhandle <;> cases hhandle
    · exact h.of_same rfl rfl rfl
    · exact h.of_same rfl rfl rfl
  · cases hhandle

theorem Requested.proceed {s t : State} {k : ℕ} {drawn : String} {now : ℤ} (h : Requested s)
    (hproceed : proceed s k drawn now = some t) : Requested t := by
  unfold DeployPipeline.proceed at hproceed
  split at hproceed
  · cases hproceed
  · next pending hpending =>
      have hmem := List.mem_of_getElem? hpending
      have hclosed : Requested (s.closeRequest k) :=
        ⟨h.rows, h.executions, fun other hother => h.pending other (List.mem_of_mem_eraseIdx hother),
          h.passed⟩
      have hset : ∀ {request : OpenRequest}, Check.isPassed request.check →
          Requested (s.setRequest k request) := by
        intro request hpassed
        refine ⟨h.rows, h.executions, ?_, h.passed⟩
        intro other hother
        rcases List.mem_or_eq_of_mem_set hother with hold | rfl
        · exact h.pending other hold
        · exact hpassed
      split at hproceed
      · split at hproceed
        · split at hproceed <;> cases hproceed
          · exact hset (h.pending pending hmem)
          · exact hclosed
        · cases hproceed
          apply hset
          rintro found hfound ⟨hdrift, _⟩
          obtain rfl := Option.some.inj hfound
          cases hdrift
      · split at hproceed <;> cases hproceed
        · exact hclosed
        · apply hset
          rintro found hfound ⟨_, hgit⟩
          obtain rfl := Option.some.inj hfound
          cases hgit
      · obtain ⟨enqueued, henqueued, rfl⟩ := Option.map_eq_some_iff.mp hproceed
        -- With the record of the request in place, the job it queues is a requested one.
        have hrecorded : Requested { s.closeRequest k with
            queued :=
              { jobId := drawn, request := pending.request, check := pending.check } :: s.queued } := by
          refine ⟨?_, ?_, hclosed.pending, ?_⟩
          · intro row hrow
            exact (h.rows row hrow).mono fun _ hold => List.mem_cons_of_mem _ hold
          · intro i execution hexecution
            exact (h.executions i execution hexecution).mono fun _ hold => List.mem_cons_of_mem _ hold
          · intro queued hqueued
            rcases List.mem_cons.mp hqueued with rfl | hold
            · exact h.pending pending hmem
            · exact h.passed queued hold
        obtain ⟨store, hstore, rfl⟩ := Option.map_eq_some_iff.mp henqueued
        refine ⟨?_, hrecorded.executions, hrecorded.pending, hrecorded.passed⟩
        intro row hrow
        rcases continues_insert (Outcome.toOption_eq_some.mp hstore) row hrow with
          hold | ⟨hid, htype, _⟩
        · exact hrecorded.row (Or.inl hold)
        · exact ⟨fun _ => ⟨_, List.mem_cons_self, hid.symm⟩,
            fun _ => ⟨_, List.mem_cons_self, by simp [QueuedRequest.isOf, hid]⟩⟩

theorem Requested.step {s t : State} {a : Action} (h : Requested s) (hstep : step s a = some t) :
    Requested t := by
  cases a with
  | work action =>
      simp only [DeployPipeline.step] at hstep
      split at hstep
      · next hmay =>
          obtain ⟨workers, hworkers, rfl⟩ := Option.map_eq_some_iff.mp hstep
          exact h.work hworkers fun row hrow => h.row (continues_step hmay hworkers row hrow)
      · cases hstep
  | handle i drawn now =>
      simp only [DeployPipeline.step, handle] at hstep
      split at hstep
      · cases hstep
      · next execution hmem =>
          split at hstep
          · split at hstep
            · next htype => exact h.handleImport hmem htype hstep
            · next htype => exact h.handleBuild hmem htype hstep
            · cases hstep
          · cases hstep
  | request request =>
      simp only [DeployPipeline.step, beginRequest] at hstep
      split at hstep <;> cases hstep
      refine ⟨h.rows, h.executions, ?_, h.passed⟩
      intro pending hpending
      rcases List.mem_append.mp hpending with hold | hnew
      · exact h.pending pending hold
      · obtain rfl := List.mem_singleton.mp hnew
        rintro found hfound
        cases hfound
  | proceed k drawn now => exact h.proceed hstep
  | promote deployment =>
      simp only [DeployPipeline.step] at hstep
      split at hstep <;> cases hstep
      exact h.of_same rfl rfl rfl

theorem requested_of_initial {s : State} (hinit : Initial s) : Requested s := by
  obtain ⟨_, hexecutions, _, _⟩ := hinit.workers
  constructor
  · intro row hrow
    rw [hinit.jobs] at hrow
    cases hrow
  · intro i execution hmem
    rw [hexecutions] at hmem
    cases hmem
  · intro pending hpending
    rw [hinit.requests] at hpending
    cases hpending
  · intro queued hqueued
    rw [hinit.queued] at hqueued
    cases hqueued

/-! ## Promotions -/

/-- A step adds no promotion, or the one of a build at its end. -/
theorem step_promotions {s t : State} {a : Action} (hstep : step s a = some t) :
    (∀ queued ∈ s.queued, queued ∈ t.queued) ∧
      (t.promotions = s.promotions ∨
        ∃ i drawn now execution deployment, a = .handle i drawn now ∧
          s.workers.executions[i]? = some execution ∧
          execution.type = some .buildDeploy ∧ s.handlers i = .named deployment ∧
          t.promotions =
            { buildJobId := execution.jobId, parentJobId := parentJobId execution.payload
              drift := s.inHotfixDrift, git := deployment.revision.isGitSync } :: s.promotions) := by
  have hsame : t.queued = s.queued → t.promotions = s.promotions → ∀ {built : Prop},
      (∀ queued ∈ s.queued, queued ∈ t.queued) ∧ (t.promotions = s.promotions ∨ built) :=
    fun hqueued hpromotions _ => ⟨fun queued hmem => hqueued ▸ hmem, Or.inl hpromotions⟩
  cases a with
  | work action =>
      simp only [step] at hstep
      split at hstep
      · obtain ⟨workers, _, rfl⟩ := Option.map_eq_some_iff.mp hstep
        exact hsame rfl rfl
      · cases hstep
  | handle i drawn now =>
      simp only [step, handle] at hstep
      split at hstep
      · cases hstep
      · next execution hmem =>
          split at hstep
          · split at hstep
            · simp only [handleImport] at hstep
              split at hstep
              · obtain ⟨_, _, rfl⟩ := Option.map_eq_some_iff.mp hstep
                exact hsame rfl rfl
              · split at hstep
                · obtain ⟨chained, hchained, rfl⟩ := Option.map_eq_some_iff.mp hstep
                  obtain ⟨_, _, rfl⟩ := Option.map_eq_some_iff.mp hchained
                  exact hsame rfl rfl
                · cases hstep
                  exact hsame rfl rfl
              · cases hstep
            · next htype =>
                simp only [handleBuild] at hstep
                split at hstep
                · obtain ⟨_, _, rfl⟩ := Option.map_eq_some_iff.mp hstep
                  exact hsame rfl rfl
                · cases hstep
                  exact hsame rfl rfl
                · obtain ⟨_, _, rfl⟩ := Option.map_eq_some_iff.mp hstep
                  exact hsame rfl rfl
                · next deployment hhandler =>
                    split at hstep <;> cases hstep
                    · exact ⟨fun _ hold => hold, Or.inr ⟨i, drawn, now, execution, deployment, rfl,
                        hmem, htype, hhandler, rfl⟩⟩
                    · exact hsame rfl rfl
                · cases hstep
            · cases hstep
          · cases hstep
  | request request =>
      simp only [step, beginRequest] at hstep
      split at hstep <;> cases hstep
      exact hsame rfl rfl
  | proceed k drawn now =>
      simp only [step, proceed] at hstep
      split at hstep
      · cases hstep
      · split at hstep
        · split at hstep
          · split at hstep <;> cases hstep
            · exact hsame rfl rfl
            · exact hsame rfl rfl
          · cases hstep
            exact hsame rfl rfl
        · split at hstep <;> cases hstep
          · exact hsame rfl rfl
          · exact hsame rfl rfl
        · obtain ⟨enqueued, henqueued, rfl⟩ := Option.map_eq_some_iff.mp hstep
          obtain ⟨_, _, rfl⟩ := Option.map_eq_some_iff.mp henqueued
          exact ⟨fun _ hold => List.mem_cons_of_mem _ hold, Or.inl rfl⟩
  | promote deployment =>
      simp only [step] at hstep
      split at hstep <;> cases hstep
      exact hsame rfl rfl

/-- A request that has passed its check, and whose check still holds, retires no hotfix that it
has not confirmed. -/
theorem QueuedRequest.confirms {queued : QueuedRequest} {drift git : Bool}
    (hpassed : Check.isPassed queued.check) (hholds : queued.stillHolds drift git = true)
    (hdrift : drift = true) (hgit : git = true) : queued.request.replaceHotfix = true := by
  subst hdrift hgit
  cases hcheck : queued.check with
  | none => simpa [QueuedRequest.stillHolds, hcheck] using hholds
  | some check =>
      have hboth : check.drift = true ∧ check.git = true := by
        simpa [QueuedRequest.stillHolds, hcheck] using hholds
      exact absurd hboth (hpassed check hcheck)

theorem HotfixesConfirmed.step {s t : State} {a : Action} (hconfirmed : HotfixesConfirmed s)
    (h : Requested s) (hunchanged : Unchanged s a = true) (hstep : step s a = some t) :
    HotfixesConfirmed t := by
  obtain ⟨hmono, hpromotions⟩ := step_promotions hstep
  have hkept : ∀ promotion ∈ s.promotions, promotion.drift = true → promotion.git = true →
      ∃ queued ∈ t.queued, queued.isOf promotion.buildJobId promotion.parentJobId = true ∧
        queued.request.replaceHotfix = true := by
    intro promotion hmem hdrift hgit
    obtain ⟨queued, hqueued, hof⟩ := hconfirmed promotion hmem hdrift hgit
    exact ⟨queued, hmono queued hqueued, hof⟩
  rcases hpromotions with hsame | ⟨i, drawn, now, execution, deployment, rfl, hmem, htype, hhandler,
    hnew⟩
  · intro promotion hpromotion
    rw [hsame] at hpromotion
    exact hkept promotion hpromotion
  · intro promotion hpromotion
    rw [hnew] at hpromotion
    rcases List.mem_cons.mp hpromotion with rfl | hold
    · intro hdrift hgit
      obtain ⟨queued, hqueued, hof⟩ := (h.executions i execution hmem).2 htype
      refine ⟨queued, hmono queued hqueued, hof, ?_⟩
      simp only [Unchanged, hmem, hhandler, List.all_eq_true, Bool.or_eq_true,
        Bool.not_eq_true'] at hunchanged
      rcases hunchanged queued hqueued with hother | hholds
      · rw [hof] at hother
        cases hother
      · exact queued.confirms (h.passed queued hqueued) hholds hdrift hgit
    · exact hkept promotion hold

/-- A sync that asks for a deployment in production. -/
def syncOf (replaceHotfix : Bool) : Request :=
  .syncSource "https://git.test/repository" true true replaceHotfix []

/-- The hotfix is in production when the sync comes in, which confirms. -/
def confirmedSync : List Action :=
  submit (uploadOf "hotfix") "import-1" 1 ++ runImport 0 "revision-1" "build-1" 2 ++
    runBuild 1 "deployment-1" 3 ++ submit (syncOf true) "import-2" 4 ++
    runImport 2 "revision-2" "build-2" 5 ++ runBuild 3 "deployment-2" 6

/-- The sync is checked while the build of the hotfix is queued, and its own build promotes after
the hotfix is in production. -/
def syncBeforeHotfix : List Action :=
  submit (uploadOf "hotfix") "import-1" 1 ++ runImport 0 "revision-1" "build-1" 2 ++
    [.request (syncOf false), .proceed 0 "" 3, .proceed 0 "import-2" 3] ++
    runBuild 1 "deployment-1" 4 ++ runImport 2 "revision-2" "build-2" 5 ++
    runBuild 3 "deployment-2" 6

end Eveland.DeployPipeline
