/-
# Environments reach every live runtime

As long as every change of an environment finds what it has to restart, whatever is live with
outdated values is about to be replaced: a restart of it is queued or has not stopped it yet, or a
request that has written is still to queue one. A build whose environment was read before a write
records its deployment after the list, and is missed.
-/

import Eveland.Worker.EnvironmentChanges
import Eveland.Worker.JobFencing

namespace Eveland.EnvironmentChanges

open JobStore JobExecutions SharedEnvironment

/-! ## What is still to come -/

/-- The handler of a restart has not stopped its process yet. -/
def Handler.isBeforeStop : Handler → Bool
  | .starting | .composing .. | .composed _ => true
  | _ => false

namespace State

variable (s : State)

/-- The execution at an index runs the row, as a restart of the deployment that has not stopped it
yet. -/
def isStopping (row : JobRow) (deploymentId : String) (i : ℕ) : Bool :=
  s.workers.executions[i]?.any fun execution =>
    execution.claim = (row.id, row.attempts) && execution.phase = .working &&
      execution.type = some .restartDeployment && targetOf execution = some deploymentId &&
        (s.handlers i).isBeforeStop

/-- The row is a restart that is still to stop the process of the deployment, in an execution other
than `but`. -/
def isPending (but : Option ℕ) (deploymentId : String) (row : JobRow) : Bool :=
  row.type = some .restartDeployment && row.deploymentId = some deploymentId &&
    decodesJobRow row &&
      (row.status = .queued || row.status = .running &&
        (List.range s.workers.executions.length).any fun i =>
          some i ≠ but && s.isStopping row deploymentId i)

/-- A restart of the deployment is pending. -/
def awaitsRestart (but : Option ℕ) (deploymentId : String) : Bool :=
  s.workers.store.jobs.any (s.isPending but deploymentId)

end State

/-- A request that has written is still to list the deployment of a process, or to queue its
restart. -/
def OpenRequest.willRestart (process : Launch) (pending : OpenRequest) : Bool :=
  match pending.phase with
  | .listingProjects => true
  | .restarting projects targets =>
      projects.contains process.projectId ||
        targets.contains (process.projectId, process.deploymentId)
  | _ => false

section Guard

variable (P : Platform) (s : State)

/-- A process is up to date, or one of these requests or a restart other than in the execution
`but` is still to replace it. -/
def State.isReached (requests : List OpenRequest) (but : Option ℕ) (process : Launch) : Bool :=
  s.isCurrent P process || s.awaitsRestart but process.deploymentId ||
    requests.any (OpenRequest.willRestart process)

/-- The restart in an execution may end without having stopped its process. -/
def State.mayEnd (i : ℕ) (execution : Execution) : Bool :=
  s.processes.all fun process =>
    targetOf execution ≠ some process.deploymentId || s.isReached P s.requests (some i) process

/-- The condition on a step. A request that lists finds each process that it leaves to no other
request or restart. A process is started with values that are stored still, or is left to a
request or a restart. And a restart does not end before it has stopped a process that is left to
nothing else. -/
def FindsAll : Action → Bool
  | .list k projectId =>
      s.processes.all fun process =>
        process.projectId ≠ projectId ||
          (s.listLiveDeployments projectId).contains (projectId, process.deploymentId) ||
            s.isReached P (s.requests.eraseIdx k) none process
  | .proceed k =>
      match s.requests[k]?.map OpenRequest.phase with
      | some .listingProjects =>
          s.processes.all fun process =>
            (s.workers.store.projects.map JobStore.Project.id).contains process.projectId ||
              s.isReached P (s.requests.eraseIdx k) none process
      | _ => true
  | .handle i move =>
      match s.workers.executions[i]? with
      | none => true
      | some execution =>
          match s.handlers i, move with
          | .composed launch, .start reuses =>
              (execution.type ≠ some .buildDeploy && reuses && s.isLive launch.deploymentId) ||
                s.isReached P s.requests none launch
          | .replacing launch, .start _ => s.isReached P s.requests none launch
          | .starting, .read _ current =>
              execution.type ≠ some .restartDeployment ||
                (s.admits execution (restartTarget execution current)).isSome ||
                  s.mayEnd P i execution
          | handler, .throw =>
              execution.type ≠ some .restartDeployment || !handler.isBeforeStop ||
                s.mayEnd P i execution
          | _, _ => true
  | _ => true

end Guard

/-! ## Rows of the workers -/

/-- The row is still there after a statement, as it was or queued again. -/
def Remains (t : Store) (row : JobRow) : Prop :=
  ∃ later ∈ t.jobs, later.id = row.id ∧ later.type = row.type ∧ later.payload = row.payload ∧
    later.attempts = row.attempts ∧ (later.status = row.status ∨ later.status = .queued)

theorem Remains.of_mem {t : Store} {row : JobRow} (hmem : row ∈ t.jobs) : Remains t row :=
  ⟨row, hmem, rfl, rfl, rfl, rfl, Or.inl rfl⟩

theorem remains_updateJobs {s : Store} {p : JobRow → Bool} {f : JobRow → JobRow} {row : JobRow}
    (hmem : row ∈ s.jobs)
    (hf : p row = true → (f row).id = row.id ∧ (f row).type = row.type ∧
      (f row).payload = row.payload ∧ (f row).attempts = row.attempts ∧
        ((f row).status = row.status ∨ (f row).status = .queued)) :
    Remains (s.updateJobs p f) row := by
  by_cases hp : p row = true
  · exact ⟨f row, Table.mem_updateWhere.mpr (Or.inr ⟨row, hmem, hp, rfl⟩), hf hp⟩
  · exact Remains.of_mem (Table.mem_updateWhere_of_not hmem (by simpa using hp))

theorem remains_insert {s t : Store} {projectId jobId : String} {type : JobType} {payload : Json}
    {createdAt updatedAt : ℤ}
    (hinsert : insertJobRowTx s projectId type payload jobId createdAt updatedAt = .ok t)
    {row : JobRow} (hmem : row ∈ s.jobs) : Remains t row := by
  unfold insertJobRowTx at hinsert
  obtain ⟨_, _, hinsert⟩ := Outcome.bind_eq_ok.mp hinsert
  obtain ⟨_, _, hinsert⟩ := Outcome.bind_eq_ok.mp hinsert
  obtain ⟨_, _, hinsert⟩ := Outcome.bind_eq_ok.mp hinsert
  cases hinsert
  exact Remains.of_mem (List.mem_append_left _ hmem)

/-- Other processes take no job away. -/
theorem remains_outside {s t : Store} {action : JobStore.Action}
    (houtside : isOutside action = true) (hstep : JobStore.step s action = some t) {row : JobRow}
    (hmem : row ∈ s.jobs) : Remains t row := by
  cases action with
  | otherTables projects deployments runtimeInstances =>
      cases hstep
      exact Remains.of_mem hmem
  | enqueueJob projectId type payload jobId now =>
      exact remains_insert (Outcome.toOption_eq_some.mp hstep) hmem
  | enqueueDeploymentArchive projectId deploymentId automatic jobId now =>
      have henqueue := Outcome.toOption_eq_some.mp hstep
      unfold enqueueDeploymentArchive at henqueue
      obtain ⟨_, _, henqueue⟩ := Outcome.bind_eq_ok.mp henqueue
      obtain ⟨_, _, henqueue⟩ := Outcome.bind_eq_ok.mp henqueue
      split at henqueue
      · cases henqueue
        exact Remains.of_mem hmem
      · exact remains_insert henqueue hmem
  | enqueueDeploymentActivation projectId deploymentId runtimeInstanceId jobId now staleAfterMs =>
      have henqueue := Outcome.toOption_eq_some.mp hstep
      unfold enqueueDeploymentActivation at henqueue
      obtain ⟨_, _, henqueue⟩ := Outcome.bind_eq_ok.mp henqueue
      obtain ⟨_, _, henqueue⟩ := Outcome.bind_eq_ok.mp henqueue
      obtain ⟨_, _, henqueue⟩ := Outcome.bind_eq_ok.mp henqueue
      obtain ⟨_, _, henqueue⟩ := Outcome.bind_eq_ok.mp henqueue
      split at henqueue
      · split at henqueue
        · cases henqueue
          exact remains_updateJobs hmem fun _ => ⟨rfl, rfl, rfl, rfl, Or.inr rfl⟩
        · cases henqueue
          exact Remains.of_mem hmem
      · exact remains_insert henqueue hmem
  | claimStatement now options locked => cases houtside
  | quarantine jobId attempts now => cases houtside
  | heartbeatJob jobId attempt now => cases houtside
  | replaceJobPayload jobId type payload attempt now => cases houtside
  | completeJob jobId attempt now => cases houtside
  | failJob jobId error attempt now => cases houtside
  | recoverStaleJobs now staleAfterMs limit => cases houtside

/-! ## Pending restarts -/

/-- A row is a restart of the deployment. -/
structure IsRestart (deploymentId : String) (row : JobRow) : Prop where
  type : row.type = some .restartDeployment
  target : row.deploymentId = some deploymentId
  decodes : decodesJobRow row = true

theorem IsRestart.of_same {deploymentId : String} {row later : JobRow}
    (h : IsRestart deploymentId row) (htype : later.type = row.type)
    (hpayload : later.payload = row.payload) : IsRestart deploymentId later where
  type := htype.trans h.type
  target := by
    rw [JobRow.deploymentId, hpayload]
    exact h.target
  decodes := by
    rw [decodesJobRow, htype, hpayload]
    exact h.decodes

/-- An execution of the row is a restart of the deployment that has not stopped it yet. -/
structure Stops (s : State) (row : JobRow) (deploymentId : String) (i : ℕ)
    (execution : Execution) : Prop where
  found : s.workers.executions[i]? = some execution
  claim : execution.claim = (row.id, row.attempts)
  phase : execution.phase = .working
  type : execution.type = some .restartDeployment
  target : targetOf execution = some deploymentId
  before : (s.handlers i).isBeforeStop = true

theorem isStopping_iff {s : State} {row : JobRow} {deploymentId : String} {i : ℕ} :
    s.isStopping row deploymentId i = true ↔ ∃ execution, Stops s row deploymentId i execution := by
  simp only [State.isStopping, Option.any_eq_true, Bool.and_eq_true, decide_eq_true_eq]
  constructor
  · rintro ⟨execution, hfound, ⟨⟨⟨hclaim, hphase⟩, htype⟩, htarget⟩, hbefore⟩
    exact ⟨execution, hfound, hclaim, hphase, htype, htarget, hbefore⟩
  · rintro ⟨execution, h⟩
    exact ⟨execution, h.found, ⟨⟨⟨h.claim, h.phase⟩, h.type⟩, h.target⟩, h.before⟩

theorem awaitsRestart_iff {s : State} {but : Option ℕ} {deploymentId : String} :
    s.awaitsRestart but deploymentId = true ↔
      ∃ row ∈ s.workers.store.jobs, IsRestart deploymentId row ∧
        (row.status = .queued ∨ row.status = .running ∧
          ∃ i execution, some i ≠ but ∧ Stops s row deploymentId i execution) := by
  simp only [State.awaitsRestart, State.isPending, List.any_eq_true, Bool.and_eq_true,
    Bool.or_eq_true, decide_eq_true_eq, List.mem_range, isStopping_iff]
  constructor
  · rintro ⟨row, hrow, ⟨⟨htype, htarget⟩, hdecodes⟩, hqueued | ⟨hrunning, i, _, hbut, execution, h⟩⟩
    · exact ⟨row, hrow, ⟨htype, htarget, hdecodes⟩, Or.inl hqueued⟩
    · exact ⟨row, hrow, ⟨htype, htarget, hdecodes⟩, Or.inr ⟨hrunning, i, execution, hbut, h⟩⟩
  · rintro ⟨row, hrow, hrestart, hqueued | ⟨hrunning, i, execution, hbut, h⟩⟩
    · exact ⟨row, hrow, ⟨⟨hrestart.type, hrestart.target⟩, hrestart.decodes⟩, Or.inl hqueued⟩
    · have hlt := (List.getElem?_eq_some_iff.mp h.found).1
      exact ⟨row, hrow, ⟨⟨hrestart.type, hrestart.target⟩, hrestart.decodes⟩,
        Or.inr ⟨hrunning, i, hlt, hbut, execution, h⟩⟩

/-- A restart stays pending where its row remains, and whoever works on it still does. -/
theorem awaitsRestart_of_remains {t : State} {row : JobRow} {deploymentId : String}
    (hrestart : IsRestart deploymentId row) (hremains : Remains t.workers.store row)
    (hstatus : row.status = .queued ∨ row.status = .running ∧
      ∃ i execution, Stops t row deploymentId i execution) :
    t.awaitsRestart none deploymentId = true := by
  obtain ⟨later, hlater, hid, htype, hpayload, hattempts, hsame⟩ := hremains
  refine awaitsRestart_iff.mpr ⟨later, hlater, hrestart.of_same htype hpayload, ?_⟩
  rcases hsame with hsame | hqueued
  · rw [hsame]
    rcases hstatus with hqueued | ⟨hrunning, i, execution, h⟩
    · exact Or.inl hqueued
    · refine Or.inr ⟨hrunning, i, execution, by simp, { h with claim := ?_ }⟩
      rw [h.claim, hid, hattempts]
  · exact Or.inl hqueued

/-- Handlers that move on keep a restart pending, unless it is the one to stop the process. -/
theorem awaitsRestart_of_handlers {s t : State} {but : Option ℕ} {deploymentId : String}
    (hworkers : t.workers = s.workers)
    (hhandlers : ∀ i execution, s.workers.executions[i]? = some execution →
      execution.type = some .restartDeployment → targetOf execution = some deploymentId →
        some i ≠ but → (s.handlers i).isBeforeStop = true → (t.handlers i).isBeforeStop = true)
    (hawaits : s.awaitsRestart but deploymentId = true) :
    t.awaitsRestart none deploymentId = true := by
  obtain ⟨row, hrow, hrestart, hstatus⟩ := awaitsRestart_iff.mp hawaits
  refine awaitsRestart_of_remains hrestart (Remains.of_mem (by rw [hworkers]; exact hrow)) ?_
  rcases hstatus with hqueued | ⟨hrunning, i, execution, hbut, h⟩
  · exact Or.inl hqueued
  · refine Or.inr ⟨hrunning, i, execution, { h with found := ?_, before := ?_ }⟩
    · rw [hworkers]
      exact h.found
    · exact hhandlers i execution h.found h.type h.target hbut h.before

section Work

variable {s : State} {row : JobRow} {deploymentId : String}

/-- A claim leaves a restart pending: the row it starts is worked on from the start. -/
theorem awaitsRestart_claim {store : Store} {claimed : JobRow} {now : ℤ} {options : ClaimOptions}
    {locked : List String} (hkeyed : WellKeyed s.workers.store)
    (hunstarted : ∀ i, s.workers.executions.length ≤ i → s.handlers i = .starting)
    (hclaim : claimStatement s.workers.store now options locked = some (store, claimed))
    (hrow : row ∈ s.workers.store.jobs) (hrestart : IsRestart deploymentId row)
    (hstatus : row.status = .queued ∨ row.status = .running ∧
      ∃ i execution, Stops s row deploymentId i execution) :
    State.awaitsRestart
      { s with
        workers := { s.workers with
          store, executions := s.workers.executions ++ [execute claimed] } }
      none deploymentId = true := by
  obtain ⟨candidate, hcandidate, _, rfl, rfl⟩ := claimStatement_cases hclaim
  by_cases hid : row.id = candidate.id
  · -- The claim starts the row itself, so it was queued, and has an execution of its own now.
    obtain rfl := hkeyed.eq hrow hcandidate hid
    let running : JobRow :=
      { row with status := .running, attempts := row.attempts + 1, lockedAt := some now,
                 updatedAt := now }
    have hrunning : IsRestart deploymentId running := hrestart.of_same rfl rfl
    refine awaitsRestart_iff.mpr ⟨running,
      Table.mem_updateWhere.mpr (Or.inr ⟨row, hrow, by simp, rfl⟩), hrunning,
      Or.inr ⟨rfl, s.workers.executions.length, execute running, by simp, ?_⟩⟩
    exact
      { found := by simp [running]
        claim := rfl
        phase := by simp [execute, hrunning.decodes]
        type := hrestart.type
        target := hrestart.target
        before := by simp [hunstarted _ le_rfl, Handler.isBeforeStop] }
  · refine awaitsRestart_of_remains hrestart (Remains.of_mem
      (Table.mem_updateWhere_of_not hrow (by simpa using hid))) ?_
    rcases hstatus with hqueued | ⟨hrunning, i, execution, h⟩
    · exact Or.inl hqueued
    · have hlt := (List.getElem?_eq_some_iff.mp h.found).1
      refine Or.inr ⟨hrunning, i, execution, { h with found := ?_ }⟩
      rw [List.getElem?_append_left hlt]
      exact h.found

/-- All that the worker of a restart does before the process is stopped is to renew the claim. -/
theorem heartbeat_of_stops {i : ℕ} {e : Execution} {operation : Operation} {store : Store}
    {phase : JobExecutions.Phase} (h : Stops s row deploymentId i e)
    (hmay : s.mayWork (.operate i operation) = true)
    (hoperate : operate s.workers.store e operation = some (store, phase)) :
    ∃ now, operation = .heartbeat now := by
  have hlaunches : launches e.type = true := by rw [h.type]; rfl
  cases operation with
  | heartbeat now => exact ⟨now, rfl⟩
  | replacePayload type payload now => simp [State.mayWork, h.found, hlaunches] at hmay
  | dispatchEnds succeeded =>
      simp only [State.mayWork, h.found, hlaunches, Bool.not_true, Bool.false_or,
        decide_eq_true_eq] at hmay
      have hbefore := h.before
      rw [hmay] at hbefore
      cases hbefore
  | quarantine now => simp [operate, h.phase] at hoperate
  | clearCredential now replyLost => simp [operate, h.phase] at hoperate
  | complete now replyLost => simp [operate, h.phase] at hoperate
  | fail error now => simp [operate, h.phase] at hoperate

/-- An operation of an execution leaves a restart pending: it writes no row but its own, and the
execution of a restart that has not stopped its process only renews its claim. -/
theorem awaitsRestart_operate {workers : System} {i : ℕ} {operation : Operation}
    (hfencing : Fencing s.workers) (hmay : s.mayWork (.operate i operation) = true)
    (hstep : JobExecutions.step s.workers (.operate i operation) = some workers)
    (hrow : row ∈ s.workers.store.jobs) (hrestart : IsRestart deploymentId row)
    (hstatus : row.status = .queued ∨ row.status = .running ∧
      ∃ i execution, Stops s row deploymentId i execution) :
    State.awaitsRestart { s with workers } none deploymentId = true := by
  obtain ⟨e, store, phase, he, hoperate, rfl⟩ := step_operate hstep
  obtain ⟨p, f, hstore, hp, _⟩ := operate_fenced hoperate
  have huntouched (hnot : ¬ (row.id = e.jobId ∧ row.status = .running ∧ row.attempts = e.attempt)) :
      Remains store row := by
    rw [hstore]
    refine Remains.of_mem (Table.mem_updateWhere_of_not hrow ?_)
    by_contra hwrites
    exact hnot (hp row (by simpa using hwrites))
  rcases hstatus with hqueued | ⟨hrunning, j, execution, h⟩
  · refine awaitsRestart_of_remains hrestart (huntouched ?_) (Or.inl hqueued)
    rintro ⟨_, hrunning, _⟩
    rw [hqueued] at hrunning
    cases hrunning
  by_cases hij : i = j
  · subst i
    obtain rfl := Option.some.inj (he.symm.trans h.found)
    obtain ⟨now, rfl⟩ : ∃ now, operation = .heartbeat now :=
      heartbeat_of_stops h hmay hoperate
    simp only [operate, h.phase] at hoperate
    cases hoperate
    have hlt := (List.getElem?_eq_some_iff.mp h.found).1
    refine awaitsRestart_of_remains hrestart
      (remains_updateJobs hrow fun _ => ⟨rfl, rfl, rfl, rfl, Or.inl rfl⟩)
      (Or.inr ⟨hrunning, j, e, { h with found := ?_ }⟩)
    simp [List.getElem?_set_self hlt, h.phase.symm]
  · have hclaims : e.claim ≠ execution.claim := by
      intro hsame
      have hlt : i < (s.workers.executions.map Execution.claim).length := by
        rw [List.length_map]
        exact (List.getElem?_eq_some_iff.mp he).1
      refine hij ((List.getElem?_inj hlt hfencing.claims).mp ?_)
      simp [he, h.found, hsame]
    refine awaitsRestart_of_remains hrestart (huntouched ?_)
      (Or.inr ⟨hrunning, j, execution, { h with found := ?_ }⟩)
    · rintro ⟨hid, _, hattempts⟩
      apply hclaims
      rw [h.claim, Execution.claim, hid, hattempts]
    · rw [List.getElem?_set_ne hij]
      exact h.found

/-- No step of the workers takes a pending restart away. -/
theorem awaitsRestart_work {action : JobExecutions.Action} {workers : System}
    (hfencing : Fencing s.workers)
    (hunstarted : ∀ i, s.workers.executions.length ≤ i → s.handlers i = .starting)
    (hmay : s.mayWork action = true)
    (hstep : JobExecutions.step s.workers action = some workers)
    (hawaits : s.awaitsRestart none deploymentId = true) :
    State.awaitsRestart { s with workers } none deploymentId = true := by
  obtain ⟨row, hrow, hrestart, hstatus⟩ := awaitsRestart_iff.mp hawaits
  have hstatus : row.status = .queued ∨ row.status = .running ∧
      ∃ i execution, Stops s row deploymentId i execution := by
    rcases hstatus with hqueued | ⟨hrunning, i, execution, _, h⟩
    · exact Or.inl hqueued
    · exact Or.inr ⟨hrunning, i, execution, h⟩
  -- Where no execution changes, the row remains, and so does who works on it.
  have hremains {workers : System} (hexecutions : workers.executions = s.workers.executions)
      (hremains : Remains workers.store row) :
      State.awaitsRestart { s with workers } none deploymentId = true := by
    refine awaitsRestart_of_remains hrestart hremains ?_
    rcases hstatus with hqueued | ⟨hrunning, i, execution, h⟩
    · exact Or.inl hqueued
    · refine Or.inr ⟨hrunning, i, execution, { h with found := ?_ }⟩
      rw [hexecutions]
      exact h.found
  cases action with
  | outside action =>
      simp only [JobExecutions.step] at hstep
      split at hstep
      · next houtside =>
          obtain ⟨store, hstore, rfl⟩ := Option.map_eq_some_iff.mp hstep
          exact hremains rfl (remains_outside houtside hstore hrow)
      · cases hstep
  | claim now options locked =>
      obtain ⟨⟨store, claimed⟩, hclaim, rfl⟩ := Option.map_eq_some_iff.mp hstep
      exact awaitsRestart_claim hfencing.keyed hunstarted hclaim hrow hrestart hstatus
  | operate i operation =>
      exact awaitsRestart_operate hfencing hmay hstep hrow hrestart hstatus
  | selectStale now staleAfterMs limit =>
      cases hstep
      exact hremains rfl (Remains.of_mem hrow)
  | requeueStale k now =>
      obtain ⟨jobIds, _, hstep⟩ := Option.bind_eq_some_iff.mp hstep
      cases hstep
      exact hremains rfl (remains_updateJobs hrow fun _ => ⟨rfl, rfl, rfl, rfl, Or.inr rfl⟩)

end Work

/-! ## What is stored -/

section Environments

variable {P : Platform}

theorem environment_congr {s t : State} {projectId : String} (hshared : t.shared = s.shared)
    (hsecrets : (t.secrets.filter fun row => row.projectId = projectId) =
      s.secrets.filter fun row => row.projectId = projectId) :
    t.environment P projectId = s.environment P projectId := by
  simp only [State.environment, State.readRuntimeSecrets, State.readSharedAgentEnvironmentValues,
    hshared, hsecrets]

/-- What is stored for other projects stays where a selection of rows of one project is updated. -/
theorem filter_updateWhere_of_project {p : SecretRow → Bool} {f : SecretRow → SecretRow}
    {projectId other : String} (hne : other ≠ projectId)
    (hp : ∀ row, p row = true → row.projectId = projectId)
    (hf : ∀ row, (f row).projectId = row.projectId) (rows : List SecretRow) :
    ((Table.updateWhere p f rows).filter fun row => row.projectId = other) =
      rows.filter fun row => row.projectId = other := by
  rw [Table.filter_updateWhere (fun row => by rw [hf])]
  apply Table.updateWhere_eq_self
  intro row hrow hselected
  have hother : row.projectId = other := by simpa using (List.mem_filter.mp hrow).2
  exact absurd (hother.symm.trans (hp row hselected)) hne

theorem filter_upsertSecret {rows : List SecretRow} {projectId other id : String} {entry : Entry}
    (hne : other ≠ projectId) :
    ((upsertSecret rows projectId id entry).filter fun row => row.projectId = other) =
      rows.filter fun row => row.projectId = other := by
  unfold upsertSecret Table.upsertWhere
  split
  · apply filter_updateWhere_of_project hne
    · intro row hrow
      simp only [Bool.and_eq_true, decide_eq_true_eq] at hrow
      exact hrow.1
    · exact fun _ => rfl
  · simp [List.filter_append, Ne.symm hne]

theorem filter_upsertSecrets {projectId other : String} (hne : other ≠ projectId)
    (entries : List (String × Entry)) (rows : List SecretRow) :
    ((upsertSecrets rows projectId entries).filter fun row => row.projectId = other) =
      rows.filter fun row => row.projectId = other := by
  induction entries generalizing rows with
  | nil => rfl
  | cons entry entries ih =>
      rw [upsertSecrets, List.foldl_cons]
      exact (ih _).trans (filter_upsertSecret hne)

/-- A request writes the secrets of one project only. -/
theorem filter_writeSecrets {rows written : List SecretRow} {request : Request}
    {projectId other : String} (hwrite : request.writeSecrets rows = some (projectId, written))
    (hne : other ≠ projectId) :
    (written.filter fun row => row.projectId = other) =
      rows.filter fun row => row.projectId = other := by
  cases request with
  | upsertSecret projectId id entry =>
      cases hwrite
      exact filter_upsertSecret hne
  | upsertSecrets projectId entries =>
      cases hwrite
      exact filter_upsertSecrets hne entries rows
  | updateSecret projectId secretId key kind encryptedValue =>
      obtain ⟨_, hupdate, heq⟩ := Option.map_eq_some_iff.mp hwrite
      cases heq
      unfold updateSecret at hupdate
      split at hupdate
      · cases hupdate
        apply filter_updateWhere_of_project hne
        · intro row hrow
          simp only [Bool.and_eq_true, decide_eq_true_eq] at hrow
          exact hrow.1
        · exact fun _ => rfl
      · cases hupdate
  | deleteSecret projectId secretId =>
      obtain ⟨_, hdelete, heq⟩ := Option.map_eq_some_iff.mp hwrite
      cases heq
      unfold deleteSecret at hdelete
      split at hdelete
      · cases hdelete
        rw [List.filter_filter]
        apply List.filter_congr
        intro row _
        by_cases hother : row.projectId = other
        · have hproject : row.projectId ≠ projectId := fun heq => hne (hother.symm.trans heq)
          simp [hproject]
        · simp [hother]
      · cases hdelete
  | saveShared entries => cases hwrite

/-- The revision that is stored, 0 while there is none. -/
def State.revision (s : State) : ℕ := (s.shared.map Row.revision).getD 0

/-- A save that leaves the revision as it was read, or earlier, changes nothing. -/
theorem save_of_revision {s : State} {previousRevision : ℕ} {entries : List Entry}
    (hread : previousRevision ≤ s.revision)
    (hsame : (P.save s.shared entries).revision = previousRevision) :
    some (P.save s.shared entries) = s.shared := by
  cases hshared : s.shared with
  | none =>
      simp only [hshared, SharedEnvironment.Platform.save, State.revision] at hread hsame
      subst hsame
      simp at hread
  | some existing =>
      simp only [hshared, SharedEnvironment.Platform.save, State.revision, Option.map_some,
        Option.getD_some] at hread hsame ⊢
      split at hsame
      · next hentries => rw [if_pos hentries]
      · change existing.revision + 1 = previousRevision at hsame
        omega

theorem revision_save {s : State} (entries : List Entry) :
    s.revision ≤ (P.save s.shared entries).revision := by
  cases hshared : s.shared with
  | none => simp [State.revision, hshared]
  | some existing =>
      simp only [hshared, SharedEnvironment.Platform.save, State.revision, Option.map_some,
        Option.getD_some]
      split
      · exact le_rfl
      · exact Nat.le_succ _

end Environments

/-! ## The invariant -/

/-- The deployment that a handler has read the environment for, before it stops anything. -/
def Handler.aim : Handler → Option String
  | .composing _ deploymentId _ => some deploymentId
  | .composed launch => some launch.deploymentId
  | _ => none

section Tracking

variable (P : Platform)

/-- Every live process is up to date or about to be replaced; and what that rests on. -/
structure Tracked (s : State) : Prop where
  fencing : Fencing s.workers
  unstarted : ∀ i, s.workers.executions.length ≤ i → s.handlers i = .starting
  /-- A restart goes on with the deployment that its payload names. -/
  aimed : ∀ (i : ℕ) execution, s.workers.executions[i]? = some execution →
    execution.type = some .restartDeployment → ∀ deploymentId aim,
      targetOf execution = some deploymentId → (s.handlers i).aim = some aim → aim = deploymentId
  revisions : ∀ pending ∈ s.requests, ∀ previousRevision entries,
    pending.phase = .saving previousRevision entries → previousRevision ≤ s.revision
  reached : ∀ process ∈ s.processes, s.isReached P s.requests none process = true

end Tracking

section Reached

variable {P : Platform}

theorem isReached_iff {s : State} {requests : List OpenRequest} {but : Option ℕ}
    {process : Launch} :
    s.isReached P requests but process = true ↔
      s.isCurrent P process = true ∨ s.awaitsRestart but process.deploymentId = true ∨
        ∃ pending ∈ requests, pending.willRestart process = true := by
  simp [State.isReached, or_assoc]

/-- What a step may change of how a process is reached: each of the three ways leads to one. -/
theorem isReached_mono {s t : State} {first later : List OpenRequest} {but : Option ℕ}
    {process : Launch}
    (hcurrent : s.isCurrent P process = true → t.isReached P later none process = true)
    (hawaits : s.awaitsRestart but process.deploymentId = true →
      t.awaitsRestart none process.deploymentId = true)
    (hrequests : ∀ pending ∈ first, pending.willRestart process = true →
      t.isReached P later none process = true)
    (h : s.isReached P first but process = true) : t.isReached P later none process = true := by
  rcases isReached_iff.mp h with h | h | ⟨pending, hpending, h⟩
  · exact hcurrent h
  · exact isReached_iff.mpr (Or.inr (Or.inl (hawaits h)))
  · exact hrequests pending hpending h

theorem isCurrent_congr {s t : State} (hsecrets : t.secrets = s.secrets)
    (hshared : t.shared = s.shared) (process : Launch) :
    t.isCurrent P process = s.isCurrent P process := by
  rw [State.isCurrent, State.isCurrent, environment_congr hshared (by rw [hsecrets])]

/-- A step that keeps what is stored and the requests, and every pending restart. -/
theorem isReached_of_same {s t : State} {but : Option ℕ} {process : Launch}
    (hsecrets : t.secrets = s.secrets) (hshared : t.shared = s.shared)
    (hrequests : t.requests = s.requests)
    (hawaits : s.awaitsRestart but process.deploymentId = true →
      t.awaitsRestart none process.deploymentId = true)
    (h : s.isReached P s.requests but process = true) :
    t.isReached P t.requests none process = true := by
  refine isReached_mono ?_ hawaits ?_ h
  · intro hcurrent
    rw [isReached_iff, isCurrent_congr hsecrets hshared]
    exact Or.inl hcurrent
  · intro pending hpending hwill
    rw [isReached_iff, hrequests]
    exact Or.inr (Or.inr ⟨pending, hpending, hwill⟩)

end Reached

section Steps

variable {P : Platform} {s t : State}

/-- A step of the workers keeps the invariant. -/
theorem Tracked.work (h : Tracked P s) {action : JobExecutions.Action} {workers : System}
    (hmay : s.mayWork action = true)
    (hstep : JobExecutions.step s.workers action = some workers) :
    Tracked P { s with workers } where
  fencing := step_fencing h.fencing hstep
  unstarted i hi := h.unstarted i ((executions_length_step hstep).trans hi)
  aimed i later hlater htype deploymentId aim htarget haim := by
    by_cases hlt : i < s.workers.executions.length
    · obtain ⟨found, hfound, _, hsametype, hpayload⟩ :=
        executions_step hstep (List.getElem?_eq_getElem hlt)
      obtain rfl := Option.some.inj (hfound.symm.trans hlater)
      refine h.aimed i _ (List.getElem?_eq_getElem hlt) (hsametype.symm.trans htype) deploymentId
        aim ?_ haim
      rw [targetOf, ← hpayload]
      exact htarget
    · change (s.handlers i).aim = some aim at haim
      rw [h.unstarted i (by omega)] at haim
      cases haim
  revisions := h.revisions
  reached process hprocess :=
    isReached_of_same (s := s) rfl rfl rfl
      (awaitsRestart_work h.fencing h.unstarted hmay hstep) (h.reached process hprocess)

/-- The step moves the handler of an execution, and besides it only processes and deployments. -/
structure Moves (s t : State) (i : ℕ) (handler : Handler) : Prop where
  workers : t.workers = s.workers
  secrets : t.secrets = s.secrets
  shared : t.shared = s.shared
  requests : t.requests = s.requests
  handlers : t.handlers = Function.update s.handlers i handler

/-- A handler that moves on keeps the invariant, if every process it leaves is reached, and is so
without the handler's own restart where that one ends its wait. -/
theorem Tracked.move (h : Tracked P s) {i : ℕ} {e : Execution} {handler : Handler}
    (he : s.workers.executions[i]? = some e) (hmoves : Moves s t i handler)
    (haim : e.type = some .restartDeployment → ∀ deploymentId aim,
      targetOf e = some deploymentId → handler.aim = some aim → aim = deploymentId)
    (hprocesses : ∀ process ∈ t.processes, s.isReached P s.requests none process = true)
    (hstop : e.type = some .restartDeployment → (s.handlers i).isBeforeStop = true →
      handler.isBeforeStop = false → ∀ process ∈ t.processes,
        targetOf e = some process.deploymentId →
          s.isReached P s.requests (some i) process = true) : Tracked P t where
  fencing := hmoves.workers ▸ h.fencing
  unstarted j hj := by
    rw [hmoves.workers] at hj
    have hlt := (List.getElem?_eq_some_iff.mp he).1
    rw [hmoves.handlers, Function.update_of_ne (by omega)]
    exact h.unstarted j hj
  aimed j execution hexecution htype deploymentId aim htarget hj := by
    rw [hmoves.workers] at hexecution
    rw [hmoves.handlers] at hj
    by_cases hji : j = i
    · subst j
      obtain rfl := Option.some.inj (hexecution.symm.trans he)
      rw [Function.update_self] at hj
      exact haim htype deploymentId aim htarget hj
    · rw [Function.update_of_ne hji] at hj
      exact h.aimed j execution hexecution htype deploymentId aim htarget hj
  revisions := by
    rw [hmoves.requests, State.revision, hmoves.shared]
    exact h.revisions
  reached process hprocess := by
    by_cases hends : e.type = some .restartDeployment ∧ (s.handlers i).isBeforeStop = true ∧
        handler.isBeforeStop = false ∧ targetOf e = some process.deploymentId
    · obtain ⟨htype, hbefore, hafter, htarget⟩ := hends
      refine isReached_of_same hmoves.secrets hmoves.shared hmoves.requests ?_
        (hstop htype hbefore hafter process hprocess htarget)
      apply awaitsRestart_of_handlers hmoves.workers
      intro j execution _ _ _ hbut hwaits
      rw [hmoves.handlers, Function.update_of_ne fun heq => hbut (congrArg some heq)]
      exact hwaits
    · refine isReached_of_same hmoves.secrets hmoves.shared hmoves.requests ?_
        (hprocesses process hprocess)
      apply awaitsRestart_of_handlers hmoves.workers
      intro j execution hexecution htype htarget _ hwaits
      rw [hmoves.handlers]
      by_cases hji : j = i
      · subst j
        obtain rfl := Option.some.inj (hexecution.symm.trans he)
        rw [Function.update_self]
        by_contra hnot
        exact hends ⟨htype, hwaits, by simpa using hnot, htarget⟩
      · rw [Function.update_of_ne hji]
        exact hwaits

/-- The handler of a build or an activation, that may have started a process that is reached. -/
theorem Tracked.moveOther (h : Tracked P s) {i : ℕ} {e : Execution} {handler : Handler}
    (he : s.workers.executions[i]? = some e) (htype : e.type ≠ some .restartDeployment)
    (hmoves : Moves s t i handler)
    (hprocesses : ∀ process ∈ t.processes, process ∈ s.processes ∨
      s.isReached P s.requests none process = true) : Tracked P t := by
  refine h.move he hmoves (fun his => absurd his htype) (fun process hprocess => ?_)
    (fun his => absurd his htype)
  rcases hprocesses process hprocess with hwas | hreached
  · exact h.reached process hwas
  · exact hreached

theorem mem_stopProcess {deploymentId : String} {process : Launch}
    (hprocess : process ∈ (s.stopProcess deploymentId).processes) :
    process ∈ s.processes ∧ process.deploymentId ≠ deploymentId := by
  simpa [State.stopProcess] using hprocess

theorem mem_startProcess {launch process : Launch}
    (hprocess : process ∈ (s.startProcess launch).processes) :
    process = launch ∨ process ∈ s.processes := by
  rcases List.mem_cons.mp hprocess with rfl | hprocess
  · exact Or.inl rfl
  · exact Or.inr (List.mem_filter.mp hprocess).1

/-- The state after a clean-up, whether or not it has stopped the process. -/
theorem moves_cleanUp {i : ℕ} {handler : Handler} (launch : Launch) (stops : Bool) :
    Moves s ((if stops then s.stopProcess launch.deploymentId else s).setHandler i handler) i
      handler := by
  cases stops <;> exact ⟨rfl, rfl, rfl, rfl, rfl⟩

theorem mem_cleanUp {i : ℕ} {handler : Handler} {launch process : Launch} {stops : Bool}
    (hprocess : process ∈
      ((if stops then s.stopProcess launch.deploymentId else s).setHandler i handler).processes) :
    process ∈ s.processes := by
  cases stops with
  | false => exact hprocess
  | true => exact (mem_stopProcess hprocess).1

/-- A start that the guard lets through leaves processes that are reached. -/
theorem reached_startProcess {launch : Launch}
    (hreached : s.isReached P s.requests none launch = true) :
    ∀ process ∈ (s.startProcess launch).processes, process ∈ s.processes ∨
      s.isReached P s.requests none process = true := by
  intro process hprocess
  rcases mem_startProcess hprocess with rfl | hwas
  · exact Or.inr hreached
  · exact Or.inl hwas

theorem Tracked.handleBuild (h : Tracked P s) {i : ℕ} {e : Execution} {move : Move}
    (he : s.workers.executions[i]? = some e) (htype : e.type = some .buildDeploy)
    (hfinds : FindsAll P s (.handle i move) = true)
    (hstep : handleBuild P s i e (s.handlers i) move = some t) : Tracked P t := by
  have hother : e.type ≠ some .restartDeployment := by rw [htype]; decide
  unfold EnvironmentChanges.handleBuild at hstep
  split at hstep
  · obtain ⟨projectId, _, rfl⟩ := Option.map_eq_some_iff.mp hstep
    exact h.moveOther he hother ⟨rfl, rfl, rfl, rfl, rfl⟩ fun _ hprocess => Or.inl hprocess
  · cases hstep
    exact h.moveOther he hother ⟨rfl, rfl, rfl, rfl, rfl⟩ fun _ hprocess => Or.inl hprocess
  · next launch reuses hhandler =>
      split at hstep
      · cases hstep
      · cases hstep
        simp only [FindsAll, he, hhandler, htype, ne_eq, not_true_eq_false, decide_false,
          Bool.false_and, Bool.false_or] at hfinds
        exact h.moveOther he hother ⟨rfl, rfl, rfl, rfl, rfl⟩ (reached_startProcess hfinds)
  · cases hstep
    exact h.moveOther he hother ⟨rfl, rfl, rfl, rfl, rfl⟩ fun _ hprocess => Or.inl hprocess
  · split at hstep
    · cases hstep
    · cases hstep
      exact h.moveOther he hother ⟨rfl, rfl, rfl, rfl, rfl⟩ fun _ hprocess => Or.inl hprocess
  case h_13 launch stops _ =>
      cases hstep
      refine h.moveOther he hother (moves_cleanUp _ _) fun process hprocess => Or.inl ?_
      exact mem_cleanUp hprocess
  case h_14 => cases hstep
  all_goals
    cases hstep
    exact h.moveOther he hother ⟨rfl, rfl, rfl, rfl, rfl⟩ fun _ hprocess => Or.inl hprocess

/-- The handler of a restart that waits on, aiming at the deployment its payload names. -/
theorem Tracked.aimRestart (h : Tracked P s) {i : ℕ} {e : Execution} {handler : Handler}
    (he : s.workers.executions[i]? = some e)
    (haim : ∀ aim, handler.aim = some aim → ∀ deploymentId, targetOf e = some deploymentId →
      aim = deploymentId)
    (hbefore : handler.isBeforeStop = true) : Tracked P (s.setHandler i handler) := by
  refine h.move he ⟨rfl, rfl, rfl, rfl, rfl⟩
    (fun _ deploymentId aim htarget his => haim aim his deploymentId htarget)
    (fun process hprocess => h.reached process hprocess) fun _ _ hafter => ?_
  rw [hbefore] at hafter
  cases hafter

/-- The handler of a restart that has stopped its process, and may have started one that is
reached. -/
theorem Tracked.pastStop (h : Tracked P s) {i : ℕ} {e : Execution} {handler : Handler}
    (he : s.workers.executions[i]? = some e) (hwas : (s.handlers i).isBeforeStop = false)
    (hmoves : Moves s t i handler) (haim : handler.aim = none)
    (hprocesses : ∀ process ∈ t.processes, process ∈ s.processes ∨
      s.isReached P s.requests none process = true) : Tracked P t := by
  refine h.move he hmoves (fun _ _ aim _ his => ?_) (fun process hprocess => ?_)
    fun _ hbefore => ?_
  · rw [haim] at his
    cases his
  · rcases hprocesses process hprocess with hwas | hreached
    · exact h.reached process hwas
    · exact hreached
  · rw [hwas] at hbefore
    cases hbefore

/-- The guard of a restart that throws before its stop. -/
theorem mayEnd_of_throw {i : ℕ} {e : Execution} (he : s.workers.executions[i]? = some e)
    (htype : e.type = some .restartDeployment) (hbefore : (s.handlers i).isBeforeStop = true)
    (hfinds : FindsAll P s (.handle i .throw) = true) : s.mayEnd P i e = true := by
  simpa [FindsAll, he, htype, hbefore] using hfinds

/-- A restart ends before its stop where the guard lets it. -/
theorem Tracked.endRestart (h : Tracked P s) {i : ℕ} {e : Execution}
    (he : s.workers.executions[i]? = some e) (hends : s.mayEnd P i e = true) :
    Tracked P (s.setHandler i .ended) := by
  refine h.move he ⟨rfl, rfl, rfl, rfl, rfl⟩ (fun _ _ _ _ hnone => by cases hnone)
    (fun process hprocess => h.reached process hprocess) ?_
  intro _ _ _ process hprocess htarget
  have hreached := List.all_eq_true.mp hends process hprocess
  simpa [htarget] using hreached

theorem admits_target {e : Execution} {current : Option String} {projectId deploymentId named : String}
    (hadmits : s.admits e (restartTarget e current) = some (projectId, deploymentId))
    (htarget : targetOf e = some named) : deploymentId = named := by
  unfold State.admits at hadmits
  split at hadmits
  · next deployment projectId' hfound _ =>
      split at hadmits
      · cases hadmits
        rw [restartTarget, htarget, Option.some_or, Option.bind_some] at hfound
        simpa using List.find?_some hfound
      · cases hadmits
  · cases hadmits

theorem Tracked.handleRestart (h : Tracked P s) {i : ℕ} {e : Execution} {move : Move}
    (he : s.workers.executions[i]? = some e) (htype : e.type = some .restartDeployment)
    (hfinds : FindsAll P s (.handle i move) = true)
    (hstep : handleRestart P s i e (s.handlers i) move = some t) : Tracked P t := by
  unfold EnvironmentChanges.handleRestart at hstep
  split at hstep
  · next drawn current hhandler =>
      split at hstep
      · next projectId deploymentId hadmits =>
          cases hstep
          refine h.aimRestart he ?_ rfl
          intro aim haim named htarget
          cases haim
          exact admits_target hadmits htarget
      · next hadmits =>
          cases hstep
          simp only [FindsAll, he, hhandler, htype, ne_eq, not_true_eq_false, decide_false,
            Bool.false_or, hadmits, Option.isSome_none] at hfinds
          exact h.endRestart he hfinds
  · next projectId deploymentId secrets hhandler =>
      cases hstep
      refine h.aimRestart he ?_ rfl
      intro aim haim named htarget
      cases haim
      exact h.aimed i e he htype named deploymentId htarget (by rw [hhandler]; rfl)
  · next launch hhandler =>
      cases hstep
      refine h.move he ⟨rfl, rfl, rfl, rfl, rfl⟩ (fun _ _ _ _ hnone => by cases hnone)
        (fun process hprocess => h.reached process (mem_stopProcess hprocess).1) ?_
      -- The process that the restart was to stop is gone.
      intro _ _ _ process hprocess htarget
      have haim := h.aimed i e he htype process.deploymentId launch.deploymentId htarget
        (by rw [hhandler]; rfl)
      exact absurd haim.symm (mem_stopProcess hprocess).2
  · next launch reuses hhandler =>
      split at hstep
      · cases hstep
      · cases hstep
        simp only [FindsAll, he, hhandler] at hfinds
        exact h.pastStop he (by rw [hhandler]; rfl) ⟨rfl, rfl, rfl, rfl, rfl⟩ rfl
          (reached_startProcess hfinds)
  · next launch hhandler =>
      cases hstep
      exact h.pastStop he (by rw [hhandler]; rfl) ⟨rfl, rfl, rfl, rfl, rfl⟩ rfl
        fun _ hprocess => Or.inl hprocess
  · next launch hhandler =>
      cases hstep
      exact h.pastStop he (by rw [hhandler]; rfl) ⟨rfl, rfl, rfl, rfl, rfl⟩ rfl
        fun _ hprocess => Or.inl hprocess
  · next hhandler =>
      cases hstep
      exact h.endRestart he (mayEnd_of_throw he htype (by rw [hhandler]; rfl) hfinds)
  · next hhandler =>
      cases hstep
      exact h.endRestart he (mayEnd_of_throw he htype (by rw [hhandler]; rfl) hfinds)
  · next hhandler =>
      cases hstep
      exact h.endRestart he (mayEnd_of_throw he htype (by rw [hhandler]; rfl) hfinds)
  · next hhandler =>
      cases hstep
      exact h.pastStop he (by rw [hhandler]; rfl) ⟨rfl, rfl, rfl, rfl, rfl⟩ rfl
        fun _ hprocess => Or.inl hprocess
  · next hhandler =>
      cases hstep
      exact h.pastStop he (by rw [hhandler]; rfl) ⟨rfl, rfl, rfl, rfl, rfl⟩ rfl
        fun _ hprocess => Or.inl hprocess
  · next launch hhandler =>
      cases hstep
      exact h.pastStop he (by rw [hhandler]; rfl) ⟨rfl, rfl, rfl, rfl, rfl⟩ rfl
        fun _ hprocess => Or.inl hprocess
  · next launch hhandler =>
      cases hstep
      exact h.pastStop he (by rw [hhandler]; rfl) ⟨rfl, rfl, rfl, rfl, rfl⟩ rfl
        fun _ hprocess => Or.inl hprocess
  · next launch stops hhandler =>
      cases hstep
      exact h.pastStop he (by rw [hhandler]; rfl) (moves_cleanUp _ _) rfl
        fun _ hprocess => Or.inl (mem_cleanUp hprocess)
  · next launch hhandler =>
      cases hstep
      exact h.pastStop he (by rw [hhandler]; rfl) ⟨rfl, rfl, rfl, rfl, rfl⟩ rfl
        fun _ hprocess => Or.inl hprocess
  · cases hstep

theorem Tracked.handleActivation (h : Tracked P s) {i : ℕ} {e : Execution} {move : Move}
    (he : s.workers.executions[i]? = some e) (hother : e.type ≠ some .restartDeployment)
    (hbuild : e.type ≠ some .buildDeploy) (hfinds : FindsAll P s (.handle i move) = true)
    (hstep : handleActivation P s i e (s.handlers i) move = some t) : Tracked P t := by
  unfold EnvironmentChanges.handleActivation at hstep
  split at hstep
  · split at hstep
    · cases hstep
      exact h.moveOther he hother ⟨rfl, rfl, rfl, rfl, rfl⟩ fun _ hprocess => Or.inl hprocess
    · cases hstep
      exact h.moveOther he hother ⟨rfl, rfl, rfl, rfl, rfl⟩ fun _ hprocess => Or.inl hprocess
  case h_4 launch reuses hhandler =>
    split at hstep
    · cases hstep
      exact h.moveOther he hother ⟨rfl, rfl, rfl, rfl, rfl⟩ fun _ hprocess => Or.inl hprocess
    · next hstarts =>
        cases hstep
        refine h.moveOther he hother ⟨rfl, rfl, rfl, rfl, rfl⟩ (reached_startProcess ?_)
        simpa [FindsAll, he, hhandler, hbuild, hstarts] using hfinds
  case h_6 launch hhandler =>
    cases hstep
    have hmoves (ended : State) (hworkers : ended.workers = s.workers)
        (hsecrets : ended.secrets = s.secrets) (hshared : ended.shared = s.shared)
        (hrequests : ended.requests = s.requests) (hhandlers : ended.handlers = s.handlers) :
        Moves s (ended.setHandler i .ended) i .ended :=
      ⟨hworkers, hsecrets, hshared, hrequests, by rw [State.setHandler, hhandlers]⟩
    split
    · exact h.moveOther he hother (hmoves _ rfl rfl rfl rfl rfl) fun _ hprocess => Or.inl hprocess
    · exact h.moveOther he hother (hmoves _ rfl rfl rfl rfl rfl) fun _ hprocess => Or.inl hprocess
  case h_12 => cases hstep
  all_goals
    cases hstep
    exact h.moveOther he hother ⟨rfl, rfl, rfl, rfl, rfl⟩ fun _ hprocess => Or.inl hprocess

theorem Tracked.handle (h : Tracked P s) {i : ℕ} {move : Move}
    (hfinds : FindsAll P s (.handle i move) = true) (hstep : handle P s i move = some t) :
    Tracked P t := by
  unfold EnvironmentChanges.handle at hstep
  split at hstep
  · cases hstep
  next e he =>
  split at hstep
  · split at hstep
    · next htype => exact h.handleBuild he htype hfinds hstep
    · next htype => exact h.handleRestart he htype hfinds hstep
    · next htype =>
        exact h.handleActivation he (by rw [htype]; decide) (by rw [htype]; decide) hfinds hstep
    · next htype =>
        exact h.handleActivation he (by rw [htype]; decide) (by rw [htype]; decide) hfinds hstep
    · cases hstep
  · cases hstep

/-! ## Requests -/

theorem mem_eraseIdx_or_eq {k : ℕ} {pending other : OpenRequest} {requests : List OpenRequest}
    (hk : requests[k]? = some pending) (hother : other ∈ requests) :
    other = pending ∨ other ∈ requests.eraseIdx k := by
  obtain ⟨j, hj⟩ := List.mem_iff_getElem?.mp hother
  by_cases hjk : j = k
  · subst j
    exact Or.inl (Option.some.inj (hj.symm.trans hk))
  · exact Or.inr (List.mem_eraseIdx_iff_getElem?.mpr ⟨j, hjk, hj⟩)

theorem mem_set_of_mem_eraseIdx {k : ℕ} {new other : OpenRequest} {requests : List OpenRequest}
    (hother : other ∈ requests.eraseIdx k) : other ∈ requests.set k new := by
  obtain ⟨j, hjk, hj⟩ := List.mem_eraseIdx_iff_getElem?.mp hother
  apply List.mem_of_getElem? (i := j)
  rw [List.getElem?_set_ne (Ne.symm hjk)]
  exact hj

theorem mem_set_self {k : ℕ} {pending new : OpenRequest} {requests : List OpenRequest}
    (hk : requests[k]? = some pending) : new ∈ requests.set k new :=
  List.mem_of_getElem? (List.getElem?_set_self (List.getElem?_eq_some_iff.mp hk).1)

/-- A request moves on: what is reached without it stays so, and what it was still to restart has
to be reached in another way. -/
theorem isReached_of_others {k : ℕ} {pending : OpenRequest} {process : Launch}
    (hk : s.requests[k]? = some pending)
    (hothers : ∀ other ∈ s.requests.eraseIdx k, other ∈ t.requests)
    (hawaits : s.awaitsRestart none process.deploymentId = true →
      t.awaitsRestart none process.deploymentId = true)
    (hcurrent : s.isCurrent P process = true → t.isReached P t.requests none process = true)
    (hwill : pending.willRestart process = true → t.isReached P t.requests none process = true)
    (h : s.isReached P s.requests none process = true) :
    t.isReached P t.requests none process = true := by
  refine isReached_mono hcurrent hawaits ?_ h
  intro other hother hrestarts
  rcases mem_eraseIdx_or_eq hk hother with rfl | hremains
  · exact hwill hrestarts
  · exact isReached_iff.mpr (Or.inr (Or.inr ⟨other, hothers other hremains, hrestarts⟩))

/-- The same, where what is stored stays. -/
theorem isReached_of_stored {k : ℕ} {pending : OpenRequest} {process : Launch}
    (hk : s.requests[k]? = some pending) (hsecrets : t.secrets = s.secrets)
    (hshared : t.shared = s.shared)
    (hothers : ∀ other ∈ s.requests.eraseIdx k, other ∈ t.requests)
    (hawaits : s.awaitsRestart none process.deploymentId = true →
      t.awaitsRestart none process.deploymentId = true)
    (hwill : pending.willRestart process = true → t.isReached P t.requests none process = true)
    (h : s.isReached P s.requests none process = true) :
    t.isReached P t.requests none process = true := by
  refine isReached_of_others hk hothers hawaits (fun hcurrent => ?_) hwill h
  rw [isReached_iff, isCurrent_congr hsecrets hshared]
  exact Or.inl hcurrent

/-- A step that leaves the workers and the handlers alone. -/
theorem Tracked.rest (h : Tracked P s) (hworkers : t.workers = s.workers)
    (hhandlers : t.handlers = s.handlers)
    (hrevisions : ∀ pending ∈ t.requests, ∀ previousRevision entries,
      pending.phase = .saving previousRevision entries → previousRevision ≤ t.revision)
    (hreached : ∀ process ∈ t.processes, t.isReached P t.requests none process = true) :
    Tracked P t where
  fencing := hworkers ▸ h.fencing
  unstarted := by
    rw [hworkers, hhandlers]
    exact h.unstarted
  aimed := by
    rw [hworkers, hhandlers]
    exact h.aimed
  revisions := hrevisions
  reached := hreached

theorem awaitsRestart_of_rest {deploymentId : String} (hworkers : t.workers = s.workers)
    (hhandlers : t.handlers = s.handlers)
    (hawaits : s.awaitsRestart none deploymentId = true) :
    t.awaitsRestart none deploymentId = true :=
  awaitsRestart_of_handlers hworkers (fun _ _ _ _ _ _ hbefore => by rw [hhandlers]; exact hbefore)
    hawaits

theorem Tracked.revisions_set (h : Tracked P s) {k : ℕ} {pending : OpenRequest}
    {phase : RequestPhase} (hgrows : s.revision ≤ t.revision)
    (hrequests : t.requests = s.requests.set k { pending with phase })
    (hphase : ∀ previousRevision entries, phase = .saving previousRevision entries →
      previousRevision ≤ t.revision) :
    ∀ pending ∈ t.requests, ∀ previousRevision entries,
      pending.phase = .saving previousRevision entries → previousRevision ≤ t.revision := by
  intro other hother previousRevision entries hsaving
  rw [hrequests] at hother
  rcases List.mem_or_eq_of_mem_set hother with hwas | rfl
  · exact (h.revisions other hwas previousRevision entries hsaving).trans hgrows
  · exact hphase previousRevision entries hsaving

theorem Tracked.revisions_erase (h : Tracked P s) {k : ℕ} (hgrows : s.revision ≤ t.revision)
    (hrequests : t.requests = s.requests.eraseIdx k) :
    ∀ pending ∈ t.requests, ∀ previousRevision entries,
      pending.phase = .saving previousRevision entries → previousRevision ≤ t.revision := by
  intro other hother previousRevision entries hsaving
  rw [hrequests] at hother
  exact (h.revisions other (List.mem_of_mem_eraseIdx hother) previousRevision entries
    hsaving).trans hgrows

/-- What is reached without a request stays so when the request moves on. -/
theorem isReached_without {k : ℕ} {pending : OpenRequest} {phase : RequestPhase}
    {process : Launch} (h : s.isReached P (s.requests.eraseIdx k) none process = true) :
    State.isReached P (s.setRequest k pending phase) (s.setRequest k pending phase).requests none
      process = true :=
  isReached_mono (fun hcurrent => isReached_iff.mpr (Or.inl hcurrent))
    (awaitsRestart_of_rest rfl rfl) (fun other hother hrestarts => isReached_iff.mpr
      (Or.inr (Or.inr ⟨other, mem_set_of_mem_eraseIdx hother, hrestarts⟩))) h

/-- A request that is to restart nothing is answered or refused. -/
theorem Tracked.closeRequest (h : Tracked P s) {k : ℕ} {pending : OpenRequest}
    (hk : s.requests[k]? = some pending)
    (hwill : ∀ process, pending.willRestart process = false) : Tracked P (s.closeRequest k) := by
  refine h.rest rfl rfl (h.revisions_erase le_rfl rfl) fun process hprocess => ?_
  refine isReached_of_stored hk rfl rfl (fun _ hother => hother)
    (awaitsRestart_of_rest rfl rfl) (fun hrestarts => ?_) (h.reached process hprocess)
  rw [hwill process] at hrestarts
  cases hrestarts

/-- A request that is to restart nothing yet goes on to save. -/
theorem Tracked.readShared (h : Tracked P s) {k : ℕ} {pending : OpenRequest}
    {entries : List Entry} (hk : s.requests[k]? = some pending) (hphase : pending.phase = .received) :
    Tracked P (s.setRequest k pending
      (.saving ((P.readRecord s.shared).map Row.revision |>.getD 0) entries)) := by
  refine h.rest rfl rfl (h.revisions_set le_rfl rfl ?_) fun process hprocess => ?_
  · intro previousRevision entries hsaving
    cases hsaving
    cases hshared : s.shared with
    | none => simp [SharedEnvironment.Platform.readRecord]
    | some record =>
        simp [SharedEnvironment.Platform.readRecord, State.revision, State.setRequest, hshared]
  · refine isReached_of_stored hk rfl rfl (fun _ hother => mem_set_of_mem_eraseIdx hother)
      (awaitsRestart_of_rest rfl rfl) (fun hrestarts => ?_) (h.reached process hprocess)
    rw [OpenRequest.willRestart, hphase] at hrestarts
    cases hrestarts

/-- A request writes the secrets of a project, and is to restart all that is live there. -/
theorem Tracked.writeSecrets (h : Tracked P s) {k : ℕ} {pending : OpenRequest} {projectId : String}
    {secrets : List SecretRow} (hk : s.requests[k]? = some pending)
    (hphase : pending.phase = .received)
    (hwrite : pending.request.writeSecrets s.secrets = some (projectId, secrets)) :
    Tracked P { s.setRequest k pending (.restarting [projectId] []) with secrets } := by
  refine h.rest rfl rfl (h.revisions_set le_rfl rfl fun _ _ hsaving => by cases hsaving)
    fun process hprocess => ?_
  by_cases hproject : process.projectId = projectId
  · refine isReached_iff.mpr (Or.inr (Or.inr ⟨_, mem_set_self hk, ?_⟩))
    simp [OpenRequest.willRestart, hproject]
  · refine isReached_of_others hk (fun _ hother => mem_set_of_mem_eraseIdx hother)
      (awaitsRestart_of_rest rfl rfl) (fun hcurrent => ?_) (fun hrestarts => ?_)
      (h.reached process hprocess)
    · have hsame : State.environment P
          { s.setRequest k pending (.restarting [projectId] []) with secrets } process.projectId =
            s.environment P process.projectId :=
        environment_congr rfl (filter_writeSecrets hwrite hproject)
      refine isReached_iff.mpr (Or.inl ?_)
      rw [State.isCurrent, hsame]
      exact hcurrent
    · rw [OpenRequest.willRestart, hphase] at hrestarts
      cases hrestarts

/-- A request saves the shared record. Where the revision is the one it has read, nothing has
changed; otherwise it is to restart all that is live. -/
theorem Tracked.saveShared (h : Tracked P s) {k : ℕ} {pending : OpenRequest}
    {previousRevision : ℕ} {entries : List Entry} (hk : s.requests[k]? = some pending)
    (hphase : pending.phase = .saving previousRevision entries)
    (hstep : proceed P s k = some t) : Tracked P t := by
  simp only [proceed, hk, hphase] at hstep
  split at hstep
  · next hsame =>
      cases hstep
      have hread := h.revisions pending (List.mem_of_getElem? hk) previousRevision entries hphase
      have hstored : ({ s.closeRequest k with shared := some (P.save s.shared entries) } : State) =
          s.closeRequest k := by
        rw [save_of_revision hread hsame]
        rfl
      rw [hstored]
      refine h.closeRequest hk fun process => ?_
      rw [OpenRequest.willRestart, hphase]
  · cases hstep
    refine h.rest rfl rfl (h.revisions_set (revision_save entries) rfl
      fun _ _ hsaving => by cases hsaving) fun process hprocess => ?_
    exact isReached_iff.mpr (Or.inr (Or.inr ⟨_, mem_set_self hk, rfl⟩))

theorem Tracked.proceed (h : Tracked P s) {k : ℕ} (hfinds : FindsAll P s (.proceed k) = true)
    (hstep : proceed P s k = some t) : Tracked P t := by
  have hproceed := hstep
  unfold EnvironmentChanges.proceed at hstep
  split at hstep
  · cases hstep
  next pending hk =>
  split at hstep
  · next hphase =>
      have hnothing : ∀ process, pending.willRestart process = false := fun process => by
        rw [OpenRequest.willRestart, hphase]
      split at hstep
      · split at hstep
        · cases hstep
          exact h.closeRequest hk hnothing
        · cases hstep
          exact h.readShared hk hphase
      · split at hstep
        · cases hstep
          exact h.closeRequest hk hnothing
        · next hwrite =>
            cases hstep
            exact h.writeSecrets hk hphase hwrite
  · next hphase => exact h.saveShared hk hphase hproceed
  · next hphase =>
      cases hstep
      simp only [FindsAll, hk, Option.map_some, hphase] at hfinds
      refine h.rest rfl rfl (h.revisions_set le_rfl rfl fun _ _ hsaving => by cases hsaving)
        fun process hprocess => ?_
      rcases Bool.or_eq_true_iff.mp (List.all_eq_true.mp hfinds process hprocess) with
        hlisted | hreached
      · refine isReached_iff.mpr (Or.inr (Or.inr ⟨_, mem_set_self hk, ?_⟩))
        simp only [OpenRequest.willRestart, hlisted, Bool.true_or]
      · exact isReached_without hreached
  · next hphase =>
      cases hstep
      refine h.closeRequest hk fun process => ?_
      simp [OpenRequest.willRestart, hphase]
  · cases hstep

theorem Tracked.list (h : Tracked P s) {k : ℕ} {projectId : String}
    (hfinds : FindsAll P s (.list k projectId) = true) (hstep : list s k projectId = some t) :
    Tracked P t := by
  unfold EnvironmentChanges.list at hstep
  split at hstep
  · cases hstep
  next pending hk =>
  split at hstep
  · next projects targets hphase =>
      split at hstep
      · cases hstep
        refine h.rest rfl rfl (h.revisions_set le_rfl rfl fun _ _ hsaving => by cases hsaving)
          fun process hprocess => ?_
        have hguard := List.all_eq_true.mp hfinds process hprocess
        simp only [Bool.or_eq_true, decide_eq_true_eq] at hguard
        have hlater (hwill : (projects.erase projectId).contains process.projectId = true ∨
            (targets ++ s.listLiveDeployments projectId).contains
              (process.projectId, process.deploymentId) = true) :
            State.isReached P
              (s.setRequest k pending (.restarting (projects.erase projectId)
                (targets ++ s.listLiveDeployments projectId)))
              (s.setRequest k pending (.restarting (projects.erase projectId)
                (targets ++ s.listLiveDeployments projectId))).requests none process = true := by
          refine isReached_iff.mpr (Or.inr (Or.inr ⟨_, mem_set_self hk, ?_⟩))
          exact Bool.or_eq_true_iff.mpr hwill
        by_cases hproject : process.projectId = projectId
        · rcases hguard with (hother | hlisted) | hreached
          · exact absurd hproject hother
          · refine hlater (Or.inr ?_)
            rw [List.contains_iff_mem, hproject]
            exact List.mem_append_right _ (List.contains_iff_mem.mp hlisted)
          · exact isReached_without hreached
        · -- A process of another project stays as it is.
          refine isReached_of_stored hk rfl rfl (fun _ hother => mem_set_of_mem_eraseIdx hother)
            (awaitsRestart_of_rest rfl rfl) (fun hrestarts => ?_) (h.reached process hprocess)
          simp only [OpenRequest.willRestart, hphase, Bool.or_eq_true, List.contains_iff_mem]
            at hrestarts
          apply hlater
          rcases hrestarts with hlisted | htarget
          · exact Or.inl (List.contains_iff_mem.mpr ((List.mem_erase_of_ne hproject).mpr hlisted))
          · exact Or.inr (List.contains_iff_mem.mpr (List.mem_append_left _ htarget))
      · cases hstep
  · cases hstep

/-- The row that a request queues is a restart of its target. -/
theorem isRestart_enqueueJob {store next : Store} {projectId deploymentId reason jobId : String}
    {now : ℤ}
    (henqueue : JobStore.enqueueJob store projectId .restartDeployment
      (restartPayload deploymentId reason) jobId now = .ok next) :
    (∀ row ∈ store.jobs, row ∈ next.jobs) ∧
      ∃ row ∈ next.jobs, IsRestart deploymentId row ∧ row.status = .queued := by
  unfold JobStore.enqueueJob insertJobRowTx at henqueue
  obtain ⟨payload, hpayload, henqueue⟩ := Outcome.bind_eq_ok.mp henqueue
  obtain ⟨_, _, henqueue⟩ := Outcome.bind_eq_ok.mp henqueue
  obtain ⟨_, _, henqueue⟩ := Outcome.bind_eq_ok.mp henqueue
  have hdecodes := Outcome.require_eq_ok.mp hpayload
  obtain rfl := decodeJobPayload_eq hdecodes
  cases henqueue
  refine ⟨fun row hrow => List.mem_append_left _ hrow, _,
    List.mem_append_right _ (List.mem_singleton.mpr rfl), ⟨rfl, ?_, ?_⟩, rfl⟩
  · simp [JobRow.deploymentId, restartPayload, Json.fieldText, Json.field]
  · simp [decodesJobRow, hdecodes]

theorem Tracked.enqueue (h : Tracked P s) {k : ℕ} {target : String × String} {jobId : String}
    {now : ℤ} (hstep : enqueue s k target jobId now = some t) : Tracked P t := by
  unfold EnvironmentChanges.enqueue at hstep
  split at hstep
  · cases hstep
  next pending hk =>
  split at hstep
  · next targets hphase =>
      split at hstep
      · obtain ⟨store, hstore, rfl⟩ := Option.map_eq_some_iff.mp hstep
        have henqueue := Outcome.toOption_eq_some.mp hstore
        obtain ⟨hkept, row, hrow, hrestart, hqueued⟩ := isRestart_enqueueJob henqueue
        have hquiet : JobStore.Quiet (.otherTables [] [] []) s.workers.store store :=
          insertJobRowTx_quiet henqueue
        have hawaits (deploymentId : String)
            (hawaits : s.awaitsRestart none deploymentId = true) :
            State.awaitsRestart
              { s.setRequest k pending (.restarting [] (targets.erase target)) with
                workers := { s.workers with store } } none deploymentId = true := by
          obtain ⟨old, hold, hrestart, hstatus⟩ := awaitsRestart_iff.mp hawaits
          refine awaitsRestart_of_remains hrestart (Remains.of_mem (hkept old hold)) ?_
          rcases hstatus with hqueued | ⟨hrunning, i, execution, _, hstops⟩
          · exact Or.inl hqueued
          · exact Or.inr ⟨hrunning, i, execution, { hstops with }⟩
        exact
          { fencing := h.fencing.calm (Calm.of_quiet hquiet) rfl rfl
            unstarted := h.unstarted
            aimed := h.aimed
            revisions := h.revisions_set le_rfl rfl fun _ _ hsaving => by cases hsaving
            reached := fun process hprocess => by
              refine isReached_of_stored hk rfl rfl
                (fun _ hother => mem_set_of_mem_eraseIdx hother) (hawaits process.deploymentId)
                (fun hrestarts => ?_) (h.reached process hprocess)
              simp only [OpenRequest.willRestart, hphase, List.contains_nil, Bool.false_or,
                List.contains_iff_mem] at hrestarts
              by_cases htarget : (process.projectId, process.deploymentId) = target
              · -- The restart that was left to the request is queued now.
                subst target
                exact isReached_iff.mpr (Or.inr (Or.inl (awaitsRestart_iff.mpr
                  ⟨row, hrow, hrestart, Or.inl hqueued⟩)))
              · refine isReached_iff.mpr (Or.inr (Or.inr ⟨_, mem_set_self hk, ?_⟩))
                simp only [OpenRequest.willRestart, List.contains_nil, Bool.false_or,
                  List.contains_iff_mem]
                exact (List.mem_erase_of_ne htarget).mpr hrestarts }
      · cases hstep
  · cases hstep

/-- Every step that meets the condition keeps the invariant. -/
theorem Tracked.step (h : Tracked P s) {a : Action} (hfinds : FindsAll P s a = true)
    (hstep : step P s a = some t) : Tracked P t := by
  cases a with
  | work action =>
      simp only [EnvironmentChanges.step] at hstep
      split at hstep
      · next hmay =>
          obtain ⟨workers, hworkers, rfl⟩ := Option.map_eq_some_iff.mp hstep
          exact h.work hmay hworkers
      · cases hstep
  | handle i move => exact h.handle hfinds hstep
  | request request =>
      cases hstep
      refine h.rest rfl rfl ?_ fun process hprocess => ?_
      · intro pending hpending previousRevision entries hsaving
        rcases List.mem_append.mp hpending with hwas | hnew
        · exact h.revisions pending hwas previousRevision entries hsaving
        · obtain rfl := List.mem_singleton.mp hnew
          cases hsaving
      · exact isReached_mono (fun hcurrent => isReached_iff.mpr (Or.inl hcurrent))
          (awaitsRestart_of_rest rfl rfl) (fun other hother hrestarts => isReached_iff.mpr
            (Or.inr (Or.inr ⟨other, List.mem_append_left _ hother, hrestarts⟩)))
          (h.reached process hprocess)
  | proceed k => exact h.proceed hfinds hstep
  | list k projectId => exact h.list hfinds hstep
  | enqueue k target jobId now => exact h.enqueue hstep
  | exit deploymentId =>
      cases hstep
      refine h.rest rfl rfl h.revisions fun process hprocess => ?_
      exact isReached_of_same (s := s) rfl rfl rfl (awaitsRestart_of_rest rfl rfl)
        (h.reached process (mem_stopProcess hprocess).1)
  | setStatus deploymentId status =>
      cases hstep
      refine h.rest rfl rfl h.revisions fun process hprocess => ?_
      exact isReached_of_same (s := s) rfl rfl rfl (awaitsRestart_of_rest rfl rfl)
        (h.reached process hprocess)

theorem tracked_of_initial (hinit : Initial P s) : Tracked P s where
  fencing := fencing_of_init hinit.workers
  unstarted i _ := hinit.handlers i
  aimed i execution _ _ deploymentId aim _ haim := by
    rw [hinit.handlers i] at haim
    cases haim
  revisions := by simp [hinit.requests]
  reached process hprocess := isReached_iff.mpr (Or.inl (hinit.processes process hprocess))

/-- Once all is quiet, nothing is left to be replaced. -/
theorem Tracked.environmentsReach (h : Tracked P s) : EnvironmentsReach P s := by
  intro hquiet process hprocess key
  obtain ⟨hclosed, hrequests⟩ := Bool.and_eq_true_iff.mp hquiet
  rcases isReached_iff.mp (h.reached process hprocess) with hcurrent | hawaits | ⟨pending, hpending, _⟩
  · exact LaunchEnvironment.agrees_iff.mp hcurrent key
  · obtain ⟨row, hrow, _, hstatus⟩ := awaitsRestart_iff.mp hawaits
    have hrowClosed := List.all_eq_true.mp hclosed row hrow
    rcases hstatus with hqueued | ⟨hrunning, _⟩
    · simp [JobStatus.isOpen, hqueued] at hrowClosed
    · simp [JobStatus.isOpen, hrunning] at hrowClosed
  · rw [List.isEmpty_iff.mp hrequests] at hpending
    cases hpending

end Steps

/-- **Every live runtime gets the stored environment.** In a run in which each request finds what
it has to restart, no process is started with outdated values that nothing is left to replace, and
no restart ends before it has stopped a process that nothing else is left to replace, every live
process of a project has the environment that is stored whenever no job is queued or running and
no request is open. -/
theorem environments_reach_runtimes {P : Platform} {s : State} {actions : List Action}
    (hinit : (machine P).init s)
    (hmeets : (machine P).Meets (fun s a => FindsAll P s a = true) s actions) :
    (machine P).Always (EnvironmentsReach P) s actions :=
  Machine.always_of_meets (machine P) (I := Tracked P)
    (fun _ _ _ htracked hfinds hstep => htracked.step hfinds hstep)
    (fun _ htracked => htracked.environmentsReach) (tracked_of_initial hinit) hmeets

/-! ## A rotated token -/

theorem keyLe_total (left right : String) :
    (decide (left ≤ right) || decide (right ≤ left)) = true := by
  simpa using String.le_total left right

theorem keyLe_trans (left middle right : String) (hleft : decide (left ≤ middle) = true)
    (hright : decide (middle ≤ right) = true) : decide (left ≤ right) = true := by
  simp only [decide_eq_true_eq] at hleft hright ⊢
  exact String.le_trans hleft hright

/-- Values that are stored as they are. -/
def plainPlatform : Platform where
  encryptSecretValue _ value := value
  localeLe left right := left ≤ right
  localeLe_total := keyLe_total
  localeLe_trans := keyLe_trans
  decryptSecretValue value := value

/-- A project with one secret and no deployment. -/
def oneSecret : State where
  workers :=
    { store :=
        { jobs := [], nextSequence := 0, projects := [{ id := "project", deleting := false }]
          deployments := [], runtimeInstances := [] }
      executions := [], sweeps := [], settlements := [] }
  secrets := [⟨"secret-1", "project", "TOKEN", .secret, "revoked"⟩]
  shared := none
  deployments := []
  processes := []
  handlers _ := .starting
  requests := []

theorem oneSecret_initial : Initial plainPlatform oneSecret where
  workers := ⟨List.Pairwise.nil, rfl, rfl, rfl⟩
  jobs := rfl
  handlers _ := rfl
  requests := rfl
  processes := by simp [oneSecret]

/-- A worker claims the next job. -/
def claimNext (now : ℤ) : Action := .work (.claim now ⟨none, none⟩ [])

/-- An execution whose handler has ended completes its job. -/
def completeExecution (i : ℕ) (now : ℤ) : List Action :=
  [.work (.operate i (.dispatchEnds true)), .work (.operate i (.clearCredential now false)),
    .work (.operate i (.complete now false))]

/-- A build is queued and claimed, and reads the environment. -/
def beginBuild : List Action :=
  [.work (.outside (.enqueueJob "project" .buildDeploy (.obj []) "build-1" 1)), claimNext 1,
    .handle 0 (.read "deployment" none), .handle 0 .readShared]

/-- The build starts its process and records the deployment. -/
def endBuild : List Action :=
  [.handle 0 (.start false), .handle 0 .awaitHealth, .handle 0 .record, .handle 0 .finish] ++
    completeExecution 0 2

/-- A request stores another token and lists the deployments. -/
def rotateToken : List Action :=
  [.request (.upsertSecret "project" "secret-2" ⟨"TOKEN", .secret, "rotated"⟩), .proceed 0,
    .list 0 "project"]

/-- The token is rotated after the build, and the deployment is restarted. -/
def rotatedAfterBuild : List Action :=
  beginBuild ++ endBuild ++ rotateToken ++
    [.enqueue 0 ("project", "deployment") "restart-1" 3, .proceed 0, claimNext 4,
      .handle 1 (.read "" none), .handle 1 .readShared, .handle 1 .stop, .handle 1 (.start false),
      .handle 1 .awaitHealth, .handle 1 .settle] ++ completeExecution 1 5

theorem environments_reach_runtimes_rotatedAfterBuild :
    (machine plainPlatform).Always (EnvironmentsReach plainPlatform) oneSecret rotatedAfterBuild ∧
      ∃ t, (machine plainPlatform).exec oneSecret rotatedAfterBuild = some t ∧
        t.isQuiet = true ∧
          t.processes.map (fun process => process.environment.value "TOKEN") =
            [some "rotated"] := by
  have hmeets : (machine plainPlatform).Meets (fun s a => FindsAll plainPlatform s a = true)
      oneSecret rotatedAfterBuild := by
    decide +kernel
  exact ⟨environments_reach_runtimes oneSecret_initial hmeets, _, rfl, by decide +kernel,
    by decide +kernel⟩

/-- The token is rotated between the build's read of the environment and its start. Nothing is
listed, and the build starts its process with the revoked token. -/
def rotatedDuringBuild : List Action :=
  beginBuild ++ rotateToken ++ [.proceed 0] ++ endBuild

theorem rotated_token_misses_build :
    ¬ ∀ (P : Platform) (s : State) (actions : List Action), (machine P).init s →
      (machine P).Always (EnvironmentsReach P) s actions := by
  intro hall
  have halways := hall plainPlatform oneSecret rotatedDuringBuild oneSecret_initial
  have hreach := halways.of_exec rfl
  have hvalues := hreach (by decide +kernel) _ List.mem_cons_self "TOKEN"
  exact absurd hvalues (by decide +kernel)

end Eveland.EnvironmentChanges
