/-
# Workers executing jobs

Any number of workers claim jobs and run them, each execution remembering the job as it
was claimed and the attempt it was claimed under. An execution may stall between any two
of its writes, a write may commit while its reply is lost, and the sweep that recovers
stale jobs chooses its rows before it requeues them, so all of these interleave.
-/

import Eveland.Store.JobSteps

namespace Eveland.JobExecutions

open JobStore

/-! ## Executions -/

/-- Where `claimNextJob` and `runClaimedJob` are with a claimed row. -/
inductive Phase
  /-- The row does not decode and is about to be failed. -/
  | quarantining
  /-- `dispatchJob` is running. -/
  | working
  /-- About to clear the temporary credential, after the work succeeded or threw. -/
  | clearing (succeeded : Bool)
  | completing
  | failing
  | finished
  deriving DecidableEq, Repr

/-- A claimed row as its worker knows it. -/
structure Execution where
  jobId : String
  attempt : ℕ
  type : Option JobType
  payload : Json
  phase : Phase

/-- The claim an execution works under. -/
def Execution.claim (e : Execution) : String × ℕ := (e.jobId, e.attempt)

/-- What an execution does next. -/
inductive Operation
  | quarantine (now : ℤ)
  | heartbeat (now : ℤ)
  | replacePayload (type : JobType) (payload : Json) (now : ℤ)
  | dispatchEnds (succeeded : Bool)
  | clearCredential (now : ℤ) (replyLost : Bool)
  | complete (now : ℤ) (replyLost : Bool)
  | fail (error : String) (now : ℤ)

/-- The operation is meant to settle the claim. -/
def Operation.isSettlement : Operation → Bool
  | .quarantine _ | .complete _ _ | .fail _ _ => true
  | _ => false

/-- `clearTemporaryGitCredential`. -/
def clearTemporaryGitCredential (s : Store) (e : Execution) (now : ℤ) : Except String Store :=
  match e.type, e.payload.field "gitCredential" with
  | some .importSource, some _ =>
      JobStore.replaceJobPayload s e.jobId .importSource (e.payload.without "gitCredential")
        e.attempt now
  | _, _ => .ok s

/-- Where an error while the credential is cleared leads: out of the `try` block into the
`catch` block, and out of that one to the caller. -/
def afterThrow (succeeded : Bool) : Phase := if succeeded then .clearing false else .finished

/-- The write of an operation and the phase after it; `none` where the execution is not
at that operation. A heartbeat sent before the timer was cleared may land in any phase. -/
def operate (s : Store) (e : Execution) : Operation → Option (Store × Phase)
  | .quarantine now =>
      if e.phase = .quarantining then
        some (JobStore.quarantine s e.jobId e.attempt now, .finished)
      else none
  | .heartbeat now =>
      if e.phase = .quarantining then none
      else some (heartbeatJob s e.jobId e.attempt now, e.phase)
  | .replacePayload type payload now =>
      if e.phase = .working then
        match JobStore.replaceJobPayload s e.jobId type payload e.attempt now with
        | .ok t => some (t, .working)
        | .error _ => some (s, .clearing false)
      else none
  | .dispatchEnds succeeded =>
      if e.phase = .working then some (s, .clearing succeeded) else none
  | .clearCredential now replyLost =>
      match e.phase with
      | .clearing succeeded =>
          match clearTemporaryGitCredential s e now with
          | .ok t =>
              some (t, if replyLost then afterThrow succeeded
                else if succeeded then .completing else .failing)
          | .error _ => some (s, afterThrow succeeded)
      | _ => none
  | .complete now replyLost =>
      if e.phase = .completing then
        some (completeJob s e.jobId (some e.attempt) now,
          if replyLost then .clearing false else .finished)
      else none
  | .fail error now =>
      if e.phase = .failing then
        some (failJob s e.jobId error (some e.attempt) now, .finished)
      else none

/-! ## The system -/

/-- The store, the executions in the order of their claims, the recovery sweeps that have
chosen their rows, and a record of the claims that were settled. -/
structure System where
  store : Store
  executions : List Execution
  sweeps : List (List String)
  settlements : List (String × ℕ)

/-- One step of a worker, of a sweep or of another process. -/
inductive Action
  /-- A statement that another process makes on the store. -/
  | outside (action : JobStore.Action)
  | claim (now : ℤ) (options : ClaimOptions) (locked : List String)
  | operate (execution : ℕ) (operation : Operation)
  | selectStale (now staleAfterMs : ℤ) (limit : ℕ)
  | requeueStale (sweep : ℕ) (now : ℤ)

/-- The statements that are not made for a claimed job. -/
def isOutside : JobStore.Action → Bool
  | .otherTables .. | .enqueueJob .. | .enqueueDeploymentArchive ..
  | .enqueueDeploymentActivation .. => true
  | _ => false

/-- A claimed row as its execution starts. -/
def execute (row : JobRow) : Execution :=
  { jobId := row.id, attempt := row.attempts, type := row.type, payload := row.payload,
    phase := if decodesJobRow row then .working else .quarantining }

def step (sys : System) : Action → Option System
  | .outside action =>
      if isOutside action then
        (JobStore.step sys.store action).map fun store => { sys with store }
      else none
  | .claim now options locked =>
      (claimStatement sys.store now options locked).map fun claimed =>
        { sys with store := claimed.1, executions := sys.executions ++ [execute claimed.2] }
  | .operate i operation => do
      let e ← sys.executions[i]?
      let (store, phase) ← operate sys.store e operation
      some { sys with
        store
        executions := sys.executions.set i { e with phase }
        settlements := sys.settlements ++
          if operation.isSettlement && sys.store.jobs.any (settles e.jobId (some e.attempt)) then
            [e.claim]
          else [] }
  | .selectStale now staleAfterMs limit =>
      some { sys with
        sweeps := sys.sweeps ++ [staleJobs sys.store (now - staleAfterMs) limit] }
  | .requeueStale k now => do
      let jobIds ← sys.sweeps[k]?
      some { sys with store := requeue sys.store jobIds now, sweeps := sys.sweeps.eraseIdx k }

/-- The workers, started with nothing claimed. -/
def machine : Machine System Action where
  init sys := WellKeyed sys.store ∧ sys.executions = [] ∧ sys.sweeps = [] ∧ sys.settlements = []
  step := step

/-! ## What executions keep -/

/-- What an execution was claimed with stays; a step may add one execution. -/
theorem executions_step {sys next : System} {action : Action}
    (hstep : step sys action = some next) {i : ℕ} {execution : Execution}
    (hmem : sys.executions[i]? = some execution) :
    ∃ later, next.executions[i]? = some later ∧ later.claim = execution.claim ∧
      later.type = execution.type ∧ later.payload = execution.payload := by
  cases action with
  | outside action =>
      simp only [step] at hstep
      split at hstep
      · obtain ⟨store, _, rfl⟩ := Option.map_eq_some_iff.mp hstep
        exact ⟨execution, hmem, rfl, rfl, rfl⟩
      · cases hstep
  | claim now options locked =>
      obtain ⟨claimed, _, rfl⟩ := Option.map_eq_some_iff.mp hstep
      have hlt := (List.getElem?_eq_some_iff.mp hmem).1
      exact ⟨execution, by rw [List.getElem?_append_left hlt]; exact hmem, rfl, rfl, rfl⟩
  | operate j operation =>
      obtain ⟨other, hother, hstep⟩ := Option.bind_eq_some_iff.mp hstep
      obtain ⟨written, _, hstep⟩ := Option.bind_eq_some_iff.mp hstep
      cases hstep
      by_cases hji : j = i
      · subst j
        have hlt := (List.getElem?_eq_some_iff.mp hmem).1
        obtain rfl := Option.some.inj (hmem.symm.trans hother)
        exact ⟨_, List.getElem?_set_self hlt, rfl, rfl, rfl⟩
      · exact ⟨execution, by simp [List.getElem?_set_ne hji, hmem], rfl, rfl, rfl⟩
  | selectStale now staleAfterMs limit =>
      cases hstep
      exact ⟨execution, hmem, rfl, rfl, rfl⟩
  | requeueStale k now =>
      obtain ⟨jobIds, _, hstep⟩ := Option.bind_eq_some_iff.mp hstep
      cases hstep
      exact ⟨execution, hmem, rfl, rfl, rfl⟩

/-- No execution is forgotten. -/
theorem executions_length_step {sys next : System} {action : Action}
    (hstep : step sys action = some next) : sys.executions.length ≤ next.executions.length := by
  by_contra hnot
  have hlt : next.executions.length < sys.executions.length := Nat.lt_of_not_le hnot
  obtain ⟨later, hlater, _⟩ := executions_step hstep (List.getElem?_eq_getElem hlt)
  simp at hlater

/-- An execution was there, or it was just claimed. -/
theorem executions_step_back {sys next : System} {action : Action}
    (hstep : step sys action = some next) {i : ℕ} {later : Execution}
    (hmem : next.executions[i]? = some later) :
    (∃ execution, sys.executions[i]? = some execution ∧ later.jobId = execution.jobId ∧
      later.type = execution.type ∧ later.payload = execution.payload) ∨
    ∃ row ∈ sys.store.jobs, later.jobId = row.id ∧ later.type = row.type ∧
      later.payload = row.payload := by
  cases action with
  | outside action =>
      simp only [step] at hstep
      split at hstep
      · obtain ⟨store, _, rfl⟩ := Option.map_eq_some_iff.mp hstep
        exact Or.inl ⟨later, hmem, rfl, rfl, rfl⟩
      · cases hstep
  | claim now options locked =>
      obtain ⟨⟨store, row⟩, hclaim, rfl⟩ := Option.map_eq_some_iff.mp hstep
      rw [List.getElem?_append] at hmem
      split at hmem
      · exact Or.inl ⟨later, hmem, rfl, rfl, rfl⟩
      · obtain ⟨candidate, hcandidate, _, rfl, _⟩ := claimStatement_cases hclaim
        obtain rfl := List.mem_singleton.mp (List.mem_of_getElem? hmem)
        exact Or.inr ⟨candidate, hcandidate, rfl, rfl, rfl⟩
  | operate j operation =>
      obtain ⟨other, hother, hstep⟩ := Option.bind_eq_some_iff.mp hstep
      obtain ⟨written, _, hstep⟩ := Option.bind_eq_some_iff.mp hstep
      cases hstep
      refine Or.inl ?_
      by_cases hji : j = i
      · subst j
        have hlt := (List.getElem?_eq_some_iff.mp hother).1
        simp only [List.getElem?_set_self hlt, Option.some.injEq] at hmem
        subst hmem
        exact ⟨other, hother, rfl, rfl, rfl⟩
      · rw [List.getElem?_set_ne hji] at hmem
        exact ⟨later, hmem, rfl, rfl, rfl⟩
  | selectStale now staleAfterMs limit =>
      cases hstep
      exact Or.inl ⟨later, hmem, rfl, rfl, rfl⟩
  | requeueStale k now =>
      obtain ⟨jobIds, _, hstep⟩ := Option.bind_eq_some_iff.mp hstep
      cases hstep
      exact Or.inl ⟨later, hmem, rfl, rfl, rfl⟩

end Eveland.JobExecutions
