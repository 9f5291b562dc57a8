/-
# Running jobs exclude each other

A claim compares its candidate with the running jobs and never the other way round, so
that running jobs are pairwise compatible rests on three facts: the comparison is
symmetric, every other statement only stops jobs, and a payload that is replaced while
its job runs does not move the job to another deployment. The last one is a promise of
the callers, not a check of the store, and is the condition these results carry.
-/

import Eveland.Store.JobSteps

namespace Eveland.JobStore

/-! ## The exclusion relation -/

/-- Two running jobs of one project. -/
structure Together (first second : JobRow) : Prop where
  firstRunning : first.status = .running
  secondRunning : second.status = .running
  ne : first.id ≠ second.id
  project : first.projectId = second.projectId

theorem Together.symm {first second : JobRow} (h : Together first second) :
    Together second first :=
  ⟨h.secondRunning, h.firstRunning, h.ne.symm, h.project.symm⟩

/-- What the documentation of the job types says of jobs that run together. -/
structure Exclusion (s : Store) : Prop where
  /-- Deleting a project runs alone in it. -/
  deleteProject : ∀ first ∈ s.jobs, ∀ second ∈ s.jobs, Together first second →
    first.type ≠ some .deleteProject
  /-- At most one job of a project changes its sources and releases. -/
  projectMutation : ∀ first ∈ s.jobs, ∀ second ∈ s.jobs, Together first second →
    ¬(first.hasType projectMutationJobTypes = true ∧
      second.hasType projectMutationJobTypes = true)
  /-- At most one job works on a deployment. -/
  deploymentScoped : ∀ first ∈ s.jobs, ∀ second ∈ s.jobs, Together first second →
    first.hasType deploymentScopedJobTypes = true →
    second.hasType deploymentScopedJobTypes = true → first.deploymentId ≠ second.deploymentId
  /-- A job that would work on a deployment it does not name runs alone in its project. -/
  unknownTarget : ∀ first ∈ s.jobs, ∀ second ∈ s.jobs, Together first second →
    first.hasType deploymentScopedJobTypes = true → first.deploymentId ≠ none

/-- The comparison a claim makes is symmetric. -/
theorem excludes_comm (first second : JobRow) : excludes first second = excludes second first := by
  have hsome : (first.deploymentId.isSome && decide (first.deploymentId = second.deploymentId)) =
      (second.deploymentId.isSome && decide (second.deploymentId = first.deploymentId)) := by
    by_cases hsame : first.deploymentId = second.deploymentId
    · simp [hsame]
    · simp [hsame, Ne.symm hsame]
  simp only [excludes, hsome]
  grind

/-- Two jobs are compared by their types and the deployments they name, and only a job
whose writes are scoped to a deployment by the latter. -/
theorem excludes_congr_left {first first' second : JobRow} (htype : first'.type = first.type)
    (htarget : first.hasType deploymentScopedJobTypes = true →
      first'.deploymentId = first.deploymentId) :
    excludes first' second = excludes first second := by
  have hhas : ∀ types, first'.hasType types = first.hasType types := by
    intro types
    simp [JobRow.hasType, htype]
  by_cases hscoped : first.hasType deploymentScopedJobTypes = true
  · simp only [excludes, hhas, htarget hscoped]
  · simp [excludes, hhas, hscoped]

/-- A job of unknown target is comparable with nothing. -/
theorem deploymentId_ne_none {first second : JobRow} (h : excludes first second = false)
    (hscoped : first.hasType deploymentScopedJobTypes = true) : first.deploymentId ≠ none := by
  intro hnone
  simp [excludes, hscoped, hnone] at h

/-! ## Compatible stores -/

/-- The invariant: no claim would have refused one running job because of another. -/
structure Compatible (s : Store) : Prop where
  keyed : WellKeyed s
  apart : ∀ first ∈ s.jobs, ∀ second ∈ s.jobs, Together first second →
    excludes first second = false

/-- The documented exclusion is what compatibility says. -/
theorem Compatible.exclusion {s : Store} (h : Compatible s) : Exclusion s where
  deleteProject first hfirst second hsecond htogether htype := by
    have hapart := h.apart first hfirst second hsecond htogether
    simp [excludes, JobRow.hasType, htype] at hapart
  projectMutation first hfirst second hsecond htogether hboth := by
    have hapart := h.apart first hfirst second hsecond htogether
    simp [excludes, hboth.1, hboth.2] at hapart
  deploymentScoped first hfirst second hsecond htogether hscoped hscoped' hsame := by
    have hapart := h.apart first hfirst second hsecond htogether
    obtain ⟨target, htarget⟩ :=
      Option.ne_none_iff_exists'.mp (deploymentId_ne_none hapart hscoped)
    simp [excludes, hscoped, hscoped', hsame ▸ htarget, htarget] at hapart
  unknownTarget first hfirst second hsecond htogether hscoped :=
    deploymentId_ne_none (h.apart first hfirst second hsecond htogether) hscoped

/-! ## Quiet statements -/

/-- A replaced payload keeps the deployment a running job is scoped to. -/
def KeepsTarget (s : Store) : Action → Prop
  | .replaceJobPayload jobId type payload attempt _ =>
      ∀ row ∈ s.jobs, row.id = jobId → row.type = some type → row.status = .running →
        row.attempts = attempt → row.hasType deploymentScopedJobTypes = true →
          row.deploymentId = none ∨ payload.fieldText "deploymentId" = row.deploymentId
  | _ => True

/-- A job whose writes are scoped to a deployment it names goes on naming it. -/
theorem target_kept {action : Action} {s : Store} {old row : JobRow}
    (hkeeps : KeepsTarget s action) (hold : old ∈ s.jobs) (hrunning : old.status = .running)
    (hpayload : row.payload = old.payload ∨ Rewrites action old row)
    (hscoped : old.hasType deploymentScopedJobTypes = true) (hnamed : old.deploymentId ≠ none) :
    row.deploymentId = old.deploymentId := by
  rcases hpayload with hpayload | hrewrites
  · rw [JobRow.deploymentId, hpayload]
    rfl
  · cases action with
    | replaceJobPayload jobId type payload attempt now =>
        obtain ⟨hid, htype, hattempts, hpayload⟩ := hrewrites
        have hkept := hkeeps old hold hid htype hrunning hattempts hscoped
        rw [JobRow.deploymentId, hpayload]
        exact hkept.resolve_left hnamed
    | _ => exact hrewrites.elim

/-- A quiet statement that keeps the targets keeps running jobs compatible. -/
theorem Compatible.quiet {action : Action} {s t : Store} (h : Compatible s)
    (hkeeps : KeepsTarget s action) (hquiet : Quiet action s t) : Compatible t where
  keyed := hquiet.keyed h.keyed
  apart first hfirst second hsecond htogether := by
    obtain ⟨a, ha, haRunning, haId, haProject, haType, _, haPayload⟩ :=
      hquiet.rows first hfirst htogether.firstRunning
    obtain ⟨b, hb, hbRunning, hbId, hbProject, hbType, _, hbPayload⟩ :=
      hquiet.rows second hsecond htogether.secondRunning
    have hbefore : Together a b :=
      ⟨haRunning, hbRunning, haId ▸ hbId ▸ htogether.ne,
        haProject ▸ hbProject ▸ htogether.project⟩
    have hab := h.apart a ha b hb hbefore
    have hba := h.apart b hb a ha hbefore.symm
    calc excludes first second
        = excludes a second := excludes_congr_left haType fun hscoped =>
          target_kept hkeeps ha haRunning haPayload hscoped (deploymentId_ne_none hab hscoped)
      _ = excludes second a := excludes_comm a second
      _ = excludes b a := excludes_congr_left hbType fun hscoped =>
          target_kept hkeeps hb hbRunning hbPayload hscoped (deploymentId_ne_none hba hscoped)
      _ = false := hba

/-! ## The claim -/

/-- What the `not exists` of a candidate says. -/
theorem excludes_of_isCandidate {s : Store} {options : ClaimOptions} {candidate other : JobRow}
    (hcandidate : isCandidate s options candidate = true) (hother : other ∈ s.jobs)
    (hrunning : other.status = .running) (hne : candidate.id ≠ other.id)
    (hproject : candidate.projectId = other.projectId) : excludes candidate other = false := by
  simp only [isCandidate, Bool.and_eq_true, Bool.not_eq_true', List.any_eq_false] at hcandidate
  have hnone := hcandidate.1.1.1.2 other hother
  simpa [hproject, hrunning, Ne.symm hne] using hnone

theorem Compatible.claimStatement {s t : Store} {now : ℤ} {options : ClaimOptions}
    {locked : List String} {row : JobRow} (h : Compatible s)
    (hclaim : claimStatement s now options locked = some (t, row)) : Compatible t := by
  obtain ⟨candidate, hstored, hcandidate, _, rfl⟩ := claimStatement_cases hclaim
  refine ⟨Table.UniqueOn.updateWhere h.keyed fun _ => rfl, ?_⟩
  intro first hfirst second hsecond htogether
  rcases Table.mem_updateWhere.mp hfirst with ⟨hfirst', _⟩ | ⟨a, ha, haId, rfl⟩
  · rcases Table.mem_updateWhere.mp hsecond with ⟨hsecond, _⟩ | ⟨b, hb, hbId, rfl⟩
    · exact h.apart first hfirst' second hsecond htogether
    · -- The second job is the candidate, compared with the first when it was claimed.
      obtain rfl : b = candidate := h.keyed.eq hb hstored (by simpa using hbId)
      have hfree := excludes_of_isCandidate hcandidate hfirst' htogether.firstRunning
        htogether.ne.symm htogether.project.symm
      rw [excludes_comm, ← hfree]
      exact excludes_congr_left rfl fun _ => rfl
  · obtain rfl : a = candidate := h.keyed.eq ha hstored (by simpa using haId)
    rcases Table.mem_updateWhere.mp hsecond with ⟨hsecond, _⟩ | ⟨b, hb, hbId, rfl⟩
    · have hfree := excludes_of_isCandidate hcandidate hsecond htogether.secondRunning
        htogether.ne htogether.project
      rw [← hfree]
      exact excludes_congr_left rfl fun _ => rfl
    · obtain rfl : b = a := h.keyed.eq hb hstored (by simpa using hbId)
      exact absurd rfl htogether.ne

/-- A claim under a heavy cap stays within it. -/
theorem claimStatement_heavy {s t : Store} {now : ℤ} {options : ClaimOptions}
    {locked : List String} {row : JobRow} {heavyCap : ℕ} (hkeyed : WellKeyed s)
    (hoptions : options.maxConcurrentHeavyJobs = some heavyCap)
    (hclaim : claimStatement s now options locked = some (t, row))
    (hheavy : runningHeavy s.jobs ≤ heavyCap) : runningHeavy t.jobs ≤ heavyCap := by
  obtain ⟨candidate, hstored, hcandidate, _, rfl⟩ := claimStatement_cases hclaim
  simp only [isCandidate, hoptions, Bool.and_eq_true] at hcandidate
  have hcap := hcandidate.1.2
  by_cases hkind : candidate.hasType heavyJobTypes = true
  · have hroom : runningHeavy s.jobs < heavyCap := by simpa [hkind] using hcap
    have hone := Table.UniqueOn.countP_updateWhere_le_succ
      (q := fun r => r.status = .running && r.hasType heavyJobTypes)
      (f := fun r => { r with
        status := .running, attempts := r.attempts + 1, lockedAt := some now, updatedAt := now })
      hkeyed candidate.id
    exact hone.trans hroom
  · refine le_trans (Table.countP_updateWhere_le ?_) hheavy
    intro other hother hid hcounted
    obtain rfl : other = candidate := hkeyed.eq hother hstored (by simpa using hid)
    simp only [Bool.and_eq_true] at hcounted
    exact absurd hcounted.2 hkind

/-! ## Every history -/

theorem compatible_of_init {s : Store} (h : machine.init s) : Compatible s :=
  ⟨h.1, fun first hfirst _ _ htogether => absurd htogether.firstRunning (h.2 first hfirst)⟩

theorem step_compatible {s t : Store} {action : Action} (h : Compatible s)
    (hkeeps : KeepsTarget s action) (hstep : step s action = some t) : Compatible t := by
  by_cases hclaim : ∃ now options locked, action = .claimStatement now options locked
  · obtain ⟨now, options, locked, rfl⟩ := hclaim
    obtain ⟨⟨u, row⟩, hclaim, rfl⟩ := Option.map_eq_some_iff.mp hstep
    exact h.claimStatement hclaim
  · exact h.quiet hkeeps (step_quiet hstep fun now options locked heq =>
      hclaim ⟨now, options, locked, heq⟩)

/-- Every claim passes this heavy cap. -/
def ClaimsWithin (heavyCap : ℕ) (_ : Store) : Action → Prop
  | .claimStatement _ options _ => options.maxConcurrentHeavyJobs = some heavyCap
  | _ => True

theorem step_heavy {s t : Store} {action : Action} {heavyCap : ℕ} (hkeyed : WellKeyed s)
    (hwithin : ClaimsWithin heavyCap s action)
    (hstep : step s action = some t) (hheavy : runningHeavy s.jobs ≤ heavyCap) :
    runningHeavy t.jobs ≤ heavyCap := by
  by_cases hclaim : ∃ now options locked, action = .claimStatement now options locked
  · obtain ⟨now, options, locked, rfl⟩ := hclaim
    obtain ⟨⟨u, row⟩, hclaim, rfl⟩ := Option.map_eq_some_iff.mp hstep
    exact claimStatement_heavy hkeyed hwithin hclaim hheavy
  · exact (step_quiet hstep fun now options locked heq =>
      hclaim ⟨now, options, locked, heq⟩).heavy.trans hheavy

/-- **Job exclusion.** In every history of statements whose payload replacements keep the
deployment a running job is scoped to, running jobs exclude each other as documented, and
no more heavy jobs run than the cap all claims pass. -/
theorem running_jobs_exclude {s t : Store} {actions : List Action} (hinit : machine.init s)
    (hrun : machine.exec s actions = some t) (hkeeps : machine.Meets KeepsTarget s actions) :
    Exclusion t ∧ ∀ heavyCap, machine.Meets (ClaimsWithin heavyCap) s actions →
      runningHeavy t.jobs ≤ heavyCap := by
  constructor
  · exact (machine.exec_invariant (fun _ _ _ h hkeeps hstep => step_compatible h hkeeps hstep)
      (compatible_of_init hinit) hkeeps hrun).exclusion
  · intro heavyCap hwithin
    have hstart : runningHeavy s.jobs = 0 := List.countP_eq_zero.mpr fun row hrow => by
      simp [hinit.2 row hrow]
    refine (machine.exec_invariant
      (I := fun s => Compatible s ∧ runningHeavy s.jobs ≤ heavyCap)
      (G := fun s action => KeepsTarget s action ∧ ClaimsWithin heavyCap s action)
      (fun s action t h hG hstep => ⟨step_compatible h.1 hG.1 hstep,
        step_heavy h.1.keyed hG.2 hstep h.2⟩)
      ⟨compatible_of_init hinit, by omega⟩ (hkeeps.and hwithin) hrun).2

/-! ## A payload that changes its deployment -/

/-- One project and no job. -/
def oneProject : Store :=
  { jobs := [], nextSequence := 1, projects := [⟨"project", false⟩], deployments := [],
    runtimeInstances := [] }

/-- The payload of a restart of the named deployment. -/
def restartPayload (deploymentId : String) : Json := .obj [("deploymentId", .str deploymentId)]

/-- A restart of each of two deployments runs. -/
def restartBoth : List Action :=
  [.enqueueJob "project" .restartDeployment (restartPayload "first") "job 1" 0,
   .enqueueJob "project" .restartDeployment (restartPayload "second") "job 2" 1,
   .claimStatement 2 ⟨some 1, none⟩ [],
   .claimStatement 3 ⟨some 1, none⟩ []]

/-- `restartBoth` replaces no payload, so its jobs exclude each other. -/
theorem running_jobs_exclude_restartBoth :
    ∃ t, machine.exec oneProject restartBoth = some t ∧ Exclusion t ∧
      runningHeavy t.jobs ≤ 1 := by
  have hinit : machine.init oneProject := ⟨List.nodup_nil, by simp [oneProject]⟩
  have hkeeps : machine.Meets KeepsTarget oneProject restartBoth := by
    simp [Machine.Meets, restartBoth, KeepsTarget]
  have hwithin : machine.Meets (ClaimsWithin 1) oneProject restartBoth := by
    simp [Machine.Meets, restartBoth, ClaimsWithin]
  have hexclude := running_jobs_exclude hinit rfl hkeeps
  exact ⟨_, rfl, hexclude.1, hexclude.2 1 hwithin⟩

/-- The first restart is given the payload of the second, and two jobs run on one
deployment. -/
theorem replaced_payload_breaks_exclusion :
    ¬ ∀ (s t : Store) (actions : List Action), machine.init s →
      machine.exec s actions = some t → Exclusion t := by
  intro hall
  have hexclusion := hall oneProject _ (restartBoth ++
    [.replaceJobPayload "job 1" .restartDeployment (restartPayload "second") 1 4])
    ⟨List.nodup_nil, by simp [oneProject]⟩ rfl
  have hne := hexclusion.deploymentScoped _ List.mem_cons_self _
    (List.mem_cons_of_mem _ List.mem_cons_self) ⟨rfl, rfl, by decide, rfl⟩ rfl rfl
  exact hne rfl

end Eveland.JobStore
