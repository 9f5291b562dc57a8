/-
# A deletion is queued once and blocks other work

While a project is being deleted it has one deletion that is queued or running, or one
that failed and whose settlement a worker still owes; a project that is not being deleted
has neither. Nothing but a request makes a deletion, and a request is refused while the
project is being deleted. The payload of every deletion a request makes holds the paths of
all deletions before it, whose rows stay in the table until the project is gone.
-/

import Eveland.Store.DeletionCarried
import Eveland.Store.JobExclusion

namespace Eveland.ProjectDeletion

open JobStore (JobRow Store WellKeyed JobStatus.isOpen)

/-! ## Looking projects up -/

/-- The job store sees the projects there are. -/
theorem State.exists_store_projects {s : State} {projectId : String} :
    (∃ p ∈ s.store.projects, p.id = projectId) ↔ ∃ p ∈ s.projects, p.id = projectId := by
  simp [State.store]

/-- The row of a project as the job store reads it. -/
theorem State.find?_store_projects (s : State) (projectId : String) :
    (s.store.projects.find? fun p => p.id = projectId) =
      (s.findProject projectId).map fun p => ⟨p.id, p.deletionStatus = some .deleting⟩ :=
  List.find?_map ..

/-- A write to the rows of one project shows in that project only. -/
theorem findProject_updateWhere {s t : State} {f : ProjectRow → ProjectRow}
    {changed projectId : String} (hid : ∀ p, (f p).id = p.id)
    (h : t.projects = Table.updateWhere (fun p => p.id = changed) f s.projects) :
    t.findProject projectId = (s.findProject projectId).map fun p =>
      if p.id = changed then f p else p := by
  rw [State.findProject, h, Table.find?_updateWhere hid]
  simp only [State.findProject, decide_eq_true_eq]

theorem findProject_id {s : State} {projectId : String} {project : ProjectRow}
    (hfound : s.findProject projectId = some project) : project.id = projectId := by
  simpa using List.find?_some hfound

/-! ## The invariant -/

/-- How many settlements of failed deletions of the project are owed. -/
def State.owed (s : State) (projectId : String) : ℕ :=
  s.settling.countP fun owed => owed.projectId = projectId

/-- No deletion of the project is queued or running. -/
def NoDeletion (projectId : String) (jobs : List JobRow) : Prop :=
  ∀ row ∈ jobs, ¬OpenDeletion projectId row

/-- How the deletions of a project, its status and the owed settlements hang together. -/
structure Orderly (projectId : String) (s : State) : Prop where
  keyed : Table.UniqueOn JobRow.id s.jobs
  stored : ∀ row ∈ s.jobs, ∃ p ∈ s.projects, p.id = row.projectId
  once : ∀ first ∈ s.jobs, ∀ second ∈ s.jobs, OpenDeletion projectId first →
    OpenDeletion projectId second → first.id = second.id
  owedOnce : s.owed projectId ≤ 1
  settled : s.owed projectId ≠ 0 → NoDeletion projectId s.jobs
  idle : ∀ project, s.findProject projectId = some project →
    project.deletionStatus ≠ some .deleting →
      s.owed projectId = 0 ∧ NoDeletion projectId s.jobs

theorem Orderly.of_init {s : State} (hinit : machine.init s) (projectId : String) :
    Orderly projectId s := by
  obtain ⟨_, hjobs, hsettling⟩ := hinit
  constructor <;> simp [hjobs, hsettling, State.owed, NoDeletion, Table.UniqueOn]

/-- What carries the deletions keeps a project without any. -/
theorem Carries.noDeletion {s t : Store} {projectId : String} (hcarries : Carries s t)
    (hnone : NoDeletion projectId s.jobs) : NoDeletion projectId t.jobs := by
  intro row hrow hopen
  obtain ⟨old, hold, hsame⟩ := hcarries.deletions row hrow hopen.type
  exact hnone old hold (hsame.openDeletion hopen)

/-! ## Statements of the job store -/

/-- A statement that carries the deletions. -/
theorem Orderly.withStore {s : State} {t : Store} {projectId : String}
    (h : Orderly projectId s) (hcarries : Carries s.store t) :
    Orderly projectId (s.withStore t) where
  keyed := hcarries.keyed
  stored row hrow := State.exists_store_projects.mp
    (hcarries.stored (fun old hold => State.exists_store_projects.mpr (h.stored old hold))
      row hrow)
  once first hfirst second hsecond hopen hopen' := by
    obtain ⟨a, ha, hsame⟩ := hcarries.deletions first hfirst hopen.type
    obtain ⟨b, hb, hsame'⟩ := hcarries.deletions second hsecond hopen'.type
    rw [hsame.id, hsame'.id]
    exact h.once a ha b hb (hsame.openDeletion hopen) (hsame'.openDeletion hopen')
  owedOnce := h.owedOnce
  settled howed := hcarries.noDeletion (h.settled howed)
  idle project hfound hstatus :=
    have hidle := h.idle project hfound hstatus
    ⟨hidle.1, hcarries.noDeletion hidle.2⟩

/-! ## A deletion that fails -/

theorem failJob_carries {s : Store} {jobId error : String} {attempt : Option ℕ} {now : ℤ}
    (hkeyed : WellKeyed s) : Carries s (JobStore.failJob s jobId error attempt now) :=
  have hstep : JobStore.step s (.failJob jobId error attempt now) =
      some (JobStore.failJob s jobId error attempt now) := rfl
  have hissued : Issued (.jobs (.failJob jobId error attempt now)) := trivial
  step_carries hkeyed hissued hstep

/-- After the only open deletion has failed there is none. -/
theorem noDeletion_of_failJob {s : State} {projectId jobId message : String} {attempt : ℕ}
    {now : ℤ} {job : JobRow} (h : Orderly projectId s)
    (hfound : s.jobs.find? (JobStore.settles jobId (some attempt)) = some job)
    (hopen : OpenDeletion projectId job) :
    NoDeletion projectId (JobStore.failJob s.store jobId message (some attempt) now).jobs := by
  intro row hrow hrowOpen
  rcases Table.mem_updateWhere.mp hrow with ⟨hold, hother⟩ | ⟨old, _, _, rfl⟩
  · -- A row that was left alone is the failed one, which was not left alone.
    have hjob := List.mem_of_find?_eq_some hfound
    have hid := h.once row hold job hjob hrowOpen hopen
    rw [Table.UniqueOn.eq h.keyed hold hjob hid] at hother
    exact absurd (List.find?_some hfound) (by simp [hother])
  · exact absurd hrowOpen.isOpen (by simp [JobStatus.isOpen])

theorem Orderly.failDeletion {s : State} {projectId jobId message : String} {attempt : ℕ}
    {now : ℤ} (h : Orderly projectId s) :
    Orderly projectId (failDeletion s jobId message attempt now) := by
  have hfailed : Orderly projectId
      (s.withStore (JobStore.failJob s.store jobId message (some attempt) now)) :=
    h.withStore (failJob_carries h.keyed)
  unfold ProjectDeletion.failDeletion
  split
  · next job hfound =>
      split
      · next htype =>
          by_cases hproject : job.projectId = projectId
          · have hsettles := List.find?_some hfound
            simp only [JobStore.settles, Bool.and_eq_true, decide_eq_true_eq] at hsettles
            have hopen : OpenDeletion projectId job :=
              ⟨hproject, htype, by simp [JobStatus.isOpen, hsettles.2.1]⟩
            have hjob := List.mem_of_find?_eq_some hfound
            have hnone : NoDeletion projectId
                (JobStore.failJob s.store jobId message (some attempt) now).jobs :=
              noDeletion_of_failJob h hfound hopen
            have howed : s.owed projectId = 0 :=
              Classical.byContradiction fun howed => h.settled howed job hjob hopen
            refine ⟨hfailed.keyed, hfailed.stored, hfailed.once, ?_, fun _ => hnone, ?_⟩
            · simpa [State.owed, hproject] using howed
            · intro project hfoundProject hstatus
              exact absurd hopen ((h.idle project hfoundProject hstatus).2 job hjob)
          · have hsame : State.owed { s.withStore (JobStore.failJob s.store jobId message
                (some attempt) now) with
                  settling := s.settling ++ [⟨job.projectId, message⟩] } projectId =
                s.owed projectId := by
              simp [State.owed, hproject]
            refine ⟨hfailed.keyed, hfailed.stored, hfailed.once, ?_, ?_, ?_⟩
            · rw [hsame]
              exact h.owedOnce
            · rw [hsame]
              exact hfailed.settled
            · rw [hsame]
              exact hfailed.idle
      · exact hfailed
  · exact hfailed

theorem Orderly.settleJobFailure {s : State} {projectId : String} {settlement : Settlement}
    (h : Orderly projectId s) (howed : settlement ∈ s.settling) :
    Orderly projectId (settleJobFailure s settlement) := by
  have hfind : (ProjectDeletion.settleJobFailure s settlement).findProject projectId =
      (s.findProject projectId).map fun p => if p.id = settlement.projectId then
        { p with deletionStatus := some .failed, deletionError := some settlement.message }
      else p :=
    findProject_updateWhere (s := s) (fun _ => rfl) rfl
  have hcount : (ProjectDeletion.settleJobFailure s settlement).owed projectId =
      s.owed projectId - if settlement.projectId = projectId then 1 else 0 := by
    have hperm := (List.perm_cons_erase howed).countP_eq fun owed => owed.projectId = projectId
    rw [List.countP_cons] at hperm
    simp only [decide_eq_true_eq] at hperm
    rw [State.owed, State.owed, hperm]
    exact (Nat.add_sub_cancel _ _).symm
  have hstored : ∀ row ∈ s.jobs,
      ∃ p ∈ (ProjectDeletion.settleJobFailure s settlement).projects, p.id = row.projectId := by
    intro row hrow
    obtain ⟨p, hp, hid⟩ := h.stored row hrow
    by_cases hsettled : p.id = settlement.projectId
    · exact ⟨_, Table.mem_updateWhere.mpr (Or.inr ⟨p, hp, by simpa using hsettled, rfl⟩), hid⟩
    · exact ⟨p, Table.mem_updateWhere_of_not hp (by simpa using hsettled), hid⟩
  have hle := h.owedOnce
  refine ⟨h.keyed, hstored, h.once, by omega, fun hne => h.settled (by omega), ?_⟩
  intro project hfound hstatus
  by_cases hsame : settlement.projectId = projectId
  · -- The settlement was the only one owed, so no deletion was open.
    have hpos : s.owed projectId ≠ 0 := by
      rw [State.owed, Ne, List.countP_eq_zero]
      exact fun hnone => hnone settlement howed (decide_eq_true hsame)
    rw [if_pos hsame] at hcount
    exact ⟨by omega, h.settled hpos⟩
  · rw [if_neg hsame] at hcount
    rw [hfind] at hfound
    obtain ⟨old, hold, rfl⟩ := Option.map_eq_some_iff.mp hfound
    rw [if_neg (by rw [findProject_id hold]; exact Ne.symm hsame)] at hstatus
    have hidle := h.idle old hold hstatus
    exact ⟨by omega, hidle.2⟩

/-! ## The end of a project -/

theorem Orderly.deleteProject {s : State} {projectId deleted : String}
    (h : Orderly projectId s) : Orderly projectId (deleteProject s deleted) := by
  have hmem : ∀ row ∈ (ProjectDeletion.deleteProject s deleted).jobs,
      row ∈ s.jobs ∧ row.projectId ≠ deleted := by
    intro row hrow
    simpa [ProjectDeletion.deleteProject] using hrow
  have hnone : NoDeletion projectId s.jobs →
      NoDeletion projectId (ProjectDeletion.deleteProject s deleted).jobs :=
    fun hnone row hrow => hnone row (hmem row hrow).1
  constructor
  · exact (List.Sublist.map _ List.filter_sublist).nodup h.keyed
  · intro row hrow
    obtain ⟨p, hp, hid⟩ := h.stored row (hmem row hrow).1
    exact ⟨p, List.mem_filter.mpr ⟨hp, by simpa [hid] using (hmem row hrow).2⟩, hid⟩
  · intro first hfirst second hsecond
    exact h.once first (hmem first hfirst).1 second (hmem second hsecond).1
  · exact h.owedOnce
  · exact fun howed => hnone (h.settled howed)
  · intro project hfound hstatus
    have hstays : s.findProject projectId = some project := by
      have hid := findProject_id hfound
      have hproject := List.mem_of_find?_eq_some hfound
      have hother : project.id ≠ deleted := by
        simpa using (List.mem_filter.mp hproject).2
      rw [hid] at hother
      rw [State.findProject, ProjectDeletion.deleteProject, List.find?_filter] at hfound
      rw [State.findProject, ← hfound]
      congr 1
      funext p
      by_cases hp : p.id = projectId <;> simp [hp, hother]
    have hidle := h.idle project hstays hstatus
    exact ⟨hidle.1, hnone hidle.2⟩

/-! ## A request -/

/-- The job a request inserts. -/
def requestedJob (s : State) (projectId jobId : String) (now : ℤ) : JobRow :=
  { id := jobId, projectId, type := some .deleteProject, status := .queued,
    payload := deletionPayload
      (projectDeletionSourcePaths ((deletionInputs s projectId).map JobRow.payload)),
    attempts := 0, lastError := none, lockedAt := none, sequence := s.nextSequence,
    createdAt := now, updatedAt := now }

/-- A request that is granted: the project was not being deleted, and is now, with the
job in place of its queued jobs. -/
structure Granted (s : State) (projectId jobId : String) (now : ℤ) (t : State) : Prop where
  idle : ∃ project, s.findProject projectId = some project ∧
    project.deletionStatus ≠ some .deleting
  fresh : ∀ row ∈ (markDeleting s projectId).jobs, row.id ≠ jobId
  jobs : t.jobs = (markDeleting s projectId).jobs ++ [requestedJob s projectId jobId now]
  projects : t.projects = (markDeleting s projectId).projects
  settling : t.settling = s.settling

/-- A request is granted, or changes nothing. -/
theorem requestProjectDeletion_cases {s t : State} {projectId jobId : String} {now : ℤ}
    {answer : ProjectDeletionRequest}
    (hrequest : requestProjectDeletion s projectId jobId now = .ok (t, answer)) :
    (t = s ∧ ∀ job, answer ≠ .queued job) ∨
      (Granted s projectId jobId now t ∧
        answer = .queued (requestedJob s projectId jobId now)) := by
  unfold requestProjectDeletion at hrequest
  split at hrequest
  · cases hrequest
    exact Or.inl ⟨rfl, fun _ h => by cases h⟩
  · next project hfound =>
      split at hrequest
      · cases hrequest
        exact Or.inl ⟨rfl, fun _ h => by cases h⟩
      · next hidle =>
          obtain ⟨inserted, hinsert, hrequest⟩ := Outcome.bind_eq_ok.mp hrequest
          obtain ⟨job, hjob, hrequest⟩ := Outcome.bind_eq_ok.mp hrequest
          cases hrequest
          unfold JobStore.insertJobRowTx at hinsert
          obtain ⟨decoded, hdecoded, hinsert⟩ := Outcome.bind_eq_ok.mp hinsert
          obtain ⟨_, _, hinsert⟩ := Outcome.bind_eq_ok.mp hinsert
          obtain ⟨_, hfresh, hinsert⟩ := Outcome.bind_eq_ok.mp hinsert
          obtain rfl := decodeJobPayload_eq (Outcome.require_eq_ok.mp hdecoded)
          have hfresh : ∀ row ∈ (markDeleting s projectId).jobs, row.id ≠ jobId := by
            intro row hrow
            simpa using List.all_eq_true.mp (Outcome.ensure_eq_ok.mp hfresh) row hrow
          cases hinsert
          refine Or.inr ⟨⟨⟨project, hfound, hidle⟩, hfresh, rfl, rfl, rfl⟩, ?_⟩
          -- The inserted row is the one found under the new identifier.
          have hnone : (markDeleting s projectId).jobs.find? (fun r => r.id = jobId) = none := by
            rw [List.find?_eq_none]
            exact fun row hrow => by simpa using hfresh row hrow
          have hfoundJob := Outcome.require_eq_ok.mp hjob
          simp only [Store.findJob, State.store, List.find?_append, hnone, Option.none_or,
            List.find?_singleton, decide_true, if_true] at hfoundJob
          rw [← Option.some.inj hfoundJob]
          rfl

/-- A granted request shows in the project it is for. -/
theorem Granted.findProject_eq {s t : State} {requested jobId : String} {now : ℤ}
    (h : Granted s requested jobId now t) (projectId : String) :
    t.findProject projectId = (s.findProject projectId).map fun p =>
      if p.id = requested then { p with deletionStatus := some .deleting, deletionError := none }
      else p :=
  findProject_updateWhere (fun _ => rfl) h.projects

/-- What a granted request leaves of the other projects. -/
theorem Granted.findProject {s t : State} {requested projectId jobId : String} {now : ℤ}
    (h : Granted s requested jobId now t) (hother : requested ≠ projectId) :
    t.findProject projectId = s.findProject projectId := by
  rw [h.findProject_eq]
  cases hfound : s.findProject projectId with
  | none => rfl
  | some project =>
      have hid : project.id ≠ requested := by
        rw [findProject_id hfound]
        exact Ne.symm hother
      simp [hid]

/-- The project of a granted request is being deleted. -/
theorem Granted.isDeleting {s t : State} {projectId jobId : String} {now : ℤ}
    (h : Granted s projectId jobId now t) {project : ProjectRow}
    (hfound : t.findProject projectId = some project) :
    project.deletionStatus = some .deleting := by
  rw [h.findProject_eq] at hfound
  obtain ⟨old, hold, rfl⟩ := Option.map_eq_some_iff.mp hfound
  rw [if_pos (findProject_id hold)]

/-- A job after a granted request is the new one or was there before. -/
theorem Granted.mem_jobs {s t : State} {projectId jobId : String} {now : ℤ}
    (h : Granted s projectId jobId now t) {row : JobRow} (hrow : row ∈ t.jobs) :
    row ∈ s.jobs ∨ row = requestedJob s projectId jobId now := by
  rw [h.jobs] at hrow
  rcases List.mem_append.mp hrow with hrow | hrow
  · exact Or.inl (List.mem_of_mem_filter hrow)
  · exact Or.inr (List.mem_singleton.mp hrow)

theorem Orderly.granted {s t : State} {projectId requested jobId : String} {now : ℤ}
    (h : Orderly projectId s) (hgranted : Granted s requested jobId now t) :
    Orderly projectId t := by
  obtain ⟨project, hfound, hidle⟩ := hgranted.idle
  have hkeyed : Table.UniqueOn JobRow.id t.jobs := by
    rw [hgranted.jobs]
    exact Table.UniqueOn.append ((List.Sublist.map _ List.filter_sublist).nodup h.keyed)
      hgranted.fresh
  have hproject : ∀ name, (∃ p ∈ s.projects, p.id = name) → ∃ p ∈ t.projects, p.id = name := by
    rintro name ⟨p, hp, hid⟩
    rw [hgranted.projects]
    by_cases hmarked : p.id = requested
    · exact ⟨_, Table.mem_updateWhere.mpr (Or.inr ⟨p, hp, by simpa using hmarked, rfl⟩), hid⟩
    · exact ⟨p, Table.mem_updateWhere_of_not hp (by simpa using hmarked), hid⟩
  have hstored : ∀ row ∈ t.jobs, ∃ p ∈ t.projects, p.id = row.projectId := by
    intro row hrow
    apply hproject
    rcases hgranted.mem_jobs hrow with hrow | rfl
    · exact h.stored row hrow
    · exact ⟨project, List.mem_of_find?_eq_some hfound, findProject_id hfound⟩
  have howed : t.owed projectId = s.owed projectId := by
    rw [State.owed, hgranted.settling]
    rfl
  by_cases hsame : requested = projectId
  · -- The project had no deletion, so its only one is the new job.
    subst hsame
    obtain ⟨hzero, hnone⟩ := h.idle project hfound hidle
    have hnew : ∀ row ∈ t.jobs, OpenDeletion requested row → row.id = jobId := by
      intro row hrow hopen
      rcases hgranted.mem_jobs hrow with hrow | rfl
      · exact absurd hopen (hnone row hrow)
      · rfl
    refine ⟨hkeyed, hstored, ?_, by omega, fun hne => absurd (howed.trans hzero) hne, ?_⟩
    · intro first hfirst second hsecond hopen hopen'
      rw [hnew first hfirst hopen, hnew second hsecond hopen']
    · intro marked hmarked hstatus
      exact absurd (hgranted.isDeleting hmarked) hstatus
  · have hold : ∀ row ∈ t.jobs, OpenDeletion projectId row → row ∈ s.jobs := by
      intro row hrow hopen
      rcases hgranted.mem_jobs hrow with hrow | rfl
      · exact hrow
      · exact absurd hopen.project hsame
    have hnone : NoDeletion projectId s.jobs → NoDeletion projectId t.jobs :=
      fun hnone row hrow hopen => hnone row (hold row hrow hopen) hopen
    refine ⟨hkeyed, hstored, ?_, howed ▸ h.owedOnce, ?_, ?_⟩
    · intro first hfirst second hsecond hopen hopen'
      exact h.once first (hold first hfirst hopen) second (hold second hsecond hopen') hopen
        hopen'
    · rw [howed]
      exact fun hne => hnone (h.settled hne)
    · rw [howed, hgranted.findProject hsame]
      intro other hother hstatus
      have hidle := h.idle other hother hstatus
      exact ⟨hidle.1, hnone hidle.2⟩

/-! ## Every call -/

/-- What one call does: it leaves everything as it was, or is one of the writes. -/
theorem step_cases {s t : State} {action : Action} (hstep : step s action = some t) :
    (∃ projectId jobId now, action = .requestProjectDeletion projectId jobId now ∧
      (t = s ∨ Granted s projectId jobId now t)) ∨
    (∃ statement store, action = .jobs statement ∧
      JobStore.step s.store statement = some store ∧ t = s.withStore store) ∨
    (∃ jobId message attempt now, action = .failJob jobId message attempt now ∧
      t = failDeletion s jobId message attempt now) ∨
    (∃ settlement ∈ s.settling, action = .settleJobFailure settlement ∧
      t = settleJobFailure s settlement) ∨
    (∃ projectId, action = .deleteProject projectId ∧ t = deleteProject s projectId) := by
  cases action with
  | requestProjectDeletion projectId jobId now =>
      obtain ⟨⟨u, answer⟩, hrequest, rfl⟩ :=
        Outcome.map_eq_ok.mp (Outcome.toOption_eq_some.mp hstep)
      have hcases := requestProjectDeletion_cases hrequest
      exact Or.inl ⟨projectId, jobId, now, rfl, hcases.imp And.left And.left⟩
  | jobs statement =>
      obtain ⟨store, hstatement, rfl⟩ := Option.map_eq_some_iff.mp hstep
      exact Or.inr (Or.inl ⟨statement, store, rfl, hstatement, rfl⟩)
  | failJob jobId message attempt now =>
      cases hstep
      exact Or.inr (Or.inr (Or.inl ⟨jobId, message, attempt, now, rfl, rfl⟩))
  | settleJobFailure settlement =>
      rw [step] at hstep
      split at hstep
      · next howed =>
          cases hstep
          exact Or.inr (Or.inr (Or.inr (Or.inl ⟨settlement, howed, rfl, rfl⟩)))
      · cases hstep
  | deleteProject projectId =>
      cases hstep
      exact Or.inr (Or.inr (Or.inr (Or.inr ⟨projectId, rfl, rfl⟩)))

theorem Orderly.step {s t : State} {action : Action} {projectId : String}
    (h : Orderly projectId s) (hissued : Issued action) (hstep : step s action = some t) :
    Orderly projectId t := by
  rcases step_cases hstep with ⟨_, _, _, rfl, rfl | hgranted⟩ | ⟨_, _, rfl, hstatement, rfl⟩ |
    ⟨_, _, _, _, rfl, rfl⟩ | ⟨_, howed, rfl, rfl⟩ | ⟨_, rfl, rfl⟩
  · exact h
  · exact h.granted hgranted
  · exact h.withStore (step_carries h.keyed hissued hstatement)
  · exact h.failDeletion
  · exact h.settleJobFailure howed
  · exact h.deleteProject

theorem orderly_of_run {s₀ s : State} {actions : List Action} (hinit : machine.init s₀)
    (hrun : machine.exec s₀ actions = some s)
    (hissued : machine.Meets (fun _ action => Issued action) s₀ actions) (projectId : String) :
    Orderly projectId s :=
  machine.exec_invariant (fun _ _ _ h hissued hstep => h.step hissued hstep)
    (Orderly.of_init hinit projectId) hissued hrun

/-! ## One deletion -/

/-- At most one deletion of the project is queued or running. -/
theorem Orderly.countP_le_one {s : State} {projectId : String} (h : Orderly projectId s) :
    s.jobs.countP (fun row => OpenDeletion projectId row) ≤ 1 := by
  apply Table.UniqueOn.countP_le_one h.keyed
  intro first hfirst second hsecond hopen hopen'
  exact h.once first hfirst second hsecond (of_decide_eq_true hopen) (of_decide_eq_true hopen')

/-! ## What is claimed -/

theorem hasType_deleteProject {row : JobRow} :
    row.hasType [.deleteProject] = true ↔ row.type = some .deleteProject := by
  unfold JobRow.hasType
  split
  · next htype => simp [htype]
  · next htype => simp [htype]

/-- A job of a project that is being deleted is claimed only as an open deletion of it. -/
theorem openDeletion_of_claim {s : State} {projectId : String} {now : ℤ}
    {options : JobStore.ClaimOptions} {locked : List String} {t : Store} {claimed : JobRow}
    (hdeleting : s.isDeleting projectId = true)
    (hclaim : JobStore.claimStatement s.store now options locked = some (t, claimed))
    (hproject : claimed.projectId = projectId) :
    ∃ candidate ∈ s.jobs, candidate.id = claimed.id ∧ OpenDeletion projectId candidate := by
  obtain ⟨candidate, hstored, hcandidate, rfl, _⟩ := JobStore.claimStatement_cases hclaim
  have hproject : candidate.projectId = projectId := hproject
  simp only [JobStore.isCandidate, Bool.and_eq_true, decide_eq_true_eq] at hcandidate
  obtain ⟨⟨⟨⟨hqueued, _⟩, hadmitted⟩, _⟩, _⟩ := hcandidate
  refine ⟨candidate, hstored, rfl, hproject, ?_, by simp [JobStatus.isOpen, hqueued]⟩
  -- The project row that the claim joins is the one that says it is being deleted.
  unfold State.isDeleting at hdeleting
  split at hdeleting
  · next project hfound =>
      rw [State.find?_store_projects, hproject, hfound] at hadmitted
      simp only [Option.map_some, hdeleting, Bool.not_true, Bool.false_or] at hadmitted
      exact hasType_deleteProject.mp hadmitted
  · cases hdeleting

/-- While a project is being deleted, only its one open deletion is claimed. -/
theorem Orderly.claimed_id {s : State} {projectId : String} {now : ℤ}
    {options : JobStore.ClaimOptions} {locked : List String} {t : Store} {claimed job : JobRow}
    (h : Orderly projectId s) (hdeleting : s.isDeleting projectId = true) (hjob : job ∈ s.jobs)
    (hopen : OpenDeletion projectId job)
    (hclaim : JobStore.claimStatement s.store now options locked = some (t, claimed))
    (hproject : claimed.projectId = projectId) : claimed.id = job.id := by
  obtain ⟨candidate, hcandidate, hid, hcandidateOpen⟩ :=
    openDeletion_of_claim hdeleting hclaim hproject
  rw [← hid]
  exact h.once candidate hcandidate job hjob hcandidateOpen hopen

/-! ## What one deletion leaves to the next -/

/-- The job removes all the paths with the project. -/
def Removes (paths : List String) (row : JobRow) : Prop :=
  ∀ path ∈ paths, path ∈ pendingSourcePaths row.payload

theorem SameDeletion.removes {paths : List String} {old row : JobRow} (h : SameDeletion old row)
    (hremoves : Removes paths old) : Removes paths row := by
  rw [Removes, h.payload]
  exact hremoves

/-- Every open deletion of the project removes the paths, and while there is the project,
so does some deletion of it, in whatever state. -/
structure Remembers (projectId : String) (paths : List String) (s : State) : Prop where
  opened : ∀ row ∈ s.jobs, OpenDeletion projectId row → Removes paths row
  kept : (∃ p ∈ s.projects, p.id = projectId) → ∃ row ∈ s.jobs, row.projectId = projectId ∧
    row.type = some .deleteProject ∧ Removes paths row

theorem Remembers.withStore {s : State} {t : Store} {projectId : String} {paths : List String}
    (h : Remembers projectId paths s) (hcarries : Carries s.store t) :
    Remembers projectId paths (s.withStore t) where
  opened row hrow hopen := by
    obtain ⟨old, hold, hsame⟩ := hcarries.deletions row hrow hopen.type
    exact hsame.removes (h.opened old hold (hsame.openDeletion hopen))
  kept hproject := by
    obtain ⟨old, hold, hproject, htype, hremoves⟩ := h.kept hproject
    obtain ⟨row, hrow, hsame⟩ := hcarries.kept old hold htype
    exact ⟨row, hrow, hsame.project.trans hproject, hsame.type.trans htype,
      hsame.removes hremoves⟩

/-- A call that keeps the jobs, and no project it did not have. -/
theorem Remembers.of_jobs_eq {s t : State} {projectId : String} {paths : List String}
    (h : Remembers projectId paths s) (hjobs : t.jobs = s.jobs)
    (hprojects : (∃ p ∈ t.projects, p.id = projectId) → ∃ p ∈ s.projects, p.id = projectId) :
    Remembers projectId paths t where
  opened := by
    rw [hjobs]
    exact h.opened
  kept hproject := by
    rw [hjobs]
    exact h.kept (hprojects hproject)

theorem Remembers.failDeletion {s : State} {projectId jobId message : String} {attempt : ℕ}
    {now : ℤ} {paths : List String} (hkeyed : Table.UniqueOn JobRow.id s.jobs)
    (h : Remembers projectId paths s) :
    Remembers projectId paths (failDeletion s jobId message attempt now) := by
  have hfailed : Remembers projectId paths
      (s.withStore (JobStore.failJob s.store jobId message (some attempt) now)) :=
    h.withStore (failJob_carries hkeyed)
  unfold ProjectDeletion.failDeletion
  split
  · split
    · exact hfailed.of_jobs_eq rfl fun hproject => hproject
    · exact hfailed
  · exact hfailed

theorem Remembers.settleJobFailure {s : State} {projectId : String} {settlement : Settlement}
    {paths : List String} (h : Remembers projectId paths s) :
    Remembers projectId paths (settleJobFailure s settlement) := by
  refine h.of_jobs_eq rfl ?_
  rintro ⟨p, hp, hid⟩
  rcases Table.mem_updateWhere.mp hp with ⟨hp, _⟩ | ⟨old, hold, _, rfl⟩
  · exact ⟨p, hp, hid⟩
  · exact ⟨old, hold, hid⟩

theorem Remembers.deleteProject {s : State} {projectId deleted : String} {paths : List String}
    (h : Remembers projectId paths s) :
    Remembers projectId paths (deleteProject s deleted) where
  opened row hrow := h.opened row (List.mem_of_mem_filter hrow)
  kept := by
    rintro ⟨p, hp, hid⟩
    obtain ⟨hp, hother⟩ := List.mem_filter.mp hp
    obtain ⟨row, hrow, hproject, hrest⟩ := h.kept ⟨p, hp, hid⟩
    refine ⟨row, List.mem_filter.mpr ⟨hrow, ?_⟩, hproject, hrest⟩
    rw [hproject, ← hid]
    exact hother

/-- The job of a request removes what every deletion before it was to remove. -/
theorem requestedJob_removes {s : State} {projectId jobId : String} {now : ℤ}
    {paths : List String} {row : JobRow} (hrow : row ∈ s.jobs)
    (hproject : row.projectId = projectId) (htype : row.type = some .deleteProject)
    (hremoves : Removes paths row) : Removes paths (requestedJob s projectId jobId now) := by
  intro path hpath
  rw [requestedJob, pendingSourcePaths_deletionPayload, mem_projectDeletionSourcePaths]
  have hinput : row ∈ deletionInputs s projectId :=
    List.mem_filter.mpr ⟨hrow, by simp [hproject, htype]⟩
  exact ⟨row.payload, List.mem_map.mpr ⟨row, hinput, rfl⟩,
    payloadSourcePaths_of_pending (hremoves path hpath)⟩

theorem Remembers.granted {s t : State} {projectId requested jobId : String} {now : ℤ}
    {paths : List String} (h : Remembers projectId paths s)
    (hgranted : Granted s requested jobId now t) : Remembers projectId paths t := by
  obtain ⟨project, hfound, _⟩ := hgranted.idle
  have hnew : requestedJob s requested jobId now ∈ t.jobs := by
    rw [hgranted.jobs]
    exact List.mem_append_right _ List.mem_cons_self
  have hremoves : requested = projectId →
      Removes paths (requestedJob s requested jobId now) := by
    rintro rfl
    obtain ⟨row, hrow, hproject, htype, hremoves⟩ :=
      h.kept ⟨project, List.mem_of_find?_eq_some hfound, findProject_id hfound⟩
    exact requestedJob_removes hrow hproject htype hremoves
  constructor
  · intro row hrow hopen
    rcases hgranted.mem_jobs hrow with hrow | rfl
    · exact h.opened row hrow hopen
    · exact hremoves hopen.project
  · rintro ⟨p, hp, hid⟩
    by_cases hsame : requested = projectId
    · exact ⟨_, hnew, hsame, rfl, hremoves hsame⟩
    · rw [hgranted.projects] at hp
      have hold : ∃ p ∈ s.projects, p.id = projectId := by
        rcases Table.mem_updateWhere.mp hp with ⟨hp, _⟩ | ⟨old, hold, _, rfl⟩
        · exact ⟨p, hp, hid⟩
        · exact ⟨old, hold, hid⟩
      obtain ⟨row, hrow, hproject, hrest⟩ := h.kept hold
      refine ⟨row, ?_, hproject, hrest⟩
      rw [hgranted.jobs]
      refine List.mem_append_left _ (List.mem_filter.mpr ⟨hrow, ?_⟩)
      simp [hproject, Ne.symm hsame]

theorem Remembers.step {s t : State} {action : Action} {projectId : String}
    {paths : List String} (hkeyed : Table.UniqueOn JobRow.id s.jobs)
    (h : Remembers projectId paths s) (hissued : Issued action)
    (hstep : step s action = some t) : Remembers projectId paths t := by
  rcases step_cases hstep with ⟨_, _, _, rfl, rfl | hgranted⟩ | ⟨_, _, rfl, hstatement, rfl⟩ |
    ⟨_, _, _, _, rfl, rfl⟩ | ⟨_, howed, rfl, rfl⟩ | ⟨_, rfl, rfl⟩
  · exact h
  · exact h.granted hgranted
  · exact h.withStore (step_carries hkeyed hissued hstatement)
  · exact h.failDeletion hkeyed
  · exact h.settleJobFailure
  · exact h.deleteProject

/-- A granted request makes its project remember the paths of its job. -/
theorem Granted.remembers {s t : State} {projectId jobId : String} {now : ℤ}
    (h : Granted s projectId jobId now t) (horderly : Orderly projectId s) :
    Remembers projectId
      (pendingSourcePaths (requestedJob s projectId jobId now).payload) t := by
  obtain ⟨project, hfound, hidle⟩ := h.idle
  have hnone := (horderly.idle project hfound hidle).2
  constructor
  · intro row hrow hopen
    rcases h.mem_jobs hrow with hrow | rfl
    · exact absurd hopen (hnone row hrow)
    · exact fun _ hpath => hpath
  · intro _
    refine ⟨_, ?_, rfl, rfl, fun _ hpath => hpath⟩
    rw [h.jobs]
    exact List.mem_append_right _ List.mem_cons_self

/-! ## From one deletion on -/

/-- A deletion after a call was there before it, or is the job of a granted request. -/
theorem deletion_of_step {s t : State} {action : Action} {row : JobRow}
    (hkeyed : Table.UniqueOn JobRow.id s.jobs) (hissued : Issued action)
    (hstep : step s action = some t) (hrow : row ∈ t.jobs)
    (hdeletion : row.type = some .deleteProject) :
    (∃ old ∈ s.jobs, SameDeletion old row) ∨ ∃ projectId jobId now,
      Granted s projectId jobId now t ∧ row = requestedJob s projectId jobId now := by
  have hsame : row ∈ s.jobs → ∃ old ∈ s.jobs, SameDeletion old row :=
    fun hold => ⟨row, hold, SameDeletion.refl row⟩
  rcases step_cases hstep with ⟨_, _, _, rfl, rfl | hgranted⟩ | ⟨_, _, rfl, hstatement, rfl⟩ |
    ⟨jobId, message, attempt, now, rfl, rfl⟩ | ⟨_, howed, rfl, rfl⟩ | ⟨_, rfl, rfl⟩
  · exact Or.inl (hsame hrow)
  · exact (hgranted.mem_jobs hrow).imp hsame fun hnew => ⟨_, _, _, hgranted, hnew⟩
  · exact Or.inl ((step_carries (s := s.store) hkeyed hissued hstatement).deletions row hrow
      hdeletion)
  · have hjobs : (failDeletion s jobId message attempt now).jobs =
        (JobStore.failJob s.store jobId message (some attempt) now).jobs := by
      unfold failDeletion
      split
      · split <;> rfl
      · rfl
    rw [hjobs] at hrow
    exact Or.inl ((failJob_carries (s := s.store) hkeyed).deletions row hrow hdeletion)
  · exact Or.inl (hsame hrow)
  · exact Or.inl (hsame (List.mem_of_mem_filter hrow))

/-- While the project is being deleted no call opens another deletion of it. -/
theorem only_of_step {s t : State} {action : Action} {projectId jobId : String}
    (hkeyed : Table.UniqueOn JobRow.id s.jobs) (hdeleting : s.isDeleting projectId = true)
    (honly : ∀ row ∈ s.jobs, OpenDeletion projectId row → row.id = jobId)
    (hissued : Issued action) (hstep : step s action = some t) :
    ∀ row ∈ t.jobs, OpenDeletion projectId row → row.id = jobId := by
  intro row hrow hopen
  rcases deletion_of_step hkeyed hissued hstep hrow hopen.type with ⟨old, hold, hsame⟩ |
    ⟨requested, requestedId, now, hgranted, rfl⟩
  · rw [hsame.id]
    exact honly old hold (hsame.openDeletion hopen)
  · obtain ⟨project, hfound, hidle⟩ := hgranted.idle
    obtain rfl : requested = projectId := hopen.project
    rw [State.isDeleting, hfound] at hdeleting
    exact absurd (of_decide_eq_true hdeleting) hidle

/-- As long as the project is being deleted, its open deletion stays the only one. -/
theorem only_of_run {m s : State} {projectId : String} {actions : List Action} {job : JobRow}
    (horderly : Orderly projectId m) (hjob : job ∈ m.jobs) (hopen : OpenDeletion projectId job)
    (hrun : machine.exec m actions = some s)
    (hissued : machine.Meets (fun _ action => Issued action) m actions)
    (hdeleting : machine.Always (fun u => u.isDeleting projectId = true) m actions) :
    ∀ row ∈ s.jobs, OpenDeletion projectId row → row.id = job.id := by
  refine (machine.exec_invariant
    (I := fun u => Orderly projectId u ∧
      ∀ row ∈ u.jobs, OpenDeletion projectId row → row.id = job.id)
    (G := fun u action => Issued action ∧ u.isDeleting projectId = true)
    ?_ ⟨horderly, ?_⟩ (hissued.and hdeleting.meets) hrun).2
  · intro u action v h hmeets hstep
    exact ⟨h.1.step hmeets.1 hstep, only_of_step h.1.keyed hmeets.2 h.2 hmeets.1 hstep⟩
  · exact fun row hrow hrowOpen => horderly.once row hrow job hjob hrowOpen hopen

/-- **Project deletion.** In every history of calls in which deletions are requested and not
enqueued by themselves: while the project is being deleted, one deletion of it is queued or
running at most; from when there is one, as long as the project is being deleted, no other
job of the project is claimed; and every deletion that is queued or running at the end has in
its payload all source paths that an earlier request recorded. -/
theorem deletion_blocks_and_is_queued_once {s₀ s : State} {actions : List Action}
    (hinit : machine.init s₀) (hrun : machine.exec s₀ actions = some s)
    (hissued : machine.Meets (fun _ action => Issued action) s₀ actions) (projectId : String) :
    (s.isDeleting projectId = true →
      s.jobs.countP (fun row => OpenDeletion projectId row) ≤ 1) ∧
    (∀ before during m, actions = before ++ during → machine.exec s₀ before = some m →
      machine.Always (fun u => u.isDeleting projectId = true) m during →
      ∀ job ∈ m.jobs, OpenDeletion projectId job →
      ∀ now options locked t claimed,
        JobStore.claimStatement s.store now options locked = some (t, claimed) →
        claimed.projectId = projectId → claimed.id = job.id) ∧
    (∀ before after m m' jobId now job,
      actions = before ++ .requestProjectDeletion projectId jobId now :: after →
      machine.exec s₀ before = some m →
      requestProjectDeletion m projectId jobId now = .ok (m', .queued job) →
      ∀ row ∈ s.jobs, OpenDeletion projectId row →
        ∀ path ∈ pendingSourcePaths job.payload, path ∈ pendingSourcePaths row.payload) := by
  refine ⟨fun _ => (orderly_of_run hinit hrun hissued projectId).countP_le_one, ?_, ?_⟩
  · rintro before during m rfl hbefore hdeleting job hjob hopen now options locked t claimed
      hclaim hproject
    obtain ⟨hissuedBefore, hissuedDuring⟩ := (machine.meets_append _ s₀ before during).mp hissued
    rw [machine.exec_append, hbefore] at hrun
    have honly := only_of_run (orderly_of_run hinit hbefore hissuedBefore projectId) hjob hopen
      hrun (hissuedDuring m hbefore) hdeleting
    obtain ⟨candidate, hcandidate, hid, hcandidateOpen⟩ :=
      openDeletion_of_claim (hdeleting.of_exec hrun) hclaim hproject
    rw [← hid]
    exact honly candidate hcandidate hcandidateOpen
  · rintro before after m m' jobId now job rfl hbefore hrequest row hrow hopen
    obtain ⟨hissuedBefore, hissuedAfter⟩ := (machine.meets_append _ s₀ before _).mp hissued
    rw [machine.exec_append, hbefore] at hrun
    obtain ⟨u, hu, hrun⟩ := machine.exec_cons_eq_some.mp hrun
    have hanswer : machine.step m (.requestProjectDeletion projectId jobId now) = some m' := by
      rw [show machine.step m _ = step m _ from rfl, step, hrequest]
      rfl
    obtain rfl := Option.some.inj (hanswer.symm.trans hu)
    have horderly := orderly_of_run hinit hbefore hissuedBefore projectId
    rcases requestProjectDeletion_cases hrequest with ⟨_, hnot⟩ | ⟨hgranted, hjob⟩
    · exact absurd rfl (hnot job)
    · obtain rfl := ProjectDeletionRequest.queued.inj hjob
      have hmeets := (hissuedAfter m hbefore).2 m' hu
      refine (machine.exec_invariant
        (I := fun v => Orderly projectId v ∧ Remembers projectId
          (pendingSourcePaths (requestedJob m projectId jobId now).payload) v)
        (fun v action w h hissued hstep => ⟨h.1.step hissued hstep,
          h.2.step h.1.keyed hissued hstep⟩)
        ⟨horderly.granted hgranted, hgranted.remembers horderly⟩ hmeets hrun).2.opened row hrow
          hopen

/-- One project that is not being deleted, and no job. -/
def oneProject : State :=
  { projects := [⟨"project", none, none⟩], jobs := [], nextSequence := 1, deployments := [],
    runtimeInstances := [], settling := [] }

/-- An import is queued, the deletion takes its place, runs and fails, and is requested
again after a build was enqueued. -/
def failedOnce : List Action :=
  [.jobs (.enqueueJob "project" .importSource (.obj [("sourcePath", .str "upload")]) "job 1" 0),
   .requestProjectDeletion "project" "job 2" 1,
   .jobs (.claimStatement 2 ⟨none, none⟩ []),
   .failJob "job 2" "busy" 1 3,
   .settleJobFailure ⟨"project", "busy"⟩,
   .jobs (.enqueueJob "project" .buildDeploy (.obj []) "job 3" 4),
   .requestProjectDeletion "project" "job 4" 5,
   .jobs (.claimStatement 6 ⟨none, none⟩ [])]

/-- After `failedOnce` the second deletion runs alone, with the path of the import. -/
theorem deletion_blocks_and_is_queued_once_failedOnce :
    ∃ s, machine.exec oneProject failedOnce = some s ∧
      s.jobs.countP (fun row => OpenDeletion "project" row) ≤ 1 ∧
      (∀ row ∈ s.jobs, OpenDeletion "project" row → "upload" ∈ pendingSourcePaths row.payload) ∧
      ∃ row ∈ s.jobs, row.id = "job 4" ∧ OpenDeletion "project" row := by
  have hinit : machine.init oneProject := by simp [machine, oneProject]
  have hissued : machine.Meets (fun _ action => Issued action) oneProject failedOnce := by
    simp [Machine.Meets, failedOnce, Issued]
  have hdeletion := deletion_blocks_and_is_queued_once hinit rfl hissued "project"
  refine ⟨_, rfl, hdeletion.1 rfl, ?_, ?_⟩
  · intro row hrow hopen
    exact hdeletion.2.2 [.jobs (.enqueueJob "project" .importSource
      (.obj [("sourcePath", .str "upload")]) "job 1" 0)] _ _ _ _ _ _ rfl rfl rfl row hrow hopen
      "upload" (by decide)
  · exact ⟨_, List.mem_cons_of_mem _ List.mem_cons_self, rfl, by decide⟩

/-- Nothing in the tables keeps a deletion that is enqueued by itself from being queued
beside the requested one. -/
theorem enqueued_deletion_is_queued_twice :
    ¬ ∀ (s₀ s : State) (actions : List Action) (projectId : String), machine.init s₀ →
      machine.exec s₀ actions = some s → s.isDeleting projectId = true →
      s.jobs.countP (fun row => OpenDeletion projectId row) ≤ 1 := by
  intro hall
  have honce := hall oneProject _
    [.requestProjectDeletion "project" "job 1" 0,
     .jobs (.enqueueJob "project" .deleteProject (.obj []) "job 2" 1)] "project"
    (by simp [machine, oneProject]) rfl rfl
  exact absurd honce (by decide)

end Eveland.ProjectDeletion
