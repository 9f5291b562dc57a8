/-
# When claiming a due tick advances its schedule

`claimDueScheduleRuns` inserts the run of a due tick with `on conflict do nothing`
and skips the rest of the turn when nothing was inserted, so a schedule whose tick
already has a cron run keeps its `nextRunAt`. Retargeting recomputes `nextRunAt`
from the clock of the caller, and a clock that lags behind an earlier claim moves
it back onto a claimed tick. This module runs every history of the store's calls
and shows that the skipped turn is the only way a selected schedule fails to
advance.
-/

import Eveland.Store.ScheduleStore

namespace Eveland.ScheduleStore

/-! ## Histories of store calls -/

/-- One call, with the clock value and the identifiers it is made with. The first three
change tables the schedule store only reads. -/
inductive Action
  | recordSourceRevision (revision : SourceRevision)
  | recordDeployment (release : Release) (deployment : Deployment)
  | setDeploymentStatus (deploymentId : String) (status : DeploymentStatus)
  | recordScheduleVersions (projectId sourceRevisionId : String)
      (definitions : List ScheduleDefinition) (newId : ℕ → String) (now : ℤ)
  | setProjectSchedulerTarget (projectId deploymentId : String) (now : ℤ)
  | promoteDeployment (projectId deploymentId : String) (now : ℤ)
  | createManualScheduleRun (projectId scheduleId : String) (newId : ℕ → String) (now : ℤ)
  | claimDueScheduleRuns (now : ℤ) (limit : ℕ) (newId : ℕ → String)

/-- The effect of a committed call; a call that throws rolls back and is no step. -/
def step (lib : CronLibrary) (s : Store) : Action → Option Store
  | .recordSourceRevision revision =>
      some { s with sourceRevisions := s.sourceRevisions ++ [revision] }
  | .recordDeployment release deployment =>
      some { s with
        releases := s.releases ++ [release]
        deployments := s.deployments ++ [deployment] }
  | .setDeploymentStatus deploymentId status =>
      some { s with
        deployments := Table.updateWhere (fun d => d.id = deploymentId)
          (fun d => { d with status }) s.deployments }
  | .recordScheduleVersions projectId sourceRevisionId definitions newId now =>
      (ScheduleStore.recordScheduleVersions lib s projectId sourceRevisionId definitions newId
        now).toOption
  | .setProjectSchedulerTarget projectId deploymentId now =>
      (ScheduleStore.setProjectSchedulerTarget lib s projectId deploymentId now).toOption
  | .promoteDeployment projectId deploymentId now =>
      (ScheduleStore.promoteDeployment lib s projectId deploymentId now).toOption
  | .createManualScheduleRun projectId scheduleId newId now =>
      (ScheduleStore.createManualScheduleRun s projectId scheduleId newId now).toOption
  | .claimDueScheduleRuns now limit newId =>
      (ScheduleStore.claimDueScheduleRuns lib s now limit newId).toOption.map Prod.fst

/-- The schedule store, started with no schedule, target or run. -/
def machine (lib : CronLibrary) : Machine Store Action where
  init s := s.schedules = [] ∧ s.versions = [] ∧ s.targets = [] ∧ s.runs = [] ∧ s.jobs = []
  step := step lib

/-! ## Primary keys -/

/-- The primary keys of the two tables a claim joins and updates. -/
structure WellKeyed (s : Store) : Prop where
  schedules : Table.UniqueOn ProjectSchedule.id s.schedules
  versions : Table.UniqueOn ScheduleVersion.id s.versions

theorem wellKeyed_of_init {lib : CronLibrary} {s : Store} (h : (machine lib).init s) :
    WellKeyed s := by
  obtain ⟨hschedules, hversions, _⟩ := h
  constructor
  · simp [Table.UniqueOn, hschedules]
  · simp [Table.UniqueOn, hversions]

/-- Updating schedule rows in place keeps both keys. -/
theorem WellKeyed.updateSchedules {s t : Store} (h : WellKeyed s)
    {p : ProjectSchedule → Bool} {f : ProjectSchedule → ProjectSchedule}
    (hf : ∀ row, (f row).id = row.id)
    (hschedules : t.schedules = Table.updateWhere p f s.schedules)
    (hversions : t.versions = s.versions) : WellKeyed t := by
  constructor
  · rw [hschedules]
    exact h.schedules.updateWhere hf
  · rw [hversions]
    exact h.versions

/-- Inserting a schedule under a new key keeps both keys. -/
theorem upsertSchedule_wellKeyed {s t : Store} {projectId key scheduleId : String} {now : ℤ}
    {row : ProjectSchedule} (h : WellKeyed s)
    (hupsert : upsertSchedule s projectId key scheduleId now = .ok (t, row)) : WellKeyed t := by
  unfold upsertSchedule at hupsert
  split at hupsert
  · cases hupsert
    exact h
  · obtain ⟨hnew, hok⟩ := Outcome.guard_eq_ok.mp hupsert
    cases hok
    refine ⟨h.schedules.append ?_, h.versions⟩
    intro other hother hsame
    exact hnew (List.any_eq_true.mpr ⟨other, hother, by simpa using hsame⟩)

/-- Inserting a version under a new key keeps both keys. -/
theorem upsertVersion_wellKeyed {s t : Store} {scheduleId sourceRevisionId versionId : String}
    {definition : ScheduleDefinition} {row : ScheduleVersion} (h : WellKeyed s)
    (hupsert : upsertVersion s scheduleId sourceRevisionId definition versionId = .ok (t, row)) :
    WellKeyed t := by
  unfold upsertVersion at hupsert
  split at hupsert
  · cases hupsert
    exact h
  · obtain ⟨hnew, hok⟩ := Outcome.guard_eq_ok.mp hupsert
    cases hok
    refine ⟨h.schedules, h.versions.append ?_⟩
    intro other hother hsame
    exact hnew (List.any_eq_true.mpr ⟨other, hother, by simpa using hsame⟩)

theorem recordScheduleVersion_wellKeyed {s t : Store} {projectId sourceRevisionId : String}
    {definition : ScheduleDefinition} {scheduleId versionId : String} {now : ℤ}
    (h : WellKeyed s)
    (hrecord : recordScheduleVersion s projectId sourceRevisionId definition scheduleId versionId
      now = .ok t) : WellKeyed t := by
  unfold recordScheduleVersion at hrecord
  obtain ⟨⟨s₁, scheduleRow⟩, hschedule, hrecord⟩ := Outcome.bind_eq_ok.mp hrecord
  obtain ⟨⟨s₂, versionRow⟩, hversion, hrecord⟩ := Outcome.bind_eq_ok.mp hrecord
  have h₂ : WellKeyed s₂ :=
    upsertVersion_wellKeyed (upsertSchedule_wellKeyed h hschedule) hversion
  obtain ⟨_, _, hrecord⟩ := Outcome.bind_eq_ok.mp hrecord
  cases hrecord
  exact h₂

theorem recordDefinitions_wellKeyed {projectId sourceRevisionId : String} {newId : ℕ → String}
    {now : ℤ} {definitions : List ScheduleDefinition} {seenKeys : List String} {draw : ℕ}
    {s t : Store} (h : WellKeyed s)
    (hrecord : recordDefinitions projectId sourceRevisionId newId now definitions seenKeys draw s =
      .ok t) : WellKeyed t := by
  induction definitions generalizing seenKeys draw s with
  | nil =>
      cases hrecord
      exact h
  | cons definition rest ih =>
      rw [recordDefinitions] at hrecord
      obtain ⟨_, _, hrecord⟩ := Outcome.bind_eq_ok.mp hrecord
      obtain ⟨m, hm, hrest⟩ := Outcome.bind_eq_ok.mp hrecord
      exact ih (recordScheduleVersion_wellKeyed h hm) hrest

theorem retargetRows_wellKeyed {lib : CronLibrary} {sourceRevisionId : String} {now : ℤ}
    {rows : List ProjectSchedule} {s t : Store} (h : WellKeyed s)
    (hretarget : retargetRows lib sourceRevisionId now rows s = .ok t) : WellKeyed t := by
  induction rows generalizing s with
  | nil =>
      cases hretarget
      exact h
  | cons row rest ih =>
      rw [retargetRows] at hretarget
      obtain ⟨nextRunAt, _, hrest⟩ := Outcome.bind_eq_ok.mp hretarget
      refine ih ?_ hrest
      exact ⟨h.schedules.updateWhere fun _ => rfl, h.versions⟩

theorem createManualScheduleRun_frame {s t : Store} {projectId scheduleId : String}
    {newId : ℕ → String} {now : ℤ}
    (hcall : createManualScheduleRun s projectId scheduleId newId now = .ok t) :
    t.schedules = s.schedules ∧ t.versions = s.versions := by
  unfold createManualScheduleRun at hcall
  obtain ⟨_, _, hcall⟩ := Outcome.bind_eq_ok.mp hcall
  obtain ⟨_, _, hcall⟩ := Outcome.bind_eq_ok.mp hcall
  obtain ⟨_, _, hcall⟩ := Outcome.bind_eq_ok.mp hcall
  obtain ⟨_, _, hcall⟩ := Outcome.bind_eq_ok.mp hcall
  obtain ⟨_, _, hcall⟩ := Outcome.bind_eq_ok.mp hcall
  obtain ⟨_, _, hcall⟩ := Outcome.bind_eq_ok.mp hcall
  obtain ⟨_, _, hcall⟩ := Outcome.bind_eq_ok.mp hcall
  cases hcall
  exact ⟨rfl, rfl⟩

theorem applySchedulerTargetTx_wellKeyed {lib : CronLibrary} {s t : Store}
    {projectId deploymentId sourceRevisionId : String} {now : ℤ} (h : WellKeyed s)
    (happly : applySchedulerTargetTx lib s projectId deploymentId sourceRevisionId now = .ok t) :
    WellKeyed t := by
  unfold applySchedulerTargetTx at happly
  refine retargetRows_wellKeyed ?_ happly
  exact ⟨h.schedules, h.versions⟩

/-! ## One turn of the claim loop -/

/-- The turn of this row ends at `if (!run) continue`: it is due, its cron expression
has a next tick, and a cron run of its version at the due instant exists. -/
def isBlocked (lib : CronLibrary) (s : Store) (now : ℤ) (row : DueRow) : Bool :=
  match row.schedule.nextRunAt with
  | none => false
  | some dueAt =>
      (calculateScheduleAdvance lib row.version.cron dueAt now).isSome &&
        hasCronRun s row.version.id dueAt

/-- The schedule is past `now`, or has no next run. -/
def Advanced (t : Store) (now : ℤ) (scheduleId : String) : Prop :=
  ∀ schedule ∈ t.schedules, schedule.id = scheduleId →
    ∀ next, schedule.nextRunAt = some next → now < next

/-- What a turn does to the store when it does anything: it updates the row's own
schedule, to a state past `now`, and appends runs of the row's own version. -/
structure Turn (now : ℤ) (row : DueRow) (s t : Store) : Prop where
  schedules : ∃ f : ProjectSchedule → ProjectSchedule,
    t.schedules = Table.updateWhere (fun r => r.id = row.schedule.id) f s.schedules ∧
      (∀ r, (f r).id = r.id) ∧ ∀ r next, (f r).nextRunAt = some next → now < next
  versions : t.versions = s.versions
  runs : ∃ added, t.runs = s.runs ++ added ∧ ∀ r ∈ added, r.scheduleVersionId = row.version.id

/-- A turn on a due row changes nothing exactly when the row is blocked, and is a `Turn`
otherwise. -/
theorem claimDueRow_cases {lib : CronLibrary} {now : ℤ} {runId : String} {row : DueRow}
    {s t : Store} {run : Option ScheduleRun} (hdue : row.schedule.nextRunAt.isSome = true)
    (hturn : claimDueRow lib now runId row s = .ok (t, run)) :
    (isBlocked lib s now row = true ∧ t = s) ∨
      (isBlocked lib s now row = false ∧ Turn now row s t) := by
  obtain ⟨dueAt, hdueAt⟩ := Option.isSome_iff_exists.mp hdue
  simp only [claimDueRow, hdueAt] at hturn
  simp only [isBlocked, hdueAt]
  cases hadvance : calculateScheduleAdvance lib row.version.cron dueAt now with
  | none =>
      -- The cron expression has no next tick: the schedule is disabled.
      rw [hadvance] at hturn
      cases hturn
      refine Or.inr ⟨by simp, ⟨?_, rfl, [], by simp, by simp⟩⟩
      exact ⟨_, rfl, fun _ => rfl, by simp⟩
  | some advance =>
      simp only [hadvance] at hturn
      split at hturn
      · next hrun =>
          cases hturn
          exact Or.inl ⟨by simp [hrun], rfl⟩
      · next hrun =>
          obtain ⟨_, hok⟩ := Outcome.guard_eq_ok.mp hturn
          cases hok
          refine Or.inr ⟨by simpa using hrun, ⟨?_, rfl, ?_⟩⟩
          · refine ⟨_, rfl, fun _ => rfl, fun r next hnext => ?_⟩
            cases hnext
            exact calculateScheduleAdvance_gt hadvance
          · exact ⟨_, rfl, by simp⟩

namespace Turn

variable {lib : CronLibrary} {now : ℤ} {row other : DueRow} {s t : Store}

theorem wellKeyed (hturn : Turn now row s t) (h : WellKeyed s) : WellKeyed t := by
  obtain ⟨f, hschedules, hid, _⟩ := hturn.schedules
  exact h.updateSchedules hid hschedules hturn.versions

theorem advanced (hturn : Turn now row s t) : Advanced t now row.schedule.id := by
  obtain ⟨f, hschedules, hid, hpast⟩ := hturn.schedules
  intro schedule hmem hsame next hnext
  rw [hschedules] at hmem
  rcases Table.mem_updateWhere.mp hmem with ⟨_, hother⟩ | ⟨old, _, _, rfl⟩
  · simp [hsame] at hother
  · exact hpast old next hnext

/-- Schedules other than the row's own are left alone. -/
theorem mem_schedules_iff (hturn : Turn now row s t) {schedule : ProjectSchedule}
    (hne : schedule.id ≠ row.schedule.id) : schedule ∈ t.schedules ↔ schedule ∈ s.schedules := by
  obtain ⟨f, hschedules, hid, _⟩ := hturn.schedules
  rw [hschedules]
  constructor
  · intro hmem
    rcases Table.mem_updateWhere.mp hmem with ⟨hold, _⟩ | ⟨old, _, hkey, rfl⟩
    · exact hold
    · rw [hid] at hne
      simp [hne] at hkey
  · intro hmem
    exact Table.mem_updateWhere_of_not hmem (by simpa using hne)

/-- The runs a turn adds block no row of another version. -/
theorem isBlocked_eq (hturn : Turn now row s t) (hne : other.version.id ≠ row.version.id) :
    isBlocked lib t now other = isBlocked lib s now other := by
  obtain ⟨added, hruns, hversion⟩ := hturn.runs
  have hsame : ∀ dueAt, hasCronRun t other.version.id dueAt =
      hasCronRun s other.version.id dueAt := by
    intro dueAt
    have hnone : added.any (fun r => r.scheduleVersionId = other.version.id && r.dueAt = dueAt &&
        r.trigger = .cron) = false := by
      rw [List.any_eq_false]
      intro r hr
      simp [hversion r hr, hne.symm]
    simp only [hasCronRun, hruns, List.any_append, hnone, Bool.or_false]
  simp only [isBlocked, hsame]

end Turn

/-! ## The claim loop -/

/-- The rows one claim works on: each is due, and no two share a schedule or a version. -/
structure Batch (rows : List DueRow) : Prop where
  due : ∀ row ∈ rows, row.schedule.nextRunAt.isSome = true
  schedules : (rows.map fun row => row.schedule.id).Nodup
  versions : (rows.map fun row => row.version.id).Nodup

namespace Batch

variable {row other : DueRow} {rest : List DueRow}

theorem tail (h : Batch (row :: rest)) : Batch rest :=
  ⟨fun other hother => h.due other (List.mem_cons_of_mem _ hother),
    (List.nodup_cons.mp h.schedules).2, (List.nodup_cons.mp h.versions).2⟩

theorem schedule_ne (h : Batch (row :: rest)) (hother : other ∈ rest) :
    other.schedule.id ≠ row.schedule.id := fun hsame =>
  (List.nodup_cons.mp h.schedules).1 (List.mem_map.mpr ⟨other, hother, hsame⟩)

theorem version_ne (h : Batch (row :: rest)) (hother : other ∈ rest) :
    other.version.id ≠ row.version.id := fun hsame =>
  (List.nodup_cons.mp h.versions).1 (List.mem_map.mpr ⟨other, hother, hsame⟩)

end Batch

theorem claimDueLoop_cons {lib : CronLibrary} {now : ℤ} {newId : ℕ → String} {row : DueRow}
    {rest : List DueRow} {draw : ℕ} {s u : Store} {runs : List ScheduleRun}
    (hloop : claimDueLoop lib now newId (row :: rest) draw s = .ok (u, runs)) :
    ∃ t run more, claimDueRow lib now (newId draw) row s = .ok (t, run) ∧
      claimDueLoop lib now newId rest (draw + 1) t = .ok (u, more) := by
  rw [claimDueLoop] at hloop
  split at hloop
  · cases hloop
  · next t run hturn =>
      split at hloop
      · cases hloop
      · next u' more hmore =>
          cases hloop
          exact ⟨t, run, more, hturn, hmore⟩

theorem claimDueLoop_wellKeyed {lib : CronLibrary} {now : ℤ} {newId : ℕ → String}
    {rows : List DueRow} {draw : ℕ} {s u : Store} {runs : List ScheduleRun}
    (hdue : ∀ row ∈ rows, row.schedule.nextRunAt.isSome = true) (h : WellKeyed s)
    (hloop : claimDueLoop lib now newId rows draw s = .ok (u, runs)) : WellKeyed u := by
  induction rows generalizing draw s runs with
  | nil =>
      cases hloop
      exact h
  | cons row rest ih =>
      obtain ⟨t, run, more, hturn, hmore⟩ := claimDueLoop_cons hloop
      have hrest := fun other hother => hdue other (List.mem_cons_of_mem row hother)
      rcases claimDueRow_cases (hdue row List.mem_cons_self) hturn with
        ⟨_, rfl⟩ | ⟨_, hchange⟩
      · exact ih hrest h hmore
      · exact ih hrest (hchange.wellKeyed h) hmore

/-- The loop leaves the schedules of no row of its batch alone. -/
theorem claimDueLoop_mem_schedules {lib : CronLibrary} {now : ℤ} {newId : ℕ → String}
    {rows : List DueRow} {draw : ℕ} {s u : Store} {runs : List ScheduleRun}
    (hdue : ∀ row ∈ rows, row.schedule.nextRunAt.isSome = true)
    (hloop : claimDueLoop lib now newId rows draw s = .ok (u, runs))
    {schedule : ProjectSchedule} (hne : ∀ row ∈ rows, schedule.id ≠ row.schedule.id) :
    schedule ∈ u.schedules ↔ schedule ∈ s.schedules := by
  induction rows generalizing draw s runs with
  | nil =>
      cases hloop
      rfl
  | cons row rest ih =>
      obtain ⟨t, run, more, hturn, hmore⟩ := claimDueLoop_cons hloop
      rw [ih (fun other hother => hdue other (List.mem_cons_of_mem row hother)) hmore
        fun other hother => hne other (List.mem_cons_of_mem row hother)]
      rcases claimDueRow_cases (hdue row List.mem_cons_self) hturn with
        ⟨_, rfl⟩ | ⟨_, hchange⟩
      · rfl
      · exact hchange.mem_schedules_iff (hne row List.mem_cons_self)

/-- What the loop makes of each row: a row blocked when the claim began keeps its
schedule as it was selected, and every other row's schedule advances. -/
theorem claimDueLoop_spec {lib : CronLibrary} {now : ℤ} {newId : ℕ → String}
    {rows : List DueRow} {draw : ℕ} {s u : Store} {runs : List ScheduleRun}
    (hbatch : Batch rows) (hselected : ∀ row ∈ rows, row.schedule ∈ s.schedules)
    (hloop : claimDueLoop lib now newId rows draw s = .ok (u, runs)) :
    ∀ row ∈ rows, (isBlocked lib s now row = true → row.schedule ∈ u.schedules) ∧
      (isBlocked lib s now row = false → Advanced u now row.schedule.id) := by
  induction rows generalizing draw s runs with
  | nil => simp
  | cons head rest ih =>
      obtain ⟨t, run, more, hturn, hmore⟩ := claimDueLoop_cons hloop
      -- No later turn touches the schedule of the head.
      have hkept : ∀ schedule, schedule.id = head.schedule.id →
          (schedule ∈ u.schedules ↔ schedule ∈ t.schedules) := fun schedule hid =>
        claimDueLoop_mem_schedules hbatch.tail.due hmore fun other hother => by
          rw [hid]
          exact (hbatch.schedule_ne hother).symm
      have hselectedRest := fun other hother =>
        hselected other (List.mem_cons_of_mem head hother)
      rcases claimDueRow_cases (hbatch.due head List.mem_cons_self) hturn with
        ⟨hblocked, rfl⟩ | ⟨hfree, hchange⟩
      · intro row hrow
        rcases List.mem_cons.mp hrow with rfl | hrow
        · exact ⟨fun _ => (hkept _ rfl).mpr (hselected row List.mem_cons_self), by
            simp [hblocked]⟩
        · exact ih hbatch.tail hselectedRest hmore row hrow
      · have hspec := ih hbatch.tail (fun other hother =>
          (hchange.mem_schedules_iff (hbatch.schedule_ne hother)).mpr
            (hselectedRest other hother)) hmore
        intro row hrow
        rcases List.mem_cons.mp hrow with rfl | hrow
        · refine ⟨by simp [hfree], fun _ schedule hmem hid => ?_⟩
          exact hchange.advanced schedule ((hkept schedule hid).mp hmem) hid
        · rw [← hchange.isBlocked_eq (hbatch.version_ne hrow)]
          exact hspec row hrow

/-! ## The due query -/

/-- What the due query says about a row it returns. -/
theorem dueRow_spec {s : Store} {now : ℤ} {schedule : ProjectSchedule} {row : DueRow}
    (hrow : dueRow s now schedule = some row) :
    row.schedule = schedule ∧ row.version ∈ s.versions ∧
      row.version.scheduleId = schedule.id ∧
      ∃ dueAt, schedule.nextRunAt = some dueAt ∧ dueAt ≤ now := by
  simp only [dueRow, Option.bind_eq_bind, Option.bind_eq_some_iff] at hrow
  obtain ⟨target, _, deployment, _, release, _, version, hversion, dueAt, hdueAt, hrow⟩ := hrow
  split at hrow
  · next hcond =>
      cases hrow
      simp only [Bool.and_eq_true, decide_eq_true_eq] at hcond
      have hkey := List.find?_some hversion
      simp only [Bool.and_eq_true, decide_eq_true_eq] at hkey
      exact ⟨rfl, List.mem_of_find?_eq_some hversion, hkey.1, dueAt, hdueAt, hcond.2⟩
  · cases hrow

/-- Every selected row was built from a schedule of the store. -/
theorem mem_dueRows {s : Store} {now : ℤ} {limit : ℕ} {row : DueRow}
    (hrow : row ∈ dueRows s now limit) :
    row.schedule ∈ s.schedules ∧ dueRow s now row.schedule = some row := by
  have hsorted := List.mem_of_mem_take hrow
  rw [List.mem_insertionSort, List.mem_filterMap] at hsorted
  obtain ⟨schedule, hmem, hdue⟩ := hsorted
  rw [(dueRow_spec hdue).1]
  exact ⟨hmem, hdue⟩

/-- The due query selects a schedule at most once, by its primary key. -/
theorem dueRows_nodup {s : Store} (h : WellKeyed s) (now : ℤ) (limit : ℕ) :
    ((dueRows s now limit).map fun row => row.schedule.id).Nodup := by
  have hselected : ((s.schedules.filterMap (dueRow s now)).map fun row => row.schedule.id).Nodup :=
    (Table.filterMap_map_sublist (fun schedule row hrow => by rw [(dueRow_spec hrow).1])
      s.schedules).nodup h.schedules
  have hsorted := ((List.perm_insertionSort dueBefore _).map fun row : DueRow =>
    row.schedule.id).nodup_iff.mpr hselected
  exact ((List.take_sublist limit _).map _).nodup hsorted

/-- The selected rows are a batch: a version belongs to one schedule, so rows of
different schedules have different versions. -/
theorem dueRows_batch {s : Store} (h : WellKeyed s) (now : ℤ) (limit : ℕ) :
    Batch (dueRows s now limit) := by
  refine ⟨fun row hrow => ?_, dueRows_nodup h now limit, ?_⟩
  · obtain ⟨_, _, _, dueAt, hdueAt, _⟩ := dueRow_spec (mem_dueRows hrow).2
    simp [hdueAt]
  · have hrows := (dueRows_nodup h now limit).of_map
    refine (List.nodup_map_iff_inj_on hrows).mpr ?_
    intro first hfirst second hsecond hversion
    obtain ⟨_, hmem₁, hown₁, _⟩ := dueRow_spec (mem_dueRows hfirst).2
    obtain ⟨_, hmem₂, hown₂, _⟩ := dueRow_spec (mem_dueRows hsecond).2
    have hsame := h.versions.eq hmem₁ hmem₂ hversion
    refine (List.nodup_map_iff_inj_on hrows).mp (dueRows_nodup h now limit)
      first hfirst second hsecond ?_
    rw [← hown₁, ← hown₂, hsame]

/-! ## Histories -/

theorem step_wellKeyed {lib : CronLibrary} {s t : Store} {action : Action} (h : WellKeyed s)
    (hstep : step lib s action = some t) : WellKeyed t := by
  cases action with
  | recordSourceRevision revision =>
      cases hstep
      exact ⟨h.schedules, h.versions⟩
  | recordDeployment release deployment =>
      cases hstep
      exact ⟨h.schedules, h.versions⟩
  | setDeploymentStatus deploymentId status =>
      cases hstep
      exact ⟨h.schedules, h.versions⟩
  | recordScheduleVersions projectId sourceRevisionId definitions newId now =>
      have hcall := Outcome.toOption_eq_some.mp hstep
      unfold recordScheduleVersions at hcall
      obtain ⟨_, _, hcall⟩ := Outcome.bind_eq_ok.mp hcall
      obtain ⟨_, _, hcall⟩ := Outcome.bind_eq_ok.mp hcall
      exact recordDefinitions_wellKeyed h hcall
  | setProjectSchedulerTarget projectId deploymentId now =>
      have hcall := Outcome.toOption_eq_some.mp hstep
      unfold setProjectSchedulerTarget at hcall
      obtain ⟨_, _, hcall⟩ := Outcome.bind_eq_ok.mp hcall
      obtain ⟨_, _, hcall⟩ := Outcome.bind_eq_ok.mp hcall
      exact applySchedulerTargetTx_wellKeyed h hcall
  | promoteDeployment projectId deploymentId now =>
      have hcall := Outcome.toOption_eq_some.mp hstep
      unfold promoteDeployment at hcall
      obtain ⟨_, _, hcall⟩ := Outcome.bind_eq_ok.mp hcall
      obtain ⟨_, _, hcall⟩ := Outcome.bind_eq_ok.mp hcall
      obtain ⟨_, _, hcall⟩ := Outcome.bind_eq_ok.mp hcall
      exact applySchedulerTargetTx_wellKeyed h hcall
  | createManualScheduleRun projectId scheduleId newId now =>
      have hcall := Outcome.toOption_eq_some.mp hstep
      obtain ⟨hschedules, hversions⟩ := createManualScheduleRun_frame hcall
      exact ⟨hschedules ▸ h.schedules, hversions ▸ h.versions⟩
  | claimDueScheduleRuns now limit newId =>
      obtain ⟨⟨u, runs⟩, hcall, rfl⟩ := Option.map_eq_some_iff.mp hstep
      have hcall := Outcome.toOption_eq_some.mp hcall
      obtain ⟨_, hloop⟩ := Outcome.guard_eq_ok.mp hcall
      exact claimDueLoop_wellKeyed (dueRows_batch h now limit).due h hloop

/-- The primary keys hold in every store the calls reach. -/
theorem wellKeyed_of_reachable {lib : CronLibrary} {s : Store}
    (hs : (machine lib).Reachable s) : WellKeyed s :=
  hs.invariant (fun _ => wellKeyed_of_init) fun _ _ _ h hstep => step_wellKeyed h hstep

/-! ## Advancing -/

/-- A committed claim advances every schedule it selected, so that no later claim
selects one of them at the instant it was selected at. Other calls promise nothing. -/
def ClaimAdvances (lib : CronLibrary) (s : Store) : Action → Prop
  | .claimDueScheduleRuns now limit newId =>
      ∀ t runs, claimDueScheduleRuns lib s now limit newId = .ok (t, runs) →
        ∀ row ∈ dueRows s now limit,
          Advanced t now row.schedule.id ∧
            ∀ now' limit', ∀ later ∈ dueRows t now' limit',
              later.schedule.id = row.schedule.id →
                later.schedule.nextRunAt ≠ row.schedule.nextRunAt
  | _ => True

/-- A claim meets no schedule whose due tick already has a cron run. -/
def MeetsNoBlockedRow (lib : CronLibrary) (s : Store) : Action → Prop
  | .claimDueScheduleRuns now limit _ =>
      ∀ row ∈ dueRows s now limit, isBlocked lib s now row = false
  | _ => True

instance (lib : CronLibrary) (s : Store) : ∀ action, Decidable (MeetsNoBlockedRow lib s action)
  | .claimDueScheduleRuns now limit _ =>
      inferInstanceAs (Decidable (∀ row ∈ dueRows s now limit, isBlocked lib s now row = false))
  | .recordSourceRevision _ => isTrue trivial
  | .recordDeployment _ _ => isTrue trivial
  | .setDeploymentStatus _ _ => isTrue trivial
  | .recordScheduleVersions _ _ _ _ _ => isTrue trivial
  | .setProjectSchedulerTarget _ _ _ => isTrue trivial
  | .promoteDeployment _ _ _ => isTrue trivial
  | .createManualScheduleRun _ _ _ _ => isTrue trivial

/-- One committed call: the schedules a claim selects advance exactly when none of their
due ticks has a cron run already. -/
theorem claimAdvances_iff {lib : CronLibrary} {s t : Store} {action : Action} (h : WellKeyed s)
    (hstep : step lib s action = some t) :
    ClaimAdvances lib s action ↔ MeetsNoBlockedRow lib s action := by
  cases action with
  | claimDueScheduleRuns now limit newId =>
      obtain ⟨⟨u, runs⟩, hcall, rfl⟩ := Option.map_eq_some_iff.mp hstep
      have hcall := Outcome.toOption_eq_some.mp hcall
      obtain ⟨_, hloop⟩ := Outcome.guard_eq_ok.mp hcall
      have hbatch := dueRows_batch h now limit
      have hspec := claimDueLoop_spec hbatch (fun row hrow => (mem_dueRows hrow).1) hloop
      constructor
      · intro hadvances row hrow
        by_contra hblocked
        have hkept := (hspec row hrow).1 (by simpa using hblocked)
        obtain ⟨_, _, _, dueAt, hdueAt, hle⟩ := dueRow_spec (mem_dueRows hrow).2
        have hpast := (hadvances u runs hcall row hrow).1 row.schedule hkept rfl dueAt hdueAt
        omega
      · intro hfree u' runs' hcall' row hrow
        obtain ⟨rfl, rfl⟩ := Prod.mk.inj (Except.ok.inj (hcall.symm.trans hcall'))
        have hadvanced := (hspec row hrow).2 (hfree row hrow)
        refine ⟨hadvanced, fun now' limit' later hlater hsame hnext => ?_⟩
        obtain ⟨_, _, _, dueAt, hdueAt, hle⟩ := dueRow_spec (mem_dueRows hrow).2
        rw [hdueAt] at hnext
        have hpast := hadvanced later.schedule (mem_dueRows hlater).1 hsame dueAt hnext
        omega
  | _ => exact Iff.rfl

/-- **Schedules advance.** In every history of committed calls, the claims advance every
schedule they select exactly when none of them meets a due tick that already has its
cron run. -/
theorem schedules_advance_iff (lib : CronLibrary) {s t : Store} {calls : List Action}
    (hinit : (machine lib).init s) (hrun : (machine lib).exec s calls = some t) :
    (machine lib).Meets (ClaimAdvances lib) s calls ↔
      (machine lib).Meets (MeetsNoBlockedRow lib) s calls :=
  (machine lib).meets_congr (fun _ _ _ h hstep => step_wellKeyed h hstep)
    (fun _ _ _ h hstep => claimAdvances_iff h hstep) (wellKeyed_of_init hinit) hrun

/-! ## A schedule that stays blocked -/

/-- The ticks of `*/5 * * * *`, in milliseconds. -/
def everyFiveMinutes : CronLibrary where
  parses _ := true
  next _ now := some ((now / 300000 + 1) * 300000)
  next_gt h := by
    cases h
    omega

/-- A store with no rows. -/
def emptyStore : Store :=
  { sourceRevisions := [], releases := [], deployments := [], schedules := [], versions := [],
    targets := [], runs := [], jobs := [] }

/-- One schedule is recorded, targeted, and its first tick claimed. -/
def claimFirstTick : List Action :=
  [.recordSourceRevision ⟨"rev", "project"⟩,
   .recordDeployment ⟨"release", "rev"⟩ ⟨"deployment", "project", "release", .running⟩,
   .recordScheduleVersions "project" "rev"
     [{ key := "tick", kind := .markdown, cron := "*/5 * * * *",
        sourcePath := "agent/schedules/tick.md",
        definitionHash := String.ofList (List.replicate 64 'a') }]
     (fun draw => if draw = 0 then "schedule" else "version") 0,
   .setProjectSchedulerTarget "project" "deployment" 1,
   .claimDueScheduleRuns 300000 1 fun _ => "run"]

/-- The same deployment is targeted again by a caller whose clock reads a millisecond
before the claimed tick, and the next claim finds that tick due. -/
def retargetBeforeTick : List Action :=
  [.setProjectSchedulerTarget "project" "deployment" 299999,
   .claimDueScheduleRuns 300001 1 fun _ => "later run"]

/-- The first claim of `claimFirstTick` advances its schedule. -/
theorem schedules_advance_iff_claimFirstTick :
    (machine everyFiveMinutes).Meets (ClaimAdvances everyFiveMinutes) emptyStore claimFirstTick :=
  (schedules_advance_iff everyFiveMinutes (t := _) ⟨rfl, rfl, rfl, rfl, rfl⟩ rfl).mpr (by decide)

/-- The later claim selects the schedule and leaves it at its tick. -/
theorem claim_leaves_blocked_schedule :
    ¬ ∀ (lib : CronLibrary) (s t : Store) (calls : List Action), (machine lib).init s →
      (machine lib).exec s calls = some t → (machine lib).Meets (ClaimAdvances lib) s calls := by
  intro hall
  have hmeets := hall everyFiveMinutes emptyStore _ (claimFirstTick ++ retargetBeforeTick)
    ⟨rfl, rfl, rfl, rfl, rfl⟩ rfl
  have hafter := ((Machine.meets_append _ _ _ _ _).mp hmeets).2 _ rfl
  have hclaim := (hafter.2 _ rfl).1 _ _ rfl
  have hpast := (hclaim _ List.mem_cons_self).1 _ List.mem_cons_self rfl 300000 rfl
  omega

end Eveland.ScheduleStore
