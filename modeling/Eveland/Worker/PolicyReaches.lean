/-
# A policy revision reaches every live deployment

As long as no launch leaves a live deployment behind with the file of an older revision and no
sweep to come, the file of every live deployment carries the current revision, or the reconciler
is still to write it, or a launch of the deployment is in progress. A launch that has read the
policy before a new revision is saved can end after the sweep has passed its deployment by.
-/

import Eveland.Worker.PolicySweep

namespace Eveland.PolicySweep

/-! ## What is still to come -/

namespace State

variable (s : State)

/-- The reconciler is still to write the file of a live deployment before it has applied the
current revision. -/
def isDue (row : Deployment) : Bool :=
  s.appliedRevision ≠ some s.revision &&
    match s.sweep with
    | .idle => true
    | .read _ => true
    | .sweeping revision projects deployments =>
        revision ≠ s.revision || projects.contains row.projectId || deployments.contains row.id

/-- The file of a deployment carries the current revision, or is about to. -/
def isReached (row : Deployment) : Bool :=
  s.files row.id = some s.revision || s.isDue row

/-- A launch of the deployment is in progress. -/
def isLaunching (launches : List Launch) (deploymentId : String) : Bool :=
  launches.any fun launch => launch.deploymentId = deploymentId

/-- The deployments of an id are reached as far as they are live, or are left to one of these
launches. -/
def mayStay (launches : List Launch) (deploymentId : String) : Bool :=
  s.deployments.all fun row =>
    row.id ≠ deploymentId || !isLiveStatus row.status ||
      isLaunching launches deploymentId || s.isReached row

end State

/-- The condition on a step. A launch that ends leaves its deployment reached, if it is live, or
to another launch; and so does another party that makes a deployment live. -/
def LeavesReached (s : State) : Action → Bool
  | .endLaunch k =>
      match s.launches[k]? with
      | none => true
      | some launch => s.mayStay (s.launches.eraseIdx k) launch.deploymentId
  | .setStatus deploymentId status =>
      (s.updateDeploymentStatus deploymentId status).mayStay s.launches deploymentId
  | _ => true

/-! ## The invariant -/

/-- Revisions are applied in their order, the projects of all rows are there to be listed, and
each live deployment is reached or left to a launch. -/
structure Tracked (s : State) : Prop where
  applied : ∀ revision, s.appliedRevision = some revision → revision ≤ s.revision
  sweep : ∀ revision, s.sweep.revision = some revision →
    revision ≤ s.revision ∧ ∀ older, s.appliedRevision = some older → older < revision
  projects : ∀ row ∈ s.deployments, row.projectId ∈ s.projects
  builds : ∀ launch ∈ s.launches, launch.projectId ∈ s.projects
  reached : ∀ row ∈ s.deployments, isLiveStatus row.status = true →
    State.isLaunching s.launches row.id = true ∨ s.isReached row = true

theorem isReached_iff {s : State} {row : Deployment} :
    s.isReached row = true ↔ s.files row.id = some s.revision ∨ s.isDue row = true := by
  simp [State.isReached]

/-- A reconciler that is not going through the deployments yet will go through all of them. -/
theorem isDue_of_ahead {s : State} (happlied : s.appliedRevision ≠ some s.revision)
    (hahead : s.sweep = .idle ∨ ∃ revision, s.sweep = .read revision) (row : Deployment) :
    s.isDue row = true := by
  rcases hahead with hidle | ⟨revision, hread⟩
  · simp [State.isDue, happlied, hidle]
  · simp [State.isDue, happlied, hread]

/-- What is due in the middle of a run. -/
theorem isDue_sweeping {s : State} {revision : ℕ} {projects deployments : List String}
    (hsweep : s.sweep = .sweeping revision projects deployments) (row : Deployment) :
    s.isDue row = true ↔ s.appliedRevision ≠ some s.revision ∧
      (revision ≠ s.revision ∨ row.projectId ∈ projects ∨ row.id ∈ deployments) := by
  simp [State.isDue, hsweep, or_assoc]

/-- A run with an older revision leaves all deployments to a later one. -/
theorem isDue_of_older {s : State} (happlied : s.appliedRevision ≠ some s.revision)
    (holder : ∀ revision, s.sweep.revision = some revision → revision ≠ s.revision)
    (row : Deployment) : s.isDue row = true := by
  cases hsweep : s.sweep with
  | idle => exact isDue_of_ahead happlied (Or.inl hsweep) row
  | read revision => exact isDue_of_ahead happlied (Or.inr ⟨revision, hsweep⟩) row
  | sweeping revision projects deployments =>
      have hne := holder revision (by rw [hsweep]; rfl)
      exact (isDue_sweeping hsweep row).mpr ⟨happlied, Or.inl hne⟩

/-- Only the policy, the files and the reconciler matter to what is reached. -/
theorem isReached_congr {s t : State} (hrevision : t.revision = s.revision)
    (hfiles : t.files = s.files) (happlied : t.appliedRevision = s.appliedRevision)
    (hsweep : t.sweep = s.sweep) (row : Deployment) : t.isReached row = s.isReached row := by
  unfold State.isReached State.isDue
  rw [hrevision, hfiles, happlied, hsweep]

/-- While a run goes on, the current revision is not the applied one. -/
theorem Tracked.not_applied {s : State} (hs : Tracked s) {revision : ℕ}
    (hsweep : s.sweep.revision = some revision) : s.appliedRevision ≠ some s.revision := by
  intro happlied
  obtain ⟨hle, hlt⟩ := hs.sweep revision hsweep
  have hless := hlt s.revision happlied
  omega

theorem isLaunching_iff {launches : List Launch} {deploymentId : String} :
    State.isLaunching launches deploymentId = true ↔
      ∃ launch ∈ launches, launch.deploymentId = deploymentId := by
  simp [State.isLaunching]

theorem isLaunching_append {launches : List Launch} {deploymentId : String}
    (hlaunching : State.isLaunching launches deploymentId = true) (launch : Launch) :
    State.isLaunching (launches ++ [launch]) deploymentId = true := by
  obtain ⟨old, hold, hid⟩ := isLaunching_iff.mp hlaunching
  exact isLaunching_iff.mpr ⟨old, List.mem_append_left _ hold, hid⟩

/-- A launch that moves on is still one of its deployment. -/
theorem isLaunching_setPhase {s : State} {k : ℕ} {launch : Launch}
    (hlaunch : s.launches[k]? = some launch) (phase : LaunchPhase) (deploymentId : String) :
    State.isLaunching (s.setPhase k launch phase).launches deploymentId =
      State.isLaunching s.launches deploymentId := by
  have hany : ∀ launches : List Launch, State.isLaunching launches deploymentId =
      (launches.map Launch.deploymentId).any (· = deploymentId) := by
    intro launches
    rw [List.any_map]
    rfl
  have hids : ((s.setPhase k launch phase).launches).map Launch.deploymentId =
      s.launches.map Launch.deploymentId := by
    apply List.ext_getElem?
    intro i
    simp only [State.setPhase, List.getElem?_map, List.getElem?_set]
    by_cases hki : k = i
    · subst hki
      rw [if_pos rfl, hlaunch]
      have hk := (List.getElem?_eq_some_iff.mp hlaunch).1
      simp [hk]
    · rw [if_neg hki]
  rw [hany, hany, hids]

theorem builds_setPhase {s : State} {k : ℕ} {launch : Launch} (hs : Tracked s)
    (hlaunch : s.launches[k]? = some launch) (phase : LaunchPhase) :
    ∀ other ∈ (s.setPhase k launch phase).launches, other.projectId ∈ s.projects := by
  intro other hother
  rcases List.mem_or_eq_of_mem_set hother with hmem | heq
  · exact hs.builds other hmem
  · subst heq
    exact hs.builds launch (List.mem_of_getElem? hlaunch)

/-! ## What a step can do -/

theorem beginLaunch_eq_some {s t : State} {deploymentId : String}
    (hstep : step s (.beginLaunch deploymentId) = some t) :
    ∃ deployment, s.getDeployment deploymentId = some deployment ∧ t = { s with
      launches := s.launches ++ [⟨.existing, deployment.projectId, deploymentId, .begun⟩] } := by
  simp only [step] at hstep
  split at hstep
  · cases hstep
  · next deployment hdeployment =>
      obtain ⟨-, ht⟩ := Option.ite_none_left_eq_some.mp hstep
      exact ⟨deployment, hdeployment, (Option.some.inj ht).symm⟩

theorem readPolicy_eq_some {s t : State} {k : ℕ} (hstep : step s (.readPolicy k) = some t) :
    ∃ launch, s.launches[k]? = some launch ∧ t = s.setPhase k launch (.read s.revision) := by
  simp only [step, readPolicy] at hstep
  split at hstep
  · cases hstep
  · next launch hlaunch =>
      obtain ⟨-, ht⟩ := Option.ite_none_right_eq_some.mp hstep
      exact ⟨launch, hlaunch, (Option.some.inj ht).symm⟩

theorem writePolicy_eq_some {s t : State} {k : ℕ} (hstep : step s (.writePolicy k) = some t) :
    ∃ launch revision, s.launches[k]? = some launch ∧
      t = (s.writeFile launch.deploymentId revision).setPhase k launch .written := by
  simp only [step, writePolicy] at hstep
  split at hstep
  · cases hstep
  · next launch hlaunch =>
      split at hstep
      · next revision hphase =>
          exact ⟨launch, revision, hlaunch, (Option.some.inj hstep).symm⟩
      · cases hstep

theorem recordDeployment_eq_some {s t : State} {k : ℕ}
    (hstep : step s (.recordDeployment k) = some t) :
    ∃ launch, s.launches[k]? = some launch ∧
      t = (s.insertDeployment launch.deploymentId launch.projectId).setPhase k launch
        .recorded := by
  simp only [step, recordDeployment] at hstep
  split at hstep
  · cases hstep
  · next launch hlaunch =>
      obtain ⟨-, ht⟩ := Option.ite_none_right_eq_some.mp hstep
      exact ⟨launch, hlaunch, (Option.some.inj ht).symm⟩

theorem settleStatus_eq_some {s t : State} {k : ℕ} {status : DeploymentStatus}
    (hstep : step s (.settleStatus k status) = some t) :
    ∃ launch, s.launches[k]? = some launch ∧
      t = s.settleDeploymentStatus launch.deploymentId status := by
  simp only [step, settleStatus] at hstep
  split at hstep
  · cases hstep
  · next launch hlaunch =>
      obtain ⟨-, ht⟩ := Option.ite_none_right_eq_some.mp hstep
      exact ⟨launch, hlaunch, (Option.some.inj ht).symm⟩

theorem reconcile_eq_some {s t : State} (hstep : step s .reconcile = some t) :
    t = s ∨ s.sweep = .idle ∧ s.appliedRevision ≠ some s.revision ∧
      t = { s with sweep := .read s.revision } := by
  simp only [step] at hstep
  split at hstep
  · next hidle =>
      by_cases happlied : s.appliedRevision = some s.revision
      · rw [if_pos happlied] at hstep
        exact Or.inl (Option.some.inj hstep).symm
      · rw [if_neg happlied] at hstep
        exact Or.inr ⟨hidle, happlied, (Option.some.inj hstep).symm⟩
  · cases hstep

theorem listProjects_eq_some {s t : State} (hstep : step s .listProjects = some t) :
    ∃ revision, s.sweep = .read revision ∧
      t = { s with sweep := .sweeping revision s.projects [] } := by
  simp only [step] at hstep
  split at hstep
  · next revision hread => exact ⟨revision, hread, (Option.some.inj hstep).symm⟩
  · cases hstep

theorem listDeployments_eq_some {s t : State} (hstep : step s .listDeployments = some t) :
    ∃ revision projectId projects, s.sweep = .sweeping revision (projectId :: projects) [] ∧
      t = { s with
        sweep := .sweeping revision projects (s.listLiveDeployments projectId) } := by
  simp only [step] at hstep
  split at hstep
  · next revision projectId projects hsweep =>
      exact ⟨revision, projectId, projects, hsweep, (Option.some.inj hstep).symm⟩
  · cases hstep

theorem deliver_eq_some {s t : State} (hstep : step s .deliver = some t) :
    ∃ revision projects deploymentId deployments,
      s.sweep = .sweeping revision projects (deploymentId :: deployments) ∧
      t = { s.writeFile deploymentId revision with
        sweep := .sweeping revision projects deployments } := by
  simp only [step] at hstep
  split at hstep
  · next revision projects deploymentId deployments hsweep =>
      exact ⟨revision, projects, deploymentId, deployments, hsweep,
        (Option.some.inj hstep).symm⟩
  · cases hstep

theorem finish_eq_some {s t : State} (hstep : step s .finish = some t) :
    ∃ revision, s.sweep = .sweeping revision [] [] ∧
      t = { s with appliedRevision := some revision, sweep := .idle } := by
  simp only [step] at hstep
  split at hstep
  · next revision hsweep => exact ⟨revision, hsweep, (Option.some.inj hstep).symm⟩
  · cases hstep

/-! ## One step at a time -/

theorem Tracked.save {s : State} (hs : Tracked s) :
    Tracked { s with revision := s.revision + 1 } := by
  have happlied : ∀ revision, s.appliedRevision = some revision → revision ≤ s.revision + 1 :=
    fun revision hrevision => Nat.le_succ_of_le (hs.applied revision hrevision)
  refine ⟨happlied, ?_, hs.projects, hs.builds, ?_⟩
  · intro revision hrevision
    obtain ⟨hle, hlt⟩ := hs.sweep revision hrevision
    exact ⟨Nat.le_succ_of_le hle, hlt⟩
  · intro row hrow hlive
    right
    apply isReached_iff.mpr
    right
    apply isDue_of_older
    · intro hnew
      have hle := hs.applied _ hnew
      simp only at hle
      omega
    · intro revision hrevision heq
      have hle := (hs.sweep revision hrevision).1
      simp only at heq
      omega

/-- Statements that leave the policy, the files, the rows and the reconciler as they are. -/
theorem Tracked.launches {s : State} (hs : Tracked s) {launches : List Launch}
    (hbuilds : ∀ launch ∈ launches, launch.projectId ∈ s.projects)
    (hlaunching : ∀ row ∈ s.deployments, isLiveStatus row.status = true →
      State.isLaunching s.launches row.id = true →
      State.isLaunching launches row.id = true ∨ s.isReached row = true) :
    Tracked { s with launches } := by
  refine ⟨hs.applied, hs.sweep, hs.projects, hbuilds, ?_⟩
  intro row hrow hlive
  have hsame := isReached_congr (s := s) (t := { s with launches }) rfl rfl rfl rfl row
  rw [hsame]
  rcases hs.reached row hrow hlive with hold | hreached
  · exact hlaunching row hrow hlive hold
  · exact Or.inr hreached

theorem Tracked.begin {s : State} (hs : Tracked s) (launch : Launch)
    (hproject : launch.projectId ∈ s.projects) :
    Tracked { s with launches := s.launches ++ [launch] } := by
  apply hs.launches
  · intro other hother
    rcases List.mem_append.mp hother with hold | hnew
    · exact hs.builds other hold
    · rw [List.mem_singleton.mp hnew]
      exact hproject
  · intro row _ _ hold
    exact Or.inl (isLaunching_append hold launch)

theorem Tracked.setPhase {s : State} (hs : Tracked s) {k : ℕ} {launch : Launch}
    (hlaunch : s.launches[k]? = some launch) (phase : LaunchPhase) :
    Tracked (s.setPhase k launch phase) := by
  apply hs.launches (builds_setPhase hs hlaunch phase)
  intro row _ _ hold
  left
  have hsame := isLaunching_setPhase hlaunch phase row.id
  exact hsame.trans hold

/-- A launch writes the file of its own deployment. -/
theorem Tracked.writeFile {s : State} (hs : Tracked s) {k : ℕ} {launch : Launch}
    (hlaunch : s.launches[k]? = some launch) (revision : ℕ) :
    Tracked (s.writeFile launch.deploymentId revision) := by
  refine ⟨hs.applied, hs.sweep, hs.projects, hs.builds, ?_⟩
  intro row hrow hlive
  by_cases hid : row.id = launch.deploymentId
  · left
    exact isLaunching_iff.mpr ⟨launch, List.mem_of_getElem? hlaunch, hid.symm⟩
  · rcases hs.reached row hrow hlive with hold | hreached
    · exact Or.inl hold
    · right
      apply isReached_iff.mpr
      rcases isReached_iff.mp hreached with hfile | hdue
      · left
        exact (Function.update_of_ne hid _ _).trans hfile
      · exact Or.inr hdue

/-- Rows that are written keep their project, and those that come to be live are reached or left
to a launch. -/
theorem Tracked.rows {s : State} (hs : Tracked s) {deployments : List Deployment}
    (hprojects : ∀ row ∈ deployments, row.projectId ∈ s.projects)
    (hreached : ∀ row ∈ deployments, row ∈ s.deployments ∨ (isLiveStatus row.status = true →
      State.isLaunching s.launches row.id = true ∨ s.isReached row = true)) :
    Tracked { s with deployments } := by
  refine ⟨hs.applied, hs.sweep, hprojects, hs.builds, ?_⟩
  intro row hrow hlive
  have hsame := isReached_congr (s := s) (t := { s with deployments }) rfl rfl rfl rfl row
  rw [hsame]
  rcases hreached row hrow with hold | hnew
  · exact hs.reached row hold hlive
  · exact hnew hlive

/-- An update of the status column keeps the rows' projects. -/
theorem Tracked.projects_update {s : State} (hs : Tracked s) (p : Deployment → Bool)
    (status : DeploymentStatus) :
    ∀ row ∈ Table.updateWhere p (fun d => { d with status }) s.deployments,
      row.projectId ∈ s.projects := by
  intro row hrow
  rcases Table.mem_updateWhere.mp hrow with ⟨hold, -⟩ | ⟨old, hold, -, heq⟩
  · exact hs.projects row hold
  · rw [← heq]
    exact hs.projects old hold

theorem Tracked.insertDeployment {s : State} (hs : Tracked s) {k : ℕ} {launch : Launch}
    (hlaunch : s.launches[k]? = some launch) :
    Tracked (s.insertDeployment launch.deploymentId launch.projectId) := by
  have hmem := List.mem_of_getElem? hlaunch
  apply hs.rows
  · intro row hrow
    rcases List.mem_append.mp hrow with hold | hnew
    · exact hs.projects row hold
    · rw [List.mem_singleton.mp hnew]
      exact hs.builds launch hmem
  · intro row hrow
    rcases List.mem_append.mp hrow with hold | hnew
    · exact Or.inl hold
    · right
      intro _
      left
      rw [List.mem_singleton.mp hnew]
      exact isLaunching_iff.mpr ⟨launch, hmem, rfl⟩

theorem Tracked.settleDeploymentStatus {s : State} (hs : Tracked s) {k : ℕ} {launch : Launch}
    (hlaunch : s.launches[k]? = some launch) (status : DeploymentStatus) :
    Tracked (s.settleDeploymentStatus launch.deploymentId status) := by
  apply hs.rows (hs.projects_update _ status)
  intro row hrow
  rcases Table.mem_updateWhere.mp hrow with ⟨hold, -⟩ | ⟨old, hold, hmatch, heq⟩
  · exact Or.inl hold
  · right
    intro _
    left
    have hid : old.id = launch.deploymentId := by
      simp only [Bool.and_eq_true, decide_eq_true_eq] at hmatch
      exact hmatch.1
    rw [← heq]
    exact isLaunching_iff.mpr ⟨launch, List.mem_of_getElem? hlaunch, hid.symm⟩

/-- Another party writes a status; the condition is about the rows it has written. -/
theorem Tracked.updateDeploymentStatus {s : State} (hs : Tracked s) {deploymentId : String}
    {status : DeploymentStatus}
    (hstay : (s.updateDeploymentStatus deploymentId status).mayStay s.launches deploymentId =
      true) : Tracked (s.updateDeploymentStatus deploymentId status) := by
  apply hs.rows (hs.projects_update _ status)
  intro row hrow
  by_cases hid : row.id = deploymentId
  · right
    intro hlive
    have hrow' := List.all_eq_true.mp hstay row hrow
    have hsame := isReached_congr (s := s) (t := s.updateDeploymentStatus deploymentId status)
      rfl rfl rfl rfl row
    rw [hsame] at hrow'
    simpa [hid, hlive] using hrow'
  · left
    rcases Table.mem_updateWhere.mp hrow with ⟨hold, -⟩ | ⟨old, hold, hmatch, heq⟩
    · exact hold
    · rw [← heq] at hid
      exact absurd (of_decide_eq_true hmatch) hid

/-- A launch ends; the condition is about its deployment. -/
theorem Tracked.endLaunch {s : State} (hs : Tracked s) {k : ℕ} {launch : Launch}
    (hlaunch : s.launches[k]? = some launch)
    (hstay : s.mayStay (s.launches.eraseIdx k) launch.deploymentId = true) :
    Tracked { s with launches := s.launches.eraseIdx k } := by
  apply hs.launches
  · intro other hother
    exact hs.builds other (List.mem_of_mem_eraseIdx hother)
  · intro row hrow hlive hold
    by_cases hid : row.id = launch.deploymentId
    · have hrow' := List.all_eq_true.mp hstay row hrow
      simpa [hid, hlive] using hrow'
    · left
      obtain ⟨other, hother, hotherId⟩ := isLaunching_iff.mp hold
      apply isLaunching_iff.mpr
      refine ⟨other, ?_, hotherId⟩
      obtain ⟨i, hi⟩ := List.getElem?_of_mem hother
      have hne : i ≠ k := by
        intro heq
        rw [heq, hlaunch] at hi
        rw [Option.some.inj hi, hotherId] at hid
        exact hid rfl
      apply List.mem_eraseIdx_iff_getElem?.mpr
      exact ⟨i, hne, hi⟩

/-- The reconciler moves on; `hdue` says what the move leaves due, or has reached. -/
theorem Tracked.move {s t : State} (hs : Tracked s)
    (hkept : t.revision = s.revision ∧ t.projects = s.projects ∧ t.deployments = s.deployments ∧
      t.launches = s.launches)
    (happlied : ∀ revision, t.appliedRevision = some revision → revision ≤ t.revision)
    (hsweep : ∀ revision, t.sweep.revision = some revision →
      revision ≤ t.revision ∧ ∀ older, t.appliedRevision = some older → older < revision)
    (hreached : ∀ row ∈ s.deployments, isLiveStatus row.status = true → s.isReached row = true →
      t.isReached row = true) : Tracked t := by
  obtain ⟨-, hprojects, hdeployments, hlaunches⟩ := hkept
  refine ⟨happlied, hsweep, ?_, ?_, ?_⟩
  · rw [hdeployments, hprojects]
    exact hs.projects
  · rw [hlaunches, hprojects]
    exact hs.builds
  · rw [hdeployments, hlaunches]
    intro row hrow hlive
    exact (hs.reached row hrow hlive).imp_right (hreached row hrow hlive)

theorem Tracked.reconcile {s : State} (hs : Tracked s)
    (happlied : s.appliedRevision ≠ some s.revision) :
    Tracked { s with sweep := .read s.revision } := by
  refine hs.move ⟨rfl, rfl, rfl, rfl⟩ hs.applied ?_ ?_
  · intro revision hrevision
    obtain rfl := Option.some.inj hrevision
    refine ⟨Nat.le_refl _, ?_⟩
    intro older holder
    have hne : older ≠ s.revision := by
      intro heq
      exact happlied (heq ▸ holder)
    exact Nat.lt_of_le_of_ne (hs.applied older holder) hne
  · intro row _ _ _
    apply isReached_iff.mpr
    right
    exact isDue_of_ahead (s := { s with sweep := .read s.revision }) happlied
      (Or.inr ⟨s.revision, rfl⟩) row

theorem Tracked.listProjects {s : State} (hs : Tracked s) {revision : ℕ}
    (hread : s.sweep = .read revision) :
    Tracked { s with sweep := .sweeping revision s.projects [] } := by
  have hcurrent : s.sweep.revision = some revision := by rw [hread]; rfl
  refine hs.move ⟨rfl, rfl, rfl, rfl⟩ hs.applied ?_ ?_
  · intro other hother
    obtain rfl := Option.some.inj hother
    exact hs.sweep revision hcurrent
  · intro row hrow _ _
    apply isReached_iff.mpr
    right
    apply (isDue_sweeping rfl row).mpr
    exact ⟨hs.not_applied hcurrent, Or.inr (Or.inl (hs.projects row hrow))⟩

theorem Tracked.listDeployments {s : State} (hs : Tracked s) {revision : ℕ} {projectId : String}
    {projects : List String} (hsweep : s.sweep = .sweeping revision (projectId :: projects) []) :
    Tracked { s with
      sweep := .sweeping revision projects (s.listLiveDeployments projectId) } := by
  have hcurrent : s.sweep.revision = some revision := by rw [hsweep]; rfl
  refine hs.move ⟨rfl, rfl, rfl, rfl⟩ hs.applied ?_ ?_
  · intro other hother
    obtain rfl := Option.some.inj hother
    exact hs.sweep revision hcurrent
  · intro row hrow hlive hreached
    apply isReached_iff.mpr
    refine (isReached_iff.mp hreached).imp_right ?_
    intro hdue
    obtain ⟨happlied, hnext⟩ := (isDue_sweeping hsweep row).mp hdue
    apply (isDue_sweeping rfl row).mpr
    refine ⟨happlied, hnext.imp_right ?_⟩
    rintro (hproject | hnone)
    · rcases List.mem_cons.mp hproject with heq | htail
      · right
        apply List.mem_map_of_mem
        apply List.mem_filter.mpr
        exact ⟨hrow, by simp [heq, hlive]⟩
      · exact Or.inl htail
    · exact absurd hnone List.not_mem_nil

theorem Tracked.deliver {s : State} (hs : Tracked s) {revision : ℕ} {deploymentId : String}
    {projects deployments : List String}
    (hsweep : s.sweep = .sweeping revision projects (deploymentId :: deployments)) :
    Tracked { s.writeFile deploymentId revision with
      sweep := .sweeping revision projects deployments } := by
  have hcurrent : s.sweep.revision = some revision := by rw [hsweep]; rfl
  have hnot := hs.not_applied hcurrent
  refine hs.move ⟨rfl, rfl, rfl, rfl⟩ hs.applied ?_ ?_
  · intro other hother
    obtain rfl := Option.some.inj hother
    exact hs.sweep revision hcurrent
  · intro row hrow hlive hreached
    apply isReached_iff.mpr
    by_cases hrevision : revision = s.revision
    · by_cases hid : row.id = deploymentId
      · left
        rw [← hid]
        exact (Function.update_self _ _ _).trans (congrArg some hrevision)
      · rcases isReached_iff.mp hreached with hfile | hdue
        · left
          exact (Function.update_of_ne hid _ _).trans hfile
        · right
          obtain ⟨-, hnext⟩ := (isDue_sweeping hsweep row).mp hdue
          apply (isDue_sweeping rfl row).mpr
          refine ⟨hnot, hnext.imp_right (Or.imp_right ?_)⟩
          intro hmem
          exact (List.mem_cons.mp hmem).resolve_left hid
    · right
      exact (isDue_sweeping rfl row).mpr ⟨hnot, Or.inl hrevision⟩

theorem Tracked.finish {s : State} (hs : Tracked s) {revision : ℕ}
    (hsweep : s.sweep = .sweeping revision [] []) :
    Tracked { s with appliedRevision := some revision, sweep := .idle } := by
  have hcurrent : s.sweep.revision = some revision := by rw [hsweep]; rfl
  refine hs.move ⟨rfl, rfl, rfl, rfl⟩ ?_ ?_ ?_
  · intro other hother
    obtain rfl := Option.some.inj hother
    exact (hs.sweep revision hcurrent).1
  · intro other hother
    cases hother
  · intro row _ _ hreached
    apply isReached_iff.mpr
    by_cases hrevision : revision = s.revision
    · left
      rcases isReached_iff.mp hreached with hfile | hdue
      · exact hfile
      · obtain ⟨-, hnext⟩ := (isDue_sweeping hsweep row).mp hdue
        simp [hrevision] at hnext
    · right
      apply isDue_of_ahead _ (Or.inl rfl)
      intro heq
      exact hrevision (Option.some.inj heq)

theorem Tracked.abort {s : State} (hs : Tracked s) (hbusy : s.sweep ≠ .idle) :
    Tracked { s with sweep := .idle } := by
  have hcurrent : ∃ revision, s.sweep.revision = some revision := by
    cases hsweep : s.sweep with
    | idle => exact absurd hsweep hbusy
    | read revision => exact ⟨revision, rfl⟩
    | sweeping revision projects deployments => exact ⟨revision, rfl⟩
  obtain ⟨revision, hrevision⟩ := hcurrent
  refine hs.move ⟨rfl, rfl, rfl, rfl⟩ hs.applied ?_ ?_
  · intro other hother
    cases hother
  · intro row _ _ _
    apply isReached_iff.mpr
    right
    exact isDue_of_ahead (s := { s with sweep := .idle }) (hs.not_applied hrevision)
      (Or.inl rfl) row

theorem Tracked.step {s t : State} {a : Action} (hs : Tracked s)
    (hleaves : LeavesReached s a = true) (hstep : machine.step s a = some t) : Tracked t := by
  cases a with
  | save expectedRevision =>
      obtain rfl := Option.some.inj hstep
      by_cases hexpected : s.revision = expectedRevision
      · rw [if_pos hexpected]
        exact hs.save
      · rw [if_neg hexpected]
        exact hs
  | createProject projectId =>
      obtain rfl := Option.some.inj hstep
      refine ⟨hs.applied, hs.sweep, ?_, ?_, hs.reached⟩
      · exact fun row hrow => List.mem_append_left _ (hs.projects row hrow)
      · exact fun launch hlaunch => List.mem_append_left _ (hs.builds launch hlaunch)
  | beginBuild projectId deploymentId =>
      obtain ⟨⟨hproject, -⟩, ht⟩ := Option.ite_none_right_eq_some.mp hstep
      obtain rfl := Option.some.inj ht
      exact hs.begin ⟨.build, projectId, deploymentId, .begun⟩ hproject
  | beginLaunch deploymentId =>
      obtain ⟨deployment, hdeployment, rfl⟩ := beginLaunch_eq_some hstep
      have hmem := List.mem_of_find?_eq_some hdeployment
      exact hs.begin ⟨.existing, deployment.projectId, deploymentId, .begun⟩
        (hs.projects deployment hmem)
  | readPolicy k =>
      obtain ⟨launch, hlaunch, rfl⟩ := readPolicy_eq_some hstep
      exact hs.setPhase hlaunch _
  | writePolicy k =>
      obtain ⟨launch, revision, hlaunch, rfl⟩ := writePolicy_eq_some hstep
      exact (hs.writeFile hlaunch revision).setPhase hlaunch _
  | recordDeployment k =>
      obtain ⟨launch, hlaunch, rfl⟩ := recordDeployment_eq_some hstep
      exact (hs.insertDeployment hlaunch).setPhase hlaunch _
  | settleStatus k status =>
      obtain ⟨launch, hlaunch, rfl⟩ := settleStatus_eq_some hstep
      exact hs.settleDeploymentStatus hlaunch status
  | endLaunch k =>
      obtain ⟨hk, ht⟩ := Option.ite_none_right_eq_some.mp hstep
      obtain rfl := Option.some.inj ht
      have hlaunch : s.launches[k]? = some s.launches[k] := List.getElem?_eq_getElem hk
      rw [LeavesReached, hlaunch] at hleaves
      exact hs.endLaunch hlaunch hleaves
  | setStatus deploymentId status =>
      obtain rfl := Option.some.inj hstep
      exact hs.updateDeploymentStatus hleaves
  | reconcile =>
      rcases reconcile_eq_some hstep with rfl | ⟨-, happlied, rfl⟩
      · exact hs
      · exact hs.reconcile happlied
  | listProjects =>
      obtain ⟨revision, hread, rfl⟩ := listProjects_eq_some hstep
      exact hs.listProjects hread
  | listDeployments =>
      obtain ⟨revision, projectId, projects, hsweep, rfl⟩ := listDeployments_eq_some hstep
      exact hs.listDeployments hsweep
  | deliver =>
      obtain ⟨revision, projects, deploymentId, deployments, hsweep, rfl⟩ :=
        deliver_eq_some hstep
      exact hs.deliver hsweep
  | finish =>
      obtain ⟨revision, hsweep, rfl⟩ := finish_eq_some hstep
      exact hs.finish hsweep
  | abort =>
      obtain ⟨hbusy, ht⟩ := Option.ite_none_left_eq_some.mp hstep
      obtain rfl := Option.some.inj ht
      exact hs.abort hbusy

theorem tracked_of_initial {s : State} (hs : Initial s) : Tracked s := by
  refine ⟨?_, ?_, hs.projects, ?_, ?_⟩
  · intro revision hrevision
    rw [hs.applied] at hrevision
    cases hrevision
  · intro revision hrevision
    rw [hs.sweep] at hrevision
    cases hrevision
  · intro launch hlaunch
    rw [hs.launches] at hlaunch
    cases hlaunch
  · intro row _ _
    right
    apply isReached_iff.mpr
    right
    apply isDue_of_ahead _ (Or.inl hs.sweep)
    rw [hs.applied]
    exact nofun

/-- What is tracked has arrived once the current revision is applied. -/
theorem Tracked.policyReaches {s : State} (hs : Tracked s) : PolicyReaches s := by
  intro happlied hlaunches row hrow hlive
  rcases hs.reached row hrow hlive with hlaunching | hreached
  · rw [hlaunches] at hlaunching
    exact absurd hlaunching Bool.false_ne_true
  · rcases isReached_iff.mp hreached with hfile | hdue
    · exact hfile
    · simp [State.isDue, happlied] at hdue

/-! ## Runs -/

instance (s : State) : Decidable (PolicyReaches s) :=
  inferInstanceAs (Decidable (_ → _ → ∀ row ∈ s.deployments, _ → _))

/-- One project that has no deployment yet, with the first revision of the policy. -/
def oneProject : State where
  revision := 1
  projects := ["project"]
  deployments := []
  files := fun _ => none
  launches := []
  appliedRevision := none
  sweep := .idle

theorem oneProject_initial : Initial oneProject where
  launches := rfl
  applied := rfl
  sweep := rfl
  projects := fun _ hrow => absurd hrow List.not_mem_nil

/-- A build writes the policy file of its deployment. -/
def writeBuilt : List Action :=
  [.beginBuild "project" "deployment", .readPolicy 0, .writePolicy 0]

/-- A build records its deployment and returns. -/
def endBuild : List Action := [.recordDeployment 0, .endLaunch 0]

/-- The policy changes after the build has returned, and the reconciler writes the new file. -/
def savedAfterBuild : List Action :=
  writeBuilt ++ endBuild ++
    [.save 1, .reconcile, .listProjects, .listDeployments, .deliver, .finish]

/-- The policy changes while the build starts its process. The reconciler finds no deployment in
the project, and has applied the revision when the build records its own. -/
def savedDuringBuild : List Action :=
  writeBuilt ++ [.save 1, .reconcile, .listProjects, .listDeployments, .finish] ++ endBuild

end Eveland.PolicySweep
