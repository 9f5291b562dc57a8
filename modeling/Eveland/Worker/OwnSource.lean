/-
# Chained builds and the source of their import

A build that an import has queued names the import as its parent, but builds whatever revision is
the project's current one when it starts. It is the import's own as long as no other import records
a revision in between, and the import itself does not record another one later.
-/

import Eveland.Worker.DeployPipeline

namespace Eveland.DeployPipeline

open JobStore JobExecutions

/-! ## Own sources -/

/-- The revision that an import job has recorded, by its last attempt that has recorded one. -/
def State.importedBy (s : State) (importJobId : String) : Option SourceRevision :=
  s.revisions.find? fun revision => revision.importJobId = importJobId

/-- Every release of a build that names a parent import is of the revision that the import has
recorded. -/
def ReleasesOwnSource (s : State) : Prop :=
  ∀ deployment ∈ s.deployments, ∀ importJobId, deployment.parentJobId = some importJobId →
    s.importedBy importJobId = some deployment.revision

/-- The revision that the handler of a build works with. -/
def Handler.revision : Handler → Option SourceRevision
  | .building revision => some revision
  | _ => none

/-- A build that was chained to an import has read its revision, or has recorded a release. -/
def State.isBuilt (s : State) (importJobId : String) : Bool :=
  (s.deployments.any fun deployment => deployment.parentJobId = some importJobId) ||
    (List.range s.workers.executions.length).any fun i =>
      (s.handlers i).revision.isSome &&
        (s.workers.executions[i]?.bind fun execution => parentJobId execution.payload) =
          some importJobId

/-- A chained build starts while the current revision is one that its parent import has recorded,
and an import records a revision before a build that is chained to it reads one. -/
def ReadsOwnSource (s : State) : Action → Bool
  | .handle i _ _ =>
      match s.workers.executions[i]? with
      | none => true
      | some execution =>
          if s.handlers i = .starting then
            match execution.type with
            | some .buildDeploy =>
                (parentJobId execution.payload).all fun importJobId =>
                  s.getCurrentSourceRevision.all fun revision => revision.importJobId = importJobId
            | some .importSource => !s.isBuilt execution.jobId
            | _ => true
          else true
  | _ => true

/-- The builds under way, too, have read the revision of their import. -/
structure Owned (s : State) : Prop where
  released : ReleasesOwnSource s
  building : ∀ i revision, (s.handlers i).revision = some revision →
    ∃ execution, s.workers.executions[i]? = some execution ∧
      ∀ importJobId, parentJobId execution.payload = some importJobId →
        s.importedBy importJobId = some revision

/-! ## What a step leaves -/

/-- A step that records no revision and no deployment, and leaves the handlers. -/
theorem Owned.of_same {s t : State} (h : Owned s) (hrevisions : t.revisions = s.revisions)
    (hdeployments : t.deployments = s.deployments) (hhandlers : t.handlers = s.handlers)
    (hexecutions : t.workers.executions = s.workers.executions) : Owned t := by
  constructor
  · intro deployment hmem importJobId hparent
    rw [hdeployments] at hmem
    rw [State.importedBy, hrevisions]
    exact h.released deployment hmem importJobId hparent
  · intro i revision hrevision
    rw [hhandlers] at hrevision
    obtain ⟨execution, hmem, hown⟩ := h.building i revision hrevision
    refine ⟨execution, by rw [hexecutions]; exact hmem, ?_⟩
    intro importJobId hparent
    rw [State.importedBy, hrevisions]
    exact hown importJobId hparent

/-- A step of the workers keeps what executions were claimed with. -/
theorem Owned.work {s : State} (h : Owned s) {action : JobExecutions.Action} {workers : System}
    (hstep : JobExecutions.step s.workers action = some workers) : Owned { s with workers } := by
  refine ⟨h.released, ?_⟩
  intro i revision hrevision
  obtain ⟨execution, hmem, hown⟩ := h.building i revision hrevision
  obtain ⟨later, hlater, _, _, hpayload⟩ := executions_step hstep hmem
  exact ⟨later, hlater, by rw [hpayload]; exact hown⟩

/-- A handler goes on, with a revision that is the import's. -/
theorem Owned.setHandler {s : State} (h : Owned s) (i : ℕ) {handler : Handler}
    (hhandler : ∀ revision, handler.revision = some revision →
      ∃ execution, s.workers.executions[i]? = some execution ∧
        ∀ importJobId, parentJobId execution.payload = some importJobId →
          s.importedBy importJobId = some revision) : Owned (s.setHandler i handler) := by
  refine ⟨h.released, ?_⟩
  intro j revision hrevision
  simp only [State.setHandler, Function.update_apply] at hrevision
  split at hrevision
  · next hji =>
      subst j
      exact hhandler revision hrevision
  · exact h.building j revision hrevision

/-- A handler goes on to a step at which it works with no revision. -/
theorem Owned.leave {s : State} (h : Owned s) (i : ℕ) {handler : Handler}
    (hnone : handler.revision = none) : Owned (s.setHandler i handler) := by
  apply h.setHandler i
  intro revision hrevision
  rw [hnone] at hrevision
  cases hrevision

/-- An import records a revision, while no build that is chained to it has read one. -/
theorem Owned.recordSourceRevision {s : State} (h : Owned s) {revision : SourceRevision}
    (hbuilt : s.isBuilt revision.importJobId = false) :
    Owned (s.recordSourceRevision revision) := by
  simp only [State.isBuilt, Bool.or_eq_false_iff] at hbuilt
  have hother : ∀ importJobId, importJobId ≠ revision.importJobId →
      (s.recordSourceRevision revision).importedBy importJobId = s.importedBy importJobId := by
    intro importJobId hne
    have hskip : ¬ revision.importJobId = importJobId := fun heq => hne heq.symm
    simp [State.importedBy, State.recordSourceRevision, hskip]
  constructor
  · intro deployment hmem importJobId hparent
    rw [hother]
    · exact h.released deployment hmem importJobId hparent
    · rintro rfl
      have hnot := List.any_eq_false.mp hbuilt.1 deployment hmem
      simp [hparent] at hnot
  · intro i built hrevision
    obtain ⟨execution, hmem, hown⟩ := h.building i built hrevision
    refine ⟨execution, hmem, ?_⟩
    intro importJobId hparent
    rw [hother]
    · exact hown importJobId hparent
    · rintro rfl
      have hlt := (List.getElem?_eq_some_iff.mp hmem).1
      have hnot := List.any_eq_false.mp hbuilt.2 i (List.mem_range.mpr hlt)
      have hsome : (s.handlers i).revision = some built := hrevision
      simp [hsome, hmem, hparent] at hnot

/-- A build records its release. -/
theorem Owned.recordDeployment {s : State} (h : Owned s) {deployment : Deployment}
    (hown : ∀ importJobId, deployment.parentJobId = some importJobId →
      s.importedBy importJobId = some deployment.revision) :
    Owned (s.recordDeployment deployment) := by
  refine ⟨?_, h.building⟩
  intro other hmem
  rcases List.mem_cons.mp hmem with rfl | hmem
  · exact hown
  · exact h.released other hmem

/-- A queued job changes no revision, deployment or handler. -/
theorem enqueueJob_same {s t : State} {type : JobType} {payload : Json} {jobId : String} {now : ℤ}
    (henqueue : s.enqueueJob type payload jobId now = some t) :
    ∃ store, t = { s with workers := { s.workers with store } } := by
  obtain ⟨store, _, rfl⟩ := Option.map_eq_some_iff.mp henqueue
  exact ⟨store, rfl⟩

theorem Owned.handleImport {s t : State} {i : ℕ} {execution : Execution} {drawn : String} {now : ℤ}
    (h : Owned s) (hmem : s.workers.executions[i]? = some execution)
    (htype : execution.type = some .importSource)
    (hreads : ReadsOwnSource s (.handle i drawn now) = true)
    (hhandle : handleImport s i execution drawn now = some t) : Owned t := by
  unfold DeployPipeline.handleImport at hhandle
  cases hhandler : s.handlers i with
  | starting =>
      simp only [hhandler] at hhandle
      obtain ⟨origin, _, rfl⟩ := Option.map_eq_some_iff.mp hhandle
      simp only [ReadsOwnSource, hmem, hhandler, htype, if_true, Bool.not_eq_true'] at hreads
      have hrecorded : Owned (s.recordSourceRevision
          { id := drawn, origin, importJobId := execution.jobId }) :=
        h.recordSourceRevision hreads
      exact hrecorded.leave i rfl
  | recorded =>
      simp only [hhandler] at hhandle
      split at hhandle
      · obtain ⟨queued, hqueued, rfl⟩ := Option.map_eq_some_iff.mp hhandle
        obtain ⟨store, rfl⟩ := enqueueJob_same hqueued
        have hsame : Owned { s with workers := { s.workers with store } } :=
          h.of_same rfl rfl rfl rfl
        exact hsame.leave i rfl
      · cases hhandle
        exact h.leave i rfl
  | building revision =>
      simp only [hhandler] at hhandle
      cases hhandle
  | deployed deployment =>
      simp only [hhandler] at hhandle
      cases hhandle
  | named deployment =>
      simp only [hhandler] at hhandle
      cases hhandle
  | finished =>
      simp only [hhandler] at hhandle
      cases hhandle

/-- The current revision, where it is of an import job, is the last that the job has recorded. -/
theorem importedBy_of_current {s : State} {revision : SourceRevision} {importJobId : String}
    (hcurrent : s.getCurrentSourceRevision = some revision)
    (hown : revision.importJobId = importJobId) : s.importedBy importJobId = some revision := by
  unfold State.getCurrentSourceRevision at hcurrent
  cases hrevisions : s.revisions with
  | nil =>
      rw [hrevisions] at hcurrent
      cases hcurrent
  | cons newest older =>
      rw [hrevisions] at hcurrent
      obtain rfl := Option.some.inj hcurrent
      simp [State.importedBy, hrevisions, hown]

theorem Owned.handleBuild {s t : State} {i : ℕ} {execution : Execution} {drawn : String} {now : ℤ}
    (h : Owned s) (hmem : s.workers.executions[i]? = some execution)
    (htype : execution.type = some .buildDeploy)
    (hreads : ReadsOwnSource s (.handle i drawn now) = true)
    (hhandle : handleBuild s i execution drawn now = some t) : Owned t := by
  unfold DeployPipeline.handleBuild at hhandle
  cases hhandler : s.handlers i with
  | starting =>
      simp only [hhandler] at hhandle
      obtain ⟨revision, hcurrent, rfl⟩ := Option.map_eq_some_iff.mp hhandle
      simp only [ReadsOwnSource, hmem, hhandler, htype, if_true, hcurrent] at hreads
      apply h.setHandler i
      intro built hbuilt
      obtain rfl := Option.some.inj hbuilt
      refine ⟨execution, hmem, ?_⟩
      intro importJobId hparent
      apply importedBy_of_current hcurrent
      simpa [hparent] using hreads
  | recorded =>
      simp only [hhandler] at hhandle
      cases hhandle
  | building revision =>
      simp only [hhandler] at hhandle
      cases hhandle
      obtain ⟨other, hother, hown⟩ := h.building i revision (by simp [hhandler, Handler.revision])
      obtain rfl := Option.some.inj (hmem.symm.trans hother)
      have hrecorded : Owned (s.recordDeployment
          { id := drawn, revision, buildJobId := execution.jobId
            parentJobId := parentJobId execution.payload }) :=
        h.recordDeployment hown
      exact hrecorded.leave i rfl
  | deployed deployment =>
      simp only [hhandler] at hhandle
      obtain ⟨workers, hworkers, rfl⟩ := Option.map_eq_some_iff.mp hhandle
      exact (h.leave i rfl).work hworkers
  | named deployment =>
      simp only [hhandler] at hhandle
      split at hhandle
      · cases hhandle
        have hpromoted : Owned (s.promoteBuilt execution deployment) := h.of_same rfl rfl rfl rfl
        exact hpromoted.leave i rfl
      · cases hhandle
        exact h.leave i rfl
  | finished =>
      simp only [hhandler] at hhandle
      cases hhandle

theorem Owned.proceed {s t : State} {k : ℕ} {drawn : String} {now : ℤ} (h : Owned s)
    (hproceed : proceed s k drawn now = some t) : Owned t := by
  unfold DeployPipeline.proceed at hproceed
  split at hproceed
  · cases hproceed
  · next pending _ =>
      split at hproceed
      · split at hproceed
        · split at hproceed <;> cases hproceed
          · exact h.of_same rfl rfl rfl rfl
          · exact h.of_same rfl rfl rfl rfl
        · cases hproceed
          exact h.of_same rfl rfl rfl rfl
      · split at hproceed <;> cases hproceed
        · exact h.of_same rfl rfl rfl rfl
        · exact h.of_same rfl rfl rfl rfl
      · obtain ⟨queued, hqueued, rfl⟩ := Option.map_eq_some_iff.mp hproceed
        obtain ⟨store, rfl⟩ := enqueueJob_same hqueued
        exact h.of_same rfl rfl rfl rfl

/-- A step in which builds read the sources of their own imports keeps them. -/
theorem Owned.step {s t : State} {a : Action} (h : Owned s) (hreads : ReadsOwnSource s a = true)
    (hstep : step s a = some t) : Owned t := by
  cases a with
  | work action =>
      simp only [DeployPipeline.step] at hstep
      split at hstep
      · obtain ⟨workers, hworkers, rfl⟩ := Option.map_eq_some_iff.mp hstep
        exact h.work hworkers
      · cases hstep
  | handle i drawn now =>
      simp only [DeployPipeline.step, handle] at hstep
      split at hstep
      · cases hstep
      · next execution hmem =>
          split at hstep
          · split at hstep
            · next htype => exact h.handleImport hmem htype hreads hstep
            · next htype => exact h.handleBuild hmem htype hreads hstep
            · cases hstep
          · cases hstep
  | request request =>
      simp only [DeployPipeline.step, beginRequest] at hstep
      split at hstep
      · cases hstep
        exact h.of_same rfl rfl rfl rfl
      · cases hstep
  | proceed k drawn now => exact h.proceed hstep
  | promote deployment =>
      simp only [DeployPipeline.step] at hstep
      split at hstep
      · cases hstep
        exact h.of_same rfl rfl rfl rfl
      · cases hstep

theorem owned_of_initial {s : State} (hinit : Initial s) : Owned s := by
  constructor
  · intro deployment hmem
    rw [hinit.deployments] at hmem
    cases hmem
  · intro i revision hrevision
    rw [hinit.handlers i] at hrevision
    cases hrevision

/-- In every run of requests, workers and recoveries on a project, statement by statement, in which
each chained build starts while the current revision is its parent import's, and no import records
a revision after a build that is chained to it has read one, every release of a chained build is of
the revision that its import has recorded, in every state. -/
theorem chained_builds_own_source {s : State} {actions : List Action} (hinit : machine.init s)
    (hreads : machine.Meets (fun s a => ReadsOwnSource s a = true) s actions) :
    machine.Always ReleasesOwnSource s actions :=
  machine.always_of_meets (fun _ _ _ h hreads hstep => h.step hreads hstep)
    (fun _ h => h.released) (owned_of_initial hinit) hreads

/-! ## Two uploads -/

/-- One upload is imported and built before the next one comes in. -/
def oneByOne : List Action :=
  submit (uploadOf "first") "import-1" 1 ++ runImport 0 "revision-1" "build-1" 2 ++
    runBuild 1 "deployment-1" 3 ++ submit (uploadOf "second") "import-2" 4 ++
    runImport 2 "revision-2" "build-2" 5 ++ runBuild 3 "deployment-2" 6

theorem chained_builds_own_source_oneByOne :
    machine.Always ReleasesOwnSource emptyProject oneByOne ∧
      ∃ t, machine.exec emptyProject oneByOne = some t ∧
        t.deployments.map (fun deployment => (deployment.parentJobId, deployment.revision.id)) =
          [(some "import-2", "revision-2"), (some "import-1", "revision-1")] := by
  have hreads : machine.Meets (fun s a => ReadsOwnSource s a = true) emptyProject oneByOne := by
    decide +kernel
  exact ⟨chained_builds_own_source emptyProject_initial hreads, _, rfl, by decide +kernel⟩

/-- Both uploads are there before the first is imported. The second import is older than the build
of the first one, so it is claimed before it, and the build finds its revision. -/
def bothWaiting : List Action :=
  submit (uploadOf "first") "import-1" 1 ++ submit (uploadOf "second") "import-2" 1 ++
    runImport 0 "revision-1" "build-1" 2 ++ runImport 1 "revision-2" "build-2" 3 ++
    runBuild 2 "deployment-1" 4

theorem chained_build_takes_other_source :
    ¬ ∀ (s : State) (actions : List Action), machine.init s →
      machine.Always ReleasesOwnSource s actions := by
  intro hall
  have halways := hall emptyProject bothWaiting emptyProject_initial
  have howns := halways.of_exec rfl
  have hown := howns _ List.mem_cons_self "import-1" (by decide +kernel)
  exact absurd hown (by decide +kernel)

end Eveland.DeployPipeline
