/-
# What the watcher reports

The watcher reports how its own import, or the build chained to it, has ended, and prints the build
lines up to that end, as long as nothing comes between: no line is committed between the last page
of a poll and the job's end, the job is still among the newest when the jobs are read, a poll is
left before the deadline, and the workers neither take back how the job has ended nor chain another
build.
-/

import Eveland.Cli.PollReads

namespace Eveland.DeployWatcher

open JobStore LogStore
open DeployPipeline (stringField parentJobId)
open JobExecutions (hasEnded)

/-! ## Undisturbed runs -/

namespace State

variable (s : State)

/-- The import queues one build at most, and none if it fails. -/
def hasOneOutcome : Bool :=
  s.jobs.all fun first => s.jobs.all fun second =>
    (!(s.isOwnBuild first && s.isOwnBuild second) || first.id = second.id) &&
      !(s.isOwnImport first && first.status = .failed && s.isOwnBuild second)

/-- No recovery sweep puts the job that ended the watch back on the queue. -/
def sparesEnded : DeployPipeline.Action → Bool
  | .work (.requeueStale k _) =>
      (s.pipeline.workers.sweeps[k]?).all fun jobIds =>
        s.jobs.all fun row => !s.endsWatch row || !jobIds.contains row.id
  | _ => true

/-- If the step ends the watch between the last page of a poll and its listing, no line was committed
since that page. -/
def hasReadToEnd (pipeline : DeployPipeline.State) : Bool :=
  s.watcher.phase ≠ .listing || s.record.ended.isSome ||
    (s.afterWork pipeline).record.ended.isNone || s.buildLines.length = s.record.readLines

/-- Every job of the project decodes. -/
def decodes : Bool :=
  s.jobs.all fun row => row.projectId ≠ s.pipeline.projectId || decodesJobRow row

/-- The job is among the 50 newest of the project. -/
def isNew (row : JobRow) : Bool :=
  s.jobs.countP (fun other =>
    other.projectId = s.pipeline.projectId && row.createdAt ≤ other.createdAt) ≤ 50

/-- The import is older than every other import of the project, and still among the 50 newest jobs.
-/
def isOldestImport (row : JobRow) : Bool :=
  s.isOwnImport row && row.type = some .importSource && s.isNew row &&
    s.jobs.all fun other => other.projectId ≠ s.pipeline.projectId ||
      other.type ≠ some .importSource || other.id = row.id || row.createdAt < other.createdAt

end State

/-- Nothing comes between the watcher and its job. -/
def isUndisturbed (s : State) : Action → Bool
  | .work action =>
      match DeployPipeline.step s.pipeline action with
      | some pipeline =>
          (s.afterWork pipeline).hasOneOutcome && s.sparesEnded action && s.hasReadToEnd pipeline
      | none => true
  | .find _ => s.decodes && s.jobs.any s.isOldestImport
  | .check =>
      s.clock < s.watcher.deadline ||
        s.record.ended.all fun ended => s.watcher.deadline ≤ ended.1
  | .list _ => s.decodes && s.jobs.all fun row => !s.endsWatch row || s.isNew row
  | _ => true

/-- The import that was queued for this deploy, or the build chained to it, says so. -/
def State.OwnTells (s : State) (row : JobRow) (ending : Ending) : Prop :=
  row.projectId = s.pipeline.projectId ∧
    ∃ importJobId, s.record.ownJobId = some importJobId ∧ Tells importJobId row ending

/-- What a watcher should do: report how its own import or build has ended, if that was before the
deadline, and nothing else but that it has timed out; before that, print the build lines since its
start up to that end, each once and in order; and come to an end after it. -/
structure WatchesOwnBuild (s : State) : Prop where
  reported : ∀ ending, s.watcher.phase = .ended ending → ending ≠ .threw .timedOut →
    ∃ row ∈ s.jobs, s.OwnTells row ending
  inTime : ∀ reported, s.watcher.phase = .ended reported →
    ∀ time count, s.record.ended = some (time, count) → time < s.watcher.deadline →
      ∀ row ∈ s.jobs, ∀ ending, s.OwnTells row ending → reported = ending
  printed : ∃ n, s.watcher.printed =
      ((s.buildLines.drop s.record.startLines).take n).map (fun row => "  " ++ row.line) ∧
    ∀ ending, s.watcher.phase = .ended ending → ending ≠ .threw .timedOut →
      ∀ time count, s.record.ended = some (time, count) → count ≤ s.record.startLines + n
  ends : s.record.ended.isSome = true →
    (∃ ending, s.watcher.phase = .ended ending) ∨ s.record.stepsSince ≤ s.buildLines.length + 5

/-! ## The invariant -/

/-- No job was queued for the deploy yet. -/
def Phase.isBefore : Phase → Bool
  | .watermark | .submitting | .creating => true
  | _ => false

/-- The watcher knows its import. -/
def Phase.isWatching : Phase → Bool
  | .starting | .checking | .reading | .listing => true
  | _ => false

/-- How many steps the watcher takes at most after its job has ended, where so many lines are not
read yet. -/
def Phase.rank (unread : ℕ) : Phase → ℕ
  | .finding => unread + 5
  | .starting => unread + 4
  | .checking => unread + 3
  | .reading => unread + 2
  | .listing => 1
  | _ => 0

namespace State

variable (s : State)

/-- The number of lines up to the cursor. -/
def readCount : ℕ := s.record.startLines + s.watcher.printed.length

/-- Why the watcher has ended as it has. -/
def Settled (ending : Ending) : Prop :=
  (ending = .threw .timedOut ∧ s.watcher.deadline ≤ s.clock ∧
      ∀ time count, s.record.ended = some (time, count) → s.watcher.deadline ≤ time) ∨
    (∃ row ∈ s.jobs, s.OwnTells row ending) ∧
      ∀ time count, s.record.ended = some (time, count) → count ≤ s.readCount

end State

structure Watched (s : State) : Prop where
  keyed : WellKeyed s.pipeline.workers.store
  lines : Keyset.Ascending LogRow.seq s.buildLines
  positive : ∀ row ∈ s.buildLines, 0 < row.seq
  oneOutcome : s.hasOneOutcome = true
  before : s.watcher.phase.isBefore = true → s.record.ownJobId = none ∧ s.watcher.printed = []
  known : s.watcher.phase.isWatching = true → s.record.ownJobId = some s.watcher.importJobId
  ended : s.record.ended.isSome = s.jobs.any s.endsWatch
  count : ∀ time count, s.record.ended = some (time, count) → count ≤ s.buildLines.length
  read : ReadUpTo s.buildLines s.readCount (s.watcher.logCursor.getD 0)
  printed : s.watcher.printed = ((s.buildLines.drop s.record.startLines).take
    s.watcher.printed.length).map fun row => "  " ++ row.line
  listing : s.watcher.phase = .listing → s.record.readLines = s.readCount ∧
    ∀ time count, s.record.ended = some (time, count) → count ≤ s.readCount
  settled : ∀ ending, s.watcher.phase = .ended ending → s.Settled ending
  steps : s.record.ended = none → s.record.stepsSince = 0
  rank : s.record.ended.isSome = true → s.record.stepsSince +
    s.watcher.phase.rank (s.buildLines.length - s.readCount) ≤ s.buildLines.length + 5

/-! ## Steps that are not the watcher's -/

section

variable {s t : State}

theorem Phase.rank_le (unread : ℕ) (phase : Phase) : phase.rank unread ≤ unread + 5 := by
  cases phase <;> simp only [Phase.rank] <;> omega

theorem Phase.rank_add_le (unread more : ℕ) (phase : Phase) :
    phase.rank (unread + more) ≤ phase.rank unread + more := by
  cases phase <;> simp only [Phase.rank] <;> omega

theorem watched_of_initial (h : Initial s) : Watched s := by
  have hrecord := h.record
  have hnone : ∀ row, s.isOwnImport row = false ∧ s.isOwnBuild row = false := by
    intro row
    simp [State.isOwnImport, State.isOwnBuild, hrecord]
  have hends : s.jobs.any s.endsWatch = false := by
    rw [List.any_eq_false]
    intro row _
    simp [State.endsWatch, (hnone row).1, (hnone row).2]
  have hphase : s.watcher.phase.isBefore = true ∧ s.watcher.phase.isWatching = false ∧
      s.watcher.phase ≠ .listing ∧ ∀ ending, s.watcher.phase ≠ .ended ending := by
    rcases h.phase with hphase | ⟨hphase, _⟩ <;> simp [hphase, Phase.isBefore, Phase.isWatching]
  have hcount : s.readCount = 0 := by simp [State.readCount, hrecord, h.printed]
  exact
    { keyed := h.keyed
      lines := h.lines
      positive := h.positive
      oneOutcome := by simp [State.hasOneOutcome, (hnone _).1, (hnone _).2]
      before := fun _ => ⟨by rw [hrecord], h.printed⟩
      known := fun hwatching => by simp [hphase.2.1] at hwatching
      ended := by rw [hends, hrecord]; rfl
      count := fun time count hended => by simp [hrecord] at hended
      read := by rw [hcount, h.cursor]; exact ReadUpTo.zero h.positive
      printed := by simp [h.printed]
      listing := fun hlisting => absurd hlisting hphase.2.2.1
      settled := fun ending hended => absurd hended (hphase.2.2.2 ending)
      steps := fun _ => by rw [hrecord]
      rank := fun hended => by simp [hrecord] at hended }

theorem watched_tick (h : Watched s) {now : ℤ} (hnow : s.clock ≤ now) :
    Watched { s with clock := now } where
  keyed := h.keyed
  lines := h.lines
  positive := h.positive
  oneOutcome := h.oneOutcome
  before := h.before
  known := h.known
  ended := h.ended
  count := h.count
  read := h.read
  printed := h.printed
  listing := h.listing
  settled ending hended := by
    rcases h.settled ending hended with ⟨htimed, hlate, htime⟩ | hsettled
    · exact .inl ⟨htimed, hlate.trans hnow, htime⟩
    · exact .inr hsettled
  steps := h.steps
  rank := h.rank

/-- The lines up to the cursor are there. -/
theorem Watched.readCount_le (h : Watched s) : s.readCount ≤ s.buildLines.length :=
  h.read.count_le

/-- Lines that were read are the same, whatever is committed after them. -/
theorem take_drop_append {lines more : List LogRow} {start count : ℕ}
    (h : start + count ≤ lines.length) :
    ((lines ++ more).drop start).take count = (lines.drop start).take count := by
  rw [List.drop_append_of_le_length (by omega), List.take_append_of_le_length]
  rw [List.length_drop]
  omega

theorem Watched.append (h : Watched s) {row : LogRow} (hpositive : 0 < row.seq)
    (hlater : ∀ old ∈ s.logs, old.projectId = row.projectId → old.seq < row.seq) :
    Watched { s with logs := s.logs ++ [row] } := by
  have hall : State.buildLines { s with logs := s.logs ++ [row] } =
      s.buildLines ++ [row].filter (logScope s.scope) := List.filter_append ..
  have holds : ∀ new ∈ [row].filter (logScope s.scope), ∀ old ∈ s.buildLines,
      old.seq < new.seq := by
    intro new hnew old hold
    obtain ⟨hnew, hscope⟩ := List.mem_filter.mp hnew
    obtain ⟨hold, holdScope⟩ := List.mem_filter.mp hold
    rw [List.mem_singleton.mp hnew] at hscope ⊢
    exact hlater old hold
      ((projectId_of_logScope holdScope).trans (projectId_of_logScope hscope).symm)
  have hnew : ∀ new ∈ [row].filter (logScope s.scope), 0 < new.seq := by
    intro new hnew
    rw [List.mem_singleton.mp (List.mem_of_mem_filter hnew)]
    exact hpositive
  have hfacts : Keyset.Ascending LogRow.seq (s.buildLines ++ [row].filter (logScope s.scope)) ∧
      ReadUpTo (s.buildLines ++ [row].filter (logScope s.scope)) s.readCount
        (s.watcher.logCursor.getD 0) := by
    cases hscope : logScope s.scope row with
    | true =>
        rw [List.filter_cons_of_pos hscope, List.filter_nil] at holds ⊢
        have hlast := holds row List.mem_cons_self
        exact ⟨h.lines.append_singleton hlast, h.read.append hpositive hlast⟩
    | false =>
        rw [List.filter_cons_of_neg (by simp [hscope]), List.filter_nil, List.append_nil]
        exact ⟨h.lines, h.read⟩
  have hlength : (State.buildLines { s with logs := s.logs ++ [row] }).length =
      s.buildLines.length + ([row].filter (logScope s.scope)).length := by
    rw [hall, List.length_append]
  have hread := h.readCount_le
  exact
    { keyed := h.keyed
      lines := by rw [hall]; exact hfacts.1
      positive := by
        intro other hother
        rw [hall, List.mem_append] at hother
        rcases hother with hother | hother
        · exact h.positive other hother
        · exact hnew other hother
      oneOutcome := h.oneOutcome
      before := h.before
      known := h.known
      ended := h.ended
      count := fun time count hended => by
        rw [hlength]
        exact Nat.le_add_right_of_le (h.count time count hended)
      read := by rw [hall]; exact hfacts.2
      printed := by
        rw [hall, take_drop_append hread]
        exact h.printed
      listing := h.listing
      settled := h.settled
      steps := h.steps
      rank := fun hended => by
        have hrank := h.rank hended
        have hmore := Phase.rank_add_le (s.buildLines.length - s.readCount)
          ([row].filter (logScope s.scope)).length s.watcher.phase
        rw [← Nat.sub_add_comm hread, ← hlength] at hmore
        have hsame : State.readCount { s with logs := s.logs ++ [row] } = s.readCount := rfl
        rw [hsame, hlength]
        rw [hlength] at hmore
        dsimp only
        omega }

/-- What a step of the workers changes for the watcher: its job has ended with it, or not. -/
theorem afterWork_cases {pipeline : DeployPipeline.State}
    (hproject : pipeline.projectId = s.pipeline.projectId) :
    ∃ ended, s.afterWork pipeline = { s with pipeline, record := { s.record with ended } } ∧
      (ended = s.record.ended ∧
          (ended.isSome = true ∨ pipeline.workers.store.jobs.any s.endsWatch = false) ∨
        s.record.ended = none ∧ pipeline.workers.store.jobs.any s.endsWatch = true ∧
          ended = some (s.clock, s.buildLines.length)) := by
  have hends : State.endsWatch { s with pipeline } = s.endsWatch := by
    funext row
    simp only [State.endsWatch, State.isOwnImport, State.isOwnBuild, hproject]
  have hlines : State.buildLines { s with pipeline } = s.buildLines := by
    simp only [State.buildLines, State.scope, hproject]
  simp only [State.afterWork, State.jobs, hends, hlines]
  by_cases hended : (s.record.ended.isNone && pipeline.workers.store.jobs.any s.endsWatch) = true
  · rw [if_pos hended]
    rw [Bool.and_eq_true, Option.isNone_iff_eq_none] at hended
    exact ⟨_, rfl, .inr ⟨hended.1, hended.2, rfl⟩⟩
  · rw [if_neg hended]
    refine ⟨s.record.ended, rfl, .inl ⟨rfl, ?_⟩⟩
    rw [Bool.and_eq_true, not_and, Option.isNone_iff_eq_none] at hended
    cases hbefore : s.record.ended with
    | none => exact .inr (Bool.eq_false_iff.mpr (hended hbefore))
    | some ended => exact .inl rfl

theorem hasEnded_of_endsWatch {row : JobRow} (h : s.endsWatch row = true) :
    hasEnded row = true := by
  rw [State.endsWatch, Bool.or_eq_true, Bool.and_eq_true, Bool.and_eq_true] at h
  rcases h with ⟨_, hfailed⟩ | ⟨_, hended⟩
  · rw [hasEnded, hfailed, Bool.or_true]
  · exact hended

theorem sparesJob_of_sparesEnded {action : DeployPipeline.Action}
    (h : s.sparesEnded action = true) {row : JobRow} (hmem : row ∈ s.jobs)
    (hends : s.endsWatch row = true) : DeployPipeline.SparesJob s.pipeline row.id action := by
  unfold State.sparesEnded at h
  split at h
  · intro jobIds hjobIds hchosen
    rw [hjobIds, Option.all_some, List.all_eq_true] at h
    have hrow := h row hmem
    rw [hends, List.contains_iff_mem.mpr hchosen] at hrow
    cases hrow
  · next hsweep =>
      unfold DeployPipeline.SparesJob
      split
      · next action =>
          unfold JobExecutions.SparesJob
          split
          · next k now => exact absurd rfl (hsweep k now)
          · trivial
      · trivial

/-- What says how the watch ends is a job that has ended it. -/
theorem endsWatch_of_ownTells {row : JobRow} {ending : Ending} (h : s.OwnTells row ending) :
    s.endsWatch row = true := by
  obtain ⟨hproject, importJobId, hown, htells⟩ := h
  unfold State.endsWatch State.isOwnImport State.isOwnBuild
  cases htells with
  | importFailed hid hstatus => simp [hproject, hown, hid, hstatus]
  | buildFailed hchained hstatus =>
      simp only [isChained, Bool.and_eq_true, decide_eq_true_eq] at hchained
      simp [hproject, hown, hchained, hstatus]
  | completed hchained hstatus hdeployment hne =>
      simp only [isChained, Bool.and_eq_true, decide_eq_true_eq] at hchained
      simp [hproject, hown, hchained, hstatus]
  | unrecorded hchained hstatus hdeployment =>
      simp only [isChained, Bool.and_eq_true, decide_eq_true_eq] at hchained
      simp [hproject, hown, hchained, hstatus]

theorem Watched.work (h : Watched s) {action : DeployPipeline.Action}
    {pipeline : DeployPipeline.State} (hstep : DeployPipeline.step s.pipeline action = some pipeline)
    (hone : (s.afterWork pipeline).hasOneOutcome = true) (hspares : s.sparesEnded action = true)
    (hreadToEnd : s.hasReadToEnd pipeline = true) : Watched (s.afterWork pipeline) := by
  have hproject := (DeployPipeline.workersStep_of_step hstep).1
  have hkept : ∀ row ∈ s.jobs, s.endsWatch row = true →
      row ∈ pipeline.workers.store.jobs := by
    intro row hrow hends
    exact DeployPipeline.mem_step_of_ended h.keyed hstep hrow (hasEnded_of_endsWatch hends)
      (sparesJob_of_sparesEnded hspares hrow hends)
  have hany : s.record.ended.isSome = true →
      pipeline.workers.store.jobs.any s.endsWatch = true := by
    intro hended
    rw [h.ended, List.any_eq_true] at hended
    obtain ⟨row, hrow, hends⟩ := hended
    exact List.any_eq_true.mpr ⟨row, hkept row hrow hends, hends⟩
  unfold State.hasReadToEnd at hreadToEnd
  obtain ⟨ended, hafter, hcases⟩ := afterWork_cases hproject
  rw [hafter] at hone hreadToEnd ⊢
  have hlines : State.buildLines { s with pipeline, record := { s.record with ended } } =
      s.buildLines := by
    simp only [State.buildLines, State.scope, hproject]
  have hends : State.endsWatch { s with pipeline, record := { s.record with ended } } =
      s.endsWatch := by
    funext row
    simp only [State.endsWatch, State.isOwnImport, State.isOwnBuild, hproject]
  have hsome : ended.isSome = pipeline.workers.store.jobs.any s.endsWatch := by
    rcases hcases with ⟨rfl, hended | hnone⟩ | ⟨_, hnow, rfl⟩
    · rw [hended, hany hended]
    · rw [hnone, Bool.eq_false_iff]
      intro hended
      rw [hany hended] at hnone
      cases hnone
    · rw [hnow, Option.isSome_some]
  have hwhen : ∀ time count, ended = some (time, count) →
      s.record.ended = some (time, count) ∨
        s.record.ended = none ∧ time = s.clock ∧ count = s.buildLines.length := by
    intro time count hended
    rcases hcases with ⟨rfl, _⟩ | ⟨hnone, _, rfl⟩
    · exact .inl hended
    · cases hended
      exact .inr ⟨hnone, rfl, rfl⟩
  exact
    { keyed := DeployPipeline.wellKeyed_step h.keyed hstep
      lines := by rw [hlines]; exact h.lines
      positive := by rw [hlines]; exact h.positive
      oneOutcome := hone
      before := h.before
      known := h.known
      ended := by rw [hends]; exact hsome
      count := by
        intro time count hended
        rw [hlines]
        rcases hwhen time count hended with hbefore | ⟨_, _, rfl⟩
        · exact h.count time count hbefore
        · exact le_rfl
      read := by rw [hlines]; exact h.read
      printed := by rw [hlines]; exact h.printed
      listing := by
        intro hlisting
        refine ⟨(h.listing hlisting).1, ?_⟩
        intro time count hended
        rcases hwhen time count hended with hbefore | ⟨hnone, _, rfl⟩
        · exact (h.listing hlisting).2 time count hbefore
        · -- The job ends between the last page and the listing, so no line came in between.
          have hsame : s.buildLines.length = s.record.readLines := by
            simpa [show s.watcher.phase = .listing from hlisting, hnone,
              show ended = some (time, s.buildLines.length) from hended] using hreadToEnd
          rw [hsame]
          exact (h.listing hlisting).1.le
      settled := by
        intro ending hended
        rcases h.settled ending hended with ⟨htimed, hlate, htime⟩ | ⟨⟨row, hrow, htells⟩, hcount⟩
        · refine .inl ⟨htimed, hlate, ?_⟩
          intro time count hwas
          rcases hwhen time count hwas with hbefore | ⟨_, rfl, _⟩
          · exact htime time count hbefore
          · exact hlate
        · have hrowEnds := endsWatch_of_ownTells htells
          have hbefore : s.record.ended.isSome = true := by
            rw [h.ended]
            exact List.any_eq_true.mpr ⟨row, hrow, hrowEnds⟩
          refine .inr ⟨⟨row, hkept row hrow hrowEnds, ?_⟩, ?_⟩
          · obtain ⟨hrowProject, hown⟩ := htells
            exact ⟨hrowProject.trans hproject.symm, hown⟩
          · intro time count hwas
            rcases hwhen time count hwas with hsame | ⟨hnone, _, _⟩
            · exact hcount time count hsame
            · rw [hnone] at hbefore
              cases hbefore
      steps := by
        intro hnone
        rcases hcases with ⟨rfl, _⟩ | ⟨hbefore, _, _⟩
        · exact h.steps hnone
        · exact h.steps hbefore
      rank := by
        intro _
        rw [hlines]
        rcases hcases with ⟨rfl, _⟩ | ⟨hbefore, _, _⟩
        · exact h.rank ‹_›
        · have hrank := Phase.rank_le (s.buildLines.length - s.readCount) s.watcher.phase
          have hread := h.readCount_le
          have hsteps := h.steps hbefore
          have hsame : State.readCount { s with pipeline, record := { s.record with ended } } =
              s.readCount := rfl
          rw [hsame]
          dsimp only
          omega }

/-! ## The request of the deploy -/

/-- What a request of the CLI queues: an import under an id that nothing names. -/
structure Queued (s : State) (jobId : String) (pipeline : DeployPipeline.State) : Prop where
  projectId : pipeline.projectId = s.pipeline.projectId
  keyed : WellKeyed pipeline.workers.store
  jobs : ∃ row, pipeline.workers.store.jobs = s.jobs ++ [row] ∧ row.id = jobId ∧
    row.status = .queued ∧ row.type = some .importSource
  fresh : ∀ row ∈ s.jobs, row.id ≠ jobId ∧ parentJobId row.payload ≠ some jobId

theorem queued_of_queueImport {request : DeployPipeline.Request} {jobId : String} {now : ℤ}
    {pipeline : DeployPipeline.State} (hkeyed : WellKeyed s.pipeline.workers.store)
    (hchecked : request.isChecked = false) (himport : request.job.1 = .importSource)
    (h : s.queueImport request jobId now = some pipeline) : Queued s jobId pipeline := by
  unfold State.queueImport at h
  split at h
  · next hnamed =>
      obtain ⟨t, hbegin, hproceed⟩ := Option.bind_eq_some_iff.mp h
      have hkeyed' := DeployPipeline.wellKeyed_step hkeyed hbegin
      have hkeyed'' := DeployPipeline.wellKeyed_step hkeyed' hproceed
      simp only [DeployPipeline.step, DeployPipeline.beginRequest, hchecked] at hbegin hproceed
      split at hbegin
      · cases hbegin
        simp only [DeployPipeline.proceed, List.getElem?_concat_length, if_false,
          Bool.false_eq_true] at hproceed
        obtain ⟨u, hqueue, rfl⟩ := Option.map_eq_some_iff.mp hproceed
        obtain ⟨store, hstore, rfl⟩ := Option.map_eq_some_iff.mp hqueue
        obtain ⟨row, hjobs, hid, hstatus, htype, hfresh⟩ :=
          JobExecutions.insertJobRowTx_row (Outcome.toOption_eq_some.mp hstore)
        refine ⟨rfl, hkeyed'', ⟨row, hjobs, hid, hstatus, ?_⟩, ?_⟩
        · rw [htype, himport]
        · intro old hold
          exact ⟨hfresh old hold, of_decide_eq_true (List.all_eq_true.mp hnamed old hold)⟩
      · cases hbegin
  · cases h

/-- Before a job was queued for the deploy none has ended it. -/
theorem Watched.ended_eq_none (h : Watched s) (hbefore : s.watcher.phase.isBefore = true) :
    s.record.ended = none := by
  have hown := (h.before hbefore).1
  rw [← Option.not_isSome_iff_eq_none, h.ended, List.any_eq_true]
  rintro ⟨row, _, hends⟩
  simp [State.endsWatch, State.isOwnImport, State.isOwnBuild, hown] at hends

/-- The request is answered: the watcher goes on to a phase in which it has its job. -/
theorem Watched.queued (h : Watched s) (hbefore : s.watcher.phase.isBefore = true)
    {jobId importJobId : String} {pipeline : DeployPipeline.State} (hqueued : Queued s jobId pipeline)
    {phase : Phase} (hphase : phase = .finding ∨ phase = .starting ∧ importJobId = jobId) :
    Watched
      { s.advance { s.watcher with phase, importJobId } with
        pipeline
        record :=
          { (s.advance { s.watcher with phase, importJobId }).record with
            ownJobId := some jobId } } := by
  have hended := h.ended_eq_none hbefore
  obtain ⟨new, hjobs, hid, hstatus, htype⟩ := hqueued.jobs
  generalize hafter : ({ s.advance { s.watcher with phase, importJobId } with
        pipeline
        record :=
          { (s.advance { s.watcher with phase, importJobId }).record with
            ownJobId := some jobId } } : State) = t
  have hlines : t.buildLines = s.buildLines := by
    rw [← hafter]
    simp only [State.buildLines, State.scope, State.advance, hqueued.projectId]
  -- The new import is queued, and what was there before is not the deploy's.
  have hown : ∀ row ∈ t.jobs, t.isOwnBuild row = false ∧
      (t.isOwnImport row && row.status = .failed) = false := by
    intro row hrow
    have hmem : row ∈ pipeline.workers.store.jobs := by rwa [← hafter] at hrow
    have hrecord : t.record.ownJobId = some jobId := by rw [← hafter]
    rw [hjobs, List.mem_append, List.mem_singleton] at hmem
    rw [State.isOwnBuild, State.isOwnImport, hrecord]
    rcases hmem with hold | rfl
    · obtain ⟨hother, hparent⟩ := hqueued.fresh row hold
      simp [hparent, Ne.symm hother]
    · simp [htype, hstatus]
  have hends : t.jobs.any t.endsWatch = false := by
    rw [List.any_eq_false]
    intro row hrow
    rw [State.endsWatch, (hown row hrow).1, (hown row hrow).2]
    simp
  have hone : t.hasOneOutcome = true := by
    simp only [State.hasOneOutcome, List.all_eq_true]
    intro first hfirst second hsecond
    rw [(hown first hfirst).1, (hown first hfirst).2]
    rfl
  have hnotBefore : t.watcher.phase.isBefore = false := by
    rw [← hafter]
    rcases hphase with rfl | ⟨rfl, _⟩ <;> rfl
  have hnotEnded : ∀ ending, t.watcher.phase ≠ .ended ending := by
    intro ending hwas
    rw [← hafter] at hwas
    rcases hphase with rfl | ⟨rfl, _⟩ <;> cases hwas
  have hnone : t.record.ended = none := by
    rw [← hafter]
    exact hended
  exact
    { keyed := by rw [← hafter]; exact hqueued.keyed
      lines := by rw [hlines]; exact h.lines
      positive := by rw [hlines]; exact h.positive
      oneOutcome := hone
      before := by
        intro hphase
        rw [hnotBefore] at hphase
        cases hphase
      known := by
        rw [← hafter]
        intro hwatching
        rcases hphase with rfl | ⟨rfl, rfl⟩
        · cases hwatching
        · rfl
      ended := by rw [hends, hnone]; rfl
      count := by
        intro time count hwas
        rw [hnone] at hwas
        cases hwas
      read := by rw [hlines, ← hafter]; exact h.read
      printed := by rw [hlines, ← hafter]; exact h.printed
      listing := by
        rw [← hafter]
        intro hlisting
        rcases hphase with rfl | ⟨rfl, _⟩ <;> cases hlisting
      settled := by
        intro ending hphase
        exact absurd hphase (hnotEnded ending)
      steps := by
        intro _
        rw [← hafter]
        simp [State.advance, hended]
      rank := by
        intro hsome
        rw [hnone] at hsome
        cases hsome }

/-! ## Steps of the watcher -/

theorem stepsSince_advance (s : State) (watcher : Watcher) :
    (s.advance watcher).record.stepsSince ≤ s.record.stepsSince + 1 := by
  rw [State.advance]
  dsimp only
  split <;> omega

theorem Watched.watermark (h : Watched s) (hphase : s.watcher.phase = .watermark)
    (hstep : watermark s = some t) : Watched t := by
  have hbefore := h.before (by rw [hphase]; rfl)
  have hnone := h.ended_eq_none (by rw [hphase]; rfl)
  simp only [DeployWatcher.watermark, listLogsPage] at hstep
  cases hstep
  have hread := readUpTo_pageBefore h.lines h.positive (pageLimit_pos 1)
  exact
    { keyed := h.keyed
      lines := h.lines
      positive := h.positive
      oneOutcome := h.oneOutcome
      before := fun _ => hbefore
      known := fun hwatching => by cases hwatching
      ended := h.ended
      count := h.count
      read := by
        simp only [State.readCount, State.advance, hbefore.2]
        exact hread
      printed := by
        simp only [State.advance, hbefore.2]
        rfl
      listing := fun hlisting => by cases hlisting
      settled := fun ending hended => by cases hended
      steps := fun _ => by simp [State.advance, hnone]
      rank := fun hended => by simp [State.advance, hnone] at hended }

/-- A step of the watcher that reads no lines. -/
theorem Watched.move (h : Watched s) {watcher : Watcher}
    (hsame : watcher.printed = s.watcher.printed ∧ watcher.logCursor = s.watcher.logCursor)
    (hphase : watcher.phase.isBefore = false ∧ watcher.phase ≠ .listing)
    (hknown : watcher.phase.isWatching = true → s.record.ownJobId = some watcher.importJobId)
    (hsettled : ∀ ending, watcher.phase = .ended ending → (s.advance watcher).Settled ending)
    (hrank : s.record.ended.isSome = true →
      watcher.phase.rank (s.buildLines.length - s.readCount) + 1 ≤
        s.watcher.phase.rank (s.buildLines.length - s.readCount)) :
    Watched (s.advance watcher) := by
  have hcount : (s.advance watcher).readCount = s.readCount := by
    rw [State.readCount, State.readCount, State.advance, hsame.1]
  exact
    { keyed := h.keyed
      lines := h.lines
      positive := h.positive
      oneOutcome := h.oneOutcome
      before := fun hbefore => by rw [State.advance, hphase.1] at hbefore; cases hbefore
      known := hknown
      ended := h.ended
      count := h.count
      read := by
        rw [hcount, State.advance, hsame.2]
        exact h.read
      printed := by
        rw [State.advance, hsame.1]
        exact h.printed
      listing := fun hlisting => absurd hlisting hphase.2
      settled := hsettled
      steps := fun hnone => by
        have hbefore : s.record.ended = none := hnone
        simp [State.advance, hbefore]
      rank := fun hended => by
        have hsteps := stepsSince_advance s watcher
        have hold := h.rank hended
        have hnew := hrank hended
        rw [hcount]
        change _ + watcher.phase.rank (s.buildLines.length - s.readCount) ≤ s.buildLines.length + 5
        omega }

theorem Watched.start (h : Watched s) (hphase : s.watcher.phase = .starting) :
    Watched (s.advance
      { s.watcher with phase := .checking, deadline := s.clock + DEPLOY_TIMEOUT_MS }) := by
  apply h.move
  · exact ⟨rfl, rfl⟩
  · exact ⟨rfl, by simp⟩
  · intro _
    exact h.known (by rw [hphase]; rfl)
  · intro ending hended
    cases hended
  · intro _
    rw [hphase]
    simp only [Phase.rank]
    omega

/-- The deadline has passed only if the job has not ended before it. -/
theorem Watched.check (h : Watched s) (hphase : s.watcher.phase = .checking)
    (hinTime : s.clock < s.watcher.deadline ∨
      ∀ time count, s.record.ended = some (time, count) → s.watcher.deadline ≤ time) :
    Watched (check s) := by
  rw [DeployWatcher.check]
  split
  · next hlate =>
      apply h.move
      · exact ⟨rfl, rfl⟩
      · exact ⟨rfl, by simp⟩
      · intro hwatching
        cases hwatching
      · intro ending hended
        cases hended
        refine .inl ⟨rfl, hlate, ?_⟩
        rcases hinTime with hearly | htime
        · exact absurd hlate (not_le.mpr hearly)
        · exact htime
      · intro _
        rw [hphase]
        simp only [Phase.rank]
        omega
  · apply h.move
    · exact ⟨rfl, rfl⟩
    · exact ⟨rfl, by simp⟩
    · intro _
      exact h.known (by rw [hphase]; rfl)
    · intro ending hended
      cases hended
    · intro _
      rw [hphase]
      simp only [Phase.rank]
      omega

/-- The lines of a page were printed: it was the last one, or the next one is read. -/
theorem Watched.print (h : Watched s) (hreading : s.watcher.phase = .reading) {watcher : Watcher}
    {count : ℕ} (hlength : watcher.printed.length = s.watcher.printed.length + count)
    (hphase : watcher.phase = .listing ∧ s.buildLines.length = s.readCount + count ∨
      watcher.phase = .reading ∧ 0 < count)
    (hown : s.record.ownJobId = some watcher.importJobId)
    (hread : ReadUpTo s.buildLines (s.readCount + count) (watcher.logCursor.getD 0))
    (hprinted : watcher.printed = ((s.buildLines.drop s.record.startLines).take
      watcher.printed.length).map fun row => "  " ++ row.line) :
    Watched { s.advance watcher with
      record := { (s.advance watcher).record with readLines := s.buildLines.length } } := by
  have hcount : (s.advance watcher).readCount = s.readCount + count := by
    simp only [State.readCount, State.advance, hlength]
    omega
  have hunread := hread.count_le
  exact
    { keyed := h.keyed
      lines := h.lines
      positive := h.positive
      oneOutcome := h.oneOutcome
      before := by
        intro hbefore
        dsimp only [State.advance] at hbefore
        rcases hphase with ⟨hphase, _⟩ | ⟨hphase, _⟩ <;> rw [hphase] at hbefore <;> cases hbefore
      known := fun _ => hown
      ended := h.ended
      count := h.count
      read := by
        change ReadUpTo s.buildLines (s.advance watcher).readCount _
        rw [hcount]
        exact hread
      printed := hprinted
      listing := by
        intro hlisting
        rcases hphase with ⟨_, hall⟩ | ⟨hagain, _⟩
        · change s.buildLines.length = (s.advance watcher).readCount ∧
            ∀ time count, s.record.ended = some (time, count) →
              count ≤ (s.advance watcher).readCount
          rw [hcount, ← hall]
          exact ⟨rfl, h.count⟩
        · cases hagain.symm.trans hlisting
      settled := by
        intro ending hended
        dsimp only [State.advance] at hended
        rcases hphase with ⟨hphase, _⟩ | ⟨hphase, _⟩ <;> cases hphase.symm.trans hended
      steps := by
        intro hnone
        have hbefore : s.record.ended = none := hnone
        simp [State.advance, hbefore]
      rank := by
        intro hended
        have hold := h.rank hended
        have hsteps := stepsSince_advance s watcher
        have hlower : watcher.phase.rank (s.buildLines.length - (s.readCount + count)) + 1 ≤
            s.watcher.phase.rank (s.buildLines.length - s.readCount) := by
          rw [hreading]
          rcases hphase with ⟨hphase, _⟩ | ⟨hphase, _⟩ <;> rw [hphase] <;>
            simp only [Phase.rank] <;> omega
        change (s.advance watcher).record.stepsSince + watcher.phase.rank
          (s.buildLines.length - (s.advance watcher).readCount) ≤ s.buildLines.length + 5
        rw [hcount]
        omega }

theorem Watched.readPage (h : Watched s) (hphase : s.watcher.phase = .reading)
    (hstep : DeployWatcher.read s = some t) : Watched t := by
  have hown := h.known (by rw [hphase]; rfl)
  have hlimit : pageLimit 500 = 500 := rfl
  have hlines : s.logs.filter (logScope s.scope) = s.buildLines := rfl
  simp only [DeployWatcher.read, listLogsPage, hlines, hlimit, h.read.pageAfter_eq h.lines,
    Option.some.injEq] at hstep
  have hafter := h.read.afterPage h.lines 500
  generalize hrows : (s.buildLines.drop s.readCount).take 500 = rows at hstep hafter
  have hlength : rows.length = min 500 (s.buildLines.length - s.readCount) := by
    rw [← hrows, List.length_take, List.length_drop]
  have hrest : (s.buildLines.drop (s.record.startLines + s.watcher.printed.length)).take
      rows.length = rows := by
    rw [← State.readCount, ← hrows, List.length_take, List.take_eq_take_iff]
    omega
  have hprinted : (s.watcher.printed ++ rows.map fun row => "  " ++ row.line) =
      ((s.buildLines.drop s.record.startLines).take (s.watcher.printed.length + rows.length)).map
        fun row => "  " ++ row.line := by
    rw [List.take_add, List.map_append, ← h.printed, List.drop_drop, hrest]
  have hread := h.readCount_le
  rw [List.length_map, List.map_map] at hstep
  rw [← hstep]
  apply h.print hphase
  · rw [List.length_append, List.length_map]
  · dsimp only
    by_cases hshort : rows.length < 500
    · refine .inl ⟨if_pos hshort, ?_⟩
      omega
    · refine .inr ⟨if_neg hshort, ?_⟩
      omega
  · exact hown
  · exact hafter
  · rw [List.length_append, List.length_map]
    exact hprinted

theorem own_of_isOwnImport {row : JobRow} (h : s.isOwnImport row = true) :
    row.projectId = s.pipeline.projectId ∧ s.record.ownJobId = some row.id := by
  rw [State.isOwnImport, Bool.and_eq_true, decide_eq_true_eq, decide_eq_true_eq] at h
  exact h

/-- Where every job of the project decodes, the newest ones are answered. -/
theorem fetchJobs_of_decodes (h : s.decodes = true) (tie : String → ℕ) :
    fetchJobs s.pipeline.workers.store s.pipeline.projectId tie =
      some ((listProjectJobs s.pipeline.workers.store s.pipeline.projectId 50 tie).map
        toPublicJob) := by
  rw [fetchJobs, if_pos]
  rw [List.all_eq_true]
  intro row hrow
  obtain ⟨hmem, hproject⟩ := mem_of_mem_listProjectJobs hrow
  have hdecodes := List.all_eq_true.mp h row hmem
  simpa [hproject] using hdecodes

/-- A job of the project that is new enough is listed. -/
theorem mem_listing_of_isNew {row : JobRow} (hmem : row ∈ s.jobs)
    (hproject : row.projectId = s.pipeline.projectId) (hnew : s.isNew row = true)
    (tie : String → ℕ) :
    row ∈ listProjectJobs s.pipeline.workers.store s.pipeline.projectId 50 tie := by
  apply mem_listProjectJobs hmem hproject
  rw [State.isNew, decide_eq_true_eq] at hnew
  exact hnew

/-- The last import of a listing is the deploy's, if that is listed and older than the others. -/
theorem getLast?_imports (hkeyed : WellKeyed s.pipeline.workers.store) {row : JobRow}
    (hmem : row ∈ s.jobs) (holdest : s.isOldestImport row = true) (tie : String → ℕ) :
    (((listProjectJobs s.pipeline.workers.store s.pipeline.projectId 50 tie).map
      toPublicJob).filter fun job => job.type = some .importSource).getLast? =
        some (toPublicJob row) := by
  simp only [State.isOldestImport, Bool.and_eq_true, decide_eq_true_eq, List.all_eq_true,
    Bool.or_eq_true] at holdest
  obtain ⟨⟨⟨hown, htype⟩, hnew⟩, holder⟩ := holdest
  have hlisted := mem_listing_of_isNew hmem (own_of_isOwnImport hown).1 hnew tie
  have hpairwise : (listProjectJobs s.pipeline.workers.store s.pipeline.projectId 50
      tie).Pairwise (newestFirst tie) := pairwise_listProjectJobs
  have hrow : row ∈ (listProjectJobs s.pipeline.workers.store s.pipeline.projectId 50 tie).filter
      fun other => other.type = some .importSource :=
    List.mem_filter.mpr ⟨hlisted, by simpa using htype⟩
  rw [List.filter_map, List.getLast?_map]
  change Option.map toPublicJob ((listProjectJobs s.pipeline.workers.store s.pipeline.projectId 50
    tie).filter fun other => other.type = some .importSource).getLast? = _
  rw [Option.map_eq_some_iff]
  refine ⟨row, ?_, rfl⟩
  cases hlast : ((listProjectJobs s.pipeline.workers.store s.pipeline.projectId 50 tie).filter
      fun other => other.type = some .importSource).getLast? with
  | none =>
      rw [List.getLast?_eq_none_iff] at hlast
      rw [hlast] at hrow
      cases hrow
  | some last =>
      obtain ⟨newer, hsplit⟩ := List.getLast?_eq_some_iff.mp hlast
      obtain ⟨hlastListed, hlastType⟩ := List.mem_filter.mp (List.mem_of_getLast? hlast)
      obtain ⟨hlastMem, hlastProject⟩ := mem_of_mem_listProjectJobs hlastListed
      rw [hsplit, List.mem_append, List.mem_singleton] at hrow
      rcases hrow with hrow | rfl
      · have hordered := hpairwise.filter fun other => other.type = some .importSource
        rw [hsplit, List.pairwise_append] at hordered
        have hle := hordered.2.2 row hrow last (List.mem_singleton.mpr rfl)
        rcases holder last hlastMem with ((hother | hother) | hid) | hlater
        · exact absurd hlastProject hother
        · exact absurd (of_decide_eq_true hlastType) hother
        · rw [hkeyed.eq hlastMem hmem hid]
        · unfold newestFirst at hle
          omega
      · rfl

theorem Watched.find (h : Watched s) (hphase : s.watcher.phase = .finding)
    (hdecodes : s.decodes = true) (holdest : s.jobs.any s.isOldestImport = true)
    (tie : String → ℕ) : Watched (find s tie) := by
  obtain ⟨row, hmem, holdest⟩ := List.any_eq_true.mp holdest
  have hown : s.isOwnImport row = true := by
    simp only [State.isOldestImport, Bool.and_eq_true] at holdest
    exact holdest.1.1.1
  simp only [DeployWatcher.find, fetchJobs_of_decodes hdecodes,
    getLast?_imports h.keyed hmem holdest]
  apply h.move
  · exact ⟨rfl, rfl⟩
  · exact ⟨rfl, by simp⟩
  · intro _
    exact (own_of_isOwnImport hown).2
  · intro ending hended
    cases hended
  · intro _
    rw [hphase]
    simp only [Phase.rank]
    omega

/-- A listing that holds the job that has ended is judged. -/
theorem judge_ne_none (h : Watched s) {importJobId : String}
    (hknown : s.record.ownJobId = some importJobId) {rows : List JobRow}
    (hrows : ∀ row ∈ rows, row ∈ s.jobs ∧ row.projectId = s.pipeline.projectId) {row : JobRow}
    (hrow : row ∈ rows) (hends : s.endsWatch row = true) :
    judge importJobId (rows.map toPublicJob) ≠ none := by
  have hunique : ∀ first ∈ rows, ∀ second ∈ rows, first.id = second.id → first = second := by
    intro first hfirst second hsecond hid
    exact h.keyed.eq (hrows first hfirst).1 (hrows second hsecond).1 hid
  have hended := hasEnded_of_endsWatch hends
  rw [State.endsWatch, Bool.or_eq_true, Bool.and_eq_true, Bool.and_eq_true] at hends
  rcases hends with ⟨hown, hfailed⟩ | ⟨hown, _⟩
  · have hid : row.id = importJobId := by
      rw [← Option.some.injEq, ← (own_of_isOwnImport hown).2, hknown]
    exact judge_ne_none_of_import hrow (fun other hother => hunique other hother row hrow) hid
      (of_decide_eq_true hfailed)
  · have hchained : ∀ other ∈ rows, isChained importJobId other = s.isOwnBuild other := by
      intro other hother
      simp [isChained, State.isOwnBuild, (hrows other hother).2, hknown]
    apply judge_ne_none_of_build hrow _ (by rw [hchained row hrow, hown]) hended
    intro other hother hother'
    rw [hchained other hother] at hother'
    apply hunique other hother row hrow
    have hone := h.oneOutcome
    simp only [State.hasOneOutcome, List.all_eq_true] at hone
    have hpair := hone other (hrows other hother).1 row (hrows row hrow).1
    rw [hown, hother'] at hpair
    simpa using (Bool.and_eq_true_iff.mp hpair).1

theorem Watched.list (h : Watched s) (hphase : s.watcher.phase = .listing)
    (hdecodes : s.decodes = true)
    (hnew : ∀ row ∈ s.jobs, s.endsWatch row = true → s.isNew row = true) (tie : String → ℕ) :
    Watched (list s tie) := by
  have hknown := h.known (by rw [hphase]; rfl)
  simp only [DeployWatcher.list, fetchJobs_of_decodes hdecodes]
  split
  · next ending hjudged =>
      apply h.move
      · exact ⟨rfl, rfl⟩
      · exact ⟨rfl, by simp⟩
      · intro hwatching
        cases hwatching
      · intro reported hended
        cases hended
        obtain ⟨row, hrow, htells⟩ := exists_tells_of_judge hjudged
        obtain ⟨hmem, hproject⟩ := mem_of_mem_listProjectJobs hrow
        exact .inr ⟨⟨row, hmem, hproject, _, hknown, htells⟩, (h.listing hphase).2⟩
      · intro _
        rw [hphase]
        exact le_rfl
  · next hnone =>
      apply h.move
      · exact ⟨rfl, rfl⟩
      · exact ⟨rfl, by simp⟩
      · intro _
        exact hknown
      · intro ending hended
        cases hended
      · intro hended
        rw [h.ended, List.any_eq_true] at hended
        obtain ⟨row, hmem, hends⟩ := hended
        have hproject : row.projectId = s.pipeline.projectId := by
          simp only [State.endsWatch, State.isOwnImport, State.isOwnBuild, Bool.or_eq_true,
            Bool.and_eq_true, decide_eq_true_eq] at hends
          rcases hends with hends | hends
          · exact hends.1.1
          · exact hends.1.1.1
        exact absurd hnone (judge_ne_none h hknown (fun _ => mem_of_mem_listProjectJobs)
          (mem_listing_of_isNew hmem hproject (hnew row hmem hends) tie) hends)

/-! ## Runs -/

/-- A step that nothing disturbs. -/
theorem watched_step {action : Action} (h : Watched s) (hundisturbed : isUndisturbed s action = true)
    (hstep : step s action = some t) : Watched t := by
  cases action with
  | work action =>
      simp only [step] at hstep
      split at hstep
      · cases hstep
      · obtain ⟨pipeline, hpipeline, rfl⟩ := Option.map_eq_some_iff.mp hstep
        simp only [isUndisturbed, hpipeline, Bool.and_eq_true] at hundisturbed
        exact h.work hpipeline hundisturbed.1.1 hundisturbed.1.2 hundisturbed.2
  | append row =>
      simp only [step] at hstep
      split at hstep
      · cases hstep
      · split at hstep
        · next hlast =>
            cases hstep
            exact h.append hlast.1 hlast.2
        · cases hstep
  | tick now =>
      simp only [step] at hstep
      split at hstep
      · next hnow =>
          cases hstep
          exact watched_tick h hnow
      · cases hstep
  | watermark =>
      simp only [step] at hstep
      split at hstep
      · next hphase => exact h.watermark hphase hstep
      · cases hstep
  | submit sourcePath promote details jobId now =>
      simp only [step] at hstep
      split at hstep
      · next hphase =>
          obtain ⟨pipeline, hqueue, rfl⟩ := Option.map_eq_some_iff.mp hstep
          exact h.queued (by rw [hphase]; rfl) (queued_of_queueImport h.keyed rfl rfl hqueue)
            (.inr ⟨rfl, rfl⟩)
      · cases hstep
  | create sourcePath promote details jobId now =>
      simp only [step] at hstep
      split at hstep
      · next hphase =>
          obtain ⟨pipeline, hqueue, rfl⟩ := Option.map_eq_some_iff.mp hstep
          exact h.queued (by rw [hphase]; rfl) (queued_of_queueImport h.keyed rfl rfl hqueue)
            (.inl rfl)
      · cases hstep
  | find tie =>
      simp only [step] at hstep
      split at hstep
      · next hphase =>
          cases hstep
          rw [isUndisturbed, Bool.and_eq_true] at hundisturbed
          exact h.find hphase hundisturbed.1 hundisturbed.2 tie
      · cases hstep
  | start =>
      simp only [step] at hstep
      split at hstep
      · next hphase =>
          cases hstep
          exact h.start hphase
      · cases hstep
  | check =>
      simp only [step] at hstep
      split at hstep
      · next hphase =>
          cases hstep
          apply h.check hphase
          rw [isUndisturbed, Bool.or_eq_true, decide_eq_true_eq] at hundisturbed
          refine hundisturbed.imp_right fun htime time count hended => ?_
          rw [hended] at htime
          exact of_decide_eq_true htime
      · cases hstep
  | read =>
      simp only [step] at hstep
      split at hstep
      · next hphase => exact h.readPage hphase hstep
      · cases hstep
  | list tie =>
      simp only [step] at hstep
      split at hstep
      · next hphase =>
          cases hstep
          rw [isUndisturbed, Bool.and_eq_true, List.all_eq_true] at hundisturbed
          refine h.list hphase hundisturbed.1 (fun row hrow hends => ?_) tie
          have hnew := hundisturbed.2 row hrow
          rwa [hends] at hnew
      · cases hstep

/-- What a row says is its judgement. -/
theorem Tells.judged {importJobId : String} {row : JobRow} {ending : Ending}
    (h : Tells importJobId row ending) :
    row.id = importJobId ∧ row.status = .failed ∧ judgeImport (toPublicJob row) = some ending ∨
      isChained importJobId row = true ∧ judgeBuild (toPublicJob row) = some ending := by
  cases h with
  | importFailed hid hstatus => exact .inl ⟨hid, hstatus, if_pos hstatus⟩
  | buildFailed hchained hstatus => exact .inr ⟨hchained, if_pos hstatus⟩
  | completed hchained hstatus hdeployment hne =>
      refine .inr ⟨hchained, ?_⟩
      simp [judgeBuild, toPublicJob, hstatus, hdeployment, hne]
  | unrecorded hchained hstatus hdeployment =>
      refine .inr ⟨hchained, ?_⟩
      cases hnamed : stringField row.payload "deploymentId" with
      | none => simp [judgeBuild, toPublicJob, hstatus, hnamed]
      | some deploymentId =>
          simp [judgeBuild, toPublicJob, hstatus, hnamed, hdeployment deploymentId hnamed]

theorem State.OwnTells.judged {row : JobRow} {ending : Ending} (h : s.OwnTells row ending) :
    s.isOwnImport row = true ∧ row.status = .failed ∧
        judgeImport (toPublicJob row) = some ending ∨
      s.isOwnBuild row = true ∧ judgeBuild (toPublicJob row) = some ending := by
  obtain ⟨hproject, importJobId, hown, htells⟩ := h
  rcases htells.judged with ⟨hid, hjudged⟩ | ⟨hchained, hjudged⟩
  · refine .inl ⟨?_, hjudged⟩
    simp [State.isOwnImport, hproject, hown, hid]
  · refine .inr ⟨?_, hjudged⟩
    rw [isChained, Bool.and_eq_true] at hchained
    rw [State.isOwnBuild, hown, hchained.1, Option.any_some, hchained.2]
    simp [hproject]

/-- The watcher's job says one thing only. -/
theorem Watched.ownTells_unique (h : Watched s) {row other : JobRow} {first second : Ending}
    (hrow : row ∈ s.jobs) (hother : other ∈ s.jobs) (hfirst : s.OwnTells row first)
    (hsecond : s.OwnTells other second) : first = second := by
  have hone := h.oneOutcome
  simp only [State.hasOneOutcome, List.all_eq_true] at hone
  rcases hfirst.judged with ⟨himport, hfailed, hjudged⟩ | ⟨hbuild, hjudged⟩
  · rcases hsecond.judged with ⟨himport', _, hjudged'⟩ | ⟨hbuild', _⟩
    · have hid : row.id = other.id := by
        rw [← Option.some.injEq, ← (own_of_isOwnImport himport).2, (own_of_isOwnImport himport').2]
      rw [h.keyed.eq hrow hother hid] at hjudged
      exact Option.some.inj (hjudged.symm.trans hjudged')
    · have hpair := hone row hrow other hother
      simp [himport, hfailed, hbuild'] at hpair
  · rcases hsecond.judged with ⟨himport', hfailed', _⟩ | ⟨hbuild', hjudged'⟩
    · have hpair := hone other hother row hrow
      simp [himport', hfailed', hbuild] at hpair
    · have hpair := hone row hrow other hother
      rw [hbuild, hbuild', Bool.and_eq_true] at hpair
      have hid : row.id = other.id := by simpa using hpair.1
      rw [h.keyed.eq hrow hother hid] at hjudged
      exact Option.some.inj (hjudged.symm.trans hjudged')

theorem Watched.watchesOwnBuild (h : Watched s) : WatchesOwnBuild s where
  reported ending hended huntimed := by
    rcases h.settled ending hended with ⟨htimed, _⟩ | ⟨hreported, _⟩
    · exact absurd htimed huntimed
    · exact hreported
  inTime reported hended time count hwas hearly row hrow ending htells := by
    rcases h.settled reported hended with ⟨_, _, hlate⟩ | ⟨⟨other, hother, hreported⟩, _⟩
    · exact absurd (hlate time count hwas) (not_le.mpr hearly)
    · exact h.ownTells_unique hother hrow hreported htells
  printed := by
    refine ⟨s.watcher.printed.length, h.printed, ?_⟩
    intro ending hended huntimed time count hwas
    rcases h.settled ending hended with ⟨htimed, _⟩ | ⟨_, hcount⟩
    · exact absurd htimed huntimed
    · exact hcount time count hwas
  ends hended := .inr (Nat.le_of_add_right_le (h.rank hended))

/-- **The watcher reports its own build and all of its log**, in every run that nothing disturbs. -/
theorem watchesOwnBuild_of_undisturbed {actions : List Action} (hinit : machine.init s)
    (hundisturbed : machine.Meets (fun s action => isUndisturbed s action = true) s actions)
    (hrun : machine.exec s actions = some t) : WatchesOwnBuild t :=
  (machine.exec_invariant (fun _ _ _ => watched_step) (watched_of_initial hinit) hundisturbed
    hrun).watchesOwnBuild

end

/-! ## Two deploys -/

section

open DeployPipeline (runImport claimNext completeExecution)

def buildLine (seq : ℤ) (line : String) : LogRow :=
  { id := line, projectId := "project", deploymentId := none, type := .build, line, seq
    createdAt := 0 }

/-- A deploy to a project that exists, with a line of an earlier build. -/
def existingProject : State where
  pipeline := DeployPipeline.emptyProject
  logs := [buildLine 1 "Building."]
  clock := 0
  watcher := ⟨.watermark, none, "", 0, []⟩
  record := ⟨none, 0, 0, none, 0⟩

theorem existingProject_initial : Initial existingProject where
  keyed := List.Pairwise.nil
  lines := List.pairwise_singleton _ _
  positive row hrow := by
    rw [List.mem_singleton.mp hrow]
    decide
  phase := .inl rfl
  cursor := rfl
  printed := rfl
  record := rfl

/-- The upload, and its import. -/
def uploadAndImport : List Action :=
  [.watermark, .submit "/source.zip" true [] "import" 1, .start] ++
    (runImport 0 "revision" "build" 2).map .work

/-- The build up to its last line. -/
def buildToLastLine : List Action :=
  [claimNext 3, .handle 1 "" 3, .handle 1 "deployment" 3, .handle 1 "" 3, .handle 1 "" 3].map
      .work ++
    [.append (buildLine 2 "Recorded the release summary from eve's discovery manifest (v1).")]

/-- A poll; the order of jobs of one instant does not matter here. -/
def poll : List Action := [.check, .read, .list fun _ => 0]

/-- The build runs between two polls. -/
def undisturbedDeploy : List Action :=
  uploadAndImport ++ poll ++ buildToLastLine ++ (completeExecution 1 3).map .work ++ poll

theorem watchesOwnBuild_undisturbedDeploy :
    ∃ t, machine.exec existingProject undisturbedDeploy = some t ∧
      t.watcher.phase = .ended (.returned "deployment") ∧ WatchesOwnBuild t := by
  have hrun : (machine.exec existingProject undisturbedDeploy).isSome = true := by decide +kernel
  have hended : ∀ t ∈ machine.exec existingProject undisturbedDeploy,
      t.watcher.phase = .ended (.returned "deployment") := by decide +kernel
  have hundisturbed : machine.Meets (fun s action => isUndisturbed s action = true)
      existingProject undisturbedDeploy := by decide +kernel
  obtain ⟨t, ht⟩ := Option.isSome_iff_exists.mp hrun
  exact ⟨t, ht, hended t ht, watchesOwnBuild_of_undisturbed existingProject_initial hundisturbed ht⟩

/-- The build ends, with its last line, between the page and the listing of one poll. -/
def buildInsidePoll : List Action :=
  uploadAndImport ++ [.check, .read] ++ buildToLastLine ++ (completeExecution 1 3).map .work ++
    [.list fun _ => 0]

theorem last_line_unprinted :
    ∃ t, machine.init existingProject ∧ machine.exec existingProject buildInsidePoll = some t ∧
      t.watcher.phase = .ended (.returned "deployment") ∧ t.watcher.printed = [] ∧
      t.record.ended = some (0, 2) ∧ ¬ WatchesOwnBuild t := by
  have hrun : (machine.exec existingProject buildInsidePoll).isSome = true := by decide +kernel
  have hended : ∀ t ∈ machine.exec existingProject buildInsidePoll,
      t.watcher.phase = .ended (.returned "deployment") ∧ t.watcher.printed = [] ∧
        t.record.ended = some (0, 2) ∧ t.record.startLines = 1 ∧ t.buildLines.length = 2 := by
    decide +kernel
  obtain ⟨t, ht⟩ := Option.isSome_iff_exists.mp hrun
  obtain ⟨hphase, hprinted, hwas, hstart, hlines⟩ := hended t ht
  refine ⟨t, existingProject_initial, ht, hphase, hprinted, hwas, ?_⟩
  intro hwatches
  obtain ⟨n, hall, hcount⟩ := hwatches.printed
  have hle := hcount _ hphase (by simp) 0 2 hwas
  have hlength := congrArg List.length hall
  rw [hprinted, List.length_map, List.length_take, List.length_drop, hstart, hlines,
    List.length_nil] at hlength
  omega

end

end Eveland.DeployWatcher
