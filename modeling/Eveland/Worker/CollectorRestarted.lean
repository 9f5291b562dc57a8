/-
# The Collector runs what it is recorded to run

As long as a run does not find its own configuration in place where a run was cut short, the
revision is applied only after a restart on its file. A run that fails has put back what it found.
-/

import Eveland.Worker.CollectorReconciler

namespace Eveland.CollectorReconciler

variable {render : Policy → Option String} {s t : State}

/-! ## The invariant -/

/-- The policy that a run is for, with its configuration. -/
def Phase.goal : Phase → Option (Policy × String)
  | .idle | .readPolicy => none
  | .readFile policy config => some (policy, config)
  | .makeDirectory run | .removeCandidate run | .writeCandidate run | .validateConfig run
  | .rename run | .restartCollector run | .removeFile run | .writeRollback run _
  | .renameRollback run _ | .restartAgain run | .finish run _ => some (run.policy, run.config)

/-- A run is for a policy that is stored, or has been, and is ahead of the one applied. -/
structure State.GoesFor (render : Policy → Option String) (s : State) (policy : Policy)
    (config : String) : Prop where
  rendered : render policy = some config
  ahead : ∀ applied, s.appliedRevision = some applied → applied < policy.revision
  le : policy.revision ≤ s.policy.revision
  stored : policy.revision = s.policy.revision → policy = s.policy

/-- What is known of a file that is in place while nothing is being installed. -/
def State.Settled (s : State) : Prop :=
  s.files.collector ≠ none → (s.events.getLast? = some .restarted ↔ s.cutShort = false)

/-- A file has been put in place, and nothing done to the Collector since. -/
def State.JustPut (s : State) : Prop := ∃ config, s.events.getLast? = some (.put config)

/-- What holds of the files while a run awaits a call. -/
def Phase.Fits (s : State) : Phase → Prop
  | .idle => s.Settled
  | .readPolicy | .readFile _ _ => s.Settled ∧ s.before = s.files.collector
  | .makeDirectory run | .removeCandidate run | .writeCandidate run =>
      s.Settled ∧ s.before = s.files.collector ∧ run.previous = s.before
  | .validateConfig run | .rename run =>
      s.Settled ∧ s.before = s.files.collector ∧ run.previous = s.before ∧
        s.files.candidate = some run.config
  | .restartCollector run =>
      s.JustPut ∧ s.files.collector = some run.config ∧ run.previous = s.before
  | .removeFile _ => s.JustPut ∧ s.before = none
  | .writeRollback _ previous => s.JustPut ∧ s.before = some previous
  | .renameRollback _ previous =>
      s.JustPut ∧ s.before = some previous ∧ s.files.rollback = some previous
  | .restartAgain _ => s.JustPut ∧ s.files.collector = s.before
  | .finish run failed =>
      s.Settled ∧
        (failed = true → s.files.collector = s.before) ∧
        (failed = false → s.files.collector = some run.config ∧
          s.events.getLast? = some .restarted)

/-- The invariant of every run. -/
structure Consistent (render : Policy → Option String) (s : State) : Prop where
  le : ∀ applied, s.appliedRevision = some applied → applied ≤ s.policy.revision
  goal : ∀ policy config, s.phase.goal = some (policy, config) → s.GoesFor render policy config
  fits : s.phase.Fits s
  kept : ∀ outcome ∈ s.outcomes, outcome.failed = true → outcome.after = outcome.before

theorem State.JustPut.not_restarted (h : s.JustPut) : s.events.getLast? ≠ some .restarted := by
  obtain ⟨config, hput⟩ := h
  rw [hput]
  simp

/-- Where the last thing done is a put, a file that is in place is one that was cut short. -/
theorem State.JustPut.settled (h : s.JustPut) (hevents : t.events = s.events)
    (hcut : t.cutShort = true) : t.Settled := by
  intro _
  rw [hevents, hcut]
  simp [h.not_restarted]

/-- A restart that succeeds settles the file. -/
theorem settled_restarted (phase : Phase) : (s.restarted phase).Settled := by
  intro _
  simp [State.restarted]

theorem justPut_putFile (files : Files) (config : String) (phase : Phase) :
    (s.putFile files config phase).JustPut :=
  ⟨config, by simp [State.putFile]⟩

/-- While a file is being installed, the last thing done is a put. -/
theorem Phase.Fits.justPut {phase : Phase} (h : phase.Fits s)
    (hinstalling : phase.isInstalling = true) : s.JustPut := by
  cases phase with
  | restartCollector | removeFile | writeRollback | renameRollback | restartAgain => exact h.1
  | _ => cases hinstalling

/-- While none is, the file in place is settled. -/
theorem Phase.Fits.settled {phase : Phase} (h : phase.Fits s)
    (hinstalling : phase.isInstalling = false) : s.Settled := by
  cases phase with
  | idle => exact h
  | restartCollector | removeFile | writeRollback | renameRollback | restartAgain =>
      cases hinstalling
  | _ => exact h.1

theorem Phase.Fits.congr {phase : Phase} (h : phase.Fits s) (hfiles : t.files = s.files)
    (hbefore : t.before = s.before) (hevents : t.events = s.events)
    (hcut : t.cutShort = s.cutShort) : phase.Fits t := by
  cases phase <;> simpa only [Phase.Fits, State.Settled, State.JustPut, hfiles, hbefore, hevents,
    hcut] using h

theorem State.GoesFor.congr {policy : Policy} {config : String}
    (h : s.GoesFor render policy config) (happlied : t.appliedRevision = s.appliedRevision)
    (hpolicy : t.policy = s.policy) : t.GoesFor render policy config where
  rendered := h.rendered
  ahead := happlied ▸ h.ahead
  le := hpolicy ▸ h.le
  stored := hpolicy ▸ h.stored

/-! ## One step -/

/-- The run goes on to another call, for the same policy. -/
theorem Consistent.goOn (hs : Consistent render s)
    (happlied : t.appliedRevision = s.appliedRevision) (hpolicy : t.policy = s.policy)
    (houtcomes : t.outcomes = s.outcomes)
    (hgoal : ∀ policy config, t.phase.goal = some (policy, config) →
      s.GoesFor render policy config)
    (hfits : t.phase.Fits t) : Consistent render t where
  le := by
    rw [happlied, hpolicy]
    exact hs.le
  goal policy config h := (hgoal policy config h).congr happlied hpolicy
  fits := hfits
  kept := by
    rw [houtcomes]
    exact hs.kept

theorem Consistent.endRun (hs : Consistent render s) {failed : Bool} (hsettled : s.Settled)
    (hkept : failed = true → s.files.collector = s.before) :
    Consistent render (s.endRun failed) where
  le := hs.le
  goal _ _ h := by cases h
  fits := hsettled
  kept := by
    intro outcome houtcome
    rw [State.endRun, List.mem_append, List.mem_singleton] at houtcome
    rcases houtcome with hold | rfl
    · exact hs.kept outcome hold
    · exact hkept

/-- The run ends with its revision applied. -/
theorem Consistent.apply (hs : Consistent render s) {policy : Policy} {config : String}
    (hgoal : s.GoesFor render policy config) (hsettled : s.Settled) :
    Consistent render ({ s with appliedRevision := some policy.revision }.endRun false) where
  le := by
    intro applied happlied
    cases happlied
    exact hgoal.le
  goal _ _ h := by cases h
  fits := hsettled
  kept := by
    intro outcome houtcome
    rw [State.endRun, List.mem_append, List.mem_singleton] at houtcome
    rcases houtcome with hold | rfl
    · exact hs.kept outcome hold
    · intro h
      cases h

/-- A run whose policy is not the one applied is ahead of it. -/
theorem Consistent.begin (hs : Consistent render s) {config : String}
    (hne : s.appliedRevision ≠ some s.policy.revision)
    (hrender : render s.policy = some config) : s.GoesFor render s.policy config where
  rendered := hrender
  ahead := by
    intro applied happlied
    have hle := hs.le applied happlied
    have : applied ≠ s.policy.revision := by
      rintro rfl
      exact hne happlied
    omega
  le := Nat.le_refl _
  stored _ := rfl

theorem Consistent.proceed (hs : Consistent render s) (hstep : s.proceed render = some t) :
    Consistent render t := by
  have hfits := hs.fits
  have hgoals := hs.goal
  rw [State.proceed] at hstep
  cases hphase : s.phase with
  | idle =>
      rw [hphase] at hstep
      cases hstep
  | readPolicy =>
      simp only [hphase] at hstep hfits
      split at hstep
      case isTrue =>
          cases hstep
          exact hs.endRun hfits.1 (fun h => by cases h)
      case isFalse hne =>
          split at hstep
          case h_1 =>
              cases hstep
              exact hs.endRun hfits.1 (fun _ => hfits.2.symm)
          case h_2 config hrender =>
              cases hstep
              refine hs.goOn rfl rfl rfl ?_ hfits
              intro policy config h
              cases h
              exact hs.begin hne hrender
  | readFile policy config =>
      have hgoal := hgoals policy config (by rw [hphase]; rfl)
      simp only [hphase] at hstep hfits
      split at hstep
      case isTrue =>
          cases hstep
          exact hs.apply hgoal hfits.1
      case isFalse =>
          cases hstep
          refine hs.goOn rfl rfl rfl ?_ ?_
          · intro policy config h
            cases h
            exact hgoal
          · exact ⟨hfits.1, hfits.2, hfits.2.symm⟩
  | makeDirectory run =>
      rw [hphase] at hgoals
      simp only [hphase] at hstep hfits
      cases hstep
      exact hs.goOn rfl rfl rfl hgoals hfits
  | removeCandidate run =>
      rw [hphase] at hgoals
      simp only [hphase] at hstep hfits
      cases hstep
      exact hs.goOn rfl rfl rfl hgoals hfits
  | writeCandidate run =>
      rw [hphase] at hgoals
      simp only [hphase] at hstep hfits
      cases hstep
      refine hs.goOn rfl rfl rfl hgoals ?_
      exact ⟨hfits.1, hfits.2.1, hfits.2.2, rfl⟩
  | validateConfig run =>
      rw [hphase] at hgoals
      simp only [hphase] at hstep hfits
      cases hstep
      exact hs.goOn rfl rfl rfl hgoals hfits
  | rename run =>
      rw [hphase] at hgoals
      simp only [hphase] at hstep hfits
      obtain ⟨-, hbefore, hprevious, hcandidate⟩ := hfits
      simp only [hcandidate] at hstep
      cases hstep
      refine hs.goOn rfl rfl rfl hgoals ?_
      exact ⟨justPut_putFile _ _ _, rfl, hprevious⟩
  | restartCollector run =>
      rw [hphase] at hgoals
      simp only [hphase] at hstep hfits
      cases hstep
      refine hs.goOn rfl rfl rfl hgoals ?_
      refine ⟨settled_restarted _, fun h => (by cases h), fun _ => ⟨hfits.2.1, ?_⟩⟩
      simp [State.restarted]
  | removeFile run =>
      rw [hphase] at hgoals
      simp only [hphase] at hstep hfits
      cases hstep
      refine hs.goOn rfl rfl rfl hgoals ?_
      refine ⟨fun h => absurd rfl h, fun _ => hfits.2.symm, fun h => by cases h⟩
  | writeRollback run previous =>
      rw [hphase] at hgoals
      simp only [hphase] at hstep hfits
      cases hstep
      refine hs.goOn rfl rfl rfl hgoals ?_
      exact ⟨hfits.1, hfits.2, rfl⟩
  | renameRollback run previous =>
      rw [hphase] at hgoals
      simp only [hphase] at hstep hfits
      obtain ⟨-, hbefore, hrollback⟩ := hfits
      simp only [hrollback] at hstep
      cases hstep
      refine hs.goOn rfl rfl rfl hgoals ?_
      exact ⟨justPut_putFile _ _ _, hbefore.symm⟩
  | restartAgain run =>
      rw [hphase] at hgoals
      simp only [hphase] at hstep hfits
      cases hstep
      refine hs.goOn rfl rfl rfl hgoals ?_
      exact ⟨settled_restarted _, fun _ => hfits.2, fun h => by cases h⟩
  | finish run failed =>
      have hgoal := hgoals run.policy run.config (by rw [hphase]; rfl)
      simp only [hphase] at hstep hfits
      have hclean : Consistent render
          { s with files := { s.files with candidate := none } } := by
        refine hs.goOn rfl rfl rfl hgoals ?_
        rw [hphase]
        exact hfits
      cases failed with
      | true =>
          cases hstep
          exact hclean.endRun hfits.1 fun _ => hfits.2.1 rfl
      | false =>
          cases hstep
          exact hclean.apply (hgoal.congr rfl rfl) hfits.1

theorem Consistent.fail (hs : Consistent render s) (hstep : s.fail = some t) :
    Consistent render t := by
  have hfits := hs.fits
  have hgoals := hs.goal
  rw [State.fail] at hstep
  cases hphase : s.phase with
  | readPolicy =>
      simp only [hphase] at hstep hfits
      cases hstep
      exact hs.endRun hfits.1 fun _ => hfits.2.symm
  | validateConfig run =>
      rw [hphase] at hgoals
      simp only [hphase] at hstep hfits
      cases hstep
      refine hs.goOn rfl rfl rfl hgoals ?_
      exact ⟨hfits.1, fun _ => hfits.2.1.symm, fun h => by cases h⟩
  | restartCollector run =>
      rw [hphase] at hgoals
      simp only [hphase] at hstep hfits
      cases hprevious : run.previous with
      | none =>
          simp only [hprevious] at hstep
          cases hstep
          refine hs.goOn rfl rfl rfl hgoals ?_
          exact ⟨hfits.1, hfits.2.2.symm.trans hprevious⟩
      | some previous =>
          simp only [hprevious] at hstep
          cases hstep
          refine hs.goOn rfl rfl rfl hgoals ?_
          exact ⟨hfits.1, hfits.2.2.symm.trans hprevious⟩
  | restartAgain run =>
      rw [hphase] at hgoals
      simp only [hphase] at hstep hfits
      cases hstep
      refine hs.goOn rfl rfl rfl hgoals ?_
      exact ⟨hfits.1.settled rfl rfl, fun _ => hfits.2, fun h => by cases h⟩
  | _ =>
      rw [hphase] at hstep
      cases hstep

theorem Consistent.crash (hs : Consistent render s) :
    Consistent render
      { s with
        appliedRevision := none
        phase := .idle
        cutShort := s.cutShort || s.phase.isInstalling } where
  le _ h := by cases h
  goal _ _ h := by cases h
  fits := by
    cases hinstalling : s.phase.isInstalling with
    | true => exact (hs.fits.justPut hinstalling).settled rfl (Bool.or_true _)
    | false =>
        have hsettled := hs.fits.settled hinstalling
        intro hfile
        rw [Bool.or_false]
        exact hsettled hfile
  kept := hs.kept

theorem Consistent.save (hs : Consistent render s) (document : String) :
    Consistent render { s with policy := ⟨s.policy.revision + 1, document⟩ } where
  le applied h := Nat.le_succ_of_le (hs.le applied h)
  goal policy config h := by
    have hgoal := hs.goal policy config h
    refine ⟨hgoal.rendered, hgoal.ahead, Nat.le_succ_of_le hgoal.le, ?_⟩
    intro heq
    have hle := hgoal.le
    simp only at heq
    omega
  fits := hs.fits.congr rfl rfl rfl rfl
  kept := hs.kept

theorem Consistent.step (hs : Consistent render s) {a : Action}
    (hstep : s.step render a = some t) : Consistent render t := by
  cases a with
  | save expectedRevision document =>
      rw [State.step] at hstep
      split at hstep
      case isFalse => cases hstep
      case isTrue =>
          cases hstep
          exact hs.save document
  | reconcile =>
      rw [State.step] at hstep
      split at hstep
      case isTrue hidle =>
          cases hstep
          refine hs.goOn rfl rfl rfl ?_ ?_
          · intro policy config h
            cases h
          · have hfits := hs.fits
            rw [hidle] at hfits
            exact ⟨hfits, rfl⟩
      case isFalse =>
          cases hstep
          exact hs
  | proceed => exact hs.proceed hstep
  | fail => exact hs.fail hstep
  | crash =>
      cases hstep
      exact hs.crash

theorem consistent_of_initial (hs : Initial s) : Consistent render s where
  le applied h := by
    rw [hs.appliedRevision] at h
    cases h
  goal policy config h := by
    rw [hs.phase] at h
    cases h
  fits := by
    rw [hs.phase]
    intro hfile
    rcases hs.started with hnone | hrestarted
    · exact absurd hnone hfile
    · simp [hrestarted, hs.cutShort]
  kept outcome h := by
    rw [hs.outcomes] at h
    cases h

/-! ## The property -/

/-- A state that records nothing of the stored policy's revision has only its failed runs to
answer for. -/
theorem Consistent.runsAsRecorded (hs : Consistent render s)
    (hne : s.appliedRevision ≠ some s.policy.revision) : RunsAsRecorded render s :=
  ⟨fun happlied => absurd happlied hne, hs.kept⟩

/-- While a run is for a policy, the revision applied is not the stored one. -/
theorem State.GoesFor.not_applied {policy : Policy} {config : String}
    (h : s.GoesFor render policy config) : s.appliedRevision ≠ some s.policy.revision := by
  intro happlied
  have hahead := h.ahead _ happlied
  have hle := h.le
  omega

/-- What is recorded does not change as long as nothing it speaks of does. -/
theorem RunsAsRecorded.congr (hs : RunsAsRecorded render s) (ht : Consistent render t)
    (happlied : t.appliedRevision = s.appliedRevision) (hpolicy : t.policy = s.policy)
    (hfile : t.files.collector = s.files.collector) (hevents : t.events = s.events) :
    RunsAsRecorded render t := by
  refine ⟨?_, ht.kept⟩
  rw [happlied, hpolicy, hfile, hevents]
  exact hs.applied

/-- The revision of a run's policy is recorded rightly exactly when the policy has been replaced, or
its file has been restarted on. -/
theorem runsAsRecorded_apply (hs : Consistent render s) {policy : Policy} {config : String}
    (hgoal : s.GoesFor render policy config) (hsettled : s.Settled)
    (hfile : s.files.collector = some config) :
    RunsAsRecorded render ({ s with appliedRevision := some policy.revision }.endRun false) ↔
      (policy.revision = s.policy.revision → s.cutShort = false) := by
  have hiff := hsettled (by rw [hfile]; exact Option.some_ne_none config)
  have hkept := (hs.apply hgoal hsettled).kept
  constructor
  · intro h heq
    have hlast := (h.applied (congrArg some heq)).2
    exact hiff.mp hlast
  · intro hcut
    refine ⟨?_, hkept⟩
    intro happlied
    have heq : policy.revision = s.policy.revision := Option.some.inj happlied
    refine ⟨⟨config, ?_, hfile⟩, hiff.mpr (hcut heq)⟩
    have hstored : s.policy = policy := (hgoal.stored heq).symm
    calc render s.policy
        = render policy := by rw [hstored]
      _ = some config := hgoal.rendered

/-- So nothing can go wrong while a run is for a policy. -/
theorem Consistent.runsAsRecorded_of_goal (hs : Consistent render s) {policy : Policy}
    {config : String} (h : s.phase.goal = some (policy, config)) : RunsAsRecorded render s :=
  hs.runsAsRecorded (hs.goal policy config h).not_applied

theorem runsAsRecorded_fail (hs : Consistent render s) (hrecorded : RunsAsRecorded render s)
    (hstep : s.fail = some t) : RunsAsRecorded render t := by
  have ht := hs.fail hstep
  rw [State.fail] at hstep
  cases hphase : s.phase with
  | readPolicy =>
      simp only [hphase] at hstep
      cases hstep
      exact hrecorded.congr ht rfl rfl rfl rfl
  | validateConfig run =>
      simp only [hphase] at hstep
      cases hstep
      exact ht.runsAsRecorded_of_goal rfl
  | restartCollector run =>
      simp only [hphase] at hstep
      split at hstep
      all_goals
        cases hstep
        exact ht.runsAsRecorded_of_goal rfl
  | restartAgain run =>
      simp only [hphase] at hstep
      cases hstep
      exact ht.runsAsRecorded_of_goal rfl
  | _ =>
      rw [hphase] at hstep
      cases hstep

/-- A run that goes on goes wrong exactly when it trusts a file that was cut short. -/
theorem runsAsRecorded_proceed (hs : Consistent render s) (hrecorded : RunsAsRecorded render s)
    (hstep : s.proceed render = some t) :
    RunsAsRecorded render t ↔ s.trustsCutShort .proceed = false := by
  have ht := hs.proceed hstep
  have hfits := hs.fits
  rw [State.proceed] at hstep
  cases hphase : s.phase with
  | idle =>
      rw [hphase] at hstep
      cases hstep
  | readFile policy config =>
      have hgoal := hs.goal policy config (by rw [hphase]; rfl)
      simp only [hphase] at hstep hfits
      simp only [State.trustsCutShort, hphase]
      split at hstep
      case isTrue hfile =>
          cases hstep
          apply (runsAsRecorded_apply hs hgoal hfits.1 hfile).trans
          by_cases heq : policy.revision = s.policy.revision <;> simp [hfile, heq]
      case isFalse hfile =>
          cases hstep
          have hrun := ht.runsAsRecorded_of_goal rfl
          simp [hfile, hrun]
  | readPolicy =>
      have htrust : s.trustsCutShort .proceed = false := by simp [State.trustsCutShort, hphase]
      rw [iff_true_right htrust]
      simp only [hphase] at hstep
      split at hstep
      case isTrue =>
          cases hstep
          exact hrecorded.congr ht rfl rfl rfl rfl
      case isFalse =>
          split at hstep
          case h_1 =>
              cases hstep
              exact hrecorded.congr ht rfl rfl rfl rfl
          case h_2 =>
              cases hstep
              exact ht.runsAsRecorded_of_goal rfl
  | finish run failed =>
      have htrust : s.trustsCutShort .proceed = false := by simp [State.trustsCutShort, hphase]
      have hgoal := hs.goal run.policy run.config (by rw [hphase]; rfl)
      rw [iff_true_right htrust]
      simp only [hphase] at hstep hfits
      cases failed with
      | true =>
          cases hstep
          exact hrecorded.congr ht rfl rfl rfl rfl
      | false =>
          cases hstep
          obtain ⟨hsettled, -, hrestarted⟩ := hfits
          obtain ⟨hfile, hlast⟩ := hrestarted rfl
          have hclean : Consistent render
              { s with files := { s.files with candidate := none } } := by
            refine hs.goOn rfl rfl rfl hs.goal ?_
            rw [hphase]
            exact ⟨hsettled, fun h => (by cases h), hrestarted⟩
          have hcut : s.cutShort = false :=
            (hsettled (by rw [hfile]; exact Option.some_ne_none _)).mp hlast
          apply (runsAsRecorded_apply hclean (hgoal.congr rfl rfl) hsettled hfile).mpr
          exact fun _ => hcut
  | rename run =>
      have htrust : s.trustsCutShort .proceed = false := by simp [State.trustsCutShort, hphase]
      rw [iff_true_right htrust]
      simp only [hphase] at hstep
      split at hstep
      all_goals
        cases hstep
        exact ht.runsAsRecorded_of_goal rfl
  | renameRollback run previous =>
      have htrust : s.trustsCutShort .proceed = false := by simp [State.trustsCutShort, hphase]
      rw [iff_true_right htrust]
      simp only [hphase] at hstep
      split at hstep
      all_goals
        cases hstep
        exact ht.runsAsRecorded_of_goal rfl
  | _ =>
      have htrust : s.trustsCutShort .proceed = false := by simp [State.trustsCutShort, hphase]
      rw [iff_true_right htrust]
      simp only [hphase] at hstep
      cases hstep
      exact ht.runsAsRecorded_of_goal rfl

/-- Only a run that trusts its file can go wrong, and then it does. -/
theorem runsAsRecorded_step (hs : Consistent render s) (hrecorded : RunsAsRecorded render s)
    {a : Action} (hstep : s.step render a = some t) :
    RunsAsRecorded render t ↔ s.trustsCutShort a = false := by
  have ht := hs.step hstep
  cases a with
  | save expectedRevision document =>
      apply iff_of_true _ rfl
      rw [State.step] at hstep
      split at hstep
      case isFalse => cases hstep
      case isTrue =>
          cases hstep
          apply ht.runsAsRecorded
          intro happlied
          have hle := hs.le _ happlied
          simp only at hle
          omega
  | reconcile =>
      apply iff_of_true _ rfl
      rw [State.step] at hstep
      split at hstep
      case isTrue =>
          cases hstep
          exact hrecorded.congr ht rfl rfl rfl rfl
      case isFalse =>
          cases hstep
          exact hrecorded
  | proceed => exact runsAsRecorded_proceed hs hrecorded hstep
  | fail => exact iff_of_true (runsAsRecorded_fail hs hrecorded hstep) rfl
  | crash =>
      apply iff_of_true _ rfl
      cases hstep
      exact ht.runsAsRecorded (by simp)

/-- **The Collector runs the configuration it is recorded to run**, throughout a run, exactly when
no run of the reconciler trusts a file that was cut short. -/
theorem runsAsRecorded_iff (render : Policy → Option String) {s t : State} (hs : Initial s)
    {actions : List Action} (hrun : (machine render).exec s actions = some t) :
    (machine render).Always (RunsAsRecorded render) s actions ↔
      (machine render).Meets (fun s a => s.trustsCutShort a = false) s actions := by
  have hinitial : Consistent render s := consistent_of_initial hs
  apply (machine render).always_iff_meets (J := Consistent render) _ _ hinitial _ hrun
  · intro s a t hs hstep
    exact hs.step hstep
  · intro s a t hs hrecorded hstep
    exact runsAsRecorded_step hs hrecorded hstep
  · apply hinitial.runsAsRecorded
    rw [hs.appliedRevision]
    exact fun h => by cases h

/-- Every policy is rendered as its document. -/
def renderDocument (policy : Policy) : Option String := some policy.document

/-- A Collector that has been started on the file it was installed with. -/
def installed : State where
  policy := ⟨1, "default"⟩
  files := ⟨some "seed", none, none⟩
  appliedRevision := none
  phase := .idle
  before := none
  events := [.put "seed", .restarted]
  outcomes := []
  cutShort := false

theorem installed_initial : Initial installed where
  phase := rfl
  appliedRevision := rfl
  outcomes := rfl
  cutShort := rfl
  started := Or.inr rfl

/-- A run up to the rename, with the validation in between. -/
def untilRestart : List Action :=
  [.reconcile, .proceed, .proceed, .proceed, .proceed, .proceed, .proceed, .proceed]

/-- One revision is applied; the restart on the next one fails, and the file is put back. -/
def rollsBack : List Action :=
  untilRestart ++ [.proceed, .proceed, .save 1 "next"] ++
    untilRestart ++ [.fail, .proceed, .proceed, .proceed, .proceed]

theorem runsAsRecorded_iff_rollsBack :
    (machine renderDocument).Always (RunsAsRecorded renderDocument) installed rollsBack ∧
      ∃ t, (machine renderDocument).exec installed rollsBack = some t ∧
        t.files.collector = some "default" := by
  have hmeets : (machine renderDocument).Meets (fun s a => s.trustsCutShort a = false) installed
      rollsBack := by
    decide +kernel
  exact ⟨(runsAsRecorded_iff renderDocument installed_initial rfl).mpr hmeets, _, rfl,
    by decide +kernel⟩

/-- The worker crashes after the rename, and the next run finds its file in place. -/
def crashesBeforeRestart : List Action :=
  untilRestart ++ [.crash, .reconcile, .proceed, .proceed]

/-- The revision is recorded as applied, and the Collector has not been restarted. -/
theorem not_restarted_after_crash :
    ¬(machine renderDocument).Always (RunsAsRecorded renderDocument) installed
        crashesBeforeRestart ∧
      ∃ t, (machine renderDocument).exec installed crashesBeforeRestart = some t ∧
        t.appliedRevision = some t.policy.revision ∧
        t.events = [.put "seed", .restarted, .put "default"] := by
  have hrun : ∃ t, (machine renderDocument).exec installed crashesBeforeRestart = some t ∧
      t.appliedRevision = some t.policy.revision ∧
      t.events = [.put "seed", .restarted, .put "default"] := ⟨_, rfl, rfl, rfl⟩
  refine ⟨?_, hrun⟩
  intro halways
  obtain ⟨t, hexec, happlied, hevents⟩ := hrun
  have hlast := ((halways.of_exec hexec).applied happlied).2
  rw [hevents] at hlast
  revert hlast
  decide

end Eveland.CollectorReconciler
