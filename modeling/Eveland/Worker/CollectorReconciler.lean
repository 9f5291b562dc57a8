/-
# The Collector and the file it is configured by

An administrator saves a new revision of the observability policy. The reconciler renders the
policy, has the Collector's image validate the result, puts it in place of `collector.yaml`,
restarts the Collector, and remembers the revision as applied. Where the restart fails it puts the
previous file back and restarts the Collector on that. A run that finds the file it would write
already in place does nothing but remember the revision.

A worker runs the reconciler at most once at a time. It may crash between any two steps, and starts
again without what it has remembered.
-/

import Eveland.Foundations.Machine

namespace Eveland.CollectorReconciler

/-! ## State -/

/-- `ObservabilityPolicy`. The capture settings and the destinations are one text. -/
structure Policy where
  revision : ℕ
  document : String
  deriving DecidableEq, Repr

/-- The files in the Collector's directory. -/
structure Files where
  /-- `collector.yaml`. -/
  collector : Option String
  /-- `collector.yaml.candidate`. -/
  candidate : Option String
  /-- `collector.yaml.rollback`. -/
  rollback : Option String
  deriving DecidableEq, Repr

/-- What a run goes by once it has read the file. -/
structure Run where
  policy : Policy
  config : String
  previous : Option String
  deriving DecidableEq, Repr

/-- The call that a run awaits. -/
inductive Phase
  | idle
  /-- `getObservabilityPolicy`. -/
  | readPolicy
  /-- `readFile` of `collector.yaml`. -/
  | readFile (policy : Policy) (config : String)
  /-- `mkdir`. -/
  | makeDirectory (run : Run)
  /-- `rm` of the candidate. -/
  | removeCandidate (run : Run)
  /-- `writeFile` of the candidate. -/
  | writeCandidate (run : Run)
  | validateConfig (run : Run)
  /-- `rename` of the candidate. -/
  | rename (run : Run)
  | restartCollector (run : Run)
  /-- `rm` of `collector.yaml`, which was not there before. -/
  | removeFile (run : Run)
  /-- `writeFile` of the rollback. -/
  | writeRollback (run : Run) (previous : String)
  /-- `rename` of the rollback. -/
  | renameRollback (run : Run) (previous : String)
  /-- `restartCollector` on the file that has been put back. -/
  | restartAgain (run : Run)
  /-- `rm` of the candidate in the end. -/
  | finish (run : Run) (failed : Bool)
  deriving DecidableEq, Repr

/-- What is done to the Collector. -/
inductive Event
  /-- A file is put in place of `collector.yaml`. -/
  | put (config : String)
  /-- A restart succeeds. -/
  | restarted
  deriving DecidableEq, Repr

/-- What a run that has not crashed leaves. -/
structure Outcome where
  failed : Bool
  before : Option String
  after : Option String
  deriving DecidableEq, Repr

/-- The stored policy, the files, what the worker remembers, and where its run stands. -/
structure State where
  policy : Policy
  files : Files
  appliedRevision : Option ℕ
  phase : Phase
  /-- What `collector.yaml` was when the run began. -/
  before : Option String
  events : List Event
  outcomes : List Outcome
  /-- The file in place was put there by a run that has crashed, or whose restart on the file put
  back has failed, before a restart on it succeeded. -/
  cutShort : Bool
  deriving DecidableEq, Repr

inductive Action
  /-- `saveObservabilityPolicy`. -/
  | save (expectedRevision : ℕ) (document : String)
  /-- The reconciler is called. -/
  | reconcile
  /-- The call that the run awaits returns. -/
  | proceed
  /-- The call that the run awaits throws. -/
  | fail
  /-- The worker crashes and starts again. -/
  | crash
  deriving DecidableEq, Repr

/-! ## Steps -/

namespace Phase

/-- A file has been put in place, and no restart on it has succeeded. -/
def isInstalling : Phase → Bool
  | .restartCollector _ | .removeFile _ | .writeRollback _ _ | .renameRollback _ _
  | .restartAgain _ => true
  | _ => false

end Phase

namespace State

variable (s : State)

/-- The run returns or throws. -/
def endRun (failed : Bool) : State :=
  { s with
    phase := .idle
    outcomes := s.outcomes ++ [⟨failed, s.before, s.files.collector⟩] }

/-- `rename` onto `collector.yaml`. -/
def putFile (files : Files) (config : String) (phase : Phase) : State :=
  { s with files := files, events := s.events ++ [.put config], phase := phase }

/-- A restart that succeeds. -/
def restarted (phase : Phase) : State :=
  { s with events := s.events ++ [.restarted], cutShort := false, phase := phase }

/-- The call returns, and `reconcile` goes on to the next one. -/
def proceed (render : Policy → Option String) : Option State :=
  match s.phase with
  | .idle => none
  | .readPolicy =>
      if s.appliedRevision = some s.policy.revision then some (s.endRun false)
      else
        match render s.policy with
        | none => some (s.endRun true)
        | some config => some { s with phase := .readFile s.policy config }
  | .readFile policy config =>
      if s.files.collector = some config then
        some ({ s with appliedRevision := some policy.revision }.endRun false)
      else some { s with phase := .makeDirectory ⟨policy, config, s.files.collector⟩ }
  | .makeDirectory run => some { s with phase := .removeCandidate run }
  | .removeCandidate run =>
      some { s with files := { s.files with candidate := none }, phase := .writeCandidate run }
  | .writeCandidate run =>
      some
        { s with
          files := { s.files with candidate := some run.config }
          phase := .validateConfig run }
  | .validateConfig run => some { s with phase := .rename run }
  | .rename run =>
      match s.files.candidate with
      | none => some { s with phase := .finish run true }
      | some config =>
          some (s.putFile { s.files with collector := some config, candidate := none } config
            (.restartCollector run))
  | .restartCollector run => some (s.restarted (.finish run false))
  | .removeFile run =>
      some { s with files := { s.files with collector := none }, phase := .finish run true }
  | .writeRollback run previous =>
      some
        { s with
          files := { s.files with rollback := some previous }
          phase := .renameRollback run previous }
  | .renameRollback run _ =>
      match s.files.rollback with
      | none => some { s with phase := .finish run true }
      | some config =>
          some (s.putFile { s.files with collector := some config, rollback := none } config
            (.restartAgain run))
  | .restartAgain run => some (s.restarted (.finish run true))
  | .finish run failed =>
      let t : State := { s with files := { s.files with candidate := none } }
      if failed then some (t.endRun true)
      else some ({ t with appliedRevision := some run.policy.revision }.endRun false)

/-- The call throws. Reading the policy, the validation and the restarts may. -/
def fail : Option State :=
  match s.phase with
  | .readPolicy => some (s.endRun true)
  | .validateConfig run => some { s with phase := .finish run true }
  | .restartCollector run =>
      match run.previous with
      | none => some { s with phase := .removeFile run }
      | some previous => some { s with phase := .writeRollback run previous }
  | .restartAgain run => some { s with cutShort := true, phase := .finish run true }
  | _ => none

def step (render : Policy → Option String) : Action → Option State
  | .save expectedRevision document =>
      if s.policy.revision = expectedRevision then
        some { s with policy := ⟨s.policy.revision + 1, document⟩ }
      else none
  | .reconcile =>
      -- `if (inFlight) return inFlight`
      if s.phase = .idle then some { s with phase := .readPolicy, before := s.files.collector }
      else some s
  | .proceed => s.proceed render
  | .fail => s.fail
  | .crash =>
      some
        { s with
          appliedRevision := none
          phase := .idle
          cutShort := s.cutShort || s.phase.isInstalling }

end State

/-- A worker starts. There is no file yet, or one that the Collector has been started on. -/
structure Initial (s : State) : Prop where
  phase : s.phase = .idle
  appliedRevision : s.appliedRevision = none
  outcomes : s.outcomes = []
  cutShort : s.cutShort = false
  started : s.files.collector = none ∨ s.events.getLast? = some .restarted

def machine (render : Policy → Option String) : Machine State Action where
  init := Initial
  step := fun s a => s.step render a

/-! ## What is recorded -/

/-- Where the revision applied is the stored one, `collector.yaml` is its configuration, and what
was last done to the Collector is a restart, after the file had been put in place. A run that has
failed has left `collector.yaml` as it was. -/
structure RunsAsRecorded (render : Policy → Option String) (s : State) : Prop where
  applied : s.appliedRevision = some s.policy.revision →
    (∃ config, render s.policy = some config ∧ s.files.collector = some config) ∧
      s.events.getLast? = some .restarted
  kept : ∀ outcome ∈ s.outcomes, outcome.failed = true → outcome.after = outcome.before

/-- A run for the stored policy finds its configuration in place, left there by a run that was cut
short. -/
def State.trustsCutShort (s : State) : Action → Bool
  | .proceed =>
      match s.phase with
      | .readFile policy config =>
          s.cutShort && s.files.collector = some config && policy.revision = s.policy.revision
      | _ => false
  | _ => false

end Eveland.CollectorReconciler
