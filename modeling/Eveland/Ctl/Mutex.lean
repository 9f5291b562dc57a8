/-
# The mutex directory and the supervisor record

The processes of the control program that contend for one mutex directory, one file-system
step at a time, and what those that claim the supervisor record do while they hold it. A
process may crash at any step, and its pid may be given to a later process; the identity probe
tells the two apart, or throws.

Identities are the numbers of the processes in the order they start. A directory that was
moved aside has a name of its own, which only the process that moved it knows, so it is kept
with that process.
-/

import Mathlib.Data.List.Basic
import Mathlib.Tactic.Common
import Eveland.Foundations.Machine
import Eveland.Foundations.RowLocks

namespace Eveland.CtlMutex

/-! ## Files -/

/-- `MutexOwner`; the nonce tells the acquisitions of one process apart. -/
structure MutexOwner where
  pid : ℕ
  identity : Option ℕ
  nonce : ℕ
  deriving DecidableEq, Repr

/-- What an `owner` file holds. -/
inductive OwnerFile
  | owner (owner : MutexOwner)
  | unparseable (text : String)
  deriving DecidableEq, Repr

/-- A mutex directory, with its `owner` file where there is one. -/
structure MutexDir where
  ownerFile : Option OwnerFile
  deriving DecidableEq, Repr

/-- `SupervisorRecord`; one without identity was written by an earlier version. -/
structure SupervisorRecord where
  pid : ℕ
  identity : Option ℕ
  deriving DecidableEq, Repr

/-- What the processes share: the mutex path, the record, and the clock that nonces are read
from. -/
structure Files where
  mutex : Option MutexDir
  record : Option SupervisorRecord
  clock : ℕ
  deriving DecidableEq, Repr

/-- `readOwner` of the mutex path. -/
def Files.readOwner (files : Files) : Option OwnerFile := files.mutex.bind MutexDir.ownerFile

/-! ## Processes -/

/-- What a process does while it holds the mutex: an update or a start goes on as long as it
likes, a claim of the supervisor record takes these steps. -/
inductive Work
  | guarded
  | readingRecord
  | probing (record : SupervisorRecord)
  | writingTemp
  | validating
  | publishing
  deriving DecidableEq, Repr

/-- How a call ends; `retry` starts a claim over. -/
inductive Outcome
  | returned
  | claimed
  | refused
  | retry
  | threw
  deriving DecidableEq, Repr

/-- The step a process is at. -/
inductive Phase
  | starting
  | making (owner : MutexOwner)
  | writing (owner : MutexOwner)
  | reading (owner : MutexOwner)
  | judging (owner : MutexOwner) (heldBy : Option OwnerFile)
  | breaking (owner : MutexOwner) (heldBy : Option OwnerFile)
  | inspecting (owner : MutexOwner) (heldBy : Option OwnerFile) (aside : MutexDir)
  | restoring (owner : MutexOwner) (aside : MutexDir)
  | holding (owner : MutexOwner) (work : Work)
  | releasing (owner : MutexOwner) (outcome : Outcome)
  | removing (owner : MutexOwner) (outcome : Outcome)
  | ended (outcome : Outcome)
  deriving DecidableEq, Repr

/-- A process. `standing` says that it has published its record, and that the record has not
been removed since. -/
structure Process where
  pid : ℕ
  alive : Bool
  claims : Bool
  attempt : ℕ
  phase : Phase
  standing : Bool
  deriving DecidableEq, Repr

/-- The files and the processes, dead ones included. -/
structure State where
  files : Files
  processes : List Process
  deriving DecidableEq, Repr

/-- What the environment decides of a step: whether the identity probe throws, whether the
directory is older than the grace, whether a contender stops waiting, and what the command of
a pid looks like. -/
structure Choice where
  probeThrows : Bool
  isOld : Bool
  givesUp : Bool
  looksLikeSupervisor : Bool
  deriving DecidableEq, Repr

/-! ## Liveness -/

/-- `identityOf`: the identity of the live process that has the pid. -/
def State.identityOf (s : State) (pid : ℕ) : Option ℕ :=
  s.processes.findIdx? fun p => p.alive && p.pid = pid

/-- `holderIsDead`. A probe that throws says no. -/
def State.holderIsDead (s : State) (choice : Choice) : OwnerFile → Bool
  | .unparseable _ => true
  | .owner holder =>
      match holder.identity with
      | some identity => !choice.probeThrows && s.identityOf holder.pid ≠ some identity
      | none => (s.identityOf holder.pid).isNone

/-- `verifiedSupervisorPid`, of the record that was read. -/
def State.verifies (s : State) (choice : Choice) (record : SupervisorRecord) : Bool :=
  match record.identity with
  | some identity => s.identityOf record.pid = some identity
  | none => (s.identityOf record.pid).isSome && choice.looksLikeSupervisor

/-! ## Steps -/

/-- The end of an attempt; a claim makes twenty at most. -/
def Process.finish (p : Process) : Outcome → Process
  | .retry =>
      if p.attempt + 1 < 20 then { p with attempt := p.attempt + 1, phase := .starting }
      else { p with phase := .ended .refused }
  | outcome => { p with phase := .ended outcome }

/-- `rename(aside, mutexPath)`: a directory takes the place of none or of an empty one. Where
it cannot, the directory that was aside is removed. -/
def putBack (aside : MutexDir) : Option MutexDir → Option MutexDir
  | none => some aside
  | some ⟨none⟩ => some aside
  | some dir => some dir

/-- A step of `claimSupervisorRecord` under the mutex. -/
def Process.work (s : State) (choice : Choice) (p : Process) (owner : MutexOwner) :
    Work → Files × Process
  | .guarded => (s.files, { p with phase := .releasing owner .returned })
  | .readingRecord =>
      match s.files.record with
      | none => (s.files, { p with phase := .holding owner .writingTemp })
      | some record => (s.files, { p with phase := .holding owner (.probing record) })
  | .probing record =>
      if choice.probeThrows then (s.files, { p with phase := .releasing owner .threw })
      else if s.verifies choice record && record.pid ≠ p.pid then
        (s.files, { p with phase := .releasing owner .refused })
      else (s.files, { p with phase := .holding owner .writingTemp })
  | .writingTemp => (s.files, { p with phase := .holding owner .validating })
  | .validating =>
      if s.files.readOwner = some (.owner owner) then
        (s.files, { p with phase := .holding owner .publishing })
      else (s.files, { p with phase := .releasing owner .retry })
  | .publishing =>
      ({ s.files with record := some ⟨p.pid, owner.identity⟩ },
        { p with phase := .releasing owner .claimed, standing := true })

/-- The next file-system step of a process. -/
def Process.next (s : State) (choice : Choice) (p : Process) : Option (Files × Process) :=
  match p.phase with
  | .starting =>
      if choice.probeThrows then some (s.files, { p with phase := .ended .threw })
      else some ({ s.files with clock := s.files.clock + 1 },
        { p with phase := .making ⟨p.pid, s.identityOf p.pid, s.files.clock⟩ })
  | .making owner =>
      match s.files.mutex with
      | none => some ({ s.files with mutex := some ⟨none⟩ }, { p with phase := .writing owner })
      | some _ => some (s.files, { p with phase := .reading owner })
  | .writing owner =>
      match s.files.mutex with
      | none => some (s.files, { p with phase := .ended .threw })
      | some _ => some ({ s.files with mutex := some ⟨some (.owner owner)⟩ },
          { p with phase := .holding owner (if p.claims then .readingRecord else .guarded) })
  | .reading owner =>
      some (s.files, { p with phase := .judging owner s.files.readOwner })
  | .judging owner none =>
      match s.files.mutex with
      | none => some (s.files, { p with phase := .making owner })
      | some _ =>
          if choice.isOld then some (s.files, { p with phase := .breaking owner none })
          else if choice.givesUp then some (s.files, { p with phase := .ended .threw })
          else some (s.files, { p with phase := .making owner })
  | .judging owner (some heldBy) =>
      if s.holderIsDead choice heldBy then
        some (s.files, { p with phase := .breaking owner (some heldBy) })
      else if choice.givesUp then some (s.files, { p with phase := .ended .threw })
      else some (s.files, { p with phase := .making owner })
  | .breaking owner heldBy =>
      match s.files.mutex with
      | none => some (s.files, { p with phase := .making owner })
      | some dir => some ({ s.files with mutex := none },
          { p with phase := .inspecting owner heldBy dir })
  | .inspecting owner heldBy aside =>
      if aside.ownerFile = heldBy then some (s.files, { p with phase := .making owner })
      else some (s.files, { p with phase := .restoring owner aside })
  | .restoring owner aside =>
      some ({ s.files with mutex := putBack aside s.files.mutex },
        { p with phase := .making owner })
  | .holding owner work => some (p.work s choice owner work)
  | .releasing owner outcome =>
      if s.files.readOwner = some (.owner owner) then
        some (s.files, { p with phase := .removing owner outcome })
      else some (s.files, p.finish outcome)
  | .removing _ outcome => some ({ s.files with mutex := none }, p.finish outcome)
  | .ended _ => none

/-- A process starts, takes a step or crashes; or the record is removed. -/
inductive Action
  | spawn (pid : ℕ) (claims : Bool)
  | step (index : ℕ) (choice : Choice)
  | crash (index : ℕ)
  | removeSupervisorFiles
  deriving DecidableEq, Repr

/-- The effect of an action. No two live processes have one pid. -/
def step (s : State) : Action → Option State
  | .spawn pid claims =>
      if s.processes.any fun p => p.alive && p.pid = pid then none
      else some { s with
        processes := s.processes ++ [⟨pid, true, claims, 0, .starting, false⟩] }
  | .step index choice =>
      s.processes[index]?.bind fun p =>
        if p.alive then (p.next s choice).map fun result =>
          { files := result.1, processes := s.processes.set index result.2 }
        else none
  | .crash index =>
      s.processes[index]?.map fun p =>
        { s with processes := s.processes.set index { p with alive := false } }
  | .removeSupervisorFiles =>
      some { files := { s.files with record := none },
             processes := s.processes.map fun p => { p with standing := false } }

/-- The processes, started with whatever dead processes have left behind. -/
def machine : Machine State Action where
  init s := ∀ p ∈ s.processes, p.alive = false
  step := step

/-! ## Exclusion -/

/-- The process is live and between a successful `acquireMutex` and the start of its release. -/
def Process.Holds (p : Process) : Prop :=
  p.alive = true ∧ ∃ owner work, p.phase = .holding owner work

/-- The process is live, has been answered `claimed: true`, and its record stands. -/
def Process.Supervises (p : Process) : Prop :=
  p.alive = true ∧ p.phase = .ended .claimed ∧ p.standing = true

/-- At most one process holds the mutex, and at most one supervises. -/
structure Exclusive (s : State) : Prop where
  mutex : RowLocks.Exclusive (fun (p : Process) (_ : Unit) => p.Holds) s.processes
  record : RowLocks.Exclusive (fun (p : Process) (_ : Unit) => p.Supervises) s.processes

end Eveland.CtlMutex
