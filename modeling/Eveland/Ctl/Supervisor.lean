/-
# The supervisor of the platform processes

One supervisor owns a fixed list of children. Each child leads a process group of its own, and
what it started may outlive it there. A child that exits is started again after a back-off, once
nothing is left of its group; a stop signals every child, waits, and then sweeps the groups.

The code is single threaded and hands over at each `await`. A state therefore keeps, for every
entry, the `await` at which its `handleExit` stands, and the one at which `stop` stands, with the
children that were spawned and the process groups that still have members. An awaited sleep or
publication may end at any time.
-/

import Mathlib.Data.Fintype.Basic
import Mathlib.Logic.Function.Basic
import Eveland.Foundations.Machine

namespace Eveland.Supervisor

/-! ## Entries -/

abbrev Pid := ℕ

inductive ChildStatus
  | running
  | backoff
  | stopped
  deriving DecidableEq, Repr

inductive Signal
  | SIGTERM
  | SIGKILL
  deriving DecidableEq, Repr

/-- `ChildHandle`. The process id is undefined where the spawn failed. -/
structure ChildHandle where
  pid : Option Pid
  deriving DecidableEq, Repr

structure Entry where
  key : String
  handle : Option ChildHandle
  status : ChildStatus
  consecutiveFailures : ℕ
  spawnedAtMs : ℕ
  restarts : ℕ
  lastExit : Option String
  /-- The last spawned process id, which is the id of the process group. -/
  lastPid : Option Pid
  deriving DecidableEq, Repr

/-- An entry as the constructor of `Supervisor` makes it. -/
def Entry.new (key : String) : Entry where
  key := key
  handle := none
  status := .stopped
  consecutiveFailures := 0
  spawnedAtMs := 0
  restarts := 0
  lastExit := none
  lastPid := none

/-- `entry.status === "running" && entry.handle`. -/
def Entry.runningHandle (entry : Entry) : Option ChildHandle :=
  if entry.status = .running then entry.handle else none

structure ChildState where
  status : ChildStatus
  pid : Option Pid
  restarts : ℕ
  lastExit : Option String
  deriving DecidableEq, Repr

def Entry.childState (entry : Entry) : ChildState where
  status := entry.status
  pid := entry.handle.bind ChildHandle.pid
  restarts := entry.restarts
  lastExit := entry.lastExit

/-! ## Delays -/

def RESTART_BACKOFF_BASE_MS : ℕ := 1000
def RESTART_BACKOFF_CAP_MS : ℕ := 30000
def STABLE_RESET_MS : ℕ := 60000
def STOP_TERM_GRACE_MS : ℕ := 10000
def STOP_KILL_GRACE_MS : ℕ := 5000
def pollMs : ℕ := 100

/-- The subtraction is the one of `Math.max(0, consecutiveFailures - 1)`. -/
def backoffDelayMs (consecutiveFailures : ℕ) : ℕ :=
  min RESTART_BACKOFF_CAP_MS (RESTART_BACKOFF_BASE_MS <<< (consecutiveFailures - 1))

/-- The grace period that follows a signal. -/
def graceMs : Signal → ℕ
  | .SIGTERM => STOP_TERM_GRACE_MS
  | .SIGKILL => STOP_KILL_GRACE_MS

/-! ## States -/

/-- Where `handleExit` is suspended. -/
inductive ExitPoint
  /-- In `publish`, before the back-off. -/
  | publishing (delay : ℕ)
  /-- In the sleep of the back-off. -/
  | backingOff (delay : ℕ)
  /-- In a sleep of `reapGroup`, after the signal was sent to the group. -/
  | reaping (pid : Pid) (signal : Signal) (waited : ℕ)
  /-- At the `await` of `reapGroup`, which has come to an answer. -/
  | reaped (emptied : Bool)
  /-- In `publish`, with a group that survived. -/
  | publishingSurvivor
  /-- In the sleep before the next `reapGroup`. -/
  | retrying
  deriving DecidableEq, Repr

/-- Where `stop` is suspended. -/
inductive StopPoint
  /-- In a sleep of `waitForAllStopped`, after the signal was sent to the children. -/
  | waiting (signal : Signal) (waited : ℕ)
  /-- At the `await` of `waitForAllStopped`, which is over. -/
  | waited (signal : Signal)
  /-- In a sleep of `sweepProcessGroups`, after the signal was sent to the groups. -/
  | sweeping (signal : Signal) (waited : ℕ)
  /-- At the `await` of `sweepProcessGroups`, which is over. -/
  | swept
  /-- In the last `publish`. -/
  | publishing
  | returned
  deriving DecidableEq, Repr

/-- The supervisor of `n` processes, and what the host has of their groups. -/
structure State (n : ℕ) where
  entries : Fin n → Entry
  exits : Fin n → Option ExitPoint
  /-- `none` before `stop` is called. -/
  stop : Option StopPoint
  started : Bool
  nowMs : ℕ
  /-- What was handed to `publishState`, last first. -/
  published : List (List (String × ChildState))
  /-- What was sent with `handle.kill`, last first. -/
  childSignals : List (Option Pid × Signal)
  /-- What was sent with `killGroup`, last first. -/
  groupSignals : List (Pid × Signal)
  /-- Every process id that was ever spawned, with the entry it was spawned for. -/
  spawned : List (Fin n × Pid)
  /-- Whether a process group still has members. -/
  hasMembers : Pid → Bool

namespace State

variable {n : ℕ} (s : State n)

def stopping : Bool := s.stop.isSome

/-- `Supervisor.state`. -/
def state : List (String × ChildState) :=
  (List.finRange n).map fun i => ((s.entries i).key, (s.entries i).childState)

def publish : State n := { s with published := s.state :: s.published }

def allStopped : Bool :=
  (List.finRange n).all fun i => (s.entries i).status = .stopped

def groupAlive (pid : Pid) : Bool := s.hasMembers pid

def killGroup (pid : Pid) (signal : Signal) : State n :=
  { s with groupSignals := (pid, signal) :: s.groupSignals }

def setEntry (i : Fin n) (entry : Entry) : State n :=
  { s with entries := Function.update s.entries i entry }

def setExit (i : Fin n) (point : Option ExitPoint) : State n :=
  { s with exits := Function.update s.exits i point }

def setStatus (i : Fin n) (status : ChildStatus) : State n :=
  s.setEntry i { s.entries i with status := status }

/-! ## Children -/

/-- `spawn`, where `spawnChild` answers with the process id. -/
def spawn (i : Fin n) (pid : Option Pid) : State n :=
  { s.setEntry i { s.entries i with
      handle := some ⟨pid⟩, status := .running, lastPid := pid, spawnedAtMs := s.nowMs } with
    spawned := (pid.toList.map fun p => (i, p)) ++ s.spawned
    hasMembers := fun p => if some p = pid then true else s.hasMembers p }

/-- No process id that was ever handed out. -/
def IsFresh (pid : Option Pid) : Prop := ∀ p ∈ pid, p ∉ s.spawned.map Prod.snd

instance (pid : Option Pid) : Decidable (s.IsFresh pid) :=
  inferInstanceAs (Decidable (∀ p ∈ pid, _))

/-- The loop of `start`. -/
def spawnEach : List (Fin n) → (Fin n → Option Pid) → State n → Option (State n)
  | [], _, s => some s
  | i :: rest, pids, s =>
      if s.IsFresh (pids i) then spawnEach rest pids (s.spawn i (pids i)) else none

/-- The text of an exit. -/
def exitText (code : Option ℤ) (signal : Option String) : String :=
  match signal.filter (· ≠ "") with
  | some name => "signal " ++ name
  | none => "code " ++ (code.map toString).getD "unknown"

/-- `handleExit` to its first `await`. -/
def handleExit (i : Fin n) (code : Option ℤ) (signal : Option String) : State n :=
  let entry := { s.entries i with lastExit := some (exitText code signal), handle := none }
  if s.stopping then
    s.setEntry i { entry with status := .stopped }
  else
    let uptimeMs := s.nowMs - entry.spawnedAtMs
    let before := if STABLE_RESET_MS ≤ uptimeMs then 0 else entry.consecutiveFailures
    let entry := { entry with consecutiveFailures := before + 1, status := .backoff }
    (((s.setEntry i entry).publish).setExit i
      (some (.publishing (backoffDelayMs entry.consecutiveFailures))))

/-- `handleExit` returns with the entry stopped. -/
def giveUp (i : Fin n) : State n := (s.setStatus i .stopped).setExit i none

/-- The end of `reapGroup`. -/
def concludeReap (i : Fin n) (pid : Pid) : State n :=
  s.setExit i (some (.reaped (!s.groupAlive pid)))

/-- The condition of the second loop of `reapGroup`, and what comes after the loop. -/
def pollReapKilled (i : Fin n) (pid : Pid) (waited : ℕ) : State n :=
  if waited < STOP_KILL_GRACE_MS ∧ s.groupAlive pid then
    s.setExit i (some (.reaping pid .SIGKILL waited))
  else s.concludeReap i pid

/-- The condition of the first loop of `reapGroup`, and what comes after the loop. -/
def pollReapTermed (i : Fin n) (pid : Pid) (waited : ℕ) : State n :=
  if waited < STOP_TERM_GRACE_MS ∧ s.groupAlive pid then
    s.setExit i (some (.reaping pid .SIGTERM waited))
  else if s.groupAlive pid then (s.killGroup pid .SIGKILL).pollReapKilled i pid 0
  else s.concludeReap i pid

def pollReap (i : Fin n) (pid : Pid) : Signal → ℕ → State n
  | .SIGTERM => s.pollReapTermed i pid
  | .SIGKILL => s.pollReapKilled i pid

/-- `reapGroup` to its first `await`. -/
def reapGroup (i : Fin n) : State n :=
  match (s.entries i).lastPid with
  | none => s.setExit i (some (.reaped true))
  | some pid =>
      if s.groupAlive pid then
        (s.killGroup pid .SIGTERM).pollReapTermed i pid 0
      else s.setExit i (some (.reaped true))

/-- `handleExit` from one `await` to the next. The answer of `spawnChild` is only asked for where
the child is spawned; the publication that follows the spawn changes nothing. -/
def proceed (i : Fin n) (pid : Option Pid) : Option (State n) :=
  match s.exits i with
  | none => none
  | some (.publishing delay) => some (s.setExit i (some (.backingOff delay)))
  | some (.backingOff _) => some (if s.stopping then s.giveUp i else s.reapGroup i)
  | some (.reaping group signal waited) => some (s.pollReap i group signal (waited + pollMs))
  | some (.reaped false) =>
      some (if s.stopping then s.giveUp i
        else ((s.setStatus i .backoff).publish).setExit i (some .publishingSurvivor))
  | some .publishingSurvivor => some (s.setExit i (some .retrying))
  | some .retrying => some (s.reapGroup i)
  | some (.reaped true) =>
      if s.stopping then some (s.giveUp i)
      else if s.IsFresh pid then
        let counted := s.setEntry i { s.entries i with restarts := (s.entries i).restarts + 1 }
        some (((counted.spawn i pid).setExit i none).publish)
      else none

/-! ## The stop -/

/-- The signal to every running child. -/
def signalChildren (signal : Signal) : State n :=
  { s with childSignals :=
      ((List.finRange n).filterMap fun i =>
        (s.entries i).runningHandle.map fun handle => (handle.pid, signal)).reverse ++
        s.childSignals }

/-- Every other entry is stopped. -/
def stopOthers : State n :=
  { s with entries := fun i =>
      if (s.entries i).runningHandle.isSome then s.entries i
      else { s.entries i with status := .stopped } }

def lingeringGroups : List Pid :=
  (List.finRange n).filterMap fun i => (s.entries i).lastPid.filter s.groupAlive

/-- The signal to every group that still has members. -/
def signalGroups (signal : Signal) : State n :=
  { s with groupSignals :=
      (s.lingeringGroups.map fun pid => (pid, signal)).reverse ++ s.groupSignals }

def setStop (point : StopPoint) : State n := { s with stop := some point }

/-- The condition of the loop of `waitForAllStopped`. -/
def waitForAllStopped (signal : Signal) (waited : ℕ) : State n :=
  if waited < graceMs signal ∧ s.allStopped = false then s.setStop (.waiting signal waited)
  else s.setStop (.waited signal)

/-- The condition of the second loop of `sweepProcessGroups`, and what comes after the loop. -/
def pollSweepKilled (waited : ℕ) : State n :=
  if waited < STOP_KILL_GRACE_MS ∧ s.lingeringGroups ≠ [] then
    s.setStop (.sweeping .SIGKILL waited)
  else s.setStop .swept

/-- The condition of the first loop of `sweepProcessGroups`, and what comes after the loop. -/
def pollSweepTermed (waited : ℕ) : State n :=
  if waited < STOP_TERM_GRACE_MS ∧ s.lingeringGroups ≠ [] then
    s.setStop (.sweeping .SIGTERM waited)
  else (s.signalGroups .SIGKILL).pollSweepKilled 0

def pollSweep : Signal → ℕ → State n
  | .SIGTERM => s.pollSweepTermed
  | .SIGKILL => s.pollSweepKilled

/-- `sweepProcessGroups` to its first `await`. -/
def sweepProcessGroups : State n :=
  if s.lingeringGroups = [] then s.setStop .swept
  else (s.signalGroups .SIGTERM).pollSweepTermed 0

/-- `stop` to its first `await`. -/
def beginStop : State n :=
  ((s.signalChildren .SIGTERM).stopOthers).waitForAllStopped .SIGTERM 0

/-- `stop` from one `await` to the next. -/
def proceedStop : Option (State n) :=
  match s.stop with
  | none => none
  | some (.waiting signal waited) => some (s.waitForAllStopped signal (waited + pollMs))
  | some (.waited .SIGTERM) => some ((s.signalChildren .SIGKILL).waitForAllStopped .SIGKILL 0)
  | some (.waited .SIGKILL) => some s.sweepProcessGroups
  | some (.sweeping signal waited) => some (s.pollSweep signal (waited + pollMs))
  | some .swept => some (s.publish.setStop .publishing)
  | some .publishing => some (s.setStop .returned)
  | some .returned => none

end State

/-! ## The system -/

inductive Action (n : ℕ)
  /-- `start`, with the answers of `spawnChild`. -/
  | start (pids : Fin n → Option Pid)
  /-- The exit event of a child. -/
  | childExit (i : Fin n) (code : Option ℤ) (signal : Option String)
  /-- What `handleExit` awaits is over; a spawn is answered with this process id. -/
  | proceed (i : Fin n) (pid : Option Pid)
  /-- `stop` is called. -/
  | stop
  /-- What `stop` awaits is over. -/
  | proceedStop
  /-- The last member of a process group is gone. -/
  | groupEnds (pid : Pid)
  | tick (ms : ℕ)

open State

variable {n : ℕ}

/-- One step of the supervisor or of its host. A process group that has ended gets no members
again, and no process id is handed out twice. -/
def step (s : State n) : Action n → Option (State n)
  | .start pids =>
      if s.started then none
      else (spawnEach (List.finRange n) pids s).map fun t => { t.publish with started := true }
  | .childExit i code signal =>
      if (s.entries i).handle.isSome then some (s.handleExit i code signal) else none
  | .proceed i pid => s.proceed i pid
  | .stop => if s.started ∧ s.stop = none then some s.beginStop else none
  | .proceedStop => s.proceedStop
  | .groupEnds pid => some { s with hasMembers := Function.update s.hasMembers pid false }
  | .tick ms => some { s with nowMs := s.nowMs + ms }

/-- What the constructor makes of the processes. -/
def init (keys : Fin n → String) (nowMs : ℕ) : State n where
  entries := fun i => Entry.new (keys i)
  exits := fun _ => none
  stop := none
  started := false
  nowMs := nowMs
  published := []
  childSignals := []
  groupSignals := []
  spawned := []
  hasMembers := fun _ => false

/-- The supervisor of `n` processes. -/
def machine (n : ℕ) : Machine (State n) (Action n) where
  init s := ∃ keys nowMs, s = init keys nowMs
  step := step

end Eveland.Supervisor
