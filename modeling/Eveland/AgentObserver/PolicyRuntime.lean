/-
# The telemetry runtime that a policy manages

An agent's events go to a telemetry runtime, which the observability policy asks for or not. The
policy is loaded again when it is due, by the capture that finds it so; captures in the meantime
wait for the same load. A new revision has a runtime created in place of the active one, which is
shut down; a policy that fails to load, or asks for none, has it shut down without one in its place.
`shutdown` shuts the active runtime down for good.

Each call runs up to the point where it waits, and the waiting calls go on in any order.
-/

import Eveland.Foundations.Machine
import Mathlib.Data.Int.Notation

namespace Eveland.PolicyRuntime

/-! ## State -/

/-- What `reload` reads of `RuntimeAgentPolicy`. -/
structure RuntimeAgentPolicy where
  revision : ℕ
  /-- `capture.enabled`. -/
  captureEnabled : Bool
  deriving DecidableEq, Repr

/-- The active runtime, with the revision of its policy. -/
structure Active where
  revision : ℕ
  runtime : ℕ
  deriving DecidableEq, Repr

/-- What a reload waits for. -/
inductive Reload
  /-- `loadPolicy`. -/
  | loading
  /-- The shutdown of the runtime it has replaced or disabled, if any. -/
  | stopping
  deriving DecidableEq, Repr

/-- A call of `capture` that waits, for the reload in flight or for its turn only. -/
structure Capture where
  event : String
  awaitsReload : Bool
  deriving DecidableEq, Repr

/-- What happens to the runtimes. -/
inductive Event
  | created (runtime : ℕ)
  /-- The runtime's `shutdown` is called. -/
  | shutdown (runtime : ℕ)
  /-- The runtime's `capture` is called. -/
  | captured (runtime : ℕ) (event : String)
  /-- The runtime's `forceFlush` is called. -/
  | flushed (runtime : ℕ)
  /-- A call of the manager's `shutdown` returns. -/
  | returned
  deriving DecidableEq, Repr

structure State where
  active : Option Active
  nextRefreshAt : ℤ
  /-- `refreshPromise`. -/
  reload : Option Reload
  stopped : Bool
  /-- The call of `shutdown` that has stopped the manager has not returned. -/
  closing : Bool
  captures : List Capture
  /-- How many runtimes have been created. -/
  runtimes : ℕ
  events : List Event
  /-- A reload has created a runtime after the manager was stopped. -/
  late : Bool
  deriving DecidableEq, Repr

inductive Action
  /-- `capture` is called. The clock is read twice. -/
  | capture (event : String) (now later : ℤ)
  /-- The load of the policy ends, with a policy unless it fails or the policy is invalid. The flag
  says whether `createRuntime` would succeed. -/
  | loaded (policy : Option RuntimeAgentPolicy) (creates : Bool)
  /-- The reload ends. -/
  | reloaded
  /-- A capture that waits goes on. -/
  | resume (index : ℕ)
  | forceFlush
  | shutdown
  /-- The call of `shutdown` that has stopped the manager returns. -/
  | shutdownReturns
  deriving DecidableEq, Repr

/-! ## Steps -/

namespace State

variable (s : State)

/-- `stopRuntime` of the active runtime, up to where it waits. -/
def stopActive : List Event := s.active.toList.map fun active => .shutdown active.runtime

/-- `disable`, up to where it waits. -/
def disable : State := { s with active := none, events := s.events ++ s.stopActive }

/-- Whether a reload creates a runtime for the policy it has loaded. -/
def creates (policy : Option RuntimeAgentPolicy) (creates : Bool) : Bool :=
  match policy with
  | none => false
  | some policy =>
      policy.captureEnabled && decide (s.active.map Active.revision ≠ some policy.revision) &&
        creates

/-- `reload`, from the load of the policy up to where it waits. -/
def applyPolicy (policy : Option RuntimeAgentPolicy) (creates : Bool) : State :=
  match policy with
  | none => s.disable
  | some policy =>
      if !policy.captureEnabled then s.disable
      else if s.active.map Active.revision = some policy.revision then s
      else if !creates then s.disable
      else
        { s with
          active := some ⟨policy.revision, s.runtimes⟩
          runtimes := s.runtimes + 1
          events := s.events ++ .created s.runtimes :: s.stopActive
          late := s.late || s.stopped }

/-- `capture`, and `refreshIfDue`, up to where they wait. -/
def capture (refreshIntervalMillis : ℤ) (event : String) (now later : ℤ) : State :=
  if s.stopped then s
  else if s.reload.isSome then { s with captures := s.captures ++ [⟨event, true⟩] }
  else if now < s.nextRefreshAt then { s with captures := s.captures ++ [⟨event, false⟩] }
  else
    { s with
      nextRefreshAt := later + refreshIntervalMillis
      reload := some .loading
      captures := s.captures ++ [⟨event, true⟩] }

/-- `active?.runtime.capture(event, context)`. -/
def captureActive (event : String) : List Event :=
  s.active.toList.map fun active => .captured active.runtime event

def step (refreshIntervalMillis : ℤ) : Action → Option State
  | .capture event now later => some (s.capture refreshIntervalMillis event now later)
  | .loaded policy creates =>
      if s.reload = some .loading then
        some { s.applyPolicy policy creates with reload := some .stopping }
      else none
  | .reloaded =>
      if s.reload = some .stopping then
        some
          { s with
            reload := none
            captures := s.captures.map fun capture => { capture with awaitsReload := false } }
      else none
  | .resume index =>
      match s.captures[index]? with
      | none => none
      | some capture =>
          if capture.awaitsReload then none
          else
            some
              { s with
                captures := s.captures.eraseIdx index
                events := s.events ++ s.captureActive capture.event }
  | .forceFlush =>
      if s.stopped then some s
      else
        some
          { s with
            events := s.events ++ s.active.toList.map fun active => .flushed active.runtime }
  | .shutdown =>
      if s.stopped then some { s with events := s.events ++ [.returned] }
      else some { s.disable with stopped := true, closing := true }
  | .shutdownReturns =>
      if s.closing then some { s with closing := false, events := s.events ++ [.returned] }
      else none

end State

/-- `createPolicyManagedAgentTelemetry` has returned. -/
def initial : State where
  active := none
  nextRefreshAt := 0
  reload := none
  stopped := false
  closing := false
  captures := []
  runtimes := 0
  events := []
  late := false

def machine (refreshIntervalMillis : ℤ) : Machine State Action where
  init := fun s => s = initial
  step := fun s a => s.step refreshIntervalMillis a

/-! ## What is left behind -/

/-- What must not happen after `shutdown` has returned. -/
def Event.isActivity : Event → Bool
  | .created _ | .captured _ _ => true
  | _ => false

/-- A runtime that has been created and not been shut down. -/
def State.IsRunning (s : State) (runtime : ℕ) : Prop :=
  .created runtime ∈ s.events ∧ .shutdown runtime ∉ s.events

/-- Nothing is created or captured once a call of `shutdown` has returned. -/
def QuietAfterReturn (events : List Event) : Prop :=
  ∀ before after, events = before ++ .returned :: after →
    ∀ event ∈ after, event.isActivity = false

/-- There is one running runtime at most; a runtime that has been created and is not active has
been shut down once; and after `shutdown` has returned there is no active one, and nothing is
created or captured. -/
structure LeavesNothing (s : State) : Prop where
  single : ∀ first second, s.IsRunning first → s.IsRunning second → first = second
  once : ∀ runtime, .created runtime ∈ s.events →
    s.active.map Active.runtime ≠ some runtime → s.events.count (.shutdown runtime) = 1
  inactive : .returned ∈ s.events → s.active = none
  quiet : QuietAfterReturn s.events

/-- The step goes wrong: a runtime is created after `shutdown` has returned, or has been created
late when it returns. -/
def State.outlives (s : State) : Action → Bool
  | .loaded policy creates => s.events.contains .returned && s.creates policy creates
  | .shutdown => s.stopped && s.late
  | .shutdownReturns => s.late
  | _ => false

end Eveland.PolicyRuntime
