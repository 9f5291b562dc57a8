/-
# The scheduler channel's dispatch of an authored handler

The channel runs the handler with a `to` and a `waitUntil` that collect the sends and tasks of the
dispatch, waits for what has been collected when the handler's own promise is settled, and
reports the sessions. A handler is any program: at any time while the dispatch is open it may
send, pass any promise to `waitUntil`, and create promises of its own; promises settle in any
order and with any outcome.
-/

import Mathlib.Data.List.Basic
import Mathlib.Data.List.Nodup
import Mathlib.Tactic.Common
import Eveland.Foundations.Machine

namespace Eveland.DispatchChannel

/-! ## Promises -/

/-- What a promise is rejected with: an `Error`, or another value as `String` shows it. -/
inductive Reason
  | error (name message : String)
  | value (text : String)
  deriving DecidableEq, Repr

/-- A promise. What it is fulfilled with is looked at for its `sessionId`. -/
inductive PromiseState
  | pending
  | fulfilled (sessionId : Option String)
  | rejected (reason : Reason)
  deriving DecidableEq, Repr

/-- `sessionIdOf`. -/
def sessionIdOf (sessionId : Option String) : Option String := sessionId.filter fun id => id ≠ ""

/-- The session a settled promise names. -/
def PromiseState.session : PromiseState → Option String
  | .fulfilled sessionId => sessionIdOf sessionId
  | _ => none

def PromiseState.rejection : PromiseState → Option Reason
  | .rejected reason => some reason
  | _ => none

/-- `isAmbiguousDispatchFailure`. -/
def isAmbiguousDispatchFailure : Reason → Bool
  | .error name _ => name = "HookNotFoundError"
  | .value _ => false

/-- The error that a rejection of the handler or of a task is thrown as. -/
def asError : Reason → Reason
  | .error name message => .error name message
  | .value text => .error "Error" text

/-- `describeScheduleFailure`, which keeps 2000 characters. -/
def describeScheduleFailure (reason : Reason) : String :=
  let message :=
    match reason with
    | .error name message => if message = "" then name else message
    | .value text => text
  String.ofList (message.toList.take 2000)

/-! ## Reports -/

/-- The `status` of a report. -/
inductive ReportStatus
  | succeeded
  | failed
  | dispatchUnknown
  deriving DecidableEq, Repr

/-- What the channel reports in the `complete` phase. -/
structure Report where
  sessionIds : List String
  status : ReportStatus
  error : Option String
  deriving DecidableEq, Repr

/-- The report of a dispatch that throws. -/
def failureReport (reason : Reason) : Report :=
  { sessionIds := []
    status := if isAmbiguousDispatchFailure reason then .dispatchUnknown else .failed
    error := some (describeScheduleFailure reason) }

/-- `sessionIds` with the session of one more result. -/
def addSession (sessionIds : List String) (result : PromiseState) : List String :=
  match result.session with
  | some id => if id ∈ sessionIds then sessionIds else sessionIds ++ [id]
  | none => sessionIds

/-- `sessionIds`, of the promises that were waited for. -/
def collectSessionIds (settled : List PromiseState) : List String :=
  settled.foldl addSession []

/-- The report of a dispatch whose handler has ended so and whose tasks have settled so. -/
def reportOf (runResult : Option Reason) (settled : List PromiseState) : Report :=
  match (runResult :: settled.map PromiseState.rejection).findSome? id with
  | some reason => failureReport (asError reason)
  | none => { sessionIds := collectSessionIds settled, status := .succeeded, error := none }

/-- The report of a dispatch to a Markdown schedule, whose one send has settled. -/
def markdownReport : PromiseState → Option Report
  | .pending => none
  | .fulfilled sessionId => some
      { sessionIds := (sessionIdOf sessionId).toList, status := .succeeded, error := none }
  | .rejected reason => some (failureReport reason)

/-! ## Dispatches -/

/-- How far the channel is. `collected` is what it waits for. -/
inductive Phase
  | running
  | ran (runResult : Option Reason)
  | waiting (runResult : Option Reason) (collected : List ℕ)
  | reported (collected : List ℕ) (report : Report)
  deriving DecidableEq, Repr

/-- An open dispatch. Promises are known by their place in the list. -/
structure Dispatch where
  promises : List PromiseState
  sendTasks : List ℕ
  waitUntilTasks : List ℕ
  phase : Phase
  deriving DecidableEq, Repr

/-- What may happen while a dispatch is open. -/
inductive Action
  | send
  | create
  | waitUntil (promise : ℕ)
  | settle (promise : ℕ) (outcome : PromiseState)
  | endRun (runResult : Option Reason)
  | throwNow (reason : Reason)
  | collect
  | complete
  deriving DecidableEq, Repr

namespace Dispatch

variable (d : Dispatch)

/-- The state of a promise; one that is not there is not settled. -/
def promise (p : ℕ) : PromiseState := (d.promises[p]?).getD .pending

/-- All that the handler has sent or passed to `waitUntil`. -/
def tasks : List ℕ := d.waitUntilTasks ++ d.sendTasks

def isOpen : Bool :=
  match d.phase with
  | .reported _ _ => false
  | _ => true

end Dispatch

/-- What happens, while the dispatch is open. -/
def step (d : Dispatch) : Action → Option Dispatch
  | .send =>
      if d.isOpen then
        some { d with
          promises := d.promises ++ [.pending]
          sendTasks := d.sendTasks ++ [d.promises.length] }
      else none
  | .create => if d.isOpen then some { d with promises := d.promises ++ [.pending] } else none
  | .waitUntil p =>
      if d.isOpen && p < d.promises.length then
        some { d with waitUntilTasks := d.waitUntilTasks ++ [p] }
      else none
  | .settle p outcome =>
      if d.isOpen && d.promises[p]? = some .pending then
        some { d with promises := d.promises.set p outcome }
      else none
  | .endRun runResult =>
      match d.phase with
      | .running => some { d with phase := .ran runResult }
      | _ => none
  | .throwNow reason =>
      match d.phase with
      | .running => some { d with phase := .reported [] (failureReport reason) }
      | _ => none
  | .collect =>
      match d.phase with
      | .ran runResult => some { d with phase := .waiting runResult d.tasks }
      | _ => none
  | .complete =>
      match d.phase with
      | .waiting runResult collected =>
          if collected.all fun p => d.promise p ≠ .pending then
            some { d with
              phase := .reported collected (reportOf runResult (collected.map d.promise)) }
          else none
      | _ => none

/-- A dispatch, from when the handler is called. -/
def machine : Machine Dispatch Action where
  init d := d = { promises := [], sendTasks := [], waitUntilTasks := [], phase := .running }
  step := step

/-- A report names, once, each session that a send has started, and nothing that was sent or
passed to `waitUntil` is pending or was rejected. -/
structure NamesEverySession (d : Dispatch) (report : Report) : Prop where
  once : report.sessionIds.Nodup
  named : ∀ p ∈ d.sendTasks, ∀ id, (d.promise p).session = some id → id ∈ report.sessionIds
  settled : ∀ p ∈ d.tasks, ∃ sessionId, d.promise p = .fulfilled sessionId

/-- What was sent or passed to `waitUntil` later than the channel has collected it was fulfilled
in time all the same; and a session that such a send has started is one that a collected task
names too. -/
structure LateTasksDone (d : Dispatch) (collected : List ℕ) : Prop where
  fulfilled : ∀ p ∈ d.tasks, p ∉ collected → ∃ sessionId, d.promise p = .fulfilled sessionId
  known : ∀ p ∈ d.sendTasks, p ∉ collected → ∀ id, (d.promise p).session = some id →
    ∃ q ∈ collected, (d.promise q).session = some id

/-! ## Reports of settled tasks -/

/-- One more result keeps the sessions apart, and adds its own. -/
theorem addSession_spec (sessionIds : List String) (result : PromiseState)
    (hnodup : sessionIds.Nodup) :
    (addSession sessionIds result).Nodup ∧
      ∀ id, id ∈ addSession sessionIds result ↔ id ∈ sessionIds ∨ result.session = some id := by
  unfold addSession
  cases hsession : result.session with
  | none => exact ⟨hnodup, by simp⟩
  | some new =>
      by_cases hold : new ∈ sessionIds
      · simp only [hold, if_true, Option.some.injEq]
        refine ⟨hnodup, fun id => ⟨Or.inl, ?_⟩⟩
        rintro (hin | rfl)
        · exact hin
        · exact hold
      · simp only [hold, if_false, List.mem_append, List.mem_singleton, Option.some.injEq]
        refine ⟨hnodup.append (List.nodup_singleton new) (by simpa using hold), fun id => ?_⟩
        rw [eq_comm]

/-- Collecting sessions one after the other keeps them apart and misses none. -/
theorem foldl_collect (settled : List PromiseState) (sessionIds : List String)
    (hnodup : sessionIds.Nodup) :
    (settled.foldl addSession sessionIds).Nodup ∧
      ∀ id, id ∈ settled.foldl addSession sessionIds ↔
        id ∈ sessionIds ∨ ∃ result ∈ settled, result.session = some id := by
  induction settled generalizing sessionIds with
  | nil => simp [hnodup]
  | cons result settled ih =>
      obtain ⟨hadded, hmem⟩ := addSession_spec sessionIds result hnodup
      obtain ⟨hnodup', hmem'⟩ := ih (addSession sessionIds result) hadded
      refine ⟨hnodup', fun id => ?_⟩
      rw [List.foldl_cons, hmem', hmem, List.exists_mem_cons_iff, or_assoc]

theorem collectSessionIds_nodup (settled : List PromiseState) :
    (collectSessionIds settled).Nodup :=
  (foldl_collect settled [] List.nodup_nil).1

theorem mem_collectSessionIds {settled : List PromiseState} {id : String} :
    id ∈ collectSessionIds settled ↔ ∃ result ∈ settled, result.session = some id := by
  rw [collectSessionIds, (foldl_collect settled [] List.nodup_nil).2 id]
  simp

theorem failureReport_status (reason : Reason) : (failureReport reason).status ≠ .succeeded := by
  unfold failureReport
  dsimp only
  split <;> simp

/-- A report of success is one of tasks that were not rejected, and names their sessions. -/
theorem reportOf_succeeded {runResult : Option Reason} {settled : List PromiseState}
    (hsucceeded : (reportOf runResult settled).status = .succeeded) :
    (∀ result ∈ settled, result.rejection = none) ∧
      (reportOf runResult settled).sessionIds = collectSessionIds settled := by
  unfold reportOf at hsucceeded ⊢
  split at hsucceeded
  · next reason _ => exact absurd hsucceeded (failureReport_status (asError reason))
  · next hnone =>
      refine ⟨fun result hmem => ?_, rfl⟩
      have hnot := List.findSome?_eq_none_iff.mp hnone result.rejection
        (List.mem_cons_of_mem _ (List.mem_map_of_mem hmem))
      simpa using hnot

/-! ## Runs -/

/-- What a report of success goes by. -/
structure Collected (d : Dispatch) (collected : List ℕ) (report : Report) : Prop where
  fulfilled : ∀ p ∈ collected, ∃ sessionId, d.promise p = .fulfilled sessionId
  sessionIds : report.sessionIds = collectSessionIds (collected.map d.promise)

/-- A report of success goes by tasks that were all fulfilled. -/
def Reported (d : Dispatch) : Prop :=
  ∀ collected report, d.phase = .reported collected report → report.status = .succeeded →
    Collected d collected report

theorem PromiseState.fulfilled_of_settled {state : PromiseState} (hsettled : state ≠ .pending)
    (hrejection : state.rejection = none) : ∃ sessionId, state = .fulfilled sessionId := by
  cases state with
  | pending => exact absurd rfl hsettled
  | fulfilled sessionId => exact ⟨sessionId, rfl⟩
  | rejected reason => cases hrejection

theorem Reported.step {d e : Dispatch} {a : Action} (hstep : step d a = some e) : Reported e := by
  intro collected report hphase hsucceeded
  cases a with
  | complete =>
      simp only [DispatchChannel.step] at hstep
      split at hstep
      · next runResult waited _ =>
          split at hstep <;> cases hstep
          next hall =>
          obtain ⟨rfl, rfl⟩ := Phase.reported.inj hphase
          obtain ⟨hrejections, hids⟩ := reportOf_succeeded hsucceeded
          refine ⟨fun p hp => ?_, hids⟩
          apply PromiseState.fulfilled_of_settled
          · exact of_decide_eq_true (List.all_eq_true.mp hall p hp)
          · exact hrejections _ (List.mem_map_of_mem hp)
      · cases hstep
  | throwNow reason =>
      simp only [DispatchChannel.step] at hstep
      split at hstep <;> cases hstep
      obtain ⟨_, rfl⟩ := Phase.reported.inj hphase
      exact absurd hsucceeded (failureReport_status reason)
  | endRun runResult =>
      simp only [DispatchChannel.step] at hstep
      split at hstep <;> cases hstep
      cases hphase
  | collect =>
      simp only [DispatchChannel.step] at hstep
      split at hstep <;> cases hstep
      cases hphase
  | send | create | waitUntil p | settle p outcome =>
      -- The dispatch is open before these, and stays so.
      simp only [DispatchChannel.step] at hstep
      split at hstep
      · next hopen =>
          cases hstep
          simp [Dispatch.isOpen, show d.phase = .reported collected report from hphase] at hopen
      · cases hstep

/-- In every run, a report of success names every session, with no task pending or rejected,
exactly when what the handler has sent or passed to `waitUntil` after the channel collected its
tasks was done in time all the same. -/
theorem reports_name_every_session_iff {d e : Dispatch} {actions : List Action}
    {collected : List ℕ} {report : Report} (hinit : machine.init d)
    (hrun : machine.exec d actions = some e) (hreported : e.phase = .reported collected report)
    (hsucceeded : report.status = .succeeded) :
    NamesEverySession e report ↔ LateTasksDone e collected := by
  have hstart : Reported d := by
    intro collected report hphase
    rw [hinit] at hphase
    cases hphase
  have hcollected : Collected e collected report := by
    have hreach := machine.exec_invariant (G := fun _ _ => True)
      (fun _ _ _ _ _ hstep => Reported.step hstep) hstart (machine.meets_true d actions) hrun
    exact hreach collected report hreported hsucceeded
  have hmem : ∀ id, id ∈ report.sessionIds ↔ ∃ q ∈ collected, (e.promise q).session = some id := by
    intro id
    rw [hcollected.sessionIds, mem_collectSessionIds]
    simp
  constructor
  · intro hnames
    refine ⟨fun p hp _ => hnames.settled p hp, fun p hp _ id hid => ?_⟩
    exact (hmem id).mp (hnames.named p hp id hid)
  · intro hlate
    refine ⟨?_, fun p hp id hid => (hmem id).mpr ?_, fun p hp => ?_⟩
    · rw [hcollected.sessionIds]
      exact collectSessionIds_nodup _
    · by_cases hin : p ∈ collected
      · exact ⟨p, hin, hid⟩
      · exact hlate.known p hp hin id hid
    · by_cases hin : p ∈ collected
      · exact hcollected.fulfilled p hin
      · exact hlate.fulfilled p hp hin

/-! ## Handlers that call nothing late -/

/-- The handler neither sends nor passes on a task when the channel has collected them. -/
def InTime (d : Dispatch) : Action → Bool
  | .send | .waitUntil _ =>
      match d.phase with
      | .waiting _ _ => false
      | _ => true
  | _ => true

/-- What the channel has collected is all there is. -/
def CollectedAll (d : Dispatch) : Prop :=
  match d.phase with
  | .waiting _ collected => d.tasks = collected
  | .reported collected report => report.status = .succeeded → d.tasks = collected
  | _ => True

theorem CollectedAll.step {d e : Dispatch} {a : Action} (h : CollectedAll d)
    (hintime : InTime d a = true) (hstep : DispatchChannel.step d a = some e) :
    CollectedAll e := by
  cases a with
  | complete =>
      simp only [DispatchChannel.step] at hstep
      split at hstep
      · next runResult waited hphase =>
          split at hstep <;> cases hstep
          simp only [CollectedAll, hphase] at h
          exact fun _ => h
      · cases hstep
  | throwNow reason =>
      simp only [DispatchChannel.step] at hstep
      split at hstep <;> cases hstep
      exact fun hsucceeded => absurd hsucceeded (failureReport_status reason)
  | endRun runResult =>
      simp only [DispatchChannel.step] at hstep
      split at hstep <;> cases hstep
      trivial
  | collect =>
      simp only [DispatchChannel.step] at hstep
      split at hstep <;> cases hstep
      rfl
  | create | settle p outcome =>
      simp only [DispatchChannel.step] at hstep
      split at hstep <;> cases hstep
      exact h
  | send | waitUntil p =>
      simp only [DispatchChannel.step] at hstep
      split at hstep <;> cases hstep
      next hopen =>
      -- Neither waiting, for that is too late, nor reported, for then the dispatch is closed.
      cases hphase : d.phase with
      | waiting runResult collected => simp [InTime, hphase] at hintime
      | reported collected report => simp [Dispatch.isOpen, hphase] at hopen
      | running => simp [CollectedAll]
      | ran runResult => simp [CollectedAll]

/-- A handler that neither sends nor passes on a task after the channel has collected them is
reported with every session it has started. -/
theorem reports_name_every_session_of_inTime {d e : Dispatch} {actions : List Action}
    {collected : List ℕ} {report : Report} (hinit : machine.init d)
    (hrun : machine.exec d actions = some e) (hreported : e.phase = .reported collected report)
    (hsucceeded : report.status = .succeeded)
    (hintime : machine.Meets (fun d a => InTime d a = true) d actions) :
    NamesEverySession e report := by
  rw [reports_name_every_session_iff hinit hrun hreported hsucceeded]
  have hstart : CollectedAll d := by
    rw [hinit]
    trivial
  have hall := machine.exec_invariant (fun _ _ _ h hintime hstep => h.step hintime hstep) hstart
    hintime hrun
  simp only [CollectedAll, hreported] at hall
  have htasks := hall hsucceeded
  have hsends : ∀ p ∈ e.sendTasks, p ∈ collected := by
    intro p hp
    rw [← htasks]
    exact List.mem_append_right _ hp
  exact ⟨fun p hp hnot => absurd (htasks ▸ hp) hnot, fun p hp hnot => absurd (hsends p hp) hnot⟩

/-! ## Two handlers -/

/-- A handler is called. -/
def opened : Dispatch :=
  { promises := [], sendTasks := [], waitUntilTasks := [], phase := .running }

/-- The handler sends, and passes the send to `waitUntil` as well. -/
def sendsAtOnce : List Action :=
  [.send, .waitUntil 0, .endRun none, .collect, .settle 0 (.fulfilled (some "session")),
    .complete]

/-- Where that ends. -/
def sentAtOnce : Dispatch :=
  { promises := [.fulfilled (some "session")]
    sendTasks := [0]
    waitUntilTasks := [0]
    phase := .reported [0, 0] { sessionIds := ["session"], status := .succeeded, error := none } }

theorem reports_name_every_session_iff_sendsAtOnce :
    machine.exec opened sendsAtOnce = some sentAtOnce ∧
      NamesEverySession sentAtOnce
        { sessionIds := ["session"], status := .succeeded, error := none } := by
  have hrun : machine.exec opened sendsAtOnce = some sentAtOnce := rfl
  refine ⟨hrun, (reports_name_every_session_iff rfl hrun rfl rfl).mpr ?_⟩
  constructor
  · simp [Dispatch.tasks, sentAtOnce]
  · simp [sentAtOnce]

/-- The handler passes a task of its own to `waitUntil` and ends; the task then sends, waits for
the send, and ends. -/
def sendsFromTask : List Action :=
  [.create, .waitUntil 0, .endRun none, .collect, .send, .settle 1 (.fulfilled (some "session")),
    .settle 0 (.fulfilled none), .complete]

/-- The report of success names no session. -/
theorem session_of_late_send_is_not_named :
    ¬ ∀ (d e : Dispatch) (actions : List Action) (collected : List ℕ) (report : Report),
      machine.init d → machine.exec d actions = some e →
        e.phase = .reported collected report → report.status = .succeeded →
          NamesEverySession e report := by
  intro hall
  have hnames := hall opened _ sendsFromTask _ _ rfl rfl rfl rfl
  have hnamed := hnames.named 1 (by decide) "session" rfl
  exact absurd hnamed (by decide)

end Eveland.DispatchChannel
