/-
# Sessions, ingestion and schedule runs as a machine

A step is one call of the store, or a change of a table that only other operations write. A call
that throws leaves the store as it was. The machine starts with none of its own rows.
-/

import Eveland.Foundations.Machine
import Eveland.Telemetry.Operations

namespace Eveland.Telemetry

/-- The calls of the session, observability and schedule stores, with what each draws. -/
inductive Action
  | createSession (id projectId : String) (deploymentId eveSessionId : Option String)
      (trigger : SessionTrigger) (scheduleId : Option String) (now : ℤ)
  | bindSession (binding : SessionBinding)
  | appendSessionEvent (sessionId type : String) (payload : Json) (id : String) (now : ℤ)
  | recordModelUsage (sessionId : String) (usage : ModelUsageInput) (id : String)
  | completeSession (sessionId : String) (input : CompleteSessionInput) (now : ℤ)
  | failRunningSessionsForRuntimeInstance (runtimeInstanceId reason : String)
      (newId : ℕ → String) (now : ℤ)
  | ingestAgentEvent (o : AgentEventObservation) (ids : IngestIds) (now : ℤ)
  | createScheduleRun (id scheduleId deploymentId : String) (trigger : ScheduleStore.Trigger)
      (now : ℤ)
  | claimScheduleRunActivation (scheduleRunId : String) (now staleAfterMs : ℤ)
  | redeemScheduleRunDispatch (scheduleRunId deploymentId : String) (now : ℤ)
  | completeScheduleRun (scheduleRunId : String) (input : CompleteRunInput) (newId : ℕ → String)
      (now : ℤ)
  | failScheduleExecutionsForRuntimeInstance (runtimeInstanceId reason : String)
      (newId : ℕ → String) (now : ℤ)
  | failExpiredScheduleExecutions (limit : ℕ) (newId : ℕ → ℕ → String) (now : ℤ)
  | pruneDerivedAgentTelemetry (before : ℤ)
  /-- Deployments, instances, bindings, schedules or leases change by another operation. -/
  | elsewhere (next : Surroundings) (leases : List RuntimeStore.ActivationLease)

/-- What a call does to the store. -/
def call (s : Store) : Action → Except String Store
  | .createSession id projectId deploymentId eveSessionId trigger scheduleId now =>
      createSession s id projectId deploymentId eveSessionId trigger scheduleId now
  | .bindSession binding => .ok (bindSession s binding)
  | .appendSessionEvent sessionId type payload id now =>
      (appendSessionEvent s sessionId type payload id now).map Prod.fst
  | .recordModelUsage sessionId usage id => (recordModelUsage s sessionId usage id).map Prod.fst
  | .completeSession sessionId input now => completeSession s sessionId input now
  | .failRunningSessionsForRuntimeInstance runtimeInstanceId reason newId now =>
      failRunningSessionsForRuntimeInstance s runtimeInstanceId reason newId now
  | .ingestAgentEvent o ids now => (ingestAgentEvent s o ids now).map Prod.fst
  | .createScheduleRun id scheduleId deploymentId trigger now =>
      insertRun s (queuedRun id scheduleId deploymentId trigger now)
  | .claimScheduleRunActivation scheduleRunId now staleAfterMs =>
      .ok (claimScheduleRunActivation s scheduleRunId now staleAfterMs).1
  | .redeemScheduleRunDispatch scheduleRunId deploymentId now =>
      .ok (redeemScheduleRunDispatch s scheduleRunId deploymentId now).1
  | .completeScheduleRun scheduleRunId input newId now =>
      (completeScheduleRun s scheduleRunId input newId now).map Prod.fst
  | .failScheduleExecutionsForRuntimeInstance runtimeInstanceId reason newId now =>
      failScheduleExecutionsForRuntimeInstance s runtimeInstanceId reason newId now
  | .failExpiredScheduleExecutions limit newId now =>
      failExpiredScheduleExecutions s limit newId now
  | .pruneDerivedAgentTelemetry before => .ok (pruneDerivedAgentTelemetry s before)
  | .elsewhere next leases => .ok { s with toSurroundings := next, leases }

/-- The store after a call, whether it throws or not. -/
def perform (s : Store) (a : Action) : Store := (call s a).toOption.getD s

/-- A store without any session, node, event, usage, run or execution. -/
structure Store.Initial (s : Store) : Prop where
  sessions : s.sessions = []
  nodes : s.nodes = []
  events : s.events = []
  usage : s.usage = []
  runs : s.runs = []
  executions : s.executions = []

/-- The store of sessions as a machine. -/
def system : Machine Store Action where
  init := Store.Initial
  step s a := some (perform s a)

/-- A step is a call that ended, or one that threw and changed nothing. -/
theorem perform_cases (s : Store) (a : Action) :
    call s a = .ok (perform s a) ∨ perform s a = s := by
  rw [perform]
  cases hcall : call s a with
  | ok t => exact Or.inl rfl
  | error e => exact Or.inr rfl

/-- The calls that delete what was recorded. -/
def Action.prunes : Action → Bool
  | .pruneDerivedAgentTelemetry _ => true
  | _ => false

theorem call_writes {s t : Store} {a : Action} (hkeyed : Keyed s) (hkept : a.prunes = false)
    (hcall : call s a = .ok t) : Writes s t := by
  cases a with
  | createSession => exact Relation.ReflTransGen.single (insertSession_write rfl hcall)
  | bindSession binding =>
      cases hcall
      exact bindSession_writes s binding
  | appendSessionEvent =>
      obtain ⟨⟨after, row⟩, happend, rfl⟩ := Outcome.map_eq_ok.mp hcall
      exact Relation.ReflTransGen.single
        (appendSessionEventRow_write (Store.ownsEvent_of_none rfl) happend)
  | recordModelUsage =>
      obtain ⟨⟨after, row⟩, hrecord, rfl⟩ := Outcome.map_eq_ok.mp hcall
      exact recordModelUsage_writes hrecord
  | completeSession => exact completeSession_writes hcall
  | failRunningSessionsForRuntimeInstance =>
      exact failRunningSessionsForRuntimeInstance_writes hcall
  | ingestAgentEvent =>
      obtain ⟨⟨after, result⟩, hingest, rfl⟩ := Outcome.map_eq_ok.mp hcall
      exact ingestAgentEvent_writes hkeyed hingest
  | createScheduleRun => exact Relation.ReflTransGen.single (insertRun_write hcall)
  | claimScheduleRunActivation =>
      cases hcall
      exact Relation.ReflTransGen.single (updateRun_write _ _ _ _)
  | redeemScheduleRunDispatch =>
      cases hcall
      exact Relation.ReflTransGen.single (updateRun_write _ _ _ _)
  | completeScheduleRun =>
      obtain ⟨⟨after, result⟩, hcomplete, rfl⟩ := Outcome.map_eq_ok.mp hcall
      exact completeScheduleRun_writes hcomplete
  | failScheduleExecutionsForRuntimeInstance =>
      exact failScheduleExecutionsForRuntimeInstance_writes hcall
  | failExpiredScheduleExecutions => exact failExpiredScheduleExecutions_writes hcall
  | pruneDerivedAgentTelemetry => cases hkept
  | elsewhere next leases =>
      cases hcall
      exact (Relation.ReflTransGen.single (Write.surroundings next)).tail (Write.leases leases)

/-- **Writes.** What every write keeps and pruning keeps, every step keeps. -/
theorem perform_induction {I : Store → Prop} {s : Store} {a : Action} (hkeyed : Keyed s)
    (hwrite : ∀ s t, Keyed s → Write s t → I s → I t)
    (hprune : ∀ s before, Keyed s → I s → I (pruneDerivedAgentTelemetry s before)) (hI : I s) :
    I (perform s a) := by
  rcases perform_cases s a with hcall | hsame
  · cases hprunes : a.prunes with
    | false =>
        have hwrites := call_writes hkeyed hprunes hcall
        generalize perform s a = t at hwrites ⊢
        -- Each write finds the keys in place.
        have hboth : Keyed t ∧ I t := by
          clear hcall
          induction hwrites with
          | refl => exact ⟨hkeyed, hI⟩
          | tail _ hstep ih => exact ⟨hstep.keyed ih.1, hwrite _ _ ih.1 hstep ih.2⟩
        exact hboth.2
    | true =>
        cases a with
        | pruneDerivedAgentTelemetry before => exact hprune s before hkeyed hI
        | _ => cases hprunes
  · rw [hsame]
    exact hI

theorem pruneDerivedAgentTelemetry_keyed {s : Store} (before : ℤ) (hkeyed : Keyed s) :
    Keyed (pruneDerivedAgentTelemetry s before) := by
  have hheld : ∀ {id}, s.HasSession id →
      (!s.sessions.any fun row => row.id = id && row.status ≠ .running &&
        row.completedAt.getD row.startedAt < before) = true →
      (pruneDerivedAgentTelemetry s before).HasSession id := by
    rintro _ ⟨row, hrow, rfl⟩ hkept
    exact ⟨row, List.mem_filter.mpr ⟨hrow, hkept⟩, rfl⟩
  have hrows : ∀ {ρ : Type} (column : ρ → String) {rows : List ρ},
      (∀ row ∈ rows, s.HasSession (column row)) →
      ∀ row ∈ rows.filter (fun row => !s.sessions.any fun session => session.id = column row &&
        session.status ≠ .running && session.completedAt.getD session.startedAt < before),
      (pruneDerivedAgentTelemetry s before).HasSession (column row) := by
    intro ρ column rows hall row hrow
    obtain ⟨hmem, hkept⟩ := List.mem_filter.mp hrow
    exact hheld (hall row hmem) hkept
  exact {
    sessionIds := hkeyed.sessionIds.sublist (List.filter_sublist.map _)
    nodeIds := hkeyed.nodeIds.sublist (List.filter_sublist.map _)
    nodesHeld := hrows SessionNode.rootSessionId hkeyed.nodesHeld
    eventsHeld := hrows (fun row : SessionEvent => row.sessionId) hkeyed.eventsHeld
    eventsOwned := by
      intro event hevent nodeId hnodeId
      obtain ⟨hmem, hkept⟩ := List.mem_filter.mp hevent
      obtain ⟨node, hnode, hid, hroot, hobserved⟩ := hkeyed.eventsOwned event hmem nodeId hnodeId
      exact ⟨node, List.mem_filter.mpr ⟨hnode, hroot ▸ hkept⟩, hid, hroot, hobserved⟩
    usageHeld := hrows ModelUsageEvent.sessionId hkeyed.usageHeld
    executionsHeld := hrows ScheduleRunSession.sessionId hkeyed.executionsHeld }

theorem Store.Initial.keyed {s : Store} (hinit : s.Initial) : Keyed s where
  sessionIds := by simp [hinit.sessions, Table.UniqueOn]
  nodeIds := by simp [hinit.nodes, Table.UniqueOn]
  nodesHeld := by simp [hinit.nodes]
  eventsHeld := by simp [hinit.events]
  eventsOwned := by simp [hinit.events]
  usageHeld := by simp [hinit.usage]
  executionsHeld := by simp [hinit.executions]

theorem perform_keyed {s : Store} {a : Action} (hkeyed : Keyed s) : Keyed (perform s a) :=
  perform_induction hkeyed (fun _ _ hkeyed hwrite _ => hwrite.keyed hkeyed)
    (fun _ before hkeyed _ => pruneDerivedAgentTelemetry_keyed before hkeyed) hkeyed

/-- The keys are in place in every reachable state. -/
theorem reachable_keyed {s : Store} (hreachable : system.Reachable s) : Keyed s := by
  refine hreachable.invariant (fun s (hinit : s.Initial) => hinit.keyed) ?_
  intro s a t hkeyed hstep
  cases hstep
  exact perform_keyed hkeyed

/-! ## A project to run -/

/-- A project with one deployment, one instance of it and one schedule. -/
def sampleStore : Store where
  deployments := [{ id := "deployment", projectId := "shop", status := .running, hostPort := 4000 }]
  instances :=
    [{ id := "instance"
       deploymentId := "deployment"
       generation := 1
       status := .ready
       endpointPort := some 4000
       startedAt := some 0
       readyAt := some 0
       stoppedAt := none }]
  bindings := []
  schedules :=
    [{ id := "daily"
       projectId := "shop"
       key := "daily"
       enabled := true
       nextRunAt := none
       updatedAt := 0 }]
  sessions := []
  nodes := []
  events := []
  usage := []
  runs := []
  executions := []
  leases := []

theorem sampleStore_initial : sampleStore.Initial := ⟨rfl, rfl, rfl, rfl, rfl, rfl⟩

/-- An event that an agent of the project reports of its session. -/
def sampleObservation (id eveSessionId : String) (sourceSequence : Option ℕ) (type : String)
    (data : List (String × Json)) : AgentEventObservation where
  telemetryEventId := id
  eventFingerprint := id
  deploymentId := "deployment"
  runtimeInstanceId := some "instance"
  eveSessionId := eveSessionId
  parentEveSessionId := none
  sourceSequence := sourceSequence
  agent := { id := some "agent", name := some "Agent", nodeId := none }
  channelKind := none
  observedModelId := none
  eventAt := 1
  event := .obj [("type", .str type), ("data", .obj data)]

/-- The identifiers drawn for an event. -/
def sampleIds (id : String) : IngestIds where
  parentSession := "parent-session-" ++ id
  parentNode := "parent-node-" ++ id
  session := "session-" ++ id
  node := "node-" ++ id
  event := "event-" ++ id
  child := "child-" ++ id
  usage := "usage-" ++ id

/-- The ingestion of an event at a time. -/
def sampleIngest (id eveSessionId : String) (sourceSequence : Option ℕ) (type : String)
    (data : List (String × Json)) (now : ℤ) : Action :=
  .ingestAgentEvent (sampleObservation id eveSessionId sourceSequence type data) (sampleIds id) now

end Eveland.Telemetry
