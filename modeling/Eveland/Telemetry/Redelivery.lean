/-
# Redelivered observations

An observation that its node has recorded is not recorded again. The node and the trigger of its
session are updated from it before that is found out, though. A redelivery changes nothing exactly
when what this update reads off the observation is what is stored already.
-/

import Eveland.Telemetry.System

namespace Eveland.Telemetry

variable {s : Store}

/-! ## The update of one row -/

/-- An update of the row with a key changes nothing exactly when it leaves that row as it is. -/
theorem updateWhere_key_eq_self_iff {ρ : Type} (key : ρ → String) {rows : List ρ} {f : ρ → ρ}
    {row : ρ} (hunique : Table.UniqueOn key rows) (hrow : row ∈ rows)
    (hkey : ∀ row, key (f row) = key row) :
    Table.updateWhere (fun other => key other = key row) f rows = rows ↔ f row = row := by
  constructor
  · intro hsame
    have hmem : f row ∈ Table.updateWhere (fun other => key other = key row) f rows :=
      Table.mem_updateWhere.mpr (Or.inr ⟨row, hrow, by simp, rfl⟩)
    rw [hsame] at hmem
    exact hunique.eq hmem hrow (hkey row)
  · intro hsame
    apply Table.updateWhere_eq_self
    intro other hother hotherKey
    rw [decide_eq_true_eq] at hotherKey
    rw [hunique.eq hother hrow hotherKey]
    exact hsame

/-! ## What is read before the duplicate is found -/

/-- What an observation says of its node and its session before its event is looked at is what is
stored: the deployment and the instance only where nothing newer was recorded, the names and the
channel where it gives any, and the trigger where the node is a root whose session has none. -/
structure Agrees (s : Store) (o : AgentEventObservation) (node : SessionNode) : Prop where
  deployment : s.isNewestNodeObservation node.id o.sourceSequence = true →
    node.lastObservedDeploymentId = o.deploymentId
  runtimeInstance : s.isNewestNodeObservation node.id o.sourceSequence = true →
    ∀ id, o.runtimeInstanceId = some id → node.lastObservedRuntimeInstanceId = some id
  agentName : ∀ name, o.agent.name = some name → node.agentName = some name
  nodeId : ∀ id, o.agent.nodeId = some id → node.nodeId = some id
  channelKind : ∀ kind, o.channelKind = some kind → node.channelKind = some kind
  trigger : node.parentNodeId = none → ∀ row, s.getSession node.rootSessionId = some row →
    row.trigger = .directHttp → triggerFromAgentChannel o.channelKind = .directHttp

theorem or_eq_self_iff {α : Type} {given stored : Option α} :
    given.or stored = stored ↔ ∀ value, given = some value → stored = some value := by
  cases given with
  | none => simp
  | some value => simp [eq_comm]

/-- The update of a node that was observed before leaves it as it is. -/
theorem touchNode_eq_self_iff {o : AgentEventObservation} {isLatest : Bool} {node : SessionNode}
    (hobserved : node.resolutionStatus = .observed) :
    touchNode o isLatest node = node ↔
      (isLatest = true → node.lastObservedDeploymentId = o.deploymentId) ∧
      (isLatest = true → ∀ id, o.runtimeInstanceId = some id →
        node.lastObservedRuntimeInstanceId = some id) ∧
      (∀ name, o.agent.name = some name → node.agentName = some name) ∧
      (∀ id, o.agent.nodeId = some id → node.nodeId = some id) ∧
      ∀ kind, o.channelKind = some kind → node.channelKind = some kind := by
  have hfields : touchNode o isLatest node = node ↔
      (if isLatest then o.deploymentId else node.lastObservedDeploymentId) =
        node.lastObservedDeploymentId ∧
      (if isLatest then o.runtimeInstanceId.or node.lastObservedRuntimeInstanceId
        else node.lastObservedRuntimeInstanceId) = node.lastObservedRuntimeInstanceId ∧
      o.agent.name.or node.agentName = node.agentName ∧
      o.agent.nodeId.or node.nodeId = node.nodeId ∧
      o.channelKind.or node.channelKind = node.channelKind := by
    cases node
    simp only at hobserved
    simp [touchNode, hobserved]
  rw [hfields, or_eq_self_iff, or_eq_self_iff, or_eq_self_iff]
  cases isLatest with
  | false => simp
  | true =>
      rw [if_pos rfl, if_pos rfl, or_eq_self_iff, eq_comm]
      simp

theorem discoverTrigger_eq_self_iff {o : AgentEventObservation} {row : Session} :
    discoverTrigger o row = row ↔
      (row.trigger = .directHttp → triggerFromAgentChannel o.channelKind = .directHttp) := by
  rw [discoverTrigger]
  by_cases htrigger : row.trigger = .directHttp
  · rw [if_pos htrigger]
    cases row
    simp only at htrigger
    simp [htrigger]
  · simp [htrigger]

/-- A node that has recorded an observation has been observed. -/
theorem resolutionStatus_of_duplicate {o : AgentEventObservation} {node : SessionNode}
    {event : SessionEvent} (hkeyed : Keyed s) (hnode : node ∈ s.nodes)
    (hevent : s.findDuplicate node.id o = some event) : node.resolutionStatus = .observed := by
  have hmem := List.mem_of_find?_eq_some hevent
  have hselected := List.find?_some hevent
  simp only [Bool.and_eq_true, Bool.or_eq_true, decide_eq_true_eq] at hselected
  obtain ⟨hnodeId, hidentity⟩ := hselected
  have hsome : (event.telemetryEventId.isSome || event.eventFingerprint.isSome) = true := by
    rcases hidentity with htelemetryId | hfingerprint
    · simp [htelemetryId]
    · simp [hfingerprint]
  obtain ⟨row, hrow, hid, _, hobserved⟩ := hkeyed.eventsOwned event hmem node.id hnodeId
  rw [← hkeyed.nodeIds.eq hrow hnode hid]
  exact hobserved hsome

/-! ## Redelivery -/

/-- The store once a node that was found is updated from an observation. -/
def touched (s : Store) (o : AgentEventObservation) (node : SessionNode) (row : Session) : Store :=
  { s with
    nodes := Table.updateWhere (fun other => other.id = node.id)
      (touchNode o (s.isNewestNodeObservation node.id o.sourceSequence)) s.nodes
    sessions :=
      if node.parentNodeId.isNone then
        Table.updateWhere (fun other => other.id = row.id) (discoverTrigger o) s.sessions
      else s.sessions }

theorem resolveNode_eq_touched {o : AgentEventObservation} {node : SessionNode} {row : Session}
    (hrow : s.getSession node.rootSessionId = some row) :
    ∃ row', resolveNode s o node = .ok (touched s o node row, row',
      touchNode o (s.isNewestNodeObservation node.id o.sourceSequence) node,
      s.isNewestNodeObservation node.id o.sourceSequence) := by
  cases hparent : node.parentNodeId.isNone with
  | true =>
      refine ⟨discoverTrigger o row, ?_⟩
      simp [resolveNode, touched, hrow, hparent, Outcome.require, bind, Except.bind, pure,
        Except.pure]
  | false =>
      refine ⟨row, ?_⟩
      simp [resolveNode, touched, hrow, hparent, Outcome.require, bind, Except.bind, pure,
        Except.pure]

/-- A recorded observation only touches its node, and the trigger of its session at the root. -/
theorem perform_duplicate {o : AgentEventObservation} {ids : IngestIds} {now : ℤ}
    {deployment : RuntimeStore.Deployment} {node : SessionNode} {event : SessionEvent}
    {row : Session} (hmanaged : checkManaged s o = .ok deployment)
    (hnode : s.findNode deployment.projectId o.eveSessionId = some node)
    (hrow : s.getSession node.rootSessionId = some row)
    (hevent : s.findDuplicate node.id o = some event) :
    perform s (.ingestAgentEvent o ids now) = touched s o node row := by
  obtain ⟨row', hresolve⟩ := resolveNode_eq_touched (o := o) hrow
  have hduplicate : (touched s o node row).findDuplicate
      (touchNode o (s.isNewestNodeObservation node.id o.sourceSequence) node).id o =
      some event := hevent
  rw [perform, call, ingestAgentEvent, hmanaged]
  simp only [bind, Except.bind, locateNode, hnode, hresolve, hduplicate]
  rfl

/-- Redelivering an observation its node has recorded leaves the store as it is exactly when the
observation agrees with what is stored of its node and its session. -/
theorem redelivery_changes_nothing_iff {s₀ s : Store} {as : List Action} (hinit : s₀.Initial)
    (hrun : system.exec s₀ as = some s) {o : AgentEventObservation}
    {deployment : RuntimeStore.Deployment} {node : SessionNode} {event : SessionEvent}
    (hmanaged : checkManaged s o = .ok deployment)
    (hnode : s.findNode deployment.projectId o.eveSessionId = some node)
    (hevent : s.findDuplicate node.id o = some event) (ids : IngestIds) (now : ℤ) :
    perform s (.ingestAgentEvent o ids now) = s ↔ Agrees s o node := by
  have hkeyed : Keyed s := by
    refine system.exec_invariant (I := Keyed) (G := fun _ _ => True) ?_ hinit.keyed
      (system.meets_true s₀ as) hrun
    rintro s a _ hkeyed _ hstep
    cases hstep
    exact perform_keyed hkeyed
  have hmem := (Store.mem_of_findNode hnode).1
  obtain ⟨row, hrow⟩ := Option.isSome_iff_exists.mp
    (Store.getSession_isSome.mpr (hkeyed.nodesHeld node hmem))
  have hrowMem := List.mem_of_find?_eq_some hrow
  rw [perform_duplicate hmanaged hnode hrow hevent]
  -- The two updates have to leave the two rows they hit as they are.
  have hstore : touched s o node row = s ↔
      touchNode o (s.isNewestNodeObservation node.id o.sourceSequence) node = node ∧
        (node.parentNodeId = none → discoverTrigger o row = row) := by
    have hnodesIff := updateWhere_key_eq_self_iff SessionNode.id
      (f := touchNode o (s.isNewestNodeObservation node.id o.sourceSequence)) hkeyed.nodeIds hmem
      fun _ => rfl
    have hsessionsIff := updateWhere_key_eq_self_iff Session.id hkeyed.sessionIds hrowMem
      (discoverTrigger_id o)
    rw [← hnodesIff, ← hsessionsIff]
    constructor
    · intro hsame
      refine ⟨congrArg Store.nodes hsame, fun hparent => ?_⟩
      have hsessions := congrArg Store.sessions hsame
      rwa [touched, if_pos (by simp [hparent])] at hsessions
    · rintro ⟨hnodes, hsessions⟩
      rw [touched, hnodes]
      split
      · next hparent => rw [hsessions (by simpa using hparent)]
      · rfl
  rw [hstore, touchNode_eq_self_iff (resolutionStatus_of_duplicate hkeyed hmem hevent),
    discoverTrigger_eq_self_iff]
  constructor
  · rintro ⟨⟨hdeployment, hinstance, hname, hnodeId, hkind⟩, htrigger⟩
    refine ⟨hdeployment, hinstance, hname, hnodeId, hkind, fun hparent row' hrow' => ?_⟩
    obtain rfl := Option.some.inj (hrow.symm.trans hrow')
    exact htrigger hparent
  · intro hagrees
    exact ⟨⟨hagrees.deployment, hagrees.runtimeInstance, hagrees.agentName, hagrees.nodeId,
      hagrees.channelKind⟩, fun hparent => hagrees.trigger hparent row hrow⟩

/-- An agent reports under one name. -/
def firstReport : AgentEventObservation :=
  sampleObservation "1" "root" (some 1) "turn.started" []

/-- It reports again, under another name. -/
def secondReport : AgentEventObservation :=
  { sampleObservation "2" "root" (some 2) "turn.started" [] with
    agent := { id := some "agent", name := some "Renamed", nodeId := none } }

/-- The store once both are ingested. -/
def renamedStore : Store :=
  perform (perform sampleStore (.ingestAgentEvent firstReport (sampleIds "1") 10))
    (.ingestAgentEvent secondReport (sampleIds "2") 20)

/-- The first report, delivered again, brings the first name back. -/
theorem redelivery_restores_old_name :
    system.exec sampleStore [.ingestAgentEvent firstReport (sampleIds "1") 10,
        .ingestAgentEvent secondReport (sampleIds "2") 20] = some renamedStore ∧
      (renamedStore.nodes.map fun row => row.agentName) = [some "Renamed"] ∧
      ((perform renamedStore (.ingestAgentEvent firstReport (sampleIds "3") 30)).nodes.map
        fun row => row.agentName) = [some "Agent"] :=
  ⟨rfl, by decide, by decide⟩

/-- The second report, delivered again, changes nothing. -/
theorem redelivery_changes_nothing_iff_newest :
    perform renamedStore (.ingestAgentEvent secondReport (sampleIds "3") 30) = renamedStore := by
  have hrun : system.exec sampleStore [.ingestAgentEvent firstReport (sampleIds "1") 10,
      .ingestAgentEvent secondReport (sampleIds "2") 20] = some renamedStore := rfl
  refine (redelivery_changes_nothing_iff sampleStore_initial hrun (o := secondReport) rfl rfl rfl
    (sampleIds "3") 30).mpr ?_
  exact {
    deployment := fun _ => rfl
    runtimeInstance := fun _ _ hid => hid ▸ rfl
    agentName := fun _ hname => hname ▸ rfl
    nodeId := fun _ hid => nomatch hid
    channelKind := fun _ hkind => nomatch hkind
    trigger := fun _ _ _ _ => rfl }

end Eveland.Telemetry
