/-
# The nodes of a session as a tree

The nodes of a session should form a tree under its root node. An observation of an agent can add
a node, as the root of a new session or under its parent, which keeps this. It can also announce a
child that is there already. Then the child is put under the observed node, and the nodes still
form trees exactly when the child is not that node or an ancestor of it, or, where it belongs to
another session, is the root of that session.
-/

import Eveland.Foundations.ParentTrees
import Eveland.Telemetry.System

namespace Eveland.Telemetry

open ParentTrees (IsTree Reaches)

/-! ## Nodes and their parents -/

namespace Store

variable (s : Store)

/-- The parent of a node. -/
def parentOf (id : String) : Option String := (s.getNode id).bind fun node => node.parentNodeId

/-- The nodes of a session. -/
def members (sessionId : String) : Set String :=
  {id | ∃ node ∈ s.nodes, node.id = id ∧ node.rootSessionId = sessionId}

theorem members_finite (sessionId : String) : (s.members sessionId).Finite := by
  apply (s.nodes.map SessionNode.id).finite_toSet.subset
  rintro _ ⟨node, hnode, rfl, _⟩
  exact List.mem_map_of_mem hnode

end Store

/-- The nodes of every session form a tree under its root node. -/
def NodesFormTrees (s : Store) : Prop :=
  ∀ session ∈ s.sessions, ∃ root, session.rootNodeId = some root ∧
    IsTree s.parentOf (s.members session.id) root

/-- Every session has a node that was observed under its Eve session id. -/
def SessionsObserved (s : Store) : Prop :=
  ∀ session ∈ s.sessions, ∃ node ∈ s.nodes, node.rootSessionId = session.id ∧
    node.projectId = session.projectId ∧ session.eveSessionId = some node.eveSessionId

/-! ## What the trees depend on -/

/-- The columns of a node that place it. -/
def SessionNode.place (node : SessionNode) : String × String × Option String × String × String :=
  (node.id, node.rootSessionId, node.parentNodeId, node.projectId, node.eveSessionId)

/-- The columns of a session that its nodes refer to. -/
def Session.place (row : Session) : String × String × Option String × Option String :=
  (row.id, row.projectId, row.eveSessionId, row.rootNodeId)

/-- Nodes and sessions are where they were. -/
structure SamePlaces (s t : Store) : Prop where
  nodes : t.nodes.map SessionNode.place = s.nodes.map SessionNode.place
  sessions : t.sessions.map Session.place = s.sessions.map Session.place

namespace SamePlaces

variable {s t u : Store}

theorem refl (s : Store) : SamePlaces s s := ⟨rfl, rfl⟩

theorem symm (hsame : SamePlaces s t) : SamePlaces t s := ⟨hsame.nodes.symm, hsame.sessions.symm⟩

theorem trans (hsame : SamePlaces s t) (hnext : SamePlaces t u) : SamePlaces s u :=
  ⟨hnext.nodes.trans hsame.nodes, hnext.sessions.trans hsame.sessions⟩

/-- An update that moves neither nodes nor sessions. -/
theorem updateWhere_nodes {p : SessionNode → Bool} {f : SessionNode → SessionNode}
    (hplace : ∀ node, (f node).place = node.place) :
    SamePlaces s { s with nodes := Table.updateWhere p f s.nodes } :=
  ⟨Table.map_updateWhere hplace s.nodes, rfl⟩

theorem updateWhere_sessions {p : Session → Bool} {f : Session → Session}
    (hplace : ∀ row, (f row).place = row.place) :
    SamePlaces s { s with sessions := Table.updateWhere p f s.sessions } :=
  ⟨rfl, Table.map_updateWhere hplace s.sessions⟩

theorem node (hsame : SamePlaces s t) {node : SessionNode} (hnode : node ∈ t.nodes) :
    ∃ old ∈ s.nodes, old.place = node.place :=
  List.mem_map.mp (hsame.nodes ▸ List.mem_map_of_mem hnode)

theorem session (hsame : SamePlaces s t) {row : Session} (hrow : row ∈ t.sessions) :
    ∃ old ∈ s.sessions, old.place = row.place :=
  List.mem_map.mp (hsame.sessions ▸ List.mem_map_of_mem hrow)

theorem parentOf (hsame : SamePlaces s t) : t.parentOf = s.parentOf := by
  have hread : ∀ (s : Store) (id : String), s.parentOf id =
      ((s.nodes.map SessionNode.place).find? fun place => place.1 = id).bind
        fun place => place.2.2.1 := by
    intro s id
    rw [List.find?_map, Option.bind_map]
    rfl
  funext id
  rw [hread, hread, hsame.nodes]

theorem members (hsame : SamePlaces s t) (sessionId : String) :
    t.members sessionId = s.members sessionId := by
  have hsub : ∀ {s t : Store}, SamePlaces s t → t.members sessionId ⊆ s.members sessionId := by
    rintro s t hsame _ ⟨node, hnode, rfl, rfl⟩
    obtain ⟨old, hold, hplace⟩ := hsame.node hnode
    exact ⟨old, hold, congrArg Prod.fst hplace, congrArg (fun place => place.2.1) hplace⟩
  exact Set.Subset.antisymm (hsub hsame) (hsub hsame.symm)

theorem nodesFormTrees (hsame : SamePlaces s t) (htrees : NodesFormTrees s) :
    NodesFormTrees t := by
  intro session hsession
  obtain ⟨old, hold, hplace⟩ := hsame.session hsession
  obtain ⟨root, hroot, htree⟩ := htrees old hold
  have hid : old.id = session.id := congrArg Prod.fst hplace
  refine ⟨root, (congrArg (fun place => place.2.2.2) hplace).symm.trans hroot, ?_⟩
  rw [hsame.parentOf, hsame.members, ← hid]
  exact htree

theorem sessionsObserved (hsame : SamePlaces s t) (hobserved : SessionsObserved s) :
    SessionsObserved t := by
  intro session hsession
  obtain ⟨old, hold, hplace⟩ := hsame.session hsession
  obtain ⟨node, hnode, hroot, hproject, heve⟩ := hobserved old hold
  obtain ⟨node', hnode', hplace'⟩ := hsame.symm.node hnode
  simp only [Session.place, SessionNode.place, Prod.mk.injEq] at hplace hplace'
  refine ⟨node', hnode', ?_, ?_, ?_⟩
  · rw [hplace'.2.1, hroot, hplace.1]
  · rw [hplace'.2.2.2.1, hproject, hplace.2.1]
  · rw [← hplace.2.2.1, heve, hplace'.2.2.2.2]

end SamePlaces

/-- The trees depend on the places alone. -/
theorem nodesFormTrees_iff {s t : Store} (hsame : SamePlaces s t) :
    NodesFormTrees t ↔ NodesFormTrees s :=
  ⟨hsame.symm.nodesFormTrees, hsame.nodesFormTrees⟩

/-! ## Adding nodes -/

section Adding

variable {s t : Store}

theorem parentOf_append {node : SessionNode} (hfresh : ∀ other ∈ s.nodes, other.id ≠ node.id)
    (id : String) : Store.parentOf { s with nodes := s.nodes ++ [node] } id =
      if id = node.id then node.parentNodeId else s.parentOf id := by
  rw [Store.parentOf, Store.parentOf, Store.getNode, Store.getNode, List.find?_append]
  by_cases hid : id = node.id
  · have hnone : s.nodes.find? (fun row => row.id = id) = none := by
      rw [List.find?_eq_none]
      intro other hother
      simpa [hid] using hfresh other hother
    rw [hnone, if_pos hid]
    simp [hid]
  · rw [if_neg hid]
    cases s.nodes.find? fun row => row.id = id with
    | some row => rfl
    | none => simp [Ne.symm hid]

theorem members_append (node : SessionNode) (sessionId : String) :
    Store.members { s with nodes := s.nodes ++ [node] } sessionId =
      if sessionId = node.rootSessionId then insert node.id (s.members sessionId)
      else s.members sessionId := by
  ext id
  by_cases hroot : sessionId = node.rootSessionId
  · rw [if_pos hroot]
    constructor
    · rintro ⟨row, hrow, rfl, hrowRoot⟩
      rcases List.mem_append.mp hrow with hold | hnew
      · exact Set.mem_insert_of_mem _ ⟨row, hold, rfl, hrowRoot⟩
      · rw [List.mem_singleton.mp hnew]
        exact Set.mem_insert _ _
    · rintro (rfl | ⟨row, hrow, rfl, hrowRoot⟩)
      · exact ⟨node, List.mem_append_right _ (List.mem_singleton_self _), rfl, hroot.symm⟩
      · exact ⟨row, List.mem_append_left _ hrow, rfl, hrowRoot⟩
  · rw [if_neg hroot]
    constructor
    · rintro ⟨row, hrow, rfl, hrowRoot⟩
      rcases List.mem_append.mp hrow with hold | hnew
      · exact ⟨row, hold, rfl, hrowRoot⟩
      · rw [List.mem_singleton.mp hnew] at hrowRoot
        exact absurd hrowRoot.symm hroot
    · rintro ⟨row, hrow, rfl, hrowRoot⟩
      exact ⟨row, List.mem_append_left _ hrow, rfl, hrowRoot⟩

theorem ne_of_mem_members {node : SessionNode} {sessionId id : String}
    (hfresh : ∀ other ∈ s.nodes, other.id ≠ node.id) (hid : id ∈ s.members sessionId) :
    id ≠ node.id := by
  obtain ⟨row, hrow, rfl, _⟩ := hid
  exact hfresh row hrow

/-- A node that is added under a node of its session is a leaf. -/
theorem NodesFormTrees.leaf (htrees : NodesFormTrees s) {node : SessionNode} {above : String}
    (hfresh : ∀ other ∈ s.nodes, other.id ≠ node.id) (hparent : node.parentNodeId = some above)
    (habove : above ∈ s.members node.rootSessionId) :
    NodesFormTrees { s with nodes := s.nodes ++ [node] } := by
  intro session hsession
  obtain ⟨root, hroot, htree⟩ := htrees session hsession
  refine ⟨root, hroot, ?_⟩
  have hkept : IsTree (Store.parentOf { s with nodes := s.nodes ++ [node] })
      (s.members session.id) root :=
    htree.congr fun id hid => by
      rw [parentOf_append hfresh, if_neg (ne_of_mem_members hfresh hid)]
  rw [members_append]
  split
  · next hsame =>
      have hleaf : Store.parentOf { s with nodes := s.nodes ++ [node] } node.id = some above := by
        rw [parentOf_append hfresh, if_pos rfl, hparent]
      apply hkept.leaf (s.members_finite session.id) hleaf
      rw [hsame]
      exact habove
  · exact hkept

theorem SessionsObserved.append (hobserved : SessionsObserved s) (node : SessionNode) :
    SessionsObserved { s with nodes := s.nodes ++ [node] } := by
  intro session hsession
  obtain ⟨old, hold, hplace⟩ := hobserved session hsession
  exact ⟨old, List.mem_append_left _ hold, hplace⟩

/-- The store with a new session and its root. -/
def withRoot (s : Store) (row : Session) (node : SessionNode) : Store :=
  setRoot { s with sessions := s.sessions ++ [row], nodes := s.nodes ++ [node] } row.id node.id
    node.eveSessionId

theorem mem_withRoot {row session : Session} {node : SessionNode}
    (hfresh : ∀ other ∈ s.sessions, other.id ≠ row.id)
    (hsession : session ∈ (withRoot s row node).sessions) :
    session ∈ s.sessions ∨ session =
      { row with rootNodeId := some node.id, eveSessionId := some node.eveSessionId } := by
  rcases Table.mem_updateWhere.mp hsession with ⟨hmem, hne⟩ | ⟨old, hold, hid, rfl⟩
  · rcases List.mem_append.mp hmem with hold | hnew
    · exact Or.inl hold
    · rw [List.mem_singleton.mp hnew] at hne
      simp at hne
  · rcases List.mem_append.mp hold with hmem | hnew
    · exact absurd (by simpa using hid) (hfresh old hmem)
    · rw [List.mem_singleton.mp hnew]
      exact Or.inr rfl

/-- A new session is a tree of one node. -/
theorem NodesFormTrees.root (htrees : NodesFormTrees s) (hkeyed : Keyed s) {row : Session}
    {node : SessionNode} (hfresh : ∀ other ∈ s.sessions, other.id ≠ row.id)
    (hnodeFresh : ∀ other ∈ s.nodes, other.id ≠ node.id) (hroot : node.rootSessionId = row.id)
    (hparent : node.parentNodeId = none) : NodesFormTrees (withRoot s row node) := by
  have hparentOf : (withRoot s row node).parentOf =
      Store.parentOf { s with nodes := s.nodes ++ [node] } := rfl
  have hmembers : ∀ id, (withRoot s row node).members id =
      Store.members { s with nodes := s.nodes ++ [node] } id := fun _ => rfl
  intro session hsession
  rw [hparentOf, hmembers, members_append, hroot]
  rcases mem_withRoot hfresh hsession with hold | rfl
  · obtain ⟨root, hrootId, htree⟩ := htrees session hold
    rw [if_neg (hfresh session hold)]
    refine ⟨root, hrootId, htree.congr fun id hid => ?_⟩
    rw [parentOf_append hnodeFresh, if_neg (ne_of_mem_members hnodeFresh hid)]
  · have hnone : s.members row.id = ∅ := by
      apply Set.eq_empty_of_forall_notMem
      rintro _ ⟨other, hother, _, hotherRoot⟩
      obtain ⟨held, hheld, hid⟩ := hkeyed.nodesHeld other hother
      exact hfresh held hheld (hid.trans hotherRoot)
    rw [if_pos rfl, hnone, insert_empty_eq]
    refine ⟨node.id, rfl, IsTree.single ?_⟩
    rw [parentOf_append hnodeFresh, if_pos rfl, hparent]

theorem SessionsObserved.root (hobserved : SessionsObserved s) {row : Session}
    {node : SessionNode} (hfresh : ∀ other ∈ s.sessions, other.id ≠ row.id)
    (hroot : node.rootSessionId = row.id) (hproject : node.projectId = row.projectId) :
    SessionsObserved (withRoot s row node) := by
  intro session hsession
  rcases mem_withRoot hfresh hsession with hold | rfl
  · obtain ⟨other, hother, hplace⟩ := hobserved session hold
    exact ⟨other, List.mem_append_left _ hother, hplace⟩
  · exact ⟨node, List.mem_append_right _ (List.mem_singleton_self _), hroot, hproject, rfl⟩

/-- A session whose Eve session has no node yet is not there either, so it is opened. -/
theorem findOrOpenSession_opens {o : AgentEventObservation} {projectId id eveSessionId : String}
    {trigger : SessionTrigger} {row : Session} (hobserved : SessionsObserved s)
    (hnone : s.findNode projectId eveSessionId = none)
    (hfind : findOrOpenSession s o projectId id eveSessionId trigger = .ok (t, row)) :
    (∀ other ∈ s.sessions, other.id ≠ row.id) ∧ row.projectId = projectId ∧
      t = { s with sessions := s.sessions ++ [row] } := by
  rw [findOrOpenSession] at hfind
  split at hfind
  · next found hfound =>
      obtain ⟨hmem, hproject, heve⟩ := Store.mem_of_findSession hfound
      obtain ⟨node, hnode, _, hnodeProject, hnodeEve⟩ := hobserved found hmem
      have habsent := List.find?_eq_none.mp hnone node hnode
      rw [heve] at hnodeEve
      simp [hnodeProject, hproject, ← Option.some.inj hnodeEve] at habsent
  · obtain ⟨opened, hinsert, heq⟩ := Outcome.map_eq_ok.mp hfind
    cases heq
    obtain ⟨hfresh, _, rfl⟩ := insertSession_eq_ok.mp hinsert
    exact ⟨hfresh, rfl, rfl⟩

/-- Finding the parent of an observation, or a placeholder for it. -/
theorem resolveParent_trees {o : AgentEventObservation} {projectId : String} {ids : IngestIds}
    {parent : Option SessionNode} (hkeyed : Keyed s) (hobserved : SessionsObserved s)
    (hparent : resolveParent s o projectId ids = .ok (t, parent)) :
    SessionsObserved t ∧ (NodesFormTrees s → NodesFormTrees t) ∧
      (parent = none → t = s) ∧ ∀ node, parent = some node → node ∈ t.nodes := by
  rw [resolveParent] at hparent
  split at hparent
  · cases hparent
    refine ⟨hobserved, id, fun _ => rfl, fun node hnode => ?_⟩
    cases hnode
  · split at hparent
    · next node hnode =>
        cases hparent
        refine ⟨hobserved, id, fun _ => rfl, fun other hother => ?_⟩
        cases hother
        exact (Store.mem_of_findNode hnode).1
    · next hnone =>
        obtain ⟨⟨opened, row⟩, hopen, hparent⟩ := Outcome.bind_eq_ok.mp hparent
        obtain ⟨inserted, hinsert, heq⟩ := Outcome.bind_eq_ok.mp hparent
        cases heq
        obtain ⟨hfresh, hproject, rfl⟩ := findOrOpenSession_opens hobserved hnone hopen
        obtain ⟨hnodeFresh, _, rfl⟩ := insertNode_eq_ok.mp hinsert
        refine ⟨hobserved.root hfresh rfl hproject.symm,
          fun htrees => htrees.root hkeyed hfresh hnodeFresh rfl rfl, ?_, ?_⟩
        · intro hnoParent
          cases hnoParent
        intro other hother
        cases hother
        exact List.mem_append_right _ (List.mem_singleton_self _)

/-- A node that is opened is the root of a new session or a leaf under its parent. -/
theorem openNode_trees {o : AgentEventObservation} {projectId : String} {ids : IngestIds}
    {sessionRow : Session} {node : SessionNode} {isLatest : Bool} (hkeyed : Keyed s)
    (hobserved : SessionsObserved s) (hnone : s.findNode projectId o.eveSessionId = none)
    (hopen : openNode s o projectId ids = .ok (t, sessionRow, node, isLatest)) :
    SessionsObserved t ∧ (NodesFormTrees s → NodesFormTrees t) := by
  obtain ⟨⟨located, parent⟩, hparent, hopen⟩ := Outcome.bind_eq_ok.mp hopen
  obtain ⟨⟨resolved, row⟩, hresolve, hopen⟩ := Outcome.bind_eq_ok.mp hopen
  obtain ⟨inserted, hinsert, hopen⟩ := Outcome.bind_eq_ok.mp hopen
  obtain ⟨hlocated, htrees, hsame, hmem⟩ := resolveParent_trees hkeyed hobserved hparent
  have hlocatedKeyed := (resolveParent_writes hparent).keyed hkeyed
  obtain ⟨hnodeFresh, _, rfl⟩ := insertNode_eq_ok.mp hinsert
  cases parent with
  | none =>
      cases hopen
      obtain rfl := hsame rfl
      obtain ⟨hfresh, hproject, rfl⟩ := findOrOpenSession_opens hobserved hnone hresolve
      exact ⟨hobserved.root hfresh rfl hproject.symm,
        fun htrees => htrees.root hkeyed hfresh hnodeFresh rfl rfl⟩
  | some above =>
      cases hopen
      have habove := hmem above rfl
      have hheld := hlocatedKeyed.nodesHeld above habove
      unfold resolveSession at hresolve
      dsimp only at hresolve
      split at hresolve
      · next found hfound =>
          cases hresolve
          refine ⟨hlocated.append _, fun h => (htrees h).leaf hnodeFresh rfl ?_⟩
          exact ⟨above, habove, rfl, (Store.id_of_getSession hfound).symm⟩
      · next hmissing =>
          rw [← Store.getSession_isSome, hmissing] at hheld
          cases hheld

theorem resolveNode_samePlaces {o : AgentEventObservation} {node node' : SessionNode}
    {sessionRow : Session} {isLatest : Bool}
    (hresolve : resolveNode s o node = .ok (t, sessionRow, node', isLatest)) :
    SamePlaces s t := by
  have hplace : ∀ row, (discoverTrigger o row).place = row.place := by
    intro row
    rw [discoverTrigger]
    split <;> rfl
  obtain ⟨row, _, hresolve⟩ := Outcome.bind_eq_ok.mp hresolve
  dsimp only at hresolve
  split at hresolve
  · cases hresolve
    exact (SamePlaces.updateWhere_nodes fun _ => by rfl).trans
      (SamePlaces.updateWhere_sessions hplace)
  · cases hresolve
    exact SamePlaces.updateWhere_nodes fun _ => by rfl

/-- Locating the node of an observation keeps the trees. -/
theorem locateNode_trees {o : AgentEventObservation} {projectId : String} {ids : IngestIds}
    {sessionRow : Session} {node : SessionNode} {isLatest : Bool} (hkeyed : Keyed s)
    (hobserved : SessionsObserved s)
    (hlocate : locateNode s o projectId ids = .ok (t, sessionRow, node, isLatest)) :
    SessionsObserved t ∧ (NodesFormTrees s → NodesFormTrees t) := by
  rw [locateNode] at hlocate
  split at hlocate
  · have hsame := resolveNode_samePlaces hlocate
    exact ⟨hsame.sessionsObserved hobserved, hsame.nodesFormTrees⟩
  · next hnone => exact openNode_trees hkeyed hobserved hnone hlocate

end Adding

/-! ## Linking a child -/

/-- What the link of a child that is there already leaves: its parent is the observed node, and
all nodes of its session are in that node's session, which takes the place of both. -/
structure Linked (s t : Store) (child : SessionNode) (nodeId sessionId : String) : Prop where
  parents : ParentTrees.Relinked s.parentOf t.parentOf child.id nodeId
  members : t.members sessionId = s.members sessionId ∪ s.members child.rootSessionId
  others : ∀ id, id ≠ sessionId → id ≠ child.rootSessionId → t.members id = s.members id
  sessions : ∀ session ∈ t.sessions, (∃ old ∈ s.sessions, old.place = session.place) ∧
    (session.id ≠ sessionId → session.id ≠ child.rootSessionId)
  stays : t.HasSession sessionId

/-- The condition under which a link keeps the trees: within a session the child is neither the
node nor an ancestor of it, and from another session it is a root. -/
def KeepsTrees (s : Store) (child : SessionNode) (nodeId sessionId : String) : Prop :=
  if child.rootSessionId = sessionId then ¬ Reaches s.parentOf nodeId child.id
  else child.parentNodeId = none

section Linking

variable {s t : Store} {child : SessionNode} {nodeId sessionId : String}

theorem Linked.nodesFormTrees_iff (hlinked : Linked s t child nodeId sessionId)
    (hkeyed : Keyed s) (htrees : NodesFormTrees s) (hchild : child ∈ s.nodes)
    (hnode : nodeId ∈ s.members sessionId) :
    NodesFormTrees t ↔ KeepsTrees s child nodeId sessionId := by
  have hchildMem : child.id ∈ s.members child.rootSessionId := ⟨child, hchild, rfl, rfl⟩
  have hchildParent : s.parentOf child.id = child.parentNodeId := by
    rw [Store.parentOf, Store.getNode, hkeyed.nodeIds.find?_eq_some hchild]
    rfl
  obtain ⟨session, hsession, rfl⟩ := hlinked.stays
  obtain ⟨⟨old, hold, hplace⟩, _⟩ := hlinked.sessions session hsession
  have holdId : old.id = session.id := congrArg Prod.fst hplace
  obtain ⟨root, hroot, htree⟩ := htrees old hold
  rw [holdId] at htree
  have hsessionRoot : session.rootNodeId = some root :=
    (congrArg (fun place => place.2.2.2) hplace).symm.trans hroot
  -- The session of the node is the one whose tree changes.
  have hthis : NodesFormTrees t ↔ IsTree t.parentOf (t.members session.id) root := by
    constructor
    · intro hchanged
      obtain ⟨root', hroot', htree'⟩ := hchanged session hsession
      rwa [Option.some.inj (hsessionRoot.symm.trans hroot')]
    · intro hchanged other hother
      obtain ⟨⟨before, hbefore, hbeforePlace⟩, hapart⟩ := hlinked.sessions other hother
      have hbeforeId : before.id = other.id := congrArg Prod.fst hbeforePlace
      have hbeforeRoot : other.rootNodeId = before.rootNodeId :=
        (congrArg (fun place => place.2.2.2) hbeforePlace).symm
      obtain ⟨root', hroot', htree'⟩ := htrees before hbefore
      rw [hbeforeId] at htree'
      refine ⟨root', hbeforeRoot.trans hroot', ?_⟩
      by_cases hsame : other.id = session.id
      · have hbeforeOld := hkeyed.sessionIds.eq hbefore hold
          (hbeforeId.trans (hsame.trans holdId.symm))
        rw [hbeforeOld] at hroot'
        rw [hsame, ← Option.some.inj (hroot.symm.trans hroot')]
        exact hchanged
      · rw [hlinked.others other.id hsame (hapart hsame)]
        refine htree'.congr fun id hid => hlinked.parents.2 id ?_
        rintro rfl
        obtain ⟨row, hrow, hrowId, hrowRoot⟩ := hid
        rw [hkeyed.nodeIds.eq hrow hchild hrowId] at hrowRoot
        exact hapart hsame hrowRoot.symm
  rw [hthis, hlinked.members, KeepsTrees]
  split
  · next hsame =>
      rw [hsame, Set.union_self]
      exact htree.relink_iff (s.members_finite _) hlinked.parents (hsame ▸ hchildMem) hnode
  · next hother =>
      obtain ⟨other, hotherMem, hotherId⟩ := hkeyed.nodesHeld child hchild
      obtain ⟨otherRoot, _, hotherTree⟩ := htrees other hotherMem
      rw [hotherId] at hotherTree
      have hdisjoint : ∀ id ∈ s.members session.id, id ∉ s.members child.rootSessionId := by
        rintro _ ⟨row, hrow, rfl, hrowRoot⟩ ⟨row', hrow', hid, hrowRoot'⟩
        rw [hkeyed.nodeIds.eq hrow' hrow hid, hrowRoot] at hrowRoot'
        exact hother hrowRoot'.symm
      rw [htree.graft_iff hotherTree (s.members_finite _) (s.members_finite _) hdisjoint
        hlinked.parents hchildMem hnode, hchildParent]

/-- The update of the child gives it its parent, and moves no node. -/
theorem parentOf_link {reading : EventReading} {node : SessionNode} (hchild : ∃ row ∈ s.nodes,
    row.id = child.id) :
    ParentTrees.Relinked s.parentOf (Store.parentOf { s with
      nodes := Table.updateWhere (fun row => row.id = child.id) (linkNode reading node sessionId)
        s.nodes }) child.id node.id := by
  have hread : ∀ id, Store.parentOf { s with
      nodes := Table.updateWhere (fun row => row.id = child.id) (linkNode reading node sessionId)
        s.nodes } id = (s.getNode id).bind fun row =>
          if row.id = child.id then some node.id else row.parentNodeId := by
    intro id
    rw [Store.parentOf, Store.getNode, Table.find?_updateWhere fun _ => by rfl, Option.bind_map]
    congr 1
    funext row
    by_cases hid : row.id = child.id
    · simp [hid, linkNode]
    · simp [hid]
  constructor
  · obtain ⟨row, hrow, hid⟩ := hchild
    have hsome : (s.getNode child.id).isSome := by
      rw [Store.getNode, List.find?_isSome]
      exact ⟨row, hrow, by simpa using hid⟩
    obtain ⟨found, hfound⟩ := Option.isSome_iff_exists.mp hsome
    have hfoundId : found.id = child.id := by simpa using List.find?_some hfound
    rw [hread, hfound, Option.bind_some, if_pos hfoundId]
  · intro id hne
    rw [hread, Store.parentOf]
    cases hfound : s.getNode id with
    | none => rfl
    | some row =>
        have hid : row.id = id := by simpa using List.find?_some hfound
        rw [Option.bind_some, Option.bind_some, if_neg (hid ▸ hne)]

theorem members_link {reading : EventReading} {node : SessionNode}
    (hroot : ∀ row ∈ s.nodes, row.id = child.id → row.rootSessionId = sessionId) (id : String) :
    Store.members { s with
      nodes := Table.updateWhere (fun row => row.id = child.id) (linkNode reading node sessionId)
        s.nodes } id = s.members id := by
  ext member
  constructor
  · rintro ⟨row, hrow, rfl, rfl⟩
    rcases Table.mem_updateWhere.mp hrow with ⟨hold, _⟩ | ⟨old, hold, hid, rfl⟩
    · exact ⟨row, hold, rfl, rfl⟩
    · exact ⟨old, hold, rfl, hroot old hold (by simpa using hid)⟩
  · rintro ⟨row, hrow, rfl, rfl⟩
    by_cases hid : row.id = child.id
    · refine ⟨linkNode reading node sessionId row, ?_, rfl, (hroot row hrow hid).symm⟩
      exact Table.mem_updateWhere.mpr (Or.inr ⟨row, hrow, by simpa using hid, rfl⟩)
    · exact ⟨row, Table.mem_updateWhere_of_not hrow (by simpa using hid), rfl, rfl⟩

/-- The nodes of a session that is adopted move as a whole. -/
theorem members_adopt {oldRootSessionId : String}
    (hnodes : t.nodes = Table.updateWhere (fun row => row.rootSessionId = oldRootSessionId)
      (fun row => { row with rootSessionId := sessionId }) s.nodes) :
    t.members sessionId = s.members sessionId ∪ s.members oldRootSessionId ∧
      ∀ id, id ≠ sessionId → id ≠ oldRootSessionId → t.members id = s.members id := by
  have hmem : ∀ {member id}, member ∈ t.members id ↔
      (∃ row ∈ s.nodes, row.id = member ∧ row.rootSessionId = id ∧
        row.rootSessionId ≠ oldRootSessionId) ∨
      (id = sessionId ∧ member ∈ s.members oldRootSessionId) := by
    intro member id
    rw [Store.members, Set.mem_ofPred_eq, hnodes]
    constructor
    · rintro ⟨row, hrow, rfl, rfl⟩
      rcases Table.mem_updateWhere.mp hrow with ⟨hold, hne⟩ | ⟨old, hold, hmoved, rfl⟩
      · exact Or.inl ⟨row, hold, rfl, rfl, by simpa using hne⟩
      · exact Or.inr ⟨rfl, old, hold, rfl, by simpa using hmoved⟩
    · rintro (⟨row, hrow, rfl, rfl, hne⟩ | ⟨rfl, row, hrow, rfl, hmoved⟩)
      · exact ⟨row, Table.mem_updateWhere_of_not hrow (by simpa using hne), rfl, rfl⟩
      · exact ⟨{ row with rootSessionId := id },
          Table.mem_updateWhere.mpr (Or.inr ⟨row, hrow, by simpa using hmoved, rfl⟩), rfl, rfl⟩
  constructor
  · ext member
    rw [hmem]
    constructor
    · rintro (⟨row, hrow, rfl, hroot, _⟩ | ⟨_, hold⟩)
      · exact Or.inl ⟨row, hrow, rfl, hroot⟩
      · exact Or.inr hold
    · rintro (⟨row, hrow, rfl, hroot⟩ | hold)
      · by_cases hmoved : row.rootSessionId = oldRootSessionId
        · exact Or.inr ⟨rfl, row, hrow, rfl, hmoved⟩
        · exact Or.inl ⟨row, hrow, rfl, hroot, hmoved⟩
      · exact Or.inr ⟨rfl, hold⟩
  · intro id hne hother
    ext member
    rw [hmem]
    constructor
    · rintro (⟨row, hrow, rfl, hroot, _⟩ | ⟨hsame, _⟩)
      · exact ⟨row, hrow, rfl, hroot⟩
      · exact absurd hsame hne
    · rintro ⟨row, hrow, rfl, hroot⟩
      exact Or.inl ⟨row, hrow, rfl, hroot, hroot ▸ hother⟩

theorem parentOf_adopt {oldRootSessionId : String}
    (hnodes : t.nodes = Table.updateWhere (fun row => row.rootSessionId = oldRootSessionId)
      (fun row => { row with rootSessionId := sessionId }) s.nodes) :
    t.parentOf = s.parentOf := by
  funext id
  rw [Store.parentOf, Store.parentOf, Store.getNode, Store.getNode, hnodes,
    Table.find?_updateWhere fun _ => by rfl, Option.bind_map]
  congr 1
  funext row
  rw [Function.comp_apply]
  split <;> rfl

theorem adoptSession_sessions {oldRootSessionId : String} (hold : s.HasSession oldRootSessionId)
    (hsession : s.HasSession sessionId)
    (hadopt : adoptSession s oldRootSessionId sessionId = .ok t) :
    (∀ session ∈ t.sessions, (∃ old ∈ s.sessions, old.place = session.place) ∧
      (session.id ≠ sessionId → session.id ≠ oldRootSessionId)) ∧ t.HasSession sessionId := by
  rw [adoptSession] at hadopt
  split at hadopt
  · next hsame =>
      cases hadopt
      exact ⟨fun session hmem => ⟨⟨session, hmem, rfl⟩, fun hne => hsame ▸ hne⟩, hsession⟩
  · next hne =>
      split at hadopt
      · next absorbed habsorbed =>
          obtain ⟨_, rfl⟩ := mergeSessionRows_eq_ok.mp hadopt
          obtain rfl := Store.id_of_getSession habsorbed
          refine ⟨?_, (Write.hasSession_merged fun _ => rfl).mpr ⟨hsession, Ne.symm hne⟩⟩
          intro session hmem
          obtain ⟨hupdated, hkept⟩ := List.mem_filter.mp hmem
          refine ⟨?_, fun _ => by simpa using hkept⟩
          rcases Table.mem_updateWhere.mp hupdated with ⟨hbefore, _⟩ | ⟨old, hbefore, _, rfl⟩
          · exact ⟨session, hbefore, rfl⟩
          · exact ⟨old, hbefore, rfl⟩
      · next hnone =>
          rw [← Store.getSession_isSome, hnone] at hold
          cases hold

/-- The link of a child that is there already. -/
theorem linkChild_linked {o : AgentEventObservation} {reading : EventReading}
    {node : SessionNode} {projectId id childEveSessionId : String} (hkeyed : Keyed s)
    (hobserved : SessionsObserved s) (hsession : s.HasSession sessionId)
    (hannounced : announcedChild reading = some childEveSessionId)
    (hchild : s.findNode projectId childEveSessionId = some child)
    (hlink : linkChild s o reading node projectId sessionId id = .ok t) :
    Linked s t child node.id sessionId ∧ SessionsObserved t := by
  rw [linkChild, hannounced] at hlink
  dsimp only at hlink
  rw [hchild] at hlink
  obtain ⟨adopted, hadopt, heq⟩ := Outcome.bind_eq_ok.mp hlink
  cases heq
  have hmem := (Store.mem_of_findNode hchild).1
  have hheld := hkeyed.nodesHeld child hmem
  have hnodes := (adoptSession_writes hheld hsession hadopt).2
  have hroot := adoptSession_root hkeyed hmem hnodes
  obtain ⟨hsessions, hstays⟩ := adoptSession_sessions hheld hsession hadopt
  have hadopted := members_adopt hnodes
  constructor
  · refine ⟨?_, ?_, ?_, hsessions, hstays⟩
    · rw [← parentOf_adopt hnodes]
      apply parentOf_link
      refine ⟨{ child with rootSessionId := sessionId }, ?_, rfl⟩
      rw [hnodes]
      exact Table.mem_updateWhere.mpr (Or.inr ⟨child, hmem, by simp, rfl⟩)
    · rw [members_link hroot, hadopted.1]
    · intro other hne hother
      rw [members_link hroot, hadopted.2 other hne hother]
  · intro session hmem'
    obtain ⟨⟨old, hold, hplace⟩, hapart⟩ := hsessions session hmem'
    obtain ⟨row, hrow, hrowRoot, hrowProject, hrowEve⟩ := hobserved old hold
    simp only [Session.place, Prod.mk.injEq] at hplace
    -- The node is where it was, or moved to the session that takes the place of its own.
    have hplaced : ∃ row' ∈ adopted.nodes, row'.rootSessionId = session.id ∧
        row'.projectId = row.projectId ∧ row'.eveSessionId = row.eveSessionId := by
      rw [hnodes]
      by_cases hmoved : row.rootSessionId = child.rootSessionId
      · refine ⟨{ row with rootSessionId := sessionId },
          Table.mem_updateWhere.mpr (Or.inr ⟨row, hrow, by simpa using hmoved, rfl⟩), ?_, rfl, rfl⟩
        by_contra hne
        exact hapart (Ne.symm hne) (hplace.1.symm.trans (hrowRoot.symm.trans hmoved))
      · exact ⟨row, Table.mem_updateWhere_of_not hrow (by simpa using hmoved),
          hrowRoot.trans hplace.1, rfl, rfl⟩
    obtain ⟨row', hrow', hroot', hproject', heve'⟩ := hplaced
    have hfound : ∃ row'' ∈ Table.updateWhere (fun row => decide (row.id = child.id))
        (linkNode reading node sessionId) adopted.nodes, row''.rootSessionId = session.id ∧
        row''.projectId = row'.projectId ∧ row''.eveSessionId = row'.eveSessionId := by
      by_cases hid : row'.id = child.id
      · exact ⟨linkNode reading node sessionId row',
          Table.mem_updateWhere.mpr (Or.inr ⟨row', hrow', by simpa using hid, rfl⟩),
          (hroot row' hrow' hid).symm.trans hroot', rfl, rfl⟩
      · exact ⟨row', Table.mem_updateWhere_of_not hrow' (by simpa using hid), hroot', rfl, rfl⟩
    obtain ⟨last, hlast, hlastRoot, hlastProject, hlastEve⟩ := hfound
    refine ⟨last, hlast, hlastRoot, ?_, ?_⟩
    · rw [hlastProject, hproject', hrowProject, hplace.2.1]
    · rw [← hplace.2.2.1, hrowEve, hlastEve, heve']

/-- The children an event announces and finds: each has to keep the trees. -/
def ChildKeepsTrees (s : Store) (reading : EventReading) (projectId nodeId sessionId : String) :
    Prop :=
  ∀ childEveSessionId child, announcedChild reading = some childEveSessionId →
    s.findNode projectId childEveSessionId = some child → KeepsTrees s child nodeId sessionId

theorem linkChild_trees {o : AgentEventObservation} {reading : EventReading}
    {node : SessionNode} {projectId id eveSessionId : String} (hkeyed : Keyed s)
    (hobserved : SessionsObserved s) (hnode : s.HasNode node.id sessionId eveSessionId)
    (hlink : linkChild s o reading node projectId sessionId id = .ok t) :
    SessionsObserved t ∧ (NodesFormTrees s →
      (NodesFormTrees t ↔ ChildKeepsTrees s reading projectId node.id sessionId)) := by
  have hmember : node.id ∈ s.members sessionId := by
    obtain ⟨row, hrow, hid, hroot, _⟩ := hnode
    exact ⟨row, hrow, hid, hroot⟩
  cases hannounced : announcedChild reading with
  | none =>
      rw [linkChild, hannounced] at hlink
      cases hlink
      refine ⟨hobserved, fun htrees => ⟨?_, fun _ => htrees⟩⟩
      intro _ childEveSessionId child hsome
      rw [hannounced] at hsome
      cases hsome
  | some childEveSessionId =>
      cases hchild : s.findNode projectId childEveSessionId with
      | some child =>
          obtain ⟨hlinked, hobserved'⟩ := linkChild_linked hkeyed hobserved
            (hnode.hasSession hkeyed) hannounced hchild hlink
          refine ⟨hobserved', fun htrees => ?_⟩
          rw [hlinked.nodesFormTrees_iff hkeyed htrees (Store.mem_of_findNode hchild).1 hmember]
          constructor
          · intro hkeeps childEveSessionId' child' hsome hfound
            rw [hannounced] at hsome
            cases hsome
            rw [hchild] at hfound
            cases hfound
            exact hkeeps
          · exact fun hkeeps => hkeeps childEveSessionId child hannounced hchild
      | none =>
          rw [linkChild, hannounced] at hlink
          dsimp only at hlink
          rw [hchild] at hlink
          obtain ⟨hfresh, _, rfl⟩ := insertNode_eq_ok.mp hlink
          refine ⟨hobserved.append _, fun htrees => ⟨?_, fun _ => ?_⟩⟩
          · intro _ childEveSessionId' child hsome hfound
            rw [hannounced] at hsome
            cases hsome
            rw [hchild] at hfound
            cases hfound
          · exact htrees.leaf hfresh rfl hmember

end Linking

/-! ## Ingesting an observation -/

section Ingesting

variable {s t : Store}

theorem SamePlaces.findNode (hsame : SamePlaces s t) {projectId eveSessionId : String}
    {node : SessionNode} (hnode : t.findNode projectId eveSessionId = some node) :
    ∃ old, s.findNode projectId eveSessionId = some old ∧ old.place = node.place := by
  have hread : ∀ s : Store, (s.findNode projectId eveSessionId).map SessionNode.place =
      (s.nodes.map SessionNode.place).find? fun place =>
        place.2.2.2.1 = projectId && place.2.2.2.2 = eveSessionId := by
    intro s
    rw [List.find?_map]
    rfl
  have hplace := congrArg (Option.map SessionNode.place) hnode
  rw [hread, hsame.nodes, ← hread] at hplace
  exact Option.map_eq_some_iff.mp hplace

theorem SamePlaces.childKeepsTrees (hsame : SamePlaces s t) {reading : EventReading}
    {projectId nodeId sessionId : String}
    (hkeeps : ChildKeepsTrees s reading projectId nodeId sessionId) :
    ChildKeepsTrees t reading projectId nodeId sessionId := by
  intro childEveSessionId child hannounced hchild
  obtain ⟨old, hold, hplace⟩ := hsame.findNode hchild
  have hkept := hkeeps childEveSessionId old hannounced hold
  simp only [SessionNode.place, Prod.mk.injEq] at hplace
  rw [KeepsTrees, hplace.1, hplace.2.1, hplace.2.2.1] at hkept
  rwa [KeepsTrees, hsame.parentOf]

theorem appendSessionEventRow_samePlaces {values : SessionEventInsert} {row : SessionEvent}
    (happend : appendSessionEventRow s values = .ok (t, row)) : SamePlaces s t := by
  obtain ⟨_, _, _, _, rfl⟩ := appendSessionEventRow_eq_ok.mp happend
  exact ⟨rfl, rfl⟩

theorem projectStatus_samePlaces (s : Store) (o : AgentEventObservation) (reading : EventReading)
    (node : SessionNode) (sessionRow : Session) (projected : Option SessionStatus) (now : ℤ) :
    SamePlaces s (projectStatus s o reading node sessionRow projected now).1 := by
  have hnodes := SamePlaces.updateWhere_nodes (s := s) (p := fun row => row.id = node.id)
    (f := projectNode o reading projected) fun _ => rfl
  unfold projectStatus
  cases projected with
  | none => exact hnodes
  | some status =>
      dsimp only
      split
      · exact hnodes.trans (SamePlaces.updateWhere_sessions fun _ => by rfl)
      · exact hnodes

theorem projectExecution_samePlaces (s : Store) (reading : EventReading) (node : SessionNode)
    (sessionRow : Session) (now : ℤ) :
    SamePlaces s (projectExecution s reading node sessionRow now) := by
  rw [projectExecution]
  split
  · exact SamePlaces.refl s
  · dsimp only
    split
    · exact ⟨rfl, rfl⟩
    · rw [settleRun]
      dsimp only
      split <;> exact ⟨rfl, rfl⟩

theorem projectReading_samePlaces (s : Store) (o : AgentEventObservation)
    (reading : EventReading) (node : SessionNode) (sessionId id : String) :
    SamePlaces s (projectReading s o reading node sessionId id) := by
  rw [projectReading]
  split
  · exact SamePlaces.refl s
  · rw [projectUsage]
    split
    · split
      · exact ⟨rfl, Table.map_updateWhere (fun _ => by rfl) s.sessions⟩
      · exact SamePlaces.refl s
    · exact ⟨rfl, Table.map_updateWhere (fun _ => by rfl) s.sessions⟩

/-- The stages of a recorded observation around the link of its child, seen by the trees. -/
theorem recordObservation_trees {o : AgentEventObservation} {projectId : String}
    {sessionRow : Session} {node : SessionNode} {isLatest : Bool} {ids : IngestIds} {now : ℤ}
    {result : IngestResult} (hkeyed : Keyed s) (hobserved : SessionsObserved s)
    (hnode : s.HasNode node.id sessionRow.id o.eveSessionId)
    (hseen : ∃ row ∈ s.nodes, row.id = node.id ∧ row.rootSessionId = sessionRow.id ∧
      row.resolutionStatus = .observed)
    (hrecord : recordObservation s o projectId sessionRow node isLatest ids now =
      .ok (t, result)) :
    SessionsObserved t ∧ (NodesFormTrees s →
      (NodesFormTrees t ↔
        ChildKeepsTrees s (readEvent o.event) projectId node.id sessionRow.id)) := by
  obtain ⟨appended, projected, linked, event, node', sessionRow', happend, hprojected, hlink, rfl,
    _, rfl, _, _⟩ := recordObservation_eq_ok hrecord
  have hstatus := projectStatus_writes appended o (readEvent o.event) node sessionRow
    (projectedStatus (readEvent o.event) node.status isLatest) now
  have hstatusPlaces := projectStatus_samePlaces appended o (readEvent o.event) node sessionRow
    (projectedStatus (readEvent o.event) node.status isLatest) now
  rw [hprojected] at hstatus hstatusPlaces
  obtain ⟨hstatusWrites, _, hnode', hid⟩ := hstatus
  dsimp only at hstatusWrites hnode' hid
  have hnodeId : result.node.id = node.id := by
    rw [hnode']
    rfl
  have hexecuted := projectExecution_samePlaces projected (readEvent o.event) result.node
    sessionRow' now
  have hbefore := ((appendSessionEventRow_samePlaces happend).trans hstatusPlaces).trans hexecuted
  have hkeyedBefore : Keyed (projectExecution projected (readEvent o.event) result.node
      sessionRow' now) := by
    apply Writes.keyed _ hkeyed
    refine (Relation.ReflTransGen.head (appendSessionEventRow_write ?_ happend) hstatusWrites).trans
      (projectExecution_writes projected (readEvent o.event) result.node sessionRow' now).1
    intro nodeId hnodeId
    obtain ⟨row, hrow, hrowId, hroot, hrowSeen⟩ := hseen
    cases hnodeId
    exact ⟨row, hrow, hrowId, hroot, fun _ => hrowSeen⟩
  have hplaced : Store.HasNode (projectExecution projected (readEvent o.event) result.node
      sessionRow' now) result.node.id sessionRow'.id o.eveSessionId := by
    obtain ⟨row, hrow, hrowId, hrowRoot, hrowEve⟩ := hnode
    obtain ⟨row', hrow', hplace⟩ := hbefore.symm.node hrow
    simp only [SessionNode.place, Prod.mk.injEq] at hplace
    refine ⟨row', hrow', ?_, ?_, ?_⟩
    · rw [hplace.1, hrowId, hnodeId]
    · rw [hplace.2.1, hrowRoot]
      exact hid.symm
    · rw [hplace.2.2.2.2, hrowEve]
  obtain ⟨hobserved', htrees⟩ := linkChild_trees hkeyedBefore (hbefore.sessionsObserved hobserved)
    hplaced hlink
  have hafter := projectReading_samePlaces linked o (readEvent o.event) result.node sessionRow'.id
    ids.usage
  refine ⟨hafter.sessionsObserved hobserved', fun hformed => ?_⟩
  rw [nodesFormTrees_iff hafter, htrees (hbefore.nodesFormTrees hformed), hnodeId,
    show sessionRow'.id = sessionRow.id from hid]
  exact ⟨hbefore.symm.childKeepsTrees, hbefore.childKeepsTrees⟩

end Ingesting

/-! ## Runs of observations -/

/-- The calls of ingestion, and the changes made elsewhere to what it reads. -/
def Action.ingests : Action → Bool
  | .ingestAgentEvent _ _ _ => true
  | .elsewhere _ _ => true
  | _ => false

/-- Ingestion alone, in a history of calls that go through. -/
def ingestion : Machine Store Action where
  init := Store.Initial
  step s a := if a.ingests then (call s a).toOption else none

/-- An observation that its node has not recorded yet announces no child that is there already
and would break a tree: neither the node or an ancestor of it, nor a node below the root of
another session. -/
def LinksKeepTrees (s : Store) : Action → Prop
  | .ingestAgentEvent o ids _ =>
      ∀ deployment located sessionRow node isLatest, checkManaged s o = .ok deployment →
        locateNode s o deployment.projectId ids = .ok (located, sessionRow, node, isLatest) →
        located.findDuplicate node.id o = none →
        ChildKeepsTrees located (readEvent o.event) deployment.projectId node.id sessionRow.id
  | _ => True

theorem ingestAgentEvent_trees {s t : Store} {o : AgentEventObservation} {ids : IngestIds}
    {now : ℤ} {result : IngestResult} (hkeyed : Keyed s) (hobserved : SessionsObserved s)
    (hingest : ingestAgentEvent s o ids now = .ok (t, result)) :
    SessionsObserved t ∧ (NodesFormTrees s →
      (NodesFormTrees t ↔ LinksKeepTrees s (.ingestAgentEvent o ids now))) := by
  obtain ⟨deployment, hmanaged, hingest⟩ := Outcome.bind_eq_ok.mp hingest
  obtain ⟨⟨located, sessionRow, node, isLatest⟩, hlocate, hingest⟩ := Outcome.bind_eq_ok.mp hingest
  obtain ⟨hwrites, hnode⟩ := locateNode_writes hlocate
  obtain ⟨hobserved', htrees⟩ := locateNode_trees hkeyed hobserved hlocate
  -- The condition speaks of this node, in this store.
  have hcondition : LinksKeepTrees s (.ingestAgentEvent o ids now) ↔
      (located.findDuplicate node.id o = none →
        ChildKeepsTrees located (readEvent o.event) deployment.projectId node.id
          sessionRow.id) := by
    constructor
    · exact fun hlinks => hlinks deployment located sessionRow node isLatest hmanaged hlocate
    · intro hkeeps deployment' located' sessionRow' node' isLatest' hmanaged' hlocate'
      obtain rfl := Except.ok.inj (hmanaged.symm.trans hmanaged')
      have hsame := Except.ok.inj (hlocate.symm.trans hlocate')
      cases hsame
      exact hkeeps
  rw [hcondition]
  dsimp only at hingest
  split at hingest
  · next event hduplicate =>
      cases hingest
      refine ⟨hobserved', fun hformed => ⟨?_, fun _ => htrees hformed⟩⟩
      intro _ hnew
      rw [hduplicate] at hnew
      cases hnew
  · next hnew =>
      obtain ⟨hobserved'', hrecorded⟩ :=
        recordObservation_trees (hwrites.keyed hkeyed) hobserved' hnode
          (locateNode_observed hlocate) hingest
      refine ⟨hobserved'', fun hformed => ?_⟩
      rw [hrecorded (htrees hformed)]
      exact ⟨fun hkeeps _ => hkeeps, fun hkeeps => hkeeps hnew⟩

/-- The nodes of every session form a tree under its root in every state of a run of observations
exactly when no step links a child that breaks one. -/
theorem nodes_form_trees_iff {s₀ s : Store} {as : List Action} (hinit : s₀.Initial)
    (hrun : ingestion.exec s₀ as = some s) :
    ingestion.Always NodesFormTrees s₀ as ↔ ingestion.Meets LinksKeepTrees s₀ as := by
  have hstep : ∀ s a t, ingestion.step s a = some t →
      (∃ o ids now result, a = .ingestAgentEvent o ids now ∧
        ingestAgentEvent s o ids now = .ok (t, result)) ∨
      ((∃ next leases, a = .elsewhere next leases) ∧ SamePlaces s t ∧ (Keyed s → Keyed t)) := by
    intro s a t hstep
    simp only [ingestion] at hstep
    split at hstep
    · next hingests =>
        rw [Outcome.toOption_eq_some] at hstep
        cases a with
        | ingestAgentEvent o ids now =>
            obtain ⟨⟨after, result⟩, hingest, rfl⟩ := Outcome.map_eq_ok.mp hstep
            exact Or.inl ⟨o, ids, now, result, rfl, hingest⟩
        | elsewhere next leases =>
            cases hstep
            exact Or.inr ⟨⟨next, leases, rfl⟩, ⟨rfl, rfl⟩, fun hkeyed => { hkeyed with }⟩
        | _ => cases hingests
    · cases hstep
  apply ingestion.always_iff_meets (J := fun s => Keyed s ∧ SessionsObserved s) ?_ ?_ ?_ ?_ hrun
  · rintro s a t ⟨hkeyed, hobserved⟩ hst
    rcases hstep s a t hst with ⟨o, ids, now, result, rfl, hingest⟩ | ⟨_, hsame, hkeys⟩
    · exact ⟨(ingestAgentEvent_writes hkeyed hingest).keyed hkeyed,
        (ingestAgentEvent_trees hkeyed hobserved hingest).1⟩
    · exact ⟨hkeys hkeyed, hsame.sessionsObserved hobserved⟩
  · rintro s a t ⟨hkeyed, hobserved⟩ htrees hst
    rcases hstep s a t hst with ⟨o, ids, now, result, rfl, hingest⟩ | ⟨⟨_, _, rfl⟩, hsame, _⟩
    · exact (ingestAgentEvent_trees hkeyed hobserved hingest).2 htrees
    · exact ⟨fun _ => trivial, fun _ => hsame.nodesFormTrees htrees⟩
  · refine ⟨hinit.keyed, ?_⟩
    intro session hsession
    rw [hinit.sessions] at hsession
    cases hsession
  · intro session hsession
    rw [hinit.sessions] at hsession
    cases hsession

/-- A node that announces itself as its child becomes its own parent. -/
theorem self_child_breaks_tree :
    ∃ s, ingestion.exec sampleStore
        [sampleIngest "1" "root" (some 1) "child.opened" [("sessionId", .str "root")] 10] =
        some s ∧ ¬ NodesFormTrees s := by
  refine ⟨_, rfl, fun htrees => ?_⟩
  obtain ⟨root, hroot, htree⟩ := htrees _ List.mem_cons_self
  have hparent := htree.root_parent
  obtain rfl : "node-1" = root := Option.some.inj hroot
  exact absurd hparent (by decide)

/-- The store once a child has reported on its own. -/
def reportedStore : Store :=
  perform sampleStore (sampleIngest "1" "child" (some 1) "session.started" [] 10)

/-- The event that announces the child. -/
def announcement : AgentEventObservation :=
  sampleObservation "2" "root" (some 1) "child.opened" [("sessionId", .str "child")]

/-- A child that has reported on its own, and is announced then, keeps the trees. -/
theorem nodes_form_trees_iff_announced :
    ingestion.Always NodesFormTrees sampleStore
      [sampleIngest "1" "child" (some 1) "session.started" [] 10,
        .ingestAgentEvent announcement (sampleIds "2") 20] := by
  rw [nodes_form_trees_iff sampleStore_initial rfl]
  have hreported : ingestion.step sampleStore
      (sampleIngest "1" "child" (some 1) "session.started" [] 10) = some reportedStore := rfl
  refine ⟨?_, fun t ht => ⟨?_, fun _ _ => trivial⟩⟩
  · intro deployment located sessionRow node isLatest _ _ _ childEveSessionId child hannounced
    cases hannounced
  · obtain rfl := Option.some.inj (hreported.symm.trans ht)
    intro deployment located sessionRow node isLatest hmanaged hlocate _ childEveSessionId child
      hannounced hchild
    cases hannounced
    have hproject : (checkManaged reportedStore announcement).toOption.map
        (fun row => row.projectId) = some "shop" := by
      decide
    rw [hmanaged] at hproject
    have hshop : deployment.projectId = "shop" := Option.some.inj hproject
    rw [hshop] at hlocate hchild
    -- The child is the root of another session than the one that announces it.
    have hread : (locateNode reportedStore announcement "shop" (sampleIds "2")).toOption.bind
        (fun found => (found.1.findNode "shop" "child").map fun row =>
          (decide (row.rootSessionId = found.2.1.id), row.parentNodeId)) = some (false, none) := by
      decide
    rw [hlocate] at hread
    simp only [Except.toOption, Option.bind_some, hchild, Option.map_some, Option.some.injEq,
      Prod.mk.injEq, decide_eq_false_iff_not] at hread
    rw [KeepsTrees, if_neg hread.1]
    exact hread.2

end Eveland.Telemetry
