/-
# Every view is placed once

A view hangs from a call that carried none, or is detached. Calls are never given up, so
after the loop the views that hang from calls, the detached ones and the root are the
views of all nodes, each once; and as a view hangs below the view of its node's parent,
the trees under the root and the detached views reach all of them.
-/

import Eveland.Core.TranscriptItems
import Eveland.Foundations.Forests

namespace Eveland.Transcript

open Forests Relation

/-! ## Hanging one view -/

/-- A list of lists gains what one of them gains. -/
theorem flatMap_modify_perm {α β : Type*} {read : α → List β} {edit : α → α} {added : β}
    {entries : List α} {index : ℕ} {entry : α} (hentry : entries[index]? = some entry)
    (hread : (read (edit entry)).Perm (added :: read entry)) :
    ((entries.modify index edit).flatMap read).Perm (added :: entries.flatMap read) := by
  induction entries generalizing index with
  | nil => simp at hentry
  | cons first rest ih =>
      cases index with
      | zero =>
          obtain rfl : first = entry := by simpa using hentry
          simpa using hread.append_right (rest.flatMap read)
      | succ index =>
          have hrest := ih (show rest[index]? = some entry by simpa using hentry)
          simp only [List.modify_succ_cons, List.flatMap_cons]
          refine (hrest.append_left (read first)).trans ?_
          exact List.perm_middle

/-- A call of some turns, at its place. -/
def CallAt (turns : List TranscriptTurn) (place : CallPlace) (call : TranscriptToolCall) : Prop :=
  ∃ turn, turns[place.turn]? = some turn ∧ turn.items[place.item]? = some (.tool call)

theorem callAt_of_mem {turns : List TranscriptTurn} {place : CallPlace}
    {call : TranscriptToolCall} (hmem : (place, call) ∈ toolCalls turns) :
    CallAt turns place call := by
  obtain ⟨⟨turn, index⟩, hturn, hcall⟩ := List.mem_flatMap.mp hmem
  obtain ⟨⟨item, position⟩, hitem, hread⟩ := List.mem_filterMap.mp hcall
  have hturnAt := List.mem_zipIdx_iff_getElem?.mp hturn
  have hitemAt := List.mem_zipIdx_iff_getElem?.mp hitem
  cases item with
  | tool found =>
      simp only [Option.some.injEq, Prod.mk.injEq] at hread
      obtain ⟨rfl, rfl⟩ := hread
      exact ⟨turn, hturnAt, hitemAt⟩
  | user text eventAt => cases hread
  | assistant text eventAt => cases hread
  | reasoning text eventAt => cases hread
  | system label text eventAt => cases hread

/-- A call that carried no view carries the one it is given. -/
theorem childrenOf_attach {turns : List TranscriptTurn} {place : CallPlace}
    {call : TranscriptToolCall} (hcall : CallAt turns place call) (hfree : call.child = none)
    (child : ℕ) :
    (childrenOf (editCall place (fun call => { call with child := some child }) turns)).Perm
      (child :: childrenOf turns) := by
  obtain ⟨turn, hturn, hitem⟩ := hcall
  apply flatMap_modify_perm hturn
  have hread : ∀ items : List TranscriptItem, items.filterMap TranscriptItem.child? =
      items.flatMap fun item => item.child?.toList := fun items =>
    List.filterMap_eq_flatMap_toList ..
  rw [hread, hread]
  apply flatMap_modify_perm hitem
  simp [TranscriptItem.mapCall, TranscriptItem.child?, hfree]

/-- An edit of a call leaves the turns in their places. -/
theorem turnIds_editCall (place : CallPlace) (edit : TranscriptToolCall → TranscriptToolCall)
    (turns : List TranscriptTurn) : turnIds (editCall place edit turns) = turnIds turns :=
  map_modify_of_eq TranscriptTurn.turnId
    (fun t => { t with items := t.items.modify place.item (TranscriptItem.mapCall edit) })
    (fun _ => rfl) place.turn turns

/-- A view that hangs from a call shows as before. -/
theorem bareItems_attach (place : CallPlace) (child : ℕ) (turns : List TranscriptTurn)
    (turn : ℕ) :
    bareItems (editCall place (fun call => { call with child := some child }) turns) turn =
      bareItems turns turn := by
  have hbare : ∀ item : TranscriptItem,
      (item.mapCall fun call => { call with child := some child }).bare = item.bare := by
    intro item
    cases item <;> rfl
  rw [editCall, bareItems_modify]
  split
  · rename_i hturn
    unfold bareItems
    cases turns[turn]? with
    | none => rfl
    | some t => exact map_modify_of_eq _ _ hbare place.item t.items
  · rfl

/-- A slot is a call without a view, in the view of the parent the node names. -/
theorem slotOf_spec {nodes : List TranscriptSourceNode} {views : List TranscriptNode}
    {node : TranscriptSourceNode} {parent : ℕ} {place : CallPlace}
    (hslot : slotOf nodes views node = some (parent, place)) :
    (truthy node.parentNodeId).bind (viewPlace nodes) = some parent ∧
      ∃ view, views[parent]? = some view ∧
        ∃ call, CallAt view.turns place call ∧ call.child = none := by
  unfold slotOf at hslot
  split at hslot
  · cases hslot
  rename_i parent' hparent
  split at hslot
  · cases hslot
  rename_i view hview
  obtain ⟨found, hfound, hpair⟩ := Option.map_eq_some_iff.mp hslot
  simp only [Prod.mk.injEq] at hpair
  obtain ⟨rfl, rfl⟩ := hpair
  refine ⟨hparent, view, hview, ?_⟩
  rcases Option.or_eq_some_iff.mp hfound with hopened | ⟨_, hopen⟩
  · unfold findCallThatOpened at hopened
    split at hopened
    · cases hopened
    obtain ⟨entry, hentry, rfl⟩ := Option.map_eq_some_iff.mp hopened
    have hfree := List.find?_some hentry
    simp only [Bool.decide_and, Bool.and_eq_true, decide_eq_true_eq] at hfree
    exact ⟨entry.2, callAt_of_mem (List.mem_of_find?_eq_some hentry), hfree.1⟩
  · have hlisted : ∀ entry : CallPlace × TranscriptToolCall,
        (entry ∈ (toolCalls view.turns).filter fun entry =>
          entry.2.isSubagent ∧ entry.2.child = none) →
        ∃ call, CallAt view.turns entry.1 call ∧ call.child = none := by
      intro entry hentry
      obtain ⟨hmem, hopen⟩ := List.mem_filter.mp hentry
      simp only [Bool.decide_and, Bool.and_eq_true, decide_eq_true_eq] at hopen
      exact ⟨entry.2, callAt_of_mem hmem, hopen.2⟩
    unfold findOpenSubagentCall at hopen
    split at hopen
    · obtain ⟨entry, hentry, rfl⟩ := Option.map_eq_some_iff.mp hopen
      exact hlisted entry (List.mem_of_find?_eq_some hentry)
    · obtain ⟨entry, hentry, rfl⟩ := Option.map_eq_some_iff.mp hopen
      exact hlisted entry (List.mem_of_mem_head? hentry)

/-! ## The loop over the nodes -/

/-- The views that hang from calls. -/
def hanging (views : List TranscriptNode) : List ℕ :=
  views.flatMap fun view => childrenOf view.turns

/-- The views below a view. -/
def SessionTranscript.childViews (t : SessionTranscript) (view : ℕ) : List ℕ :=
  match t.views[view]? with
  | some v => childrenOf v.turns
  | none => []

/-- A view is that of a node, and another that of the parent the node names. -/
def ViewLink (nodes : List TranscriptSourceNode) (child parent : ℕ) : Prop :=
  ∃ node ∈ nodes, viewPlace nodes node.id = some child ∧
    (truthy node.parentNodeId).bind (viewPlace nodes) = some parent

/-- What the loop keeps of the views it started from: they show as before, and hang below
the views of their parents. -/
structure Hung (nodes : List TranscriptSourceNode) (views : List TranscriptNode)
    (t : SessionTranscript) : Prop where
  length : t.views.length = views.length
  same : ∀ (i : ℕ) (view : TranscriptNode), t.views[i]? = some view →
    ∃ first, views[i]? = some first ∧ view.sessionNodeId = first.sessionNodeId ∧
      turnIds view.turns = turnIds first.turns ∧
      ∀ j, bareItems view.turns j = bareItems first.turns j
  linked : ∀ parent, ∀ child ∈ t.childViews parent, ViewLink nodes child parent

/-- A node other than the root hangs its view or detaches it. -/
theorem placeNode_placed {nodes : List TranscriptSourceNode} (t : SessionTranscript)
    {node : TranscriptSourceNode} {view : ℕ}
    (hroot : (rootNode nodes).any (·.id = node.id) = false)
    (hview : viewPlace nodes node.id = some view) :
    ((placeNode nodes t node).detached ++ hanging (placeNode nodes t node).views).Perm
      (view :: (t.detached ++ hanging t.views)) := by
  unfold placeNode
  rw [if_neg (by simp [hroot])]
  simp only [hview]
  cases hslot : slotOf nodes t.views node with
  | none =>
      simp only [List.append_assoc, List.singleton_append]
      exact List.perm_middle
  | some slot =>
      obtain ⟨parent, place⟩ := slot
      obtain ⟨_, parentView, hparent, call, hcall, hfree⟩ := slotOf_spec hslot
      have hhang : (hanging (t.views.modify parent (attach view place))).Perm
          (view :: hanging t.views) :=
        flatMap_modify_perm hparent (childrenOf_attach hcall hfree view)
      exact (hhang.append_left t.detached).trans List.perm_middle

/-- The loop keeps the views. -/
theorem placeNode_hung {nodes : List TranscriptSourceNode} {views : List TranscriptNode}
    {t : SessionTranscript} (hung : Hung nodes views t) {node : TranscriptSourceNode}
    (hnode : node ∈ nodes) : Hung nodes views (placeNode nodes t node) := by
  unfold placeNode
  split
  · exact hung
  split
  · exact hung
  rename_i view hview
  cases hslot : slotOf nodes t.views node with
  | none => exact ⟨hung.length, hung.same, hung.linked⟩
  | some slot =>
      obtain ⟨parent, place⟩ := slot
      obtain ⟨hlink, parentView, hparent, call, hcall, hfree⟩ := slotOf_spec hslot
      refine ⟨by simpa using hung.length, ?_, ?_⟩
      · intro i changed hchanged
        rw [List.getElem?_modify] at hchanged
        obtain ⟨old, hold, hedit⟩ := Option.map_eq_some_iff.mp hchanged
        obtain ⟨first, hfirst, hid, hids, hbare⟩ := hung.same i old hold
        refine ⟨first, hfirst, ?_, ?_, fun j => ?_⟩
        · rw [← hedit, ← hid]
          split <;> rfl
        · rw [← hedit, ← hids]
          split
          · exact turnIds_editCall place _ old.turns
          · rfl
        · rw [← hedit, ← hbare j]
          split
          · exact bareItems_attach place view old.turns j
          · rfl
      · intro above child hchild
        by_cases habove : parent = above
        · subst habove
          have hperm := childrenOf_attach hcall hfree view
          have hread : child ∈ childrenOf (attach view place parentView).turns := by
            simpa [SessionTranscript.childViews, List.getElem?_modify, hparent] using hchild
          rcases List.mem_cons.mp (hperm.mem_iff.mp hread) with hnew | hold
          · exact ⟨node, hnode, hnew ▸ hview, hlink⟩
          · apply hung.linked parent child
            simpa [SessionTranscript.childViews, hparent] using hold
        · apply hung.linked above child
          have hsame : (t.views.modify parent (attach view place))[above]? = t.views[above]? := by
            rw [List.getElem?_modify]
            cases t.views[above]? <;> simp [habove]
          simpa [SessionTranscript.childViews, hsame] using hchild

/-- After the loop over some nodes, their views hang or are detached, less the root's. -/
theorem placeNodes_spec {nodes : List TranscriptSourceNode} {views : List TranscriptNode}
    (rest : List TranscriptSourceNode) {t : SessionTranscript} (hung : Hung nodes views t)
    (hmem : ∀ node ∈ rest, node ∈ nodes)
    (hplace : ∀ node ∈ rest, (viewPlace nodes node.id).isSome) :
    Hung nodes views (rest.foldl (placeNode nodes) t) ∧
      ((rest.foldl (placeNode nodes) t).detached ++
          hanging (rest.foldl (placeNode nodes) t).views).Perm
        ((rest.filter fun node => !(rootNode nodes).any (·.id = node.id)).filterMap
            (fun node => viewPlace nodes node.id) ++ (t.detached ++ hanging t.views)) ∧
      (rest.foldl (placeNode nodes) t).root = t.root := by
  induction rest generalizing t with
  | nil => exact ⟨hung, List.Perm.refl _, rfl⟩
  | cons node rest ih =>
      have hstep := placeNode_hung hung (hmem node (List.mem_cons_self ..))
      obtain ⟨hend, hplaced, hroot⟩ := ih hstep
        (fun other hother => hmem other (List.mem_cons_of_mem _ hother))
        fun other hother => hplace other (List.mem_cons_of_mem _ hother)
      have hsameRoot : (placeNode nodes t node).root = t.root := by
        unfold placeNode
        repeat' split
        all_goals rfl
      refine ⟨hend, hplaced.trans ?_, hroot.trans hsameRoot⟩
      obtain ⟨view, hview⟩ :=
        Option.isSome_iff_exists.mp (hplace node (List.mem_cons_self ..))
      by_cases hroot : (rootNode nodes).any (·.id = node.id) = true
      · have hskip : placeNode nodes t node = t := by
          unfold placeNode
          rw [if_pos hroot]
        rw [hskip, List.filter_cons_of_neg (by simpa using hroot)]
      · have hother : (rootNode nodes).any (·.id = node.id) = false := by simpa using hroot
        rw [List.filter_cons_of_pos (by simpa using hroot), List.filterMap_cons, hview]
        refine ((placeNode_placed t hother hview).append_left _).trans ?_
        exact List.perm_middle

/-! ## Views by position -/

/-- A view stands where its node does. -/
theorem viewPlace_eq {nodes : List TranscriptSourceNode} {id : String} {i : ℕ}
    (hplace : viewPlace nodes id = some i) : ∃ node, nodes[i]? = some node ∧ node.id = id := by
  obtain ⟨entry, hentry, rfl⟩ := Option.map_eq_some_iff.mp hplace
  have hid := List.find?_some hentry
  have hmem := List.mem_reverse.mp (List.mem_of_find?_eq_some hentry)
  exact ⟨entry.1, List.mem_zipIdx_iff_getElem?.mp hmem, by simpa using hid⟩

/-- Of two positions with one id there is only one. -/
theorem position_unique {nodes : List TranscriptSourceNode}
    (hdistinct : (nodes.map TranscriptSourceNode.id).Nodup) {i j : ℕ}
    {first second : TranscriptSourceNode} (hfirst : nodes[i]? = some first)
    (hsecond : nodes[j]? = some second) (hid : first.id = second.id) : i = j := by
  obtain ⟨hi, hgetI⟩ := List.getElem?_eq_some_iff.mp hfirst
  apply (List.getElem?_inj (by simpa using hi) hdistinct).mp
  simp [hfirst, hsecond, hid]

/-- With distinct ids a node's view is at the node's position. -/
theorem viewPlace_of_getElem {nodes : List TranscriptSourceNode}
    (hdistinct : (nodes.map TranscriptSourceNode.id).Nodup) {i : ℕ}
    {node : TranscriptSourceNode} (hnode : nodes[i]? = some node) :
    viewPlace nodes node.id = some i := by
  cases hplace : viewPlace nodes node.id with
  | some j =>
      obtain ⟨other, hother, hid⟩ := viewPlace_eq hplace
      rw [position_unique hdistinct hnode hother hid.symm]
  | none =>
      simp only [viewPlace, Option.map_eq_none_iff, List.find?_eq_none] at hplace
      have hmem := List.mem_reverse.mpr (List.mem_zipIdx_iff_getElem?.mpr
        (show nodes[(node, i).2]? = some (node, i).1 from hnode))
      exact absurd (hplace (node, i) hmem) (by simp)

/-- With distinct ids the views of the nodes are at the positions of the nodes. -/
theorem filterMap_viewPlace {nodes : List TranscriptSourceNode}
    (hdistinct : (nodes.map TranscriptSourceNode.id).Nodup) :
    (nodes.filterMap fun node => viewPlace nodes node.id) = List.range nodes.length := by
  have hentries : ∀ entry ∈ nodes.zipIdx, viewPlace nodes entry.1.id = some entry.2 :=
    fun entry hentry =>
      viewPlace_of_getElem hdistinct (List.mem_zipIdx_iff_getElem?.mp hentry)
  calc (nodes.filterMap fun node => viewPlace nodes node.id)
      _ = (nodes.zipIdx.map Prod.fst).filterMap fun node => viewPlace nodes node.id := by
        rw [List.zipIdx_map_fst]
      _ = nodes.zipIdx.filterMap fun entry => some entry.2 := by
        rw [List.filterMap_map]
        exact List.filterMap_congr hentries
      _ = List.range nodes.length := by
        rw [List.filterMap_eq_map', List.zipIdx_map_snd, List.range_eq_range']

/-- With distinct ids the root's id is the root's alone. -/
theorem filter_root {nodes : List TranscriptSourceNode}
    (hdistinct : (nodes.map TranscriptSourceNode.id).Nodup) {root : TranscriptSourceNode}
    (hroot : rootNode nodes = some root) :
    (nodes.filter fun node => (rootNode nodes).any (·.id = node.id)).Perm [root] := by
  have hmem := List.mem_of_find?_eq_some hroot
  have hnodup : nodes.Nodup := hdistinct.of_map _
  rw [List.perm_ext_iff_of_nodup (hnodup.filter _) (List.nodup_singleton root)]
  intro node
  simp only [List.mem_filter, hroot, Option.any_some, decide_eq_true_eq, List.mem_singleton]
  constructor
  · rintro ⟨hnode, hid⟩
    exact List.inj_on_of_nodup_map hdistinct hnode hmem hid.symm
  · rintro rfl
    exact ⟨hmem, rfl⟩

/-- The views of all nodes: the root's, and the others'. -/
theorem root_append_others {nodes : List TranscriptSourceNode}
    (hdistinct : (nodes.map TranscriptSourceNode.id).Nodup) :
    (((rootNode nodes).bind fun node => viewPlace nodes node.id).toList ++
      (nodes.filter fun node => !(rootNode nodes).any (·.id = node.id)).filterMap
        fun node => viewPlace nodes node.id).Perm (List.range nodes.length) := by
  rw [← filterMap_viewPlace hdistinct]
  have hsplit := (List.filter_append_perm
    (fun node => (rootNode nodes).any (·.id = node.id)) nodes).filterMap
      fun node => viewPlace nodes node.id
  rw [List.filterMap_append] at hsplit
  refine (List.Perm.append_right _ ?_).trans hsplit
  cases hroot : rootNode nodes with
  | none => simp
  | some root =>
      have hfiltered := (filter_root hdistinct hroot).filterMap
        fun node => viewPlace nodes node.id
      rw [hroot] at hfiltered
      refine List.Perm.trans ?_ hfiltered.symm
      cases hplace : viewPlace nodes root.id <;> simp [hplace]

/-! ## The whole transcript -/

/-- A node, by id, and the parent it names. -/
def ParentLink (nodes : List TranscriptSourceNode) (child parent : String) : Prop :=
  ∃ node ∈ nodes, node.id = child ∧ node.parentNodeId = some parent

/-- Where no node is its own ancestor, no view is below itself. -/
theorem viewLink_acyclic {nodes : List TranscriptSourceNode}
    (hacyclic : ∀ id, ¬ TransGen (ParentLink nodes) id id) (view : ℕ) :
    ¬ TransGen (ViewLink nodes) view view := by
  intro hcycle
  refine hacyclic ((nodes[view]?.map TranscriptSourceNode.id).getD "") ?_
  refine TransGen.lift (fun i : ℕ => (nodes[i]?.map TranscriptSourceNode.id).getD "") ?_
    view view hcycle
  rintro child parent ⟨node, hnode, hchild, hparent⟩
  obtain ⟨name, hname, hplace⟩ := Option.bind_eq_some_iff.mp hparent
  obtain ⟨childNode, hchildAt, hchildId⟩ := viewPlace_eq hchild
  obtain ⟨parentNode, hparentAt, hparentId⟩ := viewPlace_eq hplace
  refine ⟨node, hnode, ?_, ?_⟩
  · simp [hchildAt, hchildId]
  · simp [hparentAt, hparentId, (Option.filter_eq_some_iff.mp hname).1]

/-- Where the trees of a transcript hang from. -/
def SessionTranscript.tops (t : SessionTranscript) : List ℕ := t.root.toList ++ t.detached

/-- The nodes that some views are of. -/
def SessionTranscript.sessionNodeIds (t : SessionTranscript) (views : List ℕ) : List String :=
  views.filterMap fun view => (t.views[view]?).bind TranscriptNode.sessionNodeId

/-- The transcript of nodes, less its special case. -/
theorem buildSessionTranscript_hung (events : List TranscriptSourceEvent)
    {nodes : List TranscriptSourceNode}
    (hdistinct : (nodes.map TranscriptSourceNode.id).Nodup)
    (hcase : (nodes.isEmpty && !events.isEmpty) = false) :
    Hung nodes (nodes.map (viewOf events nodes)) (buildSessionTranscript events nodes) ∧
      ((buildSessionTranscript events nodes).tops ++
        hanging (buildSessionTranscript events nodes).views).Perm
          (List.range nodes.length) := by
  have hfree : ∀ node, childrenOf (viewOf events nodes node).turns = [] :=
    fun node => (buildTranscriptTurns_accounts (nodeEvents events nodes node)).2
  have hnone : hanging (nodes.map (viewOf events nodes)) = [] := by
    rw [hanging, List.flatMap_map]
    exact List.flatMap_eq_nil_iff.mpr fun node _ => hfree node
  have hstart : Hung nodes (nodes.map (viewOf events nodes))
      { views := nodes.map (viewOf events nodes)
        root := (rootNode nodes).bind fun node => viewPlace nodes node.id
        detached := [] } := by
    refine ⟨rfl, fun i view hview => ⟨view, hview, rfl, rfl, fun _ => rfl⟩, ?_⟩
    intro parent child hchild
    unfold SessionTranscript.childViews at hchild
    rw [List.getElem?_map] at hchild
    cases hparent : nodes[parent]? with
    | none => simp [hparent] at hchild
    | some node => simp [hparent, hfree] at hchild
  have hplace : ∀ node ∈ nodes, (viewPlace nodes node.id).isSome := by
    intro node hnode
    obtain ⟨i, hi⟩ := List.getElem?_of_mem hnode
    simp [viewPlace_of_getElem hdistinct hi]
  obtain ⟨hhung, hplaced, hroot⟩ := placeNodes_spec nodes hstart (fun _ h => h) hplace
  have hbuild : buildSessionTranscript events nodes = nodes.foldl (placeNode nodes)
      { views := nodes.map (viewOf events nodes)
        root := (rootNode nodes).bind fun node => viewPlace nodes node.id
        detached := [] } := by
    simp only [buildSessionTranscript, hcase, Bool.false_eq_true, if_false]
  rw [hbuild]
  refine ⟨hhung, ?_⟩
  simp only [hnone, List.append_nil] at hplaced
  rw [SessionTranscript.tops, hroot, List.append_assoc]
  exact (hplaced.append_left _).trans (root_append_others hdistinct)

/-- What hangs from the views is what hangs from each of them. -/
theorem hanging_eq_flatMap (t : SessionTranscript) :
    hanging t.views = (List.range t.views.length).flatMap t.childViews := by
  rw [hanging, flatMap_eq_range]
  congr 1
  funext i
  unfold SessionTranscript.childViews
  cases t.views[i]? <;> rfl

/-- The trees of a transcript reach the view of each node once, to any depth from the number
of the nodes on. -/
theorem forest_perm (events : List TranscriptSourceEvent) {nodes : List TranscriptSourceNode}
    (hdistinct : (nodes.map TranscriptSourceNode.id).Nodup)
    (hacyclic : ∀ id, ¬ TransGen (ParentLink nodes) id id)
    (hcase : (nodes.isEmpty && !events.isEmpty) = false) {depth : ℕ}
    (hdepth : nodes.length ≤ depth) :
    (forestOf (buildSessionTranscript events nodes).childViews depth
      (buildSessionTranscript events nodes).tops).Perm (List.range nodes.length) := by
  obtain ⟨hhung, hplaced⟩ := buildSessionTranscript_hung events hdistinct hcase
  have hlength : (buildSessionTranscript events nodes).views.length = nodes.length := by
    simpa using hhung.length
  rw [hanging_eq_flatMap, hlength] at hplaced
  have hbelow : ∀ i ∈ Finset.range nodes.length, ¬ TransGen (ViewLink nodes) i i :=
    fun i _ => viewLink_acyclic hacyclic i
  obtain ⟨rank, hrank, hbound⟩ := exists_rank_of_acyclic hbelow
  apply forestOf_perm hplaced
  · intro parent hparent child hchild
    exact hrank parent (by simpa using hparent) child (hhung.linked parent child hchild)
  · intro i hi
    have hlt := hbound i (by simpa using hi)
    rw [Finset.card_range] at hlt
    omega

/-- The ids of all views, in their order. -/
theorem sessionNodeIds_range (events : List TranscriptSourceEvent)
    {nodes : List TranscriptSourceNode}
    (hdistinct : (nodes.map TranscriptSourceNode.id).Nodup)
    (hcase : (nodes.isEmpty && !events.isEmpty) = false) :
    (buildSessionTranscript events nodes).sessionNodeIds (List.range nodes.length) =
      nodes.map TranscriptSourceNode.id := by
  have hhung := (buildSessionTranscript_hung events hdistinct hcase).1
  have hlength : (buildSessionTranscript events nodes).views.length = nodes.length := by
    simpa using hhung.length
  have hread : ∀ i ∈ List.range nodes.length,
      ((buildSessionTranscript events nodes).views[i]?).bind TranscriptNode.sessionNodeId =
        (nodes[i]?).map TranscriptSourceNode.id := by
    intro i hi
    have hlt : i < nodes.length := by simpa using hi
    obtain ⟨first, hfirst, hid, _, _⟩ :=
      hhung.same i _ (List.getElem?_eq_getElem (hlength ▸ hlt))
    rw [List.getElem?_map, List.getElem?_eq_getElem hlt, Option.map_some,
      Option.some.injEq] at hfirst
    rw [List.getElem?_eq_getElem (hlength ▸ hlt), List.getElem?_eq_getElem hlt, Option.bind_some,
      hid, ← hfirst]
    rfl
  rw [SessionTranscript.sessionNodeIds, List.filterMap_congr hread,
    List.filterMap_eq_flatMap_toList, List.map_eq_flatMap,
    flatMap_eq_range (fun node => [node.id]) nodes]
  congr 1
  funext i
  cases nodes[i]? <;> rfl

/-- The view of a node accounts for the node's events. -/
theorem view_accounts (events : List TranscriptSourceEvent)
    {nodes : List TranscriptSourceNode}
    (hdistinct : (nodes.map TranscriptSourceNode.id).Nodup)
    (hcase : (nodes.isEmpty && !events.isEmpty) = false) {node : TranscriptSourceNode}
    (hnode : node ∈ nodes) :
    ∃ view ∈ (buildSessionTranscript events nodes).views, view.sessionNodeId = some node.id ∧
      ∃ placed, Accounts view.turns (nodeEvents events nodes node) placed := by
  have hhung := (buildSessionTranscript_hung events hdistinct hcase).1
  obtain ⟨i, hi⟩ := List.getElem?_of_mem hnode
  have hlt : i < (buildSessionTranscript events nodes).views.length := by
    rw [hhung.length, List.length_map]
    exact (List.getElem?_eq_some_iff.mp hi).1
  obtain ⟨first, hfirst, hid, hids, hbare⟩ := hhung.same i _ (List.getElem?_eq_getElem hlt)
  rw [List.getElem?_map, hi, Option.map_some, Option.some.injEq] at hfirst
  obtain ⟨placed, hforms, hturn, hnamed⟩ :=
    (buildTranscriptTurns_accounts (nodeEvents events nodes node)).1
  refine ⟨_, List.getElem_mem hlt, ?_, placed, hforms, fun j => ?_, ?_⟩
  · rw [hid, ← hfirst]
    rfl
  · rw [hbare j, ← hfirst]
    exact hturn j
  · refine hnamed.imp fun event entry hplaced => ?_
    apply PlacedByName.mono hplaced
    rw [hids, ← hfirst]
    exact List.prefix_refl _

/-- The transcript of a session loses and repeats nothing. The trees under the root and the
detached views reach the view of every node once, to any depth from the number of nodes on,
and no view has two places. The turns of a node's view show what the node's events show, each
item once and in the turn its event belongs to, there in the order of the events, and as a
whole in that order where no event goes back to an earlier turn. -/
theorem buildSessionTranscript_complete (events : List TranscriptSourceEvent)
    (nodes : List TranscriptSourceNode)
    (hdistinct : (nodes.map TranscriptSourceNode.id).Nodup)
    (hacyclic : ∀ id, ¬ TransGen (ParentLink nodes) id id) :
    let t := buildSessionTranscript events nodes
    (∀ depth, nodes.length ≤ depth →
      (t.sessionNodeIds (forestOf t.childViews depth t.tops)).Perm
        (nodes.map TranscriptSourceNode.id)) ∧
    (t.tops ++ hanging t.views).Nodup ∧
    ∀ node ∈ nodes, ∃ view ∈ t.views, view.sessionNodeId = some node.id ∧
      ∃ placed, Accounts view.turns (nodeEvents events nodes node) placed ∧
        (shown view.turns).Perm
          (shownForms (displayForms [] (nodeEvents events nodes node))) ∧
        (placed.Pairwise (fun first second => first.2 ≤ second.2) →
          shown view.turns = shownForms (displayForms [] (nodeEvents events nodes node))) := by
  intro t
  cases hcase : nodes.isEmpty && !events.isEmpty with
  | false =>
      refine ⟨fun depth hdepth => ?_, ?_, fun node hnode => ?_⟩
      · rw [← sessionNodeIds_range events hdistinct hcase]
        exact (forest_perm events hdistinct hacyclic hcase hdepth).filterMap _
      · exact (buildSessionTranscript_hung events hdistinct hcase).2.nodup_iff.mpr
          List.nodup_range
      · obtain ⟨view, hview, hid, placed, haccounts⟩ :=
          view_accounts events hdistinct hcase hnode
        exact ⟨view, hview, hid, placed, haccounts, haccounts.perm, haccounts.in_order⟩
  | true =>
      obtain ⟨hnone, _⟩ := Bool.and_eq_true_iff.mp hcase
      obtain rfl : nodes = [] := by simpa using hnone
      have hfree := (buildTranscriptTurns_accounts events).2
      have hbuild : t = { views := [nodelessView events], root := some 0, detached := [] } := by
        simp only [t, buildSessionTranscript, hcase, if_true]
      have hbelow : ∀ view, t.childViews view = [] := by
        intro view
        rw [hbuild]
        cases view with
        | zero => exact hfree
        | succ view => rfl
      refine ⟨fun depth _ => ?_, ?_, fun node hnode => by cases hnode⟩
      · have htops : t.tops = [0] := by
          rw [hbuild]
          rfl
        have hids : t.sessionNodeIds [0] = [] := by
          rw [hbuild]
          rfl
        rw [htops]
        cases depth with
        | zero => exact List.Perm.refl _
        | succ depth =>
            have hforest : forestOf t.childViews (depth + 1) [0] = [0] := by
              simp [forestOf, treeOf, hbelow]
            rw [hforest, hids]
            exact List.Perm.refl _
      · rw [hbuild]
        have hhang : hanging [nodelessView events] = [] := by
          rw [hanging, List.flatMap_singleton]
          exact hfree
        simp [SessionTranscript.tops, hhang]

/-! ## A nested child of a detached view, and turns that interleave -/

/-- Where parents rank below their nodes, no node is its own ancestor. -/
theorem acyclic_of_rank {nodes : List TranscriptSourceNode} (rank : String → ℕ)
    (hrank : ∀ node ∈ nodes, ∀ parent, node.parentNodeId = some parent →
      rank parent < rank node.id) (id : String) : ¬ TransGen (ParentLink nodes) id id := by
  have hbelow : ∀ above, TransGen (ParentLink nodes) id above → rank above < rank id := by
    intro above hchain
    induction hchain with
    | single hlink =>
        obtain ⟨node, hnode, rfl, hparent⟩ := hlink
        exact hrank node hnode _ hparent
    | tail _ hlink ih =>
        obtain ⟨node, hnode, rfl, hparent⟩ := hlink
        exact (hrank node hnode _ hparent).trans ih
  exact fun hcycle => Nat.lt_irrefl _ (hbelow id hcycle)

/-- A node with no more than its id and its parent's. -/
def plainNode (id : String) (parentNodeId : Option String) : TranscriptSourceNode :=
  { id := id, eveSessionId := none, parentNodeId := parentNodeId, nodeId := none,
    agentId := none, agentName := none, status := none, resolutionStatus := none,
    remoteUrl := none }

/-- A root, a node whose parent is missing, and a child of that node. -/
def nestedNodes : List TranscriptSourceNode :=
  [plainNode "root" none, plainNode "orphan" (some "missing"), plainNode "child" (some "orphan")]

/-- A turn of the root that goes on after another began, and an open call of the orphan. -/
def nestedEvents : List TranscriptSourceEvent :=
  [ { type := "message.received"
      payload := .obj [("turnId", .str "t1"), ("message", .str "first")]
      eventAt := "1", sessionNodeId := some "root" },
    { type := "message.received"
      payload := .obj [("turnId", .str "t2"), ("message", .str "second")]
      eventAt := "2", sessionNodeId := some "root" },
    { type := "message.completed"
      payload := .obj [("turnId", .str "t1"), ("message", .str "third")]
      eventAt := "3", sessionNodeId := some "root" },
    { type := "call.requested"
      payload := .obj [("callId", .str "c"), ("capability", .obj [("kind", .str "agent")])]
      eventAt := "4", sessionNodeId := some "orphan" } ]

/-- The nodes of the example are distinct and acyclic. -/
theorem nestedNodes_acyclic (id : String) : ¬ TransGen (ParentLink nestedNodes) id id := by
  apply acyclic_of_rank fun id => if id = "child" then 2 else if id = "orphan" then 1 else 0
  decide

/-- The trees of the example reach its three nodes, and each view has one place. -/
theorem buildSessionTranscript_complete_nested :
    ((buildSessionTranscript nestedEvents nestedNodes).sessionNodeIds
      (forestOf (buildSessionTranscript nestedEvents nestedNodes).childViews 3
        (buildSessionTranscript nestedEvents nestedNodes).tops)).Perm
      ["root", "orphan", "child"] ∧
    ((buildSessionTranscript nestedEvents nestedNodes).tops ++
      hanging (buildSessionTranscript nestedEvents nestedNodes).views).Nodup := by
  have hcomplete := buildSessionTranscript_complete nestedEvents nestedNodes (by decide)
    nestedNodes_acyclic
  exact ⟨hcomplete.1 3 (by decide), hcomplete.2.1⟩

/-- The text of a message. -/
def TranscriptItem.message : TranscriptItem → String
  | .user text _ => text
  | .assistant text _ => text
  | _ => ""

/-- The child is neither in the tree under the root nor detached, and the root's turns show
its messages in another order than that of the events. -/
theorem nested_child_and_interleaved_turns :
    (nestedNodes.map TranscriptSourceNode.id).Nodup ∧
    (∀ id, ¬ TransGen (ParentLink nestedNodes) id id) ∧
    ¬ ((buildSessionTranscript nestedEvents nestedNodes).sessionNodeIds
        (forestOf (buildSessionTranscript nestedEvents nestedNodes).childViews 3
            (buildSessionTranscript nestedEvents nestedNodes).root.toList ++
          (buildSessionTranscript nestedEvents nestedNodes).detached)).Perm
      (nestedNodes.map TranscriptSourceNode.id) ∧
    ¬ ∀ node ∈ nestedNodes, ∃ view ∈ (buildSessionTranscript nestedEvents nestedNodes).views,
      view.sessionNodeId = some node.id ∧ shown view.turns =
        shownForms (displayForms [] (nodeEvents nestedEvents nestedNodes node)) := by
  refine ⟨by decide, nestedNodes_acyclic, by decide +kernel, fun hordered => ?_⟩
  obtain ⟨view, hview, hid, hshown⟩ := hordered (plainNode "root" none) (by simp [nestedNodes])
  have hmessages : ¬ ∃ view ∈ (buildSessionTranscript nestedEvents nestedNodes).views,
      view.sessionNodeId = some "root" ∧
        (shown view.turns).map TranscriptItem.message =
          (shownForms (displayForms []
            (nodeEvents nestedEvents nestedNodes (plainNode "root" none)))).map
              TranscriptItem.message := by
    decide +kernel
  exact hmessages ⟨view, hview, hid, congrArg _ hshown⟩

end Eveland.Transcript
