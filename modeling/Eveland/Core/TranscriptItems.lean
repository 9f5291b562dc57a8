/-
# Every displayed event is in one turn

An event shows its items in the turn it belongs to, behind what the turn shows already.
Later events fill in how a call ended; the call stays where it is. So a turn shows what
its events show, in the order of the events, and the turns together show it once.
-/

import Mathlib.Data.List.Chain
import Eveland.Core.Transcript

namespace Eveland.Transcript

/-! ## What an event shows -/

/-- An item less what later events and the views fill in. -/
def TranscriptItem.bare : TranscriptItem → TranscriptItem
  | .tool call => .tool
      { call with
        isSubagent := false, output := .null, status := .pending, errorText := none,
        usage := none, childEveSessionId := none, child := none }
  | item => item

/-- The ids of the calls an event requests. -/
def requestedIds (event : TranscriptSourceEvent) : List String :=
  let payload := asRecord (some event.payload)
  match eventType event.type with
  | .actionsRequested =>
      (requestedActions payload).filterMap fun action => truthy (asString (action.field "callId"))
  | .callRequested =>
      if asString (get (asRecord (get payload "capability")) "kind") = some "control" then []
      else (truthy (asString (get payload "callId"))).toList
  | _ => []

/-- An earlier event requested the call. -/
def isRequested (earlier : List TranscriptSourceEvent) (callId : Option String) : Bool :=
  (truthy callId).any fun id => earlier.any fun event => (requestedIds event).contains id

/-- The kind an event gives an interaction it opens. -/
def openedKind (id : String) (event : TranscriptSourceEvent) : Option String :=
  let payload := asRecord (some event.payload)
  match eventType event.type with
  | .interactionOpened =>
      if truthy (asString (get payload "interactionId")) = some id then
        some (interactionKind payload)
      else none
  | _ => none

/-- The last kind that earlier events gave an interaction. -/
def lastKind (earlier : List TranscriptSourceEvent) (id : String) : Option String :=
  earlier.reverse.findSome? (openedKind id)

/-- The items an event shows, after some earlier ones. A result whose call was requested
shows in that call, and so do the events that settle a call or name its child. -/
def displayForm (earlier : List TranscriptSourceEvent) (event : TranscriptSourceEvent) :
    List TranscriptItem :=
  let payload := asRecord (some event.payload)
  let eventAt := event.eventAt
  let outcome := asString (get payload "outcome")
  match eventType event.type with
  | .messageReceived =>
      if asString (get payload "kind") = some "execution.background_task" then []
      else [.user (messageText payload) eventAt]
  | .deliveryConsumed => [.user (messageText payload) eventAt]
  | .messageCompleted => [.assistant (messageText payload) eventAt]
  | .reasoningCompleted =>
      if messageText payload = "" then [] else [.reasoning (messageText payload) eventAt]
  | .contentCompleted =>
      match truthy (contentText payload) with
      | none => []
      | some text =>
          if asString (get payload "kind") = some "reasoning" then [.reasoning text eventAt]
          else if asString (get payload "kind") = some "text" ∨
              asString (get payload "kind") = some "result" then [.assistant text eventAt]
          else []
  | .actionsRequested =>
      (requestedActions payload).map fun action => .tool (requestedAction action eventAt)
  | .callRequested =>
      if asString (get (asRecord (get payload "capability")) "kind") = some "control" then []
      else [.tool (requestedCall payload eventAt)]
  | .actionResult =>
      if isRequested earlier (asString (get (asRecord (get payload "result")) "callId")) then []
      else [.tool (resultCall payload eventAt)]
  | .turnFailed => [.system "Turn failed" (errorMessage payload) eventAt]
  | .turnCancelled => [.system "Turn cancelled" none eventAt]
  | .turnSettled =>
      if outcome = some "completed" then []
      else if outcome = some "failed" then
        [.system "Turn failed" (errorMessage payload) eventAt]
      else if outcome = some "cancelled" then [.system "Turn cancelled" none eventAt]
      else []
  | .stepFailed => [.system "Step failed" (errorMessage payload) eventAt]
  | .modelSettled =>
      if outcome = some "failed" then [.system "Step failed" (errorMessage payload) eventAt]
      else []
  | .sessionFailed => [.system "Session failed" (errorMessage payload) eventAt]
  | .sessionEnded =>
      if outcome = some "failed" then [.system "Session failed" (errorMessage payload) eventAt]
      else []
  | .inputRequested =>
      [.system "Input requested"
        ((asString (get (asRecord (get payload "request")) "prompt")).or
          ((asString (get payload "prompt")).or (truthy (some (messageText payload))))) eventAt]
  | .authorizationRequired =>
      [.system "Authorization required"
        ((asString (get payload "displayName")).or (asString (get payload "description")))
        eventAt]
  | .authorizationCompleted => [.system "Authorization completed" outcome eventAt]
  | .interactionOpened =>
      [interactionItem (asRecord (get payload "request")) (interactionKind payload) eventAt]
  | .interactionSettled =>
      match truthy (asString (get payload "interactionId")) with
      | none => []
      | some id =>
          if lastKind earlier id = some "sign-in" then
            [.system "Authorization completed" outcome eventAt]
          else []
  | _ => []

/-- What the events of a list show, one after the other. -/
def displayForms : List TranscriptSourceEvent → List TranscriptSourceEvent →
    List (List TranscriptItem)
  | _, [] => []
  | earlier, event :: events =>
      displayForm earlier event :: displayForms (earlier ++ [event]) events

/-! ## What an edit of the turns adds -/

/-- What a turn shows, bare. -/
def bareItems (turns : List TranscriptTurn) (turn : ℕ) : List TranscriptItem :=
  match turns[turn]? with
  | some t => t.items.map TranscriptItem.bare
  | none => []

/-- The view attached to an item. -/
def TranscriptItem.child? : TranscriptItem → Option ℕ
  | .tool call => call.child
  | _ => none

/-- The views attached to the calls of some turns. -/
def childrenOf (turns : List TranscriptTurn) : List ℕ :=
  turns.flatMap fun turn => turn.items.filterMap TranscriptItem.child?

/-- The ids of some turns. -/
def turnIds (turns : List TranscriptTurn) : List (Option String) :=
  turns.map TranscriptTurn.turnId

/-- One turn gained items at its end; nothing else shows differently, the turns are the same,
and no view came or went. -/
structure Adds (before after : List TranscriptTurn) (turn : ℕ) (items : List TranscriptItem) :
    Prop where
  bare : ∀ j, bareItems after j =
    bareItems before j ++ if j = turn then items.map TranscriptItem.bare else []
  children : childrenOf after = childrenOf before
  ids : turnIds after = turnIds before

theorem Adds.length {before after : List TranscriptTurn} {turn : ℕ}
    {items : List TranscriptItem} (hadds : Adds before after turn items) :
    after.length = before.length := by
  simpa [turnIds] using congrArg List.length hadds.ids

theorem Adds.refl (turns : List TranscriptTurn) (turn : ℕ) : Adds turns turns turn [] :=
  ⟨fun j => by simp, rfl, rfl⟩

/-- One turn gains items twice. -/
theorem Adds.trans {before middle after : List TranscriptTurn} {turn : ℕ}
    {first second : List TranscriptItem} (hfirst : Adds before middle turn first)
    (hsecond : Adds middle after turn second) : Adds before after turn (first ++ second) := by
  refine ⟨fun j => ?_, hsecond.children.trans hfirst.children, hsecond.ids.trans hfirst.ids⟩
  rw [hsecond.bare j, hfirst.bare j]
  by_cases hturn : j = turn
  · simp [hturn]
  · simp [hturn]

/-- A list with one entry changed reads the same where the change does not show. -/
theorem map_modify_of_eq {α β : Type*} (read : α → β) (edit : α → α)
    (hsame : ∀ a, read (edit a) = read a) (index : ℕ) (entries : List α) :
    (entries.modify index edit).map read = entries.map read := by
  induction entries generalizing index with
  | nil => simp
  | cons first rest ih => cases index <;> simp [hsame, ih]

theorem filterMap_modify_of_eq {α β : Type*} (read : α → Option β) (edit : α → α)
    (hsame : ∀ a, read (edit a) = read a) (index : ℕ) (entries : List α) :
    (entries.modify index edit).filterMap read = entries.filterMap read := by
  induction entries generalizing index with
  | nil => simp
  | cons first rest ih => cases index <;> simp [List.filterMap_cons, hsame, ih]

/-- What shows in a turn whose items were changed. -/
theorem bareItems_modify (turns : List TranscriptTurn) (turn j : ℕ)
    (edit : TranscriptTurn → TranscriptTurn) :
    bareItems (turns.modify turn edit) j =
      if j = turn then
        match turns[j]? with
        | some t => (edit t).items.map TranscriptItem.bare
        | none => []
      else bareItems turns j := by
  unfold bareItems
  rw [List.getElem?_modify]
  by_cases hturn : j = turn
  · subst hturn
    cases turns[j]? <;> simp
  · have hne : turn ≠ j := fun h => hturn h.symm
    cases turns[j]? <;> simp [hturn, hne]

/-- Views of changed turns. -/
theorem childrenOf_modify (turns : List TranscriptTurn) (turn : ℕ)
    {edit : TranscriptTurn → TranscriptTurn}
    (hedit : ∀ t, (edit t).items.filterMap TranscriptItem.child? =
      t.items.filterMap TranscriptItem.child?) :
    childrenOf (turns.modify turn edit) = childrenOf turns := by
  induction turns generalizing turn with
  | nil => simp [childrenOf]
  | cons first rest ih =>
      cases turn with
      | zero => simp [childrenOf, hedit]
      | succ turn =>
          have hrest := ih turn
          simp only [childrenOf] at hrest
          simp [childrenOf, hrest]

/-- An edit that changes how items show in no turn adds nothing. -/
theorem adds_modify (turns : List TranscriptTurn) (turn place : ℕ)
    {edit : TranscriptTurn → TranscriptTurn}
    (hbare : ∀ t, (edit t).items.map TranscriptItem.bare = t.items.map TranscriptItem.bare)
    (hchild : ∀ t, (edit t).items.filterMap TranscriptItem.child? =
      t.items.filterMap TranscriptItem.child?) (hid : ∀ t, (edit t).turnId = t.turnId) :
    Adds turns (turns.modify turn edit) place [] := by
  refine ⟨fun j => ?_, childrenOf_modify turns turn hchild, map_modify_of_eq _ _ hid turn turns⟩
  rw [bareItems_modify]
  by_cases hturn : j = turn
  · simp only [hturn, if_true, hbare, bareItems]
    simp
  · simp [hturn]

theorem adds_editTurn (turns : List TranscriptTurn) (turn place : ℕ)
    (edit : TranscriptTurn → TranscriptTurn) :
    Adds turns (editTurn turn edit turns) place [] :=
  adds_modify turns turn place (fun _ => rfl) (fun _ => rfl) (fun _ => rfl)

/-- A push adds its item to a turn that is there. -/
theorem adds_pushItem {turns : List TranscriptTurn} {turn : ℕ} (hturn : turn < turns.length)
    {item : TranscriptItem} (hchild : item.child? = none) :
    Adds turns (pushItem turn item turns) turn [item] := by
  have hids : turnIds (pushItem turn item turns) = turnIds turns :=
    map_modify_of_eq TranscriptTurn.turnId (fun t => { t with items := t.items ++ [item] })
      (fun _ => rfl) turn turns
  refine ⟨fun j => ?_, ?_, hids⟩
  · rw [pushItem, bareItems_modify]
    by_cases hj : j = turn
    · subst hj
      simp [bareItems, List.getElem?_eq_getElem hturn]
    · simp [hj]
  · apply childrenOf_modify
    intro t
    simp [List.filterMap_append, hchild]

/-- An edit of a call that keeps what it shows bare, and its view. -/
structure Fills (edit : TranscriptToolCall → TranscriptToolCall) : Prop where
  bare : ∀ call, TranscriptItem.bare (.tool (edit call)) = TranscriptItem.bare (.tool call)
  child : ∀ call, (edit call).child = call.child

theorem Fills.bare_mapCall {edit : TranscriptToolCall → TranscriptToolCall}
    (hfills : Fills edit) (item : TranscriptItem) : (item.mapCall edit).bare = item.bare := by
  cases item with
  | tool call => exact hfills.bare call
  | user text eventAt => rfl
  | assistant text eventAt => rfl
  | reasoning text eventAt => rfl
  | system label text eventAt => rfl

theorem Fills.child_mapCall {edit : TranscriptToolCall → TranscriptToolCall}
    (hfills : Fills edit) (item : TranscriptItem) : (item.mapCall edit).child? = item.child? := by
  cases item with
  | tool call => exact hfills.child call
  | user text eventAt => rfl
  | assistant text eventAt => rfl
  | reasoning text eventAt => rfl
  | system label text eventAt => rfl

theorem Fills.adds_editCall {edit : TranscriptToolCall → TranscriptToolCall}
    (hfills : Fills edit) (place : CallPlace) (turns : List TranscriptTurn) (turn : ℕ) :
    Adds turns (editCall place edit turns) turn [] :=
  adds_modify turns place.turn turn
    (fun t => map_modify_of_eq _ _ hfills.bare_mapCall place.item t.items)
    (fun t => filterMap_modify_of_eq _ _ hfills.child_mapCall place.item t.items)
    (fun _ => rfl)

theorem fills_cancelCall : Fills cancelCall where
  bare call := by
    unfold cancelCall
    split <;> rfl
  child call := by
    unfold cancelCall
    split <;> rfl

theorem fills_openChild (sessionId : Option String) : Fills (openChild sessionId) :=
  ⟨fun _ => rfl, fun _ => rfl⟩

theorem fills_settleTask (payload : Option Json) : Fills (settleTask payload) :=
  ⟨fun _ => rfl, fun _ => rfl⟩

theorem fills_settleCall (payload : Option Json) : Fills (settleCall payload) :=
  ⟨fun _ => rfl, fun _ => rfl⟩

theorem adds_cancelCalls (turns : List TranscriptTurn) (turn place : ℕ) :
    Adds turns (cancelCalls turn turns) place [] := by
  apply adds_modify
  · intro t
    simp [List.map_map, Function.comp_def, fills_cancelCall.bare_mapCall]
  · intro t
    simp [List.filterMap_map, fills_cancelCall.child_mapCall]
  · exact fun _ => rfl

/-- An edit of a turn that is there adds some items to it. -/
def Shows (edit : ℕ → List TranscriptTurn → List TranscriptTurn)
    (items : List TranscriptItem) : Prop :=
  ∀ turn turns, turn < turns.length → Adds turns (edit turn turns) turn items

theorem shows_id : Shows (fun _ => id) [] := fun turn turns _ => Adds.refl turns turn

theorem shows_editTurn (edit : TranscriptTurn → TranscriptTurn) :
    Shows (fun turn => editTurn turn edit) [] :=
  fun turn turns _ => adds_editTurn turns turn turn edit

theorem shows_pushItem {item : TranscriptItem} (hchild : item.child? = none) :
    Shows (fun turn => pushItem turn item) [item] :=
  fun _ _ hturn => adds_pushItem hturn hchild

/-- One edit after the other. -/
theorem Shows.trans {first second : ℕ → List TranscriptTurn → List TranscriptTurn}
    {these those : List TranscriptItem} (hfirst : Shows first these)
    (hsecond : Shows second those) :
    Shows (fun turn turns => second turn (first turn turns)) (these ++ those) := by
  intro turn turns hturn
  have hadds := hfirst turn turns hturn
  exact hadds.trans (hsecond turn _ (hadds.length ▸ hturn))

theorem shows_pushUser (text eventAt : String) :
    Shows (pushUser text eventAt) [.user text eventAt] :=
  (shows_pushItem rfl).trans (shows_editTurn _)

theorem shows_pushAssistant (text eventAt : String) :
    Shows (pushAssistant text eventAt) [.assistant text eventAt] :=
  (shows_pushItem rfl).trans (shows_editTurn _)

theorem shows_failTurn (text : Option String) (eventAt : String) :
    Shows (failTurn text eventAt) [.system "Turn failed" text eventAt] :=
  (shows_editTurn _).trans (shows_pushItem rfl)

theorem shows_cancelTurn (eventAt : String) :
    Shows (cancelTurn eventAt) [.system "Turn cancelled" none eventAt] := by
  have hcancel : Shows cancelCalls [] := fun turn turns _ => adds_cancelCalls turns turn turn
  exact ((shows_editTurn _).trans hcancel).trans (shows_pushItem rfl)

theorem shows_failSession (text : Option String) (eventAt : String) :
    Shows (failSession text eventAt) [.system "Session failed" text eventAt] :=
  (shows_pushItem rfl).trans (shows_editTurn _)

/-! ## One event -/

/-- The turn an event names. -/
def turnName (event : TranscriptSourceEvent) : Option String :=
  truthy (asString (get (asRecord (some event.payload)) "turnId"))

/-- An id finds the turn of that id. -/
def Sound (s : Progress) : Prop :=
  ∀ id turn, s.turnsById.lookup id = some turn → (turnIds s.turns)[turn]? = some (some id)

/-- From one state to the next, one turn gained some items: the turn of the name, if there
is one. -/
structure Moves (s s' : Progress) (name : Option String) (items : List TranscriptItem) :
    Prop where
  adds : ∃ turn, (∀ j, bareItems s'.turns j =
      bareItems s.turns j ++ if j = turn then items.map TranscriptItem.bare else []) ∧
    childrenOf s'.turns = childrenOf s.turns ∧
    (items ≠ [] → ∀ id, name = some id → (turnIds s'.turns)[turn]? = some (some id))
  ids : turnIds s.turns <+: turnIds s'.turns
  sound : Sound s'

theorem Moves.refl {s : Progress} (hsound : Sound s) (name : Option String) :
    Moves s s name [] :=
  ⟨⟨0, fun j => by simp, rfl, fun h => absurd rfl h⟩, List.prefix_refl _, hsound⟩

/-- The turn of a payload is there afterwards, under the name it is given, and shows nothing
new. -/
theorem turnFor_spec {s : Progress} (hsound : Sound s) (payload : Option Json)
    (eventAt : String) :
    Sound (s.turnFor payload eventAt).1 ∧
      (s.turnFor payload eventAt).2 < (s.turnFor payload eventAt).1.turns.length ∧
      (∀ j, bareItems (s.turnFor payload eventAt).1.turns j = bareItems s.turns j) ∧
      childrenOf (s.turnFor payload eventAt).1.turns = childrenOf s.turns ∧
      turnIds s.turns <+: turnIds (s.turnFor payload eventAt).1.turns ∧
      ∀ id, truthy (asString (get payload "turnId")) = some id →
        (turnIds (s.turnFor payload eventAt).1.turns)[(s.turnFor payload eventAt).2]? =
          some (some id) := by
  cases hexisting : s.existingTurn (asString (get payload "turnId")) with
  | some turn =>
      have hread : s.turnFor payload eventAt = (s, turn) := by
        simp only [Progress.turnFor, hexisting]
      rw [hread]
      unfold Progress.existingTurn at hexisting
      cases hnamed : truthy (asString (get payload "turnId")) with
      | some name =>
          simp only [hnamed] at hexisting
          have hfound := hsound name turn hexisting
          obtain ⟨hlt, _⟩ := List.getElem?_eq_some_iff.mp hfound
          refine ⟨hsound, by simpa [turnIds] using hlt, fun _ => rfl, rfl, List.prefix_refl _, ?_⟩
          intro id hid
          rw [← Option.some.inj hid]
          exact hfound
      | none =>
          simp only [hnamed] at hexisting
          refine ⟨hsound, ?_, fun _ => rfl, rfl, List.prefix_refl _, fun id hid => by cases hid⟩
          split at hexisting
          · cases hexisting
          · rename_i hnonempty
            have hlength : s.turns.length ≠ 0 := by simpa using hnonempty
            simp only [Option.some.injEq] at hexisting
            show turn < s.turns.length
            omega
  | none =>
      simp only [Progress.turnFor, hexisting]
      refine ⟨?_, by simp, ?_, by simp [childrenOf], ?_, ?_⟩
      · intro id turn hlookup
        have hkept : s.turnsById.lookup id = some turn →
            (turnIds s.turns ++ [asString (get payload "turnId")])[turn]? = some (some id) := by
          intro hold
          have hfound := hsound id turn hold
          obtain ⟨hlt, _⟩ := List.getElem?_eq_some_iff.mp hfound
          rw [List.getElem?_append_left hlt]
          exact hfound
        simp only [turnIds, List.map_append, List.map_cons, List.map_nil] at hkept ⊢
        cases hnamed : truthy (asString (get payload "turnId")) with
        | none =>
            simp only [hnamed] at hlookup
            exact hkept hlookup
        | some name =>
            simp only [hnamed, List.lookup_cons] at hlookup
            split at hlookup
            · rename_i hid
              obtain rfl : id = name := by simpa using hid
              simp only [Option.some.injEq] at hlookup
              have hfull := (Option.filter_eq_some_iff.mp hnamed).1
              simp [← hlookup, hfull]
            · exact hkept hlookup
      · intro j
        unfold bareItems
        rw [List.getElem?_append]
        by_cases hj : j < s.turns.length
        · simp [hj]
        · have hnone : s.turns[j]? = none := List.getElem?_eq_none (by omega)
          rw [if_neg hj, hnone]
          cases hrest : j - s.turns.length with
          | zero => simp
          | succ n => simp
      · simp [turnIds]
      · intro id hid
        have hfull := (Option.filter_eq_some_iff.mp hid).1
        simp [turnIds, hfull]

/-- Showing items at the turn of a payload. -/
theorem atTurn_moves {s : Progress} (hsound : Sound s) (payload : Option Json)
    (eventAt : String) {edit : ℕ → List TranscriptTurn → List TranscriptTurn}
    {items : List TranscriptItem} (hshows : Shows edit items) :
    Moves s (s.atTurn payload eventAt edit) (truthy (asString (get payload "turnId"))) items := by
  obtain ⟨hfound, hturn, hbare, hchildren, hids, hnamed⟩ := turnFor_spec hsound payload eventAt
  have hadds := hshows _ _ hturn
  refine ⟨⟨(s.turnFor payload eventAt).2, fun j => ?_, ?_, fun _ id hid => ?_⟩, ?_, ?_⟩
  · rw [← hbare j]
    exact hadds.bare j
  · exact hadds.children.trans hchildren
  · exact hadds.ids.symm ▸ hnamed id hid
  · exact hadds.ids.symm ▸ hids
  · intro id turn hlookup
    exact hadds.ids.symm ▸ hfound id turn hlookup

/-- Filling in a call shows nothing new. -/
theorem editCall_moves {s : Progress} (hsound : Sound s) (place : CallPlace)
    {edit : TranscriptToolCall → TranscriptToolCall} (hfills : Fills edit)
    (name : Option String) : Moves s (s.onTurns (editCall place edit)) name [] := by
  have hadds := hfills.adds_editCall place s.turns 0
  refine ⟨⟨0, hadds.bare, hadds.children, fun h => absurd rfl h⟩, ?_, ?_⟩
  · exact (show turnIds (editCall place edit s.turns) = _ from hadds.ids) ▸ List.prefix_refl _
  · intro id turn hlookup
    exact hadds.ids.symm ▸ hsound id turn hlookup

/-- Filling in the call an id names, if there is one. -/
theorem fillCall_moves {s : Progress} (hsound : Sound s) (callId : Option String)
    {edit : TranscriptToolCall → TranscriptToolCall} (hfills : Fills edit)
    (name : Option String) : Moves s (s.fillCall callId edit) name [] := by
  unfold Progress.fillCall
  split
  · exact Moves.refl hsound name
  · exact editCall_moves hsound _ hfills name

/-- Pushing calls onto a turn. -/
theorem pushCalls_spec (calls : List TranscriptToolCall) {s : Progress} {turn : ℕ}
    (hturn : turn < s.turns.length) (hchild : ∀ call ∈ calls, call.child = none) :
    Adds s.turns (calls.foldl (fun s call => s.pushCall turn call) s).turns turn
        (calls.map .tool) ∧
      (calls.foldl (fun s call => s.pushCall turn call) s).turnsById = s.turnsById := by
  induction calls generalizing s with
  | nil => exact ⟨Adds.refl _ _, rfl⟩
  | cons call calls ih =>
      have hpush : Adds s.turns (s.pushCall turn call).turns turn [.tool call] :=
        adds_pushItem hturn (hchild call (List.mem_cons_self ..))
      have hrest := ih (s := s.pushCall turn call) (hpush.length ▸ hturn)
        fun other hother => hchild other (List.mem_cons_of_mem _ hother)
      exact ⟨hpush.trans hrest.1, hrest.2⟩

/-- Calls pushed at the turn of a payload. -/
theorem pushCalls_moves {s : Progress} (hsound : Sound s) (payload : Option Json)
    (eventAt : String) (calls : List TranscriptToolCall)
    (hchild : ∀ call ∈ calls, call.child = none) :
    Moves s (calls.foldl (fun t call => t.pushCall (s.turnFor payload eventAt).2 call)
      (s.turnFor payload eventAt).1) (truthy (asString (get payload "turnId")))
        (calls.map .tool) := by
  obtain ⟨hfound, hturn, hbare, hchildren, hids, hnamed⟩ := turnFor_spec hsound payload eventAt
  obtain ⟨hadds, hnames⟩ := pushCalls_spec calls hturn hchild
  refine ⟨⟨(s.turnFor payload eventAt).2, fun j => ?_, ?_, fun _ id hid => ?_⟩, ?_, ?_⟩
  · rw [← hbare j]
    exact hadds.bare j
  · exact hadds.children.trans hchildren
  · exact hadds.ids.symm ▸ hnamed id hid
  · exact hadds.ids.symm ▸ hids
  · intro id turn hlookup
    rw [hnames] at hlookup
    exact hadds.ids.symm ▸ hfound id turn hlookup

/-! ## What the maps keep -/

@[simp] theorem turnFor_callsById (payload : Option Json) (eventAt : String) (s : Progress) :
    (s.turnFor payload eventAt).1.callsById = s.callsById := by
  unfold Progress.turnFor
  simp only
  split <;> rfl

@[simp] theorem turnFor_interactionKinds (payload : Option Json) (eventAt : String)
    (s : Progress) :
    (s.turnFor payload eventAt).1.interactionKinds = s.interactionKinds := by
  unfold Progress.turnFor
  simp only
  split <;> rfl

@[simp] theorem atTurn_callsById (payload : Option Json) (eventAt : String)
    (edit : ℕ → List TranscriptTurn → List TranscriptTurn) (s : Progress) :
    (s.atTurn payload eventAt edit).callsById = s.callsById :=
  turnFor_callsById payload eventAt s

@[simp] theorem atTurn_interactionKinds (payload : Option Json) (eventAt : String)
    (edit : ℕ → List TranscriptTurn → List TranscriptTurn) (s : Progress) :
    (s.atTurn payload eventAt edit).interactionKinds = s.interactionKinds :=
  turnFor_interactionKinds payload eventAt s

@[simp] theorem onTurns_callsById (edit : List TranscriptTurn → List TranscriptTurn)
    (s : Progress) : (s.onTurns edit).callsById = s.callsById := rfl

@[simp] theorem onTurns_interactionKinds (edit : List TranscriptTurn → List TranscriptTurn)
    (s : Progress) : (s.onTurns edit).interactionKinds = s.interactionKinds := rfl

@[simp] theorem fillCall_callsById (callId : Option String)
    (edit : TranscriptToolCall → TranscriptToolCall) (s : Progress) :
    (s.fillCall callId edit).callsById = s.callsById := by
  unfold Progress.fillCall
  split <;> rfl

@[simp] theorem fillCall_interactionKinds (callId : Option String)
    (edit : TranscriptToolCall → TranscriptToolCall) (s : Progress) :
    (s.fillCall callId edit).interactionKinds = s.interactionKinds := by
  unfold Progress.fillCall
  split <;> rfl

@[simp] theorem addStepUsage_callsById (payload : Option Json) (eventAt : String)
    (s : Progress) : (addStepUsage payload eventAt s).callsById = s.callsById := by
  unfold addStepUsage
  split <;> simp

@[simp] theorem addStepUsage_interactionKinds (payload : Option Json) (eventAt : String)
    (s : Progress) : (addStepUsage payload eventAt s).interactionKinds = s.interactionKinds := by
  unfold addStepUsage
  split <;> simp

@[simp] theorem pushCalls_interactionKinds (calls : List TranscriptToolCall) (turn : ℕ)
    (s : Progress) :
    (calls.foldl (fun s call => s.pushCall turn call) s).interactionKinds =
      s.interactionKinds := by
  induction calls generalizing s with
  | nil => rfl
  | cons call calls ih => exact ih (s.pushCall turn call)

/-- An id names a call once a call with that id was pushed. -/
theorem pushCalls_lookup (calls : List TranscriptToolCall) (turn : ℕ) (s : Progress)
    (id : String) :
    ((calls.foldl (fun s call => s.pushCall turn call) s).callsById.lookup id).isSome =
      ((s.callsById.lookup id).isSome ||
        (calls.filterMap fun call => truthy call.callId).contains id) := by
  induction calls generalizing s with
  | nil => simp
  | cons call calls ih =>
      rw [List.foldl_cons, ih, Progress.pushCall]
      cases hid : truthy call.callId with
      | none => simp [hid]
      | some name =>
          by_cases hname : id = name
          · simp [hid, hname]
          · have hother : (id == name) = false := by simpa using hname
            simp [hid, List.lookup_cons, hother, hname]

/-- After an event, the ids that name a call are those of before and those it requests. -/
theorem transcribe_callsById (s : Progress) (event : TranscriptSourceEvent) (id : String) :
    ((transcribe s event).callsById.lookup id).isSome =
      ((s.callsById.lookup id).isSome || (requestedIds event).contains id) := by
  unfold transcribe requestedIds
  cases eventType event.type with
  | actionsRequested =>
      have hlookup := pushCalls_lookup
        ((requestedActions (asRecord (some event.payload))).map fun action =>
          requestedAction action event.eventAt)
        (s.turnFor (asRecord (some event.payload)) event.eventAt).2
        (s.turnFor (asRecord (some event.payload)) event.eventAt).1 id
      rw [List.foldl_map, turnFor_callsById, List.filterMap_map] at hlookup
      exact hlookup
  | callRequested =>
      simp only
      split
      · simp
      · have hlookup := pushCalls_lookup
          [requestedCall (asRecord (some event.payload)) event.eventAt]
          (s.turnFor (asRecord (some event.payload)) event.eventAt).2
          (s.turnFor (asRecord (some event.payload)) event.eventAt).1 id
        rw [turnFor_callsById] at hlookup
        refine hlookup.trans ?_
        congr 1
  | interactionOpened =>
      simp only
      split <;> simp
  | _ =>
      simp only [List.contains_nil, Bool.or_false]
      repeat' split
      all_goals simp

/-- After an event, an interaction it opens has the kind it gives, any other the one of
before. -/
theorem transcribe_interactionKinds (s : Progress) (event : TranscriptSourceEvent)
    (id : String) :
    (transcribe s event).interactionKinds.lookup id =
      (openedKind id event).or (s.interactionKinds.lookup id) := by
  unfold transcribe openedKind
  cases eventType event.type with
  | actionsRequested =>
      have hkinds := pushCalls_interactionKinds
        ((requestedActions (asRecord (some event.payload))).map fun action =>
          requestedAction action event.eventAt)
        (s.turnFor (asRecord (some event.payload)) event.eventAt).2
        (s.turnFor (asRecord (some event.payload)) event.eventAt).1
      rw [List.foldl_map, turnFor_interactionKinds] at hkinds
      exact congrArg (List.lookup id) hkinds
  | callRequested =>
      simp only [Option.none_or]
      split
      · rfl
      · exact congrArg (List.lookup id) (turnFor_interactionKinds _ _ s)
  | interactionOpened =>
      simp only [atTurn_interactionKinds]
      cases htruthy : truthy (asString (get (asRecord (some event.payload)) "interactionId")) with
      | none => simp
      | some name =>
          by_cases hname : id = name
          · simp [hname]
          · have hne : name ≠ id := fun h => hname h.symm
            have hother : (id == name) = false := by simpa using hname
            simp [List.lookup_cons, hother, hne]
  | _ =>
      simp only [Option.none_or]
      repeat' split
      all_goals simp

/-! ## A run over the events -/

/-- What the maps keep of the events read so far. -/
structure Follows (earlier : List TranscriptSourceEvent) (s : Progress) : Prop where
  sound : Sound s
  calls : ∀ callId, (s.callPlace callId).isSome = isRequested earlier callId
  kinds : ∀ id, s.interactionKinds.lookup id = lastKind earlier id

theorem addStepUsage_moves {s : Progress} (hsound : Sound s) (payload : Option Json)
    (eventAt : String) :
    Moves s (addStepUsage payload eventAt s) (truthy (asString (get payload "turnId"))) [] := by
  unfold addStepUsage
  split
  · exact Moves.refl hsound _
  · exact atTurn_moves hsound payload eventAt (shows_editTurn _)

/-- An event shows its display form in one turn. -/
theorem transcribe_moves {earlier : List TranscriptSourceEvent} {s : Progress}
    (hfollows : Follows earlier s) (event : TranscriptSourceEvent) :
    Moves s (transcribe s event) (turnName event) (displayForm earlier event) := by
  have hsound := hfollows.sound
  have hsystem : ∀ label text, Moves s
      (s.atTurn (asRecord (some event.payload)) event.eventAt fun turn =>
        pushItem turn (.system label text event.eventAt)) (turnName event)
      [.system label text event.eventAt] :=
    fun label text => atTurn_moves hsound _ _ (shows_pushItem rfl)
  unfold transcribe displayForm
  cases eventType event.type with
  | messageReceived =>
      apply atTurn_moves hsound
      by_cases hkind : asString (get (asRecord (some event.payload)) "kind") =
          some "execution.background_task"
      · simpa only [hkind, if_true] using shows_id
      · simpa only [hkind, if_false] using shows_pushUser _ _
  | messageCompleted => exact atTurn_moves hsound _ _ (shows_pushAssistant _ _)
  | reasoningCompleted =>
      by_cases htext : messageText (asRecord (some event.payload)) = ""
      · simpa only [htext, if_true] using Moves.refl hsound _
      · simp only [htext, if_false]
        exact atTurn_moves hsound _ _ (shows_pushItem rfl)
  | actionsRequested =>
      have hmoves := pushCalls_moves hsound (asRecord (some event.payload)) event.eventAt
        ((requestedActions (asRecord (some event.payload))).map fun action =>
          requestedAction action event.eventAt)
        (by simp [requestedAction])
      rw [List.foldl_map, List.map_map] at hmoves
      exact hmoves
  | actionResult =>
      have hknown := hfollows.calls
        (asString (get (asRecord (get (asRecord (some event.payload)) "result")) "callId"))
      simp only
      cases hplace : s.callPlace
          (asString (get (asRecord (get (asRecord (some event.payload)) "result")) "callId")) with
      | none =>
          rw [hplace] at hknown
          simp only [← hknown, Option.isSome_none, Bool.false_eq_true, if_false]
          exact atTurn_moves hsound _ _ (shows_pushItem rfl)
      | some place =>
          rw [hplace] at hknown
          simp only [← hknown, Option.isSome_some, if_true]
          split
          · exact Moves.refl hsound _
          · refine editCall_moves hsound place ?_ _
            exact ⟨fun _ => rfl, fun _ => rfl⟩
  | taskStarted =>
      simp only
      split
      · rename_i place callId _ _
        by_cases hkind : asString (get (asRecord (some event.payload)) "kind") = some "agent"
        · have hfills : Fills fun call => { call with isSubagent := true } :=
            ⟨fun _ => rfl, fun _ => rfl⟩
          have hmoves := editCall_moves hsound place hfills (turnName event)
          simp only [hkind, if_true]
          exact ⟨hmoves.adds, hmoves.ids, hmoves.sound⟩
        · simp only [hkind, if_false]
          exact ⟨(Moves.refl hsound _).adds, List.prefix_refl _, hsound⟩
      · exact Moves.refl hsound _
  | agentStarted => exact fillCall_moves hsound _ (fills_openChild _) _
  | taskSettled => exact fillCall_moves hsound _ (fills_settleTask _) _
  | stepCompleted => exact addStepUsage_moves hsound _ _
  | turnCompleted => exact atTurn_moves hsound _ _ (shows_editTurn _)
  | turnFailed => exact atTurn_moves hsound _ _ (shows_failTurn _ _)
  | turnCancelled => exact atTurn_moves hsound _ _ (shows_cancelTurn _)
  | stepFailed => exact hsystem _ _
  | sessionFailed => exact atTurn_moves hsound _ _ (shows_failSession _ _)
  | inputRequested => exact hsystem _ _
  | authorizationRequired => exact hsystem _ _
  | authorizationCompleted => exact hsystem _ _
  | deliveryConsumed => exact atTurn_moves hsound _ _ (shows_pushUser _ _)
  | contentCompleted =>
      simp only
      cases truthy (contentText (asRecord (some event.payload))) with
      | none => exact Moves.refl hsound _
      | some text =>
          apply atTurn_moves hsound
          split
          · exact shows_pushItem rfl
          · split
            · exact shows_pushAssistant _ _
            · exact shows_id
  | callRequested =>
      simp only
      split
      · exact Moves.refl hsound _
      · exact pushCalls_moves hsound (asRecord (some event.payload)) event.eventAt
          [requestedCall (asRecord (some event.payload)) event.eventAt] (by simp [requestedCall])
  | callSettled => exact fillCall_moves hsound _ (fills_settleCall _) _
  | childOpened => exact fillCall_moves hsound _ (fills_openChild _) _
  | usageRecorded =>
      simp only
      split
      · exact Moves.refl hsound _
      · exact addStepUsage_moves hsound _ _
  | modelSettled =>
      simp only
      split
      · exact hsystem _ _
      · exact Moves.refl hsound _
  | turnSettled =>
      apply atTurn_moves hsound
      simp only
      split
      · exact shows_editTurn _
      · split
        · exact shows_failTurn _ _
        · split
          · exact shows_cancelTurn _
          · exact shows_id
  | sessionEnded =>
      simp only
      split
      · exact atTurn_moves hsound _ _ (shows_failSession _ _)
      · exact Moves.refl hsound _
  | interactionOpened =>
      have hchild : (interactionItem (asRecord (get (asRecord (some event.payload)) "request"))
          (interactionKind (asRecord (some event.payload))) event.eventAt).child? = none := by
        unfold interactionItem
        split <;> rfl
      simp only
      split
      · rename_i id _
        have hkept : Sound { s with interactionKinds :=
            (id, interactionKind (asRecord (some event.payload))) :: s.interactionKinds } := hsound
        have hmoves := atTurn_moves hkept (asRecord (some event.payload)) event.eventAt
          (shows_pushItem hchild)
        exact ⟨hmoves.adds, hmoves.ids, hmoves.sound⟩
      · exact atTurn_moves hsound _ _ (shows_pushItem hchild)
  | interactionSettled =>
      simp only
      cases truthy (asString (get (asRecord (some event.payload)) "interactionId")) with
      | none => exact Moves.refl hsound _
      | some id =>
          simp only [hfollows.kinds id]
          split
          · exact hsystem _ _
          · exact Moves.refl hsound _
  | other => exact Moves.refl hsound _

/-- The maps keep following the events. -/
theorem transcribe_follows {earlier : List TranscriptSourceEvent} {s : Progress}
    (hfollows : Follows earlier s) (event : TranscriptSourceEvent) :
    Follows (earlier ++ [event]) (transcribe s event) where
  sound := (transcribe_moves hfollows event).sound
  calls := by
    intro callId
    have hold := hfollows.calls callId
    unfold Progress.callPlace isRequested at hold ⊢
    cases htruthy : truthy callId with
    | none => rfl
    | some id =>
        simp only [htruthy, Option.bind_some, Option.any_some] at hold ⊢
        rw [transcribe_callsById, hold]
        simp
  kinds := by
    intro id
    rw [transcribe_interactionKinds, hfollows.kinds id]
    simp only [lastKind, List.reverse_append, List.reverse_cons, List.reverse_nil,
      List.nil_append, List.cons_append, List.findSome?_cons]
    cases openedKind id event <;> rfl

theorem follows_start : Follows [] Progress.start where
  sound := by
    intro id turn hlookup
    cases hlookup
  calls := by
    intro callId
    unfold Progress.callPlace isRequested
    cases truthy callId <;> rfl
  kinds := fun _ => rfl

/-- What some items that were placed in turns show in one of them. -/
def shownIn (placed : List (List TranscriptItem × ℕ)) (turn : ℕ) : List TranscriptItem :=
  ((placed.filter fun entry => entry.2 = turn).flatMap Prod.fst).map TranscriptItem.bare

/-- An event that shows something and names a turn is placed in the turn of that name. -/
def PlacedByName (turns : List TranscriptTurn) (event : TranscriptSourceEvent)
    (entry : List TranscriptItem × ℕ) : Prop :=
  entry.1 ≠ [] → ∀ id, turnName event = some id → (turnIds turns)[entry.2]? = some (some id)

/-- Turns keep their places. -/
theorem PlacedByName.mono {turns later : List TranscriptTurn} {event : TranscriptSourceEvent}
    {entry : List TranscriptItem × ℕ} (hplaced : PlacedByName turns event entry)
    (hids : turnIds turns <+: turnIds later) : PlacedByName later event entry := by
  intro hshows id hname
  have hfound := hplaced hshows id hname
  obtain ⟨hlt, _⟩ := List.getElem?_eq_some_iff.mp hfound
  obtain ⟨added, hadded⟩ := hids
  rw [← hadded, List.getElem?_append_left hlt]
  exact hfound

/-- Over a run each event is placed in one turn, and each turn gains what its events show,
in their order. -/
theorem run_places (events : List TranscriptSourceEvent)
    {earlier : List TranscriptSourceEvent} {s : Progress} (hfollows : Follows earlier s) :
    ∃ placed : List (List TranscriptItem × ℕ),
      placed.map Prod.fst = displayForms earlier events ∧
      (∀ j, bareItems (events.foldl transcribe s).turns j =
        bareItems s.turns j ++ shownIn placed j) ∧
      childrenOf (events.foldl transcribe s).turns = childrenOf s.turns ∧
      List.Forall₂ (PlacedByName (events.foldl transcribe s).turns) events placed ∧
      turnIds s.turns <+: turnIds (events.foldl transcribe s).turns := by
  induction events generalizing earlier s with
  | nil => exact ⟨[], rfl, fun j => by simp [shownIn], rfl, List.Forall₂.nil, List.prefix_refl _⟩
  | cons event events ih =>
      have hmoves := transcribe_moves hfollows event
      obtain ⟨turn, hbare, hchildren, hnamed⟩ := hmoves.adds
      obtain ⟨placed, hforms, hrest, hrestChildren, hplaced, hids⟩ :=
        ih (transcribe_follows hfollows event)
      refine ⟨(displayForm earlier event, turn) :: placed, ?_, fun j => ?_,
        hrestChildren.trans hchildren, ?_, hmoves.ids.trans hids⟩
      · simp [displayForms, hforms]
      · rw [List.foldl_cons, hrest j, hbare j, List.append_assoc]
        by_cases hj : j = turn
        · simp [shownIn, hj]
        · have hne : ¬ turn = j := fun h => hj h.symm
          simp [shownIn, hj, hne]
      · exact List.Forall₂.cons (PlacedByName.mono hnamed hids) hplaced

/-! ## The turns together -/

/-- What some turns show, one after the other. -/
def shown (turns : List TranscriptTurn) : List TranscriptItem :=
  (turns.flatMap TranscriptTurn.items).map TranscriptItem.bare

/-- What some events show, one after the other. -/
def shownForms (forms : List (List TranscriptItem)) : List TranscriptItem :=
  forms.flatten.map TranscriptItem.bare

/-- Each event is placed in one turn, the one it names if it names one, and each turn shows
what its events show, in their order. -/
structure Accounts (turns : List TranscriptTurn) (events : List TranscriptSourceEvent)
    (placed : List (List TranscriptItem × ℕ)) : Prop where
  forms : placed.map Prod.fst = displayForms [] events
  turn : ∀ j, bareItems turns j = shownIn placed j
  named : List.Forall₂ (PlacedByName turns) events placed

/-- The turns of a transcript account for its events, and no view hangs there yet. -/
theorem buildTranscriptTurns_accounts (events : List TranscriptSourceEvent) :
    (∃ placed, Accounts (buildTranscriptTurns events) events placed) ∧
      childrenOf (buildTranscriptTurns events) = [] := by
  obtain ⟨placed, hforms, hbare, hchildren, hnamed, _⟩ := run_places events follows_start
  exact ⟨⟨placed, hforms, fun j => (hbare j).trans (List.nil_append _), hnamed⟩, hchildren⟩

/-- A list read entry by entry, by position. -/
theorem flatMap_eq_range {α β : Type*} (read : α → List β) (entries : List α) :
    entries.flatMap read = (List.range entries.length).flatMap fun index : ℕ =>
      match entries[index]? with
      | some entry => read entry
      | none => [] := by
  induction entries with
  | nil => rfl
  | cons first rest ih =>
      rw [List.flatMap_cons, ih, List.length_cons, List.range_succ_eq_map, List.flatMap_cons,
        List.flatMap_map]
      rfl

/-- Turns show what each of them shows. -/
theorem shown_eq_flatMap (turns : List TranscriptTurn) :
    shown turns = (List.range turns.length).flatMap (bareItems turns) := by
  have hread := flatMap_eq_range (fun turn => turn.items.map TranscriptItem.bare) turns
  rw [shown, List.map_flatMap, hread]
  congr 1
  funext j
  unfold bareItems
  cases turns[j]? <;> rfl

/-- Entries without items do not count. -/
theorem flatMap_filter_of_empty {α : Type*} (kept : α → Bool) (items : α → List TranscriptItem)
    (entries : List α) (hempty : ∀ entry ∈ entries, kept entry = false → items entry = []) :
    (entries.filter kept).flatMap items = entries.flatMap items := by
  induction entries with
  | nil => rfl
  | cons first rest ih =>
      have hrest := ih fun entry hentry => hempty entry (List.mem_cons_of_mem _ hentry)
      cases hkept : kept first with
      | true => simp [hkept, hrest]
      | false => simp [hkept, hrest, hempty first (List.mem_cons_self ..) hkept]

section Placed

variable {placed : List (List TranscriptItem × ℕ)}

/-- The entries below a turn and those in it, whatever their order. -/
theorem filter_lt_succ_perm (turn : ℕ) :
    ((placed.filter fun entry => entry.2 < turn) ++
      placed.filter fun entry => entry.2 = turn).Perm
      (placed.filter fun entry => entry.2 < turn + 1) := by
  have hsplit := List.filter_append_perm (fun entry => decide (entry.2 < turn))
    (placed.filter fun entry => entry.2 < turn + 1)
  rw [List.filter_filter, List.filter_filter] at hsplit
  convert hsplit using 2
  · apply List.filter_congr
    intro entry _
    grind
  · apply List.filter_congr
    intro entry _
    grind

/-- Where no event goes back to an earlier turn, those below a turn come first. -/
theorem filter_lt_succ (hsorted : placed.Pairwise fun first second => first.2 ≤ second.2)
    (turn : ℕ) :
    (placed.filter fun entry => entry.2 < turn + 1) =
      (placed.filter fun entry => entry.2 < turn) ++
        placed.filter fun entry => entry.2 = turn := by
  induction placed with
  | nil => rfl
  | cons first rest ih =>
      obtain ⟨hfirst, hrest⟩ := List.pairwise_cons.mp hsorted
      have htail := ih hrest
      rcases Nat.lt_trichotomy first.2 turn with hlt | heq | hgt
      · have hlt' : first.2 < turn + 1 := by omega
        have hne : first.2 ≠ turn := by omega
        simp only [List.filter_cons, hlt, hlt', hne, decide_true, decide_false, if_true,
          Bool.false_eq_true, if_false, htail, List.cons_append]
      · have hnone : (rest.filter fun entry => entry.2 < turn) = [] := by
          rw [List.filter_eq_nil_iff]
          intro entry hentry
          have hle := hfirst entry hentry
          simp only [decide_eq_true_eq]
          omega
        simp only [List.filter_cons, heq, Nat.lt_irrefl, Nat.lt_succ_self, decide_true,
          decide_false, if_true, Bool.false_eq_true, if_false, htail, hnone, List.nil_append]
      · have hgt' : ¬ first.2 < turn + 1 := by omega
        have hne : first.2 ≠ turn := by omega
        have hge : ¬ first.2 < turn := by omega
        simp only [List.filter_cons, hgt', hne, hge, decide_false, Bool.false_eq_true, if_false,
          htail]

/-- What is placed in the first turns. -/
theorem shownIn_perm (length : ℕ) :
    ((List.range length).flatMap (shownIn placed)).Perm
      (((placed.filter fun entry => entry.2 < length).flatMap Prod.fst).map
        TranscriptItem.bare) := by
  induction length with
  | zero => simp
  | succ length ih =>
      rw [List.range_succ, List.flatMap_append, List.flatMap_singleton]
      refine (ih.append_right _).trans ?_
      rw [shownIn, ← List.map_append, ← List.flatMap_append]
      exact ((filter_lt_succ_perm length).flatMap_right _).map _

/-- What is placed in the first turns, in the order of the events. -/
theorem shownIn_sorted (hsorted : placed.Pairwise fun first second => first.2 ≤ second.2)
    (length : ℕ) :
    (List.range length).flatMap (shownIn placed) =
      ((placed.filter fun entry => entry.2 < length).flatMap Prod.fst).map
        TranscriptItem.bare := by
  induction length with
  | zero => simp
  | succ length ih =>
      rw [List.range_succ, List.flatMap_append, List.flatMap_singleton, ih, shownIn,
        ← List.map_append, ← List.flatMap_append, filter_lt_succ hsorted]

variable {turns : List TranscriptTurn} {events : List TranscriptSourceEvent}

/-- Events that show something are placed in a turn that is there. -/
theorem Accounts.filter_eq (haccounts : Accounts turns events placed) :
    (placed.filter fun entry => entry.2 < turns.length).flatMap Prod.fst =
      (displayForms [] events).flatten := by
  rw [← haccounts.forms, ← List.flatMap_def]
  apply flatMap_filter_of_empty
  intro entry hentry houtside
  have hnone : bareItems turns entry.2 = [] := by
    have hmissing : turns[entry.2]? = none := List.getElem?_eq_none (by simpa using houtside)
    simp [bareItems, hmissing]
  rw [haccounts.turn, shownIn, List.map_eq_nil_iff, List.flatMap_eq_nil_iff] at hnone
  exact hnone entry (List.mem_filter.mpr ⟨hentry, by simp⟩)

/-- The turns together show what the events show, each item once. -/
theorem Accounts.perm (haccounts : Accounts turns events placed) :
    (shown turns).Perm (shownForms (displayForms [] events)) := by
  have hturn : bareItems turns = shownIn placed := funext haccounts.turn
  rw [shown_eq_flatMap, hturn, shownForms, ← haccounts.filter_eq]
  exact shownIn_perm turns.length

/-- Where no event goes back to an earlier turn, in the order of the events. -/
theorem Accounts.in_order (haccounts : Accounts turns events placed)
    (hsorted : placed.Pairwise fun first second => first.2 ≤ second.2) :
    shown turns = shownForms (displayForms [] events) := by
  have hturn : bareItems turns = shownIn placed := funext haccounts.turn
  rw [shown_eq_flatMap, hturn, shownForms, ← haccounts.filter_eq]
  exact shownIn_sorted hsorted turns.length

end Placed

/-! ## Display groups -/

/-- The items of a display item. -/
def TranscriptDisplayItem.items : TranscriptDisplayItem → List TranscriptItem
  | .message item => [item]
  | .activity _ items => items

def TranscriptDisplayItem.isActivity : TranscriptDisplayItem → Bool
  | .message _ => false
  | .activity _ _ => true

/-- A message stands alone. A group of activity has items, none of them a message, and
the status that these show. -/
def TranscriptDisplayItem.ShownAs (turnStatus : TurnStatus) (trailing : Bool) :
    TranscriptDisplayItem → Prop
  | .message item => item.isMessage = true
  | .activity status items =>
      items ≠ [] ∧ (∀ item ∈ items, item.isMessage = false) ∧
        status = activityStatus items turnStatus trailing

/-- Two groups of activity would have been one. -/
def Apart (first second : TranscriptDisplayItem) : Prop :=
  ¬(first.isActivity = true ∧ second.isActivity = true)

/-- What the loop has shown: every group that is flushed is followed by the message it
was flushed for, and what is pending are no messages. -/
structure Grouping (turnStatus : TurnStatus)
    (state : List TranscriptDisplayItem × List TranscriptItem) : Prop where
  shown : ∀ group ∈ state.1, group.ShownAs turnStatus false
  apart : state.1.IsChain Apart
  last : ∀ group ∈ state.1.getLast?, group.isActivity = false
  pending : ∀ item ∈ state.2, item.isMessage = false

theorem flushActivity_items (turnStatus : TurnStatus) (trailing : Bool)
    (groups : List TranscriptDisplayItem) (pending : List TranscriptItem) :
    (flushActivity turnStatus trailing groups pending).flatMap TranscriptDisplayItem.items =
      groups.flatMap TranscriptDisplayItem.items ++ pending := by
  unfold flushActivity
  split
  · rename_i hnone
    simp [List.isEmpty_iff.mp hnone]
  · simp [TranscriptDisplayItem.items]

/-- The loop keeps the items in their order. -/
theorem groupItems_items (turnStatus : TurnStatus) (items : List TranscriptItem)
    (state : List TranscriptDisplayItem × List TranscriptItem) :
    (items.foldl (groupItem turnStatus) state).1.flatMap TranscriptDisplayItem.items ++
        (items.foldl (groupItem turnStatus) state).2 =
      state.1.flatMap TranscriptDisplayItem.items ++ state.2 ++ items := by
  induction items generalizing state with
  | nil => simp
  | cons item items ih =>
      rw [List.foldl_cons, ih, groupItem]
      split
      · simp [flushActivity_items, TranscriptDisplayItem.items]
      · simp

namespace Grouping

variable {turnStatus : TurnStatus} {state : List TranscriptDisplayItem × List TranscriptItem}

/-- A flush adds one group, apart from the rest, where anything is pending. -/
theorem flush (hstate : Grouping turnStatus state) (trailing : Bool) :
    flushActivity turnStatus trailing state.1 state.2 = state.1 ∨
    ∃ group, flushActivity turnStatus trailing state.1 state.2 = state.1 ++ [group] ∧
      group.ShownAs turnStatus trailing ∧ (state.1 ++ [group]).IsChain Apart := by
  unfold flushActivity
  split
  · exact Or.inl rfl
  next hsome =>
    refine Or.inr ⟨_, rfl, ⟨?_, hstate.pending, rfl⟩, ?_⟩
    · exact fun hnone => hsome (List.isEmpty_iff.mpr hnone)
    · apply hstate.apart.append (List.isChain_singleton _)
      intro group hgroup _ _ hboth
      rw [hstate.last group hgroup] at hboth
      exact Bool.false_ne_true hboth.1

theorem shown_flush (hstate : Grouping turnStatus state) :
    ∀ group ∈ flushActivity turnStatus false state.1 state.2,
      group.ShownAs turnStatus false := by
  intro group hgroup
  rcases hstate.flush false with heq | ⟨new, heq, hshown, _⟩
  · rw [heq] at hgroup
    exact hstate.shown group hgroup
  · rw [heq] at hgroup
    rcases List.mem_append.mp hgroup with hold | hnew
    · exact hstate.shown group hold
    · rwa [List.mem_singleton.mp hnew]

theorem apart_flush (hstate : Grouping turnStatus state) (trailing : Bool) :
    (flushActivity turnStatus trailing state.1 state.2).IsChain Apart := by
  rcases hstate.flush trailing with heq | ⟨new, heq, _, hchain⟩
  · rw [heq]
    exact hstate.apart
  · rwa [heq]

/-- A message takes its place after the group that was pending. -/
theorem message (hstate : Grouping turnStatus state) {item : TranscriptItem}
    (hitem : item.isMessage = true) :
    Grouping turnStatus
      (flushActivity turnStatus false state.1 state.2 ++ [.message item], []) where
  shown := by
    intro group hgroup
    rcases List.mem_append.mp hgroup with hflushed | hmessage
    · exact hstate.shown_flush group hflushed
    · rw [List.mem_singleton.mp hmessage]
      exact hitem
  apart := by
    apply (hstate.apart_flush false).append (List.isChain_singleton _)
    intro _ _ group hgroup hboth
    rw [← Option.some.inj hgroup] at hboth
    exact Bool.false_ne_true hboth.2
  last := by
    intro group hgroup
    rw [List.getLast?_concat] at hgroup
    rw [← Option.some.inj hgroup]
    rfl
  pending := by
    intro _ hnone
    cases hnone

theorem item (hstate : Grouping turnStatus state) (item : TranscriptItem) :
    Grouping turnStatus (groupItem turnStatus state item) := by
  unfold groupItem
  split
  next hitem => exact hstate.message hitem
  next hitem =>
    refine ⟨hstate.shown, hstate.apart, hstate.last, ?_⟩
    intro pending hpending
    rcases List.mem_append.mp hpending with hold | hnew
    · exact hstate.pending pending hold
    · rw [List.mem_singleton.mp hnew]
      exact Bool.eq_false_iff.mpr hitem

theorem foldl (hstate : Grouping turnStatus state) (items : List TranscriptItem) :
    Grouping turnStatus (items.foldl (groupItem turnStatus) state) := by
  induction items generalizing state with
  | nil => exact hstate
  | cons item items ih => exact ih (hstate.item item)

/-- What is shown before the last flush is shown for good. -/
theorem shownAs (hstate : Grouping turnStatus state) {before after : List TranscriptDisplayItem}
    {group : TranscriptDisplayItem}
    (hgroups : flushActivity turnStatus true state.1 state.2 = before ++ group :: after) :
    group.ShownAs turnStatus after.isEmpty := by
  rcases hstate.flush true with heq | ⟨new, heq, hshown, _⟩
  · have hsplit := heq.symm.trans hgroups
    have hold := hstate.shown group (by simp [hsplit])
    cases after with
    | cons _ _ => exact hold
    | nil =>
        have hlast := hstate.last group (by simp [hsplit])
        cases group with
        | message _ => exact hold
        | activity _ _ => cases hlast
  · have hsplit := heq.symm.trans hgroups
    rcases List.eq_nil_or_concat after with rfl | ⟨later, last, rfl⟩
    · have hlast := (List.append_inj' hsplit rfl).2
      rw [← (List.cons.inj hlast).1]
      exact hshown
    · have hold : state.1 = before ++ group :: later := by
        rw [List.concat_eq_append, ← List.cons_append, ← List.append_assoc] at hsplit
        exact (List.append_inj' hsplit rfl).1
      have hnone : (later.concat last).isEmpty = false := by simp
      rw [hnone]
      exact hstate.shown group (by simp [hold])

end Grouping

/-- The display of a turn is its items in their order: messages stand alone, what is
between them stands in one group each, and only a group that nothing follows is shown
as running for a turn that is incomplete. -/
theorem display_groups_split_turn (turn : TranscriptTurn) :
    (groupTranscriptItems turn).flatMap TranscriptDisplayItem.items = turn.items ∧
    (groupTranscriptItems turn).IsChain Apart ∧
    ∀ before group after, groupTranscriptItems turn = before ++ group :: after →
      group.ShownAs turn.status after.isEmpty := by
  have hstart : Grouping turn.status ([], []) := ⟨by simp, List.IsChain.nil, by simp, by simp⟩
  have hloop := hstart.foldl turn.items
  refine ⟨?_, hloop.apart_flush true, ?_⟩
  · rw [groupTranscriptItems, flushActivity_items]
    simpa using groupItems_items turn.status turn.items ([], [])
  · intro before group after hgroups
    rw [groupTranscriptItems] at hgroups
    exact hloop.shownAs hgroups

end Eveland.Transcript
