/-
# Appends and merges of session events

The statements by which a transaction puts events into a session keep the invariant. An append takes
the place that follows what the transaction sees, and so does the first event of a merge: the
place that was read is no higher, and a lower one is taken. The deletion of the absorbed session
fails while an event refers to it, so that a merge leaves nothing behind.
-/

import Eveland.Store.EventViews

namespace Eveland.SessionEvents

open Segments
open State

/-! ## Appends -/

theorem State.mayRefer_iff {s : State} {t : TxId} {tx : Tx} {sessionId : String} :
    s.mayRefer t tx sessionId = true ↔
      s.finds t tx sessionId = true ∧ s.others t (Tx.holdsExclusive sessionId) = false := by
  simp [State.mayRefer]

theorem State.finds_iff {s : State} {t : TxId} {tx : Tx} {sessionId : String} :
    s.finds t tx sessionId = true ↔
      (s.sessions sessionId = .live ∨ s.sessions sessionId = .created t) ∧
        sessionId ∉ tx.deleting := by
  simp [State.finds]

theorem State.ne_gone_of_finds {s : State} {t : TxId} {tx : Tx} {sessionId : String}
    (hfinds : s.finds t tx sessionId = true) : s.sessions sessionId ≠ .gone := by
  intro hgone
  rcases (State.finds_iff.mp hfinds).1 with hstatus | hstatus
  all_goals
    rw [hgone] at hstatus
    cases hstatus

/-- What a transaction refers to, no other transaction deletes. -/
theorem State.not_deleting_of_mayRefer {s : State} {t : TxId} {tx : Tx} {sessionId : String}
    (hrefer : s.mayRefer t tx sessionId = true) {u : TxId} {other : Tx}
    (hu : s.txs[u]? = some other) (hmem : sessionId ∈ other.deleting) : u = t := by
  apply State.not_others (State.mayRefer_iff.mp hrefer).2 hu
  simp [Tx.holdsExclusive, hmem]

/-- The free place that was read is the next one. -/
theorem next_eq {s : State} {t : TxId} {sessionId : String} {next n : ℕ} (hn : FilledTo (Visible s t sessionId) n)
    (hle : next ≤ n) (hfree : s.isOccupied t ⟨sessionId, next⟩ = false) : next = n := by
  apply Nat.le_antisymm hle
  by_contra hlt
  rw [isOccupied_of_visible ((hn next).mpr (by omega))] at hfree
  cases hfree

theorem State.not_occupies {s : State} {t : TxId} {place : Place}
    (hfree : s.isOccupied t place = false) {e : Event} (he : e ∈ s.events) :
    (∀ u, e.written ≠ some (u, place)) ∧ (e.committed = some place → e.writer = some t) := by
  have hnone := List.any_eq_false.mp hfree e he
  simp only [Event.occupies, Bool.or_eq_true, Bool.and_eq_true, decide_eq_true_eq, not_or,
    not_and, ne_eq, not_not] at hnone
  refine ⟨fun u hu => hnone.1 (by simp [hu]), hnone.2⟩

/-- What a transaction sees after its own insert. -/
theorem visible_insert {s : State} {t u : TxId} {eventId sessionId other : String} {next i : ℕ} :
    Visible { s with events := s.events ++ [⟨eventId, none, some (t, ⟨sessionId, next⟩)⟩] }
        u other i ↔
      Visible s u other i ∨ (u = t ∧ other = sessionId ∧ i = next) := by
  have hnew : (⟨eventId, none, some (t, ⟨sessionId, next⟩)⟩ : Event).indexIn u other = some i ↔
      u = t ∧ other = sessionId ∧ i = next := by
    rw [Event.indexIn_eq_some]
    simp only [Event.placeFor]
    by_cases hut : t = u
    · subst hut
      simp [eq_comm]
    · have : u ≠ t := fun heq => hut heq.symm
      simp [hut, this]
  constructor
  · rintro ⟨e, he, hindex⟩
    rcases List.mem_append.mp he with hold | hlast
    · exact Or.inl ⟨e, hold, hindex⟩
    · obtain rfl := List.mem_singleton.mp hlast
      exact Or.inr (hnew.mp hindex)
  · rintro (⟨e, he, hindex⟩ | heq)
    · exact ⟨e, List.mem_append_left _ he, hindex⟩
    · exact ⟨_, List.mem_append_right _ (List.mem_singleton_self _), hnew.mpr heq⟩

/-- A transaction refers to a session that it finds. -/
theorem Locks.refer {s : State} (h : Locks s.sessions s.txs) {t : TxId} {tx tx' : Tx}
    (ht : s.txs[t]? = some tx) {sessionId : String} (hrefer : s.mayRefer t tx sessionId = true)
    (hkeyShares : tx'.keyShares = sessionId :: tx.keyShares) (hdeleting : tx'.deleting = tx.deleting) :
    Locks s.sessions (s.txs.set t tx') := by
  apply h.set_of ht
  · intro other hmem
    rw [hkeyShares, hdeleting, List.mem_cons] at hmem
    rcases hmem with (rfl | hmem) | hmem
    · exact (State.finds_iff.mp (State.mayRefer_iff.mp hrefer).1).1
    · exact h.refersToFound t tx other ht hmem
    · exact h.deletesFound t tx other ht hmem
  · intro other hmem
    rw [hkeyShares, List.mem_cons] at hmem
    rcases hmem with rfl | hmem
    · exact Or.inr fun u tx'' hu hdeletes => State.not_deleting_of_mayRefer hrefer hu hdeletes
    · exact Or.inl hmem
  · exact fun other hmem => Or.inl (hdeleting ▸ hmem)

/-- A row that is put on a free place. -/
theorem Places.insert {s : State} (h : Places s.events) {t : TxId} {place : Place}
    (hfree : s.isOccupied t place = false) {eventId : String}
    (hid : ∀ e ∈ s.events, e.id ≠ eventId) :
    Places (s.events ++ [⟨eventId, none, some (t, place)⟩]) := by
  have hself : ∀ (e : Event), e ∈ s.events ++ [⟨eventId, none, some (t, place)⟩] →
      e ∈ s.events ∨ e = ⟨eventId, none, some (t, place)⟩ :=
    fun e he => (List.mem_append.mp he).imp_right List.mem_singleton.mp
  exact {
    ids := by
      rw [List.map_append, List.nodup_append]
      refine ⟨h.ids, by simp, ?_⟩
      intro id hmem other hother
      obtain ⟨e, he, rfl⟩ := List.mem_map.mp hmem
      obtain rfl : other = eventId := by simpa using hother
      exact hid e he
    committedOnce := by
      intro e he e' he' place hcommitted hcommitted'
      rcases hself e he with hold | rfl
      · rcases hself e' he' with hold' | rfl
        · exact h.committedOnce e hold e' hold' place hcommitted hcommitted'
        · cases hcommitted'
      · cases hcommitted
    writtenOnce := by
      intro e he e' he' u v place hwritten hwritten'
      rcases hself e he with hold | rfl
      · rcases hself e' he' with hold' | rfl
        · exact h.writtenOnce e hold e' hold' u v place hwritten hwritten'
        · cases hwritten'
          exact absurd hwritten ((State.not_occupies hfree hold).1 u)
      · rcases hself e' he' with hold' | rfl
        · cases hwritten
          exact absurd hwritten' ((State.not_occupies hfree hold').1 v)
        · rfl
    notTaken := by
      intro e he e' he' u place hwritten hcommitted
      rcases hself e' he' with hold' | rfl
      · rcases hself e he with hold | rfl
        · exact h.notTaken e hold e' hold' u place hwritten hcommitted
        · cases hwritten
          exact (State.not_occupies hfree hold').2 hcommitted
      · cases hcommitted }

theorem Inv.insertEvent {s s' : State} (h : Inv s) {t : TxId} {tx : Tx}
    (ht : s.txs[t]? = some tx) {sessionId eventId : String} {next : ℕ}
    (hstage : tx.stage = .numbered sessionId eventId next)
    (hstep : s.insertEvent t tx sessionId eventId next = some s') : Inv s' := by
  unfold State.insertEvent at hstep
  split at hstep
  next hcond =>
    obtain ⟨hrefer, hfree, hfresh⟩ := hcond
    obtain rfl := Option.some.inj hstep
    have hfinds := (State.mayRefer_iff.mp hrefer).1
    have hdeleting := (State.finds_iff.mp hfinds).2
    have hlt : t < s.txs.length := (List.getElem?_eq_some_iff.mp ht).1
    have hid : ∀ e ∈ s.events, e.id ≠ eventId := fun e he => by
      simpa using List.all_eq_true.mp hfresh e he
    -- The place is the one after those the transaction sees.
    obtain ⟨n, hn⟩ := h.filled t tx sessionId ht (by simp [hstage])
    have hle : next ≤ n := by
      have hok := h.stageOk t tx ht
      simp only [StageOk, hstage] at hok
      exact hok (State.ne_gone_of_finds hfinds) n hn
    obtain rfl := next_eq hn hle hfree
    have hother : ∀ (u : TxId) (id : String), u ≠ t ∨ id ≠ sessionId → ∀ i,
        Visible { s with
          events := s.events ++ [⟨eventId, none, some (t, ⟨sessionId, next⟩)⟩] } u id i ↔
          Visible s u id i := by
      intro u id hne i
      rw [visible_insert]
      constructor
      · rintro (hold | ⟨rfl, rfl, _⟩)
        · exact hold
        · rcases hne with hne | hne <;> exact absurd rfl hne
      · exact Or.inl
    have hset : ∀ new, (s.txs.set t new)[t]? = some new := fun new => by simp [hlt]
    have hself : ∀ (e : Event), e ∈ s.events ++ [⟨eventId, none, some (t, ⟨sessionId, next⟩)⟩] →
        e ∈ s.events ∨ e = ⟨eventId, none, some (t, ⟨sessionId, next⟩)⟩ :=
      fun e he => (List.mem_append.mp he).imp_right List.mem_singleton.mp
    exact {
      places := h.places.insert hfree hid
      writtenRefers := by
        intro e he u place hwritten
        rcases hself e he with hold | rfl
        · obtain ⟨old, hu, hkey⟩ := h.writtenRefers e hold u place hwritten
          by_cases hut : t = u
          · subst hut
            obtain rfl := Option.some.inj (ht.symm.trans hu)
            exact ⟨_, hset _, List.mem_cons_of_mem _ hkey⟩
          · exact ⟨old, by simp [State.setTx, List.getElem?_set_ne hut, hu], hkey⟩
        · cases hwritten
          exact ⟨_, hset _, List.mem_cons_self⟩
      committedLive := by
        intro e he place hcommitted
        rcases hself e he with hold | rfl
        · exact h.committedLive e hold place hcommitted
        · cases hcommitted
      locks := h.locks.refer ht hrefer rfl rfl
      deletedEmpty := by
        intro u other id hu hmem i hvisible
        rcases RowLocks.getElem?_set_cases hu with ⟨rfl, rfl⟩ | ⟨hne, hold⟩
        · have hne : id ≠ sessionId := by
            rintro rfl
            exact hdeleting hmem
          exact h.deletedEmpty t tx id ht hmem i ((hother t id (Or.inr hne) i).mp hvisible)
        · exact h.deletedEmpty u other id hold hmem i
            ((hother u id (Or.inl (Ne.symm hne)) i).mp hvisible)
      left := by
        intro e he u other place hu hcommitted hwriter
        rcases hself e he with hmem | rfl
        · rcases RowLocks.getElem?_set_cases hu with ⟨rfl, rfl⟩ | ⟨_, hold⟩
          · rcases h.left e hmem t tx place ht hcommitted hwriter with hleft | hleft
            · exact Or.inl hleft
            · simp [hstage] at hleft
          · exact h.left e hmem u other place hold hcommitted hwriter
        · cases hcommitted
      filled := by
        intro u other id hu hne
        by_cases hown : u = t ∧ id = sessionId
        · obtain ⟨rfl, rfl⟩ := hown
          refine ⟨next + 1, fun i => ?_⟩
          refine visible_insert.trans ?_
          rw [hn i]
          constructor
          · rintro (hi | ⟨_, _, rfl⟩) <;> omega
          · intro hi
            by_cases hi' : i < next
            · exact Or.inl hi'
            · exact Or.inr ⟨rfl, rfl, by omega⟩
        · have hne' : u ≠ t ∨ id ≠ sessionId := by
            by_contra hboth
            push Not at hboth
            exact hown hboth
          rcases RowLocks.getElem?_set_cases hu with ⟨rfl, rfl⟩ | ⟨_, hold⟩
          · obtain ⟨m, hm⟩ := h.filled t tx id ht (by simp [hstage])
            exact ⟨m, hm.congr (hother t id hne')⟩
          · obtain ⟨m, hm⟩ := h.filled u other id hold hne
            exact ⟨m, hm.congr (hother u id hne')⟩
      committedFilled := by
        intro id
        obtain ⟨m, hm⟩ := h.committedFilled id
        refine ⟨m, hm.congr fun i => ⟨?_, ?_⟩⟩
        · rintro ⟨e, he, hcommitted⟩
          rcases hself e he with hold | rfl
          · exact ⟨e, hold, hcommitted⟩
          · cases hcommitted
        · rintro ⟨e, he, hcommitted⟩
          exact ⟨e, List.mem_append_left _ he, hcommitted⟩
      stageOk := by
        intro u other hu
        rcases RowLocks.getElem?_set_cases hu with ⟨rfl, rfl⟩ | ⟨hne, hold⟩
        · trivial
        · have hsame := fun id => hother u id (Or.inl (Ne.symm hne))
          apply (h.stageOk u other hold).of_visible
          · exact fun _ hgone => hgone
          · exact fun id bound _ _ hbound m hm =>
              hbound m (hm.congr fun i => (hsame id i).symm)
          · rintro id ids _ ⟨⟨k, hk⟩, hkept⟩
            refine ⟨⟨k, hk.congr fun i => ⟨?_, ?_⟩⟩, fun hlive old hold => ?_⟩
            · rintro ⟨e, he, hfound, hindex⟩
              rcases hself e he with hmem | rfl
              · exact ⟨e, hmem, hfound, hindex⟩
              · have hnone := Event.indexIn_eq_some.mp hindex
                simp [Event.placeFor, hne] at hnone
            · rintro ⟨e, he, hfound, hindex⟩
              exact ⟨e, List.mem_append_left _ he, hfound, hindex⟩
            · obtain ⟨e, he, heq, hindex⟩ := hkept hlive old hold
              exact ⟨e, List.mem_append_left _ he, heq, hindex⟩
          · intro e he place hwritten
            rcases hself e he with hmem | rfl
            · exact hmem
            · cases hwritten
              exact absurd rfl hne
      shifted := by
        intro u id
        obtain ⟨toSessionId, offset, hshift⟩ := h.shifted u id
        refine ⟨toSessionId, offset, fun e he i hcommitted hwriter => ?_⟩
        rcases hself e he with hold | rfl
        · exact hshift e hold i hcommitted hwriter
        · cases hcommitted }
  next => exact absurd hstep (by simp)

/-! ## Merges -/

/-- What the update of `moveSessionEventsForMerge` makes of a row. -/
def updateEvent (t : TxId) (fromSessionId toSessionId : String) (offset : ℕ) (ids : List String)
    (e : Event) : Event :=
  if moves t fromSessionId ids e then moveEvent t fromSessionId toSessionId offset e else e

section Update

variable {s : State} {t : TxId} {fromSessionId toSessionId : String} {offset : ℕ}
  {ids : List String}

@[simp]
theorem updateEvent_id (e : Event) :
    (updateEvent t fromSessionId toSessionId offset ids e).id = e.id := by
  unfold updateEvent
  split <;> rfl

@[simp]
theorem updateEvent_committed (e : Event) :
    (updateEvent t fromSessionId toSessionId offset ids e).committed = e.committed := by
  unfold updateEvent
  split <;> rfl

/-- A row that is moved goes from its index to the one behind the offset. -/
theorem updateEvent_of_moves {e : Event} (toSessionId : String) (offset : ℕ)
    (hmoves : moves t fromSessionId ids e = true) :
    ∃ i, ids.contains e.id = true ∧ e.indexIn t fromSessionId = some i ∧
      (updateEvent t fromSessionId toSessionId offset ids e).written =
        some (t, ⟨toSessionId, i + offset⟩) := by
  have hboth := hmoves
  simp only [moves, Bool.and_eq_true] at hboth
  obtain ⟨i, hi⟩ := Option.isSome_iff_exists.mp hboth.2
  refine ⟨i, hboth.1, hi, ?_⟩
  simp [updateEvent, hmoves, moveEvent, hi]

theorem updateEvent_of_not_moves {e : Event} (hmoves : moves t fromSessionId ids e = false) :
    updateEvent t fromSessionId toSessionId offset ids e = e := by
  simp [updateEvent, hmoves]

theorem moves_of_found {e : Event} (hid : ids.contains e.id = true) {i : ℕ}
    (hindex : e.indexIn t fromSessionId = some i) : moves t fromSessionId ids e = true := by
  simp [moves, hindex]
  simpa using hid

/-- The update may be made: no other transaction has written a row that is moved, and the places
are free. -/
def MayUpdate (s : State) (t : TxId) (fromSessionId toSessionId : String) (offset : ℕ)
    (ids : List String) : Prop :=
  ∀ e ∈ s.events, moves t fromSessionId ids e = true →
    s.mayMove t fromSessionId toSessionId offset e = true

theorem MayUpdate.writer (h : MayUpdate s t fromSessionId toSessionId offset ids) {e : Event}
    (he : e ∈ s.events) (hmoves : moves t fromSessionId ids e = true) {u : TxId}
    (hwriter : e.writer = some u) : u = t := by
  have hmay := h e he hmoves
  simp only [State.mayMove, hwriter, Bool.and_eq_true] at hmay
  simpa using hmay.1

theorem MayUpdate.free (h : MayUpdate s t fromSessionId toSessionId offset ids) {e : Event}
    (he : e ∈ s.events) (hmoves : moves t fromSessionId ids e = true) {i : ℕ}
    (hindex : e.indexIn t fromSessionId = some i) :
    s.isOccupied t ⟨toSessionId, i + offset⟩ = false := by
  have hmay := h e he hmoves
  simp only [State.mayMove, hindex, Bool.and_eq_true] at hmay
  simpa using hmay.2

/-- Others see of the rows what they saw. -/
theorem MayUpdate.placeFor (h : MayUpdate s t fromSessionId toSessionId offset ids) {e : Event}
    (he : e ∈ s.events) {u : TxId} (hu : u ≠ t) :
    (updateEvent t fromSessionId toSessionId offset ids e).placeFor u = e.placeFor u := by
  cases hmoves : moves t fromSessionId ids e with
  | false => rw [updateEvent_of_not_moves hmoves]
  | true =>
      obtain ⟨i, _, _, hwritten⟩ := updateEvent_of_moves toSessionId offset hmoves
      rw [Event.placeFor_of_writer_ne, Event.placeFor_of_writer_ne, updateEvent_committed]
      · exact fun hwriter => hu (h.writer he hmoves hwriter)
      · rw [Event.writer_of_written hwritten]
        exact fun heq => hu (Option.some.inj heq).symm

/-- The writer of a row stays, where it had one. -/
theorem MayUpdate.writer_kept (h : MayUpdate s t fromSessionId toSessionId offset ids) {e : Event}
    (he : e ∈ s.events) {u : TxId} (hwriter : e.writer = some u) :
    (updateEvent t fromSessionId toSessionId offset ids e).writer = some u := by
  cases hmoves : moves t fromSessionId ids e with
  | false => rw [updateEvent_of_not_moves hmoves, hwriter]
  | true =>
      obtain ⟨i, _, _, hwritten⟩ := updateEvent_of_moves toSessionId offset hmoves
      rw [Event.writer_of_written hwritten, h.writer he hmoves hwriter]

theorem Places.update (h : Places s.events)
    (hmay : MayUpdate s t fromSessionId toSessionId offset ids)
    (hvisibleOnce : ∀ e ∈ s.events, ∀ e' ∈ s.events, ∀ place, e.placeFor t = some place →
      e'.placeFor t = some place → e = e') :
    Places (s.events.map (updateEvent t fromSessionId toSessionId offset ids)) where
  ids := by
    rw [List.map_map]
    have hsame : Event.id ∘ updateEvent t fromSessionId toSessionId offset ids = Event.id := by
      funext e
      exact updateEvent_id e
    rw [hsame]
    exact h.ids
  committedOnce := by
    intro e he e' he' place hcommitted hcommitted'
    obtain ⟨old, hold, rfl⟩ := List.mem_map.mp he
    obtain ⟨old', hold', rfl⟩ := List.mem_map.mp he'
    rw [updateEvent_committed] at hcommitted hcommitted'
    rw [h.committedOnce old hold old' hold' place hcommitted hcommitted']
  writtenOnce := by
    intro e he e' he' u v place hwritten hwritten'
    obtain ⟨old, hold, rfl⟩ := List.mem_map.mp he
    obtain ⟨old', hold', rfl⟩ := List.mem_map.mp he'
    cases hmoves : moves t fromSessionId ids old with
    | true =>
        obtain ⟨i, _, hindex, hnew⟩ := updateEvent_of_moves toSessionId offset hmoves
        have hplace : (⟨toSessionId, i + offset⟩ : Place) = place :=
          congrArg Prod.snd (Option.some.inj (hnew.symm.trans hwritten))
        cases hmoves' : moves t fromSessionId ids old' with
        | true =>
            obtain ⟨j, _, hindex', hnew'⟩ := updateEvent_of_moves toSessionId offset hmoves'
            have hplace' : (⟨toSessionId, j + offset⟩ : Place) = place :=
              congrArg Prod.snd (Option.some.inj (hnew'.symm.trans hwritten'))
            have hij : i = j := by
              have hindices := congrArg Place.index (hplace.trans hplace'.symm)
              simpa using hindices
            rw [hvisibleOnce old hold old' hold' ⟨fromSessionId, i⟩
              (Event.indexIn_eq_some.mp hindex) (Event.indexIn_eq_some.mp (hij ▸ hindex'))]
        | false =>
            rw [updateEvent_of_not_moves hmoves'] at hwritten'
            have hfree := State.not_occupies (hmay.free hold hmoves hindex) hold'
            exact absurd (hplace ▸ hwritten') (hfree.1 v)
    | false =>
        rw [updateEvent_of_not_moves hmoves] at hwritten
        cases hmoves' : moves t fromSessionId ids old' with
        | true =>
            obtain ⟨j, _, hindex', hnew'⟩ := updateEvent_of_moves toSessionId offset hmoves'
            have hplace' : (⟨toSessionId, j + offset⟩ : Place) = place :=
              congrArg Prod.snd (Option.some.inj (hnew'.symm.trans hwritten'))
            have hfree := State.not_occupies (hmay.free hold' hmoves' hindex') hold
            exact absurd (hplace' ▸ hwritten) (hfree.1 u)
        | false =>
            rw [updateEvent_of_not_moves hmoves'] at hwritten'
            rw [h.writtenOnce old hold old' hold' u v place hwritten hwritten']
  notTaken := by
    intro e he e' he' u place hwritten hcommitted
    obtain ⟨old, hold, rfl⟩ := List.mem_map.mp he
    obtain ⟨old', hold', rfl⟩ := List.mem_map.mp he'
    rw [updateEvent_committed] at hcommitted
    apply hmay.writer_kept hold'
    cases hmoves : moves t fromSessionId ids old with
    | true =>
        obtain ⟨i, _, hindex, hnew⟩ := updateEvent_of_moves toSessionId offset hmoves
        have hpair := Option.some.inj (hnew.symm.trans hwritten)
        have hplace : (⟨toSessionId, i + offset⟩ : Place) = place := congrArg Prod.snd hpair
        have hwriter : t = u := congrArg Prod.fst hpair
        have hfree := State.not_occupies (hmay.free hold hmoves hindex) hold'
        exact hwriter ▸ hfree.2 (hplace ▸ hcommitted)
    | false =>
        rw [updateEvent_of_not_moves hmoves] at hwritten
        exact h.notTaken old hold old' hold' u place hwritten hcommitted

end Update

/-- The state after the update. -/
def updated (s : State) (t : TxId) (fromSessionId toSessionId : String) (offset : ℕ)
    (ids : List String) (tx' : Tx) : State :=
  { s.setTx t tx' with
    events := s.events.map (updateEvent t fromSessionId toSessionId offset ids) }

section Updated

variable {s : State} {t : TxId} {fromSessionId toSessionId : String} {offset : ℕ}
  {ids : List String} {tx' : Tx}

/-- Other transactions see what they saw. -/
theorem visible_updated_of_ne (hmay : MayUpdate s t fromSessionId toSessionId offset ids)
    {u : TxId} (hu : u ≠ t) {id : String} {i : ℕ} :
    Visible (updated s t fromSessionId toSessionId offset ids tx') u id i ↔ Visible s u id i := by
  constructor
  · rintro ⟨e, he, hindex⟩
    obtain ⟨old, hold, rfl⟩ := List.mem_map.mp he
    rw [Event.indexIn_eq_some, hmay.placeFor hold hu] at hindex
    exact ⟨old, hold, Event.indexIn_eq_some.mpr hindex⟩
  · rintro ⟨e, he, hindex⟩
    refine ⟨_, List.mem_map_of_mem he, ?_⟩
    rw [Event.indexIn_eq_some, hmay.placeFor he hu]
    exact Event.indexIn_eq_some.mp hindex

/-- What is not moved, and does not come to be there, is seen where it was. -/
theorem visible_updated_of_not_to {id : String} (hto : id ≠ toSessionId) {i : ℕ}
    (hvisible : Visible (updated s t fromSessionId toSessionId offset ids tx') t id i) :
    Visible s t id i := by
  obtain ⟨e, he, hindex⟩ := hvisible
  obtain ⟨old, hold, rfl⟩ := List.mem_map.mp he
  cases hmoves : moves t fromSessionId ids old with
  | true =>
      obtain ⟨j, _, _, hnew⟩ := updateEvent_of_moves toSessionId offset hmoves
      rw [Event.indexIn_eq_some, Event.placeFor_of_written hnew] at hindex
      exact absurd (congrArg Place.sessionId (Option.some.inj hindex)).symm hto
  | false =>
      rw [updateEvent_of_not_moves hmoves] at hindex
      exact ⟨old, hold, hindex⟩

/-- What is in a session that nothing is moved out of stays. -/
theorem visible_updated_of_not_from {id : String} (hfrom : id ≠ fromSessionId) {i : ℕ}
    (hvisible : Visible s t id i) :
    Visible (updated s t fromSessionId toSessionId offset ids tx') t id i := by
  obtain ⟨e, he, hindex⟩ := hvisible
  refine ⟨_, List.mem_map_of_mem he, ?_⟩
  rw [updateEvent_of_not_moves]
  · exact hindex
  · cases hmoves : moves t fromSessionId ids e with
    | false => rfl
    | true =>
        obtain ⟨j, _, hfound, _⟩ := updateEvent_of_moves toSessionId offset hmoves
        have hplace := (Event.indexIn_eq_some.mp hindex).symm.trans
          (Event.indexIn_eq_some.mp hfound)
        exact absurd (congrArg Place.sessionId (Option.some.inj hplace)) hfrom

/-- The surviving session has its events and behind them those that were found. -/
theorem visible_updated_to (hne : fromSessionId ≠ toSessionId) {i : ℕ} :
    Visible (updated s t fromSessionId toSessionId offset ids tx') t toSessionId i ↔
      Visible s t toSessionId i ∨ ∃ j, Found s t fromSessionId ids j ∧ i = j + offset := by
  constructor
  · rintro ⟨e, he, hindex⟩
    obtain ⟨old, hold, rfl⟩ := List.mem_map.mp he
    cases hmoves : moves t fromSessionId ids old with
    | true =>
        obtain ⟨j, hid, hfound, hnew⟩ := updateEvent_of_moves toSessionId offset hmoves
        rw [Event.indexIn_eq_some, Event.placeFor_of_written hnew] at hindex
        have hi : j + offset = i := congrArg Place.index (Option.some.inj hindex)
        exact Or.inr ⟨j, ⟨old, hold, hid, hfound⟩, hi.symm⟩
    | false =>
        rw [updateEvent_of_not_moves hmoves] at hindex
        exact Or.inl ⟨old, hold, hindex⟩
  · rintro (hvisible | ⟨j, ⟨e, he, hid, hfound⟩, rfl⟩)
    · exact visible_updated_of_not_from (Ne.symm hne) hvisible
    · have hmoves := moves_of_found hid hfound
      obtain ⟨k, _, hfound', hnew⟩ := updateEvent_of_moves toSessionId offset hmoves
      obtain rfl := Option.some.inj (hfound.symm.trans hfound')
      refine ⟨_, List.mem_map_of_mem he, ?_⟩
      exact Event.indexIn_eq_some.mpr (Event.placeFor_of_written hnew)

theorem found_updated_of_ne (hmay : MayUpdate s t fromSessionId toSessionId offset ids)
    {u : TxId} (hu : u ≠ t) {id : String} {others : List String} {i : ℕ} :
    Found (updated s t fromSessionId toSessionId offset ids tx') u id others i ↔
      Found s u id others i := by
  constructor
  · rintro ⟨e, he, hid, hindex⟩
    obtain ⟨old, hold, rfl⟩ := List.mem_map.mp he
    rw [updateEvent_id] at hid
    rw [Event.indexIn_eq_some, hmay.placeFor hold hu] at hindex
    exact ⟨old, hold, hid, Event.indexIn_eq_some.mpr hindex⟩
  · rintro ⟨e, he, hid, hindex⟩
    refine ⟨_, List.mem_map_of_mem he, by rw [updateEvent_id]; exact hid, ?_⟩
    rw [Event.indexIn_eq_some, hmay.placeFor he hu]
    exact Event.indexIn_eq_some.mp hindex

theorem committed_updated {id : String} {i : ℕ} :
    Committed (updated s t fromSessionId toSessionId offset ids tx') id i ↔ Committed s id i := by
  constructor
  · rintro ⟨e, he, hcommitted⟩
    obtain ⟨old, hold, rfl⟩ := List.mem_map.mp he
    rw [updateEvent_committed] at hcommitted
    exact ⟨old, hold, hcommitted⟩
  · rintro ⟨e, he, hcommitted⟩
    refine ⟨_, List.mem_map_of_mem he, ?_⟩
    rw [updateEvent_committed]
    exact hcommitted

end Updated

/-- What another transaction has written is not moved. -/
theorem updateEvent_of_writer_ne {t : TxId} {fromSessionId toSessionId : String}
    {offset : ℕ} {ids : List String} {e : Event} {u : TxId} (hu : u ≠ t)
    (hwriter : (updateEvent t fromSessionId toSessionId offset ids e).writer = some u) :
    updateEvent t fromSessionId toSessionId offset ids e = e := by
  cases hmoves : moves t fromSessionId ids e with
  | false => exact updateEvent_of_not_moves hmoves
  | true =>
      obtain ⟨i, _, _, hnew⟩ := updateEvent_of_moves toSessionId offset hmoves
      rw [Event.writer_of_written hnew] at hwriter
      exact absurd (Option.some.inj hwriter).symm hu

/-- A row that the transaction writes for the first time was committed in the session that is
left. -/
theorem updateEvent_first {t : TxId} {fromSessionId toSessionId : String} {offset : ℕ}
    {ids : List String} {e : Event} (hbefore : e.writer ≠ some t)
    (hwriter : (updateEvent t fromSessionId toSessionId offset ids e).writer = some t)
    {place : Place} (hcommitted : e.committed = some place) :
    place.sessionId = fromSessionId ∧ e.indexIn t fromSessionId = some place.index ∧
      (updateEvent t fromSessionId toSessionId offset ids e).written =
        some (t, ⟨toSessionId, place.index + offset⟩) := by
  cases hmoves : moves t fromSessionId ids e with
  | false =>
      rw [updateEvent_of_not_moves hmoves] at hwriter
      exact absurd hwriter hbefore
  | true =>
      obtain ⟨i, _, hindex, hnew⟩ := updateEvent_of_moves toSessionId offset hmoves
      have hplace := Event.indexIn_eq_some.mp hindex
      rw [Event.placeFor_of_writer_ne hbefore, hcommitted] at hplace
      obtain rfl := Option.some.inj hplace
      exact ⟨rfl, hindex, hnew⟩

/-- What a transaction has moved out of a session stays together when it is moved again. -/
theorem Inv.shifted_updated {s : State} (h : Inv s) {t : TxId} {tx : Tx}
    (ht : s.txs[t]? = some tx) {fromSessionId toSessionId : String} {offset : ℕ}
    {ids : List String} (hstage : tx.stage = .updating fromSessionId toSessionId offset true ids)
    (id : String) :
    ∃ target shift, ∀ e ∈ s.events, ∀ i, e.committed = some ⟨id, i⟩ →
      (updateEvent t fromSessionId toSessionId offset ids e).writer = some t →
        (updateEvent t fromSessionId toSessionId offset ids e).written =
          some (t, ⟨target, i + shift⟩) := by
  have hok := h.stageOk t tx ht
  simp only [StageOk, hstage] at hok
  obtain ⟨hne, _, _, _, hown⟩ := hok
  obtain ⟨target, shift, hshift⟩ := h.shifted t id
  by_cases hleft : ∃ e ∈ s.events, (∃ i, e.committed = some ⟨id, i⟩) ∧ e.writer = some t
  · have hdeleting : id ∈ tx.deleting := by
      obtain ⟨e, he, ⟨i, hcommitted⟩, hwriter⟩ := hleft
      rcases h.left e he t tx _ ht hcommitted hwriter with hdeleting | hmoved
      · exact hdeleting
      · simp [hstage] at hmoved
    -- Nothing is seen in a session that the transaction has left.
    have hbefore : ∀ e ∈ s.events, ∀ i, e.committed = some ⟨id, i⟩ →
        (updateEvent t fromSessionId toSessionId offset ids e).writer = some t →
          e.writer = some t := by
      intro e he i hcommitted hwriter
      by_contra hnot
      obtain ⟨hid, hindex, _⟩ := updateEvent_first hnot hwriter hcommitted
      have hid : id = fromSessionId := hid
      exact h.deletedEmpty t tx id ht hdeleting i ⟨e, he, hid ▸ hindex⟩
    by_cases htarget : target = fromSessionId
    · refine ⟨toSessionId, shift + offset, fun e he i hcommitted hwriter => ?_⟩
      have hwritten := hshift e he i hcommitted (hbefore e he i hcommitted hwriter)
      rw [htarget] at hwritten
      have hindex := Event.indexIn_eq_some.mpr (Event.placeFor_of_written hwritten)
      obtain ⟨j, _, hfound, hnew⟩ := updateEvent_of_moves toSessionId offset
        (moves_of_found (hown e he _ hwritten) hindex)
      obtain rfl := Option.some.inj (hindex.symm.trans hfound)
      rw [hnew, Nat.add_assoc]
    · refine ⟨target, shift, fun e he i hcommitted hwriter => ?_⟩
      have hwritten := hshift e he i hcommitted (hbefore e he i hcommitted hwriter)
      rw [updateEvent_of_not_moves]
      · exact hwritten
      · simp [moves, Event.indexIn, Event.placeFor_of_written hwritten, htarget]
  · refine ⟨toSessionId, offset, fun e he i hcommitted hwriter => ?_⟩
    have hnot : e.writer ≠ some t := fun hbefore => hleft ⟨e, he, ⟨i, hcommitted⟩, hbefore⟩
    exact (updateEvent_first hnot hwriter hcommitted).2.2

/-- The update of a merge, where it finds events. -/
theorem Inv.updated {s : State} (h : Inv s) {t : TxId} {tx tx' : Tx} (ht : s.txs[t]? = some tx)
    {fromSessionId toSessionId : String} {offset : ℕ} {ids : List String}
    (hstage : tx.stage = .updating fromSessionId toSessionId offset true ids)
    (hstage' : tx'.stage = .moved fromSessionId)
    (hkeyShares : tx'.keyShares = toSessionId :: tx.keyShares)
    (hdeleting : tx'.deleting = tx.deleting)
    (hfound : ∃ e ∈ s.events, moves t fromSessionId ids e = true)
    (hrefer : s.mayRefer t tx toSessionId = true)
    (hmay : MayUpdate s t fromSessionId toSessionId offset ids) :
    Inv (updated s t fromSessionId toSessionId offset ids tx') := by
  have hfinds := (State.mayRefer_iff.mp hrefer).1
  have hnotDeleting := (State.finds_iff.mp hfinds).2
  have hlt : t < s.txs.length := (List.getElem?_eq_some_iff.mp ht).1
  have hset : (s.txs.set t tx')[t]? = some tx' := by simp [hlt]
  have hok := h.stageOk t tx ht
  simp only [StageOk, hstage] at hok
  obtain ⟨hne, hoffset, _, ⟨⟨k, hk⟩, _⟩, hown⟩ := hok
  -- The first event found goes to the first free place.
  obtain ⟨n, hn⟩ := h.filled t tx toSessionId ht (by simp [hstage])
  have hle : offset ≤ n := hoffset (State.ne_gone_of_finds hfinds) n hn
  have hzero : Found s t fromSessionId ids 0 := by
    obtain ⟨e, he, hmoves⟩ := hfound
    obtain ⟨i, hid, hindex, _⟩ := updateEvent_of_moves toSessionId offset hmoves
    have hi := (hk i).mp ⟨e, he, hid, hindex⟩
    exact (hk 0).mpr (by omega)
  have hfree : s.isOccupied t ⟨toSessionId, offset⟩ = false := by
    obtain ⟨e, he, hid, hindex⟩ := hzero
    have := hmay.free he (moves_of_found hid hindex) hindex
    simpa using this
  obtain rfl := next_eq hn hle hfree
  exact {
    places := h.places.update hmay fun e he e' he' _ => h.visibleOnce he he'
    writtenRefers := by
      intro e he u place hwritten
      obtain ⟨old, hold, rfl⟩ := List.mem_map.mp he
      cases hmoves : moves t fromSessionId ids old with
      | true =>
          obtain ⟨i, _, _, hnew⟩ := updateEvent_of_moves toSessionId offset hmoves
          cases Option.some.inj (hnew.symm.trans hwritten)
          exact ⟨tx', hset, by simp [hkeyShares]⟩
      | false =>
          rw [updateEvent_of_not_moves hmoves] at hwritten
          obtain ⟨other, hu, hkey⟩ := h.writtenRefers old hold u place hwritten
          by_cases hut : t = u
          · subst hut
            obtain rfl := Option.some.inj (ht.symm.trans hu)
            exact ⟨tx', hset, by rw [hkeyShares]; exact List.mem_cons_of_mem _ hkey⟩
          · exact ⟨other, by
              simp [Eveland.SessionEvents.updated, State.setTx, List.getElem?_set_ne hut, hu], hkey⟩
    committedLive := by
      intro e he place hcommitted
      obtain ⟨old, hold, rfl⟩ := List.mem_map.mp he
      rw [updateEvent_committed] at hcommitted
      exact h.committedLive old hold place hcommitted
    locks := h.locks.refer ht hrefer hkeyShares hdeleting
    deletedEmpty := by
      intro u other id hu hmem i hvisible
      rcases RowLocks.getElem?_set_cases hu with ⟨rfl, rfl⟩ | ⟨hne', hold⟩
      · rw [hdeleting] at hmem
        have hid : id ≠ toSessionId := by
          rintro rfl
          exact hnotDeleting hmem
        exact h.deletedEmpty t tx id ht hmem i (visible_updated_of_not_to hid hvisible)
      · exact h.deletedEmpty u other id hold hmem i
          ((visible_updated_of_ne hmay (Ne.symm hne')).mp hvisible)
    left := by
      intro e he u other place hu hcommitted hwriter
      obtain ⟨old, hold, rfl⟩ := List.mem_map.mp he
      rw [updateEvent_committed] at hcommitted
      rcases RowLocks.getElem?_set_cases hu with ⟨rfl, rfl⟩ | ⟨hne', hother⟩
      · by_cases hbefore : old.writer = some t
        · rcases h.left old hold t tx place ht hcommitted hbefore with hleft | hleft
          · exact Or.inl (hdeleting ▸ hleft)
          · simp [hstage] at hleft
        · obtain ⟨hfrom, _⟩ := updateEvent_first hbefore hwriter hcommitted
          exact Or.inr (hfrom ▸ hstage')
      · rw [updateEvent_of_writer_ne (Ne.symm hne') hwriter] at hwriter
        exact h.left old hold u other place hother hcommitted hwriter
    filled := by
      intro u other id hu hstageNe
      rcases RowLocks.getElem?_set_cases hu with ⟨rfl, rfl⟩ | ⟨hne', hold⟩
      · have hfrom : id ≠ fromSessionId := by
          rintro rfl
          exact hstageNe hstage'
        by_cases hto : id = toSessionId
        · subst hto
          exact ⟨offset + k, (hn.append hk).congr fun i => visible_updated_to hne⟩
        · obtain ⟨m, hm⟩ := h.filled t tx id ht (by simp [hstage])
          exact ⟨m, hm.congr fun i =>
            ⟨visible_updated_of_not_to hto, visible_updated_of_not_from hfrom⟩⟩
      · obtain ⟨m, hm⟩ := h.filled u other id hold hstageNe
        exact ⟨m, hm.congr fun i => visible_updated_of_ne hmay (Ne.symm hne')⟩
    committedFilled := by
      intro id
      obtain ⟨m, hm⟩ := h.committedFilled id
      exact ⟨m, hm.congr fun i => committed_updated⟩
    stageOk := by
      intro u other hu
      rcases RowLocks.getElem?_set_cases hu with ⟨rfl, rfl⟩ | ⟨hne', hold⟩
      · simp only [StageOk, hstage']
      · have hsame : ∀ id i, Visible (Eveland.SessionEvents.updated s t fromSessionId toSessionId
            offset ids tx') u id i ↔ Visible s u id i :=
          fun id i => visible_updated_of_ne hmay (Ne.symm hne')
        apply (h.stageOk u other hold).of_visible
        · exact fun _ hgone => hgone
        · exact fun id bound _ _ hbound m hm =>
            hbound m (hm.congr fun i => (hsame id i).symm)
        · rintro id others _ ⟨⟨m, hm⟩, hkept⟩
          refine ⟨⟨m, hm.congr fun i => found_updated_of_ne hmay (Ne.symm hne')⟩, ?_⟩
          intro hlive old hold
          obtain ⟨e, he, heq, hindex⟩ := hkept hlive old hold
          obtain ⟨i, hi⟩ := Option.isSome_iff_exists.mp hindex
          refine ⟨_, List.mem_map_of_mem he, by rw [updateEvent_id]; exact heq, ?_⟩
          rw [Option.isSome_iff_exists]
          refine ⟨i, ?_⟩
          rw [Event.indexIn_eq_some, hmay.placeFor he (Ne.symm hne')]
          exact Event.indexIn_eq_some.mp hi
        · intro e he place hwritten
          obtain ⟨old, hmem, rfl⟩ := List.mem_map.mp he
          rw [updateEvent_of_writer_ne (Ne.symm hne') (Event.writer_of_written hwritten)]
          exact hmem
    shifted := by
      intro u id
      by_cases hut : u = t
      · subst hut
        obtain ⟨target, shift, hshift⟩ := h.shifted_updated ht hstage id
        refine ⟨target, shift, fun e he i hcommitted hwriter => ?_⟩
        obtain ⟨old, hold, rfl⟩ := List.mem_map.mp he
        rw [updateEvent_committed] at hcommitted
        exact hshift old hold i hcommitted hwriter
      · obtain ⟨target, shift, hshift⟩ := h.shifted u id
        refine ⟨target, shift, fun e he i hcommitted hwriter => ?_⟩
        obtain ⟨old, hold, rfl⟩ := List.mem_map.mp he
        rw [updateEvent_committed] at hcommitted
        have hsame := updateEvent_of_writer_ne hut hwriter
        rw [hsame] at hwriter ⊢
        exact hshift old hold i hcommitted hwriter }

theorem Inv.moveSessionEvents {s s' : State} (h : Inv s) {t : TxId} {tx : Tx}
    (ht : s.txs[t]? = some tx) {fromSessionId toSessionId : String} {offset : ℕ} {absorbs : Bool}
    {ids : List String}
    (hstage : tx.stage = .updating fromSessionId toSessionId offset absorbs ids)
    (hstep : s.moveSessionEvents t tx fromSessionId toSessionId offset absorbs ids = some s') :
    Inv s' := by
  simp only [State.moveSessionEvents] at hstep
  split at hstep
  next =>
    obtain rfl := Option.some.inj hstep
    refine h.setStage ht ?_ ?_ (by simp [hstage]) ?_
    · rfl
    · rfl
    · cases absorbs <;> trivial
  next hsome =>
    split at hstep
    next hcond =>
      obtain rfl := Option.some.inj hstep
      have hfound : ∃ e ∈ s.events, moves t fromSessionId ids e = true := by
        obtain ⟨e, he⟩ := List.exists_mem_of_ne_nil _ hsome
        exact ⟨e, List.mem_filter.mp he⟩
      cases absorbs with
      | false =>
          -- The session that is gone holds nothing to move.
          have hok := h.stageOk t tx ht
          simp only [StageOk, hstage] at hok
          obtain ⟨e, he, hmoves⟩ := hfound
          obtain ⟨i, _, hindex, _⟩ := updateEvent_of_moves toSessionId offset hmoves
          apply absurd ⟨e, he, hindex⟩ (h.not_visible_of_not_finds ht (i := i) ?_)
          rcases hok.2.2.1 trivial with hgone | hmem
          · simp [State.finds, hgone]
          · simp [State.finds, hmem]
      | true =>
          refine h.updated ht hstage ?_ ?_ ?_ hfound hcond.1 fun e he hmoves => ?_
          · rfl
          · rfl
          · rfl
          · exact List.all_eq_true.mp hcond.2 e (List.mem_filter.mpr ⟨he, hmoves⟩)
    next => exact absurd hstep (by simp)

/-- A merge is over: what the transaction sees no event of, it may go on to delete. -/
theorem Inv.endMerge {s : State} (h : Inv s) {t : TxId} {tx tx' : Tx} (ht : s.txs[t]? = some tx)
    {absorbedId : String} (hstage : tx.stage = .moved absorbedId) (hstage' : tx'.stage = .idle)
    (hlocks : Locks s.sessions (s.txs.set t tx')) (hkeyShares : tx'.keyShares = tx.keyShares)
    (hkept : tx.deleting ⊆ tx'.deleting)
    (hdeleting : ∀ id ∈ tx'.deleting, id ∈ tx.deleting ∨ id = absorbedId)
    (hempty : ∀ i, ¬Visible s t absorbedId i)
    (hleft : absorbedId ∈ tx'.deleting ∨ s.sessions absorbedId ≠ .live) :
    Inv (s.setTx t tx') := by
  have hlt : t < s.txs.length := (List.getElem?_eq_some_iff.mp ht).1
  have hset : (s.txs.set t tx')[t]? = some tx' := by simp [hlt]
  refine { h with
    writtenRefers := fun e he u place hwritten => ?_
    locks := hlocks
    deletedEmpty := fun u other id hu hmem => ?_
    left := fun e he u other place hu hcommitted hwriter => ?_
    filled := fun u other id hu hne => ?_
    stageOk := fun u other hu => ?_ }
  · obtain ⟨old, hold, hkey⟩ := h.writtenRefers e he u place hwritten
    by_cases hut : t = u
    · subst hut
      obtain rfl := Option.some.inj (ht.symm.trans hold)
      exact ⟨tx', hset, hkeyShares ▸ hkey⟩
    · exact ⟨old, by simp [State.setTx, List.getElem?_set_ne hut, hold], hkey⟩
  · rcases RowLocks.getElem?_set_cases hu with ⟨rfl, rfl⟩ | ⟨_, hold⟩
    · rcases hdeleting id hmem with hmem | rfl
      · exact h.deletedEmpty t tx id ht hmem
      · exact hempty
    · exact h.deletedEmpty u other id hold hmem
  · rcases RowLocks.getElem?_set_cases hu with ⟨rfl, rfl⟩ | ⟨_, hold⟩
    · left
      rcases h.left e he t tx place ht hcommitted hwriter with hbefore | hbefore
      · exact hkept hbefore
      · rw [hstage] at hbefore
        obtain rfl : absorbedId = place.sessionId := by simpa using hbefore
        rcases hleft with hmem | hgone
        · exact hmem
        · exact absurd (h.committedLive e he place hcommitted) hgone
    · exact h.left e he u other place hold hcommitted hwriter
  · rcases RowLocks.getElem?_set_cases hu with ⟨rfl, rfl⟩ | ⟨_, hold⟩
    · by_cases hid : id = absorbedId
      · subst hid
        exact ⟨0, filledTo_zero hempty⟩
      · apply h.filled t tx id ht
        rw [hstage]
        intro heq
        exact hid (Stage.moved.inj heq).symm
    · exact h.filled u other id hold hne
  · rcases RowLocks.getElem?_set_cases hu with ⟨rfl, rfl⟩ | ⟨_, hold⟩
    · simp only [StageOk, hstage']
    · exact h.stageOk u other hold

/-- The deletion of the absorbed session, which no event refers to any more. -/
theorem Inv.deleteSession {s s' : State} (h : Inv s) {t : TxId} {tx : Tx}
    (ht : s.txs[t]? = some tx) {absorbedId : String} (hstage : tx.stage = .moved absorbedId)
    (hstep : s.deleteSession t tx absorbedId = some s') : Inv s' := by
  unfold State.deleteSession at hstep
  split at hstep
  next hfinds =>
    split at hstep
    next hcond =>
      obtain rfl := Option.some.inj hstep
      obtain ⟨hfound, hnot⟩ := State.finds_iff.mp hfinds
      have hempty : ∀ i, ¬Visible s t absorbedId i := by
        rintro i ⟨e, he, hindex⟩
        have hnone := List.all_eq_true.mp hcond.2 e he
        simp [hindex] at hnone
      refine h.endMerge ht hstage rfl ?_ rfl (List.subset_cons_self _ _) ?_ hempty
        (Or.inl List.mem_cons_self)
      · apply h.locks.set_of ht
        · rintro id (hmem | hmem)
          · exact h.locks.refersToFound t tx id ht hmem
          · rcases List.mem_cons.mp hmem with rfl | hmem
            · exact hfound
            · exact h.locks.deletesFound t tx id ht hmem
        · exact fun id hmem => Or.inl hmem
        · intro id hmem
          rcases List.mem_cons.mp hmem with rfl | hmem
          · right
            intro u other hu hholds
            apply State.not_others hcond.1 hu
            rcases hholds with hkey | hdelete
            · simp [Tx.holds, hkey]
            · simp [Tx.holds, Tx.holdsExclusive, hdelete]
          · exact Or.inl hmem
      · intro id hmem
        exact (List.mem_cons.mp hmem).symm
    next => exact absurd hstep (by simp)
  next hfinds =>
    obtain rfl := Option.some.inj hstep
    have hfinds : s.finds t tx absorbedId = false := by simpa using hfinds
    refine h.endMerge ht hstage rfl (h.locks.set ht (List.Subset.refl _) (List.Subset.refl _)) rfl
      (List.Subset.refl _) (fun id hmem => Or.inl hmem) (h.not_visible_of_not_finds ht hfinds) ?_
    by_cases hmem : absorbedId ∈ tx.deleting
    · exact Or.inl hmem
    · right
      intro hlive
      simp [State.finds, hlive, hmem] at hfinds

end Eveland.SessionEvents
