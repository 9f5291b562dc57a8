/-
# What transactions see of session events

A transaction sees of a session the events committed there, less those it has moved away, with
those it has put there. The invariant says that what it sees has the indices `0` to `n - 1`, as long
as it is not about to delete the session, and that what it has read of them is still a lower bound.

The unique index alone decides between two transactions that number events of one session: both
would have to write the first free place.
-/

import Mathlib.Data.List.Nodup
import Eveland.Foundations.InitialSegments
import Eveland.Store.SessionEvents

namespace Eveland.SessionEvents

open Segments
open State

/-! ## What a transaction sees -/

/-- Transaction `t` sees an event of the session at index `i`. -/
def Visible (s : State) (t : TxId) (sessionId : String) (i : ℕ) : Prop :=
  ∃ e ∈ s.events, e.indexIn t sessionId = some i

/-- An event of the session is committed at index `i`. -/
def Committed (s : State) (sessionId : String) (i : ℕ) : Prop :=
  ∃ e ∈ s.events, e.committed = some ⟨sessionId, i⟩

theorem Event.indexIn_eq_some {t : TxId} {sessionId : String} {e : Event} {i : ℕ} :
    e.indexIn t sessionId = some i ↔ e.placeFor t = some ⟨sessionId, i⟩ := by
  unfold Event.indexIn
  cases hplace : e.placeFor t with
  | none => simp
  | some place =>
      obtain ⟨found, index⟩ := place
      by_cases hfound : found = sessionId <;> simp [hfound]

theorem Event.placeFor_of_written {t : TxId} {e : Event} {place : Place}
    (hwritten : e.written = some (t, place)) : e.placeFor t = some place := by
  simp [Event.placeFor, hwritten]

theorem Event.placeFor_of_writer_ne {t : TxId} {e : Event} (hwriter : e.writer ≠ some t) :
    e.placeFor t = e.committed := by
  unfold Event.placeFor
  unfold Event.writer at hwriter
  split
  next writer place hwritten =>
    have hne : writer ≠ t := by
      rintro rfl
      simp [hwritten] at hwriter
    simp [hne]
  next => rfl

theorem Event.written_of_writer {t : TxId} {e : Event} (hwriter : e.writer = some t) :
    ∃ place, e.written = some (t, place) := by
  obtain ⟨⟨u, place⟩, hwritten, rfl⟩ := Option.map_eq_some_iff.mp hwriter
  exact ⟨place, hwritten⟩

theorem Event.writer_of_written {t : TxId} {e : Event} {place : Place}
    (hwritten : e.written = some (t, place)) : e.writer = some t := by
  simp [Event.writer, hwritten]

/-- A visible place is one the transaction has written, or a committed one it has not left. -/
theorem Event.placeFor_cases {t : TxId} {e : Event} {place : Place}
    (hplace : e.placeFor t = some place) :
    e.written = some (t, place) ∨ (e.writer ≠ some t ∧ e.committed = some place) := by
  by_cases hwriter : e.writer = some t
  · obtain ⟨other, hother⟩ := Event.written_of_writer hwriter
    rw [Event.placeFor_of_written hother] at hplace
    exact Or.inl (Option.some.inj hplace ▸ hother)
  · rw [Event.placeFor_of_writer_ne hwriter] at hplace
    exact Or.inr ⟨hwriter, hplace⟩

theorem State.not_others {s : State} {t : TxId} {p : Tx → Bool} (h : s.others t p = false)
    {u : TxId} {tx : Tx} (hu : s.txs[u]? = some tx) (hp : p tx = true) : u = t := by
  by_contra hne
  unfold State.others at h
  have hlt : u < s.txs.length := (List.getElem?_eq_some_iff.mp hu).1
  have := List.any_eq_false.mp h u (List.mem_range.mpr hlt)
  simp [hne, hu, hp] at this

/-- A place that is visible is occupied. -/
theorem isOccupied_of_visible {s : State} {t : TxId} {sessionId : String} {i : ℕ}
    (hvisible : Visible s t sessionId i) : s.isOccupied t ⟨sessionId, i⟩ = true := by
  obtain ⟨e, he, hindex⟩ := hvisible
  apply List.any_eq_true.mpr
  refine ⟨e, he, ?_⟩
  rcases Event.placeFor_cases (Event.indexIn_eq_some.mp hindex) with hwritten | ⟨hwriter, hplace⟩
  · simp [Event.occupies, hwritten]
  · simp [Event.occupies, hwriter, hplace]

/-- The next index is the number of events that are visible. -/
theorem nextIndex_eq {s : State} {t : TxId} {sessionId : String} {n : ℕ}
    (hfilled : FilledTo (Visible s t sessionId) n) : s.nextIndex t sessionId = n := by
  unfold State.nextIndex
  apply Nat.le_antisymm
  · apply foldl_max_le (Nat.zero_le n)
    intro v hv
    obtain ⟨i, hi, rfl⟩ := List.mem_map.mp hv
    obtain ⟨e, he, hindex⟩ := List.mem_filterMap.mp hi
    exact (hfilled i).mp ⟨e, he, hindex⟩
  · cases n with
    | zero => exact Nat.zero_le _
    | succ m =>
        obtain ⟨e, he, hindex⟩ := (hfilled m).mpr (Nat.lt_succ_self m)
        apply le_foldl_max
        exact List.mem_map.mpr ⟨m, List.mem_filterMap.mpr ⟨e, he, hindex⟩, rfl⟩

/-! ## The invariant -/

/-- The rows an update has found and that are where it found them. -/
def Found (s : State) (t : TxId) (fromSessionId : String) (ids : List String) (i : ℕ) : Prop :=
  ∃ e ∈ s.events, ids.contains e.id = true ∧ e.indexIn t fromSessionId = some i

/-- The rows an update has found are the first ones of the session, and none of them leaves it
before the session is gone. -/
def Snapshot (s : State) (t : TxId) (fromSessionId : String) (ids : List String) : Prop :=
  (∃ k, FilledTo (Found s t fromSessionId ids) k) ∧
  (s.sessions fromSessionId ≠ .gone →
    ∀ id ∈ ids, ∃ e ∈ s.events, e.id = id ∧ (e.indexIn t fromSessionId).isSome = true)

/-- What a transaction has read is still worth something. -/
def StageOk (s : State) (t : TxId) (tx : Tx) : Prop :=
  match tx.stage with
  | .numbered sessionId _ next =>
      s.sessions sessionId ≠ .gone → ∀ n, FilledTo (Visible s t sessionId) n → next ≤ n
  | .measured fromSessionId toSessionId offset absorbs =>
      fromSessionId ≠ toSessionId ∧
      (s.sessions toSessionId ≠ .gone →
        ∀ n, FilledTo (Visible s t toSessionId) n → offset ≤ n) ∧
      (absorbs = false → s.sessions fromSessionId = .gone ∨ fromSessionId ∈ tx.deleting)
  | .updating fromSessionId toSessionId offset absorbs ids =>
      fromSessionId ≠ toSessionId ∧
      (s.sessions toSessionId ≠ .gone →
        ∀ n, FilledTo (Visible s t toSessionId) n → offset ≤ n) ∧
      (absorbs = false → s.sessions fromSessionId = .gone ∨ fromSessionId ∈ tx.deleting) ∧
      Snapshot s t fromSessionId ids ∧
      (∀ e ∈ s.events, ∀ i, e.written = some (t, ⟨fromSessionId, i⟩) → ids.contains e.id = true)
  | _ => True

/-- The sessions that running transactions refer to and delete are there, and none is deleted while
another transaction refers to it. -/
structure Locks (sessions : String → SessionStatus) (txs : List Tx) : Prop where
  refersToFound : ∀ (t : TxId) (tx : Tx) sessionId, txs[t]? = some tx →
    sessionId ∈ tx.keyShares → sessions sessionId = .live ∨ sessions sessionId = .created t
  deletesFound : ∀ (t : TxId) (tx : Tx) sessionId, txs[t]? = some tx →
    sessionId ∈ tx.deleting → sessions sessionId = .live ∨ sessions sessionId = .created t
  deletesAlone : ∀ (t : TxId) (tx : Tx) (u : TxId) (tx' : Tx) sessionId, txs[t]? = some tx →
    txs[u]? = some tx' → sessionId ∈ tx.deleting →
      sessionId ∈ tx'.keyShares ∨ sessionId ∈ tx'.deleting → t = u

/-- No two rows are in each other's way. -/
structure Places (events : List Event) : Prop where
  ids : (events.map Event.id).Nodup
  committedOnce : ∀ e ∈ events, ∀ e' ∈ events, ∀ place,
    e.committed = some place → e'.committed = some place → e = e'
  writtenOnce : ∀ e ∈ events, ∀ e' ∈ events, ∀ t u place,
    e.written = some (t, place) → e'.written = some (u, place) → e = e'
  /-- A committed place is written again only by the transaction that has left it. -/
  notTaken : ∀ e ∈ events, ∀ e' ∈ events, ∀ t place,
    e.written = some (t, place) → e'.committed = some place → e'.writer = some t

structure Inv (s : State) : Prop where
  places : Places s.events
  writtenRefers : ∀ e ∈ s.events, ∀ t place, e.written = some (t, place) →
    ∃ tx, s.txs[t]? = some tx ∧ place.sessionId ∈ tx.keyShares
  committedLive : ∀ e ∈ s.events, ∀ place, e.committed = some place →
    s.sessions place.sessionId = .live
  locks : Locks s.sessions s.txs
  deletedEmpty : ∀ t (tx : Tx) sessionId, s.txs[t]? = some tx → sessionId ∈ tx.deleting →
    ∀ i, ¬Visible s t sessionId i
  /-- What a transaction moves away, it moves out of a session that it deletes. -/
  left : ∀ e ∈ s.events, ∀ t (tx : Tx) place, s.txs[t]? = some tx → e.committed = some place →
    e.writer = some t → place.sessionId ∈ tx.deleting ∨ tx.stage = .moved place.sessionId
  filled : ∀ t (tx : Tx) sessionId, s.txs[t]? = some tx → tx.stage ≠ .moved sessionId →
    ∃ n, FilledTo (Visible s t sessionId) n
  committedFilled : ∀ sessionId, ∃ n, FilledTo (Committed s sessionId) n
  stageOk : ∀ t (tx : Tx), s.txs[t]? = some tx → StageOk s t tx
  /-- What a transaction moves out of one session goes to one session, all by one offset. -/
  shifted : ∀ t sessionId, ∃ toSessionId offset, ∀ e ∈ s.events, ∀ i,
    e.committed = some ⟨sessionId, i⟩ → e.writer = some t →
      e.written = some (t, ⟨toSessionId, i + offset⟩)

/-! ## Consequences -/

theorem Inv.visibleOnce {s : State} (h : Inv s) {t : TxId} {e e' : Event} (he : e ∈ s.events)
    (he' : e' ∈ s.events) {place : Place} (hplace : e.placeFor t = some place)
    (hplace' : e'.placeFor t = some place) : e = e' := by
  rcases Event.placeFor_cases hplace with hwritten | ⟨hwriter, hcommitted⟩
  · rcases Event.placeFor_cases hplace' with hwritten' | ⟨hwriter', hcommitted'⟩
    · exact h.places.writtenOnce e he e' he' t t place hwritten hwritten'
    · exact absurd (h.places.notTaken e he e' he' t place hwritten hcommitted') hwriter'
  · rcases Event.placeFor_cases hplace' with hwritten' | ⟨_, hcommitted'⟩
    · exact absurd (h.places.notTaken e' he' e he t place hwritten' hcommitted) hwriter
    · exact h.places.committedOnce e he e' he' place hcommitted hcommitted'

/-- A session that a transaction has not left holds what is committed there. -/
theorem Inv.not_left {s : State} (h : Inv s) {t : TxId} {tx : Tx} (ht : s.txs[t]? = some tx)
    {sessionId : String} (hdeleting : sessionId ∉ tx.deleting)
    (hstage : tx.stage ≠ .moved sessionId) {e : Event} (he : e ∈ s.events) {i : ℕ}
    (hcommitted : e.committed = some ⟨sessionId, i⟩) : e.writer ≠ some t := by
  intro hwriter
  rcases h.left e he t tx _ ht hcommitted hwriter with hleft | hleft
  · exact hdeleting hleft
  · exact hstage hleft

/-- A transaction that has written to a session has the running number that follows what is
committed there. -/
theorem Inv.writes_next {s : State} (h : Inv s) {t : TxId} {tx : Tx} (ht : s.txs[t]? = some tx)
    {sessionId : String} (hdeleting : sessionId ∉ tx.deleting)
    (hstage : tx.stage ≠ .moved sessionId) {e : Event} (he : e ∈ s.events) {i : ℕ}
    (hwritten : e.written = some (t, ⟨sessionId, i⟩)) {count : ℕ}
    (hcount : FilledTo (Committed s sessionId) count) :
    ∃ e' ∈ s.events, e'.written = some (t, ⟨sessionId, count⟩) := by
  obtain ⟨n, hn⟩ := h.filled t tx sessionId ht hstage
  have hvisible : Visible s t sessionId i :=
    ⟨e, he, Event.indexIn_eq_some.mpr (Event.placeFor_of_written hwritten)⟩
  have hfree : count ≤ i := by
    by_contra hlt
    obtain ⟨e', he', hcommitted⟩ := (hcount i).mpr (by omega)
    exact h.not_left ht hdeleting hstage he' hcommitted (h.places.notTaken e he e' he' t _ hwritten hcommitted)
  have hin : i < n := (hn i).mp hvisible
  obtain ⟨e', he', hindex⟩ := (hn count).mpr (by omega)
  rcases Event.placeFor_cases (Event.indexIn_eq_some.mp hindex) with hwritten' | ⟨_, hcommitted⟩
  · exact ⟨e', he', hwritten'⟩
  · exact absurd ((hcount count).mp ⟨e', he', hcommitted⟩) (Nat.lt_irrefl count)

/-- A session that is gone, or was not there yet, holds nothing. -/
theorem Inv.not_visible {s : State} (h : Inv s) {t : TxId} {sessionId : String}
    (hlive : s.sessions sessionId ≠ .live) (hcreated : s.sessions sessionId ≠ .created t) (i : ℕ) :
    ¬Visible s t sessionId i := by
  rintro ⟨e, he, hindex⟩
  rcases Event.placeFor_cases (Event.indexIn_eq_some.mp hindex) with hwritten | ⟨_, hcommitted⟩
  · obtain ⟨tx, ht, hkey⟩ := h.writtenRefers e he t _ hwritten
    rcases h.locks.refersToFound t tx sessionId ht hkey with hfound | hfound
    · exact hlive hfound
    · exact hcreated hfound
  · exact hlive (h.committedLive e he _ hcommitted)

/-- What a transaction does not find holds nothing for it. -/
theorem Inv.not_visible_of_not_finds {s : State} (h : Inv s) {t : TxId} {tx : Tx}
    (ht : s.txs[t]? = some tx) {sessionId : String} (hfinds : s.finds t tx sessionId = false)
    (i : ℕ) : ¬Visible s t sessionId i := by
  by_cases hdeleting : sessionId ∈ tx.deleting
  · exact h.deletedEmpty t tx sessionId ht hdeleting i
  · apply h.not_visible
    all_goals
      intro hstatus
      simp [State.finds, hstatus, hdeleting] at hfinds

/-! ## Locks -/

namespace Locks

variable {sessions : String → SessionStatus} {txs : List Tx}

theorem begin (h : Locks sessions txs) : Locks sessions (txs ++ [Tx.begun]) := by
  have hcases : ∀ (u : TxId) (other : Tx), (txs ++ [Tx.begun])[u]? = some other →
      txs[u]? = some other ∨ other = Tx.begun :=
    fun u other hu => (RowLocks.getElem?_append_cases hu).imp_right And.right
  constructor
  · intro u other sessionId hu hmem
    rcases hcases u other hu with hold | rfl
    · exact h.refersToFound u other sessionId hold hmem
    · cases hmem
  · intro u other sessionId hu hmem
    rcases hcases u other hu with hold | rfl
    · exact h.deletesFound u other sessionId hold hmem
    · cases hmem
  · intro u other v other' sessionId hu hv hmem hmem'
    rcases hcases u other hu with hold | rfl
    · rcases hcases v other' hv with hold' | rfl
      · exact h.deletesAlone u other v other' sessionId hold hold' hmem hmem'
      · rcases hmem' with hmem' | hmem' <;> cases hmem'
    · cases hmem

/-- The statuses change, but not from what was found to something else. -/
theorem status (h : Locks sessions txs) {sessions' : String → SessionStatus}
    (hfound : ∀ sessionId t, sessions sessionId = .live ∨ sessions sessionId = .created t →
      sessions' sessionId = .live ∨ sessions' sessionId = .created t) : Locks sessions' txs where
  refersToFound t tx sessionId ht hmem := hfound sessionId t (h.refersToFound t tx sessionId ht hmem)
  deletesFound t tx sessionId ht hmem := hfound sessionId t (h.deletesFound t tx sessionId ht hmem)
  deletesAlone := h.deletesAlone

/-- A transaction comes to hold what it may hold. -/
theorem set_of (h : Locks sessions txs) {t : TxId} {tx tx' : Tx} (ht : txs[t]? = some tx)
    (hfound : ∀ sessionId, sessionId ∈ tx'.keyShares ∨ sessionId ∈ tx'.deleting →
      sessions sessionId = .live ∨ sessions sessionId = .created t)
    (hkeyShares : ∀ sessionId ∈ tx'.keyShares, sessionId ∈ tx.keyShares ∨
      ∀ u other, txs[u]? = some other → sessionId ∈ other.deleting → u = t)
    (hdeleting : ∀ sessionId ∈ tx'.deleting, sessionId ∈ tx.deleting ∨
      ∀ u other, txs[u]? = some other →
        sessionId ∈ other.keyShares ∨ sessionId ∈ other.deleting → u = t) :
    Locks sessions (txs.set t tx') := by
  -- What the transaction deletes, no other transaction refers to or deletes.
  have halone : ∀ sessionId u other, sessionId ∈ tx'.deleting → txs[u]? = some other →
      sessionId ∈ other.keyShares ∨ sessionId ∈ other.deleting → u = t := by
    intro sessionId u other hmem hu hmem'
    rcases hdeleting sessionId hmem with hold | hnew
    · exact (h.deletesAlone t tx u other sessionId ht hu hold hmem').symm
    · exact hnew u other hu hmem'
  constructor
  · intro u other sessionId hu hmem
    rcases RowLocks.getElem?_set_cases hu with ⟨rfl, rfl⟩ | ⟨_, hold⟩
    · exact hfound sessionId (Or.inl hmem)
    · exact h.refersToFound u other sessionId hold hmem
  · intro u other sessionId hu hmem
    rcases RowLocks.getElem?_set_cases hu with ⟨rfl, rfl⟩ | ⟨_, hold⟩
    · exact hfound sessionId (Or.inr hmem)
    · exact h.deletesFound u other sessionId hold hmem
  · intro u other v other' sessionId hu hv hmem hmem'
    rcases RowLocks.getElem?_set_cases hu with ⟨rfl, rfl⟩ | ⟨_, hold⟩
    · rcases RowLocks.getElem?_set_cases hv with ⟨rfl, rfl⟩ | ⟨_, hold'⟩
      · rfl
      · exact (halone sessionId v other' hmem hold' hmem').symm
    · rcases RowLocks.getElem?_set_cases hv with ⟨rfl, rfl⟩ | ⟨_, hold'⟩
      · rcases hmem' with hkey | hdelete
        · rcases hkeyShares sessionId hkey with hkeyOld | hnew
          · exact h.deletesAlone u other t tx sessionId hold ht hmem (Or.inl hkeyOld)
          · exact hnew u other hold hmem
        · exact halone sessionId u other hdelete hold (Or.inr hmem)
      · exact h.deletesAlone u other v other' sessionId hold hold' hmem hmem'

/-- A transaction that holds no more than before. -/
theorem set (h : Locks sessions txs) {t : TxId} {tx tx' : Tx} (ht : txs[t]? = some tx)
    (hkeyShares : tx'.keyShares ⊆ tx.keyShares) (hdeleting : tx'.deleting ⊆ tx.deleting) :
    Locks sessions (txs.set t tx') := by
  apply h.set_of ht
  · rintro sessionId (hmem | hmem)
    · exact h.refersToFound t tx sessionId ht (hkeyShares hmem)
    · exact h.deletesFound t tx sessionId ht (hdeleting hmem)
  · exact fun sessionId hmem => Or.inl (hkeyShares hmem)
  · exact fun sessionId hmem => Or.inl (hdeleting hmem)

end Locks

/-! ## Steps that only move a transaction on -/

/-- A transaction comes to another stage. -/
theorem Inv.setStage {s : State} (h : Inv s) {t : TxId} {tx tx' : Tx} (ht : s.txs[t]? = some tx)
    (hkeyShares : tx'.keyShares = tx.keyShares) (hdeleting : tx'.deleting = tx.deleting)
    (hstage : ∀ sessionId, tx.stage ≠ .moved sessionId) (hok : StageOk s t tx') :
    Inv (s.setTx t tx') := by
  have hlt : t < s.txs.length := (List.getElem?_eq_some_iff.mp ht).1
  have hself : (s.txs.set t tx')[t]? = some tx' := by simp [hlt]
  have hbefore : ∀ (u : TxId) (other : Tx), (s.txs.set t tx')[u]? = some other →
      ∃ old : Tx, s.txs[u]? = some old ∧ other.keyShares = old.keyShares ∧
        other.deleting = old.deleting := by
    intro u other hu
    rcases RowLocks.getElem?_set_cases hu with ⟨rfl, rfl⟩ | ⟨_, hold⟩
    · exact ⟨tx, ht, hkeyShares, hdeleting⟩
    · exact ⟨other, hold, rfl, rfl⟩
  refine { h with
    writtenRefers := fun e he u place hwritten => ?_
    locks := h.locks.set ht (hkeyShares ▸ fun _ hmem => hmem) (hdeleting ▸ fun _ hmem => hmem)
    deletedEmpty := fun u other sessionId hu hmem => ?_
    left := fun e he u other place hu hcommitted hwriter => ?_
    filled := fun u other sessionId hu hne => ?_
    stageOk := fun u other hu => ?_ }
  · obtain ⟨old, hold, hkey⟩ := h.writtenRefers e he u place hwritten
    by_cases hut : t = u
    · subst hut
      obtain rfl := Option.some.inj (ht.symm.trans hold)
      exact ⟨tx', hself, hkeyShares ▸ hkey⟩
    · exact ⟨old, by simp [State.setTx, List.getElem?_set_ne hut, hold], hkey⟩
  · obtain ⟨old, hold, _, hd⟩ := hbefore u other hu
    exact h.deletedEmpty u old sessionId hold (hd ▸ hmem)
  · rcases RowLocks.getElem?_set_cases hu with ⟨rfl, rfl⟩ | ⟨_, hold⟩
    · rcases h.left e he t tx place ht hcommitted hwriter with hleft | hleft
      · exact Or.inl (hdeleting ▸ hleft)
      · exact absurd hleft (hstage _)
    · exact h.left e he u other place hold hcommitted hwriter
  · rcases RowLocks.getElem?_set_cases hu with ⟨rfl, rfl⟩ | ⟨_, hold⟩
    · exact h.filled t tx sessionId ht (hstage sessionId)
    · exact h.filled u other sessionId hold hne
  · rcases RowLocks.getElem?_set_cases hu with ⟨rfl, rfl⟩ | ⟨_, hold⟩
    · exact hok
    · exact h.stageOk u other hold

/-- The index that is read is no higher than the number of events that are visible, now and as long
as the session is there. -/
theorem Inv.nextIndex_le {s : State} (h : Inv s) {t : TxId} {tx : Tx} (ht : s.txs[t]? = some tx)
    (hstage : ∀ sessionId, tx.stage ≠ .moved sessionId) {sessionId : String} {n : ℕ}
    (hn : FilledTo (Visible s t sessionId) n) : s.nextIndex t sessionId ≤ n := by
  obtain ⟨m, hm⟩ := h.filled t tx sessionId ht (hstage sessionId)
  exact (nextIndex_eq hm).trans (hm.unique hn) ▸ Nat.le_refl n

theorem mem_eventIds {s : State} {t : TxId} {fromSessionId : String} {e : Event}
    (he : e ∈ s.events) {i : ℕ} (hindex : e.indexIn t fromSessionId = some i) :
    (s.eventIds t fromSessionId).contains e.id = true := by
  rw [List.contains_iff_mem]
  apply List.mem_map_of_mem
  exact List.mem_filter.mpr ⟨he, by simp [hindex]⟩

/-- The update begins: it finds the events that are visible. -/
theorem Inv.beginUpdate {s : State} (h : Inv s) {t : TxId} {tx : Tx} (ht : s.txs[t]? = some tx)
    {fromSessionId toSessionId : String} {offset : ℕ} {absorbs : Bool}
    (hstage : tx.stage = .measured fromSessionId toSessionId offset absorbs) :
    StageOk s t { tx with
      stage := .updating fromSessionId toSessionId offset absorbs (s.eventIds t fromSessionId) } := by
  have hok := h.stageOk t tx ht
  simp only [StageOk, hstage] at hok
  obtain ⟨hne, hoffset, habsorbs⟩ := hok
  obtain ⟨k, hk⟩ := h.filled t tx fromSessionId ht (by simp [hstage])
  refine ⟨hne, hoffset, habsorbs, ⟨⟨k, hk.congr fun i => ?_⟩, fun _ id hid => ?_⟩,
    fun e he i hwritten => ?_⟩
  · constructor
    · rintro ⟨e, he, _, hindex⟩
      exact ⟨e, he, hindex⟩
    · rintro ⟨e, he, hindex⟩
      exact ⟨e, he, mem_eventIds he hindex, hindex⟩
  · obtain ⟨e, he, rfl⟩ := List.mem_map.mp hid
    obtain ⟨hmem, hindex⟩ := List.mem_filter.mp he
    exact ⟨e, hmem, rfl, hindex⟩
  · exact mem_eventIds he (Event.indexIn_eq_some.mpr (Event.placeFor_of_written hwritten))

/-- A transaction begins. -/
theorem Inv.begin {s : State} (h : Inv s) : Inv { s with txs := s.txs ++ [Tx.begun] } := by
  have hcases : ∀ (u : TxId) (other : Tx), (s.txs ++ [Tx.begun])[u]? = some other →
      s.txs[u]? = some other ∨ (u = s.txs.length ∧ other = Tx.begun) :=
    fun u other hu => RowLocks.getElem?_append_cases hu
  -- Nothing is written by the new transaction.
  have hnone : ∀ e ∈ s.events, e.writer ≠ some s.txs.length := by
    intro e he hwriter
    obtain ⟨place, hwritten⟩ := Event.written_of_writer hwriter
    obtain ⟨tx, ht, _⟩ := h.writtenRefers e he _ place hwritten
    exact absurd (List.getElem?_eq_some_iff.mp ht).1 (Nat.lt_irrefl _)
  refine { h with
    writtenRefers := fun e he u place hwritten => ?_
    locks := h.locks.begin
    deletedEmpty := fun u other sessionId hu hmem => ?_
    left := fun e he u other place hu hcommitted hwriter => ?_
    filled := fun u other sessionId hu hne => ?_
    stageOk := fun u other hu => ?_ }
  · obtain ⟨tx, ht, hkey⟩ := h.writtenRefers e he u place hwritten
    refine ⟨tx, ?_, hkey⟩
    rw [List.getElem?_append_left (List.getElem?_eq_some_iff.mp ht).1]
    exact ht
  · rcases hcases u other hu with hold | ⟨_, rfl⟩
    · exact h.deletedEmpty u other sessionId hold hmem
    · cases hmem
  · rcases hcases u other hu with hold | ⟨rfl, _⟩
    · exact h.left e he u other place hold hcommitted hwriter
    · exact absurd hwriter (hnone e he)
  · rcases hcases u other hu with hold | ⟨rfl, _⟩
    · exact h.filled u other sessionId hold hne
    · obtain ⟨n, hn⟩ := h.committedFilled sessionId
      refine ⟨n, hn.congr fun i => ⟨?_, ?_⟩⟩
      · rintro ⟨e, he, hindex⟩
        have hplace := Event.indexIn_eq_some.mp hindex
        rw [Event.placeFor_of_writer_ne (hnone e he)] at hplace
        exact ⟨e, he, hplace⟩
      · rintro ⟨e, he, hcommitted⟩
        refine ⟨e, he, Event.indexIn_eq_some.mpr ?_⟩
        rw [Event.placeFor_of_writer_ne (hnone e he)]
        exact hcommitted
  · rcases hcases u other hu with hold | ⟨_, rfl⟩
    · exact h.stageOk u other hold
    · trivial

/-- What a transaction has read keeps its worth while it sees no less, unless a session goes. -/
theorem StageOk.of_visible {s s' : State} {t : TxId} {tx : Tx} (hok : StageOk s t tx)
    (hgone : ∀ sessionId, s.sessions sessionId = .gone → s'.sessions sessionId = .gone)
    (hbounded : ∀ sessionId next, tx.stage ≠ .moved sessionId → s'.sessions sessionId ≠ .gone →
      (∀ n, FilledTo (Visible s t sessionId) n → next ≤ n) →
        ∀ n, FilledTo (Visible s' t sessionId) n → next ≤ n)
    (hfound : ∀ sessionId ids, tx.stage ≠ .moved sessionId → Snapshot s t sessionId ids →
      Snapshot s' t sessionId ids)
    (hwritten : ∀ e ∈ s'.events, ∀ place, e.written = some (t, place) → e ∈ s.events) :
    StageOk s' t tx := by
  unfold StageOk at hok ⊢
  split
  next sessionId _ next hstage =>
    rw [hstage] at hok
    intro hlive
    exact hbounded sessionId next (by simp [hstage]) hlive
      (hok fun hbefore => hlive (hgone sessionId hbefore))
  next fromSessionId toSessionId offset absorbs hstage =>
    rw [hstage] at hok
    obtain ⟨hne, hoffset, habsorbs⟩ := hok
    exact ⟨hne, fun hlive => hbounded toSessionId offset (by simp [hstage]) hlive
      (hoffset fun hbefore => hlive (hgone toSessionId hbefore)),
      fun hfalse => (habsorbs hfalse).imp_left (hgone _)⟩
  next fromSessionId toSessionId offset absorbs ids hstage =>
    rw [hstage] at hok
    obtain ⟨hne, hoffset, habsorbs, hfilled, hown⟩ := hok
    exact ⟨hne, fun hlive => hbounded toSessionId offset (by simp [hstage]) hlive
      (hoffset fun hbefore => hlive (hgone toSessionId hbefore)),
      fun hfalse => (habsorbs hfalse).imp_left (hgone _),
      hfound _ _ (by simp [hstage]) hfilled,
      fun e he i hplace => hown e (hwritten e he _ hplace) i hplace⟩
  next => trivial

/-- The insert of a session. -/
theorem Inv.createSession {s s' : State} (h : Inv s) {t : TxId} {sessionId : String}
    (hstep : s.createSession t sessionId = some s') : Inv s' := by
  unfold State.createSession at hstep
  split at hstep
  next hunused =>
    obtain rfl := Option.some.inj hstep
    have hstatus : ∀ other, s.sessions other ≠ .unused →
        Function.update s.sessions sessionId (.created t) other = s.sessions other := by
      intro other hother
      rw [Function.update_of_ne]
      rintro rfl
      exact hother hunused
    have hfound : ∀ other u, s.sessions other = .live ∨ s.sessions other = .created u →
        Function.update s.sessions sessionId (.created t) other = s.sessions other := by
      intro other u hother
      apply hstatus
      rcases hother with hother | hother <;> simp [hother]
    refine { h with
      committedLive := fun e he place hcommitted => ?_
      locks := h.locks.status fun id u hbefore =>
        hbefore.imp (hfound id u hbefore).trans (hfound id u hbefore).trans
      stageOk := fun u other hu => ?_ }
    · have hlive := h.committedLive e he place hcommitted
      exact (hstatus _ (by simp [hlive])).trans hlive
    · apply (h.stageOk u other hu).of_visible
      · intro id hgone
        exact (hstatus id (by simp [hgone])).trans hgone
      · exact fun _ _ _ _ hbound => hbound
      · rintro id ids _ ⟨hfilled, hkept⟩
        refine ⟨hfilled, fun hlive => hkept fun hgone => hlive ?_⟩
        exact (hstatus id (by simp [hgone])).trans hgone
      · exact fun e he _ _ => he
  next => exact absurd hstep (by simp)

end Eveland.SessionEvents
