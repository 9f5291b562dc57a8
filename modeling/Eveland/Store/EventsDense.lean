/-
# Session events stay dense

Under any interleaving of appends, merges and rollbacks the committed events of a session have the
indices `0` to `n - 1`, once each, and what is committed of one session stays together and in
order. A commit is the only step that changes what is committed; it commits what its transaction
sees, and what the others see of the sessions they write to is not touched by it.
-/

import Eveland.Store.EventMoves

namespace Eveland.SessionEvents

open Segments
open State

/-! ## Commits -/

@[simp]
theorem commitEvent_id (t : TxId) (e : Event) : (commitEvent t e).id = e.id := by
  unfold State.commitEvent
  split
  · split <;> rfl
  · rfl

/-- What a transaction sees is committed. -/
theorem commitEvent_committed (t : TxId) (e : Event) :
    (commitEvent t e).committed = e.placeFor t := by
  unfold State.commitEvent Event.placeFor
  split
  · split <;> rfl
  · rfl

theorem commitEvent_of_writer_ne {t : TxId} {e : Event} (hwriter : e.writer ≠ some t) :
    commitEvent t e = e := by
  unfold State.commitEvent
  split
  next u place hwritten =>
    have hne : u ≠ t := by
      rintro rfl
      exact hwriter (Event.writer_of_written hwritten)
    rw [if_neg hne]
  next => rfl

/-- Nothing that the transaction has written is left uncommitted. -/
theorem commitEvent_written {t u : TxId} {e : Event} {place : Place}
    (hwritten : (commitEvent t e).written = some (u, place)) :
    u ≠ t ∧ commitEvent t e = e := by
  unfold State.commitEvent at hwritten ⊢
  split at hwritten
  next v other hbefore =>
    split at hwritten
    next => cases hwritten
    next hne =>
      rw [hbefore] at hwritten
      cases hwritten
      exact ⟨hne, by simp [hne]⟩
  next hbefore =>
    rw [hbefore] at hwritten
    cases hwritten

theorem Places.commit {s : State} (h : Inv s) (t : TxId) :
    Places (s.events.map (commitEvent t)) where
  ids := by
    rw [List.map_map]
    have hsame : Event.id ∘ commitEvent t = Event.id := by
      funext e
      exact commitEvent_id t e
    rw [hsame]
    exact h.places.ids
  committedOnce := by
    intro e he e' he' place hcommitted hcommitted'
    obtain ⟨old, hold, rfl⟩ := List.mem_map.mp he
    obtain ⟨old', hold', rfl⟩ := List.mem_map.mp he'
    rw [commitEvent_committed] at hcommitted hcommitted'
    rw [h.visibleOnce hold hold' hcommitted hcommitted']
  writtenOnce := by
    intro e he e' he' u v place hwritten hwritten'
    obtain ⟨old, hold, rfl⟩ := List.mem_map.mp he
    obtain ⟨old', hold', rfl⟩ := List.mem_map.mp he'
    rw [(commitEvent_written hwritten).2] at hwritten
    rw [(commitEvent_written hwritten').2] at hwritten'
    rw [h.places.writtenOnce old hold old' hold' u v place hwritten hwritten']
  notTaken := by
    intro e he e' he' u place hwritten hcommitted
    obtain ⟨old, hold, rfl⟩ := List.mem_map.mp he
    obtain ⟨old', hold', rfl⟩ := List.mem_map.mp he'
    obtain ⟨hne, hsame⟩ := commitEvent_written hwritten
    rw [hsame] at hwritten
    rw [commitEvent_committed] at hcommitted
    rcases Event.placeFor_cases hcommitted with hwritten' | ⟨hwriter, hbefore⟩
    · obtain rfl := h.places.writtenOnce old hold old' hold' u t place hwritten hwritten'
      cases Option.some.inj (hwritten.symm.trans hwritten')
      exact absurd rfl hne
    · rw [commitEvent_of_writer_ne hwriter]
      exact h.places.notTaken old hold old' hold' u place hwritten hbefore

/-- After the commit everything that the transaction has seen is committed, and nothing else. -/
theorem committed_commit (s : State) (t : TxId) (tx : Tx) {id : String} {i : ℕ} :
    Committed (s.commit t tx) id i ↔ Visible s t id i := by
  constructor
  · rintro ⟨e, he, hcommitted⟩
    obtain ⟨old, hold, rfl⟩ := List.mem_map.mp he
    rw [commitEvent_committed] at hcommitted
    exact ⟨old, hold, Event.indexIn_eq_some.mpr hcommitted⟩
  · rintro ⟨e, he, hindex⟩
    refine ⟨_, List.mem_map_of_mem he, ?_⟩
    rw [commitEvent_committed]
    exact Event.indexIn_eq_some.mp hindex

/-- What others see after a commit: what they have written themselves, and otherwise what is
committed now. -/
theorem placeFor_commitEvent {t u : TxId} (hu : u ≠ t) (e : Event) :
    (commitEvent t e).placeFor u = if e.writer = some u then e.placeFor u else e.placeFor t := by
  by_cases hwriter : e.writer = some t
  · have hne : e.writer ≠ some u := by
      rw [hwriter]
      exact fun heq => hu (Option.some.inj heq).symm
    rw [if_neg hne, Event.placeFor_of_writer_ne, commitEvent_committed]
    intro hafter
    obtain ⟨place, hwritten⟩ := Event.written_of_writer hafter
    rw [(commitEvent_written hwritten).2] at hafter
    exact hne hafter
  · rw [commitEvent_of_writer_ne hwriter]
    split
    · rfl
    · next hne => rw [Event.placeFor_of_writer_ne hne, Event.placeFor_of_writer_ne hwriter]

/-- A transaction that writes to a session keeps others from committing to it. -/
theorem Inv.not_both_write {s : State} (h : Inv s) {t u : TxId} {tx other : Tx}
    (ht : s.txs[t]? = some tx) (hu : s.txs[u]? = some other) (hne : u ≠ t) {id : String}
    (hstage : tx.stage ≠ .moved id) (hstage' : other.stage ≠ .moved id)
    {e e' : Event} (he : e ∈ s.events) (he' : e' ∈ s.events) {i j : ℕ}
    (hwritten : e.written = some (t, ⟨id, i⟩)) (hwritten' : e'.written = some (u, ⟨id, j⟩)) :
    False := by
  have hempty : ∀ {v : TxId} {txv : Tx}, s.txs[v]? = some txv → ∀ {row : Event} {k : ℕ},
      row ∈ s.events → row.written = some (v, ⟨id, k⟩) → id ∉ txv.deleting := by
    intro v txv hv row k hrow hrowWritten hdeleting
    exact h.deletedEmpty v txv id hv hdeleting k
      ⟨row, hrow, Event.indexIn_eq_some.mpr (Event.placeFor_of_written hrowWritten)⟩
  obtain ⟨count, hcount⟩ := h.committedFilled id
  obtain ⟨first, hfirst, hnext⟩ := h.writes_next ht (hempty ht he hwritten) hstage he hwritten hcount
  obtain ⟨second, hsecond, hnext'⟩ :=
    h.writes_next hu (hempty hu he' hwritten') hstage' he' hwritten' hcount
  obtain rfl := h.places.writtenOnce first hfirst second hsecond t u _ hnext hnext'
  cases Option.some.inj (hnext.symm.trans hnext')
  exact hne rfl

section Commit

variable {s : State} {t u : TxId} {tx other : Tx}

/-- A session that survives the commit keeps what another transaction sees of it. -/
theorem Inv.placeFor_kept (h : Inv s) (ht : s.txs[t]? = some tx) (hidle : tx.stage = .idle)
    (hne : u ≠ t) {e : Event} (he : e ∈ s.events) {place : Place}
    (hplace : e.placeFor u = some place) (hkept : place.sessionId ∉ tx.deleting) :
    (commitEvent t e).placeFor u = some place := by
  rw [placeFor_commitEvent hne]
  split
  · exact hplace
  · next hwriter =>
      rw [Event.placeFor_of_writer_ne hwriter] at hplace
      rw [Event.placeFor_of_writer_ne]
      · exact hplace
      · apply h.not_left ht hkept (by simp [hidle]) he hplace

/-- A session that the other transaction deletes, too, stays empty for it. -/
theorem Inv.empty_commit (h : Inv s) (hu : s.txs[u]? = some other) (ht : s.txs[t]? = some tx)
    (hne : u ≠ t) {id : String} (hmem : id ∈ other.deleting) (i : ℕ) :
    ¬Visible (s.commit t tx) u id i := by
  rintro ⟨e, he, hindex⟩
  obtain ⟨old, hold, rfl⟩ := List.mem_map.mp he
  rw [Event.indexIn_eq_some, placeFor_commitEvent hne] at hindex
  split at hindex
  · exact h.deletedEmpty u other id hu hmem i ⟨old, hold, Event.indexIn_eq_some.mpr hindex⟩
  · next hwriter =>
      rcases Event.placeFor_cases hindex with hwritten | ⟨_, hcommitted⟩
      · obtain ⟨old', ht', hkey⟩ := h.writtenRefers old hold t _ hwritten
        obtain rfl := Option.some.inj (ht.symm.trans ht')
        exact hne (h.locks.deletesAlone u other t tx id hu ht hmem (Or.inl hkey))
      · apply h.deletedEmpty u other id hu hmem i
        refine ⟨old, hold, Event.indexIn_eq_some.mpr ?_⟩
        rw [Event.placeFor_of_writer_ne hwriter]
        exact hcommitted

/-- What the other transaction sees of a session it has not left stays an initial segment. -/
theorem Inv.filled_commit (h : Inv s) (ht : s.txs[t]? = some tx) (hidle : tx.stage = .idle)
    (hu : s.txs[u]? = some other) (hne : u ≠ t) {id : String} (hstage : other.stage ≠ .moved id) :
    ∃ n, FilledTo (Visible (s.commit t tx) u id) n := by
  by_cases hmem : id ∈ other.deleting
  · exact ⟨0, filledTo_zero (h.empty_commit hu ht hne hmem)⟩
  by_cases hown : ∃ e ∈ s.events, ∃ i, e.written = some (u, ⟨id, i⟩)
  · -- The other transaction has written to the session, so that this one has not.
    obtain ⟨own, hownMem, j, hwritten⟩ := hown
    obtain ⟨old, hu', hkey⟩ := h.writtenRefers own hownMem u _ hwritten
    obtain rfl := Option.some.inj (hu.symm.trans hu')
    have hkept : id ∉ tx.deleting := fun hdeleting =>
      hne (h.locks.deletesAlone t tx u other id ht hu hdeleting (Or.inl hkey)).symm
    obtain ⟨n, hn⟩ := h.filled u other id hu hstage
    refine ⟨n, hn.congr fun i => ⟨?_, ?_⟩⟩
    · rintro ⟨e, he, hindex⟩
      obtain ⟨old, hold, rfl⟩ := List.mem_map.mp he
      rw [Event.indexIn_eq_some, placeFor_commitEvent hne] at hindex
      split at hindex
      · exact ⟨old, hold, Event.indexIn_eq_some.mpr hindex⟩
      · next hwriter =>
          rcases Event.placeFor_cases hindex with hwrites | ⟨_, hcommitted⟩
          · exact (h.not_both_write ht hu hne (by simp [hidle]) hstage hold hownMem hwrites
              hwritten).elim
          · refine ⟨old, hold, Event.indexIn_eq_some.mpr ?_⟩
            rw [Event.placeFor_of_writer_ne hwriter]
            exact hcommitted
    · rintro ⟨e, he, hindex⟩
      refine ⟨_, List.mem_map_of_mem he, Event.indexIn_eq_some.mpr ?_⟩
      exact h.placeFor_kept ht hidle hne he (Event.indexIn_eq_some.mp hindex) hkept
  · -- What it sees of the session is what is committed there now.
    obtain ⟨n, hn⟩ := h.filled t tx id ht (by simp [hidle])
    refine ⟨n, hn.congr fun i => ⟨?_, ?_⟩⟩
    · rintro ⟨e, he, hindex⟩
      obtain ⟨old, hold, rfl⟩ := List.mem_map.mp he
      rw [Event.indexIn_eq_some, placeFor_commitEvent hne] at hindex
      split at hindex
      · next hwriter =>
          obtain ⟨place, hwritten⟩ := Event.written_of_writer hwriter
          rw [Event.placeFor_of_written hwritten] at hindex
          exact absurd ⟨old, hold, i, Option.some.inj hindex ▸ hwritten⟩ hown
      · exact ⟨old, hold, Event.indexIn_eq_some.mpr hindex⟩
    · rintro ⟨e, he, hindex⟩
      refine ⟨_, List.mem_map_of_mem he, ?_⟩
      rw [Event.indexIn_eq_some, placeFor_commitEvent hne, if_neg]
      · exact Event.indexIn_eq_some.mp hindex
      · intro hwriter
        have hnot : e.writer ≠ some t := by
          rw [hwriter]
          exact fun heq => hne (Option.some.inj heq)
        have hplace := Event.indexIn_eq_some.mp hindex
        rw [Event.placeFor_of_writer_ne hnot] at hplace
        exact h.not_left hu hmem hstage he hplace hwriter

theorem status_commit_live {id : String} (hkept : id ∉ tx.deleting)
    (hstatus : s.sessions id = .live ∨ s.sessions id = .created t) :
    s.commitStatus t tx id = .live := by
  rcases hstatus with hstatus | hstatus <;> simp [State.commitStatus, hkept, hstatus]

theorem status_commit_gone {id : String} (hstatus : s.sessions id = .gone) :
    s.commitStatus t tx id = .gone := by
  unfold State.commitStatus
  split
  · rfl
  · simp [hstatus]

/-- A session that is there for another transaction is there after the commit. -/
theorem status_commit_of_ne (hne : u ≠ t) {id : String} (hkept : id ∉ tx.deleting)
    (hstatus : s.sessions id = .live ∨ s.sessions id = .created u) :
    s.commitStatus t tx id = .live ∨ s.commitStatus t tx id = .created u := by
  rcases hstatus with hstatus | hstatus
  · simp [State.commitStatus, hkept, hstatus]
  · simp [State.commitStatus, hkept, hstatus, hne]

/-- A session that is gone after the commit holds nothing for the transaction before it. -/
theorem Inv.not_visible_of_gone (h : Inv s) (ht : s.txs[t]? = some tx) {id : String}
    (hgone : s.commitStatus t tx id = .gone) (i : ℕ) : ¬Visible s t id i := by
  by_cases hmem : id ∈ tx.deleting
  · exact h.deletedEmpty t tx id ht hmem i
  · apply h.not_visible
    · intro hlive
      rw [status_commit_live hmem (Or.inl hlive)] at hgone
      cases hgone
    · intro hcreated
      rw [status_commit_live hmem (Or.inr hcreated)] at hgone
      cases hgone

/-- What another transaction refers to is not gone after the commit. -/
theorem Inv.refers_commit (h : Inv s) (ht : s.txs[t]? = some tx) (hu : s.txs[u]? = some other)
    (hne : u ≠ t) {id : String} (hmem : id ∈ other.keyShares) :
    s.commitStatus t tx id = .live ∨ s.commitStatus t tx id = .created u := by
  apply status_commit_of_ne hne
  · intro hdeleting
    exact hne (h.locks.deletesAlone t tx u other id ht hu hdeleting (Or.inl hmem)).symm
  · exact h.locks.refersToFound u other id hu hmem

/-- The rows that an update of another transaction has found stay where they are, or their session
is gone. -/
theorem Inv.snapshot_commit (h : Inv s) (ht : s.txs[t]? = some tx) (hidle : tx.stage = .idle)
    (hne : u ≠ t) {id : String} {ids : List String} (hsnapshot : Snapshot s u id ids) :
    Snapshot (s.commit t tx) u id ids := by
  obtain ⟨⟨k, hk⟩, hkept⟩ := hsnapshot
  by_cases hgone : s.commitStatus t tx id = .gone
  · refine ⟨⟨0, filledTo_zero ?_⟩, fun hlive => absurd hgone hlive⟩
    rintro i ⟨e, he, _, hindex⟩
    obtain ⟨old, hold, rfl⟩ := List.mem_map.mp he
    rw [Event.indexIn_eq_some, placeFor_commitEvent hne] at hindex
    split at hindex
    · next hwriter =>
        obtain ⟨place, hwritten⟩ := Event.written_of_writer hwriter
        rw [Event.placeFor_of_written hwritten] at hindex
        obtain rfl := Option.some.inj hindex
        obtain ⟨other, hu, hkey⟩ := h.writtenRefers old hold u _ hwritten
        have hstatus := h.refers_commit ht hu hne hkey
        rw [hgone] at hstatus
        rcases hstatus with hstatus | hstatus <;> cases hstatus
    · exact h.not_visible_of_gone ht hgone i ⟨old, hold, Event.indexIn_eq_some.mpr hindex⟩
  · have hnot : id ∉ tx.deleting := by
      intro hmem
      simp [State.commitStatus, hmem] at hgone
    have hbefore : s.sessions id ≠ .gone := fun heq => hgone (status_commit_gone heq)
    have hmoved : ∀ old ∈ ids, ∃ e ∈ s.events, e.id = old ∧ ∃ i,
        e.indexIn u id = some i ∧ (commitEvent t e).indexIn u id = some i := by
      intro old hold
      obtain ⟨e, he, heq, hindex⟩ := hkept hbefore old hold
      obtain ⟨i, hi⟩ := Option.isSome_iff_exists.mp hindex
      refine ⟨e, he, heq, i, hi, Event.indexIn_eq_some.mpr ?_⟩
      exact h.placeFor_kept ht hidle hne he (Event.indexIn_eq_some.mp hi) hnot
    refine ⟨⟨k, hk.congr fun i => ⟨?_, ?_⟩⟩, fun _ old hold => ?_⟩
    · rintro ⟨e, he, hid, hindex⟩
      obtain ⟨old, hold, rfl⟩ := List.mem_map.mp he
      rw [commitEvent_id] at hid
      obtain ⟨e', he', heq, j, hj, hj'⟩ := hmoved old.id (by simpa using hid)
      obtain rfl := List.inj_on_of_nodup_map h.places.ids he' hold heq
      rw [hj'] at hindex
      exact ⟨e', hold, hid, hindex ▸ hj⟩
    · rintro ⟨e, he, hid, hindex⟩
      refine ⟨_, List.mem_map_of_mem he, by rw [commitEvent_id]; exact hid, ?_⟩
      rw [Event.indexIn_eq_some]
      exact h.placeFor_kept ht hidle hne he (Event.indexIn_eq_some.mp hindex) hnot
    · obtain ⟨e, he, heq, i, _, hi⟩ := hmoved old hold
      refine ⟨_, List.mem_map_of_mem he, by rw [commitEvent_id]; exact heq, ?_⟩
      simp [hi]

/-- **A commit** keeps the invariant. -/
theorem Inv.commit (h : Inv s) (ht : s.txs[t]? = some tx) (hidle : tx.stage = .idle) :
    Inv (s.commit t tx) := by
  have hcases : ∀ (v : TxId) (after : Tx), (s.commit t tx).txs[v]? = some after →
      (v = t ∧ after = Tx.over) ∨ (v ≠ t ∧ s.txs[v]? = some after) := by
    intro v after hv
    rcases RowLocks.getElem?_set_cases hv with ⟨rfl, rfl⟩ | ⟨hne, hold⟩
    · exact Or.inl ⟨rfl, rfl⟩
    · exact Or.inr ⟨Ne.symm hne, hold⟩
  exact {
    places := Places.commit h t
    writtenRefers := by
      intro e he v place hplace
      obtain ⟨old, hold, rfl⟩ := List.mem_map.mp he
      obtain ⟨hne, hsame⟩ := commitEvent_written hplace
      rw [hsame] at hplace
      obtain ⟨other, hv, hkey⟩ := h.writtenRefers old hold v place hplace
      exact ⟨other, by simp [State.commit, List.getElem?_set_ne (Ne.symm hne), hv], hkey⟩
    committedLive := by
      intro e he place hcommitted
      obtain ⟨old, hold, rfl⟩ := List.mem_map.mp he
      rw [commitEvent_committed] at hcommitted
      have hvisible : Visible s t place.sessionId place.index :=
        ⟨old, hold, Event.indexIn_eq_some.mpr hcommitted⟩
      have hkept : place.sessionId ∉ tx.deleting :=
        fun hmem => h.deletedEmpty t tx _ ht hmem _ hvisible
      apply status_commit_live hkept
      rcases Event.placeFor_cases hcommitted with hplace | ⟨_, hbefore⟩
      · obtain ⟨other, ht', hkey⟩ := h.writtenRefers old hold t place hplace
        exact h.locks.refersToFound t other _ ht' hkey
      · exact Or.inl (h.committedLive old hold place hbefore)
    locks := by
      constructor
      · intro v after id hv hmem
        rcases hcases v after hv with ⟨_, rfl⟩ | ⟨hne, hold⟩
        · cases hmem
        · exact h.refers_commit ht hold hne hmem
      · intro v after id hv hmem
        rcases hcases v after hv with ⟨_, rfl⟩ | ⟨hne, hold⟩
        · cases hmem
        · apply status_commit_of_ne hne
          · intro hdeleting
            exact hne (h.locks.deletesAlone t tx v after id ht hold hdeleting (Or.inr hmem)).symm
          · exact h.locks.deletesFound v after id hold hmem
      · intro v after w after' id hv hw hmem hmem'
        rcases hcases v after hv with ⟨_, rfl⟩ | ⟨_, hold⟩
        · cases hmem
        · rcases hcases w after' hw with ⟨_, rfl⟩ | ⟨_, hold'⟩
          · rcases hmem' with hmem' | hmem' <;> cases hmem'
          · exact h.locks.deletesAlone v after w after' id hold hold' hmem hmem'
    deletedEmpty := by
      intro v after id hv hmem
      rcases hcases v after hv with ⟨_, rfl⟩ | ⟨hne, hold⟩
      · cases hmem
      · exact h.empty_commit hold ht hne hmem
    left := by
      intro e he v after place hv hcommitted hwriter
      obtain ⟨old, hold, rfl⟩ := List.mem_map.mp he
      obtain ⟨target, hplace⟩ := Event.written_of_writer hwriter
      obtain ⟨hne, hsame⟩ := commitEvent_written hplace
      rw [hsame] at hcommitted hwriter
      rcases hcases v after hv with ⟨rfl, _⟩ | ⟨_, hbefore⟩
      · exact absurd rfl hne
      · exact h.left old hold v after place hbefore hcommitted hwriter
    filled := by
      intro v after id hv hstage
      rcases hcases v after hv with ⟨rfl, rfl⟩ | ⟨hne, hold⟩
      · obtain ⟨n, hn⟩ := h.filled v tx id ht (by simp [hidle])
        refine ⟨n, hn.congr fun i => Iff.trans ?_ (committed_commit _ _ tx)⟩
        constructor
        · rintro ⟨e, he, hindex⟩
          obtain ⟨old, hold, rfl⟩ := List.mem_map.mp he
          rcases Event.placeFor_cases (Event.indexIn_eq_some.mp hindex) with hplace | ⟨_, hplace⟩
          · exact absurd rfl (commitEvent_written hplace).1
          · exact ⟨_, he, hplace⟩
        · rintro ⟨e, he, hplace⟩
          refine ⟨e, he, Event.indexIn_eq_some.mpr ?_⟩
          obtain ⟨old, hold, rfl⟩ := List.mem_map.mp he
          rw [Event.placeFor_of_writer_ne]
          · exact hplace
          · intro hwriter
            obtain ⟨_, hplace'⟩ := Event.written_of_writer hwriter
            exact (commitEvent_written hplace').1 rfl
      · exact h.filled_commit ht hidle hold hne hstage
    committedFilled := by
      intro id
      obtain ⟨n, hn⟩ := h.filled t tx id ht (by simp [hidle])
      exact ⟨n, hn.congr fun i => committed_commit _ _ _⟩
    stageOk := by
      intro v after hv
      rcases hcases v after hv with ⟨_, rfl⟩ | ⟨hne, hold⟩
      · trivial
      · apply (h.stageOk v after hold).of_visible
        · exact fun id hgone => status_commit_gone hgone
        · intro id next hstage hlive hbound n hn
          obtain ⟨m, hm⟩ := h.filled v after id hold hstage
          apply Nat.le_trans (hbound m hm)
          apply hm.mono hn
          rintro i ⟨e, he, hindex⟩
          refine ⟨_, List.mem_map_of_mem he, Event.indexIn_eq_some.mpr ?_⟩
          apply h.placeFor_kept ht hidle hne he (Event.indexIn_eq_some.mp hindex)
          intro hmem
          apply hlive
          have hmem : id ∈ tx.deleting := hmem
          simp [State.commit, State.commitStatus, hmem]
        · exact fun id ids _ hsnapshot => h.snapshot_commit ht hidle hne hsnapshot
        · intro e he place hplace
          obtain ⟨old, hmem, rfl⟩ := List.mem_map.mp he
          rw [(commitEvent_written hplace).2]
          exact hmem
    shifted := by
      intro v id
      obtain ⟨target, shift, hshift⟩ := h.shifted v id
      refine ⟨target, shift, fun e he i hcommitted hwriter => ?_⟩
      obtain ⟨old, hold, rfl⟩ := List.mem_map.mp he
      obtain ⟨place, hplace⟩ := Event.written_of_writer hwriter
      obtain ⟨_, hsame⟩ := commitEvent_written hplace
      rw [hsame] at hcommitted hwriter ⊢
      exact hshift old hold i hcommitted hwriter }

end Commit

/-! ## Rollbacks -/

theorem rollbackEvent_eq_some {t : TxId} {e e' : Event} (h : rollbackEvent t e = some e') :
    e'.id = e.id ∧ e'.committed = e.committed ∧ e'.writer ≠ some t ∧
      ((e.writer ≠ some t ∧ e' = e) ∨ (e.writer = some t ∧ e'.written = none)) := by
  unfold State.rollbackEvent at h
  split at h
  next hwriter =>
    split at h
    · obtain rfl := Option.some.inj h
      exact ⟨rfl, rfl, by simp [Event.writer], Or.inr ⟨hwriter, rfl⟩⟩
    · cases h
  next hwriter =>
    obtain rfl := Option.some.inj h
    exact ⟨rfl, rfl, hwriter, Or.inl ⟨hwriter, rfl⟩⟩

/-- What is committed survives a rollback. -/
theorem rollbackEvent_of_committed {t : TxId} {e : Event} {place : Place}
    (hcommitted : e.committed = some place) : ∃ e', rollbackEvent t e = some e' := by
  unfold State.rollbackEvent
  split
  · simp [hcommitted]
  · exact ⟨e, rfl⟩

theorem rollbackEvent_of_writer_ne {t : TxId} {e : Event} (hwriter : e.writer ≠ some t) :
    rollbackEvent t e = some e := by
  simp [State.rollbackEvent, hwriter]

/-- What a row still has written, it had written by another transaction. -/
theorem rollbackEvent_written {t u : TxId} {e e' : Event} {place : Place}
    (h : rollbackEvent t e = some e') (hwritten : e'.written = some (u, place)) :
    u ≠ t ∧ e' = e := by
  obtain ⟨_, _, hne, ⟨_, rfl⟩ | ⟨_, hnone⟩⟩ := rollbackEvent_eq_some h
  · exact ⟨fun heq => hne (heq ▸ Event.writer_of_written hwritten), rfl⟩
  · rw [hnone] at hwritten
    cases hwritten

/-- The others see what they saw. -/
theorem placeFor_rollbackEvent {t u : TxId} (hu : u ≠ t) {e e' : Event}
    (h : rollbackEvent t e = some e') : e'.placeFor u = e.placeFor u := by
  obtain ⟨_, hcommitted, _, ⟨_, rfl⟩ | ⟨hwriter, hnone⟩⟩ := rollbackEvent_eq_some h
  · rfl
  · rw [Event.placeFor_of_writer_ne, Event.placeFor_of_writer_ne, hcommitted]
    · rw [hwriter]
      exact fun heq => hu (Option.some.inj heq).symm
    · simp [Event.writer, hnone]

section Rollback

variable {s : State} {t u : TxId} {tx other : Tx}

theorem visible_rollback_of_ne (hu : u ≠ t) {id : String} {i : ℕ} :
    Visible (s.rollback t) u id i ↔ Visible s u id i := by
  constructor
  · rintro ⟨e, he, hindex⟩
    obtain ⟨old, hold, hback⟩ := List.mem_filterMap.mp he
    rw [Event.indexIn_eq_some, placeFor_rollbackEvent hu hback] at hindex
    exact ⟨old, hold, Event.indexIn_eq_some.mpr hindex⟩
  · rintro ⟨e, he, hindex⟩
    have hplace := Event.indexIn_eq_some.mp hindex
    have hback : ∃ e', rollbackEvent t e = some e' := by
      rcases Event.placeFor_cases hplace with hwritten | ⟨_, hcommitted⟩
      · refine ⟨e, rollbackEvent_of_writer_ne ?_⟩
        rw [Event.writer_of_written hwritten]
        exact fun heq => hu (Option.some.inj heq)
      · exact rollbackEvent_of_committed hcommitted
    obtain ⟨e', he'⟩ := hback
    refine ⟨e', List.mem_filterMap.mpr ⟨e, he, he'⟩, Event.indexIn_eq_some.mpr ?_⟩
    rw [placeFor_rollbackEvent hu he', hplace]

theorem committed_rollback {id : String} {i : ℕ} :
    Committed (s.rollback t) id i ↔ Committed s id i := by
  constructor
  · rintro ⟨e, he, hcommitted⟩
    obtain ⟨old, hold, hback⟩ := List.mem_filterMap.mp he
    exact ⟨old, hold, (rollbackEvent_eq_some hback).2.1 ▸ hcommitted⟩
  · rintro ⟨e, he, hcommitted⟩
    obtain ⟨e', he'⟩ := rollbackEvent_of_committed (t := t) hcommitted
    exact ⟨e', List.mem_filterMap.mpr ⟨e, he, he'⟩,
      (rollbackEvent_eq_some he').2.1.trans hcommitted⟩

theorem Places.rollback (h : Places s.events) (t : TxId) :
    Places (s.events.filterMap (rollbackEvent t)) where
  ids := by
    have hids := List.pairwise_map.mp h.ids
    apply List.pairwise_map.mpr
    apply List.pairwise_filterMap.mpr
    apply hids.imp
    intro e f hne e' he' f' hf'
    rw [(rollbackEvent_eq_some he').1, (rollbackEvent_eq_some hf').1]
    exact hne
  committedOnce := by
    intro e he e' he' place hcommitted hcommitted'
    obtain ⟨old, hold, hback⟩ := List.mem_filterMap.mp he
    obtain ⟨old', hold', hback'⟩ := List.mem_filterMap.mp he'
    rw [(rollbackEvent_eq_some hback).2.1] at hcommitted
    rw [(rollbackEvent_eq_some hback').2.1] at hcommitted'
    obtain rfl := h.committedOnce old hold old' hold' place hcommitted hcommitted'
    exact Option.some.inj (hback.symm.trans hback')
  writtenOnce := by
    intro e he e' he' u v place hwritten hwritten'
    obtain ⟨old, hold, hback⟩ := List.mem_filterMap.mp he
    obtain ⟨old', hold', hback'⟩ := List.mem_filterMap.mp he'
    obtain rfl := (rollbackEvent_written hback hwritten).2
    obtain rfl := (rollbackEvent_written hback' hwritten').2
    exact h.writtenOnce e hold e' hold' u v place hwritten hwritten'
  notTaken := by
    intro e he e' he' u place hwritten hcommitted
    obtain ⟨old, hold, hback⟩ := List.mem_filterMap.mp he
    obtain ⟨old', hold', hback'⟩ := List.mem_filterMap.mp he'
    obtain ⟨hne, rfl⟩ := rollbackEvent_written hback hwritten
    rw [(rollbackEvent_eq_some hback').2.1] at hcommitted
    have hwriter := h.notTaken e hold old' hold' u place hwritten hcommitted
    have hsame : rollbackEvent t old' = some old' := by
      apply rollbackEvent_of_writer_ne
      rw [hwriter]
      exact fun heq => hne (Option.some.inj heq)
    obtain rfl := Option.some.inj (hback'.symm.trans hsame)
    exact hwriter

/-- What is there for another transaction stays there. -/
theorem status_rollback_of_ne (hne : u ≠ t) {id : String}
    (hstatus : s.sessions id = .live ∨ s.sessions id = .created u) :
    (s.rollback t).sessions id = .live ∨ (s.rollback t).sessions id = .created u := by
  have hnot : s.sessions id ≠ .created t := by
    rcases hstatus with hstatus | hstatus
    · simp [hstatus]
    · rw [hstatus]
      exact fun heq => hne (SessionStatus.created.inj heq)
  simpa [State.rollback, hnot] using hstatus

theorem status_rollback_gone {id : String} (hgone : s.sessions id = .gone) :
    (s.rollback t).sessions id = .gone := by
  simp [State.rollback, hgone]

theorem snapshot_rollback (hne : u ≠ t) {id : String}
    {ids : List String} (hsnapshot : Snapshot s u id ids) : Snapshot (s.rollback t) u id ids := by
  obtain ⟨⟨k, hk⟩, hkept⟩ := hsnapshot
  -- A row that the other transaction sees is not taken back.
  have hback : ∀ e ∈ s.events, (e.indexIn u id).isSome = true →
      ∃ e', rollbackEvent t e = some e' := by
    intro e he hindex
    obtain ⟨i, hi⟩ := Option.isSome_iff_exists.mp hindex
    rcases Event.placeFor_cases (Event.indexIn_eq_some.mp hi) with hwritten | ⟨_, hcommitted⟩
    · refine ⟨e, rollbackEvent_of_writer_ne ?_⟩
      rw [Event.writer_of_written hwritten]
      exact fun heq => hne (Option.some.inj heq)
    · exact rollbackEvent_of_committed hcommitted
  have hindexIn : ∀ {e e' : Event}, rollbackEvent t e = some e' →
      e'.indexIn u id = e.indexIn u id := by
    intro e e' he'
    unfold Event.indexIn
    rw [placeFor_rollbackEvent hne he']
  refine ⟨⟨k, hk.congr fun i => ⟨?_, ?_⟩⟩, fun hlive old hold => ?_⟩
  · rintro ⟨e, he, hid, hindex⟩
    obtain ⟨old, hold, he'⟩ := List.mem_filterMap.mp he
    rw [(rollbackEvent_eq_some he').1] at hid
    exact ⟨old, hold, hid, hindexIn he' ▸ hindex⟩
  · rintro ⟨e, he, hid, hindex⟩
    obtain ⟨e', he'⟩ := hback e he (by simp [hindex])
    refine ⟨e', List.mem_filterMap.mpr ⟨e, he, he'⟩, ?_, (hindexIn he').trans hindex⟩
    rw [(rollbackEvent_eq_some he').1]
    exact hid
  · obtain ⟨e, he, heq, hindex⟩ := hkept (fun hgone => hlive (status_rollback_gone hgone)) old hold
    obtain ⟨e', he'⟩ := hback e he hindex
    refine ⟨e', List.mem_filterMap.mpr ⟨e, he, he'⟩, (rollbackEvent_eq_some he').1.trans heq, ?_⟩
    rw [hindexIn he']
    exact hindex

/-- **A rollback** keeps the invariant. -/
theorem Inv.rollback (h : Inv s) (ht : s.txs[t]? = some tx) : Inv (s.rollback t) := by
  have hcases : ∀ (v : TxId) (after : Tx), (s.rollback t).txs[v]? = some after →
      (v = t ∧ after = Tx.over) ∨ (v ≠ t ∧ s.txs[v]? = some after) := by
    intro v after hv
    rcases RowLocks.getElem?_set_cases hv with ⟨rfl, rfl⟩ | ⟨hne, hold⟩
    · exact Or.inl ⟨rfl, rfl⟩
    · exact Or.inr ⟨Ne.symm hne, hold⟩
  exact {
    places := h.places.rollback t
    writtenRefers := by
      intro e he v place hplace
      obtain ⟨old, hold, hback⟩ := List.mem_filterMap.mp he
      obtain ⟨hne, rfl⟩ := rollbackEvent_written hback hplace
      obtain ⟨other, hv, hkey⟩ := h.writtenRefers e hold v place hplace
      exact ⟨other, by simp [State.rollback, List.getElem?_set_ne (Ne.symm hne), hv], hkey⟩
    committedLive := by
      intro e he place hcommitted
      obtain ⟨old, hold, hback⟩ := List.mem_filterMap.mp he
      rw [(rollbackEvent_eq_some hback).2.1] at hcommitted
      simp [State.rollback, h.committedLive old hold place hcommitted]
    locks := by
      constructor
      · intro v after id hv hmem
        rcases hcases v after hv with ⟨_, rfl⟩ | ⟨hne, hold⟩
        · cases hmem
        · exact status_rollback_of_ne hne (h.locks.refersToFound v after id hold hmem)
      · intro v after id hv hmem
        rcases hcases v after hv with ⟨_, rfl⟩ | ⟨hne, hold⟩
        · cases hmem
        · exact status_rollback_of_ne hne (h.locks.deletesFound v after id hold hmem)
      · intro v after w after' id hv hw hmem hmem'
        rcases hcases v after hv with ⟨_, rfl⟩ | ⟨_, hold⟩
        · cases hmem
        · rcases hcases w after' hw with ⟨_, rfl⟩ | ⟨_, hold'⟩
          · rcases hmem' with hmem' | hmem' <;> cases hmem'
          · exact h.locks.deletesAlone v after w after' id hold hold' hmem hmem'
    deletedEmpty := by
      intro v after id hv hmem i hvisible
      rcases hcases v after hv with ⟨_, rfl⟩ | ⟨hne, hold⟩
      · cases hmem
      · exact h.deletedEmpty v after id hold hmem i ((visible_rollback_of_ne hne).mp hvisible)
    left := by
      intro e he v after place hv hcommitted hwriter
      obtain ⟨old, hold, hback⟩ := List.mem_filterMap.mp he
      obtain ⟨target, hplace⟩ := Event.written_of_writer hwriter
      obtain ⟨hne, rfl⟩ := rollbackEvent_written hback hplace
      rcases hcases v after hv with ⟨rfl, _⟩ | ⟨_, hbefore⟩
      · exact absurd rfl hne
      · exact h.left e hold v after place hbefore hcommitted hwriter
    filled := by
      intro v after id hv hstage
      rcases hcases v after hv with ⟨rfl, rfl⟩ | ⟨hne, hold⟩
      · obtain ⟨n, hn⟩ := h.committedFilled id
        refine ⟨n, hn.congr fun i => Iff.trans ?_ (committed_rollback (t := v))⟩
        have hsame : ∀ e ∈ (s.rollback v).events, e.placeFor v = e.committed := by
          intro e he
          obtain ⟨old, _, hback⟩ := List.mem_filterMap.mp he
          exact Event.placeFor_of_writer_ne (rollbackEvent_eq_some hback).2.2.1
        constructor
        · rintro ⟨e, he, hindex⟩
          exact ⟨e, he, hsame e he ▸ Event.indexIn_eq_some.mp hindex⟩
        · rintro ⟨e, he, hcommitted⟩
          exact ⟨e, he, Event.indexIn_eq_some.mpr ((hsame e he).trans hcommitted)⟩
      · obtain ⟨n, hn⟩ := h.filled v after id hold hstage
        exact ⟨n, hn.congr fun i => visible_rollback_of_ne hne⟩
    committedFilled := by
      intro id
      obtain ⟨n, hn⟩ := h.committedFilled id
      exact ⟨n, hn.congr fun i => committed_rollback⟩
    stageOk := by
      intro v after hv
      rcases hcases v after hv with ⟨_, rfl⟩ | ⟨hne, hold⟩
      · trivial
      · apply (h.stageOk v after hold).of_visible
        · exact fun id hgone => status_rollback_gone hgone
        · exact fun id next _ _ hbound n hn =>
            hbound n (hn.congr fun i => (visible_rollback_of_ne hne).symm)
        · exact fun id ids _ hsnapshot => snapshot_rollback hne hsnapshot
        · intro e he place hplace
          obtain ⟨old, hmem, hback⟩ := List.mem_filterMap.mp he
          obtain ⟨_, rfl⟩ := rollbackEvent_written hback hplace
          exact hmem
    shifted := by
      intro v id
      obtain ⟨target, shift, hshift⟩ := h.shifted v id
      refine ⟨target, shift, fun e he i hcommitted hwriter => ?_⟩
      obtain ⟨old, hold, hback⟩ := List.mem_filterMap.mp he
      obtain ⟨place, hplace⟩ := Event.written_of_writer hwriter
      obtain ⟨_, rfl⟩ := rollbackEvent_written hback hplace
      exact hshift e hold i hcommitted hwriter }

end Rollback

/-! ## Every step -/

theorem inv_init : Inv { events := [], sessions := fun _ => .unused, txs := [] } where
  places := ⟨List.nodup_nil, nofun, nofun, nofun⟩
  writtenRefers := nofun
  committedLive := nofun
  locks := ⟨by simp, by simp, by simp⟩
  deletedEmpty := by simp
  left := nofun
  filled := by simp
  committedFilled _ := ⟨0, filledTo_zero fun _ => nofun⟩
  stageOk := by simp
  shifted _ id := ⟨id, 0, nofun⟩

theorem Inv.proceed {s s' : State} (h : Inv s) {t : TxId} {tx : Tx} (ht : s.txs[t]? = some tx)
    (hstep : SessionEvents.proceed s t tx = some s') : Inv s' := by
  unfold SessionEvents.proceed at hstep
  split at hstep
  next => exact absurd hstep (by simp)
  next sessionId eventId hstage =>
    obtain rfl := Option.some.inj hstep
    refine h.setStage ht ?_ ?_ (by simp [hstage]) fun _ n hn => ?_
    · rfl
    · rfl
    · exact h.nextIndex_le ht (by simp [hstage]) hn
  next sessionId eventId next hstage => exact h.insertEvent ht hstage hstep
  next hstage =>
    obtain rfl := Option.some.inj hstep
    refine h.setStage ht ?_ ?_ (by simp [hstage]) (h.beginUpdate ht hstage)
    · rfl
    · rfl
  next hstage => exact h.moveSessionEvents ht hstage hstep
  next hstage => exact h.deleteSession ht hstage hstep
  next => exact absurd hstep (by simp)

theorem Inv.lockSession {s s' : State} (h : Inv s) {t : TxId} {tx : Tx}
    (ht : s.txs[t]? = some tx) (hidle : tx.stage = .idle) {sessionId eventId : String}
    (hstep : s.lockSession t tx sessionId eventId = some s') : Inv s' := by
  unfold State.lockSession at hstep
  split at hstep
  · split at hstep
    · exact absurd hstep (by simp)
    · obtain rfl := Option.some.inj hstep
      refine h.setStage ht ?_ ?_ (by simp [hidle]) ?_
      · rfl
      · rfl
      · trivial
  · obtain rfl := Option.some.inj hstep
    refine h.setStage ht ?_ ?_ (by simp [hidle]) ?_
    · rfl
    · rfl
    · trivial

/-- **Every step** keeps the invariant. -/
theorem Inv.step {s s' : State} (h : Inv s) {a : Action}
    (hstep : SessionEvents.step s a = some s') : Inv s' := by
  cases a with
  | begin => exact Option.some.inj hstep ▸ h.begin
  | createSession t sessionId =>
      obtain ⟨tx, ht, hstep⟩ := Option.bind_eq_some_iff.mp hstep
      split at hstep
      · exact h.createSession hstep
      · exact absurd hstep (by simp)
  | append t sessionId eventId =>
      obtain ⟨tx, ht, hstep⟩ := Option.bind_eq_some_iff.mp hstep
      split at hstep
      next hidle => exact h.lockSession ht hidle hstep
      next => exact absurd hstep (by simp)
  | merge t absorbedId survivingId =>
      obtain ⟨tx, ht, hstep⟩ := Option.bind_eq_some_iff.mp hstep
      split at hstep
      next hcond =>
        obtain rfl := Option.some.inj hstep
        refine h.setStage ht ?_ ?_ (by simp [hcond.1])
          ⟨hcond.2, fun _ n hn => h.nextIndex_le ht (by simp [hcond.1]) hn, nofun⟩
        · rfl
        · rfl
      next => exact absurd hstep (by simp)
  | moveOrphans t fromSessionId toSessionId =>
      obtain ⟨tx, ht, hstep⟩ := Option.bind_eq_some_iff.mp hstep
      split at hstep
      next hcond =>
        obtain ⟨hidle, hne, hgone⟩ := hcond
        obtain rfl := Option.some.inj hstep
        refine h.setStage ht ?_ ?_ (by simp [hidle])
          ⟨hne, fun _ n hn => h.nextIndex_le ht (by simp [hidle]) hn, fun _ => ?_⟩
        · rfl
        · rfl
        · simpa using hgone
      next => exact absurd hstep (by simp)
  | proceed t =>
      obtain ⟨tx, ht, hstep⟩ := Option.bind_eq_some_iff.mp hstep
      exact h.proceed ht hstep
  | commit t =>
      obtain ⟨tx, ht, hstep⟩ := Option.bind_eq_some_iff.mp hstep
      split at hstep
      next hidle => exact Option.some.inj hstep ▸ h.commit ht hidle
      next => exact absurd hstep (by simp)
  | rollback t =>
      obtain ⟨tx, ht, hstep⟩ := Option.bind_eq_some_iff.mp hstep
      split at hstep
      next => exact absurd hstep (by simp)
      next => exact Option.some.inj hstep ▸ h.rollback ht

theorem Inv.of_reachable {s : State} (hs : machine.Reachable s) : Inv s := by
  apply hs.invariant
  · rintro _ rfl
    exact inv_init
  · exact fun s a t h hstep => h.step hstep

/-! ## What becomes of committed events -/

/-- The committed events of a session are together, and in order, in one session afterwards. -/
def KeepsTogether (s s' : State) (sessionId : String) : Prop :=
  ∃ target shift, ∀ e ∈ s.events, ∀ i, e.committed = some ⟨sessionId, i⟩ →
    ∃ e' ∈ s'.events, e'.id = e.id ∧ e'.committed = some ⟨target, i + shift⟩

theorem KeepsTogether.of_same {s s' : State}
    (hsame : ∀ e ∈ s.events, e.committed.isSome = true →
      ∃ e' ∈ s'.events, e'.id = e.id ∧ e'.committed = e.committed) (sessionId : String) :
    KeepsTogether s s' sessionId := by
  refine ⟨sessionId, 0, fun e he i hcommitted => ?_⟩
  obtain ⟨e', he', hid, hplace⟩ := hsame e he (by simp [hcommitted])
  exact ⟨e', he', hid, hplace.trans hcommitted⟩

theorem KeepsTogether.trans {s t u : State} {sessionId : String}
    (first : KeepsTogether s t sessionId) (second : ∀ id, KeepsTogether t u id) :
    KeepsTogether s u sessionId := by
  obtain ⟨middle, shift, hfirst⟩ := first
  obtain ⟨target, shift', hsecond⟩ := second middle
  refine ⟨target, shift + shift', fun e he i hcommitted => ?_⟩
  obtain ⟨e', he', hid, hplace⟩ := hfirst e he i hcommitted
  obtain ⟨e'', he'', hid', hplace'⟩ := hsecond e' he' _ hplace
  exact ⟨e'', he'', hid'.trans hid, by rw [hplace', Nat.add_assoc]⟩

/-- A commit moves a session as a whole or not at all. -/
theorem Inv.keepsTogether_commit {s : State} (h : Inv s) {t : TxId} {tx : Tx}
    (ht : s.txs[t]? = some tx) (hidle : tx.stage = .idle) (sessionId : String) :
    KeepsTogether s (s.commit t tx) sessionId := by
  obtain ⟨target, shift, hshift⟩ := h.shifted t sessionId
  by_cases hleft : ∃ e ∈ s.events, (∃ i, e.committed = some ⟨sessionId, i⟩) ∧ e.writer = some t
  · have hdeleting : sessionId ∈ tx.deleting := by
      obtain ⟨e, he, ⟨i, hcommitted⟩, hwriter⟩ := hleft
      rcases h.left e he t tx _ ht hcommitted hwriter with hdeleting | hmoved
      · exact hdeleting
      · simp [hidle] at hmoved
    refine ⟨target, shift, fun e he i hcommitted => ?_⟩
    have hwriter : e.writer = some t := by
      by_contra hnot
      apply h.deletedEmpty t tx sessionId ht hdeleting i
      refine ⟨e, he, Event.indexIn_eq_some.mpr ?_⟩
      rw [Event.placeFor_of_writer_ne hnot]
      exact hcommitted
    refine ⟨_, List.mem_map_of_mem he, commitEvent_id t e, ?_⟩
    rw [commitEvent_committed]
    exact Event.placeFor_of_written (hshift e he i hcommitted hwriter)
  · refine ⟨sessionId, 0, fun e he i hcommitted => ?_⟩
    refine ⟨_, List.mem_map_of_mem he, commitEvent_id t e, ?_⟩
    rw [commitEvent_committed, Event.placeFor_of_writer_ne]
    · exact hcommitted
    · exact fun hwriter => hleft ⟨e, he, ⟨i, hcommitted⟩, hwriter⟩

/-- Within a transaction no committed place changes. -/
def SameCommitted (s s' : State) : Prop :=
  ∀ e ∈ s.events, ∃ e' ∈ s'.events, e'.id = e.id ∧ e'.committed = e.committed

theorem SameCommitted.of_events {s s' : State} (hevents : s'.events = s.events) :
    SameCommitted s s' := fun e he => ⟨e, hevents ▸ he, rfl, rfl⟩

theorem sameCommitted_insertEvent {s s' : State} {t : TxId} {tx : Tx}
    {sessionId eventId : String} {next : ℕ}
    (hstep : s.insertEvent t tx sessionId eventId next = some s') : SameCommitted s s' := by
  unfold State.insertEvent at hstep
  split at hstep
  · obtain rfl := Option.some.inj hstep
    exact fun e he => ⟨e, List.mem_append_left _ he, rfl, rfl⟩
  · exact absurd hstep (by simp)

theorem sameCommitted_moveSessionEvents {s s' : State} {t : TxId} {tx : Tx}
    {fromSessionId toSessionId : String} {offset : ℕ} {absorbs : Bool} {ids : List String}
    (hstep : s.moveSessionEvents t tx fromSessionId toSessionId offset absorbs ids = some s') :
    SameCommitted s s' := by
  simp only [State.moveSessionEvents] at hstep
  split at hstep
  · obtain rfl := Option.some.inj hstep
    exact SameCommitted.of_events rfl
  · split at hstep
    · obtain rfl := Option.some.inj hstep
      intro e he
      exact ⟨_, List.mem_map_of_mem he,
        updateEvent_id e, updateEvent_committed e⟩
    · exact absurd hstep (by simp)

theorem sameCommitted_deleteSession {s s' : State} {t : TxId} {tx : Tx} {absorbedId : String}
    (hstep : s.deleteSession t tx absorbedId = some s') : SameCommitted s s' := by
  unfold State.deleteSession at hstep
  split at hstep
  · split at hstep
    · obtain rfl := Option.some.inj hstep
      exact SameCommitted.of_events rfl
    · exact absurd hstep (by simp)
  · obtain rfl := Option.some.inj hstep
    exact SameCommitted.of_events rfl

theorem sameCommitted_proceed {s s' : State} {t : TxId} {tx : Tx}
    (hstep : SessionEvents.proceed s t tx = some s') : SameCommitted s s' := by
  unfold SessionEvents.proceed at hstep
  split at hstep
  next => exact absurd hstep (by simp)
  next => exact Option.some.inj hstep ▸ SameCommitted.of_events rfl
  next => exact sameCommitted_insertEvent hstep
  next => exact Option.some.inj hstep ▸ SameCommitted.of_events rfl
  next => exact sameCommitted_moveSessionEvents hstep
  next => exact sameCommitted_deleteSession hstep
  next => exact absurd hstep (by simp)

theorem sameCommitted_lockSession {s s' : State} {t : TxId} {tx : Tx}
    {sessionId eventId : String} (hstep : s.lockSession t tx sessionId eventId = some s') :
    SameCommitted s s' := by
  unfold State.lockSession at hstep
  split at hstep
  · split at hstep
    · exact absurd hstep (by simp)
    · exact Option.some.inj hstep ▸ SameCommitted.of_events rfl
  · exact Option.some.inj hstep ▸ SameCommitted.of_events rfl

/-- What is committed of a session stays together over every step. -/
theorem Inv.keepsTogether_step {s s' : State} (h : Inv s) {a : Action}
    (hstep : SessionEvents.step s a = some s') (sessionId : String) :
    KeepsTogether s s' sessionId := by
  have hsame : SameCommitted s s' → KeepsTogether s s' sessionId :=
    fun hcommitted => KeepsTogether.of_same (fun e he _ => hcommitted e he) sessionId
  cases a with
  | begin => exact hsame (Option.some.inj hstep ▸ SameCommitted.of_events rfl)
  | createSession t id =>
      obtain ⟨tx, ht, hstep⟩ := Option.bind_eq_some_iff.mp hstep
      split at hstep
      · unfold State.createSession at hstep
        split at hstep
        · exact hsame (Option.some.inj hstep ▸ SameCommitted.of_events rfl)
        · exact absurd hstep (by simp)
      · exact absurd hstep (by simp)
  | append t id eventId =>
      obtain ⟨tx, ht, hstep⟩ := Option.bind_eq_some_iff.mp hstep
      split at hstep
      · exact hsame (sameCommitted_lockSession hstep)
      · exact absurd hstep (by simp)
  | merge t absorbedId survivingId =>
      obtain ⟨tx, ht, hstep⟩ := Option.bind_eq_some_iff.mp hstep
      split at hstep
      · exact hsame (Option.some.inj hstep ▸ SameCommitted.of_events rfl)
      · exact absurd hstep (by simp)
  | moveOrphans t fromSessionId toSessionId =>
      obtain ⟨tx, ht, hstep⟩ := Option.bind_eq_some_iff.mp hstep
      split at hstep
      · exact hsame (Option.some.inj hstep ▸ SameCommitted.of_events rfl)
      · exact absurd hstep (by simp)
  | proceed t =>
      obtain ⟨tx, ht, hstep⟩ := Option.bind_eq_some_iff.mp hstep
      exact hsame (sameCommitted_proceed hstep)
  | commit t =>
      obtain ⟨tx, ht, hstep⟩ := Option.bind_eq_some_iff.mp hstep
      split at hstep
      next hidle => exact Option.some.inj hstep ▸ h.keepsTogether_commit ht hidle sessionId
      next => exact absurd hstep (by simp)
  | rollback t =>
      obtain ⟨tx, ht, hstep⟩ := Option.bind_eq_some_iff.mp hstep
      split at hstep
      next => exact absurd hstep (by simp)
      next =>
        obtain rfl := Option.some.inj hstep
        apply KeepsTogether.of_same
        intro e he hcommitted
        obtain ⟨place, hplace⟩ := Option.isSome_iff_exists.mp hcommitted
        obtain ⟨e', he'⟩ := rollbackEvent_of_committed (t := t) hplace
        obtain ⟨hid, hback, _⟩ := rollbackEvent_eq_some he'
        exact ⟨e', List.mem_filterMap.mpr ⟨e, he, he'⟩, hid, hback⟩

theorem Inv.keepsTogether_exec {s s' : State} (h : Inv s) {as : List Action}
    (hrun : machine.exec s as = some s') (sessionId : String) : KeepsTogether s s' sessionId := by
  induction as generalizing s sessionId with
  | nil =>
      obtain rfl := Option.some.inj hrun
      exact KeepsTogether.of_same (fun e he _ => ⟨e, he, rfl, rfl⟩) sessionId
  | cons a as ih =>
      obtain ⟨m, hm, hrest⟩ := machine.exec_cons_eq_some.mp hrun
      exact (h.keepsTogether_step hm sessionId).trans fun id => ih (h.step hm) hrest id

/-- **Event indices are dense.** In every state that any interleaving of appends, merges and
rollbacks reaches, the committed events of a session have the indices below their number, each
once, and no two rows share an identifier. -/
theorem session_events_dense (s : State) (hs : machine.Reachable s) :
    (s.events.map Event.id).Nodup ∧
    (∀ e ∈ s.events, ∀ e' ∈ s.events, ∀ place,
      e.committed = some place → e'.committed = some place → e = e') ∧
    ∀ sessionId, ∃ n, ∀ i,
      (∃ e ∈ s.events, e.committed = some ⟨sessionId, i⟩) ↔ i < n := by
  have h := Inv.of_reachable hs
  exact ⟨h.places.ids, h.places.committedOnce, h.committedFilled⟩

/-- One transaction that makes two sessions of one event each. -/
def separateRun : List Action :=
  [.begin, .createSession 0 "a", .append 0 "a" "e", .proceed 0, .proceed 0,
    .createSession 0 "b", .append 0 "b" "f", .proceed 0, .proceed 0, .commit 0]

/-- Another one that merges the first session into the second. -/
def mergeRun : List Action :=
  [.begin, .merge 1 "a" "b", .proceed 1, .proceed 1, .proceed 1, .commit 1]

def separate : State :=
  (machine.exec { events := [], sessions := fun _ => .unused, txs := [] } separateRun).get
    (by decide +kernel)

def merged : State := (machine.exec separate mergeRun).get (by decide +kernel)

theorem separate_reachable : machine.Reachable separate :=
  ⟨_, separateRun, rfl, (Option.some_get _).symm⟩

/-- The events of its first session. -/
theorem session_events_dense_when_separate : ∃ n, ∀ i,
    (∃ e ∈ separate.events, e.committed = some ⟨"a", i⟩) ↔ i < n :=
  (session_events_dense separate separate_reachable).2.2 "a"

/-- **Event order is stable.** Whatever runs after a reachable state, the events that are committed
in a session there are all committed in one session in the end, every index raised by the same
number: none is lost, and no two of them change their order. -/
theorem session_events_keep_order (s s' : State) (hs : machine.Reachable s) (as : List Action)
    (hrun : machine.exec s as = some s') (sessionId : String) :
    ∃ target shift, ∀ e ∈ s.events, ∀ i, e.committed = some ⟨sessionId, i⟩ →
      ∃ e' ∈ s'.events, e'.id = e.id ∧ e'.committed = some ⟨target, i + shift⟩ :=
  (Inv.of_reachable hs).keepsTogether_exec hrun sessionId

theorem session_events_keep_order_when_merged : ∃ target shift, ∀ e ∈ separate.events, ∀ i,
    e.committed = some ⟨"a", i⟩ →
      ∃ e' ∈ merged.events, e'.id = e.id ∧ e'.committed = some ⟨target, i + shift⟩ :=
  session_events_keep_order separate merged separate_reachable mergeRun
    (Option.some_get _).symm "a"

end Eveland.SessionEvents
