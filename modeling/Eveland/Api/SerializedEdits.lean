/-
# Edits of the shared Agent environment, in order

The values that a request keeps are those of the record it has read, and they are written back
whole. Where each save still finds them stored, a run leaves the row that the accepted requests
leave when they are served one after the other, in the order of their saves. The revision counts
the changes in every run, and whoever has changed the entries enqueues the restarts.
-/

import Mathlib.Tactic.Common
import Eveland.Api.SharedEnvironment

namespace Eveland.SharedEnvironment

/-! ## Entries -/

namespace Platform

variable (P : Platform)

@[simp]
theorem normalize_normalize (entries : List Entry) :
    P.normalize (P.normalize entries) = P.normalize entries := by
  let le : Entry → Entry → Prop := fun left right => P.localeLe left.key right.key = true
  have : Std.Total le := ⟨fun left right => by
    simpa [le] using P.localeLe_total left.key right.key⟩
  have : IsTrans Entry le := ⟨fun a b c => P.localeLe_trans a.key b.key c.key⟩
  apply List.Pairwise.insertionSort_eq
  exact List.pairwise_insertionSort le entries

/-- A request resolves alike where the values it keeps are stored alike. -/
theorem resolve_congr {existing current : Option Row} {entries : List EntryInput}
    (hkeeps : ∀ entry ∈ entries, entry.value = none →
      storedValue current entry.key entry.kind = storedValue existing entry.key entry.kind) :
    P.resolve current entries = P.resolve existing entries := by
  unfold resolve
  induction entries with
  | nil => rfl
  | cons entry entries ih =>
      have hhead : P.resolveEntry current entry = P.resolveEntry existing entry := by
        unfold resolveEntry
        cases hvalue : entry.value with
        | some value => rfl
        | none =>
            dsimp only
            rw [hkeeps entry List.mem_cons_self hvalue]
      have htail := ih fun entry hmem => hkeeps entry (List.mem_cons_of_mem _ hmem)
      rw [List.mapM_cons, List.mapM_cons, hhead, htail]

/-- A save that leaves another row has raised the revision, and one that leaves the entries has
left the row. -/
theorem save_cases (row : Option Row) (entries : List Entry) :
    some (P.save row entries) = row ∨
      (P.save row entries).revision = (row.map Row.revision).getD 0 + 1 ∧
        some (P.save row entries).entries ≠ row.map Row.entries := by
  cases row with
  | none => exact Or.inr ⟨rfl, by simp⟩
  | some existing =>
      by_cases hsame : P.normalize existing.entries = P.normalize entries
      · exact Or.inl (by simp [save, hsame])
      · refine Or.inr ⟨by simp [save, hsame], ?_⟩
        simp only [save, hsame, if_false, Option.map_some, ne_eq, Option.some.injEq]
        intro heq
        apply hsame
        rw [← heq, P.normalize_normalize]

end Platform

/-! ## What a run keeps -/

section Runs

variable {ι : Type*} [DecidableEq ι] (P : Platform) (request : ι → List EntryInput)

/-- The values that a request keeps are stored as they were when it read them. -/
def StillStored (existing current : Option Row) (entries : List EntryInput) : Bool :=
  entries.all fun entry => entry.value.isSome ||
    storedValue current entry.key entry.kind = storedValue existing entry.key entry.kind

/-- The condition on a step: a save finds the values it keeps still stored. -/
def KeepsStored (s : State ι) (i : ι) : Bool :=
  match s.phase i with
  | .saving existing _ =>
      s.row.isNone || StillStored existing (P.readRecord s.row) (request i)
  | .inserting existing _ => StillStored existing (P.readRecord s.row) (request i)
  | _ => true

/-- What a request with these entries goes by, when it has got so far and the row is at this
revision. -/
def Phase.Sound (P : Platform) (input : List EntryInput) (current : ℕ) : Phase → Prop
  | .saving existing entries | .inserting existing entries =>
      isValidInput input = true ∧ P.resolve existing input = some entries ∧
        (existing.map Row.revision).getD 0 ≤ current
  | .saved existing revision changed =>
      changed = true → (existing.map Row.revision).getD 0 < revision
  | .answered changed restarts => changed = true → restarts = true
  | _ => True

/-- The requests have gone by what they have read, and the row is the one that the saves leave
in their order. -/
structure Ordered (start : Option Row) (s : State ι) : Prop where
  sound : ∀ i, (s.phase i).Sound P (request i) s.revision
  nodup : s.order.Nodup
  mem_order : ∀ i, i ∈ s.order ↔ (s.phase i).IsAccepted
  serial : (s.order.map request).foldlM P.serve start = some s.row

variable {P request}

omit [DecidableEq ι] in
theorem Phase.Sound.mono {i : ι} {current later : ℕ} {phase : Phase}
    (hsound : phase.Sound P (request i) current) (hle : current ≤ later) :
    phase.Sound P (request i) later := by
  cases phase with
  | saving existing entries => exact ⟨hsound.1, hsound.2.1, hsound.2.2.trans hle⟩
  | inserting existing entries => exact ⟨hsound.1, hsound.2.1, hsound.2.2.trans hle⟩
  | saved existing revision changed => exact hsound
  | answered changed restarts => exact hsound
  | _ => trivial

@[simp]
theorem State.move_self (s : State ι) (i : ι) (phase : Phase) :
    (s.move i phase).phase i = phase :=
  Function.update_self ..

theorem State.move_of_ne (s : State ι) {i j : ι} (phase : Phase) (hij : j ≠ i) :
    (s.move i phase).phase j = s.phase j :=
  Function.update_of_ne hij ..

/-- A request goes on without a save. -/
theorem Ordered.move {start : Option Row} {s : State ι} (h : Ordered P request start s) (i : ι)
    {phase : Phase} (hsound : phase.Sound P (request i) s.revision)
    (haccepted : phase.IsAccepted ↔ (s.phase i).IsAccepted) :
    Ordered P request start (s.move i phase) where
  sound := by
    intro j
    by_cases hij : j = i
    · subst hij
      rw [State.move_self]
      exact hsound
    · rw [s.move_of_ne phase hij]
      exact h.sound j
  nodup := h.nodup
  mem_order := by
    intro j
    by_cases hij : j = i
    · subst hij
      rw [State.move_self, haccepted]
      exact h.mem_order j
    · rw [s.move_of_ne phase hij]
      exact h.mem_order j
  serial := h.serial

theorem State.saveEntries_counts (P : Platform) (s : State ι) (i : ι) (existing : Option Row)
    (entries : List Entry) : CountsChange s (s.saveEntries P i existing entries) := by
  rcases P.save_cases s.row entries with hsame | ⟨hrevision, hentries⟩
  · simp [CountsChange, State.entries, State.revision, State.saveEntries, hsame]
  · constructor
    · intro _
      exact hrevision
    · intro heq
      exact absurd heq hentries

omit [DecidableEq ι] in
theorem CountsChange.revision_le {s t : State ι} (h : CountsChange s t) :
    s.revision ≤ t.revision := by
  by_cases hentries : t.entries = s.entries
  · exact (h.2 hentries).ge
  · exact (h.1 hentries) ▸ Nat.le_succ _

/-- A save that finds the values it keeps still stored serves the request on the row it
finds. -/
theorem Ordered.saveEntries {start : Option Row} {s : State ι} (h : Ordered P request start s)
    {i : ι} {existing : Option Row} {entries : List Entry}
    (hphase : (s.phase i).Sound P (request i) s.revision →
      isValidInput (request i) = true ∧ P.resolve existing (request i) = some entries ∧
        (existing.map Row.revision).getD 0 ≤ s.revision)
    (hopen : ¬ (s.phase i).IsAccepted)
    (hkeeps : StillStored existing (P.readRecord s.row) (request i) = true) :
    Ordered P request start (s.saveEntries P i existing entries) := by
  obtain ⟨hvalid, hresolve, hrevision⟩ := hphase (h.sound i)
  have hcounts := s.saveEntries_counts P i existing entries
  have hcurrent : P.resolve (P.readRecord s.row) (request i) = some entries := by
    rw [P.resolve_congr, hresolve]
    intro entry hmem hvalue
    simpa [hvalue] using List.all_eq_true.mp hkeeps entry hmem
  have hserve : P.serve s.row (request i) = some (some (P.save s.row entries)) := by
    simp [Platform.serve, hvalid, hcurrent]
  have hnew : i ∉ s.order := fun hmem => hopen ((h.mem_order i).mp hmem)
  constructor
  · intro j
    by_cases hij : j = i
    · subst hij
      simp only [State.saveEntries, Function.update_self, Phase.Sound, decide_eq_true_eq]
      intro hchanged
      rcases P.save_cases s.row entries with hsame | ⟨hraised, _⟩
      · exact absurd hsame hchanged
      · rw [hraised]
        exact Nat.lt_succ_of_le hrevision
    · have hsound := (h.sound j).mono hcounts.revision_le
      simpa only [State.saveEntries, Function.update_of_ne hij] using hsound
  · simp only [State.saveEntries]
    exact h.nodup.append (List.nodup_singleton i) (by simpa using hnew)
  · intro j
    by_cases hij : j = i
    · subst hij
      simp [State.saveEntries, Phase.IsAccepted]
    · simpa [State.saveEntries, hij] using h.mem_order j
  · simp [State.saveEntries, List.foldlM_append, h.serial, hserve]

/-- Each step of a request keeps the order, where its save finds the values it keeps still
stored. -/
theorem Ordered.step {start : Option Row} {s t : State ι} {i : ι}
    (h : Ordered P request start s) (hkeeps : KeepsStored P request s i = true)
    (hstep : step P request s i = some t) : Ordered P request start t := by
  have hsound := h.sound i
  unfold SharedEnvironment.step at hstep
  unfold KeepsStored at hkeeps
  cases hphase : s.phase i with
  | received =>
      rw [hphase] at hstep
      dsimp only at hstep
      split at hstep
      · next hvalid =>
          split at hstep <;> cases hstep
          · exact h.move i trivial (by simp [hphase, Phase.IsAccepted])
          · next entries hresolve =>
              refine h.move i ⟨hvalid, hresolve, ?_⟩ (by simp [hphase, Phase.IsAccepted])
              cases hrow : s.row <;> simp [Platform.readRecord, State.revision, hrow]
      · cases hstep
        exact h.move i trivial (by simp [hphase, Phase.IsAccepted])
  | saving existing entries =>
      rw [hphase] at hstep hkeeps hsound
      cases hrow : s.row with
      | none =>
          simp only [hrow] at hstep
          cases hstep
          exact h.move i hsound (by simp [hphase, Phase.IsAccepted])
      | some row =>
          simp only [hrow] at hstep
          cases hstep
          apply h.saveEntries
          · intro _
            exact hsound
          · simp [hphase, Phase.IsAccepted]
          · simpa [hrow] using hkeeps
  | inserting existing entries =>
      rw [hphase] at hstep hkeeps hsound
      cases hstep
      apply h.saveEntries
      · intro _
        exact hsound
      · simp [hphase, Phase.IsAccepted]
      · exact hkeeps
  | saved existing revision changed =>
      rw [hphase] at hstep hsound
      cases hstep
      refine h.move i ?_ (by simp [hphase, Phase.IsAccepted])
      intro hchanged
      simpa using (hsound hchanged).ne'
  | rejected =>
      rw [hphase] at hstep
      cases hstep
  | answered changed restarts =>
      rw [hphase] at hstep
      cases hstep

/-- The revision counts the changes, in every step. -/
theorem step_countsChange {s t : State ι} {i : ι} (hstep : step P request s i = some t) :
    CountsChange s t := by
  have hmove : ∀ phase, CountsChange s (s.move i phase) := by
    intro phase
    exact ⟨fun hchanged => absurd rfl hchanged, fun _ => rfl⟩
  unfold SharedEnvironment.step at hstep
  cases hphase : s.phase i with
  | received =>
      rw [hphase] at hstep
      dsimp only at hstep
      split at hstep
      · split at hstep <;> cases hstep
        · exact hmove _
        · exact hmove _
      · cases hstep
        exact hmove _
  | saving existing entries =>
      rw [hphase] at hstep
      cases hrow : s.row with
      | none =>
          simp only [hrow] at hstep
          cases hstep
          exact hmove _
      | some row =>
          simp only [hrow] at hstep
          cases hstep
          exact s.saveEntries_counts P i existing entries
  | inserting existing entries =>
      rw [hphase] at hstep
      cases hstep
      exact s.saveEntries_counts P i existing entries
  | saved existing revision changed =>
      rw [hphase] at hstep
      cases hstep
      exact hmove _
  | rejected =>
      rw [hphase] at hstep
      cases hstep
  | answered changed restarts =>
      rw [hphase] at hstep
      cases hstep

theorem ordered_of_init {s : State ι} (hinit : (machine P request).init s) :
    Ordered P request s.row s where
  sound i := by
    rw [hinit.1 i]
    trivial
  nodup := by simp [hinit.2]
  mem_order i := by simp [hinit.1 i, hinit.2, Phase.IsAccepted]
  serial := by simp [hinit.2]

end Runs

/-- In every run of any number of requests in which each save finds the values it keeps still
stored, the row is what the accepted requests leave one after the other; each step raises the
revision by one exactly when it changes the stored entries; and every request that has changed
them enqueues the restarts. -/
theorem edits_serialize {ι : Type*} [DecidableEq ι] (P : Platform)
    (request : ι → List EntryInput) {s t : State ι} {steps : List ι}
    (hinit : (machine P request).init s) (hrun : (machine P request).exec s steps = some t)
    (hkeeps : (machine P request).Meets (fun s i => KeepsStored P request s i = true) s steps) :
    Serialized P request s.row t ∧
      (∀ i u, (machine P request).step t i = some u → CountsChange t u) ∧
      RestartsEnqueued t := by
  have hordered : Ordered P request s.row t :=
    (machine P request).exec_invariant
      (fun _ _ _ h hkeeps hstep => h.step hkeeps hstep) (ordered_of_init hinit) hkeeps hrun
  refine ⟨⟨t.order, hordered.nodup, hordered.mem_order, hordered.serial⟩, ?_, ?_⟩
  · intro i u hstep
    exact step_countsChange hstep
  · intro i restarts hanswered
    have hsound := hordered.sound i
    rw [hanswered] at hsound
    exact hsound rfl

/-! ## Two requests -/

/-- A platform whose ciphers can be read. -/
def samplePlatform : Platform where
  encryptSecretValue iv value := iv ++ value
  localeLe left right := left ≤ right
  localeLe_total a b := by simpa using String.le_total a b
  localeLe_trans a b c hab hbc := by
    simp only [decide_eq_true_eq] at hab hbc ⊢
    exact String.le_trans hab hbc

/-- Two requests, neither of which has begun, and a stored key. -/
def twoRequests : State Bool where
  row := some { revision := 1, entries := [⟨"API_KEY", .secret, "old"⟩] }
  phase _ := .received
  order := []

/-- One request keeps the key and adds a variable; the other brings what is given. -/
def keepsKey (other : List EntryInput) : Bool → List EntryInput
  | false => [⟨"API_KEY", .secret, none, ""⟩, ⟨"LOG_LEVEL", .plainVariable, some "debug", "1:"⟩]
  | true => other

/-- Both requests read the record before either of them saves. -/
def bothRead : List Bool := [false, true, true, true, false, false]

/-- The other request only takes the variable out again, and both keep the key. -/
theorem edits_serialize_bothKeep :
    ∃ t, (machine samplePlatform (keepsKey [⟨"API_KEY", .secret, none, ""⟩])).exec twoRequests
        bothRead = some t ∧
      Serialized samplePlatform (keepsKey [⟨"API_KEY", .secret, none, ""⟩]) twoRequests.row t ∧
      t.revision = 2 := by
  have hinit : (machine samplePlatform (keepsKey [⟨"API_KEY", .secret, none, ""⟩])).init
      twoRequests := ⟨fun _ => rfl, rfl⟩
  have hkeeps : (machine samplePlatform (keepsKey [⟨"API_KEY", .secret, none, ""⟩])).Meets
      (fun s i => KeepsStored samplePlatform (keepsKey [⟨"API_KEY", .secret, none, ""⟩]) s i = true)
      twoRequests bothRead := by
    decide
  refine ⟨_, rfl, ?_, rfl⟩
  exact (edits_serialize samplePlatform _ hinit rfl hkeeps).1

/-- The other request brings a new key. The first one, which has read the old key, then puts the
old key back. -/
theorem stale_edit_undoes_rotation :
    ¬ ∀ (ι : Type) [DecidableEq ι] (P : Platform) (request : ι → List EntryInput)
      (s t : State ι) (steps : List ι), (machine P request).init s →
        (machine P request).exec s steps = some t → Serialized P request s.row t := by
  intro hall
  obtain ⟨order, hnodup, hmem, hserial⟩ := hall Bool samplePlatform
    (keepsKey [⟨"API_KEY", .secret, some "new", "2:"⟩]) twoRequests _ bothRead
    ⟨fun _ => rfl, rfl⟩ rfl
  have hfalse : false ∈ order := (hmem false).mpr trivial
  have htrue : true ∈ order := (hmem true).mpr trivial
  match order, hnodup, hfalse, htrue, hserial with
  | [false, true], _, _, _, hserial => exact absurd hserial (by decide)
  | [true, false], _, _, _, hserial => exact absurd hserial (by decide)
  | [a], _, hfalse, htrue, _ => simp_all
  | a :: b :: c :: rest, hnodup, _, _, _ =>
      simp only [List.nodup_cons, List.mem_cons, not_or] at hnodup
      cases a <;> cases b <;> cases c <;> simp_all

end Eveland.SharedEnvironment
