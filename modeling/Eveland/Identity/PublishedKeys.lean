/-
# Published keys

Keys are retired and never removed, and a retiring key is published until it expires. So a token
verifies until its own end exactly where the key that signs it does not expire before the token
does. Signing asks no more of a key than that it is valid at the time, so near a key's end, and
for a lifetime of more than ninety days, it does.
-/

import Mathlib.Algebra.GroupWithZero.Nat
import Mathlib.Tactic.Common
import Eveland.Identity.SigningKeys

namespace Eveland.SigningKeys

open Table

/-! ## Keys -/

theorem mem_getJwks {keys : List SigningKey} {time : ℤ} {kid : String} :
    kid ∈ getJwks keys time ↔ ∃ key ∈ keys, key.isPublished time = true ∧ key.id = kid := by
  simp [getJwks, and_assoc]

theorem isPublished_iff {key : SigningKey} {time : ℤ} :
    key.isPublished time = true ↔
      (key.status = .active ∨ key.status = .retiring) ∧ time < key.expiresAt := by
  simp [SigningKey.isPublished]

theorem WellKeyed.countP_le_one {keys : List SigningKey} (h : WellKeyed keys) :
    keys.countP SigningKey.isActive ≤ 1 := by
  apply h.ids.countP_le_one
  intro first hfirst second hsecond hactive hactive'
  exact h.oneActive first hfirst second hsecond (by simp [bothActive, hactive, hactive'])

/-- The table holds the key, and has not retired it for good. -/
def Held (keys : List SigningKey) (key : SigningKey) : Prop :=
  ∃ row ∈ keys, row.id = key.id ∧ row.expiresAt = key.expiresAt ∧
    (row.status = .active ∨ row.status = .retiring)

theorem Held.mem_getJwks_iff {keys : List SigningKey} {key : SigningKey} (h : Held keys key)
    (hids : UniqueOn SigningKey.id keys) (time : ℤ) :
    key.id ∈ getJwks keys time ↔ time < key.expiresAt := by
  obtain ⟨row, hrow, hid, hexpires, hstatus⟩ := h
  rw [mem_getJwks, ← hexpires]
  constructor
  · rintro ⟨other, hother, hpublished, hsame⟩
    obtain rfl := hids.eq hother hrow (hsame.trans hid.symm)
    exact (isPublished_iff.mp hpublished).2
  · intro htime
    exact ⟨row, hrow, isPublished_iff.mpr ⟨hstatus, htime⟩, hid⟩

section Commits

variable {ι : Type*}

/-! ## What a commit keeps -/

/-- A row of the table after a commit, for each that was there. -/
theorem State.commitKey_row (s : State ι) (retired : Option String) (key : SigningKey)
    {row : SigningKey} (hrow : row ∈ s.keys) :
    ∃ later ∈ (s.commitKey retired key).keys, later.id = row.id ∧
      later.expiresAt = row.expiresAt ∧
      (row.status = .active ∨ row.status = .retiring →
        later.status = .active ∨ later.status = .retiring) := by
  by_cases hretired : some row.id = retired
  · refine ⟨{ row with status := .retiring }, ?_, rfl, rfl, fun _ => Or.inr rfl⟩
    apply List.mem_append_left
    exact mem_updateWhere.mpr (Or.inr ⟨row, hrow, by simpa using hretired, rfl⟩)
  · refine ⟨row, ?_, rfl, rfl, id⟩
    apply List.mem_append_left
    exact mem_updateWhere_of_not hrow (by simpa using hretired)

theorem Held.commitKey {s : State ι} {held : SigningKey} (h : Held s.keys held)
    (retired : Option String) (key : SigningKey) : Held (s.commitKey retired key).keys held := by
  obtain ⟨row, hrow, hid, hexpires, hstatus⟩ := h
  obtain ⟨later, hlater, hid', hexpires', hstatus'⟩ := s.commitKey_row retired key hrow
  exact ⟨later, hlater, hid'.trans hid, hexpires'.trans hexpires, hstatus' hstatus⟩

/-- What is published stays published until it expires. -/
theorem State.commitKey_getJwks (s : State ι) (retired : Option String) (key : SigningKey)
    {kid : String} {time : ℤ} (hkid : kid ∈ getJwks s.keys time) :
    kid ∈ getJwks (s.commitKey retired key).keys time := by
  obtain ⟨row, hrow, hpublished, rfl⟩ := mem_getJwks.mp hkid
  obtain ⟨hstatus, htime⟩ := isPublished_iff.mp hpublished
  obtain ⟨later, hlater, hid, hexpires, hstatus'⟩ := s.commitKey_row retired key hrow
  exact mem_getJwks.mpr
    ⟨later, hlater, isPublished_iff.mpr ⟨hstatus' hstatus, hexpires ▸ htime⟩, hid⟩

/-- A key is inserted where its id is new, and no other row is active than the one that is
retired. -/
theorem WellKeyed.commitKey {s : State ι} (h : WellKeyed s.keys) {retired : Option String}
    {key : SigningKey}
    (hfree : ∀ row ∈ s.keys, row.id ≠ key.id ∧ (row.isActive = true → some row.id = retired)) :
    WellKeyed (s.commitKey retired key).keys := by
  have hids : UniqueOn SigningKey.id
      (updateWhere (fun row => some row.id = retired)
        (fun row => { row with status := .retiring }) s.keys) :=
    h.ids.updateWhere fun _ => rfl
  -- No row is active any more when the new one is inserted.
  have hidle : ∀ row ∈ updateWhere (fun row => some row.id = retired)
      (fun row => { row with status := .retiring }) s.keys,
      row.id ≠ key.id ∧ row.isActive = false := by
    intro row hrow
    rcases mem_updateWhere.mp hrow with ⟨hold, hnot⟩ | ⟨old, hold, _, rfl⟩
    · refine ⟨(hfree row hold).1, ?_⟩
      cases hactive : row.isActive with
      | false => rfl
      | true => simp [(hfree row hold).2 hactive] at hnot
    · exact ⟨(hfree old hold).1, rfl⟩
  constructor
  · exact hids.append fun row hrow => (hidle row hrow).1
  · intro row hrow other hother hboth
    simp only [bothActive, Bool.and_eq_true] at hboth
    rcases List.mem_append.mp hrow with hrow | hrow
    · rw [(hidle row hrow).2] at hboth
      cases hboth.1
    · rcases List.mem_append.mp hother with hother | hother
      · rw [(hidle other hother).2] at hboth
        cases hboth.2
      · rw [List.mem_singleton.mp hrow, List.mem_singleton.mp hother]

end Commits

section Runs

variable {ι : Type*} [DecidableEq ι] {request : ι → TokenRequest}

/-! ## Steps -/

/-- The table is under its constraints, and holds the keys that requests are about to sign
with. -/
structure Inv (s : State ι) : Prop where
  keys : WellKeyed s.keys
  held : ∀ i exp key, s.phase i = .signing exp key → Held s.keys key

/-- The key is chosen when no request signs with another one. -/
theorem Inv.move {s : State ι} (h : Inv s) (i : ι) {phase : Phase}
    (hheld : ∀ exp key, phase = .signing exp key → Held s.keys key) : Inv (s.move i phase) where
  keys := h.keys
  held j exp key hsigning := by
    by_cases hij : j = i
    · subst hij
      exact hheld exp key ((Function.update_self ..).symm.trans hsigning)
    · exact h.held j exp key ((Function.update_of_ne hij ..).symm.trans hsigning)

omit [DecidableEq ι] in
theorem Inv.commitKey {s : State ι} (h : Inv s) {retired : Option String} {key : SigningKey}
    (hfree : ∀ row ∈ s.keys, row.id ≠ key.id ∧ (row.isActive = true → some row.id = retired)) :
    Inv (s.commitKey retired key) where
  keys := h.keys.commitKey hfree
  held i exp held hsigning := (h.held i exp held hsigning).commitKey retired key

/-- The active key that is found is held. -/
theorem held_of_active {keys : List SigningKey} {now : ℤ} {key : SigningKey}
    (hfound : getActiveIdentitySigningKey keys now = some key) : Held keys key := by
  have hactive := List.find?_some hfound
  simp only [SigningKey.isActive, Bool.and_eq_true, decide_eq_true_eq] at hactive
  exact ⟨key, List.mem_of_find?_eq_some hfound, rfl, rfl, Or.inl hactive.1.1⟩

/-- What a step is to the keys and the tokens: nothing, a commit, or the issue of a token with a
held key. -/
inductive Effect (s t : State ι) (a : Action ι) : Prop
  | silent (hkeys : t.keys = s.keys) (htokens : t.tokens = s.tokens)
      (hopen : ∀ i id exp key, a = .next i id → s.phase i ≠ .signing exp key)
  | commit (retired : Option String) (key : SigningKey)
      (hkeys : t.keys = (s.commitKey retired key).keys) (htokens : t.tokens = s.tokens)
      (hopen : ∀ i id exp key, a = .next i id → s.phase i ≠ .signing exp key)
  | issue (i : ι) (id : String) (exp : ℤ) (key : SigningKey) (haction : a = .next i id)
      (hphase : s.phase i = .signing exp key) (hkeys : t.keys = s.keys)
      (htokens : t.tokens = { kid := key.id, issuedAt := s.clock, exp } :: s.tokens)

theorem next_spec {s t : State ι} {i : ι} {id : String} (h : Inv s)
    (hnext : next request s i id = some t) : Inv t ∧ Effect s t (.next i id) := by
  -- A step that is no signature reads a phase that is none.
  have hopen : ∀ {phase : Phase}, s.phase i = phase → (∀ exp key, phase ≠ .signing exp key) →
      ∀ j id' exp key, Action.next i id = .next j id' → s.phase j ≠ .signing exp key := by
    intro phase hphase hnot j id' exp key haction
    obtain ⟨rfl, _⟩ := Action.next.inj haction
    rw [hphase]
    exact hnot exp key
  have hmove : ∀ {phase phase' : Phase}, s.phase i = phase →
      (∀ exp key, phase ≠ .signing exp key) →
      (∀ exp key, phase' = .signing exp key → Held s.keys key) →
      Inv (s.move i phase') ∧ Effect s (s.move i phase') (.next i id) := by
    intro phase phase' hphase hnot hheld
    exact ⟨h.move i hheld, .silent rfl rfl (hopen hphase hnot)⟩
  unfold next at hnext
  cases hphase : s.phase i with
  | waiting =>
      rw [hphase] at hnext
      cases hnext
      exact hmove hphase (by simp) (by simp)
  | selecting exp =>
      rw [hphase] at hnext
      dsimp only at hnext
      split at hnext <;> cases hnext
      · next key hfound =>
          refine hmove hphase (by simp) ?_
          intro exp' key' heq
          obtain ⟨_, rfl⟩ := Phase.signing.inj heq
          exact held_of_active hfound
      · exact hmove hphase (by simp) (by simp)
  | creating exp current =>
      rw [hphase] at hnext
      cases hnext
      exact hmove hphase (by simp) (by simp)
  | updating exp current found =>
      rw [hphase] at hnext
      cases found with
      | none =>
          cases hnext
          exact hmove hphase (by simp) (by simp)
      | some found =>
          dsimp only at hnext
          split at hnext
          · cases hnext
          · have hlocked : Inv (s.move i (.inserting exp current (some found))) :=
              h.move i (by simp)
            split at hnext <;> cases hnext
            · exact ⟨⟨hlocked.keys, hlocked.held⟩, .silent rfl rfl (hopen hphase (by simp))⟩
            · exact hmove hphase (by simp) (by simp)
  | inserting exp current retired =>
      rw [hphase] at hnext
      dsimp only at hnext
      split at hnext
      · cases hnext
        have hfailed : Inv (s.move i .failed) := h.move i (by simp)
        exact ⟨⟨hfailed.keys, hfailed.held⟩, .silent rfl rfl (hopen hphase (by simp))⟩
      · next hfree =>
          cases hnext
          have hcommitted : Inv (s.commitKey retired (newSigningKey id current)) := by
            apply h.commitKey
            intro row hrow
            have hnot := List.any_eq_false.mp (Bool.eq_false_iff.mpr hfree) row hrow
            simp only [Bool.or_eq_true, decide_eq_true_eq, Bool.and_eq_true, not_or, not_and,
              ne_eq, not_not] at hnot
            exact hnot
          have hmoved : Inv ((s.commitKey retired (newSigningKey id current)).move i
              (.signing exp (newSigningKey id current))) := by
            apply hcommitted.move i
            intro exp' key heq
            obtain ⟨_, rfl⟩ := Phase.signing.inj heq
            exact ⟨_, List.mem_append_right _ List.mem_cons_self, rfl, rfl, Or.inl rfl⟩
          exact ⟨⟨hmoved.keys, hmoved.held⟩,
            .commit retired (newSigningKey id current) rfl rfl (hopen hphase (by simp))⟩
  | signing exp key =>
      rw [hphase] at hnext
      cases hnext
      have hissued : Inv (s.move i .issued) := h.move i (by simp)
      exact ⟨⟨hissued.keys, hissued.held⟩, .issue i id exp key rfl hphase rfl rfl⟩
  | issued =>
      rw [hphase] at hnext
      cases hnext
  | failed =>
      rw [hphase] at hnext
      cases hnext

theorem step_spec {s t : State ι} {a : Action ι} (h : Inv s) (hstep : step request s a = some t) :
    Inv t ∧ Effect s t a := by
  cases a with
  | next i id => exact next_spec h hstep
  | fail i =>
      have hfailed : Inv ((s.move i .failed).unlock i) := by
        have hmoved : Inv (s.move i .failed) := h.move i (by simp)
        exact ⟨hmoved.keys, hmoved.held⟩
      unfold step at hstep
      dsimp only at hstep
      split at hstep <;> cases hstep
      exact ⟨hfailed, .silent rfl rfl (by simp)⟩
  | pass ms =>
      cases hstep
      exact ⟨⟨h.keys, h.held⟩, .silent rfl rfl (by simp)⟩

/-! ## Tokens -/

/-- The key that a request is about to sign with does not expire before the token does. -/
def KeyOutlivesToken (s : State ι) : Action ι → Bool
  | .next i _ =>
      match s.phase i with
      | .signing exp key => exp ≤ key.expiresAt || exp ≤ s.clock
      | _ => true
  | _ => true

/-- A step leaves every token verifying exactly when the key of the token it issues outlives
it. -/
theorem Verifies.step_iff {s t : State ι} {a : Action ι} (h : Inv s) (hverifies : Verifies s)
    (hstep : step request s a = some t) : Verifies t ↔ KeyOutlivesToken s a = true := by
  obtain ⟨hinv, heffect⟩ := step_spec h hstep
  have hone := hinv.keys.countP_le_one
  have hquiet : (∀ i id exp key, a = .next i id → s.phase i ≠ .signing exp key) →
      KeyOutlivesToken s a = true := by
    intro hopen
    cases a with
    | next i id =>
        unfold KeyOutlivesToken
        dsimp only
        split
        · next exp key hsigning => exact absurd hsigning (hopen i id exp key rfl)
        · rfl
    | _ => rfl
  cases heffect with
  | silent hkeys htokens hopen =>
      refine iff_of_true ⟨?_, hone⟩ (hquiet hopen)
      rw [hkeys, htokens]
      exact hverifies.published
  | commit retired key hkeys htokens hopen =>
      refine iff_of_true ⟨?_, hone⟩ (hquiet hopen)
      rw [hkeys, htokens]
      intro token htoken time hissued hexp
      exact s.commitKey_getJwks retired key (hverifies.published token htoken time hissued hexp)
  | issue i id exp key haction hphase hkeys htokens =>
      subst haction
      have hmem := fun time => (h.held i exp key hphase).mem_getJwks_iff h.keys.ids time
      simp only [KeyOutlivesToken, hphase, Bool.or_eq_true, decide_eq_true_eq]
      constructor
      · intro hlater
        by_cases hspent : exp ≤ s.clock
        · exact Or.inr hspent
        · have hlast := hlater.published ⟨key.id, s.clock, exp⟩
            (by rw [htokens]; exact List.mem_cons_self) (exp - 1) (by dsimp only; omega)
            (by dsimp only; omega)
          rw [hkeys, hmem] at hlast
          exact Or.inl (by omega)
      · intro houtlives
        refine ⟨?_, hone⟩
        rw [hkeys, htokens]
        intro token htoken time hissued hexp
        rcases List.mem_cons.mp htoken with rfl | hold
        · rw [hmem]
          rcases houtlives with hkey | hspent
          · exact Int.lt_of_lt_of_le hexp hkey
          · dsimp only at hissued hexp
            omega
        · exact hverifies.published token hold time hissued hexp

theorem inv_of_init {s : State ι} (hinit : (machine request).init s) : Inv s where
  keys := hinit.1
  held i exp key hsigning := by
    rw [hinit.2.2.1 i] at hsigning
    cases hsigning

theorem verifies_of_init {s : State ι} (hinit : (machine request).init s) : Verifies s where
  published := by simp [hinit.2.2.2]
  oneActive := hinit.1.countP_le_one

end Runs

/-- In a run of any number of requests, every token's key is published from its issue until the
token expires, and one key is active at most, in every state, exactly when no request signs a
token with a key that expires before the token does. -/
theorem tokens_verify_iff {ι : Type*} [DecidableEq ι] (request : ι → TokenRequest) {s t : State ι}
    {actions : List (Action ι)} (hinit : (machine request).init s)
    (hrun : (machine request).exec s actions = some t) :
    (machine request).Always Verifies s actions ↔
      (machine request).Meets (fun s a => KeyOutlivesToken s a = true) s actions :=
  (machine request).always_iff_meets (fun _ _ _ h hstep => (step_spec h hstep).1)
    (fun _ _ _ h hverifies hstep => Verifies.step_iff h hverifies hstep) (inv_of_init hinit)
    (verifies_of_init hinit) hrun

/-! ## Around the end of a key -/

/-- Every request is for a caller token of a minute. -/
def callerRequest {ι : Type} (_ : ι) : TokenRequest :=
  { options := { callerTokenTtl := 60000, openCallerTokenTtl := 1200000, appTokenTtl := 300000 }
    kind := .issueCallerToken }

/-- A key that ends at 100 s, at some time. -/
def endingKey {ι : Type} (clock : ℤ) : State ι where
  clock
  keys := [{ id := "first", status := .active, notBefore := 0, expiresAt := 100000 }]
  locks := []
  phase _ := .waiting
  tokens := []

theorem endingKey_init {ι : Type} [DecidableEq ι] (clock : ℤ) :
    (machine (@callerRequest ι)).init (endingKey clock) := by
  refine ⟨⟨by simp [UniqueOn, endingKey], ?_⟩, rfl, fun _ => rfl, rfl⟩
  intro row hrow other hother _
  rw [List.mem_singleton.mp hrow, List.mem_singleton.mp hother]

/-- After the end of the key two requests create one at the same time. The second finds the
first one's lock, and then its key, and fails; it is made again, and signs with that key. -/
def racingCreators : List (Action ℕ) :=
  [.next 0 "", .next 0 "", .next 1 "", .next 1 "", .next 0 "", .next 1 "", .next 0 "",
    .next 0 "second", .next 1 "", .next 1 "third", .next 0 "", .next 2 "", .next 2 "", .next 2 ""]

theorem tokens_verify_iff_racingCreators :
    (machine callerRequest).Always Verifies (endingKey 100000) racingCreators ∧
      ∃ t, (machine callerRequest).exec (endingKey 100000) racingCreators = some t ∧
        t.tokens.map Token.kid = ["second", "second"] := by
  have houtlives : (machine callerRequest).Meets (fun s a => KeyOutlivesToken s a = true)
      (endingKey 100000) racingCreators := by
    decide
  refine ⟨?_, _, rfl, rfl⟩
  exact (tokens_verify_iff callerRequest (endingKey_init 100000) rfl).mpr houtlives

/-- Ten seconds before its end the key signs a token of a minute. -/
theorem key_ends_before_token :
    ¬ ∀ (s t : State Unit) (actions : List (Action Unit)),
      (machine callerRequest).init s → (machine callerRequest).exec s actions = some t →
        (machine callerRequest).Always Verifies s actions := by
  intro hall
  have halways := hall (endingKey 90000) _ [.next () "", .next () "", .next () ""]
    (endingKey_init 90000) rfl
  have hverifies := halways.of_exec rfl
  have hpublished := hverifies.published ⟨"first", 90000, 150000⟩ (by decide) 120000 (by decide)
    (by decide)
  exact absurd hpublished (by decide)

end Eveland.SigningKeys
