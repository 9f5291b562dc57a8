/-
# Logins and refreshes of one credential

Any number of readers take a credential, ask the provider to refresh it and come back with a
rotation that carries the rotation sequence they have read; logins and removals fall in between.
A login restarts the sequence. So a rotation is fenced against the rotations of the same login,
and not against a later login whose own rotations have brought the sequence back to the number
that was read. The module says when every rotation that goes through replaces the very credential
it was derived from.
-/

import Mathlib.Logic.Function.Basic
import Eveland.Foundations.Machine
import Eveland.Foundations.Slots
import Eveland.Store.IdentityStore

namespace Eveland.IdentityStore

open Slots

/-! ## The system -/

/-- What a reader has taken: the row, and which version of the slot it was. -/
structure Reading where
  row : OidcCredential
  version : Version

/-- The store, with the history of each credential and what each reader has taken last. -/
structure Tracked where
  store : Store
  slots : CredentialKey → Slot
  readings : ℕ → Option Reading

/-- One call, or one change to the principals and connections. A rotation carries what its reader
has taken. -/
inductive Action
  | put (key : CredentialKey) (tokens : OidcTokens) (now : ℤ)
  | read (reader : ℕ) (key : CredentialKey)
  | rotate (reader : ℕ) (tokens : OidcTokens) (now : ℤ)
  | deletePrincipal (id : String)
  | deleteConnection (id : String)
  | addPrincipal (id : String)
  | addConnection (id : String)

/-- The rotation that a reader asks for goes through. -/
def Tracked.rotates (s : Tracked) (reading : Reading) : Bool :=
  (getIdentityOidcCredential s.store reading.row.key).any fun row =>
    row.rotationSeq = reading.row.rotationSeq

/-- One call. A login that violates a foreign key changes nothing. -/
def step (s : Tracked) : Action → Option Tracked
  | .put key tokens now =>
      match putIdentityOidcCredential s.store key tokens now with
      | .ok store =>
          some { s with store, slots := Function.update s.slots key (s.slots key).restart }
      | .error _ => some s
  | .read reader key =>
      (getIdentityOidcCredential s.store key).bind fun row =>
        (s.slots key).current.map fun version =>
          { s with readings := Function.update s.readings reader (some ⟨row, version⟩) }
  | .rotate reader tokens now =>
      (s.readings reader).map fun reading =>
        { s with
          store := (rotateIdentityOidcCredential s.store reading.row.key reading.row.rotationSeq
            tokens now).1
          slots :=
            if s.rotates reading then
              Function.update s.slots reading.row.key (s.slots reading.row.key).raise
            else s.slots }
  | .deletePrincipal id =>
      some { s with
        store := IdentityStore.deletePrincipal s.store id
        slots := fun key => if key.1 = id then (s.slots key).clear else s.slots key }
  | .deleteConnection id =>
      some { s with
        store := IdentityStore.deleteConnection s.store id
        slots := fun key => if key.2 = id then (s.slots key).clear else s.slots key }
  | .addPrincipal id => some { s with store.principals := s.store.principals ++ [id] }
  | .addConnection id => some { s with store.connections := s.store.connections ++ [id] }

/-- No credential is stored yet, and nothing was read. -/
def machine : Machine Tracked Action where
  init s := s.store.credentials = [] ∧ (∀ key, s.slots key = Slot.empty) ∧ ∀ n, s.readings n = none
  step := step

/-! ## What a rotation replaces -/

/-- A rotation that goes through replaces the credential that was read. -/
def ReplacesItsOwn (s : Tracked) : Action → Prop
  | .rotate reader _ _ => ∀ reading ∈ s.readings reader, s.rotates reading = true →
      (s.slots reading.row.key).current = some reading.version
  | _ => True

/-- A rotation that was read before the last login of its credential does not come after exactly
as many rotations of that login as the rotation sequence it has read. -/
def CountsApart (s : Tracked) : Action → Prop
  | .rotate reader _ _ => ∀ reading ∈ s.readings reader,
      ∀ held ∈ (s.slots reading.row.key).current,
        reading.version.epoch ≠ held.epoch → held.counter ≠ reading.row.rotationSeq
  | _ => True

/-- The history tells what is stored: each rotation sequence is the count of its slot, and every
reader has taken a version that its slot knows. -/
structure Faithful (s : Tracked) : Prop where
  counted : ∀ key, (getIdentityOidcCredential s.store key).map (fun row => row.rotationSeq) =
    (s.slots key).current.map Version.counter
  sound : ∀ key, (s.slots key).Sound
  known : ∀ n, ∀ reading ∈ s.readings n, (s.slots reading.row.key).Knows reading.version ∧
    reading.version.counter = reading.row.rotationSeq

variable {s t : Tracked}

theorem faithful_init (hinit : machine.init s) : Faithful s where
  counted key := by
    rw [getIdentityOidcCredential, hinit.1, hinit.2.1]
    rfl
  sound key := by
    rw [hinit.2.1]
    exact Slot.empty_sound
  known n reading hreading := by
    rw [hinit.2.2] at hreading
    cases hreading

/-- A rotation goes through where the slot has the count that was read. -/
theorem Faithful.rotates_iff (hfaithful : Faithful s) (reading : Reading) :
    s.rotates reading = true ↔
      ∃ held, (s.slots reading.row.key).current = some held ∧
        held.counter = reading.row.rotationSeq := by
  have hcounted := hfaithful.counted reading.row.key
  rw [Tracked.rotates]
  cases hrow : getIdentityOidcCredential s.store reading.row.key with
  | none =>
      rw [hrow, Option.map_none, eq_comm, Option.map_eq_none_iff] at hcounted
      simp [hcounted]
  | some row =>
      rw [hrow, Option.map_some, eq_comm, Option.map_eq_some_iff] at hcounted
      obtain ⟨held, hheld, hcounter⟩ := hcounted
      simp [hheld, hcounter]

/-- What holds of every slot and of what it knows after a step that changes each slot in one of
the ways a slot can change. -/
theorem Faithful.of_slots (hfaithful : Faithful s)
    (hcounted : ∀ key, (getIdentityOidcCredential t.store key).map (fun row => row.rotationSeq) =
      (t.slots key).current.map Version.counter)
    (hslots : ∀ key, t.slots key = s.slots key ∨ t.slots key = (s.slots key).restart ∨
      t.slots key = (s.slots key).raise ∨ t.slots key = (s.slots key).clear)
    (hreadings : t.readings = s.readings) : Faithful t where
  counted := hcounted
  sound key := by
    rcases hslots key with heq | heq | heq | heq <;> rw [heq]
    · exact hfaithful.sound key
    · exact Slot.Sound.restart
    · exact (hfaithful.sound key).raise
    · exact Slot.Sound.clear
  known n reading hreading := by
    rw [hreadings] at hreading
    obtain ⟨hknows, hcounter⟩ := hfaithful.known n reading hreading
    refine ⟨?_, hcounter⟩
    rcases hslots reading.row.key with heq | heq | heq | heq <;> rw [heq]
    · exact hknows
    · exact hknows.restart
    · exact hknows.raise
    · exact hknows.clear

/-- Every step keeps the history true. -/
theorem faithful_step {a : Action} (hfaithful : Faithful s) (hstep : step s a = some t) :
    Faithful t := by
  cases a with
  | put key tokens now =>
      rw [step] at hstep
      split at hstep
      · next store hput =>
          cases hstep
          obtain ⟨hput, hothers⟩ := putIdentityOidcCredential_get hput
          refine hfaithful.of_slots ?_ ?_ rfl
          · intro other
            by_cases hother : other = key
            · subst hother
              simpa using hput
            · simpa [hother, hothers other hother] using hfaithful.counted other
          · intro other
            by_cases hother : other = key
            · subst hother
              simp
            · simp [hother]
      · cases hstep
        exact hfaithful
  | read reader key =>
      obtain ⟨row, hrow, hread⟩ := Option.bind_eq_some_iff.mp hstep
      obtain ⟨version, hversion, rfl⟩ := Option.map_eq_some_iff.mp hread
      refine ⟨hfaithful.counted, hfaithful.sound, ?_⟩
      intro n reading hreading
      dsimp only at hreading ⊢
      by_cases hn : n = reader
      · subst hn
        rw [Function.update_self] at hreading
        cases hreading
        have hkey := key_of_getIdentityOidcCredential hrow
        refine ⟨hkey ▸ hfaithful.sound key version hversion, ?_⟩
        have hcounted := hfaithful.counted key
        rw [hrow, hversion] at hcounted
        exact (Option.some.inj hcounted).symm
      · rw [Function.update_of_ne hn] at hreading
        exact hfaithful.known n reading hreading
  | rotate reader tokens now =>
      obtain ⟨reading, hreading, rfl⟩ := Option.map_eq_some_iff.mp hstep
      have hrotates := hfaithful.rotates_iff reading
      refine hfaithful.of_slots ?_ ?_ rfl
      · intro other
        rw [rotateIdentityOidcCredential_get]
        have hcounted := hfaithful.counted other
        by_cases hother : other = reading.row.key
        · subst hother
          cases hrow : getIdentityOidcCredential s.store reading.row.key with
          | none =>
              have hstays : s.rotates reading = false := by simp [Tracked.rotates, hrow]
              rw [hrow, Option.map_none, eq_comm, Option.map_eq_none_iff] at hcounted
              simp [hstays, hcounted]
          | some row =>
              have hkey := key_of_getIdentityOidcCredential hrow
              rw [hrow, Option.map_some, eq_comm, Option.map_eq_some_iff] at hcounted
              obtain ⟨held, hheld, hcounter⟩ := hcounted
              by_cases hsame : row.rotationSeq = reading.row.rotationSeq
              · have hgoes : s.rotates reading = true :=
                  hrotates.mpr ⟨held, hheld, hcounter.trans hsame⟩
                simp [hgoes, hheld, hkey, hsame, hcounter, OidcCredential.hold]
              · have hstays : s.rotates reading = false := by
                  simp [Tracked.rotates, hrow, hsame]
                simp [hstays, hheld, hsame, hcounter]
        · have hslot : (if s.rotates reading then
              Function.update s.slots reading.row.key (s.slots reading.row.key).raise
            else s.slots) other = s.slots other := by
            split
            · exact Function.update_of_ne hother _ _
            · rfl
          dsimp only
          rw [hslot, ← hcounted]
          cases hrow : getIdentityOidcCredential s.store other with
          | none => rfl
          | some row =>
              have hkey := key_of_getIdentityOidcCredential hrow
              simp [hkey, hother]
      · intro other
        dsimp only
        split
        · by_cases hother : other = reading.row.key
          · subst hother
            simp
          · simp [hother]
        · exact Or.inl rfl
  | deletePrincipal id =>
      cases hstep
      refine hfaithful.of_slots ?_ ?_ rfl
      · intro key
        dsimp only
        rw [deletePrincipal_get]
        split
        · rfl
        · exact hfaithful.counted key
      · intro key
        dsimp only
        split <;> simp
  | deleteConnection id =>
      cases hstep
      refine hfaithful.of_slots ?_ ?_ rfl
      · intro key
        dsimp only
        rw [deleteConnection_get]
        split
        · rfl
        · exact hfaithful.counted key
      · intro key
        dsimp only
        split <;> simp
  | addPrincipal id =>
      cases hstep
      exact hfaithful.of_slots hfaithful.counted (fun key => Or.inl rfl) rfl
  | addConnection id =>
      cases hstep
      exact hfaithful.of_slots hfaithful.counted (fun key => Or.inl rfl) rfl

/-- One rotation replaces its own credential where its reading is not out of date by a login. -/
theorem replacesItsOwn_iff_countsApart (hfaithful : Faithful s) (a : Action) :
    ReplacesItsOwn s a ↔ CountsApart s a := by
  cases a with
  | rotate reader tokens now =>
      constructor
      · intro hown reading hreading held hheld hepoch hcounter
        have hgoes := (hfaithful.rotates_iff reading).mpr ⟨held, hheld, hcounter⟩
        have hsame := hown reading hreading hgoes
        rw [hheld] at hsame
        cases hsame
        exact hepoch rfl
      · intro hout reading hreading hgoes
        obtain ⟨held, hheld, hcounter⟩ := (hfaithful.rotates_iff reading).mp hgoes
        obtain ⟨hknows, hread⟩ := hfaithful.known reader reading hreading
        by_cases hepoch : held.epoch = reading.version.epoch
        · rw [hheld, hknows.eq_of_counter hheld hepoch (hcounter.trans hread.symm)]
        · exact absurd hcounter (hout reading hreading held hheld (Ne.symm hepoch))
  | _ => exact Iff.rfl

/-- **Rotations.** In a run of logins, reads, rotations and removals every rotation that goes
through replaces the very credential it was derived from, if and only if no rotation that was
read before the last login comes after exactly as many rotations of that login as the rotation
sequence it carries. -/
theorem rotations_replace_own_iff {actions : List Action} (hinit : machine.init s)
    (hrun : machine.exec s actions = some t) :
    machine.Meets ReplacesItsOwn s actions ↔ machine.Meets CountsApart s actions :=
  machine.meets_congr (fun _ _ _ => faithful_step)
    (fun _ a _ hfaithful _ => replacesItsOwn_iff_countsApart hfaithful a) (faithful_init hinit) hrun

/-- A user and a connection, before the first login. -/
def sampleTracked : Tracked where
  store := { principals := ["user"], connections := ["provider"], credentials := [] }
  slots _ := Slot.empty
  readings _ := none

def sampleTokens (name : String) : OidcTokens where
  accessTokenEncrypted := "access-" ++ name
  refreshTokenEncrypted := some ("refresh-" ++ name)
  scope := "openid"
  accessTokenExpiresAt := none

theorem sampleTracked_init : machine.init sampleTracked :=
  ⟨rfl, fun _ => rfl, fun _ => rfl⟩

/-- Two readers refresh one login: the first rotation goes through and the second does not. -/
theorem rotations_replace_own_iff_twoReaders :
    machine.Meets ReplacesItsOwn sampleTracked
      [.put ("user", "provider") (sampleTokens "login") 1, .read 0 ("user", "provider"),
        .read 1 ("user", "provider"), .rotate 0 (sampleTokens "first") 2,
        .rotate 1 (sampleTokens "second") 3] := by
  refine (rotations_replace_own_iff sampleTracked_init rfl).mpr ?_
  refine ⟨trivial, fun _ h₁ => ⟨trivial, fun _ h₂ => ⟨trivial, fun _ h₃ => ⟨?_, fun _ h₄ => ⟨?_,
    fun _ _ => trivial⟩⟩⟩⟩⟩
  all_goals
    cases h₁
    cases h₂
    cases h₃
  · intro reading hreading held hheld hepoch
    cases hreading
    cases hheld
    exact absurd rfl hepoch
  · cases h₄
    intro reading hreading held hheld hepoch
    cases hreading
    cases hheld
    exact absurd rfl hepoch

/-- A reader takes the first login, the user logs in again, and the rotation replaces the tokens
of the second login. -/
theorem rotation_replaces_newer_login :
    ¬∀ (s t : Tracked) (actions : List Action), machine.init s →
      machine.exec s actions = some t → machine.Meets ReplacesItsOwn s actions := by
  intro hall
  have hmeets := hall sampleTracked _
    [.put ("user", "provider") (sampleTokens "old") 1, .read 0 ("user", "provider"),
      .put ("user", "provider") (sampleTokens "new") 2, .rotate 0 (sampleTokens "stale") 3]
    sampleTracked_init rfl
  have hrotate := (((hmeets.2 _ rfl).2 _ rfl).2 _ rfl).1 _ rfl (by decide)
  revert hrotate
  decide

end Eveland.IdentityStore
