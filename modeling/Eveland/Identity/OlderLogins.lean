/-
# Older logins after a security change

An update revokes the sessions and deletes the credentials that its statements find, and nothing
that is written later is compared with the revision again. So the change ends every older login
as long as no login writes behind its back: none that was checked against the old revision is
still to write when the update commits, and what such logins have stored was there for the
update's statements to find.
-/

import Mathlib.Tactic.Common
import Eveland.Identity.ProviderLogins

namespace Eveland.ProviderLogins

open Table

section Runs

variable {ι : Type*} [DecidableEq ι] {setting : Setting ι}

/-! ## Conditions -/

/-- The statements of the transaction have found every session that can be looked up and every
credential, where the security changes. -/
def Transaction.findsAll (s : State ι) (transaction : Transaction) : Bool :=
  transaction.connection.securityRevision = s.connection.securityRevision ||
    ((s.sessions.all fun row => !row.isActive s.clock ||
      transaction.revoked.contains row.tokenHash) &&
    s.credentials.all fun row => transaction.deleted.contains row.identityPrincipalId)

/-- The condition on a step: a login writes its session and its credential while the connection
is at the revision it was checked against, and an update commits when it has found all. -/
def InTime (s : State ι) : Action ι → Bool
  | .next i _ =>
      match s.phase i with
      | .inserting revision _ _ _ => revision = s.connection.securityRevision
      | .putting revision _ => revision = s.connection.securityRevision
      | .committing => s.transaction.all fun transaction => transaction.2.findsAll s
      | _ => true
  | _ => true

/-- The condition on a step: a call does not accept a session over a change of the revision
since it has looked the session up. -/
def Uncrossed (s : State ι) : Action ι → Bool
  | .next i _ =>
      match s.phase i with
      | .resolving _ atLookup => atLookup = s.connection.securityRevision
      | _ => true
  | _ => true

/-! ## What a run keeps -/

/-- All that can be looked up, is stored and was accepted is of the revision the connection has,
or had at the lookup. -/
structure Current (s : State ι) : Prop where
  sessions : ∀ session ∈ s.sessions, session.isActive s.clock = true →
    session.revision = s.connection.securityRevision
  credentials : ∀ credential ∈ s.credentials,
    credential.revision = s.connection.securityRevision
  accepted : ∀ acceptance ∈ s.accepted, acceptance.atLookup = acceptance.revision
  resolving : ∀ i session atLookup, s.phase i = .resolving session atLookup →
    session.revision = atLookup

omit [DecidableEq ι] in
theorem Current.olderLoginsEnded {s : State ι} (h : Current s) : OlderLoginsEnded s where
  sessions session hmem holder := by
    cases hactive : session.isActive s.clock with
    | false => rfl
    | true =>
        have heq := h.sessions session hmem hactive
        omega
  accepted acceptance hmem := Nat.le_of_eq (h.accepted acceptance hmem)
  credentials _ credential hmem := Nat.le_of_eq (h.credentials credential hmem).symm

omit [DecidableEq ι] in
theorem current_of_initial {s : State ι} (h : Initial s) : Current s where
  sessions := h.sessions
  credentials := h.credentials
  accepted := by simp [h.accepted]
  resolving i session atLookup hresolving := by
    rw [h.phase i] at hresolving
    cases hresolving

/-- A call goes on, and the rows stay. -/
theorem Current.move {s : State ι} (h : Current s) (i : ι) {phase : Phase}
    (hresolving : ∀ session atLookup, phase = .resolving session atLookup →
      session.revision = atLookup) : Current (s.move i phase) where
  sessions := h.sessions
  credentials := h.credentials
  accepted := h.accepted
  resolving j session atLookup hphase := by
    by_cases hij : j = i
    · subst hij
      exact hresolving session atLookup ((Function.update_self ..).symm.trans hphase)
    · exact h.resolving j session atLookup ((Function.update_of_ne hij ..).symm.trans hphase)

omit [DecidableEq ι] in
theorem Current.insertSession {s : State ι} (h : Current s) {session : Session}
    (hrevision : session.revision = s.connection.securityRevision) :
    Current (s.insertSession session) where
  sessions other hmem hactive := by
    rcases List.mem_append.mp hmem with hold | hnew
    · exact h.sessions other hold hactive
    · rw [List.mem_singleton.mp hnew]
      exact hrevision
  credentials := h.credentials
  accepted := h.accepted
  resolving := h.resolving

omit [DecidableEq ι] in
theorem Current.putCredential {s : State ι} (h : Current s) {credential : OidcCredential}
    (hrevision : credential.revision = s.connection.securityRevision) :
    Current (s.putCredential credential) where
  sessions := h.sessions
  credentials other hmem := by
    simp only [State.putCredential, upsertWhere] at hmem
    split at hmem
    · rcases mem_updateWhere.mp hmem with ⟨hold, _⟩ | ⟨_, _, _, rfl⟩
      · exact h.credentials other hold
      · exact hrevision
    · rcases List.mem_append.mp hmem with hold | hnew
      · exact h.credentials other hold
      · rw [List.mem_singleton.mp hnew]
        exact hrevision
  accepted := h.accepted
  resolving := h.resolving

/-- A session that can be looked up after some were revoked could be looked up before, and is
none of them. -/
theorem mem_of_revoked {p : Session → Bool} {sessions : List Session} {session : Session}
    {now : ℤ}
    (hmem : session ∈ updateWhere p (fun row => { row with revoked := true }) sessions)
    (hactive : session.isActive now = true) : session ∈ sessions ∧ p session = false := by
  rcases mem_updateWhere.mp hmem with hkept | ⟨_, _, _, rfl⟩
  · exact hkept
  · simp [Session.isActive] at hactive

omit [DecidableEq ι] in
theorem Current.revokeSession {s : State ι} (h : Current s) (tokenHash : String) :
    Current (s.revokeSession tokenHash) where
  sessions session hmem hactive := h.sessions session (mem_of_revoked hmem hactive).1 hactive
  credentials := h.credentials
  accepted := h.accepted
  resolving := h.resolving

omit [DecidableEq ι] in
/-- An update that has found all leaves nothing of the revision before it. -/
theorem Current.commit {s : State ι} (h : Current s) {transaction : Transaction}
    (hfinds : transaction.findsAll s = true) : Current (s.commit transaction) := by
  simp only [Transaction.findsAll, Bool.or_eq_true, decide_eq_true_eq, Bool.and_eq_true,
    List.all_eq_true, Bool.not_eq_true'] at hfinds
  constructor
  · intro session hmem hactive
    obtain ⟨hold, hnot⟩ := mem_of_revoked hmem hactive
    rcases hfinds with hsame | ⟨hsessions, _⟩
    · exact (h.sessions session hold hactive).trans hsame.symm
    · rcases hsessions session hold with hdead | hrevoked
      · rw [show session.isActive s.clock = true from hactive] at hdead
        cases hdead
      · rw [hrevoked] at hnot
        cases hnot
  · intro credential hmem
    obtain ⟨hold, hkept⟩ := List.mem_filter.mp hmem
    rcases hfinds with hsame | ⟨_, hcredentials⟩
    · exact (h.credentials credential hold).trans hsame.symm
    · rw [hcredentials credential hold] at hkept
      cases hkept
  · exact h.accepted
  · exact h.resolving

/-- The first statement of a call. -/
theorem Current.begin {s t : State ι} {i : ι} {call : Call} (h : Current s)
    (hbegin : begin s i call = some t) : Current t := by
  cases call with
  | finalizeIdentity revision identity =>
      cases hbegin
      exact h.move i (by simp)
  | completeOidcLogin revision =>
      simp only [ProviderLogins.begin] at hbegin
      split at hbegin <;> cases hbegin
      · exact h.move i (by simp)
      · exact h.move i (by simp)
  | updateIdentityProviderConnection expected enabled securityChanged =>
      simp only [ProviderLogins.begin] at hbegin
      split at hbegin <;> cases hbegin
      · exact h.move i (by simp)
      · exact h.move i (by simp)
  | resolveSession tokenHash =>
      simp only [ProviderLogins.begin] at hbegin
      split at hbegin
      · cases hbegin
      · split at hbegin <;> cases hbegin
        · exact h.move i (by simp)
        · next session hfound =>
            apply h.move i
            intro session' atLookup heq
            obtain ⟨rfl, rfl⟩ := Phase.resolving.inj heq
            have hactive := List.find?_some hfound
            rw [Bool.and_eq_true] at hactive
            exact h.sessions session (List.mem_of_find?_eq_some hfound) hactive.2

/-- The update of the connection's row is not seen yet. -/
theorem Current.beginUpdate {s t : State ι} {i : ι} {call : Call} (h : Current s)
    (hbegin : beginUpdate s i call = some t) : Current t := by
  cases call with
  | updateIdentityProviderConnection expected enabled securityChanged =>
      simp only [ProviderLogins.beginUpdate] at hbegin
      split at hbegin
      · cases hbegin
      · split at hbegin <;> cases hbegin
        · have hmoved : Current (s.move i (if securityChanged then .listing else .committing)) := by
            apply h.move i
            split <;> simp
          exact ⟨hmoved.sessions, hmoved.credentials, hmoved.accepted, hmoved.resolving⟩
        · exact h.move i (by simp)
  | _ => cases hbegin

/-- A statement that is in time keeps all current. -/
theorem Current.next {s t : State ι} {i : ι} {choice : Choice} (h : Current s)
    (hintime : InTime s (.next i choice) = true) (hnext : next setting s i choice = some t) :
    Current t := by
  have hsimple : ∀ {phase : Phase}, (∀ session atLookup, phase ≠ .resolving session atLookup) →
      Current (s.move i phase) := by
    intro phase hnot
    exact h.move i fun session atLookup heq => absurd heq (hnot session atLookup)
  unfold ProviderLogins.next at hnext
  cases hphase : s.phase i with
  | waiting =>
      rw [hphase] at hnext
      exact h.begin hnext
  | exchanging revision =>
      rw [hphase] at hnext
      dsimp only at hnext
      split at hnext
      · cases hnext
        exact hsimple (by simp)
      · split at hnext
        · cases hnext
          exact hsimple (by simp)
        · split at hnext <;> cases hnext
          · exact hsimple (by simp)
          · exact hsimple (by simp)
  | checking revision oidc identity =>
      rw [hphase] at hnext
      dsimp only at hnext
      split at hnext <;> cases hnext
      · exact hsimple (by simp)
      · exact hsimple (by simp)
  | locating revision oidc identity =>
      rw [hphase] at hnext
      dsimp only at hnext
      split at hnext
      · cases hnext
        exact hsimple (by simp)
      · split at hnext <;> cases hnext
        · exact hsimple (by simp)
        · exact hsimple (by simp)
  | upserting revision oidc realmId externalSubject =>
      rw [hphase] at hnext
      dsimp only at hnext
      split at hnext
      · cases hnext
        exact hsimple (by simp)
      · split at hnext <;> cases hnext
        · exact hsimple (by simp)
        · have hmoved : Current (s.move i (.inserting revision oidc realmId choice.id)) :=
            hsimple (by simp)
          exact ⟨hmoved.sessions, hmoved.credentials, hmoved.accepted, hmoved.resolving⟩
  | inserting revision oidc realmId principalId =>
      rw [hphase] at hnext
      simp only [InTime, hphase] at hintime
      dsimp only at hnext
      split at hnext <;> cases hnext
      · exact hsimple (by simp)
      · refine (h.insertSession ?_).move i ?_
        · simpa using hintime
        · split <;> simp
  | putting revision principalId =>
      rw [hphase] at hnext
      simp only [InTime, hphase] at hintime
      dsimp only at hnext
      split at hnext <;> cases hnext
      refine (h.putCredential ?_).move i (by simp)
      simpa using hintime
  | updating =>
      rw [hphase] at hnext
      exact h.beginUpdate hnext
  | listing =>
      rw [hphase] at hnext
      cases hnext
      exact hsimple (by simp)
  | revoking principalIds =>
      rw [hphase] at hnext
      cases hnext
      have hmoved : Current (s.move i .deleting) := hsimple (by simp)
      exact ⟨hmoved.sessions, hmoved.credentials, hmoved.accepted, hmoved.resolving⟩
  | deleting =>
      rw [hphase] at hnext
      cases hnext
      have hmoved : Current (s.move i .committing) := hsimple (by simp)
      exact ⟨hmoved.sessions, hmoved.credentials, hmoved.accepted, hmoved.resolving⟩
  | committing =>
      rw [hphase] at hnext
      obtain ⟨transaction, htransaction, rfl⟩ := Option.map_eq_some_iff.mp hnext
      simp only [InTime, hphase, htransaction] at hintime
      exact (h.commit hintime).move i (by simp)
  | resolving session atLookup =>
      rw [hphase] at hnext
      dsimp only at hnext
      split at hnext <;> cases hnext
      · have hmoved : Current (s.move i .ended) := hsimple (by simp)
        refine ⟨hmoved.sessions, hmoved.credentials, ?_, hmoved.resolving⟩
        intro acceptance hmem
        rcases List.mem_cons.mp hmem with rfl | hold
        · exact (h.resolving i session atLookup hphase).symm
        · exact h.accepted acceptance hold
      · exact hsimple (by simp)
  | rejecting tokenHash =>
      rw [hphase] at hnext
      dsimp only at hnext
      split at hnext <;> cases hnext
      exact (h.revokeSession tokenHash).move i (by simp)
  | ended =>
      rw [hphase] at hnext
      cases hnext

theorem Current.step {s t : State ι} {a : Action ι} (h : Current s)
    (hintime : InTime s a = true) (hstep : step setting s a = some t) : Current t := by
  cases a with
  | next i choice => exact h.next hintime hstep
  | fail i =>
      cases hstep
      have hmoved : Current (s.move i .ended) := h.move i (by simp)
      exact ⟨hmoved.sessions, hmoved.credentials, hmoved.accepted, hmoved.resolving⟩
  | pass ms =>
      cases hstep
      refine ⟨?_, h.credentials, h.accepted, h.resolving⟩
      intro session hmem hactive
      apply h.sessions session hmem
      simp only [Session.isActive, Bool.and_eq_true, decide_eq_true_eq] at hactive ⊢
      exact ⟨hactive.1, by omega⟩

/-- A step accepts no session, or one that it has looked up. -/
theorem step_accepted {s t : State ι} {a : Action ι} (hstep : step setting s a = some t) :
    t.accepted = s.accepted ∨
      ∃ i choice session atLookup, a = .next i choice ∧
        s.phase i = .resolving session atLookup ∧
        t.accepted = ⟨session.revision, atLookup, s.connection.securityRevision⟩ :: s.accepted := by
  cases a with
  | fail i =>
      cases hstep
      exact Or.inl rfl
  | pass ms =>
      cases hstep
      exact Or.inl rfl
  | next i choice =>
      simp only [ProviderLogins.step, ProviderLogins.next] at hstep
      cases hphase : s.phase i with
      | resolving session atLookup =>
          rw [hphase] at hstep
          dsimp only at hstep
          split at hstep <;> cases hstep
          · exact Or.inr ⟨i, choice, session, atLookup, rfl, hphase, rfl⟩
          · exact Or.inl rfl
      | waiting =>
          rw [hphase] at hstep
          refine Or.inl ?_
          cases hcall : setting.call i <;> rw [hcall] at hstep <;>
            simp only [ProviderLogins.begin] at hstep
          · cases hstep
            rfl
          · split at hstep <;> cases hstep <;> rfl
          · split at hstep <;> cases hstep <;> rfl
          · split at hstep
            · cases hstep
            · split at hstep <;> cases hstep <;> rfl
      | updating =>
          rw [hphase] at hstep
          refine Or.inl ?_
          cases hcall : setting.call i <;> rw [hcall] at hstep <;>
            simp only [ProviderLogins.beginUpdate] at hstep
          · cases hstep
          · cases hstep
          · split at hstep
            · cases hstep
            · split at hstep <;> cases hstep <;> rfl
          · cases hstep
      | committing =>
          rw [hphase] at hstep
          obtain ⟨transaction, _, rfl⟩ := Option.map_eq_some_iff.mp hstep
          exact Or.inl rfl
      | ended =>
          rw [hphase] at hstep
          cases hstep
      | _ =>
          rw [hphase] at hstep
          dsimp only at hstep
          refine Or.inl ?_
          repeat' split at hstep
          all_goals first | (cases hstep; rfl) | cases hstep

end Runs

/-- An OIDC login and a change of the connection's security, and a call with the session of the
login. -/
def sampleSetting : Setting (Fin 3) where
  realms := [{ id := "realm", externalRealmId := "acme", externalRealmKind := "organization"
               enabled := true }]
  sessionTtl := 1000
  call i :=
    if i = 0 then .completeOidcLogin 1
    else if i = 1 then .updateIdentityProviderConnection 1 true true
    else .resolveSession "token"

/-- A connection at its first security revision. -/
def firstRevision : State (Fin 3) where
  clock := 0
  connection := { enabled := true, securityRevision := 1 }
  principals := []
  sessions := []
  credentials := []
  transaction := none
  phase _ := .waiting
  accepted := []

theorem firstRevision_initial : Initial firstRevision :=
  ⟨fun _ => rfl, rfl, by simp [firstRevision], by simp [firstRevision], rfl⟩

/-- The next statements of a call, all with the same token. -/
def statements (i : Fin 3) (count : ℕ) : List (Action (Fin 3)) :=
  List.replicate count (.next i { id := "token", exchanged := some ("acme", "alice") })

/-- The login stores its session and credential while the update is under way, before it looks
for them. -/
def storedBefore : List (Action (Fin 3)) :=
  statements 0 4 ++ statements 1 2 ++ statements 0 3 ++ statements 2 2 ++ statements 1 4

/-- The login passes its check, the update goes through, and then the login stores its session
and credential; both stay, and the session is accepted. -/
def storedAfter : List (Action (Fin 3)) :=
  statements 0 5 ++ statements 1 6 ++ statements 0 2 ++ statements 2 2

end Eveland.ProviderLogins
