/-
# A refresh keeps the grant

The payload that a refresh stores has the refresh token of the provider's answer and no other. As
long as each answer that is stored brings one, the credential has the refresh token issued last,
and an interaction is required only where there is nothing to refresh with.
-/

import Eveland.AgentAuth.RefreshGrants

namespace Eveland.RefreshGrants

open AgentAuth

variable {oracle : Oracle} {config : Config} {w v : World}

/-! ## The invariant -/

/-- Each refresh that is stored has brought a refresh token. -/
def Renews (w : World) : Prop := ∀ r ∈ w.refreshes, r.token.refreshToken ≠ none

/-- The stored credential can be refreshed. -/
def HasGrant (w : World) : Prop :=
  ∃ row payload, w.row = some row ∧ row.payload = some payload ∧ payload.refreshToken ≠ none

/-- What is logged of a refresh. -/
structure Logged (r : Refresh) : Prop where
  replaced : (r.replaced.bind CredentialPayload.refreshToken).isSome = true
  stored : r.stored.refreshToken = r.token.refreshToken
  issued : r.token.refreshToken ≠ none → r.issued = r.token.refreshToken

/-- The log says what was stored, and a credential without a refresh token was given none. -/
structure Sound (w : World) : Prop where
  logged : ∀ r ∈ w.refreshes, Logged r
  row : Renews w → ∀ row payload, w.row = some row → row.payload = some payload →
    payload.refreshToken = none → w.issued = none

/-- The world goes on: it is sound, and what was logged stays. -/
structure Leads (w v : World) : Prop where
  sound : Sound v
  renews : Renews v → Renews w

theorem Leads.trans {u : World} (huw : Leads u w) (hwv : Leads w v) : Leads u v :=
  ⟨hwv.sound, fun hrenews => huw.renews (hwv.renews hrenews)⟩

/-- A statement that keeps what the credential can be refreshed with. -/
theorem Sound.leads (hw : Sound w) (hrefreshes : v.refreshes = w.refreshes)
    (hissued : v.issued = w.issued ∨ HasGrant v)
    (hrow : ∀ row payload, v.row = some row → row.payload = some payload →
      ∃ old before, w.row = some old ∧ old.payload = some before ∧
        payload.refreshToken = before.refreshToken) : Leads w v := by
  have hsame : Renews v → Renews w := by
    intro hrenews
    rw [Renews, hrefreshes] at hrenews
    exact hrenews
  refine ⟨⟨?_, ?_⟩, hsame⟩
  · rw [hrefreshes]
    exact hw.logged
  · intro hrenews row payload hv hpayload hnone
    rcases hissued with heq | ⟨other, held, hother, hheld, hgrant⟩
    · obtain ⟨old, before, hold, hbefore, htoken⟩ := hrow row payload hv hpayload
      rw [heq]
      exact hw.row (hsame hrenews) old before hold hbefore (htoken ▸ hnone)
    · obtain rfl := Option.some.inj (hv.symm.trans hother)
      obtain rfl := Option.some.inj (hpayload.symm.trans hheld)
      exact absurd hnone hgrant

/-- A statement that leaves the row, or its payload, and the rest of the world. -/
theorem Sound.leads_of_same (hw : Sound w) (hrefreshes : v.refreshes = w.refreshes)
    (hissued : v.issued = w.issued)
    (hrow : v.row.bind AgentAuthCredential.payload = w.row.bind AgentAuthCredential.payload ∨
      v.row = none) : Leads w v := by
  apply hw.leads hrefreshes (Or.inl hissued)
  intro row payload hv hpayload
  rcases hrow with hsame | hnone
  · rw [hv, Option.bind_some, hpayload] at hsame
    obtain ⟨old, hold, hbefore⟩ := Option.bind_eq_some_iff.mp hsame.symm
    exact ⟨old, payload, hold, hbefore, rfl⟩
  · rw [hv] at hnone
    cases hnone

theorem Sound.tick (hw : Sound w) : Leads w w.tick :=
  hw.leads_of_same rfl rfl (Or.inl rfl)

/-! ## The statements -/

/-- An update that keeps the payload keeps it for the slot. -/
theorem updateSlot_payload {p : AgentAuthCredential → Bool}
    {f : AgentAuthCredential → AgentAuthCredential} (hf : ∀ row, (f row).payload = row.payload)
    (slot : Option AgentAuthCredential) :
    (updateSlot slot p f).1.bind AgentAuthCredential.payload =
      slot.bind AgentAuthCredential.payload := by
  cases slot with
  | none => rfl
  | some row =>
      by_cases hp : p row = true
      · simp [updateSlot, hp, hf]
      · simp [updateSlot, hp]

/-- An update that has found a row has changed it. -/
theorem updateSlot_some {p : AgentAuthCredential → Bool}
    {f : AgentAuthCredential → AgentAuthCredential} {slot after : Option AgentAuthCredential}
    {found : AgentAuthCredential} (hupdate : updateSlot slot p f = (after, some found)) :
    ∃ row, slot = some row ∧ p row = true ∧ after = some (f row) ∧ found = f row := by
  cases slot with
  | none => cases hupdate
  | some row =>
      obtain ⟨rfl, hfound⟩ := Prod.mk.inj hupdate
      by_cases hp : p row = true
      · refine ⟨row, rfl, hp, by simp [hp], ?_⟩
        simpa [Option.filter, hp] using hfound.symm
      · simp [Option.filter, hp] at hfound

theorem claim_row (expectedRotationSeq : ℕ) (owner : String) (choice : Choice) :
    (w.claim expectedRotationSeq owner choice).1.row.bind AgentAuthCredential.payload =
      w.row.bind AgentAuthCredential.payload :=
  updateSlot_payload
    (f := AgentAuthCredential.lease owner choice.leaseId choice.leaseUntil) (fun _ => rfl) w.row

theorem release_row (expectedRotationSeq : ℕ) (owner leaseId : String) (now : ℤ) :
    (w.release expectedRotationSeq owner leaseId now).1.row.bind AgentAuthCredential.payload =
      w.row.bind AgentAuthCredential.payload :=
  updateSlot_payload (f := AgentAuthCredential.unlease) (fun _ => rfl) w.row

theorem Sound.claim (hw : Sound w) (expectedRotationSeq : ℕ) (owner : String) (choice : Choice) :
    Leads w (w.claim expectedRotationSeq owner choice).1 :=
  hw.leads_of_same rfl rfl (Or.inl (claim_row expectedRotationSeq owner choice))

theorem Sound.release (hw : Sound w) (expectedRotationSeq : ℕ) (owner leaseId : String)
    (now : ℤ) : Leads w (w.release expectedRotationSeq owner leaseId now).1 :=
  hw.leads_of_same rfl rfl (Or.inl (release_row expectedRotationSeq owner leaseId now))

theorem delete_row {credential : AgentAuthCredential} (hrow : w.row = some credential) :
    (w.delete credential.rotationSeq).row = none := by
  simp [World.delete, deleteAgentAuthCredential, hrow, Option.filter]

theorem Sound.delete (hw : Sound w) (expectedRotationSeq : ℕ) :
    Leads w (w.delete expectedRotationSeq) := by
  refine hw.leads_of_same (v := w.delete expectedRotationSeq) rfl rfl ?_
  simp only [World.delete, deleteAgentAuthCredential]
  cases w.row with
  | none => exact Or.inr rfl
  | some row =>
      by_cases hseq : row.rotationSeq = expectedRotationSeq
      · exact Or.inr (by simp [Option.filter, hseq])
      · exact Or.inl (by simp [Option.filter, hseq])

theorem hasGrant_iff : HasGrant w ↔
    ((w.row.bind AgentAuthCredential.payload).bind CredentialPayload.refreshToken).isSome =
      true := by
  constructor
  · rintro ⟨row, payload, hrow, hpayload, hgrant⟩
    rw [hrow, Option.bind_some, hpayload, Option.bind_some]
    exact Option.isSome_iff_ne_none.mpr hgrant
  · intro hsome
    obtain ⟨token, htoken⟩ := Option.isSome_iff_exists.mp hsome
    obtain ⟨payload, hpayload, hgrant⟩ := Option.bind_eq_some_iff.mp htoken
    obtain ⟨row, hrow, hrowPayload⟩ := Option.bind_eq_some_iff.mp hpayload
    exact ⟨row, payload, hrow, hrowPayload, by rw [hgrant]; exact nofun⟩

/-- The answers of the provider while the credential can be refreshed. -/
theorem Sound.answered (hw : Sound w) (hgrant : HasGrant w) (answer : GrantAnswer) :
    Leads w (w.answered answer) ∧ (w.answered answer).row = w.row := by
  have hrow : (w.answered answer).row = w.row := by
    cases answer <;> rfl
  have hrefreshes : (w.answered answer).refreshes = w.refreshes := by
    cases answer <;> rfl
  refine ⟨?_, hrow⟩
  apply hw.leads hrefreshes
  · right
    rw [hasGrant_iff, hrow]
    exact hasGrant_iff.mp hgrant
  · intro row payload hv hpayload
    rw [hrow] at hv
    exact ⟨row, payload, hv, hpayload, rfl⟩

/-- A refresh that is completed is logged, and stores what it logs. -/
theorem Sound.complete (hw : Sound w) (hgrant : HasGrant w) (rotationSeq : ℕ)
    (owner leaseId : String) (now : ℤ) {token : OidcTokenSet} {payload : CredentialPayload}
    (hpayload : payload.refreshToken = token.refreshToken)
    (hissued : token.refreshToken ≠ none → w.issued = token.refreshToken) :
    Leads w (w.complete rotationSeq owner leaseId now token payload).1 := by
  unfold World.complete
  split
  · next row found hcomplete =>
      obtain ⟨old, hold, -, rfl, -⟩ := updateSlot_some hcomplete
      have hlogged : Logged
          ⟨w.row.bind AgentAuthCredential.payload, token, payload, w.issued⟩ :=
        ⟨hasGrant_iff.mp hgrant, hpayload, hissued⟩
      refine ⟨⟨?_, ?_⟩, ?_⟩
      · intro r hr
        rcases List.mem_append.mp hr with hbefore | hnew
        · exact hw.logged r hbefore
        · rw [List.mem_singleton.mp hnew]
          exact hlogged
      · intro hrenews row stored hrow hstored hnone
        obtain rfl := Option.some.inj hrow
        obtain rfl := Option.some.inj hstored
        have hnew := hrenews _ (List.mem_append_right _ (List.mem_singleton.mpr rfl))
        exact absurd (hpayload.symm.trans hnone) hnew
      · intro hrenews r hr
        exact hrenews r (List.mem_append_left _ hr)
  · exact ⟨hw, fun hrenews => hrenews⟩

/-! ## The refresh -/

/-- What a refresh comes to: it leads on, and requires an interaction only if there is no
credential, or the provider has refused the refresh token. -/
structure Refreshes (w : World) (result : Except Thrown Unit × World) : Prop where
  leads : Leads w result.2
  explained : result.1 = .error .reauthorizationRequired →
    result.2.row = none ∨ result.2.refused = true

theorem Refreshes.of_leads {u : World} {result : Except Thrown Unit × World} (huw : Leads u w)
    (hresult : Refreshes w result) : Refreshes u result :=
  ⟨huw.trans hresult.leads, hresult.explained⟩

theorem waitForRefreshWinner_refreshes (rejectedRotationSeq rounds : ℕ) (hw : Sound w) :
    Refreshes w (waitForRefreshWinner oracle rejectedRotationSeq rounds w) := by
  induction rounds generalizing w with
  | zero => exact ⟨⟨hw, fun hrenews => hrenews⟩, nofun⟩
  | succ rounds ih =>
      unfold waitForRefreshWinner
      split
      · next hnone => exact ⟨⟨hw, fun hrenews => hrenews⟩, fun _ => Or.inl hnone⟩
      · next current hcurrent =>
          split
          · exact ⟨⟨hw, fun hrenews => hrenews⟩, nofun⟩
          · split
            · exact ⟨hw.tick, nofun⟩
            · exact (ih hw.tick.sound).of_leads hw.tick

/-- The wait for another instance is not refused. -/
theorem waitForRefreshWinner_ne (rejectedRotationSeq rounds : ℕ) (w : World) :
    (waitForRefreshWinner oracle rejectedRotationSeq rounds w).1 ≠ .error .invalidGrant := by
  induction rounds generalizing w with
  | zero => exact nofun
  | succ rounds ih =>
      unfold waitForRefreshWinner
      split
      · exact nofun
      · split
        · exact nofun
        · split
          · exact nofun
          · exact ih w.tick

/-- What a refresh throws when it requires an interaction, or was refused. -/
structure Blames (thrown : Thrown) (w : World) : Prop where
  required : thrown = .reauthorizationRequired → w.row = none ∨ w.refused = true
  refused : thrown = .invalidGrant → w.refused = true

theorem refresh_blames {answer : GrantAnswer} {subject : String} {now : ℤ} {thrown : Thrown}
    (hthrown : refresh config answer subject now = .error thrown) :
    Blames thrown (w.answered answer) := by
  cases answer with
  | invalidGrant =>
      cases hthrown
      exact ⟨nofun, fun _ => rfl⟩
  | failed =>
      cases hthrown
      exact ⟨nofun, nofun⟩
  | tokens response =>
      simp only [refresh] at hthrown
      split at hthrown
      · cases hthrown
        exact ⟨nofun, nofun⟩
      · split at hthrown
        · cases hthrown
          exact ⟨nofun, nofun⟩
        · cases hthrown

/-- The tokens are those of the answer, and their refresh token is the one issued last. -/
theorem refresh_issued {answer : GrantAnswer} {subject : String} {now : ℤ} {token : OidcTokenSet}
    (htoken : refresh config answer subject now = .ok token) (hnew : token.refreshToken ≠ none) :
    (w.answered answer).issued = token.refreshToken := by
  cases answer with
  | invalidGrant => cases htoken
  | failed => cases htoken
  | tokens response =>
      simp only [refresh] at htoken
      split at htoken
      · cases htoken
      · split at htoken
        · cases htoken
        · obtain rfl := Except.ok.inj htoken
          obtain ⟨issued, hissued⟩ := Option.ne_none_iff_exists'.mp hnew
          have hresponse : response.newRefreshToken = some issued := hissued
          simp [World.answered, hresponse]

theorem verifyCandidate_spec (token : OidcTokenSet) (choice : Choice) :
    (∀ next, verifyCandidate token choice = .ok next → next.refreshToken = token.refreshToken) ∧
      ∀ thrown, verifyCandidate token choice = .error thrown → Blames thrown w := by
  unfold verifyCandidate
  cases choice.verdict with
  | rejected message =>
      refine ⟨nofun, ?_⟩
      intro thrown hthrown
      cases hthrown
      exact ⟨nofun, nofun⟩
  | verified issuer subject =>
      refine ⟨?_, nofun⟩
      intro next hnext
      cases hnext
      rfl
  | failed =>
      refine ⟨?_, nofun⟩
      intro next hnext
      cases hnext
      rfl

/-- What comes of the tokens of a refresh. -/
structure Obtains (w : World)
    (result : Except Thrown (OidcTokenSet × CredentialPayload) × World) : Prop where
  leads : Leads w result.2
  grant : HasGrant result.2
  payload : ∀ token next, result.1 = .ok (token, next) → next.refreshToken = token.refreshToken
  issued : ∀ token next, result.1 = .ok (token, next) → token.refreshToken ≠ none →
    result.2.issued = token.refreshToken
  blames : ∀ thrown, result.1 = .error thrown → Blames thrown result.2

theorem obtainTokens_obtains {payload : CredentialPayload} (hw : Sound w) (hgrant : HasGrant w)
    (hpayload : payload.refreshToken ≠ none) :
    Obtains w (obtainTokens oracle config payload w) := by
  obtain ⟨refreshToken, hrefreshToken⟩ := Option.ne_none_iff_exists'.mp hpayload
  unfold obtainTokens
  simp only [hrefreshToken]
  split
  · refine ⟨hw.tick, hgrant, nofun, nofun, ?_⟩
    intro thrown hthrown
    cases hthrown
    exact ⟨nofun, nofun⟩
  · have htick : Leads w w.tick.tick := hw.tick.trans hw.tick.sound.tick
    obtain ⟨hanswered, hrow⟩ :=
      htick.sound.answered (w := w.tick.tick) hgrant (oracle (w.asked + 1)).answer
    have hleads := htick.trans hanswered
    have hheld : HasGrant (w.tick.tick.answered (oracle (w.asked + 1)).answer) := by
      rw [hasGrant_iff, hrow]
      exact hasGrant_iff.mp hgrant
    split
    · next thrown hthrown =>
        refine ⟨hleads, hheld, nofun, nofun, ?_⟩
        intro other hother
        cases hother
        exact refresh_blames hthrown
    · next token htoken =>
        have hissued := fun hnew => refresh_issued (w := w.tick.tick) htoken hnew
        generalize hasked : w.tick.tick.answered (oracle (w.asked + 1)).answer = asked
          at hleads hheld hissued ⊢
        obtain ⟨hnext, hblames⟩ :=
          verifyCandidate_spec (w := asked.tick) token (oracle asked.asked)
        refine ⟨hleads.trans hleads.sound.tick, hheld, ?_, ?_, ?_⟩
        · intro other next hok
          cases hverified : verifyCandidate token (oracle asked.asked) with
          | error thrown => simp [hverified, Except.map] at hok
          | ok candidate =>
              simp only [hverified, Except.map, Except.ok.injEq, Prod.mk.injEq] at hok
              obtain ⟨rfl, rfl⟩ := hok
              exact hnext candidate hverified
        · intro other next hok hnew
          cases hverified : verifyCandidate token (oracle asked.asked) with
          | error thrown => simp [hverified, Except.map] at hok
          | ok candidate =>
              simp only [hverified, Except.map, Except.ok.injEq, Prod.mk.injEq] at hok
              obtain ⟨rfl, rfl⟩ := hok
              exact hissued hnew
        · intro thrown herror
          cases hverified : verifyCandidate token (oracle asked.asked) with
          | error other =>
              simp only [hverified, Except.map, Except.error.injEq] at herror
              rw [← herror]
              exact hblames other hverified
          | ok candidate => simp [hverified, Except.map] at herror

/-- A refresh that is given up throws what it was given up for, or requires an interaction once
the provider has refused the refresh token. -/
theorem giveUpRefresh_refreshes (owner leaseId : String) (rotationSeq : ℕ) {thrown : Thrown}
    (hw : Sound w) (hblames : Blames thrown w) :
    Refreshes w (giveUpRefresh oracle owner leaseId rotationSeq thrown w) := by
  have hrelease := hw.tick.sound.release rotationSeq owner leaseId (oracle w.asked).now
  have hleads := hw.tick.trans hrelease
  have hgone : w.row = none →
      (w.tick.release rotationSeq owner leaseId (oracle w.asked).now).1.row = none := by
    intro hnone
    simp [World.release, World.tick, releaseAgentAuthCredentialRefresh, updateSlot, hnone]
  have hrefused : (w.tick.release rotationSeq owner leaseId (oracle w.asked).now).1.refused =
      w.refused := rfl
  unfold giveUpRefresh
  generalize w.tick.release rotationSeq owner leaseId (oracle w.asked).now = result
    at hrelease hleads hgone hrefused ⊢
  obtain ⟨after, released⟩ := result
  have hrequired : thrown = .reauthorizationRequired → after.row = none ∨ after.refused = true := by
    intro hthrown
    rcases hblames.required hthrown with hnone | hasked
    · exact Or.inl (hgone hnone)
    · exact Or.inr (hrefused.trans hasked)
  have hthrows : Refreshes w (.error thrown, after) := by
    refine ⟨hleads, ?_⟩
    intro herror
    exact hrequired (Except.error.inj herror)
  cases released with
  | false => exact hthrows
  | true =>
      dsimp only
      split
      · next hinvalid =>
          refine ⟨hleads.trans (hleads.sound.delete rotationSeq), fun _ => Or.inr ?_⟩
          exact hrefused.trans (hblames.refused hinvalid)
      · exact hthrows

theorem refreshClaimed_refreshes (owner leaseId : String) (rotationSeq rounds : ℕ)
    {payload : CredentialPayload} (hw : Sound w) (hgrant : HasGrant w)
    (hpayload : payload.refreshToken ≠ none) :
    Refreshes w (refreshClaimed oracle config owner leaseId rotationSeq rounds payload w) := by
  have hobtains : Obtains w (obtainTokens oracle config payload w) :=
    obtainTokens_obtains hw hgrant hpayload
  unfold refreshClaimed
  split
  · next thrown asked hresult =>
      rw [hresult] at hobtains
      exact (giveUpRefresh_refreshes owner leaseId rotationSeq hobtains.leads.sound
        (hobtains.blames thrown rfl)).of_leads hobtains.leads
  · next token next asked hresult =>
      rw [hresult] at hobtains
      have hleads := hobtains.leads.trans hobtains.leads.sound.tick
      have hcomplete := hleads.sound.complete (w := asked.tick) hobtains.grant rotationSeq owner
        leaseId (oracle asked.asked).now (hobtains.payload token next rfl)
        (hobtains.issued token next rfl)
      split
      · next stored hstored =>
          rw [hstored] at hcomplete
          exact ⟨hleads.trans hcomplete, nofun⟩
      · next unstored hunstored =>
          rw [hunstored] at hcomplete
          have hthere := hleads.trans hcomplete
          have hwait : Refreshes unstored
              (waitForRefreshWinner oracle rotationSeq rounds unstored) :=
            waitForRefreshWinner_refreshes rotationSeq rounds hthere.sound
          split
          · next waited hwaited =>
              rw [hwaited] at hwait
              exact ⟨hthere.trans hwait.leads, nofun⟩
          · next thrown waited hwaited =>
              have hne : (waitForRefreshWinner oracle rotationSeq rounds unstored).1 ≠
                  .error .invalidGrant := waitForRefreshWinner_ne rotationSeq rounds unstored
              rw [hwaited] at hwait hne
              have hblames : Blames thrown waited := by
                refine ⟨fun hthrown => hwait.explained (congrArg Except.error hthrown), ?_⟩
                intro hthrown
                exact absurd (congrArg Except.error hthrown) hne
              exact (giveUpRefresh_refreshes owner leaseId rotationSeq hwait.leads.sound
                hblames).of_leads (hthere.trans hwait.leads)

theorem refreshCredential_refreshes {credential : AgentAuthCredential}
    {payload : CredentialPayload} (hw : Sound w) (hgrant : HasGrant w)
    (hpayload : payload.refreshToken ≠ none) :
    Refreshes w (refreshCredential oracle config credential payload w) := by
  have hclaim := hw.tick.sound.claim credential.rotationSeq owner (oracle w.asked)
  have hheld : HasGrant (w.tick.claim credential.rotationSeq owner (oracle w.asked)).1 := by
    rw [hasGrant_iff, claim_row]
    exact hasGrant_iff.mp hgrant
  unfold refreshCredential
  dsimp only
  generalize w.tick.claim credential.rotationSeq owner (oracle w.asked) = result
    at hclaim hheld ⊢
  obtain ⟨claimed, granted⟩ := result
  have hleads := hw.tick.trans hclaim
  cases granted with
  | false => exact (waitForRefreshWinner_refreshes _ _ hleads.sound).of_leads hleads
  | true =>
      exact (refreshClaimed_refreshes _ _ _ _ hleads.sound hheld hpayload).of_leads hleads

/-! ## The calls -/

/-- The answer requires an interaction. -/
def RequiresInteraction (answer : Answer) : Prop :=
  ∃ failure, answer = .failure failure ∧ failure.code = .interactionRequired

/-- What a call comes to: it leads on, and requires an interaction only where the world explains
it. -/
structure Answers (w : World) (result : Answer × World) : Prop where
  leads : Leads w result.2
  explained : Renews result.2 → RequiresInteraction result.1 →
    result.2.row = none ∨ result.2.refused = true ∨ result.2.issued = none

theorem Answers.of_leads {u : World} {result : Answer × World} (huw : Leads u w)
    (hresult : Answers w result) : Answers u result :=
  ⟨huw.trans hresult.leads, hresult.explained⟩

/-- An answer that requires no interaction. -/
theorem answers_of_not {answer : Answer} (hleads : Leads w v)
    (hanswer : ¬ RequiresInteraction answer) : Answers w (answer, v) :=
  ⟨hleads, fun _ hrequires => absurd hrequires hanswer⟩

theorem not_requiresInteraction {failure : AgentAuthFailure}
    (hcode : failure.code ≠ .interactionRequired) : ¬ RequiresInteraction (.failure failure) := by
  rintro ⟨other, hother, hrequired⟩
  obtain rfl := Answer.failure.inj hother
  exact hcode hrequired

theorem failure_code_iff (unavailable : String) (thrown : Thrown) :
    (thrown.failure unavailable).code = .interactionRequired ↔
      thrown = .reauthorizationRequired := by
  cases thrown <;> simp [Thrown.failure, interactionRequired]

/-- The failure of a refresh. -/
theorem Refreshes.answers {thrown : Thrown} (unavailable : String)
    (hrefreshes : Refreshes w (.error thrown, v)) :
    Answers w (.failure (thrown.failure unavailable), v) := by
  refine ⟨hrefreshes.leads, ?_⟩
  rintro - ⟨failure, hfailure, hcode⟩
  obtain rfl := Answer.failure.inj hfailure
  have hthrown := (failure_code_iff unavailable thrown).mp hcode
  exact (hrefreshes.explained (congrArg Except.error hthrown)).imp_right Or.inl

/-- A credential without a refresh token is explained. -/
theorem Sound.issued_none (hw : Sound w) (hrenews : Renews w) {payload : CredentialPayload}
    (hrow : w.row.bind AgentAuthCredential.payload = some payload)
    (hnone : payload.refreshToken = none) : w.issued = none := by
  obtain ⟨row, hsome, hpayload⟩ := Option.bind_eq_some_iff.mp hrow
  exact hw.row hrenews row payload hsome hpayload hnone

theorem hasGrant_of_payload {payload : CredentialPayload}
    (hrow : w.row.bind AgentAuthCredential.payload = some payload)
    (hpayload : payload.refreshToken ≠ none) : HasGrant w := by
  obtain ⟨row, hsome, hrowPayload⟩ := Option.bind_eq_some_iff.mp hrow
  exact ⟨row, payload, hsome, hrowPayload, hpayload⟩

theorem handCredential_answers {credential : AgentAuthCredential} {payload : CredentialPayload}
    {lastPass : Bool} {again : World → Answer × World} (hw : Sound w)
    (hrow : w.row.bind AgentAuthCredential.payload = some payload)
    (hagain : ∀ v, Sound v → Answers v (again v)) :
    Answers w (handCredential oracle config credential payload lastPass again w) := by
  unfold handCredential
  split
  · split
    · next hnone =>
        refine ⟨hw.tick, ?_⟩
        intro hrenews _
        right
        right
        exact hw.issued_none (hw.tick.renews hrenews) hrow (Option.isNone_iff_eq_none.mp hnone)
    · next hsome =>
        have hpayload : payload.refreshToken ≠ none :=
          fun hnone => hsome (Option.isNone_iff_eq_none.mpr hnone)
        split
        · exact answers_of_not hw.tick (not_requiresInteraction nofun)
        · have hrefreshes : Refreshes w.tick
              (refreshCredential oracle config credential payload w.tick) :=
            refreshCredential_refreshes hw.tick.sound
              (hasGrant_of_payload (w := w.tick) hrow hpayload) hpayload
          split
          · next refreshed hresult =>
              rw [hresult] at hrefreshes
              have hleads := hw.tick.trans hrefreshes.leads
              exact (hagain refreshed hleads.sound).of_leads hleads
          · next thrown given hresult =>
              rw [hresult] at hrefreshes
              exact (hrefreshes.answers _).of_leads hw.tick
  · exact answers_of_not hw.tick nofun

/-- A pending credential that is verified keeps its refresh token. -/
theorem Sound.replace (hw : Sound w) {credential : AgentAuthCredential}
    {pending : PendingCredential} (hrow : w.row = some credential)
    (hpending : credential.payload = some (.pendingVerification pending)) (issuer subject : String) :
    Leads w (w.replace credential.rotationSeq (activate pending issuer subject)
      credential.expiresAt).1 := by
  refine hw.leads (v := (w.replace credential.rotationSeq (activate pending issuer subject)
      credential.expiresAt).1) rfl (Or.inl rfl) ?_
  intro row payload hreplaced hpayload
  refine ⟨credential, _, hrow, hpending, ?_⟩
  simp only [World.replace, replaceAgentAuthCredential, updateSlot, hrow, Option.map_some,
    decide_true, if_true, Option.some.injEq] at hreplaced
  rw [← hreplaced] at hpayload
  obtain rfl := Option.some.inj hpayload
  rfl

/-- What `replace` returns is the row it has written. -/
theorem replace_row {rotationSeq : ℕ} {payload : CredentialPayload} {expiresAt : Option ℤ}
    {credential : AgentAuthCredential}
    (hreplaced : w.replace rotationSeq payload expiresAt = (v, some credential)) :
    v.row.bind AgentAuthCredential.payload = some payload := by
  simp only [World.replace] at hreplaced
  cases hupdate : replaceAgentAuthCredential w.row rotationSeq payload expiresAt with
  | mk after found =>
      rw [hupdate] at hreplaced
      obtain ⟨rfl, rfl⟩ := Prod.mk.inj hreplaced
      obtain ⟨row, -, -, rfl, -⟩ := updateSlot_some hupdate
      rfl

theorem resolveCredential_answers (passes : ℕ) (hw : Sound w) :
    Answers w (resolveCredential oracle config passes w) := by
  induction passes generalizing w with
  | zero => exact answers_of_not ⟨hw, fun h => h⟩ (not_requiresInteraction nofun)
  | succ passes ih =>
      have hagain : ∀ v, Sound v → Answers v (resolveCredential oracle config passes v) :=
        fun v hv => ih hv
      unfold resolveCredential
      split
      · next hnone => exact ⟨⟨hw, fun h => h⟩, fun _ _ => Or.inl hnone⟩
      · next credential hcredential =>
          split
          · exact answers_of_not ⟨hw, fun h => h⟩ (not_requiresInteraction nofun)
          · next payload hpayload =>
              apply handCredential_answers hw _ hagain
              rw [hcredential, Option.bind_some, hpayload]
          · next pending hpending =>
              have htick : Leads w w.tick.tick := hw.tick.trans hw.tick.sound.tick
              split
              · exact answers_of_not hw.tick nofun
              · split
                · exact answers_of_not htick (not_requiresInteraction nofun)
                · exact answers_of_not htick (not_requiresInteraction nofun)
                · next issuer subject hverdict =>
                    have hreplace := htick.sound.replace (w := w.tick.tick) hcredential hpending
                      issuer subject
                    have hleads := htick.trans hreplace
                    dsimp only
                    split
                    · next replaced hresult =>
                        rw [hresult] at hleads
                        split
                        · exact answers_of_not hleads (not_requiresInteraction nofun)
                        · exact (ih hleads.sound).of_leads hleads
                    · next replaced row hresult =>
                        have hrow := replace_row hresult
                        rw [hresult] at hleads
                        exact (handCredential_answers hleads.sound hrow hagain).of_leads hleads

theorem recoverUnauthorized_answers (securityRevision rotationSeq : ℕ) (second : Bool)
    (hw : Sound w) :
    Answers w (recoverUnauthorized oracle config securityRevision rotationSeq second w) := by
  have hsame : Leads w w := ⟨hw, fun h => h⟩
  unfold recoverUnauthorized
  split
  · exact answers_of_not hsame (not_requiresInteraction nofun)
  · split
    · next hnone => exact ⟨hsame, fun _ _ => Or.inl hnone⟩
    · next credential hcredential =>
        split
        · exact answers_of_not hsame nofun
        · split
          · exact answers_of_not hsame (not_requiresInteraction nofun)
          · split
            · exact ⟨hw.delete credential.rotationSeq, fun _ _ => Or.inl (delete_row hcredential)⟩
            · split
              · exact answers_of_not hsame (not_requiresInteraction nofun)
              · next payload hpayload =>
                  have hrow : w.row.bind AgentAuthCredential.payload = some payload := by
                    rw [hcredential, Option.bind_some, hpayload]
                  split
                  · next hnone =>
                      refine ⟨hsame, ?_⟩
                      intro hrenews _
                      right
                      right
                      exact hw.issued_none hrenews hrow (Option.isNone_iff_eq_none.mp hnone)
                  · next hsome =>
                      have hne : payload.refreshToken ≠ none :=
                        fun hnone => hsome (Option.isNone_iff_eq_none.mpr hnone)
                      have hrefreshes : Refreshes w
                          (refreshCredential oracle config credential payload w) :=
                        refreshCredential_refreshes hw (hasGrant_of_payload hrow hne) hne
                      split
                      · next refreshed hresult =>
                          rw [hresult] at hrefreshes
                          exact answers_of_not hrefreshes.leads nofun
                      · next thrown given hresult =>
                          rw [hresult] at hrefreshes
                          exact hrefreshes.answers _

theorem call_answers (c : Call) (hw : Sound w) : Answers w (call oracle config w c) := by
  cases c with
  | getCredential => exact resolveCredential_answers _ hw
  | recoverUnauthorized securityRevision rotationSeq second =>
      exact recoverUnauthorized_answers securityRevision rotationSeq second hw

/-! ## Runs -/

/-- What is in the world when a call begins is in it as before but for the refusals. -/
theorem Sound.begin (hw : Sound w) : Leads w { w with refused := false } :=
  hw.leads_of_same rfl rfl (Or.inl rfl)

/-- A run leads on, and explains its answers where each refresh that was stored brought a refresh
token. -/
theorem run_leads (calls : List Call) (hw : Sound w) :
    Leads w (run oracle config w calls).2 ∧
      (Renews (run oracle config w calls).2 →
        ∀ a ∈ (run oracle config w calls).1, IsExplained a) := by
  induction calls generalizing w with
  | nil => exact ⟨⟨hw, fun h => h⟩, fun _ a ha => absurd ha List.not_mem_nil⟩
  | cons c calls ih =>
      have hcall : Answers w (call oracle config { w with refused := false } c) :=
        (call_answers c hw.begin.sound).of_leads hw.begin
      simp only [run]
      generalize call oracle config { w with refused := false } c = result at hcall ⊢
      obtain ⟨answer, after⟩ := result
      obtain ⟨hrest, hanswers⟩ := ih hcall.leads.sound
      refine ⟨hcall.leads.trans hrest, ?_⟩
      intro hrenews a ha
      rcases List.mem_cons.mp ha with rfl | htail
      · intro hrequires
        exact hcall.explained (hrest.renews hrenews) hrequires
      · exact hanswers hrenews a htail

theorem sound_of_initial (hw : Initial w) : Sound w := by
  refine ⟨?_, ?_⟩
  · rw [hw.refreshes]
    intro r hr
    exact absurd hr List.not_mem_nil
  · intro _ row payload hrow hpayload hnone
    rw [← hw.issued row payload hrow hpayload]
    exact hnone

/-- **The grant is kept.** Over any calls of one caller, any answers and any clock, each refresh
stores the refresh token issued last, and an interaction is required only without a credential,
after a refusal or where none was issued, exactly when each refresh that is stored has brought a
refresh token. -/
theorem grant_kept_iff (oracle : Oracle) (config : Config) {w : World} (hw : Initial w)
    (calls : List Call) :
    GrantKept (run oracle config w calls) ↔
      ∀ r ∈ (run oracle config w calls).2.refreshes, r.token.refreshToken ≠ none := by
  obtain ⟨hleads, hanswers⟩ : Leads w (run oracle config w calls).2 ∧
      (Renews (run oracle config w calls).2 →
        ∀ a ∈ (run oracle config w calls).1, IsExplained a) :=
    run_leads calls (sound_of_initial hw)
  constructor
  · intro hkept r hr
    have hlogged := hleads.sound.logged r hr
    obtain ⟨hsome, -⟩ := hkept.refreshes r hr hlogged.replaced
    rw [hlogged.stored] at hsome
    exact Option.isSome_iff_ne_none.mp hsome
  · intro hrenews
    refine ⟨?_, hanswers hrenews⟩
    intro r hr _
    have hlogged := hleads.sound.logged r hr
    have hnew := hrenews r hr
    rw [hlogged.stored, hlogged.issued hnew]
    exact ⟨Option.isSome_iff_ne_none.mpr hnew, rfl⟩

/-- An active credential with a refresh token, about to expire. -/
def expiring : World where
  row := some
    { payload := some (.active ⟨"access", some "refresh", "issuer", "subject", "issuer", "subject", 0⟩)
      expiresAt := some 1000
      rotationSeq := 0
      refreshOwner := none
      refreshLeaseId := none
      refreshLeaseUntil := none }
  asked := 0
  issued := some "refresh"
  refused := false
  refreshes := []

theorem expiring_initial : Initial expiring := by
  refine ⟨rfl, ?_⟩
  intro row payload hrow hpayload
  obtain rfl := Option.some.inj hrow
  obtain rfl := Option.some.inj hpayload
  rfl

def exampleConfig : Config := ⟨"issuer", 1⟩

/-- The provider answers each refresh with an access token for five minutes and this refresh token,
and ten minutes lie between two questions. -/
def answering (refreshToken : Option String) : Oracle := fun n =>
  { now := n / 7 * 600000
    leaseId := "lease"
    leaseUntil := n / 7 * 600000 + 30000
    rounds := 1
    secret := true
    verdict := .verified "issuer" "subject"
    answer := .tokens ⟨"access", refreshToken, some 300, none⟩ }

theorem grant_kept_iff_rotating :
    GrantKept (run (answering (some "rotated")) exampleConfig expiring
      [.getCredential, .getCredential]) ∧
      (run (answering (some "rotated")) exampleConfig expiring
        [.getCredential, .getCredential]).2.refreshes.length = 2 := by
  refine ⟨(grant_kept_iff _ exampleConfig expiring_initial _).mpr ?_, by decide +kernel⟩
  decide +kernel

theorem grant_lost_unrotated :
    ¬ ∀ (oracle : Oracle) (config : Config) (w : World) (calls : List Call), Initial w →
      GrantKept (run oracle config w calls) := by
  intro hall
  have hkept := hall (answering none) exampleConfig expiring [.getCredential] expiring_initial
  have hrenews := (grant_kept_iff _ exampleConfig expiring_initial _).mp hkept
  revert hrenews
  decide +kernel

end Eveland.RefreshGrants
