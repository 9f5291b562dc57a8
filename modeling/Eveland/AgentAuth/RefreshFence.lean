/-
# The fence around a refresh

A refresh is fenced by the rotation sequence of the credential it was started for and by a lease.
Every write of the credential raises the sequence and ends the lease, so within the life of a row
the sequence identifies the credential. A row that was deleted and put again starts its sequence
from zero. The module says what the fence gives without a condition, that no two leases stand at
a time, and under which condition a refresh and a deletion reach the credential they are meant
for.
-/

import Eveland.AgentAuth.OidcProvider
import Eveland.Foundations.Guarantees

namespace Eveland.AgentAuth

open Slots

variable {s t u : State}

/-! ## What a call does to the slot -/

/-- What can happen to the slot. -/
inductive Moves (s : State) : State → Prop
  | idle (clock : ℤ) (running : String → Option ℕ) (settled : ℕ → Option RefreshOutcome)
      (nextFlight : ℕ) (hclock : s.clock ≤ clock) :
      Moves s { s with clock, running, settled, nextFlight }
  | write (row : AgentAuthCredential) (payload : CredentialPayload) (expiresAt : Option ℤ)
      (hrow : s.row = some row) : Moves s (s.written (some (row.rotate payload expiresAt)))
  | insert (row : AgentAuthCredential) (hnone : s.row = none) (hfirst : row.rotationSeq = 0)
      (hfree : row.refreshLeaseId = none) :
      Moves s { s with row := some row, history := s.history.restart, leases := [] }
  | clear : Moves s { s with row := none, history := s.history.clear, leases := [] }
  | grant (row : AgentAuthCredential) (owner leaseId : String) (leaseUntil now : ℤ)
      (hrow : s.row = some row) (hfree : row.isFree now = true) (hnow : now ≤ s.clock)
      (hfresh : leaseId ∉ s.leaseIds) :
      Moves s { s with
        row := some (row.lease owner leaseId leaseUntil)
        leases := s.leases ++ [(leaseId, leaseUntil)]
        leaseIds := s.leaseIds ++ [leaseId] }
  | draw (leaseId : String) : Moves s { s with leaseIds := s.leaseIds ++ [leaseId] }
  | release (row : AgentAuthCredential) (leaseId : String) (hrow : s.row = some row)
      (hleased : row.refreshLeaseId = some leaseId) :
      Moves s { s with
        row := some row.unlease
        leases := s.leases.filter fun lease => lease.1 ≠ leaseId }
  | hand (version : Version) (hknows : s.history.Knows version) :
      Moves s { s with handed := s.handed ++ [version] }

theorem Moves.refl (s : State) : Moves s s :=
  .idle s.clock s.running s.settled s.nextFlight (Int.le_refl _)

/-- An update of the slot changes its row, or matches none. -/
theorem updateSlot_cases {slot after found : Option AgentAuthCredential}
    {p : AgentAuthCredential → Bool} {f : AgentAuthCredential → AgentAuthCredential}
    (hupdate : updateSlot slot p f = (after, found)) :
    (∃ row, slot = some row ∧ p row = true ∧ after = some (f row) ∧ found = some (f row)) ∨
      found = none := by
  cases slot with
  | none =>
      cases hupdate
      exact Or.inr rfl
  | some row =>
      obtain ⟨rfl, rfl⟩ := Prod.mk.inj hupdate
      by_cases hp : p row = true
      · exact Or.inl ⟨row, rfl, hp, by simp [hp], by simp [Option.filter, hp]⟩
      · exact Or.inr (by simp [Option.filter, hp])

theorem put_moves (payload : CredentialPayload) (expiresAt : Option ℤ) :
    Moves s (s.put payload expiresAt) := by
  rw [State.put]
  cases hrow : s.row with
  | none => exact Moves.insert _ hrow rfl rfl
  | some row => exact Moves.write row payload expiresAt hrow

theorem delete_moves (expectedRotationSeq : ℕ) : Moves s (s.delete expectedRotationSeq).1 := by
  rw [State.delete]
  split
  · next row hdelete =>
      obtain ⟨hrow, hany⟩ := Prod.mk.inj hdelete
      have hgone : row = none := by
        rw [← hrow]
        cases hold : s.row with
        | none => rfl
        | some old =>
            rw [hold] at hany
            simpa [Option.filter] using hany
      rw [hgone]
      exact Moves.clear
  · exact Moves.refl s

theorem replace_moves (expectedRotationSeq : ℕ) (payload : CredentialPayload)
    (expiresAt : Option ℤ) : Moves s (s.replace expectedRotationSeq payload expiresAt).1 := by
  rw [State.replace]
  split
  · next row found hreplace =>
      obtain ⟨old, hold, _, rfl, _⟩ | hnone := updateSlot_cases hreplace
      · exact Moves.write old payload expiresAt hold
      · cases hnone
  · exact Moves.refl s

theorem claim_moves (expectedRotationSeq : ℕ) (owner : String) {leaseId : String}
    {now : ℤ} (leaseUntil : ℤ) (hnow : now ≤ s.clock) (hfresh : leaseId ∉ s.leaseIds) :
    Moves s (s.claim expectedRotationSeq owner leaseId now leaseUntil).1 := by
  rw [State.claim]
  split
  · next row found hclaim =>
      obtain ⟨old, hold, hfree, rfl, _⟩ | hnone := updateSlot_cases hclaim
      · rw [Bool.and_eq_true] at hfree
        exact Moves.grant old owner leaseId leaseUntil now hold hfree.2 hnow hfresh
      · cases hnone
  · exact Moves.draw leaseId

theorem complete_moves (expectedRotationSeq : ℕ) (owner leaseId : String) (now : ℤ)
    (payload : CredentialPayload) (expiresAt : Option ℤ) :
    Moves s (s.complete expectedRotationSeq owner leaseId now payload expiresAt).1 := by
  rw [State.complete]
  split
  · next row found hcomplete =>
      obtain ⟨old, hold, _, rfl, _⟩ | hnone := updateSlot_cases hcomplete
      · exact Moves.write old payload expiresAt hold
      · cases hnone
  · exact Moves.refl s

theorem release_moves (expectedRotationSeq : ℕ) (owner leaseId : String) (now : ℤ) :
    Moves s (s.release expectedRotationSeq owner leaseId now).1 := by
  rw [State.release]
  split
  · next row found hrelease =>
      obtain ⟨old, hold, hleased, rfl, _⟩ | hnone := updateSlot_cases hrelease
      · simp only [AgentAuthCredential.isLeased, Bool.and_eq_true, decide_eq_true_eq] at hleased
        exact Moves.release old leaseId hold hleased.1.2
      · cases hnone
  · exact Moves.refl s

/-! ## What the calls are to satisfy -/

/-- What a call is made for. A refresh is completed over the credential whose refresh token was
sent, a deletion removes the credential that was rejected, and what is handed out was read. -/
def Reaches (s : State) : Op → Choice → Prop
  | .complete expectedRotationSeq owner leaseId _ _ sent, choice =>
      ∀ row ∈ s.row, row.isLeased expectedRotationSeq owner leaseId choice.now = true →
        s.history.current = some sent
  | .delete expectedRotationSeq rejected, _ =>
      ∀ row ∈ s.row, row.rotationSeq = expectedRotationSeq → s.history.current = some rejected
  | .hand version, _ => s.history.Knows version
  | _, _ => True

/-- A claim or a deletion does not meet a credential that was put into the slot after the one it
was made for had been removed, and whose count has come to the same number. -/
def CountsApart (s : State) : Op → Choice → Prop
  | .claim expectedRotationSeq _ read, choice =>
      ∀ row ∈ s.row, row.isFree choice.now = true → ∀ held ∈ s.history.current,
        held.epoch ≠ read.epoch → held.counter ≠ expectedRotationSeq
  | .delete expectedRotationSeq rejected, _ =>
      ∀ held ∈ s.history.current,
        held.epoch ≠ rejected.epoch → held.counter ≠ expectedRotationSeq
  | _, _ => True

/-- Whoever holds the lease holds it on this version. -/
def State.Binds (s : State) (leaseId : String) (version : Version) : Prop :=
  ∀ row ∈ s.row, row.refreshLeaseId = some leaseId → s.history.current = some version

/-- What holds of the slot. -/
structure Inv (s : State) : Prop where
  counted : s.row.map (fun row => row.rotationSeq) = s.history.current.map Version.counter
  sound : s.history.Sound
  drawn : ∀ row ∈ s.row, ∀ leaseId ∈ row.refreshLeaseId, leaseId ∈ s.leaseIds
  granted : ∀ lease ∈ s.leases, lease.1 ∈ s.leaseIds
  distinct : s.leases.Pairwise fun first second => first.1 ≠ second.1
  /-- A lease is over, or it is the one the row has. -/
  standing : ∀ lease ∈ s.leases, lease.2 ≤ s.clock ∨ ∃ row, s.row = some row ∧
    row.refreshLeaseId = some lease.1 ∧ row.refreshLeaseUntil = some lease.2
  handed : ∀ version ∈ s.handed, s.history.Knows version

/-- How the slot may change while a program waits for its turn. -/
structure Later (s t : State) : Prop where
  knows : ∀ version, s.history.Knows version → t.history.Knows version
  leaseIds : ∀ leaseId ∈ s.leaseIds, leaseId ∈ t.leaseIds
  binds : ∀ leaseId ∈ s.leaseIds, ∀ version, s.Binds leaseId version → t.Binds leaseId version

theorem Later.refl (s : State) : Later s s :=
  ⟨fun _ hknows => hknows, fun _ hdrawn => hdrawn, fun _ _ _ hbinds => hbinds⟩

theorem Later.trans (hfirst : Later s t) (hsecond : Later t u) : Later s u where
  knows version hknows := hsecond.knows version (hfirst.knows version hknows)
  leaseIds leaseId hdrawn := hsecond.leaseIds leaseId (hfirst.leaseIds leaseId hdrawn)
  binds leaseId hdrawn version hbinds :=
    hsecond.binds leaseId (hfirst.leaseIds leaseId hdrawn) version
      (hfirst.binds leaseId hdrawn version hbinds)

/-- What happens to the slot keeps the account of it. -/
theorem Moves.keeps (hinv : Inv s) (hmoves : Moves s t) : Inv t ∧ Later s t := by
  cases hmoves with
  | idle clock running settled nextFlight hclock =>
      refine ⟨{ hinv with standing := ?_ }, ⟨fun _ hknows => hknows, fun _ hdrawn => hdrawn,
        fun _ _ _ hbinds => hbinds⟩⟩
      intro lease hlease
      exact (hinv.standing lease hlease).imp_left fun hover => Int.le_trans hover hclock
  | write row payload expiresAt hrow =>
      refine ⟨⟨?_, hinv.sound.raise, ?_, by simp [State.written], by simp [State.written],
        by simp [State.written], fun version hhanded => (hinv.handed version hhanded).raise⟩,
        fun _ hknows => hknows.raise, fun _ hdrawn => hdrawn, ?_⟩
      · have hcounted := hinv.counted
        rw [hrow, Option.map_some, eq_comm, Option.map_eq_some_iff] at hcounted
        obtain ⟨held, hheld, hcounter⟩ := hcounted
        simp [State.written, AgentAuthCredential.rotate, hheld, hcounter]
      · intro other hother leaseId hleased
        cases hother
        cases hleased
      · intro leaseId _ version _ other hother hleased
        cases hother
        cases hleased
  | insert row hnone hfirst hfree =>
      refine ⟨⟨by simp [hfirst], Slot.Sound.restart, ?_, by simp, by simp, by simp,
        fun version hhanded => (hinv.handed version hhanded).restart⟩,
        fun _ hknows => hknows.restart, fun _ hdrawn => hdrawn, ?_⟩
      · intro other hother leaseId hleased
        cases hother
        rw [hfree] at hleased
        cases hleased
      · intro leaseId _ version _ other hother hleased
        cases hother
        rw [hfree] at hleased
        cases hleased
  | clear =>
      refine ⟨⟨rfl, Slot.Sound.clear, by simp, by simp, by simp, by simp,
        fun version hhanded => (hinv.handed version hhanded).clear⟩,
        fun _ hknows => hknows.clear, fun _ hdrawn => hdrawn, ?_⟩
      intro leaseId _ version _ other hother
      cases hother
  | grant row owner leaseId leaseUntil now hrow hfree hnow hfresh =>
      refine ⟨⟨?_, hinv.sound, ?_, ?_, ?_, ?_, hinv.handed⟩, fun _ hknows => hknows,
        fun _ hdrawn => List.mem_append_left _ hdrawn, ?_⟩
      · have hcounted := hinv.counted
        rw [hrow] at hcounted
        exact hcounted
      · intro other hother drawn hleased
        cases hother
        cases hleased
        exact List.mem_append_right _ (List.mem_singleton_self _)
      · intro lease hlease
        rcases List.mem_append.mp hlease with hold | hnew
        · exact List.mem_append_left _ (hinv.granted lease hold)
        · rw [List.mem_singleton.mp hnew]
          exact List.mem_append_right _ (List.mem_singleton_self _)
      · rw [List.pairwise_append]
        refine ⟨hinv.distinct, List.pairwise_singleton _ _, ?_⟩
        intro lease hlease new hnew heq
        rw [List.mem_singleton.mp hnew] at heq
        have hgranted := hinv.granted lease hlease
        rw [heq] at hgranted
        exact hfresh hgranted
      · intro lease hlease
        rcases List.mem_append.mp hlease with hold | hnew
        · -- The lease that is replaced is over, by the clock of the claim.
          left
          rcases hinv.standing lease hold with hover | ⟨other, hother, _, huntil⟩
          · exact hover
          · rw [hrow] at hother
            cases hother
            rw [AgentAuthCredential.isFree, huntil] at hfree
            exact Int.le_trans (by simpa using hfree) hnow
        · rw [List.mem_singleton.mp hnew]
          exact Or.inr ⟨_, rfl, rfl, rfl⟩
      · intro drawn hdrawn version _ other hother hleased
        cases hother
        cases hleased
        exact absurd hdrawn hfresh
  | draw leaseId =>
      refine ⟨{ hinv with
          drawn := fun row hrow drawn hleased =>
            List.mem_append_left _ (hinv.drawn row hrow drawn hleased)
          granted := fun lease hlease => List.mem_append_left _ (hinv.granted lease hlease) },
        fun _ hknows => hknows, fun _ hdrawn => List.mem_append_left _ hdrawn,
        fun _ _ _ hbinds => hbinds⟩
  | release row leaseId hrow hleased =>
      refine ⟨⟨?_, hinv.sound, ?_, ?_, ?_, ?_, hinv.handed⟩, fun _ hknows => hknows,
        fun _ hdrawn => hdrawn, ?_⟩
      · have hcounted := hinv.counted
        rw [hrow] at hcounted
        exact hcounted
      · intro other hother drawn hdrawn
        cases hother
        cases hdrawn
      · intro lease hlease
        exact hinv.granted lease (List.mem_filter.mp hlease).1
      · exact hinv.distinct.filter _
      · intro lease hlease
        obtain ⟨hlease, hother⟩ := List.mem_filter.mp hlease
        rcases hinv.standing lease hlease with hover | ⟨other, hother', hid, _⟩
        · exact Or.inl hover
        · rw [hrow] at hother'
          cases hother'
          rw [hleased] at hid
          exact absurd (Option.some.inj hid).symm (by simpa using hother)
      · intro drawn _ version _ other hother hdrawn
        cases hother
        cases hdrawn
  | hand version hknows =>
      refine ⟨{ hinv with handed := ?_ }, ⟨fun _ hknows => hknows, fun _ hdrawn => hdrawn,
        fun _ _ _ hbinds => hbinds⟩⟩
      intro other hother
      rcases List.mem_append.mp hother with hold | hnew
      · exact hinv.handed other hold
      · rw [List.mem_singleton.mp hnew]
        exact hknows

/-! ## Every call -/

theorem perform_moves {op : Op} {choice : Choice} {answer : Ans op} (hok : Reaches s op choice)
    (hperform : perform s op choice = some (t, answer)) : Moves s t := by
  cases op with
  | now =>
      rw [perform] at hperform
      split at hperform <;> cases hperform
      exact Moves.refl s
  | get => cases hperform; exact Moves.refl s
  | put payload expiresAt => cases hperform; exact put_moves payload expiresAt
  | delete expectedRotationSeq rejected =>
      have ht : (s.delete expectedRotationSeq).1 = t := congrArg Prod.fst (Option.some.inj hperform)
      exact ht ▸ delete_moves expectedRotationSeq
  | replace expectedRotationSeq payload expiresAt =>
      have ht : (s.replace expectedRotationSeq payload expiresAt).1 = t :=
        congrArg Prod.fst (Option.some.inj hperform)
      exact ht ▸ replace_moves expectedRotationSeq payload expiresAt
  | claim expectedRotationSeq owner read =>
      rw [perform] at hperform
      split at hperform
      · next hguard =>
          have hmoves := claim_moves expectedRotationSeq owner choice.leaseUntil hguard.1 hguard.2
          rw [congrArg Prod.fst (Option.some.inj hperform)] at hmoves
          exact hmoves
      · cases hperform
  | complete expectedRotationSeq owner leaseId payload expiresAt sent =>
      rw [perform] at hperform
      split at hperform
      · dsimp only at hperform
        split at hperform <;> cases hperform
        · exact complete_moves expectedRotationSeq owner leaseId _ payload expiresAt
        · exact complete_moves expectedRotationSeq owner leaseId _ payload expiresAt
        · exact Moves.refl s
      · cases hperform
  | release expectedRotationSeq owner leaseId =>
      rw [perform] at hperform
      split at hperform
      · have hmoves := release_moves (s := s) expectedRotationSeq owner leaseId choice.now
        rw [congrArg Prod.fst (Option.some.inj hperform)] at hmoves
        exact hmoves
      · cases hperform
  | resolveClientSecret => cases hperform; exact Moves.refl s
  | verifyAccessToken accessToken issuer subject => cases hperform; exact Moves.refl s
  | refresh refreshToken subject => cases hperform; exact Moves.refl s
  | enter owner =>
      rw [perform] at hperform
      split at hperform <;> cases hperform
      · exact Moves.refl s
      · exact Moves.idle _ _ _ _ (Int.le_refl _)
  | settle owner flight outcome => cases hperform; exact Moves.idle _ _ _ _ (Int.le_refl _)
  | await flight =>
      obtain ⟨outcome, _, heq⟩ := Option.map_eq_some_iff.mp hperform
      cases heq
      exact Moves.refl s
  | hand version => cases hperform; exact Moves.hand version hok

/-- What the programs of the slot are held to. -/
def contract : Actors.Contract State Op Choice where
  inv := Inv
  rely := Later
  given := CountsApart
  ok := Reaches

theorem stable : actors.Stable contract where
  refl := Later.refl
  trans _ _ _ := Later.trans
  perform _ _ _ _ _ hinv _ hok hperform := (perform_moves hok hperform).keeps hinv
  outside s event t hinv hevent := by
    cases event with
    | tick clock =>
        simp only [actors] at hevent
        split at hevent <;> cases hevent
        next hclock => exact (Moves.idle clock _ _ _ hclock).keeps hinv
    | remove =>
        cases hevent
        exact Moves.clear.keeps hinv

/-! ## Every program -/

/-- A read answers a version the slot knows, with its count. -/
theorem Inv.read (hinv : Inv s) {row : AgentAuthCredential} {version : Version}
    (hread : s.read = some (row, version)) :
    s.history.Knows version ∧ version.counter = row.rotationSeq := by
  obtain ⟨found, hfound, hmapped⟩ := Option.bind_eq_some_iff.mp hread
  obtain ⟨held, hheld, heq⟩ := Option.map_eq_some_iff.mp hmapped
  cases heq
  have hcounted := hinv.counted
  rw [hfound, hheld] at hcounted
  exact ⟨hinv.sound version hheld, (Option.some.inj hcounted).symm⟩

/-- Where the counts do not meet across epochs, a row with the count of a known version is of
this version. -/
theorem Inv.current (hinv : Inv s) {row : AgentAuthCredential} {version : Version}
    (hrow : s.row = some row) (hknows : s.history.Knows version)
    (hseq : row.rotationSeq = version.counter)
    (hapart : ∀ held ∈ s.history.current,
      held.epoch ≠ version.epoch → held.counter ≠ version.counter) :
    s.history.current = some version := by
  have hcounted := hinv.counted
  rw [hrow, Option.map_some, eq_comm, Option.map_eq_some_iff] at hcounted
  obtain ⟨held, hheld, hcounter⟩ := hcounted
  by_cases hepoch : held.epoch = version.epoch
  · rw [hheld, hknows.eq_of_counter hheld hepoch (hcounter.trans hseq)]
  · exact absurd (hcounter.trans hseq) (hapart held hheld hepoch)

variable {owner : String}

/-- A call that asks nothing of the slot. -/
theorem respects_free {op : Op} {next : Ans op → Run} (hfree : ∀ t choice, Reaches t op choice)
    (hnext : ∀ t answer, Later s t → Inv t → actors.Respects contract (next answer) t) :
    actors.Respects contract (.call op next) s :=
  Actors.respects_call stable (fun t choice _ _ _ => hfree t choice)
    fun _ _ u answer _ _ _ _ hlater hinv => hnext u answer hlater hinv

theorem waitForRefreshWinner_respects {rotationSeq : ℕ} {next : RefreshOutcome → Run} (rounds : ℕ)
    (hnext : ∀ t outcome, Later s t → actors.Respects contract (next outcome) t) :
    actors.Respects contract (waitForRefreshWinner rotationSeq next rounds) s := by
  induction rounds generalizing s with
  | zero => exact hnext s .failed (Later.refl s)
  | succ rounds ih =>
      rw [waitForRefreshWinner]
      refine respects_free (fun _ _ => by trivial) ?_
      intro t answer hlater _
      split
      · exact hnext t _ hlater
      · split
        · exact hnext t _ hlater
        · refine respects_free (fun _ _ => by trivial) ?_
          intro u now hlater' _
          split
          · exact hnext u _ (hlater.trans hlater')
          · exact ih fun v outcome hlater'' => hnext v outcome ((hlater.trans hlater').trans hlater'')

/-- Giving up a refresh deletes the credential whose token was refused. -/
theorem giveUpRefresh_respects {leaseId : String} {rotationSeq : ℕ} {version : Version}
    {next : RefreshOutcome → Run} (outcome : RefreshOutcome) (invalidGrant : Bool)
    (hknows : s.history.Knows version) (hseq : version.counter = rotationSeq)
    (hnext : ∀ t outcome, Later s t → actors.Respects contract (next outcome) t) :
    actors.Respects contract
      (giveUpRefresh owner leaseId rotationSeq version outcome invalidGrant next) s := by
  refine respects_free (fun _ _ => by trivial) ?_
  intro t released hlater _
  split
  · refine Actors.respects_call stable ?_ ?_
    · intro u choice hlater' hinv hgiven row hrow hmatch
      have hgiven' : ∀ held ∈ u.history.current,
          held.epoch ≠ version.epoch → held.counter ≠ rotationSeq := hgiven
      rw [← hseq] at hmatch hgiven'
      exact hinv.current hrow ((hlater.trans hlater').knows version hknows) hmatch hgiven'
    · intro _ _ u _ _ _ _ _ hlater' _
      exact hnext u _ (hlater.trans hlater')
  · exact hnext t _ hlater

theorem verifyCandidate_respects {token : OidcTokenSet} {rejected : Run}
    {next : CredentialPayload → Run}
    (hrejected : ∀ t, Later s t → actors.Respects contract rejected t)
    (hnext : ∀ t payload, Later s t → actors.Respects contract (next payload) t) :
    actors.Respects contract (verifyCandidate token rejected next) s := by
  refine respects_free (fun _ _ => by trivial) ?_
  intro t verification hlater _
  split
  · exact hrejected t hlater
  all_goals
    refine respects_free (fun _ _ => by trivial) ?_
    intro u now hlater' _
    exact hnext u _ (hlater.trans hlater')

/-- A claim that goes through binds its lease to the version that was read. -/
theorem claim_binds {rotationSeq : ℕ} {leaseId drawn : String} {now leaseUntil : ℤ}
    {version : Version} (hinv : Inv s) (hknows : s.history.Knows version)
    (hseq : version.counter = rotationSeq)
    (hgiven : ∀ row ∈ s.row, row.isFree now = true → ∀ held ∈ s.history.current,
      held.epoch ≠ version.epoch → held.counter ≠ rotationSeq)
    (hclaim : s.claim rotationSeq owner drawn now leaseUntil = (t, some leaseId)) :
    leaseId ∈ t.leaseIds ∧ t.Binds leaseId version := by
  rw [State.claim] at hclaim
  split at hclaim
  · next row found hupdate =>
      obtain ⟨old, hold, hmatch, rfl, _⟩ | hnone := updateSlot_cases hupdate
      · cases hclaim
        simp only [Bool.and_eq_true, decide_eq_true_eq] at hmatch
        have hapart := hgiven old hold hmatch.2
        rw [← hseq] at hmatch hapart
        refine ⟨List.mem_append_right _ (List.mem_singleton_self _), ?_⟩
        intro _ _ _
        exact hinv.current hold hknows hmatch.1 hapart
      · cases hnone
  · cases hclaim

theorem refreshCredential_respects {rounds : ℕ} {credential : AgentAuthCredential}
    {version : Version} {payload : CredentialPayload} {next : RefreshOutcome → Run}
    (hknows : s.history.Knows version) (hseq : version.counter = credential.rotationSeq)
    (hnext : ∀ t outcome, Later s t → actors.Respects contract (next outcome) t) :
    actors.Respects contract (refreshCredential owner rounds credential version payload next) s := by
  refine Actors.respects_call stable (fun _ _ _ _ _ => trivial) ?_
  intro t choice u answer hlater hinv hgiven hperform hlater' _
  dsimp only
  split
  · exact waitForRefreshWinner_respects rounds fun v outcome hlater'' =>
      hnext v outcome (hlater'.trans hlater'')
  · next leaseId =>
      have hbinds : leaseId ∈ u.leaseIds ∧ u.Binds leaseId version := by
        simp only [actors, perform] at hperform
        split at hperform
        · exact claim_binds hinv (hlater.knows version hknows) hseq hgiven
            (Option.some.inj hperform)
        · cases hperform
      have hgiveUp : ∀ v outcome invalidGrant, Later u v → actors.Respects contract
          (giveUpRefresh owner leaseId credential.rotationSeq version outcome invalidGrant next) v := by
        intro v outcome invalidGrant hlater''
        have hall := hlater'.trans hlater''
        exact giveUpRefresh_respects outcome invalidGrant (hall.knows version hknows) hseq
          fun w outcome hlater => hnext w outcome (hall.trans hlater)
      split
      · exact hgiveUp u _ _ (Later.refl u)
      · refine respects_free (fun _ _ => by trivial) ?_
        intro v resolved huv _
        split
        · refine respects_free (fun _ _ => by trivial) ?_
          intro w answer hvw _
          have huw := huv.trans hvw
          split
          · exact hgiveUp w _ _ huw
          · exact hgiveUp w _ _ huw
          · refine verifyCandidate_respects (fun x hwx => hgiveUp x _ _ (huw.trans hwx)) ?_
            intro x nextPayload hwx
            have hux := huw.trans hwx
            refine Actors.respects_call stable ?_ ?_
            · -- Nobody else has written the credential while the lease was on it.
              intro y choice hxy hinv' _ row hrow hleased
              simp only [AgentAuthCredential.isLeased, Bool.and_eq_true, decide_eq_true_eq]
                at hleased
              exact (hux.trans hxy).binds leaseId hbinds.1 version hbinds.2 row hrow hleased.1.2
            · intro _ _ y completion _ _ _ _ hxy _
              have huy := hux.trans hxy
              split
              · exact hnext y _ (hlater'.trans huy)
              · apply waitForRefreshWinner_respects
                intro z outcome hyz
                split
                · exact hnext z _ (hlater'.trans (huy.trans hyz))
                · exact hgiveUp z _ _ (huy.trans hyz)
              · exact hgiveUp y _ _ huy
        · exact hgiveUp v _ _ huv

theorem getOrStartRefresh_respects {rounds : ℕ} {credential : AgentAuthCredential}
    {version : Version} {payload : CredentialPayload} {next : RefreshOutcome → Run}
    (hknows : s.history.Knows version) (hseq : version.counter = credential.rotationSeq)
    (hnext : ∀ t outcome, Later s t → actors.Respects contract (next outcome) t) :
    actors.Respects contract (getOrStartRefresh owner rounds credential version payload next) s := by
  refine respects_free (fun _ _ => by trivial) ?_
  intro t flight hst _
  split
  · refine respects_free (fun _ _ => by trivial) ?_
    intro u outcome htu _
    exact hnext u outcome (hst.trans htu)
  · refine refreshCredential_respects (hst.knows version hknows) hseq ?_
    intro u outcome htu
    refine respects_free (fun _ _ => by trivial) ?_
    intro v _ huv _
    exact hnext v outcome ((hst.trans htu).trans huv)

theorem handCredential_respects {rounds : ℕ} {credential : AgentAuthCredential}
    {version : Version} {payload : CredentialPayload} {lastPass : Bool} {again : Run}
    (hknows : s.history.Knows version) (hseq : version.counter = credential.rotationSeq)
    (hagain : ∀ t, actors.Respects contract again t) : actors.Respects contract
      (handCredential owner rounds credential version payload lastPass again) s := by
  refine respects_free (fun _ _ => by trivial) ?_
  intro t now hst _
  have hknows' := hst.knows version hknows
  split
  · split
    · trivial
    · split
      · trivial
      · refine getOrStartRefresh_respects hknows' hseq ?_
        intro u outcome _
        split
        · exact hagain u
        · trivial
  · refine Actors.respects_call stable ?_ fun _ _ _ _ _ _ _ _ _ _ => trivial
    intro u _ htu _ _
    exact htu.knows version hknows'

/-- What a replacement answers is the credential it has stored. -/
theorem replace_read {rotationSeq : ℕ} {payload : CredentialPayload} {expiresAt : Option ℤ}
    {found : AgentAuthCredential × Version}
    (hreplace : s.replace rotationSeq payload expiresAt = (t, some found)) :
    t.read = some found := by
  rw [State.replace] at hreplace
  split at hreplace
  · obtain ⟨rfl, hanswer⟩ := Prod.mk.inj hreplace
    exact hanswer
  · cases hreplace

theorem resolveCredential_respects {rounds : ℕ} (passes : ℕ) :
    actors.Respects contract (resolveCredential owner rounds passes) s := by
  induction passes generalizing s with
  | zero => trivial
  | succ passes ih =>
      rw [resolveCredential]
      refine Actors.respects_call stable (fun _ _ _ _ _ => by trivial) ?_
      intro _ _ t stored _ hinv _ hperform _ _
      cases hperform
      split
      · trivial
      · next credential version hread =>
          obtain ⟨hknows, hseq⟩ := hinv.read hread
          split
          · trivial
          · exact handCredential_respects hknows hseq fun _ => ih
          · refine respects_free (fun _ _ => by trivial) ?_
            intro u resolved htu _
            split
            · refine respects_free (fun _ _ => by trivial) ?_
              intro v verification huv _
              split
              · refine Actors.respects_call stable (fun _ _ _ _ _ => by trivial) ?_
                intro w choice x replaced _ _ _ hreplace _ hinv'
                split
                · split
                  · trivial
                  · exact ih
                · obtain ⟨hknows', hseq'⟩ := hinv'.read (replace_read (Option.some.inj hreplace))
                  exact handCredential_respects hknows' hseq' fun _ => ih
              · trivial
            · trivial

theorem recoverUnauthorized_respects {rounds : ℕ} {sameRevision second : Bool} {rejected : Version}
    (hknows : s.history.Knows rejected) : actors.Respects contract
      (recoverUnauthorized owner rounds sameRevision rejected second) s := by
  rw [recoverUnauthorized]
  split
  · trivial
  · refine Actors.respects_call stable (fun _ _ _ _ _ => by trivial) ?_
    intro _ _ t stored hlater hinv _ hperform _ _
    cases hperform
    have hknows' := hlater.knows rejected hknows
    split
    · trivial
    · next credential version hread =>
        obtain ⟨hknown, hseq⟩ := hinv.read hread
        split
        · trivial
        · next hsame =>
            rw [not_not] at hsame
            split
            · refine Actors.respects_call stable ?_ fun _ _ _ _ _ _ _ _ _ _ => trivial
              intro u _ htu hinv' hgiven row hrow hmatch
              have hgiven' : ∀ held ∈ u.history.current,
                  held.epoch ≠ rejected.epoch → held.counter ≠ credential.rotationSeq := hgiven
              rw [hsame] at hmatch hgiven'
              exact hinv'.current hrow (htu.knows rejected hknows') hmatch hgiven'
            · split
              · trivial
              · split
                · trivial
                · exact getOrStartRefresh_respects hknown hseq fun _ _ _ => trivial

theorem upholds : actors.Upholds contract where
  toStable := stable
  launch pool label hinv hadmits := by
    cases label with
    | resolve owner rounds => exact resolveCredential_respects _
    | recover owner rounds sameRevision rejected second =>
        have hhanded : rejected ∈ pool.state.handed := by simpa [actors] using hadmits
        exact recoverUnauthorized_respects (hinv.handed rejected hhanded)
    | callback payload expiresAt =>
        exact respects_free (fun _ _ => by trivial) fun _ _ _ _ => trivial

theorem State.Initial.inv (hinit : s.Initial) : Inv s where
  counted := by
    rw [hinit.row, hinit.history]
    rfl
  sound := by
    rw [hinit.history]
    exact Slot.empty_sound
  drawn := by simp [hinit.row]
  granted := by simp [hinit.leases]
  distinct := by simp [hinit.leases]
  standing := by simp [hinit.leases]
  handed := by simp [hinit.handed]

/-! ## The fence -/

/-- At most one lease that is not over stands. -/
def State.OneLease (s : State) : Prop :=
  ∀ first ∈ s.leases, ∀ second ∈ s.leases,
    s.clock < first.2 → s.clock < second.2 → first = second

theorem Inv.oneLease (hinv : Inv s) : s.OneLease := by
  intro first hfirst second hsecond hopen hopen'
  rcases hinv.standing first hfirst with hover | ⟨row, hrow, hid, huntil⟩
  · omega
  · rcases hinv.standing second hsecond with hover | ⟨other, hother, hid', huntil'⟩
    · omega
    · rw [hrow] at hother
      cases hother
      exact Prod.ext (Option.some.inj (hid.symm.trans hid'))
        (Option.some.inj (huntil.symm.trans huntil'))

/-- **The fence.** In a run of any number of provider instances, callbacks and removals in which
no claim or deletion meets a later credential of the slot with the same count, at most one lease
stands at a time, every refresh that is completed replaces the very credential whose refresh
token was sent, and every credential that is deleted is the one that was rejected or whose
refresh token was refused. -/
theorem refreshes_fenced {pool : Pool State Label Op Ans}
    {actions : List (PoolAction Label Choice Event)} (hinit : machine.init pool)
    (happart : machine.Meets (Actors.OnCalls CountsApart) pool actions) :
    machine.Meets (Actors.OnCalls Reaches) pool actions ∧
      machine.Always (fun pool => pool.state.OneLease) pool actions := by
  have hinv : ∀ s : State, s.Initial → Inv s := fun s hs => hs.inv
  refine ⟨Actors.meets_ok upholds hinit hinv happart, ?_⟩
  refine machine.always_of_meets (I := actors.Kept contract)
    (fun pool action after hkept hgiven hstep => hkept.step upholds hgiven hstep)
    (fun pool hkept => hkept.inv.oneLease) ?_ happart
  refine ⟨hinv _ hinit.1, ?_⟩
  rw [hinit.2]
  simp

instance (s : State) (op : Op) (choice : Choice) : Decidable (CountsApart s op choice) := by
  cases op <;> simp only [CountsApart] <;> infer_instance

instance (s : State) : Decidable s.OneLease := by
  rw [State.OneLease]
  infer_instance

/-- An empty slot. -/
def samplePool : Pool State Label Op Ans where
  state :=
    { row := none
      history := Slot.empty
      leases := []
      leaseIds := []
      handed := []
      clock := 0
      running := fun _ => none
      settled := fun _ => none
      nextFlight := 0 }
  tasks := []

theorem samplePool_init : machine.init samplePool := ⟨⟨rfl, rfl, rfl, rfl, rfl⟩, rfl⟩

/-- A call at the start of the clock, with the lease it may draw and what the identity provider
answers to it. -/
def sampleCall (leaseId : String) (refreshed : RefreshAnswer) (index : ℕ) :
    PoolAction Label Choice Event :=
  .call index
    { now := 0
      leaseId
      leaseUntil := 30000
      secret := true
      verification := .verified "issuer" "subject"
      refreshed
      throws := none }

def sampleTokens : RefreshAnswer :=
  .tokens ⟨"access-2", some "refresh-2", 3600000, "issuer", "subject"⟩

def sampleCredential : CredentialPayload := .active
  { accessToken := "access-1"
    refreshToken := some "refresh-1"
    agentIssuer := "issuer"
    agentSubject := "subject"
    idTokenIssuer := "issuer"
    idTokenSubject := "subject"
    obtainedAt := 0 }

/-- A credential that expires soon is resolved: it is refreshed, and the new one is handed out. -/
def sampleRefresh : List (PoolAction Label Choice Event) :=
  .launch (.callback sampleCredential 10) :: sampleCall "one" sampleTokens 0 ::
    .launch (.resolve "instance" 5) :: List.replicate 13 (sampleCall "one" sampleTokens 1)

theorem refreshes_fenced_expiring :
    machine.Meets (Actors.OnCalls Reaches) samplePool sampleRefresh ∧
      machine.Always (fun pool => pool.state.OneLease) samplePool sampleRefresh :=
  refreshes_fenced samplePool_init (by decide)

/-- Two instances read a credential. One has its refresh token refused and deletes it, the user
authorizes again, and the other one claims the refresh of the new credential and has the old
refresh token refused. -/
def staleRefresh : List (PoolAction Label Choice Event) :=
  [.launch (.callback sampleCredential 10), sampleCall "" .invalidGrant 0,
    .launch (.resolve "first" 5)] ++
  List.replicate 3 (sampleCall "" .invalidGrant 1) ++
  .launch (.resolve "second" 5) :: List.replicate 8 (sampleCall "one" .invalidGrant 2) ++
  [.launch (.callback sampleCredential 3600000), sampleCall "" .invalidGrant 3] ++
  List.replicate 4 (sampleCall "two" .invalidGrant 1)

/-- The other instance then deletes the new credential, which nobody has rejected. -/
theorem stale_refresh_deletes_newer_credential :
    ¬∀ (pool : Pool State Label Op Ans) (actions : List (PoolAction Label Choice Event)),
      machine.init pool → machine.Meets (Actors.OnCalls Reaches) pool actions := by
  intro hall
  have hmeets := hall samplePool (staleRefresh ++ [sampleCall "" .invalidGrant 1]) samplePool_init
  have hlast := (((machine.meets_append _ _ _ _).mp hmeets).2 _ rfl).1 _ _ _ rfl _ rfl rfl
  revert hlast
  decide

end Eveland.AgentAuth
