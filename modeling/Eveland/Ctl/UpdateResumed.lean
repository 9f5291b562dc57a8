/-
# Interrupted updates are taken up again

The record of an update is written before its checkout moves and goes only after phase 2 has
finished, and every stash is told to the operator before it is pushed. So an update can be killed
nearly anywhere and nothing is lost. The exception is the restored stash: it is applied first and
remembered afterwards, and a run that is killed in between has the next one offer it, and apply
it, again. And a record that cannot be read is taken for none.
-/

import Mathlib.Data.List.Nodup
import Mathlib.Tactic.Common
import Eveland.Ctl.Update

namespace Eveland.CtlUpdate

open Resumer

/-- The pending record names the stash. -/
def State.Names (s : State) (stashName : String) : Prop :=
  ∃ record, s.pendingUpdate = some record ∧ record.stashName = some stashName

/-- What an update that may be interrupted anywhere is to keep. -/
structure Intact (s : State) : Prop where
  /-- While the checkout is at a target whose phase 2 has not finished, there is a record for
  that target. -/
  pending : s.phaseTwoOwed = true →
    ∃ record, s.pendingUpdate = some record ∧ record.target = s.checkout
  /-- No `start` has brought such a tree up. -/
  notStarted : s.startedHalfUpdated = false
  /-- A stash is named by the record, or was told to the operator, until it is settled. -/
  stashes : ∀ stashName ∈ s.pushed,
    stashName ∈ s.settled ∨ s.Names stashName ∨ stashName ∈ s.reported
  /-- One that a record has named is named by the record until it is settled. -/
  recorded : ∀ stashName ∈ s.recorded, stashName ∈ s.settled ∨ s.Names stashName
  /-- No update applies a stash twice. -/
  once : s.applied.Nodup

/-! ## Terms -/

/-- What a run can start from. -/
structure Resumable (s : State) : Prop where
  pending : s.phaseTwoOwed = true →
    ∃ record, s.pendingUpdate = some record ∧ record.target = s.checkout
  notStarted : s.startedHalfUpdated = false
  reported : ∀ stashName ∈ s.pushed, stashName ∈ s.reported
  recorded : ∀ stashName ∈ s.recorded, stashName ∈ s.settled ∨ s.Names stashName
  once : (s.applied.map Prod.fst).Nodup
  past : ∀ update ∈ s.applied.map Prod.fst, update ≤ s.updates
  /-- The current update has applied no stash, unless its record says so. -/
  unrestored : ∀ record, s.pendingUpdate = some record → record.stashRestored = false →
    s.updates ∉ s.applied.map Prod.fst
  restored : ∀ record, s.pendingUpdate = some record → record.stashRestored = true →
    ∀ stashName, record.stashName = some stashName → stashName ∈ s.settled

theorem Resumable.intact {s : State} (h : Resumable s) : Intact s where
  pending := h.pending
  notStarted := h.notStarted
  stashes stashName hpushed := Or.inr (Or.inr (h.reported stashName hpushed))
  recorded := h.recorded
  once := List.Nodup.of_map _ h.once

/-- The calls between a stash that was applied and the record that remembers it. -/
def exposes : Op → Bool
  | .stashDrop _ => true
  | .writeTemp record => record.stashRestored
  | .renameTemp record => record.stashRestored
  | _ => false

/-- The record is read where there is one. -/
def readsRecord (s : State) : Op → Choice → Bool
  | .readPendingUpdate, choice => choice.readable || s.pendingUpdate.isNone
  | _, _ => true

/-- The terms of the control program. -/
def terms : Terms State Op Choice where
  safe := Intact
  resumable := Resumable
  exposed := exposes
  given s op choice := readsRecord s op choice

theorem resumable_intact (s : State) (h : Resumable s) : Intact s := h.intact

/-- The calls that leave the durable state as it is. -/
def Op.isSilent : Op → Bool
  | .report _ | .stashPush _ | .renameTemp _ | .checkout _ | .confirmRestore .. => false
  | .stashApply .. | .finishUpdate .. | .removePendingUpdate | .startPlatform => false
  | _ => true

theorem perform_silent {s t : State} {op : Op} {choice : Choice} {answer : Ans op}
    (hsilent : op.isSilent = true) (hperform : perform s op choice = some (t, answer)) :
    t = s := by
  cases op <;> first | (cases hperform; rfl) | cases hsilent

/-- A call that leaves a resumable state as it is. -/
theorem holds_read {s : State} {op : Op} {next : Ans op → Prog} (h : Resumable s)
    (hsilent : op.isSilent = true) (hnext : ∀ answer, ctl.Holds terms (next answer) s) :
    ctl.Holds terms (.call op next) s :=
  holds_silent resumable_intact h (fun _ _ _ hperform => perform_silent hsilent hperform)
    hnext

/-! ## What each effect keeps -/

theorem Resumable.report {s : State} (h : Resumable s) (stashName : String) :
    Resumable { s with reported := stashName :: s.reported } where
  pending := h.pending
  notStarted := h.notStarted
  reported name hpushed := List.mem_cons_of_mem _ (h.reported name hpushed)
  recorded := h.recorded
  once := h.once
  past := h.past
  unrestored := h.unrestored
  restored := h.restored

theorem Resumable.push {s : State} (h : Resumable s) (choice : Choice) {stashName : String}
    (hreported : stashName ∈ s.reported) : Resumable (s.push choice stashName) := by
  unfold State.push
  split
  · exact
      { pending := h.pending
        notStarted := h.notStarted
        reported := by
          intro name hpushed
          rcases List.mem_cons.mp hpushed with rfl | hold
          · exact hreported
          · exact h.reported name hold
        recorded := h.recorded
        once := h.once
        past := h.past
        unrestored := h.unrestored
        restored := h.restored }
  · exact h

/-- A record is begun where there is none: what was recorded before is settled, and the new
update has applied nothing. -/
theorem Resumable.begin {s : State} (h : Resumable s) (hnone : s.pendingUpdate = none)
    {record : PendingUpdate} (hrestored : record.stashRestored = false) :
    Resumable (s.record record) where
  pending howed := by
    obtain ⟨_, hpending, _⟩ := h.pending howed
    rw [hnone] at hpending
    cases hpending
  notStarted := h.notStarted
  reported := h.reported
  recorded := by
    intro name hmem
    rcases List.mem_append.mp hmem with hnew | hold
    · exact Or.inr ⟨record, rfl, Option.mem_toList.mp hnew⟩
    · rcases h.recorded name hold with hsettled | ⟨_, hpending, _⟩
      · exact Or.inl hsettled
      · rw [hnone] at hpending
        cases hpending
  once := h.once
  past update hmem := by
    have hpast := h.past update hmem
    simp only [State.record, hnone, Option.isNone_none, if_true]
    omega
  unrestored := by
    intro _ _ _ hmem
    have hpast := h.past _ hmem
    simp only [State.record, hnone, Option.isNone_none, if_true] at hpast
    omega
  restored := by
    intro record' hpending htrue
    obtain rfl := Option.some.inj hpending
    rw [hrestored] at htrue
    cases htrue

theorem Resumable.moveTo {s : State} (h : Resumable s) (choice : Choice) {record : PendingUpdate}
    (hpending : s.pendingUpdate = some record) : Resumable (s.moveTo choice record.target) := by
  unfold State.moveTo
  split
  · exact
      { pending := fun _ => ⟨record, hpending, rfl⟩
        notStarted := h.notStarted
        reported := h.reported
        recorded := h.recorded
        once := h.once
        past := h.past
        unrestored := h.unrestored
        restored := h.restored }
  · exact h

theorem Resumable.settle {s : State} (h : Resumable s) (stashName : String) :
    Resumable (s.settle stashName) where
  pending := h.pending
  notStarted := h.notStarted
  reported := h.reported
  recorded name hmem := (h.recorded name hmem).imp (List.mem_cons_of_mem _) id
  once := h.once
  past := h.past
  unrestored := h.unrestored
  restored record hpending htrue name hname :=
    List.mem_cons_of_mem _ (h.restored record hpending htrue name hname)

/-- Phase 2 has finished. -/
theorem Resumable.finish {s : State} (h : Resumable s) :
    Resumable { s with phaseTwoOwed := false } where
  pending := by
    intro howed
    cases howed
  notStarted := h.notStarted
  reported := h.reported
  recorded := h.recorded
  once := h.once
  past := h.past
  unrestored := h.unrestored
  restored := h.restored

/-- The record goes when phase 2 has finished and the stash it names is settled. -/
theorem Resumable.remove {s : State} (h : Resumable s) (howed : s.phaseTwoOwed = false)
    (hsettled : ∀ stashName, s.Names stashName → stashName ∈ s.settled) :
    Resumable { s with pendingUpdate := none } where
  pending htrue := by
    rw [show s.phaseTwoOwed = true from htrue] at howed
    cases howed
  notStarted := h.notStarted
  reported := h.reported
  recorded name hmem := Or.inl ((h.recorded name hmem).elim id (hsettled name))
  once := h.once
  past := h.past
  unrestored _ hpending := by cases hpending
  restored _ hpending := by cases hpending

/-- A start where no update is pending. -/
theorem Resumable.start {s : State} (h : Resumable s) (hnone : s.pendingUpdate = none) :
    Resumable { s with startedHalfUpdated := s.startedHalfUpdated || s.phaseTwoOwed } where
  pending := h.pending
  notStarted := by
    rw [h.notStarted, Bool.false_or]
    cases howed : s.phaseTwoOwed with
    | false => rfl
    | true =>
        obtain ⟨_, hpending, _⟩ := h.pending howed
        rw [hnone] at hpending
        cases hpending
  reported := h.reported
  recorded := h.recorded
  once := h.once
  past := h.past
  unrestored := h.unrestored
  restored := h.restored

/-! ## The restored stash -/

/-- The current update has applied its stash, and its record does not say so yet. -/
structure Unremembered (s : State) (record : PendingUpdate) : Prop where
  intact : Intact s
  pendingUpdate : s.pendingUpdate = some record
  reported : ∀ stashName ∈ s.pushed, stashName ∈ s.reported
  once : (s.applied.map Prod.fst).Nodup
  past : ∀ update ∈ s.applied.map Prod.fst, update ≤ s.updates
  settled : ∀ stashName, record.stashName = some stashName → stashName ∈ s.settled

theorem Resumable.apply {s : State} (h : Resumable s) {choice : Choice} {record : PendingUpdate}
    {stashName : String} (sha : String) (hpending : s.pendingUpdate = some record)
    (hname : record.stashName = some stashName) (hrestored : record.stashRestored = false)
    (hcode : choice.result.code = some 0) :
    Unremembered (s.applyStash choice stashName sha) record := by
  have hfresh := h.unrestored record hpending hrestored
  have honce : (((s.updates, sha) :: s.applied).map Prod.fst).Nodup :=
    List.nodup_cons.mpr ⟨hfresh, h.once⟩
  simp only [State.applyStash, hcode, if_true]
  exact
    { intact :=
        { pending := h.pending
          notStarted := h.notStarted
          stashes := fun name hpushed => Or.inr (Or.inr (h.reported name hpushed))
          recorded := fun name hmem => (h.recorded name hmem).imp (List.mem_cons_of_mem _) id
          once := List.Nodup.of_map _ honce }
      pendingUpdate := hpending
      reported := h.reported
      once := honce
      past := by
        intro update hmem
        rcases List.mem_cons.mp hmem with rfl | hold
        · exact Nat.le_refl _
        · exact h.past update hold
      settled := by
        intro name hname'
        obtain rfl := Option.some.inj (hname.symm.trans hname')
        exact List.mem_cons_self }

/-- The record remembers the stash. -/
theorem Unremembered.remember {s : State} {record : PendingUpdate} (h : Unremembered s record) :
    Resumable (s.record { record with stashRestored := true }) where
  pending howed := by
    obtain ⟨record', hpending, htarget⟩ := h.intact.pending howed
    obtain rfl := Option.some.inj (h.pendingUpdate.symm.trans hpending)
    exact ⟨_, rfl, htarget⟩
  notStarted := h.intact.notStarted
  reported := h.reported
  recorded := by
    intro name hmem
    rcases List.mem_append.mp hmem with hnew | hold
    · exact Or.inr ⟨_, rfl, Option.mem_toList.mp hnew⟩
    · rcases h.intact.recorded name hold with hsettled | ⟨record', hpending, hname⟩
      · exact Or.inl hsettled
      · obtain rfl := Option.some.inj (h.pendingUpdate.symm.trans hpending)
        exact Or.inr ⟨_, rfl, hname⟩
  once := h.once
  past update hmem := by
    have hpast := h.past update hmem
    simp only [State.record, h.pendingUpdate, Option.isNone_some]
    exact hpast
  unrestored := by
    intro record' hpending hfalse
    obtain rfl := Option.some.inj hpending
    cases hfalse
  restored := by
    intro record' hpending _ name hname
    obtain rfl := Option.some.inj hpending
    exact h.settled name hname

/-! ## Programs -/

/-- A stash name is told to the operator. -/
theorem holds_report {s : State} {stashName : String} {next : Prog} (h : Resumable s)
    (hnext : Resumable { s with reported := stashName :: s.reported } →
      ctl.Holds terms next { s with reported := stashName :: s.reported }) :
    ctl.Holds terms (.call (.report stashName) fun _ => next) s := by
  refine holds_call resumable_intact h ?_
  intro choice t answer _ hperform
  cases hperform
  exact hnext (h.report stashName)

/-- Phase 1 hands over when the stash the record names is settled. -/
theorem holds_handOver {s : State} (context : UpdateContext) (pending : PendingUpdate)
    (h : Resumable s) (hsettled : ∀ stashName, s.Names stashName → stashName ∈ s.settled) :
    ctl.Holds terms (handOver context pending) s := by
  refine holds_read h rfl fun install => ?_
  split
  · exact h
  · refine holds_call resumable_intact h ?_
    intro choice t finish _ hperform
    cases hperform
    by_cases hcode : choice.result.code = some 0
    · simp only [hcode, if_true, ne_eq, not_true_eq_false, if_false]
      have hfinished := h.finish
      refine holds_read hfinished rfl fun _ => holds_call resumable_intact hfinished ?_
      intro choice t answer _ hperform
      cases hperform
      have hremoved := hfinished.remove rfl hsettled
      exact holds_read hremoved rfl fun _ => hremoved
    · simp only [hcode, if_false, ne_eq, not_false_eq_true, if_true]
      exact h

/-- From the stash that was applied to the record that remembers it, every call is exposed. -/
theorem Unremembered.holds {s : State} {record : PendingUpdate} (h : Unremembered s record)
    (context : UpdateContext) (index : String) :
    ctl.Holds terms (.call (.stashDrop index) fun _ =>
      writePendingUpdate { record with stashRestored := true }
        (handOver context { record with stashRestored := true })) s := by
  refine holds_exposed h.intact rfl ?_
  intro choice t answer _ hperform
  cases hperform
  refine holds_exposed h.intact rfl ?_
  intro choice t answer _ hperform
  cases hperform
  refine holds_exposed h.intact rfl ?_
  intro choice t answer _ hperform
  cases hperform
  refine holds_handOver context _ h.remember ?_
  rintro stashName ⟨record', hpending, hname⟩
  obtain rfl := Option.some.inj hpending
  exact h.settled stashName hname

theorem holds_restoreStash {s : State} (context : UpdateContext) {pending : PendingUpdate}
    {stashName : String} (h : Resumable s) (hpending : s.pendingUpdate = some pending)
    (hname : pending.stashName = some stashName) (hrestored : pending.stashRestored = false) :
    ctl.Holds terms (restoreStash context pending stashName) s := by
  refine holds_read h rfl fun list => ?_
  split
  · exact holds_report h fun h => h
  · next entry _ =>
      refine holds_call resumable_intact h ?_
      intro choice t apply _ hperform
      cases hperform
      by_cases hcode : choice.result.code = some 0
      · simp only [hcode, ne_eq, not_true_eq_false, if_false]
        exact (h.apply entry.sha hpending hname hrestored hcode).holds context entry.index
      · simp only [hcode, State.applyStash, if_false, ne_eq, not_false_eq_true, if_true]
        exact holds_report h fun h => h

/-- Everything after the pending record exists. -/
theorem holds_completeUpdate {s : State} (context : UpdateContext) {pending : PendingUpdate}
    (h : Resumable s) (hpending : s.pendingUpdate = some pending) :
    ctl.Holds terms (completeUpdate context pending) s := by
  refine holds_read h rfl fun _ => holds_call resumable_intact h ?_
  intro choice t checkout _ hperform
  cases hperform
  have hmoved := h.moveTo choice hpending
  have hpending' : (s.moveTo choice pending.target).pendingUpdate = some pending := by
    unfold State.moveTo
    split <;> exact hpending
  generalize s.moveTo choice pending.target = s' at hmoved hpending'
  split
  · exact hmoved
  · split
    · next hnone =>
        refine holds_handOver context pending hmoved ?_
        rintro stashName ⟨record, hrecord, hname⟩
        obtain rfl := Option.some.inj (hpending'.symm.trans hrecord)
        rw [hnone] at hname
        cases hname
    · next stashName hname =>
        split
        · next hrestored =>
            refine holds_handOver context pending hmoved ?_
            rintro stashName' ⟨record, hrecord, hname'⟩
            obtain rfl := Option.some.inj (hpending'.symm.trans hrecord)
            exact hmoved.restored _ hrecord hrestored stashName' hname'
        · next hrestored =>
            refine holds_call resumable_intact hmoved ?_
            intro choice t restore _ hperform
            cases hperform
            cases choice.confirms context.interactive with
            | true =>
                exact holds_restoreStash context hmoved hpending' hname
                  (by simpa using hrestored)
            | false =>
                refine holds_report (hmoved.settle stashName) fun hreported => ?_
                refine holds_handOver context pending hreported ?_
                rintro stashName' ⟨record, hrecord, hname'⟩
                obtain rfl := Option.some.inj (hpending'.symm.trans hrecord)
                obtain rfl := Option.some.inj (hname.symm.trans hname')
                exact List.mem_cons_self

/-- A record is begun where there is none. -/
theorem holds_beginUpdate {s : State} (context : UpdateContext) (currentVersion target : String)
    (backupPath stashName stashRef : Option String) (h : Resumable s)
    (hnone : s.pendingUpdate = none) :
    ctl.Holds terms (beginUpdate context currentVersion target backupPath stashName stashRef)
      s := by
  refine holds_read h rfl fun evePinBefore => holds_read h rfl fun startedAt =>
    holds_read h rfl fun _ => holds_call resumable_intact h ?_
  intro choice t answer _ hperform
  cases hperform
  exact holds_completeUpdate context (h.begin hnone rfl) rfl

theorem holds_stashChanges {s : State} (context : UpdateContext) (currentVersion target : String)
    (backupPath : Option String) (h : Resumable s) (hnone : s.pendingUpdate = none) :
    ctl.Holds terms (stashChanges context currentVersion target backupPath) s := by
  refine holds_read h rfl fun now => holds_report h fun hreported => ?_
  refine holds_call resumable_intact hreported ?_
  intro choice t stash _ hperform
  cases hperform
  have hpushed : Resumable (State.push _ choice ("eveland-ctl-update-" ++ toString now)) :=
    hreported.push choice List.mem_cons_self
  split
  · exact hpushed
  · refine holds_read hpushed rfl fun ref => ?_
    refine holds_beginUpdate context currentVersion target backupPath _ _ hpushed ?_
    unfold State.push
    split <;> exact hnone

theorem holds_stopAndStash {s : State} (context : UpdateContext) (currentVersion target : String)
    (backupPath : Option String) (h : Resumable s) (hnone : s.pendingUpdate = none) :
    ctl.Holds terms (stopAndStash context currentVersion target backupPath) s := by
  refine holds_read h rfl fun stopCode => ?_
  split
  · exact h
  · refine holds_read h rfl fun status => ?_
    split
    · exact holds_beginUpdate context currentVersion target backupPath none none h hnone
    · have hstash := holds_stashChanges context currentVersion target backupPath h hnone
      split
      · exact holds_read h rfl fun _ => hstash
      · exact hstash

theorem holds_backUp {s : State} (context : UpdateContext) (args : UpdateArgs)
    (currentVersion target : String) (h : Resumable s) (hnone : s.pendingUpdate = none) :
    ctl.Holds terms (backUp context args currentVersion target) s := by
  refine holds_read h rfl fun envFile => ?_
  split
  · exact h
  · split
    · exact holds_stopAndStash context currentVersion target none h hnone
    · refine holds_read h rfl fun stamp => holds_read h rfl fun dump => ?_
      split
      · exact h
      · exact holds_stopAndStash context currentVersion target _ h hnone

theorem holds_acknowledgeBreakingChanges {s : State} (context : UpdateContext) (yes : Bool)
    (target : String) {next : Bool → Prog} (h : Resumable s)
    (hnext : ∀ acknowledged, ctl.Holds terms (next acknowledged) s) :
    ctl.Holds terms (acknowledgeBreakingChanges context yes target next) s := by
  refine holds_read h rfl fun breaking => ?_
  split
  · exact hnext true
  · exact holds_read h rfl hnext

theorem holds_chooseTarget {s : State} (args : UpdateArgs) {next : Option String → Prog}
    (h : Resumable s) (hnext : ∀ target, ctl.Holds terms (next target) s) :
    ctl.Holds terms (chooseTarget args next) s := by
  unfold chooseTarget
  split
  · exact hnext _
  · exact holds_read h rfl fun tags => hnext _

theorem holds_freshUpdate {s : State} (context : UpdateContext) (args : UpdateArgs)
    (h : Resumable s) (hnone : s.pendingUpdate = none) :
    ctl.Holds terms (freshUpdate context args) s := by
  refine holds_read h rfl fun fetch => ?_
  split
  · exact h
  · refine holds_read h rfl fun currentVersion => ?_
    refine holds_chooseTarget args h fun target => ?_
    cases target with
    | none => exact h
    | some target =>
        dsimp only
        split
        · exact h
        · split
          · exact h
          · refine holds_acknowledgeBreakingChanges context args.yes target h ?_
            intro acknowledged
            split
            · exact holds_backUp context args currentVersion target h hnone
            · exact h

/-- A run of `update` takes the pending one up, or begins one where none is pending. -/
theorem holds_runUpdateLocked {s : State} (args : UpdateArgs) (h : Resumable s) :
    ctl.Holds terms (runUpdateLocked args) s := by
  unfold runUpdateLocked
  split
  · exact h
  · next keepBackups _ =>
      refine holds_read h rfl fun metadata => ?_
      split
      · exact h
      · refine holds_call resumable_intact h ?_
        intro choice t answer hreadable hperform
        cases hperform
        cases hpending : s.pendingUpdate with
        | none =>
            simp only [ite_self]
            exact holds_freshUpdate _ args h hpending
        | some pending =>
            have hread : choice.readable = true := by
              simpa [terms, readsRecord, hpending] using hreadable
            simp only [hread, if_true]
            refine holds_read h rfl fun stopCode => ?_
            split
            · exact h
            · exact holds_completeUpdate _ h hpending

theorem holds_runStart {s : State} (h : Resumable s) : ctl.Holds terms runStart s := by
  refine holds_call resumable_intact h ?_
  intro choice t answer hreadable hperform
  cases hperform
  cases hpending : s.pendingUpdate with
  | none =>
      simp only [ite_self]
      refine holds_call resumable_intact h ?_
      intro choice t answer _ hperform
      cases hperform
      exact h.start hpending
  | some pending =>
      have hread : choice.readable = true := by
        simpa [terms, readsRecord, hpending] using hreadable
      simp only [hread, if_true]
      exact h

theorem ctl_upholds : ctl.Upholds terms where
  safe := resumable_intact
  launch
    | .update args, _, h => holds_runUpdateLocked args h
    | .start, _, h => holds_runStart h

theorem Fresh.resumable {s : State} (h : Fresh s) : Resumable s where
  pending howed := by
    rw [h.phaseTwoOwed] at howed
    cases howed
  notStarted := h.startedHalfUpdated
  reported := by simp [h.pushed]
  recorded := by simp [h.recorded]
  once := by simp [h.applied]
  past := by simp [h.applied]
  unrestored := by simp [h.applied]
  restored := by simp [h.pendingUpdate]

/-- In every state of a run of the control program in which the pending record is read where
there is one, and nothing crashes between a stash that was applied and the record that remembers
it, every interrupted update can be taken up again, no stash is lost, and none is applied
twice. -/
theorem updates_are_resumable {desk : Desk State Op Ans}
    {actions : List (DeskAction Command Choice)} (hinit : (ctl.machine Fresh).init desk)
    (hcovered : (ctl.machine Fresh).Meets
      (fun desk action => Covered terms desk action = true) desk actions) :
    (ctl.machine Fresh).Always (fun desk => Intact desk.durable) desk actions :=
  always_safe ctl_upholds hinit (fun _ h => h.resumable) hcovered

/-! ## Two interrupted updates -/

/-- An installation at its first version. -/
def installed : Desk State Op Ans where
  durable :=
    { checkout := "v1.0.0", phaseTwoOwed := false, pendingUpdate := none, updates := 0
      pushed := [], reported := [], recorded := [], settled := [], applied := []
      startedHalfUpdated := false }
  program := .done

theorem installed_init : (ctl.machine Fresh).init installed :=
  ⟨⟨rfl, rfl, rfl, rfl, rfl, rfl⟩, rfl⟩

/-- Everything succeeds, and every question is answered with yes; a command prints the text. -/
def succeeds (output : String) : DeskAction Command Choice :=
  .call
    { result := { code := some 0, output }
      takesEffect := true
      agrees := true
      readable := true
      clock := 1 }

/-- An update is started, and its calls print these texts. -/
def updating (outputs : List String) : List (DeskAction Command Choice) :=
  .launch (.update
    { version := some "v1.1.0"
      yes := true
      noPrompt := false
      skipBackup := true
      keepBackups := none }) :: outputs.map succeeds

/-- The calls up to the record of an update with local changes. -/
def untilRecorded : List String :=
  ["", "", "", "1.0.0", "", "", "", " M README.md", "", "", "", "5745a5", "", "", "", ""]

/-- `git stash list`, with the stash of the update as its only entry. -/
def stashListOutput : String := "5745a5 stash@\x7b0\x7d On main: eveland-ctl-update-1"

/-- An update is killed when the checkout has moved; the next run takes it up and restores the
stash, and the update is complete. -/
def killedBeforeRestore : List (DeskAction Command Choice) :=
  updating (untilRecorded ++ ["", ""]) ++ .crash ::
    updating ["", "", "", "", "", "", stashListOutput, "", "", "", "", "", "", "", "", ""]

/-- Everything the interrupted update had set aside is back, and its record is gone. -/
theorem updates_are_resumable_killedBeforeRestore :
    (ctl.machine Fresh).Always (fun desk => Intact desk.durable) installed killedBeforeRestore ∧
      ∃ after, (ctl.machine Fresh).exec installed killedBeforeRestore = some after ∧
        after.durable.checkout = "v1.1.0" ∧ after.durable.pendingUpdate = none ∧
        after.durable.settled = after.durable.pushed := by
  have hcovered : (ctl.machine Fresh).Meets
      (fun desk action => Covered terms desk action = true) installed killedBeforeRestore := by
    decide +kernel
  exact ⟨updates_are_resumable installed_init hcovered, _, rfl, rfl, rfl, rfl⟩

/-- An update is killed when it has applied the stash; the next run offers the stash, and
applies it, again. -/
def killedAfterApply : List (DeskAction Command Choice) :=
  updating (untilRecorded ++ ["", "", "", stashListOutput, ""]) ++ .crash ::
    updating ["", "", "", "", "", "", stashListOutput, ""]

theorem stash_is_applied_twice :
    ¬ ∀ (desk : Desk State Op Ans) (actions : List (DeskAction Command Choice)),
      (ctl.machine Fresh).init desk →
        (ctl.machine Fresh).Always (fun desk => Intact desk.durable) desk actions := by
  intro hall
  have hintact := (hall installed killedAfterApply installed_init).of_exec rfl
  exact absurd hintact.once (by decide)

end Eveland.CtlUpdate
