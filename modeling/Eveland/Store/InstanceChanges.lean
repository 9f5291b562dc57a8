/-
# What a call does to the instances

Said once for every invariant: a call of the runtime store either inserts an instance of the
next generation, where the latest one is dead, or rewrites columns other than the key. Only
`updateRuntimeInstance` can make a dead instance live again, because it looks at no status.
-/

import Eveland.Store.RuntimeStore

namespace Eveland.RuntimeStore

/-! ## The latest generation -/

theorem newest_spec {rows : List RuntimeInstance} {row : RuntimeInstance}
    (hnewest : newest rows = some row) :
    row ∈ rows ∧ ∀ other ∈ rows, other.generation ≤ row.generation := by
  induction rows generalizing row with
  | nil => cases hnewest
  | cons head rest ih =>
      obtain rfl := Option.some.inj hnewest
      cases hrest : newest rest with
      | none =>
          have hempty : rest = [] := by
            cases rest with
            | nil => rfl
            | cons => cases hrest
          simp [newer, hempty]
      | some best =>
          obtain ⟨hmem, hbest⟩ := ih hrest
          simp only [newer]
          split
          · next hlt =>
              refine ⟨List.mem_cons_self, fun other hother => ?_⟩
              rcases List.mem_cons.mp hother with rfl | hother
              · exact le_rfl
              · exact (hbest other hother).trans hlt.le
          · next hle =>
              refine ⟨List.mem_cons_of_mem _ hmem, fun other hother => ?_⟩
              rcases List.mem_cons.mp hother with rfl | hother
              · exact not_lt.mp hle
              · exact hbest other hother

theorem newest_eq_none {rows : List RuntimeInstance} : newest rows = none ↔ rows = [] := by
  cases rows <;> simp [newest]

/-- The generation of the next instance is above every one of its deployment. -/
theorem lt_nextInstance {s : Store} {deploymentId id : String} {status : RuntimeInstanceStatus}
    {endpointPort : Option ℕ} {readyAt : Option ℤ} {now : ℤ} {other : RuntimeInstance}
    (hother : other ∈ s.instances) (hdeployment : other.deploymentId = deploymentId) :
    other.generation <
      (nextInstance (s.latestRuntimeInstance deploymentId) deploymentId id status endpointPort
        readyAt now).generation := by
  have hmem : other ∈ s.instances.filter fun row => row.deploymentId = deploymentId :=
    List.mem_filter.mpr ⟨hother, by simpa using hdeployment⟩
  cases hlatest : s.latestRuntimeInstance deploymentId with
  | none =>
      rw [newest_eq_none.mp hlatest] at hmem
      cases hmem
  | some latest =>
      have := (newest_spec hlatest).2 other hmem
      simp only [nextInstance, Option.map_some, Option.getD_some]
      omega

/-! ## Changes -/

/-- A row that has reached `stopped` or `failed`. -/
def RuntimeInstance.isDead (row : RuntimeInstance) : Prop := row.status.isLive = false

/-- The primary key and the unique index of the generations. -/
structure InstanceRows (rows : List RuntimeInstance) : Prop where
  ids : Table.UniqueOn RuntimeInstance.id rows
  generations : Table.UniqueOn RuntimeInstance.key rows

/-- At most one instance of a deployment is live, and it is the one of the highest
generation. -/
def OneLive (rows : List RuntimeInstance) : Prop :=
  ∀ row ∈ rows, row.status.isLive = true → ∀ other ∈ rows,
    other.deploymentId = row.deploymentId →
      other.generation ≤ row.generation ∧ (other.status.isLive = true → other = row)

/-- A change of the instances that revives none of them where `Q` holds. -/
inductive Change (Q : Prop) (rows : List RuntimeInstance) : List RuntimeInstance → Prop
  | insert (row : RuntimeInstance) (hid : ∀ other ∈ rows, other.id ≠ row.id)
      (hgeneration : ∀ other ∈ rows, other.deploymentId = row.deploymentId →
        other.generation < row.generation)
      (hlatest : ∀ latest,
        newest (rows.filter fun other => other.deploymentId = row.deploymentId) = some latest →
          latest.isDead) :
      Change Q rows (rows ++ [row])
  | rewrite (g : RuntimeInstance → RuntimeInstance) (hid : ∀ row, (g row).id = row.id)
      (hkey : ∀ row, (g row).key = row.key) (hdead : Q → ∀ row ∈ rows, row.isDead → (g row).isDead) :
      Change Q rows (rows.map g)

namespace Change

variable {Q : Prop} {rows after : List RuntimeInstance}

theorem refl (Q : Prop) (rows : List RuntimeInstance) : Change Q rows rows := by
  simpa using Change.rewrite id (fun _ => rfl) (fun _ => rfl)
    fun _ _ _ h => h

/-- An update of the rows a predicate selects. -/
theorem update {p : RuntimeInstance → Bool} {f : RuntimeInstance → RuntimeInstance}
    (hid : ∀ row, (f row).id = row.id) (hkey : ∀ row, (f row).key = row.key)
    (hdead : Q → ∀ row ∈ rows, p row = true → row.isDead → (f row).isDead) :
    Change Q rows (Table.updateWhere p f rows) := by
  refine .rewrite (fun row => if p row then f row else row) (fun row => ?_) (fun row => ?_)
    fun hQ row hrow hrowDead => ?_
  · split
    · exact hid row
    · rfl
  · split
    · exact hkey row
    · rfl
  · split
    · next hp => exact hdead hQ row hrow hp hrowDead
    · exact hrowDead

theorem instanceRows (hchange : Change Q rows after) (hrows : InstanceRows rows) :
    InstanceRows after := by
  cases hchange with
  | insert row hid hgeneration =>
      refine ⟨hrows.ids.append hid, hrows.generations.append fun other hother hkey => ?_⟩
      obtain ⟨hdeployment, hsame⟩ := Prod.mk.inj hkey
      exact absurd hsame (hgeneration other hother hdeployment).ne
  | rewrite g hid hkey =>
      refine ⟨?_, ?_⟩
      · rw [Table.UniqueOn, List.map_map, show RuntimeInstance.id ∘ g = RuntimeInstance.id from
          funext hid]
        exact hrows.ids
      · rw [Table.UniqueOn, List.map_map, show RuntimeInstance.key ∘ g = RuntimeInstance.key from
          funext hkey]
        exact hrows.generations

/-- A change that revives nothing keeps at most one instance live. -/
theorem oneLive (hQ : Q) (hchange : Change Q rows after) (hrows : InstanceRows rows)
    (honeLive : OneLive rows) : OneLive after := by
  cases hchange with
  | insert row hid hgeneration hlatest =>
      -- No older instance of the deployment is live: one that is would be the latest.
      have hnone : ∀ other ∈ rows, other.deploymentId = row.deploymentId → other.isDead := by
        intro other hother hdeployment
        cases hlive : other.status.isLive with
        | false => exact hlive
        | true =>
            have hmem : other ∈ rows.filter fun r => r.deploymentId = row.deploymentId :=
              List.mem_filter.mpr ⟨hother, decide_eq_true hdeployment⟩
            cases hfound : newest (rows.filter fun r => r.deploymentId = row.deploymentId) with
            | none =>
                rw [newest_eq_none.mp hfound] at hmem
                cases hmem
            | some latest =>
                obtain ⟨hlatestMem, hhighest⟩ := newest_spec hfound
                obtain ⟨hlatestRow, hsame⟩ := List.mem_filter.mp hlatestMem
                have hdeployment' : latest.deploymentId = other.deploymentId :=
                  (of_decide_eq_true hsame).trans hdeployment.symm
                have hle := (honeLive other hother hlive latest hlatestRow hdeployment').1
                have hkey : latest.key = other.key := Prod.ext hdeployment'
                  (le_antisymm hle (hhighest other hmem))
                exact hrows.generations.eq hlatestRow hother hkey ▸ hlatest latest hfound
      intro first hfirst hlive second hsecond hdeployment
      rcases List.mem_append.mp hfirst with hfirstOld | hfirstNew <;>
        rcases List.mem_append.mp hsecond with hsecondOld | hsecondNew
      · exact honeLive first hfirstOld hlive second hsecondOld hdeployment
      · obtain rfl := List.mem_singleton.mp hsecondNew
        rw [hnone first hfirstOld hdeployment.symm] at hlive
        cases hlive
      · obtain rfl := List.mem_singleton.mp hfirstNew
        refine ⟨(hgeneration second hsecondOld hdeployment).le, fun hsecondLive => ?_⟩
        rw [hnone second hsecondOld hdeployment] at hsecondLive
        cases hsecondLive
      · obtain rfl := List.mem_singleton.mp hfirstNew
        obtain rfl := List.mem_singleton.mp hsecondNew
        exact ⟨le_rfl, fun _ => rfl⟩
  | rewrite g hid hkey hdead =>
      have hlive : ∀ row ∈ rows, (g row).status.isLive = true → row.status.isLive = true := by
        intro row hrow hg
        cases hrowLive : row.status.isLive with
        | true => rfl
        | false =>
            rw [hdead hQ row hrow hrowLive] at hg
            cases hg
      intro image himage himageLive image' himage' hdeployment
      obtain ⟨first, hfirst, rfl⟩ := List.mem_map.mp himage
      obtain ⟨second, hsecond, rfl⟩ := List.mem_map.mp himage'
      obtain ⟨hfirstDeployment, hfirstGeneration⟩ := Prod.mk.inj (hkey first)
      obtain ⟨hsecondDeployment, hsecondGeneration⟩ := Prod.mk.inj (hkey second)
      rw [hfirstDeployment, hsecondDeployment] at hdeployment
      obtain ⟨hle, hsame⟩ :=
        honeLive first hfirst (hlive first hfirst himageLive) second hsecond hdeployment
      refine ⟨by rw [hfirstGeneration, hsecondGeneration]; exact hle, fun hsecondLive => ?_⟩
      rw [hsame (hlive second hsecond hsecondLive)]

/-- A change that revives nothing keeps the dead instances dead. -/
theorem keepsDead (hQ : Q) (hchange : Change Q rows after) {row : RuntimeInstance}
    (hrow : row ∈ rows) (hdead : row.isDead) :
    ∃ later ∈ after, later.id = row.id ∧ later.isDead := by
  cases hchange with
  | insert => exact ⟨row, List.mem_append_left _ hrow, rfl, hdead⟩
  | rewrite g hid hkey hkeeps =>
      exact ⟨g row, List.mem_map_of_mem hrow, hid row, hkeeps hQ row hrow hdead⟩

end Change

/-! ## Calls -/

variable {s t : Store}

theorem insertInstance_eq_ok {row : RuntimeInstance} :
    insertInstance s row = .ok t ↔
      (∀ other ∈ s.instances, other.id ≠ row.id) ∧
        t = { s with instances := s.instances ++ [row] } := by
  simp only [insertInstance, Outcome.bind_eq_ok, Outcome.ensure_eq_ok, List.all_eq_true,
    decide_eq_true_eq, exists_const]
  constructor
  · rintro ⟨hid, ht⟩
    exact ⟨hid, (Except.ok.inj ht).symm⟩
  · rintro ⟨hid, rfl⟩
    exact ⟨hid, rfl⟩

/-- Inserting the next generation where the latest instance is dead. -/
theorem insertInstance_change {deploymentId id : String} {status : RuntimeInstanceStatus}
    {endpointPort : Option ℕ} {readyAt : Option ℤ} {now : ℤ} (Q : Prop)
    (hlatest : ∀ latest, s.latestRuntimeInstance deploymentId = some latest → latest.isDead)
    (hinsert : insertInstance s (nextInstance (s.latestRuntimeInstance deploymentId) deploymentId
      id status endpointPort readyAt now) = .ok t) :
    Change Q s.instances t.instances := by
  obtain ⟨hid, rfl⟩ := insertInstance_eq_ok.mp hinsert
  exact .insert _ hid (fun other hother hdeployment => lt_nextInstance hother hdeployment) hlatest

/-- What acquiring a lease comes to: the latest instance is not draining, the lease refers to
it where it may, and to a new one of the next generation elsewhere. -/
theorem acquireActivationLease_spec {input : AcquireInput} {instanceId leaseId : String}
    {claim : ActivationLeaseClaim}
    (hacquire : acquireActivationLease s input instanceId leaseId = .ok (t, claim)) :
    (∀ latest, s.latestRuntimeInstance input.deploymentId = some latest →
        latest.status ≠ .draining) ∧
      ∃ middle, t = upsertLease middle input leaseId claim.runtimeInstance.id ∧
        t.leaseOf input = some claim.lease ∧
        (middle = s ∧ reusable (s.latestRuntimeInstance input.deploymentId) =
            some claim.runtimeInstance ∨
          reusable (s.latestRuntimeInstance input.deploymentId) = none ∧
            insertInstance s (nextInstance (s.latestRuntimeInstance input.deploymentId)
              input.deploymentId instanceId .starting none none input.now) = .ok middle) := by
  obtain ⟨_, _, hacquire⟩ := Outcome.bind_eq_ok.mp hacquire
  obtain ⟨_, hdraining, hacquire⟩ := Outcome.bind_eq_ok.mp hacquire
  obtain ⟨⟨middle, row, starter⟩, hchoose, hacquire⟩ := Outcome.bind_eq_ok.mp hacquire
  obtain ⟨lease, hlease, hresult⟩ := Outcome.bind_eq_ok.mp hacquire
  cases hresult
  refine ⟨fun latest hlatest => ?_, middle, rfl, Outcome.require_eq_ok.mp hlease, ?_⟩
  · rw [hlatest] at hdraining
    simpa using Outcome.ensure_eq_ok.mp hdraining
  · simp only [chooseInstance] at hchoose
    split at hchoose
    · next hreusable =>
        cases hchoose
        exact Or.inl ⟨rfl, hreusable⟩
    · next hreusable =>
        obtain ⟨inserted, hinsert, hresult⟩ := Outcome.map_eq_ok.mp hchoose
        cases hresult
        exact Or.inr ⟨hreusable, hinsert⟩

/-- A lease is acquired on the latest instance, or on a new one where the latest is dead. -/
theorem acquireActivationLease_change {input : AcquireInput} {instanceId leaseId : String}
    {claim : ActivationLeaseClaim} (Q : Prop)
    (hacquire : acquireActivationLease s input instanceId leaseId = .ok (t, claim)) :
    Change Q s.instances t.instances := by
  obtain ⟨hdraining, middle, rfl, _, ⟨rfl, _⟩ | ⟨hreusable, hinsert⟩⟩ :=
    acquireActivationLease_spec hacquire
  · exact Change.refl Q _
  · have hchange : Change Q s.instances middle.instances := by
      refine insertInstance_change Q (fun latest hlatest => ?_) hinsert
      have hnot := hdraining latest hlatest
      rw [hlatest] at hreusable
      simp only [reusable, Option.filter_eq_none_iff, Option.some.injEq, forall_eq',
        Bool.or_eq_true, decide_eq_true_eq, not_or] at hreusable
      cases hstatus : latest.status <;>
        simp_all [RuntimeInstance.isDead, RuntimeInstanceStatus.isLive]
    exact hchange

theorem adoptRuntimeInstance_change {deploymentId instanceId : String} {endpointPort : ℕ}
    {now : ℤ} {adopted : Option RuntimeInstance} (Q : Prop)
    (hadopt : adoptRuntimeInstance s deploymentId endpointPort instanceId now = .ok (t, adopted)) :
    Change Q s.instances t.instances := by
  simp only [adoptRuntimeInstance] at hadopt
  split at hadopt
  · cases hadopt
    exact Change.refl Q _
  · split at hadopt
    · cases hadopt
      exact Change.refl Q _
    · next hdead =>
        split at hadopt
        · cases hadopt
          exact Change.refl Q _
        · obtain ⟨inserted, hinsert, hresult⟩ := Outcome.bind_eq_ok.mp hadopt
          cases hresult
          refine insertInstance_change Q (fun latest hlatest => ?_) hinsert
          rw [hlatest] at hdead
          simpa [RuntimeInstance.isDead] using hdead

/-- An update makes no dead instance live if the row it is for is live, or the status it
writes is not. -/
theorem updateRuntimeInstance_change {id : String} {update : InstanceUpdate} {now : ℤ}
    {updated : Option RuntimeInstance} (hrows : InstanceRows s.instances)
    (hupdate : updateRuntimeInstance s id update now = .ok (t, updated)) :
    Change (update.status.isLive = true → ∀ row, s.getRuntimeInstance id = some row →
        update.conflicts s row = false → row.status.isLive = true)
      s.instances t.instances := by
  simp only [updateRuntimeInstance] at hupdate
  split at hupdate
  · cases hupdate
    exact Change.refl _ _
  · next found hfound =>
      split at hupdate
      · cases hupdate
      · next hfree =>
          cases hupdate
          refine Change.update (fun _ => rfl) (fun _ => rfl) fun hQ row hrow hselected hdead => ?_
          have hrow' : row = found :=
            hrows.ids.eq_of_find? hfound hrow (of_decide_eq_true hselected)
          cases hlive : update.status.isLive with
          | false => exact hlive
          | true =>
              have := hQ hlive found hfound (by simpa using hfree)
              rw [hrow', RuntimeInstance.isDead, this] at hdead
              cases hdead

theorem reserveRuntimeInstancePort_change (Q : Prop) (s : Store) (id : String) (port : ℕ) :
    Change Q s.instances (reserveRuntimeInstancePort s id port).1.instances := by
  unfold reserveRuntimeInstancePort
  split
  · exact Change.refl Q _
  · split
    · exact Change.refl Q _
    · exact Change.update (fun _ => rfl) (fun _ => rfl) fun _ row _ _ hdead => hdead

/-- A claim drains ready instances only. -/
theorem claimIdleRuntimeInstances_change (Q : Prop) (s : Store) (now idleTtlMs : ℤ)
    (picked : List String) :
    Change Q s.instances (claimIdleRuntimeInstances s now idleTtlMs picked).1.instances := by
  refine Change.update (fun _ => rfl) (fun _ => rfl) fun _ row _ hselected hdead => ?_
  simp only [Store.drains, Bool.and_eq_true, decide_eq_true_eq] at hselected
  rw [RuntimeInstance.isDead, hselected.1.2] at hdead
  cases hdead

end Eveland.RuntimeStore
