/-
# Usage counters

The counters of a session are kept next to the usage rows they count. Every write changes both
alike: a row that is recorded is added, a missing row that is filled in is counted again as
reported, and the rows of a session that is folded into another take their counts along.

A model run is the pair of a node and a run key. The unique indexes leave one row for it, in
whatever order its missing usage and its report come in.
-/

import Eveland.Foundations.Aggregates
import Eveland.Telemetry.System

namespace Eveland.Telemetry

/-! ## One row for a run -/

theorem ModelUsageEvent.sameInSession_symm {first second : ModelUsageEvent}
    (hsame : first.sameInSession second = true) : second.sameInSession first = true := by
  simp only [sameInSession, Bool.and_eq_true, Bool.or_eq_true, decide_eq_true_eq] at hsame ⊢
  obtain ⟨⟨hsession, heve⟩, hkey⟩ := hsame
  refine ⟨⟨hsession.symm, heve.symm⟩, hkey.imp ?_ ?_⟩
  · rintro ⟨⟨hturn, hsome⟩, hstep⟩
    exact ⟨⟨hturn.symm, hstep ▸ hsome⟩, hstep.symm⟩
  · rintro ⟨hsome, hrun⟩
    exact ⟨hrun ▸ hsome, hrun.symm⟩

theorem ModelUsageEvent.sameInNode_symm {first second : ModelUsageEvent}
    (hsame : first.sameInNode second = true) : second.sameInNode first = true := by
  simp only [sameInNode, Bool.and_eq_true, Bool.or_eq_true, decide_eq_true_eq] at hsame ⊢
  obtain ⟨⟨hnode, heq⟩, hkey⟩ := hsame
  refine ⟨⟨heq ▸ hnode, heq.symm⟩, hkey.imp ?_ ?_⟩
  · rintro ⟨⟨hturn, hsome⟩, hstep⟩
    exact ⟨⟨hturn.symm, hstep ▸ hsome⟩, hstep.symm⟩
  · rintro ⟨hsome, hrun⟩
    exact ⟨hrun ▸ hsome, hrun.symm⟩

/-- The sum over the usage rows of a session. -/
def Store.usageTotal (s : Store) (sessionId : String) : UsageCounters :=
  Table.total (fun row => row.sessionId = sessionId) ModelUsageEvent.contribution s.usage

/-- Usage rows are unique by their indexes, belong to the session of their node, hold figures
only if they are reported, and add up to the counters of their session. -/
structure Counted (s : Store) : Prop where
  usageIds : Table.UniqueOn ModelUsageEvent.id s.usage
  inSession : Table.Separated ModelUsageEvent.sameInSession ModelUsageEvent.id s.usage
  inNode : Table.Separated ModelUsageEvent.sameInNode ModelUsageEvent.id s.usage
  owned : ∀ row ∈ s.usage, ∀ nodeId, row.sessionNodeId = some nodeId →
    s.HasNode nodeId row.sessionId row.eveSessionId
  missing : ∀ row ∈ s.usage, row.sessionNodeId.isSome → row.usageReported = false →
    row.contribution = missingStep
  counters : ∀ session ∈ s.sessions, session.counters = s.usageTotal session.id

namespace Counted

variable {s t : Store}

/-- Usage that is left alone stays counted, as long as its nodes stay in their sessions and the
sessions keep their counters. -/
theorem frame (hcounted : Counted s) (husage : t.usage = s.usage)
    (hnodes : ∀ nodeId sessionId eveSessionId, s.HasNode nodeId sessionId eveSessionId →
      t.HasNode nodeId sessionId eveSessionId)
    (hsessions : ∀ session ∈ t.sessions, session.counters = s.usageTotal session.id) :
    Counted t where
  usageIds := husage ▸ hcounted.usageIds
  inSession := husage ▸ hcounted.inSession
  inNode := husage ▸ hcounted.inNode
  owned := by
    intro row hrow nodeId hnode
    rw [husage] at hrow
    exact hnodes _ _ _ (hcounted.owned row hrow nodeId hnode)
  missing := husage ▸ hcounted.missing
  counters := by
    intro session hsession
    rw [hsessions session hsession, Store.usageTotal, Store.usageTotal, husage]

/-- An update of the counters of one session. -/
theorem addCounters_counters {sessionId : String} {f : UsageCounters → UsageCounters}
    {total : String → UsageCounters}
    (hother : ∀ session ∈ s.sessions, session.id ≠ sessionId → session.counters = total session.id)
    (hsession : ∀ session ∈ s.sessions, session.id = sessionId →
      f session.counters = total session.id) :
    ∀ session ∈ (addCounters s sessionId f).sessions, session.counters = total session.id := by
  intro session hmem
  rcases Table.mem_updateWhere.mp hmem with ⟨hold, hne⟩ | ⟨old, hold, hid, rfl⟩
  · exact hother session hold (by simpa using hne)
  · exact hsession old hold (by simpa using hid)

theorem recordUsage (hcounted : Counted s) {row : ModelUsageEvent}
    (howned : ∀ nodeId, row.sessionNodeId = some nodeId →
      s.HasNode nodeId row.sessionId row.eveSessionId)
    (hfresh : ∀ other ∈ s.usage, other.id ≠ row.id)
    (hsession : ∀ other ∈ s.usage, row.sameInSession other = false)
    (hnode : ∀ other ∈ s.usage, row.sameInNode other = false)
    (hreading : row.sessionNodeId.isSome → row.usageReported = false →
      row.contribution = missingStep) :
    Counted (insertUsage s row) where
  usageIds := hcounted.usageIds.append hfresh
  inSession := hcounted.inSession.append (fun _ _ => ModelUsageEvent.sameInSession_symm) hsession
  inNode := hcounted.inNode.append (fun _ _ => ModelUsageEvent.sameInNode_symm) hnode
  owned := by
    intro other hother nodeId hnodeId
    rcases List.mem_append.mp hother with hold | hnew
    · exact hcounted.owned other hold nodeId hnodeId
    · rw [List.mem_singleton.mp hnew] at hnodeId ⊢
      exact howned nodeId hnodeId
  missing := by
    intro other hother
    rcases List.mem_append.mp hother with hold | hnew
    · exact hcounted.missing other hold
    · rw [List.mem_singleton.mp hnew]
      exact hreading
  counters := by
    have htotal : ∀ id, (insertUsage s row).usageTotal id =
        s.usageTotal id + if row.sessionId = id then row.contribution else 0 := by
      intro id
      rw [Store.usageTotal, insertUsage, addCounters, Table.total_append, Table.total_singleton]
      simp [Store.usageTotal]
    apply addCounters_counters
    · intro session hmem hne
      rw [htotal, if_neg (Ne.symm hne), add_zero]
      exact hcounted.counters session hmem
    · intro session hmem hid
      rw [htotal, if_pos hid.symm, hcounted.counters session hmem]

/-- A step that was counted as missing is counted as reported instead. -/
theorem reconcile_missing (rest : UsageCounters) (report old : ModelUsageEvent)
    (hreported : report.usageReported = true) :
    (rest + missingStep).reconcile report = rest + (report.fill old).contribution := by
  have hcontribution : (report.fill old).contribution = report.contribution := by
    simp [ModelUsageEvent.contribution, ModelUsageEvent.fill, hreported]
  have hmissing : report.contribution.usageMissingSteps = 0 := by
    simp [ModelUsageEvent.contribution, hreported]
  rw [hcontribution]
  have hrest : rest + missingStep =
      { rest with usageMissingSteps := rest.usageMissingSteps + 1 } := rfl
  rw [UsageCounters.reconcile, hrest]
  ext1
  case usageMissingSteps =>
    change rest.usageMissingSteps + 1 - 1 =
      rest.usageMissingSteps + report.contribution.usageMissingSteps
    omega
  all_goals rfl

/-- The report of a run takes the place of the one row that counted it as missing. -/
theorem reconcile (hcounted : Counted s) (hkeyed : Keyed s) {report : ModelUsageEvent}
    {nodeId : String} (hnode : report.sessionNodeId = some nodeId)
    (howned : s.HasNode nodeId report.sessionId report.eveSessionId)
    (hawaits : ∃ other ∈ s.usage, other.awaits report = true)
    (hreported : report.usageReported = true) :
    Counted (addCounters { s with
      usage := Table.updateWhere (fun other => other.awaits report) report.fill s.usage }
      report.sessionId fun counters => counters.reconcile report) := by
  have hreads : ∀ {row : ModelUsageEvent}, row.awaits report = true →
      row.sessionNodeId = some nodeId ∧ report.runKey.isSome = true ∧
        row.runKey = report.runKey ∧ row.usageReported = false := by
    intro row hrow
    simpa [ModelUsageEvent.awaits, hnode, and_assoc] using hrow
  obtain ⟨old, hold, hwaits⟩ := hawaits
  -- It is in the node's session, and no other row awaits the report.
  have hsame : ∀ row ∈ s.usage, row.awaits report = true → row.sessionId = report.sessionId :=
    fun row hrow hrowWaits =>
      ((hcounted.owned row hrow nodeId (hreads hrowWaits).1).eq howned hkeyed).1
  have honly : ∀ row ∈ s.usage, row.awaits report = true → row = old := by
    intro row hrow hrowWaits
    apply hcounted.usageIds.eq hrow hold
    apply hcounted.inNode row hrow old hold
    obtain ⟨hrowNode, hsome, hrowKey, _⟩ := hreads hrowWaits
    obtain ⟨holdNode, _, holdKey, _⟩ := hreads hwaits
    simp [ModelUsageEvent.sameInNode, hrowNode, holdNode, hrowKey, holdKey, hsome]
  exact {
    usageIds := hcounted.usageIds.updateWhere fun _ => rfl
    inSession := hcounted.inSession.updateWhere (fun _ => rfl) fun row _ other _ => by
      by_cases hp : row.awaits report = true <;> by_cases hq : other.awaits report = true <;>
        simp [hp, hq, ModelUsageEvent.sameInSession, ModelUsageEvent.fill]
    inNode := hcounted.inNode.updateWhere (fun _ => rfl) fun row _ other _ => by
      by_cases hp : row.awaits report = true <;> by_cases hq : other.awaits report = true <;>
        simp [hp, hq, ModelUsageEvent.sameInNode, ModelUsageEvent.fill]
    owned := by
      intro row hrow other hother
      rcases Table.mem_updateWhere.mp hrow with ⟨hmem, _⟩ | ⟨prior, hprior, _, rfl⟩
      · exact hcounted.owned row hmem other hother
      · exact hcounted.owned prior hprior other hother
    missing := by
      intro row hrow hsome hmissing
      rcases Table.mem_updateWhere.mp hrow with ⟨hmem, _⟩ | ⟨prior, _, _, rfl⟩
      · exact hcounted.missing row hmem hsome hmissing
      · cases hmissing
    counters := by
      apply addCounters_counters
      · intro session hmem hne
        rw [hcounted.counters session hmem]
        symm
        apply Table.total_updateWhere_frame
        · exact fun _ _ _ => rfl
        · intro row hrow hrowWaits hselected
          rw [decide_eq_true_eq] at hselected
          exact absurd (hselected.symm.trans (hsame row hrow hrowWaits)) hne
      · intro session hmem hid
        obtain ⟨rest, hbefore, hafter⟩ : ∃ rest,
            s.usageTotal session.id = rest + old.contribution ∧
            Table.total (fun row => row.sessionId = session.id) ModelUsageEvent.contribution
              (Table.updateWhere (fun row => row.awaits report) report.fill s.usage) =
              rest + (report.fill old).contribution := by
          apply Table.total_updateWhere_replace hcounted.usageIds.of_map hold hwaits honly
          · simp [hsame old hold hwaits, hid]
          · simp [ModelUsageEvent.fill, hsame old hold hwaits, hid]
        have hmissing := hcounted.missing old hold (by simp [(hreads hwaits).1])
          (hreads hwaits).2.2.2
        rw [hcounted.counters session hmem]
        refine Eq.trans ?_ hafter.symm
        rw [show s.usageTotal session.id = rest + missingStep from hmissing ▸ hbefore]
        exact reconcile_missing rest report old hreported }

/-- The rows of the absorbed session move with its nodes, and its counters are added. -/
theorem merge (hcounted : Counted s) {absorbed : Session}
    {survivingSessionId : String} {patch : Session → Session} (habsorbed : absorbed ∈ s.sessions)
    (hne : absorbed.id ≠ survivingSessionId) (hid : ∀ row, (patch row).id = row.id)
    (hcollides : s.usageCollides absorbed.id survivingSessionId = false) :
    Counted (merged s absorbed survivingSessionId patch) where
  usageIds := hcounted.usageIds.updateWhere fun _ => rfl
  inSession := by
    have hapart : ∀ row ∈ s.usage, row.sessionId = absorbed.id → ∀ other ∈ s.usage,
        other.sessionId = survivingSessionId →
        { row with sessionId := survivingSessionId : ModelUsageEvent }.sameInSession other =
          false := by
      simpa [Store.usageCollides, Store.usageOf, List.any_eq_false] using hcollides
    refine hcounted.inSession.updateWhere (fun _ => rfl) ?_
    intro row hrow other hother hsame
    have hsession : ∀ {first second : ModelUsageEvent}, first.sameInSession second = true →
        first.sessionId = second.sessionId := by
      intro first second h
      simp only [ModelUsageEvent.sameInSession, Bool.and_eq_true, decide_eq_true_eq] at h
      exact h.1.1
    by_cases hp : row.sessionId = absorbed.id <;> by_cases hq : other.sessionId = absorbed.id
    · simpa [hp, hq, ModelUsageEvent.sameInSession] using hsame
    · rw [if_pos (by simpa using hp), if_neg (by simpa using hq)] at hsame
      exact absurd hsame (by simp [hapart row hrow hp other hother (hsession hsame).symm])
    · rw [if_neg (by simpa using hp), if_pos (by simpa using hq)] at hsame
      have hsymm := ModelUsageEvent.sameInSession_symm hsame
      exact absurd hsymm (by simp [hapart other hother hq row hrow (hsession hsame)])
    · rwa [if_neg (by simpa using hp), if_neg (by simpa using hq)] at hsame
  inNode := hcounted.inNode.updateWhere (fun _ => rfl) fun row _ other _ => by
    by_cases hp : row.sessionId = absorbed.id <;> by_cases hq : other.sessionId = absorbed.id <;>
      simp [hp, hq, ModelUsageEvent.sameInNode]
  owned := by
    intro row hrow nodeId hnode
    rcases Table.mem_updateWhere.mp hrow with ⟨hmem, hother⟩ | ⟨old, hold, hmoved, rfl⟩
    · exact (hcounted.owned row hmem nodeId hnode).merged (by simpa using hother)
    · obtain ⟨node, hnodeMem, rfl, hroot, heve⟩ := hcounted.owned old hold nodeId hnode
      refine ⟨{ node with rootSessionId := survivingSessionId }, ?_, rfl, rfl, heve⟩
      refine Table.mem_updateWhere.mpr (Or.inr ⟨node, hnodeMem, ?_, rfl⟩)
      rw [decide_eq_true_eq] at hmoved ⊢
      exact hroot.trans hmoved
  missing := by
    intro row hrow hsome hmissing
    rcases Table.mem_updateWhere.mp hrow with ⟨hmem, _⟩ | ⟨old, hold, _, rfl⟩
    · exact hcounted.missing row hmem hsome hmissing
    · exact hcounted.missing old hold hsome hmissing
  counters := by
    have hsurviving : (merged s absorbed survivingSessionId patch).usageTotal survivingSessionId =
        s.usageTotal survivingSessionId + s.usageTotal absorbed.id := by
      apply Table.total_updateWhere_move
      · intro row _ hrow
        simp only [decide_eq_true_eq, decide_eq_false_iff_not] at hrow ⊢
        exact hrow ▸ hne
      · exact fun _ _ _ => decide_eq_true rfl
      · exact fun _ _ _ => rfl
    have hother : ∀ id, id ≠ survivingSessionId → id ≠ absorbed.id →
        (merged s absorbed survivingSessionId patch).usageTotal id = s.usageTotal id := by
      intro id hnotSurviving hnotAbsorbed
      apply Table.total_updateWhere_frame
      · intro row _ hrow
        rw [decide_eq_true_eq] at hrow
        simp [hrow, hnotSurviving.symm, hnotAbsorbed.symm]
      · exact fun _ _ _ _ => rfl
    intro session hsession
    obtain ⟨hmem, hkept⟩ := List.mem_filter.mp hsession
    rcases Table.mem_updateWhere.mp hmem with ⟨hold, hp⟩ | ⟨old, hold, hp, rfl⟩
    · rw [hother session.id (by simpa using hp) (by simpa using hkept)]
      exact hcounted.counters session hold
    · have holdId : (patch old).id = survivingSessionId := (hid old).trans (by simpa using hp)
      change old.counters + absorbed.counters = _
      rw [holdId, hsurviving, hcounted.counters old hold, hcounted.counters absorbed habsorbed,
        ← hid old, holdId]

theorem prune (hcounted : Counted s) (before : ℤ) :
    Counted (pruneDerivedAgentTelemetry s before) where
  usageIds := hcounted.usageIds.sublist (List.filter_sublist.map _)
  inSession := fun row hrow other hother =>
    hcounted.inSession row (List.mem_of_mem_filter hrow) other (List.mem_of_mem_filter hother)
  inNode := fun row hrow other hother =>
    hcounted.inNode row (List.mem_of_mem_filter hrow) other (List.mem_of_mem_filter hother)
  owned := by
    intro row hrow nodeId hnode
    obtain ⟨hmem, hkept⟩ := List.mem_filter.mp hrow
    obtain ⟨node, hnodeMem, rfl, hroot, heve⟩ := hcounted.owned row hmem nodeId hnode
    exact ⟨node, List.mem_filter.mpr ⟨hnodeMem, hroot ▸ hkept⟩, rfl, hroot, heve⟩
  missing := fun row hrow => hcounted.missing row (List.mem_of_mem_filter hrow)
  counters := by
    intro session hsession
    obtain ⟨hmem, hkept⟩ := List.mem_filter.mp hsession
    rw [hcounted.counters session hmem]
    symm
    apply Table.total_filter_frame
    intro row _ hrow
    rw [decide_eq_true_eq] at hrow
    rw [hrow]
    exact hkept

end Counted

theorem Write.counted {s t : Store} (hkeyed : Keyed s) (hwrite : Write s t)
    (hcounted : Counted s) : Counted t := by
  cases hwrite with
  | surroundings next => exact hcounted.frame rfl (fun _ _ _ h => h) hcounted.counters
  | leases next => exact hcounted.frame rfl (fun _ _ _ h => h) hcounted.counters
  | runs next => exact hcounted.frame rfl (fun _ _ _ h => h) hcounted.counters
  | nodes p f hid hkeeps =>
      exact hcounted.frame rfl (fun _ _ _ h => h.updateWhere hid hkeeps) hcounted.counters
  | sessions p f hid hcounters =>
      refine hcounted.frame rfl (fun _ _ _ h => h) ?_
      intro session hsession
      rcases Table.mem_updateWhere.mp hsession with ⟨hold, _⟩ | ⟨old, hold, _, rfl⟩
      · exact hcounted.counters session hold
      · rw [hcounters, hid]
        exact hcounted.counters old hold
  | openSession row hfresh hcounters =>
      refine hcounted.frame rfl (fun _ _ _ h => h) ?_
      intro session hsession
      rcases List.mem_append.mp hsession with hold | hnew
      · exact hcounted.counters session hold
      · rw [List.mem_singleton.mp hnew, hcounters]
        symm
        apply Table.total_eq_zero
        intro usage husage
        obtain ⟨other, hother, hid⟩ := hkeyed.usageHeld usage husage
        rw [decide_eq_false_iff_not, ← hid]
        exact hfresh other hother
  | openNode row hfresh hheld =>
      exact hcounted.frame rfl (fun _ _ _ h => h.append) hcounted.counters
  | append row hheld howned => exact hcounted.frame rfl (fun _ _ _ h => h) hcounted.counters
  | merge absorbed survivingSessionId patch habsorbed hsurvives hne hid hcollides =>
      exact hcounted.merge habsorbed hne hid hcollides
  | recordUsage row hheld howned hfresh hsession hnode hreading =>
      exact hcounted.recordUsage howned hfresh hsession hnode hreading
  | reconcile report nodeId hnode howned hawaits hreported =>
      exact hcounted.reconcile hkeyed hnode howned hawaits hreported
  | executions p f hkeeps => exact hcounted.frame rfl (fun _ _ _ h => h) hcounted.counters
  | openExecution row hheld => exact hcounted.frame rfl (fun _ _ _ h => h) hcounted.counters

theorem Writes.counted {s t : Store} (hwrites : Writes s t) (hkeyed : Keyed s)
    (hcounted : Counted s) : Counted t := by
  induction hwrites with
  | refl => exact hcounted
  | tail hbefore hwrite ih => exact hwrite.counted (Writes.keyed hbefore hkeyed) ih

theorem Store.Initial.counted {s : Store} (hinit : s.Initial) : Counted s where
  usageIds := by simp [hinit.usage, Table.UniqueOn]
  inSession := by simp [hinit.usage, Table.Separated]
  inNode := by simp [hinit.usage, Table.Separated]
  owned := by simp [hinit.usage]
  missing := by simp [hinit.usage]
  counters := by simp [hinit.sessions]

theorem perform_counted {s : Store} {a : Action} (hkeyed : Keyed s) (hcounted : Counted s) :
    Counted (perform s a) :=
  perform_induction hkeyed (fun _ _ hkeyed hwrite => hwrite.counted hkeyed)
    (fun _ before _ hcounted => hcounted.prune before) hcounted

/-! ## Runs that have a row -/

/-- The rows of a model run: those of the node's session and Eve session under the run's key. -/
def Store.runUsage (s : Store) (node : SessionNode) (runKey : String) : List ModelUsageEvent :=
  s.usage.filter fun row => row.sessionId = node.rootSessionId &&
    row.eveSessionId = node.eveSessionId && row.runKey = some runKey

/-- The run of a node under this key has a row. -/
def Store.HasRun (s : Store) (nodeId runKey : String) : Prop :=
  ∃ row ∈ s.usage, s.HasNode nodeId row.sessionId row.eveSessionId ∧ row.runKey = some runKey

namespace Store

variable {s t : Store} {nodeId runKey : String}

theorem HasRun.frame (hrun : s.HasRun nodeId runKey) (husage : ∀ row ∈ s.usage, row ∈ t.usage)
    (hnodes : ∀ sessionId eveSessionId, s.HasNode nodeId sessionId eveSessionId →
      t.HasNode nodeId sessionId eveSessionId) : t.HasRun nodeId runKey := by
  obtain ⟨row, hrow, hnode, hkey⟩ := hrun
  exact ⟨row, husage row hrow, hnodes _ _ hnode, hkey⟩

/-- A run that has a row keeps it: no write but pruning takes one away. -/
theorem HasRun.write (hrun : s.HasRun nodeId runKey) (hwrite : Write s t) :
    t.HasRun nodeId runKey := by
  cases hwrite with
  | nodes p f hid hkeeps =>
      exact hrun.frame (fun _ h => h) fun _ _ h => h.updateWhere hid hkeeps
  | openNode row hfresh hheld => exact hrun.frame (fun _ h => h) fun _ _ h => h.append
  | merge absorbed survivingSessionId patch habsorbed hsurvives hne hid hcollides =>
      obtain ⟨row, hrow, hnode, hkey⟩ := hrun
      by_cases hmoved : row.sessionId = absorbed.id
      · refine ⟨{ row with sessionId := survivingSessionId }, ?_, ?_, hkey⟩
        · exact Table.mem_updateWhere.mpr (Or.inr ⟨row, hrow, by simpa using hmoved, rfl⟩)
        · obtain ⟨node, hmem, rfl, hroot, heve⟩ := hnode
          refine ⟨{ node with rootSessionId := survivingSessionId }, ?_, rfl, rfl, heve⟩
          refine Table.mem_updateWhere.mpr (Or.inr ⟨node, hmem, ?_, rfl⟩)
          simpa using hroot.trans hmoved
      · exact ⟨row, Table.mem_updateWhere_of_not hrow (by simpa using hmoved), hnode.merged hmoved,
          hkey⟩
  | recordUsage row => exact hrun.frame (fun _ h => List.mem_append_left _ h) fun _ _ h => h
  | reconcile report =>
      obtain ⟨row, hrow, hnode, hkey⟩ := hrun
      by_cases hawaits : row.awaits report = true
      · exact ⟨report.fill row, Table.mem_updateWhere.mpr (Or.inr ⟨row, hrow, hawaits, rfl⟩),
          hnode, hkey⟩
      · exact ⟨row, Table.mem_updateWhere_of_not hrow (by simpa using hawaits), hnode, hkey⟩
  | _ => exact hrun.frame (fun _ h => h) fun _ _ h => h

theorem HasRun.writes (hrun : s.HasRun nodeId runKey) (hwrites : Writes s t) :
    t.HasRun nodeId runKey := by
  induction hwrites with
  | refl => exact hrun
  | tail _ hwrite ih => exact ih.write hwrite

/-- A run has one row at most. -/
theorem runUsage_length_le (hcounted : Counted s) (node : SessionNode) (runKey : String) :
    (s.runUsage node runKey).length ≤ 1 := by
  have hids := (hcounted.usageIds.sublist (List.filter_sublist.map _) :
    ((s.runUsage node runKey).map ModelUsageEvent.id).Nodup)
  have hsame : ∀ first ∈ s.runUsage node runKey, ∀ second ∈ s.runUsage node runKey,
      first.id = second.id := by
    intro first hfirst second hsecond
    obtain ⟨hmem, hkey⟩ := List.mem_filter.mp hfirst
    obtain ⟨hmem', hkey'⟩ := List.mem_filter.mp hsecond
    simp only [Bool.and_eq_true, decide_eq_true_eq] at hkey hkey'
    apply hcounted.inSession first hmem second hmem'
    simp [ModelUsageEvent.sameInSession, hkey, hkey']
  rcases hrows : s.runUsage node runKey with _ | ⟨first, _ | ⟨second, rest⟩⟩
  · simp
  · simp
  · rw [hrows] at hids hsame
    have heq := hsame first (by simp) second (by simp)
    simp [heq] at hids

theorem HasRun.runUsage_length (hrun : s.HasRun nodeId runKey) (hcounted : Counted s) :
    ∃ node ∈ s.nodes, node.id = nodeId ∧ (s.runUsage node runKey).length = 1 := by
  obtain ⟨row, hrow, ⟨node, hmem, hid, hroot, heve⟩, hkey⟩ := hrun
  refine ⟨node, hmem, hid, Nat.le_antisymm (runUsage_length_le hcounted node runKey) ?_⟩
  apply List.length_pos_of_mem (a := row)
  exact List.mem_filter.mpr ⟨hrow, by simp [hroot, heve, hkey]⟩

end Store

/-- A run has no step index. -/
theorem usageOfEvent_stepIndex {type : String} {payload : Json} {scope : Option Json}
    {usage : ModelStepUsage} {runKey : String}
    (husage : usageOfEvent type payload scope = some usage) (hkey : usage.runKey = some runKey) :
    usage.stepIndex = none := by
  rcases Option.or_eq_some_iff.mp husage with hstep | ⟨_, hrun⟩
  · simp only [parseStepUsageEvent, parseUsageRecorded] at hstep
    split_ifs at hstep
    · obtain ⟨_, _, rfl⟩ := Option.map_eq_some_iff.mp hstep
      rfl
    · obtain ⟨_, _, hturn⟩ := Option.bind_eq_some_iff.mp hstep
      obtain ⟨_, _, rfl⟩ := Option.map_eq_some_iff.mp hturn
      cases hkey
  · simp only [parseUnreportedModelRun] at hrun
    split_ifs at hrun
    obtain ⟨_, _, rfl⟩ := Option.map_eq_some_iff.mp hrun
    rfl

/-- The projection of a run's usage leaves the run with a row, whether the row is inserted or is
in the way of the insert. -/
theorem projectUsage_hasRun {s : Store} {row : ModelUsageEvent} {nodeId runKey : String}
    (hcounted : Counted s) (hnodeId : row.sessionNodeId = some nodeId)
    (howned : s.HasNode nodeId row.sessionId row.eveSessionId) (hkey : row.runKey = some runKey)
    (hstep : row.stepIndex = none) (hfresh : ∀ other ∈ s.usage, other.id ≠ row.id)
    (hwrites : Writes s (projectUsage s row)) : (projectUsage s row).HasRun nodeId runKey := by
  by_cases hconflict : ∃ other ∈ s.usage,
      (row.sameInSession other || row.sameInNode other) = true
  · have hrun : s.HasRun nodeId runKey := by
      obtain ⟨other, hother, hsame⟩ := hconflict
      rcases Bool.or_eq_true_iff.mp hsame with hsession | hnode
      · simp only [ModelUsageEvent.sameInSession, hstep, hkey, Bool.and_eq_true, Bool.or_eq_true,
          decide_eq_true_eq, Option.isSome_none, Bool.false_eq_true, and_false, false_and,
          false_or, Option.isSome_some, true_and] at hsession
        obtain ⟨⟨hsessionId, heve⟩, hrunKey⟩ := hsession
        exact ⟨other, hother, hsessionId ▸ heve ▸ howned, hrunKey.symm⟩
      · simp only [ModelUsageEvent.sameInNode, hstep, hkey, hnodeId, Bool.and_eq_true,
          Bool.or_eq_true, decide_eq_true_eq, Option.isSome_none, Bool.false_eq_true, and_false,
          false_and, false_or, Option.isSome_some, true_and] at hnode
        obtain ⟨hotherNode, hrunKey⟩ := hnode
        exact ⟨other, hother, hcounted.owned other hother nodeId hotherNode.symm, hrunKey.symm⟩
    exact hrun.writes hwrites
  · simp only [not_exists, not_and, Bool.not_eq_true] at hconflict
    have hinsert : projectUsage s row = insertUsage s row := by
      rw [projectUsage, if_neg]
      simp only [List.any_eq_true, not_exists, not_and, Bool.not_eq_true]
      intro other hother
      rw [Bool.or_assoc, hconflict other hother]
      simpa using hfresh other hother
    rw [hinsert]
    exact ⟨row, List.mem_append_right _ (List.mem_singleton_self _), howned, hkey⟩

/-- An observation of a run's usage that is recorded leaves the run with a row. -/
theorem ingestAgentEvent_hasRun {s t : Store} {o : AgentEventObservation} {ids : IngestIds}
    {now : ℤ} {result : IngestResult} {usage : ModelStepUsage} {runKey : String}
    (hkeyed : Keyed s) (hcounted : Counted s)
    (hingest : ingestAgentEvent s o ids now = .ok (t, result)) (hnew : result.duplicate = false)
    (husage : usageOfEvent (readEvent o.event).type (readEvent o.event).payload
      (readEvent o.event).scope = some usage)
    (hkey : usage.runKey = some runKey) (hfresh : ∀ row ∈ s.usage, row.id ≠ ids.usage) :
    t.HasRun result.node.id runKey := by
  obtain ⟨deployment, _, hingest⟩ := Outcome.bind_eq_ok.mp hingest
  obtain ⟨⟨located, sessionRow, node, isLatest⟩, hlocate, hingest⟩ := Outcome.bind_eq_ok.mp hingest
  obtain ⟨hlocated, hnode⟩ := locateNode_writes hlocate
  have husageRows := locateNode_usage hlocate
  dsimp only at hingest
  split at hingest
  · cases hingest
    cases hnew
  · obtain ⟨linked, sessionId, hlinked, hplaced, hids, rfl⟩ :=
      recordObservation_stages (hlocated.keyed hkeyed) hnode
        (locateNode_observed hlocate) hingest
    have hwrites := hlocated.trans hlinked
    have hlinkedKeyed := Writes.keyed hwrites hkeyed
    have hlinkedCounted := Writes.counted hwrites hkeyed hcounted
    have hlinkedFresh : ∀ other ∈ linked.usage, other.id ≠ ids.usage := by
      intro other hother hid
      have hmem : other.id ∈ s.usage.map ModelUsageEvent.id := by
        rw [← husageRows, ← hids]
        exact List.mem_map_of_mem hother
      obtain ⟨row, hrow, hrowId⟩ := List.mem_map.mp hmem
      exact hfresh row hrow (hrowId.trans hid)
    have hprojected := (projectReading_writes (readEvent o.event) ids.usage hlinkedKeyed hplaced).1
    rw [projectReading, husage] at hprojected ⊢
    exact projectUsage_hasRun hlinkedCounted rfl hplaced hkey
      (usageOfEvent_stepIndex husage hkey) hlinkedFresh hprojected

theorem perform_hasRun {s : Store} {a : Action} {nodeId runKey : String} (hkeyed : Keyed s)
    (hkept : a.prunes = false) (hrun : s.HasRun nodeId runKey) :
    (perform s a).HasRun nodeId runKey := by
  rcases perform_cases s a with hcall | hsame
  · exact hrun.writes (call_writes hkeyed hkept hcall)
  · rw [hsame]
    exact hrun

/-- A run that is settled before its usage is recorded. -/
def settledStore : Store :=
  perform sampleStore (sampleIngest "1" "root" (some 1) "model.settled"
    [("outcome", .str "completed"), ("runId", .str "r1")] 10)

/-- The usage of that run. -/
def recordedUsage : AgentEventObservation :=
  sampleObservation "2" "root" (some 2) "usage.recorded"
    [("owner", .obj [("runId", .str "r1")]), ("usage", .obj [("inputTokens", .num "12")])]

end Eveland.Telemetry
