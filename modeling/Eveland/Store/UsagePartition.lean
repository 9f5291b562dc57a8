/-
# Usage totals are partitioned

Totals add up field by field. What a session or a usage row contributes is the same wherever it is
added, so the buckets of the series and the projects each hold in total what the summary holds. The
models hold what the summary holds without a model filter: the filter narrows everything but them.
-/

import Mathlib.Tactic.Positivity
import Eveland.Store.UsageAnalytics

namespace Eveland.UsageAnalytics

open Accumulators

/-! ## Totals add up -/

/-- Costs add up as far as they are reported. -/
def addCost : Option ℚ → Option ℚ → Option ℚ
  | none, cost => cost
  | cost, none => cost
  | some first, some second => some (first + second)

theorem addCost_none (cost : Option ℚ) : addCost cost none = cost := by
  cases cost <;> rfl

theorem addCost_comm (first second : Option ℚ) : addCost first second = addCost second first := by
  cases first <;> cases second <;> simp [addCost, add_comm]

theorem addCost_assoc (first second third : Option ℚ) :
    addCost (addCost first second) third = addCost first (addCost second third) := by
  cases first <;> cases second <;> cases third <;> simp [addCost, add_assoc]

namespace UsageTotals

instance : Zero UsageTotals := ⟨emptyTotals⟩

/-- The sum, field by field. -/
instance : Add UsageTotals where
  add first second :=
    { sessions := first.sessions + second.sessions
      runningSessions := first.runningSessions + second.runningSessions
      waitingSessions := first.waitingSessions + second.waitingSessions
      completedSessions := first.completedSessions + second.completedSessions
      failedSessions := first.failedSessions + second.failedSessions
      modelSteps := first.modelSteps + second.modelSteps
      inputTokens := first.inputTokens + second.inputTokens
      outputTokens := first.outputTokens + second.outputTokens
      cacheReadTokens := first.cacheReadTokens + second.cacheReadTokens
      cacheWriteTokens := first.cacheWriteTokens + second.cacheWriteTokens
      costUsd := addCost first.costUsd second.costUsd
      reportedSteps := first.reportedSteps + second.reportedSteps
      missingSteps := first.missingSteps + second.missingSteps
      costReportedSteps := first.costReportedSteps + second.costReportedSteps }

theorem add_def (first second : UsageTotals) : first + second =
    { sessions := first.sessions + second.sessions
      runningSessions := first.runningSessions + second.runningSessions
      waitingSessions := first.waitingSessions + second.waitingSessions
      completedSessions := first.completedSessions + second.completedSessions
      failedSessions := first.failedSessions + second.failedSessions
      modelSteps := first.modelSteps + second.modelSteps
      inputTokens := first.inputTokens + second.inputTokens
      outputTokens := first.outputTokens + second.outputTokens
      cacheReadTokens := first.cacheReadTokens + second.cacheReadTokens
      cacheWriteTokens := first.cacheWriteTokens + second.cacheWriteTokens
      costUsd := addCost first.costUsd second.costUsd
      reportedSteps := first.reportedSteps + second.reportedSteps
      missingSteps := first.missingSteps + second.missingSteps
      costReportedSteps := first.costReportedSteps + second.costReportedSteps } := rfl

theorem zero_def : (0 : UsageTotals) = emptyTotals := rfl

instance : AddCommMonoid UsageTotals where
  add_assoc first second third := by
    simp only [add_def, add_assoc, addCost_assoc]
  zero_add totals := by
    simp only [add_def, zero_def, emptyTotals, zero_add, addCost]
  add_zero totals := by
    simp only [add_def, zero_def, emptyTotals, add_zero, addCost_none]
  add_comm first second := by
    rw [add_def, add_def, addCost_comm]
    simp only [Nat.add_comm]
  nsmul := nsmulRec

end UsageTotals

/-- What a session contributes. -/
def sessionTotals (status : SessionStatus) : UsageTotals := addSession emptyTotals status

/-- What a usage row contributes. -/
def usageTotals (usage : ModelUsageEvent) : UsageTotals := addUsage emptyTotals usage

theorem addSession_eq (totals : UsageTotals) (status : SessionStatus) :
    addSession totals status = totals + sessionTotals status := by
  simp only [addSession, sessionTotals, UsageTotals.add_def, emptyTotals, zero_add, add_zero,
    addCost_none]

theorem addUsage_eq (totals : UsageTotals) (usage : ModelUsageEvent) :
    addUsage totals usage = totals + usageTotals usage := by
  simp only [addUsage, usageTotals, UsageTotals.add_def, emptyTotals, zero_add, add_zero]
  cases usage.costUsd <;> cases totals.costUsd <;> simp [addCost]

theorem addSessions_eq (totals : UsageTotals) (rows : List SessionRow) :
    addSessions totals rows =
      totals + (rows.map fun row => sessionTotals row.session.status).sum := by
  induction rows generalizing totals with
  | nil => exact (add_zero totals).symm
  | cons row rest ih =>
      rw [addSessions, List.foldl_cons]
      refine (ih _).trans ?_
      rw [addSession_eq, add_assoc, List.map_cons, List.sum_cons]

theorem addUsages_eq (totals : UsageTotals) (rows : List UsageRow) :
    addUsages totals rows = totals + (rows.map fun row => usageTotals row.usage).sum := by
  induction rows generalizing totals with
  | nil => exact (add_zero totals).symm
  | cons row rest ih =>
      rw [addUsages, List.foldl_cons]
      refine (ih _).trans ?_
      rw [addUsage_eq, add_assoc, List.map_cons, List.sum_cons]

/-- The part of some totals that comes from usage rows. -/
def usagePart (totals : UsageTotals) : UsageTotals :=
  { totals with
    sessions := 0
    runningSessions := 0
    waitingSessions := 0
    completedSessions := 0
    failedSessions := 0 }

@[simp]
theorem usagePart_zero : usagePart 0 = 0 := rfl

theorem usagePart_add (first second : UsageTotals) :
    usagePart (first + second) = usagePart first + usagePart second := rfl

@[simp]
theorem usagePart_usageTotals (usage : ModelUsageEvent) :
    usagePart (usageTotals usage) = usageTotals usage := rfl

@[simp]
theorem usagePart_sessionTotals (status : SessionStatus) :
    usagePart (sessionTotals status) = 0 := rfl

/-! ## The window -/

/-- What is known of a window. -/
theorem usageWindow_spec (range : UsageRange) (nowMs : ℤ) :
    0 < (usageWindow range nowMs).bucketMs ∧
      (usageWindow range nowMs).toMs = (usageWindow range nowMs).fromMs +
        (usageWindow range nowMs).bucketCount * (usageWindow range nowMs).bucketMs ∧
      (usageWindow range nowMs).previousFromMs ≤ (usageWindow range nowMs).fromMs := by
  cases range <;> simp only [usageWindow, hourMs, dayMs] <;> refine ⟨by decide, ?_, ?_⟩ <;>
    simp

section Window

variable {window : UsageWindow} {value : ℤ}

/-- The bucket with an index. -/
def bucketStart (window : UsageWindow) (index : ℕ) : ℤ := window.fromMs + index * window.bucketMs

/-- A time is in a bucket. -/
def inBucket (window : UsageWindow) (index : ℕ) (value : ℤ) : Bool :=
  inWindow value (bucketStart window index) (bucketStart window index + window.bucketMs)

/-- A time of the window has the slot of a bucket. -/
theorem bucketSlot_lt (hms : 0 < window.bucketMs)
    (hto : window.toMs = window.fromMs + window.bucketCount * window.bucketMs)
    (hvalue : inWindow value window.fromMs window.toMs = true) :
    bucketSlot window value < window.bucketCount := by
  simp only [inWindow, Bool.and_eq_true, decide_eq_true_eq] at hvalue
  have hnonneg : 0 ≤ bucketIndex value window := Int.ediv_nonneg (by omega) hms.le
  have hlt : bucketIndex value window < window.bucketCount :=
    Int.ediv_lt_of_lt_mul hms (by omega)
  rw [bucketSlot, if_pos hnonneg]
  omega

/-- A time is in the bucket of its slot, and in no other. -/
theorem inBucket_iff (hms : 0 < window.bucketMs) (hvalue : window.fromMs ≤ value) (index : ℕ) :
    inBucket window index value = true ↔ bucketSlot window value = index := by
  have hnonneg : 0 ≤ bucketIndex value window := Int.ediv_nonneg (by omega) hms.le
  rw [bucketSlot, if_pos hnonneg, inBucket, inWindow, bucketStart, Bool.and_eq_true,
    decide_eq_true_eq, decide_eq_true_eq]
  have hslot : (bucketIndex value window).toNat = index ↔ bucketIndex value window = index := by
    omega
  rw [hslot, bucketIndex, Int.ediv_eq_iff_of_pos hms]
  constructor
  · rintro ⟨hle, hlt⟩
    exact ⟨by omega, by omega⟩
  · rintro ⟨hle, hlt⟩
    exact ⟨by omega, by omega⟩

/-- A bucket lies within the window. -/
theorem inWindow_of_inBucket (hms : 0 < window.bucketMs)
    (hto : window.toMs = window.fromMs + window.bucketCount * window.bucketMs) {index : ℕ}
    (hindex : index < window.bucketCount) (hbucket : inBucket window index value = true) :
    inWindow value window.fromMs window.toMs = true := by
  rw [inBucket, inWindow, bucketStart, Bool.and_eq_true, decide_eq_true_eq, decide_eq_true_eq]
    at hbucket
  obtain ⟨hle, hlt⟩ := hbucket
  rw [inWindow, Bool.and_eq_true, decide_eq_true_eq, decide_eq_true_eq]
  have hstart : 0 ≤ (index : ℤ) * window.bucketMs := by positivity
  have hend : ((index : ℤ) + 1) * window.bucketMs ≤ window.bucketCount * window.bucketMs :=
    Int.mul_le_mul_of_nonneg_right (by omega) hms.le
  rw [add_mul, one_mul] at hend
  exact ⟨by omega, by omega⟩

end Window

/-! ## Rows -/

section Rows

variable {db : Database} {input : UsageInput}

/-- The usage rows in the scope of a request, at any time. -/
def scopeRows (db : Database) (input : UsageInput) : List UsageRow :=
  ofModel input ((joinUsage db).filter fun row => inProject input row.session)

/-- What a list of rows amounts to. -/
def usageTotal (rows : List UsageRow) : UsageTotals :=
  (rows.map fun row => usageTotals row.usage).sum

theorem ofModel_filter (p : UsageRow → Bool) (rows : List UsageRow) :
    ofModel input (rows.filter p) = (ofModel input rows).filter p := by
  rw [ofModel, ofModel]
  split
  · rw [List.filter_filter, List.filter_filter]
    congr 1
    funext row
    exact Bool.and_comm _ _
  · rfl

/-- The current rows are those in scope whose time is in the window. -/
theorem currentUsageRows_eq {window : UsageWindow} (hprevious : window.previousFromMs ≤ window.fromMs) :
    ofModel input ((selectUsage db input window).filter fun row =>
        inWindow row.usage.createdAt window.fromMs window.toMs) =
      (scopeRows db input).filter fun row =>
        inWindow row.usage.createdAt window.fromMs window.toMs := by
  rw [scopeRows, ← ofModel_filter, selectUsage, List.filter_filter, List.filter_filter]
  congr 2
  funext row
  simp only [inWindow]
  by_cases hfrom : window.fromMs ≤ row.usage.createdAt
  · have hbefore : window.previousFromMs ≤ row.usage.createdAt := hprevious.trans hfrom
    simp [hfrom, hbefore, Bool.and_comm]
  · simp [hfrom]

theorem mem_ofModel {row : UsageRow} {rows : List UsageRow} (hmem : row ∈ ofModel input rows) :
    row ∈ rows := by
  rw [ofModel] at hmem
  split at hmem
  · exact List.mem_of_mem_filter hmem
  · exact hmem

/-- A joined row has a session of the table. -/
theorem joinSessions_mem {row : SessionRow} (hmem : row ∈ joinSessions db) :
    row.session ∈ db.sessions := by
  obtain ⟨session, hsession, hrow⟩ := List.mem_flatMap.mp hmem
  obtain ⟨project, _, rfl⟩ := List.mem_map.mp hrow
  exact hsession

theorem joinUsage_mem {row : UsageRow} (hmem : row ∈ joinUsage db) :
    row.session ∈ db.sessions := by
  obtain ⟨usage, _, hrow⟩ := List.mem_flatMap.mp hmem
  obtain ⟨session, hsession, rfl⟩ := List.mem_map.mp hrow
  exact joinSessions_mem (List.mem_of_mem_filter hsession)

/-- Joined rows of one session id have one session. -/
theorem session_eq_of_id {first second : UsageRow} (hfirst : first ∈ joinUsage db)
    (hsecond : second ∈ joinUsage db) (hid : first.session.id = second.session.id) :
    first.session = second.session :=
  List.inj_on_of_nodup_map db.sessionKey (joinUsage_mem hfirst) (joinUsage_mem hsecond) hid

/-- The join with the projects has a session once. -/
theorem joinSessions_ids (db : Database) :
    ((joinSessions db).map (·.session.id)).Nodup := by
  have hone : ∀ session : Session,
      (db.projects.filter fun project => project.id = session.projectId).length ≤ 1 := by
    intro session
    rw [← List.countP_eq_length_filter]
    have hcount := List.nodup_iff_count_le_one.mp db.projectKey session.projectId
    rw [List.count, List.countP_map] at hcount
    refine le_trans (le_of_eq ?_) hcount
    apply List.countP_congr
    intro project _
    simp
  have hsublist : ((joinSessions db).map (·.session.id)).Sublist (db.sessions.map Session.id) := by
    rw [joinSessions]
    induction db.sessions with
    | nil => exact List.Sublist.refl _
    | cons session rest ih =>
        rw [List.flatMap_cons, List.map_append, List.map_cons, List.map_map]
        have hsession := hone session
        rcases hprojects : db.projects.filter fun project => project.id = session.projectId with
          _ | ⟨project, _ | ⟨other, more⟩⟩
        · simp only [hprojects]
          exact ih.cons _
        · simp only [hprojects]
          exact ih.cons_cons _
        · rw [hprojects] at hsession
          simp at hsession
  exact hsublist.nodup db.sessionKey

end Rows

/-! ## Sessions -/

section Sessions

variable {db : Database} {input : UsageInput}

/-- Every session that counts, counts once. -/
theorem selectedSessions_ids {sessionRows : List SessionRow} {usageRows : List UsageRow}
    (hsessions : (sessionRows.map (·.session.id)).Nodup) :
    ((selectedSessions input sessionRows usageRows).map (·.session.id)).Nodup := by
  rw [selectedSessions]
  split
  · have hkeys : ∀ entry ∈ usageSessions usageRows, entry.2.session.id = entry.1 := by
      apply forall_collect fun (id : String) (row : UsageRow) => row.session.id = id
      · exact fun row _ => rfl
      · exact fun row _ value _ => rfl
      · exact List.forall_mem_nil _
    have hids : (usageSessions usageRows).map (fun entry => entry.2.session.id) =
        (usageSessions usageRows).map Prod.fst := List.map_congr_left hkeys
    rw [List.map_map]
    change ((usageSessions usageRows).map fun entry => entry.2.session.id).Nodup
    rw [hids]
    exact nodup_keys_collect usageRows List.nodup_nil
  · exact hsessions

/-- The last and the earliest row of each session are of the same sessions, in the same order. -/
theorem firstUsage_sessions {usageRows : List UsageRow}
    (hsame : ∀ first ∈ usageRows, ∀ second ∈ usageRows, first.session.id = second.session.id →
      first.session = second.session) :
    (firstUsageBySession usageRows).map (fun entry => entry.2.session) =
      (usageSessions usageRows).map fun entry => entry.2.session := by
  have hfind : ∀ row ∈ usageRows,
      (usageRows.find? fun other => other.session.id = row.session.id).map UsageRow.session =
        some row.session := by
    intro row hrow
    cases hfound : usageRows.find? fun other => other.session.id = row.session.id with
    | none => simpa using List.find?_eq_none.mp hfound row hrow
    | some other =>
        have hid : other.session.id = row.session.id := by simpa using List.find?_some hfound
        rw [Option.map_some, hsame other (List.mem_of_find?_eq_some hfound) row hrow hid]
  -- The session of an entry is the one that its key stands for.
  let sessionOf := fun id => (usageRows.find? fun other => other.session.id = id).map UsageRow.session
  have hlast : ∀ entry ∈ usageSessions usageRows, some entry.2.session = sessionOf entry.1 := by
    apply forall_collect fun (id : String) (row : UsageRow) => some row.session = sessionOf id
    · exact fun row hrow => (hfind row hrow).symm
    · exact fun row hrow _ _ => (hfind row hrow).symm
    · exact List.forall_mem_nil _
  have hearliest : ∀ entry ∈ firstUsageBySession usageRows,
      some entry.2.session = sessionOf entry.1 := by
    apply forall_collect fun (id : String) (row : UsageRow) => some row.session = sessionOf id
    · intro row hrow
      split <;> exact (hfind row hrow).symm
    · intro row hrow value hvalue
      split
      · exact (hfind row hrow).symm
      · exact hvalue
    · exact List.forall_mem_nil _
  have hkeys : (firstUsageBySession usageRows).map Prod.fst =
      (usageSessions usageRows).map Prod.fst := keys_collect_eq usageRows rfl
  apply List.map_injective_iff.mpr (Option.some_injective _)
  rw [List.map_map, List.map_map]
  calc (firstUsageBySession usageRows).map (some ∘ fun entry => entry.2.session)
      = ((firstUsageBySession usageRows).map Prod.fst).map sessionOf := by
        rw [List.map_map]
        exact List.map_congr_left hearliest
    _ = ((usageSessions usageRows).map Prod.fst).map sessionOf := by rw [hkeys]
    _ = (usageSessions usageRows).map (some ∘ fun entry => entry.2.session) := by
        rw [List.map_map]
        exact (List.map_congr_left hlast).symm

/-- The earliest row of a session is one of its rows. -/
theorem firstUsage_mem {usageRows : List UsageRow} :
    ∀ entry ∈ firstUsageBySession usageRows, entry.2 ∈ usageRows := by
  apply forall_collect fun (_ : String) (row : UsageRow) => row ∈ usageRows
  · intro row hrow
    split <;> exact hrow
  · intro row hrow value hvalue
    split
    · exact hrow
    · exact hvalue
  · exact List.forall_mem_nil _

/-- What a list of sessions amounts to. -/
def sessionTotal (rows : List SessionRow) : UsageTotals :=
  (rows.map fun row => sessionTotals row.session.status).sum

/-! ## Breakdowns -/

/-- A sort keeps the total. -/
theorem sum_sortedBreakdown {τ : Type} (totals : τ → UsageTotals) (rows : List τ)
    (part : UsageTotals → UsageTotals) :
    ((sortedBreakdown totals rows).map fun row => part (totals row)).sum =
      (rows.map fun row => part (totals row)).sum :=
  ((List.perm_insertionSort _ rows).map _).sum_eq

/-- Sessions that are not counted yet are counted for their projects. -/
theorem sum_addProjectSessions {rows : List SessionRow}
    (hnodup : (rows.map (·.session.id)).Nodup) {entries : List (String × ProjectUsageBreakdown)}
    (hfresh : ∀ entry ∈ entries, ∀ row ∈ rows, row.session.id ∉ entry.2.sessionIds) :
    ((addProjectSessions entries rows).map fun entry => entry.2.totals).sum =
      (entries.map fun entry => entry.2.totals).sum + sessionTotal rows := by
  induction rows generalizing entries with
  | nil => exact (add_zero _).symm
  | cons row rest ih =>
      obtain ⟨hnew, hrest⟩ := List.nodup_cons.mp hnodup
      have hadded : ∀ project : ProjectUsageBreakdown, row.session.id ∉ project.sessionIds →
          (project.addSession row.session).totals =
              project.totals + sessionTotals row.session.status ∧
            (project.addSession row.session).sessionIds =
              project.sessionIds ++ [row.session.id] := by
        intro project hout
        rw [ProjectUsageBreakdown.addSession, if_neg hout]
        exact ⟨addSession_eq _ _, rfl⟩
      have hother : ∀ later ∈ rest, later.session.id ≠ row.session.id := fun later hlater hsame =>
        hnew (List.mem_map.mpr ⟨later, hlater, hsame⟩)
      rw [addProjectSessions, collect, List.foldl_cons]
      refine (ih hrest ?_).trans ?_
      · intro entry hentry later hlater
        have hkeep : ∀ project : ProjectUsageBreakdown, row.session.id ∉ project.sessionIds →
            later.session.id ∉ project.sessionIds →
              later.session.id ∉ (project.addSession row.session).sessionIds := by
          intro project hout hlaterOut
          rw [(hadded project hout).2]
          simpa [hlaterOut] using hother later hlater
        rcases mem_upsert hentry with hold | rfl | ⟨value, hvalue, rfl⟩
        · exact hfresh entry hold later (List.mem_cons_of_mem _ hlater)
        · exact hkeep _ (by simp [newProject]) (by simp [newProject])
        · exact hkeep value (hfresh _ hvalue row List.mem_cons_self)
            (hfresh _ hvalue later (List.mem_cons_of_mem _ hlater))
      · rw [sum_upsert ProjectUsageBreakdown.totals (sessionTotals row.session.status)]
        · rw [sessionTotal, sessionTotal, List.map_cons, List.sum_cons, add_assoc]
        · rw [(hadded _ (by simp [newProject])).1]
          exact zero_add _
        · exact fun value hvalue => (hadded value (hfresh _ hvalue row List.mem_cons_self)).1

theorem sum_addProjectUsage (entries : List (String × ProjectUsageBreakdown))
    (rows : List UsageRow) :
    ((addProjectUsage entries rows).map fun entry => entry.2.totals).sum =
      (entries.map fun entry => entry.2.totals).sum + usageTotal rows := by
  apply sum_collect ProjectUsageBreakdown.totals fun row : UsageRow => usageTotals row.usage
  · exact fun row => rfl
  · exact fun row project => addUsage_eq _ _

/-- Statuses add sessions only. -/
theorem usagePart_addStatuses (statuses : List (String × SessionStatus)) (totals : UsageTotals)
    (sessionIds : List String) :
    usagePart (addStatuses statuses totals sessionIds) = usagePart totals := by
  induction sessionIds generalizing totals with
  | nil => rfl
  | cons id rest ih =>
      rw [addStatuses, List.foldl_cons]
      refine (ih _).trans ?_
      split
      · rw [addSession_eq, usagePart_add, usagePart_sessionTotals, add_zero]
      · rfl

theorem usagePart_addUsage (totals : UsageTotals) (usage : ModelUsageEvent) :
    usagePart (addUsage totals usage) = usagePart totals + usageTotals usage := by
  rw [addUsage_eq, usagePart_add, usagePart_usageTotals]

theorem sum_modelUsage (rows : List UsageRow) :
    ((modelUsage rows).map fun entry => usagePart entry.2.totals).sum = usageTotal rows := by
  refine (sum_collect (fun model : ModelUsageBreakdown => usagePart model.totals)
    (fun row : UsageRow => usageTotals row.usage) (fun row => rfl) ?_ [] rows).trans (zero_add _)
  exact fun row model => usagePart_addUsage _ _

theorem sum_agentModelUsage (rows : List UsageRow) :
    ((agentModelUsage rows).map fun entry => usagePart entry.2.totals).sum = usageTotal rows := by
  refine (sum_collect (fun model : AgentModelUsageBreakdown => usagePart model.totals)
    (fun row : UsageRow => usageTotals row.usage) (fun row => rfl) ?_ [] rows).trans (zero_add _)
  exact fun row model => usagePart_addUsage _ _

end Sessions

/-! ## The series -/

section Series

variable {window : UsageWindow} {input : UsageInput}

theorem length_emptySeries : (emptySeries window).length = window.bucketCount := by
  rw [emptySeries, List.length_map, List.length_range]

theorem sum_emptySeries : ((emptySeries window).map UsageSeriesPoint.totals).sum = 0 := by
  rw [emptySeries, List.map_map]
  apply List.sum_eq_zero
  intro totals htotals
  obtain ⟨index, _, rfl⟩ := List.mem_map.mp htotals
  rfl

/-- The buckets hold in total what the rows and the sessions amount to. -/
theorem sum_usageSeries {sessionRows : List SessionRow} {usageRows : List UsageRow}
    (hms : 0 < window.bucketMs)
    (hto : window.toMs = window.fromMs + window.bucketCount * window.bucketMs)
    (hsessions : ∀ row ∈ sessionRows,
      inWindow row.session.startedAt window.fromMs window.toMs = true)
    (husage : ∀ row ∈ usageRows, inWindow row.usage.createdAt window.fromMs window.toMs = true)
    (hsame : ∀ first ∈ usageRows, ∀ second ∈ usageRows, first.session.id = second.session.id →
      first.session = second.session) :
    ((usageSeries input window sessionRows usageRows).map UsageSeriesPoint.totals).sum =
      usageTotal usageRows + sessionTotal (selectedSessions input sessionRows usageRows) := by
  let withUsage := fill (fun row : UsageRow => bucketSlot window row.usage.createdAt)
    UsageSeriesPoint.addUsage (emptySeries window) usageRows
  have hlength : withUsage.length = window.bucketCount :=
    (length_fill _ _).trans length_emptySeries
  have hwithUsage : (withUsage.map UsageSeriesPoint.totals).sum = usageTotal usageRows := by
    refine (sum_fill UsageSeriesPoint.totals (fun row : UsageRow => usageTotals row.usage)
      (fun point row => addUsage_eq _ _) fun row hrow => ?_).trans ?_
    · rw [length_emptySeries]
      exact bucketSlot_lt hms hto (husage row hrow)
    · rw [sum_emptySeries]
      exact zero_add _
  rw [usageSeries, selectedSessions]
  split
  · refine (sum_fill UsageSeriesPoint.totals
      (fun entry : String × UsageRow => sessionTotals entry.2.session.status)
      (fun point entry => addSession_eq _ _) fun entry hentry => ?_).trans ?_
    · rw [hlength]
      exact bucketSlot_lt hms hto (husage _ (firstUsage_mem entry hentry))
    · -- The earliest rows are of the sessions that the last rows are of.
      have hstatuses := congrArg (List.map fun session : Session => sessionTotals session.status)
        (firstUsage_sessions hsame)
      rw [List.map_map, List.map_map] at hstatuses
      rw [hwithUsage, sessionTotal, List.map_map]
      exact congrArg (usageTotal usageRows + ·) (congrArg List.sum hstatuses)
  · refine (sum_fill UsageSeriesPoint.totals
      (fun row : SessionRow => sessionTotals row.session.status)
      (fun point row => addSession_eq _ _) fun row hrow => ?_).trans ?_
    · rw [hlength]
      exact bucketSlot_lt hms hto (hsessions row hrow)
    · rw [hwithUsage]
      rfl

/-- The buckets of a series start one after another. -/
theorem usageSeries_starts (sessionRows : List SessionRow) (usageRows : List UsageRow) :
    (usageSeries input window sessionRows usageRows).map UsageSeriesPoint.bucketStart =
      (List.range window.bucketCount).map (bucketStart window) := by
  have hstarts : (emptySeries window).map UsageSeriesPoint.bucketStart =
      (List.range window.bucketCount).map (bucketStart window) := by
    rw [emptySeries, List.map_map]
    rfl
  rw [usageSeries]
  split
  · refine (map_fill _ ?_ _ _).trans ((map_fill _ ?_ _ _).trans hstarts)
    · exact fun point entry => rfl
    · exact fun point row => rfl
  · refine (map_fill _ ?_ _ _).trans ((map_fill _ ?_ _ _).trans hstarts)
    · exact fun point row => rfl
    · exact fun point row => rfl

/-- A bucket holds of the usage what its rows amount to. -/
theorem usageSeries_bucket {sessionRows : List SessionRow} {usageRows : List UsageRow} {index : ℕ}
    (hindex : index < window.bucketCount) :
    (usageSeries input window sessionRows usageRows)[index]?.map
        (fun point => usagePart point.totals) =
      some (usageTotal (usageRows.filter fun row =>
        decide (bucketSlot window row.usage.createdAt = index))) := by
  have hempty : (emptySeries window)[index]?.map (fun point => usagePart point.totals) = some 0 := by
    rw [emptySeries, List.getElem?_map, List.getElem?_range hindex]
    rfl
  have hwithUsage : (fill (fun row : UsageRow => bucketSlot window row.usage.createdAt)
      UsageSeriesPoint.addUsage (emptySeries window) usageRows)[index]?.map
        (fun point => usagePart point.totals) =
      some (usageTotal (usageRows.filter fun row =>
        decide (bucketSlot window row.usage.createdAt = index))) := by
    rw [getElem?_fill (fun point : UsageSeriesPoint => usagePart point.totals)
      (fun row : UsageRow => usageTotals row.usage) fun point row => usagePart_addUsage _ _]
    obtain ⟨point, hpoint, hzero⟩ := Option.map_eq_some_iff.mp hempty
    rw [hpoint, Option.map_some, hzero, zero_add]
    rfl
  -- Sessions add nothing to the usage of a bucket.
  have hsession : ∀ (point : UsageSeriesPoint) (session : Session),
      usagePart (point.addSession session).totals = usagePart point.totals := by
    intro point session
    rw [UsageSeriesPoint.addSession, addSession_eq, usagePart_add, usagePart_sessionTotals,
      add_zero]
  have hframe : ∀ {ρ : Type} (slot : ρ → ℕ) (session : ρ → Session) (points : List UsageSeriesPoint)
      (rows : List ρ),
      (fill slot (fun point row => point.addSession (session row)) points rows)[index]?.map
          (fun point => usagePart point.totals) =
        points[index]?.map fun point => usagePart point.totals := by
    intro ρ slot session points rows
    rw [← List.getElem?_map, ← List.getElem?_map,
      map_fill _ fun point row => hsession point (session row)]
  rw [usageSeries]
  split
  · rw [hframe _ (fun entry : String × UsageRow => entry.2.session)]
    exact hwithUsage
  · rw [hframe _ SessionRow.session]
    exact hwithUsage

end Series

/-! ## The result -/

/-- The totals of a result partition its summary, and its usage is that of the window. -/
structure Partitioned (second : Database) (input : UsageInput) (result : Analytics) : Prop where
  /-- The buckets add up to the summary, field by field. -/
  series : (result.series.map UsageSeriesPoint.totals).sum = result.summary
  /-- So do the projects. -/
  projects : (result.projects.map ProjectUsageBreakdown.totals).sum = result.summary
  /-- A usage row inside the window lies in exactly one bucket. -/
  oneBucket : ∀ row ∈ scopeRows second input,
    inWindow row.usage.createdAt result.window.fromMs result.window.toMs = true →
      ∃! index, index < result.series.length ∧
        inBucket result.window index row.usage.createdAt = true
  /-- A bucket counts the usage rows that lie in it. -/
  bucketed : ∀ index point, result.series[index]? = some point →
    point.bucketStart = bucketStart result.window index ∧
      usagePart point.totals = usageTotal ((scopeRows second input).filter fun row =>
        inBucket result.window index row.usage.createdAt)
  /-- No usage row outside the window is counted. -/
  window : usagePart result.summary = usageTotal ((scopeRows second input).filter fun row =>
    inWindow row.usage.createdAt result.window.fromMs result.window.toMs)

/-- What the models of a result hold of the usage. -/
def modelsUsage (result : Analytics) : UsageTotals :=
  (result.models.map fun model => usagePart model.totals).sum

/-- A request without its model filter. -/
def UsageInput.withoutModel (input : UsageInput) : UsageInput := { input with modelId := none }

section Result

variable (first second : Database) (input : UsageInput)

/-- The sessions of the window. -/
def currentSessions (window : UsageWindow) : List SessionRow :=
  (selectSessions first input window).filter fun row =>
    inWindow row.session.startedAt window.fromMs window.toMs

/-- The usage rows of the window that the filters leave. -/
def currentUsage (window : UsageWindow) : List UsageRow :=
  (scopeRows second input).filter fun row =>
    inWindow row.usage.createdAt window.fromMs window.toMs

theorem currentSessions_ids (window : UsageWindow) :
    ((currentSessions first input window).map (·.session.id)).Nodup := by
  have hsublist := (List.filter_sublist (l := selectSessions first input window)
    (p := fun row => inWindow row.session.startedAt window.fromMs window.toMs)).trans
      (List.filter_sublist (l := joinSessions first))
  exact (hsublist.map _).nodup (joinSessions_ids first)

theorem mem_currentUsage {window : UsageWindow} {row : UsageRow}
    (hmem : row ∈ currentUsage second input window) :
    row ∈ joinUsage second ∧ inWindow row.usage.createdAt window.fromMs window.toMs = true := by
  obtain ⟨hscope, hwindow⟩ := List.mem_filter.mp hmem
  exact ⟨List.mem_of_mem_filter (mem_ofModel hscope), hwindow⟩

theorem currentUsage_sessions {window : UsageWindow} :
    ∀ row ∈ currentUsage second input window, ∀ other ∈ currentUsage second input window,
      row.session.id = other.session.id → row.session = other.session :=
  fun _ hrow _ hother =>
    session_eq_of_id (mem_currentUsage second input hrow).1 (mem_currentUsage second input hother).1

/-- A result in terms of the rows of its window. -/
theorem getUsageAnalytics_eq :
    let window := usageWindow input.range input.now
    let result := getUsageAnalytics first second input
    let sessions := currentSessions first input window
    let usage := currentUsage second input window
    let selected := selectedSessions input sessions usage
    result.window = window ∧
      result.summary = addUsages (addSessions emptyTotals selected) usage ∧
      result.series = usageSeries input window sessions usage ∧
      result.projects = sortedBreakdown ProjectUsageBreakdown.totals
        ((addProjectUsage (addProjectSessions [] selected) usage).map Prod.snd) := by
  intro window result sessions usage selected
  have hprevious := (usageWindow_spec input.range input.now).2.2
  have husage : ofModel input ((selectUsage second input window).filter fun row =>
      inWindow row.usage.createdAt window.fromMs window.toMs) = usage :=
    currentUsageRows_eq hprevious
  refine ⟨rfl, ?_, ?_, ?_⟩
  · simp only [selected, ← husage]
    rfl
  · simp only [← husage]
    rfl
  · simp only [selected, ← husage]
    rfl

/-- The summary is what the sessions and the usage rows amount to. -/
theorem summary_eq :
    let window := usageWindow input.range input.now
    (getUsageAnalytics first second input).summary =
      sessionTotal (selectedSessions input (currentSessions first input window)
        (currentUsage second input window)) + usageTotal (currentUsage second input window) := by
  intro window
  rw [(getUsageAnalytics_eq first second input).2.1, addUsages_eq, addSessions_eq]
  exact congrArg (· + _) (zero_add _)

theorem usagePart_sessionTotal (rows : List SessionRow) : usagePart (sessionTotal rows) = 0 := by
  induction rows with
  | nil => rfl
  | cons row rest ih =>
      rw [sessionTotal, List.map_cons, List.sum_cons, usagePart_add, usagePart_sessionTotals,
        zero_add]
      exact ih

theorem usagePart_usageTotal (rows : List UsageRow) :
    usagePart (usageTotal rows) = usageTotal rows := by
  induction rows with
  | nil => rfl
  | cons row rest ih =>
      rw [usageTotal, List.map_cons, List.sum_cons, usagePart_add, usagePart_usageTotals]
      exact congrArg (_ + ·) ih

theorem usagePart_summary :
    usagePart (getUsageAnalytics first second input).summary =
      usageTotal (currentUsage second input (usageWindow input.range input.now)) := by
  rw [summary_eq, usagePart_add, usagePart_sessionTotal, usagePart_usageTotal, zero_add]

/-- The models hold the usage of the summary without the model filter. -/
theorem modelsUsage_eq :
    modelsUsage (getUsageAnalytics first second input) =
      usagePart (getUsageAnalytics first second input.withoutModel).summary := by
  have hprevious := (usageWindow_spec input.range input.now).2.2
  have hscope : ofModel input.withoutModel
      ((selectUsage second input.withoutModel (usageWindow input.range input.now)).filter fun row =>
        inWindow row.usage.createdAt (usageWindow input.range input.now).fromMs
          (usageWindow input.range input.now).toMs) =
      currentUsage second input.withoutModel (usageWindow input.range input.now) :=
    currentUsageRows_eq hprevious
  rw [usagePart_summary, modelsUsage]
  refine (sum_sortedBreakdown ModelUsageBreakdown.totals _ usagePart).trans ?_
  rw [List.map_map]
  refine Eq.trans ?_ (congrArg usageTotal hscope)
  refine Eq.trans ?_ (sum_modelUsage _)
  congr 1
  apply List.map_congr_left
  exact fun entry _ => usagePart_addStatuses _ _ _

/-- The agents hold the usage of the summary. -/
theorem agentModelsUsage_eq :
    ((getUsageAnalytics first second input).agentModels.map fun row => usagePart row.totals).sum =
      usagePart (getUsageAnalytics first second input).summary := by
  have hprevious := (usageWindow_spec input.range input.now).2.2
  have husage : ofModel input
      ((selectUsage second input (usageWindow input.range input.now)).filter fun row =>
        inWindow row.usage.createdAt (usageWindow input.range input.now).fromMs
          (usageWindow input.range input.now).toMs) =
      currentUsage second input (usageWindow input.range input.now) :=
    currentUsageRows_eq hprevious
  rw [usagePart_summary]
  refine (sum_sortedBreakdown AgentModelUsageBreakdown.totals _ usagePart).trans ?_
  rw [List.map_map, ← husage]
  refine Eq.trans ?_ (sum_agentModelUsage _)
  congr 1
  apply List.map_congr_left
  exact fun entry _ => usagePart_addStatuses _ _ _

end Result

/-- A step of a model. -/
def sampleUsage (modelId : String) : ModelUsageEvent where
  sessionId := "session"
  sessionNodeId := none
  createdAt := 1000
  inputTokens := some 5
  outputTokens := some 1
  cacheReadTokens := none
  cacheWriteTokens := none
  costUsd := none
  usageReported := true
  modelId := some modelId
  agentId := none
  agentName := none
  eveSessionId := "eve"

/-- A session with one step of each of two models. -/
def sampleDatabase : Database where
  projects := [{ id := "shop", name := "Shop" }]
  sessions := [{ id := "session", projectId := "shop", status := .completed, startedAt := 900 }]
  sessionNodes := []
  modelUsageEvents := [sampleUsage "large", sampleUsage "small"]
  projectKey := by decide
  sessionKey := by decide
  nodeKey := by decide

end Eveland.UsageAnalytics
