/-
# What a poll reads

A job that is among the newest of its project is listed, whatever the order of jobs of one instant;
a listing is judged by the import and by the build chained to it; and a page holds the first lines
that were not read yet.
-/

import Eveland.Cli.DeployWatcher
import Eveland.Worker.EndedJobs

namespace Eveland.DeployWatcher

open JobStore LogStore
open DeployPipeline (stringField parentJobId)
open JobExecutions (hasEnded)

/-! ## Listings -/

section Listings

variable {s : Store} {projectId : String} {limit : ℕ} {tie : String → ℕ} {row : JobRow}

theorem newestFirst_total (tie : String → ℕ) : Std.Total (newestFirst tie) := by
  constructor
  intro first second
  unfold newestFirst
  omega

theorem newestFirst_trans (tie : String → ℕ) : IsTrans JobRow (newestFirst tie) := by
  constructor
  intro first second third hfirst hsecond
  unfold newestFirst at *
  omega

theorem pairwise_listProjectJobs :
    (listProjectJobs s projectId limit tie).Pairwise (newestFirst tie) := by
  have htotal := newestFirst_total tie
  have htrans := newestFirst_trans tie
  exact (List.pairwise_insertionSort (newestFirst tie) _).sublist (List.take_sublist _ _)

theorem mem_of_mem_listProjectJobs (h : row ∈ listProjectJobs s projectId limit tie) :
    row ∈ s.jobs ∧ row.projectId = projectId := by
  have hsorted := List.mem_of_mem_take h
  rw [List.mem_insertionSort, List.mem_filter, decide_eq_true_eq] at hsorted
  exact hsorted

/-- A job is listed if it is among the newest, whatever the order of jobs of one instant. -/
theorem mem_listProjectJobs (hmem : row ∈ s.jobs) (hproject : row.projectId = projectId)
    (hnewest : (s.jobs.countP fun other =>
      other.projectId = projectId && row.createdAt ≤ other.createdAt) ≤ limit) :
    row ∈ listProjectJobs s projectId limit tie := by
  have htotal := newestFirst_total tie
  have htrans := newestFirst_trans tie
  have hperm := List.perm_insertionSort (newestFirst tie)
    (s.jobs.filter fun other => other.projectId = projectId)
  have hpairwise := List.pairwise_insertionSort (newestFirst tie)
    (s.jobs.filter fun other => other.projectId = projectId)
  rw [listProjectJobs]
  generalize hsorted : List.insertionSort (newestFirst tie)
    (s.jobs.filter fun other => other.projectId = projectId) = sorted at hperm hpairwise
  have hrow : row ∈ sorted := hperm.mem_iff.mpr (List.mem_filter.mpr ⟨hmem, by simpa using hproject⟩)
  obtain ⟨before, after, rfl⟩ := List.append_of_mem hrow
  -- The rows before the job are at least as new, so there is room for the job itself.
  have hcount : (before ++ row :: after).countP (fun other => row.createdAt ≤ other.createdAt) ≤
      limit := by
    rw [hperm.countP_eq, List.countP_filter]
    refine le_trans (List.countP_mono_left ?_) hnewest
    intro other _ hother
    rw [Bool.and_comm]
    exact hother
  have hbefore : before.countP (fun other => row.createdAt ≤ other.createdAt) = before.length := by
    rw [List.countP_eq_length]
    intro other hother
    have hle := (List.pairwise_append.mp hpairwise).2.2 other hother row List.mem_cons_self
    rw [decide_eq_true_eq]
    unfold newestFirst at hle
    omega
  rw [List.countP_append, hbefore, List.countP_cons_of_pos (by simp)] at hcount
  rw [List.mem_take_iff_getElem]
  refine ⟨before.length, ?_, ?_⟩
  · rw [List.length_append, List.length_cons]
    omega
  · simp

end Listings

/-! ## A poll's judgement -/

section Judgement

variable {importJobId : String} {rows : List JobRow}

/-- The row is of a build that names the import as its parent. -/
def isChained (importJobId : String) (row : JobRow) : Bool :=
  row.type = some .buildDeploy && parentJobId row.payload = some importJobId

/-- What a row says of the end of the watch. -/
inductive Tells (importJobId : String) (row : JobRow) : Ending → Prop
  | importFailed (hid : row.id = importJobId) (hstatus : row.status = .failed) :
      Tells importJobId row (.threw (.importFailed row.lastError))
  | buildFailed (hchained : isChained importJobId row = true) (hstatus : row.status = .failed) :
      Tells importJobId row (.threw (.buildFailed row.lastError))
  | completed (hchained : isChained importJobId row = true) (hstatus : row.status = .completed)
      {deploymentId : String} (hdeployment : stringField row.payload "deploymentId" =
        some deploymentId) (hne : deploymentId ≠ "") :
      Tells importJobId row (.returned deploymentId)
  | unrecorded (hchained : isChained importJobId row = true) (hstatus : row.status = .completed)
      (hdeployment : ∀ deploymentId, stringField row.payload "deploymentId" = some deploymentId →
        deploymentId = "") :
      Tells importJobId row (.threw .unrecorded)

theorem find?_toPublicJob_id :
    (rows.map toPublicJob).find? (fun job => job.id = importJobId) =
      (rows.find? fun row => row.id = importJobId).map toPublicJob := by
  rw [List.find?_map]
  rfl

theorem find?_toPublicJob_chained :
    (rows.map toPublicJob).find? (fun job =>
        job.type = some .buildDeploy && job.parentJobId = some importJobId) =
      (rows.find? (isChained importJobId)).map toPublicJob := by
  rw [List.find?_map]
  rfl

theorem judge_eq : judge importJobId (rows.map toPublicJob) =
    ((rows.find? fun row => row.id = importJobId).bind fun row => judgeImport (toPublicJob row)).or
      ((rows.find? (isChained importJobId)).bind fun row => judgeBuild (toPublicJob row)) := by
  rw [judge, find?_toPublicJob_id, find?_toPublicJob_chained, Option.bind_map, Option.bind_map]
  rfl

theorem tells_of_judgeImport {row : JobRow} {ending : Ending} (hid : row.id = importJobId)
    (h : judgeImport (toPublicJob row) = some ending) : Tells importJobId row ending := by
  rw [judgeImport] at h
  split_ifs at h with hstatus
  cases h
  exact .importFailed hid hstatus

theorem tells_of_judgeBuild {row : JobRow} {ending : Ending}
    (hchained : isChained importJobId row = true)
    (h : judgeBuild (toPublicJob row) = some ending) : Tells importJobId row ending := by
  rw [judgeBuild] at h
  split_ifs at h with hfailed hcompleted
  · cases h
    exact .buildFailed hchained hfailed
  · split at h
    · next deploymentId hdeployment =>
        split_ifs at h with hempty
        · cases h
          refine .unrecorded hchained hcompleted ?_
          intro other hother
          rw [← hempty]
          exact Option.some.inj (hother.symm.trans hdeployment)
        · cases h
          exact .completed hchained hcompleted hdeployment hempty
    · next hnone =>
        cases h
        refine .unrecorded hchained hcompleted ?_
        intro other hother
        exact absurd (hother.symm.trans hnone) (by simp)

/-- A judgement is what one of the rows says. -/
theorem exists_tells_of_judge {ending : Ending}
    (h : judge importJobId (rows.map toPublicJob) = some ending) :
    ∃ row ∈ rows, Tells importJobId row ending := by
  rw [judge_eq, Option.or_eq_some_iff] at h
  rcases h with himport | ⟨_, hbuild⟩
  · obtain ⟨row, hfound, hrow⟩ := Option.bind_eq_some_iff.mp himport
    exact ⟨row, List.mem_of_find?_eq_some hfound,
      tells_of_judgeImport (by simpa using List.find?_some hfound) hrow⟩
  · obtain ⟨row, hfound, hrow⟩ := Option.bind_eq_some_iff.mp hbuild
    exact ⟨row, List.mem_of_find?_eq_some hfound,
      tells_of_judgeBuild (List.find?_some hfound) hrow⟩

/-- A build that has ended is judged. -/
theorem judgeBuild_ne_none {row : JobRow} (hended : hasEnded row = true) :
    judgeBuild (toPublicJob row) ≠ none := by
  rw [hasEnded, Bool.or_eq_true, decide_eq_true_eq, decide_eq_true_eq] at hended
  rw [judgeBuild]
  split_ifs with hfailed hcompleted
  · simp
  · split
    · split_ifs
      · simp
      · simp
    · simp
  · rcases hended with hstatus | hstatus
    · exact absurd hstatus hcompleted
    · exact absurd hstatus hfailed

/-- Where the import is told by its id, a listing with the failed import is judged. -/
theorem judge_ne_none_of_import {row : JobRow} (hmem : row ∈ rows)
    (hunique : ∀ other ∈ rows, other.id = row.id → other = row) (hid : row.id = importJobId)
    (hfailed : row.status = .failed) : judge importJobId (rows.map toPublicJob) ≠ none := by
  have hfound : (rows.find? fun other => other.id = importJobId) = some row := by
    cases hfind : rows.find? fun other => other.id = importJobId with
    | none =>
        rw [List.find?_eq_none] at hfind
        exact absurd hid (by simpa using hfind row hmem)
    | some other =>
        have hother : other.id = importJobId := by simpa using List.find?_some hfind
        rw [hunique other (List.mem_of_find?_eq_some hfind) (hother.trans hid.symm)]
  have hjudged : judgeImport (toPublicJob row) = some (.threw (.importFailed row.lastError)) :=
    if_pos hfailed
  rw [judge_eq, hfound, Option.bind_some, hjudged]
  simp

/-- Where only one build is chained to the import, a listing with the build that has ended is
judged. -/
theorem judge_ne_none_of_build {row : JobRow} (hmem : row ∈ rows)
    (hunique : ∀ other ∈ rows, isChained importJobId other = true → other = row)
    (hchained : isChained importJobId row = true) (hended : hasEnded row = true) :
    judge importJobId (rows.map toPublicJob) ≠ none := by
  have hfound : rows.find? (isChained importJobId) = some row := by
    cases hfind : rows.find? (isChained importJobId) with
    | none =>
        rw [List.find?_eq_none] at hfind
        exact absurd hchained (hfind row hmem)
    | some other =>
        rw [hunique other (List.mem_of_find?_eq_some hfind) (List.find?_some hfind)]
  rw [judge_eq, hfound, Option.bind_some]
  intro hnone
  rw [Option.or_eq_none_iff] at hnone
  exact judgeBuild_ne_none hended hnone.2

end Judgement

/-! ## Reading the log -/

/-- A cursor between the lines that were read, so many of them, and those that were not. -/
structure ReadUpTo (lines : List LogRow) (count : ℕ) (cursor : ℤ) : Prop where
  count_le : count ≤ lines.length
  read : ∀ row ∈ lines.take count, row.seq ≤ cursor
  unread : ∀ row ∈ lines.drop count, cursor < row.seq
  line : cursor = 0 ∨ ∃ row ∈ lines, row.seq = cursor

namespace ReadUpTo

variable {lines : List LogRow} {count : ℕ} {cursor : ℤ}

/-- Nothing was read yet. -/
theorem zero (hpositive : ∀ row ∈ lines, 0 < row.seq) : ReadUpTo lines 0 0 where
  count_le := Nat.zero_le _
  read row hrow := by cases hrow
  unread := hpositive
  line := .inl rfl

/-- The lines after the cursor are those that were not read. -/
theorem filter_eq (h : ReadUpTo lines count cursor) :
    (lines.filter fun row => cursor < row.seq) = lines.drop count := by
  have hread : (lines.take count).filter (fun row => decide (cursor < row.seq)) = [] := by
    rw [List.filter_eq_nil_iff]
    intro row hrow
    have hle := h.read row hrow
    simpa using hle
  have hunread : (lines.drop count).filter (fun row => decide (cursor < row.seq)) =
      lines.drop count := by
    rw [List.filter_eq_self]
    intro row hrow
    simpa using h.unread row hrow
  conv_lhs => rw [← List.take_append_drop count lines]
  rw [List.filter_append, hread, hunread, List.nil_append]

/-- A page holds the first lines that were not read. -/
theorem pageAfter_eq (h : ReadUpTo lines count cursor)
    (hlines : Keyset.Ascending LogRow.seq lines) (limit : ℕ) :
    pageAfter lines limit cursor =
      { logs := ((lines.drop count).take limit).map logRowToLog
        cursor := (((lines.drop count).take limit).getLast?.map LogRow.seq).getD cursor
        olderCursor := none } := by
  rw [pageAfter, (hlines.filter _).orderBy_eq, h.filter_eq]

/-- With the page, its lines were read. -/
theorem afterPage (h : ReadUpTo lines count cursor)
    (hlines : Keyset.Ascending LogRow.seq lines) (limit : ℕ) :
    ReadUpTo lines (count + ((lines.drop count).take limit).length)
      ((((lines.drop count).take limit).getLast?.map LogRow.seq).getD cursor) := by
  have hlength : ((lines.drop count).take limit).length = min limit (lines.length - count) := by
    rw [List.length_take, List.length_drop]
  have hle := h.count_le
  cases hlast : ((lines.drop count).take limit).getLast? with
  | none =>
      rw [List.getLast?_eq_none_iff] at hlast
      rw [hlast, List.length_nil, Nat.add_zero]
      exact h
  | some last =>
      obtain ⟨page, hpage⟩ := List.getLast?_eq_some_iff.mp hlast
      have hsplit : lines = (lines.take count ++ page) ++ last ::
          (lines.drop count).drop limit := by
        rw [List.append_assoc, ← List.singleton_append, ← List.append_assoc page, ← hpage,
          List.take_append_drop, List.take_append_drop]
      have htake : lines.take (count + ((lines.drop count).take limit).length) =
          (lines.take count ++ page) ++ [last] := by
        rw [List.append_assoc, ← hpage, List.take_add]
        congr 1
        rw [hlength, List.take_eq_take_iff, List.length_drop]
        omega
      have hdrop : lines.drop (count + ((lines.drop count).take limit).length) =
          (lines.drop count).drop limit := by
        rw [← List.drop_drop, hlength]
        rcases Nat.le_total limit (lines.length - count) with hfull | hshort
        · rw [Nat.min_eq_left hfull]
        · rw [Nat.min_eq_right hshort, List.drop_of_length_le (by rw [List.length_drop]),
            List.drop_of_length_le (by rw [List.length_drop]; exact hshort)]
      have hpairwise := hlines
      rw [Keyset.Ascending, hsplit, List.pairwise_append] at hpairwise
      refine ⟨by omega, ?_, ?_, .inr ⟨last, ?_, rfl⟩⟩
      · intro row hrow
        rw [htake, List.mem_append, List.mem_singleton] at hrow
        rcases hrow with hrow | rfl
        · exact (hpairwise.2.2 row hrow last List.mem_cons_self).le
        · exact le_rfl
      · intro row hrow
        rw [hdrop] at hrow
        exact List.rel_of_pairwise_cons hpairwise.2.1 hrow
      · rw [hsplit]
        exact List.mem_append_right _ List.mem_cons_self

/-- A later line is not read yet. -/
theorem append (h : ReadUpTo lines count cursor) {row : LogRow} (hpositive : 0 < row.seq)
    (hlater : ∀ old ∈ lines, old.seq < row.seq) : ReadUpTo (lines ++ [row]) count cursor := by
  have hcursor : cursor < row.seq := by
    rcases h.line with rfl | ⟨old, hold, rfl⟩
    · exact hpositive
    · exact hlater old hold
  refine ⟨?_, ?_, ?_, ?_⟩
  · rw [List.length_append]
    exact Nat.le_add_right_of_le h.count_le
  · rw [List.take_append_of_le_length h.count_le]
    exact h.read
  · intro other hother
    rw [List.drop_append_of_le_length h.count_le, List.mem_append, List.mem_singleton] at hother
    rcases hother with hother | rfl
    · exact h.unread other hother
    · exact hcursor
  · rcases h.line with hzero | ⟨old, hold, hseq⟩
    · exact .inl hzero
    · exact .inr ⟨old, List.mem_append_left _ hold, hseq⟩

end ReadUpTo

/-- The cursor of the tail is behind no line. -/
theorem readUpTo_pageBefore {lines : List LogRow} (hlines : Keyset.Ascending LogRow.seq lines)
    (hpositive : ∀ row ∈ lines, 0 < row.seq) {limit : ℕ} (hlimit : 0 < limit) :
    ReadUpTo lines lines.length (pageBefore lines limit none).cursor := by
  have hpage := pageBefore_holds hlines hpositive hlimit none
  have hbelow : ∀ row : LogRow, below none row := by
    intro row bound hbound
    cases hbound
  refine ⟨le_rfl, ?_, ?_, ?_⟩
  · intro row hrow
    rw [List.take_length] at hrow
    exact hpage.cursor row hrow (hbelow row)
  · intro row hrow
    rw [List.drop_length] at hrow
    cases hrow
  · rcases hpage.line with hzero | ⟨row, hrow, _, hseq⟩
    · exact .inl hzero
    · exact .inr ⟨row, hrow, hseq⟩

end Eveland.DeployWatcher
