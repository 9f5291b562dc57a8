/-
# The log lines of projects

`listLogsPage` answers the log lines of a project in pages: the lines after a cursor, the last
lines, or the last lines before a cursor. The theorems say which lines of the scope a page
holds, and what its cursors say about the lines that it leaves out. They assume that the stored
lines of the scope ascend in their sequence numbers, which `LogFollowers` shows of the appends.
-/

import Eveland.Foundations.KeysetPages
import Eveland.Foundations.Outcome

namespace Eveland.LogStore

inductive LogType where
  | build
  | deploy
  | runtime
  deriving DecidableEq

/-- A row of `logs`. -/
structure LogRow where
  id : String
  projectId : String
  deploymentId : Option String
  type : LogType
  line : String
  seq : ℤ
  createdAt : ℤ
  deriving DecidableEq

/-- A log line as the API answers it. -/
structure LogRecord where
  id : String
  projectId : String
  deploymentId : Option String
  type : LogType
  line : String
  createdAt : ℤ
  deriving DecidableEq

/-- `logRowToLog`. -/
def logRowToLog (row : LogRow) : LogRecord where
  id := row.id
  projectId := row.projectId
  deploymentId := row.deploymentId
  type := row.type
  line := row.line
  createdAt := row.createdAt

/-- The project and, where one is given, the type of the lines that are read. -/
structure LogScope where
  projectId : String
  type : Option LogType
  deriving DecidableEq

/-- `logScope`. -/
def logScope (scope : LogScope) (row : LogRow) : Bool :=
  match scope.type with
  | some type => row.projectId = scope.projectId && row.type = type
  | none => row.projectId = scope.projectId

theorem projectId_of_logScope {scope : LogScope} {row : LogRow} (hrow : logScope scope row = true) :
    row.projectId = scope.projectId := by
  unfold logScope at hrow
  split at hrow
  · exact of_decide_eq_true (Bool.and_eq_true_iff.mp hrow).1
  · exact of_decide_eq_true hrow

structure PageOptions where
  limit : ℤ
  after : Option ℤ
  before : Option ℤ

/-- A page of lines. A page that was read forward has no `olderCursor`. -/
structure LogPage where
  logs : List LogRecord
  cursor : ℤ
  olderCursor : Option ℤ
  deriving DecidableEq

/-- The limit that a page is read with. -/
def pageLimit (limit : ℤ) : ℕ := (min (max 1 limit) 1000).toNat

/-- A page after a cursor: the first lines that follow it. -/
def pageAfter (inScope : List LogRow) (limit : ℕ) (after : ℤ) : LogPage :=
  let rows := (Keyset.orderBy LogRow.seq (inScope.filter fun row => after < row.seq)).take limit
  { logs := rows.map logRowToLog
    cursor := (rows.getLast?.map LogRow.seq).getD after
    olderCursor := none }

/-- The tail, or a page before a cursor: the last lines, read with one extra line that says
whether there are older ones. -/
def pageBefore (inScope : List LogRow) (limit : ℕ) (before : Option ℤ) : LogPage :=
  let backwardScope := match before with
    | none => inScope
    | some before => inScope.filter fun row => row.seq < before
  let fetched := (Keyset.orderByDesc LogRow.seq backwardScope).take (limit + 1)
  let hasOlder := limit < fetched.length
  let rows := (if hasOlder then fetched.dropLast else fetched).reverse
  { logs := rows.map logRowToLog
    cursor := (rows.getLast?.map LogRow.seq).getD 0
    olderCursor := if hasOlder then rows.head?.map LogRow.seq else none }

/-- `listLogsPage`. -/
def listLogsPage (logs : List LogRow) (scope : LogScope) (options : PageOptions) :
    Except String LogPage :=
  let inScope := logs.filter (logScope scope)
  match options.after, options.before with
  | some _, some _ => .error "listLogsPage accepts either after or before, not both."
  | some after, none => .ok (pageAfter inScope (pageLimit options.limit) after)
  | none, before => .ok (pageBefore inScope (pageLimit options.limit) before)

theorem pageLimit_pos (limit : ℤ) : 0 < pageLimit limit := by
  unfold pageLimit
  omega

/-! ## What a page holds -/

variable {inScope : List LogRow} {limit : ℕ} {after : ℤ} {before : Option ℤ}

/-- The lines of a page after a cursor. -/
structure HoldsAfter (inScope : List LogRow) (limit : ℕ) (after : ℤ) (page : LogPage) : Prop where
  /-- The page holds the lines up to its own cursor, and no others. -/
  logs : page.logs = (inScope.filter fun row => after < row.seq ∧ row.seq ≤ page.cursor).map
    logRowToLog
  /-- The cursor moves forward, to a line of the scope. -/
  cursor : page.cursor = after ∨ after < page.cursor ∧ ∃ row ∈ inScope, row.seq = page.cursor
  /-- A page that is not full has reached the last line. -/
  short : page.logs.length < limit → ∀ row ∈ inScope, row.seq ≤ page.cursor ∨ row.seq ≤ after

theorem pageAfter_holds (hinScope : Keyset.Ascending LogRow.seq inScope) (limit : ℕ)
    (after : ℤ) : HoldsAfter inScope limit after (pageAfter inScope limit after) := by
  have hafter := hinScope.filter fun row => after < row.seq
  cases hlast : ((inScope.filter fun row => after < row.seq).take limit).getLast? with
  | none =>
      have hnone : (inScope.filter fun row => after < row.seq).take limit = [] :=
        List.getLast?_eq_none_iff.mp hlast
      have hpage : pageAfter inScope limit after = ⟨[], after, none⟩ := by
        simp [pageAfter, hafter.orderBy_eq, hnone]
      rw [hpage]
      constructor
      · symm
        rw [List.map_eq_nil_iff, List.filter_eq_nil_iff]
        intro row _
        simp
      · exact Or.inl rfl
      · intro hshort row hrow
        obtain hzero | hnone := List.take_eq_nil_iff.mp hnone
        · exact absurd hshort (by simp [hzero])
        · have hle := List.filter_eq_nil_iff.mp hnone row hrow
          simp only [decide_eq_true_eq] at hle
          exact Or.inr (Int.not_lt.mp hle)
  | some last =>
      obtain ⟨hmem, hlt⟩ :=
        List.mem_filter.mp (List.mem_of_mem_take (List.mem_of_getLast? hlast))
      have htake := hafter.take_eq_filter hlast
      have hpage : pageAfter inScope limit after = ⟨((inScope.filter fun row =>
          after < row.seq).take limit).map logRowToLog, last.seq, none⟩ := by
        simp only [pageAfter, hafter.orderBy_eq, hlast, Option.map_some, Option.getD_some]
      rw [hpage]
      constructor
      · dsimp only
        rw [htake, List.filter_filter]
        congr 2
        funext row
        simp [and_comm]
      · exact Or.inr ⟨of_decide_eq_true hlt, last, hmem, rfl⟩
      · intro hshort row hrow
        simp only [List.length_map, List.length_take] at hshort
        by_cases hle : row.seq ≤ after
        · exact Or.inr hle
        · left
          have hin : row ∈ inScope.filter fun row => after < row.seq :=
            List.mem_filter.mpr ⟨hrow, by simpa using hle⟩
          have hwhole := List.take_of_length_le
            (show (inScope.filter fun row => after < row.seq).length ≤ limit by omega)
          rw [← hwhole, htake] at hin
          exact of_decide_eq_true (List.mem_filter.mp hin).2

/-- The lines before a bound, where there is one. -/
def below (before : Option ℤ) (row : LogRow) : Prop := ∀ bound, before = some bound →
  row.seq < bound

instance (before : Option ℤ) (row : LogRow) : Decidable (below before row) :=
  match before with
  | none => isTrue fun _ h => nomatch h
  | some bound => decidable_of_iff (row.seq < bound) (by simp [below])

/-- The lines of a page that was read backwards. -/
structure HoldsBefore (inScope : List LogRow) (limit : ℕ) (before : Option ℤ) (page : LogPage) :
    Prop where
  /-- The page holds the lines from its older cursor on, and no others. -/
  logs : page.logs = (inScope.filter fun row => below before row ∧
    page.olderCursor.getD 0 ≤ row.seq).map logRowToLog
  /-- The cursor is behind no line of the page. -/
  cursor : ∀ row ∈ inScope, below before row → row.seq ≤ page.cursor
  /-- The cursor is 0 or a line of the page. -/
  line : page.cursor = 0 ∨ ∃ row ∈ inScope, below before row ∧ row.seq = page.cursor
  /-- The older cursor is a line of the page. -/
  older : ∀ bound, page.olderCursor = some bound →
    ∃ row ∈ inScope, below before row ∧ row.seq = bound

/-- The lines that a backward read answers. -/
theorem pageBefore_rows (hinScope : Keyset.Ascending LogRow.seq inScope) (limit : ℕ)
    (before : Option ℤ) :
    let backward := inScope.filter fun row => below before row
    let rows := backward.drop (backward.length - limit)
    pageBefore inScope limit before =
      { logs := rows.map logRowToLog
        cursor := (rows.getLast?.map LogRow.seq).getD 0
        olderCursor := if limit < backward.length then rows.head?.map LogRow.seq else none } := by
  have hbackward : (match before with
      | none => inScope
      | some before => inScope.filter fun row => row.seq < before) =
      inScope.filter fun row => below before row := by
    cases before with
    | none => simp [below]
    | some bound => simp [below]
  intro backward rows
  have hasc : Keyset.Ascending LogRow.seq backward := hinScope.filter _
  have hfetched : (Keyset.orderByDesc LogRow.seq backward).take (limit + 1) =
      backward.reverse.take (limit + 1) := by rw [hasc.orderByDesc_eq]
  have hlength : (backward.reverse.take (limit + 1)).length = min (limit + 1) backward.length := by
    rw [List.length_take, List.length_reverse]
  unfold pageBefore
  simp only [hbackward]
  rw [show (inScope.filter fun row => decide (below before row)) = backward from rfl, hfetched,
    hlength]
  by_cases hlt : limit < backward.length
  · have hrows : (backward.reverse.take (limit + 1)).dropLast.reverse = rows := by
      rw [List.dropLast_eq_take, List.take_take, hlength,
        show min (min (limit + 1) backward.length - 1) (limit + 1) = limit by omega,
        List.take_reverse, List.reverse_reverse]
    have hmore : limit < min (limit + 1) backward.length := by omega
    simp only [hmore, hlt, if_true, hrows]
  · have hrows : (backward.reverse.take (limit + 1)).reverse = rows := by
      rw [List.take_of_length_le (by rw [List.length_reverse]; omega), List.reverse_reverse]
      simp only [rows, show backward.length - limit = 0 by omega, List.drop_zero]
    have hnoMore : ¬limit < min (limit + 1) backward.length := by omega
    simp only [hnoMore, hlt, if_false, hrows]

theorem pageBefore_holds (hinScope : Keyset.Ascending LogRow.seq inScope)
    (hpositive : ∀ row ∈ inScope, 0 < row.seq) (hlimit : 0 < limit) (before : Option ℤ) :
    HoldsBefore inScope limit before (pageBefore inScope limit before) := by
  have hasc := hinScope.filter fun row => below before row
  generalize hbackward : (inScope.filter fun row => below before row) = backward at hasc
  have hmem : ∀ row ∈ backward, row ∈ inScope ∧ below before row := by
    intro row hrow
    rw [← hbackward] at hrow
    exact ⟨(List.mem_filter.mp hrow).1, of_decide_eq_true (List.mem_filter.mp hrow).2⟩
  have hin : ∀ row ∈ inScope, below before row → row ∈ backward := by
    intro row hrow hbelow
    rw [← hbackward]
    exact List.mem_filter.mpr ⟨hrow, decide_eq_true hbelow⟩
  have hpage := pageBefore_rows hinScope limit before
  simp only [hbackward] at hpage
  rw [hpage]
  have hsplit := List.take_append_drop (backward.length - limit) backward
  generalize hrows : backward.drop (backward.length - limit) = rows at hsplit
  have hsub : ∀ row ∈ rows, row ∈ backward := by
    rw [← hrows]
    exact fun row hrow => List.mem_of_mem_drop hrow
  have hlength : rows.length = min limit backward.length := by
    rw [← hrows, List.length_drop]
    omega
  constructor
  · dsimp only
    have hwindow : ∀ low : ℤ, (inScope.filter fun row => below before row ∧ low ≤ row.seq) =
        backward.filter fun row => low ≤ row.seq := by
      intro low
      rw [← hbackward, List.filter_filter]
      congr 1
      funext row
      simp [and_comm]
    rw [hwindow]
    congr 1
    split
    next hlt =>
      cases hfirst : rows.head? with
      | none =>
          rw [List.head?_eq_none_iff] at hfirst
          rw [hfirst, List.length_nil] at hlength
          omega
      | some first =>
          rw [← hrows] at hfirst ⊢
          exact hasc.drop_eq_filter hfirst
    next hle =>
      have hwhole : rows = backward := by
        rw [← hrows, show backward.length - limit = 0 by omega, List.drop_zero]
      rw [hwhole]
      symm
      rw [List.filter_eq_self]
      intro row hrow
      simpa using (hpositive row (hmem row hrow).1).le
  · intro row hrow hbelow
    cases hlast : rows.getLast? with
    | none =>
        rw [List.getLast?_eq_none_iff] at hlast
        have hsome := List.length_pos_of_mem (hin row hrow hbelow)
        rw [hlast, List.length_nil] at hlength
        omega
    | some last =>
        have hback : backward.getLast? = some last := by
          rw [← hsplit, List.getLast?_append, hlast, Option.some_or]
        exact hasc.le_getLast hback row (hin row hrow hbelow)
  · cases hlast : rows.getLast? with
    | none => exact Or.inl (by simp)
    | some last =>
        obtain ⟨hrow, hbelow⟩ := hmem last (hsub last (List.mem_of_getLast? hlast))
        exact Or.inr ⟨last, hrow, hbelow, by simp⟩
  · intro bound hbound
    dsimp only at hbound
    split at hbound
    · obtain ⟨first, hfirst, rfl⟩ := Option.map_eq_some_iff.mp hbound
      obtain ⟨hrow, hbelow⟩ := hmem first (hsub first (List.mem_of_head? hfirst))
      exact ⟨first, hrow, hbelow, rfl⟩
    · cases hbound

end Eveland.LogStore
