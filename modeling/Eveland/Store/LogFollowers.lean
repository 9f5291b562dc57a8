/-
# Followers of a project's log

Any number of transactions append lines, each holding its project's row from before it draws
the sequence number of its line until it ends, while followers read the lines page by page. The
numbers of all projects come from one sequence, and a number that was drawn is gone, whether or
not its line is committed. Since the row is held, the lines of one project are committed in the
order of their numbers, and a cursor that has been passed stays behind every line to come.
-/

import Eveland.Foundations.Machine
import Eveland.Store.LogStore

namespace Eveland.LogFollowers

open LogStore

/-- The arguments of `appendLog`. -/
structure LogInput where
  projectId : String
  deploymentId : Option String
  type : LogType
  line : String
  deriving DecidableEq

/-- How far a transaction of `appendLog` is. -/
inductive Phase where
  | begun
  /-- The project's row is locked, if there is one. -/
  | locked
  /-- The row is inserted, and not committed. -/
  | inserted (row : LogRow)
  | ended
  deriving DecidableEq

structure Append where
  input : LogInput
  phase : Phase
  deriving DecidableEq

/-- The transaction is past its first statement and has not ended. -/
def Append.holds (append : Append) : Bool :=
  match append.phase with
  | .begun => false
  | .locked => true
  | .inserted _ => true
  | .ended => false

/-- Where a follower starts to read. -/
inductive Start where
  /-- After a cursor it is given. -/
  | after (cursor : ℤ)
  /-- With the last lines. -/
  | tail
  /-- With the last lines before a line of the project. -/
  | before (bound : ℤ)
  deriving DecidableEq

/-- A client that reads pages: the cursor of the last page it has read forward, the older
cursor of the last page it has read backward, and the pages, oldest lines first. -/
structure Follower where
  scope : LogScope
  start : Start
  cursor : ℤ
  olderCursor : Option ℤ
  pages : List (List LogRecord)
  deriving DecidableEq

structure System where
  /-- The committed lines, in the order in which they were committed. -/
  logs : List LogRow
  nextSeq : ℤ
  appends : List Append
  followers : List Follower
  deriving DecidableEq

inductive Action where
  /-- `appendLog` is called. -/
  | begin (input : LogInput)
  /-- It selects the project's row for update. -/
  | lock (i : ℕ)
  /-- It inserts the line. -/
  | insert (i : ℕ) (id : String) (createdAt : ℤ)
  | commit (i : ℕ)
  | abort (i : ℕ)
  /-- A follower starts from a cursor. -/
  | follow (scope : LogScope) (cursor : ℤ)
  /-- A follower reads the tail, or the lines before a line of the project. -/
  | start (scope : LogScope) (before : Option ℤ) (limit : ℤ)
  /-- A follower asks for the lines after its cursor. -/
  | poll (i : ℕ) (limit : ℤ)
  /-- A follower asks for the lines before its older cursor. -/
  | back (i : ℕ) (limit : ℤ)

/-- The append with another phase. -/
def System.setPhase (s : System) (i : ℕ) (append : Append) (phase : Phase) : System :=
  { s with appends := s.appends.set i { append with phase } }

variable (projects : List String)

/-- The `i`-th transaction locks its project's row. It waits while another one holds the row;
where there is no such project it locks nothing. -/
def lock (s : System) (i : ℕ) (append : Append) : Option System :=
  if projects.contains append.input.projectId &&
      s.appends.any fun other => other.holds && other.input.projectId = append.input.projectId
  then none
  else some (s.setPhase i append .locked)

/-- The row that the transaction has inserted and not committed has the id. -/
def Append.insertedId (append : Append) (id : String) : Bool :=
  match append.phase with
  | .inserted row => row.id = id
  | _ => false

/-- The `i`-th transaction inserts its line. The number is drawn before the constraints are
checked; the transaction ends where there is no such project or the id is taken, and waits
while it is not known whether the id is taken. -/
def insert (s : System) (i : ℕ) (append : Append) (id : String) (createdAt : ℤ) : Option System :=
  let row : LogRow :=
    { id, projectId := append.input.projectId, deploymentId := append.input.deploymentId
      type := append.input.type, line := append.input.line, seq := s.nextSeq, createdAt }
  let drawn := { s with nextSeq := s.nextSeq + 1 }
  if s.appends.any fun other => other.insertedId id then none
  else if projects.contains row.projectId && s.logs.all fun other => other.id ≠ id then
    some (drawn.setPhase i append (.inserted row))
  else some (drawn.setPhase i append .ended)

/-- The page that `listLogsPage` answers. -/
def readPage (s : System) (scope : LogScope) (options : PageOptions) : Option LogPage :=
  (listLogsPage s.logs scope options).toOption

/-- The line that a page back starts before is one that the follower has seen. -/
def seen (s : System) (scope : LogScope) (before : Option ℤ) : Bool :=
  before.all fun bound => s.logs.any fun row =>
    row.projectId = scope.projectId && row.seq = bound

/-- The follower that starts with a page. -/
def Follower.opened (scope : LogScope) (before : Option ℤ) (page : LogPage) : Follower where
  scope := scope
  start := before.elim .tail .before
  cursor := page.cursor
  olderCursor := page.olderCursor
  pages := [page.logs]

/-- The follower has read a page forward. -/
def Follower.polled (follower : Follower) (page : LogPage) : Follower :=
  { follower with cursor := page.cursor, pages := follower.pages ++ [page.logs] }

/-- The follower has read a page backward. -/
def Follower.backed (follower : Follower) (page : LogPage) : Follower :=
  { follower with olderCursor := page.olderCursor, pages := page.logs :: follower.pages }

def step (s : System) : Action → Option System
  | .begin input => some { s with appends := s.appends ++ [⟨input, .begun⟩] }
  | .lock i => s.appends[i]?.bind fun append =>
      match append.phase with
      | .begun => lock projects s i append
      | _ => none
  | .insert i id createdAt => s.appends[i]?.bind fun append =>
      match append.phase with
      | .locked => insert projects s i append id createdAt
      | _ => none
  | .commit i => s.appends[i]?.bind fun append =>
      match append.phase with
      | .inserted row => some { s.setPhase i append .ended with logs := s.logs ++ [row] }
      | _ => none
  | .abort i => s.appends[i]?.bind fun append =>
      match append.phase with
      | .ended => none
      | _ => some (s.setPhase i append .ended)
  | .follow scope cursor =>
      some { s with followers := s.followers ++ [⟨scope, .after cursor, cursor, none, []⟩] }
  | .start scope before limit =>
      if seen s scope before then
        (readPage s scope ⟨limit, none, before⟩).map fun page =>
          { s with followers := s.followers ++ [Follower.opened scope before page] }
      else none
  | .poll i limit => s.followers[i]?.bind fun follower =>
      (readPage s follower.scope ⟨limit, some follower.cursor, none⟩).map fun page =>
        { s with followers := s.followers.set i (follower.polled page) }
  | .back i limit => s.followers[i]?.bind fun follower => follower.olderCursor.bind fun bound =>
      (readPage s follower.scope ⟨limit, none, some bound⟩).map fun page =>
        { s with followers := s.followers.set i (follower.backed page) }

/-- Appends and followers from the empty log on. -/
def machine : Machine System Action where
  init s := s = ⟨[], 1, [], []⟩
  step := step projects

/-! ## What a follower has asked for -/

/-- The lowest number among the lines that the follower has asked for: it has asked for every
older line once a page back has no older cursor. -/
def Follower.low (follower : Follower) : ℤ :=
  match follower.start with
  | .after cursor => cursor + 1
  | _ => follower.olderCursor.getD 0

/-- The highest number among the lines that the follower has asked for. -/
def Follower.high (follower : Follower) : ℤ :=
  match follower.start with
  | .before bound => max (bound - 1) follower.cursor
  | _ => follower.cursor

/-- The committed lines that match the follower's filter, within the numbers it has asked
for. -/
def System.requested (s : System) (follower : Follower) : List LogRow :=
  s.logs.filter fun row => logScope follower.scope row &&
    (follower.low ≤ row.seq && row.seq ≤ follower.high)

/-! ## Commits in the order of the numbers -/

/-- What the lock on a project's row gives: the committed lines of a project ascend, and the
line of the one transaction that may be in progress is above them. -/
structure Committed (s : System) : Prop where
  ascending : ∀ projectId,
    Keyset.Ascending LogRow.seq (s.logs.filter fun row => row.projectId = projectId)
  numbered : ∀ row ∈ s.logs, 0 < row.seq ∧ row.seq < s.nextSeq
  positive : 0 < s.nextSeq
  pending : ∀ (i : ℕ) append row, s.appends[i]? = some append → append.phase = .inserted row →
    (row.projectId = append.input.projectId ∧ row.projectId ∈ projects) ∧
      (0 < row.seq ∧ row.seq < s.nextSeq) ∧
      ∀ other ∈ s.logs, other.projectId = row.projectId → other.seq < row.seq
  exclusive : ∀ (i j : ℕ) first second, s.appends[i]? = some first → s.appends[j]? = some second →
    first.holds = true → second.holds = true →
    first.input.projectId = second.input.projectId → first.input.projectId ∈ projects → i = j

variable {projects} {s t : System}

theorem getElem?_setPhase {i j : ℕ} {append other : Append} {phase : Phase}
    (hj : (s.setPhase i append phase).appends[j]? = some other) :
    (i = j ∧ other = { append with phase }) ∨ (i ≠ j ∧ s.appends[j]? = some other) := by
  rw [System.setPhase, List.getElem?_set] at hj
  split at hj
  · next hij =>
      split at hj
      · exact Or.inl ⟨hij, (Option.some.inj hj).symm⟩
      · cases hj
  · next hij => exact Or.inr ⟨hij, hj⟩

/-- A transaction moves on. It may come to hold its project's row if no other one does, and
its line, if it has one now, must be above the committed lines of its project. -/
theorem Committed.setPhase (hs : Committed projects s) {i : ℕ} {append : Append} {phase : Phase}
    (hholds : ({ append with phase } : Append).holds = true → append.input.projectId ∈ projects →
      ∀ j other, s.appends[j]? = some other → other.holds = true →
        append.input.projectId = other.input.projectId → i = j)
    (hrow : ∀ row, phase = .inserted row →
      (row.projectId = append.input.projectId ∧ row.projectId ∈ projects) ∧
        (0 < row.seq ∧ row.seq < s.nextSeq) ∧
        ∀ other ∈ s.logs, other.projectId = row.projectId → other.seq < row.seq) :
    Committed projects (s.setPhase i append phase) where
  ascending := hs.ascending
  numbered := hs.numbered
  positive := hs.positive
  pending j other row hj hphase := by
    obtain ⟨-, rfl⟩ | ⟨-, hj⟩ := getElem?_setPhase hj
    · exact hrow row hphase
    · exact hs.pending j other row hj hphase
  exclusive j k first second hj hk hfirst hsecond hsame hproject := by
    obtain ⟨rfl, rfl⟩ | ⟨hij, hj⟩ := getElem?_setPhase hj <;>
      obtain ⟨rfl, rfl⟩ | ⟨hik, hk⟩ := getElem?_setPhase hk
    · rfl
    · exact hholds hfirst hproject k second hk hsecond hsame
    · exact (hholds hsecond (hsame ▸ hproject) j first hj hfirst hsame.symm).symm
    · exact hs.exclusive j k first second hj hk hfirst hsecond hsame hproject

/-- A transaction that held the row already, or holds nothing now, keeps others out as before. -/
theorem Committed.setPhase_of_holds (hs : Committed projects s) {i : ℕ} {append : Append}
    {phase : Phase} (hi : s.appends[i]? = some append)
    (hholds : ({ append with phase } : Append).holds = true → append.holds = true)
    (hrow : ∀ row, phase = .inserted row →
      (row.projectId = append.input.projectId ∧ row.projectId ∈ projects) ∧
        (0 < row.seq ∧ row.seq < s.nextSeq) ∧
        ∀ other ∈ s.logs, other.projectId = row.projectId → other.seq < row.seq) :
    Committed projects (s.setPhase i append phase) :=
  hs.setPhase (fun hnew hproject j other hj hother hsame =>
    hs.exclusive i j append other hi hj (hholds hnew) hother hsame hproject) hrow

/-- A number is drawn. -/
theorem Committed.drawn (hs : Committed projects s) :
    Committed projects { s with nextSeq := s.nextSeq + 1 } where
  ascending := hs.ascending
  numbered row hrow := ⟨(hs.numbered row hrow).1, Int.lt_add_one_of_le (hs.numbered row hrow).2.le⟩
  positive := Int.lt_add_one_of_le hs.positive.le
  pending i append row hi hphase := by
    obtain ⟨hproject, ⟨hpositive, hlt⟩, habove⟩ := hs.pending i append row hi hphase
    exact ⟨hproject, ⟨hpositive, Int.lt_add_one_of_le hlt.le⟩, habove⟩
  exclusive := hs.exclusive

/-- Steps of followers do not touch the appends. -/
theorem Committed.of_followers (hs : Committed projects s) (followers : List Follower) :
    Committed projects { s with followers } :=
  ⟨hs.ascending, hs.numbered, hs.positive, hs.pending, hs.exclusive⟩

/-- The line of a transaction is committed, above the other lines of its project. -/
theorem Committed.commit (hs : Committed projects s) {i : ℕ} {append : Append} {row : LogRow}
    (hi : s.appends[i]? = some append) (hphase : append.phase = .inserted row) :
    Committed projects { s.setPhase i append .ended with logs := s.logs ++ [row] } := by
  obtain ⟨⟨hown, hproject⟩, hnumbered, habove⟩ := hs.pending i append row hi hphase
  have hholds : append.holds = true := by rw [Append.holds, hphase]
  have hended : Committed projects (s.setPhase i append .ended) :=
    hs.setPhase_of_holds hi (fun h => nomatch h) fun row h => nomatch h
  constructor
  · intro projectId
    rw [List.filter_append]
    by_cases hsame : row.projectId = projectId
    · rw [List.filter_singleton]
      simp only [hsame, decide_true, cond_true]
      apply Keyset.Ascending.append_singleton (hs.ascending projectId)
      intro other hother
      obtain ⟨hmem, hother⟩ := List.mem_filter.mp hother
      exact habove other hmem ((of_decide_eq_true hother).trans hsame.symm)
    · rw [List.filter_singleton]
      simp only [hsame, decide_false, cond_false, List.append_nil]
      exact hs.ascending projectId
  · intro other hother
    obtain hother | hother := List.mem_append.mp hother
    · exact hs.numbered other hother
    · rw [List.mem_singleton.mp hother]
      exact hnumbered
  · exact hs.positive
  · intro j other row' hj hphase'
    obtain ⟨hprojects, hnumbered', habove'⟩ := hended.pending j other row' hj hphase'
    refine ⟨hprojects, hnumbered', fun line hline hsame => ?_⟩
    obtain hline | hline := List.mem_append.mp hline
    · exact habove' line hline hsame
    · -- Two transactions cannot hold the row of one project.
      obtain ⟨-, rfl⟩ | ⟨hij, hj⟩ := getElem?_setPhase hj
      · cases hphase'
      · rw [List.mem_singleton.mp hline] at hsame
        have hother : other.holds = true := by rw [Append.holds, hphase']
        have hsame' : append.input.projectId = other.input.projectId := by
          rw [← hown, hsame, hprojects.1]
        exact absurd (hs.exclusive i j append other hi hj hholds hother hsame' (hown ▸ hproject)) hij
  · exact hended.exclusive

theorem Committed.begin (hs : Committed projects s) (input : LogInput) :
    Committed projects { s with appends := s.appends ++ [⟨input, .begun⟩] } := by
  have hnew : ∀ (i : ℕ) append, (s.appends ++ [⟨input, .begun⟩])[i]? = some append →
      s.appends[i]? = some append ∨ append = ⟨input, .begun⟩ := by
    intro i append hi
    rw [List.getElem?_append] at hi
    split at hi
    · exact Or.inl hi
    · exact Or.inr (List.mem_singleton.mp (List.mem_of_getElem? hi))
  refine ⟨hs.ascending, hs.numbered, hs.positive, ?_, ?_⟩
  · intro i append row hi hphase
    obtain hi | rfl := hnew i append hi
    · exact hs.pending i append row hi hphase
    · cases hphase
  · intro i j first second hi hj hfirst hsecond
    obtain hi | rfl := hnew i first hi
    · obtain hj | rfl := hnew j second hj
      · exact hs.exclusive i j first second hi hj hfirst hsecond
      · cases hsecond
    · cases hfirst

theorem Committed.lock (hs : Committed projects s) {i : ℕ} {append : Append}
    (hlock : lock projects s i append = some t) : Committed projects t := by
  rw [LogFollowers.lock] at hlock
  split at hlock
  · cases hlock
  · next hfree =>
      cases hlock
      apply hs.setPhase
      · intro _ hproject j other hj hother hsame
        refine absurd ?_ hfree
        rw [Bool.and_eq_true_iff, List.contains_iff_mem, List.any_eq_true]
        exact ⟨hproject, other, List.mem_of_getElem? hj, by simp [hother, hsame]⟩
      · intro row hrow
        cases hrow

theorem Committed.insert (hs : Committed projects s) {i : ℕ} {append : Append} {id : String}
    {createdAt : ℤ} (hi : s.appends[i]? = some append) (hphase : append.phase = .locked)
    (hinsert : insert projects s i append id createdAt = some t) : Committed projects t := by
  have hholds : append.holds = true := by rw [Append.holds, hphase]
  rw [LogFollowers.insert] at hinsert
  split at hinsert
  · cases hinsert
  · split at hinsert
    · next hchecks =>
        cases hinsert
        have hproject := List.contains_iff_mem.mp (Bool.and_eq_true_iff.mp hchecks).1
        apply hs.drawn.setPhase_of_holds hi fun _ => hholds
        intro row hrow
        cases hrow
        refine ⟨⟨rfl, hproject⟩, ⟨hs.positive, Int.lt_add_one_of_le Int.le_rfl⟩, ?_⟩
        exact fun other hother _ => (hs.numbered other hother).2
    · cases hinsert
      exact hs.drawn.setPhase_of_holds hi (fun _ => hholds) fun row hrow => nomatch hrow

/-- Every step keeps the lines of a project in the order of their numbers. -/
theorem committed_step {a : Action} (hs : Committed projects s)
    (hstep : step projects s a = some t) : Committed projects t := by
  cases a with
  | begin input =>
      cases hstep
      exact hs.begin input
  | lock i =>
      obtain ⟨append, hi, hstep⟩ := Option.bind_eq_some_iff.mp hstep
      split at hstep
      · exact hs.lock hstep
      · cases hstep
  | insert i id createdAt =>
      obtain ⟨append, hi, hstep⟩ := Option.bind_eq_some_iff.mp hstep
      split at hstep
      · next hphase => exact hs.insert hi hphase hstep
      · cases hstep
  | commit i =>
      obtain ⟨append, hi, hstep⟩ := Option.bind_eq_some_iff.mp hstep
      split at hstep
      · next hphase =>
          cases hstep
          exact hs.commit hi hphase
      · cases hstep
  | abort i =>
      obtain ⟨append, hi, hstep⟩ := Option.bind_eq_some_iff.mp hstep
      split at hstep
      · cases hstep
      · cases hstep
        exact hs.setPhase_of_holds hi (fun h => nomatch h) fun row h => nomatch h
  | follow scope cursor =>
      cases hstep
      exact hs.of_followers _
  | start scope before limit =>
      rw [step] at hstep
      split at hstep
      · obtain ⟨page, -, rfl⟩ := Option.map_eq_some_iff.mp hstep
        exact hs.of_followers _
      · cases hstep
  | poll i limit =>
      obtain ⟨follower, -, hstep⟩ := Option.bind_eq_some_iff.mp hstep
      obtain ⟨page, -, rfl⟩ := Option.map_eq_some_iff.mp hstep
      exact hs.of_followers _
  | back i limit =>
      obtain ⟨follower, -, hstep⟩ := Option.bind_eq_some_iff.mp hstep
      obtain ⟨bound, -, hstep⟩ := Option.bind_eq_some_iff.mp hstep
      obtain ⟨page, -, rfl⟩ := Option.map_eq_some_iff.mp hstep
      exact hs.of_followers _

theorem Committed.inScope (hs : Committed projects s) (scope : LogScope) :
    Keyset.Ascending LogRow.seq (s.logs.filter (logScope scope)) := by
  have hsame : s.logs.filter (logScope scope) =
      (s.logs.filter fun row => row.projectId = scope.projectId).filter (logScope scope) := by
    rw [List.filter_filter]
    congr 1
    funext row
    cases hrow : logScope scope row with
    | false => rfl
    | true => simp [projectId_of_logScope hrow]
  rw [hsame]
  exact (hs.ascending scope.projectId).filter _

/-! ## What a follower has received -/

/-- What a follower holds: the lines it has asked for, and nothing that could be missing from
them later. -/
structure Served (s : System) (follower : Follower) : Prop where
  /-- The pages hold the lines that were asked for. -/
  pages : follower.pages.flatten = (s.requested follower).map logRowToLog
  /-- No line lies between the cursor and the highest number asked for. -/
  cursor : follower.cursor ≤ follower.high ∧ ∀ row ∈ s.logs, logScope follower.scope row = true →
    ¬(follower.cursor < row.seq ∧ row.seq ≤ follower.high)
  /-- The lines to come have higher numbers than those asked for. -/
  frontier : follower.start = .after follower.cursor ∨ follower.high ≤ 0 ∨
    ∃ row ∈ s.logs, row.projectId = follower.scope.projectId ∧ follower.high ≤ row.seq
  /-- What was asked for is a stretch, and goes on at the cursors. -/
  stretch : follower.low ≤ follower.high + 1
  older : ∀ bound, follower.olderCursor = some bound →
    (∀ cursor, follower.start ≠ .after cursor) ∧
      ∃ row ∈ s.logs, logScope follower.scope row = true ∧ row.seq = bound

/-- Nothing that a follower has asked for is committed later. -/
theorem Served.commit {follower : Follower} (hf : Served s follower) (hs : Committed projects s)
    {i : ℕ} {append : Append} {row : LogRow} (hi : s.appends[i]? = some append)
    (hphase : append.phase = .inserted row) :
    Served { s.setPhase i append .ended with logs := s.logs ++ [row] } follower := by
  obtain ⟨-, ⟨hpositive, -⟩, habove⟩ := hs.pending i append row hi hphase
  -- The new line is outside of what was asked for, and not in the gap at the cursor.
  have hlater : logScope follower.scope row = true →
      (follower.low ≤ row.seq → ¬row.seq ≤ follower.high) ∧
        ¬(follower.cursor < row.seq ∧ row.seq ≤ follower.high) := by
    intro hscope
    obtain hstart | hzero | ⟨line, hline, hsame, hhigh⟩ := hf.frontier
    · have hlow : follower.low = follower.cursor + 1 := by rw [Follower.low, hstart]
      have hhigh : follower.high = follower.cursor := by rw [Follower.high, hstart]
      omega
    · omega
    · have := habove line hline (hsame.trans (projectId_of_logScope hscope).symm)
      omega
  refine ⟨?_, ⟨hf.cursor.1, ?_⟩, ?_, hf.stretch, ?_⟩
  · have hnone : ([row].filter fun row => logScope follower.scope row &&
        (follower.low ≤ row.seq && row.seq ≤ follower.high)) = [] := by
      rw [List.filter_eq_nil_iff]
      intro other hother
      rw [List.mem_singleton.mp hother]
      simp only [Bool.and_eq_true, decide_eq_true_eq, not_and]
      exact fun hscope hlow => (hlater hscope).1 hlow
    rw [hf.pages, System.requested, System.requested, List.filter_append, hnone, List.append_nil]
  · intro other hother hscope
    obtain hother | hother := List.mem_append.mp hother
    · exact hf.cursor.2 other hother hscope
    · rw [List.mem_singleton.mp hother] at hscope ⊢
      exact (hlater hscope).2
  · obtain hstart | hzero | ⟨line, hline, hsame⟩ := hf.frontier
    · exact Or.inl hstart
    · exact Or.inr (Or.inl hzero)
    · exact Or.inr (Or.inr ⟨line, List.mem_append_left _ hline, hsame⟩)
  · intro bound hbound
    obtain ⟨hstart, line, hline, hsame⟩ := hf.older bound hbound
    exact ⟨hstart, line, List.mem_append_left _ hline, hsame⟩

/-- Followers do not depend on the appends. -/
theorem Served.of_logs {follower : Follower} (hf : Served s follower) (hlogs : t.logs = s.logs) :
    Served t follower := by
  obtain ⟨hpages, hcursor, hfrontier, hstretch, holder⟩ := hf
  constructor
  · rw [hpages, System.requested, System.requested, hlogs]
  · rw [hlogs]
    exact hcursor
  · rw [hlogs]
    exact hfrontier
  · exact hstretch
  · rw [hlogs]
    exact holder

/-- A follower that starts from a cursor has asked for nothing. -/
theorem Served.follow (s : System) (scope : LogScope) (cursor : ℤ) :
    Served s ⟨scope, .after cursor, cursor, none, []⟩ := by
  constructor
  · have hnone : s.requested ⟨scope, .after cursor, cursor, none, []⟩ = [] := by
      rw [System.requested, List.filter_eq_nil_iff]
      intro row _
      simp only [Follower.low, Follower.high, Bool.and_eq_true]
      intro ⟨_, hlow, hhigh⟩
      have hlow := of_decide_eq_true hlow
      have hhigh := of_decide_eq_true hhigh
      omega
    rw [hnone]
    rfl
  · refine ⟨Int.le_rfl, fun row _ _ => ?_⟩
    simp only [Follower.high]
    omega
  · exact Or.inl rfl
  · exact Int.le_rfl
  · intro bound hbound
    cases hbound

/-- What the lines of the scope are, wherever the lock has ordered them. -/
theorem Committed.readPage_after (hs : Committed projects s) {scope : LogScope} {limit after : ℤ}
    {page : LogPage} (hpage : readPage s scope ⟨limit, some after, none⟩ = some page) :
    HoldsAfter (s.logs.filter (logScope scope)) (pageLimit limit) after page := by
  cases hpage
  exact pageAfter_holds (hs.inScope scope) (pageLimit limit) after

theorem Committed.readPage_before (hs : Committed projects s) {scope : LogScope} {limit : ℤ}
    {before : Option ℤ} {page : LogPage}
    (hpage : readPage s scope ⟨limit, none, before⟩ = some page) :
    HoldsBefore (s.logs.filter (logScope scope)) (pageLimit limit) before page := by
  have hpositive : ∀ row ∈ s.logs.filter (logScope scope), 0 < row.seq :=
    fun row hrow => (hs.numbered row (List.mem_filter.mp hrow).1).1
  cases before <;> cases hpage <;>
    exact pageBefore_holds (hs.inScope scope) hpositive (pageLimit_pos limit) _

/-- The lines a follower has asked for, cut out of the lines of its scope. -/
theorem requested_eq (s : System) (follower : Follower) :
    s.requested follower = (s.logs.filter (logScope follower.scope)).filter fun row =>
      follower.low ≤ row.seq ∧ row.seq ≤ follower.high := by
  rw [System.requested, List.filter_filter]
  congr 1
  funext row
  simp [Bool.and_comm]

/-- A follower that did not start from a cursor has asked for the lines from its older cursor
on. -/
theorem Follower.low_eq {follower : Follower} (hstart : ∀ cursor, follower.start ≠ .after cursor) :
    follower.low = follower.olderCursor.getD 0 := by
  unfold Follower.low
  split
  · next cursor h => exact absurd h (hstart cursor)
  · rfl

/-- Two cuts of one list are the same where they let the same rows through. -/
theorem filter_congr_mem {rows : List LogRow} {p q : LogRow → Prop} [DecidablePred p]
    [DecidablePred q] (hpq : ∀ row ∈ rows, p row ↔ q row) :
    (rows.filter fun row => p row) = rows.filter fun row => q row := by
  apply List.filter_congr
  intro row hrow
  rw [Bool.eq_iff_iff, decide_eq_true_eq, decide_eq_true_eq]
  exact hpq row hrow

/-- A follower that starts with a page holds that page. -/
theorem Served.opened (hs : Committed projects s) {scope : LogScope} {before : Option ℤ}
    {limit : ℤ} {page : LogPage} (hseen : seen s scope before = true)
    (hpage : readPage s scope ⟨limit, none, before⟩ = some page) :
    Served s (Follower.opened scope before page) := by
  obtain ⟨hlogs, hcursor, hline, holder⟩ := hs.readPage_before hpage
  have hpositive : ∀ row ∈ s.logs.filter (logScope scope), 0 < row.seq :=
    fun row hrow => (hs.numbered row (List.mem_filter.mp hrow).1).1
  have hstart : ∀ cursor, (Follower.opened scope before page).start ≠ .after cursor := by
    cases before <;> simp [Follower.opened]
  have hlow : (Follower.opened scope before page).low = page.olderCursor.getD 0 :=
    Follower.low_eq hstart
  have hreach : page.cursor ≤ (Follower.opened scope before page).high := by
    cases before with
    | none => exact Int.le_rfl
    | some bound => exact Int.le_max_right _ _
  -- What was asked for is what lies below the bound.
  have hiff : ∀ row ∈ s.logs.filter (logScope scope),
      below before row ↔ row.seq ≤ (Follower.opened scope before page).high := by
    intro row hrow
    refine ⟨fun hbelow => (hcursor row hrow hbelow).trans hreach, fun hle => ?_⟩
    cases before with
    | none =>
        intro _ hnone
        cases hnone
    | some bound =>
        intro _ hbound
        cases hbound
        have hle : row.seq ≤ max (bound - 1) page.cursor := hle
        have := hpositive row hrow
        obtain hzero | ⟨last, -, hlast, hseq⟩ := hline
        · omega
        · have := hlast bound rfl
          omega
  have hnonneg : 0 ≤ page.cursor := by
    obtain hzero | ⟨last, hlast, -, hseq⟩ := hline
    · exact hzero.ge
    · exact hseq ▸ (hpositive last hlast).le
  constructor
  · rw [requested_eq, hlow]
    have hsame := filter_congr_mem
      (p := fun row => below before row ∧ page.olderCursor.getD 0 ≤ row.seq)
      (q := fun row => page.olderCursor.getD 0 ≤ row.seq ∧
        row.seq ≤ (Follower.opened scope before page).high)
      fun row hrow => by rw [hiff row hrow, and_comm]
    rw [Follower.opened, List.flatten_singleton, hlogs]
    exact congrArg _ hsame
  · refine ⟨hreach, fun row hrow hscope hgap => ?_⟩
    have hmem := List.mem_filter.mpr ⟨hrow, hscope⟩
    have := hcursor row hmem ((hiff row hmem).mpr hgap.2)
    exact absurd hgap.1 (Int.not_lt.mpr this)
  · right
    cases before with
    | none =>
        obtain hzero | ⟨last, hlast, -, hseq⟩ := hline
        · exact Or.inl hzero.le
        · obtain ⟨hlast, hscope⟩ := List.mem_filter.mp hlast
          exact Or.inr ⟨last, hlast, projectId_of_logScope hscope, hseq.ge⟩
    | some bound =>
        right
        simp only [seen, Option.all_some, List.any_eq_true, Bool.and_eq_true,
          decide_eq_true_eq] at hseen
        obtain ⟨first, hfirst, hproject, hseq⟩ := hseen
        refine ⟨first, hfirst, hproject, ?_⟩
        have := (hs.numbered first hfirst).1
        show max (bound - 1) page.cursor ≤ first.seq
        obtain hzero | ⟨last, -, hlast, hlastSeq⟩ := hline
        · omega
        · have := hlast bound rfl
          omega
  · rw [hlow]
    cases hback : page.olderCursor with
    | none =>
        simp only [Option.getD_none]
        omega
    | some bound =>
        obtain ⟨first, hfirst, hbelow, hseq⟩ := holder bound hback
        have := (hiff first hfirst).mp hbelow
        simp only [Option.getD_some]
        omega
  · intro bound hbound
    obtain ⟨first, hfirst, -, hseq⟩ := holder bound hbound
    obtain ⟨hfirst, hscope⟩ := List.mem_filter.mp hfirst
    exact ⟨hstart, first, hfirst, hscope, hseq⟩

/-- A page forward goes on where the follower's lines end. -/
theorem Served.polled {follower : Follower} (hf : Served s follower) (hs : Committed projects s)
    {limit : ℤ} {page : LogPage}
    (hpage : readPage s follower.scope ⟨limit, some follower.cursor, none⟩ = some page) :
    Served s (follower.polled page) := by
  obtain ⟨hlogs, hcursor, -⟩ := hs.readPage_after hpage
  obtain ⟨hreach, hgap⟩ := hf.cursor
  have hlow : (follower.polled page).low = follower.low := rfl
  -- A new cursor is a line above what was asked for so far.
  have hhigh : (page.cursor = follower.cursor ∧ (follower.polled page).high = follower.high) ∨
      (follower.high < page.cursor ∧ (follower.polled page).high = page.cursor) ∧
        ∃ row ∈ s.logs, logScope follower.scope row = true ∧ row.seq = page.cursor := by
    obtain hsame | ⟨hlt, last, hlast, hseq⟩ := hcursor
    · refine Or.inl ⟨hsame, ?_⟩
      simp only [Follower.high, Follower.polled, hsame]
    · obtain ⟨hlast, hscope⟩ := List.mem_filter.mp hlast
      have hnot := hgap last hlast hscope
      refine Or.inr ⟨⟨by omega, ?_⟩, last, hlast, hscope, hseq⟩
      have hhigh : follower.high < page.cursor := by omega
      unfold Follower.high Follower.polled
      cases hstart : follower.start with
      | before bound =>
          have hbound : bound - 1 ≤ follower.high := by
            simp only [Follower.high, hstart]
            exact Int.le_max_left _ _
          show max (bound - 1) page.cursor = page.cursor
          omega
      | after cursor => rfl
      | tail => rfl
  have hmore : follower.high ≤ (follower.polled page).high := by omega
  constructor
  · rw [Follower.polled, List.flatten_append, hf.pages, List.flatten_singleton, hlogs,
      ← List.map_append]
    change _ = (s.requested (follower.polled page)).map logRowToLog
    rw [requested_eq, requested_eq]
    congr 1
    apply (hs.inScope follower.scope).filter_append_filter follower.high
    · intro row hrow
      rw [hlow]
      omega
    · intro row hrow
      obtain ⟨hrow, hscope⟩ := List.mem_filter.mp hrow
      have := hgap row hrow hscope
      have := hf.stretch
      rw [hlow]
      omega
  · refine ⟨?_, fun row hrow hscope => ?_⟩
    · show page.cursor ≤ _
      omega
    · have := hgap row hrow hscope
      show ¬(page.cursor < row.seq ∧ _)
      omega
  · obtain ⟨hsame, hhigh⟩ | ⟨⟨-, hhigh⟩, last, hlast, hscope, hseq⟩ := hhigh
    · obtain hstart | hzero | hline := hf.frontier
      · left
        show follower.start = .after page.cursor
        rw [hstart, hsame]
      · exact Or.inr (Or.inl (hhigh ▸ hzero))
      · exact Or.inr (Or.inr (hhigh ▸ hline))
    · right
      right
      exact ⟨last, hlast, projectId_of_logScope hscope, by omega⟩
  · have := hf.stretch
    omega
  · exact hf.older

/-- A page back goes on where the follower's lines begin. -/
theorem Served.backed {follower : Follower} (hf : Served s follower) (hs : Committed projects s)
    {limit bound : ℤ} {page : LogPage} (holder : follower.olderCursor = some bound)
    (hpage : readPage s follower.scope ⟨limit, none, some bound⟩ = some page) :
    Served s (follower.backed page) := by
  obtain ⟨hlogs, -, -, hback⟩ := hs.readPage_before hpage
  obtain ⟨hstart, first, hfirst, hscope, hseq⟩ := hf.older bound holder
  have hlow : follower.low = bound := by rw [Follower.low_eq hstart, holder, Option.getD_some]
  have hlow' : (follower.backed page).low = page.olderCursor.getD 0 := Follower.low_eq hstart
  have hhigh : (follower.backed page).high = follower.high := rfl
  have hbelow : ∀ row : LogRow, below (some bound) row ↔ row.seq < bound := by
    intro row
    simp [below]
  -- The page starts below the lines that the follower has.
  have hless : page.olderCursor.getD 0 ≤ bound := by
    cases hcursor : page.olderCursor with
    | none =>
        have := (hs.numbered first hfirst).1
        simp only [Option.getD_none]
        omega
    | some older =>
        obtain ⟨row, -, hrow, hrowSeq⟩ := hback older hcursor
        have := (hbelow row).mp hrow
        simp only [Option.getD_some]
        omega
  have hstretch := hf.stretch
  constructor
  · rw [Follower.backed, List.flatten_cons, hf.pages, hlogs, ← List.map_append]
    change _ = (s.requested (follower.backed page)).map logRowToLog
    rw [requested_eq, requested_eq]
    congr 1
    apply (hs.inScope follower.scope).filter_append_filter' bound
    · intro row _
      rw [hbelow, hlow', hhigh]
      omega
    · intro row _
      rw [hlow', hhigh, hlow]
      omega
  · exact hf.cursor
  · exact hf.frontier
  · rw [hlow', hhigh]
    omega
  · intro older hcursor
    obtain ⟨row, hrow, -, hrowSeq⟩ := hback older hcursor
    obtain ⟨hrow, hscope⟩ := List.mem_filter.mp hrow
    exact ⟨hstart, row, hrow, hscope, hrowSeq⟩

/-! ## Every run -/

/-- The lines are committed in order, and every follower holds what it has asked for. -/
structure Faithful (projects : List String) (s : System) : Prop where
  committed : Committed projects s
  served : ∀ follower ∈ s.followers, Served s follower

theorem faithful_init : Faithful projects ⟨[], 1, [], []⟩ := by
  refine ⟨⟨fun _ => List.Pairwise.nil, ?_, by decide, ?_, ?_⟩, ?_⟩
  · intro row hrow
    cases hrow
  · intro i append row hi
    cases hi
  · intro i j first second hi
    cases hi
  · intro follower hfollower
    cases hfollower

/-- A step that leaves the committed lines alone leaves the followers served. -/
theorem Faithful.of_logs (hs : Faithful projects s) (ht : Committed projects t)
    (hlogs : t.logs = s.logs) (hfollowers : t.followers = s.followers) :
    Faithful projects t :=
  ⟨ht, fun follower hfollower => (hs.served follower (hfollowers ▸ hfollower)).of_logs hlogs⟩

theorem Faithful.add (hs : Faithful projects s) {new : Follower}
    (hnew : Served s new) :
    Faithful projects { s with followers := s.followers ++ [new] } := by
  refine ⟨hs.committed.of_followers _, fun follower hfollower => ?_⟩
  obtain hfollower | hfollower := List.mem_append.mp hfollower
  · exact (hs.served follower hfollower).of_logs rfl
  · rw [List.mem_singleton.mp hfollower]
    exact hnew.of_logs rfl

theorem Faithful.set (hs : Faithful projects s) {i : ℕ} {new : Follower}
    (hnew : Served s new) :
    Faithful projects { s with followers := s.followers.set i new } := by
  refine ⟨hs.committed.of_followers _, fun follower hfollower => ?_⟩
  obtain hfollower | rfl := List.mem_or_eq_of_mem_set hfollower
  · exact (hs.served follower hfollower).of_logs rfl
  · exact hnew.of_logs rfl

theorem lock_logs {i : ℕ} {append : Append} (hlock : lock projects s i append = some t) :
    t.logs = s.logs ∧ t.followers = s.followers := by
  rw [lock] at hlock
  split at hlock
  · cases hlock
  · cases hlock
    exact ⟨rfl, rfl⟩

theorem insert_logs {i : ℕ} {append : Append} {id : String} {createdAt : ℤ}
    (hinsert : insert projects s i append id createdAt = some t) :
    t.logs = s.logs ∧ t.followers = s.followers := by
  rw [insert] at hinsert
  split at hinsert
  · cases hinsert
  · split at hinsert <;> cases hinsert <;> exact ⟨rfl, rfl⟩

/-- Every step keeps the lines in order and the followers served. -/
theorem faithful_step {a : Action} (hs : Faithful projects s)
    (hstep : step projects s a = some t) : Faithful projects t := by
  have hcommitted := committed_step hs.committed hstep
  cases a with
  | begin input =>
      cases hstep
      exact hs.of_logs hcommitted rfl rfl
  | lock i =>
      obtain ⟨append, -, hstep⟩ := Option.bind_eq_some_iff.mp hstep
      split at hstep
      · exact hs.of_logs hcommitted (lock_logs hstep).1 (lock_logs hstep).2
      · cases hstep
  | insert i id createdAt =>
      obtain ⟨append, -, hstep⟩ := Option.bind_eq_some_iff.mp hstep
      split at hstep
      · exact hs.of_logs hcommitted (insert_logs hstep).1 (insert_logs hstep).2
      · cases hstep
  | commit i =>
      obtain ⟨append, hi, hstep⟩ := Option.bind_eq_some_iff.mp hstep
      split at hstep
      · next hphase =>
          cases hstep
          exact ⟨hcommitted, fun follower hfollower =>
            (hs.served follower hfollower).commit hs.committed hi hphase⟩
      · cases hstep
  | abort i =>
      obtain ⟨append, -, hstep⟩ := Option.bind_eq_some_iff.mp hstep
      split at hstep
      · cases hstep
      · cases hstep
        exact hs.of_logs hcommitted rfl rfl
  | follow scope cursor =>
      cases hstep
      exact hs.add (Served.follow s scope cursor)
  | start scope before limit =>
      rw [step] at hstep
      split at hstep
      · next hseen =>
          obtain ⟨page, hpage, rfl⟩ := Option.map_eq_some_iff.mp hstep
          exact hs.add (Served.opened hs.committed hseen hpage)
      · cases hstep
  | poll i limit =>
      obtain ⟨follower, hi, hstep⟩ := Option.bind_eq_some_iff.mp hstep
      obtain ⟨page, hpage, rfl⟩ := Option.map_eq_some_iff.mp hstep
      exact hs.set ((hs.served follower (List.mem_of_getElem? hi)).polled hs.committed hpage)
  | back i limit =>
      obtain ⟨follower, hi, hstep⟩ := Option.bind_eq_some_iff.mp hstep
      obtain ⟨bound, hbound, hstep⟩ := Option.bind_eq_some_iff.mp hstep
      obtain ⟨page, hpage, rfl⟩ := Option.map_eq_some_iff.mp hstep
      exact hs.set ((hs.served follower (List.mem_of_getElem? hi)).backed hs.committed hbound hpage)

theorem faithful_of_reachable (hs : (machine projects).Reachable s) :
    Faithful projects s := by
  apply hs.invariant
  · intro s hinit
    rw [show s = ⟨[], 1, [], []⟩ from hinit]
    exact faithful_init
  · exact fun s a t hs hstep => faithful_step hs hstep

/-- A poll is answered, and one that is answered less than a full page has brought the follower
every committed line above its lowest one. -/
theorem poll_page (hs : Faithful projects s) {i : ℕ} {follower : Follower}
    (hi : s.followers[i]? = some follower) (limit : ℤ) :
    ∃ page, step projects s (.poll i limit) =
        some { s with followers := s.followers.set i (follower.polled page) } ∧
      (page.logs.length < pageLimit limit → (follower.polled page).pages.flatten =
        (s.logs.filter fun row => logScope follower.scope row && follower.low ≤ row.seq).map
          logRowToLog) := by
  obtain ⟨page, hpage⟩ : ∃ page,
      readPage s follower.scope ⟨limit, some follower.cursor, none⟩ = some page := ⟨_, rfl⟩
  have hserved := hs.served follower (List.mem_of_getElem? hi)
  have hpolled := hserved.polled hs.committed hpage
  refine ⟨page, ?_, fun hshort => ?_⟩
  · rw [step, hi, Option.bind_some, hpage, Option.map_some]
  · rw [hpolled.pages, System.requested]
    congr 1
    apply List.filter_congr
    intro row hrow
    cases hscope : logScope follower.scope row with
    | false => rw [show logScope (follower.polled page).scope row = false from hscope]; rfl
    | true =>
        have hholds := hs.committed.readPage_after hpage
        have hreached := hholds.short hshort row (List.mem_filter.mpr ⟨hrow, hscope⟩)
        have hhigh : row.seq ≤ (follower.polled page).high := by
          have hcursor : page.cursor ≤ (follower.polled page).high := hpolled.cursor.1
          have hforward := hholds.cursor
          omega
        rw [show logScope (follower.polled page).scope row = true from hscope]
        simp [hhigh, show (follower.polled page).low = follower.low from rfl]

/-- A page back is answered, and either starts further back or has brought the follower every
committed line below its highest one. -/
theorem back_page (hs : Faithful projects s) {i : ℕ} {follower : Follower} {bound : ℤ}
    (hi : s.followers[i]? = some follower) (holder : follower.olderCursor = some bound)
    (limit : ℤ) :
    ∃ page, step projects s (.back i limit) =
        some { s with followers := s.followers.set i (follower.backed page) } ∧
      (∀ older, page.olderCursor = some older → older < bound) ∧
      (page.olderCursor = none → (follower.backed page).pages.flatten =
        (s.logs.filter fun row => logScope follower.scope row && row.seq ≤ follower.high).map
          logRowToLog) := by
  obtain ⟨page, hpage⟩ : ∃ page,
      readPage s follower.scope ⟨limit, none, some bound⟩ = some page := ⟨_, rfl⟩
  have hserved := hs.served follower (List.mem_of_getElem? hi)
  have hbacked := hserved.backed hs.committed holder hpage
  refine ⟨page, ?_, fun older hcursor => ?_, fun hnone => ?_⟩
  · rw [step, hi, Option.bind_some, holder, Option.bind_some, hpage, Option.map_some]
  · obtain ⟨row, -, hbelow, rfl⟩ := (hs.committed.readPage_before hpage).older older hcursor
    exact hbelow bound rfl
  · have hlow : (follower.backed page).low = page.olderCursor.getD 0 :=
      Follower.low_eq (hserved.older bound holder).1
    rw [hnone, Option.getD_none] at hlow
    rw [hbacked.pages, System.requested, hlow]
    congr 1
    apply List.filter_congr
    intro row hrow
    have hpositive := (hs.committed.numbered row hrow).1
    rw [decide_eq_true hpositive.le, Bool.true_and]
    rfl

/-- **Followers miss nothing.** In every state that any appends and readers can reach, the
pages of a follower hold, in the order of the sequence numbers, exactly the committed lines of
its project and type within the numbers it has asked for. A poll is always answered, and after
one that was not answered a full page these are all committed lines from its lowest number on;
a page back starts further back, until these are all committed lines up to its highest
number. -/
theorem followers_miss_nothing (hs : (machine projects).Reachable s) {i : ℕ} {follower : Follower}
    (hi : s.followers[i]? = some follower) :
    Keyset.Ascending LogRow.seq (s.requested follower) ∧
      follower.pages.flatten = (s.requested follower).map logRowToLog ∧
      (∀ limit, ∃ page, step projects s (.poll i limit) =
          some { s with followers := s.followers.set i (follower.polled page) } ∧
        (page.logs.length < pageLimit limit → (follower.polled page).pages.flatten =
          (s.logs.filter fun row => logScope follower.scope row && follower.low ≤ row.seq).map
            logRowToLog)) ∧
      ∀ bound, follower.olderCursor = some bound → ∀ limit, ∃ page,
        step projects s (.back i limit) =
            some { s with followers := s.followers.set i (follower.backed page) } ∧
          (∀ older, page.olderCursor = some older → older < bound) ∧
          (page.olderCursor = none → (follower.backed page).pages.flatten =
            (s.logs.filter fun row => logScope follower.scope row && row.seq ≤ follower.high).map
              logRowToLog) := by
  have hfaithful := faithful_of_reachable hs
  have hserved := hfaithful.served follower (List.mem_of_getElem? hi)
  refine ⟨?_, hserved.pages, poll_page hfaithful hi, ?_⟩
  · rw [requested_eq]
    exact (hfaithful.committed.inScope follower.scope).filter _
  · exact fun bound holder limit => back_page hfaithful hi holder limit

/-- Lines of two projects, whose numbers are drawn in one order and committed in another, and a
follower of the first project that starts between its two lines. -/
def interleavedRun : List Action :=
  [.begin ⟨"app", none, .build, "one"⟩, .begin ⟨"site", none, .build, "two"⟩, .lock 0, .lock 1,
    .insert 1 "b" 0, .insert 0 "a" 0, .commit 0, .start ⟨"app", none⟩ none 1,
    .begin ⟨"app", none, .runtime, "three"⟩, .lock 2, .insert 2 "c" 1, .commit 2, .commit 1,
    .poll 0 10]

/-- The state after `interleavedRun`. -/
def interleaved : System :=
  ((machine ["app", "site"]).exec ⟨[], 1, [], []⟩ interleavedRun).getD ⟨[], 1, [], []⟩

theorem followers_miss_nothing_interleaved :
    ∃ follower, interleaved.followers[0]? = some follower ∧
      follower.pages.flatten.map LogRecord.line = ["one", "three"] ∧
      follower.pages.flatten = (interleaved.requested follower).map logRowToLog := by
  have hreachable : (machine ["app", "site"]).Reachable interleaved :=
    ⟨_, interleavedRun, rfl, by rfl⟩
  refine ⟨_, rfl, by rfl, ?_⟩
  exact (followers_miss_nothing hreachable (i := 0) rfl).2.1

end Eveland.LogFollowers
