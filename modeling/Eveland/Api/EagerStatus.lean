/-
# The eager status and the observed one

Ingestion moves the node of a session and, as long as the node is its root, the session itself. A
write of the monitor moves the session alone. So the node stands where it would without the
monitor, and an event that moves the session when it is ingested undoes every write before it. A
write that no such event follows stays: it has to find the session as it leaves it.
-/

import Eveland.Api.PlaygroundStream
import Eveland.Telemetry.Deliveries
import Eveland.Telemetry.System

namespace Eveland.PlaygroundStream

open Telemetry

/-! ## Courses -/

/-- The course of a session: its progress, less the runtime that was last observed. -/
@[ext]
structure Course where
  status : SessionStatus
  isRoot : Bool
  sessionStatus : SessionStatus
  completedAt : Option ℤ
  recorded : List Trace

/-- The course of a progress. -/
def courseOf (p : Progress) : Course :=
  ⟨p.status, p.isRoot, p.sessionStatus, p.completedAt, p.recorded⟩

namespace Course

variable (c : Course) (d : Delivery)

/-- The status the event of a delivery moves the node to. -/
def projected : Option SessionStatus :=
  sessionStatusFromEveEvent d.reading.type c.status d.reading.payload

/-- The status it moves the session to. -/
def moved : Option SessionStatus := (c.projected d).filter fun _ => c.isRoot

/-- A delivery that is new and the newest. -/
def follow : Course where
  status := (c.projected d).getD c.status
  isRoot := c.isRoot && !d.announcesItself
  sessionStatus := (c.moved d).getD c.sessionStatus
  completedAt := (c.moved d).elim c.completedAt fun status => completionTime status d.now
  recorded := c.recorded ++ [d.trace]

/-- A write of the monitor. -/
def write (status : SessionStatus) (now : ℤ) : Course :=
  { c with sessionStatus := status, completedAt := completionTime status now }

/-- Two courses of one node. -/
structure SameNode (c c' : Course) : Prop where
  status : c'.status = c.status
  isRoot : c'.isRoot = c.isRoot
  recorded : c'.recorded = c.recorded

variable {c} {c' : Course}

theorem SameNode.refl (c : Course) : SameNode c c := ⟨rfl, rfl, rfl⟩

theorem SameNode.moved (hsame : SameNode c c') : c'.moved d = c.moved d := by
  rw [Course.moved, Course.moved, projected, projected, hsame.status, hsame.isRoot]

theorem SameNode.follow (hsame : SameNode c c') : SameNode (c.follow d) (c'.follow d) where
  status := by
    show ((c'.projected d).getD c'.status) = (c.projected d).getD c.status
    rw [projected, projected, hsame.status]
  isRoot := by
    show (c'.isRoot && _) = (c.isRoot && _)
    rw [hsame.isRoot]
  recorded := by
    show c'.recorded ++ _ = c.recorded ++ _
    rw [hsame.recorded]

end Course

/-- What a node has recorded comes before an observation in the stream. -/
def TraceBefore (row : Trace) (o : AgentEventObservation) : Prop :=
  row.telemetryEventId ≠ some o.telemetryEventId ∧ row.eventFingerprint ≠ some o.eventFingerprint ∧
    ∀ first ∈ row.sourceSequence, ∀ second ∈ o.sourceSequence, first ≤ second

theorem isRecorded_of_before {p : Progress} {d : Delivery}
    (hbefore : ∀ row ∈ p.recorded, TraceBefore row d.observation) : p.isRecorded d = false := by
  rw [Progress.isRecorded, List.any_eq_false]
  intro row hrow
  obtain ⟨hid, hfingerprint, _⟩ := hbefore row hrow
  simp [hid, hfingerprint]

theorem isNewest_of_before {p : Progress} {d : Delivery}
    (hbefore : ∀ row ∈ p.recorded, TraceBefore row d.observation) : p.isNewest d = true := by
  rw [Progress.isNewest]
  cases hsequence : d.observation.sourceSequence with
  | none => rfl
  | some sequence =>
      rw [Option.all_some, List.all_eq_true]
      intro row hrow
      cases hother : row.sourceSequence with
      | none => rfl
      | some other =>
          rw [Option.all_some, decide_eq_true_eq]
          exact (hbefore row hrow).2.2 other hother sequence hsequence

/-- In stream order, an observation moves the course of its session. -/
theorem courseOf_observe {p : Progress} {d : Delivery}
    (hbefore : ∀ row ∈ p.recorded, TraceBefore row d.observation) :
    courseOf (p.observe d) = (courseOf p).follow d := by
  have hprojected : p.projected d = (courseOf p).projected d := by
    rw [Progress.projected, isNewest_of_before hbefore]
    rfl
  rw [Progress.observe, isRecorded_of_before hbefore, if_neg (by simp), Progress.record,
    Progress.touch_projected, hprojected]
  ext1
  case status => exact congrArg (Option.getD _) (p.touch_status d)
  case isRoot => exact congrArg (· && !d.announcesItself) (p.touch_isRoot d)
  case sessionStatus =>
    show Option.getD (Option.filter (fun _ => (p.touch d).isRoot) _) (p.touch d).sessionStatus = _
    rw [Progress.touch_isRoot, Progress.touch_sessionStatus]
    rfl
  case completedAt =>
    show Option.elim (Option.filter (fun _ => (p.touch d).isRoot) _) (p.touch d).completedAt _ = _
    rw [Progress.touch_isRoot, Progress.touch_completedAt]
    rfl
  case recorded => exact congrArg (· ++ [d.trace]) (p.touch_recorded d)

/-! ## Where a store stands -/

variable {P : Playground} {s t : Store} {c : Course}

/-- The session is the one of the project that holds the Eve session id. -/
def Sole (P : Playground) (s : Store) : Prop :=
  ∀ row ∈ s.sessions,
    (row.projectId = P.projectId ∧ row.eveSessionId = some P.eveSessionId) ↔ row.id = P.sessionId

/-- The store shows the session at this point of its course: in its node, or in its row until the
node is there. -/
structure Stands (P : Playground) (s : Store) (c : Course) : Prop where
  keyed : Keyed s
  sole : Sole P s
  shown : (∃ place p, Shows s P.projectId P.eveSessionId place p ∧
      place.sessionId = P.sessionId ∧ courseOf p = c) ∨
    (s.findNode P.projectId P.eveSessionId = none ∧
      ∃ row, s.findSession P.projectId P.eveSessionId = some row ∧ row.id = P.sessionId ∧
        c = ⟨.running, true, row.status, row.completedAt, []⟩)

/-- Sessions that are changed in place or lost keep their keys. -/
theorem Sole.reshapes {sessionId : String} {change : Standing → Standing} (hsole : Sole P s)
    (hreshapes : Reshapes sessionId change s t) : Sole P t := by
  obtain ⟨keep, f, hsessions, _, hkey, _⟩ := hreshapes
  intro row hrow
  rw [hsessions] at hrow
  obtain ⟨old, hold, rfl⟩ := List.mem_map.mp hrow
  have hid : (f old).id = old.id := congrArg SessionKey.id (hkey old)
  have hproject : (f old).projectId = old.projectId := congrArg SessionKey.projectId (hkey old)
  have heve : (f old).eveSessionId = old.eveSessionId := congrArg SessionKey.eveSessionId (hkey old)
  rw [hid, hproject, heve]
  exact hsole old (List.mem_filter.mp hold).1

/-- An update of the session that leaves it its key. -/
theorem Sole.updateWhere {f : Session → Session} (hsole : Sole P s) (hid : ∀ row, (f row).id = row.id)
    (hproject : ∀ row, (f row).projectId = row.projectId)
    (heve : ∀ row, (f row).eveSessionId = some P.eveSessionId)
    (hsessions : t.sessions = Table.updateWhere (fun row => row.id = P.sessionId) f s.sessions) :
    Sole P t := by
  intro row hrow
  rw [hsessions] at hrow
  rcases Table.mem_updateWhere.mp hrow with ⟨hold, _⟩ | ⟨old, hold, hours, rfl⟩
  · exact hsole row hold
  · have hsame : old.id = P.sessionId := by simpa using hours
    rw [hid, hproject, heve]
    exact ⟨fun _ => hsame, fun _ => ⟨((hsole old hold).mpr hsame).1, rfl⟩⟩

/-- The session is found under its Eve session id. -/
theorem Sole.findSession (hsole : Sole P s) (hkeyed : Keyed s) {row : Session}
    (hrow : row ∈ s.sessions) (hid : row.id = P.sessionId) :
    s.findSession P.projectId P.eveSessionId = some row := by
  obtain ⟨hproject, heve⟩ := (hsole row hrow).mpr hid
  cases hfound : s.findSession P.projectId P.eveSessionId with
  | none =>
      have hmissed := List.find?_eq_none.mp hfound row hrow
      simp [hproject, heve] at hmissed
  | some other =>
      obtain ⟨hmem, hproject', heve'⟩ := Store.mem_of_findSession hfound
      have hid' := (hsole other hmem).mp ⟨hproject', heve'⟩
      rw [hkeyed.sessionIds.eq hmem hrow (hid'.trans hid.symm)]

/-- No other session is folded into the session. -/
theorem Sole.foldObserved (hsole : Sole P s) {current : Session}
    (hcurrent : s.getSession P.sessionId = some current) (claimed : Option String)
    (hclaimed : ∀ id ∈ claimed, id = P.eveSessionId) :
    foldObserved s current claimed = .ok s := by
  have hid : current.id = P.sessionId := Store.id_of_getSession hcurrent
  have hproject := ((hsole current (List.mem_of_find?_eq_some hcurrent)).mpr hid).1
  unfold Telemetry.foldObserved
  cases claimed with
  | none => rfl
  | some id =>
      have hnone : s.sessions.find? (fun row => row.projectId = current.projectId &&
          row.eveSessionId = some id && row.id ≠ current.id) = none := by
        rw [List.find?_eq_none]
        intro other hother hheld
        simp only [Bool.and_eq_true, decide_eq_true_eq] at hheld
        obtain ⟨⟨hsame, heve⟩, hne⟩ := hheld
        apply hne
        rw [hid]
        refine (hsole other hother).mp ⟨hsame.trans hproject, ?_⟩
        rw [heve, hclaimed id rfl]
      simp only [hnone]

theorem completedRow_projectId (input : CompleteSessionInput) (binding : Option SessionBinding)
    (now : ℤ) (row : Session) :
    (completedRow input binding now row).projectId = row.projectId := by
  cases binding <;> rfl

theorem completedRow_eveSessionId (input : CompleteSessionInput) (binding : Option SessionBinding)
    (now : ℤ) (row : Session) : (completedRow input binding now row).eveSessionId =
      input.eveSessionId.getD row.eveSessionId := by
  cases binding <;> rfl

theorem completedRow_standing (input : CompleteSessionInput) (binding : Option SessionBinding)
    (now : ℤ) (row : Session) : (completedRow input binding now row).standing =
      { row.standing with
        status := input.status, completedAt := completionTime input.status now } := by
  cases binding <;> rfl

namespace Stands

/-- The row of the session. -/
theorem row (hstands : Stands P s c) : ∃ row, s.getSession P.sessionId = some row ∧
    row.status = c.sessionStatus ∧ row.completedAt = c.completedAt := by
  rcases hstands.shown with ⟨place, p, hshows, hid, rfl⟩ | ⟨_, row, hrow, hid, rfl⟩
  · obtain ⟨node, row, _, hrow, rfl, rfl⟩ := hshows
    have hroot : node.rootSessionId = P.sessionId :=
      (Store.id_of_getSession hrow).symm.trans hid
    exact ⟨row, hroot ▸ hrow, rfl, rfl⟩
  · have hmem := (Store.mem_of_findSession hrow).1
    exact ⟨row, hid ▸ hstands.keyed.sessionIds.find?_eq_some hmem, rfl, rfl⟩

theorem statusIn_eq (hstands : Stands P s c) : statusIn P s = some c.sessionStatus := by
  obtain ⟨row, hrow, hstatus, _⟩ := hstands.row
  rw [statusIn, hrow, Option.map_some, hstatus]

theorem completedIn_eq (hstands : Stands P s c) : completedIn P s = some c.completedAt := by
  obtain ⟨row, hrow, _, hcompleted⟩ := hstands.row
  rw [completedIn, hrow, Option.map_some, hcompleted]

theorem movesFrom_eq (hstands : Stands P s c) (observations : List AgentEventObservation) :
    movesFrom P s observations = moves P.eveSessionId c.isRoot c.status observations := by
  rcases hstands.shown with ⟨place, p, hshows, _, rfl⟩ | ⟨hnone, row, _, _, rfl⟩
  · obtain ⟨node, row, hnode, _, _, rfl⟩ := hshows
    rw [movesFrom, hnode]
    rfl
  · rw [movesFrom, hnone]

/-- The write of the monitor is an update of the session. -/
theorem complete_eq {input : CompleteSessionInput} {now : ℤ} (hstands : Stands P s c)
    (hclaims : input.eveSessionId = some (some P.eveSessionId))
    (hcomplete : completeSession s P.sessionId input now = .ok t) :
    ∃ binding, t.toSurroundings = s.toSurroundings ∧ t.nodes = s.nodes ∧ t.events = s.events ∧
      t.sessions = Table.updateWhere (fun row => row.id = P.sessionId)
        (completedRow input binding now) s.sessions := by
  obtain ⟨current, hcurrent, _⟩ := hstands.row
  have hclaimed : ∀ id ∈ input.claimedId, id = P.eveSessionId := by
    intro id hid
    rw [CompleteSessionInput.claimedId, hclaims] at hid
    obtain ⟨hheld, _⟩ := Option.filter_eq_some_iff.mp hid
    exact (Option.some.inj hheld).symm
  rw [completeSession, hcurrent] at hcomplete
  obtain ⟨folded, hfold, hcomplete⟩ := Outcome.bind_eq_ok.mp hcomplete
  rw [hstands.sole.foldObserved hcurrent _ hclaimed] at hfold
  cases hfold
  cases hcomplete
  exact ⟨_, rfl, rfl, rfl, rfl⟩

/-- The write of the monitor changes the session, and nothing else of its course. -/
theorem complete {input : CompleteSessionInput} {now : ℤ} (hstands : Stands P s c)
    (hclaims : input.eveSessionId = some (some P.eveSessionId))
    (hcomplete : completeSession s P.sessionId input now = .ok t) :
    Stands P t (c.write input.status now) := by
  have hkeyed := (completeSession_writes hcomplete).keyed hstands.keyed
  obtain ⟨binding, _, hnodes, hevents, hsessions⟩ := hstands.complete_eq hclaims hcomplete
  have hsole : Sole P t := by
    refine hstands.sole.updateWhere (completedRow_id input binding now)
      (completedRow_projectId input binding now) (fun row => ?_) hsessions
    rw [completedRow_eveSessionId, hclaims, Option.getD_some]
  have hget : ∀ {row}, s.getSession P.sessionId = some row →
      t.getSession P.sessionId = some (completedRow input binding now row) := by
    intro row hrow
    rw [Store.getSession, hsessions,
      Table.find?_updateWhere_of fun row => by rw [completedRow_id]]
    show (s.getSession P.sessionId).map _ = _
    rw [hrow, Option.map_some, if_pos (by simpa using Store.id_of_getSession hrow)]
  have hfind : t.findNode P.projectId P.eveSessionId = s.findNode P.projectId P.eveSessionId := by
    rw [Store.findNode, Store.findNode, hnodes]
  refine ⟨hkeyed, hsole, ?_⟩
  rcases hstands.shown with ⟨place, p, hshows, hid, rfl⟩ | ⟨hnone, row, hrow, hid, rfl⟩
  · left
    obtain ⟨node, row, hnode, hrow, rfl, rfl⟩ := hshows
    have hroot : node.rootSessionId = P.sessionId := (Store.id_of_getSession hrow).symm.trans hid
    have hstanding := completedRow_standing input binding now row
    refine ⟨_, _, ⟨node, completedRow input binding now row, hfind.trans hnode, ?_, rfl, rfl⟩,
      (completedRow_id input binding now row).trans hid, ?_⟩
    · rw [hroot] at hrow ⊢
      exact hget hrow
    · ext1
      case sessionStatus => exact congrArg Standing.status hstanding
      case completedAt => exact congrArg Standing.completedAt hstanding
      case recorded =>
        show (t.recordedBy node.id).map _ = (s.recordedBy node.id).map _
        rw [Store.recordedBy, hevents, Store.recordedBy]
      all_goals rfl
  · right
    have hmem := (Store.mem_of_findSession hrow).1
    have hafter := hget (hid ▸ hstands.keyed.sessionIds.find?_eq_some hmem)
    have hafterId := (completedRow_id input binding now row).trans hid
    have hafterMem := List.mem_of_find?_eq_some hafter
    have hstanding := completedRow_standing input binding now row
    refine ⟨hfind.trans hnone, _, ?_, hafterId, ?_⟩
    · exact hsole.findSession hkeyed hafterMem hafterId
    · rw [show (completedRow input binding now row).status = _ from
          congrArg Standing.status hstanding,
        show (completedRow input binding now row).completedAt = _ from
          congrArg Standing.completedAt hstanding]
      rfl

/-- A node that is opened leaves the session its key. -/
theorem sole_of_opens {d : Delivery} {result : IngestResult} (hkeyed : Keyed s) (hsole : Sole P s)
    (hown : d.observation.eveSessionId = P.eveSessionId)
    (hparent : d.observation.parentEveSessionId = none)
    (hproject : s.projectOf d.observation.deploymentId = some P.projectId)
    (hnone : s.findNode P.projectId P.eveSessionId = none) {row : Session}
    (hrow : s.findSession P.projectId P.eveSessionId = some row) (hid : row.id = P.sessionId)
    (hingest : ingestAgentEvent s d.observation d.ids d.now = .ok (t, result)) : Sole P t := by
  rw [← hown] at hnone hrow
  obtain ⟨located, session, node, isLatest, hlocate, hfinish⟩ :=
    ingestAgentEvent_located hproject hingest
  have hkeyed' := (locateNode_writes hlocate).1.keyed hkeyed
  rw [locateNode, hnone] at hlocate
  obtain ⟨rfl, hobserved, hfound, hget, _, _, _, hprogress, _, _⟩ :=
    openNode_root hkeyed hparent hlocate
  have hnewest : true = (located.progressOf node session).isNewest d := by
    rw [hprogress, Progress.isNewest, Store.openedProgress]
    cases d.observation.sourceSequence <;> rfl
  obtain ⟨_, ⟨change, hmoved⟩, _, _⟩ :=
    finishIngestion_observes hkeyed' hfound hobserved hget hnewest hfinish
  refine Sole.reshapes ?_ hmoved
  obtain ⟨⟨parented, parent⟩, hresolved, hopen⟩ := Outcome.bind_eq_ok.mp hlocate
  rw [resolveParent, hparent] at hresolved
  cases hresolved
  obtain ⟨⟨resolved, opened⟩, hfind, hopen⟩ := Outcome.bind_eq_ok.mp hopen
  rw [resolveSession, findOrOpenSession, hrow] at hfind
  cases hfind
  obtain ⟨inserted, hinsert, hopen⟩ := Outcome.bind_eq_ok.mp hopen
  obtain ⟨_, _, rfl⟩ := insertNode_eq_ok.mp hinsert
  cases hopen
  refine hsole.updateWhere (f := Session.rooted d.ids.node d.observation.eveSessionId)
    (fun _ => rfl) (fun _ => rfl) (fun _ => congrArg some hown) ?_
  rw [← hid]
  rfl

/-- An observation in stream order moves the course of the session. -/
theorem ingest {d : Delivery} {result : IngestResult} (hstands : Stands P s c)
    (hown : d.observation.eveSessionId = P.eveSessionId)
    (hparent : d.observation.parentEveSessionId = none)
    (hproject : s.projectOf d.observation.deploymentId = some P.projectId)
    (hbefore : ∀ row ∈ c.recorded, TraceBefore row d.observation)
    (hingest : ingestAgentEvent s d.observation d.ids d.now = .ok (t, result)) :
    Stands P t (c.follow d) := by
  have hkeyed := (ingestAgentEvent_writes hstands.keyed hingest).keyed hstands.keyed
  rcases hstands.shown with ⟨place, p, hshows, hid, rfl⟩ | ⟨hnone, row, hrow, hid, rfl⟩
  · rw [← hown] at hshows
    obtain ⟨hafter, ⟨change, hmoved⟩, _, _⟩ :=
      ingestAgentEvent_observes hstands.keyed hproject hshows hingest
    rw [hown] at hafter
    exact ⟨hkeyed, hstands.sole.reshapes hmoved,
      Or.inl ⟨place, _, hafter, hid, courseOf_observe hbefore⟩⟩
  · have hsole := sole_of_opens hstands.keyed hstands.sole hown hparent hproject hnone hrow hid
      hingest
    rw [← hown] at hnone hrow
    obtain ⟨place, hafter, _, hplace, _⟩ :=
      ingestAgentEvent_opens hstands.keyed hproject hnone hparent hingest
    have hopened : courseOf (s.openedProgress P.projectId d) =
        ⟨.running, true, row.status, row.completedAt, []⟩ := by
      rw [Store.openedProgress, hrow]
      rfl
    rw [hown] at hafter
    refine ⟨hkeyed, hsole, Or.inl ⟨place, _, hafter, (hplace row hrow).1.trans hid, ?_⟩⟩
    rw [courseOf_observe (by intro row hrow; cases hrow), hopened]

end Stands

/-! ## What is still to be ingested -/

/-- Where some observations move the session, the first does or the others do. -/
theorem moves_cons {d : Delivery} {rest : List AgentEventObservation}
    (hown : d.observation.eveSessionId = P.eveSessionId)
    (hmoves : moves P.eveSessionId c.isRoot c.status (d.observation :: rest) = true) :
    (c.moved d).isSome = true ∨
      moves P.eveSessionId (c.follow d).isRoot (c.follow d).status rest = true := by
  rw [moves, Bool.and_eq_true, Bool.or_eq_true] at hmoves
  obtain ⟨hroot, hmoves⟩ := hmoves
  cases hprojected : c.projected d with
  | some status =>
      left
      rw [Course.moved, hprojected, hroot]
      rfl
  | none =>
      right
      have hnone : sessionStatusFromEveEvent (readEvent d.observation.event).type c.status
          (readEvent d.observation.event).payload = none := hprojected
      rw [hnone, Option.isSome_none] at hmoves
      have hrest := hmoves.resolve_left (by simp)
      rw [Course.follow, hprojected, hroot, Delivery.announcesItself, Delivery.reading, hown]
      simpa using hrest

/-- More observations move the session where some of them do. -/
theorem moves_take {isRoot : Bool} {status : SessionStatus} {n m : ℕ} (hle : n ≤ m)
    {observations : List AgentEventObservation}
    (hmoves : moves P.eveSessionId isRoot status (observations.take n) = true) :
    moves P.eveSessionId isRoot status (observations.take m) = true := by
  induction observations generalizing n m isRoot with
  | nil => simpa using hmoves
  | cons o rest ih =>
      cases n with
      | zero => cases hmoves
      | succ n =>
          obtain ⟨k, rfl⟩ : ∃ k, m = k + 1 := ⟨m - 1, by omega⟩
          rw [List.take_succ_cons, moves, Bool.and_eq_true, Bool.or_eq_true] at hmoves ⊢
          refine ⟨hmoves.1, hmoves.2.imp_right fun hrest => ?_⟩
          exact ih (by omega) hrest

/-! ## Lines -/

/-- The events of a line, one after another, lead to the status they are said to lead to. -/
theorem foldl_next (status : SessionStatus) (facts : List Json) (p : Projection)
    (reached : Option SessionStatus) (hstatus : p.status = reached.getD status)
    (hprojected : p.projected = reached.isSome) :
    (facts.foldl Projection.next p).status =
        (facts.foldl (fun reached event => (eventStatus (reached.getD status) event).or reached)
          reached).getD status ∧
      (facts.foldl Projection.next p).projected =
        (facts.foldl (fun reached event => (eventStatus (reached.getD status) event).or reached)
          reached).isSome := by
  induction facts generalizing p reached with
  | nil => exact ⟨hstatus, hprojected⟩
  | cons event rest ih =>
      rw [List.foldl_cons, List.foldl_cons]
      apply ih
      · rw [Projection.next, hstatus]
        cases heventStatus : eventStatus (reached.getD status) event with
        | none => simpa using hstatus
        | some next => rfl
      · rw [Projection.next, hstatus]
        cases heventStatus : eventStatus (reached.getD status) event with
        | none => simpa using hprojected
        | some next => rfl

/-- The write of a line is of the status its events lead to, if they move it. -/
theorem projectPlaygroundStreamLine_write (parse : String → Option Json) (line : List Char)
    (status : SessionStatus) (eveSessionId : String) :
    (projectPlaygroundStreamLine parse line status eveSessionId).2.map
        (fun input => (input.status, input.eveSessionId)) =
      (lineStatus parse line status).map fun next => (next, some (some eveSessionId)) := by
  obtain ⟨hstatus, hprojected⟩ :=
    foldl_next status (lineFacts parse line) ⟨status, false, none⟩ none rfl rfl
  rw [projectPlaygroundStreamLine, lineStatus]
  cases hreached : (lineFacts parse line).foldl
      (fun reached event => (eventStatus (reached.getD status) event).or reached) none with
  | none =>
      rw [hreached] at hprojected
      rw [hprojected]
      rfl
  | some next =>
      rw [hreached] at hprojected hstatus
      rw [hprojected, hstatus]
      rfl

/-! ## The invariant -/

/-- The store and what ingestion alone would have made of it: their courses are those of one node,
and what the session shows is the same, or is moved again by what is still to be ingested. -/
structure Pair (P : Playground) (behind upcoming : List AgentEventObservation) (c c' : Course) :
    Prop where
  same : c.SameNode c'
  shown : moves P.eveSessionId c.isRoot c.status behind = true ∨
    c.sessionStatus = c'.sessionStatus ∧
      (c.completedAt = c'.completedAt ∨ moves P.eveSessionId c.isRoot c.status upcoming = true)

/-- What an observation that is still to be ingested is to a store. -/
structure Awaited (P : Playground) (s : Store) (o : AgentEventObservation) : Prop where
  own : o.eveSessionId = P.eveSessionId
  opens : o.parentEveSessionId = none
  managed : s.projectOf o.deploymentId = some P.projectId

theorem Awaited.congr {o : AgentEventObservation} (hawaited : Awaited P s o)
    (hsame : SameSurroundings s t) : Awaited P t o where
  own := hawaited.own
  opens := hawaited.opens
  managed := (hsame.projectOf _).trans hawaited.managed

/-- A store that has ingested what is before the observations to come. -/
structure Ready (P : Playground) (s : Store) (upcoming : List AgentEventObservation) (c : Course) :
    Prop where
  stands : Stands P s c
  awaited : ∀ o ∈ upcoming, Awaited P s o
  before : ∀ row ∈ c.recorded, ∀ o ∈ upcoming, TraceBefore row o

/-- The next observation is ingested. -/
theorem Ready.ingest {d : Delivery} {rest : List AgentEventObservation} {result : IngestResult}
    (hready : Ready P s (d.observation :: rest) c)
    (hordered : (d.observation :: rest).Pairwise Precedes)
    (hingest : ingestAgentEvent s d.observation d.ids d.now = .ok (t, result)) :
    Ready P t rest (c.follow d) where
  stands := by
    have hawaited := hready.awaited d.observation List.mem_cons_self
    exact hready.stands.ingest hawaited.own hawaited.opens hawaited.managed
      (fun row hrow => hready.before row hrow _ List.mem_cons_self) hingest
  awaited o ho := (hready.awaited o (List.mem_cons_of_mem _ ho)).congr
    (ingestAgentEvent_surroundings hingest)
  before row hrow o ho := by
    rcases List.mem_append.mp hrow with hold | hnew
    · exact hready.before row hold o (List.mem_cons_of_mem _ ho)
    · obtain ⟨hid, hfingerprint, hsequence⟩ := (List.pairwise_cons.mp hordered).1 o ho
      rw [List.mem_singleton.mp hnew]
      exact ⟨fun h => hid (Option.some.inj h), fun h => hfingerprint (Option.some.inj h), hsequence⟩

/-- The monitor's write changes the session of a store. -/
theorem Ready.complete {upcoming : List AgentEventObservation} {input : CompleteSessionInput}
    {now : ℤ} (hready : Ready P s upcoming c)
    (hclaims : input.eveSessionId = some (some P.eveSessionId))
    (hcomplete : completeSession s P.sessionId input now = .ok t) :
    Ready P t upcoming (c.write input.status now) where
  stands := hready.stands.complete hclaims hcomplete
  awaited o ho := by
    obtain ⟨_, hsurroundings, _⟩ := hready.stands.complete_eq hclaims hcomplete
    exact (hready.awaited o ho).congr hsurroundings
  before := hready.before

/-- Both stores ingest the same observation. -/
theorem Pair.follow {d : Delivery} {rest : List AgentEventObservation} {c' : Course} {n m : ℕ}
    (hpair : Pair P ((d.observation :: rest).take n) (d.observation :: rest) c c')
    (hown : d.observation.eveSessionId = P.eveSessionId) (hle : n ≤ m + 1) :
    Pair P (rest.take m) rest (c.follow d) (c'.follow d) where
  same := hpair.same.follow d
  shown := by
    cases hmoved : c.moved d with
    | some status =>
        -- The event moves both sessions to one status, at one time.
        right
        have hmoved' := (hpair.same.moved d).trans hmoved
        refine ⟨?_, Or.inl ?_⟩
        · show (c.moved d).getD _ = (c'.moved d).getD _
          rw [hmoved, hmoved']
          rfl
        · show (c.moved d).elim _ _ = (c'.moved d).elim _ _
          rw [hmoved, hmoved']
          rfl
    | none =>
        have hmoved' := (hpair.same.moved d).trans hmoved
        have hsessionStatus : (c.follow d).sessionStatus = c.sessionStatus := by
          show (c.moved d).getD _ = _
          rw [hmoved]
          rfl
        have hsessionStatus' : (c'.follow d).sessionStatus = c'.sessionStatus := by
          show (c'.moved d).getD _ = _
          rw [hmoved']
          rfl
        have hcompletedAt : (c.follow d).completedAt = c.completedAt := by
          show (c.moved d).elim _ _ = _
          rw [hmoved]
          rfl
        have hcompletedAt' : (c'.follow d).completedAt = c'.completedAt := by
          show (c'.moved d).elim _ _ = _
          rw [hmoved']
          rfl
        have hlater : ∀ {observations}, moves P.eveSessionId c.isRoot c.status
            (d.observation :: observations) = true →
              moves P.eveSessionId (c.follow d).isRoot (c.follow d).status observations = true := by
          intro observations hmoves
          refine (moves_cons hown hmoves).resolve_left ?_
          rw [hmoved]
          simp
        rcases hpair.shown with hbehind | ⟨hstatus, hcompleted⟩
        · left
          have hwider := moves_take hle hbehind
          exact hlater hwider
        · right
          rw [hsessionStatus, hsessionStatus', hcompletedAt, hcompletedAt']
          exact ⟨hstatus, hcompleted.imp_right hlater⟩

/-- The monitor writes what the session shows already, or what is moved again. -/
theorem Pair.write {behind behind' upcoming : List AgentEventObservation} {c' : Course}
    {status : SessionStatus} {now : ℤ} (hpair : Pair P behind upcoming c c')
    (hbehind : moves P.eveSessionId c.isRoot c.status behind = true →
      moves P.eveSessionId c.isRoot c.status behind' = true)
    (hheeds : moves P.eveSessionId c.isRoot c.status behind' = true ∨ c.sessionStatus = status ∧
      (c.completedAt = completionTime status now ∨
        moves P.eveSessionId c.isRoot c.status upcoming = true)) :
    Pair P behind' upcoming (c.write status now) c' where
  same := ⟨hpair.same.status, hpair.same.isRoot, hpair.same.recorded⟩
  shown := by
    rcases hheeds with hmoves | ⟨hstatus, hcompleted⟩
    · exact Or.inl hmoves
    · rcases hpair.shown with hmoves | ⟨hstatus', hcompleted'⟩
      · exact Or.inl (hbehind hmoves)
      · right
        refine ⟨hstatus.symm.trans hstatus', ?_⟩
        rcases hcompleted with hsame | hmoves
        · exact hcompleted'.imp_left hsame.symm.trans
        · exact Or.inr hmoves

/-- The store is ready for what is still to be ingested, and so is what ingestion alone would have
made of it; the two are a pair. -/
structure Paired (P : Playground) (s : State) : Prop where
  ordered : s.upcoming.Pairwise Precedes
  course : ∃ c, Ready P s.store s.upcoming c ∧ ∀ alone, s.alone = some alone →
    ∃ c', Ready P alone s.upcoming c' ∧ Pair P (s.behind P s.monitor.reader) s.upcoming c c'

/-- A line is projected without a write. -/
theorem Pair.wider {behind behind' upcoming : List AgentEventObservation} {c' : Course}
    (hpair : Pair P behind upcoming c c')
    (hbehind : moves P.eveSessionId c.isRoot c.status behind = true →
      moves P.eveSessionId c.isRoot c.status behind' = true) :
    Pair P behind' upcoming c c' where
  same := hpair.same
  shown := hpair.shown.imp_left hbehind

theorem Initial.paired {s : State} (hinitial : Initial P s) : Paired P s := by
  obtain ⟨row, hrow, hid⟩ := hinitial.session
  obtain ⟨hmem, hproject, heve⟩ := Store.mem_of_findSession hrow
  have hsole : Sole P s.store := by
    intro other hother
    refine ⟨fun hkey => hinitial.sole other hother hkey.1 hkey.2, fun hsame => ?_⟩
    rw [hinitial.keyed.sessionIds.eq hother hmem (hsame.trans hid.symm)]
    exact ⟨hproject, heve⟩
  have hawaited : ∀ o ∈ s.upcoming, Awaited P s.store o := by
    intro o ho
    obtain ⟨hown, hparent, deployment, hdeployment, hof⟩ := hinitial.own o ho
    refine ⟨hown, hparent, ?_⟩
    rw [Store.projectOf, hdeployment, Option.map_some, hof]
  have hready : ∃ c, Ready P s.store s.upcoming c := by
    cases hnode : s.store.findNode P.projectId P.eveSessionId with
    | none => exact ⟨_, ⟨hinitial.keyed, hsole, Or.inr ⟨hnode, row, hrow, hid, rfl⟩⟩, hawaited,
        by intro row hrow; cases hrow⟩
    | some node =>
        have hroot := hinitial.node node hnode
        have hget := hinitial.keyed.sessionIds.find?_eq_some hmem
        have hget' : s.store.getSession node.rootSessionId = some row := by
          rw [hroot, ← hid]
          exact hget
        refine ⟨courseOf (s.store.progressOf node row), ⟨hinitial.keyed, hsole,
          Or.inl ⟨_, _, ⟨node, row, hnode, hget', rfl, rfl⟩, hid, rfl⟩⟩, hawaited, ?_⟩
        intro trace htrace o ho
        obtain ⟨event, hevent, rfl⟩ := List.mem_map.mp htrace
        exact hinitial.recorded node hnode event hevent o ho
  obtain ⟨c, hready⟩ := hready
  refine ⟨hinitial.ordered, c, hready, fun alone halone => ?_⟩
  rw [hinitial.alone] at halone
  cases halone
  exact ⟨c, hready, Course.SameNode.refl c, Or.inr ⟨rfl, Or.inl rfl⟩⟩

/-- What a reader leaves to be read grows no longer. -/
theorem upcomingFacts_next {reader reader' : LineReader} {line : List Char}
    (hnext : reader.next = some (line, reader')) :
    (upcomingFacts P reader').length ≤ (upcomingFacts P reader).length := by
  rw [upcomingFacts, upcomingFacts, LineReader.unread_next hnext, List.flatMap_cons,
    List.length_append]
  omega

/-! ## Steps -/

theorem paired_ingest {s t : State} {ids : IngestIds} {now : ℤ} (hpaired : Paired P s)
    (hstep : step P s (.ingest ids now) = some t) : Paired P t := by
  rw [step] at hstep
  obtain ⟨hordered, c, hready, halone⟩ := hpaired
  split at hstep
  · cases hstep
  · next o rest hupcoming =>
      rw [hupcoming] at hordered hready
      split at hstep
      · cases hstep
        exact ⟨hupcoming ▸ hordered, c, hupcoming ▸ hready, halone⟩
      · next store result hingest =>
          cases hstep
          have hafter := Ready.ingest (d := ⟨o, ids, now⟩) hready hordered hingest
          refine ⟨(List.pairwise_cons.mp hordered).2, _, hafter, ?_⟩
          intro alone' halone'
          obtain ⟨alone, hbefore, halone'⟩ := Option.bind_eq_some_iff.mp halone'
          obtain ⟨c', hready', hpair⟩ := halone alone hbefore
          rw [hupcoming] at hready'
          cases hingest' : ingestAgentEvent alone o ids now with
          | error message =>
              rw [hingest'] at halone'
              cases halone'
          | ok outcome =>
              obtain ⟨after, result'⟩ := outcome
              rw [hingest'] at halone'
              cases halone'
              refine ⟨_, Ready.ingest (d := ⟨o, ids, now⟩) hready' hordered hingest', ?_⟩
              rw [State.behind, hupcoming, List.length_cons] at hpair
              have hle : rest.length + 1 - (upcomingFacts P s.monitor.reader).length ≤
                  rest.length - (upcomingFacts P s.monitor.reader).length + 1 := by omega
              exact Pair.follow (d := ⟨o, ids, now⟩) hpair
                (hready.awaited o List.mem_cons_self).own hle

theorem paired_pull {s t : State} (hpaired : Paired P s) (hstep : step P s .pull = some t) :
    Paired P t := by
  obtain ⟨reader, hpull, rfl⟩ := Option.map_eq_some_iff.mp hstep
  obtain ⟨hordered, c, hready, halone⟩ := hpaired
  have hsame : State.behind P { s with monitor.reader := reader } reader =
      s.behind P s.monitor.reader := by
    rw [State.behind, State.behind, upcomingFacts, upcomingFacts, LineReader.unread_pull hpull]
  refine ⟨hordered, c, hready, fun alone hsome => ?_⟩
  rw [hsame]
  exact halone alone hsome

theorem paired_line {s t : State} {stored : Bool} {now : ℤ} (hpaired : Paired P s)
    (hheeds : Heeds P s (.line stored now) = true)
    (hstep : step P s (.line stored now) = some t) : Paired P t := by
  obtain ⟨⟨line, reader⟩, hnext, rfl⟩ := Option.map_eq_some_iff.mp hstep
  obtain ⟨hordered, c, hready, halone⟩ := hpaired
  have hbehind : moves P.eveSessionId c.isRoot c.status (s.behind P s.monitor.reader) = true →
      moves P.eveSessionId c.isRoot c.status (s.behind P reader) = true := by
    have hle := upcomingFacts_next (P := P) hnext
    exact moves_take (by omega)
  -- Without a write the store is as it was.
  have hquiet : Paired P { s with monitor :=
      ⟨reader, (projectPlaygroundStreamLine P.parse line s.monitor.currentStatus
        P.eveSessionId).1⟩ } := by
    refine ⟨hordered, c, hready, fun alone hsome => ?_⟩
    obtain ⟨c', hready', hpair⟩ := halone alone hsome
    exact ⟨c', hready', hpair.wider hbehind⟩
  have hwrite := projectPlaygroundStreamLine_write P.parse line s.monitor.currentStatus
    P.eveSessionId
  dsimp only
  cases hprojected : (projectPlaygroundStreamLine P.parse line s.monitor.currentStatus
      P.eveSessionId).2 with
  | none => exact hquiet
  | some input =>
      rw [hprojected] at hwrite
      obtain ⟨status, hstatus, heq⟩ := Option.map_eq_some_iff.mp hwrite.symm
      obtain ⟨rfl, hclaims⟩ := Prod.mk.inj heq
      cases stored with
      | false => exact hquiet
      | true =>
          rw [writeLine, if_pos rfl]
          cases hcomplete : completeSession s.store P.sessionId input now with
          | error message => exact hquiet
          | ok after =>
              rw [Heeds, hnext] at hheeds
              dsimp only at hheeds
              rw [hstatus] at hheeds
              dsimp only at hheeds
              rw [hready.stands.movesFrom_eq, hready.stands.movesFrom_eq,
                hready.stands.statusIn_eq, hready.stands.completedIn_eq] at hheeds
              simp only [Bool.not_true, Bool.false_or, Bool.or_eq_true, Bool.and_eq_true,
                decide_eq_true_eq, Option.some.injEq] at hheeds
              refine ⟨hordered, _, hready.complete hclaims.symm hcomplete, fun alone hsome => ?_⟩
              obtain ⟨c', hready', hpair⟩ := halone alone hsome
              exact ⟨c', hready', hpair.write hbehind hheeds⟩

theorem step_paired {s t : State} {a : Action} (hpaired : Paired P s) (hheeds : Heeds P s a = true)
    (hstep : step P s a = some t) : Paired P t := by
  cases a with
  | ingest ids now => exact paired_ingest hpaired hstep
  | pull => exact paired_pull hpaired hstep
  | line stored now => exact paired_line hpaired hheeds hstep

theorem Paired.eagerStatus {s : State} (hpaired : Paired P s) : EagerStatus P s := by
  obtain ⟨_, c, hready, halone⟩ := hpaired
  constructor
  · intro hclosed hdone alone hsome
    obtain ⟨c', hready', hpair⟩ := halone alone hsome
    rw [State.behind, hdone] at hpair
    obtain ⟨hstatus, hcompleted⟩ := hpair.shown.resolve_left (by simp [moves])
    rw [hready.stands.statusIn_eq, hready'.stands.statusIn_eq, hready.stands.completedIn_eq,
      hready'.stands.completedIn_eq, hstatus, hcompleted.resolve_right (by simp [moves])]
    exact ⟨rfl, rfl⟩
  · intro hle alone hsome
    obtain ⟨c', hready', hpair⟩ := halone alone hsome
    rw [State.behind, Nat.sub_eq_zero_of_le hle, List.take_zero] at hpair
    rw [hready.stands.statusIn_eq, hready'.stands.statusIn_eq,
      (hpair.shown.resolve_left (by simp [moves])).1]

/-- **The eager status and ingestion.** In every run of a Playground session whose monitor writes
while ingestion has still to read an event that moves the session, or what the session shows
already, the eager status never contradicts ingestion. -/
theorem eager_status_agrees (P : Playground) (s : State) (actions : List Action)
    (hinitial : Initial P s)
    (hheeds : (machine P).Meets (fun s a => Heeds P s a = true) s actions) :
    (machine P).Always (EagerStatus P) s actions :=
  Machine.always_of_meets (M := machine P) (I := Paired P)
    (fun _ _ _ hpaired hheeds hstep => step_paired hpaired hheeds hstep)
    (fun _ hpaired => hpaired.eagerStatus) hinitial.paired hheeds

/-! ## A session of one turn -/

/-- An event of the session. -/
def sampleEvent (type : String) (data : List (String × Json)) : Json :=
  .obj [("type", .str type), ("data", .obj data)]

/-- A commit with one fact. -/
def sampleCommit (event : Json) : Json := .obj [("facts", .arr [event])]

def turnStarted : Json := sampleEvent "turn.started" []

def sessionEnded : Json := sampleEvent "session.ended" [("outcome", .str "completed")]

/-- A Playground whose stream consists of two commits. -/
def samplePlayground : Playground where
  projectId := "shop"
  sessionId := "session"
  eveSessionId := "eve"
  parse text :=
    if text = (sampleCommit turnStarted).render then some (sampleCommit turnStarted)
    else if text = (sampleCommit sessionEnded).render then some (sampleCommit sessionEnded)
    else none

/-- The bytes of the stream. -/
def sampleBytes : List UInt8 :=
  ((sampleCommit turnStarted).render ++ "\n" ++ (sampleCommit sessionEnded).render ++
    "\n").toList.map fun c => UInt8.ofNat c.toNat

/-- The session before its turn. Its first commit comes in two chunks. -/
def beforeTurn : State where
  store :=
    { sampleStore with
      sessions :=
        [startedSession "session" "shop" (some "deployment") (some "eve") .playground none 0] }
  alone := some
    { sampleStore with
      sessions :=
        [startedSession "session" "shop" (some "deployment") (some "eve") .playground none 0] }
  upcoming :=
    [{ sampleObservation "first" "eve" (some 1) "turn.started" [] with event := turnStarted },
      { sampleObservation "second" "eve" (some 2) "session.ended" [] with event := sessionEnded }]
  monitor := ⟨LineReader.start [sampleBytes.take 20, sampleBytes.drop 20], .running⟩

set_option maxRecDepth 100000 in
theorem beforeTurn_initial : Initial samplePlayground beforeTurn where
  keyed :=
    { sessionIds := List.nodup_singleton _
      nodeIds := List.nodup_nil
      nodesHeld := by intro row hrow; cases hrow
      eventsHeld := by intro row hrow; cases hrow
      eventsOwned := by intro row hrow; cases hrow
      usageHeld := by intro row hrow; cases hrow
      executionsHeld := by intro row hrow; cases hrow }
  session := ⟨_, rfl, rfl⟩
  sole := by
    intro row hrow _ _
    rw [List.mem_singleton.mp hrow]
    rfl
  node := by intro node hnode; cases hnode
  own := by
    intro o ho
    rcases List.mem_cons.mp ho with rfl | ho
    · exact ⟨rfl, rfl, _, rfl, rfl⟩
    · rw [List.mem_singleton.mp ho]
      exact ⟨rfl, rfl, _, rfl, rfl⟩
  ordered := by
    refine List.pairwise_pair.mpr ⟨by decide, by decide, ?_⟩
    intro first hfirst second hsecond
    cases hfirst
    cases hsecond
    decide
  recorded := by intro node hnode; cases hnode
  stream := ⟨_, rfl⟩
  events := rfl
  alone := rfl

/-- The monitor writes each status before the event that has it is ingested, or at once after. -/
def monitorAhead : List Action :=
  [.pull, .pull, .ingest (sampleIds "first") 1, .line true 2, .line true 3,
    .ingest (sampleIds "second") 4, .line true 5]

/-- The monitor ahead of ingestion: at the end the session was completed when its last event was
ingested. -/
theorem eager_status_agrees_monitorAhead :
    (machine samplePlayground).Always (EagerStatus samplePlayground) beforeTurn monitorAhead ∧
      ((machine samplePlayground).exec beforeTurn monitorAhead).map (fun t =>
        (t.monitor.reader.closed, t.upcoming.length, statusIn samplePlayground t.store,
          completedIn samplePlayground t.store)) =
        some (true, 0, some .completed, some (some 4)) :=
  ⟨eager_status_agrees samplePlayground beforeTurn monitorAhead beforeTurn_initial
    (by decide +kernel), by decide +kernel⟩

/-- Ingestion reads the stream, and the monitor after it. -/
def monitorBehind : List Action :=
  [.pull, .pull, .ingest (sampleIds "first") 1, .ingest (sampleIds "second") 4, .line true 5,
    .line true 6, .line true 7]

/-- A monitor that lags behind ingestion returns a session that has ended to running, and then
completes it a second time, later. -/
theorem lagging_monitor_completes_again :
    ¬ ∀ (P : Playground) (s : State) (actions : List Action), Initial P s →
      (machine P).Always (EagerStatus P) s actions := by
  intro hall
  have hfails : ∃ t ∈ (machine samplePlayground).exec beforeTurn monitorBehind,
      ∃ alone ∈ t.alone, t.monitor.reader.closed = true ∧ t.upcoming.length = 0 ∧
        completedIn samplePlayground t.store ≠ completedIn samplePlayground alone := by
    decide +kernel
  obtain ⟨t, hexec, alone, halone, hclosed, hdone, hdiffers⟩ := hfails
  have hstatus := (hall samplePlayground beforeTurn monitorBehind beforeTurn_initial).of_exec hexec
  exact hdiffers (hstatus.settled hclosed (List.length_eq_zero_iff.mp hdone) alone halone).2

end Eveland.PlaygroundStream
