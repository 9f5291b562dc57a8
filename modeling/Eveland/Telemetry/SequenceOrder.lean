/-
# Sequences follow the positions of events

A position is packed into one number, a thousand to a line. An index beyond that shares the last
number of its line, and a number too large for its column is left out.
-/

import Eveland.Telemetry.AgentEvents

namespace Eveland.AgentEvents

/-! ## The sequence of an event -/

/-- The data of an event. -/
def eventData (event : Value) : Value := (event.recordValue.get "data").recordValue

/-- What `sourceSequenceOf` answers for an event. -/
def sequenceOf (event : Value) : Option ℕ := sourceSequenceOf event.recordValue (eventData event)

/-- An event has no sequence of its own, but a position in the log of its session. -/
structure AtPosition (event : Value) (line index : ℕ) : Prop where
  unnumbered : ((eventData event).get "sequence").nonNegativeInteger = none
  line : ((((event.recordValue.get "meta").recordValue.get "position").recordValue).get
    "line").nonNegativeInteger = some line
  index : ((((event.recordValue.get "meta").recordValue.get "position").recordValue).get
    "index").nonNegativeInteger = some index

theorem AtPosition.sequenceOf {event : Value} {line index : ℕ} (h : AtPosition event line index) :
    sequenceOf event =
      if line * 1000 + min index 999 ≤ 2147483647 then some (line * 1000 + min index 999)
      else none := by
  rw [AgentEvents.sequenceOf, sourceSequenceOf, h.unnumbered]
  simp only [h.line, h.index]

theorem AtPosition.sequenceOf_eq_some {event : Value} {line index sequence : ℕ}
    (h : AtPosition event line index) (hsome : AgentEvents.sequenceOf event = some sequence) :
    sequence = line * 1000 + min index 999 ∧ sequence ≤ 2147483647 := by
  rw [h.sequenceOf] at hsome
  split at hsome
  case isTrue hle =>
      cases hsome
      exact ⟨rfl, hle⟩
  case isFalse => cases hsome

/-- The sequence follows the lexicographic order of the positions. -/
theorem sequence_lt_of_position {first second : Value} {line index line' index' a b : ℕ}
    (hfirst : AtPosition first line index) (hsecond : AtPosition second line' index')
    (hindex' : index' < 1000) (ha : sequenceOf first = some a) (hb : sequenceOf second = some b)
    (hlex : line < line' ∨ line = line' ∧ index < index') : a < b := by
  obtain ⟨rfl, -⟩ := hfirst.sequenceOf_eq_some ha
  obtain ⟨rfl, -⟩ := hsecond.sequenceOf_eq_some hb
  have hmin : min index 999 ≤ 999 := Nat.min_le_right _ _
  rcases hlex with hline | ⟨rfl, hindex⟩
  · omega
  · omega

/-- Within a line it does not decrease, and increases up to the index 999. -/
theorem sequence_le_of_line {first second : Value} {line i j a b : ℕ}
    (hfirst : AtPosition first line i) (hsecond : AtPosition second line j) (hij : i < j)
    (ha : sequenceOf first = some a) (hb : sequenceOf second = some b) :
    a ≤ b ∧ (a < b ↔ i < 999) := by
  obtain ⟨rfl, -⟩ := hfirst.sequenceOf_eq_some ha
  obtain ⟨rfl, -⟩ := hsecond.sequenceOf_eq_some hb
  omega

/-! ## The sequence of an observation -/

theorem observationFromLogRecord_sequence {B : Builtins} {deploymentId : String}
    {runtimeInstanceId : Option String} {logRecord : Value} {o : Observation}
    (h : observationFromLogRecord B deploymentId runtimeInstanceId logRecord = some o) :
    o.sourceSequence = sequenceOf o.event := by
  simp only [observationFromLogRecord, Option.bind_eq_bind, Option.bind_eq_some_iff] at h
  obtain ⟨telemetryEventId, -, eventFingerprint, -, eveSessionId, -, eventAt, -, h⟩ := h
  split at h
  case isTrue =>
      cases h
      rfl
  case isFalse => cases h

/-- The projection gives each observation the sequence of its event. -/
theorem projected_sequence {B : Builtins} {payload : Value}
    {resolveDeploymentId : Option String → Option String} {o : Observation}
    (h : some o ∈ projectAgentEventItemsFromOtlpLogs B payload resolveDeploymentId) :
    o.sourceSequence = sequenceOf o.event := by
  obtain ⟨resourceLogs, -, h⟩ := List.mem_flatMap.mp h
  obtain ⟨scopeLogs, -, h⟩ := List.mem_flatMap.mp h
  obtain ⟨logRecord, -, h⟩ := List.mem_map.mp h
  split at h
  case isTrue =>
      obtain ⟨deploymentId, -, h⟩ := Option.bind_eq_some_iff.mp h
      exact observationFromLogRecord_sequence h
  case isFalse => cases h

/-- **Source sequences preserve the order of positions**: for indices below a thousand strictly;
they fit the column; and what the projection gives the items of one line does not decrease in the
order they were written, and increases strictly up to the item with the index 999, whose sequence
the items after it share. -/
theorem sourceSequence_ordered :
    (∀ first second line index line' index' a b,
        AtPosition first line index → AtPosition second line' index' →
        index < 1000 → index' < 1000 →
        sequenceOf first = some a → sequenceOf second = some b →
        line < line' ∨ line = line' ∧ index < index' → a < b) ∧
      (∀ event line index a, AtPosition event line index → sequenceOf event = some a →
        a ≤ 2147483647) ∧
      ∀ B payload resolveDeploymentId first second line i j a b,
        some first ∈ projectAgentEventItemsFromOtlpLogs B payload resolveDeploymentId →
        some second ∈ projectAgentEventItemsFromOtlpLogs B payload resolveDeploymentId →
        AtPosition first.event line i → AtPosition second.event line j → i < j →
        first.sourceSequence = some a → second.sourceSequence = some b →
        a ≤ b ∧ (a < b ↔ i < 999) := by
  refine ⟨?_, ?_, ?_⟩
  · intro first second line index line' index' a b hfirst hsecond _ hindex' ha hb hlex
    exact sequence_lt_of_position hfirst hsecond hindex' ha hb hlex
  · intro event line index a hevent ha
    exact (hevent.sequenceOf_eq_some ha).2
  · intro B payload resolveDeploymentId first second line i j a b hfirst hsecond hi hj hij ha hb
    rw [projected_sequence hfirst] at ha
    rw [projected_sequence hsecond] at hb
    exact sequence_le_of_line hi hj hij ha hb

/-! ## A line of more than a thousand items -/

/-- The time of the events below. -/
def noon : String := "2026-11-02T12:00:00.000Z"

/-- The language's functions, as far as the exports below need them. -/
def sampleBuiltins : Builtins where
  toNumber
    | .num value => value
    | _ => .other false "NaN"
  toText _ := ""
  unixNanoToIso _ := none
  isDatetime text := text = noon

/-- A list of keys with their values, as the export writes it. -/
def keyValues (entries : List (String × Value)) : Value :=
  .arr <| entries.map fun entry => .obj [("key", .str entry.1), ("value", entry.2)]

def stringAttribute (value : String) : Value := .obj [("stringValue", .str value)]

def intAttribute (value : ℤ) : Value := .obj [("intValue", .num (.int value))]

def listAttribute (entries : List (String × Value)) : Value :=
  .obj [("kvlistValue", .obj [("values", keyValues entries)])]

/-- The log record of an item of the first line. -/
def itemRecord (index : ℤ) : Value :=
  .obj
    [("attributes", keyValues
      [("eveland.event.id", stringAttribute "event"),
        ("eveland.event.fingerprint", stringAttribute "fingerprint"),
        ("eveland.eve.session.id", stringAttribute "session")]),
      ("body", listAttribute
        [("meta", listAttribute
          [("at", stringAttribute noon),
            ("position", listAttribute
              [("line", intAttribute 0), ("index", intAttribute index)])])])]

/-- An export of items of the first line. -/
def lineExport (indices : List ℤ) : Value :=
  .obj [("resourceLogs", .arr [.obj
    [("resource", .obj [("attributes", keyValues
      [("eveland.telemetry.domain", stringAttribute "agent"),
        ("eveland.deployment.credential", stringAttribute "credential")])]),
      ("scopeLogs", .arr [.obj [("logRecords", .arr (indices.map itemRecord))]])]])]

/-- The first items of a line have sequences in their order. -/
theorem sourceSequence_ordered_firstItems : ∃ first second,
    projectAgentEventItemsFromOtlpLogs sampleBuiltins (lineExport [0, 1])
      (fun credential => credential) = [some first, some second] ∧
    first.sourceSequence = some 0 ∧ second.sourceSequence = some 1 ∧
    0 ≤ 1 ∧ (0 < 1 ↔ 0 < 999) := by
  have hrun : ∃ first second,
      projectAgentEventItemsFromOtlpLogs sampleBuiltins (lineExport [0, 1])
        (fun credential => credential) = [some first, some second] ∧
      AtPosition first.event 0 0 ∧ AtPosition second.event 0 1 ∧
      first.sourceSequence = some 0 ∧ second.sourceSequence = some 1 :=
    ⟨_, _, rfl, ⟨rfl, rfl, rfl⟩, ⟨rfl, rfl, rfl⟩, rfl, rfl⟩
  obtain ⟨first, second, hitems, hfirst, hsecond, ha, hb⟩ := hrun
  refine ⟨first, second, hitems, ha, hb, ?_⟩
  exact sourceSequence_ordered.2.2 _ _ _ first second 0 0 1 0 1
    (by rw [hitems]; exact List.mem_cons_self)
    (by rw [hitems]; exact List.mem_cons_of_mem _ List.mem_cons_self)
    hfirst hsecond (by decide) ha hb

/-- The thousandth item of a line and the one after it have the same sequence. -/
theorem not_strictly_increasing :
    ¬∀ B payload resolveDeploymentId first second line i j a b,
        some first ∈ projectAgentEventItemsFromOtlpLogs B payload resolveDeploymentId →
        some second ∈ projectAgentEventItemsFromOtlpLogs B payload resolveDeploymentId →
        AtPosition first.event line i → AtPosition second.event line j → i < j →
        first.sourceSequence = some a → second.sourceSequence = some b → a < b := by
  intro hall
  have hrun : ∃ first second,
      projectAgentEventItemsFromOtlpLogs sampleBuiltins (lineExport [999, 1000])
        (fun credential => credential) = [some first, some second] ∧
      AtPosition first.event 0 999 ∧ AtPosition second.event 0 1000 ∧
      first.sourceSequence = some 999 ∧ second.sourceSequence = some 999 :=
    ⟨_, _, rfl, ⟨rfl, rfl, rfl⟩, ⟨rfl, rfl, rfl⟩, rfl, rfl⟩
  obtain ⟨first, second, hitems, hfirst, hsecond, ha, hb⟩ := hrun
  have hlt := hall _ _ _ first second 0 999 1000 999 999
    (by rw [hitems]; exact List.mem_cons_self)
    (by rw [hitems]; exact List.mem_cons_of_mem _ List.mem_cons_self)
    hfirst hsecond (by decide) ha hb
  exact Nat.lt_irrefl _ hlt

end Eveland.AgentEvents
