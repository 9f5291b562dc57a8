/-
# The idle heartbeat of an NDJSON stream

The gateway passes the bytes of a session stream on chunk by chunk. Whenever a pull waits for the
next chunk longer than the heartbeat interval, it sends a bare newline in its place and keeps the
read for the next pull. Chunks may end anywhere, so the newline is invisible to a reader of records
only where it falls between two of them; what holds of the bytes themselves holds in every run.
-/

import Eveland.Foundations.Machine
import Eveland.Foundations.TextRecords

namespace Eveland.IdleHeartbeat

open TextRecords

/-! ## The stream -/

/-- How a stream stops. -/
inductive Outcome
  | ended
  | failed
  deriving DecidableEq

/-- A source: its chunks, and how it stops after them. -/
structure Source where
  chunks : List (List UInt8)
  outcome : Outcome

/-- What `reader.read()` resolves to, or that it is rejected. -/
inductive ReadResult
  | value (bytes : List UInt8)
  | stopped (outcome : Outcome)
  deriving DecidableEq

/-- The `pending` read: it is under way, or it has been settled while no pull was waiting. -/
inductive Pending
  | underWay
  | settled (result : ReadResult)
  deriving DecidableEq

/-- A chunk that is enqueued: one of the source, or `HEARTBEAT_CHUNK`. -/
inductive Emission
  | source (bytes : List UInt8)
  | heartbeat
  deriving DecidableEq

/-- A newline. -/
def newline : UInt8 := 10

def Emission.bytes : Emission → List UInt8
  | source bytes => bytes
  | heartbeat => [newline]

/-- The bytes of the source that an emission forwards. -/
def Emission.forwarded : Emission → List UInt8
  | source bytes => bytes
  | heartbeat => []

/-- The stream between two events. -/
structure State where
  /-- The chunks that the source has yet to deliver, and how it stops after them. -/
  upstream : List (List UInt8)
  outcome : Outcome
  /-- The source has stopped. -/
  stopped : Bool
  pending : Option Pending
  /-- A pull waits for the race between the read and the timer. -/
  pulling : Bool
  /-- What is enqueued and what the consumer has read. -/
  queue : List Emission
  delivered : List Emission
  /-- How the stream was closed. -/
  closed : Option Outcome
  deriving DecidableEq

inductive Action
  /-- The stream asks for more. -/
  | pull
  /-- The source delivers its next chunk to the read that is under way, or stops. -/
  | arrive
  /-- The timer of the pull fires. -/
  | timeout
  /-- The consumer takes what is enqueued. -/
  | take
  deriving DecidableEq

/-- `withNdjsonIdleHeartbeat`, before the first pull. -/
def start (source : Source) : State where
  upstream := source.chunks
  outcome := source.outcome
  stopped := false
  pending := none
  pulling := false
  queue := []
  delivered := []
  closed := none

/-- The pull is settled with the result of the read. -/
def settle (s : State) : ReadResult → State
  | .value bytes =>
      { s with pending := none, pulling := false, queue := s.queue ++ [.source bytes] }
  | .stopped .ended => { s with pending := none, pulling := false, closed := some .ended }
  -- An error discards what is enqueued.
  | .stopped .failed =>
      { s with pending := none, pulling := false, queue := [], closed := some .failed }

/-- A read that is settled before the pull wins the race at once. The stream pulls while nothing is
enqueued, one pull at a time. -/
def pull (s : State) : Option State :=
  if s.pulling = false ∧ s.closed = none ∧ s.queue = [] then
    match s.pending with
    | some (.settled result) => some (settle s result)
    | _ => some { s with pending := some .underWay, pulling := true }
  else none

/-- The source settles the read that is under way. -/
def arrive (s : State) : Option State :=
  if s.pending = some .underWay then
    let next :=
      match s.upstream with
      | chunk :: rest => ({ s with upstream := rest }, ReadResult.value chunk)
      | [] => ({ s with stopped := true }, ReadResult.stopped s.outcome)
    if s.pulling then some (settle next.1 next.2)
    else some { next.1 with pending := some (.settled next.2) }
  else none

/-- The heartbeat wins the race. The read stays pending. -/
def timeout (s : State) : Option State :=
  if s.pulling then some { s with pulling := false, queue := s.queue ++ [.heartbeat] } else none

def take (s : State) : Option State :=
  match s.queue with
  | emission :: rest => some { s with queue := rest, delivered := s.delivered ++ [emission] }
  | [] => none

/-- One stream, under any chunking of its source and any timing. -/
def machine (source : Source) : Machine State Action where
  init s := s = start source
  step s
    | .pull => pull s
    | .arrive => arrive s
    | .timeout => timeout s
    | .take => take s

/-! ## What is sent -/

/-- Everything that was enqueued. -/
def State.emitted (s : State) : List Emission := s.delivered ++ s.queue

/-- The bytes of the output. -/
def State.output (s : State) : List UInt8 := s.emitted.flatMap Emission.bytes

/-- The bytes of the source in the output. -/
def State.forwarded (s : State) : List UInt8 := s.emitted.flatMap Emission.forwarded

/-- The bytes of a read that no pull has taken. -/
def Pending.bytes : Pending → List UInt8
  | .settled (.value bytes) => bytes
  | _ => []

/-- The bytes of the source that are still to be forwarded. -/
def State.unread (s : State) : List UInt8 :=
  (s.pending.map Pending.bytes).getD [] ++ s.upstream.flatten

/-- The bytes of a source. -/
def Source.bytes (source : Source) : List UInt8 := source.chunks.flatten

/-- What a stream that is transparent comes to. -/
structure Transparent (blank : List UInt8 → Bool) (source : Source) (s : State) : Prop where
  /-- The records of the output, and of what is still to come, are those of the source. -/
  records : records newline blank (s.output ++ s.unread) = records newline blank source.bytes
  /-- Each byte of the source is forwarded once, in order. -/
  forwarded : s.forwarded ++ s.unread = source.bytes
  /-- The stream is closed as soon as the read that found the source's end is taken, and before
  that it is not; there is nothing left to forward then. -/
  closed : s.closed = if s.stopped ∧ s.pending = none then some source.outcome else none
  complete : s.closed ≠ none → s.unread = []

/-- Where a heartbeat is sent, the output does not stand within a line of the source. -/
def BetweenRecords (s : State) : Action → Bool
  | .timeout => atBoundary newline s.output s.unread
  | _ => true

/-! ## Bytes -/

/-- What is known of every reachable state. -/
structure Consistent (source : Source) (s : State) : Prop where
  outcome : s.outcome = source.outcome
  /-- A pull waits for a read that is under way, with nothing enqueued. -/
  waiting : s.pulling = true → s.pending = some .underWay ∧ s.queue = []
  forwarded : s.forwarded ++ s.unread = source.bytes
  /-- The source stops after its last chunk. -/
  exhausted : s.stopped = true → s.upstream = [] ∧ s.pending ≠ some .underWay
  /-- The end of the source is in the read that found it until a pull takes it. -/
  ending : s.stopped = true → s.pending ≠ none → s.pending = some (.settled (.stopped s.outcome))
  closed : s.closed = if s.stopped ∧ s.pending = none then some source.outcome else none
  /-- A read finds the end of the source where there is one. -/
  found : ∀ outcome, s.pending = some (.settled (.stopped outcome)) → s.stopped = true

/-- What was sent is the source and newlines. -/
theorem filter_output (s : State) :
    s.output.filter (· ≠ newline) = s.forwarded.filter (· ≠ newline) := by
  rw [State.output, State.forwarded]
  induction s.emitted with
  | nil => rfl
  | cons emission rest ih =>
      cases emission with
      | source bytes =>
          simp only [List.flatMap_cons, List.filter_append, ih]
          rfl
      | heartbeat =>
          simp only [List.flatMap_cons, List.filter_append, ih]
          rfl

/-- What a step does to the bytes. -/
structure Forwards (s t : State) (sent : List UInt8) : Prop where
  /-- The output grows by what is sent. -/
  output : t.output ++ t.unread = s.output ++ sent ++ s.unread
  /-- No byte of the source is lost or repeated. -/
  forwarded : t.forwarded ++ t.unread = s.forwarded ++ s.unread

@[simp]
theorem settle_unread (s : State) (result : ReadResult) :
    (settle s result).unread = s.upstream.flatten := by
  rcases result with bytes | ⟨_ | _⟩ <;> rfl

/-- The bytes of a read are passed on, and nothing is discarded. -/
theorem settle_output {s : State} (result : ReadResult) (hqueue : s.queue = []) :
    (settle s result).output = s.output ++ (Pending.settled result).bytes := by
  rcases result with bytes | ⟨_ | _⟩ <;>
    simp [settle, State.output, State.emitted, hqueue, Pending.bytes, Emission.bytes]

theorem settle_forwarded {s : State} (result : ReadResult) (hqueue : s.queue = []) :
    (settle s result).forwarded = s.forwarded ++ (Pending.settled result).bytes := by
  rcases result with bytes | ⟨_ | _⟩ <;>
    simp [settle, State.forwarded, State.emitted, hqueue, Pending.bytes, Emission.forwarded]

/-- What is enqueued, delivered and unread says all about the bytes. -/
theorem forwards_of_unread {s t : State} (hemitted : t.emitted = s.emitted)
    (hunread : t.unread = s.unread) : Forwards s t [] where
  output := by rw [State.output, State.output, hemitted, hunread, List.append_nil]
  forwarded := by rw [State.forwarded, State.forwarded, hemitted, hunread]

/-- A read that is settled is passed on. -/
theorem settle_forwards {s m : State} (result : ReadResult) (hqueue : m.queue = [])
    (hemitted : m.emitted = s.emitted)
    (hunread : s.unread = (Pending.settled result).bytes ++ m.upstream.flatten) :
    Forwards s (settle m result) [] where
  output := by
    rw [settle_output result hqueue, settle_unread, hunread, State.output, State.output, hemitted]
    simp
  forwarded := by
    rw [settle_forwarded result hqueue, settle_unread, hunread, State.forwarded, State.forwarded,
      hemitted]
    simp

theorem pull_forwards {s t : State} (hstep : pull s = some t) : Forwards s t [] := by
  rw [pull] at hstep
  split at hstep
  · next hfree =>
      obtain ⟨_, _, hqueue⟩ := hfree
      split at hstep
      · next result hpending =>
          cases hstep
          exact settle_forwards result hqueue rfl (by simp [State.unread, hpending])
      · next hunsettled =>
          cases hstep
          refine forwards_of_unread rfl ?_
          cases hpending : s.pending with
          | none => simp [State.unread, hpending, Pending.bytes]
          | some pending =>
              cases pending with
              | underWay => simp [State.unread, hpending]
              | settled result => exact absurd hpending (hunsettled result)
  · cases hstep

theorem arrive_forwards {source : Source} {s t : State} (hcons : Consistent source s)
    (hstep : arrive s = some t) : Forwards s t [] := by
  rw [arrive] at hstep
  split at hstep
  · next hpending =>
      have hunread : s.unread = s.upstream.flatten := by
        simp [State.unread, hpending, Pending.bytes]
      cases hupstream : s.upstream with
      | nil =>
          simp only [hupstream] at hstep
          rw [hupstream] at hunread
          split at hstep
          · next hpulling =>
              cases hstep
              exact settle_forwards _ (hcons.waiting hpulling).2 rfl
                (by rw [hunread]; simp [Pending.bytes])
          · cases hstep
            exact forwards_of_unread rfl
              (by rw [hunread]; simp [State.unread, Pending.bytes])
      | cons chunk rest =>
          simp only [hupstream] at hstep
          rw [hupstream] at hunread
          split at hstep
          · next hpulling =>
              cases hstep
              exact settle_forwards _ (hcons.waiting hpulling).2 rfl
                (by rw [hunread]; simp [Pending.bytes])
          · cases hstep
            exact forwards_of_unread rfl
              (by rw [hunread]; simp [State.unread, Pending.bytes])
  · cases hstep

theorem take_forwards {s t : State} (hstep : take s = some t) : Forwards s t [] := by
  rw [take] at hstep
  split at hstep
  · next emission rest hqueue =>
      cases hstep
      exact forwards_of_unread (by simp [State.emitted, hqueue]) rfl
  · cases hstep

/-- A heartbeat is a newline in the output. -/
theorem timeout_forwards {s t : State} (hstep : timeout s = some t) :
    Forwards s t [newline] ∧ t.output = s.output ++ [newline] ∧ t.unread = s.unread := by
  rw [timeout] at hstep
  split at hstep
  · cases hstep
    have houtput : ({ s with pulling := false, queue := s.queue ++ [.heartbeat] } : State).output =
        s.output ++ [newline] := by
      simp [State.output, State.emitted, Emission.bytes]
    refine ⟨⟨?_, ?_⟩, houtput, rfl⟩
    · rw [houtput]
      rfl
    · simp [State.forwarded, State.emitted, Emission.forwarded, State.unread]
  · cases hstep

/-- The bytes that an action sends of its own. -/
def Action.sent : Action → List UInt8
  | .timeout => [newline]
  | _ => []

theorem step_forwards {source : Source} {s t : State} {action : Action}
    (hcons : Consistent source s) (hstep : (machine source).step s action = some t) :
    Forwards s t action.sent := by
  cases action with
  | pull => exact pull_forwards hstep
  | arrive => exact arrive_forwards hcons hstep
  | timeout => exact (timeout_forwards hstep).1
  | take => exact take_forwards hstep

/-! ## Consistency -/

theorem Consistent.initial (source : Source) : Consistent source (start source) where
  outcome := rfl
  waiting := fun hpulling => by cases hpulling
  forwarded := by simp [start, State.forwarded, State.emitted, State.unread, Source.bytes]
  exhausted := fun hstopped => by cases hstopped
  ending := fun hstopped => by cases hstopped
  closed := rfl
  found := fun outcome hpending => by cases hpending

/-- A settled read that is taken closes the stream exactly where it has found the source's end. -/
theorem Consistent.settle {source : Source} {s : State} {result : ReadResult}
    (houtcome : s.outcome = source.outcome)
    (hforwarded : (settle s result).forwarded ++ (settle s result).unread = source.bytes)
    (hexhausted : s.stopped = true → s.upstream = [])
    (hopen : s.closed = none)
    (hresult : ∀ outcome, result = .stopped outcome → s.stopped = true ∧ outcome = s.outcome)
    (hvalue : ∀ bytes, result = .value bytes → s.stopped = false) :
    Consistent source (settle s result) := by
  cases result with
  | value bytes =>
      have hstopped := hvalue bytes rfl
      exact {
        outcome := houtcome
        waiting := fun hpulling => by cases hpulling
        forwarded := hforwarded
        exhausted := fun hend => ⟨hexhausted hend, by simp [IdleHeartbeat.settle]⟩
        ending := fun _ hne => absurd rfl hne
        closed := by simp [IdleHeartbeat.settle, hstopped, hopen]
        found := fun outcome hpending => by cases hpending }
  | stopped outcome =>
      obtain ⟨hstopped, rfl⟩ := hresult outcome rfl
      cases hend : s.outcome <;> rw [hend] at hforwarded <;> exact {
        outcome := houtcome
        waiting := fun hpulling => by cases hpulling
        forwarded := hforwarded
        exhausted := fun _ => ⟨hexhausted hstopped, by simp [IdleHeartbeat.settle]⟩
        ending := fun _ hne => absurd rfl hne
        closed := by simp [IdleHeartbeat.settle, hstopped, ← houtcome, hend]
        found := fun outcome hpending => by cases hpending }

theorem Consistent.pull {source : Source} {s t : State} (hcons : Consistent source s)
    (hforwarded : t.forwarded ++ t.unread = source.bytes) (hstep : pull s = some t) :
    Consistent source t := by
  rw [IdleHeartbeat.pull] at hstep
  split at hstep
  · next hfree =>
      obtain ⟨_, hclosed, hqueue⟩ := hfree
      split at hstep
      · next result hpending =>
          cases hstep
          apply Consistent.settle hcons.outcome hforwarded
            (fun hstopped => (hcons.exhausted hstopped).1) hclosed
          · intro outcome hresult
            subst hresult
            have hstopped := hcons.found outcome hpending
            have hending := hcons.ending hstopped (by simp [hpending])
            rw [hpending] at hending
            simp only [Option.some.injEq, Pending.settled.injEq, ReadResult.stopped.injEq]
              at hending
            exact ⟨hstopped, hending⟩
          · intro bytes hresult
            subst hresult
            rw [← Bool.not_eq_true]
            intro hstopped
            have hending := hcons.ending hstopped (by simp [hpending])
            rw [hpending] at hending
            cases hending
      · next hunsettled =>
          have hstopped : s.stopped = false := by
            rw [← Bool.not_eq_true]
            intro hstopped
            have hnone : s.pending ≠ none := fun hnone => by
              have hsome := hcons.closed
              rw [hclosed, if_pos ⟨hstopped, hnone⟩] at hsome
              cases hsome
            exact hunsettled _ (hcons.ending hstopped hnone)
          cases hstep
          exact {
            outcome := hcons.outcome
            waiting := fun _ => ⟨rfl, hqueue⟩
            forwarded := hforwarded
            exhausted := fun hend => absurd hend (by simp [hstopped])
            ending := fun hend => absurd hend (by simp [hstopped])
            closed := by simp [hclosed]
            found := fun outcome hpending => by cases hpending }
  · cases hstep

theorem Consistent.arrive {source : Source} {s t : State} (hcons : Consistent source s)
    (hforwarded : t.forwarded ++ t.unread = source.bytes) (hstep : arrive s = some t) :
    Consistent source t := by
  rw [IdleHeartbeat.arrive] at hstep
  split at hstep
  · next hpending =>
      have hclosed : s.closed = none := by
        rw [hcons.closed, if_neg (by simp [hpending])]
      have hstopped : s.stopped = false := by
        rw [← Bool.not_eq_true]
        exact fun hstopped => (hcons.exhausted hstopped).2 hpending
      cases hupstream : s.upstream with
      | nil =>
          simp only [hupstream] at hstep
          split at hstep
          · cases hstep
            refine Consistent.settle (s := { s with upstream := [], stopped := true })
              hcons.outcome hforwarded (fun _ => rfl) hclosed ?_ ?_
            · intro outcome hresult
              cases hresult
              exact ⟨rfl, rfl⟩
            · intro bytes hresult
              cases hresult
          · next hidle =>
              cases hstep
              exact {
                outcome := hcons.outcome
                waiting := fun hpulling => absurd hpulling hidle
                forwarded := hforwarded
                exhausted := fun _ => ⟨rfl, by simp⟩
                ending := fun _ _ => rfl
                closed := by simp [hclosed]
                found := fun _ _ => rfl }
      | cons chunk rest =>
          simp only [hupstream] at hstep
          split at hstep
          · cases hstep
            refine Consistent.settle (s := { s with upstream := rest }) hcons.outcome hforwarded
              (fun hend => absurd hend (by simp [hstopped])) hclosed ?_ fun _ _ => hstopped
            intro outcome hresult
            cases hresult
          · next hidle =>
              cases hstep
              exact {
                outcome := hcons.outcome
                waiting := fun hpulling => absurd hpulling hidle
                forwarded := hforwarded
                exhausted := fun hend => absurd hend (by simp [hstopped])
                ending := fun hend => absurd hend (by simp [hstopped])
                closed := by simp [hclosed]
                found := fun outcome hpending => by cases hpending }
  · cases hstep

/-- **The bytes.** Every step keeps what is known of the stream. -/
theorem Consistent.step {source : Source} {s t : State} {action : Action}
    (hcons : Consistent source s) (hstep : (machine source).step s action = some t) :
    Consistent source t := by
  have hforwarded : t.forwarded ++ t.unread = source.bytes :=
    (step_forwards hcons hstep).forwarded.trans hcons.forwarded
  cases action with
  | pull => exact hcons.pull hforwarded hstep
  | arrive => exact hcons.arrive hforwarded hstep
  | timeout =>
      change timeout s = some t at hstep
      rw [timeout] at hstep
      split at hstep
      · cases hstep
        exact { hcons with
          waiting := fun hpulling => by cases hpulling
          forwarded := hforwarded }
      · cases hstep
  | take =>
      change take s = some t at hstep
      rw [take] at hstep
      split at hstep
      · next emission rest hqueue =>
          cases hstep
          exact { hcons with
            waiting := fun hpulling => absurd (hcons.waiting hpulling).2 (by simp [hqueue])
            forwarded := hforwarded }
      · cases hstep

/-! ## Records -/

/-- How many lines the output makes of the source. -/
def State.lineCount (s : State) : ℕ := (pieces newline (s.output ++ s.unread)).length

/-- A step keeps the lines, or cuts one in two. -/
theorem step_lineCount {source : Source} {s t : State} {action : Action}
    (hcons : Consistent source s) (hstep : (machine source).step s action = some t) :
    t.lineCount = s.lineCount + if BetweenRecords s action then 0 else 1 := by
  have houtput := (step_forwards hcons hstep).output
  rw [State.lineCount, houtput, State.lineCount]
  cases action with
  | timeout =>
      rw [Action.sent, List.append_assoc, List.singleton_append, length_pieces_insert]
      rfl
  | pull => simp [Action.sent, BetweenRecords]
  | arrive => simp [Action.sent, BetweenRecords]
  | take => simp [Action.sent, BetweenRecords]

/-- A step between records keeps the lines themselves. -/
theorem step_pieces {source : Source} {s t : State} {action : Action}
    (hcons : Consistent source s) (hbetween : BetweenRecords s action = true)
    (hstep : (machine source).step s action = some t) :
    pieces newline (t.output ++ t.unread) = pieces newline (s.output ++ s.unread) := by
  rw [(step_forwards hcons hstep).output]
  cases action with
  | timeout =>
      rw [Action.sent, List.append_assoc, List.singleton_append, pieces_append_cons,
        pieces_append_of_atBoundary hbetween]
  | pull => simp [Action.sent]
  | arrive => simp [Action.sent]
  | take => simp [Action.sent]

theorem start_bytes (source : Source) :
    (start source).output ++ (start source).unread = source.bytes := by
  simp [start, State.output, State.emitted, State.unread, Source.bytes]

/-- The records of the output are those of the source exactly where the lines are. -/
theorem records_output_iff {blank : List UInt8 → Bool} {source : Source} {t : State}
    (hempty : blank [] = true) (hnoBlank : NoBlankLines newline blank source.bytes)
    (hcons : Consistent source t) :
    records newline blank (t.output ++ t.unread) = records newline blank source.bytes ↔
      pieces newline (t.output ++ t.unread) = pieces newline source.bytes := by
  apply records_eq_iff hempty hnoBlank
  rw [← hcons.forwarded, List.filter_append, List.filter_append, filter_output]

/-- **Transparency.** For a source without blank lines, a run of the stream is transparent exactly
where each of its heartbeats is sent between two records. -/
theorem transparent_iff (blank : List UInt8 → Bool) (hempty : blank [] = true) (source : Source)
    (hnoBlank : NoBlankLines newline blank source.bytes) (actions : List Action) (t : State)
    (hrun : (machine source).exec (start source) actions = some t) :
    Transparent blank source t ↔
      (machine source).Meets (fun s action => BetweenRecords s action = true) (start source)
        actions := by
  have hstep : ∀ s action t, Consistent source s → (machine source).step s action = some t →
      Consistent source t := fun s action t hcons hstep => hcons.step hstep
  have hinitial := Consistent.initial source
  have hcons : Consistent source t :=
    (machine source).exec_invariant (G := fun _ _ => True)
      (fun s action t hs _ hstep => hs.step hstep) hinitial
      ((machine source).meets_true _ _) hrun
  have hrecords := records_output_iff hempty hnoBlank hcons
  constructor
  · rintro ⟨hsame, _, _, _⟩
    apply (machine source).meets_of_measure (J := Consistent source) (μ := State.lineCount) hstep
      _ _ hinitial hrun
    · rw [State.lineCount, State.lineCount, hrecords.mp hsame, start_bytes]
    · intro s action t hs hstep
      rw [step_lineCount hs hstep]
      exact Nat.le_add_right _ _
    · intro s action t hs hstep hcount
      rw [step_lineCount hs hstep] at hcount
      by_contra hbetween
      rw [if_neg hbetween] at hcount
      omega
  · intro hmeets
    have hpieces : Consistent source t ∧
        pieces newline (t.output ++ t.unread) = pieces newline source.bytes := by
      apply (machine source).exec_invariant
        (I := fun s => Consistent source s ∧
          pieces newline (s.output ++ s.unread) = pieces newline source.bytes) _ _ hmeets hrun
      · rintro s action t ⟨hs, hsame⟩ hbetween hstep
        exact ⟨hs.step hstep, (step_pieces hs hbetween hstep).trans hsame⟩
      · exact ⟨hinitial, by rw [start_bytes]⟩
    refine ⟨hrecords.mpr hpieces.2, hcons.forwarded, hcons.closed, ?_⟩
    intro hclosed
    have hend : t.stopped = true ∧ t.pending = none := by
      by_contra hnot
      rw [hcons.closed, if_neg hnot] at hclosed
      exact hclosed rfl
    rw [State.unread, hend.2, (hcons.exhausted hend.1).1]
    rfl

/-- A line of white space. -/
def isBlank (line : List UInt8) : Bool := line.all fun byte => byte ∈ [32, 9, 13]

/-- The records 10 and 20, in chunks of which the first ends within the first record. -/
def sampleSource : Source where
  chunks := [[49], [48, 10, 50, 48, 10]]
  outcome := .ended

/-- The timer fires after the first record has arrived whole, and the source ends. -/
def betweenRun : List Action :=
  [.pull, .arrive, .take, .pull, .arrive, .take, .pull, .timeout, .take, .pull, .arrive]

/-- The timer fires while a record is half sent. -/
def withinRun : List Action :=
  [.pull, .arrive, .take, .pull, .timeout, .take, .pull, .arrive, .take, .pull, .arrive]

theorem transparent_iff_betweenRun :
    isBlank [] = true ∧ NoBlankLines newline isBlank sampleSource.bytes ∧
      ∃ t, (machine sampleSource).exec (start sampleSource) betweenRun = some t ∧
        (Transparent isBlank sampleSource t ↔
          (machine sampleSource).Meets (fun s action => BetweenRecords s action = true)
            (start sampleSource) betweenRun) := by
  have hnoBlank : NoBlankLines newline isBlank sampleSource.bytes := by
    unfold NoBlankLines
    decide +kernel
  have hrun : ((machine sampleSource).exec (start sampleSource) betweenRun).isSome = true := by
    decide +kernel
  obtain ⟨t, ht⟩ := Option.isSome_iff_exists.mp hrun
  exact ⟨rfl, hnoBlank, t, ht, transparent_iff isBlank rfl sampleSource hnoBlank betweenRun t ht⟩

/-- A heartbeat cuts a record in two. -/
theorem heartbeat_cuts_record :
    ¬ ∀ (source : Source) (actions : List Action) (t : State),
      NoBlankLines newline isBlank source.bytes →
        (machine source).exec (start source) actions = some t → Transparent isBlank source t := by
  intro hall
  have hnoBlank : NoBlankLines newline isBlank sampleSource.bytes := by
    unfold NoBlankLines
    decide +kernel
  have hbroken : ∃ t ∈ (machine sampleSource).exec (start sampleSource) withinRun,
      records newline isBlank (t.output ++ t.unread) ≠
        records newline isBlank sampleSource.bytes := by
    decide +kernel
  obtain ⟨t, ht, hne⟩ := hbroken
  exact hne (hall sampleSource withinRun t hnoBlank ht).records

end Eveland.IdleHeartbeat
