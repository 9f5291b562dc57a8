/-
# Heartbeats and capacity samples

Workers publish their heartbeat and the measurements of their host as metrics,
and metrics are delivered at least once: a batch may come twice, and an old one
after a newer one. The store keeps one heartbeat for each worker and one sample
for each worker and instant, and prunes old samples.

What the health page reads of it does not depend on how the deliveries came. The
heartbeats are, for each worker, the newest delivered, and the samples behind the
cutoff of every pruning are the measurements delivered for that time.
-/

import Mathlib.Data.List.Induction
import Mathlib.Order.Nat
import Eveland.Foundations.NewestRows

namespace Eveland.InstanceHealth

/-! ## The tables -/

/-- Times are milliseconds. -/
structure WorkerHeartbeat where
  workerId : String
  startedAt : ℕ
  observedAt : ℕ
  intervalMs : ℕ
  lastTickDurationMs : ℕ
  lastError : Option String
  maxConcurrentHeavyJobs : Option ℕ
  deriving DecidableEq, Repr

/-- What a worker measured of its host at an instant. The columns that hold the
measurement are no concern of the store. -/
structure Measurement (μ : Type*) where
  workerId : String
  observedAt : ℕ
  measured : μ
  deriving DecidableEq, Repr

structure HostMetricSample (μ : Type*) extends Measurement μ where
  id : String
  deriving DecidableEq, Repr

variable {μ : Type*}

/-- The unique index of the samples. -/
def Measurement.place (m : Measurement μ) : String × ℕ := (m.workerId, m.observedAt)

structure State (μ : Type*) where
  heartbeats : List WorkerHeartbeat
  samples : List (HostMetricSample μ)

def State.empty : State μ := ⟨[], []⟩

/-- A heartbeat replaces that of its worker unless that is newer. -/
def State.upsertWorkerHeartbeat (s : State μ) (heartbeat : WorkerHeartbeat) : State μ :=
  { s with
    heartbeats := NewestRows.upsertNewest WorkerHeartbeat.workerId WorkerHeartbeat.observedAt
      heartbeat s.heartbeats }

/-- A measurement replaces the one with its worker and instant, which keeps its id. -/
def State.recordHostMetric (s : State μ) (id : String) (m : Measurement μ) : State μ :=
  { s with
    samples := Table.upsertWhere (fun row => row.place = m.place)
      (fun row => { row with measured := m.measured }) { m with id } s.samples }

def State.pruneHostMetrics (s : State μ) (before : ℕ) : State μ :=
  { s with samples := s.samples.filter fun row => ¬row.observedAt < before }

inductive Action (μ : Type*)
  | heartbeat (heartbeat : WorkerHeartbeat)
  | metric (id : String) (measurement : Measurement μ)
  | prune (before : ℕ)

def State.apply (s : State μ) : Action μ → State μ
  | .heartbeat heartbeat => s.upsertWorkerHeartbeat heartbeat
  | .metric id measurement => s.recordHostMetric id measurement
  | .prune before => s.pruneHostMetrics before

/-- The store after a list of calls. -/
def run (actions : List (Action μ)) : State μ := actions.foldl State.apply State.empty

theorem run_concat (actions : List (Action μ)) (a : Action μ) :
    run (actions ++ [a]) = (run actions).apply a := by
  simp [run]

/-- The heartbeats delivered. -/
def heartbeatsOf (actions : List (Action μ)) : List WorkerHeartbeat :=
  actions.filterMap fun
    | .heartbeat heartbeat => some heartbeat
    | _ => none

/-- The measurements delivered. -/
def measurementsOf (actions : List (Action μ)) : List (Measurement μ) :=
  actions.filterMap fun
    | .metric _ measurement => some measurement
    | _ => none

/-- The cutoffs of the prunings. -/
def cutoffsOf (actions : List (Action μ)) : List ℕ :=
  actions.filterMap fun
    | .prune before => some before
    | _ => none

@[simp]
theorem heartbeatsOf_append (before after : List (Action μ)) :
    heartbeatsOf (before ++ after) = heartbeatsOf before ++ heartbeatsOf after :=
  List.filterMap_append

@[simp]
theorem measurementsOf_append (before after : List (Action μ)) :
    measurementsOf (before ++ after) = measurementsOf before ++ measurementsOf after :=
  List.filterMap_append

@[simp]
theorem cutoffsOf_append (before after : List (Action μ)) :
    cutoffsOf (before ++ after) = cutoffsOf before ++ cutoffsOf after :=
  List.filterMap_append

/-- The measurements the store holds. -/
def State.measurements (s : State μ) : List (Measurement μ) :=
  s.samples.map HostMetricSample.toMeasurement

/-! ## Heartbeats -/

/-- The heartbeats are the newest of each worker. -/
theorem newest_run (actions : List (Action μ)) :
    NewestRows.Newest WorkerHeartbeat.workerId WorkerHeartbeat.observedAt
      (heartbeatsOf actions) (run actions).heartbeats := by
  induction actions using List.reverseRecOn with
  | nil => exact NewestRows.Newest.nil _ _
  | append_singleton actions a ih =>
      rw [run_concat, heartbeatsOf_append]
      cases a with
      | heartbeat heartbeat => exact ih.upsert heartbeat
      | metric id measurement =>
          show NewestRows.Newest _ _ (heartbeatsOf actions ++ []) (run actions).heartbeats
          rw [List.append_nil]
          exact ih
      | prune before =>
          show NewestRows.Newest _ _ (heartbeatsOf actions ++ []) (run actions).heartbeats
          rw [List.append_nil]
          exact ih

/-! ## Samples -/

/-- Two measurements for one worker and instant are the same. -/
def Agree (measurements : List (Measurement μ)) : Prop :=
  ∀ first ∈ measurements, ∀ second ∈ measurements, first.place = second.place → first = second

theorem mem_recordHostMetric {s : State μ} {id : String} {m other : Measurement μ}
    (h : other ∈ (s.recordHostMetric id m).measurements) :
    other ∈ s.measurements ∨ other = m := by
  obtain ⟨row, hrow, rfl⟩ := List.mem_map.mp h
  simp only [State.recordHostMetric, Table.upsertWhere] at hrow
  split at hrow
  · rcases Table.mem_updateWhere.mp hrow with ⟨hold, _⟩ | ⟨old, hold, hplace, rfl⟩
    · exact Or.inl (List.mem_map_of_mem hold)
    · right
      have heq := of_decide_eq_true hplace
      simp only [Measurement.place, Prod.mk.injEq] at heq
      cases m
      simp_all
  · rcases List.mem_append.mp hrow with hold | hnew
    · exact Or.inl (List.mem_map_of_mem hold)
    · right
      rw [List.mem_singleton.mp hnew]

/-- The measurement is held after it is recorded. -/
theorem mem_recordHostMetric_self (s : State μ) (id : String) (m : Measurement μ) :
    m ∈ (s.recordHostMetric id m).measurements := by
  simp only [State.measurements, State.recordHostMetric, Table.upsertWhere]
  split
  next hany =>
    obtain ⟨old, hold, hplace⟩ := List.any_eq_true.mp hany
    have heq := of_decide_eq_true hplace
    simp only [Measurement.place, Prod.mk.injEq] at heq
    apply List.mem_map.mpr
    refine ⟨{ old with measured := m.measured }, ?_, ?_⟩
    · exact Table.mem_updateWhere.mpr (Or.inr ⟨old, hold, hplace, rfl⟩)
    · cases m
      simp_all
  · apply List.mem_map.mpr
    exact ⟨{ m with id }, List.mem_append_right _ (List.mem_singleton_self _), rfl⟩

/-- A measurement for another place stays. -/
theorem mem_recordHostMetric_of_ne {s : State μ} {m other : Measurement μ} (id : String)
    (hother : other ∈ s.measurements) (hplace : other.place ≠ m.place) :
    other ∈ (s.recordHostMetric id m).measurements := by
  obtain ⟨row, hrow, rfl⟩ := List.mem_map.mp hother
  simp only [State.measurements, State.recordHostMetric, Table.upsertWhere]
  split
  · exact List.mem_map_of_mem
      (Table.mem_updateWhere_of_not hrow (decide_eq_false hplace))
  · exact List.mem_map_of_mem (List.mem_append_left _ hrow)

/-- What the store holds was delivered. -/
theorem mem_measurementsOf_of_mem {actions : List (Action μ)} {m : Measurement μ}
    (h : m ∈ (run actions).measurements) : m ∈ measurementsOf actions := by
  induction actions using List.reverseRecOn generalizing m with
  | nil => cases h
  | append_singleton actions a ih =>
      rw [run_concat] at h
      rw [measurementsOf_append]
      cases a with
      | heartbeat heartbeat => exact List.mem_append_left _ (ih h)
      | metric id measurement =>
          rcases mem_recordHostMetric h with hold | rfl
          · exact List.mem_append_left _ (ih hold)
          · exact List.mem_append_right _ (List.mem_singleton_self _)
      | prune before =>
          obtain ⟨row, hrow, rfl⟩ := List.mem_map.mp h
          have hheld : row.toMeasurement ∈ (run actions).measurements :=
            List.mem_map_of_mem (List.mem_of_mem_filter hrow)
          exact List.mem_append_left _ (ih hheld)

/-- What was delivered behind the cutoffs is held. -/
theorem mem_measurements_of_delivered {actions : List (Action μ)} {since : ℕ}
    (hagree : Agree (measurementsOf actions))
    (hcutoffs : ∀ before ∈ cutoffsOf actions, before ≤ since)
    {m : Measurement μ} (hm : m ∈ measurementsOf actions) (hsince : since ≤ m.observedAt) :
    m ∈ (run actions).measurements := by
  induction actions using List.reverseRecOn generalizing m with
  | nil => cases hm
  | append_singleton actions a ih =>
      rw [run_concat]
      rw [measurementsOf_append] at hm hagree
      rw [cutoffsOf_append] at hcutoffs
      have hagreeBefore : Agree (measurementsOf actions) := by
        intro first hfirst second hsecond
        exact hagree first (List.mem_append_left _ hfirst) second (List.mem_append_left _ hsecond)
      have hheld : m ∈ measurementsOf actions → m ∈ (run actions).measurements := by
        intro hbefore
        exact ih hagreeBefore (fun before h => hcutoffs before (List.mem_append_left _ h)) hbefore
          hsince
      cases a with
      | heartbeat heartbeat =>
          rcases List.mem_append.mp hm with hbefore | hnew
          · exact hheld hbefore
          · cases hnew
      | metric id measurement =>
          by_cases hplace : m.place = measurement.place
          · have hlast : measurement ∈ measurementsOf actions ++ [measurement] :=
              List.mem_append_right _ (List.mem_singleton_self _)
            obtain rfl : m = measurement := hagree m hm measurement hlast hplace
            exact mem_recordHostMetric_self _ id m
          · apply mem_recordHostMetric_of_ne id _ hplace
            rcases List.mem_append.mp hm with hbefore | hnew
            · exact hheld hbefore
            · rw [List.mem_singleton.mp hnew] at hplace
              exact absurd rfl hplace
      | prune before =>
          rcases List.mem_append.mp hm with hbefore | hnew
          · obtain ⟨row, hrow, rfl⟩ := List.mem_map.mp (hheld hbefore)
            have hcutoff : before ≤ since := 
              hcutoffs before (List.mem_append_right _ (List.mem_singleton_self _))
            apply List.mem_map_of_mem
            apply List.mem_filter.mpr
            exact ⟨hrow, by simpa using hcutoff.trans hsince⟩
          · cases hnew

/-! ## Any order of deliveries -/

def earlier : WorkerHeartbeat := ⟨"worker", 0, 10, 5000, 1, none, some 2⟩

def later : WorkerHeartbeat := ⟨"worker", 0, 20, 5000, 1, none, some 2⟩

def sampled : Measurement String := ⟨"worker", 20, "load"⟩

inductive InstanceHealthStatus
  | healthy | warning | critical | unavailable
  deriving DecidableEq, Repr

structure Summary where
  status : InstanceHealthStatus
  message : String
  observedAt : Option ℕ
  deriving DecidableEq, Repr

def staleAfterMs (heartbeat : WorkerHeartbeat) : ℕ := max 60000 (heartbeat.intervalMs * 6)

def summarizeWorkerHealth (heartbeat : Option WorkerHeartbeat) (now : ℕ) : Summary :=
  match heartbeat with
  | none => ⟨.unavailable, "Worker has not published a heartbeat.", none⟩
  | some heartbeat =>
      if heartbeat.observedAt + staleAfterMs heartbeat < now then
        ⟨.unavailable, "Worker heartbeat is stale.", some heartbeat.observedAt⟩
      else
        match heartbeat.lastError.filter fun message => message ≠ "" with
        | some lastError => ⟨.warning, lastError, some heartbeat.observedAt⟩
        | none => ⟨.healthy, "Worker heartbeat is current.", some heartbeat.observedAt⟩

/-- `listWorkerHeartbeats`: newest first, those of one instant in any order. -/
def Listed (rows listed : List WorkerHeartbeat) : Prop :=
  listed.Perm rows ∧ listed.Pairwise fun a b => b.observedAt ≤ a.observedAt

/-- Whatever is delivered after a heartbeat, old or new: for a minute from it on
the page does not show the workers as unavailable. -/
theorem recent_worker_not_unavailable (actions : List (Action μ)) (heartbeat : WorkerHeartbeat)
    (hdelivered : heartbeat ∈ heartbeatsOf actions) (listed : List WorkerHeartbeat)
    (hlisted : Listed (run actions).heartbeats listed) (now : ℕ)
    (hnow : now ≤ heartbeat.observedAt + 60000) :
    (summarizeWorkerHealth listed.head? now).status ≠ .unavailable := by
  obtain ⟨row, hrow, _, hrank⟩ := (newest_run actions).newest heartbeat hdelivered
  have hmem : row ∈ listed := hlisted.1.mem_iff.mpr hrow
  cases listed with
  | nil => cases hmem
  | cons latest rest =>
      have hlatest : row.observedAt ≤ latest.observedAt := by
        rcases List.mem_cons.mp hmem with rfl | hrest
        · exact le_refl _
        · exact (List.pairwise_cons.mp hlisted.2).1 row hrest
      have hstale : 60000 ≤ staleAfterMs latest := le_max_left _ _
      have hcurrent : ¬latest.observedAt + staleAfterMs latest < now := by omega
      simp only [List.head?_cons, summarizeWorkerHealth, if_neg hcurrent]
      split <;> simp

end Eveland.InstanceHealth
