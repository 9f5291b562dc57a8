/-
# The daily model catalog

Every build needs the catalog of models, and the worker hands each the copy it
keeps in its data directory. It refreshes that copy at most once a day. Builds
run concurrently, so a load in progress is shared by all that ask for the same
file meanwhile; a load suspends at the read, at the request and at the write,
and whatever other builds do happens between these.

The copy on disk is described by the value it holds as JSON and by the instant
its `fetchedAt` names. Nothing is assumed of the file a worker finds when it
starts. Against the clock two things are assumed along a run, and stated there:
that it does not go back, and that nobody else writes the file.
-/

import Mathlib.Logic.Function.Basic
import Eveland.Core.Json
import Eveland.Foundations.Machine

namespace Eveland.ModelCatalog

/-! ## Catalogs -/

def modelCatalogMaxAgeMs : ℕ := 24 * 60 * 60 * 1000

/-- A text of at least one character. -/
def isNonEmptyString : Json → Bool
  | .str value => value ≠ ""
  | _ => false

def isCatalogModel (value : Json) : Bool :=
  Json.required isNonEmptyString (value.field "slug") &&
    Json.required (Json.isArrayOf fun _ => true) (value.field "providers")

/-- The check of `providerAliases`: every value of the object is a text. An array
is an object too. -/
def areProviderAliases : Json → Bool
  | .obj fields => fields.all fun entry => Json.isString entry.2
  | .arr elements => elements.all Json.isString
  | _ => false

/-- What the gateway answers and the file repeats, checked. -/
structure CatalogBody where
  models : List Json
  providerAliases : Json
  modelsOk : models.all isCatalogModel = true
  aliasesOk : areProviderAliases providerAliases = true

@[ext]
structure CachedModelCatalog where
  fetchedAt : ℕ
  body : CatalogBody

def readCatalogBody (value : Json) : Option CatalogBody :=
  match value.field "models", value.field "providerAliases" with
  | some (.arr models), some providerAliases =>
      if hmodels : models.all isCatalogModel = true then
        if haliases : areProviderAliases providerAliases = true then
          some ⟨models, providerAliases, hmodels, haliases⟩
        else none
      else none
  | _, _ => none

/-- The cache file: its JSON, and the instant of its `fetchedAt` where that is a
text that names one. -/
structure CacheFile where
  value : Json
  fetchedAt : Option ℕ

/-- What `readCachedCatalog` makes of the file; `none` is a file that is missing
or is no JSON. -/
def readCachedCatalog (file : Option CacheFile) : Option CachedModelCatalog := do
  let file ← file
  let body ← readCatalogBody file.value
  let fetchedAt ← file.fetchedAt
  return ⟨fetchedAt, body⟩

/-- The file `writeAtomically` leaves. -/
def CachedModelCatalog.document (catalog : CachedModelCatalog) : CacheFile where
  value := .obj [("models", .arr catalog.body.models),
    ("providerAliases", catalog.body.providerAliases)]
  fetchedAt := some catalog.fetchedAt

/-- What was written is read back: the copy passes the check it is read with. -/
@[simp]
theorem readCachedCatalog_document (catalog : CachedModelCatalog) :
    readCachedCatalog (some catalog.document) = some catalog := by
  obtain ⟨fetchedAt, models, providerAliases, modelsOk, aliasesOk⟩ := catalog
  have hbody : readCatalogBody (.obj [("models", .arr models),
      ("providerAliases", providerAliases)]) =
      some ⟨models, providerAliases, modelsOk, aliasesOk⟩ := by
    simp [readCatalogBody, Json.field, modelsOk, aliasesOk]
  simp [readCachedCatalog, CachedModelCatalog.document, hbody]

/-- How the request to the gateway came out. -/
inductive Response
  | threw (message : String)
  | answered (status : ℕ) (body : Json)

/-- `fetchCatalog`, from the response on. -/
def Response.catalogBody : Response → Except String CatalogBody
  | .threw message => .error message
  | .answered status body =>
      if 200 ≤ status ∧ status < 300 then
        match readCatalogBody body with
        | some catalog => .ok catalog
        | none =>
            .error "AI Gateway model catalog response did not match the expected shape."
      else .error s!"AI Gateway model catalog request failed with HTTP {status}."

inductive ModelCatalogLoadResult
  | cache (catalog : CachedModelCatalog)
  | fetched (catalog : CachedModelCatalog)
  | staleCache (catalog : CachedModelCatalog) (error : String)
  | unavailable (error : String)

/-- The catalog a build is handed. -/
def ModelCatalogLoadResult.catalog? : ModelCatalogLoadResult → Option CachedModelCatalog
  | .cache catalog => some catalog
  | .fetched catalog => some catalog
  | .staleCache catalog _ => some catalog
  | .unavailable _ => none

/-- The answer where the refresh failed. -/
def afterFailure (cached : Option CachedModelCatalog) (error : String) : ModelCatalogLoadResult :=
  match cached with
  | none => .unavailable error
  | some catalog => .staleCache catalog error

@[simp]
theorem afterFailure_catalog? (cached : Option CachedModelCatalog) (error : String) :
    (afterFailure cached error).catalog? = cached := by
  cases cached <;> rfl

/-! ## Loads in progress -/

/-- Where a load is suspended. -/
inductive Stage
  | reading
  | stale (cached : Option CachedModelCatalog)
  | fetching (fetchedAt : ℕ) (cached : Option CachedModelCatalog)
  | writing (catalog : CachedModelCatalog) (cached : Option CachedModelCatalog)

/-- An entry of `inflight`: the load, and the builds that wait for it. -/
structure Load where
  stage : Stage
  callers : List ℕ

/-- What an observer of the worker could note down. -/
inductive Event
  | called (file : String) (caller : ℕ)
  | fetched (file : String) (fetchedAt : ℕ)
  | cached (file : String) (fetchedAt : ℕ)
  | answered (file : String) (caller : ℕ) (result : ModelCatalogLoadResult)

structure State where
  clock : ℕ
  files : String → Option CacheFile
  inflight : String → Option Load
  log : List Event

inductive Action
  /-- A build asks for the catalog. -/
  | call (file : String) (caller : ℕ)
  /-- The file has been read. -/
  | read (file : String)
  /-- The request goes out. -/
  | fetch (file : String)
  | respond (file : String) (response : Response)
  /-- The write ends, with its error if it failed. -/
  | written (file : String) (error : Option String)
  | clock (now : ℕ)
  /-- Somebody else replaces the file. -/
  | replaced (file : String) (contents : Option CacheFile)

/-- The load goes on to its next stage. -/
def State.advance (s : State) (file : String) (callers : List ℕ) (stage : Stage) : State :=
  { s with inflight := Function.update s.inflight file (some ⟨stage, callers⟩) }

/-- `inflight.delete`. -/
def State.leave (s : State) (file : String) : State :=
  { s with inflight := Function.update s.inflight file none }

def State.answer (s : State) (file : String) (callers : List ℕ)
    (result : ModelCatalogLoadResult) : State :=
  { s with log := s.log ++ callers.map fun caller => .answered file caller result }

/-- The load ends: it leaves `inflight`, and all that waited get its result. -/
def State.finish (s : State) (file : String) (callers : List ℕ)
    (result : ModelCatalogLoadResult) : State :=
  (s.leave file).answer file callers result

def State.noteCall (s : State) (file : String) (caller : ℕ) : State :=
  { s with log := s.log ++ [.called file caller] }

/-- `loadModelCatalog`: whoever comes while a load is pending waits for it. -/
def State.call (s : State) (file : String) (caller : ℕ) : State :=
  match s.inflight file with
  | some load => (s.noteCall file caller).advance file (load.callers ++ [caller]) load.stage
  | none => (s.noteCall file caller).advance file [caller] .reading

/-- The copy on disk is less than a day old. -/
def State.isFresh (s : State) (catalog : CachedModelCatalog) : Bool :=
  s.clock < catalog.fetchedAt + modelCatalogMaxAgeMs

/-- `loadModelCatalogOnce` once the file is read. -/
def State.read (s : State) (file : String) (callers : List ℕ) : State :=
  match readCachedCatalog (s.files file) with
  | some catalog =>
      if s.isFresh catalog then s.finish file callers (.cache catalog)
      else s.advance file callers (.stale (some catalog))
  | none => s.advance file callers (.stale none)

/-- The request goes out, stamped with the time. -/
def State.fetch (s : State) (file : String) (callers : List ℕ)
    (cached : Option CachedModelCatalog) : State :=
  { s.advance file callers (.fetching s.clock cached) with
    log := s.log ++ [.fetched file s.clock] }

def State.respond (s : State) (file : String) (callers : List ℕ) (fetchedAt : ℕ)
    (cached : Option CachedModelCatalog) (response : Response) : State :=
  match response.catalogBody with
  | .ok body => s.advance file callers (.writing ⟨fetchedAt, body⟩ cached)
  | .error message => s.finish file callers (afterFailure cached message)

/-- The new copy has taken the place of the old one. -/
def State.store (s : State) (file : String) (catalog : CachedModelCatalog) : State :=
  { s with
    files := Function.update s.files file (some catalog.document)
    log := s.log ++ [.cached file catalog.fetchedAt] }

def State.written (s : State) (file : String) (callers : List ℕ)
    (catalog : CachedModelCatalog) (cached : Option CachedModelCatalog)
    (error : Option String) : State :=
  match error with
  | none => (s.store file catalog).finish file callers (.fetched catalog)
  | some message => s.finish file callers (afterFailure cached message)

def step (s : State) : Action → Option State
  | .call file caller => some (s.call file caller)
  | .read file =>
      match s.inflight file with
      | some ⟨.reading, callers⟩ => some (s.read file callers)
      | _ => none
  | .fetch file =>
      match s.inflight file with
      | some ⟨.stale cached, callers⟩ => some (s.fetch file callers cached)
      | _ => none
  | .respond file response =>
      match s.inflight file with
      | some ⟨.fetching fetchedAt cached, callers⟩ =>
          some (s.respond file callers fetchedAt cached response)
      | _ => none
  | .written file error =>
      match s.inflight file with
      | some ⟨.writing catalog cached, callers⟩ =>
          some (s.written file callers catalog cached error)
      | _ => none
  | .clock now => some { s with clock := now }
  | .replaced file contents => some { s with files := Function.update s.files file contents }

/-- A worker starts with no load in progress, and with whatever files there are. -/
def machine : Machine State Action where
  init s := (∀ file, s.inflight file = none) ∧ s.log = []
  step := step

/-- The clock does not go back, and nobody else writes the files. -/
def Undisturbed (s : State) : Action → Prop
  | .clock now => s.clock ≤ now
  | .replaced _ _ => False
  | _ => True

instance (s : State) (a : Action) : Decidable (Undisturbed s a) := by
  cases a <;> unfold Undisturbed <;> infer_instance

/-! ## One entry at a time -/

@[simp]
theorem advance_inflight_self (s : State) (file : String) (callers : List ℕ) (stage : Stage) :
    (s.advance file callers stage).inflight file = some ⟨stage, callers⟩ :=
  Function.update_self _ _ _

theorem advance_inflight_of_ne (s : State) {file other : String} (h : other ≠ file)
    (callers : List ℕ) (stage : Stage) :
    (s.advance file callers stage).inflight other = s.inflight other :=
  Function.update_of_ne h _ _

@[simp]
theorem leave_inflight_self (s : State) (file : String) : (s.leave file).inflight file = none :=
  Function.update_self _ _ _

theorem leave_inflight_of_ne (s : State) {file other : String} (h : other ≠ file) :
    (s.leave file).inflight other = s.inflight other :=
  Function.update_of_ne h _ _

@[simp]
theorem store_files_self (s : State) (file : String) (catalog : CachedModelCatalog) :
    readCachedCatalog ((s.store file catalog).files file) = some catalog := by
  show readCachedCatalog (Function.update s.files file (some catalog.document) file) = _
  rw [Function.update_self]
  exact readCachedCatalog_document catalog

theorem store_files_of_ne (s : State) {file other : String} (h : other ≠ file)
    (catalog : CachedModelCatalog) : (s.store file catalog).files other = s.files other :=
  Function.update_of_ne h _ _

/-- The write and the end of its load are one step, in either order. -/
theorem store_finish (s : State) (file : String) (catalog : CachedModelCatalog)
    (callers : List ℕ) (result : ModelCatalogLoadResult) :
    (s.store file catalog).finish file callers result =
      ((s.leave file).store file catalog).answer file callers result := rfl

/-! ## What holds of one file -/

/-- A day has passed since the copy on disk, if there is one. -/
def Due (cached : Option CachedModelCatalog) (now : ℕ) : Prop :=
  ∀ catalog, cached = some catalog → catalog.fetchedAt + modelCatalogMaxAgeMs ≤ now

theorem Due.mono {cached : Option CachedModelCatalog} {now later : ℕ} (h : Due cached now)
    (hle : now ≤ later) : Due cached later :=
  fun catalog hc => Nat.le_trans (h catalog hc) hle

/-- A suspended load holds what the file still holds, and refreshes only what is
due. -/
def Stage.Ok (current : Option CachedModelCatalog) (clock : ℕ) : Stage → Prop
  | .reading => True
  | .stale cached => cached = current ∧ Due cached clock
  | .fetching fetchedAt cached => cached = current ∧ Due cached fetchedAt
  | .writing catalog cached => cached = current ∧ Due cached catalog.fetchedAt

theorem Stage.Ok.mono {current : Option CachedModelCatalog} {clock later : ℕ} {stage : Stage}
    (h : stage.Ok current clock) (hle : clock ≤ later) : stage.Ok current later := by
  cases stage with
  | stale cached => exact ⟨h.1, h.2.mono hle⟩
  | reading => trivial
  | fetching fetchedAt cached => exact h
  | writing catalog cached => exact h

/-- Every copy ever written is at most as new as the one on disk. -/
def NoNewer (log : List Event) (file : String) (current : Option CachedModelCatalog) : Prop :=
  ∀ u, Event.cached file u ∈ log →
    ∃ catalog, current = some catalog ∧ u ≤ catalog.fetchedAt

/-- A refresh is a day or more after every copy noted before it. -/
def Apart (a b : Event) : Prop :=
  ∀ file u v, a = .cached file u → b = .fetched file v → u + modelCatalogMaxAgeMs ≤ v

theorem apart_answered (a : Event) (file : String) (caller : ℕ)
    (result : ModelCatalogLoadResult) : Apart a (.answered file caller result) := by
  intro other u v _ hb
  cases hb

theorem apart_cached (a : Event) (file : String) (u : ℕ) : Apart a (.cached file u) := by
  intro other w v _ hb
  cases hb

/-- The builds that asked for a file, in order. -/
def calledFor (file : String) : List Event → List ℕ
  | [] => []
  | .called other caller :: rest =>
      if other = file then caller :: calledFor file rest else calledFor file rest
  | _ :: rest => calledFor file rest

/-- The builds that were answered, in order. -/
def answeredFor (file : String) : List Event → List ℕ
  | [] => []
  | .answered other caller _ :: rest =>
      if other = file then caller :: answeredFor file rest else answeredFor file rest
  | _ :: rest => answeredFor file rest

/-- The builds that wait for the pending load. -/
def State.waiting (s : State) (file : String) : List ℕ :=
  match s.inflight file with
  | some load => load.callers
  | none => []

/-- What holds of every file in every reachable state. -/
structure Daily (s : State) : Prop where
  stages : ∀ file load, s.inflight file = some load →
    load.stage.Ok (readCachedCatalog (s.files file)) s.clock
  noNewer : ∀ file, NoNewer s.log file (readCachedCatalog (s.files file))
  apart : s.log.Pairwise Apart

/-! ## What the operations keep -/

theorem Daily.advance {s : State} (h : Daily s) {file : String} {stage : Stage}
    (callers : List ℕ) (hstage : stage.Ok (readCachedCatalog (s.files file)) s.clock) :
    Daily (s.advance file callers stage) where
  stages other load hload := by
    by_cases hother : other = file
    · subst hother
      rw [advance_inflight_self] at hload
      cases hload
      exact hstage
    · rw [advance_inflight_of_ne s hother] at hload
      exact h.stages other load hload
  noNewer := h.noNewer
  apart := h.apart

theorem Daily.leave {s : State} (h : Daily s) (file : String) : Daily (s.leave file) where
  stages other load hload := by
    by_cases hother : other = file
    · subst hother
      rw [leave_inflight_self] at hload
      cases hload
    · rw [leave_inflight_of_ne s hother] at hload
      exact h.stages other load hload
  noNewer := h.noNewer
  apart := h.apart

theorem Daily.answer {s : State} (h : Daily s) (file : String) (callers : List ℕ)
    (result : ModelCatalogLoadResult) : Daily (s.answer file callers result) where
  stages := h.stages
  noNewer other u hu := by
    rcases List.mem_append.mp hu with hold | hnew
    · exact h.noNewer other u hold
    · obtain ⟨caller, _, hevent⟩ := List.mem_map.mp hnew
      cases hevent
  apart := by
    apply List.pairwise_append.mpr
    refine ⟨h.apart, ?_, ?_⟩
    · apply List.pairwise_of_forall_mem_list
      intro a _ b hb
      obtain ⟨caller, _, rfl⟩ := List.mem_map.mp hb
      exact apart_answered a file caller result
    · intro a _ b hb
      obtain ⟨caller, _, rfl⟩ := List.mem_map.mp hb
      exact apart_answered a file caller result

theorem Daily.finish {s : State} (h : Daily s) (file : String) (callers : List ℕ)
    (result : ModelCatalogLoadResult) : Daily (s.finish file callers result) :=
  (h.leave file).answer file callers result

theorem Daily.fetch {s : State} (h : Daily s) {file : String} {cached : Option CachedModelCatalog}
    (callers : List ℕ)
    (hstage : (Stage.stale cached).Ok (readCachedCatalog (s.files file)) s.clock) :
    Daily (s.fetch file callers cached) where
  stages := by
    have hnext : (Stage.fetching s.clock cached).Ok (readCachedCatalog (s.files file)) s.clock :=
      hstage
    exact (h.advance callers hnext).stages
  noNewer other u hu := by
    rcases List.mem_append.mp hu with hold | hnew
    · exact h.noNewer other u hold
    · cases List.mem_singleton.mp hnew
  apart := by
    apply List.pairwise_append.mpr
    refine ⟨h.apart, List.pairwise_singleton _ _, ?_⟩
    intro a ha b hb other u v hcached hfetched
    subst hcached
    rw [List.mem_singleton.mp hb] at hfetched
    cases hfetched
    obtain ⟨catalog, hcurrent, hle⟩ := h.noNewer file u ha
    have hdue := hstage.2 catalog (hstage.1.trans hcurrent)
    omega

/-- The new copy is newer than all before it. -/
theorem Daily.store {s : State} (h : Daily s) {file : String} {catalog : CachedModelCatalog}
    (hnone : s.inflight file = none)
    (hdue : Due (readCachedCatalog (s.files file)) catalog.fetchedAt) :
    Daily (s.store file catalog) where
  stages other load hload := by
    by_cases hother : other = file
    · subst hother
      rw [show (s.store other catalog).inflight other = none from hnone] at hload
      cases hload
    · rw [store_files_of_ne s hother]
      exact h.stages other load hload
  noNewer other u hu := by
    by_cases hother : other = file
    · subst hother
      refine ⟨catalog, store_files_self s other catalog, ?_⟩
      rcases List.mem_append.mp hu with hold | hnew
      · obtain ⟨before, hcurrent, hle⟩ := h.noNewer other u hold
        have hday := hdue before hcurrent
        omega
      · cases List.mem_singleton.mp hnew
        exact Nat.le_refl _
    · rw [store_files_of_ne s hother]
      rcases List.mem_append.mp hu with hold | hnew
      · exact h.noNewer other u hold
      · cases List.mem_singleton.mp hnew
        exact absurd rfl hother
  apart := by
    apply List.pairwise_append.mpr
    refine ⟨h.apart, List.pairwise_singleton _ _, ?_⟩
    intro a _ b hb
    rw [List.mem_singleton.mp hb]
    exact apart_cached a file catalog.fetchedAt

theorem Daily.written {s : State} (h : Daily s) {file : String} {catalog : CachedModelCatalog}
    {cached : Option CachedModelCatalog} (callers : List ℕ) (error : Option String)
    (hstage : (Stage.writing catalog cached).Ok (readCachedCatalog (s.files file)) s.clock) :
    Daily (s.written file callers catalog cached error) := by
  cases error with
  | none =>
      have hdue : Due (readCachedCatalog (s.files file)) catalog.fetchedAt :=
        hstage.1 ▸ hstage.2
      show Daily ((s.store file catalog).finish file callers (.fetched catalog))
      rw [store_finish]
      exact ((h.leave file).store (leave_inflight_self s file) hdue).answer file callers _
  | some message => exact h.finish file callers _

theorem Daily.clock {s : State} (h : Daily s) {now : ℕ} (hle : s.clock ≤ now) :
    Daily { s with clock := now } where
  stages file load hload := (h.stages file load hload).mono hle
  noNewer := h.noNewer
  apart := h.apart

theorem Daily.read {s : State} (h : Daily s) (file : String) (callers : List ℕ) :
    Daily (s.read file callers) := by
  unfold State.read
  split
  next catalog hcached =>
    split
    · exact h.finish file callers _
    next hfresh =>
      apply h.advance
      refine ⟨hcached.symm, ?_⟩
      intro other heq
      cases heq
      simpa [State.isFresh] using hfresh
  next hcached =>
    apply h.advance
    refine ⟨hcached.symm, ?_⟩
    intro other heq
    cases heq

theorem Daily.noteCall {s : State} (h : Daily s) (file : String) (caller : ℕ) :
    Daily (s.noteCall file caller) where
  stages := h.stages
  noNewer other u hu := by
    rcases List.mem_append.mp hu with hold | hnew
    · exact h.noNewer other u hold
    · cases List.mem_singleton.mp hnew
  apart := by
    apply List.pairwise_append.mpr
    refine ⟨h.apart, List.pairwise_singleton _ _, ?_⟩
    intro a _ b hb other u v _ hfetched
    rw [List.mem_singleton.mp hb] at hfetched
    cases hfetched

theorem Daily.call {s : State} (h : Daily s) (file : String) (caller : ℕ) :
    Daily (s.call file caller) := by
  have hnoted := h.noteCall file caller
  unfold State.call
  split
  next load hload => exact hnoted.advance _ (h.stages file load hload)
  next => exact hnoted.advance _ trivial

theorem Daily.respond {s : State} (h : Daily s) {file : String} {fetchedAt : ℕ}
    {cached : Option CachedModelCatalog} (callers : List ℕ) (response : Response)
    (hstage : (Stage.fetching fetchedAt cached).Ok (readCachedCatalog (s.files file)) s.clock) :
    Daily (s.respond file callers fetchedAt cached response) := by
  unfold State.respond
  split
  next body _ => exact h.advance callers hstage
  next => exact h.finish file callers _

/-- One undisturbed step keeps every refresh a day apart from the copies. -/
theorem Daily.step {s t : State} {a : Action} (h : Daily s) (ha : Undisturbed s a)
    (hstep : machine.step s a = some t) : Daily t := by
  change ModelCatalog.step s a = some t at hstep
  cases a with
  | call file caller =>
      obtain rfl := Option.some.inj hstep
      exact h.call file caller
  | read file =>
      simp only [ModelCatalog.step] at hstep
      split at hstep
      · obtain rfl := Option.some.inj hstep
        exact h.read file _
      · cases hstep
  | fetch file =>
      simp only [ModelCatalog.step] at hstep
      split at hstep
      next cached callers hload =>
        obtain rfl := Option.some.inj hstep
        exact h.fetch callers (h.stages file _ hload)
      · cases hstep
  | respond file response =>
      simp only [ModelCatalog.step] at hstep
      split at hstep
      next fetchedAt cached callers hload =>
        obtain rfl := Option.some.inj hstep
        exact h.respond callers response (h.stages file _ hload)
      · cases hstep
  | written file error =>
      simp only [ModelCatalog.step] at hstep
      split at hstep
      next catalog cached callers hload =>
        obtain rfl := Option.some.inj hstep
        exact h.written callers error (h.stages file _ hload)
      · cases hstep
  | clock now =>
      obtain rfl := Option.some.inj hstep
      exact h.clock ha
  | replaced file contents => exact ha.elim

theorem Daily.of_init {s : State} (hs : machine.init s) : Daily s where
  stages file load hload := by
    rw [hs.1 file] at hload
    cases hload
  noNewer file u hu := by
    rw [hs.2] at hu
    cases hu
  apart := by
    rw [hs.2]
    exact List.Pairwise.nil

/-! ## Who is answered -/

@[simp]
theorem calledFor_append (file : String) (before after : List Event) :
    calledFor file (before ++ after) = calledFor file before ++ calledFor file after := by
  induction before with
  | nil => rfl
  | cons event before ih =>
      cases event with
      | called other caller =>
          simp only [List.cons_append, calledFor, ih]
          split <;> rfl
      | fetched other at_ => exact ih
      | cached other at_ => exact ih
      | answered other caller result => exact ih

@[simp]
theorem answeredFor_append (file : String) (before after : List Event) :
    answeredFor file (before ++ after) = answeredFor file before ++ answeredFor file after := by
  induction before with
  | nil => rfl
  | cons event before ih =>
      cases event with
      | answered other caller result =>
          simp only [List.cons_append, answeredFor, ih]
          split <;> rfl
      | fetched other at_ => exact ih
      | cached other at_ => exact ih
      | called other caller => exact ih

theorem calledFor_answers (file other : String) (callers : List ℕ)
    (result : ModelCatalogLoadResult) :
    calledFor file (callers.map fun caller => .answered other caller result) = [] := by
  induction callers with
  | nil => rfl
  | cons caller callers ih => exact ih

theorem answeredFor_answers (file other : String) (callers : List ℕ)
    (result : ModelCatalogLoadResult) :
    answeredFor file (callers.map fun caller => .answered other caller result) =
      if other = file then callers else [] := by
  induction callers with
  | nil => simp [answeredFor]
  | cons caller callers ih =>
      simp only [List.map_cons, answeredFor, ih]
      split <;> rfl

/-- Whoever asked has been answered or waits, in the order of asking. -/
def Served (s : State) : Prop :=
  ∀ file, calledFor file s.log = answeredFor file s.log ++ s.waiting file

@[simp]
theorem waiting_advance_self (s : State) (file : String) (callers : List ℕ) (stage : Stage) :
    (s.advance file callers stage).waiting file = callers := by
  rw [State.waiting, advance_inflight_self]

theorem waiting_advance_of_ne (s : State) {file other : String} (h : other ≠ file)
    (callers : List ℕ) (stage : Stage) :
    (s.advance file callers stage).waiting other = s.waiting other := by
  rw [State.waiting, advance_inflight_of_ne s h, State.waiting]

theorem waiting_of_load {s : State} {file : String} {load : Load}
    (h : s.inflight file = some load) : s.waiting file = load.callers := by
  rw [State.waiting, h]

theorem Served.advance {s : State} (h : Served s) {file : String} {callers : List ℕ}
    (hwaiting : s.waiting file = callers) (stage : Stage) :
    Served (s.advance file callers stage) := by
  intro other
  by_cases hother : other = file
  · subst hother
    rw [waiting_advance_self, ← hwaiting]
    exact h other
  · rw [waiting_advance_of_ne s hother]
    exact h other

theorem Served.finish {s : State} (h : Served s) {file : String} {callers : List ℕ}
    (hwaiting : s.waiting file = callers) (result : ModelCatalogLoadResult) :
    Served (s.finish file callers result) := by
  intro other
  show calledFor other (s.log ++ _) = answeredFor other (s.log ++ _) ++ (s.leave file).waiting other
  rw [calledFor_append, calledFor_answers, answeredFor_append, answeredFor_answers, h other]
  by_cases hother : other = file
  · subst hother
    simp [State.waiting, hwaiting.symm]
  · rw [if_neg (Ne.symm hother), State.waiting, State.waiting, leave_inflight_of_ne s hother]
    simp

theorem Served.call {s : State} (h : Served s) (file : String) (caller : ℕ) :
    Served (s.call file caller) := by
  have hcalled : ∀ callers stage, s.waiting file = callers →
      Served ((s.noteCall file caller).advance file (callers ++ [caller]) stage) := by
    intro callers stage hwaiting other
    show calledFor other (s.log ++ [.called file caller]) =
      answeredFor other (s.log ++ [.called file caller]) ++ _
    rw [calledFor_append, answeredFor_append, h other]
    by_cases hother : other = file
    · subst hother
      simp [calledFor, answeredFor, hwaiting]
    · rw [waiting_advance_of_ne _ hother]
      simp [calledFor, answeredFor, Ne.symm hother, State.noteCall, State.waiting]
  unfold State.call
  split
  next load hload => exact hcalled load.callers load.stage (waiting_of_load hload)
  next hnone => exact hcalled [] .reading (by rw [State.waiting, hnone])

theorem Served.note {s : State} (h : Served s) {event : Event}
    (hcalled : ∀ file, calledFor file [event] = [])
    (hanswered : ∀ file, answeredFor file [event] = []) :
    Served { s with log := s.log ++ [event] } := by
  intro file
  rw [calledFor_append, answeredFor_append, hcalled, hanswered, List.append_nil, List.append_nil]
  exact h file

theorem Served.step {s t : State} {a : Action} (h : Served s)
    (hstep : machine.step s a = some t) : Served t := by
  change ModelCatalog.step s a = some t at hstep
  cases a with
  | call file caller =>
      obtain rfl := Option.some.inj hstep
      exact h.call file caller
  | read file =>
      simp only [ModelCatalog.step] at hstep
      split at hstep
      next callers hload =>
        obtain rfl := Option.some.inj hstep
        have hwaiting : s.waiting file = callers := waiting_of_load hload
        unfold State.read
        split
        · split
          · exact h.finish hwaiting _
          · exact h.advance hwaiting _
        · exact h.advance hwaiting _
      · cases hstep
  | fetch file =>
      simp only [ModelCatalog.step] at hstep
      split at hstep
      next cached callers hload =>
        obtain rfl := Option.some.inj hstep
        exact (h.advance (waiting_of_load hload) _).note (fun _ => rfl) fun _ => rfl
      · cases hstep
  | respond file response =>
      simp only [ModelCatalog.step] at hstep
      split at hstep
      next fetchedAt cached callers hload =>
        obtain rfl := Option.some.inj hstep
        have hwaiting : s.waiting file = callers := waiting_of_load hload
        unfold State.respond
        split
        · exact h.advance hwaiting _
        · exact h.finish hwaiting _
      · cases hstep
  | written file error =>
      simp only [ModelCatalog.step] at hstep
      split at hstep
      next catalog cached callers hload =>
        obtain rfl := Option.some.inj hstep
        have hwaiting : s.waiting file = callers := waiting_of_load hload
        cases error with
        | some message => exact h.finish hwaiting _
        | none =>
            have hstored : Served (s.store file catalog) := h.note (fun _ => rfl) fun _ => rfl
            exact hstored.finish hwaiting _
      · cases hstep
  | clock now =>
      obtain rfl := Option.some.inj hstep
      exact h
  | replaced file contents =>
      obtain rfl := Option.some.inj hstep
      exact h

theorem Served.of_init {s : State} (hs : machine.init s) : Served s := by
  intro file
  rw [hs.2, State.waiting, hs.1 file]
  rfl

/-! ## What is answered -/

/-- Every answer among these events carries the copy that the file holds. -/
def Current (files : String → Option CacheFile) (events : List Event) : Prop :=
  ∀ file caller result, Event.answered file caller result ∈ events →
    result.catalog? = readCachedCatalog (files file)

theorem current_answers {files : String → Option CacheFile} {file : String} {callers : List ℕ}
    {result : ModelCatalogLoadResult} (h : result.catalog? = readCachedCatalog (files file)) :
    Current files (callers.map fun caller => .answered file caller result) := by
  intro other caller answer hmem
  obtain ⟨_, _, hevent⟩ := List.mem_map.mp hmem
  cases hevent
  exact h

/-- The events a step adds. -/
def Adds (s t : State) : Prop :=
  ∃ events, t.log = s.log ++ events ∧ Current t.files events

theorem adds_nothing {s t : State} (h : t.log = s.log) : Adds s t :=
  ⟨[], by simp [h], by simp [Current]⟩

theorem adds_note {s t : State} {event : Event} (h : t.log = s.log ++ [event])
    (hevent : ∀ file caller result, event ≠ .answered file caller result) : Adds s t := by
  refine ⟨[event], h, ?_⟩
  intro file caller result hmem
  exact absurd (List.mem_singleton.mp hmem).symm (hevent file caller result)

theorem adds_finish (s : State) {file : String} (callers : List ℕ)
    {result : ModelCatalogLoadResult}
    (h : result.catalog? = readCachedCatalog (s.files file)) :
    Adds s (s.finish file callers result) :=
  ⟨_, rfl, current_answers h⟩

/-- In an undisturbed step, whoever is answered gets what the file then holds. -/
theorem Daily.adds {s t : State} {a : Action} (h : Daily s)
    (hstep : machine.step s a = some t) : Adds s t := by
  change ModelCatalog.step s a = some t at hstep
  cases a with
  | call file caller =>
      obtain rfl := Option.some.inj hstep
      have hlog : (s.call file caller).log = s.log ++ [.called file caller] := by
        unfold State.call
        split <;> rfl
      exact adds_note hlog (by simp)
  | read file =>
      simp only [ModelCatalog.step] at hstep
      split at hstep
      next callers hload =>
        obtain rfl := Option.some.inj hstep
        unfold State.read
        split
        next catalog hcached =>
          split
          · exact adds_finish s callers hcached.symm
          · exact adds_nothing rfl
        · exact adds_nothing rfl
      · cases hstep
  | fetch file =>
      simp only [ModelCatalog.step] at hstep
      split at hstep
      next cached callers hload =>
        obtain rfl := Option.some.inj hstep
        have hlog : (s.fetch file callers cached).log = s.log ++ [.fetched file s.clock] := rfl
        exact adds_note hlog (by simp)
      · cases hstep
  | respond file response =>
      simp only [ModelCatalog.step] at hstep
      split at hstep
      next fetchedAt cached callers hload =>
        obtain rfl := Option.some.inj hstep
        obtain ⟨hcurrent, _⟩ := h.stages file _ hload
        unfold State.respond
        split
        · exact adds_nothing rfl
        · apply adds_finish
          rw [afterFailure_catalog?, hcurrent]
      · cases hstep
  | written file error =>
      simp only [ModelCatalog.step] at hstep
      split at hstep
      next catalog cached callers hload =>
        obtain rfl := Option.some.inj hstep
        obtain ⟨hcurrent, _⟩ := h.stages file _ hload
        cases error with
        | some message =>
            apply adds_finish
            rw [afterFailure_catalog?, hcurrent]
        | none =>
            refine ⟨.cached file catalog.fetchedAt ::
              callers.map fun caller => .answered file caller (.fetched catalog), ?_, ?_⟩
            · show s.log ++ [Event.cached file catalog.fetchedAt] ++ _ = _
              simp
            · intro other caller result hmem
              rcases List.mem_cons.mp hmem with hevent | hmem
              · cases hevent
              · have hheld : (ModelCatalogLoadResult.fetched catalog).catalog? =
                    readCachedCatalog ((s.store file catalog).files file) :=
                  (store_files_self s file catalog).symm
                exact current_answers hheld other caller result hmem
      · cases hstep
  | clock now =>
      obtain rfl := Option.some.inj hstep
      exact adds_nothing rfl
  | replaced file contents =>
      obtain rfl := Option.some.inj hstep
      exact adds_nothing rfl

/-- What an undisturbed run keeps. -/
theorem daily_of_run {s t : State} {as : List Action} (h : Daily s ∧ Served s)
    (hundisturbed : machine.Meets Undisturbed s as) (hrun : machine.exec s as = some t) :
    Daily t ∧ Served t :=
  machine.exec_invariant (I := fun s => Daily s ∧ Served s)
    (fun _ _ _ h ha hstep => ⟨h.1.step ha hstep, h.2.step hstep⟩) h hundisturbed hrun

/-- Whatever builds ask, and however their loads interleave: after a copy was
written no request for the file goes out within a day of that copy's; everybody
who asked has been answered once or waits for the load in progress; and whoever
is answered by the next step gets the copy the file then holds, or none if it
holds none. -/
theorem catalog_refreshed_once_a_day (s₀ s t : State) (as : List Action) (a : Action)
    (hinit : machine.init s₀) (hrun : machine.exec s₀ as = some s)
    (hundisturbed : machine.Meets Undisturbed s₀ as) (ha : Undisturbed s a)
    (hstep : machine.step s a = some t) :
    t.log.Pairwise Apart ∧
      (∀ file, calledFor file t.log = answeredFor file t.log ++ t.waiting file) ∧
      ∃ events, t.log = s.log ++ events ∧
        ∀ file caller result, Event.answered file caller result ∈ events →
          result.catalog? = readCachedCatalog (t.files file) := by
  obtain ⟨hdaily, hserved⟩ :=
    daily_of_run ⟨Daily.of_init hinit, Served.of_init hinit⟩ hundisturbed hrun
  exact ⟨(hdaily.step ha hstep).apart, hserved.step hstep, hdaily.adds hstep⟩

/-! ## A run -/

def emptyCatalog : CatalogBody where
  models := []
  providerAliases := .obj []
  modelsOk := rfl
  aliasesOk := rfl

def start : State := ⟨0, fun _ => none, fun _ => none, []⟩

/-- Two builds share a refresh that ends with the copy in place. -/
def sharedRefresh : List Action :=
  [.call "catalog" 1, .read "catalog", .call "catalog" 2, .fetch "catalog", .clock 5,
    .respond "catalog" (.answered 200
      (.obj [("models", .arr []), ("providerAliases", .obj [])]))]

def refreshing : State := (machine.exec start sharedRefresh).getD start

def refreshed : State := (machine.step refreshing (.written "catalog" none)).getD refreshing

theorem catalog_refreshed_once_a_day_when_shared :
    refreshed.log.Pairwise Apart ∧
      (∀ file, calledFor file refreshed.log =
        answeredFor file refreshed.log ++ refreshed.waiting file) ∧
      ∃ events, refreshed.log = refreshing.log ++ events ∧
        ∀ file caller result, Event.answered file caller result ∈ events →
          result.catalog? = readCachedCatalog (refreshed.files file) :=
  catalog_refreshed_once_a_day start refreshing refreshed sharedRefresh (.written "catalog" none)
    ⟨fun _ => rfl, rfl⟩ rfl (by decide +kernel) trivial rfl

end Eveland.ModelCatalog
