/-
# What a build sees of the environment

A build gets the variables of the shared and of the project's environment, less the names that the
platform owns; the process that is started with the release gets every entry, secrets as well, and
what the platform reserves. A project's entry is the one that counts at run time, of whichever kind
it is, and the build looks at variables alone: so a project's secret hides a shared variable from
the process and not from the build.
-/

import Eveland.Worker.EnvironmentChanges

namespace Eveland.BuildVariables

open SharedEnvironment (Entry EntryKind)
open EnvironmentChanges (property)

/-! ## Names that the platform owns -/

/-- The keys of `RESERVED_RUNTIME_ENVIRONMENT_SOURCES`. -/
def RESERVED_RUNTIME_ENVIRONMENT_KEYS : List String :=
  ["EVELAND_IDENTITY_ISSUER", "EVELAND_IDENTITY_JWKS_URL", "EVELAND_MEMORY_ROOT",
    "EVELAND_MODEL_GATEWAY_KIND", "EVELAND_MODEL_GATEWAY_URL", "EVELAND_PROJECT_ID",
    "EVELAND_SANDBOX_MAX_CONCURRENT_PROCESSES", "EVELAND_SANDBOX_MAX_OUTPUT_BYTES",
    "EVELAND_SANDBOX_RUN_TIMEOUT_MS", "EVELAND_SCHEDULER_REDEEM_URL",
    "EVELAND_SCHEDULER_RUNTIME_SECRET", "EVELAND_WORKFLOW_RUNNER",
    "EVELAND_WORKFLOW_STREAM_COMPACTION", "EVELAND_WORKFLOW_WORLD_URL", "EVE_TELEMETRY_DISABLED",
    "NODE_ENV", "SERVER_SHUTDOWN_TIMEOUT", "WORKFLOW_OPTIMISTIC_INLINE_START",
    "WORKFLOW_POSTGRES_MAX_POOL_SIZE", "WORKFLOW_POSTGRES_URL"]

def PLATFORM_BUILD_ENVIRONMENT_KEYS : List String := ["HOME", "NPM_CONFIG_CACHE", "PATH"]

/-- The build drops an entry of this name. -/
def isReserved (key : String) : Bool :=
  (PLATFORM_BUILD_ENVIRONMENT_KEYS ++ RESERVED_RUNTIME_ENVIRONMENT_KEYS).contains key

/-- What an object literal assigns under this name is not a property of its own. -/
def isPrototype (key : String) : Bool := key = "__proto__"

/-! ## What is read -/

/-- The properties of an object, as they were assigned. -/
abbrev Assigned := List (String × String)

/-- The entries with their values; nothing where one of them does not decrypt. -/
def readEntries (decrypt : String → Option String) (entries : List Entry) : Option Assigned :=
  entries.mapM fun entry => (decrypt entry.encryptedValue).map fun value => (entry.key, value)

/-- `readSharedAgentEnvironmentValues`. -/
def readSharedAgentEnvironmentValues (decrypt : String → Option String) (entries : List Entry)
    (kind : Option EntryKind) : Option Assigned :=
  readEntries decrypt (entries.filter fun entry => kind.all fun kind => entry.kind = kind)

/-- `readRuntimeSecrets`, of the records of the project. -/
def readRuntimeSecrets (decrypt : String → Option String) (records : List Entry) :
    Option Assigned :=
  (readEntries decrypt records).map fun assigned =>
    assigned.filter fun entry => !isPrototype entry.1

/-! ## The process -/

/-- What a launch knows besides the entries: its options and the worker's environment, as far as the
reserved layer is made of them. -/
structure Launch where
  projectId : String
  memoryRoot : String
  sandboxRunTimeoutMs : String
  maxConcurrentProcesses : String
  maxOutputBytes : String
  shutdownTimeoutSeconds : String
  /-- The kind and the base URL of the instance's Model Gateway. -/
  modelGateway : Option (String × Option String)
  /-- The project's `mode` is `platform`. -/
  usesModelGateway : Bool
  evelandWorldUrl : Option String
  workflowRunner : String
  streamCompaction : Option String
  identityIssuer : Option String
  identityJwksUrl : Option String
  workflowPostgresUrl : Option String
  usesLegacyWorld : Bool
  ensureWorld : String → String
  workflowMaxPoolSize : String
  schedulerRuntimeSecret : Option String
  schedulerRedeemUrl : Option String
  isProduction : Bool

/-- The value, where there is one that is not empty. -/
def given (value : Option String) : Option String := value.filter fun value => value ≠ ""

/-- `identityIssuer.replace(/\/$/, "")`. -/
def dropSlash (issuer : String) : String :=
  match issuer.toList.reverse with
  | '/' :: rest => String.ofList rest.reverse
  | _ => issuer

namespace Launch

variable (launch : Launch)

/-- `resolveModelGatewayEnvironment`. -/
def modelGatewayEnvironment : Assigned :=
  match launch.modelGateway, launch.usesModelGateway with
  | some (kind, baseUrl), true =>
      [("EVELAND_MODEL_GATEWAY_KIND", kind), ("EVELAND_MODEL_GATEWAY_URL", baseUrl.getD "")]
  | _, _ => [("EVELAND_MODEL_GATEWAY_KIND", ""), ("EVELAND_MODEL_GATEWAY_URL", "")]

/-- The database of a project in the legacy world. -/
def projectWorkflowUrl : Option String :=
  if launch.usesLegacyWorld then (given launch.workflowPostgresUrl).map launch.ensureWorld
  else none

/-- What the platform reserves, whatever the entries are. -/
def reserved : Assigned :=
  [("EVELAND_PROJECT_ID", launch.projectId), ("EVELAND_MEMORY_ROOT", launch.memoryRoot),
    ("EVELAND_SANDBOX_RUN_TIMEOUT_MS", launch.sandboxRunTimeoutMs),
    ("EVELAND_SANDBOX_MAX_CONCURRENT_PROCESSES", launch.maxConcurrentProcesses),
    ("EVELAND_SANDBOX_MAX_OUTPUT_BYTES", launch.maxOutputBytes),
    ("SERVER_SHUTDOWN_TIMEOUT", launch.shutdownTimeoutSeconds), ("EVE_TELEMETRY_DISABLED", "1")] ++
    launch.modelGatewayEnvironment ++
    ((given launch.evelandWorldUrl).elim [] fun url =>
      [("EVELAND_WORKFLOW_WORLD_URL", url), ("EVELAND_WORKFLOW_RUNNER", launch.workflowRunner),
        ("EVELAND_WORKFLOW_STREAM_COMPACTION", launch.streamCompaction.getD "on"),
        ("WORKFLOW_OPTIMISTIC_INLINE_START", "")]) ++
    ((given launch.identityIssuer).elim [] fun issuer =>
      [("EVELAND_IDENTITY_ISSUER", dropSlash issuer)]) ++
    ((given launch.identityJwksUrl).elim [] fun url => [("EVELAND_IDENTITY_JWKS_URL", url)]) ++
    ((given launch.projectWorkflowUrl).elim [] fun url =>
      [("WORKFLOW_POSTGRES_URL", url),
        ("WORKFLOW_POSTGRES_MAX_POOL_SIZE", launch.workflowMaxPoolSize)]) ++
    ((given launch.schedulerRuntimeSecret).elim [] fun secret =>
      [("EVELAND_SCHEDULER_RUNTIME_SECRET", secret)]) ++
    ((given launch.schedulerRedeemUrl).elim [] fun url =>
      [("EVELAND_SCHEDULER_REDEEM_URL", url)]) ++
    (if launch.isProduction then [("NODE_ENV", "production")] else [])

end Launch

/-- `mergeRuntimeEnvironment`. -/
def mergeRuntimeEnvironment (projectSecrets sharedEnvironment reserved : Assigned) : Assigned :=
  sharedEnvironment ++ projectSecrets ++ reserved

/-- What `composeDeploymentEnv` returns: the environment, and the values to mask in logs. -/
structure DeploymentEnv where
  env : Assigned
  secretValues : List String

/-- `composeDeploymentEnv`: nothing where it throws. -/
def composeDeploymentEnv (decrypt : String → Option String) (launch : Launch)
    (shared project : List Entry) : Option DeploymentEnv := do
  let secrets ← readRuntimeSecrets decrypt project
  let sharedEnvironment ← readSharedAgentEnvironmentValues decrypt shared none
  some
    { env := mergeRuntimeEnvironment secrets sharedEnvironment launch.reserved
      secretValues := secrets.map Prod.snd ++ sharedEnvironment.map Prod.snd ++
        (given launch.workflowPostgresUrl).toList ++ (given launch.projectWorkflowUrl).toList ++
        (given launch.evelandWorldUrl).toList ++ (given launch.schedulerRuntimeSecret).toList }

/-! ## The build -/

/-- `composeBuildVariables`: nothing where it throws. -/
def composeBuildVariables (decrypt : String → Option String) (shared project : List Entry) :
    Option Assigned := do
  let shared ← readSharedAgentEnvironmentValues decrypt shared (some .plainVariable)
  let project ← readEntries decrypt (project.filter fun record => record.kind = .plainVariable)
  some (shared ++ project)

/-- The variables that the build keeps, and the names of those that it does not. -/
structure SelectedBuildVariables where
  selected : Assigned
  rejectedKeys : List String

/-- `selectBuildVariables`. The rejected keys are ASCII, so their order by characters is the one by
code units. -/
def selectBuildVariables (assigned : Assigned) : SelectedBuildVariables where
  selected := assigned.filter fun entry => !isReserved entry.1 && !isPrototype entry.1
  rejectedKeys :=
    ((assigned.map Prod.fst).filter isReserved).dedup.insertionSort fun left right => left ≤ right

/-! ## Agreement -/

/-- The last of the entries with a key. -/
def lastOf (entries : List Entry) (key : String) : Option Entry :=
  entries.reverse.find? fun entry => entry.key = key

/-- The entry that counts for a key: the project's, or else the shared one. -/
def deciding (shared project : List Entry) (key : String) : Option Entry :=
  (lastOf project key).or (lastOf shared key)

def plainVariables (entries : List Entry) : List Entry :=
  entries.filter fun entry => entry.kind = .plainVariable

/-- A secret counts for the key, and a variable of the same key has another value. -/
def isHidden (decrypt : String → Option String) (shared project : List Entry) (key : String) :
    Bool :=
  match deciding shared project key,
    deciding (plainVariables shared) (plainVariables project) key with
  | some entry, some other =>
      entry.kind = .secret && decrypt entry.encryptedValue ≠ decrypt other.encryptedValue
  | _, _ => false

/-- The same entries, but for the values of secrets. -/
def SameButSecrets (entries others : List Entry) : Prop :=
  List.Forall₂ (fun entry other => entry.key = other.key ∧ entry.kind = other.kind ∧
    (entry.kind = .plainVariable → entry.encryptedValue = other.encryptedValue)) entries others

/-- What a build should see: the values that the process gets, and nothing of any secret. -/
structure AgreesWithRuntime (decrypt : String → Option String) (launch : Launch)
    (shared project : List Entry) : Prop where
  sameValue : ∀ deployment build, composeDeploymentEnv decrypt launch shared project =
    some deployment → composeBuildVariables decrypt shared project = some build →
      ∀ key value, property (selectBuildVariables build).selected key = some value →
        property deployment.env key = some value
  blind : ∀ shared' project', SameButSecrets shared shared' → SameButSecrets project project' →
    composeBuildVariables decrypt shared' project' = composeBuildVariables decrypt shared project

/-! ## Properties -/

theorem property_append (first second : Assigned) (key : String) :
    property (first ++ second) key = (property second key).or (property first key) := by
  rw [property, List.reverse_append, List.lookup_append]
  rfl

theorem lookup_filter (assigned : Assigned) (keep : String → Bool) (key : String) :
    (assigned.filter fun entry => keep entry.1).lookup key =
      if keep key then assigned.lookup key else none := by
  induction assigned with
  | nil => simp
  | cons entry assigned ih =>
      obtain ⟨name, value⟩ := entry
      by_cases hname : key = name
      · subst hname
        by_cases hkeep : keep key = true
        · rw [List.filter_cons, if_pos hkeep, List.lookup_cons_self, List.lookup_cons_self,
            if_pos hkeep]
        · rw [List.filter_cons, if_neg hkeep, ih, if_neg hkeep, if_neg hkeep]
      · have hne : (key == name) = false := by simpa using hname
        rw [List.filter_cons, List.lookup_cons, hne]
        split
        · rw [List.lookup_cons, hne]
          exact ih
        · exact ih

theorem property_filter (assigned : Assigned) (keep : String → Bool) (key : String) :
    property (assigned.filter fun entry => keep entry.1) key =
      if keep key then property assigned key else none := by
  rw [property, ← List.filter_reverse]
  exact lookup_filter assigned.reverse keep key

/-! ## Entries that were read -/

section

variable {decrypt : String → Option String} {entries others shared project : List Entry}

/-- Every entry decrypts. -/
def Decrypts (decrypt : String → Option String) (entries : List Entry) : Prop :=
  ∀ entry ∈ entries, (decrypt entry.encryptedValue).isSome = true

/-- An assignment is what its entry decrypts to. -/
theorem forall₂_of_readEntries {assigned : Assigned} (h : readEntries decrypt entries = some assigned) :
    List.Forall₂ (fun entry property => property.1 = entry.key ∧
      decrypt entry.encryptedValue = some property.2) entries assigned := by
  induction entries generalizing assigned with
  | nil =>
      cases h
      exact .nil
  | cons entry entries ih =>
      simp only [readEntries, List.mapM_cons, Option.bind_eq_bind, Option.bind_eq_some_iff,
        Option.map_eq_some_iff] at h
      obtain ⟨_, ⟨value, hvalue, rfl⟩, rest, hrest, hassigned⟩ := h
      cases hassigned
      exact .cons ⟨rfl, hvalue⟩ (ih hrest)

theorem decrypts_of_readEntries {assigned : Assigned}
    (h : readEntries decrypt entries = some assigned) : Decrypts decrypt entries := by
  have hforall := forall₂_of_readEntries h
  clear h
  induction hforall with
  | nil =>
      intro entry hentry
      cases hentry
  | cons hhead _ ih =>
      intro entry hentry
      rcases List.mem_cons.mp hentry with rfl | hentry
      · rw [hhead.2, Option.isSome_some]
      · exact ih entry hentry

theorem exists_readEntries (h : Decrypts decrypt entries) :
    ∃ assigned, readEntries decrypt entries = some assigned := by
  induction entries with
  | nil => exact ⟨[], rfl⟩
  | cons entry entries ih =>
      obtain ⟨value, hvalue⟩ := Option.isSome_iff_exists.mp (h entry List.mem_cons_self)
      obtain ⟨rest, hrest⟩ := ih fun other hother => h other (List.mem_cons_of_mem _ hother)
      refine ⟨(entry.key, value) :: rest, ?_⟩
      rw [readEntries] at hrest ⊢
      simp [List.mapM_cons, hvalue, hrest]

/-- A property of what was read is what the last entry of that key decrypts to. -/
theorem property_readEntries {assigned : Assigned} (h : readEntries decrypt entries = some assigned)
    (key : String) :
    property assigned key = (lastOf entries key).bind fun entry => decrypt entry.encryptedValue := by
  have hreverse := List.forall₂_reverse_iff.mpr (forall₂_of_readEntries h)
  rw [property, lastOf]
  generalize entries.reverse = entries at hreverse
  generalize assigned.reverse = assigned at hreverse
  induction hreverse with
  | nil => rfl
  | @cons entry read _ _ hhead _ ih =>
      rw [List.lookup_cons, List.find?_cons, hhead.1]
      by_cases hkey : entry.key = key
      · simp [hkey, hhead.2]
      · have hne : (key == entry.key) = false := by simpa using Ne.symm hkey
        simp [hne, hkey, ih]

theorem lastOf_plainVariables (entries : List Entry) (key : String) :
    lastOf (plainVariables entries) key = entries.reverse.find? fun entry =>
      entry.kind = .plainVariable && entry.key = key := by
  rw [lastOf, plainVariables, ← List.filter_reverse, List.find?_filter]
  congr 1
  funext entry
  simp

theorem lastOf_plainVariables_of_plain {entry : Entry} {key : String}
    (h : lastOf entries key = some entry) (hplain : entry.kind = .plainVariable) :
    lastOf (plainVariables entries) key = some entry := by
  obtain ⟨hkey, before, after, hsplit, hbefore⟩ := List.find?_eq_some_iff_append.mp h
  rw [lastOf_plainVariables, List.find?_eq_some_iff_append]
  refine ⟨by simpa [hplain] using hkey, before, after, hsplit, ?_⟩
  intro other hother
  have hne := hbefore other hother
  simp only [Bool.not_eq_true', decide_eq_false_iff_not] at hne
  simp [hne]

theorem lastOf_plainVariables_of_none {key : String} (h : lastOf entries key = none) :
    lastOf (plainVariables entries) key = none := by
  rw [lastOf, List.find?_eq_none] at h
  rw [lastOf_plainVariables, List.find?_eq_none]
  intro entry hentry
  have hne := h entry hentry
  rw [decide_eq_true_eq] at hne
  simp [hne]

/-- The entry that counts among the variables is the one that counts, if that is a variable. -/
theorem deciding_plainVariables {entry : Entry} {key : String}
    (h : deciding shared project key = some entry) (hplain : entry.kind = .plainVariable) :
    deciding (plainVariables shared) (plainVariables project) key = some entry := by
  rw [deciding, Option.or_eq_some_iff] at h ⊢
  rcases h with hproject | ⟨hproject, hshared⟩
  · exact .inl (lastOf_plainVariables_of_plain hproject hplain)
  · exact .inr ⟨lastOf_plainVariables_of_none hproject, lastOf_plainVariables_of_plain hshared hplain⟩

/-- Some entry counts for a key that a variable has. -/
theorem deciding_ne_none {entry : Entry} {key : String}
    (h : deciding (plainVariables shared) (plainVariables project) key = some entry) :
    deciding shared project key ≠ none := by
  intro hnone
  rw [deciding, Option.or_eq_none_iff] at hnone
  rw [deciding, lastOf_plainVariables_of_none hnone.1, lastOf_plainVariables_of_none hnone.2] at h
  cases h

theorem mem_of_lastOf {entry : Entry} {key : String} (h : lastOf entries key = some entry) :
    entry ∈ entries :=
  List.mem_reverse.mp (List.mem_of_find?_eq_some h)

/-- The property of two layers of entries is what the entry that counts decrypts to. -/
theorem or_eq_deciding (hproject : Decrypts decrypt project) (key : String) :
    (((lastOf project key).bind fun entry => decrypt entry.encryptedValue).or
      ((lastOf shared key).bind fun entry => decrypt entry.encryptedValue)) =
        (deciding shared project key).bind fun entry => decrypt entry.encryptedValue := by
  rw [deciding]
  cases hlast : lastOf project key with
  | none => simp
  | some entry =>
      obtain ⟨value, hvalue⟩ := Option.isSome_iff_exists.mp (hproject entry (mem_of_lastOf hlast))
      simp [hvalue]

theorem Decrypts.plainVariables (h : Decrypts decrypt entries) :
    Decrypts decrypt (plainVariables entries) :=
  fun entry hentry => h entry (List.mem_of_mem_filter hentry)

/-- The variables are the same where only secrets differ. -/
theorem plainVariables_eq (h : SameButSecrets entries others) :
    plainVariables others = plainVariables entries := by
  induction h with
  | nil => rfl
  | @cons entry other _ _ hhead _ ih =>
      obtain ⟨hkey, hkind, hvalue⟩ := hhead
      rw [plainVariables, plainVariables, List.filter_cons, List.filter_cons, ← hkind]
      by_cases hplain : entry.kind = .plainVariable
      · have hsame : other = entry := by
          cases entry
          cases other
          simp_all
        rw [hsame, if_pos (by simpa using hplain), if_pos (by simpa using hplain)]
        exact congrArg _ ih
      · rw [if_neg (by simpa using hplain), if_neg (by simpa using hplain)]
        exact ih

/-! ## What the process and the build get -/

/-- The reserved layer has the names of the list and no others. -/
theorem reserved_keys (launch : Launch) : ∀ entry ∈ launch.reserved,
    entry.1 ∈ RESERVED_RUNTIME_ENVIRONMENT_KEYS := by
  have hgateway : ∀ entry ∈ launch.modelGatewayEnvironment,
      entry.1 ∈ RESERVED_RUNTIME_ENVIRONMENT_KEYS := by
    intro entry hentry
    unfold Launch.modelGatewayEnvironment at hentry
    split at hentry <;> simp only [List.mem_cons, List.not_mem_nil, or_false] at hentry <;>
      rcases hentry with rfl | rfl <;> simp [RESERVED_RUNTIME_ENVIRONMENT_KEYS]
  have hgiven : ∀ (value : Option String) (properties : String → Assigned),
      (∀ text, ∀ entry ∈ properties text, entry.1 ∈ RESERVED_RUNTIME_ENVIRONMENT_KEYS) →
        ∀ entry ∈ (given value).elim [] properties,
          entry.1 ∈ RESERVED_RUNTIME_ENVIRONMENT_KEYS := by
    intro value properties hproperties entry hentry
    cases hvalue : given value with
    | none =>
        rw [hvalue] at hentry
        cases hentry
    | some text =>
        rw [hvalue] at hentry
        exact hproperties text entry hentry
  intro entry hentry
  simp only [Launch.reserved, List.mem_append] at hentry
  rcases hentry with
    (((((((hentry | hentry) | hentry) | hentry) | hentry) | hentry) | hentry) | hentry) | hentry
  · simp only [List.mem_cons, List.not_mem_nil, or_false] at hentry
    rcases hentry with rfl | rfl | rfl | rfl | rfl | rfl | rfl <;>
      simp [RESERVED_RUNTIME_ENVIRONMENT_KEYS]
  · exact hgateway entry hentry
  · refine hgiven _ _ (fun _ entry hentry => ?_) entry hentry
    simp only [List.mem_cons, List.not_mem_nil, or_false] at hentry
    rcases hentry with rfl | rfl | rfl | rfl <;> simp [RESERVED_RUNTIME_ENVIRONMENT_KEYS]
  · refine hgiven _ _ (fun _ entry hentry => ?_) entry hentry
    simp only [List.mem_singleton] at hentry
    simp [hentry, RESERVED_RUNTIME_ENVIRONMENT_KEYS]
  · refine hgiven _ _ (fun _ entry hentry => ?_) entry hentry
    simp only [List.mem_singleton] at hentry
    simp [hentry, RESERVED_RUNTIME_ENVIRONMENT_KEYS]
  · refine hgiven _ _ (fun _ entry hentry => ?_) entry hentry
    simp only [List.mem_cons, List.not_mem_nil, or_false] at hentry
    rcases hentry with rfl | rfl <;> simp [RESERVED_RUNTIME_ENVIRONMENT_KEYS]
  · refine hgiven _ _ (fun _ entry hentry => ?_) entry hentry
    simp only [List.mem_singleton] at hentry
    simp [hentry, RESERVED_RUNTIME_ENVIRONMENT_KEYS]
  · refine hgiven _ _ (fun _ entry hentry => ?_) entry hentry
    simp only [List.mem_singleton] at hentry
    simp [hentry, RESERVED_RUNTIME_ENVIRONMENT_KEYS]
  · split at hentry
    · simp only [List.mem_singleton] at hentry
      simp [hentry, RESERVED_RUNTIME_ENVIRONMENT_KEYS]
    · cases hentry

theorem property_reserved (launch : Launch) {key : String} (hreserved : isReserved key = false) :
    property launch.reserved key = none := by
  apply EnvironmentChanges.LaunchEnvironment.property_eq_none
  intro hkey
  obtain ⟨entry, hentry, rfl⟩ := List.mem_map.mp hkey
  have hmem := reserved_keys launch entry hentry
  simp [isReserved, hmem] at hreserved

theorem composeBuildVariables_eq (decrypt : String → Option String) (shared project : List Entry) :
    composeBuildVariables decrypt shared project =
      (readEntries decrypt (plainVariables shared)).bind fun shared =>
        (readEntries decrypt (plainVariables project)).map fun project => shared ++ project := by
  have hfilter : (shared.filter fun entry => (some EntryKind.plainVariable).all fun kind =>
      entry.kind = kind) = plainVariables shared := rfl
  rw [composeBuildVariables, readSharedAgentEnvironmentValues, hfilter]
  simp only [Option.bind_eq_bind, Option.map_eq_bind]
  rfl

/-- What the build sees of a key that it does not drop. -/
theorem property_build {build : Assigned} (hproject : Decrypts decrypt project)
    (h : composeBuildVariables decrypt shared project = some build) {key : String}
    (hreserved : isReserved key = false) (hprototype : isPrototype key = false) :
    property (selectBuildVariables build).selected key =
      (deciding (plainVariables shared) (plainVariables project) key).bind fun entry =>
        decrypt entry.encryptedValue := by
  rw [composeBuildVariables_eq, Option.bind_eq_some_iff] at h
  obtain ⟨sharedRead, hshared, hbuild⟩ := h
  obtain ⟨projectRead, hprojectRead, rfl⟩ := Option.map_eq_some_iff.mp hbuild
  rw [selectBuildVariables, property_filter _ fun key => !isReserved key && !isPrototype key,
    hreserved, hprototype, property_append, property_readEntries hshared,
    property_readEntries hprojectRead]
  exact or_eq_deciding hproject.plainVariables key

/-- A build drops the reserved names. -/
theorem property_build_of_dropped {build : Assigned} {key : String}
    (hdropped : (isReserved key || isPrototype key) = true) :
    property (selectBuildVariables build).selected key = none := by
  rw [selectBuildVariables, property_filter _ fun key => !isReserved key && !isPrototype key,
    ← Bool.not_or, hdropped]
  rfl

theorem composeDeploymentEnv_eq_some {launch : Launch} {deployment : DeploymentEnv}
    (h : composeDeploymentEnv decrypt launch shared project = some deployment) :
    ∃ projectRead sharedRead, readEntries decrypt project = some projectRead ∧
      readEntries decrypt shared = some sharedRead ∧
      deployment.env = sharedRead ++ (projectRead.filter fun entry => !isPrototype entry.1) ++
        launch.reserved := by
  simp only [composeDeploymentEnv, readRuntimeSecrets, readSharedAgentEnvironmentValues,
    Option.all_none, List.filter_true, Option.bind_eq_bind, Option.bind_eq_some_iff,
    Option.map_eq_some_iff] at h
  obtain ⟨_, ⟨projectRead, hproject, rfl⟩, sharedRead, hshared, hdeployment⟩ := h
  cases hdeployment
  exact ⟨projectRead, sharedRead, hproject, hshared, rfl⟩

/-- What the process gets for a key that is not reserved. -/
theorem property_deployment {launch : Launch} {deployment : DeploymentEnv}
    (h : composeDeploymentEnv decrypt launch shared project = some deployment) {key : String}
    (hreserved : isReserved key = false) (hprototype : isPrototype key = false) :
    property deployment.env key =
      (deciding shared project key).bind fun entry => decrypt entry.encryptedValue := by
  obtain ⟨projectRead, sharedRead, hproject, hshared, henv⟩ := composeDeploymentEnv_eq_some h
  rw [henv, property_append, property_reserved launch hreserved, property_append,
    property_filter _ fun key => !isPrototype key, hprototype, property_readEntries hproject,
    property_readEntries hshared]
  exact or_eq_deciding (decrypts_of_readEntries hproject) key

theorem exists_deployment (launch : Launch) (hshared : Decrypts decrypt shared)
    (hproject : Decrypts decrypt project) :
    ∃ deployment, composeDeploymentEnv decrypt launch shared project = some deployment := by
  obtain ⟨projectRead, hproject⟩ := exists_readEntries hproject
  obtain ⟨sharedRead, hshared⟩ := exists_readEntries hshared
  simp [composeDeploymentEnv, readRuntimeSecrets, readSharedAgentEnvironmentValues, hproject,
    hshared]

theorem exists_build (hshared : Decrypts decrypt shared) (hproject : Decrypts decrypt project) :
    ∃ build, composeBuildVariables decrypt shared project = some build := by
  obtain ⟨projectRead, hproject⟩ := exists_readEntries hproject.plainVariables
  obtain ⟨sharedRead, hshared⟩ := exists_readEntries hshared.plainVariables
  simp [composeBuildVariables_eq, hproject, hshared]

theorem deciding_decrypts (hshared : Decrypts decrypt shared) (hproject : Decrypts decrypt project)
    {key : String} {entry : Entry} (h : deciding shared project key = some entry) :
    ∃ value, decrypt entry.encryptedValue = some value := by
  rw [← Option.isSome_iff_exists]
  rw [deciding, Option.or_eq_some_iff] at h
  rcases h with h | ⟨_, h⟩
  · exact hproject entry (mem_of_lastOf h)
  · exact hshared entry (mem_of_lastOf h)

/-! ## The result -/

/-- Nothing that the build sees depends on a secret. -/
theorem composeBuildVariables_blind {shared' project' : List Entry}
    (hshared : SameButSecrets shared shared') (hproject : SameButSecrets project project') :
    composeBuildVariables decrypt shared' project' =
      composeBuildVariables decrypt shared project := by
  rw [composeBuildVariables_eq, composeBuildVariables_eq, plainVariables_eq hshared,
    plainVariables_eq hproject]

/-- A key that no secret hides has the value of the build at run time. -/
theorem sameValue_of_not_isHidden {key : String}
    (hhidden : isHidden decrypt shared project key = false) {other : Entry}
    (hother : deciding (plainVariables shared) (plainVariables project) key = some other) :
    ((deciding shared project key).bind fun entry => decrypt entry.encryptedValue) =
      decrypt other.encryptedValue := by
  obtain ⟨entry, hentry⟩ := Option.ne_none_iff_exists'.mp (deciding_ne_none hother)
  rw [hentry, Option.bind_some]
  cases hkind : entry.kind with
  | plainVariable =>
      rw [deciding_plainVariables hentry hkind] at hother
      rw [Option.some.inj hother]
  | secret => simpa [isHidden, hentry, hother, hkind] using hhidden

/-- **Build and run time agree** unless a secret counts for a key that is not reserved while a
variable of that key has another value. -/
theorem agreesWithRuntime_iff (decrypt : String → Option String) (launch : Launch)
    (shared project : List Entry) :
    AgreesWithRuntime decrypt launch shared project ↔
      (∃ entry ∈ shared ++ project, decrypt entry.encryptedValue = none) ∨
        ∀ key, isReserved key = false → isPrototype key = false →
          isHidden decrypt shared project key = false := by
  constructor
  · intro hagrees
    by_cases hall : ∃ entry ∈ shared ++ project, decrypt entry.encryptedValue = none
    · exact .inl hall
    · refine .inr fun key hreserved hprototype => ?_
      have hdecrypts : ∀ entry ∈ shared ++ project,
          (decrypt entry.encryptedValue).isSome = true := by
        intro entry hentry
        rw [Option.isSome_iff_ne_none]
        exact fun hnone => hall ⟨entry, hentry, hnone⟩
      have hshared : Decrypts decrypt shared :=
        fun entry hentry => hdecrypts entry (List.mem_append_left _ hentry)
      have hproject : Decrypts decrypt project :=
        fun entry hentry => hdecrypts entry (List.mem_append_right _ hentry)
      obtain ⟨deployment, hdeployment⟩ := exists_deployment launch hshared hproject
      obtain ⟨build, hbuild⟩ := exists_build hshared hproject
      rw [Bool.eq_false_iff]
      intro hhidden
      unfold isHidden at hhidden
      split at hhidden
      · next entry other hentry hother =>
          obtain ⟨value, hvalue⟩ :=
            deciding_decrypts hshared.plainVariables hproject.plainVariables hother
          have hsame := hagrees.sameValue deployment build hdeployment hbuild key value
          rw [property_build hproject hbuild hreserved hprototype,
            property_deployment hdeployment hreserved hprototype, hentry, hother] at hsame
          simp only [Option.bind_some] at hsame
          rw [hsame hvalue, hvalue] at hhidden
          simp at hhidden
      · cases hhidden
  · intro hcondition
    refine ⟨?_, fun shared' project' => composeBuildVariables_blind⟩
    intro deployment build hdeployment hbuild key value hvalue
    obtain ⟨_, _, hprojectRead, hsharedRead, _⟩ := composeDeploymentEnv_eq_some hdeployment
    have hproject := decrypts_of_readEntries hprojectRead
    have hshared := decrypts_of_readEntries hsharedRead
    cases hdropped : isReserved key || isPrototype key with
    | true =>
        rw [property_build_of_dropped hdropped] at hvalue
        cases hvalue
    | false =>
        obtain ⟨hreserved, hprototype⟩ := Bool.or_eq_false_iff.mp hdropped
        rcases hcondition with ⟨entry, hentry, hnone⟩ | hcondition
        · rcases List.mem_append.mp hentry with hentry | hentry
          · exact absurd hnone (Option.isSome_iff_ne_none.mp (hshared entry hentry))
          · exact absurd hnone (Option.isSome_iff_ne_none.mp (hproject entry hentry))
        · rw [property_build hproject hbuild hreserved hprototype, Option.bind_eq_some_iff]
            at hvalue
          obtain ⟨other, hother, hvalue⟩ := hvalue
          rw [property_deployment hdeployment hreserved hprototype,
            sameValue_of_not_isHidden (hcondition key hreserved hprototype) hother]
          exact hvalue

end

/-! ## A secret over a variable -/

/-- A launch without any of the optional parts. -/
def plainLaunch : Launch where
  projectId := "project"
  memoryRoot := "/var/lib/eveland/memory/project"
  sandboxRunTimeoutMs := "60000"
  maxConcurrentProcesses := "8"
  maxOutputBytes := "1048576"
  shutdownTimeoutSeconds := "10"
  modelGateway := none
  usesModelGateway := false
  evelandWorldUrl := none
  workflowRunner := "platform"
  streamCompaction := none
  identityIssuer := none
  identityJwksUrl := none
  workflowPostgresUrl := none
  usesLegacyWorld := false
  ensureWorld := id
  workflowMaxPoolSize := "10"
  schedulerRuntimeSecret := none
  schedulerRedeemUrl := none
  isProduction := false

/-- The shared environment names a model, and the project's own model is a secret. -/
theorem not_agrees_secret_override :
    ¬ AgreesWithRuntime some plainLaunch [⟨"MODEL_ID", .plainVariable, "shared-model"⟩]
      [⟨"MODEL_ID", .secret, "project-model"⟩] := by
  intro hagrees
  have hvalue := hagrees.sameValue _ _ rfl rfl "MODEL_ID" "shared-model" (by decide +kernel)
  exact absurd hvalue (by decide +kernel)

end Eveland.BuildVariables
