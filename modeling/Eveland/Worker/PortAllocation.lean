/-
# Ports of runtime instances

A starting instance reserves a loopback port in its row before anything binds it. The unique
index on the ports of live instances lets one live row at most have a port, whatever calls write
the rows; `allocateReservedInstancePort` tries the ports of a range one after the other, and
goes on to the next where a port is bound on the host or another instance has reserved it
first. Probing the host, reading the ports in flight and reserving are separate steps, and other
parties run between them.
-/

import Eveland.Foundations.Machine
import Eveland.Foundations.RowLocks
import Eveland.Store.InstanceChanges

namespace Eveland.PortAllocation

open RuntimeStore

/-! ## Allocating a port -/

/-- What a runtime answers of the process that has a port. -/
inductive PortOwnership where
  | owned
  | unbound
  | foreign
  deriving DecidableEq

/-- The input of `allocateReservedInstancePort`. -/
structure AllocationInput where
  preferredPort : Option ℕ
  startPort : ℕ
  endPort : ℕ
  dbReservedPorts : List ℕ

/-- The ports that are tried, in their order. -/
def AllocationInput.candidates (input : AllocationInput) : List ℕ :=
  input.preferredPort.toList ++
    (List.range' input.startPort (input.endPort + 1 - input.startPort)).filter fun port =>
      input.preferredPort ≠ some port

/-- Where a call of `allocateReservedInstancePort` is in its loop. -/
inductive AllocationPhase where
  /-- At the head of the loop, with the ports that are left. -/
  | considering (ports : List ℕ)
  /-- Waiting for the probe of a port. -/
  | probing (port : ℕ) (rest : List ℕ)
  /-- Waiting for the reservation of a port. -/
  | reserving (port : ℕ) (rest : List ℕ)
  | returned (port : ℕ)
  | threw
  deriving DecidableEq

structure Allocation where
  instanceId : String
  input : AllocationInput
  phase : AllocationPhase

/-- What the awaited call answers: it throws, or says whether the port is free to bind. -/
inductive Answer where
  | throws
  | free (available : Bool)
  deriving DecidableEq

/-- The loop comes to its next port. The preferred port is not probed. -/
def consider (input : AllocationInput) (inFlight : List ℕ) : List ℕ → AllocationPhase
  | [] => .threw
  | port :: rest =>
      if input.preferredPort = some port then .reserving port rest
      else if input.dbReservedPorts.contains port || inFlight.contains port then .considering rest
      else .probing port rest

/-- The next step of a call, with the store it leaves; `none` where the call has ended. -/
def advance (store : Store) (inFlight : List ℕ) (allocation : Allocation) (answer : Answer) :
    Option (Store × AllocationPhase) :=
  match allocation.phase, answer with
  | .considering ports, _ => some (store, consider allocation.input inFlight ports)
  | .probing _ _, .throws => some (store, .threw)
  | .probing port rest, .free true => some (store, .reserving port rest)
  | .probing _ rest, .free false => some (store, .considering rest)
  | .reserving _ _, .throws => some (store, .threw)
  | .reserving port rest, .free _ =>
      let reserved := reserveRuntimeInstancePort store allocation.instanceId port
      some (reserved.1, if reserved.2 then .returned port else .considering rest)
  | .returned _, _ => none
  | .threw, _ => none

/-- What `resolveInstancePort` decides on: the port the row has, one port and no other, or any
port of the range, with one that is preferred if it may be used. -/
inductive PortPlan where
  | keep (port : ℕ)
  | fixed (port : ℕ)
  | allocate (preferredPort : Option ℕ)

/-- `resolveInstancePort`, up to the reservation. -/
def resolveInstancePort (priorInstances : List RuntimeInstance) (hostPort : ℕ)
    (current : RuntimeInstance) (systemd : Bool) (ownership : PortOwnership) (available : Bool) :
    PortPlan :=
  match current.endpointPort with
  | some port => .keep port
  | none =>
      let prior := priorInstances.reverse.find? fun row =>
        row.id ≠ current.id && row.endpointPort.isSome
      let preferred := (prior.bind RuntimeInstance.endpointPort).getD hostPort
      if !systemd then .fixed preferred
      else if ownership = .owned || (ownership = .unbound && available) then
        .allocate (some preferred)
      else .allocate none

/-- `listReservedDeploymentHostPorts`. -/
def listReservedDeploymentHostPorts (s : Store) : List ℕ :=
  ((s.deployments.filter fun row => row.status ≠ .archived).map Deployment.hostPort ++
    (s.instances.filter fun row => row.status.isLive).filterMap
      RuntimeInstance.endpointPort).eraseDups

/-! ## The parties -/

structure System where
  store : Store
  /-- `inFlightPorts` of the worker. -/
  inFlight : List ℕ
  allocations : List Allocation

inductive Action where
  | acquireActivationLease (input : AcquireInput) (instanceId leaseId : String)
  | adoptRuntimeInstance (deploymentId : String) (endpointPort : ℕ) (instanceId : String) (now : ℤ)
  | updateRuntimeInstance (id : String) (update : InstanceUpdate) (now : ℤ)
  | reserveRuntimeInstancePort (id : String) (port : ℕ)
  | claimIdleRuntimeInstances (now idleTtlMs : ℤ) (picked : List String)
  /-- Deployments are created, change or are deleted, and instances are deleted with them. -/
  | changeDeployments (deployments : List Deployment) (deleted : List String)
  | claimInFlightPort (port : ℕ)
  | releaseInFlightPort (port : ℕ)
  /-- `allocateReservedInstancePort` is called. -/
  | allocate (instanceId : String) (input : AllocationInput)
  /-- `resolveInstancePort` is called for an instance, and calls for a port. -/
  | resolve (instanceId : String) (systemd : Bool) (ownership : PortOwnership) (available : Bool)
      (startPort endPort : ℕ)
  /-- A call for a port takes its next step. -/
  | advance (i : ℕ) (answer : Answer)

/-- A call that throws changes nothing. -/
def System.commit {α : Type} (s : System) (result : Except String (Store × α)) : System :=
  match result with
  | .ok (store, _) => { s with store }
  | .error _ => s

def System.begin (s : System) (instanceId : String) (input : AllocationInput) : System :=
  { s with
    allocations := s.allocations ++ [⟨instanceId, input, .considering input.candidates⟩] }

/-- The call for a port that a resolution comes to. -/
def resolve (s : System) (instanceId : String) (systemd : Bool) (ownership : PortOwnership)
    (available : Bool) (startPort endPort : ℕ) : Option System :=
  (s.store.getRuntimeInstance instanceId).bind fun current =>
    (s.store.getDeployment current.deploymentId).map fun deployment =>
      match resolveInstancePort (s.store.listDeploymentRuntimeInstances deployment.id)
          deployment.hostPort current systemd ownership available with
      | .keep _ => s
      | .fixed port => s.begin instanceId ⟨some port, port, port, []⟩
      | .allocate preferredPort => s.begin instanceId
          ⟨preferredPort, startPort, endPort, listReservedDeploymentHostPorts s.store⟩

def step (s : System) : Action → Option System
  | .acquireActivationLease input instanceId leaseId =>
      some (s.commit (acquireActivationLease s.store input instanceId leaseId))
  | .adoptRuntimeInstance deploymentId endpointPort instanceId now =>
      some (s.commit (adoptRuntimeInstance s.store deploymentId endpointPort instanceId now))
  | .updateRuntimeInstance id update now =>
      some (s.commit (updateRuntimeInstance s.store id update now))
  | .reserveRuntimeInstancePort id port =>
      some { s with store := (reserveRuntimeInstancePort s.store id port).1 }
  | .claimIdleRuntimeInstances now idleTtlMs picked =>
      some { s with store := (claimIdleRuntimeInstances s.store now idleTtlMs picked).1 }
  | .changeDeployments deployments deleted =>
      some { s with
        store := { s.store with
          deployments
          instances := s.store.instances.filter fun row => !deleted.contains row.id } }
  | .claimInFlightPort port => some { s with inFlight := port :: s.inFlight }
  | .releaseInFlightPort port => some { s with inFlight := s.inFlight.filter (· ≠ port) }
  | .allocate instanceId input => some (s.begin instanceId input)
  | .resolve instanceId systemd ownership available startPort endPort =>
      resolve s instanceId systemd ownership available startPort endPort
  | .advance i answer => s.allocations[i]?.bind fun allocation =>
      (advance s.store s.inFlight allocation answer).map fun result =>
        { s with
          store := result.1
          allocations := s.allocations.set i { allocation with phase := result.2 } }

/-- Instances and calls for ports, from no instances on. -/
def machine : Machine System Action where
  init s := s.store.instances = [] ∧ s.allocations = []
  step := step

/-! ## One live instance for a port -/

/-- No two live instances have one port. -/
def NoSharedPort (rows : List RuntimeInstance) : Prop :=
  ∀ first ∈ rows, ∀ second ∈ rows, ∀ port, first.status.isLive = true →
    second.status.isLive = true → first.endpointPort = some port →
    second.endpointPort = some port → first = second

/-- The row of the instance has the port, and while the instance is live no other live one has
it. -/
def Reserved (s : Store) (id : String) (port : ℕ) : Prop :=
  ∃ row, s.getRuntimeInstance id = some row ∧ row.endpointPort = some port ∧
    ∀ other ∈ s.instances, row.status.isLive = true → other.status.isLive = true →
      other.endpointPort = some port → other = row

variable {store after : Store} {rows : List RuntimeInstance} {id : String} {port : ℕ}

theorem not_portTaken (hfree : store.portTaken id port = false) {row : RuntimeInstance}
    (hrow : row ∈ store.instances) (hid : row.id ≠ id) (hlive : row.status.isLive = true) :
    row.endpointPort ≠ some port := by
  intro hport
  have htaken : store.portTaken id port = true :=
    List.any_eq_true.mpr ⟨row, hrow, by simp [hid, hlive, hport]⟩
  rw [hfree] at htaken
  cases htaken

theorem NoSharedPort.insert (hrows : NoSharedPort rows) {new : RuntimeInstance}
    (hnew : ∀ other ∈ rows, other.status.isLive = true → ∀ port, new.endpointPort = some port →
      other.endpointPort ≠ some port) : NoSharedPort (rows ++ [new]) := by
  intro first hfirst second hsecond port hfirstLive hsecondLive hfirstPort hsecondPort
  obtain hfirst | hfirst := List.mem_append.mp hfirst <;>
    obtain hsecond | hsecond := List.mem_append.mp hsecond
  · exact hrows first hfirst second hsecond port hfirstLive hsecondLive hfirstPort hsecondPort
  · rw [List.mem_singleton.mp hsecond] at hsecondPort
    exact absurd hfirstPort (hnew first hfirst hfirstLive port hsecondPort)
  · rw [List.mem_singleton.mp hfirst] at hfirstPort
    exact absurd hsecondPort (hnew second hsecond hsecondLive port hfirstPort)
  · rw [List.mem_singleton.mp hfirst, List.mem_singleton.mp hsecond]

/-- An update that makes no instance live and changes no port. -/
theorem NoSharedPort.update (hrows : NoSharedPort rows) {p : RuntimeInstance → Bool}
    {f : RuntimeInstance → RuntimeInstance}
    (hlive : ∀ row ∈ rows, p row = true → row.status.isLive = true)
    (hport : ∀ row, (f row).endpointPort = row.endpointPort) :
    NoSharedPort (Table.updateWhere p f rows) := by
  have hold : ∀ row ∈ Table.updateWhere p f rows, row.status.isLive = true →
      ∃ old ∈ rows, old.status.isLive = true ∧ old.endpointPort = row.endpointPort ∧
        row = if p old then f old else old := by
    intro row hrow hrowLive
    obtain ⟨hrow, hp⟩ | ⟨old, hold, hp, rfl⟩ := Table.mem_updateWhere.mp hrow
    · exact ⟨row, hrow, hrowLive, rfl, by simp [hp]⟩
    · exact ⟨old, hold, hlive old hold hp, (hport old).symm, by simp [hp]⟩
  intro first hfirst second hsecond port hfirstLive hsecondLive hfirstPort hsecondPort
  obtain ⟨before, hbefore, hbeforeLive, hsame, rfl⟩ := hold first hfirst hfirstLive
  obtain ⟨other, hother, hotherLive, hotherSame, rfl⟩ := hold second hsecond hsecondLive
  rw [hrows before hbefore other hother port hbeforeLive hotherLive (hsame.trans hfirstPort)
    (hotherSame.trans hsecondPort)]

/-- An update of one instance, to a port that it may have. -/
theorem NoSharedPort.updateOne (hids : Table.UniqueOn RuntimeInstance.id store.instances)
    (hrows : NoSharedPort store.instances) {f : RuntimeInstance → RuntimeInstance}
    (hfree : ∀ row ∈ store.instances, row.id = id → (f row).status.isLive = true →
      ∀ port, (f row).endpointPort = some port → store.portTaken id port = false) :
    NoSharedPort (Table.updateWhere (fun row => row.id = id) f store.instances) := by
  have hapart : ∀ old ∈ store.instances, old.id = id → ∀ other ∈ store.instances, other.id ≠ id →
      ∀ port, (f old).status.isLive = true → other.status.isLive = true →
        (f old).endpointPort = some port → other.endpointPort ≠ some port := by
    intro old hold hsame other hother hne port hlive hotherLive hport
    exact not_portTaken (hfree old hold hsame hlive port hport) hother hne hotherLive
  intro first hfirst second hsecond port hfirstLive hsecondLive hfirstPort hsecondPort
  obtain ⟨hfirst, hfirstNot⟩ | ⟨before, hbefore, hfirstId, rfl⟩ := Table.mem_updateWhere.mp hfirst <;>
    obtain ⟨hsecond, hsecondNot⟩ | ⟨other, hother, hotherId, rfl⟩ :=
      Table.mem_updateWhere.mp hsecond
  · exact hrows first hfirst second hsecond port hfirstLive hsecondLive hfirstPort hsecondPort
  · exact absurd hfirstPort (hapart other hother (of_decide_eq_true hotherId) first hfirst
      (of_decide_eq_false hfirstNot) port hsecondLive hfirstLive hsecondPort)
  · exact absurd hsecondPort (hapart before hbefore (of_decide_eq_true hfirstId) second hsecond
      (of_decide_eq_false hsecondNot) port hfirstLive hsecondLive hfirstPort)
  · rw [hids.eq hbefore hother
      ((of_decide_eq_true hfirstId).trans (of_decide_eq_true hotherId).symm)]

/-- The keys of the instances are unique, and so are the ports of the live ones. -/
structure PortRows (rows : List RuntimeInstance) : Prop where
  keys : InstanceRows rows
  ports : NoSharedPort rows

theorem acquireActivationLease_ports (hs : PortRows store.instances) {input : AcquireInput}
    {instanceId leaseId : String} {claim : ActivationLeaseClaim}
    (hacquire : acquireActivationLease store input instanceId leaseId = .ok (after, claim)) :
    PortRows after.instances := by
  refine ⟨(acquireActivationLease_change True hacquire).instanceRows hs.keys, ?_⟩
  obtain ⟨-, middle, rfl, -, ⟨rfl, -⟩ | ⟨-, hinsert⟩⟩ := acquireActivationLease_spec hacquire
  · exact hs.ports
  · obtain ⟨-, rfl⟩ := insertInstance_eq_ok.mp hinsert
    apply hs.ports.insert
    intro other _ _ port hport
    cases hport

theorem adoptRuntimeInstance_ports (hs : PortRows store.instances) {deploymentId instanceId : String}
    {endpointPort : ℕ} {now : ℤ} {adopted : Option RuntimeInstance}
    (hadopt : adoptRuntimeInstance store deploymentId endpointPort instanceId now =
      .ok (after, adopted)) : PortRows after.instances := by
  refine ⟨(adoptRuntimeInstance_change True hadopt).instanceRows hs.keys, ?_⟩
  simp only [adoptRuntimeInstance] at hadopt
  split at hadopt
  · cases hadopt
    exact hs.ports
  · split at hadopt
    · cases hadopt
      exact hs.ports
    · split at hadopt
      · cases hadopt
        exact hs.ports
      · next hfree =>
          obtain ⟨inserted, hinsert, hresult⟩ := Outcome.bind_eq_ok.mp hadopt
          cases hresult
          obtain ⟨hid, rfl⟩ := insertInstance_eq_ok.mp hinsert
          apply hs.ports.insert
          intro other hother hlive port hport
          have hport : port = endpointPort := (Option.some.inj hport).symm
          have hfree : store.portTaken instanceId endpointPort = false := by simpa using hfree
          rw [hport]
          exact not_portTaken hfree hother (hid other hother) hlive

theorem updateRuntimeInstance_ports (hs : PortRows store.instances) {update : InstanceUpdate}
    {now : ℤ} {updated : Option RuntimeInstance}
    (hupdate : updateRuntimeInstance store id update now = .ok (after, updated)) :
    PortRows after.instances := by
  refine ⟨(updateRuntimeInstance_change hs.keys hupdate).instanceRows hs.keys, ?_⟩
  simp only [updateRuntimeInstance] at hupdate
  split at hupdate
  · cases hupdate
    exact hs.ports
  · next row hrow =>
      split at hupdate
      · cases hupdate
      · next hfree =>
          cases hupdate
          refine NoSharedPort.updateOne hs.keys.ids hs.ports ?_
          intro other hother hid hlive port hport
          rw [hs.keys.ids.eq_of_find? hrow hother hid] at hlive hport
          have hlive : update.status.isLive = true := hlive
          have hport : update.endpointPort.getD row.endpointPort = some port := hport
          have hrowId : row.id = id := by simpa using List.find?_some hrow
          simpa [InstanceUpdate.conflicts, hlive, hport, hrowId] using hfree

theorem reserveRuntimeInstancePort_ports (hs : PortRows store.instances) :
    PortRows (reserveRuntimeInstancePort store id port).1.instances := by
  refine ⟨(reserveRuntimeInstancePort_change True store id port).instanceRows hs.keys, ?_⟩
  rw [reserveRuntimeInstancePort]
  split
  · exact hs.ports
  · next row hrow =>
      split
      · exact hs.ports
      · next hfree =>
          refine NoSharedPort.updateOne hs.keys.ids hs.ports ?_
          intro other hother hid hlive port' hport
          rw [hs.keys.ids.eq_of_find? hrow hother hid] at hlive
          have hlive : row.status.isLive = true := hlive
          have hport : port' = port := (Option.some.inj hport).symm
          rw [hport]
          simpa [hlive] using hfree

theorem claimIdleRuntimeInstances_ports (hs : PortRows store.instances) (now idleTtlMs : ℤ)
    (picked : List String) :
    PortRows (claimIdleRuntimeInstances store now idleTtlMs picked).1.instances := by
  refine ⟨(claimIdleRuntimeInstances_change True store now idleTtlMs picked).instanceRows hs.keys, ?_⟩
  apply hs.ports.update
  · intro row _ hdrains
    simp only [Store.drains, Bool.and_eq_true, decide_eq_true_eq] at hdrains
    rw [hdrains.1.2]
    rfl
  · exact fun _ => rfl

theorem PortRows.filter (hs : PortRows rows) (p : RuntimeInstance → Bool) :
    PortRows (rows.filter p) := by
  have hsub : (rows.filter p).Sublist rows := List.filter_sublist
  refine ⟨⟨(hsub.map _).nodup hs.keys.ids, (hsub.map _).nodup hs.keys.generations⟩, ?_⟩
  exact fun first hfirst second hsecond =>
    hs.ports first (hsub.subset hfirst) second (hsub.subset hsecond)

/-- What a call for a port does to the store. -/
theorem advance_ports (hs : PortRows store.instances) {inFlight : List ℕ} {allocation : Allocation}
    {answer : Answer} {phase : AllocationPhase}
    (hadvance : advance store inFlight allocation answer = some (after, phase)) :
    PortRows after.instances := by
  unfold advance at hadvance
  split at hadvance <;> cases hadvance <;>
    first
    | exact hs
    | exact reserveRuntimeInstancePort_ports hs

/-- A reservation that goes through has reserved the port. -/
theorem reserveRuntimeInstancePort_reserved (hs : PortRows store.instances)
    (hreserved : (reserveRuntimeInstancePort store id port).2 = true) :
    Reserved (reserveRuntimeInstancePort store id port).1 id port := by
  have hafter : NoSharedPort (reserveRuntimeInstancePort store id port).1.instances :=
    (reserveRuntimeInstancePort_ports hs).ports
  cases hrow : store.getRuntimeInstance id with
  | none =>
      rw [reserveRuntimeInstancePort, hrow] at hreserved
      cases hreserved
  | some row =>
      have hid : row.id = id := by simpa using List.find?_some hrow
      cases hfree : row.status.isLive && store.portTaken id port with
      | true =>
          rw [reserveRuntimeInstancePort, hrow] at hreserved
          simp [hfree] at hreserved
      | false =>
          have hstore : (reserveRuntimeInstancePort store id port).1 = { store with
              instances := Table.updateWhere (fun r => r.id = id)
                (fun r => { r with endpointPort := some port }) store.instances } := by
            rw [reserveRuntimeInstancePort, hrow]
            simp [hfree]
          rw [hstore] at hafter ⊢
          have hfound : Store.getRuntimeInstance { store with
              instances := Table.updateWhere (fun r => r.id = id)
                (fun r => { r with endpointPort := some port }) store.instances } id =
              some { row with endpointPort := some port } := by
            rw [Store.getRuntimeInstance, Table.find?_updateWhere (fun _ => by rfl)]
            have hrow : store.instances.find? (fun r => r.id = id) = some row := hrow
            rw [hrow, Option.map_some, decide_eq_true hid, if_pos rfl]
          refine ⟨_, hfound, rfl, fun other hother hlive hotherLive hport => ?_⟩
          exact hafter other hother _ (List.mem_of_find?_eq_some hfound) port hotherLive hlive
            hport rfl

/-! ## The loop ends -/

def AllocationPhase.isEnded : AllocationPhase → Bool
  | .returned _ => true
  | .threw => true
  | _ => false

/-- How many steps a call can still take, at most. -/
def AllocationPhase.weight : AllocationPhase → ℕ
  | .considering ports => 3 * ports.length + 1
  | .probing _ rest => 3 * rest.length + 3
  | .reserving _ rest => 3 * rest.length + 2
  | .returned _ => 0
  | .threw => 0

theorem weight_consider (input : AllocationInput) (inFlight : List ℕ) (ports : List ℕ) :
    (consider input inFlight ports).weight < (AllocationPhase.considering ports).weight := by
  cases ports with
  | nil => exact Nat.zero_lt_one
  | cons port rest =>
      simp only [consider]
      split
      · simp only [AllocationPhase.weight, List.length_cons]
        omega
      · split
        · simp only [AllocationPhase.weight, List.length_cons]
          omega
        · simp only [AllocationPhase.weight, List.length_cons]
          omega

/-- Whatever is answered, a step of a call brings its end closer. -/
theorem advance_weight {inFlight : List ℕ} {allocation : Allocation} {answer : Answer}
    {phase : AllocationPhase}
    (hadvance : advance store inFlight allocation answer = some (after, phase)) :
    phase.weight < allocation.phase.weight := by
  obtain ⟨instanceId, input, before⟩ := allocation
  cases before with
  | considering ports =>
      cases hadvance
      exact weight_consider input inFlight ports
  | probing port rest =>
      cases answer with
      | throws =>
          cases hadvance
          exact Nat.succ_pos _
      | free available =>
          cases available <;> cases hadvance
          · simp only [AllocationPhase.weight]
            omega
          · exact Nat.lt_succ_self _
  | reserving port rest =>
      cases answer with
      | throws =>
          cases hadvance
          exact Nat.succ_pos _
      | free available =>
          cases hadvance
          by_cases hreserved : (reserveRuntimeInstancePort store instanceId port).2 = true
          · simp [hreserved, AllocationPhase.weight]
          · simp [hreserved, AllocationPhase.weight]
  | returned port => cases hadvance
  | threw => cases hadvance

/-- A call that has not ended takes a step, whatever is answered. -/
theorem advance_isSome (store : Store) (inFlight : List ℕ) {allocation : Allocation}
    (answer : Answer) (hopen : allocation.phase.isEnded = false) :
    ∃ result, advance store inFlight allocation answer = some result := by
  unfold advance
  cases hphase : allocation.phase with
  | considering ports => exact ⟨_, rfl⟩
  | probing port rest =>
      cases answer with
      | throws => exact ⟨_, rfl⟩
      | free available => cases available <;> exact ⟨_, rfl⟩
  | reserving port rest => cases answer <;> exact ⟨_, rfl⟩
  | returned port =>
      rw [hphase] at hopen
      cases hopen
  | threw =>
      rw [hphase] at hopen
      cases hopen

/-- A call returns the port that it has just reserved. -/
theorem advance_returned {inFlight : List ℕ} {allocation : Allocation} {answer : Answer}
    (hadvance : advance store inFlight allocation answer = some (after, .returned port)) :
    (reserveRuntimeInstancePort store allocation.instanceId port).2 = true ∧
      after = (reserveRuntimeInstancePort store allocation.instanceId port).1 := by
  obtain ⟨instanceId, input, before⟩ := allocation
  cases before with
  | considering ports =>
      obtain ⟨-, hphase⟩ := Prod.mk.inj (Option.some.inj hadvance)
      cases ports with
      | nil => cases hphase
      | cons first rest =>
          simp only [consider] at hphase
          split at hphase
          · cases hphase
          · split at hphase <;> cases hphase
  | probing tried rest =>
      cases answer with
      | throws => cases hadvance
      | free available => cases available <;> cases hadvance
  | reserving tried rest =>
      cases answer with
      | throws => cases hadvance
      | free available =>
          obtain ⟨hafter, hphase⟩ := Prod.mk.inj (Option.some.inj hadvance)
          split at hphase
          · next hreserved =>
              cases hphase
              exact ⟨hreserved, hafter.symm⟩
          · cases hphase
  | returned tried => cases hadvance
  | threw => cases hadvance

/-! ## Every run -/

variable {s t : System} {i : ℕ}

theorem commit_ports {α : Type} {result : Except String (Store × α)}
    (hs : PortRows s.store.instances)
    (hresult : ∀ store value, result = .ok (store, value) → PortRows store.instances) :
    PortRows (s.commit result).store.instances := by
  cases result with
  | error e => exact hs
  | ok pair => exact hresult pair.1 pair.2 rfl

/-- Every step keeps one live instance for a port. -/
theorem ports_step {a : Action} (hs : PortRows s.store.instances) (hstep : step s a = some t) :
    PortRows t.store.instances := by
  cases a with
  | acquireActivationLease input instanceId leaseId =>
      cases hstep
      exact commit_ports hs fun _ _ h => acquireActivationLease_ports hs h
  | adoptRuntimeInstance deploymentId endpointPort instanceId now =>
      cases hstep
      exact commit_ports hs fun _ _ h => adoptRuntimeInstance_ports hs h
  | updateRuntimeInstance id update now =>
      cases hstep
      exact commit_ports hs fun _ _ h => updateRuntimeInstance_ports hs h
  | reserveRuntimeInstancePort id port =>
      cases hstep
      exact reserveRuntimeInstancePort_ports hs
  | claimIdleRuntimeInstances now idleTtlMs picked =>
      cases hstep
      exact claimIdleRuntimeInstances_ports hs now idleTtlMs picked
  | changeDeployments deployments deleted =>
      cases hstep
      exact hs.filter _
  | claimInFlightPort port =>
      cases hstep
      exact hs
  | releaseInFlightPort port =>
      cases hstep
      exact hs
  | allocate instanceId input =>
      cases hstep
      exact hs
  | resolve instanceId systemd ownership available startPort endPort =>
      obtain ⟨current, -, hstep⟩ := Option.bind_eq_some_iff.mp hstep
      obtain ⟨deployment, -, rfl⟩ := Option.map_eq_some_iff.mp hstep
      split <;> exact hs
  | advance i answer =>
      obtain ⟨allocation, -, hstep⟩ := Option.bind_eq_some_iff.mp hstep
      obtain ⟨result, hadvance, rfl⟩ := Option.map_eq_some_iff.mp hstep
      exact advance_ports hs hadvance

theorem ports_of_reachable (hs : machine.Reachable s) : PortRows s.store.instances := by
  apply hs.invariant (I := fun s => PortRows s.store.instances)
  · intro s hinit
    rw [hinit.1]
    exact ⟨⟨List.nodup_nil, List.nodup_nil⟩, fun first hfirst => nomatch hfirst⟩
  · exact fun s a t hs hstep => ports_step hs hstep

/-- A step of the `i`-th call. -/
def Action.advances (i : ℕ) : Action → Bool
  | .advance j _ => i = j
  | _ => false

/-- Another step leaves a call where it is, and a step of its own brings its end closer. -/
theorem weight_step {a : Action} {allocation : Allocation} (hi : s.allocations[i]? = some allocation)
    (hstep : step s a = some t) :
    ∃ later, t.allocations[i]? = some later ∧
      later.phase.weight + (if a.advances i then 1 else 0) ≤ allocation.phase.weight := by
  have hbegin : ∀ instanceId input, (s.begin instanceId input).allocations[i]? = some allocation :=
    fun instanceId input => by
      rw [System.begin, List.getElem?_append_left (List.getElem?_eq_some_iff.mp hi).1, hi]
  have hcommit : ∀ {α : Type} (result : Except String (Store × α)),
      (s.commit result).allocations[i]? = some allocation := by
    intro α result
    cases result <;> exact hi
  cases a with
  | acquireActivationLease input instanceId leaseId =>
      cases hstep
      exact ⟨allocation, hcommit _, Nat.le_refl _⟩
  | adoptRuntimeInstance deploymentId endpointPort instanceId now =>
      cases hstep
      exact ⟨allocation, hcommit _, Nat.le_refl _⟩
  | updateRuntimeInstance id update now =>
      cases hstep
      exact ⟨allocation, hcommit _, Nat.le_refl _⟩
  | reserveRuntimeInstancePort id port =>
      cases hstep
      exact ⟨allocation, hi, Nat.le_refl _⟩
  | claimIdleRuntimeInstances now idleTtlMs picked =>
      cases hstep
      exact ⟨allocation, hi, Nat.le_refl _⟩
  | changeDeployments deployments deleted =>
      cases hstep
      exact ⟨allocation, hi, Nat.le_refl _⟩
  | claimInFlightPort port =>
      cases hstep
      exact ⟨allocation, hi, Nat.le_refl _⟩
  | releaseInFlightPort port =>
      cases hstep
      exact ⟨allocation, hi, Nat.le_refl _⟩
  | allocate instanceId input =>
      cases hstep
      exact ⟨allocation, hbegin _ _, Nat.le_refl _⟩
  | resolve instanceId systemd ownership available startPort endPort =>
      obtain ⟨current, -, hstep⟩ := Option.bind_eq_some_iff.mp hstep
      obtain ⟨deployment, -, rfl⟩ := Option.map_eq_some_iff.mp hstep
      refine ⟨allocation, ?_, Nat.le_refl _⟩
      split
      · exact hi
      · exact hbegin _ _
      · exact hbegin _ _
  | advance j answer =>
      obtain ⟨moved, hj, hstep⟩ := Option.bind_eq_some_iff.mp hstep
      obtain ⟨result, hadvance, rfl⟩ := Option.map_eq_some_iff.mp hstep
      by_cases hij : i = j
      · subst hij
        rw [hi] at hj
        cases hj
        refine ⟨_, List.getElem?_set_self (List.getElem?_eq_some_iff.mp hi).1, ?_⟩
        have := advance_weight hadvance
        simp only [Action.advances, decide_true, if_true]
        omega
      · refine ⟨allocation, ?_, ?_⟩
        · rw [List.getElem?_set_ne (Ne.symm hij)]
          exact hi
        · simp [Action.advances, hij]

/-- A call takes no more steps than its weight. -/
theorem advances_le {run : List Action} {allocation : Allocation}
    (hi : s.allocations[i]? = some allocation) (hrun : machine.exec s run = some t) :
    run.countP (Action.advances i) ≤ allocation.phase.weight := by
  induction run generalizing s allocation with
  | nil => exact Nat.zero_le _
  | cons a run ih =>
      obtain ⟨m, hm, hrest⟩ := machine.exec_cons_eq_some.mp hrun
      obtain ⟨later, hlater, hweight⟩ := weight_step hi hm
      have hcount := ih hlater hrest
      rw [List.countP_cons]
      omega

/-- Two deployments that prefer one port. -/
def emptyHost : System :=
  ⟨⟨[⟨"d1", "p1", .running, 18000⟩, ⟨"d2", "p2", .running, 18000⟩], [], []⟩, [], []⟩

/-- Both are activated; the second loses the preferred port, and a port that was found free is
reserved by the first instance's job in between. -/
def racingRun : List Action :=
  [.acquireActivationLease ⟨"d1", .turn, "one", 100, 0⟩ "i1" "l1",
    .acquireActivationLease ⟨"d2", .turn, "two", 100, 0⟩ "i2" "l2",
    .resolve "i1" true .unbound true 18000 18100, .resolve "i2" true .unbound true 18000 18002,
    .advance 0 (.free true), .advance 1 (.free true), .advance 0 (.free true),
    .advance 1 (.free true), .advance 1 (.free true), .advance 1 (.free true)]

/-- The state after `racingRun`. -/
def raced : System := (machine.exec emptyHost racingRun).getD emptyHost

end Eveland.PortAllocation
