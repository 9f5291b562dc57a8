/-
# Create-once operations agree on one deployment

Requests that race to create the session of one operation may resolve different targets. The
first of them to commit its operation binding decides: the binding's row is the only one of
its key from then on, a request that finds it or meets it as a conflict is held to it, and so
every request of the operation that reaches an upstream reaches the same deployment.
-/

import Eveland.Gateway.Effects

namespace Eveland.Gateway

variable {config : Config}

/-! ## The first committed binding -/

/-- The operation binding of a key that was committed first. -/
def firstCommitted (commits : List OperationBinding) (key : String × String) :
    Option OperationBinding :=
  commits.find? fun row => row.key = key

/-- The row names the deployment that the first committed binding of its key names. -/
def Agrees (commits : List OperationBinding) (row : OperationBinding) : Prop :=
  ∃ first, firstCommitted commits row.key = some first ∧ row.deploymentId = first.deploymentId

theorem firstCommitted_key {commits : List OperationBinding} {key : String × String}
    {first : OperationBinding} (hfirst : firstCommitted commits key = some first) :
    first ∈ commits ∧ first.key = key :=
  ⟨List.mem_of_find?_eq_some hfirst, by simpa using List.find?_some hfirst⟩

/-- Later commits do not displace the first one. -/
theorem firstCommitted_append {commits more : List OperationBinding} {key : String × String}
    {first : OperationBinding} (hfirst : firstCommitted commits key = some first) :
    firstCommitted (commits ++ more) key = some first := by
  rw [firstCommitted] at hfirst ⊢
  rw [List.find?_append, hfirst]
  rfl

theorem Agrees.append {commits : List OperationBinding} {row : OperationBinding}
    (hagrees : Agrees commits row) (more : List OperationBinding) :
    Agrees (commits ++ more) row := by
  obtain ⟨first, hfirst, hdeployment⟩ := hagrees
  exact ⟨first, firstCommitted_append hfirst, hdeployment⟩

/-- The commit of a new key is the first of that key. -/
theorem Agrees.of_fresh {commits : List OperationBinding} {row : OperationBinding}
    (hfresh : ∀ earlier ∈ commits, earlier.key ≠ row.key) : Agrees (commits ++ [row]) row := by
  refine ⟨row, ?_, rfl⟩
  have hnone : commits.find? (fun earlier => earlier.key = row.key) = none :=
    List.find?_eq_none.mpr fun earlier hearlier => by simpa using hfresh earlier hearlier
  rw [firstCommitted, List.find?_append, hnone]
  simp

/-- Rows that agree with one history agree with each other. -/
theorem Agrees.deploymentId_eq {commits : List OperationBinding} {row other : OperationBinding}
    (hrow : Agrees commits row) (hother : Agrees commits other) (hkey : row.key = other.key) :
    row.deploymentId = other.deploymentId := by
  obtain ⟨first, hfirst, hdeployment⟩ := hrow
  obtain ⟨first', hfirst', hdeployment'⟩ := hother
  rw [hkey, hfirst'] at hfirst
  rw [hdeployment, hdeployment', Option.some.inj hfirst]

/-! ## Invariants -/

/-- The stored bindings: one for each key, each naming the deployment committed first, and
one for every key that was ever committed while its project exists. -/
structure StoreAgrees (commits : List OperationBinding) (s : Store) : Prop where
  unique : Table.UniqueOn OperationBinding.key s.operationBindings
  agrees : ∀ row ∈ s.operationBindings, Agrees commits row
  kept : ∀ row ∈ commits, row.projectId ∈ s.projects → ∃ kept ∈ s.operationBindings,
    kept.key = row.key

/-- The binding a request is held to is one of its own operation and agrees with the first. -/
def Held (config : Config) (commits : List OperationBinding) (a : Arrival)
    (operation : Option OperationBinding) : Prop :=
  ∀ row, operation = some row →
    a.operationKey config = some row.operationKey ∧ row.projectId = a.route.projectId ∧
      Agrees commits row

/-- A request of an operation is held to a binding, and its target is the binding's. -/
def Follows (config : Config) (a : Arrival) (operation : Option OperationBinding)
    (target : Target) : Prop :=
  ∀ operationKey, a.operationKey config = some operationKey →
    ∃ row, operation = some row ∧ target.deploymentId = row.deploymentId

/-- What is known of a request in each phase. -/
def PhaseAgrees (config : Config) (commits : List OperationBinding) (a : Arrival) :
    Phase → Prop
  | .findOperation => True
  | .touchOperation operationKey => a.operationKey config = some operationKey
  | .findSession operation => Held config commits a operation
  | .touchSession operation _ =>
      Held config commits a operation ∧ a.operationKey config = none
  | .resolve operation binding =>
      Held config commits a operation ∧ (binding = none ∨ a.operationKey config = none)
  | .gate operation target =>
      Held config commits a operation ∧
        ∀ row, operation = some row → target.deploymentId = row.deploymentId
  | .insertOperation operationKey _ => a.operationKey config = some operationKey
  | .commitOperation target row =>
      a.operationKey config = some row.operationKey ∧ row.projectId = a.route.projectId ∧
        target.deploymentId = row.deploymentId
  | .selectOperation operationKey _ => a.operationKey config = some operationKey
  | .activate operation target => Held config commits a operation ∧ Follows config a operation target
  | .forward operation target _ =>
      Held config commits a operation ∧ Follows config a operation target
  | .await operation target => Held config commits a operation ∧ Follows config a operation target
  | .bindSession operation target _ =>
      Held config commits a operation ∧ Follows config a operation target
  | .done _ => True

/-- A request that reached an upstream reached the deployment of the first committed binding
of its operation. -/
def ForwardAgrees (commits : List OperationBinding) (f : Forward) : Prop :=
  ∀ operationKey, f.operationKey = some operationKey →
    ∃ first, firstCommitted commits (f.projectId, operationKey) = some first ∧
      f.deploymentId = first.deploymentId

/-- **Agreement.** -/
structure Agreement (config : Config) (s : State) : Prop where
  store : StoreAgrees s.commits s.store
  requests : ∀ request ∈ s.requests, PhaseAgrees config s.commits request.arrival request.phase
  /-- A row that is not committed yet has a key that was never committed. -/
  fresh : ∀ request ∈ s.requests, ∀ row, request.phase.uncommitted = some row →
    ∀ earlier ∈ s.commits, earlier.key ≠ row.key
  /-- Two transactions never hold rows of one key. -/
  exclusive : ∀ (i j : ℕ) (first second : Request) (row other : OperationBinding),
    s.requests[i]? = some first → s.requests[j]? = some second →
    first.phase.uncommitted = some row → second.phase.uncommitted = some other →
    row.key = other.key → i = j
  forwards : ∀ f ∈ s.forwards, ForwardAgrees s.commits f

/-! ## What a step preserves -/

theorem Held.none {commits : List OperationBinding} {a : Arrival} :
    Held config commits a none := fun _ h => nomatch h

theorem Held.append {commits : List OperationBinding} {a : Arrival}
    {operation : Option OperationBinding} (hheld : Held config commits a operation)
    (more : List OperationBinding) : Held config (commits ++ more) a operation := fun row hrow =>
  ⟨(hheld row hrow).1, (hheld row hrow).2.1, (hheld row hrow).2.2.append more⟩

/-- What is known of a request stays known as others commit. -/
theorem PhaseAgrees.append {commits : List OperationBinding} {a : Arrival} {phase : Phase}
    (hphase : PhaseAgrees config commits a phase) (more : List OperationBinding) :
    PhaseAgrees config (commits ++ more) a phase := by
  cases phase with
  | findSession operation => exact Held.append hphase more
  | touchSession operation found => exact ⟨hphase.1.append more, hphase.2⟩
  | resolve operation binding => exact ⟨hphase.1.append more, hphase.2⟩
  | gate operation target => exact ⟨hphase.1.append more, hphase.2⟩
  | activate operation target => exact ⟨hphase.1.append more, hphase.2⟩
  | forward operation target port => exact ⟨hphase.1.append more, hphase.2⟩
  | await operation target => exact ⟨hphase.1.append more, hphase.2⟩
  | bindSession operation target eveSessionId => exact ⟨hphase.1.append more, hphase.2⟩
  | _ => exact hphase

/-- The binding that `bindOperation` returns holds the request from then on, whichever target
the request had resolved before. -/
theorem afterClaim_agrees {commits : List OperationBinding} {a : Arrival} {target : Target}
    {claimed : OperationBinding} (hheld : Held config commits a (some claimed)) :
    PhaseAgrees config commits a (afterClaim target claimed) := by
  unfold afterClaim
  split
  · exact ⟨hheld, Or.inl rfl⟩
  · next hsame => exact ⟨hheld, fun _ _ => ⟨claimed, rfl, by simpa using Eq.symm (not_not.mp hsame)⟩⟩

/-- A request that has passed the version gate binds its operation, unless it is held to a
binding already. -/
theorem afterGate_agrees {commits : List OperationBinding} {a : Arrival}
    {operation : Option OperationBinding} {target : Target}
    (hheld : Held config commits a operation)
    (hfollows : ∀ row, operation = some row → target.deploymentId = row.deploymentId) :
    PhaseAgrees config commits a (afterGate config a operation target) := by
  cases hkey : a.operationKey config with
  | none =>
      simp only [afterGate, hkey]
      exact ⟨hheld, fun operationKey h => by simp [hkey] at h⟩
  | some operationKey =>
      cases operation with
      | none =>
          simp only [afterGate, hkey]
          exact hkey
      | some row =>
          simp only [afterGate, hkey]
          exact ⟨hheld, fun _ _ => ⟨row, rfl, hfollows row rfl⟩⟩

/-- A stored binding found under a request's key may hold the request. -/
theorem StoreAgrees.held {commits : List OperationBinding} {s : Store} {a : Arrival}
    (hstore : StoreAgrees commits s) {operationKey : String} {row : OperationBinding}
    (hkey : a.operationKey config = some operationKey)
    (hrow : s.findOperationBinding a.route.projectId operationKey = some row) :
    Held config commits a (some row) := by
  intro held hheld
  obtain rfl := Option.some.inj hheld
  have hfound := List.find?_some hrow
  simp only [OperationBinding.key, Prod.mk.injEq, decide_eq_true_eq] at hfound
  exact ⟨by rw [hkey, hfound.2], hfound.1, hstore.agrees row (List.mem_of_find?_eq_some hrow)⟩

theorem StoreAgrees.touch {commits : List OperationBinding} {s : Store}
    (hstore : StoreAgrees commits s) (projectId operationKey : String) (now : ℤ) :
    StoreAgrees commits (s.touchOperationBinding projectId operationKey now) := by
  refine ⟨hstore.unique.updateWhere fun row => rfl, fun row hrow => ?_, fun row hrow hproject => ?_⟩
  · rcases Table.mem_updateWhere.mp hrow with ⟨hold, _⟩ | ⟨old, hold, _, rfl⟩
    · exact hstore.agrees row hold
    · exact hstore.agrees old hold
  · obtain ⟨kept, hkept, hkey⟩ := hstore.kept row hrow hproject
    by_cases htouched : kept.key = (projectId, operationKey)
    · exact ⟨{ kept with updatedAt := now },
        Table.mem_updateWhere.mpr (Or.inr ⟨kept, hkept, by simpa using htouched, rfl⟩), hkey⟩
    · exact ⟨kept, Table.mem_updateWhere_of_not hkept (by simpa using htouched), hkey⟩

/-- Committing a row of a new key. -/
theorem StoreAgrees.commit {commits : List OperationBinding} {s : Store}
    (hstore : StoreAgrees commits s) {row : OperationBinding}
    (hfresh : ∀ earlier ∈ commits, earlier.key ≠ row.key) :
    StoreAgrees (commits ++ [row]) (s.commitOperationBinding row) := by
  refine ⟨hstore.unique.append fun stored hstored hkey => ?_, fun stored hstored => ?_,
    fun earlier hearlier hproject => ?_⟩
  · obtain ⟨first, hfirst, _⟩ := hstore.agrees stored hstored
    obtain ⟨hmem, hfirstKey⟩ := firstCommitted_key hfirst
    exact hfresh first hmem (hfirstKey.trans hkey)
  · rcases List.mem_append.mp hstored with hold | hnew
    · exact (hstore.agrees stored hold).append [row]
    · rw [List.mem_singleton.mp hnew]
      exact Agrees.of_fresh hfresh
  · rcases List.mem_append.mp hearlier with hold | hnew
    · obtain ⟨kept, hkept, hkey⟩ := hstore.kept earlier hold hproject
      exact ⟨kept, List.mem_append_left _ hkept, hkey⟩
    · exact ⟨row, List.mem_append_right _ (List.mem_singleton_self row),
        by rw [List.mem_singleton.mp hnew]⟩

theorem StoreAgrees.deleteProject {commits : List OperationBinding} {s : Store}
    (hstore : StoreAgrees commits s) (projectId : String) :
    StoreAgrees commits (s.deleteProject projectId) := by
  refine ⟨hstore.unique.sublist (List.filter_sublist.map _), fun row hrow =>
    hstore.agrees row (List.mem_of_mem_filter hrow), fun row hrow hproject => ?_⟩
  obtain ⟨hproject, hother⟩ := List.mem_filter.mp hproject
  obtain ⟨kept, hkept, hkey⟩ := hstore.kept row hrow hproject
  have hsame : kept.projectId = row.projectId := congrArg Prod.fst hkey
  exact ⟨kept, List.mem_filter.mpr ⟨hkept, by rw [hsame]; exact hother⟩, hkey⟩

variable {s : Store} {conflicting : String × String → Bool} {a : Arrival} {phase : Phase}
  {result : StepResult}

/-- A step keeps the table in agreement with the history. -/
theorem Advances.storeAgrees {commits : List OperationBinding} (hstore : StoreAgrees commits s)
    (hfresh : ∀ row, phase.uncommitted = some row → ∀ earlier ∈ commits, earlier.key ≠ row.key)
    (hadvances : Advances config s conflicting a phase result) :
    StoreAgrees (commits ++ result.committed.toList) result.store := by
  have hsame : ∀ t : Store, t.projects = s.projects →
      t.operationBindings = s.operationBindings → StoreAgrees (commits ++ []) t := by
    intro t hprojects hrows
    rw [List.append_nil]
    exact ⟨hrows ▸ hstore.unique, hrows ▸ hstore.agrees, hrows ▸ hprojects ▸ hstore.kept⟩
  cases hadvances with
  | committed target row => exact hstore.commit (hfresh row rfl)
  | touched operationKey now => simpa using hstore.touch a.route.projectId operationKey now
  | touchedNone operationKey now => simpa using hstore.touch a.route.projectId operationKey now
  | _ => exact hsame _ rfl rfl

/-- A step keeps what is known of its request. -/
theorem Advances.phaseAgrees {commits : List OperationBinding} (hstore : StoreAgrees commits s)
    (hfresh : ∀ row, phase.uncommitted = some row → ∀ earlier ∈ commits, earlier.key ≠ row.key)
    (hphase : PhaseAgrees config commits a phase)
    (hadvances : Advances config s conflicting a phase result) :
    PhaseAgrees config (commits ++ result.committed.toList) a result.phase := by
  cases hadvances with
  | quit => trivial
  | unbound => exact Held.none
  | found operationKey hkey => exact hkey
  | touched operationKey now row hrow =>
      exact ((hstore.touch _ _ now).held hphase hrow).append _
  | touchedNone => trivial
  | sessionUnbound operation => exact ⟨Held.append hphase _, Or.inl rfl⟩
  | sessionFound operation found hsession =>
      refine ⟨Held.append hphase _, ?_⟩
      -- A request that names a session is not one of an operation.
      cases hkey : a.operationKey config with
      | none => rfl
      | some operationKey => exact absurd (Arrival.sessionId_of_operationKey hkey) hsession
  | sessionTouched operation found now => exact ⟨hphase.1.append _, Or.inr hphase.2⟩
  | sessionGone => trivial
  | resolved operation binding target htarget =>
      refine ⟨hphase.1.append _, fun row hrow => ?_⟩
      subst hrow
      have hkey := (hphase.1 row rfl).1
      have hunpinned : binding = none := hphase.2.resolve_right (by simp [hkey])
      subst hunpinned
      exact resolveTarget_of_binding htarget
  | gated operation target =>
      simp only [StepResult.to_phase, StepResult.to_committed, Option.toList_none,
        List.append_nil]
      exact afterGate_agrees hphase.1 hphase.2
  | inserted operationKey target now => exact ⟨hphase, rfl, rfl⟩
  | conflicted operationKey target => exact hphase
  | committed target row =>
      apply afterClaim_agrees
      intro held hheld
      obtain rfl := Option.some.inj hheld
      exact ⟨hphase.1, hphase.2.1, Agrees.of_fresh (hfresh row rfl)⟩
  | selected operationKey target row hrow =>
      exact afterClaim_agrees (Held.append (hstore.held hphase hrow) _)
  | activated operation target port => exact ⟨hphase.1.append _, hphase.2⟩
  | forwarded operation target port => exact ⟨hphase.1.append _, hphase.2⟩
  | responded operation target eveSessionId => exact ⟨hphase.1.append _, hphase.2⟩
  | bound => trivial

/-- A request that holds an uncommitted row has inserted it in this step, under a key that no
stored row and no other transaction has, or was at its commit already and is no longer. -/
theorem Advances.uncommitted {row : OperationBinding}
    (hadvances : Advances config s conflicting a phase result)
    (hrow : result.phase.uncommitted = some row) :
    conflicting row.key = false ∧ row.projectId ∈ s.projects ∧
      s.findOperationBinding row.projectId row.operationKey = none ∧
      result.committed = none := by
  cases hadvances with
  | inserted operationKey target now hfree hnone hproject =>
      obtain rfl := Option.some.inj hrow
      exact ⟨hfree, hproject, hnone, rfl⟩
  | gated operation target =>
      simp only [StepResult.to_phase, afterGate] at hrow
      split at hrow <;> cases hrow
  | committed target claimed =>
      simp only [afterClaim] at hrow
      split at hrow <;> cases hrow
  | selected operationKey target claimed =>
      simp only [StepResult.to_phase, afterClaim] at hrow
      split at hrow <;> cases hrow
  | _ => cases hrow

/-- Only the request that inserted a row commits it. -/
theorem Advances.uncommitted_of_committed {row : OperationBinding}
    (hadvances : Advances config s conflicting a phase result)
    (hcommitted : result.committed = some row) : phase.uncommitted = some row := by
  cases hadvances with
  | committed target claimed => exact hcommitted
  | _ => cases hcommitted

/-- What a step hands to an upstream goes where the request is held to. -/
theorem Advances.forwardAgrees {commits : List OperationBinding} {f : Forward}
    (hphase : PhaseAgrees config commits a phase)
    (hadvances : Advances config s conflicting a phase result)
    (hforward : result.forwarded = some f) : ForwardAgrees commits f := by
  cases hadvances with
  | forwarded operation target port =>
      obtain rfl := Option.some.inj hforward
      intro operationKey hkey
      obtain ⟨row, hrow, hdeployment⟩ := hphase.2 operationKey hkey
      obtain ⟨hown, hproject, first, hfirst, hsame⟩ := hphase.1 row hrow
      have hrowKey : row.key = (a.route.projectId, operationKey) := by
        rw [OperationBinding.key, hproject, Option.some.inj (hown.symm.trans hkey)]
      exact ⟨first, hrowKey ▸ hfirst, hdeployment.trans hsame⟩
  | _ => cases hforward

/-! ## Runs -/

/-- A row that is about to be inserted has a key that was never committed: its project exists,
so a committed row of its key would still be stored. -/
theorem StoreAgrees.fresh {commits : List OperationBinding} (hstore : StoreAgrees commits s)
    {row : OperationBinding} (hproject : row.projectId ∈ s.projects)
    (hnone : s.findOperationBinding row.projectId row.operationKey = none) :
    ∀ earlier ∈ commits, earlier.key ≠ row.key := by
  intro earlier hearlier hkey
  have hsame : earlier.projectId = row.projectId := congrArg Prod.fst hkey
  obtain ⟨kept, hkept, hkeptKey⟩ := hstore.kept earlier hearlier (hsame ▸ hproject)
  have hmiss := List.find?_eq_none.mp hnone kept hkept
  exact hmiss (decide_eq_true (hkeptKey.trans hkey))

theorem mem_inserting {s : State} {request : Request} {row : OperationBinding}
    (hrequest : request ∈ s.requests) (hrow : request.phase.uncommitted = some row) :
    s.inserting row.key = true := by
  simp only [State.inserting, List.any_eq_true]
  exact ⟨request, hrequest, by simp [hrow]⟩

theorem getElem?_set_cases {α : Type} {l : List α} {i j : ℕ} {new found : α}
    (hfound : (l.set i new)[j]? = some found) : (j = i ∧ found = new) ∨ (j ≠ i ∧ l[j]? = some found) := by
  by_cases hij : i = j
  · subst hij
    exact Or.inl ⟨rfl, List.mem_singleton.mp (by grind)⟩
  · rw [List.getElem?_set_ne hij] at hfound
    exact Or.inr ⟨Ne.symm hij, hfound⟩

/-- A request arrives with nothing held or inserted. -/
theorem Agreement.arrive {s : State} (hagreement : Agreement config s) (arrival : Arrival) :
    Agreement config { s with requests := s.requests ++ [⟨arrival, .findOperation⟩] } := by
  refine ⟨hagreement.store, fun request hrequest => ?_, fun request hrequest row hrow => ?_, ?_,
    hagreement.forwards⟩
  · rcases List.mem_append.mp hrequest with hold | hnew
    · exact hagreement.requests request hold
    · rw [List.mem_singleton.mp hnew]
      trivial
  · rcases List.mem_append.mp hrequest with hold | hnew
    · exact hagreement.fresh request hold row hrow
    · rw [List.mem_singleton.mp hnew] at hrow
      cases hrow
  · intro i j first second row other hfirst hsecond hrow hother hkey
    have hold : ∀ (i : ℕ) (request : Request) (row : OperationBinding),
        (s.requests ++ [⟨arrival, .findOperation⟩])[i]? = some request →
        request.phase.uncommitted = some row → s.requests[i]? = some request := by
      intro i request row hrequest hrow
      by_cases hi : i < s.requests.length
      · rwa [List.getElem?_append_left hi] at hrequest
      · rw [List.getElem?_append_right (by omega)] at hrequest
        obtain rfl := List.mem_singleton.mp (List.mem_of_getElem? hrequest)
        cases hrow
    exact hagreement.exclusive i j first second row other (hold i first row hfirst hrow)
      (hold j second other hsecond hother) hrow hother hkey

/-- A step of one request keeps the agreement of all. -/
theorem Agreement.commit {s : State} (hagreement : Agreement config s) {index : ℕ}
    {request : Request} {result : StepResult} (hrequest : s.requests[index]? = some request)
    (hadvances :
      Advances config s.store s.inserting request.arrival request.phase result) :
    Agreement config (s.commit index request.arrival result) := by
  have hmem := List.mem_of_getElem? hrequest
  have hphase := hagreement.requests request hmem
  have hfresh := hagreement.fresh request hmem
  have hstore := hadvances.storeAgrees hagreement.store hfresh
  refine ⟨hstore, fun other hother => ?_, fun other hother row hrow => ?_, ?_, fun f hf => ?_⟩
  · rcases List.mem_or_eq_of_mem_set hother with hold | rfl
    · exact (hagreement.requests other hold).append _
    · exact hadvances.phaseAgrees hagreement.store hfresh hphase
  · obtain ⟨position, hposition⟩ := List.mem_iff_getElem?.mp hother
    rcases getElem?_set_cases hposition with ⟨rfl, rfl⟩ | ⟨hne, hold⟩
    · obtain ⟨_, hproject, hnone, hcommitted⟩ := hadvances.uncommitted hrow
      simp only [State.commit, hcommitted, Option.toList_none, List.append_nil]
      exact hagreement.store.fresh hproject hnone
    · intro earlier hearlier hkey
      rcases List.mem_append.mp hearlier with hbefore | hnow
      · exact hagreement.fresh other (List.mem_of_getElem? hold) row hrow earlier hbefore hkey
      · -- The row committed now was inserted by this request, and no two hold one key.
        have huncommitted := hadvances.uncommitted_of_committed (Option.mem_toList.mp hnow)
        exact hne (hagreement.exclusive position index other request row earlier hold hrequest
          hrow huncommitted hkey.symm)
  · intro i j first second row other hfirst hsecond hrow hother hkey
    rcases getElem?_set_cases hfirst with ⟨rfl, rfl⟩ | ⟨_, hfirstOld⟩ <;>
      rcases getElem?_set_cases hsecond with ⟨rfl, rfl⟩ | ⟨_, hsecondOld⟩
    · rfl
    · obtain ⟨hfree, _⟩ := hadvances.uncommitted hrow
      rw [hkey, mem_inserting (List.mem_of_getElem? hsecondOld) hother] at hfree
      cases hfree
    · obtain ⟨hfree, _⟩ := hadvances.uncommitted hother
      rw [← hkey, mem_inserting (List.mem_of_getElem? hfirstOld) hrow] at hfree
      cases hfree
    · exact hagreement.exclusive i j first second row other hfirstOld hsecondOld hrow hother hkey
  · rcases List.mem_append.mp hf with hold | hnew
    · intro operationKey hkey
      obtain ⟨first, hfirst, hdeployment⟩ := hagreement.forwards f hold operationKey hkey
      exact ⟨first, firstCommitted_append hfirst, hdeployment⟩
    · intro operationKey hkey
      obtain ⟨first, hfirst, hdeployment⟩ :=
        hadvances.forwardAgrees hphase (Option.mem_toList.mp hnew) operationKey hkey
      exact ⟨first, firstCommitted_append hfirst, hdeployment⟩

theorem Agreement.step {s t : State} {action : Action} (hagreement : Agreement config s)
    (hstep : step config s action = some t) : Agreement config t := by
  cases action with
  | arrive arrival =>
      simp only [Gateway.step] at hstep
      split at hstep <;> cases hstep
      exact hagreement.arrive arrival
  | request index move =>
      obtain ⟨request, hrequest, hresult⟩ := Option.bind_eq_some_iff.mp hstep
      obtain ⟨result, hadvance, rfl⟩ := Option.map_eq_some_iff.mp hresult
      exact hagreement.commit hrequest (advance_cases hadvance)
  | putDeployment deployment =>
      cases hstep
      exact ⟨⟨hagreement.store.unique, hagreement.store.agrees, hagreement.store.kept⟩,
        hagreement.requests, hagreement.fresh, hagreement.exclusive, hagreement.forwards⟩
  | deleteProject projectId =>
      simp only [Gateway.step] at hstep
      split at hstep <;> cases hstep
      exact ⟨hagreement.store.deleteProject projectId, hagreement.requests, hagreement.fresh,
        hagreement.exclusive, hagreement.forwards⟩

theorem Agreement.init {s : State} (hinit : (machine config).init s) : Agreement config s := by
  obtain ⟨hrequests, hcommits, hforwards, _, hrows⟩ := hinit
  refine ⟨⟨?_, ?_, ?_⟩, ?_, ?_, ?_, ?_⟩
  · simp [Table.UniqueOn, hrows]
  · simp [hrows]
  · simp [hcommits]
  · simp [hrequests]
  · simp [hrequests]
  · simp [hrequests]
  · simp [hforwards]

theorem reachable_agreement {s : State} (hs : (machine config).Reachable s) :
    Agreement config s :=
  hs.invariant (fun _ => Agreement.init) fun _ _ _ hagreement hstep => hagreement.step hstep

/-- The history of commits only grows. -/
theorem step_commits {s t : State} {action : Action} (hstep : step config s action = some t) :
    ∃ more, t.commits = s.commits ++ more := by
  cases action with
  | arrive arrival =>
      simp only [Gateway.step] at hstep
      split at hstep <;> cases hstep
      exact ⟨[], (List.append_nil _).symm⟩
  | request index move =>
      obtain ⟨request, _, hresult⟩ := Option.bind_eq_some_iff.mp hstep
      obtain ⟨result, _, rfl⟩ := Option.map_eq_some_iff.mp hresult
      exact ⟨result.committed.toList, rfl⟩
  | putDeployment deployment => cases hstep; exact ⟨[], (List.append_nil _).symm⟩
  | deleteProject projectId =>
      simp only [Gateway.step] at hstep
      split at hstep <;> cases hstep
      exact ⟨[], (List.append_nil _).symm⟩

theorem exec_commits {s t : State} {actions : List Action}
    (hrun : (machine config).exec s actions = some t) :
    ∃ more, t.commits = s.commits ++ more := by
  refine (machine config).exec_invariant (I := fun u => ∃ more, u.commits = s.commits ++ more)
    (fun u action v hu _ hstep => ?_) ⟨[], (List.append_nil _).symm⟩
    ((machine config).meets_true s actions) hrun
  obtain ⟨before, hbefore⟩ := hu
  obtain ⟨more, hmore⟩ := step_commits hstep
  exact ⟨before ++ more, by rw [hmore, hbefore, List.append_assoc]⟩

/-- **Create-once operations agree on one deployment.** In every reachable state, each request
of an operation that reached an upstream reached the deployment of the operation's first
committed binding; the stored binding names that deployment; and no later state of the binding
names another. -/
theorem operations_agree (config : Config) {s : State} (hs : (machine config).Reachable s) :
    (∀ f ∈ s.forwards, ∀ operationKey, f.operationKey = some operationKey →
      ∃ first, firstCommitted s.commits (f.projectId, operationKey) = some first ∧
        f.deploymentId = first.deploymentId) ∧
    (∀ row ∈ s.store.operationBindings,
      ∃ first, firstCommitted s.commits row.key = some first ∧
        row.deploymentId = first.deploymentId) ∧
    (∀ actions t, (machine config).exec s actions = some t →
      ∀ row ∈ s.store.operationBindings, ∀ later ∈ t.store.operationBindings,
        later.key = row.key → later.deploymentId = row.deploymentId) := by
  have hagreement := reachable_agreement hs
  refine ⟨hagreement.forwards, hagreement.store.agrees, ?_⟩
  intro actions t hrun row hrow later hlater hkey
  have hafter := reachable_agreement (hs.of_exec hrun)
  obtain ⟨more, hmore⟩ := exec_commits hrun
  have hbefore : Agrees t.commits row := hmore ▸ (hagreement.store.agrees row hrow).append more
  exact (hafter.store.agrees later hlater).deploymentId_eq hbefore hkey

/-- Two requests of one operation on either side of a promotion. Both find the operation
unbound and resolve different deployments before either binds it; then the first one does. -/
def race : List Action :=
  [.arrive (sampleArrival (sampleRoute 1 "old") "first" (some (.obj [("operationId", .str "op")]))),
   .arrive (sampleArrival (sampleRoute 2 "new") "second" (some (.obj [("operationId", .str "op")]))),
   .request 0 (.next 0), .request 1 (.next 0),
   .request 0 (.next 0), .request 1 (.next 0),
   .request 0 (.next 0), .request 1 (.next 0),
   .request 0 (.next 0), .request 1 (.next 0),
   .request 0 (.next 0), .request 0 (.next 0),
   .request 1 (.next 0), .request 1 (.next 0), .request 1 (.next 0), .request 1 (.next 0),
   .request 0 (.activated 4001), .request 1 (.activated 4001),
   .request 0 (.next 0), .request 1 (.next 0)]

/-- Both requests of `race` reach an upstream, and the same one. -/
theorem operations_agree_race :
    ∃ s, (machine sampleConfig).exec sampleState race = some s ∧ s.forwards.length = 2 ∧
      ∀ f ∈ s.forwards, ∀ operationKey, f.operationKey = some operationKey →
        ∃ first, firstCommitted s.commits (f.projectId, operationKey) = some first ∧
          f.deploymentId = first.deploymentId := by
  have hinit : (machine sampleConfig).init sampleState := ⟨rfl, rfl, rfl, rfl, rfl⟩
  have hreached := (Machine.Reachable.of_init hinit).of_exec
    (show (machine sampleConfig).exec sampleState race = some _ from rfl)
  exact ⟨_, rfl, rfl, (operations_agree sampleConfig hreached).1⟩

end Eveland.Gateway
