/-
# The reaper stops proven orphans only

As long as no call fails while the model claims a process that is remembered, what is remembered of
a process is the time of a sweep since which every sweep has found the process outside the model.
A visit that fails leaves the memory as it is, whatever the model claims at the time.
-/

import Eveland.Worker.OrphanReaper

namespace Eveland.OrphanReaper

/-! ## Keys -/

theorem processKey_inj {kind other : RuntimeKind} {name otherName : String}
    (heq : processKey kind name = processKey other otherName) :
    kind = other ∧ name = otherName := by
  have hlists := congrArg String.toList heq
  cases kind <;> cases other <;>
    simp [processKey, RuntimeKind.text, String.toList_append] at hlists ⊢ <;>
    exact String.toList_inj.mp hlists

theorem processKey_ne_networkKey (kind : RuntimeKind) (name network : String) :
    processKey kind name ≠ networkKey network := by
  intro heq
  have hlists := congrArg String.toList heq
  cases kind <;> simp [processKey, networkKey, RuntimeKind.text, String.toList_append] at hlists

/-! ## Spans of sweeps -/

/-- What a sweep shows of a process. -/
def Record.view (kind : RuntimeKind) (name : String) (record : Record) : ℤ × Option Bool :=
  (record.now, record.found kind name)

/-- A span depends on what the sweeps show of the process. -/
theorem OutsideSince.congr {first second : List Record} {kind : RuntimeKind} {name : String}
    {time : ℤ} (houtside : OutsideSince first kind name time)
    (hview : second.map (Record.view kind name) = first.map (Record.view kind name)) :
    OutsideSince second kind name time := by
  obtain ⟨before, start, span, rfl, hstart, hspan⟩ := houtside
  rw [List.map_append, List.map_cons] at hview
  obtain ⟨before', rest, rfl, -, hrest⟩ := List.map_eq_append_iff.mp hview
  obtain ⟨start', span', rfl, hstart', hspan'⟩ := List.map_eq_cons_iff.mp hrest
  refine ⟨before', start', span', rfl, ?_, ?_⟩
  · rw [← hstart]
    exact congrArg Prod.fst hstart'
  · intro record hrecord
    have hmem : record.view kind name ∈ (start :: span).map (Record.view kind name) := by
      rw [List.map_cons, ← hstart', ← hspan', ← List.map_cons]
      exact List.mem_map_of_mem hrecord
    obtain ⟨old, hold, heq⟩ := List.mem_map.mp hmem
    have hfound := hspan old hold
    rw [← hfound]
    exact (congrArg Prod.snd heq).symm

/-- One more sweep has found the process outside. -/
theorem OutsideSince.append {history : List Record} {kind : RuntimeKind} {name : String}
    {time : ℤ} (houtside : OutsideSince history kind name time) {record : Record}
    (hfound : record.found kind name = some true) :
    OutsideSince (history ++ [record]) kind name time := by
  obtain ⟨before, start, span, rfl, hstart, hspan⟩ := houtside
  refine ⟨before, start, span ++ [record], by simp, hstart, ?_⟩
  intro other hother
  rw [← List.cons_append] at hother
  rcases List.mem_append.mp hother with hold | hnew
  · exact hspan other hold
  · rw [List.mem_singleton.mp hnew]
    exact hfound

/-- The first sweep that has found the process outside. -/
theorem OutsideSince.start (history : List Record) {kind : RuntimeKind} {name : String}
    {record : Record} (hfound : record.found kind name = some true) :
    OutsideSince (history ++ [record]) kind name record.now := by
  refine ⟨history, record, [], rfl, rfl, ?_⟩
  intro other hother
  rw [List.mem_singleton.mp hother]
  exact hfound

/-- The last sweep is one of the span. -/
theorem OutsideSince.last {history : List Record} {kind : RuntimeKind} {name : String}
    {time : ℤ} (houtside : OutsideSince history kind name time) :
    ∃ last, history.getLast? = some last ∧ last.found kind name = some true := by
  obtain ⟨before, start, span, rfl, -, hspan⟩ := houtside
  refine ⟨(start :: span).getLast (List.cons_ne_nil _ _), ?_, ?_⟩
  · rw [List.getLast?_append_of_ne_nil before (List.cons_ne_nil _ _)]
    exact List.getLast?_eq_some_getLast _
  · exact hspan _ (List.getLast_mem _)

/-- The times since which every sweep has found a process outside the model. -/
def outsideTimes (kind : RuntimeKind) (name : String) : List Record → List ℤ
  | [] => []
  | first :: span =>
      if (first :: span).all fun record => record.found kind name = some true then
        first.now :: outsideTimes kind name span
      else outsideTimes kind name span

theorem mem_outsideTimes {kind : RuntimeKind} {name : String} {time : ℤ} {history : List Record}
    (houtside : OutsideSince history kind name time) : time ∈ outsideTimes kind name history := by
  obtain ⟨before, start, span, rfl, hstart, hspan⟩ := houtside
  induction before with
  | nil =>
      have hall : ((start :: span).all fun record => record.found kind name = some true) =
          true := by
        apply List.all_eq_true.mpr
        intro record hrecord
        exact decide_eq_true (hspan record hrecord)
      rw [List.nil_append, outsideTimes, if_pos hall]
      exact List.mem_cons.mpr (Or.inl hstart.symm)
  | cons other before ih =>
      rw [List.cons_append, outsideTimes]
      split
      · exact List.mem_cons_of_mem _ ih
      · exact ih

/-! ## The condition and the invariant -/

/-- The condition on a step. A call that fails is made for a process that is not remembered, or
that the model does not claim. -/
def KeepsNoStale (s : State) : Action → Bool
  | .throw =>
      match s.sweep with
      | none => true
      | some sweep =>
          match sweep.phase with
          | .visiting visit _ _ =>
              (s.firstSeenAt (processKey visit.kind visit.name)).isNone ||
                !s.records.claims sweep.now visit
          | _ => true
  | _ => true

/-- The process is the one being visited. -/
def Sweep.IsVisiting (sweep : Sweep) (kind : RuntimeKind) (name : String) : Prop :=
  ∃ visit names kinds, sweep.phase = .visiting visit names kinds ∧ visit.kind = kind ∧
    visit.name = name

/-- The memory is that of spans, what a sweep has seen it has visited, and what it stops has been
in the memory for the grace period. -/
structure Consistent (options : Options) (s : State) : Prop where
  outside : ∀ kind name time, s.firstSeenAt (processKey kind name) = some time →
    OutsideSince (s.history kind name) kind name time
  seen : ∀ sweep, s.sweep = some sweep → ∀ kind name,
    processKey kind name ∈ sweep.seenKeys →
      (sweep.found kind name).isSome = true ∨ sweep.IsVisiting kind name
  named : ∀ sweep visit names kinds, s.sweep = some sweep →
    sweep.phase = .visiting visit names kinds →
      isDeploymentProcessName visit.name = true ∧
        ∀ name ∈ names, isDeploymentProcessName name = true
  stops : ∀ sweep visit names kinds deployment, s.sweep = some sweep →
    sweep.phase = .visiting visit names kinds → visit.stage = .stop deployment →
      ∃ time, options.graceMs ≤ sweep.now - time ∧
        s.firstSeenAt (processKey visit.kind visit.name) = some time

variable {options : Options} {s t : State} {sweep : Sweep} {visit : Visit}
  {names : List String} {kinds : List RuntimeKind}

/-- Only the memory and the sweeps matter. -/
theorem Consistent.congr (hs : Consistent options s) (hmemory : t.firstSeenAt = s.firstSeenAt)
    (hsweeps : t.sweeps = s.sweeps) (hsweep : t.sweep = s.sweep) : Consistent options t := by
  have hhistory : t.history = s.history := by
    funext kind name
    rw [State.history, State.history, hsweep, hsweeps]
  refine ⟨?_, ?_, ?_, ?_⟩
  · rw [hmemory, hhistory]
    exact hs.outside
  · rw [hsweep]
    exact hs.seen
  · rw [hsweep]
    exact hs.named
  · rw [hsweep, hmemory]
    exact hs.stops

theorem history_some (hsweep : s.sweep = some sweep) (kind : RuntimeKind) (name : String) :
    s.history kind name =
      if (sweep.found kind name).isSome then s.sweeps ++ [sweep.record] else s.sweeps := by
  rw [State.history, hsweep]

/-- What another sweep record shows the same of, the history shows the same of. -/
theorem history_view {other : Sweep} (hsweep : s.sweep = some sweep)
    (hother : t.sweep = some other) (hsweeps : t.sweeps = s.sweeps) (hnow : other.now = sweep.now)
    {kind : RuntimeKind} {name : String} (hfound : other.found kind name = sweep.found kind name) :
    (t.history kind name).map (Record.view kind name) =
      (s.history kind name).map (Record.view kind name) := by
  rw [history_some hsweep, history_some hother, hfound, hsweeps]
  have hview : other.record.view kind name = sweep.record.view kind name := by
    simp only [Record.view, Sweep.record, hnow, hfound]
  split
  · rw [List.map_append, List.map_append, List.map_singleton, List.map_singleton, hview]
  · rfl

/-! ## What a visit finds -/

theorem find_found_self (outside : Bool) :
    (sweep.find visit outside).found visit.kind visit.name = some outside := by
  simp [Sweep.find]

theorem find_found_of_ne (outside : Bool) {kind : RuntimeKind} {name : String}
    (hne : ¬ (kind = visit.kind ∧ name = visit.name)) :
    (sweep.find visit outside).found kind name = sweep.found kind name := by
  by_cases hkind : kind = visit.kind
  · subst hkind
    have hname : name ≠ visit.name := fun heq => hne ⟨rfl, heq⟩
    simp [Sweep.find, Function.update_of_ne hname]
  · simp [Sweep.find, Function.update_of_ne hkind]

theorem isSome_find_found (outside : Bool) {kind : RuntimeKind} {name : String}
    (hfound : (sweep.found kind name).isSome = true ∨ kind = visit.kind ∧ name = visit.name) :
    ((sweep.find visit outside).found kind name).isSome = true := by
  by_cases hself : kind = visit.kind ∧ name = visit.name
  · obtain ⟨rfl, rfl⟩ := hself
    rw [find_found_self]
    rfl
  · rw [find_found_of_ne outside hself]
    exact hfound.resolve_right hself

@[simp]
theorem proceed_found (kind : RuntimeKind) : (sweep.proceed kind names kinds).found = sweep.found := by
  cases names <;> rfl

@[simp]
theorem proceed_now (kind : RuntimeKind) : (sweep.proceed kind names kinds).now = sweep.now := by
  cases names <;> rfl

/-- The memory after a visit: the other processes are as they were, and this one is remembered only
if it was found outside, since the time it was remembered with, or since now. -/
structure Remembers (s : State) (sweep : Sweep) (visit : Visit) (outside : Bool)
    (memory : String → Option ℤ) : Prop where
  others : ∀ kind name, ¬ (kind = visit.kind ∧ name = visit.name) →
    memory (processKey kind name) = s.firstSeenAt (processKey kind name)
  self : ∀ time, memory (processKey visit.kind visit.name) = some time →
    outside = true ∧
      (s.firstSeenAt (processKey visit.kind visit.name) = some time ∨ time = sweep.now)

/-- The spans after a visit. -/
theorem Consistent.outside_find (hs : Consistent options s) (hsweep : s.sweep = some sweep)
    {outside : Bool} {memory : String → Option ℤ}
    (hmemory : Remembers s sweep visit outside memory) {other : Sweep}
    (hother : t.sweep = some other) (hsweeps : t.sweeps = s.sweeps)
    (hnow : other.now = sweep.now) (hfound : other.found = (sweep.find visit outside).found)
    (kind : RuntimeKind) (name : String) (time : ℤ)
    (htime : memory (processKey kind name) = some time) :
    OutsideSince (t.history kind name) kind name time := by
  by_cases hself : kind = visit.kind ∧ name = visit.name
  · obtain ⟨rfl, rfl⟩ := hself
    obtain ⟨rfl, hsince⟩ := hmemory.self time htime
    have htrue : other.record.found visit.kind visit.name = some true := by
      rw [Sweep.record, hfound]
      exact find_found_self true
    have hhistory : t.history visit.kind visit.name = s.sweeps ++ [other.record] := by
      rw [history_some hother, hsweeps, hfound, find_found_self]
      rfl
    rw [hhistory]
    rcases hsince with hold | hnew
    · have hbefore := hs.outside _ _ time hold
      rw [history_some hsweep] at hbefore
      split at hbefore
      · -- the process has been visited before in this sweep, and was found outside then too
        apply hbefore.congr
        obtain ⟨last, hlast, hlastFound⟩ := hbefore.last
        rw [List.getLast?_concat] at hlast
        obtain rfl := Option.some.inj hlast
        have hview : other.record.view visit.kind visit.name =
            sweep.record.view visit.kind visit.name := by
          rw [Record.view, Record.view, htrue, hlastFound]
          simp only [Sweep.record, hnow]
        rw [List.map_append, List.map_append, List.map_singleton, List.map_singleton, hview]
      · exact hbefore.append htrue
    · rw [hnew, ← hnow]
      exact OutsideSince.start s.sweeps htrue
  · rw [hmemory.others kind name hself] at htime
    apply (hs.outside kind name time htime).congr
    apply history_view hsweep hother hsweeps hnow
    rw [hfound]
    exact find_found_of_ne outside hself

/-! ## The calls of a visit -/

/-- A visit that is over. -/
theorem Consistent.endVisit (hs : Consistent options s) (hsweep : s.sweep = some sweep)
    (hphase : sweep.phase = .visiting visit names kinds) {memory : String → Option ℤ}
    (hmemory : Remembers s sweep visit (!s.records.claims sweep.now visit) memory) :
    Consistent options (s.endVisit sweep visit names kinds memory) := by
  obtain ⟨-, hnames⟩ := hs.named sweep visit names kinds hsweep hphase
  refine ⟨?_, ?_, ?_, ?_⟩
  · intro kind name time htime
    exact hs.outside_find (t := s.endVisit sweep visit names kinds memory) hsweep hmemory rfl rfl
      (proceed_now _) (proceed_found _) kind name time htime
  · intro other hother kind name hmem
    obtain rfl := Option.some.inj hother
    have hvisited : processKey kind name ∈ sweep.seenKeys →
        ((sweep.find visit (!s.records.claims sweep.now visit)).found kind name).isSome =
          true := by
      intro hold
      apply isSome_find_found
      rcases hs.seen sweep hsweep kind name hold with hfound | ⟨last, _, _, hlast, hkind, hname⟩
      · exact Or.inl hfound
      · rw [hphase] at hlast
        obtain ⟨rfl, -, -⟩ := Phase.visiting.inj hlast
        exact Or.inr ⟨hkind.symm, hname.symm⟩
    rw [proceed_found]
    cases names with
    | nil => exact Or.inl (hvisited hmem)
    | cons next names =>
        rcases List.mem_append.mp hmem with hold | hnew
        · exact Or.inl (hvisited hold)
        · right
          obtain ⟨hkind, hname⟩ := processKey_inj (List.mem_singleton.mp hnew)
          exact ⟨_, names, kinds, rfl, hkind.symm, hname.symm⟩
  · intro other next rest otherKinds hother hnext
    obtain rfl := Option.some.inj hother
    cases names with
    | nil => cases hnext
    | cons name names =>
        obtain ⟨rfl, rfl, -⟩ := Phase.visiting.inj hnext
        exact ⟨hnames name List.mem_cons_self,
          fun other hother => hnames other (List.mem_cons_of_mem _ hother)⟩
  · intro other next rest otherKinds deployment hother hnext hstage
    obtain rfl := Option.some.inj hother
    cases names with
    | nil => cases hnext
    | cons name names =>
        obtain ⟨rfl, -, -⟩ := Phase.visiting.inj hnext
        cases hstage

/-- A visit that goes on to a call other than the stop, and may have forgotten its process. -/
theorem Consistent.goOn (hs : Consistent options s) (hsweep : s.sweep = some sweep)
    (hphase : sweep.phase = .visiting visit names kinds) {memory : String → Option ℤ}
    (hmemory : ∀ kind name time, memory (processKey kind name) = some time →
      s.firstSeenAt (processKey kind name) = some time) (stage : Stage)
    (hstage : ∀ deployment, stage ≠ .stop deployment) :
    Consistent options ({ s with firstSeenAt := memory }.goOn sweep visit names kinds stage) := by
  refine ⟨?_, ?_, ?_, ?_⟩
  · intro kind name time htime
    apply (hs.outside kind name time (hmemory kind name time htime)).congr
    have hother : ({ s with firstSeenAt := memory }.goOn sweep visit names kinds stage).sweep =
        some { sweep with phase := .visiting { visit with stage } names kinds } := rfl
    exact history_view hsweep hother rfl rfl rfl
  · intro other hother kind name hmem
    obtain rfl := Option.some.inj hother
    apply (hs.seen sweep hsweep kind name hmem).imp_right
    rintro ⟨last, _, _, hlast, hkind, hname⟩
    rw [hphase] at hlast
    obtain ⟨rfl, -, -⟩ := Phase.visiting.inj hlast
    exact ⟨_, names, kinds, rfl, hkind, hname⟩
  · intro other next rest otherKinds hother hnext
    obtain rfl := Option.some.inj hother
    obtain ⟨rfl, rfl, -⟩ := Phase.visiting.inj hnext
    exact hs.named sweep visit names kinds hsweep hphase
  · intro other next rest otherKinds deployment hother hnext hnextStage
    obtain rfl := Option.some.inj hother
    obtain ⟨rfl, -, -⟩ := Phase.visiting.inj hnext
    exact absurd hnextStage (hstage deployment)

/-- A process outside the model is remembered, and stopped once the grace period is over. -/
theorem Consistent.outOfModel (hs : Consistent options s) (hsweep : s.sweep = some sweep)
    (hphase : sweep.phase = .visiting visit names kinds)
    (hclaims : s.records.claims sweep.now visit = false) (deployment : Option Deployment) :
    Consistent options (s.outOfModel options sweep visit names kinds deployment) := by
  have hmemory : Remembers s sweep visit (!s.records.claims sweep.now visit)
      (Function.update s.firstSeenAt (processKey visit.kind visit.name)
        (some ((s.firstSeenAt (processKey visit.kind visit.name)).getD sweep.now))) := by
    refine ⟨?_, ?_⟩
    · intro kind name hne
      apply Function.update_of_ne
      intro heq
      exact hne (processKey_inj heq)
    · intro time htime
      rw [Function.update_self, Option.some.injEq] at htime
      rw [hclaims]
      refine ⟨rfl, ?_⟩
      cases hold : s.firstSeenAt (processKey visit.kind visit.name) with
      | none =>
          rw [hold] at htime
          exact Or.inr htime.symm
      | some first =>
          rw [hold] at htime
          exact Or.inl (congrArg some htime)
  unfold State.outOfModel
  dsimp only
  split
  · exact hs.endVisit hsweep hphase hmemory
  · next helapsed =>
      refine ⟨?_, ?_, ?_, ?_⟩
      · intro kind name time htime
        have hother : { s with
            sweep := some { sweep.find visit (!s.records.claims sweep.now visit) with
              phase := .visiting { visit with stage := .stop deployment } names kinds } }.sweep =
            some { sweep.find visit (!s.records.claims sweep.now visit) with
              phase := .visiting { visit with stage := .stop deployment } names kinds } := rfl
        exact hs.outside_find hsweep hmemory hother rfl rfl rfl kind name time htime
      · intro other hother kind name hmem
        obtain rfl := Option.some.inj hother
        left
        apply isSome_find_found
        rcases hs.seen sweep hsweep kind name hmem with hfound | ⟨last, _, _, hlast, hkind, hname⟩
        · exact Or.inl hfound
        · rw [hphase] at hlast
          obtain ⟨rfl, -, -⟩ := Phase.visiting.inj hlast
          exact Or.inr ⟨hkind.symm, hname.symm⟩
      · intro other next rest otherKinds hother hnext
        obtain rfl := Option.some.inj hother
        obtain ⟨rfl, rfl, -⟩ := Phase.visiting.inj hnext
        exact hs.named sweep visit names kinds hsweep hphase
      · intro other next rest otherKinds _ hother hnext _
        obtain rfl := Option.some.inj hother
        obtain ⟨rfl, -, -⟩ := Phase.visiting.inj hnext
        exact ⟨_, Int.not_lt.mp helapsed, Function.update_self _ _ _⟩

theorem remembers_forget (s : State) (sweep : Sweep) (visit : Visit) (outside : Bool) :
    Remembers s sweep visit outside (s.forget visit) := by
  refine ⟨?_, ?_⟩
  · intro kind name hne
    apply Function.update_of_ne
    intro heq
    exact hne (processKey_inj heq)
  · intro time htime
    rw [State.forget, Function.update_self] at htime
    cases htime

theorem forget_le (s : State) (visit : Visit) (kind : RuntimeKind) (name : String) (time : ℤ)
    (htime : s.forget visit (processKey kind name) = some time) :
    s.firstSeenAt (processKey kind name) = some time := by
  by_cases hkey : processKey kind name = processKey visit.kind visit.name
  · rw [State.forget, hkey, Function.update_self] at htime
    cases htime
  · rw [State.forget, Function.update_of_ne hkey] at htime
    exact htime

/-- A visit that leaves the memory as it is. -/
theorem remembers_same {outside : Bool}
    (hsame : s.firstSeenAt (processKey visit.kind visit.name) = none ∨ outside = true) :
    Remembers s sweep visit outside s.firstSeenAt := by
  refine ⟨fun _ _ _ => rfl, ?_⟩
  intro time htime
  rcases hsame with hnone | houtside
  · rw [hnone] at htime
    cases htime
  · exact ⟨houtside, Or.inl htime⟩

/-- One call of a visit that returns. -/
theorem Consistent.sweepProcess (hs : Consistent options s) (hsweep : s.sweep = some sweep)
    (hphase : sweep.phase = .visiting visit names kinds) {instanceId : String}
    (hstep : s.sweepProcess options sweep visit names kinds instanceId = some t) :
    Consistent options t := by
  have hforget := fun outside => remembers_forget s sweep visit outside
  have hkeep : ∀ kind name time, s.firstSeenAt (processKey kind name) = some time →
      s.firstSeenAt (processKey kind name) = some time := fun _ _ _ htime => htime
  unfold State.sweepProcess at hstep
  cases hstage : visit.stage with
  | lookup =>
      simp only [hstage] at hstep
      cases hlookup : s.records.getDeploymentByContainerName visit.name with
      | none =>
          simp only [hlookup, Option.some.injEq] at hstep
          obtain rfl := hstep
          apply hs.outOfModel hsweep hphase
          simp [Records.claims, hstage, hlookup, isClaimed]
      | some deployment =>
          simp only [hlookup] at hstep
          by_cases hkind : deployment.runtimeKind = visit.kind
          · rw [if_pos hkind, Option.some.injEq] at hstep
            obtain rfl := hstep
            exact hs.goOn hsweep hphase hkeep _ nofun
          · rw [if_neg hkind, Option.some.injEq] at hstep
            obtain rfl := hstep
            apply hs.outOfModel hsweep hphase
            simp [Records.claims, hstage, hlookup, isClaimed, hkind]
  | leases deployment =>
      simp only [hstage] at hstep
      split at hstep
      · obtain rfl := Option.some.inj hstep
        exact hs.endVisit hsweep hphase (hforget _)
      · obtain rfl := Option.some.inj hstep
        exact hs.goOn hsweep hphase hkeep _ nofun
  | «instances» deployment =>
      simp only [hstage] at hstep
      split at hstep
      · obtain rfl := Option.some.inj hstep
        exact hs.endVisit hsweep hphase (hforget _)
      · next hlive =>
          split at hstep
          · obtain rfl := Option.some.inj hstep
            exact hs.goOn hsweep hphase hkeep _ nofun
          · next hstatus =>
              obtain rfl := Option.some.inj hstep
              apply hs.outOfModel hsweep hphase
              rw [not_or] at hstatus
              simp [Records.claims, hstage, isClaimed, hlive, hstatus]
  | adopt deployment =>
      simp only [hstage] at hstep
      split at hstep
      · cases hstep
      · obtain rfl := Option.some.inj hstep
        exact hs.endVisit hsweep hphase (hforget _)
      · obtain rfl := Option.some.inj hstep
        have hadopted := hs.goOn hsweep hphase hkeep (.logAdoption deployment) nofun
        exact hadopted.congr rfl rfl rfl
  | logAdoption deployment =>
      simp only [hstage, Option.some.injEq] at hstep
      obtain rfl := hstep
      exact hs.endVisit hsweep hphase (hforget _)
  | stop deployment =>
      simp only [hstage] at hstep
      cases deployment with
      | none =>
          obtain rfl := Option.some.inj hstep
          exact (hs.endVisit hsweep hphase (hforget _)).congr rfl rfl rfl
      | some deployment =>
          obtain rfl := Option.some.inj hstep
          have hstopped := hs.goOn hsweep hphase (forget_le s visit)
            (.logStop deployment) nofun
          exact hstopped.congr rfl rfl rfl
  | logStop deployment =>
      simp only [hstage, Option.some.injEq] at hstep
      obtain rfl := hstep
      apply hs.endVisit hsweep hphase
      apply remembers_same
      simp [Records.claims, hstage]

/-! ## The rounds of a sweep -/

/-- A sweep that is not visiting a process: its memory of processes is as it was, or less. -/
theorem Consistent.rest (hs : Consistent options s) (hsweep : s.sweep = some sweep)
    (hidle : ∀ kind name, ¬ sweep.IsVisiting kind name) {other : Sweep}
    {memory : String → Option ℤ} (hnow : other.now = sweep.now)
    (hfound : other.found = sweep.found)
    (hmemory : ∀ kind name time, memory (processKey kind name) = some time →
      s.firstSeenAt (processKey kind name) = some time)
    (hseen : ∀ kind name, processKey kind name ∈ other.seenKeys →
      processKey kind name ∈ sweep.seenKeys ∨ other.IsVisiting kind name)
    (hvisiting : ∀ visit names kinds, other.phase = .visiting visit names kinds →
      visit.stage = .lookup ∧ isDeploymentProcessName visit.name = true ∧
        ∀ name ∈ names, isDeploymentProcessName name = true) :
    Consistent options { s with firstSeenAt := memory, sweep := some other } := by
  refine ⟨?_, ?_, ?_, ?_⟩
  · intro kind name time htime
    apply (hs.outside kind name time (hmemory kind name time htime)).congr
    have hother : { s with firstSeenAt := memory, sweep := some other }.sweep = some other := rfl
    exact history_view hsweep hother rfl hnow (by rw [hfound])
  · intro next hnext kind name hmem
    obtain rfl := Option.some.inj hnext
    rcases hseen kind name hmem with hold | hnew
    · left
      rw [hfound]
      exact (hs.seen sweep hsweep kind name hold).resolve_right (hidle kind name)
    · exact Or.inr hnew
  · intro next visit names kinds hnext hphase
    obtain rfl := Option.some.inj hnext
    exact (hvisiting visit names kinds hphase).2
  · intro next visit names kinds deployment hnext hphase hstage
    obtain rfl := Option.some.inj hnext
    rw [(hvisiting visit names kinds hphase).1] at hstage
    cases hstage

/-- A sweep begins. -/
theorem Consistent.begin (hs : Consistent options s) (hidle : s.sweep = none) (now : ℤ) :
    Consistent options { s with
      sweep := some ⟨now, [], .listing options.kinds, fun _ _ => none⟩ } := by
  refine ⟨?_, ?_, ?_, ?_⟩
  · intro kind name time htime
    have hold := hs.outside kind name time htime
    rw [State.history, hidle] at hold
    exact hold
  · intro other hother kind name hmem
    obtain rfl := Option.some.inj hother
    cases hmem
  · intro other visit names kinds hother hphase
    obtain rfl := Option.some.inj hother
    cases hphase
  · intro other visit names kinds deployment hother hphase
    obtain rfl := Option.some.inj hother
    cases hphase

/-- The processes of a kind are listed. -/
theorem Consistent.listProcesses (hs : Consistent options s) (hsweep : s.sweep = some sweep)
    {kind : RuntimeKind} (hphase : sweep.phase = .listing (kind :: kinds))
    (hnames : ∀ name ∈ names, isDeploymentProcessName name = true) :
    Consistent options { s with sweep := some (sweep.proceed kind names kinds) } := by
  have hidle : ∀ other name, ¬ sweep.IsVisiting other name := by
    rintro other name ⟨visit, _, _, hvisit, -⟩
    rw [hphase] at hvisit
    cases hvisit
  refine hs.rest hsweep hidle (proceed_now kind) (proceed_found kind)
    (fun _ _ _ htime => htime) ?_ ?_
  · intro other name hmem
    cases names with
    | nil => exact Or.inl hmem
    | cons next names =>
        rcases List.mem_append.mp hmem with hold | hnew
        · exact Or.inl hold
        · right
          obtain ⟨hkind, hname⟩ := processKey_inj (List.mem_singleton.mp hnew)
          exact ⟨_, names, kinds, rfl, hkind.symm, hname.symm⟩
  · intro visit rest otherKinds hvisit
    cases names with
    | nil => cases hvisit
    | cons next names =>
        obtain ⟨rfl, rfl, -⟩ := Phase.visiting.inj hvisit
        exact ⟨rfl, hnames next List.mem_cons_self,
          fun name hname => hnames name (List.mem_cons_of_mem _ hname)⟩

/-- The networks are remembered under keys of their own. -/
theorem Consistent.removeNetwork (hs : Consistent options s) (hsweep : s.sweep = some sweep)
    {network : Network} {networks : List Network}
    (hphase : sweep.phase = .removing (network :: networks)) (removed : Option Bool) :
    Consistent options (removeNetwork options s sweep network networks removed) := by
  have hidle : ∀ kind name, ¬ sweep.IsVisiting kind name := by
    rintro kind name ⟨visit, _, _, hvisit, -⟩
    rw [hphase] at hvisit
    cases hvisit
  have hseen : ∀ kind name,
      processKey kind name ∈ sweep.seenKeys ++ [networkKey network.name] →
        processKey kind name ∈ sweep.seenKeys := by
    intro kind name hmem
    rcases List.mem_append.mp hmem with hold | hnew
    · exact hold
    · exact absurd (List.mem_singleton.mp hnew) (processKey_ne_networkKey kind name _)
  unfold OrphanReaper.removeNetwork firstSeenNetwork
  dsimp only
  split
  · refine hs.rest hsweep hidle rfl rfl ?_ (fun kind name hmem => Or.inl (hseen kind name hmem)) ?_
    · intro kind name time htime
      rw [Function.update_of_ne (processKey_ne_networkKey kind name _),
        Function.update_of_ne (processKey_ne_networkKey kind name _)] at htime
      exact htime
    · intro visit rest kinds hvisit
      cases hvisit
  · refine hs.rest hsweep hidle rfl rfl ?_ (fun kind name hmem => Or.inl (hseen kind name hmem)) ?_
    · intro kind name time htime
      rw [Function.update_of_ne (processKey_ne_networkKey kind name _)] at htime
      exact htime
    · intro visit rest kinds hvisit
      cases hvisit

/-- A sweep is over: what it has seen it has visited. -/
theorem Consistent.finish (hs : Consistent options s) (hsweep : s.sweep = some sweep)
    (hphase : sweep.phase = .removing []) :
    Consistent options { s with
      firstSeenAt := fun key => if sweep.seenKeys.contains key then s.firstSeenAt key else none
      sweeps := s.sweeps ++ [sweep.record]
      sweep := none } := by
  refine ⟨?_, ?_, ?_, ?_⟩
  · intro kind name time htime
    obtain ⟨hseen, hold⟩ := Option.ite_none_right_eq_some.mp htime
    have hmem : processKey kind name ∈ sweep.seenKeys := List.contains_iff_mem.mp hseen
    have houtside := hs.outside kind name time hold
    rcases hs.seen sweep hsweep kind name hmem with hfound | ⟨visit, _, _, hvisit, -⟩
    · rw [history_some hsweep, if_pos hfound] at houtside
      exact houtside
    · rw [hphase] at hvisit
      cases hvisit
  · intro other hother
    cases hother
  · intro other _ _ _ hother
    cases hother
  · intro other _ _ _ _ hother
    cases hother

/-! ## Runs -/

theorem Consistent.step {a : Action} (hs : Consistent options s)
    (hkeeps : KeepsNoStale s a = true) (hstep : (machine options).step s a = some t) :
    Consistent options t := by
  cases a with
  | writeRecords records =>
      obtain rfl := Option.some.inj hstep
      exact hs.congr rfl rfl rfl
  | writeProcesses kind names =>
      obtain rfl := Option.some.inj hstep
      exact hs.congr rfl rfl rfl
  | writeNetworks networks =>
      obtain rfl := Option.some.inj hstep
      exact hs.congr rfl rfl rfl
  | begin now =>
      simp only [machine, OrphanReaper.step] at hstep
      split at hstep
      · cases hstep
      · next hidle =>
          obtain rfl := Option.some.inj hstep
          exact hs.begin hidle now
  | listProcesses fails =>
      simp only [machine, OrphanReaper.step] at hstep
      split at hstep
      · cases hstep
      · next sweep hsweep =>
          split at hstep
          · next kind kinds hphase =>
              obtain rfl := Option.some.inj hstep
              apply hs.listProcesses hsweep hphase
              intro name hname
              split at hname
              · cases hname
              · exact (List.mem_filter.mp hname).2
          · cases hstep
  | answer instanceId =>
      simp only [machine, OrphanReaper.step] at hstep
      split at hstep
      · cases hstep
      · next sweep hsweep =>
          split at hstep
          · next visit names kinds hphase => exact hs.sweepProcess hsweep hphase hstep
          · cases hstep
  | throw =>
      simp only [machine, OrphanReaper.step] at hstep
      split at hstep
      · cases hstep
      · next sweep hsweep =>
          split at hstep
          · next visit names kinds hphase =>
              obtain rfl := Option.some.inj hstep
              simp only [KeepsNoStale, hsweep, hphase, Bool.or_eq_true, Option.isNone_iff_eq_none]
                at hkeeps
              exact hs.endVisit hsweep hphase (remembers_same hkeeps)
          · cases hstep
  | listNetworks fails =>
      simp only [machine, OrphanReaper.step] at hstep
      split at hstep
      · cases hstep
      · next sweep hsweep =>
          split at hstep
          · next hphase =>
              obtain rfl := Option.some.inj hstep
              have hidle : ∀ kind name, ¬ sweep.IsVisiting kind name := by
                rintro kind name ⟨visit, _, _, hvisit, -⟩
                rw [hphase] at hvisit
                cases hvisit
              refine hs.rest hsweep hidle rfl rfl (fun _ _ _ htime => htime)
                (fun _ _ hmem => Or.inl hmem) ?_
              intro visit rest kinds hvisit
              cases hvisit
          · cases hstep
  | removeNetwork removed =>
      simp only [machine, OrphanReaper.step] at hstep
      split at hstep
      · cases hstep
      · next sweep hsweep =>
          split at hstep
          · next network networks hphase =>
              obtain rfl := Option.some.inj hstep
              exact hs.removeNetwork hsweep hphase removed
          · cases hstep
  | finish =>
      simp only [machine, OrphanReaper.step] at hstep
      split at hstep
      · cases hstep
      · next sweep hsweep =>
          split at hstep
          · next hphase =>
              obtain rfl := Option.some.inj hstep
              exact hs.finish hsweep hphase
          · cases hstep

theorem consistent_of_initial (hs : Initial s) : Consistent options s := by
  refine ⟨?_, ?_, ?_, ?_⟩
  · intro kind name time htime
    rw [hs.firstSeenAt] at htime
    cases htime
  · intro sweep hsweep
    rw [hs.sweep] at hsweep
    cases hsweep
  · intro sweep _ _ _ hsweep
    rw [hs.sweep] at hsweep
    cases hsweep
  · intro sweep _ _ _ _ hsweep
    rw [hs.sweep] at hsweep
    cases hsweep

theorem Consistent.stopsProvenOrphans (hs : Consistent options s) :
    StopsProvenOrphans options s := by
  intro sweep visit names kinds deployment hsweep hphase hstage
  obtain ⟨time, helapsed, htime⟩ :=
    hs.stops sweep visit names kinds deployment hsweep hphase hstage
  exact ⟨(hs.named sweep visit names kinds hsweep hphase).1, time, helapsed,
    hs.outside _ _ time htime⟩

theorem Consistent.startsAgain (hs : Consistent options s) : StartsAgain s := by
  intro kind name hlast
  cases hmemory : s.firstSeenAt (processKey kind name) with
  | none => rfl
  | some time =>
      obtain ⟨last, hmem, hfound⟩ := (hs.outside kind name time hmemory).last
      exact absurd hfound (hlast last hmem)

/-- **Proven orphans.** In a run in which no call fails while the model claims a process that is
remembered, every process that is stopped has the name of a deployment process and has been
outside the model at every sweep over a span of the grace period, and a process that the last
sweep did not find outside the model is not remembered. -/
theorem only_proven_orphans_stopped (options : Options) {s : State} (hs : Initial s)
    (actions : List Action)
    (hkeeps : (machine options).Meets (fun s a => KeepsNoStale s a = true) s actions) :
    (machine options).Always (fun s => StopsProvenOrphans options s ∧ StartsAgain s) s actions := by
  apply (machine options).always_of_meets
    (fun _ _ _ hconsistent hkeeps hstep => Consistent.step hconsistent hkeeps hstep)
    (fun _ hconsistent => ⟨hconsistent.stopsProvenOrphans, hconsistent.startsAgain⟩)
    (consistent_of_initial hs) hkeeps

/-- The deployment of the runs below. -/
def leftover (status : DeploymentStatus) : Records where
  deployments := [⟨⟨"dep_a", "project", status, 3000⟩, "eveland-project-dep_a", .docker, 0⟩]
  instances := []
  leases := []

def fiveMinutes : Options := ⟨300000, [.docker]⟩

/-- A process that a stopped deployment has left behind. -/
def oneProcess : State where
  records := leftover .stopped
  processes := fun kind => if kind = .docker then ["eveland-project-dep_a"] else []
  networks := []
  firstSeenAt := fun _ => none
  sweeps := []
  sweep := none

theorem oneProcess_initial : Initial oneProcess := ⟨rfl, rfl, rfl⟩

/-- A sweep asks for the deployment, its leases and its instances. -/
def askThree (now : ℤ) : List Action :=
  [.begin now, .listProcesses false, .answer "", .answer "", .answer ""]

def endSweep : List Action := [.listNetworks false, .finish]

/-- The process is found twice, five minutes apart, and stopped. -/
def foundTwice : List Action :=
  askThree 0 ++ endSweep ++ askThree 300000 ++ [.answer ""]

theorem only_proven_orphans_stopped_foundTwice :
    (machine fiveMinutes).Always (fun s => StopsProvenOrphans fiveMinutes s ∧ StartsAgain s)
      oneProcess foundTwice ∧
      ∃ t, (machine fiveMinutes).exec oneProcess foundTwice = some t ∧ t.processes .docker = [] := by
  have hkeeps : (machine fiveMinutes).Meets (fun s a => KeepsNoStale s a = true) oneProcess
      foundTwice := by
    decide +kernel
  exact ⟨only_proven_orphans_stopped fiveMinutes oneProcess_initial foundTwice hkeeps, _, rfl,
    by decide +kernel⟩

/-- One minute after the first sweep the deployment runs, and the second sweep adopts its process,
but cannot write the log. Four minutes later the deployment is stopped again, and a process of it is
left behind anew. -/
def adoptedBetween : List Action :=
  askThree 0 ++ endSweep ++
    [.writeRecords (leftover .running)] ++ askThree 60000 ++ [.answer "instance", .throw] ++
    endSweep ++ [.writeRecords (leftover .stopped)] ++ askThree 300000

/-- A process is being stopped, and it has not been outside the model for the grace period. -/
def stopsTooEarly (options : Options) (s : State) : Bool :=
  s.sweep.any fun sweep =>
    match sweep.phase with
    | .visiting visit _ _ =>
        (match visit.stage with
          | .stop _ => true
          | _ => false) &&
          (outsideTimes visit.kind visit.name (s.history visit.kind visit.name)).all
            fun time => sweep.now - time < options.graceMs
    | _ => false

theorem not_stopsProvenOrphans {options : Options} {s : State}
    (h : stopsTooEarly options s = true) : ¬StopsProvenOrphans options s := by
  intro hstops
  cases hsweep : s.sweep with
  | none =>
      rw [stopsTooEarly, hsweep] at h
      cases h
  | some sweep =>
      rw [stopsTooEarly, hsweep, Option.any_some] at h
      split at h
      case h_2 => cases h
      case h_1 visit names kinds hphase =>
          rw [Bool.and_eq_true] at h
          obtain ⟨hstage, hearly⟩ := h
          split at hstage
          case h_2 => cases hstage
          case h_1 deployment hstop =>
              obtain ⟨-, time, hgrace, houtside⟩ :=
                hstops sweep visit names kinds deployment hsweep hphase hstop
              have hlt := List.all_eq_true.mp hearly time (mem_outsideTimes houtside)
              have := of_decide_eq_true hlt
              omega

theorem adopted_process_stopped :
    ¬ ∀ (options : Options) (s : State) (actions : List Action), Initial s →
      (machine options).Always (fun s => StopsProvenOrphans options s ∧ StartsAgain s)
        s actions := by
  intro hall
  have halways := hall fiveMinutes oneProcess adoptedBetween oneProcess_initial
  have hrun : ((machine fiveMinutes).exec oneProcess adoptedBetween).any
      (stopsTooEarly fiveMinutes) = true := by
    decide +kernel
  cases hexec : (machine fiveMinutes).exec oneProcess adoptedBetween with
  | none =>
      rw [hexec] at hrun
      cases hrun
  | some t =>
      rw [hexec, Option.any_some] at hrun
      exact not_stopsProvenOrphans hrun (halways.of_exec hexec).1

end Eveland.OrphanReaper
