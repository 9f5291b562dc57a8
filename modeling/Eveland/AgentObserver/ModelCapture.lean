/-
# Model calls and the steps they belong to

The observer of an agent process sees every model call twice: when the SDK has
finished it, which is the only place that knows the model that was really
invoked, and when the runtime reports the step as completed, which names no
model but repeats the call's token counts. Between the two stands one short
buffer that all turns of the process share. Calls of concurrent turns interleave
in it, some calls (compactions) belong to no step, and some steps are never
reported.

Two things hold of any such traffic. A call is attributed to at most one step,
and to none whose usage is not its own. And a step gets its own call as long as
no call with the same usage came in between and fewer than sixteen calls did.
-/

import Mathlib.Data.List.Induction
import Mathlib.Data.List.Perm.Subperm

namespace Eveland.ModelCapture

/-! ## The buffer -/

/-- A model call observed through the telemetry registry of the SDK. -/
structure ObservedModelCall where
  modelId : String
  responseModelId : Option String
  inputTokens : Option ℕ
  outputTokens : Option ℕ
  finishReason : Option String
  deriving DecidableEq, Repr

/-- What a completed step says of its call. -/
structure ObservedStepUsage where
  inputTokens : Option ℕ
  outputTokens : Option ℕ
  finishReason : Option String
  deriving DecidableEq, Repr

/-- The fields that `onStepEnd` reads off the event of the SDK, as texts and
counts where they are such. -/
structure StepEnd where
  modelId : Option String
  responseModelId : Option String
  inputTokens : Option ℕ
  outputTokens : Option ℕ
  finishReason : Option String
  deriving DecidableEq, Repr

def maxBufferedCalls : ℕ := 16

/-- `asString`: an empty text counts as none. -/
def asString (value : Option String) : Option String :=
  value.filter fun text => text ≠ ""

/-- The call an event stands for; one that names no model is dropped. -/
def observedCall (event : StepEnd) : Option ObservedModelCall :=
  (asString event.modelId).map fun modelId =>
    { modelId
      responseModelId := asString event.responseModelId
      inputTokens := event.inputTokens
      outputTokens := event.outputTokens
      finishReason := asString event.finishReason }

/-- `buffer.push`, and `splice` where that made the buffer too long. -/
def push (buffer : List ObservedModelCall) (call : ObservedModelCall) : List ObservedModelCall :=
  (buffer ++ [call]).drop ((buffer ++ [call]).length - maxBufferedCalls)

def onStepEnd (buffer : List ObservedModelCall) (event : StepEnd) : List ObservedModelCall :=
  match observedCall event with
  | none => buffer
  | some call => push buffer call

def normalizeFinishReason (value : String) : String :=
  if value ∈ ["content-filter", "error", "length", "stop", "tool-calls"] then value else "other"

/-- Equal counts identify the call; the finish reason breaks the tie when both
sides carry it. -/
def matchesStep (entry : ObservedModelCall) (step : ObservedStepUsage) : Bool :=
  if step.inputTokens = none ∨ step.outputTokens = none then false
  else if entry.inputTokens ≠ step.inputTokens ∨ entry.outputTokens ≠ step.outputTokens then
    false
  else
    match entry.finishReason, step.finishReason with
    | some reason, some reported => normalizeFinishReason reason = reported
    | _, _ => true

/-- The loop of `take`, from the entry before `index` down to the oldest. -/
def takeBelow (buffer : List ObservedModelCall) (step : ObservedStepUsage) :
    ℕ → Option (ObservedModelCall × List ObservedModelCall)
  | 0 => none
  | index + 1 =>
      match buffer[index]? with
      | none => takeBelow buffer step index
      | some entry =>
          if matchesStep entry step then some (entry, buffer.eraseIdx index)
          else takeBelow buffer step index

/-- Whether the step reported any usage. -/
def ObservedStepUsage.reports (step : ObservedStepUsage) : Bool :=
  step.inputTokens.isSome || step.outputTokens.isSome

/-- The call a step is attributed, and the buffer that is left. -/
def take (buffer : List ObservedModelCall) (step : ObservedStepUsage) :
    Option ObservedModelCall × List ObservedModelCall :=
  match takeBelow buffer step buffer.length with
  | some (entry, rest) => (some entry, rest)
  | none =>
      if step.reports then (none, buffer)
      else (buffer.getLast?, buffer.dropLast)

/-! ## The traffic of a process -/

/-- What the observer is told, in the order it is told. -/
inductive Observation
  | ended (event : StepEnd)
  | completed (step : ObservedStepUsage)
  deriving DecidableEq, Repr

/-- The buffer, and what has been attributed so far. -/
structure Capture where
  buffer : List ObservedModelCall := []
  attributed : List (ObservedStepUsage × Option ObservedModelCall) := []

def Capture.observe (capture : Capture) : Observation → Capture
  | .ended event => { capture with buffer := onStepEnd capture.buffer event }
  | .completed step =>
      { buffer := (take capture.buffer step).2
        attributed := capture.attributed ++ [(step, (take capture.buffer step).1)] }

/-- The traffic of a whole process. -/
def Capture.run (capture : Capture) (traffic : List Observation) : Capture :=
  traffic.foldl Capture.observe capture

/-- The calls that the traffic tells of. -/
def observedCalls : List Observation → List ObservedModelCall
  | [] => []
  | .ended event :: rest => (observedCall event).toList ++ observedCalls rest
  | .completed _ :: rest => observedCalls rest

/-- The steps that the traffic tells of. -/
def completedSteps : List Observation → List ObservedStepUsage
  | [] => []
  | .ended _ :: rest => completedSteps rest
  | .completed step :: rest => step :: completedSteps rest

/-- The calls attributed so far, to whichever step. -/
def Capture.taken (capture : Capture) : List ObservedModelCall :=
  capture.attributed.filterMap Prod.snd

@[simp]
theorem run_nil (capture : Capture) : capture.run [] = capture := rfl

@[simp]
theorem run_cons (capture : Capture) (o : Observation) (traffic : List Observation) :
    capture.run (o :: traffic) = (capture.observe o).run traffic := rfl

theorem run_append (capture : Capture) (before after : List Observation) :
    capture.run (before ++ after) = (capture.run before).run after := by
  simp [Capture.run, List.foldl_append]

/-! ## Pushing -/

theorem length_push_le (buffer : List ObservedModelCall) (call : ObservedModelCall) :
    (push buffer call).length ≤ maxBufferedCalls := by
  rw [push, List.length_drop]
  omega

theorem push_sublist_append (buffer : List ObservedModelCall) (call : ObservedModelCall) :
    (push buffer call).Sublist (buffer ++ [call]) :=
  List.drop_sublist _ _

/-- A call stays in the buffer while fewer than sixteen follow it. -/
theorem push_keeps (older newer : List ObservedModelCall) (call added : ObservedModelCall)
    (hroom : newer.length + 1 < maxBufferedCalls) :
    ∃ older', push (older ++ call :: newer) added = older' ++ call :: (newer ++ [added]) := by
  refine ⟨older.drop ((older ++ call :: newer ++ [added]).length - maxBufferedCalls), ?_⟩
  have hshape : older ++ call :: newer ++ [added] = older ++ call :: (newer ++ [added]) := by simp
  rw [push, hshape, List.drop_append_of_le_length]
  simp only [List.length_append, List.length_cons, List.length_nil]
  omega

/-! ## Taking -/

theorem takeBelow_append (buffer newer : List ObservedModelCall) (step : ObservedStepUsage)
    (index : ℕ) (hindex : index ≤ buffer.length) :
    takeBelow (buffer ++ newer) step index =
      (takeBelow buffer step index).map fun p => (p.1, p.2 ++ newer) := by
  induction index with
  | zero => rfl
  | succ index ih =>
      have hlt : index < buffer.length := hindex
      simp only [takeBelow, List.getElem?_append_left hlt, List.getElem?_eq_getElem hlt]
      split
      · simp [List.eraseIdx_append_of_lt_length hlt]
      · exact ih (Nat.le_of_succ_le hindex)

/-- The search looks at the newest entry first. -/
theorem takeBelow_concat (buffer : List ObservedModelCall) (newest : ObservedModelCall)
    (step : ObservedStepUsage) :
    takeBelow (buffer ++ [newest]) step (buffer ++ [newest]).length =
      if matchesStep newest step then some (newest, buffer)
      else (takeBelow buffer step buffer.length).map fun p => (p.1, p.2 ++ [newest]) := by
  have hlength : (buffer ++ [newest]).length = buffer.length + 1 := by simp
  have hnewest : (buffer ++ [newest])[buffer.length]? = some newest := by simp
  have herase : (buffer ++ [newest]).eraseIdx buffer.length = buffer := by
    rw [List.eraseIdx_append_of_length_le (Nat.le_refl _)]
    simp
  rw [hlength]
  simp only [takeBelow, hnewest, herase]
  split
  · rfl
  · exact takeBelow_append buffer [newest] step buffer.length (Nat.le_refl _)

/-- What the search returns was in the buffer, matches, and leaves the rest as it
was; nothing newer matches. -/
theorem takeBelow_eq_some {buffer rest : List ObservedModelCall} {step : ObservedStepUsage}
    {entry : ObservedModelCall} (h : takeBelow buffer step buffer.length = some (entry, rest)) :
    ∃ older newer, buffer = older ++ entry :: newer ∧ rest = older ++ newer ∧
      matchesStep entry step = true ∧ ∀ call ∈ newer, matchesStep call step = false := by
  induction buffer using List.reverseRecOn generalizing rest with
  | nil => simp [takeBelow] at h
  | append_singleton buffer newest ih =>
      rw [takeBelow_concat] at h
      by_cases hmatch : matchesStep newest step = true
      · simp only [hmatch, if_true, Option.some.injEq, Prod.mk.injEq] at h
        obtain ⟨rfl, rfl⟩ := h
        exact ⟨buffer, [], rfl, by simp, hmatch, by simp⟩
      · simp only [hmatch, Bool.false_eq_true, if_false, Option.map_eq_some_iff] at h
        obtain ⟨⟨found, left⟩, hfound, heq⟩ := h
        obtain ⟨rfl, rfl⟩ := Prod.mk.inj heq
        obtain ⟨older, newer, rfl, rfl, hentry, hnewer⟩ := ih hfound
        refine ⟨older, newer ++ [newest], by simp, by simp, hentry, ?_⟩
        intro call hcall
        rcases List.mem_append.mp hcall with hcall | hcall
        · exact hnewer call hcall
        · rw [List.mem_singleton.mp hcall]
          exact Bool.eq_false_iff.mpr hmatch

/-- The newest entry that matches is the one found. -/
theorem takeBelow_of_newest {older newer : List ObservedModelCall} {step : ObservedStepUsage}
    {entry : ObservedModelCall} (hmatch : matchesStep entry step = true)
    (hnewer : ∀ call ∈ newer, matchesStep call step = false) :
    takeBelow (older ++ entry :: newer) step (older ++ entry :: newer).length =
      some (entry, older ++ newer) := by
  induction newer using List.reverseRecOn with
  | nil => rw [takeBelow_concat]; simp [hmatch]
  | append_singleton newer newest ih =>
      have hshape : older ++ entry :: (newer ++ [newest]) =
          older ++ entry :: newer ++ [newest] := by simp
      have hnewest : matchesStep newest step = false := hnewer newest (by simp)
      have hrest := ih fun call hcall => hnewer call (List.mem_append_left _ hcall)
      rw [hshape, takeBelow_concat, hrest]
      simp [hnewest]

/-- A call that is taken leaves the buffer, and nothing else does. -/
theorem take_perm (buffer : List ObservedModelCall) (step : ObservedStepUsage) :
    ((take buffer step).1.toList ++ (take buffer step).2).Perm buffer := by
  unfold take
  split
  next entry rest hfound =>
    obtain ⟨older, newer, rfl, rfl, _⟩ := takeBelow_eq_some hfound
    show (entry :: (older ++ newer)).Perm _
    exact List.perm_middle.symm
  next =>
    split
    · exact List.Perm.refl _
    · cases buffer using List.reverseRecOn with
      | nil => exact List.Perm.refl _
      | append_singleton buffer newest =>
          simp only [List.getLast?_concat, List.dropLast_concat, Option.toList_some]
          exact List.perm_append_comm

/-- A step that reports its usage is attributed a matching call or none. -/
theorem matchesStep_of_take {buffer : List ObservedModelCall} {step : ObservedStepUsage}
    {call : ObservedModelCall} (hreports : step.reports = true)
    (h : (take buffer step).1 = some call) : matchesStep call step = true := by
  unfold take at h
  split at h
  next entry rest hfound =>
    obtain ⟨older, newer, _, _, hmatch, _⟩ := takeBelow_eq_some hfound
    obtain rfl : entry = call := Option.some.inj h
    exact hmatch
  next =>
    rw [if_pos hreports] at h
    cases h

/-- A step whose usage is not the call's leaves the call where it is. -/
theorem take_keeps (older newer : List ObservedModelCall) {call : ObservedModelCall}
    {step : ObservedStepUsage} (hreports : step.reports = true)
    (hother : matchesStep call step = false) :
    ∃ older' newer', (take (older ++ call :: newer) step).2 = older' ++ call :: newer' ∧
      newer'.Sublist newer := by
  unfold take
  split
  next entry rest hfound =>
    obtain ⟨before, after, hsplit, rfl, hmatch, _⟩ := takeBelow_eq_some hfound
    rcases List.append_eq_append_iff.mp hsplit with ⟨mid, rfl, htail⟩ | ⟨mid, rfl, htail⟩
    · cases mid with
      | nil =>
          obtain ⟨rfl, _⟩ := List.cons.inj htail
          rw [hmatch] at hother
          cases hother
      | cons first mid =>
          obtain ⟨rfl, rfl⟩ := List.cons.inj htail
          refine ⟨older, mid ++ after, by simp, ?_⟩
          exact (List.sublist_cons_self entry after).append_left mid
    · cases mid with
      | nil =>
          obtain ⟨rfl, _⟩ := List.cons.inj htail
          rw [hmatch] at hother
          cases hother
      | cons first mid =>
          obtain ⟨rfl, rfl⟩ := List.cons.inj htail
          exact ⟨before ++ mid, newer, by simp, List.Sublist.refl newer⟩
  next => exact ⟨older, newer, by simp [hreports], List.Sublist.refl newer⟩

/-! ## Whole runs -/

/-- What holds of the buffer and the attributions after any traffic. -/
structure Accounted (capture : Capture) (calls : List ObservedModelCall) : Prop where
  short : capture.buffer.length ≤ maxBufferedCalls
  once : (capture.taken ++ capture.buffer).Subperm calls
  matching : ∀ step call, (step, some call) ∈ capture.attributed → step.reports = true →
    matchesStep call step = true

theorem Accounted.ended {capture : Capture} {calls : List ObservedModelCall} {event : StepEnd}
    (h : Accounted capture calls) :
    Accounted (capture.observe (.ended event)) (calls ++ (observedCall event).toList) := by
  cases hcall : observedCall event with
  | none =>
      have hsame : capture.observe (.ended event) = capture := by
        simp [Capture.observe, onStepEnd, hcall]
      rw [hsame]
      simpa using h
  | some call =>
      have hbuffer : (capture.observe (.ended event)).buffer = push capture.buffer call := by
        simp [Capture.observe, onStepEnd, hcall]
      constructor
      · rw [hbuffer]
        exact length_push_le _ _
      · have htaken : (capture.observe (.ended event)).taken = capture.taken := rfl
        rw [htaken, hbuffer]
        have hpushed := (push_sublist_append capture.buffer call).append_left capture.taken
        apply hpushed.subperm.trans
        rw [← List.append_assoc]
        exact (List.subperm_append_right _).mpr h.once
      · exact h.matching

theorem Accounted.completed {capture : Capture} {calls : List ObservedModelCall}
    {step : ObservedStepUsage} (h : Accounted capture calls) :
    Accounted (capture.observe (.completed step)) calls := by
  have hperm := take_perm capture.buffer step
  constructor
  · have hlength := hperm.length_eq
    have hshort := h.short
    simp only [List.length_append] at hlength
    show (take capture.buffer step).2.length ≤ _
    omega
  · have htaken : (capture.observe (.completed step)).taken =
        capture.taken ++ (take capture.buffer step).1.toList := by
      cases htake : (take capture.buffer step).1 <;>
        simp [Capture.taken, Capture.observe, htake]
    rw [htaken, List.append_assoc]
    exact (hperm.append_left capture.taken).subperm.trans h.once
  · intro other call hmem hreports
    rcases List.mem_append.mp hmem with hold | hnew
    · exact h.matching other call hold hreports
    · obtain ⟨rfl, hcall⟩ := Prod.mk.inj (List.mem_singleton.mp hnew)
      exact matchesStep_of_take hreports hcall.symm

theorem Accounted.run {capture : Capture} {calls : List ObservedModelCall}
    (h : Accounted capture calls) (traffic : List Observation) :
    Accounted (capture.run traffic) (calls ++ observedCalls traffic) := by
  induction traffic generalizing capture calls with
  | nil => simpa [observedCalls] using h
  | cons o traffic ih =>
      cases o with
      | ended event =>
          rw [run_cons, observedCalls, ← List.append_assoc]
          exact ih h.ended
      | completed step => exact ih h.completed

/-- After any traffic the buffer is short, no observed call has been attributed
to two steps or attributed and kept, and a step that reported its usage was
attributed a call with that usage or none. -/
theorem calls_attributed_once (traffic : List Observation) :
    ((Capture.run {} traffic).buffer.length ≤ maxBufferedCalls) ∧
      ((Capture.run {} traffic).taken ++ (Capture.run {} traffic).buffer).Subperm
        (observedCalls traffic) ∧
      ∀ step call, (step, some call) ∈ (Capture.run {} traffic).attributed →
        step.reports = true → matchesStep call step = true := by
  have hstart : Accounted {} [] := ⟨by decide, by simp [Capture.taken], by simp⟩
  have h := hstart.run traffic
  exact ⟨h.short, by simpa using h.once, h.matching⟩

/-! ## A step and its own call -/

/-- The call waits in the buffer behind nothing that the step would take first. -/
def Waiting (buffer : List ObservedModelCall) (call : ObservedModelCall)
    (step : ObservedStepUsage) (n : ℕ) : Prop :=
  ∃ older newer, buffer = older ++ call :: newer ∧ newer.length ≤ n ∧
    ∀ other ∈ newer, matchesStep other step = false

theorem Waiting.start (buffer : List ObservedModelCall) (call : ObservedModelCall)
    (step : ObservedStepUsage) : Waiting (push buffer call) call step 0 := by
  refine ⟨buffer.drop ((buffer ++ [call]).length - maxBufferedCalls), [], ?_, Nat.le_refl 0,
    by simp⟩
  rw [push, List.drop_append_of_le_length]
  simp [maxBufferedCalls]

theorem Waiting.pushed {buffer : List ObservedModelCall} {call added : ObservedModelCall}
    {step : ObservedStepUsage} {n : ℕ} (h : Waiting buffer call step n)
    (hroom : n + 1 < maxBufferedCalls) (hadded : matchesStep added step = false) :
    Waiting (push buffer added) call step (n + 1) := by
  obtain ⟨older, newer, rfl, hlength, hnewer⟩ := h
  obtain ⟨older', hpush⟩ := push_keeps older newer call added (by omega)
  refine ⟨older', newer ++ [added], hpush, by simpa using hlength, ?_⟩
  intro other hmem
  rcases List.mem_append.mp hmem with hmem | hmem
  · exact hnewer other hmem
  · rw [List.mem_singleton.mp hmem]
    exact hadded

theorem Waiting.taken {buffer : List ObservedModelCall} {call : ObservedModelCall}
    {step other : ObservedStepUsage} {n : ℕ} (h : Waiting buffer call step n)
    (hreports : other.reports = true) (hother : matchesStep call other = false) :
    Waiting (take buffer other).2 call step n := by
  obtain ⟨older, newer, rfl, hlength, hnewer⟩ := h
  obtain ⟨older', newer', hrest, hsub⟩ := take_keeps older newer hreports hother
  exact ⟨older', newer', hrest, Nat.le_trans hsub.length_le hlength,
    fun c hc => hnewer c (hsub.subset hc)⟩

theorem Waiting.run {capture : Capture} {call : ObservedModelCall} {step : ObservedStepUsage}
    {n : ℕ} (h : Waiting capture.buffer call step n) (traffic : List Observation)
    (hroom : n + (observedCalls traffic).length < maxBufferedCalls)
    (hothers : ∀ other ∈ observedCalls traffic, matchesStep other step = false)
    (hsteps : ∀ other ∈ completedSteps traffic,
      other.reports = true ∧ matchesStep call other = false) :
    Waiting (capture.run traffic).buffer call step (n + (observedCalls traffic).length) := by
  induction traffic generalizing capture n with
  | nil => exact h
  | cons o traffic ih =>
      cases o with
      | completed other =>
          obtain ⟨hreports, hother⟩ := hsteps other (by simp [completedSteps])
          exact ih (h.taken hreports hother) hroom hothers
            fun s hs => hsteps s (List.mem_cons_of_mem _ hs)
      | ended event =>
          simp only [observedCalls] at hroom hothers ⊢
          cases hcall : observedCall event with
          | none =>
              simp only [hcall, Option.toList_none, List.nil_append] at hroom hothers ⊢
              have hsame : capture.observe (.ended event) = capture := by
                simp [Capture.observe, onStepEnd, hcall]
              rw [run_cons, hsame]
              exact ih h hroom hothers hsteps
          | some added =>
              simp only [hcall, Option.toList_some, List.singleton_append, List.length_cons,
                List.mem_cons, forall_eq_or_imp] at hroom hothers ⊢
              have hbuffer :
                  (capture.observe (.ended event)).buffer = push capture.buffer added := by
                simp [Capture.observe, onStepEnd, hcall]
              have hpushed : Waiting (capture.observe (.ended event)).buffer call step (n + 1) := by
                rw [hbuffer]
                exact h.pushed (by omega) hothers.1
              have hrun := ih hpushed (by omega) hothers.2 hsteps
              rwa [show n + ((observedCalls traffic).length + 1) =
                n + 1 + (observedCalls traffic).length by omega]

/-- The counts that the runtime copies into the step identify the call. -/
theorem matchesStep_of_copied (call : ObservedModelCall) (input output : ℕ)
    (hinput : call.inputTokens = some input) (houtput : call.outputTokens = some output) :
    matchesStep call
      ⟨some input, some output, call.finishReason.map normalizeFinishReason⟩ = true := by
  cases hreason : call.finishReason <;> simp [matchesStep, hinput, houtput, hreason]

/-- Whatever came before, and however the calls and steps of other turns
interleave: a completed step is attributed its own call, as long as fewer than
sixteen calls were observed since, none of them with the step's usage, and every
step completed since reported a usage that is not this call's. -/
theorem step_takes_its_own_call (before between : List Observation) (event : StepEnd)
    (call : ObservedModelCall) (step : ObservedStepUsage) (hcall : observedCall event = some call)
    (hown : matchesStep call step = true)
    (hroom : (observedCalls between).length < maxBufferedCalls)
    (hothers : ∀ other ∈ observedCalls between, matchesStep other step = false)
    (hsteps : ∀ other ∈ completedSteps between,
      other.reports = true ∧ matchesStep call other = false) :
    (Capture.run {} (before ++ .ended event :: between ++ [.completed step])).attributed.getLast? =
      some (step, some call) := by
  let start := Capture.run {} before
  have hbuffer : (start.observe (.ended event)).buffer = push start.buffer call := by
    simp [Capture.observe, onStepEnd, hcall]
  have hwaiting : Waiting (start.observe (.ended event)).buffer call step 0 := by
    rw [hbuffer]
    exact Waiting.start start.buffer call step
  obtain ⟨older, newer, hsplit, _, hnewer⟩ :=
    hwaiting.run between (by simpa using hroom) hothers hsteps
  have htake : (take ((start.observe (.ended event)).run between).buffer step).1 = some call := by
    rw [hsplit, take, takeBelow_of_newest hown hnewer]
  rw [run_append, run_append, run_cons]
  show (((start.observe (.ended event)).run between).attributed ++
    [(step, (take ((start.observe (.ended event)).run between).buffer step).1)]).getLast? = _
  rw [htake, List.getLast?_concat]

/-- Two turns whose calls end in one order and whose steps complete in the same. -/
theorem step_takes_its_own_call_when_interleaved :
    (Capture.run {} ([] ++
      .ended ⟨some "large", none, some 10, some 20, some "stop"⟩ ::
        [.ended ⟨some "small", none, some 10, some 21, some "stop"⟩] ++
      [.completed ⟨some 10, some 20, some "stop"⟩])).attributed.getLast? =
      some (⟨some 10, some 20, some "stop"⟩,
        some ⟨"large", none, some 10, some 20, some "stop"⟩) :=
  step_takes_its_own_call [] [.ended ⟨some "small", none, some 10, some 21, some "stop"⟩]
    ⟨some "large", none, some 10, some 20, some "stop"⟩ _ _ rfl (by decide) (by decide)
    (by decide) (by decide)

end Eveland.ModelCapture
