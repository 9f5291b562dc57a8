/-
# What programs guarantee while others run

A program that has learned something of the shared state goes on while other programs change it.
It may rely on a relation between states that every call of every program keeps: what is stable
under the relation is still true when the program makes its next call. A program respects a
condition if each call it can come to make satisfies it, whatever the others did in between. The
rule of the module is that where every program respects its condition when it is launched, every
call of every run does.
-/

import Eveland.Foundations.Programs

universe u

variable {σ L Op χ ε : Type u} {Ans : Op → Type u}

namespace Actors

/-- A condition on the call a step makes. -/
def OnCalls (P : σ → Op → χ → Prop) (pool : Pool σ L Op Ans) : PoolAction L χ ε → Prop
  | .call index choice => ∀ label op next,
      pool.tasks[index]? = some (label, .call op next) → P pool.state op choice
  | _ => True

instance decidableOnCalls (P : σ → Op → χ → Prop) [∀ s op choice, Decidable (P s op choice)]
    (pool : Pool σ L Op Ans) : ∀ action : PoolAction L χ ε, Decidable (OnCalls P pool action)
  | .call index choice =>
      match htask : pool.tasks[index]? with
      | some (label, .call op next) =>
          decidable_of_iff (P pool.state op choice)
            ⟨fun hP _ _ _ hcall => by rw [htask] at hcall; cases hcall; exact hP,
              fun hcalls => hcalls label op next htask⟩
      | some (label, .done) => isTrue (by simp [OnCalls, htask])
      | none => isTrue (by simp [OnCalls, htask])
  | .launch _ => isTrue trivial
  | .crash _ => isTrue trivial
  | .outside _ => isTrue trivial

/-- A shared account of a pool: what holds of the state, how it may change while a program waits
for its turn, the condition under which a call is made, and what the call is to satisfy. -/
structure Contract (σ Op χ : Type u) where
  inv : σ → Prop
  rely : σ → σ → Prop
  given : σ → Op → χ → Prop
  ok : σ → Op → χ → Prop

variable (A : Actors σ L Op Ans χ ε) (C : Contract σ Op χ)

/-- Each call the program can come to make from a state is as it should be. -/
def Respects : Program Op Ans → σ → Prop
  | .done, _ => True
  | .call op next, s => ∀ t choice, C.rely s t → C.inv t → C.given t op choice →
      C.ok t op choice ∧ ∀ u answer, A.perform t op choice = some (u, answer) →
        Respects (next answer) u

@[simp]
theorem respects_done (s : σ) : A.Respects C .done s := trivial

/-- The account is kept by every call that is as it should be. -/
structure Stable : Prop where
  refl : ∀ s, C.rely s s
  trans : ∀ s t u, C.rely s t → C.rely t u → C.rely s u
  perform : ∀ s op choice t answer, C.inv s → C.given s op choice → C.ok s op choice →
    A.perform s op choice = some (t, answer) → C.inv t ∧ C.rely s t
  outside : ∀ s event t, C.inv s → A.outside s event = some t → C.inv t ∧ C.rely s t

/-- The account is kept, and programs are launched respecting it. -/
structure Upholds : Prop extends A.Stable C where
  launch : ∀ pool label, C.inv pool.state → A.admits pool label = true →
    A.Respects C (A.program label) pool.state

variable {A C}

/-- What a program respects it respects later on. -/
theorem Respects.later (hstable : A.Stable C) {program : Program Op Ans} {s t : σ}
    (hrespects : A.Respects C program s) (hrely : C.rely s t) : A.Respects C program t := by
  cases program with
  | done => trivial
  | call op next =>
      intro u choice hlater
      exact hrespects u choice (hstable.trans s t u hrely hlater)

/-- A call is as it should be, and what comes after it respects the account. -/
theorem respects_call (hstable : A.Stable C) {op : Op} {next : Ans op → Program Op Ans} {s : σ}
    (hok : ∀ t choice, C.rely s t → C.inv t → C.given t op choice → C.ok t op choice)
    (hnext : ∀ t choice u answer, C.rely s t → C.inv t → C.given t op choice →
      A.perform t op choice = some (u, answer) → C.rely s u → C.inv u →
      A.Respects C (next answer) u) : A.Respects C (.call op next) s := by
  intro t choice hrely hinv hgiven
  have hcall := hok t choice hrely hinv hgiven
  refine ⟨hcall, ?_⟩
  intro u answer hperform
  obtain ⟨hinv', hrely'⟩ := hstable.perform t op choice u answer hinv hgiven hcall hperform
  exact hnext t choice u answer hrely hinv hgiven hperform (hstable.trans s t u hrely hrely') hinv'

/-- What holds of a pool whose programs respect the account. -/
structure Kept (A : Actors σ L Op Ans χ ε) (C : Contract σ Op χ) (pool : Pool σ L Op Ans) :
    Prop where
  inv : C.inv pool.state
  tasks : ∀ task ∈ pool.tasks, A.Respects C task.2 pool.state

theorem Kept.ok (hupholds : A.Upholds C) {pool : Pool σ L Op Ans} {action : PoolAction L χ ε}
    (hkept : A.Kept C pool) (hgiven : OnCalls C.given pool action) : OnCalls C.ok pool action := by
  cases action with
  | call index choice =>
      intro label op next htask
      have hrespects := hkept.tasks _ (List.mem_of_getElem? htask)
      exact (hrespects pool.state choice (hupholds.refl _) hkept.inv
        (hgiven label op next htask)).1
  | _ => trivial

theorem Kept.step (hupholds : A.Upholds C) {pool after : Pool σ L Op Ans}
    {action : PoolAction L χ ε} (hkept : A.Kept C pool) (hgiven : OnCalls C.given pool action)
    (hstep : A.step pool action = some after) : A.Kept C after := by
  have hok := hkept.ok hupholds hgiven
  obtain ⟨label, _, hadmits, rfl⟩ | ⟨index, choice, label, op, next, state, answer, rfl, htask, hcall,
    rfl⟩ | ⟨index, label, program, _, htask, rfl⟩ | ⟨event, state, _, hevent, rfl⟩ := step_cases hstep
  · refine ⟨hkept.inv, ?_⟩
    intro task hmem
    rcases List.mem_append.mp hmem with hold | hnew
    · exact hkept.tasks task hold
    · rw [List.mem_singleton.mp hnew]
      exact hupholds.launch pool label hkept.inv hadmits
  · obtain ⟨hinv, hrely⟩ := hupholds.perform _ _ _ _ _ hkept.inv (hgiven _ _ _ htask)
      (hok _ _ _ htask) hcall
    refine ⟨hinv, ?_⟩
    intro task hmem
    rcases List.mem_or_eq_of_mem_set hmem with hold | rfl
    · exact (hkept.tasks task hold).later hupholds.toStable hrely
    · have hrespects := hkept.tasks _ (List.mem_of_getElem? htask)
      exact (hrespects pool.state choice (hupholds.refl _) hkept.inv (hgiven _ _ _ htask)).2
        state answer hcall
  · refine ⟨hkept.inv, ?_⟩
    intro task hmem
    rcases List.mem_or_eq_of_mem_set hmem with hold | rfl
    · exact hkept.tasks task hold
    · trivial
  · obtain ⟨hinv, hrely⟩ := hupholds.outside _ _ _ hkept.inv hevent
    exact ⟨hinv, fun task hmem => (hkept.tasks task hmem).later hupholds.toStable hrely⟩

/-- **Guarantees.** In a run whose calls are all made under the condition of the account, every
call is as it should be. -/
theorem meets_ok (hupholds : A.Upholds C) {init : σ → Prop} {pool : Pool σ L Op Ans}
    {actions : List (PoolAction L χ ε)} (hinit : (A.machine init).init pool)
    (hinv : ∀ s, init s → C.inv s)
    (hmeets : (A.machine init).Meets (OnCalls C.given) pool actions) :
    (A.machine init).Meets (OnCalls C.ok) pool actions := by
  refine hmeets.of_guarded (J := A.Kept C) ?_ ?_ ?_
  · intro pool action after hkept hgiven hstep
    exact hkept.step hupholds hgiven hstep
  · intro pool action hkept hgiven
    exact hkept.ok hupholds hgiven
  · refine ⟨hinv _ hinit.1, ?_⟩
    rw [hinit.2]
    simp

end Actors
