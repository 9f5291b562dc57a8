/-
# Programs that crash and are taken up again

One program at a time runs over a durable state. It can crash between any two of its calls, and
the next one finds whatever it has left. What is to hold all the way through is `safe`; what the
next program can start from is `resumable`. A call is exposed where what the program has done so
far cannot be left standing: a crash there is not covered.

The rule of the module is that where every program holds its terms from every resumable state,
a run without exposed crashes is safe in every state it passes through.
-/

import Eveland.Foundations.Programs

universe u

/-- What a call does to the durable state and answers, given what the environment chooses, and
the program behind each label. -/
structure Resumer (σ : Type u) (L : Type u) (Op : Type u) (Ans : Op → Type u) (χ : Type u) where
  perform : σ → (op : Op) → χ → Option (σ × Ans op)
  program : L → Program Op Ans

/-- A durable state and the program that runs over it; none does where it is `done`. -/
structure Desk (σ : Type u) (Op : Type u) (Ans : Op → Type u) where
  durable : σ
  program : Program Op Ans

/-- A program is launched, makes its next call, or crashes. -/
inductive DeskAction (L χ : Type u)
  | launch (label : L)
  | call (choice : χ)
  | crash

namespace Resumer

variable {σ L Op χ : Type u} {Ans : Op → Type u} (R : Resumer σ L Op Ans χ)

/-- One step. A program is launched when none runs. -/
def step (desk : Desk σ Op Ans) : DeskAction L χ → Option (Desk σ Op Ans)
  | .launch label =>
      match desk.program with
      | .done => some { desk with program := R.program label }
      | .call _ _ => none
  | .call choice =>
      match desk.program with
      | .done => none
      | .call op next => (R.perform desk.durable op choice).map fun result =>
          { durable := result.1, program := next result.2 }
  | .crash => some { desk with program := .done }

/-- The machine, from the durable states that `init` allows and with no program running. -/
def machine (init : σ → Prop) : Machine (Desk σ Op Ans) (DeskAction L χ) where
  init desk := init desk.durable ∧ desk.program = .done
  step := R.step

/-! ## Terms -/

/-- What is to hold all the way through, what a program can be launched from, the calls a crash
is not covered at, and the condition under which calls are made. -/
structure Terms (σ Op χ : Type u) where
  safe : σ → Prop
  resumable : σ → Prop
  exposed : Op → Bool
  given : σ → Op → χ → Bool

variable (T : Terms σ Op χ)

/-- The condition on a step: no crash at an exposed call, and calls as they are given. -/
def Covered (desk : Desk σ Op Ans) : DeskAction L χ → Bool
  | .launch _ => true
  | .call choice => desk.program.head.all fun op => T.given desk.durable op choice
  | .crash => desk.program.head.all fun op => !T.exposed op

/-- Through every call the program can come to make the state is safe, and resumable except at
exposed calls; and it is resumable where the program ends. -/
def Holds : Program Op Ans → σ → Prop
  | .done, s => T.resumable s
  | .call op next, s =>
      T.safe s ∧ (T.exposed op = false → T.resumable s) ∧
        ∀ choice t answer, T.given s op choice = true →
          R.perform s op choice = some (t, answer) → Holds (next answer) t

/-- Resumable states are safe, and every program holds its terms from them. -/
structure Upholds : Prop where
  safe : ∀ s, T.resumable s → T.safe s
  launch : ∀ label s, T.resumable s → R.Holds T (R.program label) s

variable {R T}

/-- A call that changes nothing, made in a resumable state. -/
theorem holds_silent (hsafe : ∀ s, T.resumable s → T.safe s) {op : Op}
    {next : Ans op → Program Op Ans} {s : σ} (hresumable : T.resumable s)
    (hsilent : ∀ choice t answer, R.perform s op choice = some (t, answer) → t = s)
    (hnext : ∀ answer, R.Holds T (next answer) s) : R.Holds T (.call op next) s := by
  refine ⟨hsafe s hresumable, fun _ => hresumable, ?_⟩
  intro choice t answer _ hperform
  rw [hsilent choice t answer hperform]
  exact hnext answer

/-- A call made in a resumable state. -/
theorem holds_call (hsafe : ∀ s, T.resumable s → T.safe s) {op : Op}
    {next : Ans op → Program Op Ans} {s : σ} (hresumable : T.resumable s)
    (hnext : ∀ choice t answer, T.given s op choice = true →
      R.perform s op choice = some (t, answer) → R.Holds T (next answer) t) :
    R.Holds T (.call op next) s :=
  ⟨hsafe s hresumable, fun _ => hresumable, hnext⟩

/-- An exposed call, made in a state that is safe. -/
theorem holds_exposed {op : Op} {next : Ans op → Program Op Ans} {s : σ} (hsafe : T.safe s)
    (hexposed : T.exposed op = true)
    (hnext : ∀ choice t answer, T.given s op choice = true →
      R.perform s op choice = some (t, answer) → R.Holds T (next answer) t) :
    R.Holds T (.call op next) s := by
  refine ⟨hsafe, fun hnot => ?_, hnext⟩
  rw [hexposed] at hnot
  cases hnot

/-! ## Runs -/

/-- A step that is covered leaves a program that holds its terms. -/
theorem Holds.step (hupholds : R.Upholds T) {desk after : Desk σ Op Ans}
    {action : DeskAction L χ} (hholds : R.Holds T desk.program desk.durable)
    (hcovered : Covered T desk action = true) (hstep : R.step desk action = some after) :
    R.Holds T after.program after.durable := by
  obtain ⟨s, program⟩ := desk
  cases action with
  | launch label =>
      cases program with
      | done =>
          cases hstep
          exact hupholds.launch label s hholds
      | call op next => cases hstep
  | call choice =>
      cases program with
      | done => cases hstep
      | call op next =>
          obtain ⟨⟨t, answer⟩, hperform, rfl⟩ := Option.map_eq_some_iff.mp hstep
          exact hholds.2.2 choice t answer hcovered hperform
  | crash =>
      cases hstep
      cases program with
      | done => exact hholds
      | call op next => exact hholds.2.1 (by simpa [Covered, Program.head] using hcovered)

theorem Holds.safe (hupholds : R.Upholds T) {program : Program Op Ans} {s : σ}
    (hholds : R.Holds T program s) : T.safe s := by
  cases program with
  | done => exact hupholds.safe s hholds
  | call op next => exact hholds.1

/-- **Recovery.** A run whose steps are all covered is safe in every state. -/
theorem always_safe (hupholds : R.Upholds T) {init : σ → Prop} {desk : Desk σ Op Ans}
    {actions : List (DeskAction L χ)} (hinit : (R.machine init).init desk)
    (hresumable : ∀ s, init s → T.resumable s)
    (hcovered : (R.machine init).Meets (fun desk action => Covered T desk action = true) desk
      actions) :
    (R.machine init).Always (fun desk => T.safe desk.durable) desk actions := by
  refine (R.machine init).always_of_meets (I := fun desk => R.Holds T desk.program desk.durable)
    ?_ ?_ ?_ hcovered
  · intro desk action after hholds hcovered hstep
    exact hholds.step hupholds hcovered hstep
  · intro desk hholds
    exact hholds.safe hupholds
  · rw [hinit.2]
    exact hresumable _ hinit.1

end Resumer
