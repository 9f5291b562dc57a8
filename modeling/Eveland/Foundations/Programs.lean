/-
# Interleaved programs

A program is what one party does: a call, and how it goes on with the answer. A pool runs any
number of programs over one shared state, call by call and in any order; a program can be
launched at any time it is admitted, and can crash between any two of its calls.

Two rules carry what is proved about a pool. A property of the shared state that every call
preserves holds however the programs are interleaved; and a kind of call that a program is
never written to make is never made by it.
-/

import Eveland.Foundations.Machine

universe u v

/-- Calls with answers of the type the call determines. -/
inductive Program (Op : Type u) (Ans : Op → Type v)
  | done
  | call (op : Op) (next : Ans op → Program Op Ans)

namespace Program

variable {Op : Type u} {Ans : Op → Type v}

/-- The call a program is at. -/
def head : Program Op Ans → Option Op
  | .done => none
  | .call op _ => some op

/-- Every call the program can come to make is allowed. -/
def Uses (allowed : Op → Prop) : Program Op Ans → Prop
  | .done => True
  | .call op next => allowed op ∧ ∀ answer, (next answer).Uses allowed

@[simp]
theorem uses_done (allowed : Op → Prop) : (done : Program Op Ans).Uses allowed := trivial

@[simp]
theorem uses_call (allowed : Op → Prop) (op : Op) (next : Ans op → Program Op Ans) :
    (call op next).Uses allowed ↔ allowed op ∧ ∀ answer, (next answer).Uses allowed := Iff.rfl

theorem Uses.mono {allowed permitted : Op → Prop} {program : Program Op Ans}
    (huses : program.Uses allowed) (hallowed : ∀ op, allowed op → permitted op) :
    program.Uses permitted := by
  induction program with
  | done => trivial
  | call op next ih => exact ⟨hallowed op huses.1, fun answer => ih answer (huses.2 answer)⟩

theorem uses_of_forall {allowed : Op → Prop} (hallowed : ∀ op, allowed op)
    (program : Program Op Ans) : program.Uses allowed := by
  induction program with
  | done => trivial
  | call op next ih => exact ⟨hallowed op, ih⟩

theorem Uses.head {allowed : Op → Prop} {program : Program Op Ans} {op : Op}
    (huses : program.Uses allowed) (hhead : program.head = some op) : allowed op := by
  cases program with
  | done => cases hhead
  | call op' next => exact Option.some.inj hhead ▸ huses.1

end Program

/-- A shared state and the programs that run over it, each under the label it was launched
by. -/
structure Pool (σ : Type u) (L : Type u) (Op : Type u) (Ans : Op → Type u) where
  state : σ
  tasks : List (L × Program Op Ans)

/-- The parties of a system: what a call does to the shared state and what it answers, given
what the environment chooses; the program behind each label and when it may be launched; and
what else may happen to the state. -/
structure Actors (σ : Type u) (L : Type u) (Op : Type u) (Ans : Op → Type u) (χ ε : Type u) where
  perform : σ → (op : Op) → χ → Option (σ × Ans op)
  program : L → Program Op Ans
  admits : Pool σ L Op Ans → L → Bool
  outside : σ → ε → Option σ

/-- A program is launched, makes its next call, or crashes; or something else happens. -/
inductive PoolAction (L χ ε : Type u)
  | launch (label : L)
  | call (index : ℕ) (choice : χ)
  | crash (index : ℕ)
  | outside (event : ε)

namespace Actors

variable {σ L Op χ ε : Type u} {Ans : Op → Type u} (A : Actors σ L Op Ans χ ε)

/-- The call a program is at, made. -/
def advance (s : σ) (program : Program Op Ans) (choice : χ) : Option (σ × Program Op Ans) :=
  match program with
  | .done => none
  | .call op next => (A.perform s op choice).map fun result => (result.1, next result.2)

/-- One step of the pool. -/
def step (pool : Pool σ L Op Ans) : PoolAction L χ ε → Option (Pool σ L Op Ans)
  | .launch label =>
      if A.admits pool label then
        some { pool with tasks := pool.tasks ++ [(label, A.program label)] }
      else none
  | .call index choice =>
      pool.tasks[index]?.bind fun task =>
        (A.advance pool.state task.2 choice).map fun result =>
          { state := result.1, tasks := pool.tasks.set index (task.1, result.2) }
  | .crash index =>
      pool.tasks[index]?.map fun task =>
        { pool with tasks := pool.tasks.set index (task.1, .done) }
  | .outside event => (A.outside pool.state event).map fun state => { pool with state }

/-- The pool as a machine, from the states that `init` allows and with no program running. -/
def machine (init : σ → Prop) : Machine (Pool σ L Op Ans) (PoolAction L χ ε) where
  init pool := init pool.state ∧ pool.tasks = []
  step := A.step

variable {A}

theorem advance_eq_some {s t : σ} {program rest : Program Op Ans} {choice : χ}
    (hadvance : A.advance s program choice = some (t, rest)) :
    ∃ op next answer, program = .call op next ∧ A.perform s op choice = some (t, answer) ∧
      rest = next answer := by
  cases program with
  | done => cases hadvance
  | call op next =>
      obtain ⟨⟨t', answer⟩, hperform, hresult⟩ := Option.map_eq_some_iff.mp hadvance
      cases hresult
      exact ⟨op, next, answer, rfl, hperform, rfl⟩

/-- What a step of the pool is: a launch, a call, a crash, or something else. -/
theorem step_cases {pool after : Pool σ L Op Ans} {action : PoolAction L χ ε}
    (hstep : A.step pool action = some after) :
    (∃ label, action = .launch label ∧ A.admits pool label = true ∧
      after = { pool with tasks := pool.tasks ++ [(label, A.program label)] }) ∨
    (∃ index choice label op next state answer, action = .call index choice ∧
      pool.tasks[index]? = some (label, .call op next) ∧
      A.perform pool.state op choice = some (state, answer) ∧
      after = { state, tasks := pool.tasks.set index (label, next answer) }) ∨
    (∃ index label program, action = .crash index ∧
      pool.tasks[index]? = some (label, program) ∧
      after = { pool with tasks := pool.tasks.set index (label, .done) }) ∨
    (∃ event state, action = .outside event ∧ A.outside pool.state event = some state ∧
      after = { pool with state }) := by
  cases action with
  | launch label =>
      simp only [step] at hstep
      split at hstep <;> cases hstep
      next hadmits => exact Or.inl ⟨label, rfl, hadmits, rfl⟩
  | call index choice =>
      obtain ⟨⟨label, program⟩, htask, hresult⟩ := Option.bind_eq_some_iff.mp hstep
      obtain ⟨⟨state, rest⟩, hadvance, rfl⟩ := Option.map_eq_some_iff.mp hresult
      obtain ⟨op, next, answer, rfl, hperform, rfl⟩ := advance_eq_some hadvance
      exact Or.inr (Or.inl ⟨index, choice, label, op, next, state, answer, rfl, htask, hperform, rfl⟩)
  | crash index =>
      obtain ⟨⟨label, program⟩, htask, rfl⟩ := Option.map_eq_some_iff.mp hstep
      exact Or.inr (Or.inr (Or.inl ⟨index, label, program, rfl, htask, rfl⟩))
  | outside event =>
      obtain ⟨state, hstate, rfl⟩ := Option.map_eq_some_iff.mp hstep
      exact Or.inr (Or.inr (Or.inr ⟨event, state, rfl, hstate, rfl⟩))

/-- **Shared state.** What every call and every outside event preserves, a step of the pool
preserves. -/
theorem step_state {I : σ → Prop}
    (hperform : ∀ s op choice t answer, I s → A.perform s op choice = some (t, answer) → I t)
    (houtside : ∀ s event t, I s → A.outside s event = some t → I t)
    {pool after : Pool σ L Op Ans} {action : PoolAction L χ ε} (hI : I pool.state)
    (hstep : A.step pool action = some after) : I after.state := by
  obtain ⟨_, _, _, rfl⟩ | ⟨_, choice, _, op, _, state, answer, _, _, hcall, rfl⟩ |
    ⟨_, _, _, _, _, rfl⟩ | ⟨event, state, _, hevent, rfl⟩ := step_cases hstep
  · exact hI
  · exact hperform pool.state op choice state answer hI hcall
  · exact hI
  · exact houtside pool.state event state hI hevent

/-- **Calls that are never made.** If what is launched under a label only ever makes calls
allowed to that label, the same is true of every program of the pool. -/
theorem step_uses {allowed : L → Op → Prop}
    (hprogram : ∀ label, (A.program label).Uses (allowed label))
    {pool after : Pool σ L Op Ans} {action : PoolAction L χ ε}
    (huses : ∀ task ∈ pool.tasks, task.2.Uses (allowed task.1))
    (hstep : A.step pool action = some after) :
    ∀ task ∈ after.tasks, task.2.Uses (allowed task.1) := by
  obtain ⟨label, _, _, rfl⟩ | ⟨index, _, label, op, next, _, answer, _, htask, _, rfl⟩ |
    ⟨index, label, program, _, htask, rfl⟩ | ⟨_, _, _, _, rfl⟩ := step_cases hstep
  · intro task hmem
    rcases List.mem_append.mp hmem with hold | hnew
    · exact huses task hold
    · rw [List.mem_singleton.mp hnew]
      exact hprogram label
  · intro task hmem
    rcases List.mem_or_eq_of_mem_set hmem with hold | rfl
    · exact huses task hold
    · exact (huses _ (List.mem_of_getElem? htask)).2 answer
  · intro task hmem
    rcases List.mem_or_eq_of_mem_set hmem with hold | rfl
    · exact huses task hold
    · exact Program.uses_done _
  · exact huses

end Actors
