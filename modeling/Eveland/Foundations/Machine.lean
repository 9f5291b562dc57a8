/-
# Machines, runs and guarded invariants

A machine is a deterministic partial step function on explicit states. All
nondeterminism (which party moves, what an environment answers, which value a
generator draws) sits in the action, so a run is a list of actions and a
concrete run is evaluated by computation.

Two rules carry every safety argument built on this module. An invariant that
one step preserves holds after every run; and where a property holds only while
each step is taken in a state meeting some condition, `Meets` states that
condition along the run and the same rule applies to it.
-/

import Mathlib.Data.List.Basic
import Mathlib.Logic.Relation

universe u v w

/-- States a system may start in, and the successor of a state under an action.
An action that is not possible in a state has no successor there. -/
structure Machine (σ : Type u) (α : Type v) where
  /-- The states a run may start in. -/
  init : σ → Prop
  /-- What an action does to a state. -/
  step : σ → α → Option σ

namespace Machine

variable {σ : Type u} {α : Type v} (M : Machine σ α)

/-- Run a list of actions, first action first. -/
def exec : σ → List α → Option σ
  | s, [] => some s
  | s, a :: as => (M.step s a).bind fun t => exec t as

@[simp]
theorem exec_nil (s : σ) : M.exec s [] = some s := rfl

theorem exec_cons (s : σ) (a : α) (as : List α) :
    M.exec s (a :: as) = (M.step s a).bind fun t => M.exec t as := rfl

theorem exec_cons_eq_some {s t : σ} {a : α} {as : List α} :
    M.exec s (a :: as) = some t ↔ ∃ m, M.step s a = some m ∧ M.exec m as = some t := by
  simp [exec_cons, Option.bind_eq_some_iff]

/-- Running one list of actions after another is running their concatenation. -/
theorem exec_append (s : σ) (as bs : List α) :
    M.exec s (as ++ bs) = (M.exec s as).bind fun t => M.exec t bs := by
  induction as generalizing s with
  | nil => simp
  | cons a as ih =>
      rw [List.cons_append, exec_cons, exec_cons, Option.bind_assoc]
      congr 1
      funext t
      exact ih t

/-- Some run from an initial state ends here. -/
def Reachable (s : σ) : Prop := ∃ s₀ as, M.init s₀ ∧ M.exec s₀ as = some s

theorem Reachable.of_init {M : Machine σ α} {s : σ} (hs : M.init s) : M.Reachable s :=
  ⟨s, [], hs, rfl⟩

theorem Reachable.of_exec {M : Machine σ α} {s t : σ} {as : List α} (hs : M.Reachable s)
    (hrun : M.exec s as = some t) : M.Reachable t := by
  obtain ⟨s₀, before, hinit, hbefore⟩ := hs
  exact ⟨s₀, before ++ as, hinit, by rw [exec_append, hbefore]; exact hrun⟩

/-- Reachability is preserved by a step. -/
theorem Reachable.step {M : Machine σ α} {s t : σ} {a : α} (hs : M.Reachable s)
    (hstep : M.step s a = some t) : M.Reachable t :=
  Reachable.of_exec hs (show M.exec s [a] = some t by simp [exec_cons, hstep])

/-- Every step of the run `as` from `s` is taken in a state that meets `G`. -/
def Meets (G : σ → α → Prop) : σ → List α → Prop
  | _, [] => True
  | s, a :: as => G s a ∧ ∀ t, M.step s a = some t → Meets G t as

@[simp]
theorem meets_nil (G : σ → α → Prop) (s : σ) : M.Meets G s [] := trivial

theorem meets_cons (G : σ → α → Prop) (s : σ) (a : α) (as : List α) :
    M.Meets G s (a :: as) ↔ G s a ∧ ∀ t, M.step s a = some t → M.Meets G t as := Iff.rfl

/-- A condition that can be decided in every state can be decided along a run. -/
instance decidableMeets (G : σ → α → Prop) [∀ s a, Decidable (G s a)] :
    ∀ s as, Decidable (M.Meets G s as)
  | _, [] => isTrue trivial
  | s, a :: as =>
      haveI : Decidable (∀ t, M.step s a = some t → M.Meets G t as) :=
        match M.step s a with
        | none => isTrue fun _ ht => nomatch ht
        | some t =>
            haveI := decidableMeets G t as
            decidable_of_iff (M.Meets G t as) (by simp)
      inferInstanceAs (Decidable (G s a ∧ _))

/-- A run meets a condition exactly when its first part does and its second part
does from wherever the first part ends. -/
theorem meets_append (G : σ → α → Prop) (s : σ) (as bs : List α) :
    M.Meets G s (as ++ bs) ↔
      M.Meets G s as ∧ ∀ t, M.exec s as = some t → M.Meets G t bs := by
  induction as generalizing s with
  | nil => simp
  | cons a as ih =>
      rw [List.cons_append, meets_cons, meets_cons]
      constructor
      · rintro ⟨hhead, htail⟩
        refine ⟨⟨hhead, fun t ht => ((ih t).mp (htail t ht)).1⟩, fun t ht => ?_⟩
        obtain ⟨m, hm, hrest⟩ := M.exec_cons_eq_some.mp ht
        exact ((ih m).mp (htail m hm)).2 t hrest
      · rintro ⟨⟨hhead, htail⟩, hafter⟩
        refine ⟨hhead, fun m hm => (ih m).mpr ⟨htail m hm, fun t ht => ?_⟩⟩
        exact hafter t (M.exec_cons_eq_some.mpr ⟨m, hm, ht⟩)

/-- The condition that asks nothing is met by every run. -/
theorem meets_true (s : σ) (as : List α) : M.Meets (fun _ _ => True) s as := by
  induction as generalizing s with
  | nil => trivial
  | cons a as ih => exact ⟨trivial, fun t _ => ih t⟩

theorem Meets.mono {M : Machine σ α} {G H : σ → α → Prop} (hGH : ∀ s a, G s a → H s a)
    {s : σ} {as : List α} (hmeets : M.Meets G s as) : M.Meets H s as := by
  induction as generalizing s with
  | nil => trivial
  | cons a as ih => exact ⟨hGH s a hmeets.1, fun t ht => ih (hmeets.2 t ht)⟩

theorem Meets.and {M : Machine σ α} {G H : σ → α → Prop} {s : σ} {as : List α}
    (hG : M.Meets G s as) (hH : M.Meets H s as) : M.Meets (fun s a => G s a ∧ H s a) s as := by
  induction as generalizing s with
  | nil => trivial
  | cons a as ih => exact ⟨⟨hG.1, hH.1⟩, fun t ht => ih (hG.2 t ht) (hH.2 t ht)⟩

/-- Two conditions that agree wherever an invariant holds are met by the same complete
runs. -/
theorem meets_congr {I : σ → Prop} {G H : σ → α → Prop}
    (hstep : ∀ s a t, I s → M.step s a = some t → I t)
    (hGH : ∀ s a t, I s → M.step s a = some t → (G s a ↔ H s a))
    {s t : σ} {as : List α} (hs : I s) (hrun : M.exec s as = some t) :
    M.Meets G s as ↔ M.Meets H s as := by
  induction as generalizing s with
  | nil => simp
  | cons a as ih =>
      obtain ⟨m, hm, hrest⟩ := M.exec_cons_eq_some.mp hrun
      have htail := ih (hstep s a m hs hm) hrest
      simp only [meets_cons, hm, Option.some.injEq, forall_eq', hGH s a m hs hm, htail]

/-- **Guarded runs.** What every step taken under the condition `G` preserves
holds at the end of every run whose steps all meet `G`. -/
theorem exec_invariant {I : σ → Prop} {G : σ → α → Prop}
    (hstep : ∀ s a t, I s → G s a → M.step s a = some t → I t)
    {s t : σ} {as : List α} (hs : I s) (hmeets : M.Meets G s as)
    (hrun : M.exec s as = some t) : I t := by
  induction as generalizing s with
  | nil => exact Option.some.inj hrun ▸ hs
  | cons a as ih =>
      obtain ⟨m, hm, hrest⟩ := M.exec_cons_eq_some.mp hrun
      exact ih (hstep s a m hs hmeets.1 hm) (hmeets.2 m hm) hrest

/-- **Invariants.** What holds initially and is preserved by every step holds in
every reachable state. -/
theorem Reachable.invariant {M : Machine σ α} {I : σ → Prop} (hinit : ∀ s, M.init s → I s)
    (hstep : ∀ s a t, I s → M.step s a = some t → I t) {s : σ} (hs : M.Reachable s) : I s := by
  obtain ⟨s₀, as, h₀, hrun⟩ := hs
  exact M.exec_invariant (G := fun _ _ => True)
    (fun s a t hI _ ht => hstep s a t hI ht) (hinit s₀ h₀) (M.meets_true s₀ as) hrun

/-- What holds in the first state and in every state a run passes through. -/
def Always (P : σ → Prop) : σ → List α → Prop
  | s, [] => P s
  | s, a :: as => P s ∧ ∀ t, M.step s a = some t → Always P t as

@[simp]
theorem always_nil (P : σ → Prop) (s : σ) : M.Always P s [] ↔ P s := Iff.rfl

theorem always_cons (P : σ → Prop) (s : σ) (a : α) (as : List α) :
    M.Always P s (a :: as) ↔ P s ∧ ∀ t, M.step s a = some t → M.Always P t as := Iff.rfl

theorem Always.head {M : Machine σ α} {P : σ → Prop} {s : σ} {as : List α}
    (halways : M.Always P s as) : P s := by
  cases as with
  | nil => exact halways
  | cons a as => exact halways.1

/-- What holds in every state of a run holds where it ends. -/
theorem Always.of_exec {M : Machine σ α} {P : σ → Prop} {s t : σ} {as : List α}
    (halways : M.Always P s as) (hrun : M.exec s as = some t) : P t := by
  induction as generalizing s with
  | nil => exact Option.some.inj hrun ▸ halways
  | cons a as ih =>
      obtain ⟨m, hm, hrest⟩ := M.exec_cons_eq_some.mp hrun
      exact ih (halways.2 m hm) hrest

/-- What holds in every state of a run holds wherever it takes a step. -/
theorem Always.meets {M : Machine σ α} {P : σ → Prop} {s : σ} {as : List α}
    (halways : M.Always P s as) : M.Meets (fun s _ => P s) s as := by
  induction as generalizing s with
  | nil => trivial
  | cons a as ih => exact ⟨halways.1, fun t ht => ih (halways.2 t ht)⟩

/-- What can be decided in every state can be decided along a run. -/
instance decidableAlways (P : σ → Prop) [∀ s, Decidable (P s)] :
    ∀ s as, Decidable (M.Always P s as)
  | s, [] => inferInstanceAs (Decidable (P s))
  | s, a :: as =>
      haveI : Decidable (∀ t, M.step s a = some t → M.Always P t as) :=
        match M.step s a with
        | none => isTrue fun _ ht => nomatch ht
        | some t =>
            haveI := decidableAlways P t as
            decidable_of_iff (M.Always P t as) (by simp)
      inferInstanceAs (Decidable (P s ∧ _))

/-- What every step taken under a condition preserves holds in every state of a run whose
steps all meet it. -/
theorem always_of_meets {I P : σ → Prop} {G : σ → α → Prop}
    (hstep : ∀ s a t, I s → G s a → M.step s a = some t → I t) (hIP : ∀ s, I s → P s)
    {s : σ} {as : List α} (hs : I s) (hmeets : M.Meets G s as) : M.Always P s as := by
  induction as generalizing s with
  | nil => exact hIP s hs
  | cons a as ih =>
      exact ⟨hIP s hs, fun t ht => ih (hstep s a t hs hmeets.1 ht) (hmeets.2 t ht)⟩

/-- **Exact conditions.** Where the steps of a complete run keep `J`, and a step keeps `P`
exactly when it meets `G`, the run stays within `P` exactly when all of its steps meet
`G`. -/
theorem always_iff_meets {J P : σ → Prop} {G : σ → α → Prop}
    (hJ : ∀ s a t, J s → M.step s a = some t → J t)
    (hstep : ∀ s a t, J s → P s → M.step s a = some t → (P t ↔ G s a))
    {s t : σ} {as : List α} (hs : J s) (hP : P s) (hrun : M.exec s as = some t) :
    M.Always P s as ↔ M.Meets G s as := by
  induction as generalizing s with
  | nil => simp [hP]
  | cons a as ih =>
      obtain ⟨m, hm, hrest⟩ := M.exec_cons_eq_some.mp hrun
      have hJm := hJ s a m hs hm
      simp only [always_cons, meets_cons, hm, hP, true_and, Option.some.injEq, forall_eq']
      constructor
      · intro halways
        have hPm := halways.head
        exact ⟨(hstep s a m hs hP hm).mp hPm, (ih hJm hPm hrest).mp halways⟩
      · rintro ⟨hG, hmeets⟩
        exact (ih hJm ((hstep s a m hs hP hm).mpr hG) hrest).mpr hmeets

/-- `R` holds between every state of a run and every later one. -/
def Throughout (R : σ → σ → Prop) : σ → List α → Prop
  | s, [] => R s s
  | s, a :: as =>
      M.Always (R s) s (a :: as) ∧ ∀ t, M.step s a = some t → Throughout R t as

/-- What holds between each state of a run and each later one holds between where a part of the
run starts and where it ends. -/
theorem Throughout.between {M : Machine σ α} {R : σ → σ → Prop} {s m t : σ} {as bs : List α}
    (hthroughout : M.Throughout R s (as ++ bs)) (has : M.exec s as = some m)
    (hbs : M.exec m bs = some t) : R m t := by
  induction as generalizing s with
  | nil =>
      obtain rfl := Option.some.inj has
      -- The relation from the first state on holds wherever the run ends.
      have hlast : ∀ (r : σ) (bs : List α), M.Always (R s) r bs → M.exec r bs = some t → R s t := by
        intro r bs halways hrun
        induction bs generalizing r with
        | nil => exact Option.some.inj hrun ▸ halways
        | cons b bs ih =>
            obtain ⟨n, hn, hrest⟩ := M.exec_cons_eq_some.mp hrun
            exact ih n (halways.2 n hn) hrest
      cases bs with
      | nil => exact Option.some.inj hbs ▸ hthroughout
      | cons b bs => exact hlast s (b :: bs) hthroughout.1 hbs
  | cons a as ih =>
      obtain ⟨n, hn, hrest⟩ := M.exec_cons_eq_some.mp has
      exact ih (hthroughout.2 n hn) hrest

/-- **Guarded runs, between states.** Let the steps of a complete run keep `J`, and let `K` be
transitive and imply `R` under `J`. Where each step of the run meets `G`, and a step that meets
`G` keeps `K`, what is in the relation `K` to the first state is in the relation `R` to every
state of the run. -/
theorem Meets.always_from {M : Machine σ α} {J : σ → Prop} {R K : σ → σ → Prop}
    {G : σ → α → Prop} (hJ : ∀ s a t, J s → M.step s a = some t → J t)
    (htrans : ∀ r s t, K r s → K s t → K r t) (hKR : ∀ s t, J t → K s t → R s t)
    (hGK : ∀ s a t, J s → G s a → M.step s a = some t → K s t)
    {r s t : σ} {as : List α} (hs : J s) (hrs : K r s) (hmeets : M.Meets G s as)
    (hrun : M.exec s as = some t) : M.Always (R r) s as := by
  induction as generalizing s with
  | nil => exact hKR r s hs hrs
  | cons a as ih =>
      obtain ⟨m, hm, hrest⟩ := M.exec_cons_eq_some.mp hrun
      refine ⟨hKR r s hs hrs, fun m' hm' => ?_⟩
      obtain rfl := Option.some.inj (hm.symm.trans hm')
      exact ih (hJ s a m hs hm) (htrans r s m hrs (hGK s a m hs hmeets.1 hm))
        (hmeets.2 m hm) hrest

/-- Where each step of a complete run meets a condition under which a step keeps `K`, the
relation that `K` implies holds throughout the run. -/
theorem Meets.throughout {M : Machine σ α} {J : σ → Prop} {R K : σ → σ → Prop}
    {G : σ → α → Prop} (hJ : ∀ s a t, J s → M.step s a = some t → J t) (hrefl : ∀ s, K s s)
    (htrans : ∀ r s t, K r s → K s t → K r t) (hKR : ∀ s t, J t → K s t → R s t)
    (hGK : ∀ s a t, J s → G s a → M.step s a = some t → K s t)
    {s t : σ} {as : List α} (hs : J s) (hmeets : M.Meets G s as) (hrun : M.exec s as = some t) :
    M.Throughout R s as := by
  induction as generalizing s with
  | nil => exact hKR s s hs (hrefl s)
  | cons a as ih =>
      refine ⟨hmeets.always_from hJ htrans hKR hGK hs (hrefl s) hrun, fun m hm => ?_⟩
      obtain ⟨m', hm', hrest⟩ := M.exec_cons_eq_some.mp hrun
      obtain rfl := Option.some.inj (hm.symm.trans hm')
      exact ih (hJ s a m hs hm) (hmeets.2 m hm) hrest

/-- **Exact conditions, between states.** Let the steps of a complete run keep `J`, let `K`
be reflexive and transitive and imply `R` under `J`, and let a step that meets `G` keep `K`
while one that keeps `R` meets `G`. Then `R` holds throughout the run exactly when all of its
steps meet `G`. -/
theorem throughout_iff_meets {J : σ → Prop} {R K : σ → σ → Prop} {G : σ → α → Prop}
    (hJ : ∀ s a t, J s → M.step s a = some t → J t) (hrefl : ∀ s, K s s)
    (htrans : ∀ r s t, K r s → K s t → K r t) (hKR : ∀ s t, J t → K s t → R s t)
    (hGK : ∀ s a t, J s → G s a → M.step s a = some t → K s t)
    (hRG : ∀ s a t, J s → M.step s a = some t → R s t → G s a)
    {s t : σ} {as : List α} (hs : J s) (hrun : M.exec s as = some t) :
    M.Throughout R s as ↔ M.Meets G s as := by
  refine ⟨fun hthroughout => ?_, fun hmeets => hmeets.throughout hJ hrefl htrans hKR hGK hs hrun⟩
  induction as generalizing s with
  | nil => trivial
  | cons a as ih =>
      obtain ⟨m, hm, hrest⟩ := M.exec_cons_eq_some.mp hrun
      have hstep : R s m := (hthroughout.1.2 m hm).head
      refine ⟨hRG s a m hs hm hstep, fun m' hm' => ?_⟩
      obtain rfl := Option.some.inj (hm.symm.trans hm')
      exact ih (hJ s a m hs hm) hrest (hthroughout.2 m hm)

/-- Along a run whose steps keep an invariant, a condition that every step meets under the
invariant is met. -/
theorem meets_of_invariant {J : σ → Prop} {G : σ → α → Prop}
    (hJ : ∀ s a t, J s → M.step s a = some t → J t) (hG : ∀ s a, J s → G s a)
    {s : σ} (as : List α) (hs : J s) : M.Meets G s as := by
  induction as generalizing s with
  | nil => trivial
  | cons a as ih => exact ⟨hG s a hs, fun t ht => ih (hJ s a t hs ht)⟩

/-- Where the steps of a run meet a condition under which an invariant is kept, they meet every
condition that the two imply together. -/
theorem Meets.of_guarded {M : Machine σ α} {J : σ → Prop} {G H : σ → α → Prop}
    (hJ : ∀ s a t, J s → G s a → M.step s a = some t → J t) (hGH : ∀ s a, J s → G s a → H s a)
    {s : σ} {as : List α} (hs : J s) (hmeets : M.Meets G s as) : M.Meets H s as := by
  induction as generalizing s with
  | nil => trivial
  | cons a as ih =>
      refine ⟨hGH s a hs hmeets.1, fun t ht => ?_⟩
      exact ih (hJ s a t hs hmeets.1 ht) (hmeets.2 t ht)

/-- **Measured runs.** Where no step of a complete run lowers a measure, and one that keeps it
meets `G`, all the steps of a run that ends with the measure it has started with meet `G`. -/
theorem meets_of_measure {J : σ → Prop} {G : σ → α → Prop} {μ : σ → ℕ}
    (hJ : ∀ s a t, J s → M.step s a = some t → J t)
    (hle : ∀ s a t, J s → M.step s a = some t → μ s ≤ μ t)
    (hG : ∀ s a t, J s → M.step s a = some t → μ t = μ s → G s a)
    {s t : σ} {as : List α} (hs : J s) (hrun : M.exec s as = some t) (hsame : μ t = μ s) :
    M.Meets G s as := by
  have hrise : ∀ (as : List α) (s : σ), J s → M.exec s as = some t → μ s ≤ μ t := by
    intro as
    induction as with
    | nil => exact fun s _ hrun => Nat.le_of_eq (congrArg μ (Option.some.inj hrun))
    | cons a as ih =>
        intro s hs hrun
        obtain ⟨m, hm, hrest⟩ := M.exec_cons_eq_some.mp hrun
        exact Nat.le_trans (hle s a m hs hm) (ih m (hJ s a m hs hm) hrest)
  induction as generalizing s with
  | nil => trivial
  | cons a as ih =>
      obtain ⟨m, hm, hrest⟩ := M.exec_cons_eq_some.mp hrun
      have hJm := hJ s a m hs hm
      have hfirst : μ m = μ s :=
        Nat.le_antisymm (hsame ▸ hrise as m hJm hrest) (hle s a m hs hm)
      refine ⟨hG s a m hs hm hfirst, fun m' hm' => ?_⟩
      obtain rfl := Option.some.inj (hm.symm.trans hm')
      exact ih hJm hrest (hsame.trans hfirst.symm)

end Machine
