/-
# Tables of rows with a key

A table is the list of its rows. `updateWhere` is `UPDATE ... SET ... WHERE`,
`upsertWhere` is an insert that updates the row it conflicts with, and
`UniqueOn` is a primary key or a unique index. The lemmas say which rows an
update leaves, that an update which keeps a key keeps its uniqueness, and that a
unique key identifies its row.
-/

import Mathlib.Data.List.Nodup
import Mathlib.Data.List.Pairwise
import Mathlib.Tactic.Common

universe u v w

namespace Table

variable {ρ : Type u} {κ : Type v}

/-- `UPDATE rows SET r := f r WHERE p r`. -/
def updateWhere (p : ρ → Bool) (f : ρ → ρ) (rows : List ρ) : List ρ :=
  rows.map fun row => if p row then f row else row

/-- Update the rows that match, or insert a row when none does. -/
def upsertWhere (p : ρ → Bool) (f : ρ → ρ) (new : ρ) (rows : List ρ) : List ρ :=
  if rows.any p then updateWhere p f rows else rows ++ [new]

/-- A unique index: no two rows share the key. -/
def UniqueOn (key : ρ → κ) (rows : List ρ) : Prop := (rows.map key).Nodup

theorem mem_updateWhere {p : ρ → Bool} {f : ρ → ρ} {rows : List ρ} {row : ρ} :
    row ∈ updateWhere p f rows ↔
      (row ∈ rows ∧ p row = false) ∨ ∃ old ∈ rows, p old = true ∧ f old = row := by
  simp only [updateWhere, List.mem_map]
  constructor
  · rintro ⟨old, hold, hrow⟩
    by_cases hp : p old = true
    · rw [if_pos hp] at hrow
      exact Or.inr ⟨old, hold, hp, hrow⟩
    · rw [if_neg hp] at hrow
      subst hrow
      exact Or.inl ⟨hold, by simpa using hp⟩
  · rintro (⟨hrow, hp⟩ | ⟨old, hold, hp, hrow⟩)
    · exact ⟨row, hrow, by simp [hp]⟩
    · exact ⟨old, hold, by simp [hp, hrow]⟩

/-- A row the update does not select stays. -/
theorem mem_updateWhere_of_not {p : ρ → Bool} {f : ρ → ρ} {rows : List ρ} {row : ρ}
    (hrow : row ∈ rows) (hp : p row = false) : row ∈ updateWhere p f rows :=
  mem_updateWhere.mpr (Or.inl ⟨hrow, hp⟩)

@[simp]
theorem updateWhere_nil (p : ρ → Bool) (f : ρ → ρ) : updateWhere p f [] = [] := rfl

@[simp]
theorem length_updateWhere (p : ρ → Bool) (f : ρ → ρ) (rows : List ρ) :
    (updateWhere p f rows).length = rows.length := by
  simp [updateWhere]

/-- An update that keeps a column keeps the list of its values. -/
theorem map_updateWhere {p : ρ → Bool} {f : ρ → ρ} {key : ρ → κ} (hkey : ∀ row, key (f row) = key row)
    (rows : List ρ) : (updateWhere p f rows).map key = rows.map key := by
  simp only [updateWhere, List.map_map]
  apply List.map_congr_left
  intro row _
  by_cases hp : p row = true <;> simp [hp, hkey]

/-- Selecting before or after an update that the selection does not see. -/
theorem filter_updateWhere {p q : ρ → Bool} {f : ρ → ρ} (hq : ∀ row, q (f row) = q row)
    (rows : List ρ) : (updateWhere p f rows).filter q = updateWhere p f (rows.filter q) := by
  rw [updateWhere, updateWhere, List.filter_map]
  congr 2
  funext row
  by_cases hp : p row = true <;> simp [hp, hq]

/-- An update that selects nothing changes nothing. -/
theorem updateWhere_eq_self {p : ρ → Bool} {f : ρ → ρ} {rows : List ρ}
    (hnone : ∀ row ∈ rows, p row = true → f row = row) : updateWhere p f rows = rows := by
  simp only [updateWhere]
  conv_rhs => rw [← List.map_id rows]
  apply List.map_congr_left
  intro row hrow
  by_cases hp : p row = true
  · simp [hp, hnone row hrow hp]
  · simp [hp]

theorem UniqueOn.updateWhere {p : ρ → Bool} {f : ρ → ρ} {key : ρ → κ} {rows : List ρ}
    (hunique : UniqueOn key rows) (hkey : ∀ row, key (f row) = key row) :
    UniqueOn key (updateWhere p f rows) := by
  rw [UniqueOn, map_updateWhere hkey]
  exact hunique

/-- Inserting a row with a new key keeps the key unique. -/
theorem UniqueOn.append {key : ρ → κ} {rows : List ρ} {new : ρ} (hunique : UniqueOn key rows)
    (hnew : ∀ row ∈ rows, key row ≠ key new) : UniqueOn key (rows ++ [new]) := by
  rw [UniqueOn, List.map_append, List.map_singleton, List.nodup_append]
  refine ⟨hunique, List.nodup_singleton _, ?_⟩
  intro k hk k' hk'
  obtain ⟨row, hrow, rfl⟩ := List.mem_map.mp hk
  rw [List.mem_singleton.mp hk']
  exact hnew row hrow

/-- A unique key identifies its row. -/
theorem UniqueOn.eq {key : ρ → κ} {rows : List ρ} (hunique : UniqueOn key rows) {first second : ρ}
    (hfirst : first ∈ rows) (hsecond : second ∈ rows) (hkey : key first = key second) :
    first = second :=
  List.inj_on_of_nodup_map hunique hfirst hsecond hkey

/-- The row a lookup by a unique key finds is the only row with that key. -/
theorem UniqueOn.eq_of_find? [DecidableEq κ] {key : ρ → κ} {rows : List ρ}
    (hunique : UniqueOn key rows) {k : κ} {found row : ρ}
    (hfound : rows.find? (fun r => key r = k) = some found) (hrow : row ∈ rows)
    (hkey : key row = k) : row = found := by
  have hmem := List.mem_of_find?_eq_some hfound
  have hk : key found = k := by simpa using List.find?_some hfound
  exact hunique.eq hrow hmem (hkey.trans hk.symm)

/-- A lookup by a unique key finds the row that has it. -/
theorem UniqueOn.find?_eq_some [DecidableEq κ] {key : ρ → κ} {rows : List ρ}
    (hunique : UniqueOn key rows) {row : ρ} (hrow : row ∈ rows) :
    rows.find? (fun r => key r = key row) = some row := by
  cases hfound : rows.find? fun r => key r = key row with
  | none => simpa using List.find?_eq_none.mp hfound row hrow
  | some found => rw [hunique.eq_of_find? hfound hrow rfl]

/-- An update that a search does not see shows in the row it finds. -/
theorem find?_updateWhere_of {p q : ρ → Bool} {f : ρ → ρ} (hq : ∀ row, q (f row) = q row)
    (rows : List ρ) :
    (updateWhere p f rows).find? q =
      (rows.find? q).map fun row => if p row then f row else row := by
  rw [updateWhere, List.find?_map]
  congr 2
  funext row
  by_cases hp : p row = true <;> simp [hp, hq]

/-- An update that keeps a key shows in the row found under it. -/
theorem find?_updateWhere [DecidableEq κ] {p : ρ → Bool} {f : ρ → ρ} {key : ρ → κ}
    (hkey : ∀ row, key (f row) = key row) (rows : List ρ) (k : κ) :
    (updateWhere p f rows).find? (fun r => key r = k) =
      (rows.find? fun r => key r = k).map fun row => if p row then f row else row :=
  find?_updateWhere_of (fun row => by rw [hkey]) rows

/-- In an update of the one row with key `k`, every row with that key has been
updated. -/
theorem UniqueOn.mem_updateWhere_key [DecidableEq κ] {key : ρ → κ} {rows : List ρ}
    (hunique : UniqueOn key rows) {f : ρ → ρ} {old row : ρ}
    (hold : old ∈ rows) (hrow : row ∈ Table.updateWhere (fun r => key r = key old) f rows)
    (hsame : key row = key old) : row = f old := by
  rcases mem_updateWhere.mp hrow with ⟨_, hp⟩ | ⟨prior, hprior, hp, rfl⟩
  · simp [hsame] at hp
  · rw [hunique.eq hprior hold (by simpa using hp)]

/-- An update that makes no row it changes match `q` for the first time does not raise the
number of matches. -/
theorem countP_updateWhere_le {p q : ρ → Bool} {f : ρ → ρ} {rows : List ρ}
    (hq : ∀ row ∈ rows, p row = true → q (f row) = true → q row = true) :
    (updateWhere p f rows).countP q ≤ rows.countP q := by
  rw [updateWhere, List.countP_map]
  apply List.countP_mono_left
  intro row hrow hmatch
  by_cases hp : p row = true
  · simp only [Function.comp_apply, if_pos hp] at hmatch
    exact hq row hrow hp hmatch
  · simpa only [Function.comp_apply, if_neg hp] using hmatch

/-- An update of the one row with key `k` raises the number of matches by one at most. -/
theorem UniqueOn.countP_updateWhere_le_succ [DecidableEq κ] {key : ρ → κ} {q : ρ → Bool}
    {f : ρ → ρ} {rows : List ρ} (hunique : UniqueOn key rows) (k : κ) :
    (Table.updateWhere (fun r => key r = k) f rows).countP q ≤ rows.countP q + 1 := by
  induction rows with
  | nil => simp
  | cons row rest ih =>
      obtain ⟨hfresh, hrest⟩ := List.nodup_cons.mp hunique
      by_cases hrow : key row = k
      · -- No later row has the key, so the rest is left alone.
        have hsame : Table.updateWhere (fun r => key r = k) f rest = rest :=
          updateWhere_eq_self fun other hother hkey =>
            absurd (List.mem_map.mpr ⟨other, hother, by simpa [hrow] using hkey⟩) hfresh
        have hcons : Table.updateWhere (fun r => key r = k) f (row :: rest) = f row :: rest := by
          rw [Table.updateWhere, List.map_cons, if_pos (by simpa using hrow)]
          exact congrArg _ hsame
        rw [hcons, List.countP_cons, List.countP_cons]
        split <;> omega
      · have hcons : Table.updateWhere (fun r => key r = k) f (row :: rest) =
            row :: Table.updateWhere (fun r => key r = k) f rest := by
          simp [Table.updateWhere, hrow]
        rw [hcons, List.countP_cons, List.countP_cons]
        have := ih hrest
        omega

/-- Where the rows that match share a unique key, one row matches at most. -/
theorem UniqueOn.countP_le_one {key : ρ → κ} {q : ρ → Bool} {rows : List ρ}
    (hunique : UniqueOn key rows)
    (hsame : ∀ first ∈ rows, ∀ second ∈ rows, q first = true → q second = true →
      key first = key second) : rows.countP q ≤ 1 := by
  induction rows with
  | nil => simp
  | cons row rest ih =>
      obtain ⟨hfresh, hrest⟩ := List.nodup_cons.mp hunique
      by_cases hrow : q row = true
      · have hnone : rest.countP q = 0 := by
          rw [List.countP_eq_zero]
          intro other hother hmatch
          exact hfresh (List.mem_map.mpr ⟨other, hother,
            hsame other (List.mem_cons_of_mem _ hother) row List.mem_cons_self hmatch hrow⟩)
        simp [List.countP_cons_of_pos hrow, hnone]
      · rw [List.countP_cons_of_neg hrow]
        exact ih hrest fun first hfirst second hsecond =>
          hsame first (List.mem_cons_of_mem _ hfirst) second (List.mem_cons_of_mem _ hsecond)

/-- A selection that keeps a column selects from its values, in order. -/
theorem filterMap_map_sublist {τ : Type w} {f : ρ → Option τ} {g : τ → κ} {h : ρ → κ}
    (hcolumn : ∀ a b, f a = some b → g b = h a) (rows : List ρ) :
    ((rows.filterMap f).map g).Sublist (rows.map h) := by
  induction rows with
  | nil => simp
  | cons row rest ih =>
      cases hf : f row with
      | none =>
          rw [List.filterMap_cons_none hf, List.map_cons]
          exact ih.cons _
      | some image =>
          rw [List.filterMap_cons_some hf, List.map_cons, List.map_cons, hcolumn row image hf]
          exact ih.cons_cons _

/-! ## Partial unique indexes -/

/-- A unique index given by when two rows collide in it: only a row and itself do. -/
def Separated (collides : ρ → ρ → Bool) (key : ρ → κ) (rows : List ρ) : Prop :=
  ∀ row ∈ rows, ∀ other ∈ rows, collides row other = true → key row = key other

/-- A row that collides with none can be inserted. -/
theorem Separated.append {collides : ρ → ρ → Bool} {key : ρ → κ} {rows : List ρ} {new : ρ}
    (hrows : Separated collides key rows)
    (hsymm : ∀ row other, collides row other = true → collides other row = true)
    (hnew : ∀ row ∈ rows, collides new row = false) :
    Separated collides key (rows ++ [new]) := by
  intro row hrow other hother hcollides
  rcases List.mem_append.mp hrow with hold | hrow
  · rcases List.mem_append.mp hother with hold' | hother
    · exact hrows row hold other hold' hcollides
    · rw [List.mem_singleton.mp hother] at hcollides
      exact absurd (hsymm _ _ hcollides) (by simp [hnew row hold])
  · rw [List.mem_singleton.mp hrow] at hcollides ⊢
    rcases List.mem_append.mp hother with hold | hother
    · exact absurd hcollides (by simp [hnew other hold])
    · rw [List.mem_singleton.mp hother]

/-- An update after which no rows collide that did not before. -/
theorem Separated.updateWhere {collides : ρ → ρ → Bool} {key : ρ → κ} {rows : List ρ}
    (hrows : Separated collides key rows) {p : ρ → Bool} {f : ρ → ρ}
    (hkey : ∀ row, key (f row) = key row)
    (hcollides : ∀ row ∈ rows, ∀ other ∈ rows,
      collides (if p row then f row else row) (if p other then f other else other) = true →
        collides row other = true) :
    Separated collides key (Table.updateWhere p f rows) := by
  intro row hrow other hother hsame
  obtain ⟨old, hold, rfl⟩ := List.mem_map.mp hrow
  obtain ⟨old', hold', rfl⟩ := List.mem_map.mp hother
  have hkeys := hrows old hold old' hold' (hcollides old hold old' hold' hsame)
  by_cases hp : p old = true <;> by_cases hp' : p old' = true <;> simp [hp, hp', hkey, hkeys]

end Table
