/-
# Rows that keep the newest

A table with a key takes deliveries that may repeat and may come in any order. An
insert that conflicts with a row replaces it unless the row is newer. What the
table then holds does not depend on the order: it holds, of the deliveries with
one key, the newest, provided that two deliveries with one key and one rank are
the same.
-/

import Mathlib.Order.Lattice
import Eveland.Foundations.Table

universe u v w

namespace NewestRows

variable {ρ : Type u} {κ : Type v} {τ : Type w} [LinearOrder τ] (key : ρ → κ) (rank : ρ → τ)

/-- Insert a row; on a conflict of keys replace the row that is there, where that
is not newer. -/
def upsertNewest [DecidableEq κ] (new : ρ) (rows : List ρ) : List ρ :=
  Table.upsertWhere (fun row => key row = key new)
    (fun row => if rank row ≤ rank new then new else row) new rows

/-- Deliveries that agree in key and rank are the same. -/
def Consistent (items : List ρ) : Prop :=
  ∀ first ∈ items, ∀ second ∈ items, key first = key second → rank first = rank second →
    first = second

/-- The rows are deliveries, one for each key, and none is older than a delivery
with its key. -/
structure Newest (items rows : List ρ) : Prop where
  delivered : ∀ row ∈ rows, row ∈ items
  newest : ∀ item ∈ items, ∃ row ∈ rows, key row = key item ∧ rank item ≤ rank row
  unique : Table.UniqueOn key rows

theorem Newest.nil : Newest key rank [] [] where
  delivered := by simp
  newest := by simp
  unique := List.nodup_nil

section Upserts

variable [DecidableEq κ] {rows : List ρ}

variable {key rank} in
/-- What an upsert leaves was there or is the new row. -/
theorem mem_upsertNewest {new row : ρ} (hrow : row ∈ upsertNewest key rank new rows) :
    row ∈ rows ∨ row = new := by
  unfold upsertNewest Table.upsertWhere at hrow
  split at hrow
  · rcases Table.mem_updateWhere.mp hrow with ⟨hold, _⟩ | ⟨old, hold, _, hnew⟩
    · exact Or.inl hold
    · split at hnew
      · exact Or.inr hnew.symm
      · exact Or.inl (hnew ▸ hold)
  · rcases List.mem_append.mp hrow with hold | hnew
    · exact Or.inl hold
    · exact Or.inr (List.mem_singleton.mp hnew)

/-- A row that an upsert replaces makes way for a newer one with its key. -/
theorem exists_upsertNewest {row : ρ} (new : ρ) (hrow : row ∈ rows) :
    ∃ after ∈ upsertNewest key rank new rows, key after = key row ∧ rank row ≤ rank after := by
  unfold upsertNewest Table.upsertWhere
  split
  · by_cases hkey : key row = key new
    · refine ⟨if rank row ≤ rank new then new else row, ?_, ?_, ?_⟩
      · exact Table.mem_updateWhere.mpr (Or.inr ⟨row, hrow, by simpa using hkey, rfl⟩)
      · split
        · exact hkey.symm
        · rfl
      · split
        · assumption
        · exact le_refl _
    · exact ⟨row, Table.mem_updateWhere_of_not hrow (by simpa using hkey), rfl, le_refl _⟩
  · exact ⟨row, List.mem_append_left _ hrow, rfl, le_refl _⟩

/-- After the upsert there is a row with the key that is no older. -/
theorem exists_upsertNewest_self (new : ρ) (rows : List ρ) :
    ∃ after ∈ upsertNewest key rank new rows, key after = key new ∧ rank new ≤ rank after := by
  unfold upsertNewest Table.upsertWhere
  split
  next hany =>
    obtain ⟨old, hold, hkey⟩ := List.any_eq_true.mp hany
    refine ⟨if rank old ≤ rank new then new else old, ?_, ?_, ?_⟩
    · exact Table.mem_updateWhere.mpr (Or.inr ⟨old, hold, hkey, rfl⟩)
    · split
      · rfl
      · exact of_decide_eq_true hkey
    · split
      · exact le_refl _
      next hnewer => exact le_of_lt (not_le.mp hnewer)
  · exact ⟨new, List.mem_append_right _ (List.mem_singleton_self _), rfl, le_refl _⟩

variable {key} in
theorem uniqueOn_upsertNewest (new : ρ) (hunique : Table.UniqueOn key rows) :
    Table.UniqueOn key (upsertNewest key rank new rows) := by
  unfold upsertNewest Table.upsertWhere
  split
  · unfold Table.UniqueOn Table.updateWhere
    have hkeys : (rows.map fun row => if (decide (key row = key new)) = true then
        if rank row ≤ rank new then new else row else row).map key = rows.map key := by
      rw [List.map_map]
      apply List.map_congr_left
      intro row _
      by_cases hkey : key row = key new
      · simp only [Function.comp_apply, hkey, decide_true, if_true]
        split
        · rfl
        · exact hkey
      · simp [hkey]
    rw [hkeys]
    exact hunique
  next hnone =>
    apply hunique.append
    intro row hrow heq
    apply hnone
    exact List.any_eq_true.mpr ⟨row, hrow, by simpa using heq⟩

variable {key rank} in
/-- One more delivery. -/
theorem Newest.upsert {items : List ρ} (h : Newest key rank items rows) (new : ρ) :
    Newest key rank (items ++ [new]) (upsertNewest key rank new rows) where
  delivered row hrow := by
    rcases mem_upsertNewest hrow with hold | rfl
    · exact List.mem_append_left _ (h.delivered row hold)
    · exact List.mem_append_right _ (List.mem_singleton_self _)
  newest item hitem := by
    rcases List.mem_append.mp hitem with hold | hnew
    · obtain ⟨row, hrow, hkey, hrank⟩ := h.newest item hold
      obtain ⟨after, hafter, hkey', hrank'⟩ := exists_upsertNewest key rank new hrow
      exact ⟨after, hafter, hkey'.trans hkey, hrank.trans hrank'⟩
    · rw [List.mem_singleton.mp hnew]
      exact exists_upsertNewest_self key rank new rows
  unique := uniqueOn_upsertNewest rank new h.unique

end Upserts

variable {key rank} {items rows : List ρ}

/-- **What such a table holds**: of the deliveries, those that none with their key
outranks. -/
theorem Newest.mem_iff (h : Newest key rank items rows) (hconsistent : Consistent key rank items)
    {row : ρ} : row ∈ rows ↔
      row ∈ items ∧ ∀ other ∈ items, key other = key row → rank other ≤ rank row := by
  constructor
  · intro hrow
    refine ⟨h.delivered row hrow, fun other hother hkey => ?_⟩
    obtain ⟨held, hheld, hkey', hrank⟩ := h.newest other hother
    obtain rfl : held = row := h.unique.eq hheld hrow (hkey'.trans hkey)
    exact hrank
  · rintro ⟨hitem, hnewest⟩
    obtain ⟨held, hheld, hkey, hrank⟩ := h.newest row hitem
    have hdelivered := h.delivered held hheld
    have heq := hconsistent held hdelivered row hitem hkey
      (le_antisymm (hnewest held hdelivered hkey) hrank)
    exact heq ▸ hheld

/-- Two tables that were delivered the same rows, in whatever order and however
often, hold the same. -/
theorem Newest.mem_congr {items' rows' : List ρ} (h : Newest key rank items rows)
    (h' : Newest key rank items' rows') (hconsistent : Consistent key rank items)
    (hsame : ∀ item, item ∈ items ↔ item ∈ items') (row : ρ) : row ∈ rows ↔ row ∈ rows' := by
  have hconsistent' : Consistent key rank items' := by
    intro first hfirst second hsecond
    exact hconsistent first ((hsame first).mpr hfirst) second ((hsame second).mpr hsecond)
  rw [h.mem_iff hconsistent, h'.mem_iff hconsistent', hsame row]
  simp only [hsame]

end NewestRows
