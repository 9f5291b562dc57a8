/-
# Totals over a table

The sum of a weight over the rows a condition selects, and how it changes with the rows: by an
insert, by an update of one row, by an update that moves rows from one group to another, and by a
delete that leaves the group alone. A counter kept next to a table is right when its increments
are these.
-/

import Mathlib.Algebra.BigOperators.Group.List.Basic
import Eveland.Foundations.Table

universe u v

namespace Table

variable {ρ : Type u} {M : Type v} [AddCommMonoid M]

/-- `select sum(weight) from rows where selected`. -/
def total (selected : ρ → Bool) (weight : ρ → M) (rows : List ρ) : M :=
  ((rows.filter selected).map weight).sum

variable {selected : ρ → Bool} {weight : ρ → M}

@[simp]
theorem total_nil : total selected weight [] = 0 := rfl

theorem total_cons (row : ρ) (rows : List ρ) :
    total selected weight (row :: rows) =
      (if selected row then weight row else 0) + total selected weight rows := by
  unfold total
  by_cases h : selected row = true
  · simp [h]
  · simp [h]

theorem total_append (rows more : List ρ) :
    total selected weight (rows ++ more) = total selected weight rows + total selected weight more := by
  simp [total]

theorem total_singleton (row : ρ) :
    total selected weight [row] = if selected row then weight row else 0 := by
  simp [total_cons]

/-- Nothing is selected, so nothing is counted. -/
theorem total_eq_zero {rows : List ρ} (hnone : ∀ row ∈ rows, selected row = false) :
    total selected weight rows = 0 := by
  have hempty : rows.filter selected = [] :=
    List.filter_eq_nil_iff.mpr fun row hrow => by simp [hnone row hrow]
  simp [total, hempty]

/-- Groups and weights that agree on the rows have the same total. -/
theorem total_congr {other : ρ → Bool} {otherWeight : ρ → M} {rows : List ρ}
    (hselected : ∀ row ∈ rows, selected row = other row)
    (hweight : ∀ row ∈ rows, selected row = true → weight row = otherWeight row) :
    total selected weight rows = total other otherWeight rows := by
  induction rows with
  | nil => rfl
  | cons row rest ih =>
      have hrest := ih (fun r hr => hselected r (List.mem_cons_of_mem row hr))
        fun r hr => hweight r (List.mem_cons_of_mem row hr)
      have hhead := hselected row List.mem_cons_self
      rw [total_cons, total_cons, hrest, ← hhead]
      split
      · next hsel => rw [hweight row List.mem_cons_self hsel]
      · rfl

/-- An update that changes neither the group nor the weight of a row. -/
theorem total_updateWhere_frame {p : ρ → Bool} {f : ρ → ρ} {rows : List ρ}
    (hselected : ∀ row ∈ rows, p row = true → selected (f row) = selected row)
    (hweight : ∀ row ∈ rows, p row = true → selected row = true → weight (f row) = weight row) :
    total selected weight (updateWhere p f rows) = total selected weight rows := by
  induction rows with
  | nil => rfl
  | cons row rest ih =>
      have hrest := ih (fun r hr => hselected r (List.mem_cons_of_mem row hr))
        fun r hr => hweight r (List.mem_cons_of_mem row hr)
      rw [updateWhere, List.map_cons, total_cons, total_cons]
      rw [updateWhere] at hrest
      rw [hrest]
      by_cases hp : p row = true
      · rw [if_pos hp, hselected row List.mem_cons_self hp]
        split
        · next hsel => rw [hweight row List.mem_cons_self hp hsel]
        · rfl
      · rw [if_neg hp]

/-- Rows that move from one group to another take their weight along. -/
theorem total_updateWhere_move {source : ρ → Bool} {f : ρ → ρ} {rows : List ρ}
    (hdisjoint : ∀ row ∈ rows, source row = true → selected row = false)
    (hmoved : ∀ row ∈ rows, source row = true → selected (f row) = true)
    (hweight : ∀ row ∈ rows, source row = true → weight (f row) = weight row) :
    total selected weight (updateWhere source f rows) =
      total selected weight rows + total source weight rows := by
  induction rows with
  | nil => simp
  | cons row rest ih =>
      have hrest := ih (fun r hr => hdisjoint r (List.mem_cons_of_mem row hr))
        (fun r hr => hmoved r (List.mem_cons_of_mem row hr))
        fun r hr => hweight r (List.mem_cons_of_mem row hr)
      rw [updateWhere, List.map_cons, total_cons, total_cons, total_cons]
      rw [updateWhere] at hrest
      rw [hrest]
      by_cases hsource : source row = true
      · rw [if_pos hsource, if_pos (hmoved row List.mem_cons_self hsource), if_pos hsource,
          hdisjoint row List.mem_cons_self hsource, hweight row List.mem_cons_self hsource]
        simp [add_left_comm]
      · rw [if_neg hsource, if_neg hsource, zero_add, add_assoc]

/-- One row is replaced: its weight goes, and the weight of the new row comes. -/
theorem total_updateWhere_replace {p : ρ → Bool} {f : ρ → ρ} {rows : List ρ} {old : ρ}
    (hnodup : rows.Nodup) (hold : old ∈ rows) (hp : p old = true)
    (honly : ∀ row ∈ rows, p row = true → row = old) (hselected : selected old = true)
    (hstays : selected (f old) = true) :
    ∃ rest, total selected weight rows = rest + weight old ∧
      total selected weight (updateWhere p f rows) = rest + weight (f old) := by
  induction rows with
  | nil => cases hold
  | cons row rest ih =>
      obtain ⟨hnotMem, hnodup'⟩ := List.nodup_cons.mp hnodup
      rw [updateWhere, List.map_cons, total_cons, total_cons]
      by_cases hrow : p row = true
      · obtain rfl := honly row List.mem_cons_self hrow
        -- No other row is selected: it would be this one again.
        have hrest : updateWhere p f rest = rest := by
          refine updateWhere_eq_self fun other hother hselected => ?_
          have hsame := honly other (List.mem_cons_of_mem _ hother) hselected
          exact absurd (hsame ▸ hother) hnotMem
        rw [updateWhere] at hrest
        refine ⟨total selected weight rest, ?_, ?_⟩
        · rw [if_pos hselected, add_comm]
        · rw [if_pos hp, if_pos hstays, hrest, add_comm]
      · have hmem : old ∈ rest := by
          rcases List.mem_cons.mp hold with rfl | h
          · exact absurd hp hrow
          · exact h
        obtain ⟨others, hbefore, hafter⟩ := ih hnodup' hmem
          (fun r hr => honly r (List.mem_cons_of_mem row hr))
        rw [updateWhere] at hafter
        refine ⟨(if selected row then weight row else 0) + others, ?_, ?_⟩
        · rw [hbefore, add_assoc]
        · rw [if_neg hrow, hafter, add_assoc]

/-- A delete of rows outside the group. -/
theorem total_filter_frame {kept : ρ → Bool} {rows : List ρ}
    (hkept : ∀ row ∈ rows, selected row = true → kept row = true) :
    total selected weight (rows.filter kept) = total selected weight rows := by
  induction rows with
  | nil => rfl
  | cons row rest ih =>
      have hrest := ih fun r hr => hkept r (List.mem_cons_of_mem row hr)
      rw [List.filter_cons, total_cons]
      by_cases h : kept row = true
      · rw [if_pos h, total_cons, hrest]
      · have hout : selected row = false := by
          cases hsel : selected row with
          | false => rfl
          | true => exact absurd (hkept row List.mem_cons_self hsel) h
        rw [if_neg h, hrest, hout]
        simp

end Table
