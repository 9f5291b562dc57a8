/-
# Pages of rows in the order of a key

A query that orders its rows by a unique key and cuts them at a limit answers a stretch of the
ascending rows: the first ones above a bound, or the last ones below it. The module says which
keys such a stretch covers, so that a reader who passes the key at one end of a page as the
bound of the next page can tell what the pages hold together.
-/

import Mathlib.Data.List.Sort

universe u v

namespace Keyset

variable {α : Type u} {β : Type v} [LinearOrder β] (key : α → β)

/-- Rows in strictly ascending order of the key. -/
def Ascending (rows : List α) : Prop := rows.Pairwise fun x y => key x < key y

/-- `ORDER BY key`. -/
def orderBy (rows : List α) : List α := rows.insertionSort fun x y => key x ≤ key y

/-- `ORDER BY key DESC`. -/
def orderByDesc (rows : List α) : List α := rows.insertionSort fun x y => key y ≤ key x

variable {key} {rows : List α}

theorem Ascending.filter (hrows : Ascending key rows) (p : α → Bool) :
    Ascending key (rows.filter p) :=
  List.Pairwise.filter p hrows

theorem Ascending.orderBy_eq (hrows : Ascending key rows) : orderBy key rows = rows := by
  apply List.Pairwise.insertionSort_eq
  exact List.Pairwise.imp le_of_lt hrows

/-- The key tells ascending rows apart. -/
theorem Ascending.eq_of_key_eq (hrows : Ascending key rows) {x y : α} (hx : x ∈ rows)
    (hy : y ∈ rows) (hkey : key x = key y) : x = y := by
  have hnodup : (rows.map key).Nodup := by
    rw [List.Nodup, List.pairwise_map]
    exact List.Pairwise.imp ne_of_lt hrows
  exact List.inj_on_of_nodup_map hnodup hx hy hkey

/-- Ordering ascending rows the other way turns them around. -/
theorem Ascending.orderByDesc_eq (hrows : Ascending key rows) :
    orderByDesc key rows = rows.reverse := by
  have hsame : (orderByDesc key rows).Perm rows.reverse :=
    (List.perm_insertionSort _ rows).trans rows.reverse_perm.symm
  have htotal : Std.Total fun x y : α => key y ≤ key x := ⟨fun x y => le_total (key y) (key x)⟩
  have htrans : IsTrans α fun x y => key y ≤ key x := ⟨fun x y z hxy hyz => hyz.trans hxy⟩
  have hsorted := List.pairwise_insertionSort (fun x y => key y ≤ key x) rows
  refine List.Perm.eq_of_pairwise ?_ hsorted ?_ hsame
  · intro x y hx hy hyx hxy
    apply hrows.eq_of_key_eq
    · exact (List.perm_insertionSort _ rows).mem_iff.mp hx
    · exact List.mem_reverse.mp hy
    · exact le_antisymm hxy hyx
  · exact List.pairwise_reverse.mpr (List.Pairwise.imp le_of_lt hrows)

/-- The rows up to a key, followed by those above it. -/
theorem Ascending.filter_le_append_filter_lt (hrows : Ascending key rows) (c : β) :
    (rows.filter fun x => key x ≤ c) ++ (rows.filter fun x => c < key x) = rows := by
  induction rows with
  | nil => rfl
  | cons x xs ih =>
      have htail := ih (List.Pairwise.of_cons hrows)
      by_cases hx : key x ≤ c
      · simpa [hx] using htail
      · have hnone : (xs.filter fun y => key y ≤ c) = [] := by
          rw [List.filter_eq_nil_iff]
          intro y hy
          have hlt : key x < key y := List.rel_of_pairwise_cons hrows hy
          simpa using (not_le.mp hx).trans hlt
        rw [hnone, List.nil_append] at htail
        simp [hx, not_le.mp hx, hnone, htail]

/-- The rows below a key, followed by those from it on. -/
theorem Ascending.filter_lt_append_filter_le (hrows : Ascending key rows) (c : β) :
    (rows.filter fun x => key x < c) ++ (rows.filter fun x => c ≤ key x) = rows := by
  induction rows with
  | nil => rfl
  | cons x xs ih =>
      have htail := ih (List.Pairwise.of_cons hrows)
      by_cases hx : key x < c
      · simpa [hx] using htail
      · have hnone : (xs.filter fun y => key y < c) = [] := by
          rw [List.filter_eq_nil_iff]
          intro y hy
          have hlt : key x < key y := List.rel_of_pairwise_cons hrows hy
          simpa using (not_lt.mp hx).trans hlt.le
        rw [hnone, List.nil_append] at htail
        simp [hx, not_lt.mp hx, hnone, htail]

theorem Ascending.le_getLast (hrows : Ascending key rows) {last : α}
    (hlast : rows.getLast? = some last) : ∀ x ∈ rows, key x ≤ key last := by
  obtain ⟨before, rfl⟩ := List.getLast?_eq_some_iff.mp hlast
  intro x hx
  obtain hx | hx := List.mem_append.mp hx
  · exact le_of_lt ((List.pairwise_append.mp hrows).2.2 x hx last (by simp))
  · rw [List.mem_singleton.mp hx]

theorem Ascending.head_le (hrows : Ascending key rows) {first : α}
    (hfirst : rows.head? = some first) : ∀ x ∈ rows, key first ≤ key x := by
  obtain ⟨after, rfl⟩ := List.head?_eq_some_iff.mp hfirst
  intro x hx
  obtain rfl | hx := List.mem_cons.mp hx
  · exact le_rfl
  · exact le_of_lt (List.rel_of_pairwise_cons hrows hx)

/-- Two stretches of ascending rows make up a third one, where it is cut behind a key. -/
theorem Ascending.filter_append_filter (hrows : Ascending key rows) (c : β) {p q r : α → Prop}
    [DecidablePred p] [DecidablePred q] [DecidablePred r]
    (hp : ∀ x ∈ rows, p x ↔ r x ∧ key x ≤ c) (hq : ∀ x ∈ rows, q x ↔ r x ∧ c < key x) :
    (rows.filter fun x => p x) ++ (rows.filter fun x => q x) = rows.filter fun x => r x := by
  have hsplit := (hrows.filter fun x => r x).filter_le_append_filter_lt c
  rw [List.filter_filter, List.filter_filter] at hsplit
  rw [← hsplit]
  congr 1
  · apply List.filter_congr
    intro x hx
    simp [hp x hx, Bool.and_comm]
  · apply List.filter_congr
    intro x hx
    simp [hq x hx, Bool.and_comm]

/-- Two stretches of ascending rows make up a third one, where it is cut before a key. -/
theorem Ascending.filter_append_filter' (hrows : Ascending key rows) (c : β) {p q r : α → Prop}
    [DecidablePred p] [DecidablePred q] [DecidablePred r]
    (hp : ∀ x ∈ rows, p x ↔ r x ∧ key x < c) (hq : ∀ x ∈ rows, q x ↔ r x ∧ c ≤ key x) :
    (rows.filter fun x => p x) ++ (rows.filter fun x => q x) = rows.filter fun x => r x := by
  have hsplit := (hrows.filter fun x => r x).filter_lt_append_filter_le c
  rw [List.filter_filter, List.filter_filter] at hsplit
  rw [← hsplit]
  congr 1
  · apply List.filter_congr
    intro x hx
    simp [hp x hx, Bool.and_comm]
  · apply List.filter_congr
    intro x hx
    simp [hq x hx, Bool.and_comm]

/-- The first rows are those up to the last of them. -/
theorem Ascending.take_eq_filter (hrows : Ascending key rows) {n : ℕ} {last : α}
    (hlast : (rows.take n).getLast? = some last) :
    rows.take n = rows.filter fun x => key x ≤ key last := by
  have hsplit : rows.take n ++ rows.drop n = rows := List.take_append_drop n rows
  have hpair : Ascending key (rows.take n ++ rows.drop n) := by rw [hsplit]; exact hrows
  obtain ⟨htake, -, hcross⟩ := List.pairwise_append.mp hpair
  have hnone : ((rows.drop n).filter fun x => key x ≤ key last) = [] := by
    rw [List.filter_eq_nil_iff]
    intro x hx
    simpa using hcross last (List.mem_of_getLast? hlast) x hx
  conv_rhs => rw [← hsplit]
  rw [List.filter_append, hnone, List.append_nil]
  exact (List.filter_eq_self.mpr (by simpa using Ascending.le_getLast htake hlast)).symm

/-- The last rows are those from the first of them on. -/
theorem Ascending.drop_eq_filter (hrows : Ascending key rows) {n : ℕ} {first : α}
    (hfirst : (rows.drop n).head? = some first) :
    rows.drop n = rows.filter fun x => key first ≤ key x := by
  have hsplit : rows.take n ++ rows.drop n = rows := List.take_append_drop n rows
  have hpair : Ascending key (rows.take n ++ rows.drop n) := by rw [hsplit]; exact hrows
  obtain ⟨-, hdrop, hcross⟩ := List.pairwise_append.mp hpair
  have hnone : ((rows.take n).filter fun x => key first ≤ key x) = [] := by
    rw [List.filter_eq_nil_iff]
    intro x hx
    simpa using hcross x hx first (List.mem_of_head? hfirst)
  conv_rhs => rw [← hsplit]
  rw [List.filter_append, hnone, List.nil_append]
  exact (List.filter_eq_self.mpr (by simpa using Ascending.head_le hdrop hfirst)).symm

/-- A new row above all others goes last. -/
theorem Ascending.append_singleton (hrows : Ascending key rows) {new : α}
    (hnew : ∀ x ∈ rows, key x < key new) : Ascending key (rows ++ [new]) := by
  rw [Ascending, List.pairwise_append]
  exact ⟨hrows, List.pairwise_singleton _ _, by simpa using hnew⟩

end Keyset
