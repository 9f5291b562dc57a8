/-
# Totals kept in maps and in buckets

Rows are accumulated one by one into the entries of a map, which is in the order in which its keys
were first set, or into the slots of a list. Whatever the keys and slots are, what the entries hold
in total is what the rows amount to.
-/

import Mathlib.Algebra.BigOperators.Group.List.Basic

namespace Accumulators

variable {κ α ρ M : Type*}

/-! ## Maps -/

section Maps

variable [DecidableEq κ]

/-- The entry of a key is changed; one that is not there is created, and changed. -/
def upsert (key : κ) (create : α) (f : α → α) : List (κ × α) → List (κ × α)
  | [] => [(key, f create)]
  | (other, value) :: rest =>
      if other = key then (other, f value) :: rest
      else (other, value) :: upsert key create f rest

variable {key : κ} {create : α} {f : α → α} {entries : List (κ × α)}

/-- The keys stay in the order in which they were first set. -/
theorem keys_upsert :
    (upsert key create f entries).map Prod.fst =
      if key ∈ entries.map Prod.fst then entries.map Prod.fst
      else entries.map Prod.fst ++ [key] := by
  induction entries with
  | nil => rfl
  | cons entry rest ih =>
      obtain ⟨other, value⟩ := entry
      rw [upsert]
      by_cases hkey : other = key
      · simp [hkey]
      · rw [if_neg hkey, List.map_cons, ih, List.map_cons]
        by_cases hmem : key ∈ rest.map Prod.fst
        · rw [if_pos hmem, if_pos (List.mem_cons_of_mem _ hmem)]
        · rw [if_neg hmem, if_neg (by simpa [Ne.symm hkey] using hmem)]
          rfl

/-- An entry after a change is one of before, or the one that was changed. -/
theorem mem_upsert {entry : κ × α} (hmem : entry ∈ upsert key create f entries) :
    entry ∈ entries ∨
      entry = (key, f create) ∨ ∃ value, (key, value) ∈ entries ∧ entry = (key, f value) := by
  induction entries with
  | nil => exact Or.inr (Or.inl (List.mem_singleton.mp hmem))
  | cons head rest ih =>
      obtain ⟨other, value⟩ := head
      rw [upsert] at hmem
      split at hmem
      · next hkey =>
          subst hkey
          rcases List.mem_cons.mp hmem with rfl | hrest
          · exact Or.inr (Or.inr ⟨value, List.mem_cons_self, rfl⟩)
          · exact Or.inl (List.mem_cons_of_mem _ hrest)
      · rcases List.mem_cons.mp hmem with rfl | hrest
        · exact Or.inl List.mem_cons_self
        · rcases ih hrest with hold | hnew | ⟨value, hvalue, hnew⟩
          · exact Or.inl (List.mem_cons_of_mem _ hold)
          · exact Or.inr (Or.inl hnew)
          · exact Or.inr (Or.inr ⟨value, List.mem_cons_of_mem _ hvalue, hnew⟩)

variable [AddCommMonoid M]

/-- What is added to an entry is added to the total. -/
theorem sum_upsert (weight : α → M) (amount : M) (hcreate : weight (f create) = amount)
    (hchange : ∀ value, (key, value) ∈ entries → weight (f value) = weight value + amount) :
    ((upsert key create f entries).map fun entry => weight entry.2).sum =
      (entries.map fun entry => weight entry.2).sum + amount := by
  induction entries with
  | nil => simp [upsert, hcreate]
  | cons entry rest ih =>
      obtain ⟨other, value⟩ := entry
      rw [upsert]
      split
      · next hkey =>
          subst hkey
          simp only [List.map_cons, List.sum_cons]
          rw [hchange value List.mem_cons_self, add_assoc, add_comm amount, add_assoc]
      · simp only [List.map_cons, List.sum_cons]
        rw [ih fun value hvalue => hchange value (List.mem_cons_of_mem _ hvalue), add_assoc]

/-- Rows that are accumulated into a map. -/
def collect (key : ρ → κ) (create : ρ → α) (f : ρ → α → α) (entries : List (κ × α))
    (rows : List ρ) : List (κ × α) :=
  rows.foldl (fun entries row => upsert (key row) (create row) (f row) entries) entries

/-- The entries hold in total what the rows amount to. -/
theorem sum_collect {key : ρ → κ} {create : ρ → α} {f : ρ → α → α} (weight : α → M)
    (amount : ρ → M)
    (hcreate : ∀ row, weight (create row) = 0)
    (hchange : ∀ row value, weight (f row value) = weight value + amount row)
    (entries : List (κ × α)) (rows : List ρ) :
    ((collect key create f entries rows).map fun entry => weight entry.2).sum =
      (entries.map fun entry => weight entry.2).sum + (rows.map amount).sum := by
  induction rows generalizing entries with
  | nil => simp [collect]
  | cons row rest ih =>
      rw [collect, List.foldl_cons]
      refine (ih _).trans ?_
      have hfirst : weight (f row (create row)) = amount row := by
        rw [hchange, hcreate, zero_add]
      rw [sum_upsert weight (amount row) hfirst fun value _ => hchange row value, List.map_cons, List.sum_cons,
        add_assoc]

end Maps

section Keys

variable [DecidableEq κ] {key : ρ → κ}

/-- The keys of a map depend on the keys of its rows alone. -/
theorem keys_collect_eq {β : Type*} {create : ρ → α} {f : ρ → α → α} {create' : ρ → β}
    {f' : ρ → β → β} {entries : List (κ × α)} {others : List (κ × β)} (rows : List ρ)
    (hkeys : entries.map Prod.fst = others.map Prod.fst) :
    (collect key create f entries rows).map Prod.fst =
      (collect key create' f' others rows).map Prod.fst := by
  induction rows generalizing entries others with
  | nil => exact hkeys
  | cons row rest ih =>
      rw [collect, collect, List.foldl_cons, List.foldl_cons]
      apply ih
      rw [keys_upsert, keys_upsert, hkeys]

/-- No key is set twice. -/
theorem nodup_keys_collect {create : ρ → α} {f : ρ → α → α} {entries : List (κ × α)}
    (rows : List ρ) (hnodup : (entries.map Prod.fst).Nodup) :
    ((collect key create f entries rows).map Prod.fst).Nodup := by
  induction rows generalizing entries with
  | nil => exact hnodup
  | cons row rest ih =>
      rw [collect, List.foldl_cons]
      apply ih
      rw [keys_upsert]
      split
      · exact hnodup
      · next hfresh =>
          rw [List.nodup_append]
          refine ⟨hnodup, List.pairwise_singleton _ _, fun other hother last hlast => ?_⟩
          rw [List.mem_singleton.mp hlast]
          exact fun hsame => hfresh (hsame ▸ hother)

/-- What each row keeps of the entry of its key holds of every entry. -/
theorem forall_collect {create : ρ → α} {f : ρ → α → α} (P : κ → α → Prop) {rows : List ρ}
    (hcreate : ∀ row ∈ rows, P (key row) (f row (create row)))
    (hchange : ∀ row ∈ rows, ∀ value, P (key row) value → P (key row) (f row value))
    {entries : List (κ × α)} (hentries : ∀ entry ∈ entries, P entry.1 entry.2) :
    ∀ entry ∈ collect key create f entries rows, P entry.1 entry.2 := by
  induction rows generalizing entries with
  | nil => exact hentries
  | cons row rest ih =>
      rw [collect, List.foldl_cons]
      apply ih (fun later hlater => hcreate later (List.mem_cons_of_mem _ hlater))
        fun later hlater => hchange later (List.mem_cons_of_mem _ hlater)
      intro entry hentry
      rcases mem_upsert hentry with hold | rfl | ⟨value, hvalue, rfl⟩
      · exact hentries entry hold
      · exact hcreate row List.mem_cons_self
      · exact hchange row List.mem_cons_self value (hentries _ hvalue)

end Keys

/-! ## Slots -/

section Slots

variable [AddCommMonoid M]

/-- What is added to a slot is added to the total. -/
theorem sum_modify (weight : α → M) {amount : M} {f : α → α} (hf : ∀ value, weight (f value) = weight value + amount)
    {slots : List α} {i : ℕ} (hi : i < slots.length) :
    ((slots.modify i f).map weight).sum = (slots.map weight).sum + amount := by
  induction slots generalizing i with
  | nil => cases hi
  | cons slot rest ih =>
      cases i with
      | zero =>
          simp only [List.modify_zero_cons, List.map_cons, List.sum_cons]
          rw [hf, add_assoc, add_comm amount, add_assoc]
      | succ i =>
          simp only [List.modify_succ_cons, List.map_cons, List.sum_cons]
          rw [ih (Nat.lt_of_succ_lt_succ hi), add_assoc]

/-- Rows that are accumulated into slots. -/
def fill (slot : ρ → ℕ) (f : α → ρ → α) (slots : List α) (rows : List ρ) : List α :=
  rows.foldl (fun slots row => slots.modify (slot row) fun value => f value row) slots

variable {slot : ρ → ℕ} {f : α → ρ → α}

@[simp]
theorem length_fill (slots : List α) (rows : List ρ) :
    (fill slot f slots rows).length = slots.length := by
  induction rows generalizing slots with
  | nil => rfl
  | cons row rest ih =>
      rw [fill, List.foldl_cons]
      exact (ih _).trans (List.length_modify _ _ _)

/-- The slots hold in total what the rows amount to. -/
theorem sum_fill (weight : α → M) (amount : ρ → M)
    (hf : ∀ value row, weight (f value row) = weight value + amount row)
    {slots : List α} {rows : List ρ} (hslots : ∀ row ∈ rows, slot row < slots.length) :
    ((fill slot f slots rows).map weight).sum =
      (slots.map weight).sum + (rows.map amount).sum := by
  induction rows generalizing slots with
  | nil => simp [fill]
  | cons row rest ih =>
      have hrest : ∀ later ∈ rest,
          slot later < (slots.modify (slot row) fun value => f value row).length := by
        intro later hlater
        rw [List.length_modify]
        exact hslots later (List.mem_cons_of_mem _ hlater)
      have hfirst := sum_modify weight (fun value => hf value row)
        (hslots row List.mem_cons_self)
      rw [fill, List.foldl_cons]
      refine (ih hrest).trans ?_
      rw [hfirst, List.map_cons, List.sum_cons, add_assoc]

/-- What no row changes stays as it is. -/
theorem map_fill {β : Type*} (g : α → β) (hf : ∀ value row, g (f value row) = g value)
    (slots : List α) (rows : List ρ) : (fill slot f slots rows).map g = slots.map g := by
  induction rows generalizing slots with
  | nil => rfl
  | cons row rest ih =>
      rw [fill, List.foldl_cons]
      refine (ih _).trans ?_
      apply List.ext_getElem?
      intro i
      rw [List.getElem?_map, List.getElem?_map, List.getElem?_modify]
      cases slots[i]? with
      | none => rfl
      | some value =>
          by_cases hslot : slot row = i
          · simp [hslot, hf]
          · simp [hslot]

/-- A slot holds what its rows amount to. -/
theorem getElem?_fill (weight : α → M) (amount : ρ → M)
    (hf : ∀ value row, weight (f value row) = weight value + amount row)
    (slots : List α) (rows : List ρ) (i : ℕ) :
    (fill slot f slots rows)[i]?.map weight =
      slots[i]?.map fun value =>
        weight value + ((rows.filter fun row => decide (slot row = i)).map amount).sum := by
  induction rows generalizing slots with
  | nil => simp [fill]
  | cons row rest ih =>
      rw [fill, List.foldl_cons]
      refine (ih _).trans ?_
      rw [List.getElem?_modify, List.filter_cons]
      cases slots[i]? with
      | none => rfl
      | some value =>
          by_cases hslot : slot row = i
          · simp [hslot, hf, add_assoc]
          · simp [hslot]

end Slots

end Accumulators
