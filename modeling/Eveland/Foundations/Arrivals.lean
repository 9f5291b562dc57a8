/-
# Items that arrive in any order

A log keeps what arrives, once each, and ranks it. An arrival is the newest one if nothing in the
log is ranked above it; whatever follows only the newest arrivals is moved by some of the items,
which depend on the order of arrival. The lemmas say which do not: the item ranked highest is
always among them, and always the last.
-/

import Mathlib.Order.Lattice
import Mathlib.Tactic.Common

universe u v w

namespace Arrivals

/-- A log of arrivals: what it keeps of an item, how it ranks what it keeps, and when two of
them are the same. -/
structure Log (δ : Type u) (ρ : Type v) (κ : Type w) where
  trace : δ → ρ
  rank : ρ → Option κ
  same : ρ → ρ → Bool

namespace Log

variable {δ : Type u} {ρ : Type v} {κ : Type w}

/-! ## What a log keeps -/

section Keeping

variable (L : Log δ ρ κ)

/-- The log has the item already. -/
def isKept (seen : List ρ) (item : δ) : Bool := seen.any fun row => L.same row (L.trace item)

/-- The log after an arrival. -/
def keep (seen : List ρ) (item : δ) : List ρ :=
  if L.isKept seen item then seen else seen ++ [L.trace item]

variable {L} {seen : List ρ}

theorem mem_keep {item : δ} {row : ρ} (hrow : row ∈ L.keep seen item) :
    row ∈ seen ∨ row = L.trace item := by
  rw [keep] at hrow
  split at hrow
  · exact Or.inl hrow
  · simpa using hrow

theorem subset_keep {item : δ} {row : ρ} (hrow : row ∈ seen) : row ∈ L.keep seen item := by
  rw [keep]
  split
  · exact hrow
  · exact List.mem_append_left _ hrow

/-- What is kept of arrivals was there or is a trace of one of them. -/
theorem mem_foldl_keep {items : List δ} {row : ρ} (hrow : row ∈ items.foldl L.keep seen) :
    row ∈ seen ∨ ∃ item ∈ items, row = L.trace item := by
  induction items generalizing seen with
  | nil => exact Or.inl hrow
  | cons first rest ih =>
      rcases ih hrow with hkept | ⟨item, hitem, heq⟩
      · rcases mem_keep hkept with hold | hnew
        · exact Or.inl hold
        · exact Or.inr ⟨first, List.mem_cons_self, hnew⟩
      · exact Or.inr ⟨item, List.mem_cons_of_mem _ hitem, heq⟩

end Keeping

/-! ## What arrivals move -/

variable [LinearOrder κ] (L : Log δ ρ κ)

/-- Nothing in the log is ranked above the item. An item without a rank is always the newest. -/
def isNewest (seen : List ρ) (item : δ) : Bool :=
  (L.rank (L.trace item)).all fun rank =>
    seen.all fun row => (L.rank row).all fun other => other ≤ rank

/-- The arrivals that are new to the log and the newest when they arrive. -/
def movers : List ρ → List δ → List δ
  | _, [] => []
  | seen, item :: rest =>
      if !L.isKept seen item && L.isNewest seen item then
        item :: movers (L.keep seen item) rest
      else movers (L.keep seen item) rest

@[simp]
theorem movers_nil (seen : List ρ) : L.movers seen [] = [] := rfl

variable {L} {seen : List ρ}

variable (L) in
/-- What moves over two batches is what moves over each. -/
theorem movers_append (seen : List ρ) (first second : List δ) :
    L.movers seen (first ++ second) =
      L.movers seen first ++ L.movers (first.foldl L.keep seen) second := by
  induction first generalizing seen with
  | nil => rfl
  | cons item rest ih =>
      rw [List.cons_append, movers, movers, ih, List.foldl_cons]
      split <;> rfl

/-- An item ranked below one in the log is not the newest. -/
theorem isNewest_of_below {item : δ} {row : ρ} {rank other : κ} (hrow : row ∈ seen)
    (hrank : L.rank row = some rank) (hother : L.rank (L.trace item) = some other)
    (hbelow : other < rank) : L.isNewest seen item = false := by
  rw [isNewest, hother, Option.all_some, List.all_eq_false]
  exact ⟨row, hrow, by simpa [hrank] using hbelow⟩

/-- Items ranked below one in the log move nothing. -/
theorem movers_of_below {row : ρ} {rank : κ} {items : List δ} (hrow : row ∈ seen)
    (hrank : L.rank row = some rank)
    (hbelow : ∀ item ∈ items, ∃ other, L.rank (L.trace item) = some other ∧ other < rank) :
    L.movers seen items = [] := by
  induction items generalizing seen with
  | nil => rfl
  | cons item rest ih =>
      obtain ⟨other, hother, hlt⟩ := hbelow item List.mem_cons_self
      rw [movers, isNewest_of_below hrow hrank hother hlt, Bool.and_false, if_neg (by simp)]
      apply ih (subset_keep hrow)
      exact fun later hlater => hbelow later (List.mem_cons_of_mem _ hlater)

/-- **The highest moves last.** An item that is new to the log and ranked above all that arrive
with it moves after all that move before it, whenever it arrives. -/
theorem movers_of_highest {item : δ} {rank : κ} {before after : List δ}
    (hrank : L.rank (L.trace item) = some rank)
    (hseen : ∀ row ∈ seen, (L.rank row).all (fun other => other ≤ rank) = true)
    (hhighest : ∀ other ∈ before ++ after,
      ∃ below, L.rank (L.trace other) = some below ∧ below < rank)
    (hnew : ∀ row ∈ seen, L.same row (L.trace item) = false)
    (hothers : ∀ other ∈ before, L.same (L.trace other) (L.trace item) = false) :
    L.movers seen (before ++ item :: after) = L.movers seen before ++ [item] := by
  have hkept : L.isKept (before.foldl L.keep seen) item = false := by
    rw [isKept, List.any_eq_false]
    intro row hrow
    rcases mem_foldl_keep hrow with hold | ⟨other, hother, rfl⟩
    · simp [hnew row hold]
    · simp [hothers other hother]
  have hnewest : L.isNewest (before.foldl L.keep seen) item = true := by
    rw [isNewest, hrank, Option.all_some, List.all_eq_true]
    intro row hrow
    rcases mem_foldl_keep hrow with hold | ⟨other, hother, rfl⟩
    · exact hseen row hold
    · obtain ⟨below, hbelow, hlt⟩ := hhighest other (List.mem_append_left _ hother)
      rw [hbelow, Option.all_some]
      exact decide_eq_true hlt.le
  rw [movers_append, movers, hkept, hnewest, Bool.not_false, Bool.and_true, if_pos rfl]
  congr 1
  congr 1
  refine movers_of_below ?_ hrank ?_
  · rw [keep, hkept, if_neg (by simp)]
    exact List.mem_append_right _ (List.mem_singleton_self _)
  · exact fun other hother => hhighest other (List.mem_append_right _ hother)

/-- An arrival that is not the newest leaves open which later ones are. -/
theorem isNewest_keep {item other : δ} (hold : L.isNewest seen item = false) :
    L.isNewest (L.keep seen item) other = L.isNewest seen other := by
  rw [keep]
  split
  · rfl
  · cases hother : L.rank (L.trace other) with
    | none => rw [isNewest, isNewest, hother]; rfl
    | some rank =>
        rw [isNewest, isNewest, hother, Option.all_some, Option.all_some, List.all_append,
          List.all_cons, List.all_nil, Bool.and_true]
        cases hitem : L.rank (L.trace item) with
        | none => simp
        | some below =>
            rw [isNewest, hitem, Option.all_some, List.all_eq_false] at hold
            obtain ⟨row, hrow, habove⟩ := hold
            -- What is above the item is above the other one, if the item is.
            cases hall : seen.all fun row => (L.rank row).all fun other => other ≤ rank with
            | false => rfl
            | true =>
                have hle := List.all_eq_true.mp hall row hrow
                cases hrow' : L.rank row with
                | none => simp [hrow'] at habove
                | some top =>
                    rw [hrow', Option.all_some] at hle habove
                    simp only [decide_eq_true_eq, not_le] at hle habove
                    simpa using (habove.trans_le hle).le

end Log

end Arrivals
