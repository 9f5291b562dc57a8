/-
# Forests given by child lists

A list of items, a function that lists the children of an item, and the tops the trees
hang from. When tops and children together list every item as often as it occurs, and
children rank above their parents, the trees under the tops spread out to the items
themselves: none is lost below a top that is not listed, and none is met twice.
-/

import Mathlib.Data.Finset.Card
import Mathlib.Data.List.Perm.Basic
import Mathlib.Logic.Relation

universe u

namespace Forests

open scoped List

variable {α : Type u} (children : α → List α)

/-- The items of the tree under an item, down to a depth. -/
def treeOf : ℕ → α → List α
  | 0, _ => []
  | depth + 1, item => item :: (children item).flatMap (treeOf depth)

/-- The items of the trees under several tops. -/
def forestOf (depth : ℕ) (tops : List α) : List α := tops.flatMap (treeOf children depth)

/-- The descendants of some items a number of generations below. -/
def generation : ℕ → List α → List α
  | 0, items => items
  | depth + 1, items => (generation depth items).flatMap children

variable {children}

/-! ## Spreading out a forest -/

theorem forestOf_zero (tops : List α) : forestOf children 0 tops = [] :=
  List.flatMap_eq_nil_iff.mpr fun _ _ => rfl

/-- A forest is its tops and the forest of their children. -/
theorem forestOf_succ (depth : ℕ) (tops : List α) :
    (forestOf children (depth + 1) tops).Perm
      (tops ++ forestOf children depth (tops.flatMap children)) := by
  unfold forestOf
  induction tops with
  | nil => simp
  | cons top tops ih =>
      simp only [List.flatMap_cons, treeOf, List.cons_append, List.flatMap_append]
      refine List.Perm.cons top ?_
      calc (children top).flatMap (treeOf children depth) ++
              tops.flatMap (treeOf children (depth + 1))
          _ ~ (children top).flatMap (treeOf children depth) ++
              (tops ++ (tops.flatMap children).flatMap (treeOf children depth)) :=
            ih.append_left _
          _ ~ tops ++ ((children top).flatMap (treeOf children depth) ++
              (tops.flatMap children).flatMap (treeOf children depth)) := by
            rw [← List.append_assoc, ← List.append_assoc]
            exact List.perm_append_comm.append_right _

/-- The forest of the children is what lies below the items of the forest. -/
theorem forestOf_children (depth : ℕ) (tops : List α) :
    (forestOf children depth (tops.flatMap children)).Perm
      ((forestOf children depth tops).flatMap children) := by
  induction depth generalizing tops with
  | zero => simp [forestOf_zero]
  | succ depth ih =>
      calc forestOf children (depth + 1) (tops.flatMap children)
          _ ~ tops.flatMap children ++
              forestOf children depth ((tops.flatMap children).flatMap children) :=
            forestOf_succ depth _
          _ ~ tops.flatMap children ++
              (forestOf children depth (tops.flatMap children)).flatMap children :=
            (ih _).append_left _
          _ ~ (forestOf children (depth + 1) tops).flatMap children := by
            rw [← List.flatMap_append]
            exact (forestOf_succ depth tops).symm.flatMap_right children

section Covered

variable {items tops : List α}

/-- To any depth, the forest and the items that lie deeper are all the items. -/
theorem forestOf_append_generation (hcover : (tops ++ items.flatMap children).Perm items)
    (depth : ℕ) :
    (forestOf children depth tops ++ generation children depth items).Perm items := by
  induction depth with
  | zero => simp [forestOf_zero, generation]
  | succ depth ih =>
      calc forestOf children (depth + 1) tops ++ generation children (depth + 1) items
          _ ~ (tops ++ forestOf children depth (tops.flatMap children)) ++
              generation children (depth + 1) items :=
            (forestOf_succ depth tops).append_right _
          _ ~ (tops ++ (forestOf children depth tops).flatMap children) ++
              generation children (depth + 1) items :=
            ((forestOf_children depth tops).append_left _).append_right _
          _ ~ tops ++
              (forestOf children depth tops ++ generation children depth items).flatMap
                children := by
            rw [List.flatMap_append, List.append_assoc]
            exact List.Perm.refl _
          _ ~ tops ++ items.flatMap children := (ih.flatMap_right children).append_left _
          _ ~ items := hcover

/-- What lies a number of generations deep has that rank at least. -/
theorem rank_of_mem_generation {rank : α → ℕ}
    (hrank : ∀ item ∈ items, ∀ child ∈ children item, rank item < rank child)
    (hclosed : ∀ item ∈ items, ∀ child ∈ children item, child ∈ items) (depth : ℕ) :
    ∀ item ∈ generation children depth items, item ∈ items ∧ depth ≤ rank item := by
  induction depth with
  | zero => exact fun item hitem => ⟨hitem, Nat.zero_le _⟩
  | succ depth ih =>
      intro child hchild
      obtain ⟨item, hitem, hbelow⟩ := List.mem_flatMap.mp hchild
      have hparent := ih item hitem
      have hlt := hrank item hparent.1 child hbelow
      exact ⟨hclosed item hparent.1 child hbelow, by omega⟩

/-- The forest holds each item once, where ranks are bounded. -/
theorem forestOf_perm (hcover : (tops ++ items.flatMap children).Perm items) {rank : α → ℕ}
    (hrank : ∀ item ∈ items, ∀ child ∈ children item, rank item < rank child) {depth : ℕ}
    (hdepth : ∀ item ∈ items, rank item < depth) :
    (forestOf children depth tops).Perm items := by
  have hclosed : ∀ item ∈ items, ∀ child ∈ children item, child ∈ items := by
    intro item hitem child hchild
    apply hcover.mem_iff.mp
    exact List.mem_append_right _ (List.mem_flatMap.mpr ⟨item, hitem, hchild⟩)
  have hnone : generation children depth items = [] := by
    rw [List.eq_nil_iff_forall_not_mem]
    intro item hitem
    have hfound := rank_of_mem_generation hrank hclosed depth item hitem
    have hbound := hdepth item hfound.1
    omega
  have hall := forestOf_append_generation hcover depth
  rwa [hnone, List.append_nil] at hall

end Covered

/-! ## Ranks from acyclic links -/

open Relation (TransGen)

/-- Where no item of a finite set is its own ancestor, the number of its ancestors ranks
an item, below the size of the set. -/
theorem exists_rank_of_acyclic [DecidableEq α] {link : α → α → Prop} {items : Finset α}
    (hacyclic : ∀ item ∈ items, ¬ TransGen link item item) :
    ∃ rank : α → ℕ, (∀ item ∈ items, ∀ child, link child item → rank item < rank child) ∧
      ∀ item ∈ items, rank item < items.card := by
  classical
  refine ⟨fun item => (items.filter fun above => TransGen link item above).card, ?_, ?_⟩
  · intro item hitem child hlink
    apply Finset.card_lt_card
    rw [Finset.ssubset_iff_of_subset]
    · refine ⟨item, ?_, ?_⟩
      · exact Finset.mem_filter.mpr ⟨hitem, TransGen.single hlink⟩
      · exact fun hmem => hacyclic item hitem (Finset.mem_filter.mp hmem).2
    · intro above habove
      have hfound := Finset.mem_filter.mp habove
      exact Finset.mem_filter.mpr ⟨hfound.1, TransGen.head hlink hfound.2⟩
  · intro item hitem
    apply Finset.card_lt_card
    rw [Finset.ssubset_iff_of_subset (Finset.filter_subset _ _)]
    exact ⟨item, hitem, fun hmem => hacyclic item hitem (Finset.mem_filter.mp hmem).2⟩

end Forests
