/-
# Trees given by parent links

A set of nodes and a function that gives a node its parent, if it has one. The nodes form a tree
when one of them, the root, is the only one without a parent, parents are among the nodes, and no
node is its own ancestor; where there are finitely many nodes, this is the same as every node
reaching the root by parent links.

A leaf can be added anywhere. A node can be given another parent of the same tree exactly when it
is not that parent or an ancestor of it, and a node of another tree can be given a parent exactly
when it is the root of its own.
-/

import Mathlib.Data.Set.Finite.Basic
import Mathlib.Logic.Relation
import Mathlib.Order.WellFounded

universe u

namespace ParentTrees

open Relation (ReflTransGen TransGen)

variable {ν : Type u}

/-- One parent link. -/
def Link (parent : ν → Option ν) (node above : ν) : Prop := parent node = some above

/-- Some parent links, none included: `above` is the node or one of its ancestors. -/
abbrev Reaches (parent : ν → Option ν) : ν → ν → Prop := ReflTransGen (Link parent)

/-- The nodes form a tree under this root. -/
structure IsTree (parent : ν → Option ν) (nodes : Set ν) (root : ν) : Prop where
  root_mem : root ∈ nodes
  root_parent : parent root = none
  parent_mem : ∀ node ∈ nodes, ∀ above, parent node = some above → above ∈ nodes
  only_root : ∀ node ∈ nodes, parent node = none → node = root
  acyclic : ∀ node ∈ nodes, ¬ TransGen (Link parent) node node

variable {parent changed : ν → Option ν} {nodes : Set ν} {root : ν}

/-! ## Reaching the root -/

/-- Parents being nodes, so are ancestors. -/
theorem Reaches.mem (hmem : ∀ node ∈ nodes, ∀ above, parent node = some above → above ∈ nodes)
    {node above : ν} (hreaches : Reaches parent node above) (hnode : node ∈ nodes) :
    above ∈ nodes := by
  induction hreaches with
  | refl => exact hnode
  | tail _ hlink ih => exact hmem _ ih _ hlink

/-- The second node is below the first one. -/
def Below (parent : ν → Option ν) (nodes : Set ν) (first second : nodes) : Prop :=
  TransGen (Link parent) second.1 first.1

/-- In a finite tree every node reaches the root. -/
theorem IsTree.reaches (htree : IsTree parent nodes root) (hfinite : nodes.Finite) {node : ν}
    (hnode : node ∈ nodes) : Reaches parent node root := by
  have : Finite nodes := hfinite
  have : IsTrans nodes (Below parent nodes) := ⟨fun _ _ _ hab hbc => hbc.trans hab⟩
  have : Std.Irrefl (Below parent nodes) := ⟨fun first => htree.acyclic first.1 first.2⟩
  have hwell := Finite.wellFounded_of_trans_of_irrefl (Below parent nodes)
  induction hstart : (⟨node, hnode⟩ : nodes) using hwell.induction generalizing node with
  | _ start ih =>
      subst hstart
      cases hparent : parent node with
      | none =>
          rw [htree.only_root node hnode hparent]
      | some next =>
          have hnext := htree.parent_mem node hnode next hparent
          exact ReflTransGen.head hparent
            (ih ⟨next, hnext⟩ (TransGen.single hparent) hnext rfl)

/-- Where every node reaches a root among them, the nodes form a tree. -/
theorem IsTree.of_reaches (hroot : root ∈ nodes) (hparent : parent root = none)
    (hmem : ∀ node ∈ nodes, ∀ above, parent node = some above → above ∈ nodes)
    (hreaches : ∀ node ∈ nodes, Reaches parent node root) : IsTree parent nodes root where
  root_mem := hroot
  root_parent := hparent
  parent_mem := hmem
  only_root := by
    intro node hnode hnone
    rcases ReflTransGen.cases_head (hreaches node hnode) with heq | ⟨next, hlink, _⟩
    · exact heq
    · rw [Link, hnone] at hlink
      cases hlink
  acyclic := by
    intro node hnode hcycle
    -- From a node on a cycle every chain of links leads back to the node, and the root has none.
    have hback : ∀ above, Reaches parent node above → TransGen (Link parent) above node := by
      intro above hchain
      induction hchain with
      | refl => exact hcycle
      | tail _ hlink ih =>
          obtain ⟨next, hnext, hrest⟩ := TransGen.head'_iff.mp ih
          obtain rfl := Option.some.inj (hlink.symm.trans hnext)
          rcases ReflTransGen.cases_head hrest with heq | ⟨after, hafter, hend⟩
          · exact heq ▸ hcycle
          · exact TransGen.head' hafter hend
    obtain ⟨next, hnext, _⟩ := TransGen.head'_iff.mp (hback root (hreaches node hnode))
    rw [Link, hparent] at hnext
    cases hnext

/-- Only the links of the nodes matter. -/
theorem IsTree.congr (htree : IsTree parent nodes root)
    (hsame : ∀ node ∈ nodes, changed node = parent node) : IsTree changed nodes root where
  root_mem := htree.root_mem
  root_parent := (hsame root htree.root_mem).trans htree.root_parent
  parent_mem := fun node hnode above habove =>
    htree.parent_mem node hnode above ((hsame node hnode).symm.trans habove)
  only_root := fun node hnode hnone =>
    htree.only_root node hnode ((hsame node hnode).symm.trans hnone)
  acyclic := by
    intro node hnode hcycle
    apply htree.acyclic node hnode
    have hchain : ∀ above, TransGen (Link changed) node above →
        TransGen (Link parent) node above ∧ above ∈ nodes := by
      intro above hlinks
      induction hlinks with
      | single hlink =>
          have hold := (hsame node hnode).symm.trans hlink
          exact ⟨TransGen.single hold, htree.parent_mem node hnode _ hold⟩
      | tail _ hlink ih =>
          have hold := (hsame _ ih.2).symm.trans hlink
          exact ⟨ih.1.tail hold, htree.parent_mem _ ih.2 _ hold⟩
    exact (hchain node hcycle).1

/-! ## Adding nodes -/

theorem IsTree.single (hparent : parent root = none) : IsTree parent {root} root := by
  apply IsTree.of_reaches (Set.mem_singleton root) hparent
  · rintro node rfl above habove
    rw [hparent] at habove
    cases habove
  · rintro node rfl
    exact ReflTransGen.refl

/-- A leaf can be added under any node. -/
theorem IsTree.leaf (htree : IsTree parent nodes root) (hfinite : nodes.Finite) {leaf above : ν}
    (hleaf : parent leaf = some above) (habove : above ∈ nodes) :
    IsTree parent (insert leaf nodes) root := by
  apply IsTree.of_reaches (Set.mem_insert_of_mem _ htree.root_mem) htree.root_parent
  · rintro node (rfl | hnode) next hnext
    · obtain rfl := Option.some.inj (hleaf.symm.trans hnext)
      exact Set.mem_insert_of_mem _ habove
    · exact Set.mem_insert_of_mem _ (htree.parent_mem node hnode next hnext)
  · rintro node (rfl | hnode)
    · exact ReflTransGen.head hleaf (htree.reaches hfinite habove)
    · exact htree.reaches hfinite hnode

/-! ## Giving a node another parent -/

/-- The parent links once `child` is given the parent `above`. -/
def Relinked (parent changed : ν → Option ν) (child above : ν) : Prop :=
  changed child = some above ∧ ∀ node, node ≠ child → changed node = parent node

section Relinking

variable {child above : ν}

/-- A chain of links up to the child, cut where it first gets there, is left alone. -/
theorem Reaches.relink_to (hrelinked : Relinked parent changed child above) {node : ν}
    (hreaches : Reaches parent node child) : Reaches changed node child := by
  induction hreaches using ReflTransGen.head_induction_on with
  | refl => exact ReflTransGen.refl
  | @head start next hlink _ ih =>
      by_cases hstart : start = child
      · rw [hstart]
      · exact ReflTransGen.head ((hrelinked.2 start hstart).trans hlink) ih

/-- A chain of links that does not come past the child is left alone. -/
theorem Reaches.relink_apart (hrelinked : Relinked parent changed child above) {node top : ν}
    (hapart : ¬ Reaches parent node child) (hreaches : Reaches parent node top) :
    Reaches changed node top := by
  induction hreaches with
  | refl => exact ReflTransGen.refl
  | @tail last next hchain hlink ih =>
      have hlast : last ≠ child := fun heq => hapart (heq ▸ hchain)
      exact ih.tail ((hrelinked.2 last hlast).trans hlink)

/-- Within a tree a node can be put under another exactly when it is not that node or an
ancestor of it. -/
theorem IsTree.relink_iff (htree : IsTree parent nodes root) (hfinite : nodes.Finite)
    (hrelinked : Relinked parent changed child above) (hchild : child ∈ nodes)
    (habove : above ∈ nodes) :
    IsTree changed nodes root ↔ ¬ Reaches parent above child := by
  constructor
  · intro hchanged hancestor
    apply hchanged.acyclic child hchild
    exact TransGen.head' hrelinked.1 (Reaches.relink_to hrelinked hancestor)
  · intro hapart
    have habove_root := Reaches.relink_apart hrelinked hapart (htree.reaches hfinite habove)
    have hroot : root ≠ child := by
      rintro rfl
      exact hapart (htree.reaches hfinite habove)
    apply IsTree.of_reaches htree.root_mem
    · rw [hrelinked.2 root hroot, htree.root_parent]
    · intro node hnode next hnext
      by_cases hnodeChild : node = child
      · rw [hnodeChild, hrelinked.1] at hnext
        exact Option.some.inj hnext ▸ habove
      · rw [hrelinked.2 node hnodeChild] at hnext
        exact htree.parent_mem node hnode next hnext
    · intro node hnode
      have hold := htree.reaches hfinite hnode
      by_cases hpast : Reaches parent node child
      · exact (Reaches.relink_to hrelinked hpast).trans
          (ReflTransGen.head hrelinked.1 habove_root)
      · exact Reaches.relink_apart hrelinked hpast hold

/-- A node of another tree can be put under a node exactly when it is the root of its own tree,
which then moves as a whole. -/
theorem IsTree.graft_iff {others : Set ν} {otherRoot : ν} (htree : IsTree parent nodes root)
    (hother : IsTree parent others otherRoot) (hfinite : nodes.Finite) (hfiniteOthers : others.Finite)
    (hdisjoint : ∀ node ∈ nodes, node ∉ others) (hrelinked : Relinked parent changed child above)
    (hchild : child ∈ others) (habove : above ∈ nodes) :
    IsTree changed (nodes ∪ others) root ↔ parent child = none := by
  have hapartMem : ∀ node ∈ nodes, node ≠ child := by
    rintro node hnode rfl
    exact hdisjoint _ hnode hchild
  constructor
  · intro hchanged
    by_contra hsome
    have hne : otherRoot ≠ child := by
      rintro rfl
      exact hsome hother.root_parent
    -- The root that is left behind has no parent and is not the root.
    have hleft := hchanged.only_root otherRoot (Or.inr hother.root_mem)
      ((hrelinked.2 otherRoot hne).trans hother.root_parent)
    exact hdisjoint root htree.root_mem (hleft ▸ hother.root_mem)
  · intro hnone
    obtain rfl := hother.only_root child hchild hnone
    have hreaches : ∀ node ∈ nodes, Reaches changed node root := by
      intro node hnode
      refine Reaches.relink_apart hrelinked ?_ (htree.reaches hfinite hnode)
      intro hpast
      exact hapartMem child (Reaches.mem htree.parent_mem hpast hnode) rfl
    apply IsTree.of_reaches (Set.mem_union_left others htree.root_mem)
    · rw [hrelinked.2 root (hapartMem root htree.root_mem), htree.root_parent]
    · intro node hnode next hnext
      by_cases hnodeChild : node = child
      · rw [hnodeChild, hrelinked.1] at hnext
        exact Or.inl (Option.some.inj hnext ▸ habove)
      · rw [hrelinked.2 node hnodeChild] at hnext
        exact hnode.imp (fun h => htree.parent_mem node h next hnext)
          fun h => hother.parent_mem node h next hnext
    · rintro node (hnode | hnode)
      · exact hreaches node hnode
      · exact (Reaches.relink_to hrelinked (hother.reaches hfiniteOthers hnode)).trans
          (ReflTransGen.head hrelinked.1 (hreaches above habove))

end Relinking

end ParentTrees
