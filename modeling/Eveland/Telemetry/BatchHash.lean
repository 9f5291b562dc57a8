/-
# The hash of a telemetry batch

A batch is hashed over a serialization with sorted keys, and a batch whose hash is stored is taken
for a delivery that came before. The keys are sorted with a collation, for which different keys may
compare equal; such keys stay in the order in which they were inserted. Exactly the values in which
no object has two of them are serialized alike whatever the order of their keys; values that differ
otherwise are never serialized alike.
-/

import Eveland.Core.Stringify

namespace Eveland.BatchHash

open Js

/-! ## Serialization -/

section Serialization

variable (localeCompare : Text → Text → Ordering)

/-- The left entry does not come after the right one. -/
def localeLe {α : Type*} (left right : Text × α) : Prop :=
  (localeCompare left.1 right.1).isLE = true

instance {α : Type*} : DecidableRel (localeLe (α := α) localeCompare) :=
  fun _ _ => inferInstanceAs (Decidable (_ = true))

/-- `Object.entries(value).sort(([left], [right]) => left.localeCompare(right))`. The sort is
stable. -/
def sortedEntries {α : Type*} (fields : List (Text × α)) : List (Text × α) :=
  (ownOrder fields).insertionSort (localeLe localeCompare)

/-- `sortJson`. The sort looks at the keys only, so it may come after the children. -/
def sortJson (value : Value) : Value := reorder (sortedEntries localeCompare) value

/-- `stableJson`. -/
def stableJson (value : Value) : Text := stringify (sortJson localeCompare value)

end Serialization

/-! ## Receipts -/

inductive ObservabilitySignal
  | logs
  | metrics
  | traces
  deriving DecidableEq

/-- `ingestOtlpBatch`: the receipts, by signal and hash, and whether the batch is a duplicate. -/
def ingestOtlpBatch {η : Type*} [DecidableEq η] (localeCompare : Text → Text → Ordering)
    (sha256 : Text → η) (otlpBatches : List (ObservabilitySignal × η))
    (signal : ObservabilitySignal) (payload : Value) : List (ObservabilitySignal × η) × Bool :=
  let payloadHash := sha256 (stableJson localeCompare payload)
  if (signal, payloadHash) ∈ otlpBatches then (otlpBatches, true)
  else (otlpBatches ++ [(signal, payloadHash)], false)

/-! ## Values up to the order of keys -/

/-- A condition on the fields of every object in a value. -/
inductive Everywhere (p : List (Text × Value) → Prop) : Value → Prop
  | null : Everywhere p .null
  | bool (value : Bool) : Everywhere p (.bool value)
  | num (number : NumberText) : Everywhere p (.num number)
  | str (text : Text) : Everywhere p (.str text)
  | arr {elements : List Value} (helements : ∀ element ∈ elements, Everywhere p element) :
      Everywhere p (.arr elements)
  | obj {fields : List (Text × Value)} (hfields : p fields)
      (hvalues : ∀ field ∈ fields, Everywhere p field.2) : Everywhere p (.obj fields)

/-- No object has a key twice. -/
def WellFormed : Value → Prop := Everywhere fun fields => (fields.map Prod.fst).Nodup

/-- Equal up to the order of object keys, at every depth. -/
inductive Same : Value → Value → Prop
  | null : Same .null .null
  | bool (value : Bool) : Same (.bool value) (.bool value)
  | num (number : NumberText) : Same (.num number) (.num number)
  | str (text : Text) : Same (.str text) (.str text)
  | arr {elements others : List Value} (hlength : elements.length = others.length)
      (helements : ∀ (i : ℕ) (element other : Value), elements[i]? = some element →
        others[i]? = some other → Same element other) : Same (.arr elements) (.arr others)
  | obj {fields others : List (Text × Value)}
      (hkeys : (fields.map Prod.fst).Perm (others.map Prod.fst))
      (hvalues : ∀ (key : Text) (value other : Value), (key, value) ∈ fields →
        (key, other) ∈ others → Same value other) : Same (.obj fields) (.obj others)

section Untied

variable (localeCompare : Text → Text → Ordering)

/-- No two keys of an object that are not array indices compare equal. -/
def UntiedKeys {α : Type*} (fields : List (Text × α)) : Prop :=
  ∀ first ∈ fields, ∀ second ∈ fields, isIndex first = false → isIndex second = false →
    localeCompare first.1 second.1 = .eq → first.1 = second.1

/-- No object, at any depth, has different keys that compare equal and are not array indices. -/
def Untied : Value → Prop := Everywhere (UntiedKeys localeCompare)

/-- The serialization of a value is that of the values equal to it up to the order of keys, and of
no others. -/
structure Canonical (payload : Value) : Prop where
  same : ∀ other, WellFormed other → Same payload other →
    stableJson localeCompare other = stableJson localeCompare payload
  differs : ∀ other, WellFormed other → ¬ Same payload other →
    stableJson localeCompare other ≠ stableJson localeCompare payload
  /-- Where the hash has no collisions, a batch that follows it is a duplicate exactly when it is
  the same. -/
  receipts : ∀ {η : Type} [DecidableEq η] (sha256 : Text → η), Function.Injective sha256 →
    ∀ signal other, WellFormed other →
      ((ingestOtlpBatch localeCompare sha256
        (ingestOtlpBatch localeCompare sha256 [] signal payload).1 signal other).2 = true ↔
        Same payload other)

end Untied

/-! ## The canonical order -/

/-- The own order looks at the keys only. -/
theorem ownOrder_map {α β : Type*} (f : α → β) (fields : List (Text × α)) :
    ownOrder (fields.map (Prod.map id f)) = (ownOrder fields).map (Prod.map id f) := by
  have hindex : (isIndex ∘ Prod.map id f : Text × α → Bool) = isIndex := rfl
  have hrest : ((fun entry : Text × β => !isIndex entry) ∘ Prod.map id f) =
      fun entry : Text × α => !isIndex entry := rfl
  rw [ownOrder, ownOrder, List.map_append, List.filter_map, List.filter_map, hindex, hrest,
    List.map_insertionSort indexLe indexLe (Prod.map id f) _ fun _ _ _ _ => Iff.rfl]

section Canonical

variable (localeCompare : Text → Text → Ordering)

/-- The sort looks at the keys only. -/
theorem sortedEntries_map {α β : Type*} (f : α → β) (fields : List (Text × α)) :
    sortedEntries localeCompare (fields.map (Prod.map id f)) =
      (sortedEntries localeCompare fields).map (Prod.map id f) := by
  rw [sortedEntries, sortedEntries, ownOrder_map,
    List.map_insertionSort (localeLe localeCompare) (localeLe localeCompare) (Prod.map id f) _
      fun _ _ _ _ => Iff.rfl]

/-- `sortJson` of an object, the children after the sort. -/
theorem sortJson_obj (fields : List (Text × Value)) :
    sortJson localeCompare (.obj fields) =
      .obj ((sortedEntries localeCompare fields).map (Prod.map id (sortJson localeCompare))) := by
  rw [sortJson, reorder, reorderFields_eq_map, sortedEntries_map]
  rfl

/-- The order in which the sorted fields of an object are printed. -/
def canonicalOrder {α : Type*} (fields : List (Text × α)) : List (Text × α) :=
  ownOrder (sortedEntries localeCompare fields)

theorem canonicalOrder_map {α β : Type*} (f : α → β) (fields : List (Text × α)) :
    canonicalOrder localeCompare (fields.map (Prod.map id f)) =
      (canonicalOrder localeCompare fields).map (Prod.map id f) := by
  rw [canonicalOrder, sortedEntries_map, ownOrder_map]
  rfl

/-- A value with the fields of its objects in the order in which they are printed. -/
def canonical (value : Value) : Value := reorder (canonicalOrder localeCompare) value

theorem canonical_arr (elements : List Value) :
    canonical localeCompare (.arr elements) = .arr (elements.map (canonical localeCompare)) := by
  rw [canonical, reorder, reorderElements_eq_map]
  rfl

theorem canonical_obj (fields : List (Text × Value)) :
    canonical localeCompare (.obj fields) =
      .obj (canonicalOrder localeCompare
        (fields.map (Prod.map id (canonical localeCompare)))) := by
  rw [canonical, reorder, reorderFields_eq_map]
  rfl

theorem reorder_sortJson (value : Value) :
    reorder ownOrder (sortJson localeCompare value) = canonical localeCompare value := by
  induction value with
  | null => rfl
  | bool value => rfl
  | num number => rfl
  | str text => rfl
  | arr elements ih =>
      rw [canonical_arr, sortJson, reorder, reorder, reorderElements_eq_map,
        reorderElements_eq_map, List.map_map]
      congr 1
      exact List.map_congr_left ih
  | obj fields ih =>
      have hchildren : fields.map (Prod.map id (reorder ownOrder) ∘
          Prod.map id (reorder (sortedEntries localeCompare))) =
            fields.map (Prod.map id (canonical localeCompare)) :=
        List.map_congr_left fun field hfield => Prod.ext rfl (ih field hfield)
      rw [canonical_obj, sortJson, reorder, reorderFields_eq_map, reorder, reorderFields_eq_map,
        ← sortedEntries_map, List.map_map, hchildren]
      rfl

/-- **Serialization.** The serializations of two values agree exactly where the values do with
their fields in canonical order. -/
theorem stableJson_eq_iff {value other : Value} :
    stableJson localeCompare value = stableJson localeCompare other ↔
      canonical localeCompare value = canonical localeCompare other := by
  rw [stableJson, stableJson, stringify, stringify, reorder_sortJson, reorder_sortJson]
  exact print_injective.eq_iff

/-! ## Batches -/

/-- After a batch, one with the same signal is a duplicate exactly where the hashes agree. -/
theorem ingestOtlpBatch_duplicate {η : Type} [DecidableEq η] (sha256 : Text → η)
    (signal : ObservabilitySignal) (payload other : Value) :
    (ingestOtlpBatch localeCompare sha256
      (ingestOtlpBatch localeCompare sha256 [] signal payload).1 signal other).2 = true ↔
        sha256 (stableJson localeCompare other) = sha256 (stableJson localeCompare payload) := by
  simp only [ingestOtlpBatch, List.not_mem_nil, if_false, List.nil_append, List.mem_singleton,
    Prod.mk.injEq, true_and]
  split
  · next hsame => simp [hsame]
  · next hdiffers => simp [hdiffers]

/-! ## Permuted fields -/

theorem ownOrder_perm {α : Type*} (fields : List (Text × α)) : (ownOrder fields).Perm fields := by
  have hsorted := List.perm_insertionSort indexLe (fields.filter isIndex)
  exact (hsorted.append_right _).trans (List.filter_append_perm _ fields)

theorem canonicalOrder_perm {α : Type*} (fields : List (Text × α)) :
    (canonicalOrder localeCompare fields).Perm fields :=
  (ownOrder_perm _).trans ((List.perm_insertionSort _ _).trans (ownOrder_perm fields))

/-- An array index is one key. -/
theorem key_eq_of_arrayIndex {first second : Text} {n : ℕ} (hfirst : arrayIndex first = some n)
    (hsecond : arrayIndex second = some n) : first = second := by
  rw [arrayIndex] at hfirst hsecond
  split at hfirst
  · next hdecimal =>
      split at hsecond
      · next hdecimal' =>
          rw [← hdecimal.1, ← hdecimal'.1, Option.some.inj hfirst, Option.some.inj hsecond]
      · cases hsecond
  · cases hfirst

/-- Entries of one list with distinct keys, of one key, are one entry. -/
theorem eq_of_key {α : Type*} {fields : List (Text × α)} (hnodup : (fields.map Prod.fst).Nodup)
    {first second : Text × α} (hfirst : first ∈ fields) (hsecond : second ∈ fields)
    (hkey : first.1 = second.1) : first = second :=
  List.inj_on_of_nodup_map hnodup hfirst hsecond hkey

/-- Entries with the same distinct keys, and the same value for each, are a permutation. -/
theorem perm_of_keys {α : Type*} {fields others : List (Text × α)}
    (hnodup : (fields.map Prod.fst).Nodup) (hnodup' : (others.map Prod.fst).Nodup)
    (hkeys : (fields.map Prod.fst).Perm (others.map Prod.fst))
    (hvalues : ∀ key value other, (key, value) ∈ fields → (key, other) ∈ others →
      value = other) : fields.Perm others := by
  rw [List.perm_ext_iff_of_nodup hnodup.of_map hnodup'.of_map]
  rintro ⟨key, value⟩
  constructor
  · intro hmem
    have hkey := hkeys.mem_iff.mp (List.mem_map_of_mem (f := Prod.fst) hmem)
    obtain ⟨⟨_, other⟩, hother, rfl⟩ := List.mem_map.mp hkey
    rw [hvalues _ value other hmem hother]
    exact hother
  · intro hmem
    have hkey := hkeys.mem_iff.mpr (List.mem_map_of_mem (f := Prod.fst) hmem)
    obtain ⟨⟨_, other⟩, hother, rfl⟩ := List.mem_map.mp hkey
    rw [← hvalues _ other value hother hmem]
    exact hother

/-- The keys stay where the values change. -/
@[simp]
theorem map_fst_map {α β : Type*} (f : α → β) (fields : List (Text × α)) :
    (fields.map (Prod.map id f)).map Prod.fst = fields.map Prod.fst := by
  rw [List.map_map]
  rfl

instance indexLe_trans {α : Type*} : IsTrans (Text × α) indexLe :=
  ⟨fun _ _ _ hfirst hsecond => Nat.le_trans hfirst hsecond⟩

instance indexLe_total {α : Type*} : Std.Total (indexLe (α := α)) :=
  ⟨fun _ _ => Nat.le_total _ _⟩

/-- The array indices come in one order, whatever the order of insertion. -/
theorem indices_eq_of_perm {α : Type*} {fields others : List (Text × α)}
    (hnodup : (fields.map Prod.fst).Nodup) (hperm : fields.Perm others) :
    (fields.filter isIndex).insertionSort indexLe =
      (others.filter isIndex).insertionSort indexLe := by
  have hsorted := (List.perm_insertionSort indexLe (fields.filter isIndex)).trans
    ((hperm.filter _).trans (List.perm_insertionSort indexLe (others.filter isIndex)).symm)
  have hantisymm : ∀ first second : Text × α,
      first ∈ (fields.filter isIndex).insertionSort indexLe →
        second ∈ (others.filter isIndex).insertionSort indexLe →
          indexLe first second → indexLe second first → first = second := by
    intro first second hfirst hsecond hle hge
    have hfirst := List.mem_filter.mp ((List.mem_insertionSort _).mp hfirst)
    have hsecond := List.mem_filter.mp ((List.mem_insertionSort _).mp hsecond)
    obtain ⟨n, hn⟩ := Option.isSome_iff_exists.mp hfirst.2
    obtain ⟨m, hm⟩ := Option.isSome_iff_exists.mp hsecond.2
    rw [indexLe, hn, hm] at hle hge
    have hsame : n = m := Nat.le_antisymm hle hge
    exact eq_of_key hnodup hfirst.1 (hperm.mem_iff.mpr hsecond.1)
      (key_eq_of_arrayIndex hn (hsame ▸ hm))
  exact hsorted.eq_of_pairwise hantisymm (List.pairwise_insertionSort _ _)
    (List.pairwise_insertionSort _ _)

theorem sortedEntries_perm {α : Type*} (fields : List (Text × α)) :
    (sortedEntries localeCompare fields).Perm fields :=
  (List.perm_insertionSort _ _).trans (ownOrder_perm fields)

/-- Entries that compare equal or ascend stay in their order. -/
theorem canonicalOrder_pair {α : Type*} {fields : List (Text × α)} {first second : Text × α}
    (hpair : [first, second].Sublist fields) (hfirst : isIndex first = false)
    (hsecond : isIndex second = false) (hle : localeLe localeCompare first second) :
    [first, second].Sublist (canonicalOrder localeCompare fields) := by
  have hkept : ∀ entries : List (Text × α), [first, second].Sublist entries →
      [first, second].Sublist (ownOrder entries) := by
    intro entries hentries
    have hfiltered := hentries.filter fun entry => !isIndex entry
    simp only [List.filter_cons, hfirst, hsecond, Bool.not_false, if_true, List.filter_nil]
      at hfiltered
    exact hfiltered.trans (List.sublist_append_right _ _)
  exact hkept _ (List.pair_sublist_insertionSort hle (hkept _ hpair))

/-- Ties are between keys. -/
theorem untiedKeys_map {α β : Type*} (f : α → β) {fields : List (Text × α)}
    (huntied : UntiedKeys localeCompare fields) :
    UntiedKeys localeCompare (fields.map (Prod.map id f)) := by
  intro first hfirst second hsecond hindex hindex' hequal
  obtain ⟨left, hleft, rfl⟩ := List.mem_map.mp hfirst
  obtain ⟨right, hright, rfl⟩ := List.mem_map.mp hsecond
  exact huntied left hleft right hright hindex hindex' hequal

/-! ## Sameness -/

/-- A value with distinct keys is the same as itself. -/
theorem Same.refl {value : Value} (hvalue : WellFormed value) : Same value value := by
  induction value with
  | null => exact .null
  | bool value => exact .bool value
  | num number => exact .num number
  | str text => exact .str text
  | arr elements ih =>
      obtain ⟨⟩ | ⟨⟩ | ⟨⟩ | ⟨⟩ | ⟨helements⟩ | ⟨⟩ := hvalue
      refine .arr rfl fun i element other hat hother => ?_
      obtain rfl := Option.some.inj (hat.symm.trans hother)
      have hmem := List.mem_of_getElem? hat
      exact ih element hmem (helements element hmem)
  | obj fields ih =>
      obtain ⟨⟩ | ⟨⟩ | ⟨⟩ | ⟨⟩ | ⟨⟩ | ⟨hnodup, hvalues⟩ := hvalue
      refine .obj (List.Perm.refl _) fun key value other hat hother => ?_
      obtain ⟨_, rfl⟩ := Prod.mk.inj (eq_of_key hnodup hat hother rfl)
      exact ih _ hat (hvalues _ hat)

/-- Values with one canonical form are the same. -/
theorem same_of_canonical_eq {value other : Value} (hvalue : WellFormed value)
    (hother : WellFormed other)
    (heq : canonical localeCompare value = canonical localeCompare other) : Same value other := by
  induction value generalizing other with
  | null =>
      cases other <;> first | exact .null | cases heq
  | bool value =>
      cases other <;> first | cases heq; exact .bool _ | cases heq
  | num number =>
      cases other <;> first | cases heq; exact .num _ | cases heq
  | str text =>
      cases other <;> first | cases heq; exact .str _ | cases heq
  | arr elements ih =>
      obtain ⟨others, rfl⟩ : ∃ others, other = .arr others := by
        cases other <;> first | exact ⟨_, rfl⟩ | cases heq
      obtain ⟨⟩ | ⟨⟩ | ⟨⟩ | ⟨⟩ | ⟨helements⟩ | ⟨⟩ := hvalue
      obtain ⟨⟩ | ⟨⟩ | ⟨⟩ | ⟨⟩ | ⟨hothers⟩ | ⟨⟩ := hother
      rw [canonical_arr, canonical_arr] at heq
      have hmaps := Value.arr.inj heq
      refine .arr (by simpa using congrArg List.length hmaps) fun i element other hat hat' => ?_
      have hi := congrArg (fun list => list[i]?) hmaps
      simp only [List.getElem?_map, hat, hat', Option.map_some, Option.some.injEq] at hi
      have hmem := List.mem_of_getElem? hat
      exact ih element hmem (helements element hmem) (hothers other (List.mem_of_getElem? hat')) hi
  | obj fields ih =>
      obtain ⟨others, rfl⟩ : ∃ others, other = .obj others := by
        cases other <;> first | exact ⟨_, rfl⟩ | cases heq
      obtain ⟨⟩ | ⟨⟩ | ⟨⟩ | ⟨⟩ | ⟨⟩ | ⟨_, hvalues⟩ := hvalue
      obtain ⟨⟩ | ⟨⟩ | ⟨⟩ | ⟨⟩ | ⟨⟩ | ⟨hnodup, hothers⟩ := hother
      rw [canonical_obj, canonical_obj] at heq
      have hperm := (canonicalOrder_perm localeCompare _).symm.trans
        ((List.Perm.of_eq (Value.obj.inj heq)).trans (canonicalOrder_perm localeCompare _))
      refine .obj (by simpa [Function.comp_def] using hperm.map Prod.fst) ?_
      intro key value other hat hat'
      have hmem := hperm.mem_iff.mp (List.mem_map_of_mem (f := Prod.map id _) hat)
      obtain ⟨⟨key', other'⟩, hother', hsame⟩ := List.mem_map.mp hmem
      obtain ⟨rfl, hcanonical⟩ := Prod.mk.inj hsame
      obtain ⟨_, rfl⟩ := Prod.mk.inj (eq_of_key hnodup hat' hother' rfl)
      exact ih _ hat (hvalues _ hat) (hothers _ hat') hcanonical.symm

/-- Two entries of a list come in one order or in the other. -/
theorem pair_sublist {α : Type*} {entries : List α} {first second : α} (hne : first ≠ second)
    (hfirst : first ∈ entries) (hsecond : second ∈ entries) :
    [first, second].Sublist entries ∨ [second, first].Sublist entries := by
  induction entries with
  | nil => cases hfirst
  | cons entry rest ih =>
      rcases List.mem_cons.mp hfirst with hhead | hfirstRest
      · rcases List.mem_cons.mp hsecond with hhead' | hsecondRest
        · exact absurd (hhead.trans hhead'.symm) hne
        · rw [hhead]
          exact Or.inl (List.Sublist.cons_cons entry (List.singleton_sublist.mpr hsecondRest))
      · rcases List.mem_cons.mp hsecond with hhead' | hsecondRest
        · rw [hhead']
          exact Or.inr (List.Sublist.cons_cons entry (List.singleton_sublist.mpr hfirstRest))
        · exact (ih hfirstRest hsecondRest).imp (List.Sublist.cons _) (List.Sublist.cons _)

/-- Entries of a list without repetition come in one order only. -/
theorem not_pair_sublist {α : Type*} {entries : List α} {first second : α}
    (hnodup : entries.Nodup) (hpair : [first, second].Sublist entries) :
    ¬ [second, first].Sublist entries := by
  intro hswapped
  induction entries with
  | nil => cases hpair
  | cons entry rest ih =>
      obtain ⟨hfresh, hrest⟩ := List.nodup_cons.mp hnodup
      cases hpair with
      | cons _ hpair =>
          cases hswapped with
          | cons _ hswapped => exact ih hrest hpair hswapped
          | cons_cons _ hswapped =>
              exact hfresh (hpair.subset (by simp))
      | cons_cons _ hpair =>
          cases hswapped with
          | cons _ hswapped => exact hfresh (hswapped.subset (by simp))
          | cons_cons _ hswapped => exact hfresh (hpair.subset (by simp))

/-- Keys that tie are printed in the order in which they were inserted. -/
theorem canonicalOrder_reverse_ne_of_pair {α : Type*} {fields : List (Text × α)}
    {first second : Text × α} (hnodup : fields.Nodup) (hpair : [first, second].Sublist fields)
    (hfirst : isIndex first = false) (hsecond : isIndex second = false)
    (hle : localeLe localeCompare first second) (hge : localeLe localeCompare second first) :
    canonicalOrder localeCompare fields.reverse ≠ canonicalOrder localeCompare fields := by
  intro heq
  have hswapped : [second, first].Sublist fields.reverse := hpair.reverse
  have hforth := canonicalOrder_pair localeCompare hpair hfirst hsecond hle
  have hback := canonicalOrder_pair localeCompare hswapped hsecond hfirst hge
  rw [heq] at hback
  exact not_pair_sublist ((canonicalOrder_perm localeCompare fields).nodup_iff.mpr hnodup) hforth
    hback

variable [Std.TransCmp localeCompare]

theorem canonicalOrder_reverse_ne {α : Type*} {fields : List (Text × α)} {first second : Text × α}
    (hnodup : (fields.map Prod.fst).Nodup) (hfirst : first ∈ fields) (hsecond : second ∈ fields)
    (hkey : first.1 ≠ second.1) (hindex : isIndex first = false) (hindex' : isIndex second = false)
    (hequal : localeCompare first.1 second.1 = .eq) :
    canonicalOrder localeCompare fields.reverse ≠ canonicalOrder localeCompare fields := by
  have hle : localeLe localeCompare first second := Ordering.isLE_of_eq_eq hequal
  have hge : localeLe localeCompare second first :=
    Ordering.isLE_of_eq_eq (Std.OrientedCmp.eq_symm hequal)
  rcases pair_sublist (fun hsame => hkey (congrArg Prod.fst hsame)) hfirst hsecond with
    hpair | hpair
  · exact canonicalOrder_reverse_ne_of_pair localeCompare hnodup.of_map hpair hindex hindex' hle hge
  · exact canonicalOrder_reverse_ne_of_pair localeCompare hnodup.of_map hpair hindex' hindex hge hle

instance localeLe_trans {α : Type*} : IsTrans (Text × α) (localeLe localeCompare) :=
  ⟨fun _ _ _ hfirst hsecond => Std.TransCmp.isLE_trans hfirst hsecond⟩

instance localeLe_total {α : Type*} : Std.Total (localeLe (α := α) localeCompare) := by
  constructor
  intro first second
  have hswap : localeCompare second.1 first.1 = (localeCompare first.1 second.1).swap :=
    Std.OrientedCmp.eq_swap
  rw [localeLe, localeLe, hswap]
  cases localeCompare first.1 second.1 <;> simp

theorem pairwise_sortedEntries {α : Type*} (fields : List (Text × α)) :
    (sortedEntries localeCompare fields).Pairwise (localeLe localeCompare) :=
  List.pairwise_insertionSort _ _

/-- Fields without ties have one canonical order, whatever the order of insertion. -/
theorem canonicalOrder_eq_of_perm {α : Type*} {fields others : List (Text × α)}
    (huntied : UntiedKeys localeCompare fields) (hnodup : (fields.map Prod.fst).Nodup)
    (hperm : fields.Perm others) :
    canonicalOrder localeCompare fields = canonicalOrder localeCompare others := by
  have hfields := sortedEntries_perm localeCompare fields
  have hothers := sortedEntries_perm localeCompare others
  have hsorted := hfields.trans (hperm.trans hothers.symm)
  rw [canonicalOrder, canonicalOrder, ownOrder, ownOrder]
  congr 1
  · exact indices_eq_of_perm ((hfields.map Prod.fst).nodup_iff.mpr hnodup) hsorted
  · have hantisymm : ∀ first second : Text × α,
        first ∈ (sortedEntries localeCompare fields).filter (fun entry => !isIndex entry) →
          second ∈ (sortedEntries localeCompare others).filter (fun entry => !isIndex entry) →
            localeLe localeCompare first second → localeLe localeCompare second first →
              first = second := by
      intro first second hfirst hsecond hle hge
      have hfirst := List.mem_filter.mp hfirst
      have hsecond := List.mem_filter.mp hsecond
      have hfirstMem := hfields.mem_iff.mp hfirst.1
      have hsecondMem := hperm.mem_iff.mpr (hothers.mem_iff.mp hsecond.1)
      have hequal : localeCompare first.1 second.1 = .eq :=
        Std.OrientedCmp.isLE_antisymm hle hge
      exact eq_of_key hnodup hfirstMem hsecondMem
        (huntied first hfirstMem second hsecondMem (by simpa using hfirst.2)
          (by simpa using hsecond.2) hequal)
    exact (hsorted.filter _).eq_of_pairwise hantisymm
      ((pairwise_sortedEntries localeCompare fields).filter _)
      ((pairwise_sortedEntries localeCompare others).filter _)

/-- Without ties, values that are the same have one canonical form. -/
theorem canonical_eq_of_same {value other : Value} (hvalue : WellFormed value)
    (hother : WellFormed other) (huntied : Untied localeCompare value)
    (hsame : Same value other) :
    canonical localeCompare value = canonical localeCompare other := by
  induction value generalizing other with
  | null => cases hsame; rfl
  | bool value => cases hsame; rfl
  | num number => cases hsame; rfl
  | str text => cases hsame; rfl
  | arr elements ih =>
      obtain ⟨⟩ | ⟨⟩ | ⟨⟩ | ⟨⟩ | ⟨hlength, helements⟩ | ⟨⟩ := hsame
      obtain ⟨⟩ | ⟨⟩ | ⟨⟩ | ⟨⟩ | ⟨hwell⟩ | ⟨⟩ := hvalue
      obtain ⟨⟩ | ⟨⟩ | ⟨⟩ | ⟨⟩ | ⟨hothers⟩ | ⟨⟩ := hother
      obtain ⟨⟩ | ⟨⟩ | ⟨⟩ | ⟨⟩ | ⟨hties⟩ | ⟨⟩ := huntied
      rw [canonical_arr, canonical_arr]
      congr 1
      apply List.ext_getElem (by simpa using hlength)
      intro i hi hi'
      rw [List.length_map] at hi hi'
      rw [List.getElem_map, List.getElem_map]
      exact ih _ (List.getElem_mem hi) (hwell _ (List.getElem_mem hi))
        (hothers _ (List.getElem_mem hi')) (hties _ (List.getElem_mem hi))
        (helements i _ _ (List.getElem?_eq_getElem hi) (List.getElem?_eq_getElem hi'))
  | obj fields ih =>
      obtain ⟨⟩ | ⟨⟩ | ⟨⟩ | ⟨⟩ | ⟨⟩ | ⟨hkeys, hvalues⟩ := hsame
      obtain ⟨⟩ | ⟨⟩ | ⟨⟩ | ⟨⟩ | ⟨⟩ | ⟨hnodup, hwell⟩ := hvalue
      obtain ⟨⟩ | ⟨⟩ | ⟨⟩ | ⟨⟩ | ⟨⟩ | ⟨hnodup', hothers⟩ := hother
      obtain ⟨⟩ | ⟨⟩ | ⟨⟩ | ⟨⟩ | ⟨⟩ | ⟨hties, huntied⟩ := huntied
      rw [canonical_obj, canonical_obj]
      congr 1
      apply canonicalOrder_eq_of_perm localeCompare (untiedKeys_map localeCompare _ hties)
      · rw [map_fst_map]
        exact hnodup
      · apply perm_of_keys (by rwa [map_fst_map]) (by rwa [map_fst_map])
          (by rwa [map_fst_map, map_fst_map])
        intro key value other hat hat'
        obtain ⟨⟨_, first⟩, hfirst, hpair⟩ := List.mem_map.mp hat
        obtain ⟨⟨_, second⟩, hsecond, hpair'⟩ := List.mem_map.mp hat'
        obtain ⟨rfl, rfl⟩ := Prod.mk.inj hpair
        obtain ⟨hkey, rfl⟩ := Prod.mk.inj hpair'
        cases hkey
        exact ih _ hfirst (hwell _ hfirst) (hothers _ hsecond) (huntied _ hfirst)
          (hvalues _ _ _ hfirst hsecond)

/-- Where keys tie somewhere in a value, another value that is the same has another canonical
form. -/
theorem exists_same_of_tied {value : Value} (hvalue : WellFormed value)
    (htied : ¬ Untied localeCompare value) :
    ∃ other, WellFormed other ∧ Same value other ∧
      canonical localeCompare other ≠ canonical localeCompare value := by
  induction value with
  | null => exact absurd .null htied
  | bool value => exact absurd (.bool value) htied
  | num number => exact absurd (.num number) htied
  | str text => exact absurd (.str text) htied
  | arr elements ih =>
      obtain ⟨⟩ | ⟨⟩ | ⟨⟩ | ⟨⟩ | ⟨hwell⟩ | ⟨⟩ := hvalue
      have hsome : ∃ element ∈ elements, ¬ Untied localeCompare element := by
        by_contra hnone
        push Not at hnone
        exact htied (.arr hnone)
      obtain ⟨element, hmem, helement⟩ := hsome
      obtain ⟨other, hother, hsame, hdiffers⟩ := ih element hmem (hwell element hmem) helement
      obtain ⟨i, hi⟩ := List.mem_iff_getElem?.mp hmem
      refine ⟨.arr (elements.set i other), ?_, ?_, ?_⟩
      · refine .arr fun later hlater => ?_
        rcases List.mem_or_eq_of_mem_set hlater with hlater | rfl
        · exact hwell later hlater
        · exact hother
      · refine .arr (by rw [List.length_set]) fun j first second hfirst hsecond => ?_
        rw [List.getElem?_set] at hsecond
        split at hsecond
        · next hij =>
            subst hij
            obtain rfl := Option.some.inj (hi.symm.trans hfirst)
            split at hsecond
            · cases hsecond
              exact hsame
            · cases hsecond
        · obtain rfl := Option.some.inj (hfirst.symm.trans hsecond)
          exact Same.refl (hwell _ (List.mem_of_getElem? hfirst))
      · rw [canonical_arr, canonical_arr]
        intro heq
        have hat := congrArg (fun list => list[i]?) (Value.arr.inj heq)
        have hlt := (List.getElem?_eq_some_iff.mp hi).1
        simp only [List.getElem?_map, List.getElem?_set_self hlt, hi, Option.map_some,
          Option.some.injEq] at hat
        exact hdiffers hat
  | obj fields ih =>
      obtain ⟨⟩ | ⟨⟩ | ⟨⟩ | ⟨⟩ | ⟨⟩ | ⟨hnodup, hwell⟩ := hvalue
      by_cases hsome : ∃ field ∈ fields, ¬ Untied localeCompare field.2
      · obtain ⟨⟨key, value⟩, hmem, hvalue⟩ := hsome
        obtain ⟨other, hother, hsame, hdiffers⟩ := ih _ hmem (hwell _ hmem) hvalue
        obtain ⟨i, hi⟩ := List.mem_iff_getElem?.mp hmem
        have hlt := (List.getElem?_eq_some_iff.mp hi).1
        have hkeys : (fields.set i (key, other)).map Prod.fst = fields.map Prod.fst := by
          apply List.ext_getElem?
          intro j
          rw [List.map_set, List.getElem?_set]
          split
          · next hij =>
              subst hij
              rw [if_pos (by simpa using hlt), List.getElem?_map, hi]
              rfl
          · rfl
        refine ⟨.obj (fields.set i (key, other)), ?_, ?_, ?_⟩
        · refine .obj (by rwa [hkeys]) fun later hlater => ?_
          rcases List.mem_or_eq_of_mem_set hlater with hlater | rfl
          · exact hwell later hlater
          · exact hother
        · refine .obj (by rw [hkeys]) fun key' first second hfirst hsecond => ?_
          rcases List.mem_or_eq_of_mem_set hsecond with hsecond | hnew
          · obtain ⟨_, rfl⟩ := Prod.mk.inj (eq_of_key hnodup hfirst hsecond rfl)
            exact Same.refl (hwell _ hfirst)
          · obtain ⟨rfl, rfl⟩ := Prod.mk.inj hnew
            obtain ⟨_, rfl⟩ := Prod.mk.inj (eq_of_key hnodup hfirst hmem rfl)
            exact hsame
        · rw [canonical_obj, canonical_obj]
          intro heq
          have hperm := (canonicalOrder_perm localeCompare _).symm.trans
            ((List.Perm.of_eq (Value.obj.inj heq)).trans (canonicalOrder_perm localeCompare _))
          have hnew : (key, other) ∈ fields.set i (key, other) := List.mem_set hlt _
          have hold := hperm.mem_iff.mp (List.mem_map_of_mem (f := Prod.map id _) hnew)
          obtain ⟨⟨key', value'⟩, hvalue', hpair⟩ := List.mem_map.mp hold
          obtain ⟨rfl, hcanonical⟩ := Prod.mk.inj hpair
          obtain ⟨_, rfl⟩ := Prod.mk.inj (eq_of_key hnodup hmem hvalue' rfl)
          exact hdiffers hcanonical.symm
      · push Not at hsome
        have hties : ¬ UntiedKeys localeCompare fields := fun hkeys => htied (.obj hkeys hsome)
        rw [UntiedKeys] at hties
        push Not at hties
        obtain ⟨first, hfirst, second, hsecond, hindex, hindex', hequal, hkey⟩ := hties
        refine ⟨.obj fields.reverse, ?_, ?_, ?_⟩
        · refine .obj ?_ fun field hfield => hwell field (List.mem_reverse.mp hfield)
          rw [List.map_reverse]
          exact List.nodup_reverse.mpr hnodup
        · refine .obj ((List.reverse_perm fields).symm.map _) fun key value other hat hat' => ?_
          obtain ⟨_, rfl⟩ := Prod.mk.inj (eq_of_key hnodup hat (List.mem_reverse.mp hat') rfl)
          exact Same.refl (hwell _ hat)
        · rw [canonical_obj, canonical_obj, List.map_reverse]
          intro heq
          have hkeys : ((fields.map (Prod.map id (canonical localeCompare))).map
              Prod.fst).Nodup := by rwa [map_fst_map]
          exact canonicalOrder_reverse_ne localeCompare hkeys (List.mem_map_of_mem hfirst)
            (List.mem_map_of_mem hsecond) hkey hindex hindex' hequal (Value.obj.inj heq)

/-- **Canonical hashing.** The serialization of a value ignores the order of keys, and nothing
else, exactly where no object in it has different keys that compare equal. -/
theorem canonical_iff (payload : Value) (hpayload : WellFormed payload) :
    Canonical localeCompare payload ↔ Untied localeCompare payload := by
  constructor
  · intro hcanonical
    by_contra htied
    obtain ⟨other, hother, hsame, hdiffers⟩ :=
      exists_same_of_tied localeCompare hpayload htied
    exact hdiffers ((stableJson_eq_iff localeCompare).mp (hcanonical.same other hother hsame))
  · intro huntied
    have hiff : ∀ other, WellFormed other →
        (stableJson localeCompare other = stableJson localeCompare payload ↔
          Same payload other) := by
      intro other hother
      rw [stableJson_eq_iff]
      constructor
      · exact fun heq => same_of_canonical_eq localeCompare hpayload hother heq.symm
      · exact fun hsame => (canonical_eq_of_same localeCompare hpayload hother huntied hsame).symm
    exact {
      same := fun other hother hsame => (hiff other hother).mpr hsame
      differs := fun other hother hnot heq => hnot ((hiff other hother).mp heq)
      receipts := fun sha256 hinjective signal other hother => by
        rw [ingestOtlpBatch_duplicate, hinjective.eq_iff]
        exact hiff other hother }

end Canonical

/-- The canonical decomposition of an e with an acute accent. -/
def decompose (text : Text) : Text := text.flatMap fun u => if u = 0xE9 then [0x65, 0x301] else [u]

/-- A collation for which canonically equivalent strings are equal. -/
def sampleCompare : Text → Text → Ordering := compareOn decompose

instance sampleCompare_trans : Std.TransCmp sampleCompare :=
  inferInstanceAs (Std.TransCmp (compareOn decompose))

/-- A number of one digit. -/
def digit (u : UInt16) (hu : isNumberUnit u = true) : NumberText where
  text := [u]
  nonempty := List.cons_ne_nil u []
  number v hv := by
    rw [List.mem_singleton.mp hv]
    exact hu

/-- The numbers 1 and 2. -/
def one : Value := .num (digit 49 rfl)

def two : Value := .num (digit 50 rfl)

/-- An object with two keys. -/
def samplePayload (first second : Text) : Value := .obj [(first, one), (second, two)]

theorem samplePayload_wellFormed {first second : Text} (hne : first ≠ second) :
    WellFormed (samplePayload first second) := by
  refine .obj (by simpa using hne) fun field hfield => ?_
  obtain rfl | rfl : field = (first, one) ∨ field = (second, two) := by simpa using hfield
  · exact .num _
  · exact .num _

theorem canonical_iff_samplePayload :
    WellFormed (samplePayload (units ['b']) (units ['a'])) ∧
      (Canonical sampleCompare (samplePayload (units ['b']) (units ['a'])) ↔
        Untied sampleCompare (samplePayload (units ['b']) (units ['a']))) := by
  have hwell : WellFormed (samplePayload (units ['b']) (units ['a'])) :=
    samplePayload_wellFormed (by decide)
  exact ⟨hwell, canonical_iff sampleCompare _ hwell⟩

/-- Keys that are canonically equivalent are serialized as they were inserted. -/
theorem equivalent_keys_keep_order :
    ¬ ∀ payload, WellFormed payload → Canonical sampleCompare payload := by
  intro hall
  have hne : ([0xE9] : Text) ≠ [0x65, 0x301] := by decide
  have hsame : Same (samplePayload [0xE9] [0x65, 0x301])
      (.obj [([0x65, 0x301], two), ([0xE9], one)]) := by
    refine .obj (List.Perm.swap _ _ _) fun key value other hat hother => ?_
    simp only [List.mem_cons, List.not_mem_nil, or_false, Prod.mk.injEq] at hat hother
    rcases hat with ⟨rfl, rfl⟩ | ⟨rfl, rfl⟩ <;> rcases hother with ⟨hkey, rfl⟩ | ⟨hkey, rfl⟩ <;>
      first | exact .num _ | exact absurd hkey (by decide)
  have hother : WellFormed (.obj [([0x65, 0x301], two), ([0xE9], one)]) := by
    refine .obj (by decide) fun field hfield => ?_
    obtain rfl | rfl : field = ([0x65, 0x301], two) ∨ field = ([0xE9], one) := by
      simpa using hfield
    · exact .num _
    · exact .num _
  have hstable := (hall _ (samplePayload_wellFormed hne)).same _ hother hsame
  exact absurd hstable (by decide +kernel)

end Eveland.BatchHash
