import Ddsnap.TreeInsertion

/-!
# Splitting a full leaf

A leaf is split between its map entries, while its space is taken by exceptions, of which an entry can have one for every
snapshot.  So a split makes room as soon as there are two entries; a leaf that is full with the exceptions of one chunk
cannot be split.
-/

namespace Ddsnap

variable {D : Type} {size c e : Nat} {leaf : Eleaf} {snapshot : Option Nat} {active : Mask}

/-! ### Leaves that can come up -/

/-- The leaves of a given size that the leaf functions make, with the test that `delete_tree_range` makes before a
merge. -/
inductive LeafReached (size : Nat) : Eleaf → Prop where
  | init : LeafReached size (initLeaf size)
  | add {leaf leaf' : Eleaf} {chunk exception : Nat} {snapshot : Option Nat} {active : Mask} : LeafReached size leaf →
      addExceptionToLeaf leaf chunk exception snapshot active = some leaf' → LeafReached size leaf'
  | lower {leaf : Eleaf} : LeafReached size leaf → LeafReached size (splitLeaf leaf).2.1
  | upper {leaf : Eleaf} : LeafReached size leaf → LeafReached size (splitLeaf leaf).2.2
  | merge {leaf leaf2 : Eleaf} : LeafReached size leaf → LeafReached size leaf2 →
      (∀ m ∈ leaf.map, ∀ m2 ∈ leaf2.map, m.rchunk < m2.rchunk) → leafPayload leaf2 ≤ leafFreespace leaf →
      LeafReached size (mergeLeaves leaf leaf2)
  | purge {leaf : Eleaf} (snapmask : Mask) : LeafReached size leaf → LeafReached size (purgeLeaf snapmask leaf)

private theorem addException_ne_nil (exns : List Exception) (e : Nat) (snapshot : Option Nat) (active : Mask) :
    addException exns e snapshot active ≠ [] := fun h => by
  have := congrArg List.length h
  rw [addException_length] at this
  cases this

/-- A leaf stays in order whatever the chunk is. -/
private theorem LeafOk.add {leaf' : Eleaf} (h : LeafOk size leaf)
    (ha : addExceptionToLeaf leaf c e snapshot active = some leaf') : LeafOk size leaf' := by
  have hroom : ¬ leafFreespace leaf < bytesNeeded leaf.map (Ddsnap.target32 leaf c) := fun hlt => by
    rw [addExceptionToLeaf, if_pos hlt] at ha
    cases ha
  have hsize := addEntry_size leaf.map (Ddsnap.target32 leaf c) e snapshot active
  have hfree := h.freespace
  rw [addExceptionToLeaf, if_neg hroom] at ha
  cases ha
  refine ⟨h.base, h.sentinel, ?_, h.ascending.addEntry, fun m hm => ?_, fun m hm he => ?_⟩
  · unfold leafPayload at hfree ⊢
    dsimp only
    omega
  · rcases addEntry_rchunk hm with h1 | ⟨m', hm', h1⟩
    · rw [h1]
      exact Nat.mod_lt _ (by decide)
    · rw [← h1]
      exact h.small m' hm'
  · have hasc : Ascending (addEntry leaf.map (Ddsnap.target32 leaf c) e snapshot active) := h.ascending.addEntry
    have hat := exnsAt_mem hasc hm
    rw [exnsAt_addEntry h.ascending, he] at hat
    split at hat
    · exact addException_ne_nil _ _ _ _ hat
    · rename_i hne
      rcases addEntry_rchunk hm with h1 | ⟨m', hm', h1⟩
      · exact hne h1
      · rw [← h1, exnsAt_mem h.ascending hm'] at hat
        exact h.nonempty m' hm' hat

private theorem exceptionCount_purge_le (M : Mask) (map : List EtreeMap) :
    (purgeMap M map).length ≤ map.length ∧ exceptionCount (purgeMap M map) ≤ exceptionCount map := by
  induction map with
  | nil => exact ⟨Nat.le_refl _, Nat.le_refl _⟩
  | cons m map ih =>
    have hcons : purgeMap M (m :: map) = purgeMap M [m] ++ purgeMap M map := purgeMap_append [m] map
    have hlen : (unshare M m.exceptions).length ≤ m.exceptions.length := by
      unfold unshare
      refine Nat.le_trans (List.length_filter_le _ _) ?_
      rw [List.length_map]
    rw [hcons, List.length_append, exceptionCount_append, exceptionCount_cons, List.length_cons]
    by_cases hu : unshare M m.exceptions = []
    · have h0 : purgeMap M [m] = [] := by simp [purgeMap, hu]
      rw [h0]
      simp only [List.length_nil, exceptionCount, List.map_nil, List.sum_nil]
      unfold exceptionCount at ih
      omega
    · have h1 : purgeMap M [m] = [{ m with exceptions := unshare M m.exceptions }] := by simp [purgeMap, hu]
      rw [h1, exceptionCount_cons]
      simp only [List.length_singleton, exceptionCount, List.map_nil, List.sum_nil]
      unfold exceptionCount at ih
      omega

private theorem LeafReached.ok (h : LeafReached size leaf) (hsize : 32 ≤ size) : LeafOk size leaf := by
  induction h with
  | init => exact leafOk_init hsize
  | add _ ha ih => exact ih.add ha
  | @lower leaf _ ih =>
    refine ih.sublist rfl rfl (List.take_sublist _ _) ?_
    have := exceptionCount_append (leaf.map.take ((leaf.map.length + 1) / 2)) (leaf.map.drop ((leaf.map.length + 1) / 2))
    rw [List.take_append_drop] at this
    unfold leafPayload
    simp only [splitLeaf, List.length_take]
    omega
  | @upper leaf _ ih =>
    refine ih.sublist rfl rfl (List.drop_sublist _ _) ?_
    have := exceptionCount_append (leaf.map.take ((leaf.map.length + 1) / 2)) (leaf.map.drop ((leaf.map.length + 1) / 2))
    rw [List.take_append_drop] at this
    unfold leafPayload
    simp only [splitLeaf, List.length_drop]
    omega
  | @merge leaf leaf2 _ _ hlt hfits ih1 ih2 =>
    have hfree := ih1.freespace
    refine ⟨ih1.base, ih2.sentinel, ?_, List.pairwise_append.2 ⟨ih1.ascending, ih2.ascending, hlt⟩, fun m hm => ?_,
      fun m hm => ?_⟩
    · unfold leafPayload at hfits hfree ⊢
      simp only [mergeLeaves, List.length_append, exceptionCount_append]
      omega
    · rcases List.mem_append.1 hm with hm | hm
      · exact ih1.small m hm
      · exact ih2.small m hm
    · rcases List.mem_append.1 hm with hm | hm
      · exact ih1.nonempty m hm
      · exact ih2.nonempty m hm
  | @purge leaf M _ ih =>
    have hle := exceptionCount_purge_le M leaf.map
    have hfits := ih.fits
    refine ⟨ih.base, ih.sentinel, ?_, ih.ascending.purgeMap M, fun m hm => ?_, fun m hm => ?_⟩
    · unfold leafPayload at hfits ⊢
      simp only [purgeLeaf]
      omega
    · obtain ⟨m', hm', he, -⟩ := mem_purgeMap hm
      rw [← he]
      exact ih.small m' hm'
    · obtain ⟨-, -, -, -, hne⟩ := mem_purgeMap hm
      exact hne

/-! ### Splits -/

end Ddsnap
