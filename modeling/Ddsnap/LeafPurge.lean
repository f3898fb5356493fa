import Ddsnap.LeafInsertion
import Ddsnap.Store
import Mathlib.Data.List.Induction

/-!
# Deletion from the bytes of a leaf

`_delete_snapshots_from_leaf` scans the exceptions down from the end of the block and moves those that stay up against it,
over exceptions that it has read before; then it moves the map entries that stay down over those that it has read.  What
the scan has not reached is as it was, and what it has left behind is in place.
-/

namespace Ddsnap

/-- A leaf without empty map entries and without exceptions that nobody shares. -/
def Eleaf.Live (leaf : Eleaf) : Prop := ∀ m ∈ leaf.map, m.exceptions ≠ [] ∧ ∀ p ∈ m.exceptions, p.share ≠ 0

private theorem unshare_of_disjoint {mask : Mask} {exns : List Exception} (h : ∀ p ∈ exns, p.share &&& mask = 0)
    (hne : ∀ p ∈ exns, p.share ≠ 0) : unshare mask exns = exns := by
  have hkeep : ∀ p ∈ exns, p.share &&& ~~~mask = p.share := by
    intro p hp
    have hp := h p hp
    ext i hi
    have := congrArg (fun v : Mask => v[i]) hp
    simp only [BitVec.getElem_and, BitVec.getElem_not] at this ⊢
    cases h1 : p.share[i] <;> simp_all
  have hmap : (exns.map fun p => { p with share := p.share &&& ~~~mask }) = exns := by
    conv_rhs => rw [← List.map_id exns]
    exact List.map_congr_left fun p hp => by rw [hkeep p hp]; rfl
  unfold unshare
  rw [hmap]
  exact List.filter_eq_self.2 fun p hp => by simpa using hne p hp

private theorem Eleaf.Live.purge {mask : Mask} {leaf : Eleaf} (hl : leaf.Live) (h : anyShared mask leaf = false) :
    purgeLeaf mask leaf = leaf := by
  have hsame : ∀ m ∈ leaf.map, unshare mask m.exceptions = m.exceptions := by
    intro m hm
    refine unshare_of_disjoint (fun p hp => ?_) (hl m hm).2
    simp only [anyShared, List.any_eq_false, List.any_eq_true, not_exists, not_and, decide_eq_true_eq] at h
    simpa using h m hm p hp
  have hmap : (leaf.map.map fun m => { m with exceptions := unshare mask m.exceptions }) = leaf.map := by
    conv_rhs => rw [← List.map_id leaf.map]
    exact List.map_congr_left fun m hm => by rw [hsame m hm]; rfl
  unfold purgeLeaf purgeMap
  rw [hmap, List.filter_eq_self.2 fun m hm => by simpa using (hl m hm).1]

end Ddsnap

namespace Ddsnap.LeafBytes

open ByteMemory

variable {m m0 m' : Mem} {i j k n d p p0 q y size : Nat} {map pre post : List EtreeMap} {exns : List Exception}
  {M : Mask} {s : Purge} {leaf : Eleaf}

/-! ### One exception -/

private theorem mask_or_eq_zero (a b : Mask) : a ||| b = 0 ↔ a = 0 ∧ b = 0 := BitVec.or_eq_zero_iff

private theorem unshare_singleton (M : Mask) (e : Exception) :
    unshare M [e] = if e.share &&& ~~~M = 0 then [] else [{ e with share := e.share &&& ~~~M }] := by
  unfold unshare
  rw [List.map_singleton, List.filter_singleton]
  by_cases h : e.share &&& ~~~M = 0
  · rw [if_pos h, decide_eq_false (by simpa using h)]
    rfl
  · rw [if_neg h, decide_eq_true h]
    rfl

private theorem unshare_length_le (M : Mask) (exns : List Exception) : (unshare M exns).length ≤ exns.length := by
  refine Nat.le_trans (List.length_filter_le _ _) ?_
  rw [List.length_map]

private theorem unshare_append (M : Mask) (exns exns' : List Exception) :
    unshare M (exns ++ exns') = unshare M exns ++ unshare M exns' := by simp [unshare]

/-- The chunks of the exceptions that no snapshot shares any more, in the order of the scan. -/
def removedChunks (M : Mask) (exns : List Exception) : List Nat :=
  (exns.reverse.filter fun e => e.share &&& ~~~M = 0).map Exception.chunk

private theorem removedChunks_append_singleton (M : Mask) (exns : List Exception) (e : Exception) :
    removedChunks M (exns ++ [e]) =
      if e.share &&& ~~~M = 0 then e.chunk :: removedChunks M exns else removedChunks M exns := by
  unfold removedChunks
  rw [List.reverse_append, List.reverse_singleton, List.singleton_append, List.filter_cons]
  by_cases h : e.share &&& ~~~M = 0
  · rw [if_pos h, if_pos (decide_eq_true h), List.map_cons]
  · rw [if_neg h, if_neg (by simpa using h)]

private theorem Purge.step_outside (hy : y < s.p - 16 ∨ s.dest ≤ y) (h16 : 16 ≤ s.p) (hd : s.p ≤ s.dest) :
    (s.step M).leaf y = s.leaf y := by
  unfold Purge.step
  dsimp only
  split
  · exact (copy_of_outside (by omega)).trans (write_of_outside (by omega))
  · exact write_of_outside (by omega)

private theorem Purge.step_kept (hkept : share s.leaf (s.p - 16) &&& ~~~M ≠ 0) :
    (s.step M).dest = s.dest - 16 ∧ (s.step M).freed = s.freed ∧ exceptionAt (s.step M).leaf (s.dest - 16) =
      { exceptionAt s.leaf (s.p - 16) with share := share s.leaf (s.p - 16) &&& ~~~M } := by
  unfold Purge.step
  dsimp only
  rw [share_setShare, if_pos hkept]
  refine ⟨rfl, rfl, ?_⟩
  rw [← exceptionAt_setShare]
  exact exceptionAt_congr fun y hy => copy_inside hy

private theorem Purge.step_removed (hremoved : share s.leaf (s.p - 16) &&& ~~~M = 0) :
    (s.step M).dest = s.dest ∧ (s.step M).freed = s.freed ++ [(exceptionAt s.leaf (s.p - 16)).chunk] := by
  unfold Purge.step
  dsimp only
  rw [share_setShare, if_neg (by simpa using hremoved), exceptionAt_setShare]
  exact ⟨rfl, rfl⟩

private theorem Purge.step_p : (s.step M).p = s.p - 16 := by
  unfold Purge.step
  dsimp only
  split <;> rfl

private theorem Purge.step_any : (s.step M).any = s.any ||| (share s.leaf (s.p - 16) &&& M) := by
  unfold Purge.step
  dsimp only
  split <;> rfl

/-! ### One entry -/

/-- What a scan of exceptions that end at `p` leaves of them. -/
structure Purged (M : Mask) (exns : List Exception) (q : Nat) (s s' : Purge) : Prop where
  p : s'.p = q
  dest : s'.dest + 16 * (unshare M exns).length = s.dest
  exceptions : exceptionsFrom s'.leaf s'.dest (unshare M exns).length = unshare M exns
  below : ∀ y < q, s'.leaf y = s.leaf y
  above : ∀ y, s.dest ≤ y → s'.leaf y = s.leaf y
  any : s'.any = 0 ↔ s.any = 0 ∧ ∀ e ∈ exns, e.share &&& M = 0
  freed : s'.freed = s.freed ++ removedChunks M exns

private theorem purgeEntry_spec (hexns : exceptionsFrom s.leaf q exns.length = exns) (hp : s.p = q + 16 * exns.length)
    (hd : s.p ≤ s.dest) (hoff : offset s.leaf i = q) (htop : mapAt (i + 1) ≤ q) (hk : exns.length ≤ k) :
    ∃ s', purgeEntry M i k s = some s' ∧ Purged M exns q s s' := by
  induction exns using List.reverseRecOn generalizing s k with
  | nil =>
    have hstart : s.p = emap s.leaf i := by rw [emap, hoff, hp]; rfl
    refine ⟨s, ?_, hp, rfl, rfl, fun _ _ => rfl, fun _ _ => rfl, by simp, by simp [removedChunks]⟩
    cases k with
    | zero => exact if_pos hstart
    | succ k => exact if_pos hstart
  | append_singleton exns e ih =>
    rw [List.length_append, List.length_singleton] at hexns hp hk
    obtain ⟨k, rfl⟩ : ∃ k', k = k' + 1 := ⟨k - 1, by omega⟩
    rw [exceptionsFrom_add] at hexns
    obtain ⟨hfront, hlast⟩ := List.append_inj' hexns (by rw [exceptionsFrom_length, List.length_singleton])
    have he : exceptionAt s.leaf (s.p - 16) = e := by
      rw [show s.p - 16 = q + 16 * exns.length by omega]
      exact (List.cons.inj hlast).1
    have hshare : share s.leaf (s.p - 16) = e.share := by rw [← he, exceptionAt]
    have hout : ∀ y, y < s.p - 16 ∨ s.dest ≤ y → (s.step M).leaf y = s.leaf y := fun y hy =>
      Purge.step_outside hy (by omega) hd
    have hbelow : ∀ y < q + 16 * exns.length, (s.step M).leaf y = s.leaf y := fun y hy => hout y (by omega)
    have hrun : purgeEntry M i (k + 1) s = purgeEntry M i k (s.step M) := if_neg (by rw [emap, hoff]; omega)
    have hdest : (s.step M).dest = s.dest ∨ (s.step M).dest = s.dest - 16 := by
      by_cases hremoved : e.share &&& ~~~M = 0
      · exact .inl (Purge.step_removed (by rw [hshare]; exact hremoved)).1
      · exact .inr (Purge.step_kept (by rw [hshare]; exact hremoved)).1
    obtain ⟨s', hs', h'⟩ := ih (s := s.step M) (k := k)
      (by rw [exceptionsFrom_congr fun y hy => hbelow _ (by omega)]; exact hfront)
      (by rw [Purge.step_p]; omega) (by rw [Purge.step_p]; omega)
      (by rw [offset_congr hbelow (by omega), hoff]) (by omega)
    have hany : s'.any = 0 ↔ s.any = 0 ∧ ∀ e' ∈ exns ++ [e], e'.share &&& M = 0 := by
      rw [h'.any, Purge.step_any, hshare, mask_or_eq_zero]
      simp only [List.mem_append, List.mem_singleton, or_imp, forall_and, forall_eq]
      constructor
      · rintro ⟨⟨ha, hlast⟩, hfront⟩
        exact ⟨ha, hfront, hlast⟩
      · rintro ⟨ha, hfront, hlast⟩
        exact ⟨⟨ha, hlast⟩, hfront⟩
    have hlow : ∀ y < q, s'.leaf y = s.leaf y := fun y hy => by rw [h'.below y hy, hbelow y (by omega)]
    by_cases hremoved : e.share &&& ~~~M = 0
    · obtain ⟨hd', hf'⟩ := Purge.step_removed (by rw [hshare]; exact hremoved)
      have hun : unshare M (exns ++ [e]) = unshare M exns := by
        rw [unshare_append, unshare_singleton, if_pos hremoved, List.append_nil]
      have hrem : removedChunks M (exns ++ [e]) = e.chunk :: removedChunks M exns := by
        rw [removedChunks_append_singleton, if_pos hremoved]
      refine ⟨s', hrun.trans hs', h'.p, ?_, ?_, hlow, fun y hy => ?_, hany, ?_⟩
      · rw [hun, h'.dest, hd']
      · rw [hun, h'.exceptions]
      · rw [h'.above y (by omega), hout y (.inr hy)]
      · rw [h'.freed, hf', he, hrem, List.append_assoc]
        rfl
    · obtain ⟨hd', hf', hkept⟩ := Purge.step_kept (by rw [hshare]; exact hremoved)
      have hun : unshare M (exns ++ [e]) = unshare M exns ++ [{ e with share := e.share &&& ~~~M }] := by
        rw [unshare_append, unshare_singleton, if_neg hremoved]
      have hrem : removedChunks M (exns ++ [e]) = removedChunks M exns := by
        rw [removedChunks_append_singleton, if_neg hremoved]
      have hend := h'.dest
      have hplace : exceptionAt s'.leaf (s.dest - 16) = { e with share := e.share &&& ~~~M } := by
        rw [exceptionAt_congr fun y _ => h'.above _ (by omega), hkept, he, hshare]
      refine ⟨s', hrun.trans hs', h'.p, ?_, ?_, hlow, fun y hy => ?_, hany, ?_⟩
      · rw [hun, List.length_append, List.length_singleton]
        omega
      · rw [hun, List.length_append, List.length_singleton, exceptionsFrom_add, h'.exceptions,
          show s'.dest + 16 * (unshare M exns).length = s.dest - 16 by omega, exceptionsFrom, hplace]
        rfl
      · rw [h'.above y (by omega), hout y (.inr hy)]
      · rw [h'.freed, hf', hrem]

/-! ### All entries -/

/-- The map with the bits of the deleted snapshots cleared, before its empty entries are removed. -/
def clearMap (M : Mask) (map : List EtreeMap) : List EtreeMap :=
  map.map fun e => { e with exceptions := unshare M e.exceptions }

/-- The exceptions of a map. -/
def allExceptions (map : List EtreeMap) : List Exception := map.flatMap EtreeMap.exceptions

private theorem removedChunks_append (M : Mask) (exns exns' : List Exception) :
    removedChunks M (exns ++ exns') = removedChunks M exns' ++ removedChunks M exns := by
  unfold removedChunks
  rw [List.reverse_append, List.filter_append, List.map_append]

/-- The scan between two entries: the entries of `pre` are still those of the block `m0`, and those of `post` are done. -/
structure Scanned (M : Mask) (m0 : Mem) (p0 : Nat) (pre post : List EtreeMap) (s : Purge) : Prop where
  p : s.p = p0 + 16 * exceptionCount pre
  dest : s.p ≤ s.dest
  small : s.dest < 2 ^ 32
  header : ∀ y < 24, s.leaf y = m0 y
  offsets : ∀ k < pre.length, offset s.leaf k = offset m0 k
  rchunks : ∀ k < pre.length + post.length, rchunk s.leaf k = rchunk m0 k
  bytes : ∀ y, p0 ≤ y → y < s.p → s.leaf y = m0 y
  done : Entries s.leaf pre.length s.dest (clearMap M post)

private theorem purgeEntries_spec (hentries : Entries m0 0 p0 (pre ++ post)) (h : Scanned M m0 p0 pre post s)
    (htop : mapAt (pre.length + post.length + 1) ≤ p0) :
    ∃ s', purgeEntries M pre.length s = some s' ∧ Scanned M m0 p0 [] (pre ++ post) s' ∧
      s'.dest + 16 * exceptionCount (clearMap M pre) = s.dest ∧
      (s'.any = 0 ↔ s.any = 0 ∧ ∀ e ∈ allExceptions pre, e.share &&& M = 0) ∧
      s'.freed = s.freed ++ removedChunks M (allExceptions pre) := by
  induction pre using List.reverseRecOn generalizing post s with
  | nil => exact ⟨s, rfl, h, rfl, by simp [allExceptions], by simp [allExceptions, removedChunks]⟩
  | append_singleton pre e ih =>
    have hlen : (pre ++ [e]).length = pre.length + 1 := by rw [List.length_append, List.length_singleton]
    have hec : exceptionCount (pre ++ [e]) = exceptionCount pre + e.exceptions.length := by
      rw [exceptionCount_append, exceptionCount_cons]
      rfl
    rw [List.append_assoc, List.singleton_append] at hentries
    rw [hlen] at htop
    have hp := h.p
    rw [hec] at hp
    have hmid := (entries_append.1 hentries).2
    rw [Nat.zero_add] at hmid
    obtain ⟨hoff0, hchunk0, hexns0, -⟩ := hmid
    generalize hq : p0 + 16 * exceptionCount pre = q at *
    have hdest := h.dest
    -- the exceptions of the last entry are still in place
    have hexns : exceptionsFrom s.leaf q e.exceptions.length = e.exceptions := by
      rw [exceptionsFrom_congr fun y hy => h.bytes _ (by omega) (by omega)]
      exact hexns0
    have hoff : offset s.leaf pre.length = q := by
      rw [h.offsets _ (by omega), hoff0]
    have htopi : mapAt (pre.length + 1) ≤ p0 := by unfold mapAt at *; omega
    obtain ⟨s1, hrun, h1⟩ := purgeEntry_spec (M := M) (k := s.p) hexns (by omega) hdest hoff (by omega) (by omega)
    have hd1 := h1.dest
    have hp1 := h1.p
    have hsmall := h.small
    have hfewer := unshare_length_le M e.exceptions
    obtain ⟨s2, hs2⟩ : ∃ s2 : Purge, s2 = { s1 with leaf := setOffset s1.leaf pre.length s1.dest } := ⟨_, rfl⟩
    have hleaf2 : s2.leaf = setOffset s1.leaf pre.length s1.dest := by rw [hs2]
    have hp2 : s2.p = q := by rw [hs2]; exact hp1
    have hdest2 : s2.dest = s1.dest := by rw [hs2]
    have hkeep : ∀ y, mapAt (pre.length + 1) ≤ y → s2.leaf y = s1.leaf y := fun y hy => by rw [hleaf2, setOffset_above hy]
    have hlowtop : ∀ k ≤ pre.length + 1 + post.length, mapAt (k + 1) ≤ q := by
      intro k hk
      unfold mapAt at *
      omega
    have hnext : Scanned M m0 p0 pre (e :: post) s2 := by
      refine ⟨hp2.trans hq.symm, by omega, by omega, fun y hy => ?_, fun k hk => ?_, fun k hk => ?_, fun y hlow hhigh => ?_,
        ?_, ?_, ?_, ?_⟩
      · rw [hleaf2, setOffset_header hy, h1.below y (by unfold mapAt at htop; omega), h.header y hy]
      · rw [hleaf2, offset_setOffset, if_neg (by omega), offset_congr h1.below (hlowtop k (by omega)),
          h.offsets k (by omega)]
      · rw [List.length_cons] at hk
        rw [hleaf2, rchunk_setOffset, rchunk_congr h1.below (hlowtop k (by omega)), h.rchunks k (by omega)]
      · rw [hkeep y (by omega), h1.below y (by omega), h.bytes y hlow (by omega)]
      · rw [hleaf2, hdest2, offset_setOffset, if_pos rfl, Nat.mod_eq_of_lt (by omega)]
      · rw [hleaf2, rchunk_setOffset, rchunk_congr h1.below (hlowtop _ (by omega)), h.rchunks _ (by omega), hchunk0]
      · dsimp only
        rw [hdest2, exceptionsFrom_congr fun y _ => hkeep _ (by omega)]
        exact h1.exceptions
      · have hdone := h.done
        have hcleared : (clearMap M post).length = post.length := by rw [clearMap, List.length_map]
        rw [hlen] at hdone
        dsimp only
        rw [hdest2, hd1]
        refine hdone.congr (fun k hk => ?_) (fun k hk => ?_) fun y hy => ?_
        · rw [hleaf2, rchunk_setOffset, rchunk_congr h1.below (hlowtop _ (by omega))]
        · rw [hleaf2, offset_setOffset, if_neg (by omega), offset_congr h1.below (hlowtop _ (by omega))]
        · rw [hkeep _ (by omega), h1.above _ (by omega)]
    obtain ⟨s', hs', hscan, hdest', hany', hfreed'⟩ := ih hentries hnext (by
      rw [List.length_cons]
      rw [show pre.length + (post.length + 1) + 1 = pre.length + 1 + post.length + 1 by omega]
      exact htop)
    refine ⟨s', ?_, ?_, ?_, ?_, ?_⟩
    · rw [hlen, purgeEntries, hrun, ← hs', hs2]
      rfl
    · rw [List.append_assoc, List.singleton_append]
      exact hscan
    · have hclear : exceptionCount (clearMap M (pre ++ [e])) =
          exceptionCount (clearMap M pre) + (unshare M e.exceptions).length := by
        rw [clearMap, List.map_append, exceptionCount_append, List.map_singleton, exceptionCount_cons]
        rfl
      rw [hclear]
      omega
    · have hs2a : s2.any = s1.any := by rw [hs2]
      have hall : allExceptions (pre ++ [e]) = allExceptions pre ++ e.exceptions := by simp [allExceptions]
      rw [hany', hs2a, h1.any, hall]
      simp only [List.mem_append, or_imp, forall_and]
      constructor
      · rintro ⟨⟨ha, hlast⟩, hfront⟩
        exact ⟨ha, hfront, hlast⟩
      · rintro ⟨ha, hfront, hlast⟩
        exact ⟨⟨ha, hlast⟩, hfront⟩
    · have hs2f : s2.freed = s1.freed := by rw [hs2]
      have hall : allExceptions (pre ++ [e]) = allExceptions pre ++ e.exceptions := by simp [allExceptions]
      rw [hfreed', hs2f, h1.freed, hall, removedChunks_append, List.append_assoc]

/-! ### The map -/

/-- The entries without exceptions are left out. -/
private theorem compactMap_spec (hentries : Entries m i q map) (hd : d ≤ i) (htop : mapAt (i + map.length + 1) ≤ q)
    (hq : q + 16 * exceptionCount map < 2 ^ 32) :
    (compactMap m map.length i d).1 = d + (map.filter fun e => e.exceptions ≠ []).length ∧
      Entries (compactMap m map.length i d).2 d q (map.filter fun e => e.exceptions ≠ []) ∧
      (∀ k < d, offset (compactMap m map.length i d).2 k = offset m k ∧
        rchunk (compactMap m map.length i d).2 k = rchunk m k) ∧
      (∀ y, y < 24 ∨ mapAt (i + map.length + 1) ≤ y → (compactMap m map.length i d).2 y = m y) := by
  induction map generalizing m i d q with
  | nil =>
    have hoff : offset m i = q := hentries
    simp only [List.length_nil, compactMap, List.filter_nil, Nat.add_zero, Entries]
    refine ⟨trivial, ?_, fun k hk => ?_, fun y hy => ?_⟩
    · rw [offset_setRchunk, offset_setOffset, if_pos rfl, hoff, Nat.mod_eq_of_lt (by omega)]
    · rw [offset_setRchunk, offset_setOffset, if_neg (by omega), rchunk_setRchunk, if_neg (by omega), rchunk_setOffset]
      exact ⟨rfl, rfl⟩
    · rw [List.length_nil, Nat.add_zero] at htop
      rcases hy with hy | hy
      · rw [setRchunk_header hy, setOffset_header hy]
      · rw [setRchunk_above (by unfold mapAt at *; omega), setOffset_above (by unfold mapAt at *; omega)]
  | cons e map ih =>
    obtain ⟨hoff, hchunk, hexns, hrest⟩ := hentries
    have hlen : (e :: map).length = map.length + 1 := List.length_cons
    have hidx : i + (map.length + 1) + 1 = i + 1 + map.length + 1 := by omega
    rw [exceptionCount_cons] at hq
    rw [hlen, hidx] at htop ⊢
    rw [compactMap, hoff, hrest.offset_first]
    by_cases hempty : e.exceptions = []
    · have hzero : e.exceptions.length = 0 := by rw [hempty, List.length_nil]
      rw [hzero, Nat.mul_zero, Nat.add_zero] at hrest ⊢
      rw [if_neg (by simp), List.filter_cons_of_neg (by simpa using hempty)]
      exact ih hrest (by omega) htop (by omega)
    · have hpos : 0 < e.exceptions.length := List.length_pos_iff.2 hempty
      rw [if_pos (by omega), List.filter_cons_of_pos (by simpa using hempty)]
      -- the entry goes down to the next place, and those after it are where they were
      obtain ⟨m1, hm1⟩ : ∃ m1, m1 = copy m (mapAt d) m (mapAt i) 8 := ⟨_, rfl⟩
      rw [← hm1]
      have hsame : ∀ y, y < mapAt d ∨ mapAt (i + 1) ≤ y → m1 y = m y := fun y hy => by
        rw [hm1, copy_of_outside (by unfold mapAt at *; omega)]
      have hrest1 : Entries m1 (i + 1) (q + 16 * e.exceptions.length) map := by
        refine hrest.congr (fun k hk => ?_) (fun k hk => ?_) fun y hy => ?_
        · exact load_congr fun y hy => hsame _ (by unfold mapAt; omega)
        · exact load_congr fun y hy => hsame _ (by unfold mapAt; omega)
        · exact hsame _ (by unfold mapAt at *; omega)
      obtain ⟨hd', hentries', hkeep', hrest'⟩ := ih hrest1 (Nat.succ_le_succ hd) (by omega) (by omega)
      have hmoved1 : offset (copy m (mapAt d) m (mapAt i) (8 * 1)) (d + 0) = offset m (i + 0) := offset_copy Nat.one_pos
      have hmoved2 : rchunk (copy m (mapAt d) m (mapAt i) (8 * 1)) (d + 0) = rchunk m (i + 0) := rchunk_copy Nat.one_pos
      rw [Nat.mul_one, ← hm1, Nat.add_zero, Nat.add_zero] at hmoved1 hmoved2
      obtain ⟨hoff', hchunk'⟩ := hkeep' d (Nat.lt_succ_self d)
      refine ⟨?_, ⟨?_, ?_, ?_, hentries'⟩, fun k hk => ?_, fun y hy => ?_⟩
      · rw [hd', List.length_cons]
        omega
      · rw [hoff', hmoved1, hoff]
      · rw [hchunk', hmoved2, hchunk]
      · rw [exceptionsFrom_congr (m := m) (p := q) fun y _ => ?_, hexns]
        rw [hrest' _ (.inr (by omega)), hsame _ (by unfold mapAt at *; omega)]
      · rw [(hkeep' k (by omega)).1, (hkeep' k (by omega)).2]
        exact ⟨load_congr fun y hy => hsame _ (by unfold mapAt; omega),
          load_congr fun y hy => hsame _ (by unfold mapAt; omega)⟩
      · rw [hrest' y hy, hsame y (by unfold mapAt at *; omega)]

/-! ### The whole function -/

private theorem purgeMap_eq (M : Mask) (map : List EtreeMap) :
    purgeMap M map = (clearMap M map).filter fun e => e.exceptions ≠ [] := rfl

private theorem exceptionCount_nonempty (map : List EtreeMap) :
    exceptionCount (map.filter fun e => e.exceptions ≠ []) = exceptionCount map := by
  induction map with
  | nil => rfl
  | cons e map ih =>
    by_cases hempty : e.exceptions = []
    · rw [List.filter_cons_of_neg (by simpa using hempty), ih, exceptionCount_cons, hempty, List.length_nil, Nat.zero_add]
    · rw [List.filter_cons_of_pos (by simpa using hempty), exceptionCount_cons, exceptionCount_cons, ih]

private theorem exceptionCount_clearMap_le (M : Mask) (map : List EtreeMap) :
    exceptionCount (clearMap M map) ≤ exceptionCount map := by
  induction map with
  | nil => exact Nat.le_refl _
  | cons e map ih =>
    have := unshare_length_le M e.exceptions
    rw [clearMap, List.map_cons, exceptionCount_cons, exceptionCount_cons]
    unfold clearMap at ih
    dsimp only
    omega

/-- The function on the block does what the function on the leaf does. -/
private theorem deleteSnapshotsFromLeaf_refines (h : Holds size m leaf) (M : Mask) :
    ∃ any m' freed, deleteSnapshotsFromLeaf m M = some (any, m', freed) ∧ Holds size m' (purgeLeaf M leaf) ∧
      (any = 0 ↔ ∀ e ∈ allExceptions leaf.map, e.share &&& M = 0) ∧
      freed = removedChunks M (allExceptions leaf.map) := by
  have hroom := h.room
  have hsize := h.size
  have hlast : emap m (count m) = size := by rw [h.counted]; exact h.last
  obtain ⟨p0, hp0⟩ : ∃ p0, p0 = size - 16 * exceptionCount leaf.map := ⟨_, rfl⟩
  have hentries := h.entries
  rw [← hp0] at hentries
  -- the scan starts at the end of the block
  have hstart : Scanned M m p0 leaf.map [] ⟨m, size, size, 0, []⟩ := by
    refine ⟨by dsimp only; omega, Nat.le_refl _, hsize, fun _ _ => rfl, fun _ _ => rfl, fun _ _ => rfl, fun _ _ _ => rfl, ?_⟩
    exact h.last
  obtain ⟨s, hrun, hscan, hdest, hany, hfreed⟩ := purgeEntries_spec (by rw [List.append_nil]; exact hentries)
    hstart (by rw [List.length_nil]; unfold mapAt at *; omega)
  rw [List.append_nil] at hscan
  have hcounted : count s.leaf = leaf.map.length := by rw [count_congr hscan.header, h.counted]
  have hlen : (clearMap M leaf.map).length = leaf.map.length := by rw [clearMap, List.length_map]
  have hle := exceptionCount_clearMap_le M leaf.map
  have hdone : Entries s.leaf 0 s.dest (clearMap M leaf.map) := hscan.done
  obtain ⟨hn, hmap', -, hkeep⟩ := compactMap_spec hdone (Nat.le_refl 0)
    (by rw [hlen, Nat.zero_add]; unfold mapAt at *; dsimp only at hdest; omega) (by dsimp only at hdest; omega)
  rw [hlen] at hmap'
  rw [hlen, Nat.zero_add] at hn hkeep
  rw [← purgeMap_eq] at hn hmap'
  have hec : exceptionCount (purgeMap M leaf.map) = exceptionCount (clearMap M leaf.map) := by
    rw [purgeMap_eq, exceptionCount_nonempty]
  have hfewer : (purgeMap M leaf.map).length ≤ leaf.map.length := by
    rw [purgeMap_eq, ← hlen]
    exact List.length_filter_le _ _
  obtain ⟨m', hm'⟩ : ∃ m', m' = (compactMap s.leaf leaf.map.length 0 0).2 := ⟨_, rfl⟩
  rw [← hm'] at hmap' hkeep
  have hdelete : deleteSnapshotsFromLeaf m M = some (s.any, setCount m' (purgeMap M leaf.map).length, s.freed) := by
    unfold deleteSnapshotsFromLeaf
    dsimp only
    rw [hlast, h.counted, hrun]
    show some (s.any, setCount (compactMap s.leaf (count s.leaf) 0 0).2 (compactMap s.leaf (count s.leaf) 0 0).1, s.freed) = _
    rw [hcounted, hn, ← hm']
  have hheader : ∀ y < 24, m' y = m y := fun y hy => by rw [hkeep y (.inl hy), hscan.header y hy]
  refine ⟨s.any, _, s.freed, hdelete, ⟨?_, ?_, ?_, h.sentinel, ?_, hsize, h.ascending.purgeMap M, fun e he => ?_,
    fun e he => ?_⟩, ?_, ?_⟩
  · rw [count_setCount, Nat.mod_eq_of_lt (by unfold mapAt at hroom; omega)]
    rfl
  · rw [baseChunk_setCount, baseChunk_congr hheader, h.base]
    rfl
  · show Entries _ 0 (size - 16 * exceptionCount (purgeMap M leaf.map)) (purgeMap M leaf.map)
    rw [hec, show size - 16 * exceptionCount (clearMap M leaf.map) = s.dest by dsimp only at hdest; omega]
    refine hmap'.congr (fun _ _ => rchunk_setCount _ _ _) (fun _ _ => offset_setCount _ _ _) fun y _ => setCount_above ?_
    unfold mapAt at *
    dsimp only at hdest
    omega
  · show mapAt ((purgeMap M leaf.map).length + 1) + 16 * exceptionCount (purgeMap M leaf.map) ≤ size
    rw [hec]
    unfold mapAt at *
    omega
  · obtain ⟨-, -, -, -, hne⟩ := mem_purgeMap he
    exact hne
  · obtain ⟨e', he', hchunk, -⟩ := mem_purgeMap he
    show leaf.baseChunk + e.rchunk < 2 ^ 64
    rw [← hchunk]
    exact h.chunks e' he'
  · rw [hany]
    exact ⟨fun hall => hall.2, fun hall => ⟨rfl, hall⟩⟩
  · rw [hfreed]
    rfl

/-! ### What the block holds afterwards -/

private theorem mem_unshare {x : Exception} : x ∈ unshare M exns →
    ∃ x' ∈ exns, x = { x' with share := x'.share &&& ~~~M } := by
  intro hx
  obtain ⟨x', hx', rfl⟩ := List.mem_map.1 (List.mem_filter.1 hx).1
  exact ⟨x', hx', rfl⟩

private theorem mask_cleared (a M : Mask) : a &&& ~~~M &&& M = 0 := by
  rw [BitVec.and_assoc, BitVec.and_comm (~~~M) M, BitVec.and_not_self]
  exact BitVec.and_zero

private theorem purgeLeaf_disjoint (M : Mask) (leaf : Eleaf) : ∀ x ∈ allExceptions
    (purgeLeaf M leaf).map, x.share &&& M = 0 := by
  intro x hx
  obtain ⟨e, he, hx⟩ := List.mem_flatMap.1 hx
  obtain ⟨e', -, -, hexns, -⟩ := mem_purgeMap he
  rw [hexns] at hx
  obtain ⟨x', -, rfl⟩ := mem_unshare hx
  exact mask_cleared _ _

private theorem anyShared_eq_false : anyShared M leaf = false ↔ ∀ x ∈ allExceptions leaf.map, x.share &&& M = 0 := by
  simp only [anyShared, allExceptions, List.any_eq_false, List.any_eq_true, not_exists, not_and, decide_eq_true_eq, not_not,
    List.mem_flatMap]
  constructor
  · rintro h x ⟨e, he, hx⟩
    exact h e he x hx
  · exact fun h e he x hx => h x ⟨e, he, hx⟩

private theorem unshare_eq (M : Mask) (exns : List Exception) : unshare M exns =
    (exns.filter fun x => x.share &&& ~~~M ≠ 0).map fun x => { x with share := x.share &&& ~~~M } := by
  unfold unshare
  rw [List.filter_map]
  rfl

/-- Snapshots are deleted from a block: the exceptions that are left are those that another snapshot shares, the chunks of
the others are freed, and the leaf is reported as changed exactly when it is. -/
theorem leaf_deletion (h : Holds size m leaf) (hlive : ∀ x ∈ allExceptions leaf.map, x.share ≠ 0) (M : Mask) :
    ∃ any m' leaf', deleteSnapshotsFromLeaf m M = some (any, m', ((leafExceptions leaf).filter fun x =>
        x.share &&& ~~~M = 0).map Exception.chunk) ∧
      Holds size m' leaf' ∧ leaf'.baseChunk = leaf.baseChunk ∧
      leaf'.map = (leaf.map.map fun e => ⟨e.rchunk, (e.exceptions.filter fun x => x.share &&& ~~~M ≠ 0).map
        fun x => { x with share := x.share &&& ~~~M }⟩).filter (fun e => e.exceptions ≠ []) ∧
      (any ≠ 0 ↔ leaf' ≠ leaf) := by
  obtain ⟨any, m', freed, hdelete, hm', hany, rfl⟩ := deleteSnapshotsFromLeaf_refines h M
  refine ⟨any, m', _, hdelete, hm', rfl, ?_, ?_⟩
  · simp only [← unshare_eq]
    rfl
  · rw [not_iff_not, hany, ← anyShared_eq_false]
    constructor
    · intro hnone
      refine Eleaf.Live.purge (fun e he => ⟨h.nonempty e he, fun x hx => ?_⟩) hnone
      exact hlive x (List.mem_flatMap.2 ⟨e, he, hx⟩)
    · intro hsame
      rw [anyShared_eq_false, ← hsame]
      exact purgeLeaf_disjoint M leaf

/-- From a block with an exception of chunk 5 that two snapshots share and one of chunk 9 that the second has alone, the
second snapshot is deleted. -/
theorem leaf_deletion_second : ∃ m any m' leaf', deleteSnapshotsFromLeaf m 2 = some (any, m', [78]) ∧ Holds 128 m' leaf' ∧
    leaf'.map = [⟨5, [⟨1, 77⟩]⟩] ∧ any ≠ 0 := by
  obtain ⟨m, leaf, h, hleaf⟩ := holds_two
  obtain ⟨any, m', leaf', hdelete, hm', -, hmap, hany⟩ := leaf_deletion h (by rw [hleaf]; decide) 2
  have hfreed : ((leafExceptions leaf).filter fun x => x.share &&& ~~~(2 : Mask) = 0).map Exception.chunk = [78] := by
    rw [leafExceptions, hleaf]
    decide
  rw [hfreed] at hdelete
  have hmap' : leaf'.map = [⟨5, [⟨1, 77⟩]⟩] := by
    rw [hmap, hleaf]
    decide
  refine ⟨m, any, m', leaf', hdelete, hm', hmap', hany.2 fun hsame => ?_⟩
  rw [hsame, hleaf] at hmap'
  exact absurd hmap' (by decide)

end Ddsnap.LeafBytes
