import Ddsnap.LeafInsertion

/-!
# Splitting and merging the bytes of leaves

`split_leaf` moves the upper entries with their exceptions to a new block and the lower exceptions to the end of theirs;
`merge_leaves` is its inverse.  Each half is the old entries in a new place.
-/

namespace Ddsnap.LeafBytes

open ByteMemory

variable {m m1 m2 : Mem} {i j k n p q y size : Nat} {map pre post : List EtreeMap} {leaf leaf1 leaf2 : Eleaf}

/-! ### Splitting -/

private theorem Holds.cut (h : Holds size m leaf) (hsub : map.Sublist leaf.map)
    (hec : exceptionCount map ≤ exceptionCount leaf.map) (hcount : count m1 = map.length)
    (hbase : baseChunk m1 = baseChunk m) (hentries : Entries m1 0 (size - 16 * exceptionCount map) map) :
    Holds size m1 { leaf with map := map } := by
  have hroom := h.room
  have hlen := hsub.length_le
  refine ⟨hcount, hbase.trans h.base, hentries, h.sentinel, ?_, h.size, h.ascending.sublist hsub,
    fun e he => h.nonempty e (hsub.subset he), fun e he => h.chunks e (hsub.subset he)⟩
  unfold mapAt at *
  dsimp only
  omega

section
variable (h : Holds size m leaf) (hmap : leaf.map = pre ++ post)
include h hmap

private theorem Holds.ptail : emap m pre.length = size - 16 * exceptionCount post := by
  have hroom := h.room
  have hentries := h.entries
  rw [hmap] at hentries hroom
  have hoff := (entries_append.1 hentries).2.offset_first
  rw [Nat.zero_add] at hoff
  rw [exceptionCount_append] at hoff hroom
  unfold emap
  omega

/-- The lower half, at the end of its block. -/
private theorem Holds.lower : Holds size (setRchunk (rebase (fun offset => offset + 16 * exceptionCount post) (setCount
      (copy m (emap m 0 + 16 * exceptionCount post) m (emap m 0) (emap m pre.length - emap m 0)) pre.length)
      (pre.length + 1)) pre.length 0) { leaf with map := pre } := by
  have hroom := h.room
  have hsize := h.size
  have hec : exceptionCount leaf.map = exceptionCount pre + exceptionCount post := by rw [hmap, exceptionCount_append]
  have hlen : leaf.map.length = pre.length + post.length := by rw [hmap, List.length_append]
  have hentries := h.entries
  rw [hmap] at hentries
  obtain ⟨hpre, -⟩ := entries_append.1 hentries
  rw [← hmap] at hpre
  have hfirst : emap m 0 = size - 16 * exceptionCount leaf.map := h.first
  rw [h.ptail hmap, hfirst]
  generalize hp : size - 16 * exceptionCount leaf.map = p at *
  have htop : ∀ l ≤ pre.length, mapAt (l + 1) ≤ p := by
    intro l hl
    unfold mapAt at *
    omega
  have hlow : ∀ y < p, copy m (p + 16 * exceptionCount post) m p (size - 16 * exceptionCount post - p) y = m y :=
    fun y hy => copy_of_outside (by omega)
  refine h.cut (by rw [hmap]; exact List.sublist_append_left _ _) (by omega) ?_ ?_ ?_
  · rw [count_setRchunk, count_rebase, count_setCount, Nat.mod_eq_of_lt (by unfold mapAt at hroom; omega)]
  · rw [baseChunk_setRchunk, baseChunk_rebase, baseChunk_setCount,
      baseChunk_congr fun y hy => hlow y (by have := htop 0 (by omega); unfold mapAt at this; omega)]
  · rw [show size - 16 * exceptionCount pre = p + 16 * exceptionCount post by omega]
    refine hpre.relocate (fun l hl => ?_) (fun l hl => ?_) fun y hy => ?_
    · rw [rchunk_setRchunk, if_neg (by omega), rchunk_rebase, rchunk_setCount]
      exact rchunk_congr hlow (htop _ (by omega))
    · have hle := hpre.offset_le hl
      rw [offset_setRchunk, offset_rebase, if_pos (by omega), offset_setCount, offset_congr hlow (htop _ (by omega)),
        Nat.mod_eq_of_lt (by omega)]
      omega
    · have h1 := htop pre.length (Nat.le_refl _)
      rw [setRchunk_above (by omega), rebase_above (by omega), setCount_above (by unfold mapAt at *; omega),
        copy_inside (by omega)]

/-- The upper half, in a block of its own. -/
private theorem Holds.upper (m2 : Mem) : Holds size
    (setCount (copy (copy (copy m2 0 m 0 24) (mapAt 0) m (mapAt pre.length)
      ((post.length + 1) * 8)) (emap m pre.length) m (emap m pre.length) (16 * exceptionCount post)) post.length)
      { leaf with map := post } := by
  have hroom := h.room
  have hsize := h.size
  have hec : exceptionCount leaf.map = exceptionCount pre + exceptionCount post := by rw [hmap, exceptionCount_append]
  have hlen : leaf.map.length = pre.length + post.length := by rw [hmap, List.length_append]
  have hentries := h.entries
  rw [hmap] at hentries
  obtain ⟨-, hpost⟩ := entries_append.1 hentries
  rw [← hmap, Nat.zero_add] at hpost
  rw [h.ptail hmap, Nat.mul_comm (post.length + 1) 8]
  have hp : size - 16 * exceptionCount leaf.map + 16 * exceptionCount pre = size - 16 * exceptionCount post := by
    unfold mapAt at hroom
    omega
  rw [hp] at hpost
  generalize hq : size - 16 * exceptionCount post = q at *
  have htop : mapAt (post.length + 1) ≤ q := by
    unfold mapAt at *
    omega
  -- the map is above the header, and the exceptions are above the map
  have hhead : ∀ y < 24, copy (copy (copy m2 0 m 0 24) (mapAt 0) m (mapAt pre.length) (8 * (post.length + 1))) q m q
      (16 * exceptionCount post) y = m y := by
    intro y hy
    rw [copy_of_outside (by unfold mapAt at *; omega), copy_of_outside (by unfold mapAt; omega)]
    have hin : copy m2 0 m 0 24 (0 + y) = m (0 + y) := copy_inside hy
    rwa [Nat.zero_add] at hin
  refine h.cut (by rw [hmap]; exact List.sublist_append_right _ _) (by omega) ?_ ?_ ?_
  · rw [count_setCount, Nat.mod_eq_of_lt (by unfold mapAt at hroom; omega)]
  · rw [baseChunk_setCount, baseChunk_congr hhead]
  · rw [hq]
    refine hpost.relocate (fun l hl => ?_) (fun l hl => ?_) fun y hy => ?_
    · rw [rchunk_setCount, rchunk_congr fun y hy => copy_of_outside (.inl hy), rchunk_copy (by omega)]
      unfold mapAt at *
      omega
    · rw [offset_setCount, offset_congr fun y hy => copy_of_outside (.inl hy), offset_copy (by omega)]
      unfold mapAt at *
      omega
    · rw [setCount_above (by unfold mapAt at *; omega), copy_inside hy]

end

/-- Bytes that `split_leaf` moves and those that it leaves alone: of the `n` entries the first `nhead` stay, with the
exceptions from `p` up to `q`. -/
structure Halved (size : Nat) (m : Mem) (n nhead p q : Nat) (lower upper : Mem) : Prop where
  header : ∀ y < 24, y < 4 ∨ 8 ≤ y → lower y = m y
  moved : ∀ y < q - p, lower (p + (size - q) + y) = m (p + y)
  rest : ∀ y, mapAt (nhead + 1) ≤ y → y < p ∨ size ≤ y → lower y = m y
  phantom : rchunk upper (n - nhead) = rchunk m n
  data : ∀ y < size - q, upper (q + y) = m (q + y)

/-- `split_leaf` on the blocks: the lower and the upper half of the entries. -/
private theorem splitLeaf_refines (h : Holds size m leaf) (htwo : 2 ≤ leaf.map.length) (m2 : Mem) :
    (splitLeaf m m2).1 = (Ddsnap.splitLeaf leaf).1 ∧ Holds size (splitLeaf m m2).2.1 (Ddsnap.splitLeaf leaf).2.1 ∧
      Holds size (splitLeaf m m2).2.2 (Ddsnap.splitLeaf leaf).2.2 ∧
      Halved size m leaf.map.length ((leaf.map.length + 1) / 2) (emap m 0) (emap m ((leaf.map.length + 1) / 2))
        (splitLeaf m m2).2.1 (splitLeaf m m2).2.2 := by
  have hroom := h.room
  have hsize := h.size
  obtain ⟨nhead, hnhead⟩ : ∃ nhead, nhead = (leaf.map.length + 1) / 2 := ⟨_, rfl⟩
  obtain ⟨pre, hpre⟩ : ∃ pre, pre = leaf.map.take nhead := ⟨_, rfl⟩
  obtain ⟨post, hpost⟩ : ∃ post, post = leaf.map.drop nhead := ⟨_, rfl⟩
  have hmap : leaf.map = pre ++ post := by rw [hpre, hpost, List.take_append_drop]
  have hprelen : pre.length = nhead := by rw [hpre, List.length_take]; omega
  have hpostlen : post.length = leaf.map.length - nhead := by rw [hpost, List.length_drop]
  have hhalf : (count m + 1) % 2 ^ 32 / 2 = pre.length := by
    rw [h.counted, Nat.mod_eq_of_lt (by unfold mapAt at hroom; omega), hprelen, hnhead]
  have htail : count m - pre.length = post.length := by rw [h.counted, hpostlen, hprelen]
  have htailsize : diff32 (emap m (count m)) (emap m pre.length) = 16 * exceptionCount post := by
    have hec : exceptionCount leaf.map = exceptionCount pre + exceptionCount post := by rw [hmap, exceptionCount_append]
    rw [h.counted, show emap m leaf.map.length = size from h.last, h.ptail hmap, diff32_eq (by omega) hsize]
    unfold mapAt at hroom
    omega
  -- the first entry of the upper half is a real one
  have hkey : (rchunk m pre.length + baseChunk m) % 2 ^ 64 = (Ddsnap.splitLeaf leaf).1 := by
    have hlt : nhead < leaf.map.length := by omega
    have hentries := h.entries
    rw [hmap] at hentries
    have hup := (entries_append.1 hentries).2
    rw [Nat.zero_add, hpost, List.drop_eq_getElem_cons hlt] at hup
    have hbound := h.chunks _ (List.getElem_mem hlt)
    rw [hup.2.1, h.base, Ddsnap.splitLeaf]
    dsimp only
    rw [← hnhead, List.getElem?_eq_getElem hlt, Option.map_some, Option.getD_some, Nat.mod_eq_of_lt (by omega)]
  have hlower := h.lower hmap
  have hupper := h.upper hmap m2
  unfold splitLeaf Ddsnap.splitLeaf
  dsimp only
  rw [hhalf, htailsize, htail, hkey, ← hnhead, ← hpre, ← hpost]
  refine ⟨by rw [Ddsnap.splitLeaf, ← hnhead], hlower, hupper, ?_⟩
  rw [← hprelen, h.ptail hmap, show emap m 0 = size - 16 * exceptionCount leaf.map from h.first,
    Nat.mul_comm (post.length + 1) 8]
  have hec : exceptionCount leaf.map = exceptionCount pre + exceptionCount post := by rw [hmap, exceptionCount_append]
  generalize hp : size - 16 * exceptionCount leaf.map = p at *
  generalize hq : size - 16 * exceptionCount post = q at *
  have htop : mapAt (leaf.map.length + 1) ≤ p := by omega
  have hmapped : mapAt (pre.length + 1) ≤ mapAt leaf.map.length := by unfold mapAt; omega
  refine ⟨fun y hy hout => ?_, fun y hy => ?_, fun y hlow hy => ?_, ?_, fun y hy => ?_⟩
  · rw [setRchunk_header hy, rebase_header hy, setCount, write_of_outside (by omega),
      copy_of_outside (by unfold mapAt at htop; omega)]
  · rw [show size - q = 16 * exceptionCount post by omega, setRchunk_above (by unfold mapAt at *; omega),
      rebase_above (by unfold mapAt at *; omega), setCount_above (by unfold mapAt at *; omega), copy_inside hy]
  · rw [setRchunk_above hlow, rebase_above hlow, setCount_above (by unfold mapAt at *; omega),
      copy_of_outside (by omega)]
  · have hidx : leaf.map.length - pre.length = 0 + post.length := by omega
    have hn : leaf.map.length = pre.length + post.length := by omega
    rw [hidx, rchunk_setCount, rchunk_congr fun y hy => copy_of_outside (.inl hy), rchunk_copy (by omega), ← hn]
    unfold mapAt at *
    omega
  · rw [setCount_above (by unfold mapAt at *; omega), copy_inside (by omega)]

/-! ### Merging -/

/-- What `merge_leaves` writes: the exceptions of the first leaf, from `p` on, go down by the `t` bytes of the exceptions
of the second, which take their place, and the `n2` entries of the second leaf follow the `n1` of the first. -/
structure Merged (size : Nat) (m1 m2 : Mem) (n1 n2 p t : Nat) (d : Mem) : Prop where
  header : ∀ y < 24, y < 4 ∨ 8 ≤ y → d y = m1 y
  counted : count d = n1 + n2
  offsets1 : ∀ l < n1, p ≤ offset m1 l → offset d l = offset m1 l - t
  rchunks1 : ∀ l < n1, rchunk d l = rchunk m1 l
  offsets2 : ∀ l ≤ n2, offset d (n1 + l) = offset m2 (0 + l)
  rchunks2 : ∀ l ≤ n2, rchunk d (n1 + l) = rchunk m2 (0 + l)
  bytes1 : ∀ y < size - p, d (p - t + y) = m1 (p + y)
  bytes2 : ∀ y < t, d (size - t + y) = m2 (size - t + y)
  rest : ∀ y, mapAt (n1 + n2 + 1) ≤ y → y < p - t ∨ size ≤ y → d y = m1 y

private theorem mergeLeaves_merged (h1 : Holds size m1 leaf1) (h2 : Holds size m2 leaf2)
    (hfits : leafPayload m2 ≤ leafFreespace m1) :
    Merged size m1 m2 leaf1.map.length leaf2.map.length (emap m1 0) (16 * exceptionCount leaf2.map) (mergeLeaves m1 m2) ∧
      mapAt (leaf1.map.length + leaf2.map.length + 1) + 16 * exceptionCount leaf2.map ≤ emap m1 0 := by
  have hroom1 := h1.room
  have hroom2 := h2.room
  have hsize := h1.size
  rw [h2.payload, h1.freespace, Ddsnap.leafPayload, Ddsnap.leafFreespace, h1.sentinel] at hfits
  have hfirst1 : emap m1 0 = size - 16 * exceptionCount leaf1.map := h1.first
  have hfirst2 : emap m2 0 = size - 16 * exceptionCount leaf2.map := h2.first
  have hlast1 : emap m1 leaf1.map.length = size := h1.last
  have htailsize : diff32 (emap m2 leaf2.map.length) (emap m2 0) = 16 * exceptionCount leaf2.map := by
    rw [show emap m2 leaf2.map.length = size from h2.last, hfirst2, diff32_eq (by omega) hsize]
    omega
  unfold mergeLeaves
  dsimp only
  rw [h1.counted, h2.counted, htailsize, hlast1, hfirst1, hfirst2, Nat.mul_comm (leaf2.map.length + 1) 8]
  generalize hp : size - 16 * exceptionCount leaf1.map = p at *
  generalize ht : 16 * exceptionCount leaf2.map = t at *
  have htop : mapAt (leaf1.map.length + leaf2.map.length + 1) + t ≤ p := by
    unfold mapAt at *
    omega
  refine ⟨?_, htop⟩
  -- the exceptions moved down, the offsets with them, then the data and the map of the second leaf
  obtain ⟨a, ha⟩ : ∃ a, a = copy m1 (p - t) m1 p (size - p) := ⟨_, rfl⟩
  obtain ⟨b, hb⟩ : ∃ b, b = rebase (fun offset => offset + (2 ^ 32 - t)) a (leaf1.map.length + 1) := ⟨_, rfl⟩
  obtain ⟨c, hc⟩ : ∃ c, c = copy b (size - t) m2 (size - t) t := ⟨_, rfl⟩
  obtain ⟨d, hd⟩ : ∃ d, d = copy c (mapAt leaf1.map.length) m2 (mapAt 0) (8 * (leaf2.map.length + 1)) := ⟨_, rfl⟩
  rw [← ha, ← hb, ← hc, ← hd]
  have hlowa : ∀ y < p - t, a y = m1 y := fun y hy => by rw [ha, copy_of_outside (.inl hy)]
  have hlowc : ∀ y < p - t, c y = b y := fun y hy => by rw [hc, copy_of_outside (by omega)]
  have hdhigh : ∀ y, mapAt (leaf1.map.length + leaf2.map.length + 1) ≤ y → d y = c y := fun y hy => by
    rw [hd, copy_of_outside (by unfold mapAt at *; omega)]
  have hdlow : ∀ y < mapAt leaf1.map.length, d y = c y := fun y hy => by rw [hd, copy_of_outside (.inl hy)]
  have hbhigh : ∀ y, mapAt (leaf1.map.length + leaf2.map.length + 1) ≤ y → b y = a y := fun y hy => by
    rw [hb, rebase_above (by unfold mapAt at *; omega)]
  have hhead : ∀ y < 24, d y = m1 y := by
    intro y hy
    rw [hdlow y (by unfold mapAt; omega), hlowc y (by unfold mapAt at htop; omega), hb, rebase_header hy,
      hlowa y (by unfold mapAt at htop; omega)]
  have hset : ∀ y, mapAt 0 ≤ y → setCount d (count d + leaf2.map.length) y = d y := fun y hy => setCount_above hy
  have hplace : mapAt 0 ≤ mapAt (leaf1.map.length + leaf2.map.length + 1) := by unfold mapAt; omega
  refine ⟨fun y hy hout => ?_, ?_, fun l hl hge => ?_, fun l hl => ?_, fun l hl => ?_, fun l hl => ?_, fun y hy => ?_,
    fun y hy => ?_, fun y hmap hy => ?_⟩
  · rw [setCount, write_of_outside (by omega), hhead y hy]
  · rw [count_setCount, count_congr hhead, h1.counted, Nat.mod_eq_of_lt]
    unfold mapAt at htop
    omega
  · have hlt := offset_lt m1 l
    rw [offset_setCount, offset_congr hdlow (by unfold mapAt; omega), offset_congr hlowc (by unfold mapAt at *; omega), hb,
      offset_rebase, if_pos (by omega), offset_congr hlowa (by unfold mapAt at *; omega)]
    unfold mapAt at htop
    omega
  · rw [rchunk_setCount, rchunk_congr hdlow (by unfold mapAt; omega), rchunk_congr hlowc (by unfold mapAt at *; omega), hb,
      rchunk_rebase, rchunk_congr hlowa (by unfold mapAt at *; omega)]
  · rw [offset_setCount, hd, offset_copy (by omega)]
  · rw [rchunk_setCount, hd, rchunk_copy (by omega)]
  · by_cases hlow : p - t + y < size - t
    · rw [hset _ (by omega), hdhigh _ (by omega), hc, copy_of_outside (.inl hlow), hbhigh _ (by omega), ha,
        copy_inside (by omega)]
    · omega
  · rw [hset _ (by omega), hdhigh _ (by omega), hc, copy_inside hy]
  · rw [hset _ (by omega), hdhigh _ hmap, hc, copy_of_outside (by omega), hbhigh _ hmap, ha, copy_of_outside (by omega)]

/-- `merge_leaves` on the blocks: the entries of the first leaf and then those of the second. -/
private theorem mergeLeaves_refines (h1 : Holds size m1 leaf1) (h2 : Holds size m2 leaf2)
    (hbase : leaf1.baseChunk = leaf2.baseChunk)
    (horder : ∀ e1 ∈ leaf1.map, ∀ e2 ∈ leaf2.map, e1.rchunk < e2.rchunk) (hfits : leafPayload m2 ≤ leafFreespace m1) :
    Holds size (mergeLeaves m1 m2) (Ddsnap.mergeLeaves leaf1 leaf2) := by
  obtain ⟨hm, hplace⟩ := mergeLeaves_merged h1 h2 hfits
  have hroom1 := h1.room
  have hroom2 := h2.room
  have hfirst1 : emap m1 0 = size - 16 * exceptionCount leaf1.map := h1.first
  have hec : exceptionCount (leaf1.map ++ leaf2.map) = exceptionCount leaf1.map + exceptionCount leaf2.map :=
    exceptionCount_append _ _
  rw [hfirst1] at hm hplace
  refine ⟨?_, ?_, ?_, h2.sentinel, ?_, h1.size, ?_, fun e he => ?_, fun e he => ?_⟩
  · rw [hm.counted, Ddsnap.mergeLeaves, List.length_append]
  · have hsame : baseChunk (mergeLeaves m1 m2) = baseChunk m1 := load_congr fun y hy => hm.header _ (by omega) (by omega)
    exact hsame.trans h1.base
  · show Entries _ 0 (size - 16 * exceptionCount (leaf1.map ++ leaf2.map)) (leaf1.map ++ leaf2.map)
    have hstart : size - 16 * exceptionCount (leaf1.map ++ leaf2.map) =
        size - 16 * exceptionCount leaf1.map - 16 * exceptionCount leaf2.map := by omega
    have hend : size - 16 * exceptionCount leaf1.map - 16 * exceptionCount leaf2.map + 16 * exceptionCount leaf1.map =
        size - 16 * exceptionCount leaf2.map := by omega
    rw [hstart]
    refine entries_append.2 ⟨h1.entries.relocate (fun l hl => ?_) (fun l hl => ?_) fun y hy => ?_, ?_⟩
    · rw [Nat.zero_add]
      exact hm.rchunks1 l hl
    · rw [Nat.zero_add]
      rcases Nat.lt_or_eq_of_le hl with hl | rfl
      · have hge := h1.entries.le_offset (Nat.le_of_lt hl)
        rw [Nat.zero_add] at hge
        rw [hm.offsets1 l hl hge]
        omega
      · have h0 := hm.offsets2 0 (Nat.zero_le _)
        rw [Nat.add_zero, Nat.add_zero, h2.first] at h0
        rw [h0, h1.last]
        omega
    · exact hm.bytes1 y (by omega)
    · rw [hend, Nat.zero_add]
      refine h2.entries.relocate (fun l hl => ?_) (fun l hl => ?_) fun y hy => ?_
      · exact hm.rchunks2 l (Nat.le_of_lt hl)
      · rw [hm.offsets2 l hl]
      · exact hm.bytes2 y hy
  · show mapAt ((leaf1.map ++ leaf2.map).length + 1) + 16 * exceptionCount (leaf1.map ++ leaf2.map) ≤ size
    rw [hec, List.length_append]
    omega
  · exact List.pairwise_append.2 ⟨h1.ascending, h2.ascending, horder⟩
  · rcases List.mem_append.1 he with he | he
    · exact h1.nonempty e he
    · exact h2.nonempty e he
  · rcases List.mem_append.1 he with he | he
    · exact h1.chunks e he
    · show leaf1.baseChunk + e.rchunk < 2 ^ 64
      rw [hbase]
      exact h2.chunks e he

/-! ### Both -/

private theorem Holds.same_offsets (h : Holds size m leaf) (h1 : Holds size m1 leaf) (hk : k ≤ leaf.map.length) :
    offset m1 k = offset m k := by
  have hcut : ∀ {m : Mem}, Holds size m leaf →
      offset m k = size - 16 * exceptionCount leaf.map + 16 * exceptionCount (leaf.map.take k) := by
    intro m h
    have hentries := h.entries
    rw [← List.take_append_drop k leaf.map] at hentries
    have hoff := (entries_append.1 hentries).2.offset_first
    rwa [List.take_append_drop, Nat.zero_add, List.length_take_of_le hk] at hoff
  rw [hcut h, hcut h1]

private theorem Holds.same_rchunks (h : Holds size m leaf) (h1 : Holds size m1 leaf) (hk : k < leaf.map.length) :
    rchunk m1 k = rchunk m k := by
  have hcut : ∀ {m : Mem}, Holds size m leaf → rchunk m k = leaf.map[k].rchunk := by
    intro m h
    have hentries := h.entries
    rw [← List.take_append_drop k leaf.map] at hentries
    have hup := (entries_append.1 hentries).2
    rw [List.take_append_drop, Nat.zero_add, List.length_take_of_le (Nat.le_of_lt hk), List.drop_eq_getElem_cons hk] at hup
    exact hup.2.1
  rw [hcut h, hcut h1]

private theorem halves_fit (h1 : Holds size m1 { leaf with map := pre }) (h2 : Holds size m2 { leaf with map := post })
    (h : Holds size m leaf) (hmap : leaf.map = pre ++ post) : leafPayload m2 ≤ leafFreespace m1 := by
  have hroom := h.room
  rw [h2.payload, h1.freespace, Ddsnap.leafPayload, Ddsnap.leafFreespace]
  rw [hmap, exceptionCount_append, List.length_append] at hroom
  dsimp only
  rw [h.sentinel]
  unfold mapAt at hroom
  omega

private theorem Holds.same_map (h : Holds size m leaf) (h1 : Holds size m1 leaf)
    (hphantom : rchunk m1 leaf.map.length = rchunk m leaf.map.length) (hlow : mapAt 0 ≤ y)
    (hhigh : y < mapAt (leaf.map.length + 1)) : m1 y = m y := by
  unfold mapAt at hlow hhigh
  obtain ⟨l, r, hr, rfl⟩ : ∃ l r, r < 8 ∧ y = mapAt l + r := ⟨(y - 24) / 8, (y - 24) % 8, by omega, by unfold mapAt; omega⟩
  have hl : l ≤ leaf.map.length := by unfold mapAt at hhigh; omega
  by_cases hr4 : r < 4
  · exact load_inj (h.same_offsets h1 hl) hr4
  · have hchunk : rchunk m1 l = rchunk m l := by
      rcases Nat.lt_or_eq_of_le hl with hl | rfl
      · exact h.same_rchunks h1 hl
      · exact hphantom
    have hbyte : m1 (mapAt l + 4 + (r - 4)) = m (mapAt l + 4 + (r - 4)) := load_inj hchunk (by omega)
    rwa [show mapAt l + 4 + (r - 4) = mapAt l + r by omega] at hbyte

/-- Merging the two halves of a split gives back every byte. -/
private theorem mergeLeaves_splitLeaf (h : Holds size m leaf) (htwo : 2 ≤ leaf.map.length) (m2 : Mem) :
    mergeLeaves (splitLeaf m m2).2.1 (splitLeaf m m2).2.2 = m := by
  obtain ⟨-, hlower, hupper, hhalved⟩ := splitLeaf_refines h htwo m2
  generalize (splitLeaf m m2).2.1 = lower at *
  generalize (splitLeaf m m2).2.2 = upper at *
  unfold Ddsnap.splitLeaf at hlower hupper
  dsimp only at hlower hupper
  obtain ⟨nhead, hnhead⟩ : ∃ nhead, nhead = (leaf.map.length + 1) / 2 := ⟨_, rfl⟩
  obtain ⟨pre, hpre⟩ : ∃ pre, pre = leaf.map.take nhead := ⟨_, rfl⟩
  obtain ⟨post, hpost⟩ : ∃ post, post = leaf.map.drop nhead := ⟨_, rfl⟩
  have hmap : leaf.map = pre ++ post := by rw [hpre, hpost, List.take_append_drop]
  have hprelen : pre.length = nhead := by rw [hpre, List.length_take]; omega
  have hlen : leaf.map.length = pre.length + post.length := by rw [hmap, List.length_append]
  have hec : exceptionCount leaf.map = exceptionCount pre + exceptionCount post := by rw [hmap, exceptionCount_append]
  rw [← hnhead, ← hpre] at hlower
  rw [← hnhead, ← hpost] at hupper
  rw [← hnhead, ← hprelen, h.ptail hmap, show emap m 0 = size - 16 * exceptionCount leaf.map from h.first] at hhalved
  have hfits := halves_fit hlower hupper h hmap
  have horder : ∀ e1 ∈ pre, ∀ e2 ∈ post, e1.rchunk < e2.rchunk := by
    have hasc := h.ascending
    rw [hmap] at hasc
    exact (List.pairwise_append.1 hasc).2.2
  have hwhole := mergeLeaves_refines hlower hupper rfl horder hfits
  rw [show Ddsnap.mergeLeaves { leaf with map := pre } { leaf with map := post } = leaf by
    unfold Ddsnap.mergeLeaves; dsimp only; rw [← hmap]] at hwhole
  obtain ⟨hm, hplace⟩ := mergeLeaves_merged hlower hupper hfits
  have hroom := h.room
  rw [show emap lower 0 = size - 16 * exceptionCount pre from hlower.first] at hm hplace
  dsimp only at hm hplace
  rw [← hlen] at hplace
  generalize hp : size - 16 * exceptionCount leaf.map = p at *
  generalize hq : size - 16 * exceptionCount post = q at *
  have hstart : size - 16 * exceptionCount pre - 16 * exceptionCount post = p := by omega
  funext y
  by_cases hhead : y < 24
  · by_cases hcount : y < 4 ∨ 8 ≤ y
    · rw [hm.header y hhead hcount, hhalved.header y hhead hcount]
    · have hload : load 4 (mergeLeaves lower upper) 4 = load 4 m 4 := hwhole.counted.trans h.counted.symm
      have hbyte : mergeLeaves lower upper (4 + (y - 4)) = m (4 + (y - 4)) := load_inj hload (by omega)
      rwa [show 4 + (y - 4) = y by omega] at hbyte
  by_cases htop : y < mapAt (leaf.map.length + 1)
  · refine h.same_map hwhole ?_ (by unfold mapAt; omega) htop
    have h2 := hm.rchunks2 post.length (Nat.le_refl _)
    have h3 := hhalved.phantom
    rw [Nat.zero_add] at h2
    rw [show leaf.map.length - pre.length = post.length by omega] at h3
    rw [hlen, h2, h3, ← hlen]
  by_cases hgap : y < p ∨ size ≤ y
  · rw [hm.rest y (by rw [← hlen]; omega) (by omega), hhalved.rest y (by unfold mapAt at *; omega) hgap]
  by_cases hlow : y < q
  · have h1 := hm.bytes1 (y - p) (by omega)
    have h2 := hhalved.moved (y - p) (by omega)
    rw [hstart, show p + (y - p) = y by omega, show size - 16 * exceptionCount pre = p + (size - q) by omega, h2,
      show p + (y - p) = y by omega] at h1
    exact h1
  · have h1 := hm.bytes2 (y - q) (by omega)
    rw [hq, show q + (y - q) = y by omega] at h1
    have h2 := hhalved.data (y - q) (by omega)
    rw [show q + (y - q) = y by omega] at h2
    rw [h1, h2]

/-- The key of a split is above the chunks of the lower half and not above those of the upper half. -/
private theorem Holds.split_key (h : Holds size m leaf) (htwo : 2 ≤ leaf.map.length) :
    (∀ e ∈ (Ddsnap.splitLeaf leaf).2.1.map, leaf.baseChunk + e.rchunk < (Ddsnap.splitLeaf leaf).1) ∧
      ∀ e ∈ (Ddsnap.splitLeaf leaf).2.2.map, (Ddsnap.splitLeaf leaf).1 ≤ leaf.baseChunk + e.rchunk := by
  unfold Ddsnap.splitLeaf
  dsimp only
  generalize hn : (leaf.map.length + 1) / 2 = nhead
  have hlt : nhead < leaf.map.length := by omega
  have hasc := h.ascending
  rw [← List.take_append_drop nhead leaf.map, List.drop_eq_getElem_cons hlt] at hasc
  obtain ⟨-, hpost, hboth⟩ := List.pairwise_append.1 hasc
  rw [List.getElem?_eq_getElem hlt, Option.map_some, Option.getD_some]
  refine ⟨fun e he => ?_, fun e he => ?_⟩
  · have := hboth e he _ List.mem_cons_self
    omega
  · rw [List.drop_eq_getElem_cons hlt] at he
    rcases List.mem_cons.1 he with rfl | he
    · omega
    · have := (List.pairwise_cons.1 hpost).1 e he
      omega

/-- Splitting a leaf cuts it at the returned key, merging leaves puts their entries together, and the two halves of a split
merge to the block that there was. -/
theorem split_merge_keep (size : Nat) :
    (∀ m m2 leaf, Holds size m leaf → 2 ≤ leaf.map.length → ∃ lower upper,
      Holds size (splitLeaf m m2).2.1 lower ∧ Holds size (splitLeaf m m2).2.2 upper ∧
      lower.baseChunk = leaf.baseChunk ∧ upper.baseChunk = leaf.baseChunk ∧
      (∀ c, exnsAt lower.map c = if leaf.baseChunk + c < (splitLeaf m m2).1 then exnsAt leaf.map c else []) ∧
      (∀ c, exnsAt upper.map c = if leaf.baseChunk + c < (splitLeaf m m2).1 then [] else exnsAt leaf.map c) ∧
      mergeLeaves (splitLeaf m m2).2.1 (splitLeaf m m2).2.2 = m) ∧
    (∀ m1 m2 leaf1 leaf2, Holds size m1 leaf1 → Holds size m2 leaf2 → leaf1.baseChunk = leaf2.baseChunk →
      (∀ e1 ∈ leaf1.map, ∀ e2 ∈ leaf2.map, e1.rchunk < e2.rchunk) → leafPayload m2 ≤ leafFreespace m1 →
      ∃ leaf, Holds size (mergeLeaves m1 m2) leaf ∧ leaf.baseChunk = leaf1.baseChunk ∧
        leaf.map = leaf1.map ++ leaf2.map) := by
  refine ⟨fun m m2 leaf h htwo => ?_, fun m1 m2 leaf1 leaf2 h1 h2 hbase horder hfits => ?_⟩
  · obtain ⟨hkey, hlower, hupper, -⟩ := splitLeaf_refines h htwo m2
    obtain ⟨hbelow, habove⟩ := h.split_key htwo
    have hmap : leaf.map = (Ddsnap.splitLeaf leaf).2.1.map ++ (Ddsnap.splitLeaf leaf).2.2.map :=
      (List.take_append_drop _ _).symm
    refine ⟨_, _, hlower, hupper, rfl, rfl, fun c => ?_, fun c => ?_, mergeLeaves_splitLeaf h htwo m2⟩
    · rw [hkey]
      by_cases hc : leaf.baseChunk + c < (Ddsnap.splitLeaf leaf).1
      · rw [if_pos hc]
        conv_rhs => rw [hmap]
        refine (exnsAt_append_of_ne_right fun e he => ?_).symm
        have := habove e he
        omega
      · rw [if_neg hc]
        refine exnsAt_of_ne fun e he => ?_
        have := hbelow e he
        omega
    · rw [hkey]
      by_cases hc : leaf.baseChunk + c < (Ddsnap.splitLeaf leaf).1
      · rw [if_pos hc]
        refine exnsAt_of_ne fun e he => ?_
        have := habove e he
        omega
      · rw [if_neg hc]
        conv_rhs => rw [hmap]
        refine (exnsAt_append_of_ne fun e he => ?_).symm
        have := hbelow e he
        omega
  · exact ⟨_, mergeLeaves_refines h1 h2 hbase horder hfits, rfl, rfl⟩

/-- A block of 128 bytes with the chunks 5 and 9 is split and merged. -/
theorem split_merge_keep_two : ∃ m leaf, Holds 128 m leaf ∧ leaf.map.length = 2 ∧
    mergeLeaves (splitLeaf m m).2.1 (splitLeaf m m).2.2 = m := by
  obtain ⟨m, leaf, h, hmap⟩ := holds_two
  have htwo : leaf.map.length = 2 := by
    rw [hmap]
    decide
  obtain ⟨hsplit, -⟩ := split_merge_keep 128
  obtain ⟨-, -, -, -, -, -, -, -, hback⟩ := hsplit m m leaf h (Nat.le_of_eq htwo.symm)
  exact ⟨m, leaf, h, htwo, hback⟩

end Ddsnap.LeafBytes
