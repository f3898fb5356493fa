import Ddsnap.LeafLayout

/-!
# Insertion into the bytes of a leaf

`add_exception_to_leaf` either leaves the block alone or makes it hold the leaf with the new exception.  Both ways through
the function end in the same place: the block has an entry for the chunk, new and without exceptions or old and with the
snapshot's bit cleared, and the new exception is put in front of its exceptions.
-/

namespace Ddsnap.LeafBytes

open ByteMemory

variable {m m' : Mem} {i j k n p q c x y target size : Nat} {map pre post : List EtreeMap} {exns : List Exception}
  {s mask active : Mask} {leaf : Eleaf}

theorem Entries.le_offset (h : Entries m i p map) (hk : k ≤ map.length) : p ≤ offset m (i + k) := by
  induction map generalizing i p k with
  | nil =>
    rw [List.length_nil, Nat.le_zero] at hk
    rw [hk, Nat.add_zero, h.offset_first]
  | cons e map ih =>
    cases k with
    | zero => rw [Nat.add_zero, h.offset_first]
    | succ k =>
      have := ih h.2.2.2 (Nat.le_of_succ_le_succ hk)
      rw [show i + (k + 1) = i + 1 + k by omega]
      omega

theorem Entries.offset_le (h : Entries m i p map) (hk : k ≤ map.length) :
    offset m (i + k) ≤ p + 16 * exceptionCount map := by
  induction map generalizing i p k with
  | nil =>
    rw [List.length_nil, Nat.le_zero] at hk
    rw [hk, Nat.add_zero, h.offset_first]
    exact Nat.le_add_right _ _
  | cons e map ih =>
    rw [exceptionCount_cons]
    cases k with
    | zero =>
      rw [Nat.add_zero, h.offset_first]
      exact Nat.le_add_right _ _
    | succ k =>
      have := ih h.2.2.2 (Nat.le_of_succ_le_succ hk)
      rw [show i + (k + 1) = i + 1 + k by omega]
      omega

theorem offset_lt (m : Mem) (j : Nat) : offset m j < 2 ^ 32 := load4_lt _ _

/-! ### The search -/

private theorem findEntry_eq (h : Entries m i p map) :
    findEntry m target map.length i = i + (map.takeWhile fun e => e.rchunk < target).length := by
  induction map generalizing i p with
  | nil => rfl
  | cons e map ih =>
    obtain ⟨-, hchunk, -, hrest⟩ := h
    rw [List.length_cons, findEntry, hchunk]
    by_cases hlt : e.rchunk < target
    · rw [if_neg (by omega), ih hrest, List.takeWhile_cons_of_pos (by simpa using hlt), List.length_cons]
      omega
    · rw [if_pos (by omega), List.takeWhile_cons_of_neg (by simpa using hlt)]
      rfl

/-! ### The new exception -/

/-- The exceptions before the pointer are moved down and the new one is put behind them. -/
private theorem insertException_entries (h : Entries m 0 p (pre ++ ⟨c, exns⟩ :: post)) (hx : x < 2 ^ 64)
    (hroom : mapAt (pre.length + 1 + post.length + 1) + 16 ≤ p) :
    Entries (insertException m p (p + 16 * exceptionCount pre) pre.length s x) 0 (p - 16)
      (pre ++ ⟨c, ⟨s, x⟩ :: exns⟩ :: post) := by
  obtain ⟨hpre, hmid⟩ := entries_append.1 h
  rw [Nat.zero_add] at hmid
  generalize hins : p + 16 * exceptionCount pre = ins at hmid ⊢
  obtain ⟨hoff, hchunk, hexns, hpost⟩ := hmid
  have htop : ∀ l ≤ pre.length + 1 + post.length, mapAt (l + 1) + 16 ≤ p := by
    intro l hl
    unfold mapAt at *
    omega
  -- the block before the offsets are lowered
  obtain ⟨m3, hm3⟩ : ∃ m3, m3 = setChunk (setShare (copy m (p - 16) m p (ins - p)) (ins - 16) s) (ins - 16) x := ⟨_, rfl⟩
  have hlow : ∀ y < p - 16, m3 y = m y := by
    intro y hy
    rw [hm3, setChunk, setShare, write_of_outside (by omega), write_of_outside (by omega), copy_of_outside (by omega)]
  have hhigh : ∀ y, ins ≤ y → m3 y = m y := by
    intro y hy
    rw [hm3, setChunk, setShare, write_of_outside (by omega), write_of_outside (by omega), copy_of_outside (by omega)]
  have hmoved : ∀ y < 16 * exceptionCount pre, m3 (p - 16 + y) = m (p + y) := by
    intro y hy
    rw [hm3, setChunk, setShare, write_of_outside (by omega), write_of_outside (by omega), copy_inside (by omega)]
  have hnew : exceptionAt m3 (ins - 16) = ⟨s, x⟩ := by
    have hshare : share m3 (ins - 16) = s := by
      rw [← share_setShare (copy m (p - 16) m p (ins - p)) (ins - 16) s, hm3, share, setChunk,
        load_write_of_disjoint (by omega), share]
    have hx' : load 8 m3 (ins - 16 + 8) = x := by
      rw [hm3, setChunk, load8_write, Nat.mod_eq_of_lt hx]
    rw [exceptionAt, hshare, hx']
  -- the block with the offsets lowered
  have heq : insertException m p ins pre.length s x = rebase (fun offset => offset + (2 ^ 32 - 16)) m3 (pre.length + 1) := by
    rw [hm3]
    rfl
  rw [heq]
  obtain ⟨m4, hm4⟩ : ∃ m4, m4 = rebase (fun offset => offset + (2 ^ 32 - 16)) m3 (pre.length + 1) := ⟨_, rfl⟩
  rw [← hm4]
  have hkeep : ∀ y, mapAt (pre.length + 1) ≤ y → m4 y = m3 y := fun y hy => by rw [hm4, rebase_above hy]
  have hrchunk : ∀ l ≤ pre.length + 1 + post.length, rchunk m4 l = rchunk m l := by
    intro l hl
    rw [hm4, rchunk_rebase]
    exact rchunk_congr hlow (by have := htop l hl; omega)
  have hoffset : ∀ l ≤ pre.length + 1 + post.length,
      offset m4 l = if l ≤ pre.length then offset m l - 16 else offset m l := by
    intro l hl
    have hsame : offset m3 l = offset m l := offset_congr hlow (by have := htop l hl; omega)
    have hlt := offset_lt m l
    rw [hm4, offset_rebase, hsame]
    by_cases hle : l ≤ pre.length
    · have hge := hpre.le_offset hle
      have := htop l hl
      rw [Nat.zero_add] at hge
      rw [if_pos (by omega), if_pos hle]
      omega
    · rw [if_neg (by omega), if_neg hle]
  have htop0 := htop pre.length (by omega)
  refine entries_append.2 ⟨hpre.relocate (fun l hl => ?_) (fun l hl => ?_) fun y hy => ?_, ?_⟩
  · exact hrchunk _ (by omega)
  · have hge := hpre.le_offset hl
    rw [hoffset _ (by omega), if_pos (by omega)]
    omega
  · rw [hkeep _ (by omega), hmoved y hy]
  · have hsub : p - 16 + 16 * exceptionCount pre = ins - 16 := by omega
    have hrest : ∀ y, ins ≤ y → m4 y = m y := fun y hy => by rw [hkeep _ (by omega), hhigh y hy]
    rw [Nat.zero_add, hsub]
    refine ⟨?_, ?_, ?_, ?_⟩
    · rw [hoffset _ (by omega), if_pos (Nat.le_refl _), hoff]
    · rw [hrchunk _ (by omega), hchunk]
    · have hfront : exceptionAt m4 (ins - 16) = ⟨s, x⟩ := by
        rw [← hnew]
        exact exceptionAt_congr fun y _ => hkeep _ (by omega)
      have hback : exceptionsFrom m4 (ins - 16 + 16) exns.length = exns := by
        rw [show ins - 16 + 16 = ins by omega, exceptionsFrom_congr fun y _ => hrest _ (by omega)]
        exact hexns
      rw [List.length_cons, exceptionsFrom, hfront, hback]
    · have hend : ins - 16 + 16 * (⟨s, x⟩ :: exns : List Exception).length = ins + 16 * exns.length := by
        rw [List.length_cons]
        omega
      rw [hend]
      refine hpost.congr (fun l hl => hrchunk _ (by omega)) (fun l hl => ?_) fun y _ => hrest _ (by omega)
      rw [hoffset _ (by omega), if_neg (by omega)]

private theorem insertException_header (hp : 40 ≤ p) (hq : p ≤ q) (hy : y < 24) : insertException m p q i s x y =
    m y := by
  unfold insertException setChunk setShare
  rw [rebase_header hy, write_of_outside (by omega), write_of_outside (by omega), copy_of_outside (by omega)]

/-! ### An entry for the chunk -/

/-- The entries from the insertion point on are moved up, and the new one has no exceptions yet. -/
private theorem newEntry_entries (h : Entries m 0 p (pre ++ post)) (hc : c < 2 ^ 32)
    (hroom : mapAt (pre.length + post.length + 2) ≤ p) :
    Entries (setRchunk (setOffset (copy m (mapAt (pre.length + 1)) m (mapAt pre.length) (8 * (post.length + 1))) pre.length
      (p + 16 * exceptionCount pre)) pre.length c) 0 p (pre ++ ⟨c, []⟩ :: post) := by
  obtain ⟨hpre, hpost⟩ := entries_append.1 h
  rw [Nat.zero_add] at hpost
  have hins : p + 16 * exceptionCount pre < 2 ^ 32 := by
    rw [← hpost.offset_first]
    exact offset_lt _ _
  obtain ⟨cp, hcp⟩ : ∃ cp, cp = copy m (mapAt (pre.length + 1)) m (mapAt pre.length) (8 * (post.length + 1)) := ⟨_, rfl⟩
  rw [← hcp]
  have hlow : ∀ y < mapAt (pre.length + 1), cp y = m y := fun y hy => by rw [hcp, copy_of_outside (.inl hy)]
  have hhigh : ∀ y, p ≤ y → setRchunk (setOffset cp pre.length (p + 16 * exceptionCount pre)) pre.length c y = m y := by
    intro y hy
    have htop : mapAt (pre.length + 1) + 8 * (post.length + 1) ≤ p := by unfold mapAt at *; omega
    rw [setRchunk_above (by omega), setOffset_above (by omega), hcp, copy_of_outside (by omega)]
  have hoffset : ∀ l ≤ pre.length, offset (setRchunk (setOffset cp pre.length (p + 16 * exceptionCount pre)) pre.length c) l =
      offset m l := by
    intro l hl
    rw [offset_setRchunk, offset_setOffset]
    by_cases heq : l = pre.length
    · rw [if_pos heq, heq, hpost.offset_first, Nat.mod_eq_of_lt hins]
    · rw [if_neg heq]
      exact offset_congr hlow (by unfold mapAt; omega)
  refine entries_append.2 ⟨hpre.congr (fun l hl => ?_) (fun l hl => ?_) fun y _ => ?_, ?_⟩
  · rw [rchunk_setRchunk, if_neg (by omega), rchunk_setOffset]
    exact rchunk_congr hlow (by unfold mapAt; omega)
  · exact hoffset _ (by omega)
  · exact hhigh _ (by omega)
  rw [Nat.zero_add]
  refine ⟨?_, ?_, rfl, ?_⟩
  · rw [hoffset _ (Nat.le_refl _), hpost.offset_first]
  · rw [rchunk_setRchunk, if_pos rfl, Nat.mod_eq_of_lt hc]
  · rw [List.length_nil]
    refine hpost.relocate (fun l hl => ?_) (fun l hl => ?_) fun y _ => ?_
    · rw [rchunk_setRchunk, if_neg (by omega), rchunk_setOffset, hcp, rchunk_copy (by omega)]
    · rw [offset_setRchunk, offset_setOffset, if_neg (by omega), hcp, offset_copy (by omega)]
      omega
    · exact hhigh _ (by omega)

/-! ### The loops over the exceptions of the chunk -/

private theorem sharesUpTo_eq (hexns : exceptionsFrom m p exns.length = exns) (hk : exns.length ≤ k) :
    sharesUpTo m (p + 16 * exns.length) k p s = exns.foldl (fun used e => used ||| e.share) s := by
  induction exns generalizing p k s with
  | nil =>
    cases k with
    | zero => rfl
    | succ k => exact if_neg (by simp)
  | cons e exns ih =>
    obtain ⟨k, rfl⟩ : ∃ k', k = k' + 1 := ⟨k - 1, by rw [List.length_cons] at hk; omega⟩
    rw [List.length_cons, exceptionsFrom] at hexns
    obtain ⟨he, hexns⟩ := List.cons.inj hexns
    have hshare : share m p = e.share := by rw [← he, exceptionAt]
    have hend : p + 16 * (e :: exns).length = p + 16 + 16 * exns.length := by rw [List.length_cons]; omega
    rw [hend, sharesUpTo, if_pos (by omega), ih hexns (by simpa using hk), hshare]
    rfl

private theorem clearUpTo_outside (hy : y < p ∨ q ≤ y) (hq : 16 ∣ q - p) : clearUpTo m mask q k p y = m y := by
  induction k generalizing p with
  | zero => rfl
  | succ k ih =>
    unfold clearUpTo
    split
    · rename_i hlt
      have hge : p + 16 ≤ q := by have := Nat.le_of_dvd (by omega) hq; omega
      split
      · exact write_of_outside (by omega)
      · exact ih (by omega) (by obtain ⟨d, hd⟩ := hq; exact ⟨d - 1, by omega⟩)
    · rfl

private theorem clearUpTo_eq (hexns : exceptionsFrom m p exns.length = exns) (hk : exns.length ≤ k) :
    exceptionsFrom (clearUpTo m mask (p + 16 * exns.length) k p) p exns.length = clearFirst mask exns := by
  induction exns generalizing p k with
  | nil => rfl
  | cons e exns ih =>
    obtain ⟨k, rfl⟩ : ∃ k', k = k' + 1 := ⟨k - 1, by rw [List.length_cons] at hk; omega⟩
    rw [List.length_cons, exceptionsFrom] at hexns
    obtain ⟨he, hexns⟩ := List.cons.inj hexns
    have hshare : share m p = e.share := by rw [← he, exceptionAt]
    have hend : p + 16 * (e :: exns).length = p + 16 + 16 * exns.length := by rw [List.length_cons]; omega
    rw [hend, clearUpTo, if_pos (by omega), hshare, clearFirst, List.length_cons, exceptionsFrom]
    by_cases hany : e.share &&& mask ≠ 0
    · rw [if_pos hany, if_pos hany]
      have hrest : exceptionsFrom (setShare m p (e.share &&& ~~~mask)) (p + 16) exns.length = exns := by
        rw [← hexns, exceptionsFrom_length]
        exact exceptionsFrom_congr fun y _ => write_of_outside (by omega)
      rw [exceptionAt_setShare, he, hrest]
    · rw [if_neg hany, if_neg hany]
      have hfirst : exceptionAt (clearUpTo m mask (p + 16 + 16 * exns.length) k (p + 16)) p = e := by
        rw [← he]
        refine exceptionAt_congr fun y hy => clearUpTo_outside (.inl (by omega)) (Dvd.intro exns.length (by omega))
      rw [hfirst, ih hexns (by simpa using hk)]

/-- The snapshot's bit is cleared in the entry of the chunk. -/
private theorem clearUpTo_entries (h : Entries m 0 p (pre ++ ⟨c, exns⟩ :: post))
    (hroom : mapAt (pre.length + 1 + post.length + 1) ≤ p) (hq : q = p + 16 * exceptionCount pre) (hk : exns.length ≤ k) :
    Entries (clearUpTo m mask (q + 16 * exns.length) k q) 0 p (pre ++ ⟨c, clearFirst mask exns⟩ :: post) := by
  obtain ⟨hpre, hmid⟩ := entries_append.1 h
  rw [Nat.zero_add, ← hq] at hmid
  obtain ⟨hoff, hchunk, hexns, hpost⟩ := hmid
  dsimp only at hchunk hexns hpost
  have hsame : ∀ y, y < q ∨ q + 16 * exns.length ≤ y → clearUpTo m mask (q + 16 * exns.length) k q y = m y :=
    fun y hy => clearUpTo_outside hy (Dvd.intro exns.length (by omega))
  have hlow : ∀ y < p, clearUpTo m mask (q + 16 * exns.length) k q y = m y := fun y hy => hsame y (by omega)
  have htop : ∀ l ≤ pre.length + 1 + post.length, mapAt (l + 1) ≤ p := by
    intro l hl
    unfold mapAt at *
    omega
  refine entries_append.2 ⟨hpre.congr (fun l hl => ?_) (fun l hl => ?_) fun y hy => ?_, ?_⟩
  · exact rchunk_congr hlow (htop _ (by omega))
  · exact offset_congr hlow (htop _ (by omega))
  · exact hsame _ (by omega)
  · rw [Nat.zero_add, ← hq]
    refine ⟨?_, ?_, ?_, ?_⟩
    · rw [offset_congr hlow (htop _ (by omega)), hoff]
    · rw [rchunk_congr hlow (htop _ (by omega)), hchunk]
    · rw [clearFirst_length]
      exact clearUpTo_eq hexns hk
    · rw [clearFirst_length]
      refine hpost.congr (fun l hl => ?_) (fun l hl => ?_) fun y hy => ?_
      · exact rchunk_congr hlow (htop _ (by omega))
      · exact offset_congr hlow (htop _ (by omega))
      · exact hsame _ (by omega)

/-! ### The whole function -/

variable {exception chunk : Nat} {snapshot : Option Nat}

private theorem Holds.split_at (h : Holds size m leaf) (target : Nat) : ∃ pre post, leaf.map = pre ++ post ∧
    findEntry m target (count m) 0 = pre.length ∧ leaf.map.takeWhile (fun e => e.rchunk < target) = pre ∧
    leaf.map.dropWhile (fun e => e.rchunk < target) = post := by
  refine ⟨_, _, (List.takeWhile_append_dropWhile ..).symm, ?_, rfl, rfl⟩
  rw [h.counted, findEntry_eq h.entries, Nat.zero_add]

/-- What is left to show once the entries are in place. -/
private theorem Holds.add (h : Holds size m leaf) (hneed : bytesNeeded leaf.map target ≤ Ddsnap.leafFreespace leaf)
    (hc : leaf.baseChunk + target < 2 ^ 64)
    (hcount : count m' = (addEntry leaf.map target exception snapshot active).length) (hbase : baseChunk m' = baseChunk m)
    (hentries : Entries m' 0 (size - 16 * exceptionCount (addEntry leaf.map target exception snapshot active))
      (addEntry leaf.map target exception snapshot active)) :
    Holds size m' { leaf with map := addEntry leaf.map target exception snapshot active } := by
  have hsize := addEntry_size leaf.map target exception snapshot active
  have hroom := h.room
  refine ⟨hcount, hbase.trans h.base, hentries, h.sentinel, ?_, h.size, h.ascending.addEntry,
    fun e he => addEntry_nonempty h.nonempty he, fun e he => ?_⟩
  · rw [Ddsnap.leafFreespace, h.sentinel] at hneed
    unfold mapAt at hroom ⊢
    dsimp only
    omega
  · rcases addEntry_rchunk he with hnew | ⟨e', he', hold⟩
    · rw [hnew]
      exact hc
    · rw [← hold]
      exact h.chunks e' he'

/-- A chunk without an entry. -/
private theorem Holds.addNew (h : Holds size m leaf) (hmap : leaf.map = pre ++ post)
    (hadd : addEntry leaf.map target exception snapshot active = pre ++ ⟨target, [⟨s, exception⟩]⟩ :: post)
    (hneed : bytesNeeded leaf.map target = 24) (hfree : 24 ≤ Ddsnap.leafFreespace leaf) (ht : target < 2 ^ 32)
    (hc : leaf.baseChunk + target < 2 ^ 64) (hx : exception < 2 ^ 64) :
    Holds size (insertException (setCount (setRchunk (setOffset (copy m (mapAt (pre.length + 1)) m (mapAt pre.length)
        (mapAt (count m + 1) - mapAt pre.length)) pre.length (emap m pre.length)) pre.length target)
        (leaf.map.length + 1)) (emap m 0) (emap m pre.length) pre.length s exception)
      { leaf with map := addEntry leaf.map target exception snapshot active } := by
  have hroom := h.room
  have hsize := h.size
  have hlen : leaf.map.length = pre.length + post.length := by rw [hmap, List.length_append]
  have hec : exceptionCount leaf.map = exceptionCount pre + exceptionCount post := by rw [hmap, exceptionCount_append]
  rw [Ddsnap.leafFreespace, h.sentinel] at hfree
  have hentries := h.entries
  rw [hmap, ← hmap] at hentries
  have hfirst : emap m 0 = size - 16 * exceptionCount leaf.map := h.first
  have hins : emap m pre.length = size - 16 * exceptionCount leaf.map + 16 * exceptionCount pre := by
    rw [hmap] at hentries
    have := (entries_append.1 hentries).2.offset_first
    rwa [Nat.zero_add, ← hmap] at this
  have hbytes : mapAt (count m + 1) - mapAt pre.length = 8 * (post.length + 1) := by
    rw [h.counted, hlen]
    unfold mapAt
    omega
  rw [hbytes, hins, hfirst]
  generalize hp : size - 16 * exceptionCount leaf.map = p at *
  have hplace : mapAt (pre.length + post.length + 2) + 16 ≤ p := by
    unfold mapAt at *
    omega
  have hnew := newEntry_entries (by rw [← hmap]; exact hentries) ht (by omega)
  obtain ⟨m1, hm1⟩ : ∃ m1, m1 = setRchunk (setOffset (copy m (mapAt (pre.length + 1)) m (mapAt pre.length)
    (8 * (post.length + 1))) pre.length (p + 16 * exceptionCount pre)) pre.length target := ⟨_, rfl⟩
  rw [← hm1] at hnew ⊢
  have hset : Entries (setCount m1 (leaf.map.length + 1)) 0 p (pre ++ ⟨target, []⟩ :: post) := by
    refine hnew.congr (fun _ _ => rchunk_setCount _ _ _) (fun _ _ => offset_setCount _ _ _) fun y _ => ?_
    exact setCount_above (by unfold mapAt at *; omega)
  have hhead : ∀ y < 24, m1 y = m y := by
    intro y hy
    rw [hm1, setRchunk_header hy, setOffset_header hy, copy_of_outside (by unfold mapAt; omega)]
  have h40 : 40 ≤ p := by unfold mapAt at hplace; omega
  refine h.add (by rw [hneed, Ddsnap.leafFreespace, h.sentinel]; omega) hc ?_ ?_ ?_
  · rw [count_congr fun y hy => insertException_header h40 (by omega) hy, count_setCount, hadd, List.length_append,
      List.length_cons, Nat.mod_eq_of_lt (by unfold mapAt at hplace; omega)]
    omega
  · rw [baseChunk_congr fun y hy => insertException_header h40 (by omega) hy, baseChunk_setCount, baseChunk_congr hhead]
  · have hput := insertException_entries (s := s) hset hx (by unfold mapAt at *; omega)
    have hcount' : exceptionCount (pre ++ ⟨target, [⟨s, exception⟩]⟩ :: post) = exceptionCount leaf.map + 1 := by
      rw [exceptionCount_append, exceptionCount_cons, hec, List.length_singleton]
      omega
    rw [hadd, hcount', show size - 16 * (exceptionCount leaf.map + 1) = p - 16 by omega]
    exact hput

/-- A chunk with an entry, whose exceptions may have been changed before. -/
private theorem Holds.addOld {m1 : Mem} {exns' : List Exception} (h : Holds size m leaf)
    (hmap : leaf.map = pre ++ ⟨target, exns⟩ :: post) (hlen : exns'.length = exns.length)
    (hadd : addEntry leaf.map target exception snapshot active = pre ++ ⟨target, ⟨s, exception⟩ :: exns'⟩ :: post)
    (hneed : bytesNeeded leaf.map target = 16) (hfree : 16 ≤ Ddsnap.leafFreespace leaf)
    (hc : leaf.baseChunk + target < 2 ^ 64) (hx : exception < 2 ^ 64) (hhead : ∀ y < 24, m1 y = m y)
    (hentries : Entries m1 0 (emap m 0) (pre ++ ⟨target, exns'⟩ :: post)) :
    Holds size (insertException m1 (emap m 0) (emap m 0 + 16 * exceptionCount pre) pre.length s exception)
      { leaf with map := addEntry leaf.map target exception snapshot active } := by
  have hroom := h.room
  have hmaplen : leaf.map.length = pre.length + 1 + post.length := by
    rw [hmap, List.length_append, List.length_cons]
    omega
  have hec : exceptionCount leaf.map = exceptionCount pre + (exns.length + exceptionCount post) := by
    rw [hmap, exceptionCount_append, exceptionCount_cons]
  have hfirst : emap m 0 = size - 16 * exceptionCount leaf.map := h.first
  rw [hfirst] at hentries ⊢
  have hfree' := hfree
  rw [Ddsnap.leafFreespace, h.sentinel] at hfree'
  generalize hp : size - 16 * exceptionCount leaf.map = p at *
  have hplace : mapAt (pre.length + 1 + post.length + 1) + 16 ≤ p := by
    unfold mapAt at *
    omega
  have h40 : 40 ≤ p := by unfold mapAt at hplace; omega
  refine h.add (by rw [hneed]; exact hfree) hc ?_ ?_ ?_
  · rw [count_congr fun y hy => insertException_header h40 (by omega) hy, count_congr hhead, h.counted, hadd,
      List.length_append, List.length_cons]
    omega
  · rw [baseChunk_congr fun y hy => insertException_header h40 (by omega) hy, baseChunk_congr hhead]
  · have hcount' : exceptionCount (pre ++ ⟨target, ⟨s, exception⟩ :: exns'⟩ :: post) = exceptionCount leaf.map + 1 := by
      rw [exceptionCount_append, exceptionCount_cons, hec, List.length_cons, hlen]
      omega
    rw [hadd, hcount', show size - 16 * (exceptionCount leaf.map + 1) = p - 16 by omega]
    exact insertException_entries hentries hx hplace

private theorem addExceptionToLeaf_new (htarget : (chunk + (2 ^ 64 - baseChunk m)) % 2 ^ 64 % 2 ^ 32 = target)
    (hfind : findEntry m target (count m) 0 = i) (hnew : i = count m ∨ target < rchunk m i) :
    addExceptionToLeaf m chunk exception snapshot active =
      if leafFreespace m < 24 then (false, m)
      else (true, insertException (setCount (setRchunk (setOffset (copy m (mapAt (i + 1)) m (mapAt i)
        (mapAt (count m + 1) - mapAt i)) i (emap m i)) i target) (count (setRchunk (setOffset (copy m (mapAt (i + 1)) m
        (mapAt i) (mapAt (count m + 1) - mapAt i)) i (emap m i)) i target) + 1)) (emap m 0) (emap m i) i
        (match snapshot with | none => active | some bit => maskBit bit) exception) := by
  unfold addExceptionToLeaf leafFreespace
  dsimp only
  rewrite [htarget, hfind, if_pos hnew]
  cases snapshot <;> rfl

private theorem addExceptionToLeaf_old (htarget : (chunk + (2 ^ 64 - baseChunk m)) % 2 ^ 64 % 2 ^ 32 = target)
    (hfind : findEntry m target (count m) 0 = i) (hold : ¬ (i = count m ∨ target < rchunk m i)) :
    addExceptionToLeaf m chunk exception snapshot active =
      if leafFreespace m < 16 then (false, m)
      else match snapshot with
        | none => (true, insertException m (emap m 0) (emap m i) i
          (~~~(sharesUpTo m (emap m (i + 1)) (emap m (i + 1) - emap m i) (emap m i) 0) &&& active) exception)
        | some bit => (true, insertException (clearUpTo m (maskBit bit) (emap m (i + 1)) (emap m (i + 1) - emap m i)
          (emap m i)) (emap m 0) (emap m i) i (maskBit bit) exception) := by
  unfold addExceptionToLeaf leafFreespace
  dsimp only
  rewrite [htarget, hfind, if_neg hold]
  cases snapshot <;> rfl

/-- A block without an entry of the chunk is left alone or gets one. -/
private theorem Holds.insert_new (h : Holds size m leaf)
    (htarget : (chunk + (2 ^ 64 - baseChunk m)) % 2 ^ 64 % 2 ^ 32 = target)
    (hmap : leaf.map = pre ++ post) (hfind : findEntry m target (count m) 0 = pre.length)
    (hnew : pre.length = count m ∨ target < rchunk m pre.length) (hneed : bytesNeeded leaf.map target = 24)
    (hadd : addEntry leaf.map target exception snapshot active =
      pre ++ ⟨target, firstException exception snapshot active⟩ :: post)
    (ht : target < 2 ^ 32) (hc : leaf.baseChunk + target < 2 ^ 64) (hx : exception < 2 ^ 64) :
    if Ddsnap.leafFreespace leaf < 24 then addExceptionToLeaf m chunk exception snapshot active = (false, m)
    else ∃ m', addExceptionToLeaf m chunk exception snapshot active = (true, m') ∧
      Holds size m' { leaf with map := addEntry leaf.map target exception snapshot active } := by
  rw [addExceptionToLeaf_new htarget hfind hnew, h.freespace]
  by_cases hfull : Ddsnap.leafFreespace leaf < 24
  · rw [if_pos hfull, if_pos hfull]
  · rw [if_neg hfull, if_neg hfull]
    have hcount : count (setRchunk (setOffset (copy m (mapAt (pre.length + 1)) m (mapAt pre.length)
        (mapAt (count m + 1) - mapAt pre.length)) pre.length (emap m pre.length)) pre.length target) =
        leaf.map.length := by
      rw [count_setRchunk, count_setOffset, ← h.counted]
      exact count_congr fun y hy => copy_of_outside (.inl (by unfold mapAt; omega))
    refine ⟨_, rfl, ?_⟩
    rw [hcount]
    cases snapshot <;> exact h.addNew hmap hadd hneed (by omega) ht hc hx

/-- A block with an entry of the chunk is left alone or gets another exception there. -/
private theorem Holds.insert_old (h : Holds size m leaf)
    (htarget : (chunk + (2 ^ 64 - baseChunk m)) % 2 ^ 64 % 2 ^ 32 = target)
    (hmap : leaf.map = pre ++ ⟨target, exns⟩ :: post) (hfind : findEntry m target (count m) 0 = pre.length)
    (hneed : bytesNeeded leaf.map target = 16)
    (hadd : addEntry leaf.map target exception snapshot active =
      pre ++ ⟨target, addException exns exception snapshot active⟩ :: post)
    (hc : leaf.baseChunk + target < 2 ^ 64) (hx : exception < 2 ^ 64) :
    if Ddsnap.leafFreespace leaf < 16 then addExceptionToLeaf m chunk exception snapshot active = (false, m)
    else ∃ m', addExceptionToLeaf m chunk exception snapshot active = (true, m') ∧
      Holds size m' { leaf with map := addEntry leaf.map target exception snapshot active } := by
  have hall : Entries m 0 (emap m 0) (pre ++ ⟨target, exns⟩ :: post) := by
    rw [show emap m 0 = _ from h.first, ← hmap]
    exact h.entries
  have hmid := (entries_append.1 hall).2
  rw [Nat.zero_add] at hmid
  have hins : emap m pre.length = emap m 0 + 16 * exceptionCount pre := hmid.1
  rw [← hins] at hmid
  obtain ⟨-, hchunk, hexns, hrest⟩ := hmid
  dsimp only at hchunk hexns
  have hend : emap m (pre.length + 1) = emap m pre.length + 16 * exns.length := hrest.offset_first
  have hold : ¬ (pre.length = count m ∨ target < rchunk m pre.length) := by
    rw [hchunk, h.counted, hmap, List.length_append, List.length_cons]
    omega
  rw [addExceptionToLeaf_old htarget hfind hold, h.freespace]
  by_cases hfull : Ddsnap.leafFreespace leaf < 16
  · rw [if_pos hfull, if_pos hfull]
  · rw [if_neg hfull, if_neg hfull]
    cases snapshot with
    | none =>
      have hshares : sharesUpTo m (emap m (pre.length + 1)) (emap m (pre.length + 1) - emap m pre.length)
          (emap m pre.length) 0 = sharedBy exns := by
        rw [hend, sharesUpTo_eq hexns (by omega)]
        rfl
      refine ⟨_, rfl, ?_⟩
      rw [hshares, hins]
      exact h.addOld hmap rfl hadd hneed (by omega) hc hx (fun _ _ => rfl) hall
    | some bit =>
      have hroom := h.room
      have hplace : mapAt (pre.length + 1 + post.length + 1) ≤ emap m 0 := by
        rw [show emap m 0 = _ from h.first]
        rw [hmap, List.length_append, List.length_cons, ← hmap] at hroom
        unfold mapAt at *
        omega
      refine ⟨_, rfl, ?_⟩
      rw [hend, hins]
      refine h.addOld hmap (clearFirst_length _ _) hadd hneed (by omega) hc hx (fun y hy => ?_)
        (clearUpTo_entries hall hplace rfl (by omega))
      refine clearUpTo_outside (.inl ?_) (Dvd.intro exns.length (by omega))
      unfold mapAt at hplace
      omega

/-- The function on the block does what the function on the leaf does. -/
private theorem addExceptionToLeaf_refines (h : Holds size m leaf) (chunk exception : Nat) (snapshot : Option Nat)
    (active : Mask) (hc : leaf.baseChunk + target32 leaf chunk < 2 ^ 64) (hx : exception < 2 ^ 64) :
    if Ddsnap.leafFreespace leaf < bytesNeeded leaf.map (target32 leaf chunk) then
      addExceptionToLeaf m chunk exception snapshot active = (false, m)
    else ∃ m', addExceptionToLeaf m chunk exception snapshot active = (true, m') ∧
      Holds size m' { leaf with map := addEntry leaf.map (target32 leaf chunk) exception snapshot active } := by
  have ht : target32 leaf chunk < 2 ^ 32 := Nat.mod_lt _ (by decide)
  have htarget : (chunk + (2 ^ 64 - baseChunk m)) % 2 ^ 64 % 2 ^ 32 = target32 leaf chunk := by
    rw [h.base]
    rfl
  generalize target32 leaf chunk = target at hc ht htarget
  obtain ⟨pre, post, hmap, hfind, hpre, hpost⟩ := h.split_at target
  have hadd : addEntry leaf.map target exception snapshot active = pre ++ addAt target exception snapshot active post := by
    rw [addEntry, hpre, hpost]
  cases post with
  | nil =>
    have hneed : bytesNeeded leaf.map target = 24 := by rw [bytesNeeded, hpost]; rfl
    rw [hneed]
    exact h.insert_new htarget hmap hfind (.inl (by rw [h.counted, hmap, List.append_nil])) hneed hadd ht hc hx
  | cons e post =>
    have hge : ¬ e.rchunk < target := by
      have hhead := List.head?_dropWhile_not (fun e : EtreeMap => decide (e.rchunk < target)) leaf.map
      rw [hpost] at hhead
      simpa using hhead
    by_cases heq : e.rchunk = target
    · have hneed : bytesNeeded leaf.map target = 16 := by
        rw [bytesNeeded, hpost]
        exact if_pos heq
      obtain ⟨c, exns⟩ := e
      obtain rfl : c = target := heq
      rw [hneed]
      refine h.insert_old htarget hmap hfind hneed ?_ hc hx
      rw [hadd]
      exact congrArg (pre ++ ·) (if_pos rfl)
    · have hneed : bytesNeeded leaf.map target = 24 := by
        rw [bytesNeeded, hpost]
        exact if_neg heq
      have hchunk : rchunk m pre.length = e.rchunk := by
        have hentries := h.entries
        rw [hmap] at hentries
        have := (entries_append.1 hentries).2.2.1
        rwa [Nat.zero_add] at this
      rw [hneed]
      refine h.insert_new htarget hmap hfind (.inr (by omega)) hneed ?_ ht hc hx
      rw [hadd]
      exact congrArg (pre ++ ·) (if_neg heq)

/-! ### What the block holds afterwards -/

/-- A chunk with an entry needs no second one. -/
private theorem Holds.bytesNeeded_eq (h : Holds size m leaf) (target : Nat) :
    bytesNeeded leaf.map target = if exnsAt leaf.map target = [] then 24 else 16 := by
  have hasc := h.ascending
  have hne := h.nonempty
  generalize leaf.map = map at *
  induction map with
  | nil => rfl
  | cons e map ih =>
    obtain ⟨hlt, hasc⟩ := List.pairwise_cons.1 hasc
    rw [bytesNeeded_cons, exnsAt_cons]
    by_cases h1 : e.rchunk < target
    · rw [if_pos h1, if_neg (by omega : e.rchunk ≠ target)]
      exact ih hasc fun e' he' => hne e' (by simp [he'])
    · rw [if_neg h1]
      by_cases h2 : e.rchunk = target
      · rw [if_pos h2, if_pos h2, if_neg (hne e (by simp))]
      · rw [if_neg h2, if_neg h2, exnsAt_of_ne fun e' he' => ?_, if_pos rfl]
        have := hlt e' he'
        omega

/-- An exception of 16 bytes, with a map entry of 8 bytes for a new chunk, is added to a block, or the block is
left as it is when there is no room. -/
theorem leaf_insertion (h : Holds size m leaf) (chunk exception : Nat) (snapshot : Option Nat) (active : Mask)
    (hbase : leaf.baseChunk ≤ chunk) (hnear : chunk < leaf.baseChunk + 2 ^ 32) (h64 : chunk < 2 ^ 64)
    (hx : exception < 2 ^ 64) :
    let target := chunk - leaf.baseChunk
    let needed := if exnsAt leaf.map target = [] then 24 else 16
    (leafFreespace m < needed → addExceptionToLeaf m chunk exception snapshot active = (false, m)) ∧
    (needed ≤ leafFreespace m → ∃ m' leaf', addExceptionToLeaf m chunk exception snapshot active = (true, m') ∧
      Holds size m' leaf' ∧ leaf'.baseChunk = leaf.baseChunk ∧
      exnsAt leaf'.map target = addException (exnsAt leaf.map target) exception snapshot active ∧
      ∀ c ≠ target, exnsAt leaf'.map c = exnsAt leaf.map c) := by
  have htarget : target32 leaf chunk = chunk - leaf.baseChunk := by
    have : (chunk + (2 ^ 64 - leaf.baseChunk)) % 2 ^ 64 = chunk - leaf.baseChunk := by omega
    rw [target32, target64, this, Nat.mod_eq_of_lt (by omega)]
  have hrefines := addExceptionToLeaf_refines h chunk exception snapshot active (by rw [htarget]; omega) hx
  rw [htarget, h.bytesNeeded_eq] at hrefines
  dsimp only
  rw [h.freespace]
  refine ⟨fun hfull => ?_, fun hroom => ?_⟩
  · rwa [if_pos hfull] at hrefines
  · rw [if_neg (by omega)] at hrefines
    obtain ⟨m', hadd, hm'⟩ := hrefines
    refine ⟨m', _, hadd, hm', rfl, ?_, fun c hc => ?_⟩
    · exact (exnsAt_addEntry h.ascending _).trans (if_pos rfl)
    · exact (exnsAt_addEntry h.ascending c).trans (if_neg hc)

private theorem holds_init (m : Mem) (hlow : 32 ≤ size) (hhigh : size < 2 ^ 32) :
    Holds size (initLeaf m size) (Ddsnap.initLeaf size) := by
  refine ⟨?_, ?_, ?_, rfl, ?_, hhigh, List.Pairwise.nil, fun e he => (by cases he), fun e he => by cases he⟩
  · exact (count_setOffset _ _ _).trans (count_setCount _ _)
  · unfold initLeaf
    dsimp only
    rw [baseChunk_setOffset, baseChunk_setCount]
    exact load8_write _ _ _
  · show offset (initLeaf m size) 0 = size
    unfold initLeaf
    dsimp only
    rw [offset_setOffset, if_pos rfl, Nat.mod_eq_of_lt hhigh]
  · exact hlow

/-- A block of 128 bytes with an exception of chunk 5 that two snapshots share and one of chunk 9 for the second. -/
theorem holds_two : ∃ m leaf, Holds 128 m leaf ∧ leaf.map = addEntry (addEntry [] 5 77 none 3) 9 78 (some 1) 3 := by
  have h0 : Holds 128 (initLeaf (fun _ => 0) 128) (Ddsnap.initLeaf 128) := holds_init _ (by decide) (by decide)
  have hfirst := addExceptionToLeaf_refines h0 5 77 none 3 (by decide) (by decide)
  rw [if_neg (by decide)] at hfirst
  obtain ⟨m1, -, h1⟩ := hfirst
  have hsecond := addExceptionToLeaf_refines h1 9 78 (some 1) 3 (by decide) (by decide)
  rw [if_neg (by decide)] at hsecond
  obtain ⟨m2, -, h2⟩ := hsecond
  exact ⟨m2, _, h2, rfl⟩

/-- A block of 80 bytes takes two exceptions of chunk 5, and then has no room for one of chunk 6. -/
theorem leaf_insertion_full : ∃ m1 m2 leaf2, addExceptionToLeaf (initLeaf (fun _ => 0) 80) 5 77 none 3 = (true, m1) ∧
    addExceptionToLeaf m1 5 78 (some 1) 3 = (true, m2) ∧ Holds 80 m2 leaf2 ∧
    exnsAt leaf2.map 5 = [⟨2, 78⟩, ⟨1, 77⟩] ∧ addExceptionToLeaf m2 6 79 none 3 = (false, m2) := by
  have h0 : Holds 80 (initLeaf (fun _ => 0) 80) (Ddsnap.initLeaf 80) := holds_init _ (by decide) (by decide)
  obtain ⟨-, hfirst⟩ := leaf_insertion h0 5 77 none 3 (by decide) (by decide) (by decide) (by decide)
  obtain ⟨m1, leaf1, hadd1, h1, hb1, hexns1, -⟩ := hfirst (by rw [h0.freespace]; decide)
  replace hb1 : leaf1.baseChunk = 0 := hb1
  replace hexns1 : exnsAt leaf1.map 5 = [⟨3, 77⟩] := hexns1
  have hfree1 : leafFreespace m1 = 24 := by
    rw [show m1 = (addExceptionToLeaf (initLeaf (fun _ => 0) 80) 5 77 none 3).2 by rw [hadd1]]
    decide +kernel
  obtain ⟨-, hsecond⟩ := leaf_insertion h1 5 78 (some 1) 3 (by omega) (by omega) (by decide) (by decide)
  rw [hb1, Nat.sub_zero, hexns1, if_neg (by decide), hfree1] at hsecond
  obtain ⟨m2, leaf2, hadd2, h2, hb2, hexns2, -⟩ := hsecond (by decide)
  have hfree2 : leafFreespace m2 = 8 := by
    rw [show m2 = (addExceptionToLeaf (addExceptionToLeaf (initLeaf (fun _ => 0) 80) 5 77 none 3).2 5 78 (some 1) 3).2 by
      rw [hadd1, hadd2]]
    decide +kernel
  obtain ⟨hthird, -⟩ := leaf_insertion h2 6 79 none 3 (by omega) (by omega) (by decide) (by decide)
  refine ⟨m1, m2, leaf2, hadd1, hadd2, h2, ?_, hthird ?_⟩
  · rw [hexns2]
    decide +kernel
  · rw [hfree2]
    split <;> omega

end Ddsnap.LeafBytes
