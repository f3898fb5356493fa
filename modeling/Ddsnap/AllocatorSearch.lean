import Ddsnap.FailedUnique

/-!
# The search of the allocator

`alloc_chunk` searches from the last allocation to the end of the space and then from its start.  The search of a range
goes through the bitmap block by block, through a block byte by byte and through a byte bit by bit; it counts whole
bytes from the byte of its start (`searchRange`), and goes through the bytes of the bitmap in one pass
(`searchRange_eq`).  Together the two ranges cover the space: a free chunk is found if there is one
(`allocChunk_exact`).
-/

namespace Ddsnap

variable {D : Type} {sb sb' : Sb D} {as : Space}

/-! ### The loops -/

/-- Bit `i` of byte `offset` of block `blocknum` of a bitmap. -/
def Sb.bitAt (sb : Sb D) (as : Space) (blocknum offset i : Nat) : Bool :=
  bitmapBits (sb.mem ((sb.asi as).bitmapBase + blocknum)) (8 * offset + i)

/-- The chunk of that bit. -/
def Sb.chunkAt (sb : Sb D) (blocknum offset i : Nat) : Nat := i + 8 * offset + blocknum * 2 ^ sb.bitmapShift

/-- The loop of `alloc_chunk_from_range` over the bits of a byte that is not `0xff`. -/
def searchByte (sb : Sb D) (as : Space) (blocknum offset : Nat) : Option Nat :=
  if (List.range 8).all (sb.bitAt as blocknum offset) then none
  else
    ((List.range 8).find? fun i =>
      !sb.bitAt as blocknum offset i && !isDeferredAlloc sb (sb.chunkAt blocknum offset i)).map
        (sb.chunkAt blocknum offset)

/-- The loop over `n` bytes of a block. -/
def searchBytes (sb : Sb D) (as : Space) (blocknum : Nat) : Nat → Nat → Option Nat
  | 0, _ => none
  | n + 1, offset =>
    match searchByte sb as blocknum offset with
    | some chunk => some chunk
    | none => searchBytes sb as blocknum n (offset + 1)

/-- The loop over the blocks, with a bound on its rounds: `length` bytes from byte `offset` of a block on. -/
def searchBlocks (sb : Sb D) (as : Space) : Nat → Nat → Nat → Nat → Option Nat
  | 0, _, _, _ => none
  | rounds + 1, blocknum, offset, length =>
    let n := min length (sb.allocsize - offset)
    match searchBytes sb as blocknum n offset with
    | some chunk => some chunk
    | none =>
      if length - n = 0 then none
      else
        searchBlocks sb as rounds (if blocknum + 1 = (sb.asi as).bitmapBlocks then 0 else blocknum + 1) 0 (length - n)

/-- The search of `alloc_chunk_from_range`.  Every round but the last takes at least one byte. -/
def searchRange (sb : Sb D) (as : Space) (startchunk nchunks : Nat) : Option Nat :=
  let length := (nchunks + startchunk % 8 + 7) / 8
  searchBlocks sb as (length + 1) (startchunk / 2 ^ sb.bitmapShift) (startchunk % 2 ^ sb.bitmapShift / 8) length

/-! ### One pass over the bytes -/

private theorem two_pow_bitmapShift (sb : Sb D) : 2 ^ sb.bitmapShift = 8 * sb.allocsize := by
  rw [Sb.bitmapShift, Sb.allocsize, Nat.pow_add, Nat.mul_comm]

private theorem allocsize_pos (sb : Sb D) : 0 < sb.allocsize := Nat.two_pow_pos _

private theorem chunkAt_eq (sb : Sb D) (blocknum offset i : Nat) :
    sb.chunkAt blocknum offset i = 8 * (blocknum * sb.allocsize + offset) + i := by
  rw [Sb.chunkAt, two_pow_bitmapShift, Nat.mul_add, Nat.mul_left_comm]
  omega

private theorem marked_chunkAt {blocknum offset i : Nat} (ho : offset < sb.allocsize) (hi : i < 8) :
    sb.marked as (sb.chunkAt blocknum offset i) = sb.bitAt as blocknum offset i := by
  have hlt : i + 8 * offset < 2 ^ sb.bitmapShift := by rw [two_pow_bitmapShift]; omega
  have hdiv : sb.chunkAt blocknum offset i / 2 ^ sb.bitmapShift = blocknum := by
    rw [Sb.chunkAt, Nat.add_mul_div_right _ _ (Nat.two_pow_pos _), Nat.div_eq_of_lt hlt, Nat.zero_add]
  have hmod : sb.chunkAt blocknum offset i % 2 ^ sb.bitmapShift = 8 * offset + i := by
    rw [Sb.chunkAt, Nat.add_mul_mod_self_right, Nat.mod_eq_of_lt hlt, Nat.add_comm]
  rw [Sb.marked, Sb.bitmapBlock, hdiv, hmod, Sb.bitAt]

private theorem find?_congr_of_mem {p q : Nat → Bool} {l : List Nat} (h : ∀ i ∈ l, p i = q i) :
    l.find? p = l.find? q := by
  induction l with
  | nil => rfl
  | cons i l ih =>
    rw [List.find?_cons, List.find?_cons, h i List.mem_cons_self, ih fun j hj => h j (List.mem_cons_of_mem _ hj)]

private theorem searchByte_eq {blocknum offset : Nat} (ho : offset < sb.allocsize) :
    searchByte sb as blocknum offset = scanByte sb as (blocknum * sb.allocsize + offset) := by
  have hscan : scanByte sb as (blocknum * sb.allocsize + offset) =
      ((List.range 8).find? fun i =>
        !sb.bitAt as blocknum offset i && !isDeferredAlloc sb (sb.chunkAt blocknum offset i)).map
          (sb.chunkAt blocknum offset) := by
    rw [scanByte, List.find?_map]
    simp only [Function.comp_def, ← chunkAt_eq]
    congr 1
    exact find?_congr_of_mem fun i hi => by rw [marked_chunkAt ho (List.mem_range.1 hi)]
  rw [hscan, searchByte]
  split_ifs with hfull
  · -- no bit of the byte is clear
    rw [List.all_eq_true] at hfull
    rw [List.find?_eq_none.2 fun i hi => by simp [hfull i hi]]
    rfl
  · rfl

/-- Where the pass goes on behind byte `offset` of a block. -/
def nextByte (sb : Sb D) (as : Space) (blocknum offset : Nat) : Nat :=
  if offset = sb.allocsize then
    (if blocknum + 1 = (sb.asi as).bitmapBlocks then 0 else blocknum + 1) * sb.allocsize
  else blocknum * sb.allocsize + offset

/-- A pass over some bytes starts with those of one block. -/
private theorem scanBytes_block {blocknum : Nat} (hb : blocknum < (sb.asi as).bitmapBlocks) (rest n offset : Nat)
    (ho : offset < sb.allocsize) (hn : offset + n ≤ sb.allocsize) :
    scanBytes sb as (n + rest) (blocknum * sb.allocsize + offset) =
      (searchBytes sb as blocknum n offset).orElse
        fun _ => scanBytes sb as rest (nextByte sb as blocknum (offset + n)) := by
  induction n generalizing offset with
  | zero =>
    rw [Nat.zero_add, Nat.add_zero, nextByte, if_neg (Nat.ne_of_lt ho)]
    rfl
  | succ n ih =>
    rw [Nat.add_right_comm, scanBytes, searchBytes, searchByte_eq ho]
    cases scanByte sb as (blocknum * sb.allocsize + offset) with
    | some chunk => rfl
    | none =>
      dsimp only
      have hmul : blocknum * sb.allocsize + sb.allocsize ≤ (sb.asi as).bitmapBlocks * sb.allocsize := by
        rw [← Nat.succ_mul]
        exact Nat.mul_le_mul_right _ hb
      by_cases hlast : offset + 1 = sb.allocsize
      · obtain rfl : n = 0 := by omega
        rw [Nat.zero_add, Nat.zero_add, nextByte, if_pos hlast, Nat.add_assoc, hlast, ← Nat.succ_mul]
        congr 1
        by_cases hend : blocknum + 1 = (sb.asi as).bitmapBlocks
        · rw [if_pos hend, if_pos (by rw [Nat.succ_eq_add_one, hend]), Nat.zero_mul]
        · rw [if_neg hend, if_neg fun h => hend (Nat.eq_of_mul_eq_mul_right (allocsize_pos sb) h)]
      · rw [if_neg (by omega), Nat.add_assoc, ih (offset + 1) (by omega) (by omega), Nat.add_right_comm offset 1 n,
          Nat.add_assoc offset n 1]

private theorem searchBlocks_eq (rounds : Nat) {blocknum offset length : Nat} (hr : length < rounds)
    (hb : blocknum < (sb.asi as).bitmapBlocks) (ho : offset < sb.allocsize) :
    searchBlocks sb as rounds blocknum offset length =
      scanBytes sb as length (blocknum * sb.allocsize + offset) := by
  induction rounds generalizing blocknum offset length with
  | zero => omega
  | succ rounds ih =>
    have hsplit : length =
        min length (sb.allocsize - offset) + (length - min length (sb.allocsize - offset)) := by omega
    rw [searchBlocks]
    conv_rhs => rw [hsplit, scanBytes_block hb _ _ _ ho (by omega)]
    cases searchBytes sb as blocknum (min length (sb.allocsize - offset)) offset with
    | some chunk => rfl
    | none =>
      rw [Option.orElse_none]
      by_cases hend : length - min length (sb.allocsize - offset) = 0
      · rw [hend]
        rfl
      · -- the block is searched to its end
        have hn : offset + min length (sb.allocsize - offset) = sb.allocsize := by omega
        have hnext : (if blocknum + 1 = (sb.asi as).bitmapBlocks then 0 else blocknum + 1) <
            (sb.asi as).bitmapBlocks := by split_ifs <;> omega
        rw [nextByte, if_pos hn, ← Nat.add_zero (_ * _), ← ih (by omega) hnext (allocsize_pos sb)]
        exact if_neg hend

/-- The search of a range is one pass over its bytes. -/
private theorem searchRange_eq {startchunk nchunks : Nat} (hstart : startchunk + nchunks ≤ sb.bitmapSize as) :
    searchRange sb as startchunk nchunks =
      scanBytes sb as ((nchunks + startchunk % 8 + 7) / 8) (startchunk / 8) := by
  have hpos : 0 < 2 ^ sb.bitmapShift := Nat.two_pow_pos _
  have hdiv := Nat.div_add_mod startchunk (2 ^ sb.bitmapShift)
  have hmod := Nat.mod_lt startchunk hpos
  have hshift := two_pow_bitmapShift sb
  have hbyte : startchunk / 8 =
      startchunk / 2 ^ sb.bitmapShift * sb.allocsize + startchunk % 2 ^ sb.bitmapShift / 8 := by
    have h8 : 2 ^ sb.bitmapShift * (startchunk / 2 ^ sb.bitmapShift) =
        8 * (startchunk / 2 ^ sb.bitmapShift * sb.allocsize) := by
      rw [hshift, Nat.mul_assoc, Nat.mul_comm sb.allocsize]
    omega
  rw [searchRange]
  by_cases hlen : (nchunks + startchunk % 8 + 7) / 8 = 0
  · -- nothing is searched, also when the start lies behind the bitmap
    rw [hlen, searchBlocks, Nat.zero_min]
    rfl
  · have hb : startchunk / 2 ^ sb.bitmapShift < (sb.asi as).bitmapBlocks := by
      refine Nat.div_lt_of_lt_mul ?_
      have hsize : sb.bitmapSize as = 8 * (sb.allocsize * (sb.asi as).bitmapBlocks) := by
        rw [Sb.bitmapSize, hshift, Nat.mul_comm, Nat.mul_assoc]
      rw [hshift, Nat.mul_assoc]
      omega
    rw [hbyte, searchBlocks_eq _ (Nat.lt_succ_self _) hb (by omega)]

/-! ### Free chunks -/

/-- What a pass over bytes before the end of the bitmap does not find is not there. -/
private theorem scanBytes_none {length byte : Nat} (hw : byte + length ≤ (sb.asi as).bitmapBlocks * sb.allocsize)
    (h : scanBytes sb as length byte = none) {c : Nat} (hc : byte ≤ c / 8) (hc' : c / 8 < byte + length) :
    sb.marked as c = true ∨ isDeferredAlloc sb c = true := by
  induction length generalizing byte with
  | zero => omega
  | succ length ih =>
    rw [scanBytes] at h
    split at h
    · cases h
    · rename_i hnone
      by_cases hbyte : c / 8 = byte
      · have hmem : c ∈ (List.range 8).map (8 * byte + ·) := by
          rw [List.mem_map]
          exact ⟨c % 8, List.mem_range.2 (Nat.mod_lt _ (by omega)), by omega⟩
        have hfull := List.find?_eq_none.1 hnone c hmem
        simpa [or_iff_not_imp_left] using hfull
      · rw [if_neg (by omega)] at h
        exact ih (by omega) h (by omega) (by omega)

private theorem bitmapSize_eq (sb : Sb D) (as : Space) : sb.bitmapSize as = 8 *
    ((sb.asi as).bitmapBlocks * sb.allocsize) := by
  rw [Sb.bitmapSize, two_pow_bitmapShift, Nat.mul_left_comm]

section

variable (hcover : (sb.asi as).chunks ≤ sb.bitmapSize as) (hlast : (sb.asi as).lastAlloc ≤ (sb.asi as).chunks)

include hcover in
private theorem range_inside (start n : Nat) (hle : start + n ≤ (sb.asi as).chunks) :
    start / 8 + (n + start % 8 + 7) / 8 ≤ (sb.asi as).bitmapBlocks * sb.allocsize := by
  rw [bitmapSize_eq] at hcover
  omega

include hcover hlast in
private theorem allocChunk_inside
    (hend : ∀ c, (sb.asi as).chunks ≤ c → c < 8 * (((sb.asi as).chunks + 7) / 8) → sb.marked as c = true) {c : Nat}
    (h : allocChunk sb as = some (c, sb')) :
    c < (sb.asi as).chunks ∧ sb.marked as c = false ∧ isDeferredAlloc sb c = false := by
  obtain ⟨⟨start, n, hstart, hscan⟩, -⟩ := allocChunk_cases h
  obtain ⟨hfree, hdef⟩ := scanBytes_free hscan
  have hlt := scanBytes_lt (range_inside hcover start n (by omega)) hscan
  refine ⟨?_, hfree, hdef⟩
  by_contra hge
  rw [hend c (by omega) (by omega)] at hfree
  cases hfree

include hcover hlast in
private theorem allocChunk_exhausted (h : allocChunk sb as = none) {c : Nat} (hc : c < (sb.asi as).chunks) :
    sb.marked as c = true ∨ isDeferredAlloc sb c = true := by
  obtain ⟨h1, h2⟩ := allocChunk_eq_none.1 h
  by_cases hc8 : (sb.asi as).lastAlloc / 8 ≤ c / 8
  · exact scanBytes_none (range_inside hcover _ _ (by omega)) h1 hc8 (by omega)
  · exact scanBytes_none (range_inside hcover 0 (sb.asi as).lastAlloc (by omega)) h2 (by omega) (by omega)

include hcover hlast in
private theorem allocChunk_search : (allocChunk sb as).map Prod.fst =
    ((searchRange sb as (sb.asi as).lastAlloc ((sb.asi as).chunks - (sb.asi as).lastAlloc)).orElse
      fun _ => searchRange sb as 0 (sb.asi as).lastAlloc) := by
  rw [searchRange_eq (by omega), searchRange_eq (by omega)]
  unfold allocChunk allocChunkFromRange
  dsimp only
  cases scanBytes sb as (((sb.asi as).chunks - (sb.asi as).lastAlloc + (sb.asi as).lastAlloc % 8 + 7) / 8)
    ((sb.asi as).lastAlloc / 8) with
  | some c => rfl
  | none =>
    cases scanBytes sb as (((sb.asi as).lastAlloc + 0 % 8 + 7) / 8) (0 / 8) <;> rfl

end

/-- `alloc_chunk` returns a chunk of the space that is neither marked nor deferred, and fails exactly when there is
none. -/
theorem allocChunk_exact (sb : Sb D) (as : Space) (hcover : (sb.asi as).chunks ≤ sb.bitmapSize as)
    (hlast : (sb.asi as).lastAlloc ≤ (sb.asi as).chunks)
    (hend : ∀ c, (sb.asi as).chunks ≤ c → c < 8 * (((sb.asi as).chunks + 7) / 8) → sb.marked as c = true) :
    (allocChunk sb as).map Prod.fst =
      ((searchRange sb as (sb.asi as).lastAlloc ((sb.asi as).chunks - (sb.asi as).lastAlloc)).orElse
        fun _ => searchRange sb as 0 (sb.asi as).lastAlloc) ∧
    (∀ c sb', allocChunk sb as = some (c, sb') →
      c < (sb.asi as).chunks ∧ sb.marked as c = false ∧ isDeferredAlloc sb c = false) ∧
    (allocChunk sb as = none ↔
      ∀ c < (sb.asi as).chunks, sb.marked as c = true ∨ isDeferredAlloc sb c = true) := by
  refine ⟨allocChunk_search hcover hlast, fun c sb' h => allocChunk_inside hcover hlast hend h,
    fun h c hc => allocChunk_exhausted hcover hlast h hc, fun h => ?_⟩
  cases ha : allocChunk sb as with
  | none => rfl
  | some r =>
    obtain ⟨hc, hm, hd⟩ := allocChunk_inside hcover hlast hend ha
    rcases h r.1 hc with h | h
    · rw [hm] at h
      cases h
    · rw [hd] at h
      cases h

/-- A combined store of 45 chunks, of which the last byte of the bitmap has five. -/
def oddStore : Sb Nat :=
  startServer ((initSnapstore { tinyConfig with metachunks := 45 } 0 id).getD
    (Config.blankStore { tinyConfig with metachunks := 45 } 0 id)) true

theorem allocChunk_exact_odd : ∃ c sb', allocChunk oddStore .metadata = some (c, sb') ∧ c < 45 ∧
    oddStore.marked .metadata c = false ∧ isDeferredAlloc oddStore c = false := by
  have hstore : (oddStore.asi .metadata).chunks = 45 ∧ 45 ≤ oddStore.bitmapSize .metadata ∧
      (oddStore.asi .metadata).lastAlloc ≤ 45 ∧ (∀ c ∈ [45, 46, 47], oddStore.marked .metadata c = true) ∧
      (allocChunk oddStore .metadata).isSome = true := by decide +kernel
  obtain ⟨hchunks, hcover, hlast, hmarked, hsome⟩ := hstore
  obtain ⟨⟨c, sb'⟩, h⟩ := Option.isSome_iff_exists.1 hsome
  have hfound := (allocChunk_exact oddStore .metadata (by rw [hchunks]; exact hcover) (by rw [hchunks]; exact hlast)
    (by
      rw [hchunks]
      intro c h1 h2
      exact hmarked c (by simp only [List.mem_cons]; omega))).2.1 c sb' h
  rw [hchunks] at hfound
  exact ⟨c, sb', h, hfound⟩

end Ddsnap
