import Ddsnap.DeltaErrors

/-!
# Cutting the changelist into extents

`generate_delta_extents` takes one extent after the other from the changelist.  To find the length of an extent,
`chunks_in_extent` looks at one entry more than the extent has.  The list is an array of exactly its entries, so this
stays inside the array only if the last extent is the last entry alone, for which it is not called.

An extent that passes the end of a volume is cut off there.  The test for it compares the address with the size of the
volume less the size of the extent, and that difference wraps on a volume that is smaller than the extent.
-/

namespace Ddsnap

/-! ### The entries that are read -/

/-- `cur_chunkaddr = cl->chunks[pos + num_of_chunks]` in the rounds of the loop of `chunks_in_extent`. -/
def readsFrom (chunks : Nat → Nat) (pos limit : Nat) : Nat → Nat → List Nat
  | 0, _ => []
  | fuel + 1, num =>
    if chunks (pos + num) = (chunks pos + num) % 2 ^ 64 ∧ num < limit then
      (pos + (num + 1)) :: readsFrom chunks pos limit fuel (num + 1)
    else []

/-- The entries that `chunks_in_extent` reads. -/
def readsInExtent (chunks : Nat → Nat) (pos chunkSize : Nat) : List Nat :=
  pos :: (pos + 1) :: readsFrom chunks pos (maxMemSize / chunkSize) (maxMemSize / chunkSize) 1

namespace GenerateArgs

/-- The entries that the round at entry `i` reads. -/
def reads (g : GenerateArgs) (i : Nat) : List Nat :=
  if g.full then [] else i :: if i = g.count - 1 then [] else readsInExtent g.chunks i g.chunkSize

/-- The entries at which the rounds of the loop start, with fuel for the remaining chunks. -/
def extentStarts (g : GenerateArgs) : Nat → Nat → List Nat
  | 0, _ => []
  | fuel + 1, i => if i < g.count then i :: extentStarts g fuel (i + (g.extent i).num) else []

/-- The chunks of the extent at entry `i`. -/
def extentChunks (g : GenerateArgs) (i : Nat) : List Nat :=
  (List.range (g.extent i).num).map fun j => (g.chunks i + j) % 2 ^ 64

/-- The rounds from entry `start` on read entries of the list only, and their extents are runs of at most 1 MiB that
make up the list from there on. -/
structure Partition (g : GenerateArgs) (fuel start : Nat) : Prop where
  inside : ∀ i ∈ g.extentStarts fuel start, ∀ k ∈ g.reads i, k < g.count
  bounded : ∀ i ∈ g.extentStarts fuel start, 1 ≤ (g.extent i).num ∧ (g.extent i).num * g.chunkSize ≤ maxMemSize
  whole : (g.extentStarts fuel start).flatMap g.extentChunks = (List.range' start (g.count - start)).map g.chunks

/-- `s` is the first entry of the run of adjacent chunks that the list ends with, seen from entry `start` on. -/
structure LastRun (g : GenerateArgs) (start s : Nat) : Prop where
  start_le : start ≤ s
  lt : s < g.count
  first : s = start ∨ g.chunks s ≠ g.chunks (s - 1) + 1
  adjacent : ∀ j, s + j < g.count → g.chunks (s + j) = g.chunks s + j

/-- The list from entry `start` on is empty, or its last run is cut so that the last entry is an extent of its own. -/
def LastAlone (g : GenerateArgs) (start : Nat) : Prop :=
  g.count ≤ start ∨ ∃ s, g.LastRun start s ∧
    (g.count - s) % (maxMemSize / g.chunkSize) = 1 % (maxMemSize / g.chunkSize)

/-- An incremental delta with chunks of at most 1 MiB, the changelist in strictly increasing order. -/
structure Increasing (g : GenerateArgs) : Prop where
  incremental : g.full = false
  chunk : g.chunkSize ≤ maxMemSize
  words : ∀ i < g.count, g.chunks i < 2 ^ 64
  increasing : ∀ i, i + 1 < g.count → g.chunks i < g.chunks (i + 1)

end GenerateArgs

private theorem le_chunksFrom (chunks : Nat → Nat) (pos limit fuel num : Nat) :
    num ≤ chunksFrom chunks pos limit fuel num := by
  induction fuel generalizing num with
  | zero => exact Nat.le_refl _
  | succ fuel ih =>
    rw [chunksFrom]
    split
    · exact (Nat.le_succ num).trans (ih (num + 1))
    · exact Nat.le_refl _

private theorem mem_readsFrom {chunks : Nat → Nat} {pos limit fuel num k : Nat} :
    k ∈ readsFrom chunks pos limit fuel num ↔ pos + num < k ∧ k ≤ pos + chunksFrom chunks pos limit fuel num := by
  induction fuel generalizing num with
  | zero =>
    simp only [readsFrom, chunksFrom, List.not_mem_nil, false_iff]
    omega
  | succ fuel ih =>
    have hle := le_chunksFrom chunks pos limit fuel (num + 1)
    rw [readsFrom, chunksFrom]
    split
    · rw [List.mem_cons, ih]
      omega
    · simp only [List.not_mem_nil, false_iff]
      omega

private theorem mem_readsInExtent {chunks : Nat → Nat} {pos chunkSize k : Nat} :
    k ∈ readsInExtent chunks pos chunkSize ↔ pos ≤ k ∧ k ≤ pos + chunksInExtent chunks pos chunkSize := by
  have hle := le_chunksFrom chunks pos (maxMemSize / chunkSize) (maxMemSize / chunkSize) 1
  rw [readsInExtent, List.mem_cons, List.mem_cons, mem_readsFrom, chunksInExtent]
  omega

private theorem chunksFrom_stop (chunks : Nat → Nat) (pos limit fuel num : Nat) (hfuel : limit ≤ fuel + num) :
    limit ≤ chunksFrom chunks pos limit fuel num ∨
      chunks (pos + chunksFrom chunks pos limit fuel num) ≠
        (chunks pos + chunksFrom chunks pos limit fuel num) % 2 ^ 64 := by
  induction fuel generalizing num with
  | zero => exact .inl (by rw [chunksFrom]; omega)
  | succ fuel ih =>
    rw [chunksFrom]
    split
    · exact ih (num + 1) (by omega)
    · rename_i hc
      by_cases hnum : num < limit
      · exact .inr fun heq => hc ⟨heq, hnum⟩
      · exact .inl (by omega)

namespace GenerateArgs

variable {g : GenerateArgs} {i j start s fuel : Nat}

private theorem Increasing.add_le (hg : g.Increasing) (h : i + j < g.count) : g.chunks i + j ≤ g.chunks (i + j) := by
  induction j with
  | zero => exact Nat.le_refl _
  | succ j ih =>
    have := ih (by omega)
    have := hg.increasing (i + j) (by omega)
    rw [← Nat.add_assoc i j 1]
    omega

private theorem Increasing.eq_mod_iff (hg : g.Increasing) (h : i + j < g.count) :
    g.chunks (i + j) = (g.chunks i + j) % 2 ^ 64 ↔ g.chunks (i + j) = g.chunks i + j := by
  have h1 := hg.add_le h
  have h2 := hg.words (i + j) h
  rw [Nat.mod_eq_of_lt (by omega)]

private theorem num_last (hg : g.Increasing) : (g.extent (g.count - 1)).num = 1 := by
  simp only [extent, hg.incremental, Bool.false_eq_true, if_false, if_true]

private theorem num_eq (hg : g.Increasing) (hi : i ≠ g.count - 1) : (g.extent i).num =
    chunksInExtent g.chunks i g.chunkSize := by
  simp only [extent, hg.incremental, Bool.false_eq_true, if_false, hi]

/-- The extent at an entry that is not the last one. -/
structure Run (g : GenerateArgs) (i n : Nat) : Prop where
  pos : 1 ≤ n
  le : n ≤ maxMemSize / g.chunkSize
  adjacent : ∀ j < n, i + j < g.count → g.chunks (i + j) = g.chunks i + j
  stop : i + n < g.count → n = maxMemSize / g.chunkSize ∨ g.chunks (i + n) ≠ g.chunks i + n

private theorem run_extent (hg : g.Increasing) (hi : i ≠ g.count - 1) : g.Run i (g.extent i).num := by
  obtain ⟨h1, h2, h3⟩ := chunksInExtent_spec g.chunks i g.chunkSize_pos hg.chunk
  have hle : chunksInExtent g.chunks i g.chunkSize ≤ maxMemSize / g.chunkSize :=
    (Nat.le_div_iff_mul_le g.chunkSize_pos).2 h2
  rw [num_eq hg hi]
  refine ⟨h1, hle, fun j hj hlt => ?_, fun hlt => ?_⟩
  · rcases Nat.eq_zero_or_pos j with rfl | hj0
    · rfl
    · exact (hg.eq_mod_iff hlt).1 (h3 j hj (by omega))
  · refine (chunksFrom_stop g.chunks i _ (maxMemSize / g.chunkSize) 1 (Nat.le_add_right _ _)).imp (fun h => ?_) fun h => ?_
    · exact Nat.le_antisymm hle h
    · exact fun heq => h ((hg.eq_mod_iff hlt).2 heq)

/-! ### The last run -/

private theorem lastRun_last (hi : i < g.count) (hlast : i = g.count - 1) : g.LastRun i i :=
  ⟨Nat.le_refl _, hi, .inl rfl, fun j hj => by rw [show j = 0 by omega]; rfl⟩

private theorem LastRun.eq_start {n : Nat} (h : g.LastRun i s) (hrun : g.Run i n) (hs : s < i + n) : s = i := by
  rcases h.first with heq | hne
  · exact heq
  · have hlt := h.lt
    obtain ⟨d, rfl⟩ := Nat.exists_eq_add_of_le h.start_le
    cases d with
    | zero => rfl
    | succ d =>
      refine absurd ?_ hne
      rw [hrun.adjacent (d + 1) (by omega) hlt, show i + (d + 1) - 1 = i + d by omega,
        hrun.adjacent d (by omega) (by omega)]
      rfl

/-- What is said of the list from an extent on is said of the list behind it. -/
private theorem lastAlone_next {n : Nat} (hrun : g.Run i n) (hin : i + n < g.count) : g.LastAlone i ↔ g.LastAlone
    (i + n) := by
  have hpos := hrun.pos
  have hprev : g.chunks (i + n - 1) = g.chunks i + (n - 1) := by
    rw [show i + n - 1 = i + (n - 1) by omega]
    exact hrun.adjacent (n - 1) (by omega) (by omega)
  -- a full extent takes away a whole number of limits
  have hmod : n = maxMemSize / g.chunkSize →
      (g.count - i) % (maxMemSize / g.chunkSize) = (g.count - (i + n)) % (maxMemSize / g.chunkSize) := fun hn => by
    rw [show g.count - i = g.count - (i + n) + n by omega, hn, Nat.add_mod_right]
  unfold LastAlone
  rw [or_iff_right (by omega), or_iff_right (by omega)]
  constructor
  · rintro ⟨s, hs, halone⟩
    by_cases hlt : s < i + n
    · obtain rfl := hs.eq_start hrun hlt
      have hn := (hrun.stop hin).resolve_right fun hne => hne (hs.adjacent n hin)
      refine ⟨s + n, ⟨Nat.le_refl _, hin, .inl rfl, fun j hj => ?_⟩, by rw [← hmod hn]; exact halone⟩
      rw [Nat.add_assoc, hs.adjacent (n + j) (by omega), hs.adjacent n hin, Nat.add_assoc]
    · exact ⟨s, ⟨by omega, hs.lt, .inr (hs.first.resolve_left (by omega)), hs.adjacent⟩, halone⟩
  · rintro ⟨s, hs, halone⟩
    have hle := hs.start_le
    rcases hs.first with rfl | hne
    · by_cases hnext : g.chunks (i + n) = g.chunks i + n
      · have hn := (hrun.stop hin).resolve_right fun hne => hne hnext
        refine ⟨i, ⟨Nat.le_refl _, by omega, .inl rfl, fun j hj => ?_⟩, by rw [hmod hn]; exact halone⟩
        rcases Nat.lt_or_ge j n with hj' | hj'
        · exact hrun.adjacent j hj' hj
        · obtain ⟨d, rfl⟩ := Nat.exists_eq_add_of_le hj'
          rw [← Nat.add_assoc, hs.adjacent d (by omega), hnext, Nat.add_assoc]
      · exact ⟨i + n, ⟨by omega, hin, .inr (by omega), hs.adjacent⟩, halone⟩
    · exact ⟨s, ⟨by omega, hs.lt, .inr hne, hs.adjacent⟩, halone⟩

private theorem not_lastAlone {n : Nat} (hrun : g.Run i n) (hi : i + 1 < g.count) (hout : g.count ≤ i + n) :
    ¬g.LastAlone i := by
  have hle := hrun.le
  rintro (hge | ⟨s, hs, halone⟩)
  · omega
  · have hlt := hs.lt
    obtain rfl := hs.eq_start hrun (by omega)
    rw [Nat.mod_eq_of_lt (a := 1) (by omega)] at halone
    rcases Nat.lt_or_eq_of_le (show g.count - s ≤ maxMemSize / g.chunkSize by omega) with hshort | hfull
    · rw [Nat.mod_eq_of_lt hshort] at halone
      omega
    · rw [hfull, Nat.mod_self] at halone
      omega

/-! ### The rounds -/

private theorem mem_reads (hg : g.Increasing) (hi : i ≠ g.count - 1) {k : Nat} :
    k ∈ g.reads i ↔ i ≤ k ∧ k ≤ i + (g.extent i).num := by
  rw [num_eq hg hi]
  simp only [reads, hg.incremental, Bool.false_eq_true, if_false, hi, List.mem_cons, mem_readsInExtent]
  omega

private theorem extentStarts_of_lt (fuel : Nat) (hi : i < g.count) :
    g.extentStarts (fuel + 1) i = i :: g.extentStarts fuel (i + (g.extent i).num) := if_pos hi

private theorem extentStarts_of_le (fuel : Nat) (hi : g.count ≤ i) : g.extentStarts fuel i = [] := by
  cases fuel with
  | zero => rfl
  | succ fuel => exact if_neg (by omega)

private theorem extentChunks_eq (hg : g.Increasing) (hin : i + (g.extent i).num ≤ g.count)
    (hadj : ∀ j < (g.extent i).num, i + j < g.count → g.chunks (i + j) = g.chunks i + j) :
    g.extentChunks i = (List.range' i (g.extent i).num).map g.chunks := by
  rw [extentChunks, List.range'_eq_map_range, List.map_map]
  refine List.map_congr_left fun j hj => ?_
  have hj := List.mem_range.1 hj
  have heq := hadj j hj (by omega)
  have hword := hg.words (i + j) (by omega)
  rw [Function.comp_apply, heq, Nat.mod_eq_of_lt (by omega)]

/-- A round that stays inside the list. -/
private theorem partition_next (hg : g.Increasing) (hi : i + 1 < g.count) (hin : i + (g.extent i).num < g.count)
    (fuel : Nat) : g.Partition (fuel + 1) i ↔ g.Partition fuel (i + (g.extent i).num) := by
  have hne : i ≠ g.count - 1 := by omega
  have hrun := run_extent hg hne
  have hstarts := extentStarts_of_lt fuel (show i < g.count by omega)
  have hchunks := extentChunks_eq hg (Nat.le_of_lt hin) hrun.adjacent
  have hsplit : (List.range' i (g.count - i)).map g.chunks =
      g.extentChunks i ++ (List.range' (i + (g.extent i).num) (g.count - (i + (g.extent i).num))).map g.chunks := by
    rw [hchunks, ← List.map_append, List.range'_append_1,
      show (g.extent i).num + (g.count - (i + (g.extent i).num)) = g.count - i by omega]
  constructor
  · intro h
    refine ⟨fun j hj => h.inside j ?_, fun j hj => h.bounded j ?_, ?_⟩
    · exact hstarts ▸ List.mem_cons_of_mem _ hj
    · exact hstarts ▸ List.mem_cons_of_mem _ hj
    · have hwhole := h.whole
      rw [hstarts, List.flatMap_cons, hsplit] at hwhole
      exact List.append_cancel_left hwhole
  · intro h
    refine ⟨fun j hj => ?_, fun j hj => ?_, ?_⟩
    · rw [hstarts] at hj
      rcases List.mem_cons.1 hj with rfl | hj
      · intro k hk
        have := ((mem_reads hg hne).1 hk).2
        omega
      · exact h.inside j hj
    · rw [hstarts] at hj
      rcases List.mem_cons.1 hj with rfl | hj
      · exact ⟨hrun.pos, (Nat.le_div_iff_mul_le g.chunkSize_pos).1 hrun.le⟩
      · exact h.bounded j hj
    · rw [hstarts, List.flatMap_cons, hsplit, h.whole]

private theorem partition_last (hg : g.Increasing) (hi : i + 1 = g.count) (fuel : Nat) : g.Partition (fuel + 1) i := by
  obtain rfl : i = g.count - 1 := by omega
  have hnum := num_last hg
  have hstarts : g.extentStarts (fuel + 1) (g.count - 1) = [g.count - 1] := by
    rw [extentStarts_of_lt fuel (by omega), extentStarts_of_le fuel (by omega)]
  have hread : g.reads (g.count - 1) = [g.count - 1] := by simp [reads, hg.incremental]
  have hchunks := extentChunks_eq (i := g.count - 1) hg (by omega) fun j hj _ => by rw [show j = 0 by omega]; rfl
  refine ⟨?_, ?_, ?_⟩
  · simp only [hstarts, List.forall_mem_singleton, hread]
    omega
  · have := hg.chunk
    simp only [hstarts, List.forall_mem_singleton, hnum]
    omega
  · rw [hstarts, List.flatMap_singleton, hchunks, hnum, show g.count - (g.count - 1) = 1 by omega]

private theorem partition_iff (hg : g.Increasing) (hfuel : g.count ≤ fuel + i) : g.Partition fuel i ↔
    g.LastAlone i := by
  induction fuel generalizing i with
  | zero =>
    refine iff_of_true ⟨nofun, nofun, ?_⟩ (.inl (by omega))
    rw [show g.count - i = 0 by omega]
    rfl
  | succ fuel ih =>
    rcases Nat.lt_or_ge i g.count with hi | hi
    · rcases Nat.lt_or_eq_of_le (show i + 1 ≤ g.count from hi) with hmore | hlast
      · have hrun := run_extent hg (show i ≠ g.count - 1 by omega)
        have hpos := hrun.pos
        rcases Nat.lt_or_ge (i + (g.extent i).num) g.count with hin | hout
        · rw [partition_next hg hmore hin, lastAlone_next hrun hin]
          exact ih (by omega)
        · refine iff_of_false (fun h => ?_) (not_lastAlone hrun hmore hout)
          -- the entry behind the extent is read
          have hread := (mem_reads hg (show i ≠ g.count - 1 by omega)).2 ⟨Nat.le_add_right _ _, Nat.le_refl _⟩
          have := h.inside i (by rw [extentStarts_of_lt fuel hi]; exact List.mem_cons_self) _ hread
          omega
      · refine iff_of_true (partition_last hg hlast fuel) (.inr ⟨i, lastRun_last hi (by omega), ?_⟩)
        rw [show g.count - i = 1 by omega]
    · refine iff_of_true ⟨?_, ?_, ?_⟩ (.inl hi)
      · rw [extentStarts_of_le _ hi]
        exact nofun
      · rw [extentStarts_of_le _ hi]
        exact nofun
      · rw [extentStarts_of_le _ hi, show g.count - i = 0 by omega]
        rfl

end GenerateArgs

/-- The rounds of `generate_delta_extents` read entries of the list only, and make a partition of it into runs, exactly
if the last entry is an extent of its own. -/
theorem extents_partition_iff (g : GenerateArgs) (hg : g.Increasing) (start : Nat) :
    g.Partition (g.count - start) start ↔ g.LastAlone start :=
  GenerateArgs.partition_iff hg (by omega)

private theorem smallSend_increasing : smallSend.Increasing :=
  ⟨rfl, by decide, by decide, fun i hi => by
    have hi : i + 1 < 3 := hi
    obtain rfl | rfl : i = 0 ∨ i = 1 := by omega
    all_goals decide⟩

theorem extents_partition_iff_small : smallSend.Partition 3 0 :=
  (extents_partition_iff smallSend smallSend_increasing 0).2 (.inr ⟨2, ⟨by decide, by decide, by decide, fun j hj => by
    obtain rfl : j = 0 := by
      have hj : 2 + j < 3 := hj
      omega
    rfl⟩, by decide⟩)

/-- The chunks 3 and 4 alone, in an array of two entries. -/
def pairSend : GenerateArgs := { smallSend with count := 2, count_lt := two_lt_count }

/-- The third entry is read. -/
theorem entry_behind_list_read : pairSend.Increasing ∧ 2 ∈ pairSend.reads 0 ∧ ¬pairSend.Partition 2 0 := by
  have hread : 2 ∈ pairSend.reads 0 := by decide +kernel
  refine ⟨⟨rfl, by decide, by decide, fun i hi => ?_⟩, hread, fun h => ?_⟩
  · obtain rfl : i = 0 := by
      have hi : i + 1 < 2 := hi
      omega
    decide
  · exact absurd (h.inside 0 List.mem_cons_self 2 hread) (by decide)

/-! ### Cutting off at the ends of the volumes -/

private theorem clip_eq_min_iff {v addr size : Nat} (hv : v < 2 ^ 63) (haddr : addr < v) (hsize : size < 2 ^ 64) :
    clip v addr size = min size (v - addr) ↔ size ≤ v := by
  by_cases h : size ≤ v
  · exact iff_of_true (clip_eq hv h (Nat.le_of_lt haddr)) h
  · refine iff_of_false ?_ h
    rw [clip, diff64, if_neg (by omega)]
    omega

namespace GenerateArgs

/-- `extent_size` before it is cut off. -/
def fullSize (g : GenerateArgs) (i : Nat) : Nat :=
  if g.full then g.chunkSize else (g.chunkSize * (g.extent i).num) % 2 ^ 64

/-- The number of bytes that are read from the source for the extent at entry `i`, as in `readSource`. -/
def sourceBytes (g : GenerateArgs) (i : Nat) : Nat :=
  if !g.full ∧ g.source.size > (g.extent i).addr then clip g.source.size (g.extent i).addr (g.extent i).size else 0

/-- The bytes that are read are those of the extent on the two volumes, and if the extent is compared with the source
then it lies on it. -/
structure Clips (g : GenerateArgs) (i : Nat) : Prop where
  target : (g.extent i).size = min (g.fullSize i) (g.target.size - (g.extent i).addr)
  source : g.full = false → g.sourceBytes i = min (g.extent i).size (g.source.size - (g.extent i).addr)
  compared : g.rawOnly (g.extent i) = false → (g.extent i).addr + (g.extent i).size ≤ g.source.size

variable {g : GenerateArgs} {i : Nat}

private theorem size_extent (g : GenerateArgs) (i : Nat) :
    (g.extent i).size = clip g.target.size (g.extent i).addr (g.fullSize i) := by
  unfold fullSize extent
  cases g.full <;> rfl

private theorem clips_iff (hbits : g.chunksizeBits < 32) (haddr : (g.extent i).addr < g.target.size) :
    g.Clips i ↔ g.fullSize i ≤ g.target.size ∧
      (g.full = true ∨ min (g.fullSize i) (g.target.size - (g.extent i).addr) ≤ g.source.size) := by
  have hv := g.target.size_lt
  have hs := g.source.size_lt
  have hchunk : g.chunkSize ≤ 2 ^ 31 := Nat.pow_le_pow_right (by decide) (by omega)
  have hfull : g.fullSize i < 2 ^ 64 := by
    unfold fullSize
    split
    · omega
    · exact Nat.mod_lt _ (by decide)
  have htarget := clip_eq_min_iff hv haddr hfull
  rw [← size_extent] at htarget
  constructor
  · intro h
    refine ⟨htarget.1 h.target, ?_⟩
    rcases Bool.eq_false_or_eq_true g.full with hf | hf
    · exact .inl hf
    · right
      have htgt := h.target
      rw [← htgt]
      -- a source that is smaller than the extent passes for one that has all of it
      by_contra hlt
      have hcmp := h.compared (by rw [rawOnly, hf, Bool.false_or, decide_eq_false_iff_not, diff64]; omega)
      omega
  · rintro ⟨hle, hsrc⟩
    have htgt := htarget.2 hle
    rw [← htgt] at hsrc
    refine ⟨htgt, fun hf => ?_, fun hraw => ?_⟩
    · have hsrc := hsrc.resolve_left (by rw [hf]; decide)
      unfold sourceBytes
      rw [hf]
      by_cases hin : g.source.size > (g.extent i).addr
      · rw [if_pos ⟨rfl, hin⟩, clip_eq hs hsrc (Nat.le_of_lt hin)]
      · rw [if_neg fun h => hin h.2]
        omega
    · rw [rawOnly, Bool.or_eq_false_iff, decide_eq_false_iff_not] at hraw
      have hsrc := hsrc.resolve_left (by rw [hraw.1]; decide)
      rw [diff64_eq (by omega) hsrc] at hraw
      omega

end GenerateArgs

namespace ApplyArgs

/-- The number of bytes that are read from the source, as in `readSource`. -/
def sourceBytes (p : ApplyArgs) (target : Volume UInt8) (deh : DeltaExtentHeader) : Nat :=
  if !p.full ∧ p.source.size > deh.extentAddr then
    clip p.source.size deh.extentAddr (p.extentSize target deh)
  else 0

/-- `extent_size` before it is cut off. -/
def fullSize (p : ApplyArgs) (deh : DeltaExtentHeader) : Nat := (deh.numOfChunks * p.chunkSize) % 2 ^ 64

/-- The bytes that are written, and those that are read from the source, are those of the extent on the two volumes. -/
structure Clips (p : ApplyArgs) (target : Volume UInt8) (deh : DeltaExtentHeader) : Prop where
  written : p.extentSize target deh = min (p.fullSize deh) (target.size - deh.extentAddr)
  source : p.full = false → p.sourceBytes target deh = min (p.extentSize target deh) (p.source.size - deh.extentAddr)

private theorem clips_iff {p : ApplyArgs} {target : Volume UInt8} {deh : DeltaExtentHeader}
    (haddr : deh.extentAddr < target.size) :
    p.Clips target deh ↔ p.fullSize deh ≤ target.size ∧ (p.full = true ∨ p.source.size ≤ deh.extentAddr ∨
      min (p.fullSize deh) (target.size - deh.extentAddr) ≤ p.source.size) := by
  have hv := target.size_lt
  have hs := p.source.size_lt
  have htarget : p.extentSize target deh = _ ↔ _ := clip_eq_min_iff hv haddr (Nat.mod_lt _ (by decide))
  constructor
  · intro h
    refine ⟨htarget.1 h.written, ?_⟩
    rcases Bool.eq_false_or_eq_true p.full with hf | hf
    · exact .inl hf
    · refine .inr (Nat.lt_or_ge deh.extentAddr p.source.size |>.symm.imp_right fun hin => ?_)
      have hwritten := h.written
      have hbytes := h.source hf
      rw [sourceBytes, hf, if_pos ⟨rfl, hin⟩, clip_eq_min_iff hs hin (by omega)] at hbytes
      rw [← hwritten]
      exact hbytes
  · rintro ⟨hle, hsrc⟩
    have htgt := htarget.2 hle
    refine ⟨htgt, fun hf => ?_⟩
    unfold sourceBytes
    rw [hf]
    by_cases hin : p.source.size > deh.extentAddr
    · rw [if_pos ⟨rfl, hin⟩, clip_eq_min_iff hs hin (by omega), htgt]
      exact (hsrc.resolve_left (by rw [hf]; decide)).resolve_left (by omega)
    · rw [if_neg fun h => hin h.2]
      omega

end ApplyArgs

/-- For an extent that starts on the target volume, sender and receiver handle its bytes on the two volumes, and the
sender compares it with the source only if it lies on it, exactly if the target volume is not smaller than the extent
and the source volume is not smaller than what the target has of it. -/
theorem clipping_iff (g : GenerateArgs) (i : Nat) (hbits : g.chunksizeBits < 32)
    (haddr : (g.extent i).addr < g.target.size) (p : ApplyArgs) (target : Volume UInt8) (deh : DeltaExtentHeader)
    (haddr' : deh.extentAddr < target.size) :
    g.Clips i ∧ p.Clips target deh ↔
      (g.fullSize i ≤ g.target.size ∧
        (g.full = true ∨ min (g.fullSize i) (g.target.size - (g.extent i).addr) ≤ g.source.size)) ∧
      (p.fullSize deh ≤ target.size ∧ (p.full = true ∨ p.source.size ≤ deh.extentAddr ∨
        min (p.fullSize deh) (target.size - deh.extentAddr) ≤ p.source.size)) :=
  and_congr (GenerateArgs.clips_iff hbits haddr) (ApplyArgs.clips_iff haddr')

/-- The header of the second extent of `smallSend`. -/
def smallHeader : DeltaExtentHeader := ⟨deltaMagic, RAW, 0, 18, 1, 2, 0, 0⟩

theorem clipping_iff_small : smallSend.Clips 2 ∧ smallApply.Clips smallSend.source smallHeader :=
  (clipping_iff smallSend 2 (by decide) (by decide) smallApply smallSend.source smallHeader (by decide)).2 (by decide)

/-- A volume that grew from one chunk to two, both of which changed. -/
def grownSend : GenerateArgs :=
  { smallSend with
    chunksizeBits := 12
    count := 2
    chunks := fun i => [0, 1].getD i 0
    source := ⟨4096, fun _ => 1, by decide⟩
    target := ⟨8192, fun _ => 2, by decide⟩
    count_lt := by decide }

/-- Two chunks are to be read from the source of one chunk, and to be compared with it. -/
theorem source_overrun :
    grownSend.extent 0 = ⟨0, 2, 8192⟩ ∧ grownSend.source.size = 4096 ∧ grownSend.sourceBytes 0 = 8192 ∧
      grownSend.rawOnly (grownSend.extent 0) = false ∧ ¬grownSend.Clips 0 := by
  have hextent : grownSend.extent 0 = ⟨0, 2, 8192⟩ := by decide +kernel
  refine ⟨hextent, rfl, by decide +kernel, by decide +kernel, fun h => ?_⟩
  have := h.compared (by decide +kernel)
  rw [hextent] at this
  exact absurd this (by decide)

end Ddsnap
