import Ddsnap.DeltaErrors

/-!
# Sending a full volume

Without a source snapshot `ddsnap_replication_send` sends the volume chunk by chunk.  The number of chunks is rounded
up, the number of chunks behind the start address is rounded down, and the first chunk to send is their difference.  So
the transfer begins at the start address only if that is at a chunk boundary and the volume is a multiple of the chunk
size; otherwise the chunk at the start address is left out.  The chunk size here is that of the metadata store, while
the size of the origin is a multiple of the chunk size of the snapshot store.
-/

namespace Ddsnap

/-- The size of the origin in sectors, after `change_device_sizes` with the size of its device in bytes: it is rounded
down to chunks of the snapshot store, and left as it was if there is none. -/
def originSectors (orgsectors orgsize snapBits : Nat) : Nat :=
  let rounded := (orgsize >>> snapBits) <<< (snapBits - 9)
  if rounded = 0 then orgsectors else rounded

def volSizeBytes (sectors : Nat) : Nat := sectors * 512 % 2 ^ 64

/-- `cl->count` for a full volume. -/
def volumeChunks (bits vol : Nat) : Nat := (vol >>> bits) + (if vol % 2 ^ bits = 0 then 0 else 1)

/-- `skip_chunks` for a full volume. -/
def volumeSkip (bits vol startAddr : Nat) : Nat :=
  diff64 (volumeChunks bits vol) (diff64 vol startAddr >>> bits)

namespace GenerateArgs

variable {g : GenerateArgs} {io : GenerateIo} {i start sectors : Nat} {src : SourceExtent}

/-- What `ddsnap_replication_send` passes on for the full volume of an origin with so many sectors. -/
structure IsFullVolume (g : GenerateArgs) (sectors : Nat) : Prop where
  full : g.full = true
  size : g.target.size = sectors * 512
  count : g.count = volumeChunks g.chunksizeBits (volSizeBytes sectors)

/-- Every call succeeds, and so does the compression. -/
structure Smooth (g : GenerateArgs) (io : GenerateIo) : Prop where
  setup : io.setup = true
  tmpfile : io.tmpfile = true
  read : ∀ i, Obliging (io.read2 i)
  header : ∀ i, io.header i = none
  data : ∀ i, io.data i = none
  progress : ∀ i, io.progress i = true
  lastProgress : io.lastProgress = true
  compress : ∀ data, ∃ out, g.codec.compress2 g.level data = .ok out

/-- The transfer succeeds, and the extents that are sent have exactly the bytes from the start address to the end of the
volume. -/
def SendsFrom (g : GenerateArgs) (io : GenerateIo) (sectors startAddr : Nat) : Prop :=
  ∃ out, g.generate io (volumeSkip g.chunksizeBits (volSizeBytes sectors) startAddr) = some out ∧ 0 ≤ out.err ∧
    ∀ a, (∃ x ∈ out.sent, x.2.addr ≤ a ∧ a < x.2.addr + x.2.size) ↔ startAddr ≤ a ∧ a < volSizeBytes sectors

/-! ### The rounding -/

private theorem volumeChunks_eq (bits vol : Nat) :
    volumeChunks bits vol = vol / 2 ^ bits + if 2 ^ bits ∣ vol then 0 else 1 := by
  rw [volumeChunks, Nat.shiftRight_eq_div_pow]
  simp only [Nat.dvd_iff_mod_eq_zero]

private theorem volumeSkip_eq {bits vol start : Nat} (hvol : vol < 2 ^ 63) (hstart : start ≤ vol) :
    volumeSkip bits vol start = volumeChunks bits vol - (vol - start) / 2 ^ bits := by
  have hle : (vol - start) / 2 ^ bits ≤ volumeChunks bits vol := by
    rw [volumeChunks_eq]
    exact (Nat.div_le_div_right (Nat.sub_le _ _)).trans (Nat.le_add_right _ _)
  have hlt : volumeChunks bits vol < 2 ^ 64 := by
    rw [volumeChunks_eq]
    have := Nat.div_le_self vol (2 ^ bits)
    split <;> omega
  rw [volumeSkip, diff64_eq (by omega) hstart, Nat.shiftRight_eq_div_pow, diff64_eq hlt hle]

/-- At a chunk boundary, before the end of the volume: the first chunk to send is the one there just if the volume is a
multiple of the chunk size. -/
private theorem volumeSkip_le_iff {bits vol k : Nat} (hvol : vol < 2 ^ 63) (hk : k * 2 ^ bits ≤ vol) :
    volumeSkip bits vol (k * 2 ^ bits) ≤ k ↔ 2 ^ bits ∣ vol := by
  have hdiv : (vol - k * 2 ^ bits) / 2 ^ bits = vol / 2 ^ bits - k := by
    rw [Nat.mul_comm, Nat.sub_mul_div_of_le _ _ _ (by rwa [Nat.mul_comm])]
  have hle : k ≤ vol / 2 ^ bits := (Nat.le_div_iff_mul_le (Nat.two_pow_pos _)).2 hk
  rw [volumeSkip_eq hvol hk, hdiv, volumeChunks_eq]
  split
  · rename_i h
    exact ⟨fun _ => h, fun _ => by omega⟩
  · rename_i h
    exact ⟨fun hs => absurd hs (by omega), fun hd => absurd hd h⟩

/-! ### The extents -/

private theorem IsFullVolume.vol (hg : g.IsFullVolume sectors) : volSizeBytes sectors = g.target.size := by
  have hlt := g.target.size_lt
  rw [volSizeBytes, hg.size] at *
  exact Nat.mod_eq_of_lt (by omega)

private theorem IsFullVolume.num (hg : g.IsFullVolume sectors) (i : Nat) : (g.extent i).num = 1 := by
  rw [extent, if_pos hg.full]

private theorem IsFullVolume.chunk_lt (hg : g.IsFullVolume sectors) (hi : i < g.count) :
    i * g.chunkSize < g.target.size := by
  rw [hg.count, hg.vol, volumeChunks_eq] at hi
  have hmod := Nat.div_add_mod' g.target.size (2 ^ g.chunksizeBits)
  have hle : i ≤ g.target.size / 2 ^ g.chunksizeBits := by split at hi <;> omega
  have hmul := Nat.mul_le_mul_right (2 ^ g.chunksizeBits) hle
  rw [chunkSize]
  rcases Nat.lt_or_eq_of_le hle with hlt | heq
  · have hnext := Nat.mul_le_mul_right (2 ^ g.chunksizeBits) (Nat.succ_le_of_lt hlt)
    rw [Nat.succ_mul] at hnext
    have := Nat.two_pow_pos g.chunksizeBits
    omega
  · split at hi
    · omega
    · rename_i hdvd
      have hne : g.target.size % 2 ^ g.chunksizeBits ≠ 0 := fun h => hdvd (Nat.dvd_of_mod_eq_zero h)
      omega

private theorem IsFullVolume.addr (hg : g.IsFullVolume sectors) (hi : i < g.count) : (g.extent i).addr =
    i * g.chunkSize := by
  have hlt := hg.chunk_lt hi
  have hvol := g.target.size_lt
  rw [extent, if_pos hg.full]
  exact Nat.mod_eq_of_lt (by omega)

private theorem IsFullVolume.extent_size (hg : g.IsFullVolume sectors) (hi : i < g.count)
    (hcs : g.chunkSize ≤ g.target.size) : (g.extent i).size = min g.chunkSize (g.target.size - i * g.chunkSize) := by
  have haddr := hg.addr hi
  rw [← clip_eq g.target.size_lt hcs (hg.chunk_lt hi).le, ← haddr, extent, if_pos hg.full]

/-! ### What is sent -/

/-- A sender that succeeds has read every extent that it sent. -/
private theorem loop_made {fuel : Nat} {stream : Bytes} {sent : List (Nat × Extent)} {out : GenerateOut}
    (h : g.loop io fuel i src stream sent = some out) (hok : 0 ≤ out.err) :
    ∀ x ∈ out.sent, x ∈ sent ∨
      ∃ l, i ≤ l ∧ l < g.count ∧ x = (l, g.extent l) ∧ (g.extent l).size ≤ maxMemSize := by
  have hend : ∀ {i stream sent}, some (g.finish io i stream sent) = some out → out.sent = sent := by
    intro i stream sent h
    obtain rfl := Option.some.inj h
    exact (finish_ok hok).2.2
  induction fuel generalizing i src stream sent with
  | zero => exact fun x hx => .inl (hend h ▸ hx)
  | succ fuel ih =>
    by_cases hi : i < g.count
    · obtain ⟨src', deh, payload, hmake, -, -, hcase⟩ := loop_succ h hok hi
      obtain ⟨_, _, _, _, hread, _, _⟩ := makeRecord_ok hmake
      have hlast : ∀ x ∈ sent ++ [(i, g.extent i)], x ∈ sent ∨
          ∃ l, i ≤ l ∧ l < g.count ∧ x = (l, g.extent l) ∧ (g.extent l).size ≤ maxMemSize := by
        intro x hx
        rcases List.mem_append.1 hx with hx | hx
        · exact .inl hx
        · exact .inr ⟨i, le_rfl, hi, List.mem_singleton.1 hx, (readExtent_ok hread).2.1⟩
      rcases hcase with ⟨-, rfl⟩ | ⟨-, h⟩
      · exact hlast
      · intro x hx
        rcases ih h x hx with hx | ⟨l, hl, hrest⟩
        · exact hlast x hx
        · exact .inr ⟨l, by omega, hrest⟩
    · rw [loop, if_neg hi] at h
      exact fun x hx => .inl (hend h ▸ hx)

private theorem Smooth.reportsReach (hs : g.Smooth io) : g.ReportsReach io start := by
  intro i _ _ _ _ _ _ _ _ _ _ _ hf
  simp [ReportFails, hs.progress] at hf

private theorem IsFullVolume.mem_sent (hg : g.IsFullVolume sectors) (hs : g.Smooth io) {out : GenerateOut}
    (h : g.generate io start = some out) (hok : 0 ≤ out.err) (x : Nat × Extent) :
    x ∈ out.sent ↔ ∃ l, start ≤ l ∧ l < g.count ∧ x = (l, g.extent l) ∧ (g.extent l).size ≤ maxMemSize := by
  have hall := (generate_allSent_iff h).2 hs.reportsReach hok
  have hmade : ∀ x ∈ out.sent, ∃ l, start ≤ l ∧ l < g.count ∧ x = (l, g.extent l) ∧
      (g.extent l).size ≤ maxMemSize := by
    rw [generate, hs.setup, hs.tmpfile] at h
    intro x hx
    exact (loop_made (by simpa using h) hok x hx).resolve_left (by simp)
  refine ⟨hmade x, ?_⟩
  rintro ⟨l, h1, h2, rfl, -⟩
  obtain ⟨y, hy, hle, hlt⟩ := hall l h1 h2
  obtain ⟨l', -, -, rfl, -⟩ := hmade y hy
  rw [hg.num] at hlt
  obtain rfl : l' = l := by omega
  exact hy

private theorem Smooth.makeRecord (hs : g.Smooth io) (src : SourceExtent) (hfull : g.full = true)
    (hsize : (g.extent i).size ≤ maxMemSize)
    (hon : (g.extent i).size ≠ 0 → (g.extent i).addr + (g.extent i).size ≤ g.target.size) :
    ∃ deh payload, g.makeRecord io i src = some (.ok (src, deh, payload)) := by
  obtain ⟨out, hout⟩ := hs.compress (g.target.slice (g.extent i).addr (g.extent i).size)
  have hgzip : ∃ gzip, gzipOnDelta g.codec g.level (g.target.slice (g.extent i).addr (g.extent i).size) = .ok gzip := by
    rw [gzipOnDelta, hout]
    dsimp only
    split <;> exact ⟨_, rfl⟩
  obtain ⟨gzip, hgzip⟩ := hgzip
  have hraw : g.rawOnly (g.extent i) = true := by rw [rawOnly, hfull, Bool.true_or]
  simp only [GenerateArgs.makeRecord, readSource, hfull, Bool.not_true, Bool.false_eq_true, false_and, if_false,
    Option.bind_some, (hs.read i).readExtent hsize hon, Option.map_some, record, hraw, encodeExtent, if_true, hgzip]
  exact ⟨_, _, rfl⟩

/-- A full volume whose extents fit the buffers is sent. -/
private theorem IsFullVolume.loop_ok (hg : g.IsFullVolume sectors) (hs : g.Smooth io) {fuel : Nat} {stream : Bytes}
    {sent : List (Nat × Extent)} (hfuel : g.count = i + fuel)
    (hread : ∀ l, i ≤ l → l < g.count → (g.extent l).size ≤ maxMemSize ∧
      ((g.extent l).size ≠ 0 → (g.extent l).addr + (g.extent l).size ≤ g.target.size)) :
    ∃ out, g.loop io fuel i src stream sent = some out ∧ out.err = 0 := by
  induction fuel generalizing i src stream sent with
  | zero =>
    refine ⟨_, rfl, ?_⟩
    rw [finish, if_neg (by omega)]
    simp [hs.lastProgress]
  | succ fuel ih =>
    have hi : i < g.count := by omega
    obtain ⟨hsize, hon⟩ := hread i le_rfl hi
    obtain ⟨deh, payload, hmake⟩ := hs.makeRecord src hg.full hsize hon
    rw [loop, if_pos hi, hmake]
    simp only [Option.bind_some, hs.header, hs.data, fdwrite, Option.map_none, ite_self, hs.progress, Bool.not_true,
      Bool.and_false, Bool.false_eq_true, if_false]
    rw [makeRecord_num hmake, hg.num]
    exact ih (by omega) fun l hl => hread l (by omega)

/-! ### The whole volume -/

/-- If the start address and the size are multiples of a chunk size that fits the buffers, then the rest of the volume
is sent. -/
private theorem IsFullVolume.sendsFrom (hg : g.IsFullVolume sectors) (hs : g.Smooth io) {k n : Nat}
    (hcs : g.chunkSize ≤ maxMemSize) (hn : g.target.size = n * g.chunkSize) (hk : k < n) :
    g.SendsFrom io sectors (k * g.chunkSize) := by
  have hpos := g.chunkSize_pos
  have hcount : g.count = n := by
    rw [hg.count, hg.vol, volumeChunks_eq, hn, chunkSize, Nat.mul_div_cancel _ (Nat.two_pow_pos _),
      if_pos (Nat.dvd_mul_left _ _), Nat.add_zero]
  have hle : g.chunkSize ≤ g.target.size := hn ▸ Nat.le_mul_of_pos_left _ (by omega)
  have hkn : k * g.chunkSize ≤ g.target.size := hn ▸ Nat.mul_le_mul_right _ hk.le
  have hskip : volumeSkip g.chunksizeBits (volSizeBytes sectors) (k * g.chunkSize) = k := by
    rw [hg.vol, volumeSkip_eq g.target.size_lt hkn, ← hg.vol, ← hg.count, hg.vol, hcount, hn, ← Nat.sub_mul, chunkSize,
      Nat.mul_div_cancel _ (Nat.two_pow_pos _)]
    omega
  -- every chunk is a whole one
  have hchunk : ∀ l < n, (g.extent l).size = g.chunkSize ∧ (g.extent l).addr = l * g.chunkSize ∧
      l * g.chunkSize + g.chunkSize ≤ g.target.size := by
    intro l hl
    have hnext := Nat.mul_le_mul_right g.chunkSize (Nat.succ_le_of_lt hl)
    rw [Nat.succ_mul, ← hn] at hnext
    exact ⟨by rw [hg.extent_size (by omega) hle]; omega, hg.addr (by omega), hnext⟩
  have hloop : ∃ out, g.loop io (g.count - k) k ⟨io.memory, 0⟩ [] [] = some out ∧ out.err = 0 := by
    refine hg.loop_ok hs (by omega) fun l _ hl => ?_
    obtain ⟨h1, h2, h3⟩ := hchunk l (by omega)
    rw [h1, h2]
    exact ⟨hcs, fun _ => h3⟩
  obtain ⟨out, hloop, herr⟩ := hloop
  have hgen : g.generate io k = some out := by
    rw [generate, hs.setup, hs.tmpfile]
    simpa using hloop
  have hmem := hg.mem_sent hs hgen herr.ge
  refine ⟨out, by rw [hskip]; exact hgen, herr.ge, fun a => ⟨?_, ?_⟩⟩
  · rintro ⟨x, hx, h1, h2⟩
    obtain ⟨l, hl1, hl2, rfl, -⟩ := (hmem x).1 hx
    obtain ⟨hsize, haddr, hend⟩ := hchunk l (by omega)
    have hmul := Nat.mul_le_mul_right g.chunkSize hl1
    rw [hg.vol]
    dsimp only at h1 h2
    omega
  · rintro ⟨h1, h2⟩
    rw [hg.vol, hn] at h2
    have hl1 : k ≤ a / g.chunkSize := (Nat.le_div_iff_mul_le hpos).2 h1
    have hl2 : a / g.chunkSize < n := Nat.div_lt_of_lt_mul (by rwa [Nat.mul_comm])
    obtain ⟨hsize, haddr, -⟩ := hchunk _ hl2
    refine ⟨(a / g.chunkSize, g.extent (a / g.chunkSize)), (hmem _).2 ⟨_, hl1, by omega, rfl, by omega⟩, ?_⟩
    have hmod := Nat.mod_lt a hpos
    have hdiv := Nat.div_add_mod' a g.chunkSize
    dsimp only
    omega

private theorem IsFullVolume.sendsFrom_end (hg : g.IsFullVolume sectors) (hs : g.Smooth io) :
    g.SendsFrom io sectors g.target.size := by
  have hskip : volumeSkip g.chunksizeBits (volSizeBytes sectors) g.target.size = g.count := by
    rw [hg.vol, volumeSkip_eq g.target.size_lt le_rfl, Nat.sub_self, Nat.zero_div, hg.count, hg.vol, Nat.sub_zero]
  refine ⟨g.finish io g.count [] [], ?_, ?_, fun a => ?_⟩
  · rw [hskip, generate, hs.setup, hs.tmpfile, Nat.sub_self]
    simp [loop]
  · simp [finish, hs.lastProgress]
  · rw [hg.vol]
    simp only [finish, ne_eq, not_true_eq_false, if_false, List.not_mem_nil, false_and, exists_false, false_iff]
    omega

/-- The extents that are sent have exactly the bytes from the start address on just if there are none, or the start
address and the size of the volume are multiples of the chunk size and a chunk fits the buffers. -/
theorem full_volume_iff (hg : g.IsFullVolume sectors) (hs : g.Smooth io) (hstart : start ≤ volSizeBytes sectors) :
    g.SendsFrom io sectors start ↔
      start = volSizeBytes sectors ∨
        g.chunkSize ∣ start ∧ g.chunkSize ∣ volSizeBytes sectors ∧ g.chunkSize ≤ maxMemSize := by
  have hpos := g.chunkSize_pos
  have hvol := hg.vol
  rw [hvol] at hstart ⊢
  constructor
  · rintro ⟨out, hgen, hok, hcov⟩
    rw [or_iff_not_imp_left]
    intro hne
    rw [hvol] at hcov hgen
    have hlt : start < g.target.size := by omega
    obtain ⟨x, hx, h1, h2⟩ := (hcov start).2 ⟨le_rfl, hlt⟩
    obtain ⟨l, hl1, hl2, rfl, hmax⟩ := (hg.mem_sent hs hgen hok x).1 hx
    -- the extent with the first byte starts with it
    obtain rfl : start = l * g.chunkSize := by
      have haddr := hg.addr hl2
      have hfirst := (hcov (g.extent l).addr).1 ⟨_, hx, le_rfl, by dsimp only at h1 h2 ⊢; omega⟩
      dsimp only at h1 h2
      omega
    have hdvd : g.chunkSize ∣ g.target.size := (volumeSkip_le_iff g.target.size_lt hstart).1 hl1
    refine ⟨Nat.dvd_mul_left _ _, hdvd, ?_⟩
    have hrest : g.chunkSize ≤ g.target.size - l * g.chunkSize :=
      Nat.le_of_dvd (by omega) (Nat.dvd_sub hdvd (Nat.dvd_mul_left _ _))
    rwa [hg.extent_size hl2 (by omega), Nat.min_eq_left hrest] at hmax
  · rintro (rfl | ⟨⟨k, rfl⟩, ⟨n, hn⟩, hcs⟩)
    · exact hg.sendsFrom_end hs
    · rw [Nat.mul_comm] at hn hstart ⊢
      rcases Nat.lt_or_ge k n with hk | hk
      · exact hg.sendsFrom hs hcs hn hk
      · rw [Nat.le_antisymm hstart (hn ▸ Nat.mul_le_mul_right _ hk)]
        exact hg.sendsFrom_end hs

end GenerateArgs

/-- A volume of two chunks. -/
def twoChunks : GenerateArgs where
  codec := plainCodec
  mode := .raw
  level := 0
  chunksizeBits := 9
  count := volumeChunks 9 (volSizeBytes 2)
  chunks _ := 0
  full := true
  source := ⟨0, fun _ => 0, by decide⟩
  target := ⟨1024, fun _ => 7, by decide⟩
  progressFile := true
  count_lt := by decide

private theorem twoChunks_smooth : twoChunks.Smooth (smallIo fun _ => true) :=
  ⟨rfl, rfl, fun _ => obliging_single, fun _ => rfl, fun _ => rfl, fun _ => rfl, rfl, fun data => ⟨data, rfl⟩⟩

theorem twoChunks_sent : twoChunks.SendsFrom (smallIo fun _ => true) 2 512 :=
  (GenerateArgs.full_volume_iff ⟨rfl, rfl, rfl⟩ twoChunks_smooth (by decide)).2 (.inr (by decide))

/-- An origin of three sectors, with snapshot chunks of one sector and metadata chunks of two. -/
def oddVolume : GenerateArgs :=
  { twoChunks with
    chunksizeBits := 10, count := volumeChunks 10 (volSizeBytes (originSectors 0 1536 9)),
    target := ⟨1536, fun _ => 7, by decide⟩, count_lt := by decide }

/-- The transfer of the whole volume succeeds, but its first chunk is not sent. -/
theorem first_chunk_not_sent :
    (oddVolume.generate (smallIo fun _ => true) (volumeSkip 10 (volSizeBytes (originSectors 0 1536 9)) 0)).map
      (fun out => (out.err, out.sent)) = some (0, [(1, ⟨1024, 1, 512⟩)]) := by
  decide +kernel

end Ddsnap
