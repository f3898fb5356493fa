import Ddsnap.DeltaExtents

/-!
# The records of a delta stream

An extent of the changelist is a run of adjacent chunks, cut off at the end of the volume.  What a sender that succeeds
has written is the records of the extents from its first entry on: up to the end of the list, or to an extent after
which a progress report failed.  A record says all that a receiver needs to make the content of its extent, whatever
mode and compression the sender chose and however the extent lies at the ends of the two volumes.
-/

namespace Ddsnap

/-! ### Buffers and extents -/

@[simp] theorem length_slice (v : Volume UInt8) (addr len : Nat) : (v.slice addr len).length = len := by
  simp [Volume.slice]

theorem front_fill (buffer : Nat → UInt8) (data : Bytes) : front (fill buffer data) data.length = data := by
  refine List.ext_getElem (by simp [front]) fun j h1 h2 => ?_
  simp [front, fill, patch, h2]

/-- An extent that was read is on the volume and fits the buffer. -/
theorem readExtent_ok {v : Volume UInt8} {rets : List Ret} {len addr : Nat} {data : Bytes}
    (h : readExtent v rets len addr = some (.ok data)) :
    data = v.slice addr len ∧ len ≤ maxMemSize ∧ (len ≠ 0 → addr + len ≤ v.size) := by
  obtain ⟨⟨n, r⟩, hio, h⟩ := Option.bind_eq_some_iff.1 h
  have hspec := fdio_spec hio
  split at h
  · cases h
  · split at h
    · cases h
    · cases h
      dsimp only at *
      obtain rfl : n = len := by omega
      exact ⟨rfl, by omega, hspec.2⟩

/-- The calls on the devices succeed where the device has what is asked for. -/
def Obliging (rets : List Ret) : Prop :=
  ∀ size len addr, len ≤ maxMemSize → addr + len ≤ size → fdio size rets len addr = some (len, 0)

theorem Obliging.fdio {rets : List Ret} (h : Obliging rets) {size len addr : Nat} (hlen : len ≤ maxMemSize)
    (hin : len ≠ 0 → addr + len ≤ size) : fdio size rets len addr = some (len, 0) := by
  rcases Nat.eq_zero_or_pos len with rfl | hpos
  · cases rets with
    | nil => rfl
    | cons r rets => cases r <;> rfl
  · exact h size len addr hlen (hin (by omega))

theorem Obliging.readExtent {rets : List Ret} (h : Obliging rets) {v : Volume UInt8} {len addr : Nat}
    (hlen : len ≤ maxMemSize) (hin : len ≠ 0 → addr + len ≤ v.size) :
    readExtent v rets len addr = some (.ok (v.slice addr len)) := by
  rw [Ddsnap.readExtent, h.fdio hlen hin]
  simp only [Option.bind_some, gt_iff_lt, Nat.not_lt.2 hlen, if_false]
  rfl

/-- On a volume that is larger than the extent, the size is cut off at the end. -/
theorem clip_eq {v addr size : Nat} (hv : v < 2 ^ 63) (hsize : size ≤ v) (haddr : addr ≤ v) :
    clip v addr size = min size (v - addr) := by
  rw [clip, diff64_eq (by omega) hsize, diff64_eq (by omega) haddr]
  split <;> omega

/-- An extent past the end of the volume has bytes that are not there. -/
theorem clip_pos {v addr size : Nat} (hv : v < 2 ^ 63) (haddr : v < addr) (haddr64 : addr < 2 ^ 64) (hsize : size ≤ v) :
    clip v addr size ≠ 0 := by
  rw [clip, diff64_eq (by omega) hsize, if_pos (by omega), diff64]
  omega

private theorem chunksFrom_spec (chunks : Nat → Nat) (pos limit fuel : Nat) {num : Nat}
    (h : ∀ j < num, j ≠ 0 → chunks (pos + j) = (chunks pos + j) % 2 ^ 64) :
    num ≤ chunksFrom chunks pos limit fuel num ∧ chunksFrom chunks pos limit fuel num ≤ max num limit ∧
      ∀ j < chunksFrom chunks pos limit fuel num, j ≠ 0 → chunks (pos + j) = (chunks pos + j) % 2 ^ 64 := by
  induction fuel generalizing num with
  | zero => exact ⟨Nat.le_refl _, Nat.le_max_left _ _, h⟩
  | succ fuel ih =>
    simp only [chunksFrom]
    split
    · rename_i hc
      have hnext : ∀ j < num + 1, j ≠ 0 → chunks (pos + j) = (chunks pos + j) % 2 ^ 64 := fun j hj hj0 => by
        rcases Nat.lt_or_eq_of_le (Nat.le_of_lt_succ hj) with hj | rfl
        · exact h j hj hj0
        · exact hc.1
      obtain ⟨h1, h2, h3⟩ := ih hnext
      exact ⟨by omega, by omega, h3⟩
    · exact ⟨Nat.le_refl _, Nat.le_max_left _ _, h⟩

/-- `chunks_in_extent` counts adjacent chunks, and no more than a buffer holds. -/
theorem chunksInExtent_spec (chunks : Nat → Nat) (pos : Nat) {chunkSize : Nat} (hpos : 0 < chunkSize)
    (hsize : chunkSize ≤ maxMemSize) :
    1 ≤ chunksInExtent chunks pos chunkSize ∧ chunksInExtent chunks pos chunkSize * chunkSize ≤ maxMemSize ∧
      ∀ j < chunksInExtent chunks pos chunkSize, j ≠ 0 → chunks (pos + j) = (chunks pos + j) % 2 ^ 64 := by
  have hone : ∀ j < 1, j ≠ 0 → chunks (pos + j) = (chunks pos + j) % 2 ^ 64 := by omega
  obtain ⟨h1, h2, h3⟩ := chunksFrom_spec chunks pos (maxMemSize / chunkSize) (maxMemSize / chunkSize) hone
  refine ⟨h1, ?_, h3⟩
  have hdiv : 1 ≤ maxMemSize / chunkSize := Nat.div_pos hsize hpos
  calc chunksInExtent chunks pos chunkSize * chunkSize
      ≤ maxMemSize / chunkSize * chunkSize := Nat.mul_le_mul_right _ (h2.trans (by omega))
    _ ≤ maxMemSize := Nat.div_mul_le_self _ _

namespace GenerateArgs

variable (g : GenerateArgs)

/-- The byte belongs to the chunk at entry `i` of the changelist. -/
def InChunk (i a : Nat) : Prop := g.chunks i * g.chunkSize ≤ a ∧ a < g.chunks i * g.chunkSize + g.chunkSize

/-- The byte belongs to the chunk that the code finds for entry `i`: its address is a 64-bit number. -/
def OnChunk (i a : Nat) : Prop := g.chunkAddr i ≤ a ∧ a < g.chunkAddr i + g.chunkSize

/-- What the round trip assumes of the sizes: an incremental delta, chunks of at most 1 MiB and volumes of
at least 1 MiB. -/
structure Sized : Prop where
  incremental : g.full = false
  chunk : g.chunkSize ≤ maxMemSize
  source : maxMemSize ≤ g.source.size
  target : maxMemSize ≤ g.target.size

variable {g} {i : Nat}

theorem chunkSize_pos : 0 < g.chunkSize := Nat.two_pow_pos _

theorem chunkAddr_lt : g.chunkAddr i < 2 ^ 64 := Nat.mod_lt _ (by decide)

/-- For the bytes of a volume the two are the same. -/
theorem onChunk_of_inChunk {a : Nat} (ha : a < 2 ^ 63) (h : g.InChunk i a) : g.OnChunk i a := by
  rw [OnChunk, chunkAddr, chunkpos_eq (by unfold InChunk chunkSize at h; omega)]
  exact h

/-- The extent at entry `i`, before it is cut off. -/
structure IsExtent (g : GenerateArgs) (i : Nat) (e : Extent) : Prop where
  addr : e.addr = g.chunkAddr i
  num_le : e.num * g.chunkSize ≤ maxMemSize
  size : e.size = clip g.target.size e.addr (e.num * g.chunkSize)
  adjacent : ∀ j < e.num, g.chunks (i + j) = (g.chunks i + j) % 2 ^ 64 ∨ j = 0

theorem isExtent_extent (hg : g.Sized) (i : Nat) : g.IsExtent i (g.extent i) := by
  have hspec := chunksInExtent_spec g.chunks i g.chunkSize_pos hg.chunk
  have hmax : maxMemSize < 2 ^ 64 := by decide
  simp only [extent, hg.incremental, Bool.false_eq_true, if_false]
  by_cases hlast : i = g.count - 1
  · simp only [hlast, if_true]
    have := hg.chunk
    exact ⟨rfl, by simpa using hg.chunk, by rw [Nat.mul_comm, Nat.mod_eq_of_lt (by omega)],
      fun j hj => .inr (Nat.lt_one_iff.1 hj)⟩
  · simp only [hlast, if_false]
    refine ⟨rfl, hspec.2.1, ?_, fun j hj => ?_⟩
    · dsimp only
      rw [Nat.mul_comm, Nat.mod_eq_of_lt (by omega)]
    · rcases Nat.eq_zero_or_pos j with rfl | hj0
      · exact .inr rfl
      · exact .inl (hspec.2.2 j hj (by omega))

private theorem IsExtent.chunkAddr_add {e : Extent} (he : g.IsExtent i e) (haddr : e.addr < 2 ^ 63) {j : Nat}
    (hj : j < e.num) : g.chunkAddr (i + j) = e.addr + j * g.chunkSize := by
  have hle : j * g.chunkSize ≤ maxMemSize := (Nat.mul_le_mul_right _ (Nat.le_of_lt hj)).trans he.num_le
  have hmax : maxMemSize = 2 ^ 20 := rfl
  rcases he.adjacent j hj with h | rfl
  · have hsum : (g.chunks i + j) * 2 ^ g.chunksizeBits % 2 ^ 64 = e.addr + j * g.chunkSize := by
      rw [Nat.add_mul, Nat.add_mod, ← Nat.shiftLeft_eq (g.chunks i), ← chunkpos, ← chunkAddr, ← he.addr]
      rw [Nat.mod_eq_of_lt (a := j * 2 ^ g.chunksizeBits) (by unfold chunkSize at hle; omega)]
      exact Nat.mod_eq_of_lt (by unfold chunkSize at hle; omega)
    rw [chunkAddr, chunkpos, h, Nat.shiftLeft_eq, Nat.mod_mul_mod, hsum]
  · simp [he.addr]

/-- The bytes of an extent on the volume are those of its chunks. -/
theorem IsExtent.mem_iff {e : Extent} (he : g.IsExtent i e) (hg : g.Sized) (haddr : e.addr ≤ g.target.size) (a : Nat) :
    e.addr ≤ a ∧ a < e.addr + e.size ↔ a < g.target.size ∧ ∃ j, i ≤ j ∧ j < i + e.num ∧ g.OnChunk j a := by
  have hv := g.target.size_lt
  have hsize : e.size = min (e.num * g.chunkSize) (g.target.size - e.addr) :=
    he.size.trans (clip_eq hv (he.num_le.trans hg.target) haddr)
  constructor
  · rintro ⟨h1, h2⟩
    refine ⟨by omega, i + (a - e.addr) / g.chunkSize, Nat.le_add_right _ _, ?_, ?_⟩
    · have : (a - e.addr) / g.chunkSize < e.num := Nat.div_lt_of_lt_mul (by rw [Nat.mul_comm]; omega)
      omega
    · have hj : (a - e.addr) / g.chunkSize < e.num := Nat.div_lt_of_lt_mul (by rw [Nat.mul_comm]; omega)
      have hmod := Nat.mod_lt (a - e.addr) g.chunkSize_pos
      have hdiv := Nat.div_add_mod' (a - e.addr) g.chunkSize
      rw [OnChunk, he.chunkAddr_add (by omega) hj]
      omega
  · rintro ⟨ha, j, hij, hj, hin⟩
    obtain ⟨d, rfl⟩ := Nat.exists_eq_add_of_le hij
    have hd : d < e.num := by omega
    rw [OnChunk, he.chunkAddr_add (by omega) hd] at hin
    have hle : (d + 1) * g.chunkSize ≤ e.num * g.chunkSize := Nat.mul_le_mul_right _ hd
    rw [Nat.succ_mul] at hle
    omega

/-! ### One extent -/

/-- What the receiver finds in the record of the extent at entry `i`: the header says where the extent is and what the
two volumes hold there, and the payload gives the new content. -/
structure IsRecord (g : GenerateArgs) (i : Nat) (deh : DeltaExtentHeader) (payload : Bytes) : Prop where
  fits : deh.Fits
  magic : deh.magicNum = deltaMagic
  addr : deh.extentAddr = (g.extent i).addr
  num : deh.numOfChunks = (g.extent i).num
  length : deh.extentsDeltaLength = payload.length
  size_le : (g.extent i).size ≤ maxMemSize
  onTarget : (g.extent i).size ≠ 0 → (g.extent i).addr + (g.extent i).size ≤ g.target.size
  onSource : (g.extent i).addr < g.source.size →
    clip g.source.size (g.extent i).addr (g.extent i).size ≤ maxMemSize ∧
      (g.extent i).addr + clip g.source.size (g.extent i).addr (g.extent i).size ≤ g.source.size ∧
      deh.ext1Chksum = checksum (g.source.slice (g.extent i).addr
        (clip g.source.size (g.extent i).addr (g.extent i).size))
  ext2 : deh.ext2Chksum = checksum (g.target.slice (g.extent i).addr (g.extent i).size)
  content : ∃ data, Stands g.codec (g.extent i).size deh.gzipOn payload data ∧
    Gives g.codec deh.mode data (g.source.slice (g.extent i).addr (g.extent i).size)
      (g.target.slice (g.extent i).addr (g.extent i).size)
  full : deh.mode = XDELTA → (g.extent i).addr + (g.extent i).size ≤ g.source.size

variable {io : GenerateIo} {src src' : SourceExtent} {deh : DeltaExtentHeader} {payload : Bytes}

/-- What was read of the source. -/
private theorem readSource_ok {rets : List Ret} {e : Extent} (h : g.readSource rets e src = some (.ok src'))
    (hfull : g.full = false) :
    (e.addr < g.source.size ∧ clip g.source.size e.addr e.size ≤ maxMemSize ∧
      src' = ⟨fill src.data (g.source.slice e.addr (clip g.source.size e.addr e.size)),
        checksum (g.source.slice e.addr (clip g.source.size e.addr e.size))⟩) ∨
    (g.source.size ≤ e.addr ∧ src' = src) := by
  unfold readSource at h
  split at h
  · rename_i hc
    obtain ⟨r, hr, h⟩ := Option.map_eq_some_iff.1 h
    cases r with
    | error err => cases h
    | ok data =>
      cases h
      obtain ⟨rfl, h1, -⟩ := readExtent_ok hr
      exact .inl ⟨hc.2, h1, rfl⟩
  · rename_i hc
    cases h
    exact .inr ⟨by simpa [hfull] using hc, rfl⟩

theorem makeRecord_ok (h : g.makeRecord io i src = some (.ok (src', deh, payload))) :
    ∃ dev2 mode gzip, g.readSource (io.read1 i) (g.extent i) src = some (.ok src') ∧
      readExtent g.target (io.read2 i) (g.extent i).size (g.extent i).addr = some (.ok dev2) ∧
      encodeExtent g.codec g.mode g.level (io.alloc i) (g.rawOnly (g.extent i)) (front src'.data (g.extent i).size)
        dev2 = .ok (mode, gzip, payload) ∧
      deh = ⟨deltaMagic, mode, gzip, (g.extent i).addr, (g.extent i).num, payload.length, src'.chksum,
        checksum dev2⟩ := by
  simp only [makeRecord] at h
  obtain ⟨rs, hrs, h⟩ := Option.bind_eq_some_iff.1 h
  cases rs with
  | error err => cases h
  | ok src₁ =>
    obtain ⟨rt, hrt, h⟩ := Option.map_eq_some_iff.1 h
    cases rt with
    | error err => cases h
    | ok dev2 =>
      simp only [record] at h
      cases hen : encodeExtent g.codec g.mode g.level (io.alloc i) (g.rawOnly (g.extent i))
          (front src₁.data (g.extent i).size) dev2 with
      | error err => rw [hen] at h; cases h
      | ok out =>
        rw [hen] at h
        cases h
        exact ⟨dev2, out.1, out.2.1, hrs, hrt, hen, rfl⟩

private theorem fits_header {e : Extent} (he : g.IsExtent i e) {mode gzip ext1 ext2 : Nat} {data : Bytes}
    (hmode : mode = RAW ∨ mode = XDELTA) (hstands : Stands g.codec e.size gzip payload data)
    (hsize : e.size ≤ maxMemSize) (hext1 : ext1 < 2 ^ 64) (hext2 : ext2 < 2 ^ 64) :
    DeltaExtentHeader.Fits ⟨deltaMagic, mode, gzip, e.addr, e.num, payload.length, ext1, ext2⟩ := by
  have hmax : maxMemSize = 2 ^ 20 := rfl
  have hlen : payload.length ≤ maxMemSize := hstands.length.trans (hstands.fits.trans hsize)
  have hnum : e.num ≤ maxMemSize := (Nat.le_mul_of_pos_right _ g.chunkSize_pos).trans he.num_le
  have haddr : e.addr < 2 ^ 64 := he.addr ▸ chunkAddr_lt
  have hmagic : deltaMagic < 256 ^ 4 := by decide
  have hnum8 : e.num < 256 ^ 8 := by omega
  have hlen8 : payload.length < 256 ^ 8 := by omega
  have hmode4 : mode < 256 ^ 4 := by rcases hmode with rfl | rfl <;> decide
  have hgzip4 : gzip < 256 ^ 4 := by rcases hstands.gzip with ⟨rfl, _⟩ | ⟨rfl, _⟩ <;> decide
  exact .cons hmagic <| .cons hmode4 <| .cons hgzip4 <| .cons haddr <| .cons hnum8 <| .cons hlen8 <| .cons hext1 <|
    .cons hext2 .nil

private theorem le_source_of_rawOnly {e : Extent} (hg : g.Sized) (hsize : e.size ≤ maxMemSize)
    (h : g.rawOnly e = false) : e.addr + e.size ≤ g.source.size := by
  have hsrc := hg.source
  have hlt := g.source.size_lt
  rw [rawOnly, hg.incremental, Bool.false_or, decide_eq_false_iff_not, diff64_eq (by omega) (by omega)] at h
  omega

theorem isRecord_of_makeRecord (hg : g.Sized) (hsrc : src.chksum < 2 ^ 64)
    (h : g.makeRecord io i src = some (.ok (src', deh, payload))) :
    g.IsRecord i deh payload ∧ src'.chksum < 2 ^ 64 := by
  obtain ⟨dev2, mode, gzip, hread, htgt, hen, rfl⟩ := makeRecord_ok h
  have he := isExtent_extent hg i
  obtain ⟨rfl, hsize, hon⟩ := readExtent_ok htgt
  obtain ⟨hraw, data, hstands, hgives⟩ := encodeExtent_gives hen
  rw [length_slice] at hstands
  have hmode : mode = RAW ∨ mode = XDELTA := hgives.imp And.left And.left
  have hfull : mode = XDELTA → (g.extent i).addr + (g.extent i).size ≤ g.source.size := fun hx =>
    le_source_of_rawOnly hg hsize <| by
      rw [← Bool.not_eq_true]
      exact fun hr => absurd (hx.symm.trans (hraw hr)) (by decide)
  have hclip : (g.extent i).addr < g.source.size → clip g.source.size (g.extent i).addr (g.extent i).size =
      min (g.extent i).size (g.source.size - (g.extent i).addr) := fun ha =>
    clip_eq g.source.size_lt (hsize.trans hg.source) ha.le
  rcases readSource_ok hread hg.incremental with ⟨ha, hle, rfl⟩ | ⟨ha, rfl⟩
  · refine ⟨⟨fits_header he hmode hstands hsize (checksum_lt _) (checksum_lt _), rfl, rfl, rfl, rfl, hsize, hon,
      fun _ => ⟨hle, by rw [hclip ha]; omega, rfl⟩, rfl, ⟨data, hstands, ?_⟩, hfull⟩, checksum_lt _⟩
    refine hgives.imp_right fun hx => ⟨hx.1, ?_⟩
    have hwhole := hfull hx.1
    have hfront := front_fill src.data (g.source.slice (g.extent i).addr (g.extent i).size)
    rw [length_slice] at hfront
    rw [hclip ha, Nat.min_eq_left (by omega)] at hx
    rw [← hfront]
    exact hx.2
  · refine ⟨⟨fits_header he hmode hstands hsize hsrc (checksum_lt _), rfl, rfl, rfl, rfl, hsize, hon,
      fun hlt => absurd hlt (Nat.not_lt.2 ha), rfl, ⟨data, hstands, ?_⟩, hfull⟩, hsrc⟩
    refine hgives.imp_right fun hx => ⟨hx.1, ?_⟩
    have hzero : (g.extent i).size = 0 := by have := hfull hx.1; omega
    rw [hzero] at hx ⊢
    exact hx.2

end GenerateArgs

/-! ### The errors of the sender are negative -/

private theorem gzipOnDelta_error {codec : Codec} {level : Int} {input : Bytes} {err : Int}
    (h : gzipOnDelta codec level input = .error err) : err < 0 := by
  unfold gzipOnDelta at h
  split at h
  · cases h; exact Errno.ret_neg _
  · cases h; exact Errno.ret_neg _
  · cases h; exact Errno.ret_neg _
  · split at h <;> cases h

private theorem createDelta_error {codec : Codec} {mode : DeltaMode} {alloc : Bool} {dev1 dev2 : Bytes} {err : Int}
    (h : createDelta codec mode alloc dev1 dev2 = .error err) : err < 0 := by
  have hx : createXdeltaDelta codec alloc dev1 dev2 = .error err → err < 0 := fun h => by
    simp only [createXdeltaDelta] at h
    split at h
    · cases h
    · split at h
      · cases h; exact Errno.ret_neg _
      · split at h
        · cases h; exact Errno.ret_neg _
        · split at h
          · cases h; exact Errno.ret_neg _
          · split at h <;> cases h
  cases mode with
  | raw => cases h
  | xdelta => exact hx h
  | bestComp => exact hx h

private theorem except_bind_error {ε α γ : Type} {x : Except ε α} {f : α → Except ε γ} {e : ε}
    (h : x >>= f = .error e) : x = .error e ∨ ∃ a, x = .ok a ∧ f a = .error e := by
  cases x with
  | error e' => cases h; exact .inl rfl
  | ok a => exact .inr ⟨a, rfl, h⟩

private theorem encodeExtent_error {codec : Codec} {mode : DeltaMode} {level : Int} {alloc rawOnly : Bool}
    {dev1 dev2 : Bytes}
    {err : Int} (h : encodeExtent codec mode level alloc rawOnly dev1 dev2 = .error err) : err < 0 := by
  unfold encodeExtent at h
  split at h
  · rcases except_bind_error h with hg | ⟨_, _, hr⟩
    · exact gzipOnDelta_error hg
    · cases hr
  · rcases except_bind_error h with hd | ⟨delta, _, h⟩
    · exact createDelta_error hd
    · rcases except_bind_error h with hg | ⟨gzip, _, h⟩
      · exact gzipOnDelta_error hg
      · split at h
        · rcases except_bind_error h with hg | ⟨gzip2, _, h⟩
          · exact gzipOnDelta_error hg
          · split at h <;> cases h
        · cases h

theorem readExtent_error {v : Volume UInt8} {rets : List Ret} {len addr : Nat} {err : Int}
    (h : readExtent v rets len addr = some (.error err)) : err < 0 := by
  obtain ⟨⟨n, r⟩, -, h⟩ := Option.bind_eq_some_iff.1 h
  split at h
  · cases h
  · split at h
    · rename_i hr
      cases h
      exact hr
    · cases h

namespace GenerateArgs

variable {g : GenerateArgs} {io : GenerateIo} {i j s : Nat} {src : SourceExtent}

theorem extent_num_pos (g : GenerateArgs) (i : Nat) : 1 ≤ (g.extent i).num := by
  have hone : ∀ j < 1, j ≠ 0 → g.chunks (i + j) = (g.chunks i + j) % 2 ^ 64 := by omega
  unfold extent
  split
  · exact Nat.le_refl _
  · dsimp only
    split
    · exact Nat.le_refl _
    · exact (chunksFrom_spec g.chunks i _ _ hone).1

private theorem makeRecord_error {err : Int} (h : g.makeRecord io i src = some (.error err)) : err < 0 := by
  simp only [makeRecord] at h
  obtain ⟨rs, hrs, h⟩ := Option.bind_eq_some_iff.1 h
  cases rs with
  | error e =>
    cases h
    unfold readSource at hrs
    split at hrs
    · obtain ⟨r, hr, he⟩ := Option.map_eq_some_iff.1 hrs
      cases r with
      | error e => cases he; exact readExtent_error hr
      | ok data => cases he
    · cases hrs
  | ok src₁ =>
    obtain ⟨rt, hrt, h⟩ := Option.map_eq_some_iff.1 h
    cases rt with
    | error e => cases h; exact readExtent_error hrt
    | ok dev2 =>
      simp only [record] at h
      cases hen : encodeExtent g.codec g.mode g.level (io.alloc i) (g.rawOnly (g.extent i))
          (front src₁.data (g.extent i).size) dev2 with
      | error e => rw [hen] at h; cases h; exact encodeExtent_error hen
      | ok out => rw [hen] at h; cases h

theorem fdwrite_neg {out out' : Bytes} {failure : Option (Nat × Errno)} {err : Int}
    (h : fdwrite out failure = some (out', err)) : err < 0 := by
  unfold fdwrite at h
  split at h
  · cases h
  · obtain ⟨f, _, he⟩ := Option.map_eq_some_iff.1 h
    cases he
    exact Errno.ret_neg _

/-! ### The stream of a sender that succeeds -/

/-- An extent of the transfer from entry `i` on starts at entry `s`. -/
inductive Starts (g : GenerateArgs) : Nat → Nat → Prop
  | here {i : Nat} (hi : i < g.count) : Starts g i i
  | next {i s : Nat} (hi : i < g.count) (h : Starts g (i + (g.extent i).num) s) : Starts g i s

theorem Starts.lt (h : g.Starts i s) : i < g.count := by
  cases h with
  | here hi => exact hi
  | next hi _ => exact hi

/-- A progress report is due after the extent, and it fails. -/
def ReportFails (g : GenerateArgs) (io : GenerateIo) (s : Nat) : Prop :=
  (g.progressFile && io.due s && !io.progress s) = true

/-- One round of a sender that succeeds: the record is sent, and then a report fails or the loop goes on. -/
theorem loop_succ {fuel : Nat} {stream : Bytes} {sent : List (Nat × Extent)} {out : GenerateOut}
    (h : g.loop io (fuel + 1) i src stream sent = some out) (hok : 0 ≤ out.err) (hi : i < g.count) :
    ∃ src' deh payload, g.makeRecord io i src = some (.ok (src', deh, payload)) ∧
      fdwrite deh.encode (io.header i) = none ∧ fdwrite payload (io.data i) = none ∧
      ((g.ReportFails io i ∧ out = ⟨stream ++ deh.encode ++ payload, 0, sent ++ [(i, g.extent i)]⟩) ∨
        (¬g.ReportFails io i ∧ g.loop io fuel (i + deh.numOfChunks) src' (stream ++ deh.encode ++ payload)
          (sent ++ [(i, g.extent i)]) = some out)) := by
  rw [loop, if_pos hi] at h
  obtain ⟨r, hr, h⟩ := Option.bind_eq_some_iff.1 h
  cases r with
  | error err =>
    cases h
    exact absurd hok (Int.not_le.2 (makeRecord_error hr))
  | ok r =>
    obtain ⟨src', deh, payload⟩ := r
    dsimp only at h
    split at h
    · rename_i hw
      cases h
      exact absurd hok (Int.not_le.2 (fdwrite_neg hw))
    · rename_i hheader
      split at h
      · rename_i hw
        cases h
        exact absurd hok (Int.not_le.2 (fdwrite_neg hw))
      · rename_i hdata
        refine ⟨src', deh, payload, hr, hheader, hdata, ?_⟩
        split at h
        · rename_i hf
          cases h
          exact .inl ⟨hf, rfl⟩
        · rename_i hf
          exact .inr ⟨hf, h⟩

theorem finish_ok {stream : Bytes} {sent : List (Nat × Extent)} (h : 0 ≤ (g.finish io i stream sent).err) :
    i = g.count ∧ (g.finish io i stream sent).stream = stream ∧ (g.finish io i stream sent).sent = sent := by
  unfold finish at *
  split at h
  · exact absurd h (Int.not_le.2 (Errno.ret_neg _))
  · rename_i hi
    rw [if_neg hi]
    exact ⟨Decidable.not_not.1 hi, rfl, rfl⟩

/-- Some extent before the last one, of those from entry `i` on, is followed by a report that fails. -/
def StopsEarly (g : GenerateArgs) (io : GenerateIo) (i : Nat) : Prop :=
  ∃ s, g.Starts i s ∧ s + (g.extent s).num < g.count ∧ g.ReportFails io s

private theorem stopsEarly_of_fails (hi : i < g.count) (hf : g.ReportFails io i) :
    g.StopsEarly io i ↔ i + (g.extent i).num < g.count := by
  refine ⟨?_, fun hlt => ⟨i, .here hi, hlt, hf⟩⟩
  rintro ⟨s, hs, hlt, -⟩
  cases hs with
  | here => exact hlt
  | next _ hs => exact hs.lt

private theorem stopsEarly_next (hi : i < g.count) (hf : ¬g.ReportFails io i) :
    g.StopsEarly io i ↔ g.StopsEarly io (i + (g.extent i).num) := by
  constructor
  · rintro ⟨s, hs, hlt, hfail⟩
    cases hs with
    | here => exact absurd hfail hf
    | next _ hs => exact ⟨s, hs, hlt, hfail⟩
  · rintro ⟨s, hs, hfail⟩
    exact ⟨s, .next hi hs, hfail⟩

private theorem not_stopsEarly (hi : g.count ≤ i) : ¬g.StopsEarly io i :=
  fun ⟨_, hs, _⟩ => absurd hs.lt (Nat.not_lt.2 hi)

/-- The stream is the records of the extents from entry `i` to entry `j`. -/
inductive Records (g : GenerateArgs) : Nat → Nat → Bytes → Prop
  | nil (i : Nat) : Records g i i []
  | cons {i j : Nat} {deh : DeltaExtentHeader} {payload stream : Bytes} (hi : i < g.count)
      (hrec : g.IsRecord i deh payload) (hrest : Records g (i + (g.extent i).num) j stream) :
      Records g i j (deh.encode ++ payload ++ stream)

private theorem finish_records {stream : Bytes} {sent : List (Nat × Extent)} {out : GenerateOut}
    (h : g.finish io i stream sent = out) (hok : 0 ≤ out.err) :
    ∃ j S, out.stream = stream ++ S ∧ g.Records i j S ∧ (j < g.count ↔ g.StopsEarly io i) := by
  subst h
  obtain ⟨rfl, hs, -⟩ := finish_ok hok
  exact ⟨g.count, [], by simpa using hs, .nil _, fun hlt => absurd hlt (Nat.lt_irrefl _),
    fun hs => absurd hs (not_stopsEarly le_rfl)⟩

/-- The stream of a sender that succeeds.  It ends before the end of the list just if a report failed there. -/
private theorem loop_records (hg : g.Sized) {fuel : Nat} {stream : Bytes} {sent : List (Nat × Extent)}
    {out : GenerateOut}
    (hfuel : g.count ≤ i + fuel) (hsrc : src.chksum < 2 ^ 64) (h : g.loop io fuel i src stream sent = some out)
    (hok : 0 ≤ out.err) :
    ∃ j S, out.stream = stream ++ S ∧ g.Records i j S ∧ (j < g.count ↔ g.StopsEarly io i) := by
  induction fuel generalizing i src stream sent with
  | zero => exact finish_records (Option.some.inj h) hok
  | succ fuel ih =>
    by_cases hi : i < g.count
    · obtain ⟨src', deh, payload, hmake, -, -, hcase⟩ := loop_succ h hok hi
      obtain ⟨hrec, hsrc'⟩ := isRecord_of_makeRecord hg hsrc hmake
      rcases hcase with ⟨hf, rfl⟩ | ⟨hf, h⟩
      · exact ⟨_, deh.encode ++ payload ++ [], by simp, .cons hi hrec (.nil _), (stopsEarly_of_fails hi hf).symm⟩
      · have hpos := g.extent_num_pos i
        rw [hrec.num] at h
        obtain ⟨j, S, hstream, hS, hiff⟩ := ih (by omega) hsrc' h
        exact ⟨j, _, by simp [hstream], .cons hi hrec hS, hiff.trans (stopsEarly_next hi hf).symm⟩
    · rw [loop, if_neg hi] at h
      exact finish_records (Option.some.inj h) hok

theorem generate_records (hg : g.Sized) {out : GenerateOut} {start : Nat} (hstart : start ≤ g.count)
    (h : g.generate io start = some out) (hok : 0 ≤ out.err) :
    ∃ j, g.Records start j out.stream ∧ (j < g.count ↔ g.StopsEarly io start) := by
  unfold generate at h
  split at h
  · cases h
    exact absurd hok (by decide)
  · split at h
    · cases h
      exact absurd hok (by decide)
    · obtain ⟨j, S, hstream, hS, hiff⟩ := loop_records hg (by omega) (Nat.two_pow_pos 64) h hok
      rw [List.nil_append] at hstream
      exact ⟨j, hstream ▸ hS, hiff⟩

end GenerateArgs

end Ddsnap
