import Ddsnap.DeltaRecords

/-!
# The round trip of a delta

The receiver turns the record of an extent into the content of the target snapshot.  So if the sender succeeds, then
the receiver leaves every chunk of the list with the new content and touches nothing else.  The one exception is a
sender that stops early without an error, because a progress report failed.
-/

namespace Ddsnap

/-! ### The receiver takes the record back -/

/-- A patch depends only on the bytes that it puts in. -/
theorem patch_front {f updated : Nat → UInt8} {v : Volume UInt8} {addr n : Nat} (h : front updated n = v.slice addr n) :
    patch f addr n updated = patch f addr n fun j => v.byte (addr + j) := by
  refine patch_congr fun j hj => ?_
  simpa [front, Volume.slice, hj] using congrArg (·[j]?) h

/-- The receiver works on the volumes and chunks of the sender. -/
structure ApplyArgs.Matches (p : ApplyArgs) (g : GenerateArgs) : Prop where
  codec : p.codec = g.codec
  full : p.full = g.full
  source : p.source = g.source
  chunkSize : p.chunkSize = g.chunkSize

/-- The reads and writes of the receiver succeed, and so do its syncs and progress reports. -/
structure ApplyIo.Healthy (io : ApplyIo) : Prop where
  read : ∀ k, Obliging (io.read k)
  write : ∀ k, Obliging (io.write k)
  fsync : ∀ k, io.fsync k = true
  progress : ∀ k, io.progress k = true
  lastFsync : io.lastFsync = true
  lastProgress : io.lastProgress = true

namespace ApplyArgs

variable {p : ApplyArgs} {g : GenerateArgs} {i k : Nat} {io : ApplyIo} {deh : DeltaExtentHeader} {payload rest : Bytes}

theorem readHeader_isRecord (hrec : g.IsRecord i deh payload) (stream : Bytes) :
    readHeader io (deh.encode ++ stream) = .ok deh := by
  have htake : (deh.encode ++ stream).take DeltaExtentHeader.size = deh.encode := List.take_left' deh.length_encode
  rw [readHeader, htake, DeltaExtentHeader.decode_encode hrec.fits]
  simp [DeltaExtentHeader.length_encode, hrec.magic]

/-- The receiver finds the size of the extent that the sender had. -/
theorem extentSize_isRecord (hp : p.Matches g) (hg : g.Sized) (hrec : g.IsRecord i deh payload) {target : Volume UInt8}
    (hsize : target.size = g.target.size) : p.extentSize target deh = (g.extent i).size := by
  have he := GenerateArgs.isExtent_extent hg i
  have hmax : maxMemSize < 2 ^ 64 := by decide
  rw [extentSize, hrec.addr, hrec.num, hp.chunkSize, hsize, he.size, Nat.mod_eq_of_lt (he.num_le.trans_lt hmax)]

private theorem readSource_isRecord (hp : p.Matches g) (hg : g.Sized) (hrec : g.IsRecord i deh payload)
    {rets : List Ret} (hrets : Obliging rets) (extentData : Nat → UInt8) :
    ∃ extentData', p.readSource rets deh (g.extent i).size extentData = some (.ok extentData') := by
  have hfull : p.full = false := hp.full.trans hg.incremental
  simp only [readSource, hfull, hp.source, hrec.addr, Bool.not_false, true_and, gt_iff_lt]
  by_cases ha : (g.extent i).addr < g.source.size
  · obtain ⟨hle, hon, hsum⟩ := hrec.onSource ha
    rw [if_pos ha, hrets.readExtent hle fun _ => hon]
    simp [hsum]
  · exact ⟨extentData, if_neg ha⟩

/-- The source is what the sender had, as far as the decoding looks at it. -/
private theorem front_readSource (hp : p.Matches g) (hg : g.Sized) (hrec : g.IsRecord i deh payload) {rets : List Ret}
    {extentData extentData' : Nat → UInt8}
    (h : p.readSource rets deh (g.extent i).size extentData = some (.ok extentData')) (hx : deh.mode = XDELTA) :
    front extentData' (g.extent i).size = g.source.slice (g.extent i).addr (g.extent i).size := by
  have hfull : p.full = false := hp.full.trans hg.incremental
  have hwhole := hrec.full hx
  simp only [readSource, hfull, hp.source, hrec.addr, Bool.not_false, true_and, gt_iff_lt] at h
  by_cases ha : (g.extent i).addr < g.source.size
  · have hclip := clip_eq g.source.size_lt (hrec.size_le.trans hg.source) ha.le
    rw [if_pos ha, hclip, Nat.min_eq_left (by omega)] at h
    obtain ⟨r, hr, h⟩ := Option.map_eq_some_iff.1 h
    cases r with
    | error err => cases h
    | ok dev1 =>
      obtain ⟨rfl, -, -⟩ := readExtent_ok hr
      dsimp only at h
      split at h
      · cases h
      · cases h
        simpa using front_fill extentData (g.source.slice (g.extent i).addr (g.extent i).size)
  · have hzero : (g.extent i).size = 0 := by omega
    rw [hzero]
    rfl

private theorem inflate_isRecord (hp : p.Matches g) (hrec : g.IsRecord i deh payload) {data : Bytes}
    (hstands : Stands g.codec (g.extent i).size deh.gzipOn payload data) :
    p.inflate io (payload ++ rest) deh (g.extent i).size = some (.ok data) := by
  have hdata : data.length ≤ maxMemSize := hstands.fits.trans hrec.size_le
  have hlen : payload.length ≤ maxMemSize := hstands.length.trans hdata
  have hread : readPayload io (payload ++ rest) deh.extentsDeltaLength = some (.ok payload) := by
    rw [readPayload, hrec.length, List.length_append, if_neg (by omega), if_neg (by omega), List.take_left]
  rw [inflate, hread, hp.codec]
  rcases hstands.gzip with ⟨hone, hun⟩ | ⟨hzero, rfl⟩
  · simp [hone, hun, Nat.not_lt.2 hdata]
  · simp [hzero]

/-- From the payload the receiver makes the content that the sender had. -/
private theorem update_isRecord (hp : p.Matches g) (hg : g.Sized) {data : Bytes} {extentData deltaData : Nat → UInt8}
    (hgives : Gives g.codec deh.mode data (g.source.slice (g.extent i).addr (g.extent i).size)
      (g.target.slice (g.extent i).addr (g.extent i).size))
    (hsource : deh.mode = XDELTA →
      front extentData (g.extent i).size = g.source.slice (g.extent i).addr (g.extent i).size)
    (updated : Nat → UInt8) :
    p.update deh (g.extent i).size data.length extentData (fill deltaData data) updated =
      .ok (fill updated (g.target.slice (g.extent i).addr (g.extent i).size)) := by
  have hfull : p.full = false := hp.full.trans hg.incremental
  rcases hgives with ⟨hraw, rfl⟩ | ⟨hx, happly⟩
  · have hfront := front_fill deltaData (g.target.slice (g.extent i).addr (g.extent i).size)
    rw [length_slice] at hfront
    rw [update, if_pos hraw, hfront]
  · have hne : deh.mode ≠ RAW := by rw [hx]; decide
    rw [length_slice] at happly
    rw [update, if_neg hne, if_pos ⟨by rw [hfull]; rfl, hx⟩, hp.codec, hsource hx, front_fill, happly]
    simp

/-- A record is decoded as soon as the source can be read: the new content is in `updated`. -/
theorem decodeExtent_isRecord (hp : p.Matches g) (hg : g.Sized) (hrec : g.IsRecord i deh payload) {st : ApplyState}
    (hstream : st.stream = deh.encode ++ payload ++ rest) (hsize : st.target.size = g.target.size)
    {extentData : Nat → UInt8}
    (hsrc : p.readSource (io.read k) deh (g.extent i).size st.extentData = some (.ok extentData)) :
    ∃ deltaData updated, p.decodeExtent io k st = some (.ok
        (⟨rest, st.target, extentData, deltaData, updated, st.chunkNum, st.applied, st.synced⟩, deh,
          (g.extent i).size)) ∧
      front updated (g.extent i).size = g.target.slice (g.extent i).addr (g.extent i).size := by
  obtain ⟨data, hstands, hgives⟩ := hrec.content
  have hfront := front_fill st.updated (g.target.slice (g.extent i).addr (g.extent i).size)
  rw [length_slice] at hfront
  have hdrop : st.stream.drop DeltaExtentHeader.size = payload ++ rest := by
    rw [hstream, List.append_assoc]
    exact List.drop_left' deh.length_encode
  have hheader : readHeader io st.stream = .ok deh := by
    rw [hstream, List.append_assoc]
    exact readHeader_isRecord hrec _
  refine ⟨fill st.deltaData data, _, ?_, hfront⟩
  simp only [decodeExtent, hheader, hdrop, extentSize_isRecord hp hg hrec hsize, hsrc, Option.bind_some,
    inflate_isRecord hp hrec hstands, Nat.not_lt.2 hrec.size_le, if_false,
    update_isRecord hp hg hgives (front_readSource hp hg hrec hsrc), hfront, hrec.ext2, ne_eq, not_true_eq_false,
    hrec.length, List.drop_left]

private theorem round_isRecord (hp : p.Matches g) (hg : g.Sized) (hrec : g.IsRecord i deh payload) {st : ApplyState}
    (hstream : st.stream = deh.encode ++ payload ++ rest) (hsize : st.target.size = g.target.size) (hio : io.Healthy) :
    ∃ st', p.round io k st = some (st', none) ∧ st'.stream = rest ∧
      st'.target = st.target.patch (g.extent i).addr (g.extent i).size
        (fun j => g.target.byte ((g.extent i).addr + j)) ∧
      st'.chunkNum = (st.chunkNum + (g.extent i).num) % 2 ^ 64 := by
  obtain ⟨extentData, hsrc⟩ := readSource_isRecord hp hg hrec (hio.read k) st.extentData
  obtain ⟨deltaData, updated, hdec, hfront⟩ := decodeExtent_isRecord hp hg hrec hstream hsize hsrc
  have hwrite := (hio.write k).fdio hrec.size_le (hsize ▸ hrec.onTarget)
  rw [round, hdec]
  simp only [Option.bind_some, writeExtent, hrec.addr, hwrite, Option.map_some, Int.lt_irrefl, if_false, hio.fsync,
    hio.progress, Bool.not_true, Bool.false_eq_true, Volume.patch, patch_front hfront]
  split
  · exact ⟨_, rfl, rfl, rfl, by rw [ApplyState.count, ApplyState.wrote, hrec.num]⟩
  · exact ⟨_, rfl, rfl, rfl, by rw [ApplyState.count, ApplyState.wrote, hrec.num]⟩

end ApplyArgs

/-! ### What a stream does to the target -/

namespace GenerateArgs

variable {g : GenerateArgs} {i j k : Nat} {old mid new : Nat → UInt8}

/-- The byte is on the volume, in a chunk of the entries from `i` to `j`. -/
def Sent (g : GenerateArgs) (i j a : Nat) : Prop := a < g.target.size ∧ ∃ l, i ≤ l ∧ l < j ∧ g.OnChunk l a

/-- The chunks of the entries from `i` to `j` have their new content and the rest is as it was. -/
structure Updates (g : GenerateArgs) (i j : Nat) (old new : Nat → UInt8) : Prop where
  inside : ∀ a, g.Sent i j a → new a = g.target.byte a
  outside : ∀ a, ¬g.Sent i j a → new a = old a

theorem Updates.refl (g : GenerateArgs) (i : Nat) (old : Nat → UInt8) : g.Updates i i old old :=
  ⟨fun _ ⟨_, _, h1, h2, _⟩ => absurd h1 (Nat.not_le.2 h2), fun _ _ => rfl⟩

private theorem Sent.mono {i' j' a : Nat} (h : g.Sent i j a) (hi : i' ≤ i) (hj : j ≤ j') : g.Sent i' j' a := by
  obtain ⟨ha, l, h1, h2, hl⟩ := h
  exact ⟨ha, l, hi.trans h1, h2.trans_le hj, hl⟩

theorem Updates.trans (h1 : g.Updates i j old mid) (h2 : g.Updates j k mid new) (hij : i ≤ j) (hjk : j ≤ k) :
    g.Updates i k old new := by
  constructor
  · intro a ha
    by_cases hj : g.Sent j k a
    · exact h2.inside a hj
    · obtain ⟨hsize, l, hl1, hl2, hl⟩ := ha
      have hlj : l < j := Nat.not_le.1 fun hle => hj ⟨hsize, l, hle, hl2, hl⟩
      exact (h2.outside a hj).trans (h1.inside a ⟨hsize, l, hl1, hlj, hl⟩)
  · intro a ha
    rw [h2.outside a fun h => ha (h.mono hij le_rfl), h1.outside a fun h => ha (h.mono le_rfl hjk)]

private theorem IsRecord.addr_le {deh : DeltaExtentHeader} {payload : Bytes} (hrec : g.IsRecord i deh payload)
    (hg : g.Sized) : (g.extent i).addr ≤ g.target.size := by
  have he := isExtent_extent hg i
  by_contra hlt
  have hne := clip_pos g.target.size_lt (Nat.not_le.1 hlt) (he.addr ▸ chunkAddr_lt) (he.num_le.trans hg.target)
  have := hrec.onTarget (he.size ▸ hne)
  omega

/-- Writing an extent updates its chunks. -/
theorem IsRecord.updates {deh : DeltaExtentHeader} {payload : Bytes} (hrec : g.IsRecord i deh payload) (hg : g.Sized)
    (old : Nat → UInt8) :
    g.Updates i (i + (g.extent i).num) old
      (patch old (g.extent i).addr (g.extent i).size fun j => g.target.byte ((g.extent i).addr + j)) := by
  have hmem := (isExtent_extent hg i).mem_iff hg (hrec.addr_le hg)
  constructor
  · intro a ha
    have hin := (hmem a).2 ha
    rw [patch_of_mem hin]
    congr 1
    omega
  · exact fun a ha => patch_of_notMem fun hin => ha ((hmem a).1 hin)

private theorem Records.le {S : Bytes} (h : g.Records i j S) : i ≤ j := by
  induction h with
  | nil => exact Nat.le_refl _
  | cons _ _ _ ih => omega

end GenerateArgs

namespace ApplyArgs

variable {p : ApplyArgs} {g : GenerateArgs} {io : ApplyIo} {i j start : Nat} {S : Bytes}

private theorem round_empty {st : ApplyState} (k : Nat) (h : st.stream = []) :
    p.round io k st = some (st, some (.headerRead io.streamErr.ret)) := by
  have hheader : readHeader io [] = .error (.headerRead io.streamErr.ret) := if_pos (by decide)
  rw [round, decodeExtent, h, hheader]
  rfl

/-- The receiver takes a stream of records.  If they reach the end of the list, then it updates their chunks; if not, it
fails. -/
private theorem loop_records (hp : p.Matches g) (hg : g.Sized) (hio : io.Healthy)
    (hcount : p.chunkCount = g.count - start)
    (hS : g.Records i j S) (hstart : start ≤ i) {st : ApplyState} {k fuel : Nat} (hstream : st.stream = S)
    (hsize : st.target.size = g.target.size) (hnum : st.chunkNum = i - start) (hfuel : S.length < fuel) :
    ∃ res, p.loop io fuel k st = some res ∧
      (g.count ≤ j →
        res.err = 0 ∧ res.target.size = g.target.size ∧ g.Updates i j st.target.byte res.target.byte) ∧
      (j < g.count → res.err < 0) := by
  induction hS generalizing st k fuel with
  | nil i =>
    obtain ⟨fuel, rfl⟩ := Nat.exists_eq_succ_of_ne_zero (by omega : fuel ≠ 0)
    rw [loop]
    by_cases hi : i < g.count
    · rw [if_pos (by omega), round_empty k hstream]
      exact ⟨_, rfl, fun hle => absurd hi (Nat.not_lt.2 hle), fun _ => io.streamErr.ret_neg⟩
    · rw [if_neg (by omega)]
      refine ⟨_, rfl, fun _ => ?_, fun hlt => absurd hlt hi⟩
      simp only [finish, hio.lastFsync, hio.lastProgress, Bool.not_true, Bool.and_false, Bool.false_eq_true, if_false]
      exact ⟨trivial, hsize, GenerateArgs.Updates.refl g i _⟩
  | @cons i j deh payload rest hi hrec hrest ih =>
    obtain ⟨fuel, rfl⟩ := Nat.exists_eq_succ_of_ne_zero (by omega : fuel ≠ 0)
    obtain ⟨st', hround, hstream', htarget', hnum'⟩ := round_isRecord (k := k) hp hg hrec hstream hsize hio
    have he := GenerateArgs.isExtent_extent hg i
    have hnumle : (g.extent i).num ≤ 2 ^ 20 := (Nat.le_mul_of_pos_right _ g.chunkSize_pos).trans he.num_le
    have hlt := g.count_lt
    have hlen : rest.length < fuel := by
      simp only [List.length_append, deh.length_encode, DeltaExtentHeader.size] at hfuel
      omega
    rw [loop, if_pos (by omega), hround]
    obtain ⟨res, hres, hdone, hfail⟩ := ih (by omega) (k := k + 1) hstream' (htarget' ▸ hsize) (by omega) hlen
    refine ⟨res, hres, fun hle => ⟨(hdone hle).1, (hdone hle).2.1, ?_⟩, hfail⟩
    have hfirst := hrec.updates hg st.target.byte
    have hsecond := (hdone hle).2.2
    rw [htarget'] at hsecond
    exact hfirst.trans hsecond (Nat.le_add_right _ _) hrest.le

end ApplyArgs

/-! ### The round trip -/

namespace GenerateArgs

variable {g : GenerateArgs} {i j start : Nat} {S : Bytes}

/-- The byte belongs to a chunk of the list, from entry `start` on. -/
def Listed (g : GenerateArgs) (start a : Nat) : Prop :=
  Ddsnap.Listed g.chunksizeBits ((List.range' start (g.count - start)).map g.chunks) a

theorem listed_iff {a : Nat} : g.Listed start a ↔ ∃ i, start ≤ i ∧ i < g.count ∧ g.InChunk i a := by
  unfold Listed Ddsnap.Listed InChunk chunkSize
  simp only [List.mem_map, List.mem_range'_1, exists_exists_and_eq_and, Nat.succ_mul]
  refine exists_congr fun i => ?_
  rw [and_assoc]
  exact and_congr_right fun hs => and_congr_left' (by omega)

/-- A complete stream has the bytes of all extents. -/
theorem Records.sent_iff (hg : g.Sized) (hS : g.Records i j S) (hj : g.count ≤ j) (a : Nat) :
    g.Sent i j a ↔ ∃ s, g.Starts i s ∧ (g.extent s).addr ≤ a ∧ a < (g.extent s).addr + (g.extent s).size := by
  induction hS with
  | nil i =>
    constructor
    · rintro ⟨-, l, h1, h2, -⟩
      omega
    · rintro ⟨s, hs, -⟩
      exact absurd hs.lt (Nat.not_lt.2 hj)
  | @cons i j deh payload rest hi hrec hrest ih =>
    have hmem := (isExtent_extent hg i).mem_iff hg (hrec.addr_le hg) a
    constructor
    · rintro ⟨ha, l, h1, h2, hl⟩
      by_cases hlt : l < i + (g.extent i).num
      · exact ⟨i, .here hi, hmem.2 ⟨ha, l, h1, hlt, hl⟩⟩
      · obtain ⟨s, hs, hin⟩ := (ih hj).1 ⟨ha, l, Nat.not_lt.1 hlt, h2, hl⟩
        exact ⟨s, .next hi hs, hin⟩
    · rintro ⟨s, hs, hin⟩
      cases hs with
      | here => exact Sent.mono (hmem.1 hin) le_rfl hrest.le
      | next _ hs => exact ((ih hj).2 ⟨s, hs, hin⟩).mono (Nat.le_add_right _ _) le_rfl

/-- What the sender needs so that its success says that everything was sent.  An extent has no byte outside the list:
it does not go on behind the last entry, and every address fits its 64 bits.  And no report fails before the last
extent. -/
structure Complete (g : GenerateArgs) (io : GenerateIo) (start : Nat) : Prop where
  contained : ∀ s, g.Starts start s → ∀ a, (g.extent s).addr ≤ a → a < (g.extent s).addr + (g.extent s).size →
    g.Listed start a
  reported : ∀ s, g.Starts start s → s + (g.extent s).num < g.count → ¬g.ReportFails io s

end GenerateArgs

namespace ApplyArgs

variable {p : ApplyArgs} {g : GenerateArgs} {start : Nat}

/-- Applied to any target device of the right size, the stream leaves the listed chunks with the content of the target
snapshot, and all other bytes as they were. -/
def RoundTrip (p : ApplyArgs) (g : GenerateArgs) (io : ApplyIo) (start : Nat) (stream : Bytes) : Prop :=
  ∀ d : Volume UInt8, d.size = g.target.size → ∃ res, p.apply .ready io stream d = some res ∧ 0 ≤ res.err ∧
    (∀ a < g.target.size, g.Listed start a → res.target.byte a = g.target.byte a) ∧
    ∀ a, ¬g.Listed start a → res.target.byte a = d.byte a

/-- The receiver on a whole stream of records. -/
theorem apply_records {io : ApplyIo} {j : Nat} {S : Bytes} {d : Volume UInt8} (hp : p.Matches g) (hg : g.Sized)
    (hio : io.Healthy) (hcount : p.chunkCount = g.count - start) (hS : g.Records start j S)
    (hd : d.size = g.target.size) :
    ∃ res, p.apply .ready io S d = some res ∧
      (g.count ≤ j → res.err = 0 ∧ res.target.size = g.target.size ∧ g.Updates start j d.byte res.target.byte) ∧
      (j < g.count → res.err < 0) :=
  loop_records hp hg hio hcount hS le_rfl rfl hd (Nat.sub_self start).symm (Nat.lt_succ_self _)

/-- If `generate_delta_extents` succeeds on an incremental list, then `apply_delta_extents` makes the target snapshot
of its stream, unless the stream ended early with a progress report or had more than the list. -/
theorem round_trip_iff {gio : GenerateIo} {out : GenerateOut} {io : ApplyIo} (hg : g.Sized) (hstart : start ≤ g.count)
    (h : g.generate gio start = some out) (hok : 0 ≤ out.err) (hp : p.Matches g)
    (hcount : p.chunkCount = g.count - start) (hio : io.Healthy) :
    p.RoundTrip g io start out.stream ↔ g.Complete gio start := by
  obtain ⟨j, hS, hiff⟩ := GenerateArgs.generate_records hg hstart h hok
  have happly := fun (d : Volume UInt8) hd => apply_records (d := d) hp hg hio hcount hS hd
  constructor
  · intro hround
    have hj : g.count ≤ j := Nat.not_lt.1 fun hlt => by
      obtain ⟨res, hres, -, hneg⟩ := happly g.target rfl
      obtain ⟨res', hres', hpos, -⟩ := hround g.target rfl
      obtain rfl : res = res' := Option.some.inj (hres.symm.trans hres')
      exact absurd (hneg hlt) (Int.not_lt.2 hpos)
    refine ⟨fun s hs a h1 h2 => ?_, fun s hs hlt hf => absurd (hiff.2 ⟨s, hs, hlt, hf⟩) (Nat.not_lt.2 hj)⟩
    -- on a target that differs in this byte, only a listed byte may change
    by_contra hout
    let d : Volume UInt8 := { g.target with byte := fun x => g.target.byte x + 1 }
    obtain ⟨res, hres, hdone, -⟩ := happly d rfl
    obtain ⟨res', hres', -, -, hkeep⟩ := hround d rfl
    obtain rfl : res = res' := Option.some.inj (hres.symm.trans hres')
    have hnew := (hdone hj).2.2.inside a ((hS.sent_iff hg hj a).2 ⟨s, hs, h1, h2⟩)
    exact absurd ((hkeep a hout).symm.trans hnew) (by simp [d])
  · intro hc d hd
    have hj : g.count ≤ j := Nat.not_lt.1 fun hlt => by
      obtain ⟨s, hs, hlt, hf⟩ := hiff.1 hlt
      exact hc.reported s hs hlt hf
    obtain ⟨res, hres, hdone, -⟩ := happly d hd
    obtain ⟨hzero, -, hup⟩ := hdone hj
    refine ⟨res, hres, hzero.ge, fun a ha hlist => ?_, fun a hlist => ?_⟩
    · obtain ⟨l, h1, h2, hl⟩ := GenerateArgs.listed_iff.1 hlist
      have hon := GenerateArgs.onChunk_of_inChunk (ha.trans g.target.size_lt) hl
      exact hup.inside a ⟨ha, l, h1, h2.trans_le hj, hon⟩
    · refine hup.outside a fun hsent => ?_
      obtain ⟨s, hs, h1, h2⟩ := (hS.sent_iff hg hj a).1 hsent
      exact hlist (hc.contained s hs a h1 h2)

end ApplyArgs

/-! ### A small transfer -/

theorem obliging_single : Obliging [.bytes maxMemSize] := by
  intro size len addr hlen hin
  cases len with
  | zero => rfl
  | succ len =>
    have hret : min maxMemSize (min (len + 1) (size - addr)) = len + 1 := by omega
    simp [fdio, hret]

/-- No compression, and an empty delta for content that did not change. -/
def plainCodec : Codec where
  compress2 _ data := .ok data
  uncompress _ data := .ok data
  createDeltaChunk src tgt := if src = tgt then (0, []) else (bufferSizeError, [])
  applyDeltaChunk src _ size := (size, src.take size)
  uncompress_compress2 _ data out _ h _ := by cases h; rfl
  createDeltaChunk_length src tgt := by split <;> exact Nat.zero_le _

theorem two_lt_count : 2 < 2 ^ 63 := by decide

/-- The chunks 3, 4 and 9, of two bytes each, and a target that differs from the source from byte 18 on. -/
def smallSend : GenerateArgs where
  codec := plainCodec
  mode := .xdelta
  level := 0
  chunksizeBits := 1
  count := 3
  chunks i := [3, 4, 9].getD i 0
  full := false
  source := ⟨maxMemSize, fun _ => 1, by decide⟩
  target := ⟨maxMemSize, fun a => if a < 18 then 1 else 2, by decide⟩
  progressFile := true
  count_lt := by decide

def smallApply : ApplyArgs := ⟨plainCodec, false, smallSend.source, 2, 3, true⟩

/-- Everything succeeds, but for the progress reports of the extents at the given entries. -/
def smallIo (progress : Nat → Bool) : GenerateIo :=
  ⟨fun _ => 0, true, true, fun _ => [.bytes maxMemSize], fun _ => [.bytes maxMemSize], fun _ => true, fun _ => none,
    fun _ => none, fun _ => true, progress, true⟩

def steadyIo : ApplyIo :=
  ⟨fun _ _ => 0, .epipe, fun _ => [.bytes maxMemSize], fun _ => [.bytes maxMemSize], fun _ => true, fun _ => true,
    fun _ => true, true, true⟩

theorem steadyIo_healthy : steadyIo.Healthy :=
  ⟨fun _ => obliging_single, fun _ => obliging_single, fun _ => rfl, fun _ => rfl, rfl, rfl⟩

theorem smallSend_sized : smallSend.Sized := ⟨rfl, by decide, by decide, by decide⟩

def smallOut : GenerateOut := (smallSend.generate (smallIo fun _ => true) 0).getD ⟨[], -1, []⟩

theorem smallSend_generates : smallSend.generate (smallIo fun _ => true) 0 = some smallOut ∧ smallOut.err = 0 := by
  decide +kernel

theorem smallSend_extents : smallSend.extent 0 = ⟨6, 2, 4⟩ ∧ smallSend.extent 2 = ⟨18, 1, 2⟩ := by decide +kernel

private theorem smallSend_starts {s : Nat} (h : smallSend.Starts 0 s) : s = 0 ∨ s = 2 := by
  cases h with
  | here => exact .inl rfl
  | next _ h =>
    rw [smallSend_extents.1] at h
    change smallSend.Starts 2 s at h
    cases h with
    | here => exact .inr rfl
    | next _ h =>
      rw [smallSend_extents.2] at h
      exact absurd h.lt (by decide)

theorem smallSend_complete : smallSend.Complete (smallIo fun _ => true) 0 := by
  refine ⟨fun s hs a h1 h2 => ?_, fun s _ _ => Bool.false_ne_true⟩
  have hchunk : ∀ i, smallSend.InChunk i a ↔ [3, 4, 9].getD i 0 * 2 ≤ a ∧ a < [3, 4, 9].getD i 0 * 2 + 2 :=
    fun i => Iff.rfl
  refine GenerateArgs.listed_iff.2 ?_
  rcases smallSend_starts hs with rfl | rfl
  · rw [smallSend_extents.1] at h1 h2
    by_cases ha : a < 8
    · exact ⟨0, by decide, by decide, (hchunk 0).2 (by simp at *; omega)⟩
    · exact ⟨1, by decide, by decide, (hchunk 1).2 (by simp at *; omega)⟩
  · rw [smallSend_extents.2] at h1 h2
    exact ⟨2, by decide, by decide, (hchunk 2).2 (by simp at *; omega)⟩

theorem smallSend_roundTrip : smallApply.RoundTrip smallSend steadyIo 0 smallOut.stream :=
  (ApplyArgs.round_trip_iff smallSend_sized (by decide) smallSend_generates.1 smallSend_generates.2.ge
    ⟨rfl, rfl, rfl, rfl⟩ rfl steadyIo_healthy).2 smallSend_complete

/-- The report after the first of two extents fails: the sender has no error, the receiver finds no second header. -/
theorem stopped_after_first_extent :
    (smallSend.generate (smallIo fun _ => false) 0).map (fun out => (out.err, out.sent)) =
      some (0, [(0, ⟨6, 2, 4⟩)]) ∧
    ((smallSend.generate (smallIo fun _ => false) 0).bind fun out =>
      smallApply.apply .ready steadyIo out.stream smallSend.source).map (fun res => (res.err, res.chunkNum)) =
      some (Errno.epipe.ret, 2) := by
  decide +kernel

end Ddsnap
