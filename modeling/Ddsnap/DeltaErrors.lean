import Ddsnap.DeltaRoundTrip

/-!
# What the success of a transfer says

`apply_delta_extents` has more than a dozen exits that share the variable `err`, and some of them leave it at the 0 of
the last call that succeeded.  So a result that is not negative says that all chunks were read, checked, written and
synced only if none of these exits is taken: a size that cannot be determined, a payload that cannot be uncompressed,
an `fsync` that fails, or a progress report that fails before the last extent.  On the side of `generate_delta_extents`
it is the progress report alone.
-/

namespace Ddsnap

/-- The device after these extents were written to it; the first of them is the last one written. -/
def written (target : Volume UInt8) : List (DeltaExtentHeader × Bytes) → Volume UInt8
  | [] => target
  | (deh, data) :: applied => (written target applied).patch deh.extentAddr data.length fun j => data.getD j 0

/-- The number of chunks in these extents, as the 64 bits of `chunk_num` have it. -/
def chunksRead (applied : List (DeltaExtentHeader × Bytes)) : Nat :=
  (applied.map fun x => x.1.numOfChunks).sum % 2 ^ 64

/-- The extents were read from the first stream, and the second one is left. -/
inductive ReadFrom (stream : Bytes) : List (DeltaExtentHeader × Bytes) → Bytes → Prop
  | nil : ReadFrom stream [] stream
  | cons {applied : List (DeltaExtentHeader × Bytes)} {header payload rest data : Bytes}
      (h : ReadFrom stream applied (header ++ payload ++ rest)) (hheader : header.length = DeltaExtentHeader.size)
      (hpayload : payload.length = (DeltaExtentHeader.decode header).extentsDeltaLength) :
      ReadFrom stream ((DeltaExtentHeader.decode header, data) :: applied) rest

/-- All chunks were read from the stream, every extent passed its checksum, all of them are on the device, and it was
synced. -/
structure ApplyOut.Applied (out : ApplyOut) (p : ApplyArgs) (stream : Bytes) (target : Volume UInt8) : Prop where
  chunks : p.chunkCount ≤ chunksRead out.applied
  read : ∃ rest, ReadFrom stream out.applied rest
  checked : ∀ x ∈ out.applied, x.1.ext2Chksum = checksum x.2
  written : out.target = written target out.applied
  synced : out.synced = true

@[simp] theorem length_front (buffer : Nat → UInt8) (len : Nat) : (front buffer len).length = len := by
  simp [front]

private theorem getD_front {buffer : Nat → UInt8} {len j : Nat} (h : j < len) : (front buffer len).getD j 0 =
    buffer j := by
  simp [front, h]

/-! ### One round -/

/-- What holds whenever a round starts. -/
structure ApplyState.Kept (st : ApplyState) (stream : Bytes) (target : Volume UInt8) : Prop where
  read : ReadFrom stream st.applied st.stream
  checked : ∀ x ∈ st.applied, x.1.ext2Chksum = checksum x.2
  written : st.target = written target st.applied

namespace ApplyArgs

variable {p : ApplyArgs} {io : ApplyIo} {k size : Nat} {st st' : ApplyState} {deh : DeltaExtentHeader}
variable {stream : Bytes} {target : Volume UInt8}

/-- A decompression that fails. -/
def Garbled (x : ApplyExit) : Prop := x = .compMem ∨ x = .compBuf ∨ x = .compData

/-- Whatever was to be uncompressed, the codec has an error for it. -/
def Uncompressible (codec : Codec) : Prop := ∃ size payload, ∀ data, codec.uncompress size payload ≠ .ok data

theorem readHeader_ok (h : readHeader io stream = .ok deh) :
    DeltaExtentHeader.size ≤ stream.length ∧ deh = DeltaExtentHeader.decode (stream.take DeltaExtentHeader.size) := by
  simp only [readHeader] at h
  split at h
  · cases h
  · split at h
    · cases h
    · cases h
      exact ⟨by omega, rfl⟩

private theorem readHeader_error {x : ApplyExit} (h : readHeader io stream = .error x) : x.err < 0 := by
  simp only [readHeader] at h
  split at h
  · cases h
    exact Errno.ret_neg _
  · split at h
    · cases h
      exact Errno.ret_neg _
    · cases h

private theorem readSource_error {rets : List Ret} {data : Nat → UInt8} {x : ApplyExit}
    (h : p.readSource rets deh size data = some (.error x)) : x.err < 0 := by
  unfold readSource at h
  split at h
  · obtain ⟨r, hr, h⟩ := Option.map_eq_some_iff.1 h
    cases r with
    | error err => cases h; exact readExtent_error hr
    | ok dev1 =>
      dsimp only at h
      split at h
      · cases h
        exact Errno.ret_neg _
      · cases h
  · cases h

private theorem readPayload_ok {payload : Bytes} {len : Nat} (h : readPayload io stream len = some (.ok payload)) :
    len ≤ stream.length := by
  unfold readPayload at h
  split at h
  · cases h
  · split at h
    · cases h
    · omega

private theorem inflate_ok {data : Bytes} (h : p.inflate io stream deh size = some (.ok data)) :
    deh.extentsDeltaLength ≤ stream.length := by
  obtain ⟨r, hr, h⟩ := Option.bind_eq_some_iff.1 h
  cases r with
  | error x => cases h
  | ok payload => exact readPayload_ok hr

private theorem inflate_error {x : ApplyExit} (h : p.inflate io stream deh size = some (.error x)) :
    x.err < 0 ∨ Garbled x ∧ Uncompressible p.codec := by
  obtain ⟨r, hr, h⟩ := Option.bind_eq_some_iff.1 h
  cases r with
  | error x =>
    cases h
    unfold readPayload at hr
    split at hr
    · cases hr
    · split at hr
      · cases hr
        exact .inl (Errno.ret_neg _)
      · cases hr
  | ok payload =>
    dsimp only at h
    split at h
    · split at h
      · rename_i hu
        cases h
        exact .inr ⟨.inl rfl, size, payload, by simp [hu]⟩
      · rename_i hu
        cases h
        exact .inr ⟨.inr (.inl rfl), size, payload, by simp [hu]⟩
      · rename_i hu
        cases h
        exact .inr ⟨.inr (.inr rfl), size, payload, by simp [hu]⟩
      · split at h <;> cases h
    · cases h

private theorem update_error {len : Nat} {extentData deltaData updated : Nat → UInt8} {x : ApplyExit}
    (h : p.update deh size len extentData deltaData updated = .error x) : x.err < 0 := by
  unfold update at h
  split at h
  · cases h
  · split at h
    · dsimp only at h
      split at h
      · cases h
        exact Errno.ret_neg _
      · cases h
    · cases h

/-- The steps of `decodeExtent`: each of them may end the loop, or all of them succeed. -/
theorem decodeExtent_cases {r : Except ApplyExit (ApplyState × DeltaExtentHeader × Nat)}
    (h : p.decodeExtent io k st = some r) :
    (∃ x, r = .error x ∧ (x.err < 0 ∨ Garbled x ∧ Uncompressible p.codec)) ∨
      ∃ deh extentData deltaData updated, r = .ok
          ({ st with
              stream := (st.stream.drop DeltaExtentHeader.size).drop deh.extentsDeltaLength, extentData := extentData,
              deltaData := deltaData, updated := updated }, deh, p.extentSize st.target deh) ∧
        readHeader io st.stream = .ok deh ∧
        deh.extentsDeltaLength ≤ (st.stream.drop DeltaExtentHeader.size).length ∧
        deh.ext2Chksum = checksum (front updated (p.extentSize st.target deh)) := by
  unfold decodeExtent at h
  cases hheader : readHeader io st.stream with
  | error x =>
    rw [hheader] at h
    cases h
    exact .inl ⟨x, rfl, .inl (readHeader_error hheader)⟩
  | ok deh =>
    rw [hheader] at h
    obtain ⟨rs, hrs, h⟩ := Option.bind_eq_some_iff.1 h
    cases rs with
    | error x => cases h; exact .inl ⟨x, rfl, .inl (readSource_error hrs)⟩
    | ok extentData =>
      obtain ⟨ri, hri, h⟩ := Option.bind_eq_some_iff.1 h
      cases ri with
      | error x => cases h; exact .inl ⟨x, rfl, inflate_error hri⟩
      | ok data =>
        dsimp only at h
        split at h
        · cases h
        · split at h
          · rename_i x hu
            cases h
            exact .inl ⟨x, rfl, .inl (update_error hu)⟩
          · rename_i updated hu
            split at h
            · cases h
              exact .inl ⟨_, rfl, .inl (Errno.ret_neg _)⟩
            · rename_i hsum
              cases h
              exact .inr ⟨deh, extentData, _, updated, rfl, rfl, inflate_ok hri, by simpa using hsum⟩

/-- The steps of a round. -/
private theorem round_cases {exit : Option ApplyExit} (h : p.round io k st = some (st', exit)) :
    (∃ x, exit = some x ∧ (x.err < 0 ∨ Garbled x ∧ p.decodeExtent io k st = some (.error x))) ∨
      ∃ st₁ deh size, p.decodeExtent io k st = some (.ok (st₁, deh, size)) ∧
        fdio st₁.target.size (io.write k) size deh.extentAddr = some (size, 0) ∧
        let st₂ := { st₁ with target := st₁.target.patch deh.extentAddr size st₁.updated }.wrote deh size
        ((p.progressFile && io.due k) = false ∧ exit = none ∧ st' = st₂.count deh ∨
          (p.progressFile && io.due k) = true ∧
            (io.fsync k = false ∧ exit = some .fsync ∧ st' = st₂ ∨
              io.fsync k = true ∧
                (io.progress k = false ∧ exit = some .progress ∧ st' = { st₂ with synced := true } ∨
                  io.progress k = true ∧ exit = none ∧ st' = { st₂.count deh with synced := true }))) := by
  obtain ⟨r, hr, h⟩ := Option.bind_eq_some_iff.1 h
  cases r with
  | error x =>
    cases h
    rcases decodeExtent_cases hr with ⟨y, hy, hx⟩ | ⟨_, _, _, _, hy, _⟩
    · cases hy
      exact .inl ⟨x, rfl, hx.imp_right fun hx => ⟨hx.1, hr⟩⟩
    · cases hy
  | ok r =>
    obtain ⟨st₁, deh, size⟩ := r
    obtain ⟨⟨n, w⟩, hw, h⟩ := Option.map_eq_some_iff.1 h
    have hspec := fdio_spec hw
    dsimp only at h
    split at h
    · rename_i hneg
      cases h
      exact .inl ⟨_, rfl, .inl hneg⟩
    · obtain ⟨rfl, rfl⟩ : w = 0 ∧ n = size := by omega
      refine .inr ⟨st₁, deh, n, hr, hw, ?_⟩
      split at h
      · rename_i hdue
        cases h
        exact .inl ⟨by rwa [Bool.not_eq_true'] at hdue, rfl, rfl⟩
      · rename_i hdue
        refine .inr ⟨by simpa using hdue, ?_⟩
        split at h
        · rename_i hsync
          cases h
          exact .inl ⟨by simpa using hsync, rfl, rfl⟩
        · rename_i hsync
          refine .inr ⟨by simpa using hsync, ?_⟩
          split at h
          · rename_i hprog
            cases h
            exact .inl ⟨by simpa using hprog, rfl, rfl⟩
          · rename_i hprog
            cases h
            exact .inr ⟨by simpa using hprog, rfl, rfl⟩

/-- A round that does not end the loop. -/
theorem round_none (h : p.round io k st = some (st', none)) :
    ∃ st₁ deh size synced, p.decodeExtent io k st = some (.ok (st₁, deh, size)) ∧
      st' = { ({ st₁ with target := st₁.target.patch deh.extentAddr size st₁.updated }.wrote deh size).count deh with
        synced := synced } := by
  rcases round_cases h with ⟨x, hx, -⟩ | ⟨st₁, deh, size, hdec, -, hcase⟩
  · cases hx
  · rcases hcase with ⟨-, -, rfl⟩ | ⟨-, ⟨-, hx, -⟩ | ⟨-, ⟨-, hx, -⟩ | ⟨-, -, rfl⟩⟩⟩
    · exact ⟨st₁, deh, size, false, hdec, rfl⟩
    · cases hx
    · cases hx
    · exact ⟨st₁, deh, size, true, hdec, rfl⟩

/-- A decoded extent keeps what holds when it is written. -/
private theorem kept_wrote {st₁ : ApplyState} (h : st.Kept stream target)
    (hdec : p.decodeExtent io k st = some (.ok (st₁, deh, size))) :
    ({ st₁ with target := st₁.target.patch deh.extentAddr size st₁.updated }.wrote deh size).Kept stream target ∧
      st₁.chunkNum = st.chunkNum ∧ st₁.applied = st.applied := by
  rcases decodeExtent_cases hdec with ⟨x, hx, -⟩ | ⟨deh, extentData, deltaData, updated, hr, hheader, hlen, hsum⟩
  · cases hx
  · cases hr
    obtain ⟨hsize, rfl⟩ := readHeader_ok hheader
    refine ⟨⟨?_, ?_, ?_⟩, rfl, rfl⟩
    · have hread := h.read
      rw [← List.take_append_drop DeltaExtentHeader.size st.stream, ← List.take_append_drop (DeltaExtentHeader.decode
        (st.stream.take DeltaExtentHeader.size)).extentsDeltaLength (st.stream.drop DeltaExtentHeader.size),
        ← List.append_assoc] at hread
      exact .cons hread (List.length_take_of_le hsize) (List.length_take_of_le hlen)
    · intro x hx
      rcases List.mem_cons.1 hx with rfl | hx
      · exact hsum
      · exact h.checked x hx
    · simp only [ApplyState.wrote, Ddsnap.written, h.written, length_front]
      exact congrArg (fun f => { written target st.applied with byte := f })
        (patch_congr fun j hj => (getD_front hj).symm)

/-- A state at the start of a round. -/
inductive Reached (p : ApplyArgs) (io : ApplyIo) (stream : Bytes) (target : Volume UInt8) : Nat → ApplyState → Prop
  | start : Reached p io stream target 0
      ⟨stream, target, io.memory 0, io.memory 1, io.memory 2, 0, [], false⟩
  | next {k : Nat} {st st' : ApplyState} (h : Reached p io stream target k st) (hlt : st.chunkNum < p.chunkCount)
      (hr : p.round io k st = some (st', none)) : Reached p io stream target (k + 1) st'

private theorem chunksRead_cons (x : DeltaExtentHeader × Bytes) (applied : List (DeltaExtentHeader × Bytes)) :
    chunksRead (x :: applied) = (chunksRead applied + x.1.numOfChunks) % 2 ^ 64 := by
  simp only [chunksRead, List.map_cons, List.sum_cons]
  omega

private theorem Reached.kept (h : p.Reached io stream target k st) :
    st.Kept stream target ∧ st.chunkNum = chunksRead st.applied := by
  induction h with
  | start => exact ⟨⟨.nil, by simp, rfl⟩, rfl⟩
  | next _ _ hr ih =>
    obtain ⟨st₁, deh, size, synced, hdec, rfl⟩ := round_none hr
    obtain ⟨hkept, hnum, happ⟩ := kept_wrote ih.1 hdec
    refine ⟨⟨hkept.read, hkept.checked, hkept.written⟩, ?_⟩
    simp only [ApplyState.count, ApplyState.wrote, chunksRead_cons, hnum, ih.2, happ]

/-! ### The whole run -/

/-- No exit of the loop that leaves `err` at 0 is taken: the payloads can be uncompressed, `fsync` succeeds when a
report is due and after the loop, and a report succeeds unless its extent was the last one. -/
structure LoopReports (p : ApplyArgs) (io : ApplyIo) (stream : Bytes) (target : Volume UInt8) : Prop where
  inflated : ∀ k st x, p.Reached io stream target k st → st.chunkNum < p.chunkCount →
    p.decodeExtent io k st = some (.error x) → ¬Garbled x
  reported : ∀ k st st₁ deh size, p.Reached io stream target k st → st.chunkNum < p.chunkCount →
    p.decodeExtent io k st = some (.ok (st₁, deh, size)) →
    fdio st₁.target.size (io.write k) size deh.extentAddr = some (size, 0) → (p.progressFile && io.due k) = true →
    io.fsync k = true ∧ (io.progress k = true ∨ p.chunkCount ≤ (st.chunkNum + deh.numOfChunks) % 2 ^ 64)
  last : ∀ k st, p.Reached io stream target k st → p.chunkCount ≤ st.chunkNum → io.lastFsync = true

/-- Without these exits, success says that all was applied. -/
private theorem loop_applied (hr : p.LoopReports io stream target) (hst : p.Reached io stream target k st) {fuel : Nat}
    {out : ApplyOut} (h : p.loop io fuel k st = some out) (hok : 0 ≤ out.err) : out.Applied p stream target := by
  induction fuel generalizing k st with
  | zero => cases h
  | succ fuel ih =>
    obtain ⟨hkept, hnum⟩ := hst.kept
    rw [loop] at h
    split at h
    · rename_i hlt
      obtain ⟨⟨st', exit⟩, hround, h⟩ := Option.bind_eq_some_iff.1 h
      cases exit with
      | none => exact ih (hst.next hlt hround) h
      | some x =>
        cases h
        rcases round_cases hround with ⟨y, hy, hx⟩ | ⟨st₁, deh, size, hdec, hw, hcase⟩
        · cases hy
          rcases hx with hneg | ⟨hg, hdec⟩
          · exact absurd hok (Int.not_le.2 hneg)
          · exact absurd hg (hr.inflated k st x hst hlt hdec)
        · obtain ⟨hkept', hnum', happ'⟩ := kept_wrote hkept hdec
          rcases hcase with ⟨-, hx, -⟩ | ⟨hdue, ⟨hsync, -, -⟩ | ⟨-, ⟨hprog, -, rfl⟩ | ⟨-, hx, -⟩⟩⟩
          · cases hx
          · exact absurd (hr.reported k st st₁ deh size hst hlt hdec hw hdue).1 (by simp [hsync])
          · rcases (hr.reported k st st₁ deh size hst hlt hdec hw hdue).2 with hp | hle
            · exact absurd hp (by simp [hprog])
            · refine ⟨?_, ⟨_, hkept'.read⟩, hkept'.checked, hkept'.written, rfl⟩
              rw [ApplyState.wrote, chunksRead_cons, happ', ← hnum]
              exact hle
          · cases hx
    · rename_i hlt
      have hle : p.chunkCount ≤ st.chunkNum := Nat.not_lt.1 hlt
      obtain rfl := Option.some.inj h
      simp only [finish, hr.last k st hst hle, Bool.not_true, Bool.false_eq_true, if_false]
      exact ⟨hnum ▸ hle, ⟨_, hkept.read⟩, hkept.checked, hkept.written, rfl⟩

private theorem round_stream (h : p.round io k st = some (st', none)) : st'.stream.length < st.stream.length := by
  obtain ⟨st₁, deh, size, synced, hdec, rfl⟩ := round_none h
  rcases decodeExtent_cases hdec with ⟨x, hx, -⟩ | ⟨deh, extentData, deltaData, updated, hr, hheader, -⟩
  · cases hx
  · cases hr
    have hsize := (readHeader_ok hheader).1
    simp only [ApplyState.count, ApplyState.wrote, List.length_drop, DeltaExtentHeader.size] at hsize ⊢
    omega

/-- The length of the stream is fuel enough: more of it does not change the result. -/
theorem loop_fuel_enough {fuel : Nat} (h : st.stream.length < fuel) (more : Nat) :
    p.loop io (fuel + more) k st = p.loop io fuel k st := by
  induction fuel generalizing k st with
  | zero => omega
  | succ fuel ih =>
    rw [Nat.succ_add, loop, loop]
    split
    · cases hround : p.round io k st with
      | none => rfl
      | some r =>
        obtain ⟨st', exit⟩ := r
        cases exit with
        | none => exact ih (Nat.lt_of_lt_of_le (round_stream hround) (Nat.le_of_lt_succ h))
        | some x => rfl
    · rfl

private theorem Reached.loop (hst : p.Reached io stream target k st) {fuel : Nat} {out : ApplyOut}
    (h : p.loop io fuel 0 ⟨stream, target, io.memory 0, io.memory 1, io.memory 2, 0, [], false⟩ = some out) :
    ∃ fuel', p.loop io (fuel' + 1) k st = some out := by
  have hpos : ∀ {k st fuel}, p.loop io fuel k st = some out → ∃ fuel', p.loop io (fuel' + 1) k st = some out := by
    intro k st fuel h
    cases fuel with
    | zero => cases h
    | succ fuel => exact ⟨fuel, h⟩
  induction hst with
  | start => exact hpos h
  | next _ hlt hr ih =>
    obtain ⟨fuel', h'⟩ := ih
    rw [ApplyArgs.loop, if_pos hlt, hr] at h'
    exact hpos h'

private theorem round_wrote {st₁ : ApplyState} (hdec : p.decodeExtent io k st = some (.ok (st₁, deh, size)))
    (hw : fdio st₁.target.size (io.write k) size deh.extentAddr = some (size, 0))
    (hdue : (p.progressFile && io.due k) = true) :
    p.round io k st =
      let st₂ := { st₁ with target := st₁.target.patch deh.extentAddr size st₁.updated }.wrote deh size
      some (if !io.fsync k then (st₂, some .fsync)
        else if !io.progress k then ({ st₂ with synced := true }, some .progress)
        else ({ st₂.count deh with synced := true }, none)) := by
  rw [round, hdec]
  simp only [Option.bind_some, writeExtent, hw, Option.map_some, hdue, Int.lt_irrefl, Bool.not_true, Bool.false_eq_true,
    if_false]

/-- If success says that all was applied, then none of these exits is taken. -/
private theorem loopReports_of_applied {fuel : Nat} {out : ApplyOut}
    (h : p.loop io fuel 0 ⟨stream, target, io.memory 0, io.memory 1, io.memory 2, 0, [], false⟩ = some out)
    (happ : 0 ≤ out.err → out.Applied p stream target) : p.LoopReports io stream target := by
  refine ⟨fun k st x hst hlt hdec hg => ?_, fun k st st₁ deh size hst hlt hdec hw hdue => ?_, fun k st hst hle => ?_⟩
  · obtain ⟨fuel', h'⟩ := hst.loop h
    have hround : p.round io k st = some (st, some x) := by rw [round, hdec]; rfl
    rw [loop, if_pos hlt, hround] at h'
    cases h'
    have hzero : x.err = 0 := by rcases hg with rfl | rfl | rfl <;> rfl
    have hle := (happ hzero.ge).chunks
    rw [← hst.kept.2] at hle
    omega
  · obtain ⟨fuel', h'⟩ := hst.loop h
    obtain ⟨-, hnum, hprev⟩ := kept_wrote hst.kept.1 hdec
    rw [loop, if_pos hlt, round_wrote hdec hw hdue] at h'
    cases hsync : io.fsync k with
    | false =>
      rw [hsync] at h'
      cases h'
      exact absurd (happ (Int.le_refl 0)).synced Bool.false_ne_true
    | true =>
      refine ⟨rfl, ?_⟩
      cases hprog : io.progress k with
      | true => exact .inl rfl
      | false =>
        rw [hsync, hprog] at h'
        cases h'
        have hle := (happ (Int.le_refl 0)).chunks
        rw [ApplyState.wrote, chunksRead_cons, hprev, ← hst.kept.2] at hle
        exact .inr hle
  · obtain ⟨fuel', h'⟩ := hst.loop h
    rw [loop, if_neg (Nat.not_lt.2 hle)] at h'
    cases hlast : io.lastFsync with
    | true => rfl
    | false =>
      obtain rfl := Option.some.inj h'
      simp only [finish, hlast, Bool.not_false, if_true] at happ
      exact absurd (happ (Int.le_refl 0)).synced Bool.false_ne_true

private theorem apply_applied_iff {setup : ApplySetup} {out : ApplyOut}
    (h : p.apply setup io stream target = some out) : (0 ≤ out.err → out.Applied p stream target) ↔
      setup ≠ .noSize ∧ (setup = .ready → p.LoopReports io stream target) := by
  cases setup with
  | ready =>
    constructor
    · exact fun happ => ⟨by simp, fun _ => loopReports_of_applied h happ⟩
    · exact fun hr hok => loop_applied (hr.2 rfl) .start h hok
  | noSize =>
    cases h
    exact ⟨fun happ => absurd (happ (Int.le_refl 0)).synced Bool.false_ne_true, fun hr => absurd rfl hr.1⟩
  | noSource _ | noTarget _ | noTmpfile | noMemory =>
    cases h
    exact ⟨fun _ => ⟨by simp, by simp⟩, fun _ hok => absurd hok (Int.not_le.2 (Errno.ret_neg _))⟩

end ApplyArgs

/-! ### The sender -/

namespace GenerateArgs

variable {g : GenerateArgs} {io : GenerateIo} {i start : Nat} {src : SourceExtent}

/-- Every entry of the list, from `start` on, is in an extent that went out. -/
def AllSent (g : GenerateArgs) (start : Nat) (out : GenerateOut) : Prop :=
  ∀ i, start ≤ i → i < g.count → ∃ x ∈ out.sent, x.1 ≤ i ∧ i < x.1 + x.2.num

/-- These extents have the entries from `i` to `j` and no other one. -/
structure Covers (sent : List (Nat × Extent)) (i j : Nat) : Prop where
  covered : ∀ l, i ≤ l → l < j → ∃ x ∈ sent, x.1 ≤ l ∧ l < x.1 + x.2.num
  bounded : ∀ x ∈ sent, x.1 + x.2.num ≤ j
  le : i ≤ j

private theorem Covers.snoc {sent : List (Nat × Extent)} {j : Nat} (h : Covers sent start j) (e : Extent) :
    Covers (sent ++ [(j, e)]) start (j + e.num) := by
  have hle := h.le
  refine ⟨fun l h1 h2 => ?_, fun x hx => ?_, by omega⟩
  · by_cases hl : l < j
    · obtain ⟨x, hx, hin⟩ := h.covered l h1 hl
      exact ⟨x, List.mem_append_left _ hx, hin⟩
    · exact ⟨(j, e), by simp, Nat.not_lt.1 hl, h2⟩
  · rcases List.mem_append.1 hx with hx | hx
    · exact (h.bounded x hx).trans (Nat.le_add_right _ _)
    · obtain rfl := List.mem_singleton.1 hx
      exact Nat.le_refl _

private theorem Covers.allSent_iff {out : GenerateOut} {j : Nat} (h : Covers out.sent start j) :
    g.AllSent start out ↔ g.count ≤ j := by
  refine ⟨fun hall => Nat.not_lt.1 fun hlt => ?_, fun hle i h1 h2 => h.covered i h1 (h2.trans_le hle)⟩
  obtain ⟨x, hx, -, hx2⟩ := hall j h.le hlt
  exact absurd hx2 (Nat.not_lt.2 (h.bounded x hx))

/-- The variables of the loop at the start of a round. -/
inductive Gets (g : GenerateArgs) (io : GenerateIo) (start : Nat) :
    Nat → SourceExtent → Bytes → List (Nat × Extent) → Prop
  | start (hsetup : io.setup = true) (htmp : (g.progressFile && !io.tmpfile) = false) :
      Gets g io start start ⟨io.memory, 0⟩ [] []
  | next {i : Nat} {src src' : SourceExtent} {stream payload : Bytes} {sent : List (Nat × Extent)}
      {deh : DeltaExtentHeader} (h : Gets g io start i src stream sent) (hi : i < g.count)
      (hmake : g.makeRecord io i src = some (.ok (src', deh, payload)))
      (hheader : fdwrite deh.encode (io.header i) = none)
      (hdata : fdwrite payload (io.data i) = none) (hf : ¬g.ReportFails io i) :
      Gets g io start (i + (g.extent i).num) src' (stream ++ deh.encode ++ payload)
        (sent ++ [(i, g.extent i)])

/-- A report of the loop that fails comes after the extent that reaches the end of the list. -/
def ReportsReach (g : GenerateArgs) (io : GenerateIo) (start : Nat) : Prop :=
  ∀ i src stream sent src' deh payload, g.Gets io start i src stream sent → i < g.count →
    g.makeRecord io i src = some (.ok (src', deh, payload)) → fdwrite deh.encode (io.header i) = none →
    fdwrite payload (io.data i) = none → g.ReportFails io i → g.count ≤ i + (g.extent i).num

theorem makeRecord_num {src' : SourceExtent} {deh : DeltaExtentHeader} {payload : Bytes}
    (h : g.makeRecord io i src = some (.ok (src', deh, payload))) : deh.numOfChunks = (g.extent i).num := by
  obtain ⟨_, _, _, _, _, _, rfl⟩ := makeRecord_ok h
  rfl

private theorem Gets.covers {stream : Bytes} {sent : List (Nat × Extent)} (h : g.Gets io start i src stream sent) :
    Covers sent start i := by
  induction h with
  | start => exact ⟨fun l h1 h2 => absurd h1 (Nat.not_le.2 h2), by simp, Nat.le_refl _⟩
  | next _ _ _ _ _ _ ih => exact ih.snoc _

/-- If only reports behind the list fail, then success says that all was sent. -/
private theorem loop_allSent (hr : g.ReportsReach io start) {fuel : Nat} {stream : Bytes} {sent : List (Nat × Extent)}
    {out : GenerateOut} (hgets : g.Gets io start i src stream sent)
    (h : g.loop io fuel i src stream sent = some out) (hok : 0 ≤ out.err) : g.AllSent start out := by
  have hend : ∀ {i src stream sent}, g.Gets io start i src stream sent → some (g.finish io i stream sent) = some out →
      g.AllSent start out := by
    intro i src stream sent hgets h
    obtain rfl := Option.some.inj h
    obtain ⟨hi, -, hs⟩ := finish_ok hok
    have hcov := hgets.covers
    rw [← hs] at hcov
    exact hcov.allSent_iff.2 hi.ge
  induction fuel generalizing i src stream sent with
  | zero => exact hend hgets h
  | succ fuel ih =>
    by_cases hi : i < g.count
    · obtain ⟨src', deh, payload, hmake, hheader, hdata, ⟨hf, rfl⟩ | ⟨hf, h⟩⟩ := loop_succ h hok hi
      · exact Covers.allSent_iff (hgets.covers.snoc _) |>.2 (hr i src stream sent src' deh payload hgets hi hmake
          hheader hdata hf)
      · rw [makeRecord_num hmake] at h
        exact ih (hgets.next hi hmake hheader hdata hf) h
    · rw [loop, if_neg hi] at h
      exact hend hgets h

private theorem Gets.loop {stream : Bytes} {sent : List (Nat × Extent)} {out : GenerateOut}
    (hgets : g.Gets io start i src stream sent) (h : g.generate io start = some out) :
    ∃ fuel, g.count ≤ i + fuel ∧ g.loop io fuel i src stream sent = some out := by
  induction hgets with
  | start hsetup htmp =>
    rw [generate, hsetup, htmp] at h
    exact ⟨g.count - start, by omega, h⟩
  | @next i src src' stream payload sent deh _ hi hmake hheader hdata hf ih =>
    obtain ⟨fuel, hfuel, h⟩ := ih
    obtain ⟨fuel, rfl⟩ := Nat.exists_eq_succ_of_ne_zero (by omega : fuel ≠ 0)
    have hpos := g.extent_num_pos i
    rw [GenerateArgs.loop, if_pos hi, hmake] at h
    simp only [Option.bind_some, hheader, hdata] at h
    unfold ReportFails at hf
    rw [if_neg hf, makeRecord_num hmake] at h
    exact ⟨fuel, by omega, h⟩

/-- If `generate_delta_extents` has a result, then success says that all was sent just if only reports behind the list
fail. -/
theorem generate_allSent_iff {out : GenerateOut} (h : g.generate io start = some out) :
    (0 ≤ out.err → g.AllSent start out) ↔ g.ReportsReach io start := by
  constructor
  · intro hall i src stream sent src' deh payload hgets hi hmake hheader hdata hf
    obtain ⟨fuel, hfuel, h⟩ := hgets.loop h
    obtain ⟨fuel, rfl⟩ := Nat.exists_eq_succ_of_ne_zero (by omega : fuel ≠ 0)
    rw [loop, if_pos hi, hmake] at h
    simp only [Option.bind_some, hheader, hdata] at h
    unfold ReportFails at hf
    rw [if_pos hf] at h
    cases h
    exact Covers.allSent_iff (hgets.covers.snoc _) |>.1 (hall (Int.le_refl 0))
  · intro hr hok
    unfold generate at h
    split at h
    · cases h
      exact absurd hok (by decide)
    · rename_i hsetup
      split at h
      · cases h
        exact absurd hok (by decide)
      · rename_i htmp
        exact loop_allSent hr (.start (by simpa using hsetup) (by simpa using htmp)) h hok

end GenerateArgs

/-- A result that is not negative says that the whole delta was applied, or that the whole list was sent, just if none
of the exits that leave `err` at 0 is taken. -/
theorem success_iff (p : ApplyArgs) (setup : ApplySetup) (io : ApplyIo) (stream : Bytes) (target : Volume UInt8)
    (g : GenerateArgs) (sendIo : GenerateIo) (start : Nat) :
    (∀ out, p.apply setup io stream target = some out →
      ((0 ≤ out.err → out.Applied p stream target) ↔
        setup ≠ .noSize ∧ (setup = .ready → p.LoopReports io stream target))) ∧
    ∀ out, g.generate sendIo start = some out →
      ((0 ≤ out.err → g.AllSent start out) ↔ g.ReportsReach sendIo start) :=
  ⟨fun _ h => ApplyArgs.apply_applied_iff h, fun _ h => GenerateArgs.generate_allSent_iff h⟩

private theorem plainCodec_uncompresses : ¬ApplyArgs.Uncompressible plainCodec :=
  fun ⟨_, payload, h⟩ => h payload rfl

private theorem smallApply_reports : smallApply.LoopReports steadyIo smallOut.stream smallSend.source := by
  refine ⟨fun k st x _ _ hdec hg => ?_, fun _ _ _ _ _ _ _ _ _ _ => ⟨rfl, .inl rfl⟩, fun _ _ _ _ => rfl⟩
  rcases ApplyArgs.decodeExtent_cases hdec with ⟨y, hy, hneg | ⟨-, hun⟩⟩ | ⟨_, _, _, _, hy, _⟩
  · cases hy
    rcases hg with rfl | rfl | rfl <;> exact absurd hneg (by decide)
  · exact plainCodec_uncompresses hun
  · cases hy

private theorem smallApply_applies :
    (smallApply.apply .ready steadyIo smallOut.stream smallSend.source).map (·.err) = some 0 := by
  decide +kernel

theorem smallOut_applied : ∃ out, smallApply.apply .ready steadyIo smallOut.stream smallSend.source = some out ∧
    out.Applied smallApply smallOut.stream smallSend.source ∧ smallSend.AllSent 0 smallOut := by
  obtain ⟨out, h, herr⟩ := Option.map_eq_some_iff.1 smallApply_applies
  obtain ⟨happly, hsend⟩ := success_iff smallApply .ready steadyIo smallOut.stream smallSend.source smallSend
    (smallIo fun _ => true) 0
  refine ⟨out, h, ?_, ?_⟩
  · exact (happly out h).2 ⟨by simp, fun _ => smallApply_reports⟩ herr.ge
  · refine (hsend smallOut smallSend_generates.1).2 ?_ smallSend_generates.2.ge
    exact fun _ _ _ _ _ _ _ _ _ _ _ _ hf => absurd hf Bool.false_ne_true

/-- A codec that finds everything damaged. -/
def damagedCodec : Codec where
  compress2 _ _ := .streamError
  uncompress _ _ := .dataError
  createDeltaChunk _ _ := (bufferSizeError, [])
  applyDeltaChunk _ _ _ := (-1, [])
  uncompress_compress2 _ _ _ _ h _ := by cases h
  createDeltaChunk_length _ _ := Nat.zero_le _

/-- A stream of one extent with a payload that cannot be uncompressed: nothing is applied, and the result is 0. -/
theorem damaged_payload_unnoticed :
    (({ smallApply with codec := damagedCodec } : ApplyArgs).apply .ready steadyIo
      (DeltaExtentHeader.encode ⟨deltaMagic, RAW, 1, 0, 1, 1, 2, 2⟩ ++ [0]) smallSend.source).map
        (fun out => (out.err, out.applied, out.synced)) = some (0, [], false) := by
  decide +kernel

end Ddsnap
