import Ddsnap.DeltaErrors

/-!
# Resuming a transfer

A transfer that was interrupted is started again at the address that the progress file names, with the first chunk of
the list that is not below it.  The extents are then cut differently, and some chunks are written once more.  Every
write puts the content of the target snapshot in its place, and all chunks below the recorded address have been
written, so that at the end every listed chunk has its new content.  Outside the list a byte changes only if some
transfer had an extent that went on behind the end of the list, where `chunks_in_extent` reads memory that does not
belong to it.
-/

namespace Ddsnap

namespace GenerateArgs

variable {g : GenerateArgs} {io : GenerateIo} {i j : Nat} {src : SourceExtent} {S : Bytes}

/-! ### What a sender has sent, whatever its result -/

/-- The stream begins the records of the extents from entry `i` on: it may end in the middle of one. -/
inductive Begins (g : GenerateArgs) : Nat → Bytes → Prop
  | nil (i : Nat) : Begins g i []
  | cut {i : Nat} {deh : DeltaExtentHeader} {payload S : Bytes} (hi : i < g.count) (hrec : g.IsRecord i deh payload)
      (hpre : S <+: deh.encode ++ payload) (hlen : S.length < (deh.encode ++ payload).length) : Begins g i S
  | cons {i : Nat} {deh : DeltaExtentHeader} {payload S : Bytes} (hi : i < g.count) (hrec : g.IsRecord i deh payload)
      (hrest : Begins g (i + (g.extent i).num) S) : Begins g i (deh.encode ++ payload ++ S)

theorem Begins.take (h : g.Begins i S) (n : Nat) : g.Begins i (S.take n) := by
  induction h generalizing n with
  | nil i => simpa using Begins.nil i
  | cut hi hrec hpre hlen =>
    refine .cut hi hrec ((List.take_prefix n _).trans hpre) ?_
    exact Nat.lt_of_le_of_lt (by simp) hlen
  | @cons i deh payload S hi hrec _ ih =>
    by_cases hn : n < (deh.encode ++ payload).length
    · rw [List.take_append_of_le_length hn.le]
      exact .cut hi hrec (List.take_prefix _ _) (by rw [List.length_take]; omega)
    · rw [List.take_append, List.take_of_length_le (Nat.not_lt.1 hn)]
      exact .cons hi hrec (ih _)

private theorem begins_take {deh : DeltaExtentHeader} {payload : Bytes} (hi : i < g.count)
    (hrec : g.IsRecord i deh payload) (n : Nat) : g.Begins i ((deh.encode ++ payload).take n) := by
  simpa using (Begins.cons hi hrec (.nil _)).take n

private theorem fdwrite_take {out out' : Bytes} {failure : Option (Nat × Errno)} {err : Int}
    (h : fdwrite out failure = some (out', err)) : ∃ n, out' = out.take n := by
  unfold fdwrite at h
  split at h
  · cases h
  · obtain ⟨f, _, he⟩ := Option.map_eq_some_iff.1 h
    cases he
    exact ⟨f.1, rfl⟩

private theorem loop_begins (hg : g.Sized) {fuel : Nat} {stream : Bytes} {sent : List (Nat × Extent)}
    {out : GenerateOut} (hsrc : src.chksum < 2 ^ 64) (h : g.loop io fuel i src stream sent = some out) :
    ∃ S, out.stream = stream ++ S ∧ g.Begins i S := by
  have hend : ∀ {i stream sent}, some (g.finish io i stream sent) = some out →
      ∃ S, out.stream = stream ++ S ∧ g.Begins i S := by
    intro i stream sent h
    obtain rfl := Option.some.inj h
    refine ⟨[], ?_, .nil _⟩
    unfold finish
    split <;> simp
  induction fuel generalizing i src stream sent with
  | zero => exact hend h
  | succ fuel ih =>
    rw [loop] at h
    split at h
    · rename_i hi
      obtain ⟨r, hr, h⟩ := Option.bind_eq_some_iff.1 h
      cases r with
      | error err =>
        cases h
        exact ⟨[], by simp, .nil _⟩
      | ok r =>
        obtain ⟨src', deh, payload⟩ := r
        obtain ⟨hrec, hsrc'⟩ := isRecord_of_makeRecord hg hsrc hr
        dsimp only at h
        split at h
        · rename_i hw
          cases h
          obtain ⟨n, rfl⟩ := fdwrite_take hw
          refine ⟨_, rfl, ?_⟩
          have hpart := begins_take hi hrec (min n deh.encode.length)
          rwa [List.take_append_of_le_length (Nat.min_le_right _ _), ← List.take_take, List.take_length] at hpart
        · split at h
          · rename_i hw
            cases h
            obtain ⟨n, rfl⟩ := fdwrite_take hw
            refine ⟨deh.encode ++ payload.take n, by simp, ?_⟩
            have hpart := begins_take hi hrec (deh.encode.length + n)
            rwa [List.take_append, List.take_of_length_le (Nat.le_add_right _ _), Nat.add_sub_cancel_left] at hpart
          · split at h
            · cases h
              exact ⟨deh.encode ++ payload ++ [], by simp, .cons hi hrec (.nil _)⟩
            · rw [hrec.num] at h
              obtain ⟨S, hS, hbegins⟩ := ih hsrc' h
              exact ⟨_, by simp [hS], .cons hi hrec hbegins⟩
    · exact hend h

/-- Whatever `generate_delta_extents` returns, it has written the beginning of the records. -/
theorem generate_begins (hg : g.Sized) {start : Nat} {out : GenerateOut} (h : g.generate io start = some out) :
    g.Begins start out.stream := by
  unfold generate at h
  split at h
  · cases h
    exact .nil _
  · split at h
    · cases h
      exact .nil _
    · obtain ⟨S, hS, hbegins⟩ := loop_begins hg (Nat.two_pow_pos 64) h
      rw [hS]
      simpa using hbegins

end GenerateArgs

namespace ApplyArgs

variable {p : ApplyArgs} {g : GenerateArgs} {io : ApplyIo} {i k s : Nat} {st st₁ : ApplyState} {deh : DeltaExtentHeader}
variable {payload : Bytes} {size : Nat}

/-! ### What a receiver has written, whatever its result -/

private theorem decodeExtent_cut (hrec : g.IsRecord i deh payload) (hpre : st.stream <+: deh.encode ++ payload)
    (hlen : st.stream.length < (deh.encode ++ payload).length) {deh' : DeltaExtentHeader} :
    p.decodeExtent io k st ≠ some (.ok (st₁, deh', size)) := by
  intro hdec
  rcases decodeExtent_cases hdec with ⟨x, hx, -⟩ | ⟨deh₁, _, _, _, hr, hheader, hle, -⟩
  · cases hx
  · obtain ⟨hsize, rfl⟩ := readHeader_ok hheader
    have htake : st.stream.take DeltaExtentHeader.size = deh.encode := by
      rw [List.prefix_iff_eq_take.1 hpre, List.take_take, Nat.min_eq_left hsize]
      exact List.take_left' deh.length_encode
    rw [htake, DeltaExtentHeader.decode_encode hrec.fits, hrec.length, List.length_drop] at hle
    rw [List.length_append, deh.length_encode] at hlen
    omega

/-- If a record is decoded, then the new content is in `updated`. -/
private theorem decodeExtent_whole (hp : p.Matches g) (hg : g.Sized) (hrec : g.IsRecord i deh payload) {rest : Bytes}
    (hstream : st.stream = deh.encode ++ payload ++ rest) (hsize : st.target.size = g.target.size)
    {deh' : DeltaExtentHeader} (h : p.decodeExtent io k st = some (.ok (st₁, deh', size))) :
    deh' = deh ∧ size = (g.extent i).size ∧ st₁.stream = rest ∧ st₁.target = st.target ∧ st₁.chunkNum = st.chunkNum ∧
      front st₁.updated (g.extent i).size = g.target.slice (g.extent i).addr (g.extent i).size := by
  have hsrc : ∃ extentData, p.readSource (io.read k) deh (g.extent i).size st.extentData = some (.ok extentData) := by
    have hheader : readHeader io st.stream = .ok deh := by
      rw [hstream, List.append_assoc]
      exact readHeader_isRecord hrec _
    simp only [decodeExtent, hheader, extentSize_isRecord hp hg hrec hsize] at h
    obtain ⟨r, hr, h⟩ := Option.bind_eq_some_iff.1 h
    cases r with
    | error x => cases h
    | ok extentData => exact ⟨extentData, hr⟩
  obtain ⟨extentData, hsrc⟩ := hsrc
  obtain ⟨deltaData, updated, hdec, hfront⟩ := decodeExtent_isRecord hp hg hrec hstream hsize hsrc
  cases hdec.symm.trans h
  exact ⟨rfl, rfl, rfl, rfl, rfl, hfront⟩

/-- Where a receiver has come to: so many chunks of the list have their new content, and nothing else has changed. -/
theorem Reached.updates (hp : p.Matches g) (hg : g.Sized) {S : Bytes} (hS : g.Begins s S) {V : Volume UInt8}
    (hsize : V.size = g.target.size) (h : p.Reached io S V k st) :
    g.Begins (s + st.chunkNum) st.stream ∧ st.target.size = g.target.size ∧
      g.Updates s (s + st.chunkNum) V.byte st.target.byte := by
  induction h with
  | start => exact ⟨hS, hsize, GenerateArgs.Updates.refl g s _⟩
  | @next k st st' _ _ hr ih =>
    obtain ⟨hbegins, hsize, hup⟩ := ih
    obtain ⟨st₁, deh', size, synced, hdec, rfl⟩ := round_none hr
    generalize hstream : st.stream = stream at hbegins
    cases hbegins with
    | nil =>
      rcases decodeExtent_cases hdec with ⟨x, hx, -⟩ | ⟨_, _, _, _, _, hheader, -, -⟩
      · cases hx
      · rw [hstream] at hheader
        exact absurd (readHeader_ok hheader).1 (by decide)
    | cut hi hrec hpre hlen => exact absurd hdec (decodeExtent_cut hrec (hstream ▸ hpre) (hstream ▸ hlen))
    | @cons _ deh payload rest hi hrec hrest =>
      obtain ⟨rfl, rfl, hrest', htarget, hnum, hfront⟩ := decodeExtent_whole hp hg hrec hstream hsize hdec
      have he := GenerateArgs.isExtent_extent hg (s + st.chunkNum)
      have hnumle : (g.extent (s + st.chunkNum)).num ≤ 2 ^ 20 :=
        (Nat.le_mul_of_pos_right _ g.chunkSize_pos).trans he.num_le
      have hlt := g.count_lt
      have hcount : (st₁.chunkNum + deh'.numOfChunks) % 2 ^ 64 = st.chunkNum + (g.extent (s + st.chunkNum)).num := by
        rw [hnum, hrec.num]
        omega
      simp only [ApplyState.count, ApplyState.wrote, hcount, hrest', htarget, ← Nat.add_assoc]
      refine ⟨hrest, hsize, hup.trans ?_ (Nat.le_add_right _ _) (Nat.le_add_right _ _)⟩
      simp only [Volume.patch, hrec.addr, patch_front hfront]
      exact hrec.updates hg st.target.byte

end ApplyArgs

/-! ### Interrupted transfers -/

namespace GenerateArgs

variable {g g' : GenerateArgs} {i j r a : Nat}

/-- `while (skip_chunks < cl->count && cl->chunks[skip_chunks] << cl->chunksize_bits < start_addr)`. -/
def skipFrom (g : GenerateArgs) (startAddr : Nat) : Nat → Nat → Nat
  | 0, skip => skip
  | fuel + 1, skip =>
    if skip < g.count ∧ g.chunkAddr skip < startAddr then skipFrom g startAddr fuel (skip + 1) else skip

/-- The first chunk of the list that is sent, in `ddsnap_replication_send`. -/
def skipChunks (g : GenerateArgs) (startAddr : Nat) : Nat := g.skipFrom startAddr g.count 0

theorem skipFrom_le {fuel skip : Nat} (hskip : skip ≤ i) (hi : r ≤ g.chunkAddr i) : g.skipFrom r fuel skip ≤ i := by
  induction fuel generalizing skip with
  | zero => exact hskip
  | succ fuel ih =>
    rw [skipFrom]
    split
    · rename_i hc
      have hne : skip ≠ i := fun h => absurd hi (Nat.not_le.2 (h ▸ hc.2))
      exact ih (by omega)
    · exact hskip

private theorem skipFrom_le_count {fuel skip : Nat} (hskip : skip ≤ g.count) : g.skipFrom r fuel skip ≤ g.count := by
  induction fuel generalizing skip with
  | zero => exact hskip
  | succ fuel ih =>
    rw [skipFrom]
    split
    · rename_i hc
      exact ih hc.1
    · exact hskip

private theorem skipChunks_zero : g.skipChunks 0 = 0 := by
  unfold skipChunks
  cases g.count with
  | zero => rfl
  | succ n => exact if_neg (by omega)

/-- Another transfer with the same list, devices and chunk size.  What lies behind the list in memory may differ. -/
structure SameList (g g' : GenerateArgs) : Prop where
  count : g'.count = g.count
  chunks : ∀ i < g.count, g'.chunks i = g.chunks i
  chunksizeBits : g'.chunksizeBits = g.chunksizeBits
  full : g'.full = g.full
  source : g'.source = g.source
  target : g'.target = g.target

namespace SameList

private theorem chunkSize (h : g.SameList g') : g'.chunkSize = g.chunkSize := by
  rw [GenerateArgs.chunkSize, GenerateArgs.chunkSize, h.chunksizeBits]

theorem sized (h : g.SameList g') (hg : g.Sized) : g'.Sized :=
  ⟨h.full.trans hg.incremental, h.chunkSize ▸ hg.chunk, h.source ▸ hg.source, h.target ▸ hg.target⟩

private theorem chunkAddr (h : g.SameList g') (hi : i < g.count) : g'.chunkAddr i = g.chunkAddr i := by
  rw [GenerateArgs.chunkAddr, GenerateArgs.chunkAddr, h.chunks i hi, h.chunksizeBits]

theorem onChunk (h : g.SameList g') (hi : i < g.count) : g'.OnChunk i a ↔ g.OnChunk i a := by
  rw [OnChunk, OnChunk, h.chunkAddr hi, h.chunkSize]

private theorem skipFrom (h : g.SameList g') (fuel skip : Nat) : g'.skipFrom r fuel skip = g.skipFrom r fuel skip := by
  induction fuel generalizing skip with
  | zero => rfl
  | succ fuel ih =>
    rw [GenerateArgs.skipFrom, GenerateArgs.skipFrom, h.count, ih]
    by_cases hs : skip < g.count
    · rw [h.chunkAddr hs]
    · simp [hs]

theorem skipChunks (h : g.SameList g') : g'.skipChunks r = g.skipChunks r := by
  rw [GenerateArgs.skipChunks, GenerateArgs.skipChunks, h.count, h.skipFrom]

end SameList

/-- A transfer that starts at the recorded address `r` on the device `V`: the sender has written something, the receiver
got a part of it, and it has come to the state `st`. -/
structure Attempt (g g' : GenerateArgs) (r : Nat) (V : Volume UInt8) (p : ApplyArgs) (st : ApplyState) : Prop where
  list : g.SameList g'
  receiver : p.Matches g'
  progress : ∃ gio out n io k, g'.generate gio (g'.skipChunks r) = some out ∧ p.Reached io (out.stream.take n) V k st

/-- Any number of interrupted transfers, from the device `d` on: the address in the progress file, the device, and the
bytes that were written to it.  The progress file is as it was, or it names an extent before which all have been
written. -/
inductive Resumes (g : GenerateArgs) (d : Volume UInt8) : Nat → Volume UInt8 → (Nat → Prop) → Prop
  | start : Resumes g d 0 d fun _ => False
  | interrupted {r r' : Nat} {V : Volume UInt8} {W : Nat → Prop} {g' : GenerateArgs} {p : ApplyArgs} {st : ApplyState}
      (h : Resumes g d r V W) (ha : Attempt g g' r V p st)
      (hr : r' = r ∨ ∃ i, g'.Starts (g'.skipChunks r) i ∧ i ≤ g'.skipChunks r + st.chunkNum ∧ r' = g'.chunkAddr i) :
      Resumes g d r' st.target fun a => W a ∨ g'.Sent (g'.skipChunks r) (g'.skipChunks r + st.chunkNum) a

/-- A transfer from the recorded address that is not interrupted: everything is sent, and the receiver has a result. -/
structure Whole (g g' : GenerateArgs) (r : Nat) (V : Volume UInt8) (p : ApplyArgs) (res : ApplyOut) : Prop where
  list : g.SameList g'
  receiver : p.Matches g'
  count : p.chunkCount = g'.count - g'.skipChunks r
  result : ∃ gio out io, g'.generate gio (g'.skipChunks r) = some out ∧ 0 ≤ out.err ∧
    ¬g'.StopsEarly gio (g'.skipChunks r) ∧ io.Healthy ∧ p.apply .ready io out.stream V = some res

/-- The byte is in an extent of the transfer from entry `i` on. -/
def Reaches (g : GenerateArgs) (i a : Nat) : Prop :=
  ∃ s, g.Starts i s ∧ (g.extent s).addr ≤ a ∧ a < (g.extent s).addr + (g.extent s).size

/-- The device after any number of interrupted transfers: what was written has its new content, the rest is as it was,
and all entries below the recorded address have been written. -/
structure Partly (g : GenerateArgs) (d : Volume UInt8) (skip : Nat) (V : Volume UInt8) (W : Nat → Prop) : Prop where
  size : V.size = g.target.size
  inside : ∀ a, W a → V.byte a = g.target.byte a
  outside : ∀ a, ¬W a → V.byte a = d.byte a
  below : ∀ i < skip, ∀ a < g.target.size, g.OnChunk i a → W a
  bounded : ∀ a, W a → a < g.target.size

private theorem Partly.updates {d V V' : Volume UInt8} {W : Nat → Prop} (h : g.Partly d (g'.skipChunks r) V W)
    (hl : g.SameList g') (hsize : V'.size = g.target.size) {j : Nat}
    (hup : g'.Updates (g'.skipChunks r) j V.byte V'.byte) {skip : Nat} (hskip : skip ≤ j) (hcount : skip ≤ g.count) :
    g.Partly d skip V' fun a => W a ∨ g'.Sent (g'.skipChunks r) j a := by
  refine ⟨hsize, ?_, ?_, ?_, ?_⟩
  · intro a ha
    by_cases hs : g'.Sent (g'.skipChunks r) j a
    · rw [hup.inside a hs, hl.target]
    · rw [hup.outside a hs]
      exact h.inside a (ha.resolve_right hs)
  · intro a ha
    rw [hup.outside a fun hs => ha (.inr hs)]
    exact h.outside a fun hw => ha (.inl hw)
  · intro i hi a hsz hon
    by_cases hlt : i < g'.skipChunks r
    · exact .inl (h.below i hlt a hsz hon)
    · exact .inr ⟨hl.target ▸ hsz, i, Nat.not_lt.1 hlt, by omega, (hl.onChunk (by omega)).2 hon⟩
  · rintro a (hw | ⟨hsz, -⟩)
    · exact h.bounded a hw
    · exact hl.target ▸ hsz

private theorem Resumes.partly (hg : g.Sized) {d V : Volume UInt8} {W : Nat → Prop} (hd : d.size = g.target.size)
    (h : g.Resumes d r V W) : g.Partly d (g.skipChunks r) V W := by
  induction h with
  | start =>
    exact ⟨hd, fun _ h => h.elim, fun _ _ => rfl, fun i hi => by simp [skipChunks_zero] at hi, fun _ h => h.elim⟩
  | @interrupted r r' V W g' p st _ ha hr ih =>
    obtain ⟨gio, out, n, io, k, hgen, hreach⟩ := ha.progress
    have hg' := ha.list.sized hg
    have hbegins := (generate_begins hg' hgen).take n
    obtain ⟨-, hsize, hup⟩ := hreach.updates ha.receiver hg' hbegins (ih.size.trans (by rw [ha.list.target]))
    rw [← ha.list.skipChunks] at ih
    refine ih.updates ha.list (hsize.trans (by rw [ha.list.target])) hup ?_ (skipFrom_le_count (Nat.zero_le _))
    rcases hr with rfl | ⟨i, hs, hi, rfl⟩
    · rw [ha.list.skipChunks]
      exact Nat.le_add_right _ _
    · refine le_trans ?_ hi
      rw [← ha.list.skipChunks]
      exact skipFrom_le (Nat.zero_le _) le_rfl

/-- A whole transfer after any number of interrupted ones: it succeeds, and then all listed chunks have been written. -/
private theorem Whole.partly (hg : g.Sized) {d V : Volume UInt8} {W : Nat → Prop} {p : ApplyArgs} {res : ApplyOut}
    (h : g.Partly d (g.skipChunks r) V W) (hw : Whole g g' r V p res) :
    0 ≤ res.err ∧ g.Partly d g.count res.target fun a => W a ∨ g'.Reaches (g'.skipChunks r) a := by
  obtain ⟨gio, out, io, hgen, hok, hearly, hio, happly⟩ := hw.result
  have hg' := hw.list.sized hg
  obtain ⟨j, hS, hiff⟩ := generate_records hg' (skipFrom_le_count (Nat.zero_le _)) hgen hok
  have hj : g'.count ≤ j := Nat.not_lt.1 fun hlt => hearly (hiff.1 hlt)
  obtain ⟨res', hres', hdone, -⟩ := ApplyArgs.apply_records hw.receiver hg' hio hw.count hS
    (h.size.trans (by rw [hw.list.target]))
  obtain rfl : res' = res := Option.some.inj (hres'.symm.trans happly)
  obtain ⟨hzero, hsize, hup⟩ := hdone hj
  refine ⟨hzero.ge, ?_⟩
  rw [← hw.list.skipChunks] at h
  have hpartly := h.updates hw.list (hsize.trans (by rw [hw.list.target])) hup (hw.list.count ▸ hj) le_rfl
  have hreach : g'.Sent (g'.skipChunks r) j = g'.Reaches (g'.skipChunks r) :=
    funext fun a => propext (hS.sent_iff hg' hj a)
  rwa [hreach] at hpartly

private theorem Partly.listed {d V : Volume UInt8} {W : Nat → Prop} (h : g.Partly d g.count V W) (hl : g.Listed 0 a) :
    W a ↔ a < g.target.size := by
  obtain ⟨i, -, hi, hin⟩ := listed_iff.1 hl
  exact ⟨h.bounded a, fun hsz => h.below i hi a hsz (onChunk_of_inChunk (hsz.trans g.target.size_lt) hin)⟩

/-- Two devices on which all listed chunks have been written are the same just if the same bytes outside the list were
written, as far as the content differs there. -/
private theorem Partly.byte_eq_iff {d V U : Volume UInt8} {W W' : Nat → Prop} (hV : g.Partly d g.count V W)
    (hU : g.Partly d g.count U W') :
    V.byte = U.byte ↔ ∀ a, ¬g.Listed 0 a → d.byte a ≠ g.target.byte a → (W a ↔ W' a) := by
  constructor
  · intro heq a _ hne
    have hbyte := congrFun heq a
    constructor
    · intro hW
      by_contra hW'
      rw [hV.inside a hW, hU.outside a hW'] at hbyte
      exact hne hbyte.symm
    · intro hW'
      by_contra hW
      rw [hV.outside a hW, hU.inside a hW'] at hbyte
      exact hne hbyte
  · intro hiff
    funext a
    have hboth : (W a ↔ W' a) → V.byte a = U.byte a := fun hw => by
      by_cases hW : W a
      · rw [hV.inside a hW, hU.inside a (hw.1 hW)]
      · rw [hV.outside a hW, hU.outside a fun h => hW (hw.2 h)]
    by_cases hl : g.Listed 0 a
    · exact hboth ((hV.listed hl).trans (hU.listed hl).symm)
    · by_cases hne : d.byte a = g.target.byte a
      · -- either way the byte is that of both
        have hV' : V.byte a = d.byte a := by
          by_cases hW : W a
          · rw [hV.inside a hW, hne]
          · exact hV.outside a hW
        have hU' : U.byte a = d.byte a := by
          by_cases hW : W' a
          · rw [hU.inside a hW, hne]
          · exact hU.outside a hW
        rw [hV', hU']
      · exact hboth (hiff a hl hne)

/-- After any number of interruptions a whole transfer succeeds, and it leaves the device as a transfer without
interruptions does, unless one of the transfers had an extent outside the list where the content differs. -/
theorem resumed_same_iff (hg : g.Sized) {d V : Volume UInt8} {W : Nat → Prop} {g₀ : GenerateArgs} {p p₀ : ApplyArgs}
    {res res₀ : ApplyOut} (hd : d.size = g.target.size) (h : g.Resumes d r V W) (hw : Whole g g' r V p res)
    (hu : Whole g g₀ 0 d p₀ res₀) :
    0 ≤ res.err ∧ (res.target.byte = res₀.target.byte ↔ ∀ a, ¬g.Listed 0 a → d.byte a ≠ g.target.byte a →
      (W a ∨ g'.Reaches (g'.skipChunks r) a ↔ g₀.Reaches 0 a)) := by
  obtain ⟨hok, hpartly⟩ := hw.partly hg (h.partly hg hd)
  obtain ⟨-, hpartly₀⟩ := hu.partly hg (Resumes.start.partly hg hd)
  refine ⟨hok, (hpartly.byte_eq_iff hpartly₀).trans ?_⟩
  simp only [skipChunks_zero, false_or]

/-- As long as no extent goes on behind the end of the list and all addresses fit their 64 bits, only listed chunks are
written. -/
private theorem Sent.listed (hfit : ∀ i < g.count, g.chunks i * g.chunkSize < 2 ^ 64) (hj : j ≤ g.count)
    (h : g.Sent i j a) : g.Listed 0 a := by
  obtain ⟨-, l, -, hl, hon⟩ := h
  refine listed_iff.2 ⟨l, Nat.zero_le _, by omega, ?_⟩
  rwa [OnChunk, chunkAddr, chunkpos_eq (hfit l (by omega)), ← chunkSize] at hon

end GenerateArgs

/-! ### Two transfers -/

/-- The small transfer is interrupted after its first extent; the progress file names the second one. -/
theorem smallSend_interrupted : ∃ st, GenerateArgs.Attempt smallSend smallSend 0 smallSend.source smallApply st ∧
    st.chunkNum = 2 := by
  have hround : (smallApply.round steadyIo 0 ⟨smallOut.stream.take 1000, smallSend.source, steadyIo.memory 0,
      steadyIo.memory 1, steadyIo.memory 2, 0, [], false⟩).map (fun r => (r.1.chunkNum, r.2)) = some (2, none) := by
    decide +kernel
  obtain ⟨⟨st, exit⟩, hr, he⟩ := Option.map_eq_some_iff.1 hround
  obtain ⟨hnum, rfl⟩ := Prod.mk.inj he
  refine ⟨st, ⟨⟨rfl, fun _ _ => rfl, rfl, rfl, rfl, rfl⟩, ⟨rfl, rfl, rfl, rfl⟩, smallIo fun _ => true, smallOut, 1000,
    steadyIo, 1, smallSend_generates.1, .next .start ?_ hr⟩, hnum⟩
  decide

private theorem smallSend_whole {r : Nat} {V : Volume UInt8} {out : GenerateOut} (p : ApplyArgs)
    (hV : V.size = smallSend.target.size)
    (hgen : smallSend.generate (smallIo fun _ => true) (smallSend.skipChunks r) = some out) (hok : 0 ≤ out.err)
    (hp : p.Matches smallSend) (hcount : p.chunkCount = smallSend.count - smallSend.skipChunks r) :
    ∃ res, GenerateArgs.Whole smallSend smallSend r V p res := by
  have hearly : ¬smallSend.StopsEarly (smallIo fun _ => true) (smallSend.skipChunks r) := by
    rintro ⟨s, -, -, hf⟩
    exact absurd hf Bool.false_ne_true
  obtain ⟨j, hS, -⟩ := GenerateArgs.generate_records smallSend_sized
    (GenerateArgs.skipFrom_le_count (Nat.zero_le _)) hgen hok
  obtain ⟨res, hres, -⟩ := ApplyArgs.apply_records hp smallSend_sized steadyIo_healthy hcount hS hV
  exact ⟨res, ⟨rfl, fun _ _ => rfl, rfl, rfl, rfl, rfl⟩, hp, hcount, _, out, steadyIo, hgen, hok, hearly,
    steadyIo_healthy, hres⟩

private theorem smallSend_reaches {a : Nat} (h : smallSend.Reaches 0 a) : smallSend.Listed 0 a := by
  obtain ⟨s, hs, h1, h2⟩ := h
  exact smallSend_complete.contained s hs a h1 h2

private theorem smallSend_reaches_second {a : Nat} (h : smallSend.Reaches 2 a) : smallSend.Reaches 0 a := by
  obtain ⟨s, hs, hin⟩ := h
  refine ⟨s, .next (by decide) ?_, hin⟩
  rw [smallSend_extents.1]
  exact hs

def smallOutSecond : GenerateOut := (smallSend.generate (smallIo fun _ => true) 2).getD ⟨[], -1, []⟩

private theorem smallSend_generates_second :
    smallSend.generate (smallIo fun _ => true) (smallSend.skipChunks 18) = some smallOutSecond ∧
      smallOutSecond.err = 0 ∧ smallSend.skipChunks 18 = 2 ∧ smallSend.skipChunks 0 = 0 := by
  decide +kernel

theorem smallSend_resumed : ∃ V W res res₀, smallSend.Resumes smallSend.source 18 V W ∧
    GenerateArgs.Whole smallSend smallSend 18 V { smallApply with chunkCount := 1 } res ∧
    GenerateArgs.Whole smallSend smallSend 0 smallSend.source smallApply res₀ ∧
    res.target.byte = res₀.target.byte := by
  obtain ⟨st, ha, hnum⟩ := smallSend_interrupted
  obtain ⟨hgen, hok, hskip, hskip0⟩ := smallSend_generates_second
  have hstarts : smallSend.Starts (smallSend.skipChunks 0) 2 := by
    rw [hskip0]
    exact .next (by decide) (by rw [smallSend_extents.1]; exact .here (by decide))
  have hle : 2 ≤ smallSend.skipChunks 0 + st.chunkNum := by omega
  have haddr : 18 = smallSend.chunkAddr 2 := by decide
  have hres : smallSend.Resumes smallSend.source 18 st.target _ :=
    .interrupted .start ha (.inr ⟨2, hstarts, hle, haddr⟩)
  have hsize : smallSend.source.size = smallSend.target.size := rfl
  have hV := (hres.partly smallSend_sized hsize).size
  have hfit : ∀ i < smallSend.count, smallSend.chunks i * smallSend.chunkSize < 2 ^ 64 := by decide
  obtain ⟨res, hwhole⟩ := smallSend_whole { smallApply with chunkCount := 1 } hV hgen hok.ge ⟨rfl, rfl, rfl, rfl⟩
    (by rw [hskip]; rfl)
  obtain ⟨res₀, hwhole₀⟩ := smallSend_whole smallApply hsize (by rw [hskip0]; exact smallSend_generates.1)
    smallSend_generates.2.ge ⟨rfl, rfl, rfl, rfl⟩ (by rw [hskip0]; rfl)
  refine ⟨_, _, res, res₀, hres, hwhole, hwhole₀, ?_⟩
  refine (GenerateArgs.resumed_same_iff smallSend_sized hsize hres hwhole hwhole₀).2.2 fun a hl _ => ?_
  refine ⟨fun h => absurd ?_ hl, fun h => absurd (smallSend_reaches h) hl⟩
  rcases h with (h | h) | h
  · exact h.elim
  · exact h.listed hfit (by rw [hskip0, hnum]; decide)
  · rw [hskip] at h
    exact smallSend_reaches (smallSend_reaches_second h)

/-- Two adjacent chunks at the end of the source, of which the target has one chunk more; `behind` is what the memory
holds behind the list. -/
def overrunSend (behind : Nat) : GenerateArgs where
  codec := plainCodec
  mode := .raw
  level := 0
  chunksizeBits := 1
  count := 2
  chunks i := [2 ^ 19 - 2, 2 ^ 19 - 1, behind].getD i 0
  full := false
  source := ⟨2 ^ 20, fun _ => 1, by decide⟩
  target := ⟨2 ^ 20 + 2, fun a => if a < 2 ^ 20 - 4 then 1 else 2, by decide⟩
  progressFile := false
  count_lt := two_lt_count

def overrunApply : ApplyArgs := ⟨plainCodec, false, (overrunSend 0).source, 2, 2, false⟩

/-- The device downstream: as the source, with a chunk behind it. -/
def overrunDevice : Volume UInt8 := ⟨2 ^ 20 + 2, fun a => if a < 2 ^ 20 then 1 else 3, by decide⟩

/-- The memory behind the list goes on with the next chunk number, so the first transfer sends that chunk too and fails.
The transfer that is started again at the recorded extent succeeds, but that chunk stays changed. -/
theorem chunk_behind_list_written :
    (do
      let out ← (overrunSend (2 ^ 19)).generate (smallIo fun _ => true) 0
      let mid ← overrunApply.apply .ready steadyIo out.stream overrunDevice
      let again ← (overrunSend 0).generate (smallIo fun _ => true) ((overrunSend 0).skipChunks (2 ^ 20 - 4))
      let res ← overrunApply.apply .ready steadyIo again.stream mid.target
      return (out.err, again.err, res.err, res.target.byte (2 ^ 20))) = some (Errno.erange.ret, 0, 0, 2) ∧
    (do
      let out ← (overrunSend 0).generate (smallIo fun _ => true) 0
      let res ← overrunApply.apply .ready steadyIo out.stream overrunDevice
      return (out.err, res.err, res.target.byte (2 ^ 20))) = some (0, 0, 3) := by
  decide +kernel

end Ddsnap
