import Ddsnap.DiskIo
import Ddsnap.Lib.WordFormat

/-!
# Delta extents

A delta stream is a sequence of extents, each a header and a payload.  The payload is the new content of the extent
(`RAW`) or an xdelta against the old one (`XDELTA`), and either may be compressed.  The header says which, and carries
checksums of both contents.  What the encoder makes of an extent the decoder turns into the new content again.
-/

namespace Ddsnap

abbrev Bytes := List UInt8

def maxMemSize : Nat := 2 ^ 20

/-- `MAGIC_NUM`. -/
def deltaMagic : Nat := 0xbead0023

/-- The mode that the user asks for. -/
inductive DeltaMode where
  | xdelta
  | raw
  | bestComp
  deriving DecidableEq

/-- `XDELTA` and `RAW`, the modes that a header can have. -/
def XDELTA : Nat := 1
def RAW : Nat := 2

/-- `struct delta_extent_header`. -/
structure DeltaExtentHeader where
  magicNum : Nat
  mode : Nat
  gzipOn : Nat
  extentAddr : Nat
  numOfChunks : Nat
  extentsDeltaLength : Nat
  ext1Chksum : Nat
  ext2Chksum : Nat
  deriving DecidableEq

namespace DeltaExtentHeader

/-- The widths of the fields; the structure is packed. -/
def widths : List Nat := [4, 4, 4, 8, 8, 8, 8, 8]

/-- `sizeof(struct delta_extent_header)`. -/
def size : Nat := 52

def fields (deh : DeltaExtentHeader) : List Nat :=
  [deh.magicNum, deh.mode, deh.gzipOn, deh.extentAddr, deh.numOfChunks, deh.extentsDeltaLength, deh.ext1Chksum,
    deh.ext2Chksum]

def ofFields (vs : List Nat) : DeltaExtentHeader :=
  ⟨vs.getD 0 0, vs.getD 1 0, vs.getD 2 0, vs.getD 3 0, vs.getD 4 0, vs.getD 5 0, vs.getD 6 0, vs.getD 7 0⟩

def encode (deh : DeltaExtentHeader) : Bytes := WordFormat.pack widths deh.fields

def decode (bs : Bytes) : DeltaExtentHeader := ofFields (WordFormat.unpack widths bs)

/-- Every field fits its type. -/
def Fits (deh : DeltaExtentHeader) : Prop := WordFormat.Fits widths deh.fields

theorem length_encode (deh : DeltaExtentHeader) : deh.encode.length = size := WordFormat.length_pack rfl

theorem decode_encode {deh : DeltaExtentHeader} (h : deh.Fits) : decode deh.encode = deh := by
  rw [decode, encode, WordFormat.unpack_pack h]
  rfl

end DeltaExtentHeader

def checksum (data : Bytes) : Nat := data.foldl (fun result b => (result + b.toNat) % 2 ^ 64) 0

theorem checksum_lt (data : Bytes) : checksum data < 2 ^ 64 := by
  rcases List.eq_nil_or_concat data with rfl | ⟨data, b, rfl⟩
  · decide
  · simp only [checksum, List.concat_eq_append, List.foldl_append, List.foldl_cons, List.foldl_nil]
    exact Nat.mod_lt _ (by decide)

/-! ### The compression libraries -/

inductive Compressed where
  | ok (out : Bytes)
  | memError
  | bufError
  | streamError

inductive Uncompressed where
  | ok (out : Bytes)
  | memError
  | bufError
  | dataError

/-- `BUFFER_SIZE_ERROR` of `delta.h`. -/
def bufferSizeError : Int := -2

/-- zlib and the two functions of `delta.c`.  The latter return their result and what they wrote to the output buffer,
which `delta_chunk_helper` keeps inside `max_size`.  zlib uncompresses what it compressed if there is room. -/
structure Codec where
  compress2 : Int → Bytes → Compressed
  uncompress : Nat → Bytes → Uncompressed
  createDeltaChunk : Bytes → Bytes → Int × Bytes
  applyDeltaChunk : Bytes → Bytes → Nat → Int × Bytes
  uncompress_compress2 : ∀ level data out size, compress2 level data = .ok out → data.length ≤ size →
    uncompress size out = .ok data
  createDeltaChunk_length : ∀ src tgt, (createDeltaChunk src tgt).2.length ≤ tgt.length

/-- `gzip_on_delta`: the new `gzip_on` and the output. -/
def gzipOnDelta (codec : Codec) (level : Int) (input : Bytes) : Except Int (Nat × Bytes) :=
  match codec.compress2 level input with
  | .memError => .error Errno.enomem.ret
  | .bufError => .error Errno.erange.ret
  | .streamError => .error Errno.erange.ret
  | .ok out => if out.length < input.length then .ok (1, out) else .ok (0, input)

/-- `create_raw_delta`: the mode and the output. -/
def createRawDelta (input : Bytes) : Nat × Bytes := (RAW, input)

/-- `create_xdelta_delta`: the mode and the output.  `alloc` says that the buffer for the test was there. -/
def createXdeltaDelta (codec : Codec) (alloc : Bool) (input1 input2 : Bytes) : Except Int (Nat × Bytes) :=
  let created := codec.createDeltaChunk input1 input2
  if created.1 = bufferSizeError ∨ created.2.length = input2.length then .ok (createRawDelta input2)
  else if created.1 < 0 then .error Errno.erange.ret
  else if !alloc then .error Errno.enomem.ret
  else
    let test := codec.applyDeltaChunk input1 created.2 input2.length
    if test.1 ≠ input2.length then .error Errno.erange.ret
    else if test.2 ≠ input2 then .ok (createRawDelta input2)
    else .ok (XDELTA, created.2)

/-- The delta before compression, by the mode that the user asked for. -/
def createDelta (codec : Codec) (mode : DeltaMode) (alloc : Bool) (dev1 dev2 : Bytes) : Except Int (Nat × Bytes) :=
  match mode with
  | .raw => .ok (createRawDelta dev2)
  | .xdelta | .bestComp => createXdeltaDelta codec alloc dev1 dev2

/-- The part of `generate_delta_extents` that encodes one extent: the mode, `gzip_on` and the payload.  `rawOnly`: there
is no full extent of the source to compare with. -/
def encodeExtent (codec : Codec) (mode : DeltaMode) (level : Int) (alloc rawOnly : Bool) (dev1 dev2 : Bytes) :
    Except Int (Nat × Nat × Bytes) :=
  if rawOnly then do
    let gzip ← gzipOnDelta codec level dev2
    return (RAW, gzip)
  else do
    let delta ← createDelta codec mode alloc dev1 dev2
    let gzip ← gzipOnDelta codec level delta.2
    if mode = .bestComp then
      let gzip2 ← gzipOnDelta codec level dev2
      if gzip2.2.length ≤ gzip.2.length then return (RAW, gzip2) else return (delta.1, gzip)
    else return (delta.1, gzip)

/-! ### What the payload says -/

/-- The payload stands for these bytes: it is compressed or it is not. -/
structure Stands (codec : Codec) (size gzipOn : Nat) (payload data : Bytes) : Prop where
  length : payload.length ≤ data.length
  fits : data.length ≤ size
  gzip : gzipOn = 1 ∧ codec.uncompress size payload = .ok data ∨ gzipOn = 0 ∧ payload = data

/-- The bytes are the new content, or an xdelta that gives it. -/
def Gives (codec : Codec) (mode : Nat) (data dev1 dev2 : Bytes) : Prop :=
  mode = RAW ∧ data = dev2 ∨ mode = XDELTA ∧ codec.applyDeltaChunk dev1 data dev2.length = ((dev2.length : Int), dev2)

private theorem gzipOnDelta_stands {codec : Codec} {level : Int} {input : Bytes} {gzip : Nat × Bytes} {size : Nat}
    (h : gzipOnDelta codec level input = .ok gzip) (hsize : input.length ≤ size) :
    Stands codec size gzip.1 gzip.2 input := by
  unfold gzipOnDelta at h
  split at h
  · cases h
  · cases h
  · cases h
  · rename_i out hout
    split at h
    · rename_i hlt
      cases h
      exact ⟨Nat.le_of_lt hlt, hsize, .inl ⟨rfl, codec.uncompress_compress2 _ _ _ _ hout hsize⟩⟩
    · cases h
      exact ⟨Nat.le_refl _, hsize, .inr ⟨rfl, rfl⟩⟩

private theorem createXdeltaDelta_gives {codec : Codec} {alloc : Bool} {dev1 dev2 : Bytes} {delta : Nat × Bytes}
    (h : createXdeltaDelta codec alloc dev1 dev2 = .ok delta) :
    delta.2.length ≤ dev2.length ∧ Gives codec delta.1 delta.2 dev1 dev2 := by
  simp only [createXdeltaDelta] at h
  have hraw : (createRawDelta dev2).2.length ≤ dev2.length ∧
      Gives codec (createRawDelta dev2).1 (createRawDelta dev2).2 dev1 dev2 := ⟨Nat.le_refl _, .inl ⟨rfl, rfl⟩⟩
  split at h
  · cases h
    exact hraw
  · split at h
    · cases h
    · split at h
      · cases h
      · split at h
        · cases h
        · rename_i hret
          split at h
          · cases h
            exact hraw
          · rename_i htest
            cases h
            exact ⟨codec.createDeltaChunk_length dev1 dev2,
              .inr ⟨rfl, Prod.ext (by simpa using hret) (by simpa using htest)⟩⟩

private theorem except_bind_ok {ε α γ : Type} {x : Except ε α} {f : α → Except ε γ} {b : γ} (h : x >>= f = .ok b) :
    ∃ a, x = .ok a ∧ f a = .ok b := by
  cases x with
  | error e => cases h
  | ok a => exact ⟨a, rfl, h⟩

/-- The payload of an extent stands for bytes that give its new content. -/
theorem encodeExtent_gives {codec : Codec} {mode : DeltaMode} {level : Int} {alloc rawOnly : Bool} {dev1 dev2 : Bytes}
    {out : Nat × Nat × Bytes} (h : encodeExtent codec mode level alloc rawOnly dev1 dev2 = .ok out) :
    (rawOnly = true → out.1 = RAW) ∧
      ∃ data, Stands codec dev2.length out.2.1 out.2.2 data ∧ Gives codec out.1 data dev1 dev2 := by
  have hraw : ∀ gzip, gzipOnDelta codec level dev2 = .ok gzip →
      ∃ data, Stands codec dev2.length gzip.1 gzip.2 data ∧ Gives codec RAW data dev1 dev2 := fun gzip hg =>
    ⟨dev2, gzipOnDelta_stands hg (Nat.le_refl _), .inl ⟨rfl, rfl⟩⟩
  unfold encodeExtent at h
  split at h
  · obtain ⟨gzip, hg, h⟩ := except_bind_ok h
    cases h
    exact ⟨fun _ => rfl, hraw gzip hg⟩
  · rename_i hsrc
    refine ⟨fun hs => absurd hs hsrc, ?_⟩
    obtain ⟨delta, hd, h⟩ := except_bind_ok h
    have hdelta : delta.2.length ≤ dev2.length ∧ Gives codec delta.1 delta.2 dev1 dev2 := by
      cases mode with
      | raw => cases hd; exact ⟨Nat.le_refl _, .inl ⟨rfl, rfl⟩⟩
      | xdelta => exact createXdeltaDelta_gives hd
      | bestComp => exact createXdeltaDelta_gives hd
    obtain ⟨gzip, hg, h⟩ := except_bind_ok h
    have hgzip : ∃ data, Stands codec dev2.length gzip.1 gzip.2 data ∧ Gives codec delta.1 data dev1 dev2 :=
      ⟨delta.2, gzipOnDelta_stands hg hdelta.1, hdelta.2⟩
    split at h
    · obtain ⟨gzip2, hg2, h⟩ := except_bind_ok h
      split at h
      · cases h
        exact hraw gzip2 hg2
      · cases h
        exact hgzip
    · cases h
      exact hgzip

end Ddsnap
