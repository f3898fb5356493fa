import Ddsnap.Delta
import Ddsnap.Types

/-!
# Sending and applying a delta

`generate_delta_extents` cuts the changelist into extents of adjacent chunks and writes each of them to the stream;
`apply_delta_extents` reads them and writes their content to the target device.  Both compute the size of an extent for
themselves, from the address and the number of its chunks.

The results of the system calls are inputs: one list for each read or write of a device, and the other outcomes by the
extent that they belong to.  `none` stands for a run without a result: a call that does not return, or a buffer
overflow.
-/

namespace Ddsnap

/-- The size of an extent, cut off at the end of the volume. -/
def clip (volumeSize addr size : Nat) : Nat := if addr > diff64 volumeSize size then diff64 volumeSize addr else size

def Volume.slice (v : Volume UInt8) (addr len : Nat) : Bytes := (List.range len).map fun j => v.byte (addr + j)

/-- The first bytes of a buffer. -/
def front (buffer : Nat → UInt8) (len : Nat) : Bytes := (List.range len).map buffer

/-- The bytes are at the front of the buffer. -/
def fill (buffer : Nat → UInt8) (data : Bytes) : Nat → UInt8 := patch buffer 0 data.length fun j => data.getD j 0

/-- `diskread` into a buffer of `MAX_MEM_SIZE`. -/
def readExtent (v : Volume UInt8) (rets : List Ret) (len addr : Nat) : Option (Except Int Bytes) :=
  (fdio v.size rets len addr).bind fun p =>
    if p.1 > maxMemSize then none else if p.2 < 0 then some (.error p.2) else some (.ok (v.slice addr len))

/-! ### The sender -/

/-- `while (cur_chunkaddr == start_chunkaddr + num_of_chunks && …)`. -/
def chunksFrom (chunks : Nat → Nat) (pos limit : Nat) : Nat → Nat → Nat
  | 0, num => num
  | fuel + 1, num =>
    if chunks (pos + num) = (chunks pos + num) % 2 ^ 64 ∧ num < limit then chunksFrom chunks pos limit fuel (num + 1)
    else num

def chunksInExtent (chunks : Nat → Nat) (pos chunkSize : Nat) : Nat :=
  chunksFrom chunks pos (maxMemSize / chunkSize) (maxMemSize / chunkSize) 1

structure Extent where
  addr : Nat
  num : Nat
  size : Nat
  deriving DecidableEq

/-- The arguments of `generate_delta_extents` with the devices that it opens.  `chunks` is the memory at `cl->chunks`:
`chunks_in_extent` may look behind its `count` entries, which the address space can hold. -/
structure GenerateArgs where
  codec : Codec
  mode : DeltaMode
  level : Int
  chunksizeBits : Nat
  count : Nat
  chunks : Nat → Nat
  full : Bool
  source : Volume UInt8
  target : Volume UInt8
  progressFile : Bool
  count_lt : count < 2 ^ 63

/-- What `dev1_extent` and `deh.ext1_chksum` hold. -/
structure SourceExtent where
  data : Nat → UInt8
  chksum : Nat

/-- The outcomes of what `generate_delta_extents` calls: what `dev1_extent` holds at first, whether the devices and
buffers are there, whether the name of the temporary file is, and for the extent at a chunk number the results of
reading the two devices, whether the test buffer is there, how many bytes of header and payload went out if not all of
them did, whether a progress report is due and whether it succeeds. -/
structure GenerateIo where
  memory : Nat → UInt8
  setup : Bool
  tmpfile : Bool
  read1 : Nat → List Ret
  read2 : Nat → List Ret
  alloc : Nat → Bool
  header : Nat → Option (Nat × Errno)
  data : Nat → Option (Nat × Errno)
  due : Nat → Bool
  progress : Nat → Bool
  lastProgress : Bool

/-- What was written to the stream, the result, and the extents that went out as a whole, with their chunk numbers. -/
structure GenerateOut where
  stream : Bytes
  err : Int
  sent : List (Nat × Extent)
  deriving DecidableEq

namespace GenerateArgs

variable (g : GenerateArgs)

def chunkSize : Nat := 2 ^ g.chunksizeBits

/-- Where a chunk of the changelist starts. -/
def chunkAddr (i : Nat) : Nat := chunkpos g.chunksizeBits (g.chunks i)

/-- The extent at a chunk number. -/
def extent (chunkNum : Nat) : Extent :=
  if g.full then
    let addr := (chunkNum * g.chunkSize) % 2 ^ 64
    ⟨addr, 1, clip g.target.size addr g.chunkSize⟩
  else
    let addr := g.chunkAddr chunkNum
    let num := if chunkNum = g.count - 1 then 1 else chunksInExtent g.chunks chunkNum g.chunkSize
    ⟨addr, num, clip g.target.size addr ((g.chunkSize * num) % 2 ^ 64)⟩

/-- The bytes of the source and their checksum.  Both are left as they were if there are none. -/
def readSource (rets : List Ret) (e : Extent) (src : SourceExtent) : Option (Except Int SourceExtent) :=
  if !g.full ∧ g.source.size > e.addr then
    (readExtent g.source rets (clip g.source.size e.addr e.size) e.addr).map fun r =>
      r.map fun dev1 => ⟨fill src.data dev1, checksum dev1⟩
  else some (.ok src)

/-- There is no full extent of the source. -/
def rawOnly (e : Extent) : Bool := g.full || decide (e.addr > diff64 g.source.size e.size)

/-- The header and the payload of an extent, made of what was read. -/
def record (alloc : Bool) (e : Extent) (src : SourceExtent) (dev2 : Bytes) :
    Except Int (SourceExtent × DeltaExtentHeader × Bytes) :=
  (encodeExtent g.codec g.mode g.level alloc (g.rawOnly e) (front src.data e.size) dev2).map fun out =>
    (src, ⟨deltaMagic, out.1, out.2.1, e.addr, e.num, out.2.2.length, src.chksum, checksum dev2⟩, out.2.2)

/-- Reading and encoding the extent at a chunk number. -/
def makeRecord (io : GenerateIo) (chunkNum : Nat) (src : SourceExtent) :
    Option (Except Int (SourceExtent × DeltaExtentHeader × Bytes)) :=
  let e := g.extent chunkNum
  (g.readSource (io.read1 chunkNum) e src).bind fun
    | .error err => some (.error err)
    | .ok src =>
      (readExtent g.target (io.read2 chunkNum) e.size e.addr).map fun
        | .error err => .error err
        | .ok dev2 => g.record (io.alloc chunkNum) e src dev2

/-- After the loop. -/
def finish (io : GenerateIo) (chunkNum : Nat) (stream : Bytes) (sent : List (Nat × Extent)) : GenerateOut :=
  if chunkNum ≠ g.count then ⟨stream, Errno.erange.ret, sent⟩
  else ⟨stream, if g.progressFile && !io.lastProgress then -1 else 0, sent⟩

/-- `fdwrite`: nothing is written if there is nothing to write. -/
def fdwrite (out : Bytes) (failure : Option (Nat × Errno)) : Option (Bytes × Int) :=
  if out = [] then none else failure.map fun f => (out.take f.1, f.2.ret)

/-- The loop, with fuel for the remaining chunks.  A progress report that fails ends it with the result of the last
`fdwrite`, which is 0. -/
def loop (io : GenerateIo) : Nat → (chunkNum : Nat) → SourceExtent → Bytes → List (Nat × Extent) → Option GenerateOut
  | 0, chunkNum, _, stream, sent => some (g.finish io chunkNum stream sent)
  | fuel + 1, chunkNum, src, stream, sent =>
    if chunkNum < g.count then
      (g.makeRecord io chunkNum src).bind fun
        | .error err => some ⟨stream, err, sent⟩
        | .ok (src, deh, payload) =>
          match fdwrite deh.encode (io.header chunkNum) with
          | some (out, err) => some ⟨stream ++ out, err, sent⟩
          | none =>
            match fdwrite payload (io.data chunkNum) with
            | some (out, err) => some ⟨stream ++ deh.encode ++ out, err, sent⟩
            | none =>
              let stream' := stream ++ deh.encode ++ payload
              let sent' := sent ++ [(chunkNum, g.extent chunkNum)]
              if g.progressFile && io.due chunkNum && !io.progress chunkNum then some ⟨stream', 0, sent'⟩
              else loop io fuel (chunkNum + deh.numOfChunks) src stream' sent'
    else some (g.finish io chunkNum stream sent)

/-- `generate_delta_extents`. -/
def generate (io : GenerateIo) (startChunk : Nat) : Option GenerateOut :=
  if !io.setup then some ⟨[], Errno.enomem.ret, []⟩
  else if g.progressFile && !io.tmpfile then some ⟨[], Errno.enomem.ret, []⟩
  else g.loop io (g.count - startChunk) startChunk ⟨io.memory, 0⟩ [] []

end GenerateArgs

/-! ### The receiver -/

/-- The arguments of `apply_delta_extents` with the source device. -/
structure ApplyArgs where
  codec : Codec
  full : Bool
  source : Volume UInt8
  chunkSize : Nat
  chunkCount : Nat
  progressFile : Bool

/-- What ends `apply_delta_extents` before its loop. -/
inductive ApplySetup where
  | ready
  | noSource (e : Errno)
  | noTarget (e : Errno)
  | noTmpfile
  | noMemory
  | noSize

/-- The result in these cases.  A size that cannot be determined leaves `err` at 0. -/
def ApplySetup.err : ApplySetup → Int
  | .ready | .noSize => 0
  | .noSource e | .noTarget e => e.ret
  | .noTmpfile | .noMemory => Errno.enomem.ret

/-- The outcomes of what `apply_delta_extents` calls, by the number of the round: what `fdread` returns at the end of
the stream, the results of reading the source and of writing the target, whether a progress report is due and how
`fsync` and the report end.  `memory` is what the three buffers hold at first. -/
structure ApplyIo where
  memory : Fin 3 → Nat → UInt8
  streamErr : Errno
  read : Nat → List Ret
  write : Nat → List Ret
  due : Nat → Bool
  fsync : Nat → Bool
  progress : Nat → Bool
  lastFsync : Bool
  lastProgress : Bool

/-- Where a round ends the loop. -/
inductive ApplyExit where
  | headerRead (err : Int)
  | magic
  | devRead (err : Int)
  | checksumSource
  | deltaRead (err : Int)
  | compMem
  | compBuf
  | compData
  | chunk
  | checksum
  | write (err : Int)
  | fsync
  | progress
  deriving DecidableEq

/-- The value of `err` there: the labels of the three decompression errors, `fsync` and the progress report leave it at
the result of the last call that succeeded. -/
def ApplyExit.err : ApplyExit → Int
  | .headerRead err | .devRead err | .deltaRead err | .write err => err
  | .magic | .checksumSource | .chunk | .checksum => Errno.erange.ret
  | .compMem | .compBuf | .compData | .fsync | .progress => 0

/-- The stream that is left, the target device, the buffers, the extents written so far with their content, the last one
first, and whether the device was synced after them. -/
structure ApplyState where
  stream : Bytes
  target : Volume UInt8
  extentData : Nat → UInt8
  deltaData : Nat → UInt8
  updated : Nat → UInt8
  chunkNum : Nat
  applied : List (DeltaExtentHeader × Bytes)
  synced : Bool

/-- The extent in `updated` is on the device. -/
def ApplyState.wrote (st : ApplyState) (deh : DeltaExtentHeader) (size : Nat) : ApplyState :=
  { st with applied := (deh, front st.updated size) :: st.applied, synced := false }

/-- `chunk_num = chunk_num + deh.num_of_chunks`. -/
def ApplyState.count (st : ApplyState) (deh : DeltaExtentHeader) : ApplyState :=
  { st with chunkNum := (st.chunkNum + deh.numOfChunks) % 2 ^ 64 }

/-- The target device and the result at the end, the chunks that were counted, the extents written, and whether the
device was synced after them. -/
structure ApplyOut where
  target : Volume UInt8
  err : Int
  chunkNum : Nat
  applied : List (DeltaExtentHeader × Bytes)
  synced : Bool

namespace ApplyArgs

variable (p : ApplyArgs)

/-- `fdread` of the payload into a buffer of `MAX_MEM_SIZE`. -/
def readPayload (io : ApplyIo) (stream : Bytes) (len : Nat) : Option (Except ApplyExit Bytes) :=
  if maxMemSize < min len stream.length then none
  else if stream.length < len then some (.error (.deltaRead io.streamErr.ret))
  else some (.ok (stream.take len))

/-- The header of the next extent. -/
def readHeader (io : ApplyIo) (stream : Bytes) : Except ApplyExit DeltaExtentHeader :=
  if stream.length < DeltaExtentHeader.size then .error (.headerRead io.streamErr.ret)
  else
    let deh := DeltaExtentHeader.decode (stream.take DeltaExtentHeader.size)
    if deh.magicNum ≠ deltaMagic then .error .magic else .ok deh

/-- The size of the extent on the target device. -/
def extentSize (target : Volume UInt8) (deh : DeltaExtentHeader) : Nat :=
  clip target.size deh.extentAddr ((deh.numOfChunks * p.chunkSize) % 2 ^ 64)

/-- The content of the source, checked against the header. -/
def readSource (rets : List Ret) (deh : DeltaExtentHeader) (size : Nat) (extentData : Nat → UInt8) :
    Option (Except ApplyExit (Nat → UInt8)) :=
  if !p.full ∧ p.source.size > deh.extentAddr then
    (readExtent p.source rets (clip p.source.size deh.extentAddr size) deh.extentAddr).map fun
      | .error err => .error (.devRead err)
      | .ok dev1 => if deh.ext1Chksum ≠ checksum dev1 then .error .checksumSource else .ok (fill extentData dev1)
  else some (.ok extentData)

/-- The payload, uncompressed if need be: what was read from the stream and what it stands for. -/
def inflate (io : ApplyIo) (stream : Bytes) (deh : DeltaExtentHeader) (size : Nat) :
    Option (Except ApplyExit Bytes) :=
  (readPayload io stream deh.extentsDeltaLength).bind fun
    | .error x => some (.error x)
    | .ok payload =>
      if deh.gzipOn = 1 then
        match p.codec.uncompress size payload with
        | .memError => some (.error .compMem)
        | .bufError => some (.error .compBuf)
        | .dataError => some (.error .compData)
        | .ok data => if data.length > maxMemSize then none else some (.ok data)
      else some (.ok payload)

/-- The new content in `updated`, from `len` bytes in `delta_data`. -/
def update (deh : DeltaExtentHeader) (size len : Nat) (extentData deltaData updated : Nat → UInt8) :
    Except ApplyExit (Nat → UInt8) :=
  if deh.mode = RAW then .ok (fill updated (front deltaData size))
  else if !p.full ∧ deh.mode = XDELTA then
    let applied := p.codec.applyDeltaChunk (front extentData size) (front deltaData len) size
    if applied.1 < 0 then .error .chunk else .ok (fill updated applied.2)
  else .ok updated

/-- One round up to the write: the state with the new content in `updated`, the header and the size. -/
def decodeExtent (io : ApplyIo) (k : Nat) (st : ApplyState) :
    Option (Except ApplyExit (ApplyState × DeltaExtentHeader × Nat)) :=
  match readHeader io st.stream with
  | .error x => some (.error x)
  | .ok deh =>
    let stream := st.stream.drop DeltaExtentHeader.size
    let size := p.extentSize st.target deh
    (p.readSource (io.read k) deh size st.extentData).bind fun
      | .error x => some (.error x)
      | .ok extentData =>
        (p.inflate io stream deh size).bind fun
          | .error x => some (.error x)
          | .ok data =>
            if size > maxMemSize then none
            else
              let deltaData := fill st.deltaData data
              match p.update deh size data.length extentData deltaData st.updated with
              | .error x => some (.error x)
              | .ok updated =>
                if deh.ext2Chksum ≠ checksum (front updated size) then some (.error .checksum)
                else some (.ok
                  ({ st with
                      stream := stream.drop deh.extentsDeltaLength, extentData := extentData,
                      deltaData := deltaData, updated := updated }, deh, size))

/-- The write of an extent and the progress report: the device after it, and the end of the loop if it fails. -/
def writeExtent (io : ApplyIo) (k : Nat) (st : ApplyState) (deh : DeltaExtentHeader) (size : Nat) :
    Option (ApplyState × Option ApplyExit) :=
  (fdio st.target.size (io.write k) size deh.extentAddr).map fun w =>
    let target := st.target.patch deh.extentAddr w.1 st.updated
    if w.2 < 0 then ({ st with target := target }, some (.write w.2))
    else
      let st' := { st with target := target }.wrote deh size
      if !(p.progressFile && io.due k) then (st'.count deh, none)
      else if !io.fsync k then (st', some .fsync)
      else if !io.progress k then ({ st' with synced := true }, some .progress)
      else ({ st'.count deh with synced := true }, none)

/-- One round. -/
def round (io : ApplyIo) (k : Nat) (st : ApplyState) : Option (ApplyState × Option ApplyExit) :=
  (p.decodeExtent io k st).bind fun
    | .error x => some (st, some x)
    | .ok (st', deh, size) => p.writeExtent io k st' deh size

/-- After the loop. -/
def finish (io : ApplyIo) (st : ApplyState) : ApplyOut :=
  if !io.lastFsync then ⟨st.target, 0, st.chunkNum, st.applied, false⟩
  else ⟨st.target, if p.progressFile && !io.lastProgress then -1 else 0, st.chunkNum, st.applied, true⟩

/-- The loop.  Every round takes a header from the stream, so that the length of the stream is fuel enough. -/
def loop (io : ApplyIo) : Nat → Nat → ApplyState → Option ApplyOut
  | 0, _, _ => none
  | fuel + 1, k, st =>
    if st.chunkNum < p.chunkCount then
      (p.round io k st).bind fun
        | (st', some x) => some ⟨st'.target, x.err, st'.chunkNum, st'.applied, st'.synced⟩
        | (st', none) => loop io fuel (k + 1) st'
    else some (p.finish io st)

/-- `apply_delta_extents`. -/
def apply (setup : ApplySetup) (io : ApplyIo) (stream : Bytes) (target : Volume UInt8) : Option ApplyOut :=
  match setup with
  | .ready =>
    p.loop io (stream.length + 1) 0 ⟨stream, target, io.memory 0, io.memory 1, io.memory 2, 0, [], false⟩
  | setup => some ⟨target, setup.err, 0, [], false⟩

end ApplyArgs

end Ddsnap
