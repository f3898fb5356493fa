import Ddsnap.Buffer

/-!
# Allocation bitmaps and deferred allocation

The block allocator of `ddsnapd.c`.  A chunk is allocated when its bit is set in the bitmap of its space, or when it
lies in the pending range `defer` or in one of the ranges `deferredAlloc` that the journal remembers.
-/

namespace Ddsnap

variable {D : Type}

def maxDeferredAllocs : Nat := 500

/-! ### Bits of a bitmap block -/

/-- The bits of a bitmap block. -/
def bitmapBits : Block D → Nat → Bool
  | .bitmap bits => bits
  | _ => fun _ => false

def setBitmapBit (b : Block D) (bit : Nat) : Block D := .bitmap (Function.update (bitmapBits b) bit true)

def clearBitmapBit (b : Block D) (bit : Nat) : Block D := .bitmap (Function.update (bitmapBits b) bit false)

/-- `bitmap_shift`: the binary logarithm of the number of bits in a bitmap block. -/
def Sb.bitmapShift (sb : Sb D) : Nat := sb.image.metadata.allocsizeBits + 3

/-- The bitmap block that holds the bit of `chunk`, for a bitmap that starts at `base`. -/
def Sb.bitmapBlock (sb : Sb D) (base chunk : Nat) : Nat := base + chunk / 2 ^ sb.bitmapShift

/-- `get_bitmap_bit`, for the bit of `chunk` in the bitmap of a space. -/
def Sb.marked (sb : Sb D) (as : Space) (chunk : Nat) : Bool :=
  bitmapBits (sb.mem (sb.bitmapBlock (sb.asi as).bitmapBase chunk)) (chunk % 2 ^ sb.bitmapShift)

/-- The bit of one chunk is set and its bitmap block is dirtied. -/
def markChunk (sb : Sb D) (base chunk : Nat) : Sb D :=
  let s := sb.bitmapBlock base chunk
  setBufferDirty (sb.store s (setBitmapBit (sb.mem s) (chunk % 2 ^ sb.bitmapShift))) s

/-- `set_allocated`: `change_bits` with flag 1 on the metadata bitmap.  The source dirties a block once, after its
last bit; dirtying it at every bit puts it on the dirty list at the same place. -/
def setAllocated (sb : Sb D) (chunk count : Nat) : Sb D :=
  (List.range count).foldl (fun sb i => markChunk sb sb.image.metadata.bitmapBase (chunk + i)) sb

def flushDeferredAllocs (sb : Sb D) : Sb D :=
  { sb.deferredAlloc.foldl (fun sb r => setAllocated sb r.chunk r.count) sb with deferredAlloc := [] }

theorem flushDeferredAllocs_nil {sb : Sb D} (h : sb.deferredAlloc = []) : flushDeferredAllocs sb = sb := by
  unfold flushDeferredAllocs
  rw [h, List.foldl_nil, ← h]

/-! ### Counting -/

/-- `count_zeros`: the clear bits in the bytes that hold the bits of the space. -/
def countZeros (sb : Sb D) (as : Space) : Nat :=
  (List.range (8 * (((sb.asi as).chunks + 7) / 8))).countP fun chunk => !sb.marked as chunk

def countDeferred (sb : Sb D) : Nat := sb.defer.count + (sb.deferredAlloc.map AllocRange.count).sum

def countFree (sb : Sb D) (as : Space) : Nat := diff64 (countZeros sb as) (countDeferred sb)

/-- `check_freespace`, without its warnings. -/
def checkFreespace (sb : Sb D) : Sb D :=
  let sb1 := sb.setAsi .metadata { sb.asi .metadata with freechunks := countFree sb .metadata }
  if sb1.combined then sb1
  else sb1.setAsi .snapdata { sb1.asi .snapdata with freechunks := countFree sb1 .snapdata }

/-! ### Allocation -/

def chunkWithin (chunk start count : Nat) : Bool := start ≤ chunk ∧ chunk < start + count

def isDeferredAlloc (sb : Sb D) (chunk : Nat) : Bool :=
  chunkWithin chunk sb.defer.chunk sb.defer.count ||
    sb.deferredAlloc.any fun r => chunkWithin chunk r.chunk r.count

/-- The first chunk of a bitmap byte that is neither marked nor deferred. -/
def scanByte (sb : Sb D) (as : Space) (byte : Nat) : Option Nat :=
  ((List.range 8).map (8 * byte + ·)).find? fun chunk => !sb.marked as chunk && !isDeferredAlloc sb chunk

/-- The scan of `alloc_chunk_from_range`, its loop over the bitmap blocks and its loop over the bytes of a block run
together: `length` bytes from `byte` on, going back to the first block after the last one. -/
def scanBytes (sb : Sb D) (as : Space) : Nat → Nat → Option Nat
  | 0, _ => none
  | length + 1, byte =>
    match scanByte sb as byte with
    | some chunk => some chunk
    | none =>
      scanBytes sb as length (if byte + 1 = (sb.asi as).bitmapBlocks * sb.allocsize then 0 else byte + 1)

/-- The chunk that the scan found is taken: put into the pending deferred range when that is possible, else marked
in the bitmap. -/
def takeChunk (sb : Sb D) (as : Space) (chunk : Nat) : Sb D :=
  let sb1 :=
    if sb.deferring ∧ sb.deferredAlloc.length < maxDeferredAllocs ∧ sb.defer.count = 0 then
      { sb with defer := { sb.defer with chunk := chunk, count := 1 } }
    else if sb.deferring ∧ sb.deferredAlloc.length < maxDeferredAllocs ∧ chunk = sb.defer.chunk + 1 then
      { sb with defer := { sb.defer with count := sb.defer.count + 1 } }
    else markChunk sb (sb.asi as).bitmapBase chunk
  setSbDirty (sb1.setAsi as { sb1.asi as with freechunks := diff64 (sb1.asi as).freechunks 1 })

def allocChunkFromRange (sb : Sb D) (as : Space) (startchunk nchunks : Nat) : Option (Nat × Sb D) :=
  match scanBytes sb as ((nchunks + startchunk % 8 + 7) / 8) (startchunk / 8) with
  | none => none
  | some chunk => some (chunk, takeChunk sb as chunk)

def allocChunk (sb : Sb D) (as : Space) : Option (Nat × Sb D) :=
  let last := (sb.asi as).lastAlloc
  let total := (sb.asi as).chunks
  match (allocChunkFromRange sb as last (total - last)).orElse fun _ => allocChunkFromRange sb as 0 last with
  | none => none
  | some (found, sb1) => some (found, setSbDirty (sb1.setAsi as { sb1.asi as with lastAlloc := found }))

/-- `free_chunk`.  A chunk whose bit is clear is left alone. -/
def freeChunk (sb : Sb D) (as : Space) (chunk : Nat) : Sb D :=
  if sb.marked as chunk then
    let s := sb.bitmapBlock (sb.asi as).bitmapBase chunk
    let sb1 := setBufferDirty (sb.store s (clearBitmapBit (sb.mem s) (chunk % 2 ^ sb.bitmapShift))) s
    setSbDirty (sb1.setAsi as { sb1.asi as with freechunks := ((sb1.asi as).freechunks + 1) % 2 ^ 64 })
  else sb

def freeBlock (sb : Sb D) (s : Nat) : Sb D := freeChunk sb .metadata s

def freeException (sb : Sb D) (chunk : Nat) : Sb D := freeChunk sb .snapdata chunk

end Ddsnap
