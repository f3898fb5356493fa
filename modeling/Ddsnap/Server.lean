import Ddsnap.Lib.Reach
import Ddsnap.Snapshots

/-!
# The server: initialisation and messages

`init_snapstore`, the start of the server, and the handlers of the messages that change the store.  A client that was
granted a write carries it out itself: `clientWrite` is its write to the origin or to a chunk of the snapshot store.

The read locks, which only delay the reply to an origin write, and the encoding of the replies are left out.
-/

namespace Ddsnap

variable {D : Type}

/-! ### Initialisation -/

/-- What `ddsnap initialize` is given: the binary logarithm of the block size, the sizes of the devices in chunks (no
chunks for the snapshot data of a combined store) and the size of the journal. -/
structure Config where
  bits : Nat
  metachunks : Nat
  snapchunks : Nat
  journalSize : Nat
  orgsectors : Nat

def calcBitmapBlocks (bits chunks : Nat) : Nat := (chunks + 2 ^ (bits + 3) - 1) / 2 ^ (bits + 3)

/-- Block `i` of the bitmap that `init_bitmap_blocks` writes: the reserved chunks are marked, and those behind the end of
the device in the last byte. -/
def initBitmapBlock (bits bitmaps chunks reserved i : Nat) : Block D :=
  .bitmap fun j =>
    i * 2 ^ (bits + 3) + j < reserved ∨
      (i + 1 = bitmaps ∧ chunks % 8 ≠ 0 ∧ j / 8 = chunks / 8 % 2 ^ bits ∧ chunks % 8 ≤ j % 8)

/-- The first block after the superblock. -/
def Config.bitmapBase (cfg : Config) : Nat := (2 ^ 13 + 2 ^ cfg.bits - 1) / 2 ^ cfg.bits

/-- The chunks that `init_allocation` reserves. -/
def Config.reserved (cfg : Config) : Nat :=
  cfg.bitmapBase + calcBitmapBlocks cfg.bits cfg.metachunks + calcBitmapBlocks cfg.bits cfg.snapchunks + cfg.journalSize

/-- The metadata device after `init_bitmap_blocks`, with empty blocks elsewhere. -/
def Config.initialBlocks (cfg : Config) (blank : D) (s : Nat) : Block D :=
  let meta1 := cfg.bitmapBase
  let meta2 := meta1 + calcBitmapBlocks cfg.bits cfg.metachunks
  let snap2 := meta2 + calcBitmapBlocks cfg.bits cfg.snapchunks
  if meta1 ≤ s ∧ s < meta2 then
    initBitmapBlock cfg.bits (calcBitmapBlocks cfg.bits cfg.metachunks) cfg.metachunks cfg.reserved (s - meta1)
  else if meta2 ≤ s ∧ s < snap2 then
    initBitmapBlock cfg.bits (calcBitmapBlocks cfg.bits cfg.snapchunks) cfg.snapchunks 0 (s - meta2)
  else .data blank

/-- The superblock image of `init_super` before the tree is made. -/
def Config.image (cfg : Config) : Disksuper where
  etreeRoot := 0
  etreeLevels := 1
  orgsectors := cfg.orgsectors
  snaplist := fun _ => ⟨0, 0, 0, 0, 0⟩
  snapshots := 0
  journalNext := 0
  journalSize := cfg.journalSize
  sequence := cfg.journalSize
  metadata := {
    bitmapBase := cfg.bitmapBase
    chunks := cfg.metachunks
    freechunks := diff64 cfg.metachunks cfg.reserved
    lastAlloc := 0
    bitmapBlocks := calcBitmapBlocks cfg.bits cfg.metachunks
    allocsizeBits := cfg.bits }
  snapdata := {
    bitmapBase := cfg.bitmapBase + calcBitmapBlocks cfg.bits cfg.metachunks
    chunks := cfg.snapchunks
    freechunks := cfg.snapchunks
    lastAlloc := 0
    bitmapBlocks := calcBitmapBlocks cfg.bits cfg.snapchunks
    allocsizeBits := cfg.bits }

/-- The store of `init_super` after `init_allocation`; `org` is the content of the origin. -/
def Config.blankStore (cfg : Config) (blank : D) (org : Nat → D) : Sb D where
  image := cfg.image
  snapmask := 0
  deferring := false
  sbDirty := true
  allocPerNode := (2 ^ cfg.bits - 8) / 16
  maxCommitBlocks := (2 ^ cfg.bits - 52) / 8
  copybufChunks := 32
  sourceChunk := 0
  destException := 0
  copyChunks := 0
  usecount := fun _ => 0
  deferredAlloc := []
  defer := ⟨0, 0, false⟩
  mem := cfg.initialBlocks blank
  dirtyBuffers := []
  journaledBuffers := []
  dev := fun
    | .orgdev => fun c => .data (org c)
    | .snapdev => fun _ => .data blank
    | .metadev => cfg.initialBlocks blank
  journal := fun _ => .data blank
  diskSuper := cfg.image
  committed := cfg.initialBlocks blank
  commits := []

/-- The end of `init_super`: the tree is a root with one empty leaf.  `none` stands for the assertion on the two new
blocks. -/
def initTree (sb : Sb D) : Option (Sb D) := do
  let (leafbuf, sb) ← newLeaf sb
  let (rootbuf, sb) ← newNode sb
  let sb := sb.put rootbuf (.node [⟨0, leafbuf⟩])
  return setBufferDirty { sb with image := { sb.image with etreeRoot := rootbuf } } leafbuf

def saveSbCheck (sb : Sb D) : Option (Sb D) := (commitDeferredAllocs sb).map saveSb

def initSnapstore (cfg : Config) (blank : D) (org : Nat → D) : Option (Sb D) := do
  let sb ← initTree (cfg.blankStore blank org)
  saveSbCheck (initJournal sb)

/-- `start_server` and `START_SERVER` on a store that was shut down properly. -/
def startServer (sb : Sb D) (deferring : Bool) : Sb D := { restart sb with deferring := deferring }

/-- A small combined store. -/
def tinyConfig : Config := { bits := 12, metachunks := 40, snapchunks := 0, journalSize := 8, orgsectors := 0 }

/-! ### Messages -/

/-- The chunks of a list of ranges. -/
def rangeChunks (ranges : List (Nat × Nat)) : List Nat := ranges.flatMap fun r => (List.range r.2).map (r.1 + ·)

/-- The loop of an origin `QUERY_WRITE`: `false` when one of the copies failed. -/
def originChunks : Sb D → List Nat → Option (Bool × Sb D)
  | sb, [] => some (true, sb)
  | sb, chunk :: chunks => do
    let (exception, sb) ← makeUnique sb chunk none
    let (ok, sb) ← originChunks sb chunks
    return (exception.isSome && ok, sb)

/-- `QUERY_WRITE` of an origin client: whether it is answered with `ORIGIN_WRITE_OK`. -/
def originWrite (sb : Sb D) (ranges : List (Nat × Nat)) : Option (Bool × Sb D) := do
  let (ok, sb) ← originChunks sb (rangeChunks ranges)
  let sb ← commitTransaction (finishCopyout sb) false
  return (ok, sb)

/-- One chunk of a snapshot `QUERY_WRITE`, through the pointer into the snapshot list. -/
def snapshotChunk (sb : Sb D) (slot chunk : Nat) : Option (Option Nat × Sb D) :=
  let snapshot := sb.image.snaplist slot
  if isSquashed snapshot then some (none, sb) else makeUnique sb chunk (some snapshot.bit)

/-- The loop of a snapshot `QUERY_WRITE`: the answer to every chunk. -/
def snapshotChunks (slot : Nat) : Sb D → List Nat → Option (List (Option Nat) × Sb D)
  | sb, [] => some ([], sb)
  | sb, chunk :: chunks => do
    let (exception, sb) ← snapshotChunk sb slot chunk
    let (exceptions, sb) ← snapshotChunks slot sb chunks
    return (exception :: exceptions, sb)

theorem snapshotChunks_squashed {sb : Sb D} {slot : Nat} (hsq : isSquashed (sb.image.snaplist slot) = true)
    (chunks : List Nat) : snapshotChunks slot sb chunks = some (chunks.map fun _ => none, sb) := by
  induction chunks with
  | nil => rfl
  | cons c chunks ih =>
    unfold snapshotChunks snapshotChunk
    simp only [hsq, if_true, Option.bind_eq_bind, Option.bind_some, ih]
    rfl

/-- `QUERY_WRITE` of a client of the snapshot with a tag.  `none` stands for the assertion of `client_snap`. -/
def snapshotWrite (sb : Sb D) (tag : Nat) (ranges : List (Nat × Nat)) : Option (List (Option Nat) × Sb D) := do
  let slot ← findSnap sb tag
  let (exceptions, sb) ← snapshotChunks slot sb (rangeChunks ranges)
  let sb ← commitTransaction (finishCopyout sb) false
  return (exceptions, sb)

/-- `CREATE_SNAPSHOT`. -/
def createMessage (sb : Sb D) (tag : Nat) : Option (Sb D) := do
  let (bit, sb) ← createSnapshot sb tag
  if bit.isSome then saveSbCheck sb else return sb

/-- `DELETE_SNAPSHOT`. -/
def deleteMessage (sb : Sb D) (tag : Nat) : Option (Sb D) :=
  match findSnap sb tag with
  | none => some sb
  | some slot => do
    if usecount sb (sb.image.snaplist slot) = 0 then
      let sb ← deleteSnap sb slot
      saveSbCheck sb
    else return sb

/-- A snapshot entry is changed in place. -/
def modifySnap (sb : Sb D) (tag : Nat) (f : Snapshot → Snapshot) : Sb D :=
  match findSnap sb tag with
  | none => sb
  | some slot => { sb with image := { sb.image with
      snaplist := Function.update sb.image.snaplist slot (f (sb.image.snaplist slot)) } }

/-- `PRIORITY`. -/
def setPriority (sb : Sb D) (tag : Nat) (prio : Int) : Sb D := modifySnap sb tag fun snap => { snap with prio := prio }

/-- The write of a client to a chunk that it was granted. -/
def clientWrite (sb : Sb D) (device : Device) (chunk : Nat) (content : D) : Sb D :=
  { sb with dev := Function.update sb.dev device (Function.update (sb.dev device) chunk (.data content)) }

end Ddsnap
