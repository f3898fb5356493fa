import Mathlib.Algebra.Group.Int.Defs
import Mathlib.Algebra.GroupWithZero.Nat
import Mathlib.Data.List.Basic
import Mathlib.Logic.Function.Basic

/-!
# The data of a snapshot store

The structures of `ddsnapd.c` and `buffer.h`: exceptions, leaves and index nodes of the exception tree, commit
blocks, the superblock image and the server's in-memory superblock with the buffer cache and the devices.

Metadata blocks are addressed by block number: the `sector` fields of the source hold the block number shifted by
`chunk_sectors_bits`, and every metadata access is aligned, so the shift is left out.  The journal is addressed by
journal position (`journal_sector` places position `i` inside the reserved area).  A block carries its decoded
content, and the contents of client data chunks are an arbitrary type `D`.
-/

namespace Ddsnap

/-- The difference of two 64-bit numbers. -/
def diff64 (a b : Nat) : Nat := (a + 2 ^ 64 - b) % 2 ^ 64

theorem diff64_eq {a b : Nat} (ha : a < 2 ^ 64) (h : b ≤ a) : diff64 a b = a - b := by
  rw [diff64]
  omega

/-- A share mask (`u64`): bit `i` stands for the snapshot with the internal number `i`. -/
abbrev Mask := BitVec 64

/-- `1ULL << bit`. -/
def maskBit (bit : Nat) : Mask := 1#64 <<< bit

/-! ### Leaves and index nodes -/

/-- `struct exception`: a chunk of the snapshot store and the snapshots that share it. -/
structure Exception where
  share : Mask
  chunk : Nat
  deriving DecidableEq, Repr

/-- `struct etree_map` with the exceptions between its offset and the offset of the next map entry. -/
structure EtreeMap where
  rchunk : Nat
  exceptions : List Exception
  deriving DecidableEq, Repr

/-- `struct eleaf`.  `count` is the length of the map; `sentinel` is the offset of the phantom map entry after the
last one, the size of the block. -/
structure Eleaf where
  baseChunk : Nat
  map : List EtreeMap
  sentinel : Nat
  deriving DecidableEq, Repr

/-- `struct index_entry`. -/
structure IndexEntry where
  key : Nat
  sector : Nat
  deriving DecidableEq, Repr

/-- `struct alloc_range`. -/
structure AllocRange where
  chunk : Nat
  count : Nat
  barrier : Bool
  deriving DecidableEq, Repr

/-- `struct commit_block`, without its magic.  `entries` is the length of the sector list. -/
structure CommitBlock where
  checksum : Nat
  sequence : Nat
  snapfree : Nat
  metafree : Nat
  alloc : AllocRange
  sector : List Nat
  deriving DecidableEq, Repr

/-- The content of a block of a device: an index node, a leaf, a bitmap block, a block that starts with the commit
magic, or client data. -/
inductive Block (D : Type) where
  | node (entries : List IndexEntry)
  | leaf (leaf : Eleaf)
  | bitmap (bits : Nat → Bool)
  | commit (commit : CommitBlock)
  | data (content : D)

/-! ### The superblock -/

/-- `struct snapshot`, an entry of the snapshot list. -/
structure Snapshot where
  tag : Nat
  usecount : Nat
  bit : Nat
  prio : Int
  sectors : Nat
  deriving DecidableEq, Repr

def maxSnapshots : Nat := 64

/-- `SNAPSHOT_SQUASHED`, the bit number of a squashed snapshot. -/
def snapshotSquashed : Nat := maxSnapshots

def isSquashed (snap : Snapshot) : Bool := snap.bit = snapshotSquashed

/-- `struct allocspace_img`. -/
structure AllocspaceImg where
  bitmapBase : Nat
  chunks : Nat
  freechunks : Nat
  lastAlloc : Nat
  bitmapBlocks : Nat
  allocsizeBits : Nat
  deriving DecidableEq, Repr

/-- `struct disksuper`.  The snapshot list is the array of all its slots: those from `snapshots` on are stale. -/
structure Disksuper where
  etreeRoot : Nat
  etreeLevels : Nat
  orgsectors : Nat
  snaplist : Nat → Snapshot
  snapshots : Nat
  journalNext : Nat
  journalSize : Nat
  sequence : Nat
  metadata : AllocspaceImg
  snapdata : AllocspaceImg

/-- The devices of a store.  On a combined store `snapdev` is not used, see `Sb.snapdev`. -/
inductive Device where
  | orgdev
  | snapdev
  | metadev
  deriving DecidableEq, Repr

/-- The two allocation spaces. -/
inductive Space where
  | metadata
  | snapdata
  deriving DecidableEq, Repr

/-- What a restart finds when the machine stops right after a commit block was written: the last committed content
of every metadata block, the superblock on disk, and the server's own superblock, deferred ranges and pending copies at
that moment. -/
structure CommitPoint (D : Type) where
  blocks : Nat → Block D
  diskSuper : Disksuper
  image : Disksuper
  deferred : List AllocRange
  copyChunks : Nat

/-- `struct superblock`, with the buffer cache (`mem` is the content seen through the cache), the devices, and the
record of all commits so far. -/
structure Sb (D : Type) where
  image : Disksuper
  snapmask : Mask
  deferring : Bool
  sbDirty : Bool
  allocPerNode : Nat
  maxCommitBlocks : Nat
  copybufChunks : Nat
  sourceChunk : Nat
  destException : Nat
  copyChunks : Nat
  usecount : Nat → Nat
  deferredAlloc : List AllocRange
  defer : AllocRange
  mem : Nat → Block D
  dirtyBuffers : List Nat
  journaledBuffers : List Nat
  dev : Device → Nat → Block D
  journal : Nat → Block D
  diskSuper : Disksuper
  committed : Nat → Block D
  commits : List (CommitPoint D)

variable {D : Type}

/-- `combined`: the snapshot data share the space of the metadata. -/
def Sb.combined (sb : Sb D) : Bool := sb.image.snapdata.chunks = 0

/-- The device of the snapshot data. -/
def Sb.snapdev (sb : Sb D) : Device := if sb.combined then .metadev else .snapdev

/-- `as->asi`: the snapshot data of a combined store are accounted in the metadata space. -/
def Sb.asi (sb : Sb D) : Space → AllocspaceImg
  | .metadata => sb.image.metadata
  | .snapdata => if sb.combined then sb.image.metadata else sb.image.snapdata

/-- An assignment through `as->asi`. -/
def Sb.setAsi (sb : Sb D) (as : Space) (asi : AllocspaceImg) : Sb D :=
  match as with
  | .metadata => { sb with image := { sb.image with metadata := asi } }
  | .snapdata =>
    if sb.combined then { sb with image := { sb.image with metadata := asi } }
    else { sb with image := { sb.image with snapdata := asi } }

/-- `metadata.allocsize`, the size of a metadata block in bytes. -/
def Sb.allocsize (sb : Sb D) : Nat := 2 ^ sb.image.metadata.allocsizeBits

def calcSnapmask (image : Disksuper) : Mask :=
  (List.range image.snapshots).foldl (fun mask i =>
    if isSquashed (image.snaplist i) then mask else mask ||| maskBit (image.snaplist i).bit) 0

def setSbDirty (sb : Sb D) : Sb D := { sb with sbDirty := true }

def saveSb (sb : Sb D) : Sb D :=
  if sb.sbDirty then { sb with diskSuper := sb.image, sbDirty := false } else sb

end Ddsnap
