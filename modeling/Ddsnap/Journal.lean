import Ddsnap.Bitmap

/-!
# The journal

`commit_transaction` and `replay_journal`.  The journal is a circular array of blocks.  A transaction is the list of
the dirty blocks followed by a commit block that names their home positions; a replay scans the array for commit
blocks, finds the newest one by the gap in the sequence numbers, picks up the deferred allocations and writes the
data blocks of the commits after the last barrier back to their homes.
-/

namespace Ddsnap

variable {D : Type}

/-- The two words of the commit magic, `"MAGICNUM"`. -/
def jmagic : List Nat := [0x4947414d, 0x4d554e43]

/-- The low and the high 32-bit word of a 64-bit number. -/
def words64 (n : Nat) : List Nat := [n % 2 ^ 32, n / 2 ^ 32 % 2 ^ 32]

/-- A commit block as 32-bit words, in the packed layout of `struct commit_block`.  Words after the sector list are
zero. -/
def CommitBlock.words (c : CommitBlock) : List Nat :=
  jmagic ++ [c.checksum, c.sequence, c.sector.length] ++ words64 c.snapfree ++ words64 c.metafree ++
    words64 c.alloc.chunk ++ [c.alloc.barrier.toNat + 2 * c.alloc.count, 0] ++ c.sector.flatMap words64

/-- `checksum_block`: the sum of the first `allocsize_bits >> 2` words. -/
def checksumBlock (bits : Nat) (c : CommitBlock) : Nat := (c.words.take (bits / 4)).sum % 2 ^ 32

/-- `is_commit_block` and `buf2commit`: the commit block that a block starting with the magic is read as. -/
def asCommit : Block D → Option CommitBlock
  | .commit c => some c
  | _ => none

/-! ### Writing -/

/-- `next_journal_block`: the position to write, and the position after it. -/
def nextJournalBlock (sb : Sb D) : Nat × Sb D :=
  (sb.image.journalNext,
    { sb with image := { sb.image with
        journalNext := if sb.image.journalNext + 1 = sb.image.journalSize then 0 else sb.image.journalNext + 1 } })

/-- Blocks are written to the journal, one after the other. -/
def writeJournal (sb : Sb D) : List (Block D) → Sb D
  | [] => sb
  | b :: bs =>
    let (pos, sb1) := nextJournalBlock sb
    writeJournal { sb1 with journal := Function.update sb1.journal pos b } bs

/-- The commit block of the open transaction.  The checksum is taken before the free counts and the deferred range
are filled in. -/
def newCommit (sb : Sb D) (barrier : Bool) : CommitBlock :=
  let c : CommitBlock :=
    { checksum := 0, sequence := sb.image.sequence, snapfree := 0, metafree := 0,
      alloc := { chunk := 0, count := 0, barrier := false }, sector := sb.dirtyBuffers }
  let c := { c with checksum := (2 ^ 32 - checksumBlock sb.image.metadata.allocsizeBits c) % 2 ^ 32 }
  let c := { c with snapfree := sb.image.snapdata.freechunks, metafree := sb.image.metadata.freechunks }
  let c := if sb.defer.count = 0 then c
    else { c with alloc := { chunk := sb.defer.chunk, count := sb.defer.count, barrier := false } }
  if barrier then { c with alloc := { c.alloc with barrier := true } } else c

/-- `commit_transaction` reaches its flush criterion: the journaled buffers and the deferred allocations are flushed
and the commit becomes a barrier. -/
def Sb.mustFlush (sb : Sb D) : Bool :=
  sb.image.journalSize / 2 ≤ sb.deferredAlloc.length ∨ sb.image.journalSize / 2 ≤ sb.journaledBuffers.length

/-- The flush at the start of `commit_transaction`. -/
def flushIfNeeded (sb : Sb D) : Sb D :=
  if sb.mustFlush then flushDeferredAllocs (flushJournaledBuffers sb) else sb

/-- The blocks of the open transaction in the order in which they are written to the journal. -/
def transactionBlocks (sb : Sb D) (barrier : Bool) : List (Block D) :=
  sb.dirtyBuffers.map sb.mem ++ [.commit (newCommit sb barrier)]

/-- The pending deferred range is moved to the ranges that the journal remembers. -/
def pushDefer (sb : Sb D) : Sb D :=
  if sb.defer.count = 0 then sb
  else { sb with
    deferredAlloc := sb.deferredAlloc ++ [{ chunk := sb.defer.chunk, count := sb.defer.count, barrier := false }]
    defer := { sb.defer with count := 0 } }

/-- The commit block is on disk: the content of the dirty buffers is committed. -/
def recordCommit (sb : Sb D) : Sb D :=
  let committed := writeHome sb.committed sb.mem sb.dirtyBuffers
  { sb with
    committed := committed
    commits := { blocks := committed, diskSuper := sb.diskSuper, image := sb.image, deferred := sb.deferredAlloc,
                 copyChunks := sb.copyChunks } :: sb.commits }

/-- After the commit block the dirty buffers are put on the journaled list, or written to their homes when home
writes are not deferred. -/
def retireDirty (sb : Sb D) (barrier : Bool) : Sb D :=
  if sb.deferring ∧ barrier = false then
    { sb with journaledBuffers := sb.journaledBuffers ++ sb.dirtyBuffers, dirtyBuffers := [] }
  else
    { sb with
      dev := Function.update sb.dev .metadev (writeHome (sb.dev .metadev) sb.mem sb.dirtyBuffers)
      dirtyBuffers := [] }

/-- The part of `commit_transaction` after the flush: the dirty blocks and the commit block go to the journal. -/
def logTransaction (sb : Sb D) (barrier : Bool) : Sb D :=
  let sb1 := writeJournal sb (transactionBlocks sb barrier)
  recordCommit (pushDefer { sb1 with
    image := { sb1.image with sequence := (sb1.image.sequence + 1) % 2 ^ 32 } })

/-- `commit_transaction`.  `none` stands for the assertion on the number of entries of a commit block. -/
def commitTransaction (sb : Sb D) (barrier : Bool) : Option (Sb D) :=
  if sb.dirtyBuffers = [] ∧ sb.defer.count = 0 then some sb
  else
    let sb1 := flushIfNeeded sb
    let barrier := barrier || sb.mustFlush
    if sb1.dirtyBuffers.length ≤ sb1.maxCommitBlocks then some (retireDirty (logTransaction sb1 barrier) barrier)
    else none

def commitDeferredAllocs (sb : Sb D) : Option (Sb D) := do
  let sb ← commitTransaction sb false
  commitTransaction (flushJournaledBuffers (flushDeferredAllocs sb)) true

def maxBtreeDirty : Nat := 10

/-- `dirty_buffer_count_check`.  `none` stands for the `abort` on too many dirty buffers. -/
def dirtyBufferCountCheck (sb : Sb D) : Option (Sb D) :=
  if (sb.image.journalSize : Int) - maxBtreeDirty ≤ sb.dirtyBuffers.length then
    if sb.image.journalSize < sb.dirtyBuffers.length then none else commitTransaction sb false
  else some sb

/-! ### Replay -/

/-- The commit blocks of the journal with their positions, in the order of the positions. -/
def scanCommits (journal : Nat → Block D) (jblocks : Nat) : List (Nat × CommitBlock) :=
  (List.range jblocks).filterMap fun i => (asCommit (journal i)).map fun c => (i, c)

/-- The commits `i` whose sequence number is not followed by its successor. -/
def gaps (cs : List (Nat × CommitBlock)) : List Nat :=
  (List.range cs.length).filter fun i =>
    (cs.map fun c => c.2.sequence)[(i + 1) % cs.length]? ≠
      (cs.map fun c => (c.2.sequence + 1) % 2 ^ 32)[i]?

/-- The indices that the loop `do { if (i == commits) i = 0; … } while (i++ != newest)` visits. -/
def visitTo (commits newest : Nat) : Nat → Nat → List Nat
  | 0, _ => []
  | fuel + 1, i =>
    let i := if i = commits then 0 else i
    if i = newest then [i] else i :: visitTo commits newest fuel (i + 1)

/-- The index of the last barrier commit in the order of a list of indices. -/
def lastBarrier (cs : List (Nat × CommitBlock)) (order : List Nat) : Option Nat :=
  order.foldl (fun barrier i =>
    match cs[i]? with
    | some c => if c.2.alloc.barrier then some i else barrier
    | none => barrier) none

/-- The deferred ranges that the commits of a list of indices leave. -/
def recoverDeferred (cs : List (Nat × CommitBlock)) (deferred : List AllocRange) (order : List Nat) :
    List AllocRange :=
  order.foldl (fun deferred i =>
    match cs[i]? with
    | some c =>
      let deferred := if c.2.alloc.barrier then [] else deferred
      if c.2.alloc.count = 0 then deferred
      else deferred ++ [{ chunk := c.2.alloc.chunk, count := c.2.alloc.count, barrier := false }]
    | none => deferred) deferred

/-- Slot `i` of the sector list of a commit block as the replay reads it.  Slots after the list are zero up to the
end of the block; what lies behind the block is not known. -/
def sectorSlot (maxCommitBlocks : Nat) (behind : Nat → Nat) (c : CommitBlock) (i : Nat) : Nat :=
  match c.sector[i]? with
  | some s => s
  | none => if i < maxCommitBlocks then 0 else behind i

/-- The writes that the replay makes for commit `i`: entry `j` of the transaction is read at its journal position and
written to slot `i` of the sector list. -/
def replayCommit (sb : Sb D) (behind : Nat → Nat) (cs : List (Nat × CommitBlock)) (i : Nat) :
    Option (List (Nat × Block D)) :=
  match cs[i]? with
  | none => none
  | some (pos, c) =>
    let entries := c.sector.length
    (List.range entries).mapM fun j =>
      let b := sb.journal ((pos + 2 ^ 32 - entries + j + sb.image.journalSize) % 2 ^ 32 % sb.image.journalSize)
      match asCommit b with
      | some _ => none
      | none => some (sectorSlot sb.maxCommitBlocks behind c i, b)

/-- What `replay_journal` finds: the commits, the newest one and the last barrier. -/
structure JournalScan where
  commits : List (Nat × CommitBlock)
  newest : Nat
  barrier : Option Nat

/-- The scan of `replay_journal`.  `none` stands for a corrupt block, an unexpected gap or a journal without commit
blocks. -/
def scanJournal (sb : Sb D) : Option JournalScan :=
  let cs := scanCommits sb.journal sb.image.journalSize
  if cs.all fun c => checksumBlock sb.image.metadata.allocsizeBits c.2 = 0 then
    match gaps cs with
    | [newest] => some ⟨cs, newest, lastBarrier cs (visitTo cs.length newest (cs.length + 1) (newest + 1))⟩
    | _ => none
  else none

/-- The commits that `replay_journal` writes back. -/
def replayOrder (scan : JournalScan) : List Nat :=
  let start :=
    match scan.barrier with
    | none => scan.newest
    | some barrier => if barrier = scan.newest then scan.newest else barrier + 1
  visitTo scan.commits.length scan.newest (scan.commits.length + 1) start

/-- The block writes of `replay_journal`, in order.  `none` stands for a failed recovery. -/
def replayWrites (sb : Sb D) (behind : Nat → Nat) : Option (List (Nat × Block D)) := do
  let scan ← scanJournal sb
  let writes ← (replayOrder scan).mapM fun i => replayCommit sb behind scan.commits i
  return writes.flatten

/-- Block writes are carried out in order. -/
def applyWrites (dev : Nat → Block D) (writes : List (Nat × Block D)) : Nat → Block D :=
  writes.foldl (fun d w => Function.update d w.1 w.2) dev

/-- `replay_journal`, on the superblock of a restarted server. -/
def replayJournal (sb : Sb D) (behind : Nat → Nat) : Option (Sb D) := do
  let scan ← scanJournal sb
  let writes ← replayWrites sb behind
  let (pos, c) ← scan.commits[scan.newest]?
  let order := visitTo scan.commits.length scan.newest (scan.commits.length + 1) (scan.newest + 1)
  let dev := applyWrites (sb.dev .metadev) writes
  return checkFreespace { sb with
    deferredAlloc := recoverDeferred scan.commits sb.deferredAlloc order
    dev := Function.update sb.dev .metadev dev
    mem := dev
    image := { sb.image with
      journalNext := (pos + 1 + sb.image.journalSize) % sb.image.journalSize
      sequence := (c.sequence + 1) % 2 ^ 32
      snapdata := { sb.image.snapdata with freechunks := c.snapfree }
      metadata := { sb.image.metadata with freechunks := c.metafree } } }

/-- `START_SERVER` up to the replay: the superblock is read from the disk, and nothing else of the old server is
left. -/
def restart (sb : Sb D) : Sb D :=
  { sb with
    image := sb.diskSuper
    snapmask := calcSnapmask sb.diskSuper
    sbDirty := false
    sourceChunk := 0
    destException := 0
    copyChunks := 0
    usecount := fun _ => 0
    deferredAlloc := []
    defer := { chunk := 0, count := 0, barrier := false }
    mem := sb.dev .metadev
    dirtyBuffers := []
    journaledBuffers := [] }

/-- The commit block that `init_journal` puts at position `i`. -/
def initCommit (sb : Sb D) (i : Nat) : CommitBlock :=
  let c : CommitBlock :=
    { checksum := 0, sequence := i, snapfree := sb.image.snapdata.freechunks,
      metafree := sb.image.metadata.freechunks, alloc := { chunk := 0, count := 0, barrier := false }, sector := [] }
  { c with checksum := (2 ^ 32 - checksumBlock sb.image.metadata.allocsizeBits c) % 2 ^ 32 }

/-- `init_journal`: every position holds a commit block, numbered by `next_journal_block`. -/
def initJournal (sb : Sb D) : Sb D :=
  writeJournal sb ((List.range sb.image.journalSize).map fun i => .commit (initCommit sb i))

end Ddsnap
