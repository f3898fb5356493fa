import Mathlib.Algebra.GroupWithZero.Nat
import Mathlib.Data.List.Basic
import Mathlib.Logic.Function.Basic

/-!
# The journal of the mirror server

The server of the cluster mirror (`ddraid.c`) records in a circular journal which regions of the mirror may be written.
An entry is the number of a region that gets dirty, or that number with the top bit set when the region is clean again.
A block says where the part of the journal begins that counts.  `recover_journal` finds the block written last from the
sequence numbers, and rebuilds the set of the regions that may be out of sync.

The journal is addressed by position (`log2sector` places position `i` on the log device).  The regions are found by
number (`find_region` searches the chain of the number's bucket).
-/

namespace Ddraid

/-- `blocksize_bits`, `journal_size` and `max_entries`. -/
structure Config where
  blocksizeBits : Nat
  journalSize : Nat
  maxEntries : Nat

/-- `struct journal_block`.  `entries` is the length of the entry list. -/
structure JournalBlock where
  checksum : Nat
  sequence : Nat
  oldestBlock : Nat
  oldestEntry : Nat
  highwater : Nat
  entry : List Nat
  deriving DecidableEq, Repr

/-- `entry & cleanmask`. -/
def isClean (entry : Nat) : Bool := entry.testBit 63

/-- The `u32` words of a block. -/
def JournalBlock.words (b : JournalBlock) : List Nat :=
  [b.checksum, b.sequence, b.oldestBlock + 2 ^ 16 * b.oldestEntry, 0, b.highwater % 2 ^ 32, b.highwater / 2 ^ 32,
    b.entry.length] ++ b.entry.flatMap fun e => [e % 2 ^ 32, e / 2 ^ 32]

/-- `checksum_block`: the number of words that are summed up comes from `blocksize_bits`, not from the size of the
block. -/
def checksumBlock (bits : Nat) (b : JournalBlock) : Nat := (b.words.take (bits / 4)).sum % 2 ^ 32

/-- `block->checksum = -checksum_block(block)`, on a block whose checksum was set to 0. -/
def setChecksum (bits : Nat) (b : JournalBlock) : JournalBlock :=
  { b with checksum := (2 ^ 32 - checksumBlock bits { b with checksum := 0 }) % 2 ^ 32 }

def emptyBlock (bits sequence i : Nat) : JournalBlock :=
  setChecksum bits
    { checksum := 0, sequence := sequence % 2 ^ 32, oldestBlock := i % 2 ^ 16, oldestEntry := 0, highwater := 0,
      entry := [] }

/-- The journal that the `CREATE` program writes. -/
def created (cfg : Config) (i : Nat) : JournalBlock := emptyBlock cfg.blocksizeBits i i

/-! ### Finding the newest block -/

/-- Why `recover_journal` does not succeed: one of its errors, a failed assertion, or a walk that leaves the journal. -/
inductive Failure where
  | tooManyBad
  | badNotLast
  | outOfSequence
  | multipleWraps
  | assertion
  | outside
  deriving DecidableEq, Repr

/-- The value `-1` of a `u32`: no sequence number yet. -/
def noSequence : Nat := 2 ^ 32 - 1

/-- The variables of the scan; `none` stands for `-1`. -/
structure Scan where
  sequence : Nat
  scribbled : Option Nat
  newestBlock : Option Nat
  deriving DecidableEq, Repr

def Scan.start : Scan := { sequence := noSequence, scribbled := none, newestBlock := none }

/-- The value `i - k` of an `int` variable of the scan. -/
def before (i k : Nat) : Option Nat := if k ≤ i then some (i - k) else none

/-- The body of the scan for the block `i`. -/
def scanBlock (cfg : Config) (st : Scan) (i : Nat) (block : JournalBlock) : Except Failure Scan :=
  if checksumBlock cfg.blocksizeBits block ≠ 0 then
    if st.scribbled ≠ none then .error .tooManyBad
    else if st.newestBlock ≠ none ∧ st.newestBlock ≠ before i 1 then .error .badNotLast
    else .ok { st with
      scribbled := some i
      sequence := if st.sequence ≠ noSequence then (st.sequence + 1) % 2 ^ 32 else st.sequence }
  else if st.sequence ≠ noSequence ∧ block.sequence ≠ (st.sequence + 1) % 2 ^ 32 then
    if block.sequence ≠ (st.sequence + 1 + 2 ^ 32 - cfg.journalSize) % 2 ^ 32 then .error .outOfSequence
    else if st.newestBlock ≠ none then .error .multipleWraps
    else
      match st.scribbled with
      | none => .ok { st with newestBlock := before i 1, sequence := block.sequence }
      | some k =>
        if some k ≠ before i 1 then .error .badNotLast
        else .ok { st with newestBlock := before i 2, sequence := block.sequence }
  else .ok { st with sequence := block.sequence }

/-- The scan of the first `i` blocks. -/
def scanFirst (cfg : Config) (disk : Nat → JournalBlock) (i : Nat) : Except Failure Scan :=
  (List.range i).foldlM (fun st i => scanBlock cfg st i (disk i)) Scan.start

/-- The newest block when the scan has ended. -/
def selectNewest (cfg : Config) (st : Scan) : Except Failure Nat :=
  match st.newestBlock with
  | some newest => .ok newest
  | none =>
    if st.scribbled = none ∨ st.scribbled = some 0 then .ok (cfg.journalSize - 1)
    else if st.scribbled ≠ some (cfg.journalSize - 1) then .error .badNotLast
    else .ok (cfg.journalSize - 2)

/-! ### Rebuilding the unsynced regions -/

/-- `struct region`, with its two flags. -/
structure Region where
  count : Nat
  unsynced : Bool
  deferClean : Bool
  dirtiedBlock : Nat
  dirtiedEntry : Nat
  deriving DecidableEq, Repr

/-- The region that `add_region` makes. -/
def newRegion : Region := { count := 0, unsynced := false, deferClean := false, dirtiedBlock := 0, dirtiedEntry := 0 }

/-- One entry is loaded. -/
def loadEntry (hash : Nat → Option Region) (raw : Nat) : Nat → Option Region :=
  let regnum := raw % 2 ^ 63
  if isClean raw then Function.update hash regnum none
  else if hash regnum = none then Function.update hash regnum (some newRegion)
  else hash

/-- The loop that loads the entries from the head of the journal on, with a bound on the number of blocks.  `oldbuf` is
the block that was read, `oldest_block` the counter of the loop. -/
def loadBlocks (cfg : Config) (disk : Nat → JournalBlock) (newestBlock : Nat) :
    Nat → Nat → Nat → Nat → (Nat → Option Region) → Except Failure (Nat → Option Region)
  | 0, _, _, _, _ => .error .outside
  | bound + 1, oldbuf, oldestBlock, oldestEntry, hash =>
    if cfg.journalSize ≤ oldbuf then .error .outside
    else
      let hash := ((disk oldbuf).entry.drop oldestEntry).foldl loadEntry hash
      if oldestBlock = newestBlock then .ok hash
      else
        let next := if oldestBlock + 1 = cfg.journalSize then 0 else oldestBlock + 1
        loadBlocks cfg disk newestBlock bound next next 0 hash

/-- What `recover_journal` finds, and the journal that it leaves. -/
structure Recovery where
  newestBlock : Nat
  scribbled : Option Nat
  disk : Nat → JournalBlock
  oldbuf : Nat
  hash : Nat → Option Region

/-- The regions of the `unsync` vector. -/
def Recovery.Unsynced (r : Recovery) (regnum : Nat) : Prop := r.hash regnum ≠ none

/-- The journal after the final commit was rewritten, if it was a scribble. -/
def rewriteScribbled (cfg : Config) (disk : Nat → JournalBlock) (newestBlock : Nat) :
    Option Nat → Nat → JournalBlock
  | none => disk
  | some k => Function.update disk k
      (emptyBlock cfg.blocksizeBits ((disk newestBlock).sequence + 2 ^ 32 - cfg.journalSize) k)

/-- What `recover_journal` does when it knows the newest block: the scribble is rewritten, and the entries are loaded. -/
def rebuild (cfg : Config) (disk : Nat → JournalBlock) (newestBlock : Nat) (scribbled : Option Nat) :
    Except Failure Recovery := do
  let newest := disk newestBlock
  let disk' := rewriteScribbled cfg disk newestBlock scribbled
  let oldbuf := (disk' newestBlock).oldestBlock
  let hash ← loadBlocks cfg disk' newestBlock cfg.journalSize oldbuf newest.oldestBlock newest.oldestEntry
    fun _ => none
  .ok ⟨newestBlock, scribbled, disk', oldbuf, fun r => (hash r).map fun region => { region with unsynced := true }⟩

/-- `recover_journal` up to the extraction of the dirty region list.  A journal of no blocks has no newest block. -/
def recoverJournal (cfg : Config) (disk : Nat → JournalBlock) : Except Failure Recovery := do
  let st ← scanFirst cfg disk cfg.journalSize
  let newestBlock ← selectNewest cfg st
  if cfg.journalSize = 0 then .error .outside
  else if st.scribbled ≠ none ∧ st.scribbled ≠ some ((newestBlock + 1) % cfg.journalSize) then .error .assertion
  else rebuild cfg disk newestBlock st.scribbled

end Ddraid
