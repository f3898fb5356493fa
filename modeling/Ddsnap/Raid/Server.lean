import Ddsnap.Raid.Journal

/-!
# The head of the journal of the mirror server

The server of `ddraid.c` between two recoveries, as far as it writes its journal.  The block that is being filled is in
memory (`newbuf`); it gets its checksum when it is written, the grants that waited for it are sent, and the next block
takes over the position of the oldest block and entry.  The entries of the block come from the requests and the releases
of the clients, whatever they are: the results about the journal hold for all of them.

What the server does to the outside is recorded in a trace: the blocks that it writes and the messages that it sends, in
this order.  A crash cuts the trace at any point.
-/

namespace Ddraid

/-- What the server does, and the releases that it gets. -/
inductive Action where
  | write (pos : Nat) (block : JournalBlock)
  | grant (sock : Nat) (synced : Bool) (regnum : Nat)
  | bounce (sock regnum : Nat)
  | pause
  | resume
  | release (sock regnum : Nat)

/-- `struct superblock`.  `disk` is the journal, `oldbuf` the position of the oldest block, `grant` the grants that wait
for the next commit, and `trace` what was done so far. -/
structure Sb where
  disk : Nat → JournalBlock
  hash : Nat → Option Region
  oldbuf : Nat
  newbuf : JournalBlock
  newestBlock : Nat
  highwater : Nat
  deferredClean : List Nat
  grant : List (Nat × Nat)
  stuck : Bool
  trace : List Action

/-- The messages of the server are sent one after the other. -/
def Sb.send (sb : Sb) (actions : List Action) : Sb := { sb with trace := sb.trace ++ actions }

/-! ### The head of the journal -/

def retireOldBlock (cfg : Config) (sb : Sb) : Sb :=
  let next := (sb.newbuf.oldestBlock + 1) % 2 ^ 16
  let next := if next = cfg.journalSize then 0 else next
  { sb with newbuf := { sb.newbuf with oldestEntry := 0, oldestBlock := next }, oldbuf := next }

/-! ### Commits -/

/-- `GRANT_SYNCED` is sent for a region below the highwater mark that is not unsynced. -/
def grantReply (sb : Sb) (regnum : Nat) : Bool :=
  regnum < sb.highwater && ((sb.hash regnum).map fun region => !region.unsynced).getD false

def sendGrants (sb : Sb) : Sb :=
  { sb.send (sb.grant.map fun g => .grant g.1 (grantReply sb g.2) g.2) with grant := [] }

/-- The commit of `advance_new_block`: the block in memory gets its checksum, it is written, and the grants are sent. -/
def writeNewest (cfg : Config) (sb : Sb) : Sb :=
  let block := setChecksum cfg.blocksizeBits sb.newbuf
  sendGrants ({ sb with newbuf := block, disk := Function.update sb.disk sb.newestBlock block }.send
    [.write sb.newestBlock block])

/-- `advance_new_block`.  Where the journal is full, `retire_old_block` works on the block that was just written: only
the new `oldbuf` lasts, and the new block keeps the old head. -/
def advanceNewBlock (cfg : Config) (sb : Sb) (commit : Bool) : Sb :=
  let newest := sb.newbuf
  let sb := if commit then writeNewest cfg sb else sb
  let next := if sb.newestBlock + 1 = cfg.journalSize then 0 else sb.newestBlock + 1
  { sb with
    newestBlock := next
    oldbuf := if newest.oldestBlock = next then (retireOldBlock cfg sb).oldbuf else sb.oldbuf
    newbuf :=
      { checksum := 0, sequence := (newest.sequence + 1) % 2 ^ 32, oldestBlock := newest.oldestBlock,
        oldestEntry := newest.oldestEntry, highwater := 0, entry := [] } }

/-- The server after `recover_journal`. -/
def Recovery.server (cfg : Config) (r : Recovery) : Sb :=
  advanceNewBlock cfg
    { disk := r.disk, hash := r.hash, oldbuf := r.oldbuf, newbuf := r.disk r.newestBlock, newestBlock := r.newestBlock,
      highwater := (r.disk r.newestBlock).highwater, deferredClean := [], grant := [], stuck := false, trace := [] }
    false

/-- The server that is started on a journal. -/
def startServer (cfg : Config) (disk : Nat → JournalBlock) : Except Failure Sb :=
  (recoverJournal cfg disk).map (Recovery.server cfg)

end Ddraid
