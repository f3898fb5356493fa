import Mathlib.Algebra.GroupWithZero.Nat
import Mathlib.Logic.Function.Basic
import Mathlib.Data.List.Basic

/-!
# Read locks

A snapshot client that is told to read a chunk from the origin holds a lock on it, and an origin write to that chunk is
only answered when the last hold is gone.  The locks are kept in the chains of a hash table; a lock has a list of holds
and a list of wait records, and a wait record points to a pending write.

Client records are pointed to by their addresses, so that a pointer may outlive its record and then find nothing, or the
record of another client.  A pending write is numbered by the write it belongs to, and is gone after its reply.  The
number of the connection in a client record and the sender of a pending write are not in the source: they tell to whom
a reply is due.
-/

namespace Ddsnap

/-! ### Clients and pending writes -/

/-- A record of the client vector, at its address. -/
structure Client where
  address : Nat
  connection : Nat
  sock : Nat
  snaptag : Nat
  /-- `SNAPCLIENT_BIT` of the flags. -/
  snapclient : Bool
  deriving DecidableEq, Repr

/-- The record that a pointer finds. -/
def clientAt (clientvec : List Client) (address : Nat) : Option Client :=
  clientvec.find? fun client => client.address = address

/-- The reply to an origin `QUERY_WRITE`: the request with `ORIGIN_WRITE_OK` or `ORIGIN_WRITE_ERROR` as its code. -/
structure WriteReply where
  ok : Bool
  id : Nat
  ranges : List (Nat × Nat)
  deriving DecidableEq, Repr

/-- `struct pending`. -/
structure PendingWrite where
  holdcount : Nat
  client : Nat
  sender : Nat
  message : WriteReply
  deriving DecidableEq, Repr

/-- A reply to an origin write: the number of the write, the record behind the pointer to the client, and the
connection of the sender. -/
structure Reply where
  write : Nat
  client : Option Client
  sender : Nat
  message : WriteReply
  deriving DecidableEq, Repr

/-! ### The lock table -/

/-- `struct snaplock`: the holds are the addresses of client records, the wait records the numbers of pending writes. -/
structure Snaplock where
  chunk : Nat
  holdlist : List Nat
  waitlist : List Nat
  deriving DecidableEq, Repr

/-- The chains of the hash table. -/
abbrev Snaplocks := Nat → List Snaplock

def snaplockHashBits : Nat := 8

def snaplockHash (chunk : Nat) : Nat := chunk * 3498734713 % 2 ^ 32 / 2 ^ (32 - snaplockHashBits)

def findSnaplock (list : List Snaplock) (chunk : Nat) : Option Snaplock := list.find? fun lock => lock.chunk = chunk

/-- The lock that `find_snaplock` finds is changed in place. -/
def modifySnaplock (chunk : Nat) (f : Snaplock → Snaplock) : List Snaplock → List Snaplock
  | [] => []
  | lock :: next => if lock.chunk = chunk then f lock :: next else lock :: modifySnaplock chunk f next

def readlockChunk (snaplocks : Snaplocks) (chunk client : Nat) : Snaplocks :=
  let bucket := snaplocks (snaplockHash chunk)
  let bucket := if findSnaplock bucket chunk = none then ⟨chunk, [], []⟩ :: bucket else bucket
  Function.update snaplocks (snaplockHash chunk)
    (modifySnaplock chunk (fun lock => { lock with holdlist := client :: lock.holdlist }) bucket)

/-- `release_lock` on a lock and the rest of its chain: the chain at the pointer that it returns, and the wait records
that it releases.  The pointer is null for a client that does not hold the lock. -/
def releaseLock (lock : Snaplock) (next : List Snaplock) (client : Nat) : List Snaplock × List Nat :=
  if client ∉ lock.holdlist then ([], [])
  else if lock.holdlist.erase client ≠ [] then ({ lock with holdlist := lock.holdlist.erase client } :: next, [])
  else (next, lock.waitlist)

/-- `release_chunk` on a chain: what `release_lock` returns is stored in the pointer to the lock. -/
def releaseChain (chunk client : Nat) : List Snaplock → List Snaplock × List Nat
  | [] => ([], [])
  | lock :: next =>
    if lock.chunk = chunk then releaseLock lock next client
    else ((lock :: (releaseChain chunk client next).1), (releaseChain chunk client next).2)

/-- The loop of `client_locks` on a chain, with a bound on the number of its rounds. -/
def clientChain (client : Nat) : Nat → List Snaplock → List Snaplock × List Nat
  | 0, chain => (chain, [])
  | _ + 1, [] => ([], [])
  | rounds + 1, lock :: next =>
    if client ∈ lock.holdlist then
      let (ret, released) := releaseLock lock next client
      let (chain, others) := clientChain client rounds ret
      (chain, released ++ others)
    else
      let (chain, released) := clientChain client rounds next
      (lock :: chain, released)

/-- Every round of `client_locks` moves on in the chain or frees a hold. -/
def clientRounds (chain : List Snaplock) : Nat := (chain.map fun lock => lock.holdlist.length + 1).sum

/-! ### Pending writes -/

/-- The lock table, the pending writes and the replies sent so far. -/
structure Locks where
  snaplocks : Snaplocks
  pendings : Nat → Option PendingWrite
  replies : List Reply

/-- `waitfor_chunk`, for the write with a number.  Its pending structure starts with a hold of its own. -/
def waitforChunk (locks : Locks) (chunk write : Nat) : Locks :=
  let bucket := locks.snaplocks (snaplockHash chunk)
  if findSnaplock bucket chunk = none then locks
  else
    let pending := (locks.pendings write).getD ⟨1, 0, 0, ⟨false, 0, []⟩⟩
    { locks with
      snaplocks := Function.update locks.snaplocks (snaplockHash chunk)
        (modifySnaplock chunk (fun lock => { lock with waitlist := write :: lock.waitlist }) bucket)
      pendings := Function.update locks.pendings write (some { pending with holdcount := pending.holdcount + 1 }) }

/-- The release of a wait record in `release_lock`: the write is answered when its last hold is gone.  `none` stands
for the assertion on the hold count, and for a pointer to a pending write that was freed. -/
def releaseWait (clientvec : List Client) (locks : Locks) (write : Nat) : Option Locks := do
  let pending ← locks.pendings write
  if pending.holdcount = 0 then none
  else if pending.holdcount - 1 = 0 then
    some { locks with
      pendings := Function.update locks.pendings write none
      replies := locks.replies ++ [⟨write, clientAt clientvec pending.client, pending.sender, pending.message⟩] }
  else
    some { locks with
      pendings := Function.update locks.pendings write (some { pending with holdcount := pending.holdcount - 1 }) }

def releaseChunk (clientvec : List Client) (locks : Locks) (client chunk : Nat) : Option Locks :=
  let (chain, released) := releaseChain chunk client (locks.snaplocks (snaplockHash chunk))
  released.foldlM (releaseWait clientvec)
    { locks with snaplocks := Function.update locks.snaplocks (snaplockHash chunk) chain }

/-- The locks of a client in one chain are freed. -/
def freeChain (clientvec : List Client) (client : Nat) (locks : Locks) (i : Nat) : Option Locks :=
  let (chain, released) := clientChain client (clientRounds (locks.snaplocks i)) (locks.snaplocks i)
  released.foldlM (releaseWait clientvec) { locks with snaplocks := Function.update locks.snaplocks i chain }

def freeClientLocks (clientvec : List Client) (locks : Locks) (client : Nat) : Option Locks :=
  (List.range (2 ^ snaplockHashBits)).foldlM (freeChain clientvec client) locks

end Ddsnap
