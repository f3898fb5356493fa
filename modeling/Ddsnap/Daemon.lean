import Ddsnap.Locks
import Ddsnap.Server

/-!
# The daemon: clients and their messages

The loop of `snap_server` takes one event at a time: a new connection, a message of a client (`incoming`), or the end of
a connection.  The handlers of the messages work on the store through the functions of `Server` and on the read locks
through those of `Locks`.

The kernel and the allocator choose the socket and the address of a new client; the address is not that of another
client that is still connected.  A message that is too short or too long ends the connection.  The messages of the
agent, and those that only report, are left out.
-/

namespace Ddsnap

variable {D : Type}

/-- The daemon.  The numbers of the connections and of the origin writes so far are not in the source. -/
structure Daemon (D : Type) where
  sb : Sb D
  orgoffset : Nat
  locks : Locks
  clientvec : List Client
  connections : Nat
  writes : Nat

/-- The tag that stands for the origin, `(u32)~0UL`. -/
def originTag : Nat := 2 ^ 32 - 1

def maxclients : Nat := 100

/-! ### `QUERY_WRITE` -/

/-- The loop of an origin `QUERY_WRITE`: whether all copies succeeded. -/
def queryChunks (write : Nat) : Sb D → Locks → List Nat → Option (Bool × Sb D × Locks)
  | sb, locks, [] => some (true, sb, locks)
  | sb, locks, chunk :: chunks => do
    let (exception, sb) ← makeUnique sb chunk none
    let locks := if exception.isSome then waitforChunk locks chunk write else locks
    let (ok, sb, locks) ← queryChunks write sb locks chunks
    return (exception.isSome && ok, sb, locks)

/-- The end of an origin `QUERY_WRITE`: the write is left pending, or answered at once. -/
def finishWrite (locks : Locks) (client : Client) (write : Nat) (message : WriteReply) : Locks :=
  match locks.pendings write with
  | some pending =>
    let pending := ⟨pending.holdcount - 1, client.address, client.connection, message⟩
    { locks with pendings := Function.update locks.pendings write (some pending) }
  | none => { locks with replies := locks.replies ++ [⟨write, some client, client.connection, message⟩] }

/-- `QUERY_WRITE` of an origin client. -/
def Daemon.originQuery (d : Daemon D) (client : Client) (id : Nat) (ranges : List (Nat × Nat)) : Option (Daemon D) := do
  let (ok, sb, locks) ← queryChunks d.writes d.sb d.locks (rangeChunks ranges)
  let sb ← commitTransaction (finishCopyout sb) false
  return { d with sb := sb, locks := finishWrite locks client d.writes ⟨ok, id, ranges⟩, writes := d.writes + 1 }

def Daemon.queryWrite (d : Daemon D) (client : Client) (id : Nat) (ranges : List (Nat × Nat)) : Option (Daemon D) :=
  if client.snaptag = originTag then d.originQuery client id ranges
  else (snapshotWrite d.sb client.snaptag ranges).map fun (_, sb) => { d with sb := sb }

/-! ### Snapshot reads -/

/-- The answer to a snapshot read: the chunks of the `SNAPSHOT_READ_ERROR` and `SNAPSHOT_READ_ORIGIN_OK` messages, and
those of the `SNAPSHOT_READ_OK` message with their chunks of the store. -/
structure ReadReply where
  error : List Nat
  org : List Nat
  snap : List (Nat × Nat)
  deriving DecidableEq, Repr

/-- The `exception` of the read loop, 0 when `test_unique` does not set it. -/
def readException (sb : Sb D) (bit chunk : Nat) : Nat := ((testUnique sb chunk (some bit)).bind Prod.snd).getD 0

/-- The loop of `QUERY_SNAPSHOT_READ`. -/
def readChunks (sb : Sb D) (bit client : Nat) : Snaplocks → List Nat → ReadReply × Snaplocks
  | snaplocks, [] => (⟨[], [], []⟩, snaplocks)
  | snaplocks, chunk :: chunks =>
    let exception := readException sb bit chunk
    if exception ≠ 0 then
      let (reply, snaplocks) := readChunks sb bit client snaplocks chunks
      ({ reply with snap := (chunk, exception) :: reply.snap }, snaplocks)
    else
      let (reply, snaplocks) := readChunks sb bit client (readlockChunk snaplocks chunk client) chunks
      ({ reply with org := chunk :: reply.org }, snaplocks)

/-- `QUERY_SNAPSHOT_READ`.  `none` stands for the assertion of `client_snap`. -/
def Daemon.snapshotRead (d : Daemon D) (client : Client) (ranges : List (Nat × Nat)) :
    Option (ReadReply × Daemon D) := do
  let slot ← findSnap d.sb client.snaptag
  let snapshot := d.sb.image.snaplist slot
  if isSquashed snapshot then return (⟨rangeChunks ranges, [], []⟩, d)
  else
    let (reply, snaplocks) := readChunks d.sb snapshot.bit client.address d.locks.snaplocks (rangeChunks ranges)
    return (reply, { d with locks := { d.locks with snaplocks := snaplocks } })

/-- `FINISH_SNAPSHOT_READ`. -/
def Daemon.finishRead (d : Daemon D) (client : Client) (ranges : List (Nat × Nat)) : Option (Daemon D) := do
  let locks ← (rangeChunks ranges).foldlM (fun locks => releaseChunk d.clientvec locks client.address) d.locks
  return { d with locks := locks }

/-! ### `IDENTIFY` and the use counts -/

/-- The errors of `IDENTIFY`. -/
inductive IdentifyError where
  | invalidSnapshot
  | usecount
  | sizeMismatch
  | offsetMismatch
  deriving DecidableEq, Repr

/-- The checks of `IDENTIFY` before the client is counted: the snapshot of the tag. -/
def identifySnap (sb : Sb D) (tag : Nat) : Except (IdentifyError × String) Snapshot :=
  match findSnap sb tag with
  | none => .error (.invalidSnapshot, s!"Snapshot tag {tag} is not valid")
  | some slot =>
    let snapshot := sb.image.snaplist slot
    if isSquashed snapshot then .error (.invalidSnapshot, s!"Snapshot tag {tag} is not valid")
    else if (usecount sb snapshot + 1) / 2 ^ 16 ≠ 0 then .error (.usecount, "Usecount overflow.")
    else .ok snapshot

/-- The client is counted in the transient use count of its snapshot. -/
def countClient (sb : Sb D) (snapshot : Snapshot) : Sb D :=
  { sb with usecount := Function.update sb.usecount snapshot.bit ((sb.usecount snapshot.bit + 1) % 2 ^ 16) }

/-- The checks of `IDENTIFY` after it: the chunk size of the `IDENTIFY_OK` message. -/
def identifySize (d : Daemon D) (tag off len sectors : Nat) : Except (IdentifyError × String) Nat :=
  if len ≠ sectors then .error (.sizeMismatch, s!"volume size mismatch for snapshot {tag}")
  else if off ≠ d.orgoffset then .error (.offsetMismatch, s!"volume offset mismatch for snapshot {tag}")
  else .ok (d.sb.asi .snapdata).allocsizeBits

/-- The record of a client is changed in place. -/
def modifyClient (clientvec : List Client) (address : Nat) (f : Client → Client) : List Client :=
  clientvec.map fun client => if client.address = address then f client else client

/-- `IDENTIFY`. -/
def Daemon.identifyClient (d : Daemon D) (client : Client) (tag off len : Nat) :
    Except (IdentifyError × String) Nat × Daemon D :=
  let d := { d with clientvec := modifyClient d.clientvec client.address fun c => { c with snaptag := tag } }
  if tag = originTag then (identifySize d tag off len d.sb.image.orgsectors, d)
  else
    match identifySnap d.sb tag with
    | .error e => (.error e, d)
    | .ok snapshot =>
      let d := { d with
        clientvec := modifyClient d.clientvec client.address fun c => { c with snapclient := true }
        sb := countClient d.sb snapshot }
      (identifySize d tag off len snapshot.sectors, d)

/-- `USECOUNT`: the persistent use count of a snapshot is changed. -/
def changeUsecount (sb : Sb D) (tag : Nat) (dev : Int) : Sb D :=
  if tag = originTag then sb
  else
    match findSnap sb tag with
    | none => sb
    | some slot =>
      let snapshot := sb.image.snaplist slot
      if 0 ≤ dev ∧ 2 ^ 16 ≤ usecount sb snapshot + dev then sb
      else if dev < 0 ∧ snapshot.usecount + dev < 0 then sb
      else
        let snapshot := { snapshot with usecount := (snapshot.usecount + dev).toNat % 2 ^ 16 }
        { sb with image := { sb.image with snaplist := Function.update sb.image.snaplist slot snapshot } }

/-! ### Events -/

/-- The messages of a client. -/
inductive Message where
  | queryWrite (id : Nat) (ranges : List (Nat × Nat))
  | querySnapshotRead (ranges : List (Nat × Nat))
  | finishSnapshotRead (ranges : List (Nat × Nat))
  | identify (tag off len : Nat)
  | uploadLock
  | createSnapshot (tag : Nat)
  | deleteSnapshot (tag : Nat)
  | priority (tag : Nat) (prio : Int)
  | usecount (tag : Nat) (dev : Int)
  deriving DecidableEq, Repr

/-- What the daemon waits for. -/
inductive Event where
  | connect (address sock : Nat)
  | message (address : Nat) (message : Message)
  | disconnect (address : Nat)
  deriving DecidableEq, Repr

def Daemon.incoming (d : Daemon D) (client : Client) : Message → Option (Daemon D)
  | .queryWrite id ranges => d.queryWrite client id ranges
  | .querySnapshotRead ranges => (d.snapshotRead client ranges).map Prod.snd
  | .finishSnapshotRead ranges => d.finishRead client ranges
  | .identify tag off len => some (d.identifyClient client tag off len).2
  | .uploadLock => some d
  | .createSnapshot tag => (createMessage d.sb tag).map fun sb => { d with sb := sb }
  | .deleteSnapshot tag => (deleteMessage d.sb tag).map fun sb => { d with sb := sb }
  | .priority tag prio => some { d with sb := if tag = originTag then d.sb else setPriority d.sb tag prio }
  | .usecount tag dev => some { d with sb := changeUsecount d.sb tag dev }

/-- A new connection.  `none` stands for the assertion on the number of clients. -/
def Daemon.connect (d : Daemon D) (address sock : Nat) : Option (Daemon D) :=
  if d.clientvec.length < maxclients ∧ clientAt d.clientvec address = none then
    some { d with
      clientvec := d.clientvec ++ [⟨address, d.connections, sock, 0, false⟩]
      connections := d.connections + 1 }
  else none

/-- The use count of a disconnecting snapshot client.  `none` stands for the assertions of `client_snap` and on the
count. -/
def dropUsecount (sb : Sb D) (tag : Nat) : Option (Sb D) := do
  let slot ← findSnap sb tag
  let snapshot := sb.image.snaplist slot
  if isSquashed snapshot then some sb
  else if sb.usecount snapshot.bit = 0 then none
  else some { sb with usecount := Function.update sb.usecount snapshot.bit (sb.usecount snapshot.bit - 1) }

/-- What a disconnecting snapshot client leaves behind is given up. -/
def Daemon.dropClient (d : Daemon D) (client : Client) : Option (Daemon D) := do
  let sb ← dropUsecount d.sb client.snaptag
  let locks ← freeClientLocks d.clientvec d.locks client.address
  return { d with sb := sb, locks := locks }

/-- The end of a connection.  The order of the client vector, which only decides who is polled first, is kept. -/
def Daemon.disconnect (d : Daemon D) (client : Client) : Option (Daemon D) :=
  (if client.snapclient then d.dropClient client else some d).map fun d =>
    { d with clientvec := d.clientvec.filter fun c => c.address ≠ client.address }

/-- One round of `snap_server`. -/
def Daemon.step (d : Daemon D) : Event → Option (Daemon D)
  | .connect address sock => d.connect address sock
  | .message address message => (clientAt d.clientvec address).bind fun client => d.incoming client message
  | .disconnect address => (clientAt d.clientvec address).bind d.disconnect

/-- The daemon before its first event: the locks are empty and nobody is connected. -/
def Daemon.start (sb : Sb D) (orgoffset : Nat) : Daemon D where
  sb := sb
  orgoffset := orgoffset
  locks := ⟨fun _ => [], fun _ => none, []⟩
  clientvec := []
  connections := 0
  writes := 0

/-- The daemon before its first event, on any store. -/
def Daemon.Init (d : Daemon D) : Prop := ∃ sb orgoffset, d = Daemon.start sb orgoffset

/-- The origin write of the daemon is the one of the store. -/
theorem queryChunks_originChunks (write : Nat) (sb : Sb D) (locks : Locks) (chunks : List Nat) :
    (queryChunks write sb locks chunks).map (fun r => (r.1, r.2.1)) = originChunks sb chunks := by
  induction chunks generalizing sb locks with
  | nil => rfl
  | cons chunk chunks ih =>
    unfold queryChunks originChunks
    cases h : makeUnique sb chunk none with
    | none => rfl
    | some r =>
      obtain ⟨exception, sb1⟩ := r
      simp only [Option.bind_eq_bind, Option.bind_some]
      rw [← ih sb1 (if exception.isSome then waitforChunk locks chunk write else locks)]
      cases queryChunks write sb1 _ chunks <;> rfl

/-! ### A small daemon -/

/-- A daemon on a small store that was initialised and started. -/
def tinyDaemon : Daemon Nat :=
  Daemon.start (startServer ((initSnapstore tinyConfig 0 id).getD (tinyConfig.blankStore 0 id)) true) 0

theorem tinyDaemon_init : tinyDaemon.Init := ⟨_, _, rfl⟩

/-- Two clients of a new snapshot and a client of the origin. -/
def sharedEvents : List Event :=
  [.connect 1 3, .connect 2 4, .connect 9 5, .message 9 (.identify originTag 0 0), .message 9 (.createSnapshot 7),
    .message 1 (.identify 7 0 0), .message 2 (.identify 7 0 0)]

end Ddsnap
