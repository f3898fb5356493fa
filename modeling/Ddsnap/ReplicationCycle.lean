import Ddsnap.Lib.Reach
import Ddsnap.Resume

/-!
# Replication under interruptions

`replicate_snapshot` sends the upstream snapshots to the downstream host, one after the other.  Which transfer it makes
is decided from four pieces of state on two machines: the hold files of both, the snapshots that still exist, and the
progress file that the downstream host writes while it applies a delta.  The downstream host turns a complete transfer
into a snapshot and then moves its hold file (`replication_cycle`).

Any step may fail, the process may die after any of them, and snapshots may be lost on both sides.  The model takes
these as events, each small enough that a death falls between two of them.  The progress file outlives the hold file by
one step, and this is where the protocol is weak: it may name the hold snapshot long after newer transfers have changed
the volume.
-/

namespace Ddsnap.Cycle

variable {β : Type}

/-! ### The upstream volume -/

/-- The history of the upstream volume: what the snapshot of a tag holds, and which chunks were written since the tag
before it. -/
structure Upstream (β : Type) where
  chunks : Nat
  content : Nat → Nat → β
  written : Nat → Nat → Bool
  unwritten : ∀ t c, written (t + 1) c = false → content (t + 1) c = content t c

namespace Upstream

variable {u : Upstream β} {s t t' c : Nat}

/-- The chunk was written after snapshot `s` and before snapshot `t` was taken. -/
def changed (u : Upstream β) (s t c : Nat) : Bool := (List.range t).any fun k => decide (s ≤ k) && u.written (k + 1) c

private theorem changed_iff : u.changed s t c = true ↔ ∃ k < t, s ≤ k ∧ u.written (k + 1) c = true := by
  simp [changed]

theorem changed_mono (ht : t ≤ t') (h : u.changed s t c = true) : u.changed s t' c = true := by
  obtain ⟨k, hk, hs, hw⟩ := changed_iff.1 h
  exact changed_iff.2 ⟨k, hk.trans_le ht, hs, hw⟩

theorem content_eq_of_not_changed (hst : s ≤ t) (h : u.changed s t c = false) : u.content t c = u.content s c := by
  induction t, hst using Nat.le_induction with
  | base => rfl
  | succ t hst ih =>
    have hw : u.written (t + 1) c = false := by
      by_contra hw
      exact absurd (changed_iff.2 ⟨t, t.lt_succ_self, hst, by simpa using hw⟩) (by simp [h])
    have ht : u.changed s t c = false := by
      by_contra ht
      exact absurd (changed_mono t.le_succ (by simpa using ht)) (by simp [h])
    rw [u.unwritten t c hw, ih ht]

end Upstream

/-! ### What a transfer does to the volume -/

/-- The volume after a transfer that began at chunk `start` and got as far as `stop`: the chunks of the list between the
two have their new content. -/
def rewritten (listed : Nat → Bool) (new : Nat → β) (start stop : Nat) (vol : Nat → β) (c : Nat) : β :=
  if start ≤ c ∧ c < stop ∧ listed c = true then new c else vol c

/-- The chunks of a transfer, all of them if there is no source snapshot. -/
def Upstream.listed (u : Upstream β) (old : Option Nat) (snap c : Nat) : Bool :=
  match old with
  | none => true
  | some s => u.changed s snap c

/-- A change list as the sender gets it: in order, and inside the volume. -/
structure InOrder (g : GenerateArgs) : Prop where
  sorted : ∀ i j, i < j → j < g.count → g.chunks i < g.chunks j
  fits : ∀ i < g.count, (g.chunks i + 1) * g.chunkSize ≤ g.target.size

namespace InOrder

variable {g : GenerateArgs} {i j c b start : Nat}

private theorem chunkAddr_eq (hg : InOrder g) (hi : i < g.count) : g.chunkAddr i = g.chunks i * g.chunkSize := by
  have hfit := hg.fits i hi
  have hsize := g.target.size_lt
  have hpos : 0 < g.chunkSize := GenerateArgs.chunkSize_pos
  rw [Nat.succ_mul] at hfit
  exact chunkpos_eq (by change g.chunks i * g.chunkSize < _; omega)

private theorem onChunk_iff (hg : InOrder g) (hi : i < g.count) (hb : b < g.chunkSize) :
    g.OnChunk i (c * g.chunkSize + b) ↔ g.chunks i = c := by
  rw [GenerateArgs.OnChunk, hg.chunkAddr_eq hi]
  constructor
  · rintro ⟨h1, h2⟩
    rcases Nat.lt_trichotomy (g.chunks i) c with hlt | heq | hgt
    · have := Nat.mul_le_mul_right g.chunkSize (Nat.succ_le_of_lt hlt)
      rw [Nat.succ_mul] at this
      omega
    · exact heq
    · have := Nat.mul_le_mul_right g.chunkSize (Nat.succ_le_of_lt hgt)
      rw [Nat.succ_mul] at this
      omega
  · rintro rfl
    omega

/-- The transfer begins at the first entry that is not below the start address. -/
private theorem le_of_skipFrom (hg : InOrder g) {fuel skip : Nat} (hfuel : g.count ≤ skip + fuel)
    (hi : g.skipFrom (start * g.chunkSize) fuel skip ≤ i) (hc : i < g.count) : start ≤ g.chunks i := by
  induction fuel generalizing skip with
  | zero =>
    simp only [GenerateArgs.skipFrom] at hi
    omega
  | succ fuel ih =>
    rw [GenerateArgs.skipFrom] at hi
    split at hi
    · exact ih (by omega) hi
    · rename_i hstop
      have hskip : skip < g.count := hi.trans_lt hc
      have hfirst : start ≤ g.chunks skip := by
        by_contra hlt
        refine hstop ⟨hskip, ?_⟩
        rw [hg.chunkAddr_eq hskip]
        exact (Nat.mul_lt_mul_right GenerateArgs.chunkSize_pos).2 (Nat.not_le.1 hlt)
      rcases hi.lt_or_eq with hlt | rfl
      · exact hfirst.trans (hg.sorted _ _ hlt hc).le
      · exact hfirst

private theorem skipChunks_le_iff (hg : InOrder g) (hc : i < g.count) :
    g.skipChunks (start * g.chunkSize) ≤ i ↔ start ≤ g.chunks i := by
  constructor
  · exact fun hi => hg.le_of_skipFrom (by omega) hi hc
  · intro hle
    refine GenerateArgs.skipFrom_le (Nat.zero_le _) ?_
    rw [hg.chunkAddr_eq hc]
    exact Nat.mul_le_mul_right _ hle

private theorem exists_stop (hg : InOrder g) (hj : j ≤ g.count) : ∃ stop, ∀ i < g.count, i < j ↔ g.chunks i < stop := by
  rcases hj.lt_or_eq with hlt | rfl
  · refine ⟨g.chunks j, fun i hi => ⟨fun hij => hg.sorted i j hij hlt, fun hch => ?_⟩⟩
    by_contra hij
    rcases (Nat.not_lt.1 hij).lt_or_eq with hji | rfl
    · exact absurd (hg.sorted j i hji hi) (Nat.lt_asymm hch)
    · exact Nat.lt_irrefl _ hch
  · refine ⟨g.target.size + 1, fun i hi => ⟨fun _ => ?_, fun _ => hi⟩⟩
    have hfit := hg.fits i hi
    have hle := Nat.le_mul_of_pos_right (g.chunks i + 1) (GenerateArgs.chunkSize_pos (g := g))
    omega

/-- The bytes of a transfer that is interrupted, or not, are the chunks that the model of the cycle rewrites. -/
theorem rewritten_of_attempt (hg : InOrder g) (hs : g.Sized) {g' : GenerateArgs} {V : Volume UInt8} {p : ApplyArgs}
    {st : ApplyState} (hV : V.size = g.target.size) (ha : g.Attempt g' (start * g.chunkSize) V p st)
    (hin : g.skipChunks (start * g.chunkSize) + st.chunkNum ≤ g.count) :
    ∃ stop, ∀ c b, b < g.chunkSize → st.target.byte (c * g.chunkSize + b) =
      rewritten (fun c => decide (∃ i < g.count, g.chunks i = c)) (fun c => g.target.byte (c * g.chunkSize + b))
        start stop (fun c => V.byte (c * g.chunkSize + b)) c := by
  obtain ⟨gio, out, n, io, k, hgen, hreach⟩ := ha.progress
  obtain ⟨-, -, hup⟩ := hreach.updates ha.receiver (ha.list.sized hs)
    ((GenerateArgs.generate_begins (ha.list.sized hs) hgen).take n) (hV.trans (by rw [ha.list.target]))
  obtain ⟨stop, hstop⟩ := hg.exists_stop hin
  rw [ha.list.skipChunks] at hup
  refine ⟨stop, fun c b hb => ?_⟩
  have hsent : g'.Sent (g.skipChunks (start * g.chunkSize)) (g.skipChunks (start * g.chunkSize) + st.chunkNum)
      (c * g.chunkSize + b) ↔ start ≤ c ∧ c < stop ∧ ∃ i < g.count, g.chunks i = c := by
    constructor
    · rintro ⟨-, i, h1, h2, hon⟩
      have hi : i < g.count := by omega
      obtain rfl := (hg.onChunk_iff hi hb).1 ((ha.list.onChunk hi).1 hon)
      exact ⟨(hg.skipChunks_le_iff hi).1 h1, (hstop i hi).1 h2, i, hi, rfl⟩
    · rintro ⟨h1, h2, i, hi, rfl⟩
      have hfit := hg.fits i hi
      rw [Nat.succ_mul] at hfit
      exact ⟨by rw [ha.list.target]; omega, i, (hg.skipChunks_le_iff hi).2 h1, (hstop i hi).2 h2,
        (ha.list.onChunk hi).2 ((hg.onChunk_iff hi hb).2 rfl)⟩
  unfold rewritten
  split
  · rename_i hif
    rw [hup.inside _ (hsent.2 (by simpa using hif)), ha.list.target]
  · rename_i hif
    exact hup.outside _ fun h => hif (by simpa using hsent.1 h)

theorem rewritten_of_attempt_small : ∃ (st : ApplyState) (stop : Nat), st.chunkNum = 2 ∧ ∀ c b, b < 2 →
    st.target.byte (c * 2 + b) = rewritten (fun c => decide (∃ i < smallSend.count, smallSend.chunks i = c))
      (fun c => smallSend.target.byte (c * 2 + b)) 0 stop (fun c => smallSend.source.byte (c * 2 + b)) c := by
  obtain ⟨st, ha, hnum⟩ := smallSend_interrupted
  have hsorted : ∀ j < 3, ∀ i < j, smallSend.chunks i < smallSend.chunks j := by decide
  rw [← Nat.zero_mul smallSend.chunkSize] at ha
  obtain ⟨stop, h⟩ := rewritten_of_attempt (V := smallSend.source) ⟨fun i j hi hj => hsorted j hj i hi, by decide⟩
    smallSend_sized rfl ha (by rw [hnum, Nat.zero_mul]; decide)
  exact ⟨st, stop, hnum, h⟩

end InOrder

/-! ### The state on both sides -/

/-- A downstream snapshot. -/
inductive Snap (β : Type)
  | absent
  | good (content : Nat → β)
  | squashed

/-- The progress file: the snapshot that is received, whether all of its chunks are, and the address of the last extent
when the file was written. -/
structure Record where
  tag : Nat
  complete : Bool
  addr : Nat

/-- What `receive start` answers: its hold snapshot, and the partial replication in the progress file. -/
structure Answer where
  hold : Option Nat
  send : Option Nat
  addr : Option Nat

/-- How far `replicate_snapshot` is, with the values of `snap`, `old_snap` and `resume`; between `sent` and `done` it
waits for `receive done`, which runs a replication cycle for the snapshot `next`. -/
inductive Phase
  | idle
  | started (snap : Nat) (old : Option Nat)
  | answered (snap : Nat) (old : Option Nat) (answer : Answer)
  | ready (snap : Nat) (old resume : Option Nat)
  | sent (snap : Nat) (old : Option Nat)
  | created (snap : Nat) (old : Option Nat) (next : Nat)
  | dropped (snap : Nat) (old : Option Nat) (next : Nat)
  | held (snap : Nat) (old : Option Nat) (next : Nat)
  | done (snap : Nat) (old : Option Nat)

/-- Upstream: the snapshots in good state, the hold file and the last tag that was sent.  Downstream: the volume, the
snapshots, the hold file and the progress file. -/
structure State (β : Type) where
  alive : Nat → Bool
  upHold : Option Nat
  last : Nat
  vol : Nat → β
  snaps : Nat → Snap β
  hold : Option Nat
  record : Option Record
  phase : Phase

namespace State

/-- `verify_existing_snap` on the downstream host. -/
def good (st : State β) (t : Nat) : Bool :=
  match st.snaps t with
  | .good _ => true
  | _ => false

/-- `drop_snapshot` on the upstream host; the snapshot is deleted if nobody else uses it. -/
def dropUp (st : State β) (t : Option Nat) (deleted : Bool) : State β :=
  match t, deleted with
  | some t, true => { st with alive := Function.update st.alive t false }
  | _, _ => st

/-- `drop_snapshot` on the downstream host. -/
def dropDown (st : State β) (t : Nat) (deleted : Bool) : State β :=
  if deleted then { st with snaps := Function.update st.snaps t .absent } else st

/-- `receive start`.  A hold snapshot that is lost is answered as none, and a partial replication of the hold snapshot
is left out. -/
def receiveStart (st : State β) : Answer :=
  let hold := st.hold.filter st.good
  match st.record with
  | none => ⟨hold, none, none⟩
  | some r => if hold = some r.tag then ⟨hold, none, none⟩ else ⟨hold, some r.tag, some r.addr⟩

end State

/-- The source snapshot and the address to resume at, after the comparison of the two hold files; `none` if the
downstream host holds the snapshot already. -/
def takeHold (alive : Nat → Bool) (snap : Nat) (old : Option Nat) (a : Answer) : Option (Option Nat × Option Nat) :=
  match a.hold with
  | none => some (none, a.addr)
  | some h =>
    if old = some h then some (old, a.addr)
    else if alive h then if h = snap then none else some (some h, a.addr)
    else some (none, none)

/-- A partial replication of another snapshot is completed first, if that snapshot still exists. -/
def takeSend (alive : Nat → Bool) (snap : Nat) (old addr : Option Nat) (a : Answer) : Nat × Option Nat × Option Nat :=
  match a.send with
  | none => (snap, old, addr)
  | some s =>
    if s ≠ snap ∧ a.hold ≠ some s then if alive s then (s, old, addr) else (snap, none, none) else (snap, old, addr)

namespace State

/-- `replicate_snapshot` from the answer to the transfer.  The flags say which of the dropped snapshots are deleted:
the source snapshot, and the snapshot to send when another is sent in its place; `full` is the file
`test_fullvolume`. -/
def choose (st : State β) (snap : Nat) (old : Option Nat) (a : Answer) (dropOld dropSnap full : Bool) : State β :=
  match takeHold st.alive snap old a with
  | none => { st.dropUp old dropOld with upHold := some snap, phase := .idle }
  | some (old', addr) =>
    let st := if a.hold = none then st.dropUp old dropOld else st
    let (snap', old', addr) := takeSend st.alive snap old' addr a
    let st := if snap' ≠ snap then st.dropUp (some snap) dropSnap else st
    let resume := if a.send ≠ a.hold then addr else none
    if full ∧ resume = none then { st.dropUp old' dropOld with phase := .ready snap' none none }
    else { st with phase := .ready snap' old' resume }

/-- The transfer can go ahead: the snapshots it reads are there, the source snapshot on both sides. -/
def canSend (st : State β) (snap : Nat) (old : Option Nat) : Bool :=
  st.alive snap && old.all fun h => st.alive h && st.good h

/-- The transfer of `snap` got as far as `stop`, and the progress file was last written with `written`, if at all. -/
def transfer (u : Upstream β) (st : State β) (snap : Nat) (old resume : Option Nat) (stop : Nat)
    (written : Option (Bool × Nat)) : State β :=
  { st with
    vol := rewritten (u.listed old snap) (u.content snap) (resume.getD 0) stop st.vol
    record := match written with
      | none => st.record
      | some (complete, addr) => some ⟨snap, complete, addr⟩ }

/-- `verify_existing_snap … || create_snapshot …`; no snapshot is created over a squashed one. -/
def create (st : State β) (t : Nat) : State β :=
  match st.snaps t with
  | .absent => { st with snaps := Function.update st.snaps t (.good st.vol) }
  | _ => st

end State

/-- What can happen: the steps of an attempt in their order, then the death of the process or the failure of the next
step, and the loss of a snapshot on one of the hosts. -/
inductive Event
  | begin (snap : Nat)
  | receiveStart
  | choose (dropOld dropSnap full : Bool)
  | transmit (stop : Nat) (written : Option (Bool × Nat)) (ok : Bool)
  | create (mount : Bool)
  | drop (hold mount : Bool)
  | setHold
  | removeProgress
  | setUpHold (dropOld : Bool)
  | die
  | loseUp (t : Nat)
  | loseDown (t : Nat) (squashed : Bool)

/-- What is known of a transfer when it ends: the extents before the recorded one have been written, the record is
complete only if all are, and a transfer that succeeds has made such a record. -/
def Transfers (u : Upstream β) (stop : Nat) (written : Option (Bool × Nat)) (ok : Bool) : Prop :=
  (∀ w ∈ written, w.2 ≤ stop ∧ (w.1 = true → u.chunks ≤ stop)) ∧ (ok = true → written.map Prod.fst = some true)

instance (u : Upstream β) (stop : Nat) (written : Option (Bool × Nat)) (ok : Bool) :
    Decidable (Transfers u stop written ok) :=
  inferInstanceAs (Decidable (_ ∧ _))

/-- One event; `none` if it cannot happen in this state. -/
def step (u : Upstream β) (st : State β) : Event → Option (State β)
  | .begin snap =>
    -- the tags of upstream snapshots are even, those of the downstream mounts odd
    if st.phase matches .idle ∧ st.last ≤ snap ∧ snap % 2 = 0 then
      if st.alive snap then some { st with last := snap, phase := .started snap (st.upHold.filter st.alive) }
      else some { st with last := snap }
    else none
  | .receiveStart =>
    match st.phase with
    | .started snap old => some { st with phase := .answered snap old st.receiveStart }
    | _ => none
  | .choose dropOld dropSnap full =>
    match st.phase with
    | .answered snap old a => some (st.choose snap old a dropOld dropSnap full)
    | _ => none
  | .transmit stop written ok =>
    match st.phase with
    | .ready snap old resume =>
      if st.canSend snap old = true ∧ Transfers u stop written ok then
        some { st.transfer u snap old resume stop written with phase := if ok then .sent snap old else .idle }
      else none
    | _ => none
  | .create mount =>
    match st.phase, st.record with
    | .sent snap old, some ⟨next, true, _⟩ =>
      let st := st.create next
      if st.good next then
        some { (if mount then st.create (next + 1) else st) with phase := .created snap old next }
      else some { st with phase := .idle }
    | _, _ => none
  | .drop hold mount =>
    match st.phase, st.hold with
    | .created snap old next, none => some { st with phase := .dropped snap old next }
    | .created snap old next, some h =>
      some { (st.dropDown h hold).dropDown (h + 1) mount with phase := .dropped snap old next }
    | _, _ => none
  | .setHold =>
    match st.phase with
    | .dropped snap old next => some { st with hold := some next, phase := .held snap old next }
    | _ => none
  | .removeProgress =>
    match st.phase with
    | .held snap old _ => some { st with record := none, phase := .done snap old }
    | _ => none
  | .setUpHold dropOld =>
    match st.phase with
    | .done snap old => some { st.dropUp old dropOld with upHold := some snap, phase := .idle }
    | _ => none
  | .die => some { st with phase := .idle }
  | .loseUp t => some { st with alive := Function.update st.alive t false }
  | .loseDown t squashed =>
    some { st with snaps := Function.update st.snaps t (if squashed then .squashed else .absent) }

/-- Before the first attempt: nothing is held or received, and no snapshot has been made downstream. -/
structure Initial (st : State β) : Prop where
  upHold : st.upHold = none
  hold : st.hold = none
  record : st.record = none
  snaps : ∀ t, st.snaps t = .absent
  phase : st.phase = .idle

/-- The hold snapshot of the downstream host, where there is one, has the content of the upstream snapshot. -/
def Converged (u : Upstream β) (st : State β) : Prop :=
  ∀ t v, st.hold = some t → st.snaps t = .good v → ∀ c < u.chunks, v c = u.content t c

/-- The downstream host does not lose the snapshot of its hold file while its progress file still names it. -/
def Keeps (st : State β) : Event → Prop
  | .loseDown t _ => ¬(st.hold = some t ∧ st.record.map Record.tag = some t)
  | _ => True

instance (st : State β) : (e : Event) → Decidable (Keeps st e)
  | .loseDown t _ => inferInstanceAs (Decidable (¬(st.hold = some t ∧ st.record.map Record.tag = some t)))
  | .begin _ | .receiveStart | .choose _ _ _ | .transmit _ _ _ | .create _ | .drop _ _ | .setHold | .removeProgress
  | .setUpHold _ | .die | .loseUp _ => inferInstanceAs (Decidable True)

end Ddsnap.Cycle
