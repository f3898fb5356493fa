import Ddsnap.Lib.Reach
import Mathlib.Algebra.BigOperators.Fin

/-!
# The kernel client

The device mapper target (`kernel/dm-ddsnap.c`) asks the server about every bio that it may not submit by itself.  A
bio that `ddsnap_map` accepts is put on `queries`; the worker moves it to the bucket of its id and sends the query; the
reply takes it from there and the bio is submitted or failed.  A read of the origin through a snapshot is hooked: the
hook is on `locked` until the read ends and on `releases` until the worker has sent `FINISH_SNAPSHOT_READ`.

A step is one section under `pending_lock` or `end_io_lock`, with what its thread does until it takes a lock again.  The
flags are written without a lock, so they may change between any two steps.  No bio is lost or finished twice.
-/

namespace Ddsnap.Kernel

def numBuckets : Nat := 64

def rwIdBits : Nat := 32

/-- A request of the block layer: its number, where it starts, and its direction. -/
structure Bio where
  bio : Nat
  sector : Nat
  write : Bool
  deriving DecidableEq

structure Pending where
  id : Nat
  chunk : Nat
  chunks : Nat
  bio : Bio

/-- `completed` stands for `old_end_io == NULL`. -/
structure Hook where
  sector : Nat
  completed : Bool
  deriving DecidableEq

/-- How a bio is finished. -/
inductive Outcome where
  | submitted
  | failed

/-- Where the worker is: in its main loop, or in `upload_locks` with these entries of `locked` still to be visited. -/
inductive Worker where
  | running
  | uploading (todo : List Nat)
  deriving DecidableEq

/-- `struct devinfo`.  Hooks are numbered in `hooks`, and what is freed stays there with the content that it had.

`toHook` and `worker` are where the incoming thread and the worker stand between two sections.  The rest is what
happened so far: the bios accepted by `ddsnap_map` and those finished, the hooks in the order in which they were freed
(the last one first), the hooks whose lock the server of the current connection knows, and the `FINISH_SNAPSHOT_READ`
messages. -/
structure DevInfo where
  isSnapshot : Bool
  ready : Bool
  recover : Bool
  finish : Bool
  chunkshift : Nat
  nextid : Nat
  queries : List Pending
  pending : Fin numBuckets → List Pending
  locked : List Nat
  releases : List Nat
  dontSwitchLists : Bool
  hooks : Nat → Option Hook
  toHook : Option Bio
  worker : Worker
  accepted : List Bio
  finished : List (Bio × Outcome)
  freed : List Nat
  taken : List Nat
  finishes : List (Nat × Nat)

def DevInfo.workerReady (info : DevInfo) : Bool := !(info.finish || info.recover) && info.ready

/-- A target that has just been made. -/
def start (isSnapshot : Bool) (chunkshift : Nat) : DevInfo :=
  { isSnapshot := isSnapshot, ready := false, recover := false, finish := false, chunkshift := chunkshift, nextid := 0,
    queries := [], pending := fun _ => [], locked := [], releases := [], dontSwitchLists := false,
    hooks := fun _ => none, toHook := none, worker := .running, accepted := [], finished := [], freed := [],
    taken := [], finishes := [] }

def hashPending (id : Nat) : Fin numBuckets := ⟨id % numBuckets, Nat.mod_lt _ (by decide)⟩

/-- `ddsnap_map`; `wasReady` is the flag as the function saw it before it took the lock.  The bio is accepted if it gets
on `queries` (return 0); otherwise it is failed or handed back to the device mapper. -/
def ddsnapMap (info : DevInfo) (wasReady : Bool) (bio : Bio) : DevInfo :=
  if !wasReady then info
  else if !bio.write && !info.isSnapshot then info
  else
    let id := info.nextid
    let info1 := { info with nextid := (id + 1) % 2 ^ rwIdBits }
    if !info.workerReady then info1
    else { info1 with
      queries := ⟨id, bio.sector >>> info.chunkshift, 1, bio⟩ :: info1.queries
      accepted := bio :: info1.accepted }

/-- The worker takes the oldest query and moves it to its bucket. -/
def sendQuery (info : DevInfo) : DevInfo :=
  if info.workerReady then
    match info.queries.getLast? with
    | none => info
    | some p =>
      let i := hashPending p.id
      { info with
        queries := info.queries.dropLast
        pending := Function.update info.pending i (p :: info.pending i) }
  else info

/-- `bio_io_error` or `generic_make_request`. -/
def DevInfo.done (info : DevInfo) (bio : Bio) (outcome : Outcome) : DevInfo :=
  { info with finished := (bio, outcome) :: info.finished }

/-- One round of `replied_rw`: the reply says the id and the chunks of the range, the direction, whether the I/O goes to
the snapshot store, and whether it failed. -/
def repliedRw (info : DevInfo) (id chunks : Nat) (write snap failedIo : Bool) : DevInfo :=
  let i := hashPending id
  match (info.pending i).find? (·.id = id) with
  | none => info
  | some p =>
    let info1 := { info with pending := Function.update info.pending i ((info.pending i).eraseP (·.id = id)) }
    if failedIo then info1.done p.bio .failed
    else if chunks ≠ p.chunks then info1.done p.bio .failed
    else
      let info2 := info1.done p.bio .submitted
      if !snap && !write then { info2 with toHook := some p.bio } else info2

/-- `requeue_queries`: every bucket is emptied from its front to the front of `queries`. -/
def requeueQueries (info : DevInfo) : DevInfo :=
  { info with
    queries := (List.finRange numBuckets).foldl (fun q i => (info.pending i).reverse ++ q) info.queries
    pending := fun _ => [] }

/-- The first section of `flush_pending_bio`. -/
def flushPendingBio (info : DevInfo) : DevInfo :=
  { info with
    queries := []
    pending := fun _ => []
    finished := (info.queries ++ (List.finRange numBuckets).flatMap info.pending).map (fun p => (p.bio, .failed))
      ++ info.finished }

/-- The second section of `flush_pending_bio`.  The connection is shut down after it. -/
def flushReleases (info : DevInfo) : DevInfo :=
  { info with releases := [], freed := info.releases.reverse ++ info.freed, taken := [] }

/-- `list_del`: the hook leaves the list that it is on. -/
def DevInfo.unlink (info : DevInfo) (h : Nat) : DevInfo :=
  { info with locked := info.locked.erase h, releases := info.releases.erase h }

def DevInfo.free (info : DevInfo) (h : Nat) : DevInfo := { info with freed := h :: info.freed }

/-- The hook of a read from the origin, at number `h`. -/
def hookRead (info : DevInfo) (bio : Bio) (h : Nat) : DevInfo :=
  { info with
    hooks := Function.update info.hooks h (some ⟨bio.sector, false⟩)
    locked := h :: info.locked
    taken := h :: info.taken
    toHook := none }

/-- `hook->old_end_io = NULL`. -/
def DevInfo.complete (info : DevInfo) (h : Nat) (hook : Hook) : DevInfo :=
  { info with hooks := Function.update info.hooks h (some { hook with completed := true }) }

def snapshotReadEndIo (info : DevInfo) (h : Nat) (hook : Hook) : DevInfo :=
  let info1 := info.complete h hook
  if !info.ready then info1.free h
  else if !info.dontSwitchLists then
    let info2 := info1.unlink h
    { info2 with releases := h :: info2.releases }
  else info1

/-- The worker takes the oldest hook of `releases`, frees it and sends `FINISH_SNAPSHOT_READ`.  If the message does not
go out then the connection is lost. -/
def sendRelease (info : DevInfo) (sent : Bool) : DevInfo :=
  if info.workerReady then
    match info.releases.getLast? with
    | none => info
    | some h =>
      let info1 := ({ info with releases := info.releases.dropLast }).free h
      if sent then
        { info1 with finishes := (h, ((info.hooks h).elim 0 Hook.sector) >>> info.chunkshift) :: info1.finishes }
      else { info1 with taken := [] }
  else info

def DevInfo.completed (info : DevInfo) (h : Nat) : Bool := (info.hooks h).any Hook.completed

/-- `upload_locks` up to its loop, on a new connection. -/
def uploadStart (info : DevInfo) : DevInfo :=
  { info with
    dontSwitchLists := true
    releases := []
    freed := info.releases ++ info.freed
    taken := []
    worker := .uploading info.locked }

/-- One round of the loop of `upload_locks`; `sent` says that `UPLOAD_LOCK` went out. -/
def uploadNext (info : DevInfo) (h : Nat) (todo : List Nat) (sent : Bool) : DevInfo :=
  let info1 := { info with worker := .uploading todo }
  if info.completed h then (info1.unlink h).free h
  else if sent then { info1 with taken := h :: info1.taken }
  else info1

/-- The end of `upload_locks`. -/
def uploadEnd (info : DevInfo) : DevInfo :=
  let info1 :=
    if info.workerReady then
      { info with
        locked := info.locked.filter fun h => !info.completed h
        releases := (info.locked.filter info.completed).reverse ++ info.releases }
    else info
  { info1 with dontSwitchLists := false, worker := .running }

/-- A section of one of the threads.  `flags` is any change of the flags that are written without a lock. -/
inductive Event where
  | flags (ready recover finish : Bool)
  | map (wasReady : Bool) (bio : Bio)
  | send
  | reply (id chunks : Nat) (write snap failedIo : Bool)
  | requeue
  | flushPending
  | flushReleases
  | hook (h : Nat)
  | endIo (h : Nat)
  | release (sent : Bool)
  | uploadStart
  | uploadNext (sent : Bool)
  | uploadEnd

/-- One section.  `none`: the thread is not at this place, the number is taken, or `assert(chunks == 1)` fails. -/
def step (info : DevInfo) : Event → Option DevInfo
  | .flags ready recover finish => some { info with ready := ready, recover := recover, finish := finish }
  | .map wasReady bio => if bio ∈ info.accepted then none else some (ddsnapMap info wasReady bio)
  | .send => if info.worker = .running then some (sendQuery info) else none
  | .reply id chunks write snap failedIo =>
    if chunks = 1 ∧ info.toHook = none then some (repliedRw info id chunks write snap failedIo) else none
  | .requeue => if info.worker = .running then some (requeueQueries info) else none
  | .flushPending => some (flushPendingBio info)
  | .flushReleases => some (flushReleases info)
  | .hook h => info.toHook.bind fun bio => if info.hooks h = none then some (hookRead info bio h) else none
  | .endIo h =>
    (info.hooks h).bind fun hook => if hook.completed then none else some (snapshotReadEndIo info h hook)
  | .release sent => if info.worker = .running then some (sendRelease info sent) else none
  | .uploadStart => if info.worker = .running then some (uploadStart info) else none
  | .uploadNext sent =>
    match info.worker with
    | .uploading (h :: todo) => some (uploadNext info h todo sent)
    | _ => none
  | .uploadEnd =>
    match info.worker with
    | .uploading [] => some (uploadEnd info)
    | _ => none

/-! ### The places of a bio -/

/-- How often a list of requests has the bio. -/
def bioCount (b : Bio) (l : List Pending) : Nat := (l.map Pending.bio).count b

@[simp] theorem bioCount_nil (b : Bio) : bioCount b [] = 0 := rfl

private theorem bioCount_cons (b : Bio) (p : Pending) (l : List Pending) :
    bioCount b (p :: l) = bioCount b [p] + bioCount b l := by
  simp only [bioCount, List.map_cons, List.map_nil, List.count_cons, List.count_nil]
  omega

private theorem bioCount_append (b : Bio) (l l' : List Pending) : bioCount b (l ++ l') =
    bioCount b l + bioCount b l' := by
  simp [bioCount]

private theorem bioCount_reverse (b : Bio) (l : List Pending) : bioCount b l.reverse = bioCount b l := by
  simp [bioCount]

private theorem bioCount_dropLast {l : List Pending} {p : Pending} (h : l.getLast? = some p) (b : Bio) :
    bioCount b l = bioCount b l.dropLast + bioCount b [p] := by
  rw [← bioCount_append, List.dropLast_append_getLast? _ h]

private theorem bioCount_eraseP {l : List Pending} {p : Pending} {f : Pending → Bool} (h : l.find? f = some p)
    (b : Bio) : bioCount b l = bioCount b [p] + bioCount b (l.eraseP f) := by
  induction l with
  | nil => cases h
  | cons q l ih =>
    cases hq : f q with
    | true =>
      rw [List.find?_cons_of_pos hq, Option.some.injEq] at h
      rw [List.eraseP_cons_of_pos hq, ← h, bioCount_cons]
    | false =>
      rw [List.find?_cons_of_neg (by simp [hq])] at h
      rw [List.eraseP_cons_of_neg (by simp [hq]), bioCount_cons b q, bioCount_cons b q (l.eraseP f), ih h]
      omega

private theorem sum_update (c : List Pending → Nat) (pending : Fin numBuckets → List Pending) (i : Fin numBuckets)
    (l : List Pending) :
    ∑ j, c (Function.update pending i l j) + c (pending i) = ∑ j, c (pending j) + c l := by
  have hupd : (fun j => c (Function.update pending i l j)) = Function.update (fun j => c (pending j)) i (c l) := by
    funext j
    by_cases hj : j = i
    · simp [hj]
    · simp [Function.update_of_ne hj]
  rw [hupd, Finset.sum_update_of_mem (Finset.mem_univ i),
    Finset.sum_eq_add_sum_sdiff_singleton_of_mem (Finset.mem_univ i) (fun j => c (pending j))]
  omega

/-- The entries of the bio on the query list, in the buckets, and among the finished ones. -/
def DevInfo.places (info : DevInfo) (b : Bio) : Nat :=
  bioCount b info.queries + ∑ i, bioCount b (info.pending i) + (info.finished.map Prod.fst).count b

/-- Every bio has as many places as it was accepted, and it was accepted at most once. -/
structure OnePlace (info : DevInfo) : Prop where
  places : ∀ b, info.places b = info.accepted.count b
  nodup : info.accepted.Nodup

variable {info info' : DevInfo}

/-- A step touches neither the requests nor the finished bios. -/
structure SameBios (info info' : DevInfo) : Prop where
  queries : info'.queries = info.queries
  pending : info'.pending = info.pending
  finished : info'.finished = info.finished
  accepted : info'.accepted = info.accepted

private theorem OnePlace.same (h : OnePlace info) (hs : SameBios info info') : OnePlace info' := by
  refine ⟨fun b => ?_, hs.accepted ▸ h.nodup⟩
  have hb := h.places b
  simp only [DevInfo.places] at hb ⊢
  rw [hs.queries, hs.pending, hs.finished, hs.accepted, hb]

private theorem OnePlace.ddsnapMap (h : OnePlace info) {wasReady : Bool} {bio : Bio} (hbio : bio ∉ info.accepted) :
    OnePlace (ddsnapMap info wasReady bio) := by
  unfold Kernel.ddsnapMap
  split
  · exact h
  · split
    · exact h
    · dsimp only
      split
      · exact h.same ⟨rfl, rfl, rfl, rfl⟩
      · refine ⟨fun b => ?_, List.nodup_cons.2 ⟨hbio, h.nodup⟩⟩
        have hb := h.places b
        simp only [DevInfo.places] at hb ⊢
        rw [bioCount_cons, List.count_cons]
        simp only [bioCount, List.map_cons, List.map_nil, List.count_cons, List.count_nil] at hb ⊢
        omega

private theorem OnePlace.sendQuery (h : OnePlace info) : OnePlace (sendQuery info) := by
  unfold Kernel.sendQuery
  split
  · split
    · exact h
    · rename_i p hp
      refine ⟨fun b => ?_, h.nodup⟩
      have hb := h.places b
      have hs := sum_update (bioCount b) info.pending (hashPending p.id) (p :: info.pending (hashPending p.id))
      have hq := bioCount_dropLast hp b
      rw [bioCount_cons] at hs
      simp only [DevInfo.places] at hb ⊢
      omega
  · exact h

private theorem OnePlace.finish (h : OnePlace info) {id : Nat} {p : Pending} (outcome : Outcome) (toHook : Option Bio)
    (hp : (info.pending (hashPending id)).find? (·.id = id) = some p) :
    OnePlace { info with
      pending := Function.update info.pending (hashPending id)
        ((info.pending (hashPending id)).eraseP (·.id = id))
      finished := (p.bio, outcome) :: info.finished
      toHook := toHook } := by
  refine ⟨fun b => ?_, h.nodup⟩
  have hb := h.places b
  have hs := sum_update (bioCount b) info.pending (hashPending id)
    ((info.pending (hashPending id)).eraseP (·.id = id))
  have he := bioCount_eraseP hp b
  have hone : bioCount b [p] = if p.bio == b then 1 else 0 := by simp [bioCount, List.count_singleton]
  simp only [DevInfo.places, List.map_cons, List.count_cons] at hb ⊢
  omega

private theorem OnePlace.repliedRw (h : OnePlace info) (id chunks : Nat) (write snap failedIo : Bool) :
    OnePlace (repliedRw info id chunks write snap failedIo) := by
  simp only [Kernel.repliedRw]
  split
  · exact h
  · rename_i p hp
    split
    · exact h.finish .failed info.toHook hp
    · split
      · exact h.finish .failed info.toHook hp
      · split
        · exact h.finish .submitted (some p.bio) hp
        · exact h.finish .submitted info.toHook hp

private theorem bioCount_requeue (b : Bio) (pending : Fin numBuckets → List Pending) (is : List (Fin numBuckets))
    (q : List Pending) :
    bioCount b (is.foldl (fun q i => (pending i).reverse ++ q) q)
      = bioCount b q + (is.map fun i => bioCount b (pending i)).sum := by
  induction is generalizing q with
  | nil => simp
  | cons i is ih =>
    rw [List.foldl_cons, ih, bioCount_append, bioCount_reverse, List.map_cons, List.sum_cons]
    omega

private theorem OnePlace.requeueQueries (h : OnePlace info) : OnePlace (requeueQueries info) := by
  refine ⟨fun b => ?_, h.nodup⟩
  have hb := h.places b
  simp only [DevInfo.places, Kernel.requeueQueries, bioCount_requeue, bioCount_nil, Finset.sum_const_zero,
    Fin.sum_univ_def] at hb ⊢
  omega

private theorem bioCount_flatMap (b : Bio) (pending : Fin numBuckets → List Pending) (is : List (Fin numBuckets)) :
    bioCount b (is.flatMap pending) = (is.map fun i => bioCount b (pending i)).sum := by
  induction is with
  | nil => rfl
  | cons i is ih => rw [List.flatMap_cons, bioCount_append, ih, List.map_cons, List.sum_cons]

private theorem OnePlace.flushPendingBio (h : OnePlace info) : OnePlace (flushPendingBio info) := by
  refine ⟨fun b => ?_, h.nodup⟩
  have hb := h.places b
  have hfin : ((Kernel.flushPendingBio info).finished.map Prod.fst).count b
      = bioCount b info.queries + ∑ i, bioCount b (info.pending i) + (info.finished.map Prod.fst).count b := by
    rw [Fin.sum_univ_def, ← bioCount_flatMap, ← bioCount_append]
    simp only [Kernel.flushPendingBio, List.map_append, List.map_map, List.count_append, bioCount]
    rfl
  simp only [DevInfo.places, hfin] at hb ⊢
  simp only [Kernel.flushPendingBio, bioCount_nil, Finset.sum_const_zero]
  omega

/-! ### One section -/

private theorem snapshotReadEndIo_bios (h : Nat) (hook : Hook) : SameBios info (snapshotReadEndIo info h hook) := by
  simp only [snapshotReadEndIo]
  split
  · exact ⟨rfl, rfl, rfl, rfl⟩
  · split
    · exact ⟨rfl, rfl, rfl, rfl⟩
    · exact ⟨rfl, rfl, rfl, rfl⟩

private theorem sendRelease_bios (sent : Bool) : SameBios info (sendRelease info sent) := by
  unfold sendRelease
  split
  · split
    · exact ⟨rfl, rfl, rfl, rfl⟩
    · cases sent <;> exact ⟨rfl, rfl, rfl, rfl⟩
  · exact ⟨rfl, rfl, rfl, rfl⟩

private theorem uploadNext_bios (h : Nat) (todo : List Nat) (sent : Bool) : SameBios info
    (uploadNext info h todo sent) := by
  simp only [uploadNext]
  split
  · exact ⟨rfl, rfl, rfl, rfl⟩
  · cases sent <;> exact ⟨rfl, rfl, rfl, rfl⟩

private theorem uploadEnd_bios : SameBios info (uploadEnd info) := by
  simp only [uploadEnd]
  split <;> exact ⟨rfl, rfl, rfl, rfl⟩

/-- No section loses a bio or gives it a second place. -/
private theorem OnePlace.step (h : OnePlace info) {e : Event} (hs : step info e = some info') : OnePlace info' := by
  cases e with
  | flags ready recover finish =>
    cases hs
    exact h.same ⟨rfl, rfl, rfl, rfl⟩
  | map wasReady bio =>
    obtain ⟨hbio, he⟩ := Option.ite_none_left_eq_some.1 hs
    cases he
    exact h.ddsnapMap hbio
  | send =>
    obtain ⟨-, he⟩ := Option.ite_none_right_eq_some.1 hs
    cases he
    exact h.sendQuery
  | reply id chunks write snap failedIo =>
    obtain ⟨-, he⟩ := Option.ite_none_right_eq_some.1 hs
    cases he
    exact h.repliedRw id chunks write snap failedIo
  | requeue =>
    obtain ⟨-, he⟩ := Option.ite_none_right_eq_some.1 hs
    cases he
    exact h.requeueQueries
  | flushPending =>
    cases hs
    exact h.flushPendingBio
  | flushReleases =>
    cases hs
    exact h.same ⟨rfl, rfl, rfl, rfl⟩
  | hook n =>
    obtain ⟨bio, -, hs⟩ := Option.bind_eq_some_iff.1 hs
    obtain ⟨-, he⟩ := Option.ite_none_right_eq_some.1 hs
    cases he
    exact h.same ⟨rfl, rfl, rfl, rfl⟩
  | endIo n =>
    obtain ⟨hook, -, hs⟩ := Option.bind_eq_some_iff.1 hs
    obtain ⟨-, he⟩ := Option.ite_none_left_eq_some.1 hs
    cases he
    exact h.same (snapshotReadEndIo_bios n hook)
  | release sent =>
    obtain ⟨-, he⟩ := Option.ite_none_right_eq_some.1 hs
    cases he
    exact h.same (sendRelease_bios sent)
  | uploadStart =>
    obtain ⟨-, he⟩ := Option.ite_none_right_eq_some.1 hs
    cases he
    exact h.same ⟨rfl, rfl, rfl, rfl⟩
  | uploadNext sent =>
    simp only [Kernel.step] at hs
    split at hs
    · cases hs
      exact h.same (uploadNext_bios _ _ sent)
    · cases hs
  | uploadEnd =>
    simp only [Kernel.step] at hs
    split at hs
    · cases hs
      exact h.same uploadEnd_bios
    · cases hs

/-! ### Every run -/

/-- The target has just been made. -/
def Fresh (info : DevInfo) : Prop := ∃ isSnapshot chunkshift, info = start isSnapshot chunkshift

/-- In every run, a bio that `ddsnap_map` accepted is on the query list, in one bucket or among the finished bios: it
has one entry in one of them and none in the others. -/
theorem accepted_one_place (h : Reach.Run step (fun _ _ => True) Fresh info) {b : Bio} (hb : b ∈ info.accepted) :
    info.places b = 1 := by
  have hone : OnePlace info := h.invariant
    (by
      rintro s ⟨isSnapshot, chunkshift, rfl⟩
      exact ⟨fun b => by simp [DevInfo.places, start], List.nodup_nil⟩)
    (fun s e s' hs _ hst => hs.step hst)
  rw [hone.places, List.count_eq_one_of_mem hone.nodup hb]

/-- Two bios of a snapshot: one is answered, the other one is sent again on a new connection and failed at the end. -/
def twoBios : List Event :=
  [.flags true false false, .map true ⟨0, 8, false⟩, .map true ⟨1, 16, true⟩, .send, .reply 0 1 false true false, .send,
    .reply 7 1 true true false, .requeue, .send, .flushPending]

def twoBiosEnd : DevInfo := (Reach.exec step (fun _ _ => True) (start true 3) twoBios).getD (start true 3)

theorem twoBiosEnd_places : ⟨1, 16, true⟩ ∈ twoBiosEnd.accepted ∧ twoBiosEnd.places ⟨1, 16, true⟩ = 1 := by
  have hrun : Reach.Run step (fun _ _ => True) Fresh (start true 3) := .start ⟨true, 3, rfl⟩
  have hmem : ⟨1, 16, true⟩ ∈ twoBiosEnd.accepted := by decide +kernel
  exact ⟨hmem, accepted_one_place (hrun.exec_getD twoBios) hmem⟩

end Ddsnap.Kernel
