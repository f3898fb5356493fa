import Mathlib.Logic.Relation
import Ddsnap.Delete

/-!
# Snapshots, copies and `make_unique`

The snapshot list of the superblock, the automatic deletion of snapshots on a full store, the copies of chunks to the
snapshot store, and `make_unique`, which gives a chunk its own exception before it is written.

Pointers into the snapshot list are slot numbers: the list is an array that `delete_snap` compacts in place, so that a
pointer that is kept across a deletion reads whatever its slot holds then.
-/

namespace Ddsnap

variable {D : Type}

/-! ### The snapshot list -/

/-- `find_snap`: the slot of a tag. -/
def findSnap (sb : Sb D) (tag : Nat) : Option Nat :=
  (List.range sb.image.snapshots).find? fun i => (sb.image.snaplist i).tag = tag

/-- `usecount`, a 16-bit sum of the transient and the persistent count. -/
def usecount (sb : Sb D) (snap : Snapshot) : Nat :=
  ((if isSquashed snap then 0 else sb.usecount snap.bit) + snap.usecount) % 2 ^ 16

/-- The loop of `find_victim` and `find_unused`: `skip snap best` keeps the best slot found so far. -/
def bestSlot (sb : Sb D) (skip : Snapshot → Snapshot → Bool) : Nat :=
  ((List.range sb.image.snapshots).drop 1).foldl (fun best i =>
    if skip (sb.image.snaplist i) (sb.image.snaplist best) then best else i) 0

/-- `find_victim`, on a list that is not empty. -/
def findVictim (sb : Sb D) : Nat :=
  bestSlot sb fun snap best =>
    isSquashed snap ||
    (!isSquashed best && (usecount sb snap ≠ 0 && usecount sb best = 0)) ||
    (!isSquashed best && ((usecount sb snap = 0) = (usecount sb best = 0)) && best.prio ≤ snap.prio)

/-- `find_unused`, on a list that is not empty. -/
def findUnused (sb : Sb D) : Nat :=
  bestSlot sb fun snap best =>
    (usecount sb snap ≠ 0 && usecount sb best = 0) ||
    (((usecount sb snap = 0) = (usecount sb best = 0)) && best.prio ≤ snap.prio)

/-- The `memmove` of `delete_snap`: a slot is compressed out of the list, and the last slot keeps its content. -/
def removeSlot (image : Disksuper) (i : Nat) : Disksuper :=
  { image with
    snapshots := image.snapshots - 1
    snaplist := fun j => if i ≤ j ∧ j < image.snapshots - 1 then image.snaplist (j + 1) else image.snaplist j }

def deleteSnap (sb : Sb D) (i : Nat) : Option (Sb D) :=
  let snap := sb.image.snaplist i
  if isSquashed snap then some (setSbDirty { sb with image := removeSlot sb.image i })
  else do
    let sb := setSbDirty { sb with
      usecount := Function.update sb.usecount snap.bit 0
      image := removeSlot sb.image i }
    let sb ← commitDeferredAllocs sb
    deleteTreeRange sb (maskBit snap.bit) 0

/-- The recount of the snapshot data in `auto_delete_snapshot`, when no snapshot is left to delete. -/
def recountSnapdata (sb : Sb D) : Sb D :=
  if sb.image.snapdata.freechunks < sb.image.snapdata.chunks then
    { sb with image := { sb.image with
      snapdata := { sb.image.snapdata with freechunks := countFree sb .snapdata } } }
  else sb

/-- The recount of separate metadata. -/
def recountMetadata (sb : Sb D) : Sb D :=
  let bits := sb.image.metadata.allocsizeBits
  let base := (2 ^ 12 + 2 * 2 ^ bits - 1) / 2 ^ bits
  let reserved := (base + sb.image.metadata.bitmapBlocks + sb.image.journalSize +
    sb.image.metadata.bitmapBlocks + 1 + sb.image.snapdata.bitmapBlocks) % 2 ^ 32
  if (sb.image.metadata.freechunks + reserved) % 2 ^ 64 < sb.image.metadata.chunks then
    { sb with image := { sb.image with
      metadata := { sb.image.metadata with freechunks := countFree sb .metadata } } }
  else sb

/-- The recount of `auto_delete_snapshot`. -/
def recountFree (sb : Sb D) : Sb D :=
  if sb.combined then recountSnapdata sb else recountMetadata (recountSnapdata sb)

private theorem recountSnapdata_eq (sb : Sb D) : ∃ snapfree, recountSnapdata sb = { sb with image := { sb.image with
    snapdata := { sb.image.snapdata with freechunks := snapfree } } } := by
  unfold recountSnapdata
  split <;> exact ⟨_, rfl⟩

private theorem recountMetadata_eq (sb : Sb D) : ∃ metafree, recountMetadata sb = { sb with image := { sb.image with
    metadata := { sb.image.metadata with freechunks := metafree } } } := by
  unfold recountMetadata
  dsimp only
  split <;> exact ⟨_, rfl⟩

/-- The recount sets counters only. -/
theorem recountFree_eq (sb : Sb D) : ∃ metafree snapfree, recountFree sb = { sb with image := { sb.image with
    metadata := { sb.image.metadata with freechunks := metafree }
    snapdata := { sb.image.snapdata with freechunks := snapfree } } } := by
  obtain ⟨snapfree, hsnap⟩ := recountSnapdata_eq sb
  unfold recountFree
  rw [hsnap]
  split
  · exact ⟨_, snapfree, rfl⟩
  · obtain ⟨metafree, hmeta⟩ := recountMetadata_eq { sb with image := { sb.image with
      snapdata := { sb.image.snapdata with freechunks := snapfree } } }
    exact ⟨metafree, snapfree, hmeta⟩

/-- The squash of `auto_delete_snapshot`: a snapshot in use loses its exceptions and its bit, and stays listed. -/
def squashSnap (sb : Sb D) (i : Nat) : Option (Sb D) := do
  let bit := (sb.image.snaplist i).bit
  let sb ← commitDeferredAllocs sb
  let sb ← deleteTreeRange sb (maskBit bit) 0
  return { sb with
    usecount := Function.update sb.usecount bit 0
    image := { sb.image with
      snaplist := Function.update sb.image.snaplist i { sb.image.snaplist i with bit := snapshotSquashed } } }

/-- `auto_delete_snapshot`.  The result is `false` for an error, `none` stands for the assertion of `find_victim`. -/
def autoDeleteSnapshot (sb : Sb D) : Option (Bool × Sb D) :=
  if sb.image.snapshots = 0 then none
  else
    let victim := sb.image.snaplist (findVictim sb)
    if isSquashed victim ∨ victim.prio = 127 then some (false, recountFree sb)
    else
      (if usecount sb victim ≠ 0 then squashSnap sb (findVictim sb) else deleteSnap sb (findVictim sb)).map
        fun sb => (true, sb)

/-- The loop of `ensure_free_chunks`, with a bound on the number of its rounds. -/
def ensureLoop (as : Space) (chunks : Nat) : Nat → Sb D → Option (Bool × Sb D)
  | 0, _ => none
  | rounds + 1, sb =>
    if chunks ≤ (sb.asi as).freechunks then some (true, sb)
    else do
      let (ok, sb) ← autoDeleteSnapshot sb
      if ok ∧ sb.image.snapshots ≠ 0 then ensureLoop as chunks rounds sb else return (false, sb)

/-- `ensure_free_chunks`.  Every round deletes or squashes a snapshot that is not squashed yet. -/
def ensureFreeChunks (sb : Sb D) (as : Space) (chunks : Nat) : Option (Bool × Sb D) :=
  ensureLoop as chunks (sb.image.snapshots + 1) sb

/-! ### Copies -/

/-- `1ULL << chunk_highbit`, the mark of a source chunk in the snapshot store. -/
def highbit : Nat := 2 ^ 63

/-- `finish_copyout`: the pending chunks are read, then written to the snapshot store. -/
def finishCopyout (sb : Sb D) : Sb D :=
  if sb.copyChunks = 0 then sb
  else
    let source := sb.dev (if highbit ≤ sb.sourceChunk then sb.snapdev else .orgdev)
    { sb with
      dev := Function.update sb.dev sb.snapdev fun c =>
        if sb.destException ≤ c ∧ c < sb.destException + sb.copyChunks then
          source (sb.sourceChunk % highbit + (c - sb.destException))
        else sb.dev sb.snapdev c
      copyChunks := 0 }

/-- `copyout`: the copy of a chunk is added to the pending one if it continues it; else the pending one is finished
first. -/
def copyout (sb : Sb D) (chunk exception : Nat) : Sb D :=
  if sb.sourceChunk + sb.copyChunks = chunk ∧ sb.destException + sb.copyChunks = exception ∧
      sb.copyChunks < sb.copybufChunks then
    { sb with copyChunks := sb.copyChunks + 1 }
  else { finishCopyout sb with copyChunks := 1, sourceChunk := chunk, destException := exception }

/-! ### `make_unique` -/

def maxNewMetachunks : Nat := 10

/-- The check for free space at the start of `make_unique`. -/
def spaceCheck (sb : Sb D) : Option (Bool × Sb D) :=
  if sb.combined then ensureFreeChunks sb .metadata (maxNewMetachunks + 1)
  else do
    let (ok, sb) ← ensureFreeChunks sb .metadata maxNewMetachunks
    if ok then ensureFreeChunks sb .snapdata 1 else return (false, sb)

/-- There is free space: the check deletes nothing. -/
def EnoughRoom (sb : Sb D) : Prop :=
  if sb.combined then maxNewMetachunks + 1 ≤ (sb.asi .metadata).freechunks
  else maxNewMetachunks ≤ (sb.asi .metadata).freechunks ∧ 1 ≤ (sb.asi .snapdata).freechunks

instance (sb : Sb D) : Decidable (EnoughRoom sb) :=
  inferInstanceAs (Decidable (if sb.combined then maxNewMetachunks + 1 ≤ (sb.asi .metadata).freechunks
    else maxNewMetachunks ≤ (sb.asi .metadata).freechunks ∧ 1 ≤ (sb.asi .snapdata).freechunks))

private theorem ensureFreeChunks_enough {sb : Sb D} {as : Space} {chunks : Nat} (hs : chunks ≤ (sb.asi as).freechunks) :
    ensureFreeChunks sb as chunks = some (true, sb) := by
  unfold ensureFreeChunks ensureLoop
  rw [if_pos hs]

theorem spaceCheck_enough {sb : Sb D} (h : EnoughRoom sb) : spaceCheck sb = some (true, sb) := by
  unfold EnoughRoom at h
  unfold spaceCheck
  split_ifs at h ⊢
  · exact ensureFreeChunks_enough h
  · rw [ensureFreeChunks_enough h.1, Option.bind_eq_bind, Option.bind_some]
    exact ensureFreeChunks_enough h.2

/-- Any number of calls of `auto_delete_snapshot`. -/
def Deletions : Sb D → Sb D → Prop :=
  Relation.ReflTransGen fun sb sb' => ∃ ok, autoDeleteSnapshot sb = some (ok, sb')

section
variable {sb sb' : Sb D} {ok : Bool}

/-- What every automatic deletion keeps. -/
theorem Deletions.keeps {P : Sb D → Prop} (h : Deletions sb sb') (hp : P sb)
    (hauto : ∀ {sb sb' : Sb D} {ok : Bool}, P sb → autoDeleteSnapshot sb = some (ok, sb') → P sb') : P sb' := by
  induction h with
  | refl => exact hp
  | tail _ hstep ih =>
    obtain ⟨ok, hstep⟩ := hstep
    exact hauto ih hstep

private theorem ensureLoop_deletions {as : Space} {chunks rounds : Nat}
    (h : ensureLoop as chunks rounds sb = some (ok, sb')) : Deletions sb sb' := by
  induction rounds generalizing sb with
  | zero => cases h
  | succ rounds ih =>
    unfold ensureLoop at h
    split_ifs at h
    · cases h
      exact .refl
    · obtain ⟨⟨ok1, sb1⟩, h1, h2⟩ := Option.bind_eq_some_iff.1 h
      refine .head ⟨ok1, h1⟩ ?_
      dsimp only at h2
      split_ifs at h2
      · exact ih h2
      · cases h2
        exact .refl

theorem spaceCheck_deletions (h : spaceCheck sb = some (ok, sb')) : Deletions sb sb' := by
  unfold spaceCheck at h
  split_ifs at h
  · exact ensureLoop_deletions h
  · obtain ⟨⟨ok1, sb1⟩, h1, h2⟩ := Option.bind_eq_some_iff.1 h
    dsimp only at h2
    split_ifs at h2
    · exact (ensureLoop_deletions h1).trans (ensureLoop_deletions h2)
    · cases h2
      exact ensureLoop_deletions h1

private theorem ensureFreeChunks_short {as : Space} {chunks : Nat} (hs : ¬chunks ≤ (sb.asi as).freechunks)
    (h : ensureFreeChunks sb as chunks = some (ok, sb')) : ∃ ok1 sb1, autoDeleteSnapshot sb = some (ok1, sb1) ∧
      Deletions sb1 sb' ∧ (ok1 = false → ok = false ∧ sb' = sb1) := by
  unfold ensureFreeChunks ensureLoop at h
  rw [if_neg hs] at h
  obtain ⟨⟨ok1, sb1⟩, h1, h2⟩ := Option.bind_eq_some_iff.1 h
  refine ⟨ok1, sb1, h1, ?_⟩
  dsimp only at h2
  split_ifs at h2 with hgo
  · exact ⟨ensureLoop_deletions h2, fun hf => by simp [hf] at hgo⟩
  · cases h2
    exact ⟨.refl, fun _ => ⟨rfl, rfl⟩⟩

/-- A store that is short of chunks starts with a deletion, and its check fails if this does. -/
theorem spaceCheck_short (hr : ¬EnoughRoom sb) (h : spaceCheck sb = some (ok, sb')) :
    ∃ ok1 sb1, autoDeleteSnapshot sb = some (ok1, sb1) ∧ Deletions sb1 sb' ∧
      (ok1 = false → ok = false ∧ sb' = sb1) := by
  unfold EnoughRoom at hr
  unfold spaceCheck at h
  split_ifs at h hr
  · exact ensureFreeChunks_short hr h
  · obtain ⟨⟨ok1, sb1⟩, h1, h2⟩ := Option.bind_eq_some_iff.1 h
    dsimp only at h2
    by_cases hm : maxNewMetachunks ≤ (sb.asi .metadata).freechunks
    · -- only the snapshot data is short
      rw [ensureFreeChunks_enough hm] at h1
      cases h1
      exact ensureFreeChunks_short (fun hs => hr ⟨hm, hs⟩) h2
    · obtain ⟨ok2, sb2, h3, hd, hfail⟩ := ensureFreeChunks_short hm h1
      refine ⟨ok2, sb2, h3, ?_⟩
      split_ifs at h2 with hok
      · exact ⟨hd.trans (ensureLoop_deletions h2), fun hf => by simp [(hfail hf).1] at hok⟩
      · cases h2
        exact ⟨hd, fun hf => ⟨rfl, (hfail hf).2⟩⟩

end

/-- The lookup of `make_unique`: whether the chunk is unique already, and the exception that was found. -/
def chunkUnique (sb : Sb D) (leafbuf chunk : Nat) (snapbit : Option Nat) : Bool × Option Nat :=
  match snapbit with
  | none => (originChunkUnique (leafAt sb.mem leafbuf) chunk sb.snapmask, none)
  | some bit => snapshotChunkUnique (leafAt sb.mem leafbuf) chunk bit

/-- The source of a copy: the exception that is shared, or else the chunk of the origin. -/
def copySource (chunk : Nat) (exception : Option Nat) : Nat :=
  if exception.getD 0 = 0 then chunk else exception.getD 0 + highbit

/-- `make_unique` after its check for free space.  The result is the exception, 0 when there is none, and `none` for an
error; the outer `none` stands for the end of the server when no chunk can be allocated. -/
def uniqueException (sb : Sb D) (chunk : Nat) (snapbit : Option Nat) : Option (Option Nat × Sb D) := do
  let (path, leafbuf) ← probe sb chunk
  let (unique, exception) := chunkUnique sb leafbuf chunk snapbit
  if unique then return (some (exception.getD 0), sb)
  else
    let (newex, sb) ← allocChunk sb .snapdata
    let (ok, sb) := addExceptionToTree (copyout sb (copySource chunk exception) newex) leafbuf chunk newex snapbit path
    return if ok then (some newex, sb) else (none, freeException sb newex)

/-- `make_unique`, for the origin (`none`) or for the snapshot with a bit. -/
def makeUnique (sb : Sb D) (chunk : Nat) (snapbit : Option Nat) : Option (Option Nat × Sb D) := do
  let (ok, sb) ← spaceCheck sb
  if ok then uniqueException sb chunk snapbit else return (none, sb)

theorem makeUnique_enough {sb : Sb D} (h : EnoughRoom sb) (chunk : Nat) (snapbit : Option Nat) :
    makeUnique sb chunk snapbit = uniqueException sb chunk snapbit := by
  unfold makeUnique
  rw [spaceCheck_enough h]
  rfl

/-! ### New snapshots -/

/-- The loop of `create_snapshot` for a free bit. -/
def freeBit (snapmask : Mask) : Option Nat := (List.range maxSnapshots).find? fun i => snapmask &&& maskBit i = 0

/-- The start of `create_snapshot`: an unused snapshot is deleted when the list is full. -/
def makeRoom (sb : Sb D) : Option (Sb D) :=
  if maxSnapshots ≤ sb.image.snapshots ∧ usecount sb (sb.image.snaplist (findUnused sb)) = 0 then
    deleteSnap sb (findUnused sb)
  else some sb

/-- `create_snapshot`: the bit of the new snapshot, or `none` for an error. -/
def createSnapshot (sb : Sb D) (tag : Nat) : Option (Option Nat × Sb D) := do
  let sb ← makeRoom sb
  if maxSnapshots ≤ sb.image.snapshots then return (none, sb)
  else if (findSnap sb tag).isSome then return (none, sb)
  else
    match freeBit sb.snapmask with
    | none => return (none, sb)
    | some bit =>
      let snap : Snapshot := { tag := tag, usecount := 0, bit := bit, prio := 0, sectors := sb.image.orgsectors }
      return (some bit, setSbDirty { sb with
        snapmask := sb.snapmask ||| maskBit bit
        image := { sb.image with
          snaplist := Function.update sb.image.snaplist sb.image.snapshots snap
          snapshots := sb.image.snapshots + 1 } })

end Ddsnap
