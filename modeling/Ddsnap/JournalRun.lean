import Ddsnap.Checksum
import Ddsnap.Lib.Reach
import Ddsnap.Replay

/-!
# Runs of the journal

The server edits metadata blocks through their buffers, allocates and frees chunks, and commits.  A run starts from a
freshly initialised journal and carries the history of its transactions along; `Journaling.Inv` ties the history to
the content of the journal in every state of a run.
-/

namespace Ddsnap

variable {D : Type}

/-! ### Edits -/

/-- No allocation is deferred. -/
def NoDefer (sb : Sb D) : Prop := sb.defer.count = 0 ∧ sb.deferredAlloc = []

/-- `sb'` differs from `sb` in the counters, the dirty flag of the superblock and, when allocations are deferred, in
the deferred ranges only. -/
structure SameBlocks (sb sb' : Sb D) : Prop where
  eq : ∃ m s, sb' = { sb with
    image := { sb.image with
      metadata := { sb.image.metadata with freechunks := sb'.image.metadata.freechunks, lastAlloc := m }
      snapdata := { sb.image.snapdata with freechunks := sb'.image.snapdata.freechunks, lastAlloc := s } }
    sbDirty := sb'.sbDirty
    defer := sb'.defer
    deferredAlloc := sb'.deferredAlloc }
  deferred : sb.deferring = false → NoDefer sb → NoDefer sb'

/-- Blocks are edited and dirtied, and counters change. -/
inductive Edits (sb : Sb D) : Sb D → Prop where
  | refl : Edits sb sb
  | touch {sb1 : Sb D} {s : Nat} {b : Block D} : Edits sb sb1 → 0 < s → asCommit b = none →
      Edits sb (setBufferDirty (sb1.store s b) s)
  | count {sb1 sb2 : Sb D} : Edits sb sb1 → SameBlocks sb1 sb2 → Edits sb sb2

theorem Edits.trans {sb sb1 sb2 : Sb D} (h1 : Edits sb sb1) (h2 : Edits sb1 sb2) : Edits sb sb2 := by
  induction h2 with
  | refl => exact h1
  | touch _ hs hb ih => exact ih.touch hs hb
  | count _ hc ih => exact ih.count hc

/-- The part of the superblock that edits leave alone. -/
structure Fixed (sb sb' : Sb D) : Prop where
  journal : sb'.journal = sb.journal
  journalSize : sb'.image.journalSize = sb.image.journalSize
  journalNext : sb'.image.journalNext = sb.image.journalNext
  sequence : sb'.image.sequence = sb.image.sequence
  bits : sb'.image.metadata.allocsizeBits = sb.image.metadata.allocsizeBits
  metabase : sb'.image.metadata.bitmapBase = sb.image.metadata.bitmapBase
  snapbase : sb'.image.snapdata.bitmapBase = sb.image.snapdata.bitmapBase
  dev : sb'.dev = sb.dev
  diskSuper : sb'.diskSuper = sb.diskSuper
  committed : sb'.committed = sb.committed
  deferring : sb'.deferring = sb.deferring
  maxCommitBlocks : sb'.maxCommitBlocks = sb.maxCommitBlocks

private theorem Fixed.refl (sb : Sb D) : Fixed sb sb := ⟨rfl, rfl, rfl, rfl, rfl, rfl, rfl, rfl, rfl, rfl, rfl, rfl⟩

private theorem Fixed.trans {sb sb1 sb2 : Sb D} (h1 : Fixed sb sb1) (h2 : Fixed sb1 sb2) : Fixed sb sb2 :=
  ⟨h2.journal.trans h1.journal, h2.journalSize.trans h1.journalSize, h2.journalNext.trans h1.journalNext,
    h2.sequence.trans h1.sequence, h2.bits.trans h1.bits, h2.metabase.trans h1.metabase,
    h2.snapbase.trans h1.snapbase, h2.dev.trans h1.dev, h2.diskSuper.trans h1.diskSuper,
    h2.committed.trans h1.committed, h2.deferring.trans h1.deferring, h2.maxCommitBlocks.trans h1.maxCommitBlocks⟩

private theorem SameBlocks.fixed {sb sb' : Sb D} (h : SameBlocks sb sb') : Fixed sb sb' := by
  obtain ⟨m, s, he⟩ := h.eq
  constructor <;> rw [he]

theorem fixed_touch (sb : Sb D) (s : Nat) (b : Block D) : Fixed sb (setBufferDirty (sb.store s b) s) := by
  unfold setBufferDirty Sb.store
  split <;> exact ⟨rfl, rfl, rfl, rfl, rfl, rfl, rfl, rfl, rfl, rfl, rfl, rfl⟩

theorem Edits.fixed {sb sb' : Sb D} (h : Edits sb sb') : Fixed sb sb' := by
  induction h with
  | refl => exact Fixed.refl _
  | touch _ _ _ ih => exact ih.trans (fixed_touch _ _ _)
  | count _ hc ih => exact ih.trans hc.fixed

theorem Edits.noDefer {sb sb' : Sb D} (h : Edits sb sb') (hd : sb.deferring = false) (hn : NoDefer sb) :
    NoDefer sb' := by
  induction h with
  | refl => exact hn
  | touch _ _ _ ih => unfold setBufferDirty; split <;> exact ih
  | count h1 hc ih => exact hc.deferred (h1.fixed.deferring.trans hd) ih

/-! ### The allocator edits blocks -/

section
variable {sb : Sb D}

private theorem sameBlocks_setAsi (sb : Sb D) (as : Space) (free last : Nat) :
    SameBlocks sb (sb.setAsi as { sb.asi as with freechunks := free, lastAlloc := last }) := by
  cases as with
  | metadata => exact ⟨⟨last, sb.image.snapdata.lastAlloc, rfl⟩, fun _ h => h⟩
  | snapdata =>
    unfold Sb.setAsi Sb.asi
    by_cases hc : sb.combined = true
    · simp only [hc, if_true]
      exact ⟨⟨last, sb.image.snapdata.lastAlloc, rfl⟩, fun _ h => h⟩
    · simp only [hc]
      exact ⟨⟨sb.image.metadata.lastAlloc, last, rfl⟩, fun _ h => h⟩

private theorem sameBlocks_setSbDirty (sb : Sb D) : SameBlocks sb (setSbDirty sb) :=
  ⟨⟨_, _, rfl⟩, fun _ h => h⟩

/-- The bitmaps do not start at block 0, which is before the superblock. -/
def BitmapsPlaced (sb : Sb D) : Prop := 0 < sb.image.metadata.bitmapBase ∧ 0 < sb.image.snapdata.bitmapBase

theorem Fixed.bitmapsPlaced {sb sb' : Sb D} (h : Fixed sb sb') (hb : BitmapsPlaced sb) : BitmapsPlaced sb' := by
  unfold BitmapsPlaced
  rw [h.metabase, h.snapbase]
  exact hb

private theorem BitmapsPlaced.asi (hb : BitmapsPlaced sb) (as : Space) : 0 < (sb.asi as).bitmapBase := by
  cases as with
  | metadata => exact hb.1
  | snapdata =>
    unfold Sb.asi
    dsimp only
    split
    · exact hb.1
    · exact hb.2

private theorem bitmapBlock_pos (sb : Sb D) {base : Nat} (hbase : 0 < base) (chunk : Nat) :
    0 < sb.bitmapBlock base chunk :=
  Nat.lt_of_lt_of_le hbase (Nat.le_add_right _ _)

private theorem edits_markChunk {base : Nat} (hbase : 0 < base) (chunk : Nat) : Edits sb (markChunk sb base chunk) :=
  Edits.refl.touch (bitmapBlock_pos sb hbase chunk) rfl

private theorem edits_setAllocated (hb : BitmapsPlaced sb) (chunk count : Nat) : Edits sb
    (setAllocated sb chunk count) := by
  unfold setAllocated
  generalize List.range count = l
  induction l generalizing sb with
  | nil => exact .refl
  | cons i l ih =>
    have h1 : Edits sb (markChunk sb _ (chunk + i)) := edits_markChunk hb.1 _
    exact h1.trans (ih (h1.fixed.bitmapsPlaced hb))

theorem edits_flushDeferredAllocs (hb : BitmapsPlaced sb) : Edits sb (flushDeferredAllocs sb) := by
  have hfold : ∀ (l : List AllocRange) (sb : Sb D), BitmapsPlaced sb →
      Edits sb (l.foldl (fun sb r => setAllocated sb r.chunk r.count) sb) := by
    intro l
    induction l with
    | nil => intro sb _; exact .refl
    | cons r l ih =>
      intro sb hb
      have h1 := edits_setAllocated hb r.chunk r.count
      exact h1.trans (ih _ (h1.fixed.bitmapsPlaced hb))
  exact (hfold _ _ hb).count ⟨⟨_, _, rfl⟩, fun _ h => ⟨h.1, rfl⟩⟩

private theorem edits_takeChunk (hb : BitmapsPlaced sb) (as : Space) (chunk : Nat) : Edits sb
    (takeChunk sb as chunk) := by
  unfold takeChunk
  refine Edits.count (Edits.count ?_ (sameBlocks_setAsi _ _ _ _)) (sameBlocks_setSbDirty _)
  split
  · rename_i h
    exact Edits.refl.count ⟨⟨_, _, rfl⟩, fun hd _ => by simp [hd] at h⟩
  · split
    · rename_i h
      exact Edits.refl.count ⟨⟨_, _, rfl⟩, fun hd _ => by simp [hd] at h⟩
    · exact edits_markChunk (hb.asi as) chunk

theorem edits_allocChunk (hb : BitmapsPlaced sb) {as : Space} {found : Nat} {sb' : Sb D}
    (h : allocChunk sb as = some (found, sb')) : Edits sb sb' := by
  have hrange : ∀ {start n c : Nat} {sb1 : Sb D}, allocChunkFromRange sb as start n = some (c, sb1) → Edits sb sb1 := by
    intro start n c sb1 h1
    unfold allocChunkFromRange at h1
    split at h1
    · cases h1
    · cases h1; exact edits_takeChunk hb as _
  unfold allocChunk at h
  dsimp only at h
  split at h
  · cases h
  · rename_i c sb1 h1
    cases h
    have h2 : Edits sb sb1 := by
      cases hr : allocChunkFromRange sb as (sb.asi as).lastAlloc ((sb.asi as).chunks - (sb.asi as).lastAlloc) with
      | none =>
        rw [hr] at h1
        change allocChunkFromRange sb as 0 (sb.asi as).lastAlloc = _ at h1
        exact hrange h1
      | some p => rw [hr] at h1; cases h1; exact hrange hr
    exact (h2.count (sameBlocks_setAsi _ _ _ _)).count (sameBlocks_setSbDirty _)

private theorem edits_freeChunk (hb : BitmapsPlaced sb) (as : Space) (chunk : Nat) : Edits sb
    (freeChunk sb as chunk) := by
  unfold freeChunk
  split
  · have hpos := bitmapBlock_pos sb (hb.asi as) chunk
    exact ((Edits.refl.touch hpos rfl).count (sameBlocks_setAsi _ _ _ _)).count (sameBlocks_setSbDirty _)
  · exact .refl

end

/-! ### Calls -/

/-- What the server does to the journaled blocks. -/
inductive Call (D : Type) where
  /-- A block is edited in its buffer and dirtied. -/
  | edit (s : Nat) (b : Block D) (pos : 0 < s) (noMagic : asCommit b = none)
  | alloc (as : Space)
  | free (as : Space) (chunk : Nat)
  /-- The buffer of a freed block is emptied, as in `brelse_free`. -/
  | release (s : Nat)
  | save
  | commit
  /-- The second half of `commit_deferred_allocs`. -/
  | barrier
  | check

/-- `commit_transaction` has nothing to do. -/
def Sb.idle (sb : Sb D) : Bool := sb.dirtyBuffers = [] ∧ sb.defer.count = 0

/-- The `commit_transaction` that a call makes: the state in which it is called, and its barrier flag. -/
def Call.commits (sb : Sb D) : Call D → Option (Sb D × Bool)
  | .commit => some (sb, false)
  | .barrier => some (flushJournaledBuffers (flushDeferredAllocs sb), true)
  | .check =>
    if (sb.image.journalSize : Int) - maxBtreeDirty ≤ sb.dirtyBuffers.length then some (sb, false) else none
  | _ => none

/-- One call.  `none` stands for the end of the server by an assertion or an error. -/
def Call.step (sb : Sb D) : Call D → Option (Sb D)
  | .edit s b _ _ => some (setBufferDirty (sb.store s b) s)
  | .alloc as => (allocChunk sb as).map Prod.snd
  | .free as chunk => some (freeChunk sb as chunk)
  | .release s => some (setBufferEmpty sb s)
  | .save => some (saveSb sb)
  | .commit => commitTransaction sb false
  | .barrier => if sb.idle then commitTransaction (flushJournaledBuffers (flushDeferredAllocs sb)) true else none
  | .check => dirtyBufferCountCheck sb

/-- A store with the history of its transactions. -/
structure Journaling (D : Type) where
  sb : Sb D
  history : List (Txn D)

/-- The transaction that `commit_transaction` writes. -/
def commitTxns (sb : Sb D) (barrier : Bool) : List (Txn D) :=
  if sb.idle then [] else [openTxn (flushIfNeeded sb) (barrier || sb.mustFlush)]

/-- One call, with the transaction it writes added to the history. -/
def Journaling.step (st : Journaling D) (c : Call D) : Option (Journaling D) :=
  (c.step st.sb).map fun sb' =>
    ⟨sb', st.history ++ match c.commits st.sb with
      | some (sb1, barrier) => commitTxns sb1 barrier
      | none => []⟩

/-- A store whose journal is about to be initialised, with a clean cache. -/
structure Blank (sb : Sb D) : Prop where
  size_pos : 0 < sb.image.journalSize
  size_lt : sb.image.journalSize < 2 ^ 31
  next : sb.image.journalNext = 0
  sequence : sb.image.sequence = sb.image.journalSize
  bits : 9 ≤ sb.image.metadata.allocsizeBits
  placed : BitmapsPlaced sb
  dirty : sb.dirtyBuffers = []
  journaled : sb.journaledBuffers = []
  noDefer : NoDefer sb
  disk : sb.diskSuper.journalSize = sb.image.journalSize
  diskBits : sb.diskSuper.metadata.allocsizeBits = sb.image.metadata.allocsizeBits
  mem : sb.mem = sb.dev .metadev
  committed : sb.committed = sb.mem

/-- A freshly initialised journal. -/
def Journaling.Fresh (st : Journaling D) : Prop := ∃ sb, Blank sb ∧ st = ⟨initJournal sb, []⟩

/-- The states that runs from a freshly initialised journal reach, when every call meets `ok`. -/
abbrev Journaling.Reached (ok : Journaling D → Call D → Prop) : Journaling D → Prop :=
  Reach.Run Journaling.step ok Journaling.Fresh

section
variable {sb sb' : Sb D} {barrier : Bool} {c : Call D}

theorem commitTransaction_idle (h : sb.idle = true) : commitTransaction sb barrier = some sb := by
  unfold commitTransaction
  rw [if_pos (by simpa [Sb.idle] using h)]

/-- What a call of `commit_transaction` can do. -/
theorem commitTransaction_cases (h : commitTransaction sb barrier = some sb') :
    (sb.idle = true ∧ sb' = sb) ∨
      (sb.idle = false ∧ (flushIfNeeded sb).dirtyBuffers.length ≤ (flushIfNeeded sb).maxCommitBlocks ∧
        sb' = retireDirty (logTransaction (flushIfNeeded sb) (barrier || sb.mustFlush))
          (barrier || sb.mustFlush)) := by
  cases hi : sb.idle with
  | true => rw [commitTransaction_idle hi] at h; cases h; exact .inl ⟨rfl, rfl⟩
  | false =>
    unfold commitTransaction at h
    rw [if_neg (by simpa [Sb.idle] using hi)] at h
    dsimp only at h
    split at h
    · cases h; exact .inr ⟨rfl, by assumption, rfl⟩
    · cases h

/-- What a call can do. -/
theorem Call.step_cases (hb : BitmapsPlaced sb) (h : c.step sb = some sb') :
    (c.commits sb = none ∧ (Edits sb sb' ∨ (∃ s, c = .release s ∧ sb' = setBufferEmpty sb s) ∨ sb' = saveSb sb)) ∨
      ∃ sb1 barrier, c.commits sb = some (sb1, barrier) ∧ commitTransaction sb1 barrier = some sb' ∧
        ((sb1 = sb ∧ barrier = false) ∨
          (sb.idle = true ∧ sb1 = flushJournaledBuffers (flushDeferredAllocs sb) ∧ barrier = true)) := by
  cases c with
  | edit s b hs hm => cases h; exact .inl ⟨rfl, .inl (Edits.refl.touch hs hm)⟩
  | alloc as =>
    obtain ⟨p, hp, rfl⟩ := Option.map_eq_some_iff.1 h
    exact .inl ⟨rfl, .inl (edits_allocChunk hb hp)⟩
  | free as chunk => cases h; exact .inl ⟨rfl, .inl (edits_freeChunk hb as chunk)⟩
  | release s => cases h; exact .inl ⟨rfl, .inr (.inl ⟨s, rfl, rfl⟩)⟩
  | save => cases h; exact .inl ⟨rfl, .inr (.inr rfl)⟩
  | commit => exact .inr ⟨sb, false, rfl, h, .inl ⟨rfl, rfl⟩⟩
  | barrier =>
    simp only [Call.step] at h
    split at h
    · rename_i hi; exact .inr ⟨_, true, rfl, h, .inr ⟨hi, rfl, rfl⟩⟩
    · cases h
  | check =>
    simp only [Call.step, dirtyBufferCountCheck] at h
    simp only [Call.commits]
    split at h
    · split at h
      · cases h
      · rename_i hc _
        exact .inr ⟨sb, false, by rw [if_pos hc], h, .inl ⟨rfl, rfl⟩⟩
    · rename_i hc
      cases h
      exact .inl ⟨by rw [if_neg hc], .inl .refl⟩

end

/-! ### What no call changes -/

/-- The block size, the size of the journal and the run flag are the same. -/
structure SameGeometry (sb sb' : Sb D) : Prop where
  journalSize : sb'.image.journalSize = sb.image.journalSize
  bits : sb'.image.metadata.allocsizeBits = sb.image.metadata.allocsizeBits
  deferring : sb'.deferring = sb.deferring
  placed : BitmapsPlaced sb → BitmapsPlaced sb'

section
variable {sb sb1 sb' : Sb D} {barrier : Bool} {c : Call D}

theorem SameGeometry.refl (sb : Sb D) : SameGeometry sb sb := ⟨rfl, rfl, rfl, id⟩

theorem SameGeometry.trans (h1 : SameGeometry sb sb1) (h2 : SameGeometry sb1 sb') : SameGeometry sb sb' :=
  ⟨h2.journalSize.trans h1.journalSize, h2.bits.trans h1.bits, h2.deferring.trans h1.deferring,
    fun h => h2.placed (h1.placed h)⟩

private theorem Fixed.geometry (h : Fixed sb sb') : SameGeometry sb sb' :=
  ⟨h.journalSize, h.bits, h.deferring, h.bitmapsPlaced⟩

private theorem geometry_flushJournaled (sb : Sb D) : SameGeometry sb (flushJournaledBuffers sb) := ⟨rfl, rfl, rfl, id⟩

theorem geometry_flushIfNeeded (hb : BitmapsPlaced sb) : SameGeometry sb (flushIfNeeded sb) := by
  unfold flushIfNeeded
  split
  · have hpl : BitmapsPlaced (flushJournaledBuffers sb) := hb
    exact (geometry_flushJournaled sb).trans (edits_flushDeferredAllocs hpl).fixed.geometry
  · exact .refl sb

theorem geometry_writeJournal (sb : Sb D) (bs : List (Block D)) : SameGeometry sb (writeJournal sb bs) := by
  rw [writeJournal_eq]
  exact ⟨rfl, rfl, rfl, id⟩

private theorem geometry_logTransaction (sb : Sb D) (barrier : Bool) : SameGeometry sb (logTransaction sb barrier) := by
  refine (geometry_writeJournal sb (transactionBlocks sb barrier)).trans ?_
  unfold logTransaction pushDefer
  dsimp only
  split <;> exact ⟨rfl, rfl, rfl, id⟩

private theorem geometry_retireDirty (sb : Sb D) (barrier : Bool) : SameGeometry sb (retireDirty sb barrier) := by
  unfold retireDirty
  split <;> exact ⟨rfl, rfl, rfl, id⟩

private theorem geometry_commitTransaction (hb : BitmapsPlaced sb) (h : commitTransaction sb barrier = some sb') :
    SameGeometry sb sb' := by
  rcases commitTransaction_cases h with ⟨-, rfl⟩ | ⟨-, -, rfl⟩
  · exact .refl _
  · exact ((geometry_flushIfNeeded hb).trans (geometry_logTransaction _ _)).trans (geometry_retireDirty _ _)

theorem Call.geometry_commits (hb : BitmapsPlaced sb) (hc : c.commits sb = some (sb1, barrier)) :
    SameGeometry sb sb1 := by
  cases c with
  | commit => cases hc; exact .refl _
  | barrier => cases hc; exact (edits_flushDeferredAllocs hb).fixed.geometry.trans (geometry_flushJournaled _)
  | check =>
    simp only [Call.commits] at hc
    split at hc
    · cases hc; exact .refl _
    · cases hc
  | _ => cases hc

theorem Call.geometry_step (hb : BitmapsPlaced sb) (h : c.step sb = some sb') : SameGeometry sb sb' := by
  rcases c.step_cases hb h with ⟨-, he | ⟨s, -, rfl⟩ | rfl⟩ | ⟨sb1, barrier, hcom, hct, -⟩
  · exact he.fixed.geometry
  · exact ⟨rfl, rfl, rfl, id⟩
  · unfold saveSb
    split <;> exact ⟨rfl, rfl, rfl, id⟩
  · have hg := Call.geometry_commits hb hcom
    exact hg.trans (geometry_commitTransaction (hg.placed hb) hct)

end

/-! ### The invariant of a run -/

/-- The buffer lists: no buffer is on two lists or twice on one, and the dirty buffers are buffers of metadata
blocks. -/
structure Buffered (sb : Sb D) : Prop where
  dirty_nodup : sb.dirtyBuffers.Nodup
  journaled_nodup : sb.journaledBuffers.Nodup
  disjoint : ∀ s ∈ sb.journaledBuffers, s ∉ sb.dirtyBuffers
  pos : ∀ s ∈ sb.dirtyBuffers, 0 < s
  noMagic : ∀ s ∈ sb.dirtyBuffers, asCommit (sb.mem s) = none

/-- The transactions that `init_journal` left: no data, no deferred allocation, no barrier. -/
structure InitTxns (sb : Sb D) (init : List (Txn D)) : Prop where
  length_eq : init.length = sb.image.journalSize
  data : ∀ t ∈ init, t.data = []
  alloc : ∀ t ∈ init, t.commit.alloc = ⟨0, 0, false⟩
  checksum : 12 ≤ sb.image.metadata.allocsizeBits → ∀ t ∈ init,
    checksumBlock sb.image.metadata.allocsizeBits t.commit = 0

/-- What holds in every state of a run. -/
structure Journaling.Inv (st : Journaling D) : Prop where
  logged : ∃ init, Logged st.sb (init ++ st.history) [] ∧ InitTxns st.sb init
  noMagic : ∀ t ∈ st.history, t.NoMagic
  buffered : Buffered st.sb
  disk : st.sb.diskSuper.journalSize = st.sb.image.journalSize
  diskBits : st.sb.diskSuper.metadata.allocsizeBits = st.sb.image.metadata.allocsizeBits
  placed : BitmapsPlaced st.sb
  bits : 9 ≤ st.sb.image.metadata.allocsizeBits
  noDefer : st.sb.deferring = false → NoDefer st.sb ∧ st.sb.journaledBuffers = []

section
variable {sb sb' : Sb D} {barrier : Bool} {h : List (Txn D)}

private theorem Buffered.touch (hb : Buffered sb) {s : Nat} {b : Block D} (hs : 0 < s) (hm : asCommit b = none) :
    Buffered (setBufferDirty (sb.store s b) s) := by
  have hmem : ∀ u, u ∈ sb.dirtyBuffers ∨ u = s → asCommit (Function.update sb.mem s b u) = none := by
    intro u hu
    by_cases he : u = s
    · subst he; simpa using hm
    · rw [Function.update_of_ne he]; exact hb.noMagic u (hu.resolve_right he)
  unfold setBufferDirty Sb.store
  dsimp only
  split
  · exact ⟨hb.dirty_nodup, hb.journaled_nodup, hb.disjoint, hb.pos, fun u hu => hmem u (.inl hu)⟩
  · rename_i hns
    refine ⟨?_, hb.journaled_nodup.erase s, ?_, ?_, ?_⟩
    · rw [List.nodup_append]
      exact ⟨hb.dirty_nodup, by simp, by simp; rintro a ha rfl; exact hns ha⟩
    · intro u hu
      rw [hb.journaled_nodup.mem_erase_iff] at hu
      simp only [List.mem_append, List.mem_singleton, not_or]
      exact ⟨hb.disjoint u hu.2, hu.1⟩
    · intro u hu
      rcases List.mem_append.1 hu with hu | hu
      · exact hb.pos u hu
      · rw [List.mem_singleton] at hu; omega
    · intro u hu
      refine hmem u ?_
      simpa using hu

private theorem Edits.buffered (he : Edits sb sb') (hb : Buffered sb) : Buffered sb' := by
  induction he with
  | refl => exact hb
  | touch _ hs hm ih => exact ih.touch hs hm
  | count _ hc ih =>
    obtain ⟨m, s, heq⟩ := hc.eq
    rw [heq]
    exact ⟨ih.dirty_nodup, ih.journaled_nodup, ih.disjoint, ih.pos, ih.noMagic⟩

theorem Edits.journaled_nil (he : Edits sb sb') (hj : sb.journaledBuffers = []) : sb'.journaledBuffers = [] := by
  induction he with
  | refl => exact hj
  | @touch sb1 s b _ _ _ ih =>
    unfold setBufferDirty
    split
    · exact ih
    · show sb1.journaledBuffers.erase s = []
      rw [ih]; rfl
  | count _ hc ih =>
    obtain ⟨m, s, heq⟩ := hc.eq
    rw [heq]; exact ih

theorem InitTxns.congr {init : List (Txn D)} (hi : InitTxns sb init)
    (hs : sb'.image.journalSize = sb.image.journalSize)
    (hb : sb'.image.metadata.allocsizeBits = sb.image.metadata.allocsizeBits) : InitTxns sb' init :=
  ⟨hs ▸ hi.length_eq, hi.data, hi.alloc, hb ▸ hi.checksum⟩

private theorem Journaling.Inv.congr (hi : Journaling.Inv ⟨sb, h⟩) (hj : sb'.journal = sb.journal)
    (hsize : sb'.image.journalSize = sb.image.journalSize) (hnext : sb'.image.journalNext = sb.image.journalNext)
    (hseq : sb'.image.sequence = sb.image.sequence)
    (hbits : sb'.image.metadata.allocsizeBits = sb.image.metadata.allocsizeBits)
    (hdisk : sb'.diskSuper.journalSize = sb.image.journalSize)
    (hdiskBits : sb'.diskSuper.metadata.allocsizeBits = sb.image.metadata.allocsizeBits)
    (hplaced : BitmapsPlaced sb') (hbuf : Buffered sb')
    (hdefer : sb'.deferring = false → NoDefer sb' ∧ sb'.journaledBuffers = []) : Journaling.Inv ⟨sb', h⟩ := by
  obtain ⟨init, hl, hinit⟩ := hi.logged
  exact ⟨⟨init, hl.congr hj hsize hnext hseq, hinit.congr hsize hbits⟩, hi.noMagic, hbuf, hdisk.trans hsize.symm,
    hdiskBits.trans hbits.symm, hplaced, by show 9 ≤ sb'.image.metadata.allocsizeBits; rw [hbits]; exact hi.bits,
    hdefer⟩

theorem Journaling.Inv.edits (hi : Journaling.Inv ⟨sb, h⟩) (he : Edits sb sb') : Journaling.Inv ⟨sb', h⟩ := by
  have hf := he.fixed
  refine hi.congr hf.journal hf.journalSize hf.journalNext hf.sequence hf.bits ?_ ?_
    (hf.bitmapsPlaced hi.placed) (he.buffered hi.buffered) ?_
  · rw [hf.diskSuper]; exact hi.disk
  · rw [hf.diskSuper]; exact hi.diskBits
  · intro hd
    rw [hf.deferring] at hd
    exact ⟨he.noDefer hd (hi.noDefer hd).1, he.journaled_nil (hi.noDefer hd).2⟩

theorem Journaling.Inv.flushJournaled (hi : Journaling.Inv ⟨sb, h⟩) :
    Journaling.Inv ⟨flushJournaledBuffers sb, h⟩ :=
  hi.congr rfl rfl rfl rfl rfl hi.disk hi.diskBits hi.placed
    ⟨hi.buffered.dirty_nodup, List.nodup_nil, by simp [flushJournaledBuffers], hi.buffered.pos, hi.buffered.noMagic⟩
    (fun hd => ⟨(hi.noDefer hd).1, rfl⟩)

private theorem Journaling.Inv.release (hi : Journaling.Inv ⟨sb, h⟩) (s : Nat) : Journaling.Inv
    ⟨setBufferEmpty sb s, h⟩ := by
  have hb := hi.buffered
  refine hi.congr rfl rfl rfl rfl rfl hi.disk hi.diskBits hi.placed ?_ ?_
  · refine ⟨hb.dirty_nodup.erase s, hb.journaled_nodup.erase s, ?_, ?_, ?_⟩
    · intro u hu hd
      exact hb.disjoint u (List.mem_of_mem_erase hu) (List.mem_of_mem_erase hd)
    · intro u hu; exact hb.pos u (List.mem_of_mem_erase hu)
    · intro u hu
      have hu' := (hb.dirty_nodup.mem_erase_iff).1 hu
      show asCommit (Function.update sb.mem s _ u) = none
      rw [Function.update_of_ne hu'.1]
      exact hb.noMagic u hu'.2
  · intro hd
    refine ⟨(hi.noDefer hd).1, ?_⟩
    show sb.journaledBuffers.erase s = []
    rw [(hi.noDefer hd).2]; rfl

private theorem Journaling.Inv.save (hi : Journaling.Inv ⟨sb, h⟩) : Journaling.Inv ⟨saveSb sb, h⟩ := by
  unfold saveSb
  split
  · exact hi.congr rfl rfl rfl rfl rfl rfl rfl hi.placed
      ⟨hi.buffered.dirty_nodup, hi.buffered.journaled_nodup, hi.buffered.disjoint, hi.buffered.pos,
        hi.buffered.noMagic⟩ hi.noDefer
  · exact hi

theorem Journaling.Inv.flushIfNeeded (hi : Journaling.Inv ⟨sb, h⟩) : Journaling.Inv ⟨flushIfNeeded sb, h⟩ := by
  unfold Ddsnap.flushIfNeeded
  split
  · exact hi.flushJournaled.edits (edits_flushDeferredAllocs hi.placed)
  · exact hi

theorem openTxn_noMagic (hb : Buffered sb) (barrier : Bool) : (openTxn sb barrier).NoMagic := by
  intro b hm
  simp only [openTxn, List.map_map, List.mem_map, Function.comp_def] at hm
  obtain ⟨s, hs, rfl⟩ := hm
  exact hb.noMagic s hs

/-- What a commit leaves alone up to the end of its journal writes. -/
theorem logTransaction_fixed (sb : Sb D) (barrier : Bool) :
    (logTransaction sb barrier).image.journalSize = sb.image.journalSize ∧
      (logTransaction sb barrier).image.metadata = sb.image.metadata ∧
      (logTransaction sb barrier).image.snapdata = sb.image.snapdata ∧
      (logTransaction sb barrier).diskSuper = sb.diskSuper ∧ (logTransaction sb barrier).mem = sb.mem ∧
      (logTransaction sb barrier).dirtyBuffers = sb.dirtyBuffers ∧
      (logTransaction sb barrier).journaledBuffers = sb.journaledBuffers ∧
      (logTransaction sb barrier).deferring = sb.deferring ∧ (logTransaction sb barrier).dev = sb.dev ∧
      (logTransaction sb barrier).maxCommitBlocks = sb.maxCommitBlocks := by
  unfold logTransaction
  dsimp only
  rw [writeJournal_eq]
  unfold pushDefer
  split <;> exact ⟨rfl, rfl, rfl, rfl, rfl, rfl, rfl, rfl, rfl, rfl⟩

theorem logTransaction_noDefer (barrier : Bool) (hn : NoDefer sb) : NoDefer (logTransaction sb barrier) := by
  unfold logTransaction
  dsimp only
  rw [writeJournal_eq]
  unfold pushDefer
  rw [if_pos hn.1]
  exact hn

private theorem Journaling.Inv.log (hi : Journaling.Inv ⟨sb, h⟩) (barrier : Bool) :
    Journaling.Inv ⟨logTransaction sb barrier, h ++ [openTxn sb barrier]⟩ := by
  obtain ⟨init, hl, hinit⟩ := hi.logged
  obtain ⟨h1, h2, h3, h4, h5, h6, h7, h8, -⟩ := logTransaction_fixed sb barrier
  have hb := hi.buffered
  refine ⟨⟨init, ?_, hinit.congr h1 (by rw [h2])⟩, ?_, ?_, ?_, ?_, ?_, ?_, ?_⟩
  · have := hl.logTransaction barrier
    rwa [List.append_assoc] at this
  · intro t ht
    rcases List.mem_append.1 ht with ht | ht
    · exact hi.noMagic t ht
    · rw [List.mem_singleton] at ht
      exact ht ▸ openTxn_noMagic hb barrier
  · constructor
    · rw [h6]; exact hb.dirty_nodup
    · rw [h7]; exact hb.journaled_nodup
    · rw [h6, h7]; exact hb.disjoint
    · rw [h6]; exact hb.pos
    · rw [h5, h6]; exact hb.noMagic
  · show (logTransaction sb barrier).diskSuper.journalSize = _
    rw [h4, h1]; exact hi.disk
  · show (logTransaction sb barrier).diskSuper.metadata.allocsizeBits = _
    rw [h4, h2]; exact hi.diskBits
  · show BitmapsPlaced (logTransaction sb barrier)
    unfold BitmapsPlaced; rw [h2, h3]; exact hi.placed
  · show 9 ≤ (logTransaction sb barrier).image.metadata.allocsizeBits
    rw [h2]; exact hi.bits
  · show (logTransaction sb barrier).deferring = false → _
    rw [h8, h7]
    exact fun hd => ⟨logTransaction_noDefer barrier (hi.noDefer hd).1, (hi.noDefer hd).2⟩

private theorem Journaling.Inv.retire (hi : Journaling.Inv ⟨sb, h⟩) (barrier : Bool) :
    Journaling.Inv ⟨retireDirty sb barrier, h⟩ := by
  have hb := hi.buffered
  unfold retireDirty
  split
  · rename_i hd
    refine hi.congr rfl rfl rfl rfl rfl hi.disk hi.diskBits hi.placed ?_ ?_
    · refine ⟨List.nodup_nil, ?_, by simp, by simp, by simp⟩
      rw [List.nodup_append]
      exact ⟨hb.journaled_nodup, hb.dirty_nodup, fun a ha b hb' he => hb.disjoint a ha (he ▸ hb')⟩
    · intro hf; exact absurd (hd.1.symm.trans hf) (by simp)
  · exact hi.congr rfl rfl rfl rfl rfl hi.disk hi.diskBits hi.placed
      ⟨List.nodup_nil, hb.journaled_nodup, by simp, by simp, by simp⟩ hi.noDefer

private theorem Journaling.Inv.commit (hi : Journaling.Inv ⟨sb, h⟩) (hc : commitTransaction sb barrier = some sb') :
    Journaling.Inv ⟨sb', h ++ commitTxns sb barrier⟩ := by
  rcases commitTransaction_cases hc with ⟨hidle, rfl⟩ | ⟨hidle, -, rfl⟩
  · simpa [commitTxns, hidle] using hi
  · simp only [commitTxns, hidle]
    exact (hi.flushIfNeeded.log _).retire _

/-- Every call keeps the invariant. -/
theorem Journaling.Inv.step {st st' : Journaling D} {c : Call D} (hi : st.Inv) (hs : st.step c = some st') :
    st'.Inv := by
  obtain ⟨sb, h⟩ := st
  obtain ⟨sb', hc, rfl⟩ := Option.map_eq_some_iff.1 hs
  rcases Call.step_cases hi.placed hc with ⟨hcom, he | ⟨s, -, rfl⟩ | rfl⟩ | ⟨sb1, barrier, hcom, hct, hsb⟩
  · simpa [hcom] using hi.edits he
  · simpa [hcom] using hi.release s
  · simpa [hcom] using hi.save
  · simp only [hcom]
    rcases hsb with ⟨rfl, -⟩ | ⟨-, rfl, -⟩
    · exact hi.commit hct
    · exact (hi.edits (edits_flushDeferredAllocs hi.placed)).flushJournaled.commit hct

theorem Journaling.Fresh.inv {st : Journaling D} (hf : st.Fresh) : st.Inv := by
  obtain ⟨sb, hb, rfl⟩ := hf
  have hfix : initJournal sb = { sb with
      journal := (initJournal sb).journal
      image := { sb.image with journalNext := (initJournal sb).image.journalNext } } := writeJournal_eq _ _
  refine ⟨⟨initTxns sb, ?_, ?_⟩, by simp, ?_, ?_, ?_, ?_, ?_, ?_⟩
  · rw [List.append_nil]
    exact logged_initJournal hb.size_pos hb.size_lt hb.next hb.sequence
  · dsimp only
    rw [hfix]
    refine ⟨by simp [initTxns], ?_, ?_, ?_⟩
    · simp [initTxns]
    · simp [initTxns, initCommit]
    · intro h12 t ht
      simp only [initTxns, List.mem_map] at ht
      obtain ⟨i, -, rfl⟩ := ht
      exact checksumBlock_initCommit sb i h12
  · dsimp only
    rw [hfix]
    constructor <;> simp [hb.dirty, hb.journaled]
  · dsimp only; rw [hfix]; exact hb.disk
  · dsimp only; rw [hfix]; exact hb.diskBits
  · dsimp only; rw [hfix]; exact hb.placed
  · dsimp only; rw [hfix]; exact hb.bits
  · dsimp only; rw [hfix]; exact fun _ => ⟨hb.noDefer, hb.journaled⟩

/-- The invariant holds in every state of a run. -/
theorem Journaling.Reached.inv {ok : Journaling D → Call D → Prop} {st : Journaling D} (hr : Journaling.Reached ok st) :
    st.Inv :=
  Reach.Run.invariant hr (fun _ h => h.inv) (fun _ _ _ hi _ hs => hi.step hs)

end

/-! ### A small store -/

def smallImage (jblocks : Nat) : Disksuper where
  etreeRoot := 20
  etreeLevels := 1
  orgsectors := 0
  snaplist := fun _ => ⟨0, 0, 0, 0, 0⟩
  snapshots := 0
  journalNext := 0
  journalSize := jblocks
  sequence := jblocks
  metadata := ⟨2, 64, 64, 0, 1, 12⟩
  snapdata := ⟨2, 0, 0, 0, 0, 12⟩

/-- A combined store with a journal of `jblocks` blocks of 4096 bytes and nothing in its cache. -/
def smallStore (jblocks : Nat) (deferring : Bool) : Sb Nat where
  image := smallImage jblocks
  snapmask := 0
  deferring := deferring
  sbDirty := false
  allocPerNode := 255
  maxCommitBlocks := 506
  copybufChunks := 32
  sourceChunk := 0
  destException := 0
  copyChunks := 0
  usecount := fun _ => 0
  deferredAlloc := []
  defer := ⟨0, 0, false⟩
  mem := fun _ => .data 0
  dirtyBuffers := []
  journaledBuffers := []
  dev := fun _ _ => .data 0
  journal := fun _ => .data 0
  diskSuper := smallImage jblocks
  committed := fun _ => .data 0
  commits := []

private theorem smallStore_fresh {jblocks : Nat} (h0 : 0 < jblocks) (h31 : jblocks < 2 ^ 31) (deferring : Bool) :
    Journaling.Fresh ⟨initJournal (smallStore jblocks deferring), []⟩ :=
  ⟨_, ⟨h0, h31, rfl, rfl, by simp [smallStore, smallImage], by constructor <;> simp [smallStore, smallImage],
    rfl, rfl, ⟨rfl, rfl⟩, rfl, rfl, rfl, rfl⟩, rfl⟩

/-- Data blocks with the number `n`, edited at the block addresses of a list. -/
def Call.edits (n : Nat) (l : List Nat) : List (Call Nat) :=
  l.filterMap fun s => if h : 0 < s then some (.edit s (.data n) h rfl) else none

/-- Rounds of edits, each followed by a commit. -/
def Call.rounds (ls : List (List Nat)) : List (Call Nat) :=
  ls.zipIdx.flatMap fun p => Call.edits (p.2 + 1) p.1 ++ [.commit]

/-- The small store after some calls that meet `ok`. -/
def smallRun (ok : Journaling Nat → Call Nat → Prop) [∀ s c, Decidable (ok s c)] (jblocks : Nat) (deferring : Bool)
    (cs : List (Call Nat)) : Journaling Nat :=
  let st : Journaling Nat := ⟨initJournal (smallStore jblocks deferring), []⟩
  (Reach.exec Journaling.step ok st cs).getD st

theorem smallRun_reached (ok : Journaling Nat → Call Nat → Prop) [∀ s c, Decidable (ok s c)] {jblocks : Nat}
    (h0 : 0 < jblocks) (h31 : jblocks < 2 ^ 31) (deferring : Bool) (cs : List (Call Nat)) :
    (smallRun ok jblocks deferring cs).Reached ok :=
  Reach.Run.exec_getD (.start (smallStore_fresh h0 h31 deferring)) cs

end Ddsnap
