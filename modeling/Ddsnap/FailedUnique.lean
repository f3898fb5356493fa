import Ddsnap.Allocation
import Ddsnap.CopyOrder

/-!
# Failed calls of `make_unique`

`make_unique` fails in its check for free space, or when the tree has no room for the new exception.  In the first case
nothing but the counters can change.  In the second case `free_exception` takes back the chunk of the exception if its
bit was set, but not if its allocation was deferred, and nothing takes back the blocks that were allocated for the tree.
-/

namespace Ddsnap

variable {D : Type} {sb sb1 sb' : Sb D}

/-- Every lookup, the allocated chunks and the free counters are the same. -/
structure Unchanged (sb sb' : Sb D) : Prop where
  lookup : ∀ chunk snapbit, testUnique sb' chunk snapbit = testUnique sb chunk snapbit
  allocated : ∀ as chunk, (sb'.marked as chunk || isDeferredAlloc sb' chunk) =
    (sb.marked as chunk || isDeferredAlloc sb chunk)
  free : ∀ as, (sb'.asi as).freechunks = (sb.asi as).freechunks

/-! ### Deleted snapshots -/

/-- The number of snapshots that are listed and not squashed. -/
def Sb.liveCount (sb : Sb D) : Nat := sb.entries.countP fun snap => !isSquashed snap

theorem SameSnaps.entries (h : SameSnaps sb sb') : sb'.entries = sb.entries := by
  unfold Sb.entries
  rw [h.snapshots, h.snaplist]

private theorem liveCount_deleteSnap {i : Nat} (hi : i < sb.image.snapshots)
    (hl : isSquashed (sb.image.snaplist i) = false)
    (h : deleteSnap sb i = some sb') : sb'.liveCount < sb.liveCount := by
  unfold deleteSnap at h
  dsimp only at h
  rw [if_neg (by simp [hl])] at h
  obtain ⟨sb1, h1, h2⟩ := Option.bind_eq_some_iff.1 h
  obtain ⟨sb2, hf, rfl⟩ := deleteTreeRange_cases h2
  have hentries : sb2.entries = sb.entries.eraseIdx i :=
    ((frame_commitDeferredAllocs h1).trans hf).sameSnaps.entries.trans (entries_removeSlot hi)
  have hcount : sb.liveCount = (sb.image.snaplist i :: sb.entries.eraseIdx i).countP fun snap => !isSquashed snap :=
    (entries_perm hi).countP_eq _
  have hsave : (saveSb (setSbDirty { sb2 with
      snapmask := sb2.snapmask &&& ~~~(maskBit (sb.image.snaplist i).bit) })).liveCount = sb2.liveCount := rfl
  rw [hsave, hcount, Sb.liveCount, hentries, List.countP_cons_of_pos (by simp [hl])]
  exact Nat.lt_succ_self _

private theorem liveCount_squashSnap {i : Nat} (hi : i < sb.image.snapshots)
    (hl : isSquashed (sb.image.snaplist i) = false)
    (h : squashSnap sb i = some sb') : sb'.liveCount < sb.liveCount := by
  obtain ⟨sb1, h1, h⟩ := Option.bind_eq_some_iff.1 h
  obtain ⟨sb2, h2, h⟩ := Option.bind_eq_some_iff.1 h
  cases h
  obtain ⟨sb3, hf, rfl⟩ := deleteTreeRange_cases h2
  have hsame := ((frame_commitDeferredAllocs h1).trans hf).sameSnaps
  have hi3 : i < sb3.image.snapshots := by rw [hsame.snapshots]; exact hi
  have hcount : sb.liveCount = sb3.liveCount := by rw [Sb.liveCount, Sb.liveCount, hsame.entries]
  have hlive : isSquashed (sb3.image.snaplist i) = false := by rw [hsame.snaplist]; exact hl
  rw [hcount, Sb.liveCount, Sb.liveCount, (entries_perm hi3).countP_eq]
  refine lt_of_eq_of_lt ((entries_update hi3 _).countP_eq _) ?_
  rw [List.countP_cons_of_neg (by simp [isSquashed]), List.countP_cons_of_pos (by simp [hlive])]
  exact Nat.lt_succ_self _

private theorem autoDeleteSnapshot_live {ok : Bool} (h : autoDeleteSnapshot sb = some (ok, sb')) :
    Deletable sb ∧ sb'.liveCount < sb.liveCount ∨ ¬Deletable sb ∧ ok = false ∧ sb' = recountFree sb := by
  unfold autoDeleteSnapshot at h
  split_ifs at h with hn
  have hlt : findVictim sb < sb.image.snapshots := bestSlot_lt _ hn
  dsimp only at h
  split_ifs at h with hv hu
  · cases h
    exact .inr ⟨fun hd => hd.2 hv, rfl, rfl⟩
  all_goals
    obtain ⟨sb1, h1, he⟩ := Option.map_eq_some_iff.1 h
    cases he
    have hl : isSquashed (sb.image.snaplist (findVictim sb)) = false := by simpa using fun e => hv (.inl e)
    refine .inl ⟨⟨hn, hv⟩, ?_⟩
  · exact liveCount_squashSnap hlt hl h1
  · exact liveCount_deleteSnap hlt hl h1

private theorem autoDeleteSnapshot_le {ok : Bool} (h : autoDeleteSnapshot sb = some (ok, sb')) :
    sb'.liveCount ≤ sb.liveCount := by
  rcases autoDeleteSnapshot_live h with ⟨-, hlt⟩ | ⟨-, -, rfl⟩
  · exact Nat.le_of_lt hlt
  · rw [Sb.liveCount, (amend_recountFree sb).frame.sameSnaps.entries]
    exact Nat.le_refl _

/-- The check for free space on a store that is short of chunks deletes a snapshot, or fails. -/
private theorem spaceCheck_live {ok : Bool} (hr : ¬EnoughRoom sb) (h : spaceCheck sb = some (ok, sb')) :
    sb'.liveCount < sb.liveCount ∨ ok = false ∧ sb' = recountFree sb := by
  obtain ⟨ok1, sb1, h1, hd, hfail⟩ := spaceCheck_short hr h
  rcases autoDeleteSnapshot_live h1 with ⟨-, hlt⟩ | ⟨-, rfl, rfl⟩
  · have hle := hd.keeps (P := fun sb => sb.liveCount ≤ sb1.liveCount) (Nat.le_refl _) fun hle ha =>
      (autoDeleteSnapshot_le ha).trans hle
    exact .inl (lt_of_le_of_lt hle hlt)
  · exact .inr (hfail rfl)

/-! ### Lookups and allocations -/

private theorem testUnique_congr (hmem : sb'.mem = sb.mem) (hroot : sb'.image.etreeRoot = sb.image.etreeRoot)
    (hlevels : sb'.image.etreeLevels = sb.image.etreeLevels) (hmask : sb'.snapmask = sb.snapmask) (chunk : Nat)
    (snapbit : Option Nat) : testUnique sb' chunk snapbit = testUnique sb chunk snapbit := by
  unfold testUnique probe
  rw [hmem, hroot, hlevels, hmask]

/-- The recount changes the counters only. -/
private theorem unchanged_recountFree_iff (sb : Sb D) : Unchanged sb (recountFree sb) ↔
    ∀ as, ((recountFree sb).asi as).freechunks = (sb.asi as).freechunks := by
  refine ⟨Unchanged.free, fun hfree => ⟨fun chunk snapbit => ?_, fun as chunk => ?_, hfree⟩⟩
  · obtain ⟨metafree, snapfree, he⟩ := recountFree_eq sb
    rw [he]
    exact testUnique_congr rfl rfl rfl rfl chunk snapbit
  · obtain ⟨metafree, snapfree, he⟩ := recountFree_eq sb
    have hcore : (recountFree sb).core = sb.core := by rw [he]; rfl
    have hmem : (recountFree sb).mem = sb.mem := by rw [he]
    have hdeferred : isDeferredAlloc (recountFree sb) chunk = isDeferredAlloc sb chunk := by rw [he]; rfl
    rw [marked_eq hcore hmem, hdeferred]

private theorem allocChunk_freechunks {as : Space} {chunk : Nat} (h : allocChunk sb as = some (chunk, sb'))
    (as' : Space) : (sb'.asi as').freechunks =
      if sb.sameSpace as as' then diff64 (sb.asi as').freechunks 1 else (sb.asi as').freechunks := by
  obtain ⟨⟨start, n, -, hscan⟩, he⟩ := allocChunk_cases h
  obtain ⟨sb1, htake, himg, hcore, -⟩ := takeChunk_cases as (scanBytes_free hscan).2
  exact (allocChunk_counters himg hcore htake he).1 as'

/-! ### Insertion -/

/-- A counter of 64 bits has gone down by `k`. -/
structure Lowered (k before after : Nat) : Prop where
  sum : (after + k) % 2 ^ 64 = before % 2 ^ 64

private theorem Lowered.refl (n : Nat) : Lowered 0 n n := ⟨rfl⟩

private theorem lowered_diff64 (n : Nat) : Lowered 1 n (diff64 n 1) := by
  constructor
  unfold diff64
  omega

private theorem Lowered.trans {j k a b c : Nat} (h1 : Lowered j a b) (h2 : Lowered k b c) : Lowered (j + k) a c := by
  have hsum1 := h1.sum
  have hsum2 := h2.sum
  constructor
  omega

private theorem Lowered.unique {j k a b : Nat} (h1 : Lowered j a b) (h2 : Lowered k a b) (hj : j < 2 ^ 64)
    (hk : k < 2 ^ 64) : j = k := by
  have hsum1 := h1.sum
  have hsum2 := h2.sum
  omega

private theorem allocException_metafree {newex : Nat} (h : allocChunk sb .snapdata = some (newex, sb1)) :
    Lowered (if sb.combined then 1 else 0) sb.image.metadata.freechunks sb1.image.metadata.freechunks := by
  have hfree : sb1.image.metadata.freechunks = _ := allocChunk_freechunks h .metadata
  cases hc : sb.combined with
  | true =>
    rw [if_pos (by simp [Sb.sameSpace, hc])] at hfree
    rw [hfree]
    exact lowered_diff64 _
  | false =>
    rw [if_neg (by simp [Sb.sameSpace, hc])] at hfree
    rw [hfree]
    exact .refl _

private theorem put_metafree (sb : Sb D) (s : Nat) (b : Block D) :
    (sb.put s b).image.metadata.freechunks = sb.image.metadata.freechunks := by
  rw [(sb.put_fixed s b).2.2.2.2.1]

private theorem newBlock_metafree {s : Nat} (ha : allocChunk sb .metadata = some (s, sb1)) (b : Block D) :
    Lowered 1 sb.image.metadata.freechunks (sb1.put s b).image.metadata.freechunks := by
  have hfree : sb1.image.metadata.freechunks = diff64 sb.image.metadata.freechunks 1 :=
    (allocChunk_freechunks ha .metadata).trans (if_pos (by simp [Sb.sameSpace]))
  rw [put_metafree, hfree]
  exact lowered_diff64 _

private theorem newNode_metafree {s : Nat} (h : newNode sb = some (s, sb')) :
    Lowered 1 sb.image.metadata.freechunks sb'.image.metadata.freechunks := by
  obtain ⟨⟨s1, sb1⟩, ha, he⟩ := Option.map_eq_some_iff.1 h
  cases he
  exact newBlock_metafree ha _

private theorem splitNode_metafree (sb : Sb D) (s t p : Nat) (child : IndexEntry) :
    (splitNode sb s t p child).image.metadata.freechunks = sb.image.metadata.freechunks := by
  unfold splitNode
  dsimp only
  split_ifs <;> rw [put_metafree, put_metafree]

/-- The way up the path takes at most one block for every node, and one for a new root. -/
private theorem addChild_metafree (sb : Sb D) (path : List EtreePath) (child : IndexEntry) :
    ∃ k ≤ path.length + 1,
      Lowered k sb.image.metadata.freechunks (addChild sb path child).2.image.metadata.freechunks := by
  induction path generalizing sb child with
  | nil =>
    unfold addChild addRoot
    split
    · exact ⟨0, Nat.zero_le _, .refl _⟩
    · rename_i newroot sb1 hn
      refine ⟨1, Nat.le_refl _, ?_⟩
      show Lowered 1 _ (sb1.put newroot _).image.metadata.freechunks
      rw [put_metafree]
      exact newNode_metafree hn
  | cons node up ih =>
    unfold addChild
    dsimp only
    split_ifs
    · exact ⟨0, Nat.zero_le _, by rw [put_metafree]; exact .refl _⟩
    · split
      · exact ⟨0, Nat.zero_le _, .refl _⟩
      · rename_i t sb1 hn
        obtain ⟨k, hk, hlow⟩ := ih (splitNode sb1 node.node t node.next child)
          ⟨(((entriesAt sb.mem node.node)[(entriesAt sb.mem node.node).length / 2]?).map IndexEntry.key).getD 0, t⟩
        rw [splitNode_metafree] at hlow
        exact ⟨1 + k, by rw [List.length_cons]; omega, (newNode_metafree hn).trans hlow⟩

private theorem setBufferDirty_image (sb : Sb D) (s : Nat) : (setBufferDirty sb s).image = sb.image := by
  unfold setBufferDirty
  split <;> rfl

private theorem addToHalf_metafree (sb : Sb D) (leafbuf childbuf target exception : Nat) (snapbit : Option Nat)
    (path : List EtreePath) : ∃ k ≤ path.length + 1, Lowered k sb.image.metadata.freechunks
      (addToHalf sb leafbuf childbuf target exception snapbit path).2.image.metadata.freechunks := by
  unfold addToHalf
  dsimp only
  split
  · exact ⟨0, Nat.zero_le _, .refl _⟩
  · have hchild : ∀ sb1 : Sb D, sb1.image = sb.image → ∀ child, ∃ k ≤ path.length + 1,
        Lowered k sb.image.metadata.freechunks (addChild sb1 path child).2.image.metadata.freechunks :=
      fun sb1 himage child => himage ▸ addChild_metafree sb1 path child
    exact hchild _ (by rw [setBufferDirty_image, setBufferDirty_image]; rfl) _

private theorem addExceptionToTree_failed {leafbuf target exception : Nat} {snapbit : Option Nat}
    {path : List EtreePath} (h : addExceptionToTree sb leafbuf target exception snapbit path = (false, sb')) :
    allocChunk sb .metadata = none ∧ sb' = sb ∨ (allocChunk sb .metadata).isSome ∧ ∃ k ≤ path.length + 1,
      Lowered (1 + k) sb.image.metadata.freechunks sb'.image.metadata.freechunks := by
  unfold addExceptionToTree at h
  split at h
  · cases h
  · split at h
    · rename_i hn
      cases h
      exact .inl ⟨Option.map_eq_none_iff.1 hn, rfl⟩
    · rename_i childbuf sb1 hn
      obtain ⟨k, hk, hhalf⟩ := addToHalf_metafree sb1 leafbuf childbuf target exception snapbit path
      rw [h] at hhalf
      obtain ⟨⟨s, sb2⟩, ha, he⟩ := Option.map_eq_some_iff.1 hn
      cases he
      exact .inr ⟨by rw [ha]; rfl, k, hk, (newBlock_metafree ha _).trans hhalf⟩

private theorem probeFrom_length {mem : Nat → Block D} {chunk levels s leafbuf : Nat} {path path' : List EtreePath}
    (h : probeFrom mem chunk levels s path = some (path', leafbuf)) : path'.length = path.length + levels := by
  induction levels generalizing s path with
  | zero =>
    obtain ⟨leaf, -, he⟩ := Option.map_eq_some_iff.1 h
    cases he
    rfl
  | succ levels ih =>
    unfold probeFrom at h
    split at h
    · cases h
    · split at h
      · cases h
      · rw [ih h, List.length_cons]
        omega

/-! ### The chunk of the exception -/

private theorem copyout_space (sb : Sb D) (chunk exception : Nat) : (copyout sb chunk exception).image = sb.image ∧
    (copyout sb chunk exception).mem = sb.mem ∧ (copyout sb chunk exception).defer = sb.defer ∧
    (copyout sb chunk exception).deferredAlloc = sb.deferredAlloc ∧
    (copyout sb chunk exception).snapmask = sb.snapmask := by
  unfold copyout finishCopyout
  split_ifs <;> exact ⟨rfl, rfl, rfl, rfl, rfl⟩

private theorem scanBytes_copyout (sb : Sb D) (chunk exception : Nat) (as : Space) (length byte : Nat) :
    scanBytes (copyout sb chunk exception) as length byte = scanBytes sb as length byte := by
  have hbyte : ∀ byte, scanByte (copyout sb chunk exception) as byte = scanByte sb as byte := by
    intro byte
    unfold copyout finishCopyout
    split_ifs <;> rfl
  have hsize : (copyout sb chunk exception).allocsize = sb.allocsize ∧
      (copyout sb chunk exception).asi as = sb.asi as := by
    unfold copyout finishCopyout
    split_ifs <;> exact ⟨rfl, rfl⟩
  induction length generalizing byte with
  | zero => rfl
  | succ length ih => rw [scanBytes, scanBytes, hbyte, hsize.1, hsize.2, ih]

theorem allocChunk_eq_none {as : Space} : allocChunk sb as = none ↔
    scanBytes sb as (((sb.asi as).chunks - (sb.asi as).lastAlloc + (sb.asi as).lastAlloc % 8 + 7) / 8)
      ((sb.asi as).lastAlloc / 8) = none ∧
    scanBytes sb as (((sb.asi as).lastAlloc + 0 % 8 + 7) / 8) (0 / 8) = none := by
  unfold allocChunk allocChunkFromRange
  dsimp only
  generalize scanBytes sb as (((sb.asi as).chunks - (sb.asi as).lastAlloc + (sb.asi as).lastAlloc % 8 + 7) / 8)
    ((sb.asi as).lastAlloc / 8) = first
  generalize scanBytes sb as (((sb.asi as).lastAlloc + 0 % 8 + 7) / 8) (0 / 8) = second
  cases first <;> cases second <;> simp

private theorem allocChunk_copyout_none (sb : Sb D) (chunk exception : Nat) (as : Space) :
    allocChunk (copyout sb chunk exception) as = none ↔ allocChunk sb as = none := by
  have hasi : (copyout sb chunk exception).asi as = sb.asi as := by
    unfold Sb.asi Sb.combined
    rw [(copyout_space sb chunk exception).1]
  rw [allocChunk_eq_none, allocChunk_eq_none, hasi, scanBytes_copyout, scanBytes_copyout]

private theorem freeChunk_marked {as : Space} {chunk : Nat} (hm : sb.marked as chunk = true) : freeChunk sb as chunk =
    setSbDirty ((sb.putBit as chunk false).setAsi as { (sb.putBit as chunk false).asi as with
      freechunks := (((sb.putBit as chunk false).asi as).freechunks + 1) % 2 ^ 64 }) := if_pos hm

private theorem freeChunk_freechunks {as : Space} {chunk : Nat} (hm : sb.marked as chunk = true) (as' : Space) :
    ((freeChunk sb as chunk).asi as').freechunks =
      if sb.sameSpace as as' then ((sb.asi as').freechunks + 1) % 2 ^ 64 else (sb.asi as').freechunks := by
  have hcore := (putBit_fixed sb as chunk false).1
  have hasi : ∀ as', (sb.putBit as chunk false).asi as' = sb.asi as' := asi_put sb _ _
  rw [freeChunk_marked hm]
  refine (congrArg AllocspaceImg.freechunks (asi_setAsi (sb.putBit as chunk false) as as' _ _)).trans ?_
  rw [core_sameSpace hcore, hasi, hasi]
  split_ifs with hs
  · rw [asi_eq_of_sameSpace hs]
  · rfl

/-- `free_exception` raises the free counter of the metadata by one at most, and only on a combined store. -/
private theorem freeException_metafree (sb : Sb D) (chunk : Nat) : ∃ k ≤ if sb.combined then 1 else 0,
    Lowered k (freeException sb chunk).image.metadata.freechunks sb.image.metadata.freechunks := by
  unfold freeException
  by_cases hm : sb.marked .snapdata chunk = true
  · have h : (freeChunk sb .snapdata chunk).image.metadata.freechunks = _ := freeChunk_freechunks hm .metadata
    cases hc : sb.combined with
    | true =>
      rw [if_pos (by simp [Sb.sameSpace, hc])] at h
      exact ⟨1, Nat.le_refl _, ⟨by rw [h, Nat.mod_mod]; rfl⟩⟩
    | false =>
      rw [if_neg (by simp [Sb.sameSpace, hc])] at h
      exact ⟨0, Nat.zero_le _, by rw [h]; exact .refl _⟩
  · rw [freeChunk, if_neg hm]
    exact ⟨0, Nat.zero_le _, .refl _⟩

/-- A block of the cache that is a bitmap block. -/
def isBitmap : Block D → Bool
  | .bitmap _ => true
  | _ => false

/-- The chunk that `alloc_chunk` takes next has its bit in a bitmap block. -/
def Sb.allocatesFromBitmap (sb : Sb D) (as : Space) : Bool :=
  (allocChunk sb as).all fun r => isBitmap (sb.mem (sb.bitmapBlock (sb.asi as).bitmapBase r.1))

private theorem allocChunk_bit {as : Space} {chunk : Nat} (h : allocChunk sb as = some (chunk, sb')) :
    sb.marked as chunk = false ∧ sb'.core = sb.core ∧
      (sb.Defers chunk ∧ sb'.mem = sb.mem ∧ (chunk :: sb.deferredChunks).Perm sb'.deferredChunks ∨
        ¬sb.Defers chunk ∧ sb'.mem = (sb.putBit as chunk true).mem ∧ sb'.deferredChunks = sb.deferredChunks) := by
  obtain ⟨⟨start, n, -, hscan⟩, rfl⟩ := allocChunk_cases h
  obtain ⟨hfree, hdeferred⟩ := scanBytes_free hscan
  obtain ⟨sb1, htake, -, hcore, hcases⟩ := takeChunk_cases as hdeferred
  obtain ⟨hcore1, hmem1, hchunks1⟩ := setCounters sb1 as (diff64 (sb1.asi as).freechunks 1) (sb1.asi as).lastAlloc
  obtain ⟨hcore2, hmem2, hchunks2⟩ := setCounters (takeChunk sb as chunk) as ((takeChunk sb as chunk).asi as).freechunks
    chunk
  rw [htake] at hcore2 hmem2 hchunks2 ⊢
  refine ⟨hfree, (hcore2.trans hcore1).trans hcore, ?_⟩
  rcases hcases with ⟨hd, hmem, hperm⟩ | ⟨hd, rfl⟩
  · exact .inl ⟨hd, (hmem2.trans hmem1).trans hmem, (hchunks2.trans hchunks1) ▸ hperm⟩
  · exact .inr ⟨hd, hmem2.trans hmem1, (hchunks2.trans hchunks1).trans (putBit_fixed sb as chunk true).2.2.2.2⟩

/-- A bit that is set and cleared again leaves a bitmap block as it was. -/
private theorem putBit_restore {as : Space} {chunk : Nat} (hm : sb.marked as chunk = false)
    (hb : isBitmap (sb.mem (sb.bitmapBlock (sb.asi as).bitmapBase chunk)) = true)
    (hbase : (sb1.asi as).bitmapBase = (sb.asi as).bitmapBase) (hshift : sb1.bitmapShift = sb.bitmapShift)
    (hmem : sb1.mem = (sb.putBit as chunk true).mem) :
    sb1.marked as chunk = true ∧ (sb1.putBit as chunk false).mem = sb.mem := by
  unfold Sb.putBit Sb.bitmapBlock at *
  unfold Sb.marked Sb.bitmapBlock at hm ⊢
  dsimp only at *
  rw [Sb.put_mem] at hmem
  refine ⟨by rw [hbase, hshift, hmem, Function.update_self, bitmapBits, Function.update_self], ?_⟩
  rw [Sb.put_mem, hbase, hshift, hmem, Function.update_self, Function.update_idem]
  cases hs : sb.mem ((sb.asi as).bitmapBase + chunk / 2 ^ sb.bitmapShift) with
  | bitmap bits =>
    rw [hs] at hm
    have hbits : (Function.update (Function.update bits (chunk % 2 ^ sb.bitmapShift) true) (chunk % 2 ^ sb.bitmapShift)
        false) = bits := by
      rw [Function.update_idem]
      exact Function.update_eq_self_iff.2 hm.symm
    simp only [bitmapBits]
    rw [hbits, ← hs, Function.update_eq_self]
  | node _ | leaf _ | commit _ | data _ =>
    rw [hs] at hb
    cases hb

/-- The chunk of the exception goes to the bitmap, and no block is left for a new leaf. -/
def LeafRefused (sb : Sb D) : Prop :=
  ∃ newex sb1, allocChunk sb .snapdata = some (newex, sb1) ∧ ¬sb.Defers newex ∧ allocChunk sb1 .metadata = none

/-- The counters have 64 bits, and the depth of the tree has 32. -/
structure Sb.FieldsFit (sb : Sb D) : Prop where
  free : ∀ as, (sb.asi as).freechunks < 2 ^ 64
  levels : sb.image.etreeLevels < 2 ^ 32

section

variable {newex source exception : Nat} (ha : allocChunk sb .snapdata = some (newex, sb1)) (hfit : sb.FieldsFit)

include ha hfit

/-- The allocation of the exception is taken back if it was not deferred. -/
private theorem unchanged_freeException (hb : sb.allocatesFromBitmap .snapdata = true) (hd : ¬sb.Defers newex) :
    Unchanged sb (freeException (copyout sb1 source exception) newex) := by
  obtain ⟨hclear, hcore, ⟨hdef, -⟩ | ⟨-, hmem, hchunks⟩⟩ := allocChunk_bit ha
  · exact absurd hdef hd
  have hbit : isBitmap (sb.mem (sb.bitmapBlock (sb.asi .snapdata).bitmapBase newex)) = true := by
    rw [Sb.allocatesFromBitmap, ha] at hb
    exact hb
  obtain ⟨himage, hmemc, hdefer, hlist, hmask⟩ := copyout_space sb1 source exception
  generalize copyout sb1 source exception = sbc at himage hmemc hdefer hlist hmask ⊢
  have hasi : ∀ as, sbc.asi as = sb1.asi as := fun as => by
    unfold Sb.asi Sb.combined
    rw [himage]
  have hshift : sbc.bitmapShift = sb.bitmapShift := by
    rw [Sb.bitmapShift, himage]
    exact core_bitmapShift hcore
  have hspace : ∀ as, sbc.sameSpace .snapdata as = sb.sameSpace .snapdata as := fun as => by
    rw [← core_sameSpace hcore, Sb.sameSpace, Sb.sameSpace, Sb.combined, Sb.combined, himage]
  obtain ⟨hmarked, hrestored⟩ := putBit_restore hclear hbit (by rw [hasi]; exact (core_asi hcore .snapdata).1) hshift
    (hmemc.trans hmem)
  have hcount := freeChunk_freechunks hmarked
  obtain ⟨hcore', hmem', hchunks'⟩ : (freeException sbc newex).core = sbc.core ∧
      (freeException sbc newex).mem = sb.mem ∧ (freeException sbc newex).deferredChunks = sb.deferredChunks := by
    obtain ⟨h1, h2, h3⟩ := setCounters (sbc.putBit .snapdata newex false) .snapdata
      ((((sbc.putBit .snapdata newex false).asi .snapdata).freechunks + 1) % 2 ^ 64)
      ((sbc.putBit .snapdata newex false).asi .snapdata).lastAlloc
    obtain ⟨hp1, -, -, -, hp2⟩ := putBit_fixed sbc .snapdata newex false
    have hcopy : sbc.deferredChunks = sb1.deferredChunks := by rw [Sb.deferredChunks, hdefer, hlist]; rfl
    rw [freeException, freeChunk_marked hmarked]
    exact ⟨h1.trans hp1, h2.trans hrestored, ((h3.trans hp2).trans hcopy).trans hchunks⟩
  have hroot : (freeException sbc newex).image.etreeRoot = sb.image.etreeRoot :=
    (congrArg Core.etreeRoot hcore').trans ((congrArg Disksuper.etreeRoot himage).trans (congrArg Core.etreeRoot hcore))
  have hlevels : (freeException sbc newex).image.etreeLevels = sb.image.etreeLevels :=
    (congrArg Core.etreeLevels hcore').trans
      ((congrArg Disksuper.etreeLevels himage).trans (congrArg Core.etreeLevels hcore))
  have hsnapmask : (freeException sbc newex).snapmask = sb.snapmask :=
    (congrArg Core.snapmask hcore').trans (hmask.trans (congrArg Core.snapmask hcore))
  refine ⟨testUnique_congr hmem' hroot hlevels hsnapmask, fun as chunk => ?_, fun as => ?_⟩
  · have hmark : (freeException sbc newex).marked as chunk = sb.marked as chunk := by
      unfold Sb.marked Sb.bitmapBlock
      rw [hmem', (core_asi hcore' as).1, hasi, (core_asi hcore as).1, core_bitmapShift hcore', hshift]
    have hdeferred : isDeferredAlloc (freeException sbc newex) chunk = isDeferredAlloc sb chunk := by
      rw [Bool.eq_iff_iff, ← mem_deferredChunks, ← mem_deferredChunks, hchunks']
    rw [hmark, hdeferred]
  · rw [freeException, hcount, hasi, allocChunk_freechunks ha, hspace]
    have hsmall := hfit.free as
    split_ifs
    · unfold diff64
      omega
    · rfl

/-- A deferred allocation is not taken back. -/
private theorem not_unchanged_freeException (hd : sb.Defers newex) :
    ¬Unchanged sb (freeException (copyout sb1 source exception) newex) := by
  obtain ⟨hclear, hcore, ⟨-, hmem, -⟩ | ⟨hnot, -⟩⟩ := allocChunk_bit ha
  · obtain ⟨himage, hmemc, -⟩ := copyout_space sb1 source exception
    have hasi : (copyout sb1 source exception).asi .snapdata = sb1.asi .snapdata := by
      unfold Sb.asi Sb.combined
      rw [himage]
    have hmarked : (copyout sb1 source exception).marked .snapdata newex = false := by
      rw [← hclear]
      unfold Sb.marked Sb.bitmapBlock Sb.bitmapShift
      rw [hasi, hmemc, himage, hmem, (core_asi hcore .snapdata).1]
      rw [show sb1.image.metadata.allocsizeBits = sb.image.metadata.allocsizeBits from
        congrArg (fun core => core.metadata.allocsizeBits) hcore]
    intro hun
    have hfree := hun.free .snapdata
    rw [freeException, freeChunk, if_neg (by simp [hmarked]), hasi, allocChunk_freechunks ha] at hfree
    simp only [Sb.sameSpace, decide_true, Bool.true_or, if_true] at hfree
    have hsmall := hfit.free .snapdata
    unfold diff64 at hfree
    omega
  · exact absurd hd hnot

end

/-! ### Failures -/

/-- The recount of `auto_delete_snapshot` finds the counters as they are. -/
def RecountIdle (sb : Sb D) : Prop := ∀ as, ((recountFree sb).asi as).freechunks = (sb.asi as).freechunks

/-- `make_unique` fails in its check for free space, and the counters are right; or later, when no block is left for a
new leaf, and the chunk of the exception was marked in the bitmap. -/
def CleanFailure (sb : Sb D) : Prop := (¬EnoughRoom sb ∧ RecountIdle sb) ∨ (EnoughRoom sb ∧ LeafRefused sb)

private theorem Amend.combined (h : Amend sb sb') : sb'.combined = sb.combined :=
  congrArg (fun kept : Core => decide (kept.snapdata.chunks = 0)) h.kept

/-- A failure after the check for free space. -/
private theorem uniqueException_unchanged_iff {chunk : Nat} {snapbit : Option Nat} (hfit : sb.FieldsFit)
    (hb : sb.allocatesFromBitmap .snapdata = true) (h : uniqueException sb chunk snapbit = some (none, sb')) :
    Unchanged sb sb' ↔ LeafRefused sb := by
  obtain ⟨path, leafbuf, hp, ⟨-, hex, -⟩ | ⟨-, newex, sb1, sb2, ok, ha, hadd, hend⟩⟩ := uniqueException_outcome h
  · cases hex
  obtain ⟨-, hex, -⟩ | ⟨rfl, -, rfl⟩ := hend
  · cases hex
  rcases addExceptionToTree_failed hadd with ⟨hnone, rfl⟩ | ⟨hsome, k, hk, hlost⟩
  · -- no block for a new leaf
    rw [allocChunk_copyout_none] at hnone
    by_cases hd : sb.Defers newex
    · refine iff_of_false (not_unchanged_freeException ha hfit hd) ?_
      rintro ⟨newex', sb1', ha', hd', -⟩
      rw [ha] at ha'
      cases ha'
      exact hd' hd
    · exact iff_of_true (unchanged_freeException ha hfit hb hd) ⟨newex, sb1, ha, hd, hnone⟩
  · -- the block of the new leaf is lost
    refine iff_of_false (fun hun => ?_) ?_
    · obtain ⟨himage, -⟩ := copyout_space sb1 (copySource chunk (chunkUnique sb leafbuf chunk snapbit).2) newex
      have htree := amend_addExceptionToTree (copyout sb1 (copySource chunk (chunkUnique sb leafbuf chunk snapbit).2)
        newex) leafbuf chunk newex snapbit path
      rw [hadd] at htree
      have hcomb : sb2.combined = sb.combined := by
        rw [htree.combined, Sb.combined, himage]
        exact (amend_allocChunk ha).combined
      obtain ⟨j, hj, hback⟩ := freeException_metafree sb2 newex
      have hfree : (freeException sb2 newex).image.metadata.freechunks = sb.image.metadata.freechunks :=
        hun.free .metadata
      rw [himage] at hlost
      rw [hfree] at hback
      rw [hcomb] at hj
      -- more was taken than is given back, and the depth of the tree keeps the counter from coming round
      have hdepth := hfit.levels
      have hlen := probeFrom_length hp
      have hone : (if sb.combined then 1 else 0) ≤ 1 := by split <;> omega
      have hsame := hback.unique ((allocException_metafree ha).trans hlost) (by omega)
        (by rw [List.length_nil] at hlen; omega)
      omega
    · rintro ⟨newex', sb1', ha', -, hnone⟩
      rw [ha] at ha'
      cases ha'
      rw [(allocChunk_copyout_none sb1 _ _ _).2 hnone] at hsome
      cases hsome

/-- A call of `make_unique` that fails without having deleted or squashed a snapshot leaves every lookup, the allocated
chunks and the free counters as they were exactly if the failure is clean. -/
theorem failed_unique_unchanged_iff {chunk : Nat} {snapbit : Option Nat}
    (h : makeUnique sb chunk snapbit = some (none, sb')) (hlive : sb'.liveCount = sb.liveCount)
    (hfit : sb.FieldsFit) (hb : sb.allocatesFromBitmap .snapdata = true) : Unchanged sb sb' ↔ CleanFailure sb := by
  obtain ⟨⟨ok, sb1⟩, h1, h2⟩ := Option.bind_eq_some_iff.1 h
  dsimp only at h2
  by_cases hr : EnoughRoom sb
  · rw [spaceCheck_enough hr] at h1
    cases h1
    rw [if_pos rfl] at h2
    rw [uniqueException_unchanged_iff hfit hb h2]
    exact ⟨fun hl => .inr ⟨hr, hl⟩, fun hc => (hc.resolve_left fun hn => hn.1 hr).2⟩
  · rcases spaceCheck_live hr h1 with hlt | ⟨rfl, rfl⟩
    · -- a snapshot was deleted
      have hsame : sb'.liveCount = sb1.liveCount := by
        split_ifs at h2
        · rw [Sb.liveCount, (sameSnaps_uniqueException h2).entries]
          rfl
        · cases h2
          rfl
      omega
    · rw [if_neg (by simp)] at h2
      cases h2
      rw [unchanged_recountFree_iff]
      exact ⟨fun hi => .inl ⟨hr, hi⟩, fun hc => (hc.resolve_right fun hn => hr hn.1).2⟩

/-- The only snapshot of a small store has the highest priority, and the store is filled. -/
def refusedActions : List (Action Nat) :=
  [.createSnapshot 7, .priority 7 127, .query originTag] ++ (List.range 17).map Action.chunk

def refusedRun : Copying Nat := (Reach.exec Copying.step (fun _ _ => True) tinyCopying refusedActions).getD tinyCopying

/-- The next chunk is refused by the check for free space. -/
theorem failed_unique_unchanged_full : ∃ sb', makeUnique refusedRun.sb 17 none = some (none, sb') ∧
    Unchanged refusedRun.sb sb' := by
  have hnow : ((makeUnique refusedRun.sb 17 none).map fun r => (r.1, r.2.liveCount)) = some (none, refusedRun.sb.liveCount) ∧
      refusedRun.sb.allocatesFromBitmap .snapdata = true ∧ ¬EnoughRoom refusedRun.sb ∧
      refusedRun.sb.image.etreeLevels < 2 ^ 32 ∧ ∀ as ∈ [Space.metadata, .snapdata],
        ((recountFree refusedRun.sb).asi as).freechunks = (refusedRun.sb.asi as).freechunks ∧
          (refusedRun.sb.asi as).freechunks < 2 ^ 64 := by decide +kernel
  obtain ⟨hcall, hb, hr, hlevels, hspaces⟩ := hnow
  obtain ⟨⟨exception, sb'⟩, hm, he⟩ := Option.map_eq_some_iff.1 hcall
  obtain ⟨rfl, hlive⟩ := Prod.mk.inj he
  have hspace : ∀ as, as ∈ [Space.metadata, .snapdata] := fun as => by cases as <;> simp
  exact ⟨sb', hm, (failed_unique_unchanged_iff hm hlive ⟨fun as => (hspaces as (hspace as)).2, hlevels⟩ hb).2
    (.inl ⟨hr, fun as => (hspaces as (hspace as)).1⟩)⟩

/-! ### A chunk that is lost -/

/-- A store with separate snapshot data and blocks of 512 bytes. -/
def leakConfig : Config := { bits := 9, metachunks := 40, snapchunks := 64, journalSize := 8, orgsectors := 0 }

def leakCopying : Copying Nat :=
  ⟨startServer ((initSnapstore leakConfig 0 id).getD (leakConfig.blankStore 0 id)) true, none⟩

/-- Writes of the origin with deferred allocation.  The chunks of their exceptions are deferred two at a time, and a chunk
that is deferred is taken in both spaces: in the end no metadata chunk is left. -/
def leakActions : List (Action Nat) :=
  .createSnapshot 7 :: [List.range 26, [26, 27], [28, 29], [30], [31, 32], [33, 34], [35, 36], [37, 38], [39]].flatMap
    fun chunks => [.query originTag] ++ chunks.map Action.chunk ++ [.finish]

def leakRun : Copying Nat := (Reach.exec Copying.step (fun _ _ => True) leakCopying leakActions).getD leakCopying

private theorem leakRun_fails : ((makeUnique leakRun.sb 40 none).map fun r =>
    (r.1, r.2.liveCount, (leakRun.sb.asi .snapdata).freechunks, (r.2.asi .snapdata).freechunks)) =
      some (none, leakRun.sb.liveCount, 24, 23) := by
  decide +kernel

/-- The write of the next chunk needs a new leaf and fails; the chunk of its exception stays allocated. -/
theorem failed_unique_leaks : ∃ st : Copying Nat, Reach.Run Copying.step (fun _ _ => True) Copying.Init st ∧
    ∃ sb', makeUnique st.sb 40 none = some (none, sb') ∧ sb'.liveCount = st.sb.liveCount ∧
      (st.sb.asi .snapdata).freechunks = 24 ∧ (sb'.asi .snapdata).freechunks = 23 ∧ ¬Unchanged st.sb sb' := by
  have hstart : leakCopying.Init := ⟨rfl, by decide +kernel, by decide +kernel⟩
  refine ⟨leakRun, (Reach.Run.start hstart).exec_getD leakActions, ?_⟩
  obtain ⟨⟨exception, sb'⟩, hm, he⟩ := Option.map_eq_some_iff.1 leakRun_fails
  obtain ⟨rfl, he⟩ := Prod.mk.inj he
  obtain ⟨hlive, he⟩ := Prod.mk.inj he
  obtain ⟨hbefore, hafter⟩ := Prod.mk.inj he
  refine ⟨sb', hm, hlive, hbefore, hafter, fun hun => ?_⟩
  have hfree := hun.free .snapdata
  rw [hbefore, hafter] at hfree
  exact absurd hfree (by decide)

end Ddsnap
