import Ddsnap.Snapshots
import Ddsnap.Space

/-!
# What the functions on the tree leave alone

Whatever the tree and the bitmaps look like, the functions on them leave the snapshot list, the use counts, the pending
copies and the geometry alone, write the superblock only where they say so, and record their commits with the pending
copies and the superblock on disk as they are (`Frame`).  Only `delete_snap` and the squash of a snapshot change the
list.
-/

namespace Ddsnap

variable {D : Type} {sb sb1 sb' : Sb D}

/-- The superblock without the root of the tree, the accounting, the journal, the buffers and the devices. -/
def Sb.kept (sb : Sb D) : Core := { sb.core with etreeRoot := 0, etreeLevels := 0 }

/-- A step that works on the tree and the bitmaps only. -/
structure Frame (sb sb' : Sb D) : Prop where
  kept : sb'.kept = sb.kept
  diskSuper : sb'.diskSuper = sb.diskSuper
  commits : ∃ new, sb'.commits = new ++ sb.commits ∧
    ∀ point ∈ new, point.copyChunks = sb.copyChunks ∧ point.diskSuper = sb.diskSuper

private theorem Frame.of_eq (hk : sb'.kept = sb.kept) (hd : sb'.diskSuper = sb.diskSuper)
    (hc : sb'.commits = sb.commits) : Frame sb sb' := ⟨hk, hd, [], hc, by simp⟩

private theorem Frame.refl (sb : Sb D) : Frame sb sb := .of_eq rfl rfl rfl

theorem kept_copyChunks (h : sb'.kept = sb.kept) : sb'.copyChunks = sb.copyChunks := congrArg Core.copyChunks h

theorem Frame.trans (h1 : Frame sb sb1) (h2 : Frame sb1 sb') : Frame sb sb' := by
  obtain ⟨new1, hc1, hp1⟩ := h1.commits
  obtain ⟨new2, hc2, hp2⟩ := h2.commits
  refine ⟨h2.kept.trans h1.kept, h2.diskSuper.trans h1.diskSuper, new2 ++ new1, ?_, fun point hp => ?_⟩
  · rw [hc2, hc1, List.append_assoc]
  · rcases List.mem_append.1 hp with hp | hp
    · rw [← kept_copyChunks h1.kept, ← h1.diskSuper]
      exact hp2 point hp
    · exact hp1 point hp

/-- A transaction is open. -/
def Sb.Open (sb : Sb D) : Prop := sb.dirtyBuffers ≠ [] ∨ sb.defer.count ≠ 0

/-- A step that works on the tree and the bitmaps and does not commit. -/
structure Amend (sb sb' : Sb D) : Prop where
  kept : sb'.kept = sb.kept
  diskSuper : sb'.diskSuper = sb.diskSuper
  commits : sb'.commits = sb.commits
  opened : sb.Open → sb'.Open

theorem Amend.of_eq (hk : sb'.kept = sb.kept) (hd : sb'.diskSuper = sb.diskSuper) (hc : sb'.commits = sb.commits)
    (hb : sb'.dirtyBuffers = sb.dirtyBuffers) (hr : sb'.defer = sb.defer) : Amend sb sb' :=
  ⟨hk, hd, hc, fun ho => by rwa [Sb.Open, hb, hr]⟩

private theorem Amend.refl (sb : Sb D) : Amend sb sb := .of_eq rfl rfl rfl rfl rfl

theorem Amend.trans (h1 : Amend sb sb1) (h2 : Amend sb1 sb') : Amend sb sb' :=
  ⟨h2.kept.trans h1.kept, h2.diskSuper.trans h1.diskSuper, h2.commits.trans h1.commits,
    fun ho => h2.opened (h1.opened ho)⟩

theorem Amend.frame (h : Amend sb sb') : Frame sb sb' := .of_eq h.kept h.diskSuper h.commits

/-- A loop of such steps. -/
theorem amend_foldl {β : Type} {f : Sb D → β → Sb D} (hf : ∀ sb b, Amend sb (f sb b)) (l : List β) (sb : Sb D) :
    Amend sb (l.foldl f sb) := by
  induction l generalizing sb with
  | nil => exact .refl sb
  | cons b l ih => exact (hf sb b).trans (ih (f sb b))

/-! ### Buffers, bitmaps and commits -/

theorem setBufferDirty_open (sb : Sb D) (s : Nat) : (setBufferDirty sb s).Open := by
  unfold setBufferDirty
  split
  · exact .inl (List.ne_nil_of_mem ‹_›)
  · exact .inl (by simp)

theorem amend_setBufferDirty (sb : Sb D) (s : Nat) : Amend sb (setBufferDirty sb s) := by
  refine ⟨?_, ?_, ?_, fun _ => setBufferDirty_open sb s⟩ <;> unfold setBufferDirty <;> split <;> rfl

private theorem amend_store (sb : Sb D) (s : Nat) (b : Block D) : Amend sb (sb.store s b) := .of_eq rfl rfl rfl rfl rfl

theorem amend_put (sb : Sb D) (s : Nat) (b : Block D) : Amend sb (sb.put s b) :=
  (amend_store sb s b).trans (amend_setBufferDirty _ s)

private theorem amend_setSbDirty (sb : Sb D) : Amend sb (setSbDirty sb) := .of_eq rfl rfl rfl rfl rfl

private theorem amend_setAsi (sb : Sb D) (as : Space) (free last : Nat) :
    Amend sb (sb.setAsi as { sb.asi as with freechunks := free, lastAlloc := last }) := by
  rcases sb.setAsi_cases as free last with ⟨-, he⟩ | ⟨-, he⟩ <;> rw [he] <;> exact .of_eq rfl rfl rfl rfl rfl

theorem amend_markChunk (sb : Sb D) (base chunk : Nat) : Amend sb (markChunk sb base chunk) :=
  (amend_store sb _ _).trans (amend_setBufferDirty _ _)

theorem amend_setAllocated (sb : Sb D) (chunk count : Nat) : Amend sb (setAllocated sb chunk count) :=
  amend_foldl (fun _ _ => amend_markChunk _ _ _) _ sb

theorem amend_flushDeferredAllocs (sb : Sb D) : Amend sb (flushDeferredAllocs sb) := by
  have h := amend_foldl (fun (sb : Sb D) (r : AllocRange) => amend_setAllocated sb r.chunk r.count) sb.deferredAlloc sb
  exact h.trans (.of_eq rfl rfl rfl rfl rfl)

theorem amend_flushJournaledBuffers (sb : Sb D) : Amend sb (flushJournaledBuffers sb) := .of_eq rfl rfl rfl rfl rfl

theorem amend_flushIfNeeded (sb : Sb D) : Amend sb (flushIfNeeded sb) := by
  unfold flushIfNeeded
  split
  · exact (amend_flushJournaledBuffers sb).trans (amend_flushDeferredAllocs _)
  · exact .refl sb

theorem frame_logTransaction (sb : Sb D) (barrier : Bool) : Frame sb (logTransaction sb barrier) ∧
    (logTransaction sb barrier).commits = (logTransaction sb barrier).point :: sb.commits := by
  have hcore := logTransaction_core sb barrier
  have hdisk := (logTransaction_fixed sb barrier).2.2.2.1
  have hcommits := (logTransaction_record sb barrier).2.1
  refine ⟨⟨?_, hdisk, [(logTransaction sb barrier).point], hcommits, ?_⟩, hcommits⟩
  · unfold Sb.kept
    rw [hcore]
  · intro point hp
    rw [List.mem_singleton.1 hp]
    exact ⟨congrArg Core.copyChunks hcore, hdisk⟩

theorem frame_retireDirty (sb : Sb D) (barrier : Bool) : Frame sb (retireDirty sb barrier) := by
  unfold retireDirty
  split <;> exact .of_eq rfl rfl rfl

theorem frame_commitTransaction {barrier : Bool} (h : commitTransaction sb barrier = some sb') : Frame sb sb' := by
  rcases commitTransaction_cases h with ⟨-, rfl⟩ | ⟨-, -, rfl⟩
  · exact .refl _
  · exact ((amend_flushIfNeeded sb).frame.trans (frame_logTransaction _ _).1).trans (frame_retireDirty _ _)

theorem frame_commitDeferredAllocs (h : commitDeferredAllocs sb = some sb') : Frame sb sb' := by
  obtain ⟨sb1, h1, h2⟩ := Option.bind_eq_some_iff.1 h
  exact ((frame_commitTransaction h1).trans ((amend_flushDeferredAllocs sb1).trans
    (amend_flushJournaledBuffers _)).frame).trans (frame_commitTransaction h2)

/-! ### Allocation -/

private theorem takeChunk_open (sb : Sb D) (as : Space) (chunk : Nat) : (takeChunk sb as chunk).Open := by
  unfold takeChunk
  dsimp only
  refine ((amend_setAsi _ as _ _).trans (amend_setSbDirty _)).opened ?_
  split_ifs
  · exact .inr (by simp)
  · exact .inr (by simp)
  · exact setBufferDirty_open _ _

private theorem amend_takeChunk (sb : Sb D) (as : Space) (chunk : Nat) : Amend sb (takeChunk sb as chunk) := by
  unfold takeChunk
  dsimp only
  refine Amend.trans ?_ ((amend_setAsi _ as _ _).trans (amend_setSbDirty _))
  split_ifs
  · exact ⟨rfl, rfl, rfl, fun _ => .inr (by simp)⟩
  · exact ⟨rfl, rfl, rfl, fun _ => .inr (by simp)⟩
  · exact amend_markChunk sb _ chunk

theorem amend_allocChunk {as : Space} {chunk : Nat} (h : allocChunk sb as = some (chunk, sb')) : Amend sb sb' := by
  rw [(allocChunk_cases h).2]
  exact (amend_takeChunk sb as chunk).trans ((amend_setAsi _ as _ _).trans (amend_setSbDirty _))

theorem allocChunk_open {as : Space} {chunk : Nat} (h : allocChunk sb as = some (chunk, sb')) : sb'.Open := by
  rw [(allocChunk_cases h).2]
  exact ((amend_setAsi _ as _ _).trans (amend_setSbDirty _)).opened (takeChunk_open sb as chunk)

theorem amend_freeChunk (sb : Sb D) (as : Space) (chunk : Nat) : Amend sb (freeChunk sb as chunk) := by
  unfold freeChunk
  split_ifs
  · exact ((amend_store sb _ _).trans (amend_setBufferDirty _ _)).trans
      ((amend_setAsi _ as _ _).trans (amend_setSbDirty _))
  · exact .refl sb

/-! ### Insertion -/

theorem amend_newLeaf {s : Nat} (h : newLeaf sb = some (s, sb')) : Amend sb sb' := by
  obtain ⟨⟨s1, sb1⟩, ha, he⟩ := Option.map_eq_some_iff.1 h
  cases he
  exact (amend_allocChunk ha).trans (amend_put _ _ _)

theorem amend_newNode {s : Nat} (h : newNode sb = some (s, sb')) : Amend sb sb' := by
  obtain ⟨⟨s1, sb1⟩, ha, he⟩ := Option.map_eq_some_iff.1 h
  cases he
  exact (amend_allocChunk ha).trans (amend_put _ _ _)

private theorem amend_addRoot (sb : Sb D) (child : IndexEntry) : Amend sb (addRoot sb child).2 := by
  unfold addRoot
  split
  · exact .refl sb
  · rename_i newroot sb1 hn
    exact ((amend_newNode hn).trans (amend_put sb1 newroot _)).trans (.of_eq rfl rfl rfl rfl rfl)

private theorem amend_splitNode (sb : Sb D) (s t p : Nat) (child : IndexEntry) : Amend sb
    (splitNode sb s t p child) := by
  unfold splitNode
  dsimp only
  split_ifs
  · exact (amend_put sb s _).trans (amend_put _ t _)
  · exact (amend_put sb t _).trans (amend_put _ s _)

private theorem amend_addChild (sb : Sb D) (path : List EtreePath) (child : IndexEntry) :
    Amend sb (addChild sb path child).2 := by
  induction path generalizing sb child with
  | nil => exact amend_addRoot sb child
  | cons pos up ih =>
    unfold addChild
    dsimp only
    split_ifs
    · exact amend_put sb _ _
    · split
      · exact .refl sb
      · rename_i t sb1 hn
        exact ((amend_newNode hn).trans (amend_splitNode sb1 _ t _ child)).trans (ih _ _)

private theorem amend_addToHalf (sb : Sb D) (leafbuf childbuf target exception : Nat) (snapbit : Option Nat)
    (path : List EtreePath) : Amend sb (addToHalf sb leafbuf childbuf target exception snapbit path).2 := by
  unfold addToHalf
  dsimp only
  have hsplit := (amend_store sb leafbuf (.leaf (splitLeaf (leafAt sb.mem leafbuf)).2.1)).trans
    (amend_store _ childbuf (.leaf (splitLeaf (leafAt sb.mem leafbuf)).2.2))
  split
  · exact hsplit
  · exact ((hsplit.trans (amend_store _ _ _)).trans
      ((amend_setBufferDirty _ _).trans (amend_setBufferDirty _ _))).trans (amend_addChild _ _ _)

theorem amend_addExceptionToTree (sb : Sb D) (leafbuf target exception : Nat) (snapbit : Option Nat)
    (path : List EtreePath) : Amend sb (addExceptionToTree sb leafbuf target exception snapbit path).2 := by
  unfold addExceptionToTree
  split
  · exact amend_put sb _ _
  · split
    · exact .refl sb
    · rename_i childbuf sb1 hn
      exact (amend_newLeaf hn).trans (amend_addToHalf sb1 _ _ _ _ _ _)

/-! ### Deletion -/

/-- A relation that holds for every single step of a deletion. -/
structure Erasing (Rel : Sb D → Sb D → Prop) : Prop where
  refl : ∀ sb, Rel sb sb
  trans : ∀ {sb sb1 sb'}, Rel sb sb1 → Rel sb1 sb' → Rel sb sb'
  store : ∀ sb s b, Rel sb (sb.store s b)
  dirty : ∀ sb s, Rel sb (setBufferDirty sb s)
  empty : ∀ sb s, Rel sb (setBufferEmpty sb s)
  free : ∀ sb as chunk, Rel sb (freeChunk sb as chunk)
  commit : ∀ {sb sb' barrier}, commitTransaction sb barrier = some sb' → Rel sb sb'
  reroot : ∀ (sb : Sb D) root, Rel sb { sb with image := { sb.image with etreeRoot := root } }
  level : ∀ sb : Sb D, Rel sb (setSbDirty { sb with
    image := { sb.image with etreeLevels := sb.image.etreeLevels - 1 } })

section Erasing

variable {Rel : Sb D → Sb D → Prop} (h : Erasing Rel) {w w' : Walk D}

include h

private theorem Erasing.check (hc : dirtyBufferCountCheck sb = some sb') : Rel sb sb' := by
  unfold dirtyBufferCountCheck at hc
  split_ifs at hc
  · exact h.commit hc
  · cases hc
    exact h.refl sb

private theorem Erasing.put (sb : Sb D) (s : Nat) (b : Block D) : Rel sb (sb.put s b) := h.trans (h.store sb s b)
    (h.dirty _ s)

private theorem Erasing.setPivot (sb : Sb D) (pivot : Nat) (path : List EtreePath) : Rel sb
    (setPivot sb pivot path) := by
  induction path with
  | nil => exact h.refl sb
  | cons pos up ih =>
    unfold Ddsnap.setPivot
    split_ifs
    · exact ih
    · exact h.put sb _ _

private theorem Erasing.removeIndex (sb : Sb D) (path : List EtreePath) : Rel sb (removeIndex sb path).1 := by
  cases path with
  | nil => exact h.refl sb
  | cons pos up =>
    unfold Ddsnap.removeIndex
    dsimp only
    split_ifs
    · exact h.trans (h.put sb _ _) (h.setPivot _ _ up)
    · exact h.put sb _ _

private theorem Erasing.brelseFree (sb : Sb D) (s : Nat) : Rel sb (brelseFree sb s) :=
  h.trans (h.free sb .metadata s) (h.empty _ s)

private theorem Erasing.merge {prev s : Nat} {content : Block D} {path : List EtreePath}
    (hc : dirtyBufferCountCheck (Ddsnap.brelseFree (setBufferDirty (Ddsnap.removeIndex (sb.store prev content) path).1 prev)
      s) = some sb') : Rel sb sb' :=
  h.trans (h.trans (h.store sb prev content) (h.removeIndex _ path))
    (h.trans (h.trans (h.dirty _ prev) (h.brelseFree _ s)) (h.check hc))

private theorem Erasing.freeUnshared {snapmask : Mask} {ps : List Exception}
    (hf : freeUnshared sb snapmask ps = some sb') : Rel sb sb' := by
  induction ps generalizing sb with
  | nil =>
    cases hf
    exact h.refl _
  | cons p ps ih =>
    obtain ⟨sb1, h1, h2⟩ := Option.bind_eq_some_iff.1 hf
    refine h.trans ?_ (h.trans (h.check h1) (ih h2))
    split_ifs
    · exact h.free sb .snapdata _
    · exact h.refl sb

private theorem Erasing.deleteSnapshotsFromLeaf {leafbuf : Nat} {snapmask : Mask}
    (hd : deleteSnapshotsFromLeaf sb leafbuf snapmask = some sb') : Rel sb sb' := by
  obtain ⟨sb1, h1, h2⟩ := Option.bind_eq_some_iff.1 hd
  cases h2
  have hstore := h.trans (h.freeUnshared h1) (h.store sb1 leafbuf (.leaf (purgeLeaf snapmask (leafAt sb.mem leafbuf))))
  split_ifs
  · exact h.trans hstore (h.dirty _ _)
  · exact hstore

private theorem Erasing.mergeLeaf {leafbuf : Nat} (hm : mergeLeaf w leafbuf = some w') : Rel w.sb w'.sb := by
  unfold Ddsnap.mergeLeaf at hm
  split at hm
  · cases hm
    exact h.refl _
  · dsimp only at hm
    split_ifs at hm
    · obtain ⟨sb1, h1, h2⟩ := Option.bind_eq_some_iff.1 hm
      cases h2
      exact h.merge h1
    · cases hm
      exact h.refl _

private theorem Erasing.walkLeaf {leafbuf : Nat} {snapmask : Mask} (hw : walkLeaf w leafbuf snapmask = some w') :
    Rel w.sb w'.sb := by
  obtain ⟨sb1, h1, h2⟩ := Option.bind_eq_some_iff.1 hw
  exact h.trans (h.deleteSnapshotsFromLeaf h1) (h.mergeLeaf h2)

private theorem Erasing.popNode (hp : popNode w = some w') : Rel w.sb w'.sb := by
  unfold Ddsnap.popNode at hp
  split at hp
  · cases hp
  · split at hp
    · cases hp
      exact h.refl _
    · dsimp only at hp
      split_ifs at hp
      · obtain ⟨sb1, h1, h2⟩ := Option.bind_eq_some_iff.1 hp
        cases h2
        exact h.merge h1
      · cases hp
        exact h.refl _

private theorem Erasing.popNodes {level : Nat} (hp : popNodes level w = some w') : Rel w.sb w'.sb := by
  induction level generalizing w with
  | zero => exact h.popNode hp
  | succ level ih =>
    obtain ⟨w1, h1, h2⟩ := Option.bind_eq_some_iff.1 hp
    split_ifs at h2
    · exact h.trans (h.popNode h1) (ih h2)
    · cases h2
      exact h.popNode h1

omit h in
private theorem pushDown_sb {n : Nat} (hp : pushDown n w = some w') : w'.sb = w.sb := by
  induction n generalizing w with
  | zero => cases hp; rfl
  | succ n ih =>
    unfold pushDown at hp
    split at hp
    · cases hp
    · split at hp
      · cases hp
      · exact (ih hp :)

omit h in
private theorem nextLeaf_sb {leafbuf : Nat} (hl : nextLeaf w = some (w', leafbuf)) : w'.sb = w.sb := by
  unfold nextLeaf at hl
  split at hl
  · cases hl
  · split at hl
    · cases hl
    · cases hl
      rfl

private theorem Erasing.walkLeaves {levels leaves leafbuf : Nat} {snapmask : Mask}
    (hw : walkLeaves levels snapmask leaves w leafbuf = some w') : Rel w.sb w'.sb := by
  induction leaves generalizing w leafbuf with
  | zero => cases hw
  | succ leaves ih =>
    obtain ⟨w1, h1, h2⟩ := Option.bind_eq_some_iff.1 hw
    refine h.trans (h.walkLeaf h1) ?_
    split_ifs at h2 with hf
    · obtain ⟨w2, hpop, h2⟩ := Option.bind_eq_some_iff.1 h2
      refine h.trans (h.popNodes hpop) ?_
      split_ifs at h2
      · cases h2
        exact h.refl _
      · obtain ⟨w3, hpush, h2⟩ := Option.bind_eq_some_iff.1 h2
        obtain ⟨sb1, hcheck, h2⟩ := Option.bind_eq_some_iff.1 h2
        obtain ⟨⟨w4, leafbuf'⟩, hnext, h2⟩ := Option.bind_eq_some_iff.1 h2
        have := ih h2
        rw [nextLeaf_sb hnext] at this
        rw [pushDown_sb hpush] at hcheck
        exact h.trans (h.check hcheck) this
    · obtain ⟨sb1, hcheck, h2⟩ := Option.bind_eq_some_iff.1 h2
      obtain ⟨⟨w4, leafbuf'⟩, hnext, h2⟩ := Option.bind_eq_some_iff.1 h2
      have := ih h2
      rw [nextLeaf_sb hnext] at this
      exact h.trans (h.check hcheck) this

private theorem Erasing.dropLevels {hold : Nat → Option Nat} {levels : Nat}
    (hd : dropLevels sb hold levels = some sb') : Rel sb sb' := by
  induction levels generalizing sb hold with
  | zero => cases hd; exact h.refl _
  | succ levels ih =>
    cases levels with
    | zero => cases hd; exact h.refl _
    | succ levels =>
      unfold Ddsnap.dropLevels at hd
      split at hd
      · rename_i root child _ _
        split_ifs at hd
        · obtain ⟨sb1, h1, h2⟩ := Option.bind_eq_some_iff.1 hd
          exact h.trans (h.trans (h.trans (h.reroot sb child) (h.brelseFree _ root)) (h.check h1))
            (h.trans (h.level sb1) (ih h2))
        · cases hd
          exact h.refl _
      · cases hd

private theorem Erasing.deleteTreeRange {snapmask : Mask} {resume : Nat}
    (hd : deleteTreeRange sb snapmask resume = some sb') :
    ∃ sb1, Rel sb sb1 ∧ sb' = saveSb (setSbDirty { sb1 with snapmask := sb1.snapmask &&& ~~~snapmask }) := by
  obtain ⟨⟨path, leafbuf⟩, -, hd⟩ := Option.bind_eq_some_iff.1 hd
  obtain ⟨sb1, h1, hd⟩ := Option.bind_eq_some_iff.1 hd
  obtain ⟨w, h2, hd⟩ := Option.bind_eq_some_iff.1 hd
  obtain ⟨sb2, h3, hd⟩ := Option.bind_eq_some_iff.1 hd
  have hrel := h.trans (h.trans (h.commit h1) (h.walkLeaves h2)) (h.dropLevels h3)
  dsimp only at hd
  split_ifs at hd
  · cases hd
    exact ⟨sb2, hrel, rfl⟩
  · obtain ⟨sb3, h4, hd⟩ := Option.bind_eq_some_iff.1 hd
    cases hd
    exact ⟨sb3, h.trans hrel (h.commit h4), rfl⟩

end Erasing

private theorem frame_erasing : Erasing (Frame (D := D)) where
  refl := Frame.refl
  trans := Frame.trans
  store := fun sb s b => (amend_store sb s b).frame
  dirty := fun sb s => (amend_setBufferDirty sb s).frame
  empty := fun _ _ => .of_eq rfl rfl rfl
  free := fun sb as chunk => (amend_freeChunk sb as chunk).frame
  commit := frame_commitTransaction
  reroot := fun _ _ => .of_eq rfl rfl rfl
  level := fun _ => .of_eq rfl rfl rfl

theorem deleteTreeRange_cases {snapmask : Mask} {resume : Nat} (h : deleteTreeRange sb snapmask resume = some sb') :
    ∃ sb1, Frame sb sb1 ∧ sb' = saveSb (setSbDirty { sb1 with snapmask := sb1.snapmask &&& ~~~snapmask }) :=
  frame_erasing.deleteTreeRange h

/-! ### `make_unique` -/

/-- What `make_unique` can do after its check for free space: the chunk is unique already, or a new exception is added
for the copy, or the copy is given up. -/
theorem uniqueException_outcome {chunk : Nat} {snapbit exception : Option Nat}
    (h : uniqueException sb chunk snapbit = some (exception, sb')) :
    ∃ path leafbuf, probe sb chunk = some (path, leafbuf) ∧
      ((chunkUnique sb leafbuf chunk snapbit).1 = true ∧
          exception = some ((chunkUnique sb leafbuf chunk snapbit).2.getD 0) ∧ sb' = sb ∨
        (chunkUnique sb leafbuf chunk snapbit).1 = false ∧ ∃ newex sb1 sb2 ok,
          allocChunk sb .snapdata = some (newex, sb1) ∧
          addExceptionToTree (copyout sb1 (copySource chunk (chunkUnique sb leafbuf chunk snapbit).2) newex) leafbuf
            chunk newex snapbit path = (ok, sb2) ∧
          (ok = true ∧ exception = some newex ∧ sb' = sb2 ∨
            ok = false ∧ exception = none ∧ sb' = freeException sb2 newex)) := by
  obtain ⟨⟨path, leafbuf⟩, hp, h⟩ := Option.bind_eq_some_iff.1 h
  refine ⟨path, leafbuf, hp, ?_⟩
  dsimp only at h
  split_ifs at h with hu
  · cases h
    exact .inl ⟨hu, rfl, rfl⟩
  · obtain ⟨⟨newex, sb1⟩, ha, h⟩ := Option.bind_eq_some_iff.1 h
    obtain ⟨⟨ok, sb2⟩, hadd⟩ : ∃ r, addExceptionToTree (copyout sb1 (copySource chunk
      (chunkUnique sb leafbuf chunk snapbit).2) newex) leafbuf chunk newex snapbit path = r := ⟨_, rfl⟩
    refine .inr ⟨by simpa using hu, newex, sb1, sb2, ok, ha, hadd, ?_⟩
    dsimp only at h
    rw [hadd] at h
    cases ok <;> cases h
    · exact .inr ⟨rfl, rfl, rfl⟩
    · exact .inl ⟨rfl, rfl, rfl⟩

end Ddsnap
