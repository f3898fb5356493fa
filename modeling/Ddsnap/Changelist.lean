import Ddsnap.Daemon
import Ddsnap.Isolation
import Ddsnap.Lib.StackWalk

/-!
# Changelists

`STREAM_CHANGELIST` sends the chunks that differ between two snapshots, or between a snapshot and the origin.
`traverse_tree_range` visits the leaves of the exception tree with a stack, and `gen_changelist_leaf` takes the chunks
with an exception that belongs to one of two masks and not to the other.

The origin is the mask of all ones: an exception that all 64 snapshots share belongs to it as well as to each of them, so
that its chunk is left out.
-/

namespace Ddsnap

open IndexTree

variable {D : Type}

/-! ### The leaves of the tree -/

/-- `traverse_tree_range` from the first chunk on: the leaves in the order of its visits.  `none` stands for a tree that
cannot be read. -/
def traverseTreeRange (sb : Sb D) : Option (List Nat) :=
  visitLeaves (nodesOf id sb.mem) sb.image.etreeLevels (leafCount sb.mem sb.image.etreeLevels sb.image.etreeRoot)
    sb.image.etreeRoot []

/-- `traverse_tree_range` with its calls of `snapread` and `brelse`, in at most `rounds` rounds of its outer loop. -/
def traverseActs (rounds : Nat) (sb : Sb D) : Option (List (Act Nat)) :=
  leavesActs (nodesOf id sb.mem) sb.image.etreeLevels rounds sb.image.etreeRoot []

/-! ### One leaf -/

/-- The test of `gen_changelist_leaf` on an exception. -/
def differs (mask1 mask2 : Mask) (p : Exception) : Bool :=
  (p.share &&& mask2 == mask2) != (p.share &&& mask1 == mask1)

/-- `snap_sectors`: the size of the snapshot with a tag, 0 when there is none. -/
def snapSectors (image : Disksuper) (tag : Nat) : Nat :=
  (List.range image.snapshots).foldl (fun sectors i =>
    if (image.snaplist i).tag = tag then (image.snaplist i).sectors else sectors) 0

/-- `sb->snapdata.chunk_sectors_bits`. -/
def chunkSectorsBits (image : Disksuper) : Nat := image.snapdata.allocsizeBits - 9

/-- The loop of `gen_changelist_leaf` over the exceptions of a chunk. -/
def genChangelistChunk (bits sectors : Nat) (mask1 mask2 : Mask) (newchunk : Nat) : List Exception → List Nat
  | [] => []
  | p :: ps =>
    if differs mask1 mask2 p then
      if sectors ≤ newchunk * 2 ^ bits % 2 ^ 64 then genChangelistChunk bits sectors mask1 mask2 newchunk ps
      else [newchunk]
    else genChangelistChunk bits sectors mask1 mask2 newchunk ps

def genChangelistLeaf (image : Disksuper) (tgtSnap : Nat) (mask1 mask2 : Mask) (cl : List Nat) (leaf : Eleaf) :
    List Nat :=
  let sectors := snapSectors image tgtSnap
  if sectors = 0 then cl
  else cl ++ leaf.map.flatMap fun m =>
    genChangelistChunk (chunkSectorsBits image) sectors mask1 mask2 (leaf.baseChunk + m.rchunk) m.exceptions

/-! ### `STREAM_CHANGELIST` -/

/-- `1ULL << snapshot->bit`.  The shift by 64 of a squashed snapshot is undefined; `wild` is what the machine makes of
it. -/
def shiftBit (wild : Mask) (bit : Nat) : Mask := if bit < 64 then maskBit bit else wild

/-- `STREAM_CHANGELIST`: the error message, or the chunks of the `STREAM_CHANGELIST_OK` message. -/
def streamChangelist (wild : Mask) (sb : Sb D) (tag1 tag2 : Nat) : Except String (List Nat) := do
  let mask1 ←
    if tag1 = originTag then pure (BitVec.allOnes 64)
    else
      match findSnap sb tag1 with
      | none => .error "source snapshot does not exist"
      | some slot => pure (shiftBit wild (sb.image.snaplist slot).bit)
  match findSnap sb tag2 with
  | none => .error "destination snapshot does not exist"
  | some slot =>
    let mask2 := shiftBit wild (sb.image.snaplist slot).bit
    match traverseTreeRange sb with
    | none => .error "unable to generate changelist"
    | some leaves => .ok (leaves.foldl (fun cl s => genChangelistLeaf sb.image tag2 mask1 mask2 cl (leafAt sb.mem s)) [])

/-- The exception that the snapshot with a bit resolves a chunk to, and `none` for the origin. -/
def Sb.resolution (sb : Sb D) (bit chunk : Nat) : Option Exception := findShare (maskBit bit) (sb.exns chunk)

/-! ### What the list holds -/

section
variable {sb : Sb D} {mask1 mask2 : Mask} {cap size : Nat}

private theorem leafCount_eq (blocks : Nat → Block D) (n s : Nat) :
    leafCount blocks n s = (below (nodesOf id blocks) n s).length := by
  induction n generalizing s with
  | zero => rfl
  | succ n ih =>
    simp only [leafCount, below, nodesOf, List.length_flatMap, List.flatMap_map, ih]

/-- The leaves of a planted tree are visited from left to right. -/
theorem traverseTreeRange_eq (h : Planted id sb.mem cap [(0, sb.image.etreeRoot)] sb.image.etreeLevels)
    (hlev : 0 < sb.image.etreeLevels) : traverseTreeRange sb = some (sb.view.slots.map Prod.snd) := by
  refine visitLeaves_eq (r := (0, sb.image.etreeRoot)) hlev (fun i hi x hx => h.ne_nil hi hx) ?_
  rw [leafCount_eq, ← List.length_map Prod.snd, down_map_snd]
  simp

private theorem genChangelistChunk_eq (bits sectors newchunk : Nat) (exns : List Exception) :
    genChangelistChunk bits sectors mask1 mask2 newchunk exns =
      if newchunk * 2 ^ bits % 2 ^ 64 < sectors ∧ exns.any (differs mask1 mask2) = true then [newchunk] else [] := by
  induction exns with
  | nil => simp [genChangelistChunk]
  | cons p ps ih =>
    unfold genChangelistChunk
    rw [ih]
    by_cases hp : differs mask1 mask2 p = true
    · by_cases hs : newchunk * 2 ^ bits % 2 ^ 64 < sectors
      · rw [if_pos hp, if_neg (by omega), if_pos ⟨hs, by simp [hp]⟩]
      · rw [if_pos hp, if_pos (by omega), if_neg (fun h => hs h.1), if_neg (fun h => hs h.1)]
    · rw [if_neg hp]
      simp [hp]

/-- The last entry with a tag, when there is one entry with it. -/
private theorem foldl_sectors {snaplist : Nat → Snapshot} {tag slot : Nat} (htag : (snaplist slot).tag = tag)
    (l : List Nat) (huniq : ∀ i ∈ l, (snaplist i).tag = tag → i = slot) (sectors : Nat) :
    l.foldl (fun sectors i => if (snaplist i).tag = tag then (snaplist i).sectors else sectors) sectors =
      if slot ∈ l then (snaplist slot).sectors else sectors := by
  induction l generalizing sectors with
  | nil => simp
  | cons i l ih =>
    rw [List.foldl_cons, ih fun j hj => huniq j (List.mem_cons_of_mem _ hj)]
    by_cases hi : i = slot
    · subst hi
      simp [htag]
    · rw [if_neg fun h => hi (huniq i List.mem_cons_self h)]
      simp [Ne.symm hi]

private theorem snapSectors_eq {image : Disksuper} {tag slot : Nat} (hslot : slot < image.snapshots)
    (htag : (image.snaplist slot).tag = tag) (huniq : ∀ i < image.snapshots, (image.snaplist i).tag = tag → i = slot) :
    snapSectors image tag = (image.snaplist slot).sectors := by
  unfold snapSectors
  rw [foldl_sectors htag _ (fun i hi => huniq i (List.mem_range.1 hi)), if_pos (List.mem_range.2 hslot)]

/-- The map entries whose chunks `gen_changelist_leaf` takes. -/
def changedIn (image : Disksuper) (tag : Nat) (mask1 mask2 : Mask) (m : EtreeMap) : Bool :=
  m.rchunk * 2 ^ chunkSectorsBits image < snapSectors image tag && m.exceptions.any (differs mask1 mask2)

private theorem genChangelistLeaf_eq {image : Disksuper} {leaf : Eleaf} (hok : LeafOk size leaf)
    (hbits : chunkSectorsBits image ≤ 32) (tag : Nat) (cl : List Nat) :
    genChangelistLeaf image tag mask1 mask2 cl leaf =
      cl ++ (leaf.map.filter (changedIn image tag mask1 mask2)).map EtreeMap.rchunk := by
  unfold genChangelistLeaf
  dsimp only
  by_cases hz : snapSectors image tag = 0
  · rw [if_pos hz]
    have hnone : ∀ m ∈ leaf.map, ¬changedIn image tag mask1 mask2 m = true := fun m _ => by simp [changedIn, hz]
    rw [List.filter_eq_nil_iff.2 hnone]
    simp
  · rw [if_neg hz, hok.base]
    congr 1
    have hsmall := hok.small
    generalize leaf.map = map at hsmall ⊢
    induction map with
    | nil => rfl
    | cons m map ih =>
      -- a chunk of 32 bits does not overflow when it is counted in sectors
      have hlt : m.rchunk * 2 ^ chunkSectorsBits image < 2 ^ 64 :=
        calc m.rchunk * 2 ^ chunkSectorsBits image
            ≤ m.rchunk * 2 ^ 32 := Nat.mul_le_mul_left _ (Nat.pow_le_pow_right (by decide) hbits)
          _ < 2 ^ 32 * 2 ^ 32 := Nat.mul_lt_mul_of_pos_right (hsmall m List.mem_cons_self) (by decide)
      rw [List.flatMap_cons, ih fun m' hm => hsmall m' (List.mem_cons_of_mem _ hm), genChangelistChunk_eq, Nat.zero_add,
        Nat.mod_eq_of_lt hlt]
      by_cases hm : changedIn image tag mask1 mask2 m = true
      · rw [List.filter_cons_of_pos hm, if_pos (by simpa [changedIn] using hm)]
        rfl
      · rw [List.filter_cons_of_neg hm, if_neg (by simpa [changedIn] using hm)]
        rfl

/-- The list of a tree in order: the chunks of its map entries below the size of the target, with an exception that
belongs to one of the masks only. -/
private theorem foldl_genChangelist (mask1 mask2 : Mask) (xs : List (Nat × Nat))
    (hok : ∀ x ∈ xs, LeafOk size (leafAt sb.mem x.2)) (hbits : chunkSectorsBits sb.image ≤ 32) (tag : Nat) (cl : List Nat) :
    (xs.map Prod.snd).foldl (fun cl s => genChangelistLeaf sb.image tag mask1 mask2 cl (leafAt sb.mem s)) cl =
      cl ++ ((contentOf sb.mem xs).filter (changedIn sb.image tag mask1 mask2)).map EtreeMap.rchunk := by
  induction xs generalizing cl with
  | nil => simp [contentOf]
  | cons x xs ih =>
    rw [List.map_cons, List.foldl_cons, genChangelistLeaf_eq (hok x List.mem_cons_self) hbits,
      ih fun y hy => hok y (List.mem_cons_of_mem _ hy), contentOf_cons, List.filter_append, List.map_append,
      List.append_assoc]

private theorem mem_changed (hw : sb.view.WellFormed cap size) (tag c : Nat) :
    c ∈ (sb.view.content.filter (changedIn sb.image tag mask1 mask2)).map EtreeMap.rchunk ↔
      c * 2 ^ chunkSectorsBits sb.image < snapSectors sb.image tag ∧
        ∃ p ∈ sb.exns c, differs mask1 mask2 p = true := by
  simp only [List.mem_map, List.mem_filter, changedIn, Bool.and_eq_true, decide_eq_true_eq, List.any_eq_true]
  constructor
  · rintro ⟨m, ⟨hm, hlt, p, hp, hd⟩, rfl⟩
    have hasc : Ascending sb.view.content := hw.keyed.ascending
    exact ⟨hlt, p, by rwa [Sb.exns, exnsAt_mem hasc hm], hd⟩
  · rintro ⟨hlt, p, hp, hd⟩
    obtain ⟨m, hm, rfl, hpm⟩ := mem_exnsAt hp
    exact ⟨m, ⟨hm, hlt, p, hpm, hd⟩, rfl⟩

private theorem changed_sorted (hw : sb.view.WellFormed cap size) (f : EtreeMap → Bool) :
    ((sb.view.content.filter f).map EtreeMap.rchunk).Pairwise (· < ·) :=
  List.pairwise_map.2 (hw.keyed.ascending.sublist List.filter_sublist)

/-- `STREAM_CHANGELIST` of a tree in order, for snapshots that are listed. -/
private theorem streamChangelist_eq (wild : Mask) (hw : sb.view.WellFormed cap size) (hlev : 0 < sb.image.etreeLevels)
    (hbits : chunkSectorsBits sb.image ≤ 32) {tag1 tag2 slot2 : Nat}
    (h1 : tag1 = originTag ∧ mask1 = BitVec.allOnes 64 ∨
      tag1 ≠ originTag ∧ ∃ slot1, findSnap sb tag1 = some slot1 ∧ mask1 = shiftBit wild (sb.image.snaplist slot1).bit)
    (h2 : findSnap sb tag2 = some slot2) :
    streamChangelist wild sb tag1 tag2 = .ok ((sb.view.content.filter
      (changedIn sb.image tag2 mask1 (shiftBit wild (sb.image.snaplist slot2).bit))).map EtreeMap.rchunk) := by
  have hlist := foldl_genChangelist mask1 (shiftBit wild (sb.image.snaplist slot2).bit) sb.view.slots
    hw.keyed.leafOk hbits tag2 []
  have htrav := traverseTreeRange_eq hw.planted hlev
  rcases h1 with ⟨rfl, rfl⟩ | ⟨hne, slot1, hs1, rfl⟩
  · unfold streamChangelist
    rw [if_pos rfl, h2, htrav]
    exact congrArg Except.ok hlist
  · unfold streamChangelist
    rw [if_neg hne, hs1, h2, htrav]
    exact congrArg Except.ok hlist

end

/-! ### Two snapshots -/

section
variable {b b1 b2 : Nat} {exns : List Exception} {p : Exception}

private theorem and_maskBit_beq (hb : b < 64) (m : Mask) : (m &&& maskBit b == maskBit b) = hasBit m b := by
  cases hm : hasBit m b with
  | true =>
    refine beq_iff_eq.2 (BitVec.eq_of_getLsbD_eq fun i _ => ?_)
    change hasBit (m &&& maskBit b) i = hasBit (maskBit b) i
    rw [hasBit_and, hasBit_maskBit hb]
    by_cases hi : i = b
    · subst hi
      simp [hm]
    · simp [hi]
  | false =>
    refine beq_eq_false_iff_ne.2 fun h => ?_
    have hbit := congrArg (hasBit · b) h
    simp [hb, hm] at hbit

private theorem differs_maskBit (h1 : b1 < 64) (h2 : b2 < 64) (p : Exception) :
    differs (maskBit b1) (maskBit b2) p = (hasBit p.share b2 != hasBit p.share b1) := by
  unfold differs
  rw [and_maskBit_beq h1, and_maskBit_beq h2]

/-- When no two exceptions of a chunk have a snapshot in common, two snapshots find different ones exactly if one of the
exceptions belongs to one of them only. -/
private theorem findShare_ne_iff (h1 : b1 < 64) (h2 : b2 < 64)
    (hd : exns.Pairwise fun p q => p.share &&& q.share = 0) :
    findShare (maskBit b1) exns ≠ findShare (maskBit b2) exns ↔
      ∃ p ∈ exns, differs (maskBit b1) (maskBit b2) p = true := by
  have hone : ∀ p ∈ exns, ∀ q ∈ exns, ∀ i, hasBit p.share i = true → hasBit q.share i = true → p = q := by
    intro p hp q hq i hpi hqi
    by_contra hne
    have : Std.Symm fun p q : Exception => p.share &&& q.share = 0 := ⟨fun p q h => by rw [BitVec.and_comm]; exact h⟩
    have hz := and_eq_zero.1 (hd.forall hp hq hne) i hpi
    rw [hqi] at hz
    cases hz
  constructor
  · intro hne
    by_contra hall
    refine hne ?_
    unfold findShare
    rw [← List.head?_filter, ← List.head?_filter]
    refine congrArg List.head? (List.filter_congr fun p hp => ?_)
    have hsame : hasBit p.share b2 = hasBit p.share b1 := by
      by_contra hd
      exact hall ⟨p, hp, by rw [differs_maskBit h1 h2]; simpa using hd⟩
    simp only [and_maskBit_ne h1, and_maskBit_ne h2, hsame]
  · rintro ⟨p, hp, hpd⟩ heq
    rw [differs_maskBit h1 h2] at hpd
    -- the exception belongs to one of the snapshots; the one that both find belongs to both
    have hboth : ∀ q, findShare (maskBit b1) exns = some q → q ∈ exns ∧ hasBit q.share b1 = true ∧
        hasBit q.share b2 = true := by
      intro q hq
      have hq1 := List.find?_some hq
      have hq2 := List.find?_some (heq ▸ hq)
      simp only [decide_eq_true_eq, and_maskBit_ne h1, and_maskBit_ne h2] at hq1 hq2
      exact ⟨List.mem_of_find?_eq_some hq, hq1, hq2⟩
    cases hq : findShare (maskBit b1) exns with
    | none =>
      have hno1 := List.find?_eq_none.1 hq p hp
      have hno2 := List.find?_eq_none.1 (heq ▸ hq) p hp
      simp only [decide_eq_true_eq, and_maskBit_ne h1, and_maskBit_ne h2] at hno1 hno2
      simp [hno1, hno2] at hpd
    | some q =>
      obtain ⟨hqm, hq1, hq2⟩ := hboth q hq
      have hpq : p = q := by
        cases hp1 : hasBit p.share b1 with
        | true => exact hone p hp q hqm b1 hp1 hq1
        | false =>
          rw [hp1] at hpd
          exact hone p hp q hqm b2 (by simpa using hpd) hq2
      rw [hpq, hq1, hq2] at hpd
      cases hpd

end

/-- The changelist between two snapshots that are not squashed, in a tree in order whose exceptions of a chunk belong to
different snapshots: it increases, and holds the chunks below the size of the target that the two snapshots resolve
differently. -/
theorem changelist_between_exact {sb : Sb D} {cap size tag1 tag2 slot1 slot2 : Nat} (wild : Mask)
    (hw : sb.view.WellFormed cap size) (hlev : 0 < sb.image.etreeLevels) (hbits : sb.image.snapdata.allocsizeBits < 32)
    (hdisjoint : ∀ m ∈ sb.view.content, m.exceptions.Pairwise fun p q => p.share &&& q.share = 0)
    (horigin : tag1 ≠ originTag) (h1 : findSnap sb tag1 = some slot1) (h2 : findSnap sb tag2 = some slot2)
    (hlive1 : (sb.image.snaplist slot1).bit < 64) (hlive2 : (sb.image.snaplist slot2).bit < 64)
    (htags : ∀ i < sb.image.snapshots, (sb.image.snaplist i).tag = tag2 → i = slot2) :
    ∃ chunks, streamChangelist wild sb tag1 tag2 = .ok chunks ∧ chunks.Pairwise (· < ·) ∧
      ∀ c, c ∈ chunks ↔ c * 2 ^ chunkSectorsBits sb.image < (sb.image.snaplist slot2).sectors ∧
        sb.resolution (sb.image.snaplist slot1).bit c ≠ sb.resolution (sb.image.snaplist slot2).bit c := by
  have hcsb : chunkSectorsBits sb.image ≤ 32 := by unfold chunkSectorsBits; omega
  have hfound := List.find?_some h2
  have hsectors := snapSectors_eq (List.mem_range.1 (List.mem_of_find?_eq_some h2)) (of_decide_eq_true hfound) htags
  have hlist := streamChangelist_eq wild hw hlev hcsb (.inr ⟨horigin, slot1, h1, rfl⟩) h2
  refine ⟨_, hlist, changed_sorted hw _, fun c => ?_⟩
  rw [mem_changed hw, hsectors, shiftBit, if_pos hlive1, shiftBit, if_pos hlive2, Sb.resolution, Sb.resolution,
    findShare_ne_iff hlive1 hlive2]
  -- the exceptions of a chunk are those of one map entry, or there are none
  cases hex : sb.exns c with
  | nil => exact .nil
  | cons p ps =>
    obtain ⟨m, hm, -, he⟩ := mem_of_exnsAt_ne_nil (show exnsAt sb.view.content c ≠ [] from fun h => by
      rw [Sb.exns, h] at hex; cases hex)
    rw [← hex, Sb.exns, ← he]
    exact hdisjoint m hm

/-- A small combined store below an origin of 320 sectors, which are 40 chunks. -/
def sizedConfig : Config := { tinyConfig with orgsectors := 320 }

/-- A server on it; the origin holds its own chunk numbers. -/
def sizedServer : Served Nat :=
  ⟨startServer ((initSnapstore sizedConfig 0 id).getD (sizedConfig.blankStore 0 id)) true, ⟨id, fun _ => none⟩⟩

private theorem sizedServer_init : sizedServer.Init := by
  have hsome : (initSnapstore sizedConfig 0 (id : Nat → Nat)).isSome = true := by decide +kernel
  obtain ⟨sb, hsb⟩ := Option.isSome_iff_exists.1 hsome
  refine ⟨sizedConfig, 0, sb, true, ⟨rfl, by decide, by decide, by decide⟩, hsb, ?_, rfl⟩
  unfold sizedServer
  rw [hsb]
  rfl

/-- Two snapshots: chunk 5 was written before the second one was created, chunks 6 and 50 after it, and chunk 7 by the
second snapshot. -/
def sizedRun : Served Nat :=
  (Reach.exec Served.step Served.Ok sizedServer [.create 7, .originWrite [(5, 1)] fun _ => 100, .create 8,
    .originWrite [(6, 1), (50, 1)] fun _ => 300, .snapshotWrite 8 [(7, 1)] fun _ => 400]).getD sizedServer

theorem sizedRun_run : Reach.Run Served.step Served.Ok Served.Init sizedRun :=
  (Reach.Run.start sizedServer_init).exec_getD _

/-- The tree of a server in a run is in order, and so are its share masks. -/
theorem served_tree {st : Served D} (h : Reach.Run Served.step Served.Ok Served.Init st) :
    st.sb.view.WellFormed st.sb.allocPerNode st.sb.allocsize ∧
      ∀ m ∈ st.sb.view.content, m.exceptions.Pairwise fun p q => p.share &&& q.share = 0 := by
  obtain ⟨R, hinv⟩ := isolated_run h
  have hw := hinv.serving.store.wellFormed
  have hasc : Ascending st.sb.view.content := hw.keyed.ascending
  refine ⟨hw, fun m hm => ?_⟩
  have hshares := (hinv.serving.masks m.rchunk).disjoint
  rwa [Sb.exns, exnsAt_mem hasc hm] at hshares

theorem changelist_between_exact_two : ∃ chunks, streamChangelist 0 sizedRun.sb 7 8 = .ok chunks ∧
    chunks.Pairwise (· < ·) ∧ ∀ c, c ∈ chunks ↔
      c * 2 ^ chunkSectorsBits sizedRun.sb.image < (sizedRun.sb.image.snaplist 1).sectors ∧
        sizedRun.sb.resolution (sizedRun.sb.image.snaplist 0).bit c ≠
          sizedRun.sb.resolution (sizedRun.sb.image.snaplist 1).bit c :=
  changelist_between_exact 0 (served_tree sizedRun_run).1 (by decide +kernel) (by decide +kernel)
    (served_tree sizedRun_run).2 (by decide) (by decide +kernel) (by decide +kernel) (by decide +kernel)
    (by decide +kernel) (by decide +kernel)

/-- The volumes of two snapshots agree on the chunks below the size of the second one that a list leaves out: with the
listed chunks rewritten, the first volume is the second one. -/
structure Suffices (st : Served D) (tag1 tag2 : Nat) (chunks : List Nat) (volume1 volume2 : Nat → D) : Prop where
  source : st.spec.snaps tag1 = some volume1
  target : st.spec.snaps tag2 = some volume2
  agree : ∀ c < 2 ^ 32, c * 2 ^ chunkSectorsBits st.sb.image < snapSectors st.sb.image tag2 → c ∉ chunks →
    volume1 c = volume2 c

/-- In every run the changelist between two listed snapshots is all that their volumes differ in. -/
theorem changelist_suffices {st : Served D} (h : Reach.Run Served.step Served.Ok Served.Init st) (wild : Mask)
    {tag1 tag2 slot1 slot2 : Nat} (horigin : tag1 ≠ originTag) (h1 : findSnap st.sb tag1 = some slot1)
    (h2 : findSnap st.sb tag2 = some slot2) :
    ∃ chunks volume1 volume2, streamChangelist wild st.sb tag1 tag2 = .ok chunks ∧
      Suffices st tag1 tag2 chunks volume1 volume2 := by
  obtain ⟨R, hinv⟩ := isolated_run h
  have hw := hinv.serving.store.wellFormed
  have hcsb : chunkSectorsBits st.sb.image ≤ 32 :=
    Nat.le_trans (Nat.sub_le _ _) (Nat.le_of_lt hinv.serving.block)
  have hlt1 := List.mem_range.1 (List.mem_of_find?_eq_some h1)
  have hlt2 := List.mem_range.1 (List.mem_of_find?_eq_some h2)
  obtain rfl : (st.sb.image.snaplist slot1).tag = tag1 := by simpa using List.find?_some h1
  obtain rfl : (st.sb.image.snaplist slot2).tag = tag2 := by simpa using List.find?_some h2
  have hb1 := hasBit_lt (hinv.list.live slot1 hlt1)
  have hb2 := hasBit_lt (hinv.list.live slot2 hlt2)
  obtain ⟨volume1, hv1, hr1⟩ := hinv.reads slot1 hlt1
  obtain ⟨volume2, hv2, hr2⟩ := hinv.reads slot2 hlt2
  refine ⟨_, volume1, volume2, streamChangelist_eq wild hw hinv.serving.store.deep hcsb
    (.inr ⟨horigin, slot1, h1, rfl⟩) h2, hv1, hv2, fun c hc hsize hn => ?_⟩
  rw [mem_changed hw, shiftBit, if_pos hb1, shiftBit, if_pos hb2,
    ← findShare_ne_iff hb1 hb2 (hinv.serving.masks c).disjoint, not_and, not_not] at hn
  -- both snapshots find the same exception, or both read the origin
  have hread : st.sb.readOn st.sb.dev (st.sb.image.snaplist slot1).bit c =
      st.sb.readOn st.sb.dev (st.sb.image.snaplist slot2).bit c := by
    unfold Sb.readOn storeChunk
    rw [hn hsize]
  rw [hr1 c hc, hr2 c hc] at hread
  exact Block.data.inj hread

theorem changelist_suffices_two : ∃ chunks volume1 volume2, streamChangelist 0 sizedRun.sb 7 8 = .ok chunks ∧
    Suffices sizedRun 7 8 chunks volume1 volume2 :=
  changelist_suffices sizedRun_run 0 (by decide)
    (show findSnap sizedRun.sb 7 = some 0 by decide +kernel) (show findSnap sizedRun.sb 8 = some 1 by decide +kernel)

/-! ### The buffers of the walk -/

/-- The walk over the whole tree ends, visits every leaf once, in the order of the separators, and releases every buffer
that it reads. -/
theorem traverse_visits_once (h : sb.view.WellFormed cap size) (hlev : 0 < sb.image.etreeLevels) :
    ∃ bound, ∀ rounds ≥ bound, ∃ acts, traverseActs rounds sb = some acts ∧
      acts.filterMap Act.visit? = sb.view.slots.map Prod.snd ∧ (acts.filterMap Act.visit?).Nodup ∧
      sb.view.slots.Pairwise (fun x y => x.1 < y.1) ∧
      (acts.filterMap Act.read?).Perm (acts.filterMap Act.release?) := by
  refine ⟨sb.view.slots.length, fun rounds hrounds => ?_⟩
  have hlist : visitLeaves (nodesOf id sb.mem) sb.image.etreeLevels rounds sb.image.etreeRoot [] =
      some (sb.view.slots.map Prod.snd) := by
    exact visitLeaves_eq (r := (0, sb.image.etreeRoot)) hlev (fun i hi x hx => h.planted.ne_nil hi hx) hrounds
  obtain ⟨hvisit, hrelease⟩ :=
    @leavesActs_spec _ _ (nodesOf id sb.mem) sb.image.etreeLevels rounds sb.image.etreeRoot []
  rw [hlist] at hvisit
  obtain ⟨acts, hacts, hslots⟩ := Option.map_eq_some_iff.1 hvisit
  refine ⟨acts, hacts, hslots, ?_, h.keyed.sorted.imp And.left, hrelease acts hacts⟩
  rw [hslots]
  exact h.planted.nodup

theorem traverse_visits_once_two : ∃ bound, ∀ rounds ≥ bound, ∃ acts, traverseActs rounds sizedRun.sb = some acts ∧
    acts.filterMap Act.visit? = sizedRun.sb.view.slots.map Prod.snd ∧ (acts.filterMap Act.visit?).Nodup ∧
    sizedRun.sb.view.slots.Pairwise (fun x y => x.1 < y.1) ∧
    (acts.filterMap Act.read?).Perm (acts.filterMap Act.release?) :=
  traverse_visits_once (served_tree sizedRun_run).1 (by decide +kernel)

/-! ### A snapshot and the origin -/

private theorem differs_allOnes {bit : Nat} (hb : bit < 64) (p : Exception) :
    differs (BitVec.allOnes 64) (maskBit bit) p = true ↔
      hasBit p.share bit = true ∧ p.share ≠ BitVec.allOnes 64 := by
  unfold differs
  rw [and_maskBit_beq hb, BitVec.and_allOnes]
  cases hbit : hasBit p.share bit with
  | true => simp
  | false =>
    have hne : p.share ≠ BitVec.allOnes 64 := fun h => by
      rw [h, hasBit, BitVec.getLsbD_allOnes] at hbit
      simp [hb] at hbit
    simpa using hne

/-- The changelist between the origin and a snapshot that is not squashed, in a tree in order, holds of the chunks below
the size of the snapshot those for which the snapshot has an exception, exactly if for each of these chunks some exception
of the snapshot is not shared by all 64 snapshots. -/
theorem changelist_origin_exact_iff {sb : Sb D} {cap size tag slot : Nat} (wild : Mask)
    (hw : sb.view.WellFormed cap size) (hlev : 0 < sb.image.etreeLevels) (hbits : sb.image.snapdata.allocsizeBits < 32)
    (hslot : findSnap sb tag = some slot) (hlive : (sb.image.snaplist slot).bit < 64)
    (htags : ∀ i < sb.image.snapshots, (sb.image.snaplist i).tag = tag → i = slot) :
    (∃ chunks, streamChangelist wild sb originTag tag = .ok chunks ∧
      ∀ c, c * 2 ^ chunkSectorsBits sb.image < (sb.image.snaplist slot).sectors →
        (c ∈ chunks ↔ ∃ p ∈ sb.exns c, hasBit p.share (sb.image.snaplist slot).bit = true)) ↔
    ∀ c, c * 2 ^ chunkSectorsBits sb.image < (sb.image.snaplist slot).sectors →
      (∃ p ∈ sb.exns c, hasBit p.share (sb.image.snaplist slot).bit = true) →
      ∃ p ∈ sb.exns c, hasBit p.share (sb.image.snaplist slot).bit = true ∧ p.share ≠ BitVec.allOnes 64 := by
  have hcsb : chunkSectorsBits sb.image ≤ 32 := by unfold chunkSectorsBits; omega
  have hfound := List.find?_some hslot
  have hsectors := snapSectors_eq (List.mem_range.1 (List.mem_of_find?_eq_some hslot)) (of_decide_eq_true hfound) htags
  have hlist := streamChangelist_eq wild hw hlev hcsb (.inl ⟨rfl, rfl⟩) hslot
  rw [hlist]
  simp only [Except.ok.injEq, exists_eq_left']
  refine forall_congr' fun c => imp_congr_right fun hc => ?_
  rw [mem_changed hw, hsectors, shiftBit, if_pos hlive]
  simp only [differs_allOnes hlive, hc, true_and]
  exact ⟨fun h => h.2, fun h => ⟨fun ⟨p, hp, hb, _⟩ => ⟨p, hp, hb⟩, h⟩⟩

theorem changelist_origin_exact_two : ∃ chunks, streamChangelist 0 sizedRun.sb originTag 8 = .ok chunks ∧
    ∀ c, c * 2 ^ chunkSectorsBits sizedRun.sb.image < (sizedRun.sb.image.snaplist 1).sectors →
      (c ∈ chunks ↔ ∃ p ∈ sizedRun.sb.exns c, hasBit p.share (sizedRun.sb.image.snaplist 1).bit = true) := by
  refine (changelist_origin_exact_iff 0 (served_tree sizedRun_run).1 (by decide +kernel) (by decide +kernel)
    (by decide +kernel) (by decide +kernel) (by decide +kernel)).2 fun c _ => ?_
  rintro ⟨p, hp, hb⟩
  refine ⟨p, hp, hb, ?_⟩
  obtain ⟨m, hm, -, hpm⟩ := mem_exnsAt hp
  have hall : ∀ m ∈ sizedRun.sb.view.content, ∀ p ∈ m.exceptions, p.share ≠ BitVec.allOnes 64 := by decide +kernel
  exact hall m hm p hpm

/-- The server after 64 snapshots were created and chunk 5 of the origin was written. -/
def fullRun : Served Nat :=
  (Reach.exec Served.step Served.Ok sizedServer ((List.range 64).map .create ++ [.originWrite [(5, 1)] fun _ => 100])).getD
    sizedServer

/-- All snapshots share the exception of chunk 5, and the list for each of them is empty. -/
theorem shared_chunk_left_out : Reach.Run Served.step Served.Ok Served.Init fullRun ∧
    fullRun.sb.exns 5 = [⟨BitVec.allOnes 64, 13⟩] ∧ 5 * 2 ^ chunkSectorsBits fullRun.sb.image < 320 ∧
    (fullRun.sb.image.snaplist 8).tag = 8 ∧ (fullRun.sb.image.snaplist 8).sectors = 320 ∧
    (streamChangelist 0 fullRun.sb originTag 8).toOption = some [] :=
  ⟨(Reach.Run.start sizedServer_init).exec_getD _, by decide +kernel⟩

end Ddsnap
