import Ddsnap.Fresh
import Ddsnap.UseCounts

/-!
# The snapshot list over whole runs

Bits, list positions and the mask are changed by separate functions: `create_snapshot` appends an entry and sets its bit,
`delete_snap` compresses an entry out of the list and leaves the mask to `delete_tree_range`, a squash takes the bit of
an entry that stays, and a restart reads the list of the superblock on disk and recomputes the mask.  The roster numbers
the creations and keeps, beside the list in memory and the list on disk, the numbers and the tags of the entries that
should be there (`Roster`).  In every run the list is the roster in the order of the creations, its live entries have
different bits, and the mask is the union of these bits (`snapshot_list_kept`).
-/

namespace Ddsnap

variable {D : Type} {sb sb' : Sb D}

/-! ### Bits -/

/-- The listed snapshots of a superblock image. -/
def Disksuper.entries (image : Disksuper) : List Snapshot := (List.range image.snapshots).map image.snaplist

/-- No two live entries have the same bit, and a mask holds exactly their bits. -/
structure LiveBits (entries : List Snapshot) (mask : Mask) : Prop where
  owners : entries.Pairwise fun x y => isSquashed x = false → isSquashed y = false → x.bit ≠ y.bit
  union : ∀ b, hasBit mask b = true ↔ ∃ e ∈ entries, isSquashed e = false ∧ e.bit = b

section

variable {entries rest : List Snapshot} {mask : Mask} {e : Snapshot}

theorem LiveBits.perm {entries' : List Snapshot} (h : LiveBits entries mask) (hp : entries.Perm entries') :
    LiveBits entries' mask where
  owners := hp.pairwise h.owners fun hxy hx hy => (hxy hy hx).symm
  union b := by simp only [h.union, hp.mem_iff]

private theorem LiveBits.lt (h : LiveBits entries mask) (he : e ∈ entries) (hl : isSquashed e = false) :
    e.bit < maxSnapshots := hasBit_lt ((h.union e.bit).2 ⟨e, he, hl, rfl⟩)

/-- A live entry leaves the list. -/
theorem LiveBits.delete (h : LiveBits (e :: rest) mask) (he : isSquashed e = false) :
    LiveBits rest (mask &&& ~~~(maskBit e.bit)) := by
  obtain ⟨hothers, hrest⟩ := List.pairwise_cons.1 h.owners
  have hlt : e.bit < 64 := h.lt List.mem_cons_self he
  refine ⟨hrest, fun b => ?_⟩
  rw [hasBit_and, hasBit_not, hasBit_maskBit hlt, Bool.and_eq_true, h.union]
  constructor
  · rintro ⟨⟨x, hx, hl, rfl⟩, hne⟩
    rcases List.mem_cons.1 hx with rfl | hx
    · simp at hne
    · exact ⟨x, hx, hl, rfl⟩
  · rintro ⟨x, hx, hl, rfl⟩
    have hx64 : x.bit < 64 := h.lt (List.mem_cons_of_mem _ hx) hl
    have hne : x.bit ≠ e.bit := (hothers x hx he hl).symm
    exact ⟨⟨x, List.mem_cons_of_mem _ hx, hl, rfl⟩, by simp [hx64, hne]⟩

theorem LiveBits.deleteSquashed (h : LiveBits (e :: rest) mask) (he : isSquashed e = true) : LiveBits rest mask := by
  refine ⟨(List.pairwise_cons.1 h.owners).2, fun b => ?_⟩
  simp [h.union, he]

/-- A squashed entry takes part in nothing. -/
theorem LiveBits.addSquashed (h : LiveBits rest mask) (he : isSquashed e = true) : LiveBits (e :: rest) mask := by
  refine ⟨List.pairwise_cons.2 ⟨fun x _ hl => ?_, h.owners⟩, fun b => ?_⟩
  · rw [he] at hl
    cases hl
  · simp [h.union, he]

/-- A live entry comes with a bit that is not in the mask. -/
theorem LiveBits.create (h : LiveBits entries mask) (hbit : hasBit mask e.bit = false) (hlt : e.bit < maxSnapshots) :
    LiveBits (e :: entries) (mask ||| maskBit e.bit) := by
  have hlive : isSquashed e = false := decide_eq_false (Nat.ne_of_lt hlt)
  refine ⟨List.pairwise_cons.2 ⟨fun x hx _ hl heq => ?_, h.owners⟩, fun b => ?_⟩
  · have := (h.union e.bit).2 ⟨x, hx, hl, heq.symm⟩
    rw [hbit] at this
    cases this
  · rw [hasBit_or, Bool.or_eq_true, hasBit_maskBit hlt, h.union]
    simp only [List.exists_mem_cons_iff, hlive, true_and, decide_eq_true_eq, eq_comm (a := b)]
    exact or_comm

/-- The tag, the counts and the priority of an entry do not matter for the bits. -/
theorem LiveBits.modify {e' : Snapshot} (h : LiveBits (e :: rest) mask) (hbit : e'.bit = e.bit) :
    LiveBits (e' :: rest) mask := by
  have hsq : isSquashed e' = isSquashed e := by simp only [isSquashed, hbit]
  obtain ⟨hothers, hrest⟩ := List.pairwise_cons.1 h.owners
  refine ⟨List.pairwise_cons.2 ⟨fun x hx hl => ?_, hrest⟩, fun b => ?_⟩
  · rw [hbit]
    exact hothers x hx (hsq ▸ hl)
  · simp only [h.union, List.exists_mem_cons_iff, hsq, hbit]

end

private theorem calcSnapmask_liveBits {image : Disksuper} {mask : Mask} (h : LiveBits image.entries mask) :
    calcSnapmask image = mask := by
  refine BitVec.eq_of_getLsbD_eq fun b _ => Bool.eq_iff_iff.2 ?_
  have hsmall : ∀ i < image.snapshots, isSquashed (image.snaplist i) = false → (image.snaplist i).bit < 64 :=
    fun i hi hl => h.lt (List.mem_map_of_mem (List.mem_range.2 hi)) hl
  refine ((hasBit_calcSnapmask_iff hsmall b).trans ?_).trans (h.union b).symm
  simp [Disksuper.entries]

/-! ### The roster -/

/-- A list holds the entries of a roll in the order of their creation. -/
structure Enrolled (entries : List Snapshot) (roll : List (Nat × Nat)) : Prop where
  few : entries.length ≤ maxSnapshots
  distinct : (entries.map Snapshot.tag).Nodup
  tags : entries.map Snapshot.tag = roll.map Prod.snd
  order : (roll.map Prod.fst).Pairwise (· < ·)

/-- The roll without a tag. -/
def strike (roll : List (Nat × Nat)) (tag : Nat) : List (Nat × Nat) := roll.filter fun birth => birth.2 ≠ tag

section

variable {entries : List Snapshot} {roll : List (Nat × Nat)} {i : Nat}

private theorem Enrolled.strike (h : Enrolled entries roll) (hi : i < entries.length) :
    Enrolled (entries.eraseIdx i) (strike roll entries[i].tag) := by
  have hsub : (entries.eraseIdx i).Sublist entries := List.eraseIdx_sublist ..
  refine ⟨Nat.le_trans hsub.length_le h.few, (hsub.map Snapshot.tag).nodup h.distinct, ?_,
    h.order.sublist (List.filter_sublist.map Prod.fst)⟩
  have hroll : (Ddsnap.strike roll entries[i].tag).map Prod.snd =
      (roll.map Prod.snd).filter (· != entries[i].tag) := by
    rw [List.filter_map]
    exact congrArg _ (List.filter_congr fun birth _ => by
      by_cases hb : birth.2 = entries[i].tag <;> simp [hb])
  have hlen : i < (entries.map Snapshot.tag).length := by simpa using hi
  have herase := h.distinct.erase_getElem i hlen
  rw [List.getElem_map] at herase
  rw [hroll, ← h.tags, ← h.distinct.erase_eq_filter, herase, List.eraseIdx_map]

private theorem Enrolled.set (h : Enrolled entries roll) (hi : i < entries.length) {e : Snapshot}
    (htag : e.tag = entries[i].tag) : Enrolled (entries.set i e) roll := by
  have hmap : (entries.set i e).map Snapshot.tag = entries.map Snapshot.tag := by
    rw [List.map_set, htag]
    apply List.ext_getElem
    · simp
    · intro j h1 h2
      rw [List.getElem_set]
      split_ifs with hij
      · subst hij
        simp
      · rfl
  exact ⟨by rw [List.length_set]; exact h.few, hmap ▸ h.distinct, hmap ▸ h.tags, h.order⟩

private theorem Enrolled.append (h : Enrolled entries roll) {e : Snapshot} {clock : Nat}
    (hroom : entries.length < maxSnapshots)
    (htag : e.tag ∉ entries.map Snapshot.tag) (hpast : ∀ birth ∈ roll, birth.1 < clock) :
    Enrolled (entries ++ [e]) (roll ++ [(clock, e.tag)]) where
  few := by rw [List.length_append]; exact hroom
  distinct := by
    rw [List.map_append, List.map_singleton]
    exact List.nodup_append.2 ⟨h.distinct, List.nodup_singleton _, fun t ht t' ht' heq => htag (by
      rw [← List.mem_singleton.1 ht', ← heq]
      exact ht)⟩
  tags := by simp [h.tags]
  order := by
    rw [List.map_append, List.map_singleton]
    refine List.pairwise_append.2 ⟨h.order, List.pairwise_singleton .., fun n hn m hm => ?_⟩
    obtain ⟨birth, hb, rfl⟩ := List.mem_map.1 hn
    rw [List.mem_singleton.1 hm]
    exact hpast birth hb

end

/-- The server with the roll of the list in memory, the roll of the list on disk, and the number of the next creation. -/
structure Roster (D : Type) where
  sb : Sb D
  roll : List (Nat × Nat)
  saved : List (Nat × Nat)
  clock : Nat

/-- What the server does to its superblock: the four functions that work on the list, and between them the saves, the
replay after a restart, copies on write, commits, and any change of counts and priorities. -/
inductive ListCall where
  | create (tag : Nat)
  | delete (slot : Nat)
  | autoDelete
  | restart
  | save
  | replay (behind : Nat → Nat)
  | copy (chunk : Nat) (snapbit : Option Nat)
  | commit (barrier : Bool)
  | count (bit n : Nat)
  | priority (tag : Nat) (prio : Int)
  | usecount (tag : Nat) (dev : Int)

/-- `delete_snap`.  The deletion of a live snapshot saves the superblock, that of a squashed one does not. -/
def Roster.delete (r : Roster D) (slot : Nat) : Option (Roster D) := do
  let snap := r.sb.image.snaplist slot
  let roll := strike r.roll snap.tag
  let sb ← deleteSnap r.sb slot
  return { r with sb := sb, roll := roll, saved := if isSquashed snap then r.saved else roll }

/-- The deletion at the start of `create_snapshot`. -/
def Roster.makeRoom (r : Roster D) : Option (Roster D) :=
  if maxSnapshots ≤ r.sb.image.snapshots ∧ usecount r.sb (r.sb.image.snaplist (findUnused r.sb)) = 0 then
    r.delete (findUnused r.sb)
  else some r

/-- `create_snapshot`. -/
def Roster.create (r : Roster D) (tag : Nat) : Option (Roster D) := do
  let r1 ← r.makeRoom
  let (bit, sb) ← createSnapshot r.sb tag
  return { r1 with
    sb := sb
    roll := if bit.isSome then r1.roll ++ [(r.clock, tag)] else r1.roll
    clock := r.clock + 1 }

/-- `auto_delete_snapshot`: a snapshot in use is squashed and stays on the roll. -/
def Roster.autoDelete (r : Roster D) : Option (Roster D) := do
  let (ok, sb) ← autoDeleteSnapshot r.sb
  if ok = false then return { r with sb := sb }
  else if usecount r.sb (r.sb.image.snaplist (findVictim r.sb)) ≠ 0 then return { r with sb := sb, saved := r.roll }
  else r.delete (findVictim r.sb)

/-- `save_sb_check`: the list goes to disk if the superblock is dirty. -/
def Roster.save (r : Roster D) : Option (Roster D) :=
  (commitDeferredAllocs r.sb).map fun sb =>
    { r with sb := saveSb sb, saved := if sb.sbDirty then r.roll else r.saved }

def Roster.step (r : Roster D) : ListCall → Option (Roster D)
  | .create tag => r.create tag
  | .delete slot => r.delete slot
  | .autoDelete => r.autoDelete
  | .restart => some { r with sb := restart r.sb, roll := r.saved }
  | .save => r.save
  | .replay behind => (replayJournal r.sb behind).map fun sb => { r with sb := sb }
  | .copy chunk snapbit => (uniqueException r.sb chunk snapbit).map fun p => { r with sb := p.2 }
  | .commit barrier => (commitTransaction (finishCopyout r.sb) barrier).map fun sb => { r with sb := sb }
  | .count bit n => some { r with sb := { r.sb with usecount := Function.update r.sb.usecount bit n } }
  | .priority tag prio => some { r with sb := setPriority r.sb tag prio }
  | .usecount tag dev => some { r with sb := changeUsecount r.sb tag dev }

/-- A deletion is asked for a listed snapshot. -/
def Roster.Ok (r : Roster D) : ListCall → Prop
  | .delete slot => slot < r.sb.image.snapshots
  | _ => True

/-- A server that was started on a new store. -/
def Roster.Init (r : Roster D) : Prop :=
  ∃ (cfg : Config) (blank : D) (org : Nat → D) (sb : Sb D) (deferring : Bool),
    initSnapstore cfg blank org = some sb ∧ r = ⟨startServer sb deferring, [], [], 0⟩

/-- The lists in memory and on disk are in order. -/
structure Roster.Kept (r : Roster D) : Prop where
  list : Enrolled r.sb.entries r.roll
  live : LiveBits r.sb.entries r.sb.snapmask
  disk : Enrolled r.sb.diskSuper.entries r.saved
  diskLive : ∃ mask, LiveBits r.sb.diskSuper.entries mask
  past : ∀ birth ∈ r.roll, birth.1 < r.clock
  diskPast : ∀ birth ∈ r.saved, birth.1 < r.clock

variable {r r' : Roster D}

private theorem Roster.Kept.same (h : r.Kept) (hs : SameSnaps r.sb sb') (hd : sb'.diskSuper = r.sb.diskSuper) :
    Roster.Kept { r with sb := sb' } := by
  have he : sb'.entries = r.sb.entries := by unfold Sb.entries; rw [hs.snaplist, hs.snapshots]
  refine ⟨?_, ?_, ?_, ?_, h.past, h.diskPast⟩
  · rw [he]; exact h.list
  · rw [he, hs.snapmask]; exact h.live
  · rw [hd]; exact h.disk
  · rw [hd]; exact h.diskLive

private theorem deleteTreeRange_saved {mask : Mask} {resume : Nat} (h : deleteTreeRange sb mask resume = some sb') :
    sb'.diskSuper = sb'.image := by
  obtain ⟨sb1, -, rfl⟩ := deleteTreeRange_cases h
  rfl

private theorem strike_past {roll : List (Nat × Nat)} {clock tag : Nat} (h : ∀ birth ∈ roll, birth.1 < clock) :
    ∀ birth ∈ strike roll tag, birth.1 < clock := fun birth hb => h birth (List.mem_of_mem_filter hb)

private theorem Roster.Kept.delete (h : r.Kept) {slot : Nat} (hi : slot < r.sb.image.snapshots)
    (hd : r.delete slot = some r') : r'.Kept := by
  obtain ⟨sb', hdel, he⟩ := Option.bind_eq_some_iff.1 hd
  cases he
  have hlen : slot < r.sb.entries.length := by simpa [Sb.entries] using hi
  have hget : r.sb.entries[slot] = r.sb.image.snaplist slot := by simp [Sb.entries]
  have hroll := h.list.strike hlen
  have hperm := h.live.perm (entries_perm hi)
  rw [hget] at hroll
  rw [← entries_removeSlot hi] at hroll hperm
  unfold deleteSnap at hdel
  dsimp only at hdel
  split_ifs at hdel with hs
  · -- the mask has lost the bit of a squashed snapshot already
    cases hdel
    refine ⟨hroll, hperm.deleteSquashed hs, ?_, h.diskLive, strike_past h.past, ?_⟩
    · rw [if_pos hs]; exact h.disk
    · rw [if_pos hs]; exact h.diskPast
  · obtain ⟨sb1, h1, h2⟩ := Option.bind_eq_some_iff.1 hdel
    have hs1 := (frame_commitDeferredAllocs h1).sameSnaps
    have hs2 := deleteTreeRange_sameSnaps h2
    have hentries : sb'.entries =
        (List.range (removeSlot r.sb.image slot).snapshots).map (removeSlot r.sb.image slot).snaplist := by
      unfold Sb.entries
      rw [hs2.snaplist, hs2.snapshots]
      dsimp only
      rw [hs1.snaplist, hs1.snapshots]
      rfl
    have hmask : sb'.snapmask = r.sb.snapmask &&& ~~~(maskBit (r.sb.image.snaplist slot).bit) := by
      rw [hs2.snapmask]
      dsimp only
      rw [hs1.snapmask]
      rfl
    have hlist : Enrolled sb'.entries (Ddsnap.strike r.roll (r.sb.image.snaplist slot).tag) := by
      rw [hentries]
      exact hroll
    have hlive : LiveBits sb'.entries sb'.snapmask := by
      rw [hentries, hmask]
      exact hperm.delete (by simpa using hs)
    have hdisk : sb'.diskSuper.entries = sb'.entries := by rw [deleteTreeRange_saved h2]; rfl
    refine ⟨hlist, hlive, ?_, ⟨sb'.snapmask, hdisk ▸ hlive⟩, strike_past h.past, ?_⟩
    · rw [if_neg hs, hdisk]; exact hlist
    · rw [if_neg hs]; exact strike_past h.past

/-- `create_snapshot` where there is room for a new entry. -/
private theorem Roster.Kept.enlist (h : r.Kept) {snap : Snapshot} (hroom : r.sb.image.snapshots < maxSnapshots)
    (hb : snap.bit < 64) (hfree : hasBit r.sb.snapmask snap.bit = false)
    (htag : ∀ i < r.sb.image.snapshots, (r.sb.image.snaplist i).tag ≠ snap.tag) :
    Roster.Kept { r with
      sb := setSbDirty { r.sb with
        snapmask := r.sb.snapmask ||| maskBit snap.bit
        image := { r.sb.image with
          snaplist := Function.update r.sb.image.snaplist r.sb.image.snapshots snap
          snapshots := r.sb.image.snapshots + 1 } }
      roll := r.roll ++ [(r.clock, snap.tag)]
      clock := r.clock + 1 } := by
  have hlen : r.sb.entries.length < maxSnapshots := by simpa [Sb.entries] using hroom
  have htags : snap.tag ∉ r.sb.entries.map Snapshot.tag := by simpa [Sb.entries] using htag
  refine ⟨?_, (h.live.create hfree hb).perm (entries_push snap), h.disk, h.diskLive, fun birth hbirth => ?_,
    fun birth hbirth => Nat.lt_succ_of_lt (h.diskPast birth hbirth)⟩
  · have happend := h.list.append hlen htags h.past
    rw [← entries_append] at happend
    exact happend
  · rcases List.mem_append.1 hbirth with hbirth | hbirth
    · exact Nat.lt_succ_of_lt (h.past birth hbirth)
    · rw [List.mem_singleton.1 hbirth]
      exact Nat.lt_succ_self _

private theorem Roster.Kept.tick (h : r.Kept) : Roster.Kept { r with clock := r.clock + 1 } :=
  ⟨h.list, h.live, h.disk, h.diskLive, fun birth hb => Nat.lt_succ_of_lt (h.past birth hb),
    fun birth hb => Nat.lt_succ_of_lt (h.diskPast birth hb)⟩

private theorem Roster.Kept.makeRoom {r1 : Roster D} (h : r.Kept) (hr1 : r.makeRoom = some r1) :
    r1.Kept ∧ Ddsnap.makeRoom r.sb = some r1.sb ∧ r1.clock = r.clock := by
  unfold Roster.makeRoom at hr1
  unfold Ddsnap.makeRoom
  split_ifs at hr1 ⊢ with hfull
  · have hne : r.sb.image.snapshots ≠ 0 := fun h0 => by
      have := h0 ▸ hfull.1
      exact absurd this (by decide)
    refine ⟨h.delete (bestSlot_lt _ hne) hr1, ?_⟩
    obtain ⟨sb', hdel, he⟩ := Option.bind_eq_some_iff.1 hr1
    cases he
    exact ⟨hdel, rfl⟩
  · cases hr1
    exact ⟨h, rfl, rfl⟩

private theorem createSnapshot_room {tag b : Nat} {sb1 : Sb D} (hroom : makeRoom sb = some sb1)
    (h : createSnapshot sb tag = some (some b, sb')) : sb1.image.snapshots < maxSnapshots := by
  unfold createSnapshot at h
  simp only [hroom, Option.bind_eq_bind, Option.bind_some] at h
  by_contra hfull
  rw [if_pos (Nat.le_of_not_lt hfull)] at h
  cases h

private theorem Roster.Kept.create (h : r.Kept) {tag : Nat} (hd : r.create tag = some r') : r'.Kept := by
  obtain ⟨r1, hr1, hd⟩ := Option.bind_eq_some_iff.1 hd
  obtain ⟨⟨bit, sb'⟩, hcr, he⟩ := Option.bind_eq_some_iff.1 hd
  cases he
  obtain ⟨h1, hroom, hclock⟩ := h.makeRoom hr1
  rw [← hclock]
  obtain ⟨rfl, rfl⟩ | ⟨b, snap, rfl, hb, hfree, rfl, rfl, -, htags, rfl⟩ := createSnapshot_cases hroom hcr
  · exact h1.tick
  · exact h1.enlist (createSnapshot_room hroom hcr) hb hfree htags

/-- The squash of a live snapshot.  The list that `delete_tree_range` saves still has its bit. -/
private theorem Roster.Kept.squash (h : r.Kept) {slot : Nat} (hi : slot < r.sb.image.snapshots)
    (hlive : isSquashed (r.sb.image.snaplist slot) = false) (hd : squashSnap r.sb slot = some sb') :
    Roster.Kept { r with sb := sb', saved := r.roll } := by
  obtain ⟨sb1, h1, hd⟩ := Option.bind_eq_some_iff.1 hd
  obtain ⟨sb2, h2, hd⟩ := Option.bind_eq_some_iff.1 hd
  cases hd
  have hs1 := (frame_commitDeferredAllocs h1).sameSnaps
  have hs2 := deleteTreeRange_sameSnaps h2
  have hsnaps : sb2.image.snapshots = r.sb.image.snapshots := by rw [hs2.snapshots]; exact hs1.snapshots
  have hlist : sb2.image.snaplist = r.sb.image.snaplist := by rw [hs2.snaplist]; exact hs1.snaplist
  have hmask : sb2.snapmask = r.sb.snapmask &&& ~~~(maskBit (r.sb.image.snaplist slot).bit) := by
    rw [hs2.snapmask]
    dsimp only
    rw [hs1.snapmask]
  have hdisk : sb2.diskSuper.entries = r.sb.entries := by
    rw [deleteTreeRange_saved h2]
    unfold Disksuper.entries Sb.entries
    rw [hsnaps, hlist]
  have hlen : slot < r.sb.entries.length := by simpa [Sb.entries] using hi
  refine ⟨?_, ?_, by rw [hdisk]; exact h.list, ⟨r.sb.snapmask, by rw [hdisk]; exact h.live⟩, h.past, h.past⟩
  · unfold Sb.entries
    dsimp only
    rw [hsnaps, hlist, entries_set]
    exact h.list.set hlen (by simp [Sb.entries])
  · unfold Sb.entries
    dsimp only
    rw [hsnaps, hlist, hmask]
    exact (((h.live.perm (entries_perm hi)).delete hlive).addSquashed (by simp [isSquashed])).perm
      (entries_update hi _).symm

private theorem Roster.Kept.autoDelete (h : r.Kept) (hd : r.autoDelete = some r') : r'.Kept := by
  obtain ⟨⟨ok, sb'⟩, hauto, hd⟩ := Option.bind_eq_some_iff.1 hd
  unfold autoDeleteSnapshot at hauto
  split_ifs at hauto with hn
  dsimp only at hauto hd
  have hlt : findVictim r.sb < r.sb.image.snapshots := bestSlot_lt _ hn
  split_ifs at hauto with hv hu
  · -- no snapshot is left to delete: only the free chunks are counted again
    cases hauto
    cases hd
    obtain ⟨metafree, snapfree, he⟩ := recountFree_eq r.sb
    rw [he]
    exact h.same ⟨rfl, rfl, rfl, rfl, rfl⟩ rfl
  · obtain ⟨sb1, h1, he⟩ := Option.map_eq_some_iff.1 hauto
    cases he
    rw [if_neg (by simp), if_pos hu] at hd
    cases hd
    exact h.squash hlt (by simpa using fun e => hv (.inl e)) h1
  · obtain ⟨sb1, h1, he⟩ := Option.map_eq_some_iff.1 hauto
    cases he
    rw [if_neg (by simp), if_neg hu] at hd
    exact h.delete hlt hd

private theorem Roster.Kept.save (h : r.Kept) (hd : r.save = some r') : r'.Kept := by
  obtain ⟨sb1, h1, he⟩ := Option.map_eq_some_iff.1 hd
  cases he
  have hf := frame_commitDeferredAllocs h1
  have h2 : Roster.Kept { r with sb := sb1 } := h.same hf.sameSnaps hf.diskSuper
  cases hdirty : sb1.sbDirty with
  | false =>
    have hsave : saveSb sb1 = sb1 := by unfold saveSb; rw [hdirty]; rfl
    rw [hsave]
    exact h2
  | true =>
    have hsave : saveSb sb1 = { sb1 with diskSuper := sb1.image, sbDirty := false } := by
      unfold saveSb; rw [hdirty]; rfl
    rw [hsave]
    exact ⟨h2.list, h2.live, h2.list, ⟨_, h2.live⟩, h2.past, h2.past⟩

private theorem Roster.Kept.restart (h : r.Kept) : Roster.Kept { r with sb := restart r.sb, roll := r.saved } := by
  obtain ⟨mask, hlive⟩ := h.diskLive
  have hmask : (Ddsnap.restart r.sb).snapmask = mask := calcSnapmask_liveBits hlive
  refine ⟨h.disk, ?_, h.disk, ⟨mask, hlive⟩, h.diskPast, h.diskPast⟩
  rw [hmask]
  exact hlive

private theorem Roster.Kept.modify (h : r.Kept) {slot : Nat} (hi : slot < r.sb.image.snapshots) {e : Snapshot}
    (htag : e.tag = (r.sb.image.snaplist slot).tag) (hbit : e.bit = (r.sb.image.snaplist slot).bit) :
    Roster.Kept { r with
      sb := { r.sb with image := { r.sb.image with snaplist := Function.update r.sb.image.snaplist slot e } } } := by
  have hlen : slot < r.sb.entries.length := by simpa [Sb.entries] using hi
  refine ⟨?_, ((h.live.perm (entries_perm hi)).modify hbit).perm (entries_update hi e).symm, h.disk, h.diskLive,
    h.past, h.diskPast⟩
  have hset := h.list.set hlen (e := e) (by simp [Sb.entries, htag])
  rw [← entries_set] at hset
  exact hset

private theorem Roster.Kept.priority (h : r.Kept) (tag : Nat) (prio : Int) :
    Roster.Kept { r with sb := setPriority r.sb tag prio } := by
  unfold setPriority modifySnap
  split
  · exact h
  · rename_i slot hslot
    exact h.modify (findSnap_eq_some hslot).1 rfl rfl

private theorem Roster.Kept.usecount (h : r.Kept) (tag : Nat) (dev : Int) :
    Roster.Kept { r with sb := changeUsecount r.sb tag dev } := by
  unfold changeUsecount
  split_ifs
  · exact h
  split
  · exact h
  rename_i slot hslot
  dsimp only
  split_ifs
  · exact h
  · exact h
  · exact h.modify (findSnap_eq_some hslot).1 rfl rfl

private theorem diskSuper_uniqueException {chunk : Nat} {snapbit exception : Option Nat}
    (h : uniqueException sb chunk snapbit = some (exception, sb')) : sb'.diskSuper = sb.diskSuper := by
  obtain ⟨path, leafbuf, -, ⟨-, -, rfl⟩ | ⟨-, newex, sb1, sb2, ok, ha, hadd, hend⟩⟩ := uniqueException_outcome h
  · rfl
  · have hf := amend_addExceptionToTree (copyout sb1 (copySource chunk (chunkUnique sb leafbuf chunk snapbit).2) newex)
      leafbuf chunk newex snapbit path
    rw [hadd] at hf
    have hcopy : (copyout sb1 (copySource chunk (chunkUnique sb leafbuf chunk snapbit).2) newex).diskSuper =
        sb1.diskSuper := by
      unfold copyout finishCopyout
      split_ifs <;> rfl
    have hs := (hf.diskSuper.trans hcopy).trans (amend_allocChunk ha).diskSuper
    rcases hend with ⟨-, -, rfl⟩ | ⟨-, -, rfl⟩
    · exact hs
    · exact (amend_freeChunk _ .snapdata newex).diskSuper.trans hs

private theorem sameSnaps_replayJournal {behind : Nat → Nat} (h : replayJournal sb behind = some sb') :
    SameSnaps sb sb' ∧ sb'.diskSuper = sb.diskSuper := by
  obtain ⟨scan, -, h⟩ := Option.bind_eq_some_iff.1 h
  obtain ⟨writes, -, h⟩ := Option.bind_eq_some_iff.1 h
  obtain ⟨⟨pos, c⟩, -, h⟩ := Option.bind_eq_some_iff.1 h
  cases h
  unfold checkFreespace Sb.setAsi
  dsimp only
  split_ifs <;> exact ⟨⟨rfl, rfl, rfl, rfl, rfl⟩, rfl⟩

private theorem Roster.Kept.step (h : r.Kept) {c : ListCall} (hok : r.Ok c) (hst : r.step c = some r') : r'.Kept := by
  cases c with
  | create tag => exact h.create hst
  | delete slot => exact h.delete hok hst
  | autoDelete => exact h.autoDelete hst
  | restart =>
    cases hst
    exact h.restart
  | save => exact h.save hst
  | replay behind =>
    obtain ⟨sb', hr, he⟩ := Option.map_eq_some_iff.1 hst
    cases he
    exact h.same (sameSnaps_replayJournal hr).1 (sameSnaps_replayJournal hr).2
  | copy chunk snapbit =>
    obtain ⟨⟨exception, sb'⟩, hu, he⟩ := Option.map_eq_some_iff.1 hst
    cases he
    exact h.same (sameSnaps_uniqueException hu) (diskSuper_uniqueException hu)
  | commit barrier =>
    obtain ⟨sb', hc, he⟩ := Option.map_eq_some_iff.1 hst
    cases he
    have hf := frame_commitTransaction hc
    refine h.same ((sameSnaps_finishCopyout r.sb).trans hf.sameSnaps) (hf.diskSuper.trans ?_)
    unfold finishCopyout
    split_ifs <;> rfl
  | count bit n =>
    cases hst
    exact ⟨h.list, h.live, h.disk, h.diskLive, h.past, h.diskPast⟩
  | priority tag prio =>
    cases hst
    exact h.priority tag prio
  | usecount tag dev =>
    cases hst
    exact h.usecount tag dev

/-! ### The run -/

private theorem initTree_snapshots {cfg : Config} {blank : D} {org : Nat → D}
    (h : initTree (cfg.blankStore blank org) = some sb) : sb.image.snapshots = 0 ∧ sb.diskSuper.snapshots = 0 := by
  obtain ⟨⟨leafbuf, sb1⟩, h1, h⟩ := Option.bind_eq_some_iff.1 h
  obtain ⟨⟨rootbuf, sb2⟩, h2, h⟩ := Option.bind_eq_some_iff.1 h
  cases h
  have hf := (amend_newLeaf h1).trans (amend_newNode h2)
  have hput := amend_put sb2 rootbuf (.node [⟨0, leafbuf⟩])
  have hsnaps := (hf.trans hput).frame.sameSnaps.snapshots
  have hdisk := (hf.trans hput).diskSuper
  have hdirty := amend_setBufferDirty { sb2.put rootbuf (.node [⟨0, leafbuf⟩]) with
    image := { (sb2.put rootbuf (.node [⟨0, leafbuf⟩])).image with etreeRoot := rootbuf } } leafbuf
  exact ⟨hdirty.frame.sameSnaps.snapshots.trans hsnaps, congrArg Disksuper.snapshots (hdirty.diskSuper.trans hdisk)⟩

private theorem Roster.Init.kept (h : r.Init) : r.Kept := by
  obtain ⟨cfg, blank, org, sb, deferring, hinit, rfl⟩ := h
  obtain ⟨sb1, h1, hsave⟩ := Option.bind_eq_some_iff.1 hinit
  obtain ⟨sb2, h2, rfl⟩ := Option.map_eq_some_iff.1 hsave
  obtain ⟨next, journal, hj⟩ := initJournal_eq sb1
  obtain ⟨hmem, hdisk⟩ : (initJournal sb1).image.snapshots = 0 ∧ (initJournal sb1).diskSuper.snapshots = 0 := by
    have hzero := initTree_snapshots h1
    rw [hj]
    exact hzero
  have hf := frame_commitDeferredAllocs h2
  have hzero : (saveSb sb2).diskSuper.snapshots = 0 := by
    unfold saveSb
    split
    · exact hf.sameSnaps.snapshots.trans hmem
    · exact (congrArg Disksuper.snapshots hf.diskSuper).trans hdisk
  have hnil : (saveSb sb2).diskSuper.entries = [] := by unfold Disksuper.entries; rw [hzero]; rfl
  have hlive : LiveBits (saveSb sb2).diskSuper.entries 0 := by
    rw [hnil]
    exact ⟨List.Pairwise.nil, by simp⟩
  have hlist : Enrolled (saveSb sb2).diskSuper.entries [] := by
    rw [hnil]
    exact ⟨Nat.zero_le _, List.nodup_nil, rfl, List.Pairwise.nil⟩
  refine ⟨hlist, ?_, hlist, ⟨0, hlive⟩, by simp, by simp⟩
  have hmask : (startServer (saveSb sb2) deferring).snapmask = 0 := calcSnapmask_liveBits hlive
  rw [hmask]
  exact hlive

/-- In every state that creations, deletions, automatic deletions and restarts reach, the list holds at most 64 entries
with different tags in the order of their creation, the live entries have different bits below 64, and the mask is the
union of these bits. -/
theorem snapshot_list_kept (h : Reach.Run Roster.step Roster.Ok Roster.Init r) :
    Enrolled r.sb.entries r.roll ∧ LiveBits r.sb.entries r.sb.snapmask ∧
      ∀ e ∈ r.sb.entries, isSquashed e = false → e.bit < maxSnapshots := by
  have hk : r.Kept := h.invariant (fun _ h0 => h0.kept) fun _ _ _ hr hok hst => hr.step hok hst
  exact ⟨hk.list, hk.live, fun e he hl => hk.live.lt he hl⟩

/-- The small store without snapshots. -/
def rosterStart : Roster Nat :=
  ⟨startServer ((initSnapstore tinyConfig 0 id).getD (tinyConfig.blankStore 0 id)) true, [], [], 0⟩

/-- Snapshot 7 is squashed and its bit goes to snapshot 9, snapshot 8 is deleted and created again after a restart. -/
def rosterCalls : List ListCall :=
  [.create 7, .create 8, .save, .copy 5 none, .commit false, .count 0 1, .count 1 1, .autoDelete, .create 9, .save,
    .delete 1, .restart, .create 8]

instance Roster.decidableOk (r : Roster D) : ∀ c, Decidable (r.Ok c)
  | .delete slot => inferInstanceAs (Decidable (slot < r.sb.image.snapshots))
  | .create _ | .autoDelete | .restart | .save | .replay _ | .copy _ _ | .commit _ | .count _ _ | .priority _ _
  | .usecount _ _ => inferInstanceAs (Decidable True)

def rosterRun : Roster Nat := (Reach.exec Roster.step Roster.Ok rosterStart rosterCalls).getD rosterStart

private theorem rosterStart_init : rosterStart.Init := by
  have hsome : (initSnapstore tinyConfig 0 (id : Nat → Nat)).isSome = true := by decide +kernel
  obtain ⟨sb, hsb⟩ := Option.isSome_iff_exists.1 hsome
  refine ⟨tinyConfig, 0, id, sb, true, hsb, ?_⟩
  unfold rosterStart
  rw [hsb]
  rfl

private theorem rosterRun_run : Reach.Run Roster.step Roster.Ok Roster.Init rosterRun :=
  (Reach.Run.start rosterStart_init).exec_getD rosterCalls

theorem snapshot_list_kept_squashed :
    (rosterRun.sb.entries.map fun e => (e.tag, e.bit)) = [(7, 64), (9, 0), (8, 1)] ∧
      rosterRun.roll = [(0, 7), (2, 9), (3, 8)] ∧ rosterRun.sb.snapmask = 3 ∧
      Enrolled rosterRun.sb.entries rosterRun.roll ∧ LiveBits rosterRun.sb.entries rosterRun.sb.snapmask := by
  have hrun : (rosterRun.sb.entries.map fun e => (e.tag, e.bit)) = [(7, 64), (9, 0), (8, 1)] ∧
      rosterRun.roll = [(0, 7), (2, 9), (3, 8)] ∧ rosterRun.sb.snapmask = 3 := by decide +kernel
  have hkept := snapshot_list_kept rosterRun_run
  exact ⟨hrun.1, hrun.2.1, hrun.2.2, hkept.1, hkept.2.1⟩

end Ddsnap
