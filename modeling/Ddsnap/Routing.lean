import Ddsnap.AllocationRun
import Ddsnap.Isolation
import Ddsnap.SnapshotClients

/-!
# Where the reads of a snapshot go

`snapshot_chunk_unique` stores the chunk of the exception that it finds into a variable that starts as 0.  The read loop
and `make_unique` take 0 for a chunk without an exception.  On a combined store chunk 0 is reserved, so that no exception
is there; the bitmap of separate snapshot data starts empty, and chunk 0 is the first that it hands out.  In a tree in
order this is the only exception that they miss.
-/

namespace Ddsnap

variable {D : Type}

/-- The chunk of the exception that the tree holds for a chunk and the snapshot with a bit. -/
def Sb.held (sb : Sb D) (bit chunk : Nat) : Option Nat := storeChunk bit (sb.exns chunk)

/-- The chunk of the exception that the search of a chunk comes to. -/
def Sb.found (sb : Sb D) (bit chunk : Nat) : Option Nat := (testUnique sb chunk (some bit)).bind Prod.snd

/-- The chunks of a read are answered by their exceptions, and those without one by the origin, under read locks. -/
structure Routed (exception : Nat → Option Nat) (client : Nat) (snaplocks : Snaplocks) (chunks : List Nat)
    (reply : ReadReply) (snaplocks' : Snaplocks) : Prop where
  error : reply.error = []
  snap : reply.snap = chunks.filterMap fun c => (exception c).map (c, ·)
  org : reply.org = chunks.filter fun c => exception c = none
  locks : snaplocks' = reply.org.foldl (fun t c => readlockChunk t c client) snaplocks

section
variable {exception exception' : Nat → Option Nat} {client : Nat} {snaplocks snaplocks' : Snaplocks} {chunks : List Nat}
  {reply : ReadReply}

private theorem Routed.congr (h : Routed exception client snaplocks chunks reply snaplocks')
    (he : ∀ c ∈ chunks, exception c = exception' c) : Routed exception' client snaplocks chunks reply snaplocks' := by
  refine ⟨h.error, ?_, ?_, h.locks⟩
  · rw [h.snap]
    exact List.filterMap_congr fun c hc => by rw [he c hc]
  · rw [h.org]
    exact List.filter_congr fun c hc => by rw [he c hc]

/-- A reply is routed in one way only. -/
private theorem Routed.unique (h : Routed exception client snaplocks chunks reply snaplocks')
    (h' : Routed exception' client snaplocks chunks reply snaplocks') {c : Nat} (hc : c ∈ chunks) :
    exception c = exception' c := by
  cases hs : exception c with
  | none =>
    have hm : c ∈ reply.org := by rw [h.org, List.mem_filter]; exact ⟨hc, by simpa using hs⟩
    rw [h'.org, List.mem_filter] at hm
    exact (of_decide_eq_true hm.2).symm
  | some e =>
    have hm : (c, e) ∈ reply.snap := by
      rw [h.snap, List.mem_filterMap]
      exact ⟨c, hc, by rw [hs]; rfl⟩
    rw [h'.snap, List.mem_filterMap] at hm
    obtain ⟨c', -, he⟩ := hm
    obtain ⟨e', he', hp⟩ := Option.map_eq_some_iff.1 he
    obtain ⟨rfl, rfl⟩ := Prod.mk.inj hp
    exact he'.symm

end

section
variable {sb sb' : Sb D} {bit c : Nat}

end

/-! ### Runs -/

/-- A daemon that was started on a freshly initialised store, combined or not. -/
def Daemon.Fresh (d : Daemon D) : Prop :=
  ∃ (cfg : Config) (blank : D) (org : Nat → D) (sb : Sb D) (deferring : Bool) (orgoffset : Nat), 9 ≤ cfg.bits ∧
    initSnapstore cfg blank org = some sb ∧ d = Daemon.start (startServer sb deferring) orgoffset

/-- The writes are served without a failure, and nothing is deleted. -/
def Daemon.Smooth (d : Daemon D) : Event → Prop
  | .message a (.queryWrite _ ranges) => ∀ client ∈ clientAt d.clientvec a,
    if client.snaptag = originTag then smooth none d.sb (rangeChunks ranges) = true
    else ∀ slot ∈ findSnap d.sb client.snaptag, isSquashed (d.sb.image.snaplist slot) = false →
      smooth (some (d.sb.image.snaplist slot).bit) d.sb (rangeChunks ranges) = true
  | .message _ (.createSnapshot _) =>
    d.sb.image.snapshots < maxSnapshots ∨ usecount d.sb (d.sb.image.snaplist (findUnused d.sb)) ≠ 0
  | .message _ (.deleteSnapshot tag) => ∀ slot ∈ findSnap d.sb tag, usecount d.sb (d.sb.image.snaplist slot) ≠ 0
  | _ => True

instance (d : Daemon D) : (e : Event) → Decidable (d.Smooth e)
  | .message a (.queryWrite _ ranges) => inferInstanceAs (Decidable (∀ client ∈ clientAt d.clientvec a,
    if client.snaptag = originTag then smooth none d.sb (rangeChunks ranges) = true
    else ∀ slot ∈ findSnap d.sb client.snaptag, isSquashed (d.sb.image.snaplist slot) = false →
      smooth (some (d.sb.image.snaplist slot).bit) d.sb (rangeChunks ranges) = true))
  | .message _ (.createSnapshot _) => inferInstanceAs (Decidable (_ ∨ _))
  | .message _ (.deleteSnapshot tag) => inferInstanceAs (Decidable (∀ slot ∈ findSnap d.sb tag, _ ≠ 0))
  | .message _ (.identify ..) | .message _ (.querySnapshotRead _) | .message _ (.finishSnapshotRead _)
  | .message _ .uploadLock | .message _ (.priority ..) | .message _ (.usecount ..) | .connect .. | .disconnect _ =>
    isTrue trivial

section
variable {R : Nat} {sb sb' : Sb D} {chunks : List Nat}

private theorem Store.originChunks {ok : Bool} (h : Store R sb) (hs : smooth none sb chunks = true)
    (ho : originChunks sb chunks = some (ok, sb')) : Store R sb' := by
  induction chunks generalizing sb ok with
  | nil =>
    cases ho
    exact h
  | cons c chunks ih =>
    obtain ⟨hc, hw, r, sb1, hm, hu, hs⟩ := smooth_cons hs
    obtain ⟨⟨exception, sb2⟩, h1, ho⟩ := Option.bind_eq_some_iff.1 ho
    obtain ⟨⟨ok1, sb3⟩, h2, ho⟩ := Option.bind_eq_some_iff.1 ho
    cases ho
    rw [hm] at h1
    cases h1
    exact ih (h.unique hc hw hu).1 hs h2

private theorem Store.snapshotChunks {slot : Nat} {exceptions : List (Option Nat)} (h : Store R sb)
    (hlive : isSquashed (sb.image.snaplist slot) = false)
    (hs : smooth (some (sb.image.snaplist slot).bit) sb chunks = true)
    (ho : snapshotChunks slot sb chunks = some (exceptions, sb')) : Store R sb' := by
  induction chunks generalizing sb exceptions with
  | nil =>
    cases ho
    exact h
  | cons c chunks ih =>
    obtain ⟨hc, hw, r, sb1, hm, hu, hs⟩ := smooth_cons hs
    obtain ⟨⟨exception, sb2⟩, h1, ho⟩ := Option.bind_eq_some_iff.1 ho
    obtain ⟨⟨others, sb3⟩, h2, ho⟩ := Option.bind_eq_some_iff.1 ho
    cases ho
    simp only [snapshotChunk, hlive, hm] at h1
    cases h1
    -- the snapshot list is not touched, so that the next chunk is for the same bit
    have hlist := (sameSnaps_uniqueException hu).snaplist
    exact ih (h.unique hc hw hu).1 (hlist ▸ hlive) (hlist ▸ hs) h2

private theorem Store.finish (h : Store R sb) (hc : commitTransaction (Ddsnap.finishCopyout sb) false = some sb') :
    Store R sb' := (h.finishCopyout.quiet (quiet_commitTransaction h.finishCopyout.reserved hc)).1

private theorem Store.commitDeferred (h : Store R sb) (hc : commitDeferredAllocs sb = some sb') : Store R sb' :=
  (h.quiet (quiet_commitDeferredAllocs h.reserved hc)).1

private theorem Store.createMessage {tag : Nat} (h : Store R sb)
    (hroom : sb.image.snapshots < maxSnapshots ∨ usecount sb (sb.image.snaplist (findUnused sb)) ≠ 0)
    (hc : createMessage sb tag = some sb') : Store R sb' := by
  obtain ⟨⟨bit, sb1⟩, hcr, hsave⟩ := Option.bind_eq_some_iff.1 hc
  obtain ⟨rfl, rfl⟩ | ⟨b, snap, rfl, -, -, -, -, -, -, rfl⟩ := createSnapshot_cases (makeRoom_idle hroom) hcr
  · cases hsave
    exact h
  · obtain ⟨sb2, hcd, rfl⟩ := Option.map_eq_some_iff.1 hsave
    have h2 := (h.relist _ _ _ sb.usecount true).commitDeferred hcd
    exact (h2.quiet (quiet_saveSb R sb2)).1

private theorem Store.dropUsecount {tag : Nat} (h : Store R sb) (hd : dropUsecount sb tag = some sb') :
    Store R sb' := by
  obtain ⟨slot, -, hd⟩ := Option.bind_eq_some_iff.1 hd
  dsimp only at hd
  split_ifs at hd <;> cases hd
  · exact h
  · exact h.relist sb.snapmask sb.image.snaplist sb.image.snapshots _ sb.sbDirty

private theorem Store.setPriority (h : Store R sb) (tag : Nat) (prio : Int) : Store R (setPriority sb tag prio) := by
  unfold Ddsnap.setPriority modifySnap
  split
  · exact h
  · exact h.relist sb.snapmask _ sb.image.snapshots sb.usecount sb.sbDirty

private theorem Store.changeUsecount (h : Store R sb) (tag : Nat) (dev : Int) :
    Store R (changeUsecount sb tag dev) := by
  unfold Ddsnap.changeUsecount
  split_ifs
  · exact h
  split
  · exact h
  dsimp only
  split_ifs
  · exact h
  · exact h
  · exact h.relist sb.snapmask _ sb.image.snapshots sb.usecount sb.sbDirty

end

/-- Every event that serves its writes and deletes nothing keeps the store in order. -/
private theorem Store.event {R : Nat} {d d' : Daemon D} {e : Event} (h : Store R d.sb) (he : d.Smooth e)
    (hs : StoreEvent d e d') : Store R d'.sb := by
  cases hs with
  | connect _ hsb _ | leave _ _ hsb _ | quiet _ hsb _ =>
    rw [hsb]
    exact h
  | drop _ _ hdrop _ => exact h.dropUsecount hdrop
  | @identify _ client _ tag off len =>
    obtain hsb | ⟨snapshot, -, hsb⟩ := identifyClient_sb d client tag off len
    · exact hsb ▸ h
    · rw [hsb]
      exact h.relist d.sb.snapmask d.sb.image.snaplist d.sb.image.snapshots _ d.sb.sbDirty
  | originWrite hclient htag hchunks hcommit _ =>
    have hs := he _ hclient
    rw [if_pos htag] at hs
    exact (h.originChunks hs hchunks).finish hcommit
  | @snapshotWrite _ _ slot _ _ _ _ _ hclient htag hslot hchunks hcommit _ =>
    have hs := he _ hclient
    rw [if_neg htag] at hs
    cases hsq : isSquashed (d.sb.image.snaplist slot) with
    | true =>
      rw [snapshotChunks_squashed hsq] at hchunks
      cases hchunks
      exact h.finish hcommit
    | false => exact (h.snapshotChunks hsq (hs slot hslot hsq) hchunks).finish hcommit
  | create hcreate _ => exact h.createMessage he hcreate
  | @delete _ tag _ hdelete _ =>
    unfold deleteMessage at hdelete
    cases hslot : findSnap d.sb tag with
    | none =>
      rw [hslot] at hdelete
      exact Option.some.inj hdelete ▸ h
    | some slot =>
      rw [hslot] at hdelete
      simp only [if_neg (he slot hslot)] at hdelete
      exact Option.some.inj hdelete ▸ h
  | priority hsb _ => exact hsb ▸ h.setPriority _ _
  | usecount hsb _ => exact hsb ▸ h.changeUsecount _ _

end Ddsnap
