import Ddsnap.JournalRun
import Ddsnap.Tree

/-!
# What allocation and commits leave alone

The chunks below a bound `R` are reserved for the superblock, the bitmaps and the journal.  Allocating and freeing chunks
and committing change the content of blocks below `R` only, leave the tree, the snapshot list and the geometry of the
store alone, and write nothing to the metadata device but listed buffers; `Quiet` collects these facts.  A chunk is taken
when it is marked in the metadata bitmap or deferred; the taken chunks grow, except for those that are freed.
-/

namespace Ddsnap

variable {D : Type}

/-! ### The part of the superblock that is not accounting -/

/-- The place and the size of an allocation space and of its bitmap. -/
structure Geometry where
  bitmapBase : Nat
  chunks : Nat
  bitmapBlocks : Nat
  allocsizeBits : Nat

def AllocspaceImg.geometry (asi : AllocspaceImg) : Geometry :=
  ⟨asi.bitmapBase, asi.chunks, asi.bitmapBlocks, asi.allocsizeBits⟩

/-- The superblock without the accounting, the journal, the buffers and the devices. -/
structure Core where
  etreeRoot : Nat
  etreeLevels : Nat
  orgsectors : Nat
  snaplist : Nat → Snapshot
  snapshots : Nat
  journalSize : Nat
  metadata : Geometry
  snapdata : Geometry
  snapmask : Mask
  deferring : Bool
  allocPerNode : Nat
  maxCommitBlocks : Nat
  copybufChunks : Nat
  sourceChunk : Nat
  destException : Nat
  copyChunks : Nat
  usecount : Nat → Nat

def Sb.core (sb : Sb D) : Core where
  etreeRoot := sb.image.etreeRoot
  etreeLevels := sb.image.etreeLevels
  orgsectors := sb.image.orgsectors
  snaplist := sb.image.snaplist
  snapshots := sb.image.snapshots
  journalSize := sb.image.journalSize
  metadata := sb.image.metadata.geometry
  snapdata := sb.image.snapdata.geometry
  snapmask := sb.snapmask
  deferring := sb.deferring
  allocPerNode := sb.allocPerNode
  maxCommitBlocks := sb.maxCommitBlocks
  copybufChunks := sb.copybufChunks
  sourceChunk := sb.sourceChunk
  destException := sb.destException
  copyChunks := sb.copyChunks
  usecount := sb.usecount

/-- The bits of the bitmap of a space. -/
def Sb.bitmapSize (sb : Sb D) (as : Space) : Nat := (sb.asi as).bitmapBlocks * 2 ^ sb.bitmapShift

section
variable {sb sb' : Sb D} (h : sb'.core = sb.core)
include h

theorem core_metadata : sb'.image.metadata.bitmapBase = sb.image.metadata.bitmapBase ∧
    sb'.image.metadata.chunks = sb.image.metadata.chunks ∧
    sb'.image.metadata.bitmapBlocks = sb.image.metadata.bitmapBlocks ∧
    sb'.image.metadata.allocsizeBits = sb.image.metadata.allocsizeBits := by
  have := congrArg Core.metadata h
  simpa [Sb.core, AllocspaceImg.geometry] using this

theorem core_snapdata : sb'.image.snapdata.bitmapBase = sb.image.snapdata.bitmapBase ∧
    sb'.image.snapdata.chunks = sb.image.snapdata.chunks ∧
    sb'.image.snapdata.bitmapBlocks = sb.image.snapdata.bitmapBlocks ∧
    sb'.image.snapdata.allocsizeBits = sb.image.snapdata.allocsizeBits := by
  have := congrArg Core.snapdata h
  simpa [Sb.core, AllocspaceImg.geometry] using this

theorem core_combined : sb'.combined = sb.combined := by
  unfold Sb.combined
  rw [(core_snapdata h).2.1]

theorem core_snapdev : sb'.snapdev = sb.snapdev := by
  unfold Sb.snapdev
  rw [core_combined h]

theorem core_bitmapShift : sb'.bitmapShift = sb.bitmapShift := by
  unfold Sb.bitmapShift
  rw [(core_metadata h).2.2.2]

theorem core_allocsize : sb'.allocsize = sb.allocsize := by
  unfold Sb.allocsize
  rw [(core_metadata h).2.2.2]

theorem core_bitmapSize (as : Space) : sb'.bitmapSize as = sb.bitmapSize as := by
  unfold Sb.bitmapSize Sb.asi
  cases as with
  | metadata => rw [(core_metadata h).2.2.1, core_bitmapShift h]
  | snapdata =>
    rw [core_combined h, core_bitmapShift h]
    dsimp only
    split
    · rw [(core_metadata h).2.2.1]
    · rw [(core_snapdata h).2.2.1]

end

/-! ### Taken chunks and the reserved area -/

/-- A chunk of the metadata space is marked in its bitmap, or its allocation is deferred. -/
def Sb.Taken (sb : Sb D) (chunk : Nat) : Prop :=
  chunk < sb.bitmapSize .metadata ∧ (sb.marked .metadata chunk = true ∨ isDeferredAlloc sb chunk = true)

/-- The chunks below `R` are taken, and hold the bitmaps. -/
structure Reserved (R : Nat) (sb : Sb D) : Prop where
  taken : ∀ chunk < R, sb.Taken chunk
  metaArea : sb.image.metadata.bitmapBase + sb.image.metadata.bitmapBlocks ≤ R
  snapArea : sb.combined = false → sb.image.snapdata.bitmapBase + sb.image.snapdata.bitmapBlocks ≤ R
  apart : sb.combined = false →
    sb.image.metadata.bitmapBase + sb.image.metadata.bitmapBlocks ≤ sb.image.snapdata.bitmapBase
  base : 0 < sb.image.metadata.bitmapBase
  lastAlloc : ∀ as, (sb.asi as).lastAlloc < sb.bitmapSize as
  deferred : ∀ chunk, isDeferredAlloc sb chunk = true → sb.bitmapBlock sb.image.metadata.bitmapBase chunk < R

/-- The committed content of a block is its content in the cache, or the buffer is dirty. -/
def Sb.SyncAt (sb : Sb D) (s : Nat) : Prop := s ∈ sb.dirtyBuffers ∨ sb.committed s = sb.mem s

/-- A taken block above `R` whose content is committed or will be. -/
abbrev Sb.Placed (sb : Sb D) (R s : Nat) : Prop := R ≤ s ∧ sb.Taken s ∧ sb.SyncAt s

/-- A buffer waits for its home write. -/
def Sb.Listed (sb : Sb D) (s : Nat) : Prop := s ∈ sb.dirtyBuffers ∨ s ∈ sb.journaledBuffers

/-- A step that changes blocks below `R` only, and frees at most the chunks of a list. -/
structure Quiet (R : Nat) (freed : List Nat) (sb sb' : Sb D) : Prop where
  core : sb'.core = sb.core
  mem : ∀ s, R ≤ s → sb'.mem s = sb.mem s
  listed : ∀ s, sb'.Listed s → sb.Listed s ∨ s < R
  sync : ∀ s, sb.SyncAt s → sb'.SyncAt s
  dev : ∀ d s, sb'.dev d s = sb.dev d s ∨ d = .metadev ∧ (sb.Listed s ∨ s < R)
  reserved : (∀ chunk ∈ freed, R ≤ chunk) → Reserved R sb → Reserved R sb'
  taken : ∀ chunk, chunk ∉ freed → sb.Taken chunk → sb'.Taken chunk

section
variable {R : Nat} {freed freed' : List Nat} {sb sb1 sb' : Sb D}

private theorem Quiet.refl (R : Nat) (sb : Sb D) : Quiet R [] sb sb :=
  ⟨rfl, fun _ _ => rfl, fun _ h => .inl h, fun _ h => h, fun _ _ => .inl rfl, fun _ h => h, fun _ _ h => h⟩

private theorem Quiet.trans (h1 : Quiet R freed sb sb1) (h2 : Quiet R freed' sb1 sb') : Quiet R
    (freed ++ freed') sb sb' where
  core := h2.core.trans h1.core
  mem s hs := (h2.mem s hs).trans (h1.mem s hs)
  listed s hs := by
    rcases h2.listed s hs with h | h
    · exact h1.listed s h
    · exact .inr h
  sync s hs := h2.sync s (h1.sync s hs)
  dev d s := by
    rcases h2.dev d s with h | ⟨rfl, h⟩
    · rw [h]; exact h1.dev d s
    · refine .inr ⟨rfl, ?_⟩
      rcases h with h | h
      · exact h1.listed s h
      · exact .inr h
  reserved hf hr := by
    refine h2.reserved (fun c hc => hf c (by simp [hc])) (h1.reserved (fun c hc => hf c (by simp [hc])) hr)
  taken c hc ht := by
    simp only [List.mem_append, not_or] at hc
    exact h2.taken c hc.2 (h1.taken c hc.1 ht)

theorem Quiet.comp (h1 : Quiet R [] sb sb1) (h2 : Quiet R [] sb1 sb') : Quiet R [] sb sb' := h1.trans h2

/-! ### Steps of the allocator -/

@[simp] theorem Sb.put_mem (sb : Sb D) (s : Nat) (b : Block D) : (sb.put s b).mem = Function.update sb.mem s b := by
  unfold Sb.put; simp

@[simp] theorem Sb.put_core (sb : Sb D) (s : Nat) (b : Block D) : (sb.put s b).core = sb.core := by
  unfold Sb.put setBufferDirty Sb.store
  split <;> rfl

theorem Sb.put_fixed (sb : Sb D) (s : Nat) (b : Block D) : (sb.put s b).dev = sb.dev ∧
    (sb.put s b).committed = sb.committed ∧ (sb.put s b).defer = sb.defer ∧
    (sb.put s b).deferredAlloc = sb.deferredAlloc ∧ (sb.put s b).image = sb.image ∧
    (sb.put s b).diskSuper = sb.diskSuper ∧ (sb.put s b).commits = sb.commits := by
  unfold Sb.put setBufferDirty Sb.store
  split <;> exact ⟨rfl, rfl, rfl, rfl, rfl, rfl, rfl⟩

private theorem setBufferDirty_store (sb : Sb D) (s u : Nat) (b : Block D) :
    (setBufferDirty sb s).store u b = setBufferDirty (sb.store u b) s := by
  unfold setBufferDirty Sb.store
  split <;> rfl

theorem put_put (sb : Sb D) (s u : Nat) (a b : Block D) :
    (sb.put s a).put u b = setBufferDirty (setBufferDirty ((sb.store s a).store u b) s) u := by
  unfold Sb.put
  rw [setBufferDirty_store]

theorem Sb.put_listed {s u : Nat} {b : Block D} (h : (sb.put s b).Listed u) : sb.Listed u ∨ u = s := by
  unfold Sb.put Sb.Listed at *
  rcases h with h | h
  · rcases mem_setBufferDirty.1 h with h | h
    · exact .inl (.inl h)
    · exact .inr h
  · by_cases hu : u = s
    · exact .inr hu
    · rw [journaled_setBufferDirty hu] at h
      exact .inl (.inr h)

theorem Sb.put_sync (sb : Sb D) (s : Nat) (b : Block D) : (sb.put s b).SyncAt s := .inl (by simp [Sb.put])

theorem Sb.SyncAt.put {u : Nat} (h : sb.SyncAt u) (s : Nat) (b : Block D) : (sb.put s b).SyncAt u := by
  by_cases hu : u = s
  · subst hu; exact sb.put_sync u b
  · unfold Sb.SyncAt at *
    rw [(sb.put_fixed s b).2.1, Sb.put_mem, Function.update_of_ne hu]
    exact h.imp (fun h => by simp [Sb.put, h]) id

theorem isDeferredAlloc_congr (h1 : sb'.defer = sb.defer) (h2 : sb'.deferredAlloc = sb.deferredAlloc) (chunk : Nat) :
    isDeferredAlloc sb' chunk = isDeferredAlloc sb chunk := by
  unfold isDeferredAlloc; rw [h1, h2]

private theorem marked_congr (hc : sb'.core = sb.core) (hm : sb'.mem = sb.mem) (chunk : Nat) :
    sb'.marked .metadata chunk = sb.marked .metadata chunk := by
  unfold Sb.marked Sb.bitmapBlock Sb.asi
  rw [hm, core_bitmapShift hc, (core_metadata hc).1]

/-- The reserved area depends on the geometry, the taken chunks and the deferred ranges. -/
theorem Reserved.congr (hr : Reserved R sb) (hc : sb'.core = sb.core) (ht : ∀ chunk < R, sb'.Taken chunk)
    (hl : ∀ as, (sb'.asi as).lastAlloc < sb.bitmapSize as)
    (hd : ∀ chunk, isDeferredAlloc sb' chunk = true → sb.bitmapBlock sb.image.metadata.bitmapBase chunk < R) :
    Reserved R sb' := by
  have hm := core_metadata hc
  have hs := core_snapdata hc
  have hcomb := core_combined hc
  have hsize := core_bitmapSize hc
  constructor
  · exact ht
  · rw [hm.1, hm.2.2.1]; exact hr.metaArea
  · rw [hcomb, hs.1, hs.2.2.1]; exact hr.snapArea
  · rw [hcomb, hs.1, hm.1, hm.2.2.1]; exact hr.apart
  · rw [hm.1]; exact hr.base
  · intro as; rw [hsize]; exact hl as
  · intro c hcd
    unfold Sb.bitmapBlock
    rw [hm.1, core_bitmapShift hc]
    exact hd c hcd

private theorem bitmapBits_setBitmapBit (b : Block D) (i j : Nat) (h : bitmapBits b j = true) :
    bitmapBits (setBitmapBit b i) j = true := by
  unfold setBitmapBit bitmapBits
  dsimp only
  by_cases hj : j = i
  · subst hj; simp
  · rw [Function.update_of_ne hj]; exact h

private theorem bitmapBits_setBitmapBit_self (b : Block D) (i : Nat) : bitmapBits (setBitmapBit b i) i = true := by
  simp [setBitmapBit, bitmapBits]

theorem marked_put (sb : Sb D) (s : Nat) (b : Block D) (chunk : Nat) : (sb.put s b).marked .metadata chunk =
    if sb.bitmapBlock sb.image.metadata.bitmapBase chunk = s then bitmapBits b (chunk % 2 ^ sb.bitmapShift)
    else sb.marked .metadata chunk := by
  unfold Sb.marked Sb.bitmapBlock Sb.asi
  rw [core_bitmapShift (sb.put_core s b), (sb.put_fixed s b).2.2.2.2.1, Sb.put_mem]
  by_cases hs : sb.image.metadata.bitmapBase + chunk / 2 ^ sb.bitmapShift = s
  · rw [if_pos hs, hs, Function.update_self]
  · rw [if_neg hs, Function.update_of_ne hs]

/-- A bit is set in a block of the reserved area. -/
private theorem quiet_setBit {b : Nat} (hb : b < R) (i : Nat) : Quiet R [] sb
    (sb.put b (setBitmapBit (sb.mem b) i)) := by
  obtain ⟨hdev, hcom, hdef, hdal, himg, -⟩ := sb.put_fixed b (setBitmapBit (sb.mem b) i)
  have hcore := sb.put_core b (setBitmapBit (sb.mem b) i)
  have htaken : ∀ c, sb.Taken c → (sb.put b (setBitmapBit (sb.mem b) i)).Taken c := by
    intro c ht
    refine ⟨by rw [core_bitmapSize hcore]; exact ht.1, ht.2.imp (fun h => ?_)
      (fun h => by rw [isDeferredAlloc_congr hdef hdal]; exact h)⟩
    rw [marked_put]
    split
    · rename_i hs
      rw [← hs]
      exact bitmapBits_setBitmapBit _ _ _ h
    · exact h
  refine ⟨hcore, ?_, fun s hs => (Sb.put_listed hs).imp id (by omega), fun s hs => hs.put b _,
    fun d s => .inl (by rw [hdev]), ?_, fun c _ => htaken c⟩
  · intro s hs
    rw [Sb.put_mem, Function.update_of_ne (by omega)]
  · intro _ hr
    refine hr.congr hcore (fun c hc => htaken c (hr.taken c hc)) ?_ ?_
    · intro as
      have := hr.lastAlloc as
      unfold Sb.asi at this ⊢
      rwa [himg, core_combined hcore]
    · intro c hc
      rw [isDeferredAlloc_congr hdef hdal] at hc
      exact hr.deferred c hc

/-- A step that changes counters only. -/
private theorem quiet_counters (hcore : sb'.core = sb.core) (hmem : sb'.mem = sb.mem) (hdev : sb'.dev = sb.dev)
    (hcom : sb'.committed = sb.committed) (hdirty : sb'.dirtyBuffers = sb.dirtyBuffers)
    (hjour : sb'.journaledBuffers = sb.journaledBuffers)
    (hdefer : ∀ chunk, isDeferredAlloc sb chunk = true → isDeferredAlloc sb' chunk = true)
    (hsmall : Reserved R sb → ∀ chunk, isDeferredAlloc sb' chunk = true →
      sb.bitmapBlock sb.image.metadata.bitmapBase chunk < R)
    (hlast : Reserved R sb → ∀ as, (sb'.asi as).lastAlloc < sb.bitmapSize as) : Quiet R [] sb sb' := by
  have htaken : ∀ c, sb.Taken c → sb'.Taken c := fun c ht =>
    ⟨by rw [core_bitmapSize hcore]; exact ht.1,
      ht.2.imp (fun h => by rw [marked_congr hcore hmem]; exact h) (hdefer c)⟩
  refine ⟨hcore, fun s _ => by rw [hmem], ?_, ?_,
    fun d s => .inl (by rw [hdev]), ?_, fun c _ => htaken c⟩
  · intro s hs
    unfold Sb.Listed at *
    rw [hdirty, hjour] at hs
    exact .inl hs
  · intro s hs
    unfold Sb.SyncAt at *
    rwa [hdirty, hcom, hmem]
  · intro _ hr
    exact hr.congr hcore (fun c hc => htaken c (hr.taken c hc)) (hlast hr) (hsmall hr)

/-- An assignment to the counters of a space goes to the metadata space on a combined store. -/
theorem Sb.setAsi_cases (sb : Sb D) (as : Space) (free last : Nat) :
    ((as = .metadata ∨ sb.combined = true) ∧
      sb.setAsi as { sb.asi as with freechunks := free, lastAlloc := last } =
        { sb with image := { sb.image with
          metadata := { sb.image.metadata with freechunks := free, lastAlloc := last } } }) ∨
    ((as = .snapdata ∧ sb.combined = false) ∧
      sb.setAsi as { sb.asi as with freechunks := free, lastAlloc := last } =
        { sb with image := { sb.image with
          snapdata := { sb.image.snapdata with freechunks := free, lastAlloc := last } } }) := by
  cases as with
  | metadata => exact .inl ⟨.inl rfl, rfl⟩
  | snapdata =>
    cases hc : sb.combined with
    | true => exact .inl ⟨.inr rfl, by simp only [Sb.setAsi, Sb.asi, hc, if_true]⟩
    | false => exact .inr ⟨⟨rfl, rfl⟩, by simp [Sb.setAsi, Sb.asi, hc]⟩

private theorem quiet_setAsi (as : Space) (free last : Nat) (hl : Reserved R sb → last < sb.bitmapSize as) :
    Quiet R [] sb (sb.setAsi as { sb.asi as with freechunks := free, lastAlloc := last }) := by
  rcases sb.setAsi_cases as free last with ⟨hm, he⟩ | ⟨hs, he⟩ <;> rw [he]
  · refine quiet_counters rfl rfl rfl rfl rfl rfl (fun _ h => h) (fun hr => hr.deferred) fun hr as' => ?_
    have hsize : last < sb.image.metadata.bitmapBlocks * 2 ^ sb.bitmapShift := by
      have := hl hr
      rcases hm with rfl | hc
      · exact this
      · cases as with
        | metadata => exact this
        | snapdata => simpa [Sb.bitmapSize, Sb.asi, hc] using this
    cases as' with
    | metadata => exact hsize
    | snapdata =>
      have hold := hr.lastAlloc .snapdata
      unfold Sb.bitmapSize Sb.asi Sb.combined at *
      dsimp only at *
      split
      · exact hsize
      · rename_i hc; rwa [if_neg hc] at hold
  · refine quiet_counters rfl rfl rfl rfl rfl rfl (fun _ h => h) (fun hr => hr.deferred) fun hr as' => ?_
    cases as' with
    | metadata => exact hr.lastAlloc .metadata
    | snapdata =>
      have hsize := hl hr
      rw [hs.1] at hsize
      have hc := hs.2
      unfold Sb.bitmapSize Sb.asi Sb.combined at *
      dsimp only at *
      rw [if_neg (by simpa using hc)] at hsize ⊢
      rw [if_neg (by simpa using hc)]
      exact hsize

theorem quiet_setSbDirty (R : Nat) (sb : Sb D) : Quiet R [] sb (setSbDirty sb) :=
  quiet_counters rfl rfl rfl rfl rfl rfl (fun _ h => h) (fun hr => hr.deferred) (fun hr => hr.lastAlloc)

theorem quiet_saveSb (R : Nat) (sb : Sb D) : Quiet R [] sb (saveSb sb) := by
  unfold saveSb
  split
  · exact quiet_counters rfl rfl rfl rfl rfl rfl (fun _ h => h) (fun hr => hr.deferred) (fun hr => hr.lastAlloc)
  · exact .refl R sb

/-! ### Allocation -/

theorem Reserved.bitmapBlock_lt (hr : Reserved R sb) {as : Space} {chunk : Nat} (hc : chunk < sb.bitmapSize as) :
    sb.bitmapBlock (sb.asi as).bitmapBase chunk < R ∧ sb.bitmapBlock sb.image.metadata.bitmapBase chunk < R := by
  have hdiv : chunk / 2 ^ sb.bitmapShift < (sb.asi as).bitmapBlocks := Nat.div_lt_of_lt_mul (by
    rw [Nat.mul_comm]; exact hc)
  have hma := hr.metaArea
  unfold Sb.bitmapBlock
  cases as with
  | metadata =>
    simp only [Sb.asi] at hdiv ⊢
    omega
  | snapdata =>
    simp only [Sb.asi] at hdiv ⊢
    cases hcomb : sb.combined with
    | true => simp only [hcomb, if_true] at hdiv ⊢; omega
    | false =>
      have h1 := hr.snapArea hcomb
      have h2 := hr.apart hcomb
      simp only [hcomb] at hdiv ⊢
      simp only [Bool.false_eq_true, if_false] at hdiv ⊢
      omega

theorem scanByte_some {as : Space} {byte chunk : Nat} (h : scanByte sb as byte = some chunk) :
    chunk / 8 = byte ∧ sb.marked as chunk = false ∧ isDeferredAlloc sb chunk = false := by
  unfold scanByte at h
  have hm := List.mem_of_find?_eq_some h
  have hp := List.find?_some h
  simp only [List.mem_map, List.mem_range] at hm
  obtain ⟨i, hi, rfl⟩ := hm
  simp only [Bool.and_eq_true, Bool.not_eq_true'] at hp
  exact ⟨by omega, hp.1, hp.2⟩

/-- What the scan finds is neither marked nor deferred. -/
theorem scanBytes_free {as : Space} {length byte chunk : Nat} (h : scanBytes sb as length byte = some chunk) :
    sb.marked as chunk = false ∧ isDeferredAlloc sb chunk = false := by
  induction length generalizing byte with
  | zero => cases h
  | succ length ih =>
    simp only [scanBytes] at h
    split at h
    · rename_i found hf
      cases h
      exact (scanByte_some hf).2
    · exact ih h

theorem Sb.bitmapSize_eq (sb : Sb D) (as : Space) :
    sb.bitmapSize as = 8 * ((sb.asi as).bitmapBlocks * sb.allocsize) := by
  simp only [Sb.bitmapSize, Sb.bitmapShift, Sb.allocsize, Nat.pow_add]
  rw [← Nat.mul_assoc, Nat.mul_comm]

theorem scanBytes_some {as : Space} {length byte chunk : Nat}
    (hb : byte < (sb.asi as).bitmapBlocks * sb.allocsize) (h : scanBytes sb as length byte = some chunk) :
    chunk < sb.bitmapSize as ∧ sb.marked as chunk = false ∧ isDeferredAlloc sb chunk = false := by
  induction length generalizing byte with
  | zero => cases h
  | succ length ih =>
    simp only [scanBytes] at h
    split at h
    · rename_i found hf
      cases h
      obtain ⟨h1, h2, h3⟩ := scanByte_some hf
      refine ⟨?_, h2, h3⟩
      have hsize := sb.bitmapSize_eq as
      omega
    · refine ih ?_ h
      split <;> omega

private theorem setAsi_dev (sb : Sb D) (as : Space) (asi : AllocspaceImg) : (sb.setAsi as asi).dev = sb.dev := by
  unfold Sb.setAsi
  split
  · rfl
  · split <;> rfl

private theorem takeChunk_dev (sb : Sb D) (as : Space) (chunk : Nat) : (takeChunk sb as chunk).dev = sb.dev := by
  refine (setAsi_dev _ as _).trans ?_
  split
  · rfl
  · split
    · rfl
    · exact (sb.put_fixed _ _).1

private theorem chunkWithin_iff {chunk start count : Nat} :
    chunkWithin chunk start count = true ↔ start ≤ chunk ∧ chunk < start + count := by
  simp [chunkWithin]

/-- The chunk that is taken is put into the pending range, or marked. -/
private theorem takeChunk_spec (as : Space) {chunk : Nat} (hr : Reserved R sb) (hc : chunk < sb.bitmapSize as)
    (hnd : isDeferredAlloc sb chunk = false) :
    Quiet R [] sb (takeChunk sb as chunk) ∧
      (as = .metadata ∨ sb.combined = true → (takeChunk sb as chunk).Taken chunk) := by
  obtain ⟨hb1, hb2⟩ := hr.bitmapBlock_lt hc
  have hout : ¬(sb.defer.chunk ≤ chunk ∧ chunk < sb.defer.chunk + sb.defer.count) := by
    rw [← chunkWithin_iff]
    simp only [isDeferredAlloc, Bool.or_eq_false_iff] at hnd
    simp [hnd.1]
  -- the counters change after the chunk was noted, and keep it taken
  have hrest : ∀ sb1 : Sb D, Quiet R [] sb sb1 →
      (as = .metadata ∨ sb.combined = true → sb1.Taken chunk) →
      Quiet R [] sb (setSbDirty (sb1.setAsi as { sb1.asi as with freechunks := diff64 (sb1.asi as).freechunks 1 })) ∧
      (as = .metadata ∨ sb.combined = true →
        (setSbDirty (sb1.setAsi as { sb1.asi as with freechunks := diff64 (sb1.asi as).freechunks 1 })).Taken chunk) := by
    intro sb1 hq ht
    have hq2 : Quiet R [] sb1 (setSbDirty (sb1.setAsi as
        { sb1.asi as with freechunks := diff64 (sb1.asi as).freechunks 1 })) :=
      (quiet_setAsi as _ _ fun hr1 => hr1.lastAlloc as).comp (quiet_setSbDirty R _)
    exact ⟨hq.comp hq2, fun h => hq2.taken chunk (by simp) (ht h)⟩
  unfold takeChunk
  dsimp only
  refine hrest _ ?_ ?_
  · split
    · rename_i hd
      refine quiet_counters rfl rfl rfl rfl rfl rfl ?_ ?_ fun hr => hr.lastAlloc
      · intro c h
        simp only [isDeferredAlloc, Bool.or_eq_true, chunkWithin_iff, hd.2.2] at h ⊢
        exact .inr (h.resolve_left (by omega))
      · intro hr c h
        simp only [isDeferredAlloc, Bool.or_eq_true, chunkWithin_iff] at h
        rcases h with h | h
        · rwa [show c = chunk by omega]
        · exact hr.deferred c (by simp only [isDeferredAlloc, Bool.or_eq_true]; exact .inr h)
    · rename_i hfirst
      split
      · rename_i hd
        have hcount : sb.defer.count ≠ 0 := fun h0 => hfirst ⟨hd.1, hd.2.1, h0⟩
        refine quiet_counters rfl rfl rfl rfl rfl rfl ?_ ?_ fun hr => hr.lastAlloc
        · intro c h
          simp only [isDeferredAlloc, Bool.or_eq_true, chunkWithin_iff] at h ⊢
          exact h.imp (fun h => by omega) id
        · intro hr c h
          simp only [isDeferredAlloc, Bool.or_eq_true, chunkWithin_iff] at h
          rcases h with h | h
          · by_cases hlast : c < sb.defer.chunk + sb.defer.count
            · exact hr.deferred c (by
                simp only [isDeferredAlloc, Bool.or_eq_true, chunkWithin_iff]; exact .inl ⟨h.1, hlast⟩)
            · rwa [show c = chunk by omega]
          · exact hr.deferred c (by simp only [isDeferredAlloc, Bool.or_eq_true]; exact .inr h)
      · exact quiet_setBit hb1 _
  · intro has
    have hsize : sb.bitmapSize as = sb.bitmapSize .metadata := by
      rcases has with rfl | hcomb
      · rfl
      · cases as <;> simp [Sb.bitmapSize, Sb.asi, hcomb]
    rw [hsize] at hc
    split
    · exact ⟨hc, .inr (by simp [isDeferredAlloc, chunkWithin_iff])⟩
    · rename_i hfirst
      split
      · rename_i hd
        refine ⟨hc, .inr ?_⟩
        have hcount : sb.defer.count ≠ 0 := fun h0 => hfirst ⟨hd.1, hd.2.1, h0⟩
        simp only [isDeferredAlloc, Bool.or_eq_true, chunkWithin_iff]
        exact .inl (by omega)
      · have hcore : (markChunk sb (sb.asi as).bitmapBase chunk).core = sb.core := sb.put_core _ _
        refine ⟨by rw [core_bitmapSize hcore]; exact hc, .inl ?_⟩
        have hbase : (sb.asi as).bitmapBase = sb.image.metadata.bitmapBase := by
          cases as with
          | metadata => rfl
          | snapdata =>
            have hcomb : sb.combined = true := has.resolve_left (by simp)
            simp [Sb.asi, hcomb]
        show (sb.put _ _).marked .metadata chunk = true
        rw [hbase, marked_put, if_pos rfl]
        exact bitmapBits_setBitmapBit_self _ _

/-- `alloc_chunk` takes the chunk that one of its two scans found. -/
theorem allocChunk_cases {as : Space} {chunk : Nat} (h : allocChunk sb as = some (chunk, sb')) :
    (∃ start n, (start = (sb.asi as).lastAlloc ∧ n = (sb.asi as).chunks - (sb.asi as).lastAlloc ∨
        start = 0 ∧ n = (sb.asi as).lastAlloc) ∧
      scanBytes sb as ((n + start % 8 + 7) / 8) (start / 8) = some chunk) ∧
    sb' = setSbDirty ((takeChunk sb as chunk).setAsi as { (takeChunk sb as chunk).asi as with lastAlloc := chunk }) := by
  have hrange : ∀ {start n c : Nat} {sb1 : Sb D}, allocChunkFromRange sb as start n = some (c, sb1) →
      scanBytes sb as ((n + start % 8 + 7) / 8) (start / 8) = some c ∧ sb1 = takeChunk sb as c := by
    intro start n c sb1 h1
    unfold allocChunkFromRange at h1
    split at h1
    · cases h1
    · rename_i c' hscan
      cases h1
      exact ⟨hscan, rfl⟩
  unfold allocChunk at h
  dsimp only at h
  split at h
  · cases h
  · rename_i c sb1 h1
    cases h
    cases hf : allocChunkFromRange sb as (sb.asi as).lastAlloc ((sb.asi as).chunks - (sb.asi as).lastAlloc) with
    | none =>
      rw [hf] at h1
      change allocChunkFromRange sb as 0 (sb.asi as).lastAlloc = _ at h1
      obtain ⟨hscan, rfl⟩ := hrange h1
      exact ⟨⟨_, _, .inr ⟨rfl, rfl⟩, hscan⟩, rfl⟩
    | some r =>
      rw [hf] at h1
      cases h1
      obtain ⟨hscan, rfl⟩ := hrange hf
      exact ⟨⟨_, _, .inl ⟨rfl, rfl⟩, hscan⟩, rfl⟩

/-- The chunk that `alloc_chunk` finds is free. -/
theorem allocChunk_found {as : Space} {chunk : Nat} (hlast : (sb.asi as).lastAlloc < sb.bitmapSize as)
    (h : allocChunk sb as = some (chunk, sb')) :
    chunk < sb.bitmapSize as ∧ sb.marked as chunk = false ∧ isDeferredAlloc sb chunk = false ∧
      sb' = setSbDirty ((takeChunk sb as chunk).setAsi as { (takeChunk sb as chunk).asi as with lastAlloc := chunk }) := by
  have hsize := sb.bitmapSize_eq as
  obtain ⟨⟨start, n, hstart, hscan⟩, he⟩ := allocChunk_cases h
  obtain ⟨h1, h2, h3⟩ := scanBytes_some (by omega) hscan
  exact ⟨h1, h2, h3, he⟩

/-- What `alloc_chunk` does: it takes a chunk that was free. -/
theorem allocChunk_spec {as : Space} {chunk : Nat} (hr : Reserved R sb) (h : allocChunk sb as = some (chunk, sb')) :
    Quiet R [] sb sb' ∧ sb'.dev = sb.dev ∧ chunk < sb.bitmapSize as ∧ sb.marked as chunk = false ∧
      isDeferredAlloc sb chunk = false ∧ (as = .metadata ∨ sb.combined = true → sb'.Taken chunk) := by
  obtain ⟨h2, h3, h4, rfl⟩ := allocChunk_found (hr.lastAlloc as) h
  obtain ⟨hq, ht⟩ := takeChunk_spec as hr h2 h4
  have hq2 : Quiet R [] (takeChunk sb as chunk) (setSbDirty ((takeChunk sb as chunk).setAsi as
      { (takeChunk sb as chunk).asi as with lastAlloc := chunk })) :=
    (quiet_setAsi as _ _ fun _ => by rw [core_bitmapSize hq.core]; exact h2).comp (quiet_setSbDirty R _)
  exact ⟨hq.comp hq2, (setAsi_dev _ as _).trans (takeChunk_dev sb as chunk), h2, h3, h4,
    fun has => hq2.taken chunk (by simp) (ht has)⟩

/-- A new block of the metadata space was not taken, and is not reserved. -/
theorem allocChunk_fresh {as : Space} {chunk : Nat} (hr : Reserved R sb) (h : allocChunk sb as = some (chunk, sb'))
    (has : as = .metadata ∨ sb.combined = true) : ¬sb.Taken chunk ∧ R ≤ chunk := by
  obtain ⟨-, -, -, hm, hd, -⟩ := allocChunk_spec hr h
  have hnot : ¬sb.Taken chunk := by
    rintro ⟨-, h1 | h1⟩
    · have : sb.marked .metadata chunk = sb.marked as chunk := by
        rcases has with rfl | hcomb
        · rfl
        · cases as <;> simp [Sb.marked, Sb.asi, hcomb]
      rw [this, hm] at h1
      cases h1
    · rw [hd] at h1
      cases h1
  exact ⟨hnot, by by_contra hlt; exact hnot (hr.taken chunk (by omega))⟩

/-! ### Flushing deferred allocations -/

/-- Chunks are marked, and nothing else happens. -/
structure Marking (R : Nat) (sb sb' : Sb D) : Prop where
  quiet : Quiet R [] sb sb'
  defer : sb'.defer = sb.defer
  deferredAlloc : sb'.deferredAlloc = sb.deferredAlloc
  marked : ∀ chunk, sb.marked .metadata chunk = true → sb'.marked .metadata chunk = true

private theorem Marking.refl (R : Nat) (sb : Sb D) : Marking R sb sb :=
  ⟨.refl R sb, rfl, rfl, fun _ h => h⟩

private theorem Marking.trans (h1 : Marking R sb sb1) (h2 : Marking R sb1 sb') : Marking R sb sb' :=
  ⟨h1.quiet.comp h2.quiet, h2.defer.trans h1.defer, h2.deferredAlloc.trans h1.deferredAlloc,
    fun c hc => h2.marked c (h1.marked c hc)⟩

private theorem marking_markChunk (chunk : Nat) (hb : sb.bitmapBlock sb.image.metadata.bitmapBase chunk < R) :
    Marking R sb (markChunk sb sb.image.metadata.bitmapBase chunk) ∧
      (markChunk sb sb.image.metadata.bitmapBase chunk).marked .metadata chunk = true := by
  obtain ⟨-, -, hdef, hdal, -⟩ := sb.put_fixed (sb.bitmapBlock sb.image.metadata.bitmapBase chunk)
    (setBitmapBit (sb.mem (sb.bitmapBlock sb.image.metadata.bitmapBase chunk)) (chunk % 2 ^ sb.bitmapShift))
  refine ⟨⟨quiet_setBit hb _, hdef, hdal, ?_⟩, ?_⟩
  · intro c hc
    show (sb.put _ _).marked .metadata c = true
    rw [marked_put]
    split
    · rename_i hs
      rw [← hs]
      exact bitmapBits_setBitmapBit _ _ _ hc
    · exact hc
  · show (sb.put _ _).marked .metadata chunk = true
    rw [marked_put, if_pos rfl]
    exact bitmapBits_setBitmapBit_self _ _

private theorem Marking.bitmapBlock (h : Marking R sb sb') (chunk : Nat) :
    sb'.bitmapBlock sb'.image.metadata.bitmapBase chunk = sb.bitmapBlock sb.image.metadata.bitmapBase chunk := by
  unfold Sb.bitmapBlock
  rw [core_bitmapShift h.quiet.core, (core_metadata h.quiet.core).1]

private theorem marking_setAllocated {chunk count : Nat}
    (hb : ∀ i < count, sb.bitmapBlock sb.image.metadata.bitmapBase (chunk + i) < R) :
    Marking R sb (setAllocated sb chunk count) ∧
      ∀ i < count, (setAllocated sb chunk count).marked .metadata (chunk + i) = true := by
  unfold setAllocated
  induction count with
  | zero => exact ⟨.refl R sb, fun i hi => absurd hi (by omega)⟩
  | succ count ih =>
    obtain ⟨h1, h2⟩ := ih fun i hi => hb i (by omega)
    rw [List.range_succ, List.foldl_append, List.foldl_cons, List.foldl_nil]
    obtain ⟨h3, h4⟩ := marking_markChunk (R := R) (chunk + count)
      (by rw [h1.bitmapBlock]; exact hb count (by omega))
    refine ⟨h1.trans h3, fun i hi => ?_⟩
    by_cases hlast : i = count
    · rw [hlast]; exact h4
    · exact h3.marked _ (h2 i (by omega))

private theorem marking_ranges (l : List AllocRange)
    (hb : ∀ r ∈ l, ∀ i < r.count, sb.bitmapBlock sb.image.metadata.bitmapBase (r.chunk + i) < R) :
    Marking R sb (l.foldl (fun sb r => setAllocated sb r.chunk r.count) sb) ∧
      ∀ r ∈ l, ∀ i < r.count,
        (l.foldl (fun sb r => setAllocated sb r.chunk r.count) sb).marked .metadata (r.chunk + i) = true := by
  induction l generalizing sb with
  | nil => exact ⟨.refl R sb, by simp⟩
  | cons r l ih =>
    obtain ⟨h1, h2⟩ := marking_setAllocated (hb r (by simp))
    obtain ⟨h3, h4⟩ := ih fun r' hr' i hi => by rw [h1.bitmapBlock]; exact hb r' (by simp [hr']) i hi
    refine ⟨h1.trans h3, fun r' hr' i hi => ?_⟩
    rcases List.mem_cons.1 hr' with rfl | hr'
    · exact h3.marked _ (h2 i hi)
    · exact h4 r' hr' i hi

theorem isDeferredAlloc_iff {chunk : Nat} : isDeferredAlloc sb chunk = true ↔
    (sb.defer.chunk ≤ chunk ∧ chunk < sb.defer.chunk + sb.defer.count) ∨
      ∃ r ∈ sb.deferredAlloc, r.chunk ≤ chunk ∧ chunk < r.chunk + r.count := by
  simp only [isDeferredAlloc, Bool.or_eq_true, chunkWithin_iff, List.any_eq_true]

private theorem quiet_flushDeferredAllocs (hr : Reserved R sb) : Quiet R [] sb (flushDeferredAllocs sb) := by
  have hin : ∀ r ∈ sb.deferredAlloc, ∀ i < r.count, isDeferredAlloc sb (r.chunk + i) = true := fun r hrm i hi =>
    isDeferredAlloc_iff.2 (.inr ⟨r, hrm, by omega, by omega⟩)
  obtain ⟨h1, h2⟩ := marking_ranges sb.deferredAlloc fun r hrm i hi => hr.deferred _ (hin r hrm i hi)
  have hq := h1.quiet
  have hdef : ∀ c, isDeferredAlloc (flushDeferredAllocs sb) c = true → isDeferredAlloc sb c = true := by
    intro c hc
    rw [isDeferredAlloc_iff] at hc ⊢
    unfold flushDeferredAllocs at hc
    dsimp only at hc
    rw [h1.defer] at hc
    exact hc.imp id (by simp)
  have htaken : ∀ c, sb.Taken c → (flushDeferredAllocs sb).Taken c := by
    intro c hc
    refine ⟨by have := (hq.taken c (by simp) hc).1; exact this, ?_⟩
    rcases hc.2 with hm | hd
    · exact .inl (h1.marked c hm)
    · rcases isDeferredAlloc_iff.1 hd with hd | ⟨r, hrm, hc1, hc2⟩
      · refine .inr (isDeferredAlloc_iff.2 (.inl ?_))
        show (_ : AllocRange).chunk ≤ c ∧ c < (_ : AllocRange).chunk + (_ : AllocRange).count
        rw [show (flushDeferredAllocs sb).defer = sb.defer from h1.defer]
        exact hd
      · have := h2 r hrm (c - r.chunk) (by omega)
        rw [show r.chunk + (c - r.chunk) = c by omega] at this
        exact .inl this
  refine ⟨hq.core, hq.mem, hq.listed, hq.sync, hq.dev, fun _ hr => ?_, fun c _ => htaken c⟩
  exact hr.congr hq.core (fun c hc => htaken c (hr.taken c hc))
    (fun as => by have := (hq.reserved (by simp) hr).lastAlloc as; rw [core_bitmapSize hq.core] at this; exact this)
    fun c hc => hr.deferred c (hdef c hc)

/-! ### Commits -/

/-- A step that leaves the content and the accounting alone. -/
theorem quiet_same (hcore : sb'.core = sb.core) (hmem : sb'.mem = sb.mem)
    (hdefer : ∀ chunk, isDeferredAlloc sb' chunk = isDeferredAlloc sb chunk)
    (hmeta : sb'.image.metadata = sb.image.metadata) (hsnap : sb'.image.snapdata = sb.image.snapdata)
    (hlisted : ∀ s, sb'.Listed s → sb.Listed s)
    (hsync : ∀ s, sb.SyncAt s → sb'.SyncAt s)
    (hdev : ∀ d s, sb'.dev d s = sb.dev d s ∨ d = .metadev ∧ sb.Listed s) : Quiet R [] sb sb' := by
  have htaken : ∀ c, sb.Taken c → sb'.Taken c := fun c ht =>
    ⟨by rw [core_bitmapSize hcore]; exact ht.1, by rw [marked_congr hcore hmem, hdefer]; exact ht.2⟩
  refine ⟨hcore, fun s _ => by rw [hmem], fun s hs => .inl (hlisted s hs), hsync,
    fun d s => (hdev d s).imp id fun h => ⟨h.1, .inl h.2⟩, fun _ hr => ?_, fun c _ => htaken c⟩
  refine hr.congr hcore (fun c hc => htaken c (hr.taken c hc)) (fun as => ?_) fun c hc => ?_
  · have := hr.lastAlloc as
    unfold Sb.asi at this ⊢
    rwa [hmeta, hsnap, core_combined hcore]
  · rw [hdefer] at hc
    exact hr.deferred c hc

private theorem writeHome_metadev (sb : Sb D) (l : List Nat) (d : Device) (s : Nat) :
    Function.update sb.dev .metadev (writeHome (sb.dev .metadev) sb.mem l) d s = sb.dev d s ∨
      d = .metadev ∧ s ∈ l := by
  by_cases hd : d = .metadev
  · subst hd
    rw [Function.update_self, writeHome_apply]
    split
    · exact .inr ⟨rfl, by assumption⟩
    · exact .inl rfl
  · exact .inl (by rw [Function.update_of_ne hd])

private theorem quiet_flushJournaledBuffers (R : Nat) (sb : Sb D) : Quiet R [] sb (flushJournaledBuffers sb) :=
  quiet_same rfl rfl (fun _ => rfl) rfl rfl (fun _ hs => .inl (hs.resolve_right (by simp [flushJournaledBuffers])))
    (fun _ hs => hs) fun d s => (writeHome_metadev sb _ d s).imp id fun h => ⟨h.1, .inr h.2⟩

private theorem quiet_flushIfNeeded (hr : Reserved R sb) : Quiet R [] sb (flushIfNeeded sb) := by
  unfold flushIfNeeded
  split
  · have h1 := quiet_flushJournaledBuffers R sb
    exact h1.comp (quiet_flushDeferredAllocs (h1.reserved (by simp) hr))
  · exact .refl R sb

/-- What a restart after a commit would find. -/
def Sb.point (sb : Sb D) : CommitPoint D :=
  { blocks := sb.committed, diskSuper := sb.diskSuper, image := sb.image, deferred := sb.deferredAlloc,
    copyChunks := sb.copyChunks }

theorem logTransaction_core (sb : Sb D) (barrier : Bool) : (logTransaction sb barrier).core = sb.core := by
  unfold logTransaction
  dsimp only
  rw [writeJournal_eq]
  unfold pushDefer
  split <;> rfl

theorem logTransaction_record (sb : Sb D) (barrier : Bool) :
    (logTransaction sb barrier).committed = writeHome sb.committed sb.mem sb.dirtyBuffers ∧
      (logTransaction sb barrier).commits = (logTransaction sb barrier).point :: sb.commits ∧
      (logTransaction sb barrier).defer.count = 0 ∧
      ∀ chunk, isDeferredAlloc (logTransaction sb barrier) chunk = isDeferredAlloc sb chunk := by
  unfold logTransaction
  dsimp only
  rw [writeJournal_eq]
  unfold pushDefer
  split
  · rename_i h0
    exact ⟨rfl, rfl, h0, fun _ => rfl⟩
  · refine ⟨rfl, rfl, rfl, fun chunk => ?_⟩
    rw [Bool.eq_iff_iff, isDeferredAlloc_iff, isDeferredAlloc_iff]
    simp only [recordCommit, List.mem_append, List.mem_singleton, or_and_right, exists_or, exists_eq_left]
    constructor
    · rintro (h | h | h)
      · omega
      · exact .inr h
      · exact .inl h
    · rintro (h | h)
      · exact .inr (.inr h)
      · exact .inr (.inl h)

/-- `commit_transaction` moves content to the log and to the home locations and changes none of it. -/
theorem quiet_commitTransaction {barrier : Bool} (hr : Reserved R sb) (h : commitTransaction sb barrier = some sb') :
    Quiet R [] sb sb' := by
  rcases commitTransaction_cases h with ⟨-, rfl⟩ | ⟨-, -, rfl⟩
  · exact .refl R sb'
  refine (quiet_flushIfNeeded hr).comp ?_
  generalize (barrier || sb.mustFlush) = b
  generalize flushIfNeeded sb = sb1
  obtain ⟨-, hmeta, hsnap, -, hmem, hdirty, hjour, hdfr, hdev, -⟩ := logTransaction_fixed sb1 b
  obtain ⟨hrc, -, -, hda⟩ := logTransaction_record sb1 b
  have hcore := logTransaction_core sb1 b
  generalize hl : logTransaction sb1 b = sb2 at *
  have hsync : ∀ s, sb1.SyncAt s → sb2.committed s = sb1.mem s := by
    intro s hs
    rw [hrc, writeHome_apply]
    split
    · rfl
    · rename_i hn
      exact hs.resolve_left hn
  unfold retireDirty
  split
  · refine quiet_same hcore hmem hda hmeta hsnap ?_ ?_
      fun d s => .inl (by show sb2.dev d s = _; rw [hdev])
    · rintro s (hs | hs)
      · cases hs
      · rw [hjour, hdirty, List.mem_append] at hs
        exact hs.symm
    · intro s hs
      exact .inr ((hsync s hs).trans (by rw [hmem]))
  · refine quiet_same hcore hmem hda hmeta hsnap ?_ ?_ ?_
    · rintro s (hs | hs)
      · cases hs
      · exact .inr (hjour ▸ hs)
    · intro s hs
      exact .inr ((hsync s hs).trans (by rw [hmem]))
    · intro d s
      have := writeHome_metadev sb2 sb2.dirtyBuffers d s
      rw [hdev, hdirty] at this
      show Function.update sb2.dev .metadev (writeHome (sb2.dev .metadev) sb2.mem sb2.dirtyBuffers) d s = _ ∨ _
      rw [hdev, hdirty]
      exact this.imp id fun h => ⟨h.1, .inl h.2⟩

/-- So does `commit_deferred_allocs`, two commits with the flushes in between. -/
theorem quiet_commitDeferredAllocs (hr : Reserved R sb) (h : commitDeferredAllocs sb = some sb') :
    Quiet R [] sb sb' := by
  simp only [commitDeferredAllocs, Option.bind_eq_bind, Option.bind_eq_some_iff] at h
  obtain ⟨sb1, h1, h2⟩ := h
  have hq := quiet_commitTransaction hr h1
  have hq1 := hq.comp (quiet_flushDeferredAllocs (hq.reserved (by simp) hr))
  have hq2 := hq1.comp (quiet_flushJournaledBuffers R (flushDeferredAllocs sb1))
  exact hq2.comp (quiet_commitTransaction (hq2.reserved (by simp) hr) h2)

end

end Ddsnap
