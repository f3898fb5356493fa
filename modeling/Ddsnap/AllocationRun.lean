import Ddsnap.Allocation
import Ddsnap.Fresh

/-!
# Runs of the allocator

An allocator with a book of the chunks that it handed out and that were not freed.  The store of `init_allocation` is
accounted for, on any layout, and the calls of the allocator keep the accounts and the book together.  On a combined
store this holds for all calls.  On separate spaces the deferred ranges do not say to which space they belong: it holds
as long as the chunks of the snapshot data are not deferred.
-/

namespace Ddsnap

open FreeMap

variable {D : Type}

/-! ### The accounts of a new store -/

section

variable {cfg : Config} {blank : D} {org : Nat → D} {deferring : Bool}

/-- The bits of a space that `init_bitmap_blocks` wrote, as far as they are counted. -/
private theorem initBitmapBlock_bits (bits reserved : Nat) {chunks c : Nat} (hc : c < 8 * ((chunks + 7) / 8)) :
    bitmapBits (initBitmapBlock (D := D) bits (calcBitmapBlocks bits chunks) chunks reserved (c / 2 ^ (bits + 3)))
      (c % 2 ^ (bits + 3)) = decide (c < reserved ∨ chunks ≤ c) := by
  have hpow : 2 ^ (bits + 3) = 8 * 2 ^ bits := by rw [Nat.pow_add, Nat.mul_comm]
  have hbyte : c % 2 ^ (bits + 3) / 8 = c / 8 % 2 ^ bits := by rw [hpow, Nat.mod_mul_right_div_self]
  have hbit : c % 2 ^ (bits + 3) % 8 = c % 8 := by rw [hpow, Nat.mod_mul_right_mod]
  have hblock : c / 2 ^ (bits + 3) = c / 8 / 2 ^ bits := by rw [hpow, Nat.div_div_eq_div_mul]
  simp only [initBitmapBlock, bitmapBits, Nat.div_add_mod', hbyte, hbit, decide_eq_decide]
  refine or_congr Iff.rfl ⟨fun hbehind => ?_, fun hge => ?_⟩
  · obtain ⟨hlast, hne, h1, h2⟩ := hbehind
    -- the last byte of the last block is the byte of the first chunk behind the device
    have hdiv : chunks / 8 / 2 ^ bits = c / 8 / 2 ^ bits := by
      rw [hblock, calcBitmapBlocks_ragged hne] at hlast
      omega
    have hsame : c / 8 = chunks / 8 := by
      rw [← Nat.div_add_mod (c / 8) (2 ^ bits), ← Nat.div_add_mod (chunks / 8) (2 ^ bits), hdiv, h1]
    omega
  · have hsame : c / 8 = chunks / 8 := by omega
    have hne : chunks % 8 ≠ 0 := by omega
    exact ⟨by rw [hblock, hsame, calcBitmapBlocks_ragged hne], hne, by rw [hsame], by omega⟩

/-- The store of `init_allocation`, with deferred allocation on or off. -/
def Config.allocator (cfg : Config) (blank : D) (org : Nat → D) (deferring : Bool) : Sb D :=
  { cfg.blankStore blank org with deferring := deferring }

/-- The metadata device has room for the reserved chunks, and the numbers of the chunks, rounded up to bytes of a bitmap,
are 64-bit numbers. -/
structure Config.Countable (cfg : Config) : Prop where
  reserved : cfg.reserved ≤ cfg.metachunks
  metachunks : cfg.metachunks + 7 < 2 ^ 64
  snapchunks : cfg.snapchunks + 7 < 2 ^ 64

/-- The chunks that `init_allocation` marks in the bitmap of a space. -/
def Config.reservedIn (cfg : Config) (as : Space) : Nat :=
  if as = .metadata ∨ cfg.snapchunks = 0 then cfg.reserved else 0

private theorem allocator_asi (cfg : Config) (blank : D) (org : Nat → D) (deferring : Bool) (as : Space) :
    (cfg.allocator blank org deferring).asi as = cfg.image.metadata ∧ cfg.reservedIn as = cfg.reserved ∨
      (cfg.allocator blank org deferring).asi as = cfg.image.snapdata ∧ cfg.reservedIn as = 0 := by
  cases as with
  | metadata => exact .inl ⟨rfl, rfl⟩
  | snapdata =>
    by_cases h : cfg.snapchunks = 0
    · exact .inl ⟨if_pos (decide_eq_true h), if_pos (.inr h)⟩
    · exact .inr ⟨if_neg fun hc => h (of_decide_eq_true hc), if_neg (by simp [h])⟩

private theorem allocator_marked {as : Space} {c : Nat} (hc : c < (cfg.allocator blank org deferring).countedBits as) :
    (cfg.allocator blank org deferring).marked as c =
      decide (c < cfg.reservedIn as ∨ ((cfg.allocator blank org deferring).asi as).chunks ≤ c) := by
  have hblock : ∀ {chunks}, c < 8 * ((chunks + 7) / 8) → c / 2 ^ (cfg.bits + 3) < calcBitmapBlocks cfg.bits chunks :=
    fun hc => Nat.div_lt_of_lt_mul (Nat.mul_comm _ _ ▸ Nat.lt_of_lt_of_le hc (counted_le_calcBitmapBlocks _ _))
  rcases allocator_asi cfg blank org deferring as with ⟨hasi, hres⟩ | ⟨hasi, hres⟩ <;> rw [Sb.countedBits, hasi] at hc <;>
    rw [Sb.marked, hasi, hres]
  · refine Eq.trans ?_ (initBitmapBlock_bits (D := D) cfg.bits cfg.reserved hc)
    simp only [Sb.bitmapBlock, Sb.bitmapShift, Config.allocator, Config.blankStore, Config.image, Config.initialBlocks]
    rw [if_pos ⟨Nat.le_add_right _ _, Nat.add_lt_add_left (hblock hc) _⟩, Nat.add_sub_cancel_left]
  · refine Eq.trans ?_ (initBitmapBlock_bits (D := D) cfg.bits 0 hc)
    have hlt : c / 2 ^ (cfg.bits + 3) < calcBitmapBlocks cfg.bits cfg.snapchunks := hblock hc
    simp only [Sb.bitmapBlock, Sb.bitmapShift, Config.allocator, Config.blankStore, Config.image, Config.initialBlocks]
    rw [if_neg fun h => absurd h.2 (Nat.not_lt.2 (Nat.le_add_right _ _)),
      if_pos ⟨Nat.le_add_right _ _, Nat.add_lt_add_left hlt _⟩, Nat.add_sub_cancel_left]

private theorem allocator_accounted (hcfg : cfg.Countable) : (cfg.allocator blank org deferring).Accounted := by
  have hspace := allocator_asi cfg blank org deferring
  have hmeta := hcfg.metachunks
  have hsnap := hcfg.snapchunks
  refine ⟨⟨fun _ => Nat.le_refl _, fun as => ?_, fun as => ?_⟩, fun as => ?_, fun as => ?_⟩
  · unfold Sb.countedBits Sb.bitmapSize
    rcases hspace as with ⟨hasi, -⟩ | ⟨hasi, -⟩ <;> rw [hasi] <;> exact counted_le_calcBitmapBlocks ..
  · rcases hspace as with ⟨hasi, -⟩ | ⟨hasi, -⟩ <;> rw [hasi]
    · exact (Nat.le_add_right _ _).trans_lt hmeta
    · exact (Nat.le_add_right _ _).trans_lt hsnap
  · have hdefer : (cfg.allocator blank org deferring).deferredOf as = [] := by
      unfold Sb.deferredOf
      split <;> rfl
    have hfree : ((cfg.allocator blank org deferring).asi as).freechunks =
        ((cfg.allocator blank org deferring).asi as).chunks - cfg.reservedIn as := by
      rcases hspace as with ⟨hasi, hres⟩ | ⟨hasi, hres⟩ <;> rw [hasi, hres]
      · exact diff64_eq (by omega) hcfg.reserved
      · rfl
    rw [hdefer, hfree]
    refine Exact.initial ?_ fun x hx => allocator_marked hx
    unfold Sb.countedBits
    omega
  · rcases hspace as with ⟨hasi, -⟩ | ⟨hasi, -⟩ <;> rw [hasi] <;> exact Nat.zero_le _

end

/-! ### Runs -/

/-- A store, and the chunks that were handed out and not freed.  The reserved chunks are held from the start. -/
structure Allocator (D : Type) where
  sb : Sb D
  held : Space → Nat → Bool

/-- A call of the allocator, or of the functions that move deferred allocations to the bitmap. -/
inductive AllocCall where
  | alloc (as : Space)
  | free (as : Space) (chunk : Nat)
  | commit (barrier : Bool)
  | flush
  | commitDeferred

/-- `alloc_chunk` hands a chunk out, or leaves a full store alone; `free_chunk` gets back a chunk that is held and whose
allocation is not deferred. -/
def Allocator.step (st : Allocator D) : AllocCall → Option (Allocator D)
  | .alloc as =>
    match allocChunk st.sb as with
    | none => some st
    | some (chunk, sb) => some ⟨sb, fun as' x => (st.sb.sameSpace as as' && x = chunk) || st.held as' x⟩
  | .free as chunk =>
    if st.held as chunk ∧ chunk ∉ st.sb.deferredOf as then
      some ⟨freeChunk st.sb as chunk, fun as' x => !(st.sb.sameSpace as as' && x = chunk) && st.held as' x⟩
    else none
  | .commit barrier => (commitTransaction st.sb barrier).map ({ st with sb := · })
  | .flush => some { st with sb := flushDeferredAllocs st.sb }
  | .commitDeferred => (commitDeferredAllocs st.sb).map ({ st with sb := · })

/-- The store of `init_allocation` on devices whose chunks can be counted. -/
def Allocator.Init (layout : Config → Prop) (st : Allocator D) : Prop :=
  ∃ cfg blank org deferring, layout cfg ∧ Config.Countable cfg ∧
    st = ⟨cfg.allocator blank org deferring, fun as chunk => chunk < cfg.reservedIn as⟩

/-- The accounts are exact, and the chunks that are held are those that are allocated. -/
structure Allocator.Booked (st : Allocator D) : Prop where
  accounted : st.sb.Accounted
  held : ∀ as c, st.held as c = true ↔ c < (st.sb.asi as).chunks ∧ st.sb.allocated as c = true

variable {st st' : Allocator D} {as : Space} {c : Nat}

private theorem Allocator.Init.booked {layout : Config → Prop} (h : st.Init layout) : st.Booked := by
  obtain ⟨cfg, blank, org, deferring, -, hcfg, rfl⟩ := h
  refine ⟨allocator_accounted hcfg, fun as c => ?_⟩
  have hdefer : (cfg.allocator blank org deferring).deferredOf as = [] := by
    unfold Sb.deferredOf
    split <;> rfl
  have hle : cfg.reservedIn as ≤ ((cfg.allocator blank org deferring).asi as).chunks := by
    rcases allocator_asi cfg blank org deferring as with ⟨hasi, hres⟩ | ⟨hasi, hres⟩ <;> rw [hasi, hres]
    · exact hcfg.reserved
    · exact Nat.zero_le _
  have hbound : ((cfg.allocator blank org deferring).asi as).chunks ≤ (cfg.allocator blank org deferring).countedBits as := by
    unfold Sb.countedBits
    omega
  simp only [Sb.allocated, hdefer, List.not_mem_nil, decide_false, Bool.or_false, decide_eq_true_eq]
  constructor
  · intro hc
    rw [allocator_marked (by omega)]
    exact ⟨by omega, by simp [hc]⟩
  · rintro ⟨hlt, hm⟩
    rw [allocator_marked (by omega), decide_eq_true_eq] at hm
    omega

private theorem Allocator.Booked.keep {sb : Sb D} (h : st.Booked) (ha : sb.Accounted ∧ st.sb.SameAllocated sb) :
    Allocator.Booked { st with sb := sb } := by
  refine ⟨ha.1, fun as c => (h.held as c).trans ?_⟩
  rw [(core_asi ha.2.core as).2.1]
  refine and_congr_right fun hlt => (ha.2.allocated as c ?_).symm
  exact Nat.lt_of_lt_of_le hlt (h.accounted.exact as).bound

/-- A chunk of separate snapshot data that `alloc_chunk` finds is not deferred. -/
def SpaceKnown (sb : Sb D) (as : Space) : Prop :=
  sb.sameSpace .metadata as = true ∨ ∀ c sb', allocChunk sb as = some (c, sb') → ¬sb.Defers c

/-- A step keeps the book and the layout, if deferred chunks are chunks of the metadata space. -/
private theorem Allocator.Booked.step (h : st.Booked) {call : AllocCall}
    (hplace : ∀ as, call = .alloc as → SpaceKnown st.sb as) (hs : st.step call = some st') :
    st'.Booked ∧ st'.sb.core = st.sb.core := by
  have hbound : ∀ {as x}, x < (st.sb.asi as).chunks → x < st.sb.countedBits as := fun hx =>
    Nat.lt_of_lt_of_le hx (h.accounted.exact _).bound
  cases call with
  | alloc as =>
    unfold Allocator.step at hs
    dsimp only at hs
    split at hs
    · cases hs
      exact ⟨h, rfl⟩
    · rename_i chunk sb ha
      cases hs
      obtain ⟨hacc, hgain, hcore, hlt, -⟩ := h.accounted.allocChunk ha ((hplace as rfl).imp_right fun hp => hp _ _ ha)
      refine ⟨⟨hacc, fun as' x => ?_⟩, hcore⟩
      rw [(core_asi hcore as').2.1]
      simp only [Bool.or_eq_true, Bool.and_eq_true, decide_eq_true_eq, h.held as' x]
      constructor
      · rintro (⟨hsame, rfl⟩ | ⟨hx, hal⟩)
        · have hx : x < (st.sb.asi as').chunks := asi_eq_of_sameSpace hsame ▸ hlt
          exact ⟨hx, (hgain as' x (hbound hx)).2 (.inl ⟨hsame, rfl⟩)⟩
        · exact ⟨hx, (hgain as' x (hbound hx)).2 (.inr hal)⟩
      · rintro ⟨hx, hal⟩
        exact ((hgain as' x (hbound hx)).1 hal).imp_right fun hal => ⟨hx, hal⟩
  | free as chunk =>
    unfold Allocator.step at hs
    dsimp only at hs
    split at hs
    · rename_i hguard
      cases hs
      obtain ⟨hlt, hal⟩ := (h.held as chunk).1 hguard.1
      have hm : st.sb.marked as chunk = true := by
        simpa [Sb.allocated, hguard.2] using hal
      obtain ⟨hacc, hloss, hcore⟩ := h.accounted.freeChunk hlt hm
      refine ⟨⟨hacc, fun as' x => ?_⟩, hcore⟩
      rw [(core_asi hcore as').2.1]
      simp only [Bool.and_eq_true, Bool.not_eq_true', Bool.and_eq_false_imp, decide_eq_false_iff_not, h.held as' x]
      constructor
      · rintro ⟨hne, hx, hal⟩
        exact ⟨hx, (hloss as' x (hbound hx)).2 ⟨fun hsame => hne hsame.1 hsame.2, hal⟩⟩
      · rintro ⟨hx, hal⟩
        obtain ⟨hne, hal⟩ := (hloss as' x (hbound hx)).1 hal
        exact ⟨fun hsame he => hne ⟨hsame, he⟩, hx, hal⟩
    · cases hs
  | commit barrier =>
    obtain ⟨sb, hc, rfl⟩ := Option.map_eq_some_iff.1 hs
    have hkeep := h.accounted.commitTransaction hc
    exact ⟨h.keep hkeep, hkeep.2.core⟩
  | flush =>
    cases hs
    have hkeep := h.accounted.flushDeferred
    exact ⟨h.keep hkeep, hkeep.2.core⟩
  | commitDeferred =>
    obtain ⟨sb, hc, rfl⟩ := Option.map_eq_some_iff.1 hs
    have hkeep := h.accounted.commitDeferred hc
    exact ⟨h.keep hkeep, hkeep.2.core⟩

private theorem Allocator.run_booked {ok : Allocator D → AllocCall → Prop} {layout : Config → Prop} (combined : Bool)
    (hlayout : ∀ cfg, layout cfg → decide (cfg.snapchunks = 0) = combined)
    (hok : ∀ st : Allocator D, st.Booked → st.sb.combined = combined → ∀ as, ok st (.alloc as) → SpaceKnown st.sb as)
    (hrun : Reach.Run Allocator.step ok (Allocator.Init layout) st) : st.Booked ∧ st.sb.combined = combined := by
  refine hrun.invariant (I := fun st => st.Booked ∧ st.sb.combined = combined) (fun st hi => ⟨hi.booked, ?_⟩)
    fun st call st' hi hcall hs => ?_
  · obtain ⟨cfg, blank, org, deferring, hl, -, rfl⟩ := hi
    exact hlayout cfg hl
  · obtain ⟨h1, h2⟩ := hi.1.step (fun as he => hok st hi.1 hi.2 as (he ▸ hcall)) hs
    exact ⟨h1, (core_combined h2).trans hi.2⟩

/-! ### Combined stores -/

private theorem Sb.Accounted.ranges_disjoint {sb : Sb D} (h : sb.Accounted) :
    (sb.defer :: sb.deferredAlloc).Pairwise fun r r' =>
      ∀ c, ¬(chunkWithin c r.chunk r.count = true ∧ chunkWithin c r'.chunk r'.count = true) := by
  have hnodup : ((sb.defer :: sb.deferredAlloc).flatMap AllocRange.chunks).Nodup := by
    have hmeta := (h.exact .metadata).nodup
    rwa [Sb.deferredOf, if_pos (by simp [Sb.sameSpace])] at hmeta
  refine (List.nodup_flatMap.1 hnodup).2.imp fun hdisj c hc => ?_
  have hmem : ∀ r : AllocRange, chunkWithin c r.chunk r.count = true → c ∈ r.chunks := fun r hr =>
    AllocRange.mem_chunks.2 (by simpa [chunkWithin] using hr)
  exact hdisj (hmem _ hc.1) (hmem _ hc.2)

private theorem Sb.Accounted.freechunks_add {sb : Sb D} (h : sb.Accounted) :
    sb.image.metadata.freechunks + countDeferred sb = countZeros sb .metadata := by
  have hcount := (h.exact .metadata).count
  rwa [Sb.deferredOf, if_pos (by simp [Sb.sameSpace]), length_deferredChunks] at hcount

private theorem Sb.Accounted.countZeros_lt {sb : Sb D} (h : sb.Accounted) : countZeros sb .metadata < 2 ^ 64 :=
  lt_of_le_of_lt (FreeMap.zeros_le (h.exact .metadata).bound (h.exact .metadata).tail) (h.laid.small .metadata)

/-- On a combined store, with allocations deferred or not, in every state of every run of the allocator: `alloc_chunk`
does not return a chunk that is held; the deferred ranges are disjoint, and disjoint from the bits that are set; and
the free count is exact, so `check_freespace` has nothing to correct. -/
theorem allocation_exclusive
    (hrun : Reach.Run Allocator.step (fun _ _ => True) (Allocator.Init fun cfg => cfg.snapchunks = 0) st) :
    (∀ as c sb, allocChunk st.sb as = some (c, sb) → st.held as c = false) ∧
      ((st.sb.defer :: st.sb.deferredAlloc).Pairwise fun r r' =>
        ∀ c, ¬(chunkWithin c r.chunk r.count = true ∧ chunkWithin c r'.chunk r'.count = true)) ∧
      (∀ c, isDeferredAlloc st.sb c = true → st.sb.marked .metadata c = false) ∧
      countDeferred st.sb ≤ countZeros st.sb .metadata ∧
      st.sb.image.metadata.freechunks = countZeros st.sb .metadata - countDeferred st.sb ∧
      checkFreespace st.sb = st.sb := by
  obtain ⟨hb, hcomb⟩ := Allocator.run_booked true (fun cfg h => decide_eq_true h)
    (fun st _ hc as _ => .inl (by simp [Sb.sameSpace, hc])) hrun
  have hcount := hb.accounted.freechunks_add
  refine ⟨fun as c sb ha => ?_, hb.accounted.ranges_disjoint, fun c hc => ?_, by omega, by omega, ?_⟩
  · obtain ⟨-, -, -, -, hfree⟩ := hb.accounted.allocChunk ha (.inl (by simp [Sb.sameSpace, hcomb]))
    by_contra hheld
    rw [((hb.held as c).1 (by simpa using hheld)).2] at hfree
    cases hfree
  · refine (hb.accounted.exact .metadata).clear c ?_
    rw [Sb.deferredOf, if_pos (by simp [Sb.sameSpace])]
    exact mem_deferredChunks.2 hc
  · have hfree : countFree st.sb .metadata = st.sb.image.metadata.freechunks := by
      rw [countFree, diff64_eq hb.accounted.countZeros_lt (by omega)]
      omega
    unfold checkFreespace
    rw [hfree]
    exact if_pos hcomb

/-- The allocator of a small combined store. -/
def tinyAllocator (cfg : Config) : Allocator Nat :=
  ⟨cfg.allocator 0 id true, fun as chunk => chunk < cfg.reservedIn as⟩

/-- A run on a combined store: three chunks are deferred or marked, committed, flushed, and one is freed. -/
def combinedRun : Option (Allocator Nat) :=
  Reach.exec Allocator.step (fun _ _ => True) (tinyAllocator tinyConfig)
    [.alloc .metadata, .alloc .snapdata, .alloc .metadata, .commit false, .alloc .metadata, .flush, .free .metadata 11]

private theorem combinedRun_run : Reach.Run Allocator.step (fun _ _ => True)
    (Allocator.Init fun cfg => cfg.snapchunks = 0) (combinedRun.getD (tinyAllocator tinyConfig)) :=
  (Reach.Run.start ⟨tinyConfig, 0, id, true, rfl, ⟨by decide, by decide, by decide⟩, rfl⟩).exec_getD _

theorem allocation_exclusive_tiny : combinedRun.isSome = true ∧
    (combinedRun.getD (tinyAllocator tinyConfig)).held .metadata 12 = true ∧
    checkFreespace (combinedRun.getD (tinyAllocator tinyConfig)).sb = (combinedRun.getD (tinyAllocator tinyConfig)).sb :=
  ⟨by decide +kernel, by decide +kernel, (allocation_exclusive combinedRun_run).2.2.2.2.2⟩

/-! ### Separate spaces -/

/-- The pending deferred range can take a chunk of the snapshot data: it is empty, or the chunk after its first one is
free. -/
def DataDeferrable (sb : Sb D) : Prop :=
  sb.deferring = true ∧ sb.deferredAlloc.length < maxDeferredAllocs ∧
    (sb.defer.count = 0 ∨
      sb.marked .snapdata (sb.defer.chunk + 1) = false ∧ isDeferredAlloc sb (sb.defer.chunk + 1) = false)

instance (sb : Sb D) : Decidable (DataDeferrable sb) := inferInstanceAs (Decidable (_ ∧ _ ∧ _))

/-- A call does not defer the allocation of a chunk of the snapshot data. -/
def AllocCall.Placed (st : Allocator D) (call : AllocCall) : Prop :=
  match call with
  | .alloc .snapdata => ¬DataDeferrable st.sb
  | _ => True

private theorem spaceKnown_of_placed (h : st.Booked) (hp : AllocCall.Placed st (.alloc as)) : SpaceKnown st.sb as := by
  cases as with
  | metadata => exact .inl (by simp [Sb.sameSpace])
  | snapdata =>
    refine .inr fun c sb ha hd => hp ⟨hd.1, hd.2.1, ?_⟩
    obtain ⟨-, hm, hn⟩ := h.accounted.found ha
    refine hd.2.2.imp_right fun he => ?_
    rw [← he]
    exact ⟨hm, hn⟩

/-- On separate spaces, in every state of a run in which no chunk of the snapshot data is deferred: no space hands out a
chunk that is held; a chunk of the snapshot data is held exactly if it is marked in the bitmap of the snapshot data; a
chunk of the metadata is held exactly if it is marked in the bitmap of the metadata or deferred; and after
`commit_deferred_allocs` all held chunks are marked in the bitmaps of their spaces. -/
theorem spaces_kept_apart
    (hrun : Reach.Run Allocator.step AllocCall.Placed (Allocator.Init fun cfg => cfg.snapchunks ≠ 0) st) :
    (∀ as, AllocCall.Placed st (.alloc as) → ∀ c sb, allocChunk st.sb as = some (c, sb) → st.held as c = false) ∧
      (∀ c < (st.sb.asi .snapdata).chunks, st.held .snapdata c = true ↔ st.sb.marked .snapdata c = true) ∧
      (∀ c < (st.sb.asi .metadata).chunks,
        st.held .metadata c = true ↔ st.sb.marked .metadata c = true ∨ isDeferredAlloc st.sb c = true) ∧
      ∀ sb, commitDeferredAllocs st.sb = some sb → ∀ as c, st.held as c = true → sb.marked as c = true := by
  obtain ⟨hb, hcomb⟩ := Allocator.run_booked false (fun cfg h => decide_eq_false h)
    (fun st hb _ as hp => spaceKnown_of_placed hb hp) hrun
  refine ⟨fun as hp c sb ha => ?_, fun c hc => ?_, fun c hc => ?_, fun sb hsb as c hheld => ?_⟩
  · obtain ⟨-, -, -, -, hfree⟩ := hb.accounted.allocChunk ha
      ((spaceKnown_of_placed hb hp).imp_right fun hk => hk c sb ha)
    by_contra hheld
    rw [((hb.held as c).1 (by simpa using hheld)).2] at hfree
    cases hfree
  · rw [hb.held, Sb.allocated, Sb.deferredOf, if_neg (by simp [Sb.sameSpace, hcomb])]
    simp [hc]
  · rw [hb.held, Sb.allocated, Sb.deferredOf, if_pos (by simp [Sb.sameSpace])]
    simp [hc, mem_deferredChunks]
  · have hkeep := hb.accounted.commitDeferred hsb
    have hall := ((hb.keep hkeep).held as c).1 hheld
    have hnone : sb.deferredOf as = [] := by
      unfold Sb.deferredOf
      rw [(commitDeferredAllocs_noDefer hsb).deferredChunks, ite_self]
    simpa [Sb.allocated, hnone] using hall.2

/-- A small store with separate snapshot data. -/
def separateConfig : Config := { bits := 12, metachunks := 40, snapchunks := 16, journalSize := 8, orgsectors := 0 }

private theorem separateConfig_countable : separateConfig.Countable := ⟨by decide, by decide, by decide⟩

instance (st : Allocator D) : (call : AllocCall) → Decidable (AllocCall.Placed st call)
  | .alloc .snapdata => inferInstanceAs (Decidable ¬DataDeferrable st.sb)
  | .alloc .metadata | .free .. | .commit _ | .flush | .commitDeferred => .isTrue trivial

/-- A metadata chunk starts a deferred range, that the snapshot data cannot extend. -/
def separateRun : Option (Allocator Nat) :=
  Reach.exec Allocator.step AllocCall.Placed (tinyAllocator separateConfig)
    [.alloc .metadata, .alloc .metadata, .alloc .snapdata, .alloc .snapdata, .commit false]

private theorem separateRun_run : Reach.Run Allocator.step AllocCall.Placed
    (Allocator.Init fun cfg => cfg.snapchunks ≠ 0) (separateRun.getD (tinyAllocator separateConfig)) :=
  (Reach.Run.start ⟨separateConfig, 0, id, true, by decide, separateConfig_countable, rfl⟩).exec_getD _

theorem spaces_kept_apart_tiny : separateRun.isSome = true ∧
    (separateRun.getD (tinyAllocator separateConfig)).held .snapdata 1 = true ∧
    (separateRun.getD (tinyAllocator separateConfig)).sb.marked .snapdata 1 = true :=
  have hheld : (separateRun.getD (tinyAllocator separateConfig)).held .snapdata 1 = true := by decide +kernel
  ⟨by decide +kernel, hheld, ((spaces_kept_apart separateRun_run).2.1 1 (by decide +kernel)).1 hheld⟩

/-- The first chunk of the snapshot data is deferred; `commit_deferred_allocs` marks its number in the bitmap of the
metadata, and the snapshot data hands it out again. -/
theorem data_chunk_handed_out_twice :
    ∃ st : Allocator Nat, Reach.Run Allocator.step (fun _ _ => True) (Allocator.Init fun cfg => cfg.snapchunks ≠ 0) st ∧
      st.held .snapdata 0 = true ∧ NoDefer st.sb ∧ st.sb.marked .snapdata 0 = false ∧
      (allocChunk st.sb .snapdata).map Prod.fst = some 0 := by
  refine ⟨_, (Reach.Run.start ⟨separateConfig, 0, id, true, by decide, separateConfig_countable, rfl⟩).exec_getD
    [.alloc .snapdata, .commitDeferred], ?_⟩
  unfold NoDefer
  decide +kernel

end Ddsnap
