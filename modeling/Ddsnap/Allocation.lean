import Ddsnap.Frame
import Ddsnap.Lib.FreeMap

/-!
# Exact accounting of the allocation spaces

The bitmaps, the deferred ranges and the free counts of both spaces fit together (`Sb.Accounted`), as long as only
chunks of the metadata space are deferred; on a combined store these are all chunks.  For every function of the
allocator: it keeps the accounts, and it changes the set of allocated chunks by the chunk that it takes or frees.
-/

namespace Ddsnap

open FreeMap

variable {D : Type} {sb sb1 sb' : Sb D} {as as' : Space} {c c' : Nat}

/-! ### Deferred chunks -/

/-- The chunks of a range. -/
def AllocRange.chunks (r : AllocRange) : List Nat := (List.range r.count).map (r.chunk + ·)

/-- The chunks of the pending range and of the ranges that the journal remembers. -/
def Sb.deferredChunks (sb : Sb D) : List Nat := sb.defer.chunks ++ sb.deferredAlloc.flatMap AllocRange.chunks

theorem AllocRange.mem_chunks {r : AllocRange} : c ∈ r.chunks ↔ r.chunk ≤ c ∧ c < r.chunk + r.count := by
  simp only [AllocRange.chunks, List.mem_map, List.mem_range]
  constructor
  · rintro ⟨i, hi, rfl⟩
    omega
  · rintro ⟨h1, h2⟩
    exact ⟨c - r.chunk, by omega, by omega⟩

theorem mem_deferredChunks : c ∈ sb.deferredChunks ↔ isDeferredAlloc sb c = true := by
  simp only [Sb.deferredChunks, List.mem_append, List.mem_flatMap, AllocRange.mem_chunks, isDeferredAlloc_iff]

theorem length_deferredChunks (sb : Sb D) : sb.deferredChunks.length = countDeferred sb := by
  have hlen : ∀ r : AllocRange, r.chunks.length = r.count := fun r => by simp [AllocRange.chunks]
  rw [Sb.deferredChunks, List.length_append, List.length_flatMap, hlen, countDeferred]
  congr 2
  exact List.map_congr_left fun r _ => hlen r

/-! ### Bits -/

/-- The bits that `count_zeros` looks at. -/
def Sb.countedBits (sb : Sb D) (as : Space) : Nat := 8 * (((sb.asi as).chunks + 7) / 8)

/-- Both spaces are one on a combined store. -/
def Sb.sameSpace (sb : Sb D) (as as' : Space) : Bool := as = as' || sb.combined

/-- The bitmaps are big enough and do not overlap. -/
structure Laid (sb : Sb D) : Prop where
  apart : sb.combined = false →
    sb.image.metadata.bitmapBase + sb.image.metadata.bitmapBlocks ≤ sb.image.snapdata.bitmapBase
  fits : ∀ as, sb.countedBits as ≤ sb.bitmapSize as
  small : ∀ as, (sb.asi as).chunks < 2 ^ 64

/-- The bit of a chunk is changed and its bitmap block is dirtied. -/
def Sb.putBit (sb : Sb D) (as : Space) (chunk : Nat) (value : Bool) : Sb D :=
  let s := sb.bitmapBlock (sb.asi as).bitmapBase chunk
  sb.put s (.bitmap (Function.update (bitmapBits (sb.mem s)) (chunk % 2 ^ sb.bitmapShift) value))

theorem asi_eq_of_sameSpace (h : sb.sameSpace as as' = true) : sb.asi as = sb.asi as' := by
  simp only [Sb.sameSpace, Bool.or_eq_true, decide_eq_true_eq] at h
  rcases h with rfl | h
  · rfl
  · cases as <;> cases as' <;> simp [Sb.asi, h]

/-- Two chunks have the same bit exactly if they are one chunk of one space. -/
private theorem Laid.bit_eq (hl : Laid sb) (hc : c < sb.bitmapSize as) (hc' : c' < sb.bitmapSize as') :
    (sb.bitmapBlock (sb.asi as').bitmapBase c' = sb.bitmapBlock (sb.asi as).bitmapBase c ∧
      c' % 2 ^ sb.bitmapShift = c % 2 ^ sb.bitmapShift) ↔ sb.sameSpace as as' = true ∧ c' = c := by
  constructor
  · rintro ⟨hb, hm⟩
    have hsame : sb.sameSpace as as' = true := by
      by_contra hs
      simp only [Sb.sameSpace, Bool.or_eq_true, decide_eq_true_eq, not_or, Bool.not_eq_true] at hs
      have h1 : c / 2 ^ sb.bitmapShift < (sb.asi as).bitmapBlocks := Nat.div_lt_of_lt_mul (by rwa [Nat.mul_comm])
      have h2 : c' / 2 ^ sb.bitmapShift < (sb.asi as').bitmapBlocks := Nat.div_lt_of_lt_mul (by rwa [Nat.mul_comm])
      have h3 := hl.apart hs.2
      unfold Sb.bitmapBlock at hb
      generalize c / 2 ^ sb.bitmapShift = x at *
      generalize c' / 2 ^ sb.bitmapShift = y at *
      cases as <;> cases as' <;> simp [Sb.asi, hs.2] at hb h1 h2 hs <;> omega
    have hdiv : c' / 2 ^ sb.bitmapShift = c / 2 ^ sb.bitmapShift := by
      rw [asi_eq_of_sameSpace hsame] at hb
      unfold Sb.bitmapBlock at hb
      omega
    refine ⟨hsame, ?_⟩
    rw [← Nat.div_add_mod c' (2 ^ sb.bitmapShift), hdiv, hm, Nat.div_add_mod]
  · rintro ⟨hs, rfl⟩
    rw [asi_eq_of_sameSpace hs]
    exact ⟨rfl, rfl⟩

theorem asi_put (sb : Sb D) (s : Nat) (b : Block D) (as : Space) : (sb.put s b).asi as = sb.asi as := by
  unfold Sb.asi Sb.combined
  rw [(sb.put_fixed s b).2.2.2.2.1]

theorem putBit_fixed (sb : Sb D) (as : Space) (c : Nat) (value : Bool) : (sb.putBit as c value).core = sb.core ∧
    (sb.putBit as c value).image = sb.image ∧ (sb.putBit as c value).defer = sb.defer ∧
    (sb.putBit as c value).deferredAlloc = sb.deferredAlloc ∧
    (sb.putBit as c value).deferredChunks = sb.deferredChunks := by
  unfold Sb.putBit Sb.deferredChunks
  dsimp only
  obtain ⟨-, -, h1, h2, h3, -⟩ := sb.put_fixed (sb.bitmapBlock (sb.asi as).bitmapBase c)
    (.bitmap (Function.update (bitmapBits (sb.mem (sb.bitmapBlock (sb.asi as).bitmapBase c)))
      (c % 2 ^ sb.bitmapShift) value))
  exact ⟨sb.put_core _ _, h3, h1, h2, by rw [h1, h2]⟩

private theorem Laid.marked_putBit (hl : Laid sb) (hc : c < sb.bitmapSize as) (hc' : c' < sb.bitmapSize as')
    (value : Bool) :
    (sb.putBit as c value).marked as' c' = if sb.sameSpace as as' = true ∧ c' = c then value else sb.marked as' c' := by
  simp only [← hl.bit_eq hc hc']
  unfold Sb.putBit Sb.marked
  dsimp only
  rw [asi_put]
  unfold Sb.bitmapBlock
  rw [core_bitmapShift (sb.put_core _ _), Sb.put_mem]
  by_cases hb : (sb.asi as').bitmapBase + c' / 2 ^ sb.bitmapShift = (sb.asi as).bitmapBase + c / 2 ^ sb.bitmapShift
  · rw [hb, Function.update_self]
    by_cases hm : c' % 2 ^ sb.bitmapShift = c % 2 ^ sb.bitmapShift
    · rw [if_pos ⟨rfl, hm⟩, bitmapBits, hm, Function.update_self]
    · rw [if_neg fun h => hm h.2, bitmapBits, Function.update_of_ne hm]
  · rw [if_neg fun h => hb h.1, Function.update_of_ne hb]

/-! ### Accounts -/

/-- The deferred chunks of a space.  They are chunks of the metadata space. -/
def Sb.deferredOf (sb : Sb D) (as : Space) : List Nat := if sb.sameSpace .metadata as then sb.deferredChunks else []

/-- A chunk is allocated. -/
def Sb.allocated (sb : Sb D) (as : Space) (chunk : Nat) : Bool := sb.marked as chunk || decide (chunk ∈ sb.deferredOf as)

/-- The bitmap of every space, its deferred chunks and its free count fit together. -/
structure Sb.Accounted (sb : Sb D) : Prop where
  laid : Laid sb
  exact : ∀ as, Exact (sb.asi as).chunks (sb.countedBits as) (sb.marked as) (sb.deferredOf as) (sb.asi as).freechunks
  lastAlloc : ∀ as, (sb.asi as).lastAlloc ≤ (sb.asi as).chunks

private theorem Sb.Accounted.freechunks_lt (h : sb.Accounted) (as : Space) : (sb.asi as).freechunks < 2 ^ 64 :=
  lt_of_le_of_lt (h.exact as).free_le (h.laid.small as)

section

variable (hcore : sb'.core = sb.core)

include hcore

theorem core_asi (as : Space) : (sb'.asi as).bitmapBase = (sb.asi as).bitmapBase ∧
    (sb'.asi as).chunks = (sb.asi as).chunks ∧ (sb'.asi as).bitmapBlocks = (sb.asi as).bitmapBlocks := by
  obtain ⟨m1, m2, m3, -⟩ := core_metadata hcore
  obtain ⟨s1, s2, s3, -⟩ := core_snapdata hcore
  unfold Sb.asi
  cases as with
  | metadata => exact ⟨m1, m2, m3⟩
  | snapdata =>
    dsimp only
    rw [core_combined hcore]
    split
    · exact ⟨m1, m2, m3⟩
    · exact ⟨s1, s2, s3⟩

private theorem core_countedBits (as : Space) : sb'.countedBits as = sb.countedBits as := by
  rw [Sb.countedBits, (core_asi hcore as).2.1, ← Sb.countedBits]

theorem core_sameSpace (as as' : Space) : sb'.sameSpace as as' = sb.sameSpace as as' := by
  rw [Sb.sameSpace, core_combined hcore, ← Sb.sameSpace]

theorem marked_eq (hmem : sb'.mem = sb.mem) (as : Space) (c : Nat) : sb'.marked as c = sb.marked as c := by
  unfold Sb.marked Sb.bitmapBlock
  rw [hmem, core_bitmapShift hcore, (core_asi hcore as).1]

private theorem Laid.congr (hl : Laid sb) : Laid sb' := by
  obtain ⟨m1, -, m3, -⟩ := core_metadata hcore
  refine ⟨fun hs => ?_, fun as => ?_, fun as => ?_⟩
  · rw [m1, m3, (core_snapdata hcore).1]
    exact hl.apart (core_combined hcore ▸ hs)
  · rw [core_countedBits hcore, core_bitmapSize hcore]
    exact hl.fits as
  · rw [(core_asi hcore as).2.1]
    exact hl.small as

private theorem Sb.Accounted.update (h : sb.Accounted) (as : Space)
    (hsame : ∀ as', sb.sameSpace as as' = true →
      Exact (sb.asi as').chunks (sb.countedBits as') (sb'.marked as') (sb'.deferredOf as') (sb'.asi as').freechunks)
    (hother : ∀ as', sb.sameSpace as as' = false → (∀ x < sb.countedBits as', sb'.marked as' x = sb.marked as' x) ∧
      sb'.deferredOf as' = sb.deferredOf as' ∧ (sb'.asi as').freechunks = (sb.asi as').freechunks)
    (hlast : ∀ as', (sb'.asi as').lastAlloc ≤ (sb.asi as').chunks) : sb'.Accounted := by
  refine ⟨h.laid.congr hcore, fun as' => ?_, fun as' => ?_⟩
  · rw [(core_asi hcore as').2.1, core_countedBits hcore]
    cases hs : sb.sameSpace as as' with
    | true => exact hsame as' hs
    | false =>
      obtain ⟨hm, hd, hf⟩ := hother as' hs
      rw [hd, hf]
      exact (h.exact as').congr hm (.refl _)
  · rw [(core_asi hcore as').2.1]
    exact hlast as'

end

theorem asi_setAsi (sb : Sb D) (as as' : Space) (free last : Nat) :
    (sb.setAsi as { sb.asi as with freechunks := free, lastAlloc := last }).asi as' =
      if sb.sameSpace as as' then { sb.asi as' with freechunks := free, lastAlloc := last } else sb.asi as' := by
  cases hc : sb.combined <;> cases as <;> cases as' <;> simp [Sb.setAsi, Sb.asi, Sb.sameSpace, Sb.combined] at hc ⊢ <;>
    simp [hc]

/-- The counters of a space are set after a step on the bits and the ranges. -/
theorem setCounters (sb : Sb D) (as : Space) (free last : Nat) :
    (setSbDirty (sb.setAsi as { sb.asi as with freechunks := free, lastAlloc := last })).core = sb.core ∧
    (setSbDirty (sb.setAsi as { sb.asi as with freechunks := free, lastAlloc := last })).mem = sb.mem ∧
    (setSbDirty (sb.setAsi as { sb.asi as with freechunks := free, lastAlloc := last })).deferredChunks =
      sb.deferredChunks := by
  rcases sb.setAsi_cases as free last with ⟨-, he⟩ | ⟨-, he⟩ <;> rw [he] <;> exact ⟨rfl, rfl, rfl⟩

/-! ### Allocation -/

/-- `alloc_chunk_from_range` defers the allocation of the chunk that it found. -/
def Sb.Defers (sb : Sb D) (chunk : Nat) : Prop :=
  sb.deferring = true ∧ sb.deferredAlloc.length < maxDeferredAllocs ∧
    (sb.defer.count = 0 ∨ chunk = sb.defer.chunk + 1)

/-- A chunk that is taken is deferred, or marked. -/
theorem takeChunk_cases (as : Space) (hd : isDeferredAlloc sb c = false) :
    ∃ sb1, takeChunk sb as c =
        setSbDirty (sb1.setAsi as { sb1.asi as with freechunks := diff64 (sb1.asi as).freechunks 1 }) ∧
      sb1.image = sb.image ∧ sb1.core = sb.core ∧
      (sb.Defers c ∧ sb1.mem = sb.mem ∧ (c :: sb.deferredChunks).Perm sb1.deferredChunks ∨
        ¬sb.Defers c ∧ sb1 = sb.putBit as c true) := by
  refine ⟨_, rfl, ?_⟩
  by_cases h0 : sb.deferring = true ∧ sb.deferredAlloc.length < maxDeferredAllocs ∧ sb.defer.count = 0
  · rw [if_pos h0]
    refine ⟨rfl, rfl, .inl ⟨⟨h0.1, h0.2.1, .inl h0.2.2⟩, rfl, .of_eq ?_⟩⟩
    simp [Sb.deferredChunks, AllocRange.chunks, h0.2.2]
  rw [if_neg h0]
  by_cases h1 : sb.deferring = true ∧ sb.deferredAlloc.length < maxDeferredAllocs ∧ c = sb.defer.chunk + 1
  · rw [if_pos h1]
    refine ⟨rfl, rfl, .inl ⟨⟨h1.1, h1.2.1, .inr h1.2.2⟩, rfl, ?_⟩⟩
    -- the pending range has one chunk, because the next one is not deferred
    have hone : sb.defer.count = 1 := by
      have hpos : sb.defer.count ≠ 0 := fun h => h0 ⟨h1.1, h1.2.1, h⟩
      have hout : ¬(sb.defer.chunk ≤ c ∧ c < sb.defer.chunk + sb.defer.count) := fun hin => by
        rw [isDeferredAlloc_iff.2 (.inl hin)] at hd
        cases hd
      omega
    have hpair : List.range 2 = [0, 1] := rfl
    simp only [Sb.deferredChunks, AllocRange.chunks, hone, h1.2.2, Nat.reduceAdd, hpair, List.range_one, List.map_cons,
      List.map_nil, Nat.add_zero, List.cons_append, List.nil_append]
    exact List.Perm.swap ..
  · rw [if_neg h1]
    refine ⟨(sb.put_fixed _ _).2.2.2.2.1, sb.put_core _ _, .inr ⟨fun hdef => ?_, rfl⟩⟩
    rcases hdef.2.2 with h | h
    · exact h0 ⟨hdef.1, hdef.2.1, h⟩
    · exact h1 ⟨hdef.1, hdef.2.1, h⟩

/-- What the scan finds lies in the bytes that it looks at. -/
theorem scanBytes_lt {length byte : Nat} (hw : byte + length ≤ (sb.asi as).bitmapBlocks * sb.allocsize)
    (h : scanBytes sb as length byte = some c) : c < 8 * (byte + length) := by
  induction length generalizing byte with
  | zero => cases h
  | succ length ih =>
    unfold scanBytes at h
    split at h
    · rename_i found hf
      cases h
      have := (scanByte_some hf).1
      omega
    · split_ifs at h with hend
      · -- the scan does not go on after the last byte
        obtain rfl : length = 0 := by omega
        cases h
      · have := ih (by omega) h
        omega

/-- `alloc_chunk` finds a free chunk of the space. -/
theorem Sb.Accounted.found (h : sb.Accounted) (ha : Ddsnap.allocChunk sb as = some (c, sb')) :
    c < sb.countedBits as ∧ sb.marked as c = false ∧ isDeferredAlloc sb c = false := by
  have hsize := sb.bitmapSize_eq as
  have hfits := h.laid.fits as
  have hlast := h.lastAlloc as
  obtain ⟨⟨start, n, hstart, hscan⟩, -⟩ := allocChunk_cases ha
  have hend : start / 8 + (n + start % 8 + 7) / 8 ≤ ((sb.asi as).chunks + 7) / 8 := by omega
  unfold Sb.countedBits at hfits ⊢
  have hlt := scanBytes_lt (by omega) hscan
  have hpos : 0 < (n + start % 8 + 7) / 8 := by
    by_contra h0
    rw [Nat.eq_zero_of_not_pos h0] at hscan
    cases hscan
  obtain ⟨-, h2, h3⟩ := scanBytes_some (by omega) hscan
  exact ⟨by omega, h2, h3⟩

private theorem sameSpace_trans {as1 as2 as3 : Space} (h12 : sb.sameSpace as1 as2 = true) :
    sb.sameSpace as1 as3 = sb.sameSpace as2 as3 := by
  cases as1 <;> cases as2 <;> cases as3 <;> simp_all [Sb.sameSpace]

/-- One more chunk is allocated. -/
def Sb.Gains (sb sb' : Sb D) (as : Space) (chunk : Nat) : Prop :=
  ∀ as' x, x < sb.countedBits as' →
    (sb'.allocated as' x = true ↔ sb.sameSpace as as' = true ∧ x = chunk ∨ sb.allocated as' x = true)

private theorem not_mem_deferredOf (hd : isDeferredAlloc sb c = false) (as : Space) : c ∉ sb.deferredOf as := by
  intro hin
  unfold Sb.deferredOf at hin
  split at hin
  · simp [mem_deferredChunks.1 hin] at hd
  · cases hin

section

variable (h : sb.Accounted) (hc : c < sb.countedBits as) (hm : sb.marked as c = false)
  (hd : isDeferredAlloc sb c = false)

include h hc hm hd

/-- A chunk that is neither marked nor deferred, in each space that is the same one: the free counter does not wrap. -/
private theorem Sb.Accounted.countDown (hs : sb.sameSpace as as' = true) :
    c < sb.countedBits as' ∧ sb.marked as' c = false ∧
      diff64 (sb.asi as').freechunks 1 = (sb.asi as').freechunks - 1 := by
  have hasi := asi_eq_of_sameSpace hs
  have hc' : c < sb.countedBits as' := by rwa [Sb.countedBits, ← hasi]
  have hm' : sb.marked as' c = false := by rwa [Sb.marked, ← hasi]
  exact ⟨hc', hm', diff64_eq (h.freechunks_lt as') ((h.exact as').pos hc' hm' (not_mem_deferredOf hd as'))⟩

variable (hcore : sb'.core = sb.core)
  (hfree : ∀ as', (sb'.asi as').freechunks =
    if sb.sameSpace as as' then diff64 (sb.asi as').freechunks 1 else (sb.asi as').freechunks)
  (hlast : ∀ as', (sb'.asi as').lastAlloc ≤ (sb.asi as').chunks)

include hcore hfree hlast

/-- The chunk is deferred, on the list of the metadata space. -/
private theorem Sb.Accounted.deferChunk (hmem : sb'.mem = sb.mem)
    (hperm : (c :: sb.deferredChunks).Perm sb'.deferredChunks) (hplace : sb.sameSpace .metadata as = true) :
    sb'.Accounted ∧ sb.Gains sb' as c := by
  have hof : ∀ as', sb.sameSpace as as' = true →
      sb.deferredOf as' = sb.deferredChunks ∧ sb'.deferredOf as' = sb'.deferredChunks := by
    intro as' hs
    have hmeta : sb.sameSpace .metadata as' = true := (sameSpace_trans hplace).trans hs
    exact ⟨if_pos hmeta, if_pos ((core_sameSpace hcore _ _).trans hmeta)⟩
  have hnone : ∀ as', sb.sameSpace as as' = false → sb.deferredOf as' = [] ∧ sb'.deferredOf as' = [] := by
    intro as' hs
    have hmeta : sb.sameSpace .metadata as' = false := (sameSpace_trans hplace).trans hs
    exact ⟨if_neg (by simp [hmeta]), if_neg (by simp [core_sameSpace hcore, hmeta])⟩
  have hmark := marked_eq hcore hmem
  refine ⟨h.update hcore as (fun as' hs => ?_) (fun as' hs => ?_) hlast, fun as' x hx => ?_⟩
  · obtain ⟨h1, h2⟩ := hof as' hs
    obtain ⟨hc', hm', hdiff⟩ := h.countDown hc hm hd hs
    rw [h2, hfree, if_pos hs, funext fun x => hmark as' x, hdiff]
    exact ((h.exact as').defer hc' hm' (not_mem_deferredOf hd as')).congr (fun _ _ => rfl) (h1 ▸ hperm)
  · obtain ⟨h1, h2⟩ := hnone as' hs
    exact ⟨fun x _ => hmark as' x, by rw [h1, h2], by rw [hfree, if_neg (by simp [hs])]⟩
  · unfold Sb.allocated
    rw [hmark]
    cases hs : sb.sameSpace as as' with
    | true =>
      obtain ⟨h1, h2⟩ := hof as' hs
      rw [h1, h2]
      simp only [Bool.or_eq_true, decide_eq_true_eq, true_and, ← hperm.mem_iff, List.mem_cons]
      tauto
    | false =>
      obtain ⟨h1, h2⟩ := hnone as' hs
      rw [h1, h2]
      simp

/-- The bit of the chunk is set. -/
private theorem Sb.Accounted.markChunk (hmark : ∀ as' x, sb'.marked as' x = (sb.putBit as c true).marked as' x)
    (hdefer : sb'.deferredChunks = sb.deferredChunks) : sb'.Accounted ∧ sb.Gains sb' as c := by
  have hof : ∀ as', sb'.deferredOf as' = sb.deferredOf as' := fun as' => by
    unfold Sb.deferredOf
    rw [core_sameSpace hcore, hdefer]
  have hfits : ∀ as', sb.countedBits as' ≤ sb.bitmapSize as' := h.laid.fits
  have hbit : ∀ as' x, x < sb.countedBits as' →
      sb'.marked as' x = if sb.sameSpace as as' = true ∧ x = c then true else sb.marked as' x := fun as' x hx =>
    (hmark as' x).trans (h.laid.marked_putBit (Nat.lt_of_lt_of_le hc (hfits as)) (Nat.lt_of_lt_of_le hx (hfits as')) true)
  refine ⟨h.update hcore as (fun as' hs => ?_) (fun as' hs => ?_) hlast, fun as' x hx => ?_⟩
  · obtain ⟨hc', hm', hdiff⟩ := h.countDown hc hm hd hs
    rw [hof, hfree, if_pos hs, hdiff]
    refine (h.exact as').mark hc' hm' (not_mem_deferredOf hd as') ?_ fun x hx hne => ?_
    · rw [hbit as' c hc', if_pos ⟨hs, rfl⟩]
    · rw [hbit as' x hx, if_neg fun hx => hne hx.2]
  · refine ⟨fun x hx => ?_, hof as', by rw [hfree, if_neg (by simp [hs])]⟩
    rw [hbit as' x hx, if_neg fun hx => by simp [hs] at hx]
  · unfold Sb.allocated
    rw [hof, hbit as' x hx]
    split_ifs with hxc
    · simp [hxc]
    · simp [hxc]

end

/-- The counters after `alloc_chunk`. -/
theorem allocChunk_counters (himg : sb1.image = sb.image) (hcore : sb1.core = sb.core)
    (htake : takeChunk sb as c =
      setSbDirty (sb1.setAsi as { sb1.asi as with freechunks := diff64 (sb1.asi as).freechunks 1 }))
    (he : sb' = setSbDirty ((takeChunk sb as c).setAsi as { (takeChunk sb as c).asi as with lastAlloc := c })) :
    (∀ as', (sb'.asi as').freechunks =
      if sb.sameSpace as as' then diff64 (sb.asi as').freechunks 1 else (sb.asi as').freechunks) ∧
      ∀ as', (sb'.asi as').lastAlloc = if sb.sameSpace as as' then c else (sb.asi as').lastAlloc := by
  have hasi1 : ∀ as', sb1.asi as' = sb.asi as' := fun as' => by
    unfold Sb.asi
    rw [core_combined hcore, himg]
  have hcore2 : (takeChunk sb as c).core = sb.core := by
    rw [htake]
    exact (setCounters sb1 as _ _).1.trans hcore
  have hasi2 : ∀ as', (takeChunk sb as c).asi as' = if sb.sameSpace as as' then
      { sb.asi as' with freechunks := diff64 (sb.asi as).freechunks 1, lastAlloc := (sb.asi as).lastAlloc }
      else sb.asi as' := fun as' => by
    rw [htake, ← hasi1 as', ← hasi1 as, ← core_sameSpace hcore]
    exact asi_setAsi sb1 as as' _ _
  have hasi3 : ∀ as', sb'.asi as' = if sb.sameSpace as as' then
      { (takeChunk sb as c).asi as' with freechunks := ((takeChunk sb as c).asi as).freechunks, lastAlloc := c }
      else (takeChunk sb as c).asi as' := fun as' => by
    rw [he, ← core_sameSpace hcore2]
    exact asi_setAsi _ as as' _ _
  have hself : sb.sameSpace as as = true := by simp [Sb.sameSpace]
  refine ⟨fun as' => ?_, fun as' => ?_⟩
  · rw [hasi3, hasi2, hasi2, if_pos hself]
    split_ifs with hs
    · rw [asi_eq_of_sameSpace hs]
    · rfl
  · rw [hasi3, hasi2]
    split_ifs <;> rfl

/-- `alloc_chunk` keeps the accounts and allocates one chunk that was not allocated, if a chunk of a separate space of
snapshot data is not deferred. -/
theorem Sb.Accounted.allocChunk (h : sb.Accounted) (ha : allocChunk sb as = some (c, sb'))
    (hplace : sb.sameSpace .metadata as = true ∨ ¬sb.Defers c) :
    sb'.Accounted ∧ sb.Gains sb' as c ∧ sb'.core = sb.core ∧ c < (sb.asi as).chunks ∧ sb.allocated as c = false := by
  obtain ⟨hc, hm, hd⟩ := h.found ha
  have hlt : c < (sb.asi as).chunks := (h.exact as).lt hc hm
  obtain ⟨sb1, htake, himg, hcore1, hcases⟩ := takeChunk_cases as hd
  have he := (allocChunk_cases ha).2
  obtain ⟨hfree, hlast⟩ := allocChunk_counters himg hcore1 htake he
  have hlast' : ∀ as', (sb'.asi as').lastAlloc ≤ (sb.asi as').chunks := fun as' => by
    rw [hlast]
    split_ifs with hs
    · exact Nat.le_of_lt (asi_eq_of_sameSpace hs ▸ hlt)
    · exact h.lastAlloc as'
  -- the bits, the ranges and the geometry after the chunk was noted are the final ones
  obtain ⟨c1, m1, d1⟩ := setCounters sb1 as (diff64 (sb1.asi as).freechunks 1) (sb1.asi as).lastAlloc
  obtain ⟨c2, m2, d2⟩ := setCounters (takeChunk sb as c) as ((takeChunk sb as c).asi as).freechunks c
  rw [← he] at c2 m2 d2
  have hcore : sb'.core = sb.core := c2.trans (by rw [htake]; exact c1.trans hcore1)
  have hmem : sb'.mem = sb1.mem := m2.trans (by rw [htake]; exact m1)
  have hdefer : sb'.deferredChunks = sb1.deferredChunks := d2.trans (by rw [htake]; exact d1)
  have hacc : sb'.Accounted ∧ sb.Gains sb' as c := by
    rcases hcases with ⟨hdef, hmem1, hperm⟩ | ⟨-, rfl⟩
    · exact h.deferChunk hc hm hd hcore hfree hlast' (hmem.trans hmem1) (hdefer ▸ hperm)
        (hplace.resolve_right fun hn => hn hdef)
    · exact h.markChunk hc hm hd hcore hfree hlast' (fun as' x => marked_eq (hcore.trans hcore1.symm) hmem as' x)
        (hdefer.trans (putBit_fixed sb as c true).2.2.2.2)
  refine ⟨hacc.1, hacc.2, hcore, hlt, ?_⟩
  unfold Sb.allocated
  rw [hm, decide_eq_false (not_mem_deferredOf hd as)]
  rfl

/-! ### Freeing -/

/-- One chunk is not allocated any more. -/
def Sb.Loses (sb sb' : Sb D) (as : Space) (chunk : Nat) : Prop :=
  ∀ as' x, x < sb.countedBits as' →
    (sb'.allocated as' x = true ↔ ¬(sb.sameSpace as as' = true ∧ x = chunk) ∧ sb.allocated as' x = true)

/-- `free_chunk` of a chunk that is marked keeps the accounts and frees the chunk. -/
theorem Sb.Accounted.freeChunk (h : sb.Accounted) (hc : c < (sb.asi as).chunks) (hm : sb.marked as c = true) :
    (freeChunk sb as c).Accounted ∧ sb.Loses (freeChunk sb as c) as c ∧ (Ddsnap.freeChunk sb as c).core = sb.core := by
  have hle : ∀ as', (sb.asi as').chunks ≤ sb.countedBits as' := fun as' => (h.exact as').bound
  have hfits := h.laid.fits
  have hfree : Ddsnap.freeChunk sb as c = setSbDirty ((sb.putBit as c false).setAsi as
      { (sb.putBit as c false).asi as with freechunks := (((sb.putBit as c false).asi as).freechunks + 1) % 2 ^ 64 }) :=
    if_pos hm
  obtain ⟨hcore1, -, -, -, hdefer⟩ := putBit_fixed sb as c false
  obtain ⟨c1, m1, d1⟩ := setCounters (sb.putBit as c false) as ((((sb.putBit as c false).asi as).freechunks + 1) % 2 ^ 64)
    ((sb.putBit as c false).asi as).lastAlloc
  rw [← hfree] at c1 m1 d1
  have hcore : (Ddsnap.freeChunk sb as c).core = sb.core := c1.trans hcore1
  have hasi : ∀ as', (Ddsnap.freeChunk sb as c).asi as' = if sb.sameSpace as as' then
      { sb.asi as' with freechunks := ((sb.asi as).freechunks + 1) % 2 ^ 64, lastAlloc := (sb.asi as).lastAlloc }
      else sb.asi as' := fun as' => by
    have hput : ∀ as', (sb.putBit as c false).asi as' = sb.asi as' := asi_put sb _ _
    rw [hfree, ← core_sameSpace hcore1, ← hput as', ← hput as]
    exact asi_setAsi _ as as' _ _
  have hof : ∀ as', (Ddsnap.freeChunk sb as c).deferredOf as' = sb.deferredOf as' := fun as' => by
    unfold Sb.deferredOf
    rw [core_sameSpace hcore, d1, hdefer]
  have hbit : ∀ as' x, x < sb.countedBits as' → (Ddsnap.freeChunk sb as c).marked as' x =
      if sb.sameSpace as as' = true ∧ x = c then false else sb.marked as' x := fun as' x hx =>
    (marked_eq c1 m1 as' x).trans (h.laid.marked_putBit (Nat.lt_of_lt_of_le hc ((hle as).trans (hfits as)))
      (Nat.lt_of_lt_of_le hx (hfits as')) false)
  refine ⟨h.update hcore as (fun as' hs => ?_) (fun as' hs => ?_) fun as' => ?_, fun as' x hx => ?_, hcore⟩
  · have hsame := asi_eq_of_sameSpace hs
    have hmk : sb.marked as' c = sb.marked as c := by rw [Sb.marked, Sb.marked, hsame]
    rw [hsame] at hc
    rw [hof, hasi, if_pos hs, hsame]
    have hclear : (Ddsnap.freeChunk sb as c).marked as' c = false := by
      rw [hbit as' c (Nat.lt_of_lt_of_le hc (hle as')), if_pos ⟨hs, rfl⟩]
    have hnew := (h.exact as').unmark hc (hmk ▸ hm) hclear fun x hx hne => by
      rw [hbit as' x hx, if_neg fun hx => hne hx.2]
    rwa [Nat.mod_eq_of_lt (lt_of_le_of_lt hnew.free_le (h.laid.small as'))]
  · refine ⟨fun x hx => ?_, hof as', by rw [hasi, if_neg (by simp [hs])]⟩
    rw [hbit as' x hx, if_neg fun hx => by simp [hs] at hx]
  · rw [hasi]
    split_ifs with hs
    · rw [asi_eq_of_sameSpace hs]
      exact h.lastAlloc as'
    · exact h.lastAlloc as'
  · unfold Sb.allocated
    rw [hof, hbit as' x hx]
    split_ifs with hxc
    · have hsame := asi_eq_of_sameSpace hxc.1
      have hmk : sb.marked as' c = sb.marked as c := by rw [Sb.marked, Sb.marked, hsame]
      have hnot : x ∉ sb.deferredOf as' := fun hin => by
        have := (h.exact as').clear x hin
        rw [hxc.2, hmk, hm] at this
        cases this
      simp [hxc, hxc.2 ▸ hnot]
    · simp [hxc]

/-! ### Flushes and commits -/

/-- The same chunks are allocated. -/
structure Sb.SameAllocated (sb sb' : Sb D) : Prop where
  core : sb'.core = sb.core
  allocated : ∀ as x, x < sb.countedBits as → (sb'.allocated as x = true ↔ sb.allocated as x = true)

private theorem Sb.SameAllocated.trans (h1 : sb.SameAllocated sb1) (h2 : sb1.SameAllocated sb') :
    sb.SameAllocated sb' :=
  ⟨h2.core.trans h1.core, fun as x hx =>
    (h2.allocated as x (by rw [core_countedBits h1.core]; exact hx)).trans (h1.allocated as x hx)⟩

/-- A step that leaves the accounts alone, up to the order of the deferred chunks. -/
private theorem Sb.Accounted.keep (h : sb.Accounted) (hcore : sb'.core = sb.core)
    (hmark : ∀ as x, x < sb.countedBits as → sb'.marked as x = sb.marked as x)
    (hdefer : sb.deferredChunks.Perm sb'.deferredChunks) (hmeta : sb'.image.metadata = sb.image.metadata)
    (hsnap : sb'.image.snapdata = sb.image.snapdata) : sb'.Accounted ∧ sb.SameAllocated sb' := by
  have hasi : ∀ as, sb'.asi as = sb.asi as := fun as => by
    unfold Sb.asi
    rw [hmeta, hsnap, core_combined hcore]
  have hperm : ∀ as, (sb.deferredOf as).Perm (sb'.deferredOf as) := fun as => by
    unfold Sb.deferredOf
    rw [core_sameSpace hcore]
    split
    · exact hdefer
    · exact .refl _
  refine ⟨⟨h.laid.congr hcore, fun as => ?_, fun as => hasi as ▸ h.lastAlloc as⟩, hcore, fun as x hx => ?_⟩
  · rw [core_countedBits hcore, hasi]
    exact (h.exact as).congr (hmark as) (hperm as)
  · unfold Sb.allocated
    rw [hmark as x hx, decide_eq_decide.2 (hperm as).mem_iff]

/-- Chunks of the metadata space are marked one after the other. -/
private theorem Laid.marked_foldl (hl : Laid sb) (L : List Nat) (hL : ∀ c ∈ L, c < sb.bitmapSize .metadata) :
    ∃ sb1, L.foldl (fun sb c => markChunk sb sb.image.metadata.bitmapBase c) sb = sb1 ∧ sb1.core = sb.core ∧
      sb1.image = sb.image ∧ sb1.defer = sb.defer ∧ sb1.deferredAlloc = sb.deferredAlloc ∧
      ∀ as x, x < sb.bitmapSize as →
        sb1.marked as x = if sb.sameSpace .metadata as = true ∧ x ∈ L then true else sb.marked as x := by
  induction L generalizing sb with
  | nil => exact ⟨sb, rfl, rfl, rfl, rfl, rfl, fun as x _ => by simp⟩
  | cons c L ih =>
    obtain ⟨hcore, himg, hd1, hd2, -⟩ := putBit_fixed sb .metadata c true
    obtain ⟨sb1, he, h1, h2, h3, h4, h5⟩ := ih (hl.congr hcore) fun x hx => by
      rw [core_bitmapSize hcore]
      exact hL x (List.mem_cons_of_mem _ hx)
    refine ⟨sb1, he, h1.trans hcore, h2.trans himg, h3.trans hd1, h4.trans hd2, fun as x hx => ?_⟩
    rw [h5 as x (by rw [core_bitmapSize hcore]; exact hx), core_sameSpace hcore,
      hl.marked_putBit (hL c List.mem_cons_self) hx true]
    by_cases hs : sb.sameSpace .metadata as = true
    · by_cases hxL : x ∈ L
      · simp [hs, hxL]
      · by_cases hxc : x = c <;> simp [hs, hxL, hxc]
    · simp [hs]

theorem flushDeferredAllocs_eq (sb : Sb D) : flushDeferredAllocs sb =
    { (sb.deferredAlloc.flatMap AllocRange.chunks).foldl
        (fun sb c => markChunk sb sb.image.metadata.bitmapBase c) sb with deferredAlloc := [] } := by
  have hrange : (fun (sb : Sb D) (r : AllocRange) => setAllocated sb r.chunk r.count) =
      fun sb r => r.chunks.foldl (fun sb c => markChunk sb sb.image.metadata.bitmapBase c) sb := by
    funext sb r
    rw [setAllocated, AllocRange.chunks, List.foldl_map]
  rw [flushDeferredAllocs, List.foldl_flatMap, hrange]

/-- `flush_deferred_allocs` marks the deferred chunks. -/
theorem Sb.Accounted.flushDeferred (h : sb.Accounted) :
    (flushDeferredAllocs sb).Accounted ∧ sb.SameAllocated (flushDeferredAllocs sb) := by
  have hexact := h.exact .metadata
  have hall : sb.deferredOf .metadata = sb.deferredChunks := if_pos (by simp [Sb.sameSpace])
  rw [hall] at hexact
  have hin : ∀ c ∈ sb.deferredAlloc.flatMap AllocRange.chunks, c < sb.bitmapSize .metadata := fun c hc =>
    Nat.lt_of_lt_of_le (hexact.inside c (List.mem_append_right _ hc)) (hexact.bound.trans (h.laid.fits .metadata))
  obtain ⟨sb1, he, hcore, himg, hd1, -, hbits⟩ := h.laid.marked_foldl _ hin
  rw [flushDeferredAllocs_eq, he]
  have hcore' : Sb.core { sb1 with deferredAlloc := [] } = sb.core := hcore
  have hof : ∀ as, Sb.deferredOf { sb1 with deferredAlloc := [] } as =
      if sb.sameSpace .metadata as then sb.defer.chunks else [] := fun as => by
    unfold Sb.deferredOf
    rw [core_sameSpace hcore']
    simp [Sb.deferredChunks, hd1]
  have hasi : ∀ as, Sb.asi { sb1 with deferredAlloc := [] } as = sb.asi as := fun as => by
    unfold Sb.asi Sb.combined
    dsimp only
    rw [himg]
  have hmarked : ∀ as x, x < sb.countedBits as → Sb.marked { sb1 with deferredAlloc := [] } as x =
      if sb.sameSpace .metadata as = true ∧ x ∈ sb.deferredAlloc.flatMap AllocRange.chunks then true
      else sb.marked as x := fun as x hx =>
    hbits as x (Nat.lt_of_lt_of_le hx (h.laid.fits as))
  refine ⟨h.update hcore' .metadata (fun as hs => ?_) (fun as hs => ?_) fun as => hasi as ▸ h.lastAlloc as, hcore',
    fun as x hx => ?_⟩
  · have hprev := h.exact as
    have hdef : sb.deferredOf as = sb.deferredChunks := if_pos hs
    rw [hdef] at hprev
    rw [hof, if_pos hs, hasi]
    refine (hprev.congr (fun _ _ => rfl) List.perm_append_comm).settleAll (fun x hx => ?_) fun x hx hn => ?_
    · have hxin := hprev.inside x (List.mem_append_right _ hx)
      rw [hmarked as x (Nat.lt_of_lt_of_le hxin hprev.bound), if_pos ⟨hs, hx⟩]
    · rw [hmarked as x hx, if_neg fun hx => hn hx.2]
  · refine ⟨fun x hx => ?_, ?_, by rw [hasi]⟩
    · rw [hmarked as x hx, if_neg fun hx => by simp [hs] at hx]
    · rw [hof, if_neg (by simp [hs]), Sb.deferredOf, if_neg (by simp [hs])]
  · unfold Sb.allocated
    rw [hof, hmarked as x hx, Sb.deferredOf]
    by_cases hs : sb.sameSpace .metadata as = true
    · simp only [hs, if_true, true_and, Sb.deferredChunks, List.mem_append, Bool.or_eq_true, decide_eq_true_eq]
      split_ifs with hx
      · simp [hx]
      · simp [hx]
    · simp [hs]

private theorem Sb.Accounted.flushJournaled (h : sb.Accounted) :
    (flushJournaledBuffers sb).Accounted ∧ sb.SameAllocated (flushJournaledBuffers sb) :=
  h.keep rfl (fun _ _ _ => rfl) (.refl _) rfl rfl

private theorem Sb.Accounted.flushIfNeeded (h : sb.Accounted) :
    (flushIfNeeded sb).Accounted ∧ sb.SameAllocated (flushIfNeeded sb) := by
  unfold Ddsnap.flushIfNeeded
  split
  · obtain ⟨h1, s1⟩ := h.flushJournaled
    obtain ⟨h2, s2⟩ := h1.flushDeferred
    exact ⟨h2, s1.trans s2⟩
  · exact ⟨h, rfl, fun _ _ _ => Iff.rfl⟩

private theorem deferredChunks_logTransaction (sb : Sb D) (barrier : Bool) :
    sb.deferredChunks.Perm (logTransaction sb barrier).deferredChunks := by
  unfold logTransaction
  dsimp only
  rw [writeJournal_eq]
  unfold pushDefer
  split
  · exact .refl _
  · simp only [recordCommit, Sb.deferredChunks, List.flatMap_append, List.flatMap_singleton]
    have hnil : AllocRange.chunks { sb.defer with count := 0 } = [] := rfl
    rw [hnil, List.nil_append]
    exact List.perm_append_comm

/-- `commit_transaction` keeps the accounts: the pending range is moved to the list. -/
theorem Sb.Accounted.commitTransaction (h : sb.Accounted) {barrier : Bool}
    (hc : commitTransaction sb barrier = some sb') : sb'.Accounted ∧ sb.SameAllocated sb' := by
  rcases commitTransaction_cases hc with ⟨-, rfl⟩ | ⟨-, -, rfl⟩
  · exact ⟨h, rfl, fun _ _ _ => Iff.rfl⟩
  · obtain ⟨h1, s1⟩ := h.flushIfNeeded
    generalize Ddsnap.flushIfNeeded sb = sb1 at h1 s1 ⊢
    generalize (barrier || sb.mustFlush) = b
    obtain ⟨-, hmeta, hsnap, -, hmem, -⟩ := logTransaction_fixed sb1 b
    obtain ⟨h2, s2⟩ := h1.keep (logTransaction_core sb1 b)
      (fun as x _ => marked_eq (logTransaction_core sb1 b) hmem as x) (deferredChunks_logTransaction sb1 b) hmeta hsnap
    have h3 : (retireDirty (logTransaction sb1 b) b).Accounted ∧
        (logTransaction sb1 b).SameAllocated (retireDirty (logTransaction sb1 b) b) := by
      unfold retireDirty
      split <;> exact h2.keep rfl (fun _ _ _ => rfl) (.refl _) rfl rfl
    exact ⟨h3.1, (s1.trans s2).trans h3.2⟩

theorem Sb.Accounted.commitDeferred (h : sb.Accounted) (hc : commitDeferredAllocs sb = some sb') :
    sb'.Accounted ∧ sb.SameAllocated sb' := by
  obtain ⟨sb1, h1, h2⟩ := Option.bind_eq_some_iff.1 hc
  obtain ⟨a1, s1⟩ := h.commitTransaction h1
  obtain ⟨a2, s2⟩ := a1.flushDeferred
  obtain ⟨a3, s3⟩ := a2.flushJournaled
  obtain ⟨a4, s4⟩ := a3.commitTransaction h2
  exact ⟨a4, ((s1.trans s2).trans s3).trans s4⟩

/-! ### No deferred chunks are left -/

theorem flushDeferredAllocs_defer (sb : Sb D) : (flushDeferredAllocs sb).defer = sb.defer := by
  rw [flushDeferredAllocs_eq]
  generalize sb.deferredAlloc.flatMap AllocRange.chunks = L
  show (L.foldl _ sb).defer = sb.defer
  induction L generalizing sb with
  | nil => rfl
  | cons c L ih => exact (ih _).trans (putBit_fixed sb .metadata c true).2.2.1

private theorem commitTransaction_noDefer {barrier : Bool} (h : commitTransaction sb barrier = some sb') :
    sb'.defer.count = 0 ∧ (NoDefer sb → NoDefer sb') := by
  rcases commitTransaction_cases h with ⟨hi, rfl⟩ | ⟨-, -, rfl⟩
  · simp only [Sb.idle, decide_eq_true_eq] at hi
    exact ⟨hi.2, id⟩
  · have hretire : ∀ (sb : Sb D) b, (retireDirty sb b).defer = sb.defer ∧
        (retireDirty sb b).deferredAlloc = sb.deferredAlloc := fun sb b => by
      unfold retireDirty
      split <;> exact ⟨rfl, rfl⟩
    rw [NoDefer, NoDefer, (hretire _ _).1, (hretire _ _).2]
    refine ⟨(logTransaction_record _ _).2.2.1, fun hn => logTransaction_noDefer _ ?_⟩
    unfold flushIfNeeded
    split
    · exact ⟨by rw [flushDeferredAllocs_defer]; exact hn.1, rfl⟩
    · exact hn

/-- `commit_deferred_allocs` leaves no deferred chunks. -/
theorem commitDeferredAllocs_noDefer (h : commitDeferredAllocs sb = some sb') : NoDefer sb' := by
  obtain ⟨sb1, h1, h2⟩ := Option.bind_eq_some_iff.1 h
  refine (commitTransaction_noDefer h2).2 ⟨?_, rfl⟩
  show (flushDeferredAllocs sb1).defer.count = 0
  rw [flushDeferredAllocs_defer]
  exact (commitTransaction_noDefer h1).1

theorem NoDefer.deferredChunks (h : NoDefer sb) : sb.deferredChunks = [] := by
  rw [Sb.deferredChunks, AllocRange.chunks, h.1, h.2]
  rfl

end Ddsnap
