import Ddsnap.Server
import Ddsnap.Store

/-!
# A freshly initialised store

`init_snapstore` followed by the start of the server leaves a store in order, with an empty tree and no snapshots.  The
chunks below `Config.reserved` are the reserved ones; that they fit on the device follows from the success of the first
allocation.
-/

namespace Ddsnap

open IndexTree

variable {D : Type} {cfg : Config} {blank : D} {org : Nat → D}

/-! ### The bitmaps -/

private theorem calcBitmapBlocks_pos {bits chunks : Nat} (h : chunks ≠ 0) : 0 < calcBitmapBlocks bits chunks :=
  Nat.div_pos (by omega) (Nat.two_pow_pos _)

/-- The number of bitmap blocks when the last byte is used in part. -/
theorem calcBitmapBlocks_ragged {bits chunks : Nat} (h : chunks % 8 ≠ 0) :
    calcBitmapBlocks bits chunks = chunks / 8 / 2 ^ bits + 1 := by
  have hpow : 2 ^ (bits + 3) = 8 * 2 ^ bits := by rw [Nat.pow_add, Nat.mul_comm]
  have hpos := Nat.two_pow_pos bits
  rw [calcBitmapBlocks, hpow, show chunks + 8 * 2 ^ bits - 1 = chunks - 1 + 8 * 2 ^ bits by omega,
    Nat.add_div_right _ (by omega), ← Nat.div_div_eq_div_mul, show (chunks - 1) / 8 = chunks / 8 by omega]

/-- A bitmap is big enough for the bits that are counted. -/
theorem counted_le_calcBitmapBlocks (bits chunks : Nat) :
    8 * ((chunks + 7) / 8) ≤ calcBitmapBlocks bits chunks * 2 ^ (bits + 3) := by
  have hpow : 2 ^ (bits + 3) = 8 * 2 ^ bits := by rw [Nat.pow_add, Nat.mul_comm]
  have hceil := Nat.div_add_mod (chunks + 2 ^ (bits + 3) - 1) (2 ^ (bits + 3))
  have hmod := Nat.mod_lt (chunks + 2 ^ (bits + 3) - 1) (Nat.two_pow_pos (bits + 3))
  rw [calcBitmapBlocks, Nat.mul_comm (_ / _)]
  generalize (chunks + 2 ^ (bits + 3) - 1) / 2 ^ (bits + 3) = q at *
  rw [hpow, Nat.mul_assoc] at *
  omega

private theorem blankStore_marked {chunk : Nat}
    (hsize : chunk < calcBitmapBlocks cfg.bits cfg.metachunks * 2 ^ (cfg.bits + 3)) (hres : chunk < cfg.reserved) :
    (cfg.blankStore blank org).marked .metadata chunk = true := by
  have hdiv : chunk / 2 ^ (cfg.bits + 3) < calcBitmapBlocks cfg.bits cfg.metachunks :=
    Nat.div_lt_of_lt_mul (by rw [Nat.mul_comm]; exact hsize)
  have hmod := Nat.div_add_mod chunk (2 ^ (cfg.bits + 3))
  rw [Nat.mul_comm] at hmod
  simp only [Sb.marked, Sb.asi, Sb.bitmapBlock, Sb.bitmapShift, Config.blankStore, Config.image, Config.initialBlocks]
  rw [if_pos ⟨Nat.le_add_right _ _, Nat.add_lt_add_left hdiv _⟩]
  simp only [initBitmapBlock, bitmapBits, Nat.add_sub_cancel_left, decide_eq_true_eq]
  exact .inl (by rw [hmod]; exact hres)

private theorem blankStore_deferred (chunk : Nat) : isDeferredAlloc (cfg.blankStore blank org) chunk = false := by
  simp [isDeferredAlloc, chunkWithin, Config.blankStore]

private theorem blankStore_reserved
    (hres : cfg.reserved ≤ calcBitmapBlocks cfg.bits cfg.metachunks * 2 ^ (cfg.bits + 3)) :
    Reserved cfg.reserved (cfg.blankStore blank org) := by
  have hbase : 0 < cfg.bitmapBase := Nat.div_pos (by omega) (Nat.two_pow_pos _)
  have hreserved : cfg.reserved = cfg.bitmapBase + calcBitmapBlocks cfg.bits cfg.metachunks +
    calcBitmapBlocks cfg.bits cfg.snapchunks + cfg.journalSize := rfl
  constructor
  · intro chunk hc
    exact ⟨Nat.lt_of_lt_of_le hc hres, .inl (blankStore_marked (Nat.lt_of_lt_of_le hc hres) hc)⟩
  · show cfg.bitmapBase + calcBitmapBlocks cfg.bits cfg.metachunks ≤ cfg.reserved
    omega
  · intro _
    show cfg.bitmapBase + calcBitmapBlocks cfg.bits cfg.metachunks + calcBitmapBlocks cfg.bits cfg.snapchunks ≤
      cfg.reserved
    omega
  · exact fun _ => Nat.le_refl _
  · exact hbase
  · have hpos : 0 < calcBitmapBlocks cfg.bits cfg.metachunks * 2 ^ (cfg.bits + 3) := by omega
    intro as
    cases as with
    | metadata => exact hpos
    | snapdata =>
      by_cases hc : (cfg.blankStore blank org).combined = true
      · simp only [Sb.bitmapSize, Sb.asi, hc, if_true]
        exact hpos
      · have hsnap : cfg.snapchunks ≠ 0 := fun h0 => hc (by simp [Sb.combined, Config.blankStore, Config.image, h0])
        simp only [Sb.bitmapSize, Sb.asi, hc]
        exact Nat.mul_pos (calcBitmapBlocks_pos hsnap) (Nat.two_pow_pos _)
  · intro chunk hc
    rw [blankStore_deferred] at hc
    cases hc

private theorem reserved_le {leafbuf : Nat} {sb : Sb D}
    (h : allocChunk (cfg.blankStore blank org) .metadata = some (leafbuf, sb)) :
    cfg.reserved ≤ calcBitmapBlocks cfg.bits cfg.metachunks * 2 ^ (cfg.bits + 3) := by
  by_cases hm : cfg.metachunks = 0
  · simp [allocChunk, allocChunkFromRange, Sb.asi, Config.blankStore, Config.image, hm, scanBytes] at h
  · have hlast : ((cfg.blankStore blank org).asi .metadata).lastAlloc <
        (cfg.blankStore blank org).bitmapSize .metadata :=
      Nat.mul_pos (calcBitmapBlocks_pos hm) (Nat.two_pow_pos _)
    obtain ⟨h1, h2, -⟩ := allocChunk_found hlast h
    by_contra hlt
    rw [blankStore_marked h1 (by
      have : leafbuf < calcBitmapBlocks cfg.bits cfg.metachunks * 2 ^ (cfg.bits + 3) := h1
      omega)] at h2
    cases h2

/-! ### Blocks at home -/

/-- Without deferral every block is dirty or at home, and no allocation is deferred. -/
structure AllHome (sb : Sb D) : Prop where
  home : ∀ s, s ∈ sb.dirtyBuffers ∨ sb.dev .metadev s = sb.mem s
  deferring : sb.deferring = false
  noDefer : NoDefer sb
  journaled : sb.journaledBuffers = []

private theorem Edits.allHome {sb sb' : Sb D} (h : Edits sb sb') (hh : AllHome sb) : AllHome sb' := by
  refine ⟨?_, h.fixed.deferring.trans hh.deferring, h.noDefer hh.deferring hh.noDefer, h.journaled_nil hh.journaled⟩
  induction h with
  | refl => exact hh.home
  | @touch sb1 s b _ _ _ ih =>
    intro u
    by_cases hu : u = s
    · exact .inl (by simp [hu])
    · have hdev : (setBufferDirty (sb1.store s b) s).dev = sb1.dev := (fixed_touch sb1 s b).dev
      rw [hdev, setBufferDirty_mem, Sb.store_mem, Function.update_of_ne hu]
      exact (ih u).imp (fun h => by simp [h]) id
  | count _ hc ih =>
    obtain ⟨m, s, he⟩ := hc.eq
    rw [he]
    exact ih

private theorem edits_put (sb : Sb D) (s : Nat) (b : Block D) (hs : 0 < s) (hb : asCommit b = none) : Edits sb
    (sb.put s b) :=
  Edits.refl.touch hs hb

section
variable {sb sb' : Sb D}

private theorem flushJournaledBuffers_nil (h : sb.journaledBuffers = []) : flushJournaledBuffers sb = sb := by
  unfold flushJournaledBuffers
  rw [h]
  simp only [writeHome, List.foldl_nil, Function.update_eq_self]
  rw [← h]

/-- A commit without deferral brings every block home. -/
private theorem AllHome.commit {barrier : Bool} (hh : AllHome sb) (h : commitTransaction sb barrier = some sb') :
    AllHome sb' ∧ sb'.dirtyBuffers = [] ∧ sb'.sbDirty = sb.sbDirty := by
  rcases commitTransaction_cases h with ⟨hi, rfl⟩ | ⟨-, -, rfl⟩
  · simp only [Sb.idle, decide_eq_true_eq] at hi
    exact ⟨hh, hi.1, rfl⟩
  have hflush : flushIfNeeded sb = sb := by
    unfold flushIfNeeded
    rw [flushJournaledBuffers_nil hh.journaled, flushDeferredAllocs_nil hh.noDefer.2, ite_self]
  rw [hflush]
  obtain ⟨-, -, -, -, hmem, hdirty, hjour, hdfr, hdev, -⟩ := logTransaction_fixed sb (barrier || sb.mustFlush)
  have hnd := logTransaction_noDefer (barrier || sb.mustFlush) hh.noDefer
  have hsd : (logTransaction sb (barrier || sb.mustFlush)).sbDirty = sb.sbDirty := by
    unfold logTransaction
    dsimp only
    rw [writeJournal_eq]
    unfold pushDefer
    split <;> rfl
  unfold retireDirty
  rw [if_neg (by rw [hdfr, hh.deferring]; simp)]
  refine ⟨⟨fun s => .inr ?_, hdfr.trans hh.deferring, hnd, hjour.trans hh.journaled⟩, rfl, hsd⟩
  dsimp only
  rw [Function.update_self, writeHome_apply, hdirty, hmem, hdev]
  split
  · rfl
  · exact (hh.home s).resolve_left (by assumption)

private theorem AllHome.commitDeferred (hh : AllHome sb) (h : commitDeferredAllocs sb = some sb') :
    AllHome sb' ∧ sb'.dirtyBuffers = [] ∧ sb'.sbDirty = sb.sbDirty := by
  simp only [commitDeferredAllocs, Option.bind_eq_bind, Option.bind_eq_some_iff] at h
  obtain ⟨sb1, h1, h2⟩ := h
  obtain ⟨hh1, -, hd1⟩ := hh.commit h1
  rw [flushDeferredAllocs_nil hh1.noDefer.2, flushJournaledBuffers_nil hh1.journaled] at h2
  obtain ⟨hh2, hc2, hd2⟩ := hh1.commit h2
  exact ⟨hh2, hc2, hd2.trans hd1⟩

private theorem Sb.put_sbDirty (sb : Sb D) (s : Nat) (b : Block D) : (sb.put s b).sbDirty = sb.sbDirty := by
  unfold Sb.put setBufferDirty Sb.store
  split <;> rfl

/-! ### The first tree -/

private theorem blankStore_allHome : AllHome (cfg.blankStore blank org) := ⟨fun _ => .inr rfl, rfl, ⟨rfl, rfl⟩, rfl⟩

private theorem setBufferDirty_eq_put (sb : Sb D) (s : Nat) : setBufferDirty sb s = sb.put s (sb.mem s) := by
  unfold Sb.put Sb.store
  rw [Function.update_eq_self]

/-- A tree of a root and an empty leaf. -/
private theorem store_single {R rootbuf leafbuf : Nat} (hr : Reserved R sb) (hroot : sb.image.etreeRoot = rootbuf)
    (hlev : sb.image.etreeLevels = 1) (hn : sb.mem rootbuf = .node [⟨0, leafbuf⟩])
    (hl : sb.mem leafbuf = .leaf (initLeaf sb.allocsize))
    (hplace : ∀ s, s = rootbuf ∨ s = leafbuf → sb.Placed R s) (hcap : 2 ≤ sb.allocPerNode)
    (hsize : 32 ≤ sb.allocsize) (hlisted : ∀ s, sb.Listed s → s < R ∨ sb.Taken s) :
    Store R sb ∧ sb.view.content = [] := by
  have h1 : down (nodesOf id sb.mem) 1 [(0, sb.image.etreeRoot)] = [(0, leafbuf)] := by
    simp [down, kids, rekey, hroot, nodesOf_node hn]
  have hslots : sb.view.slots = [(0, leafbuf)] := by
    show down (nodesOf id sb.mem) sb.image.etreeLevels [(0, sb.image.etreeRoot)] = _
    rw [hlev, h1]
  have hleaf : leafAt sb.mem leafbuf = initLeaf sb.allocsize := leafAt_leaf hl
  have hcont : sb.view.content = [] := by
    show contentOf sb.mem sb.view.slots = []
    rw [hslots, contentOf_cons, hleaf]
    rfl
  refine ⟨⟨⟨hr, ⟨?_, ?_, ?_⟩, ?_⟩, ⟨?_, ?_, ?_⟩, hcap, by omega, ?_, hlisted, fun _ => ⟨?_, ?_, ?_, ?_⟩⟩, hcont⟩
  · intro i hi x hx
    rw [hlev] at hi
    rw [show i = 0 by omega, down, List.mem_singleton] at hx
    rw [hx, hroot]
    exact ⟨_, hn, by simp, by simp; omega⟩
  · intro x hx
    rw [hlev, h1, List.mem_singleton] at hx
    exact ⟨_, by rw [hx]; exact hl⟩
  · rw [hlev, h1]
    simp
  · intro s hs
    obtain ⟨i, hi, x, hx, rfl⟩ := View.mem_addresses.1 hs
    change i ≤ sb.image.etreeLevels at hi
    change x ∈ down (nodesOf id sb.mem) i [(0, sb.image.etreeRoot)] at hx
    rw [hlev] at hi
    refine hplace x.2 ?_
    rcases Nat.le_one_iff_eq_zero_or_eq_one.1 hi with rfl | rfl
    · rw [down, List.mem_singleton] at hx
      exact .inl (by rw [hx, hroot])
    · rw [h1, List.mem_singleton] at hx
      exact .inr (by rw [hx])
  · rw [hslots]
    exact List.pairwise_singleton _ _
  · rw [hslots]
    intro x hx m hm
    rw [List.mem_singleton] at hx
    rw [hx, hleaf] at hm
    cases hm
  · rw [hslots]
    intro x hx
    rw [List.mem_singleton] at hx
    rw [hx, hleaf]
    exact ⟨rfl, rfl, hsize, List.Pairwise.nil, by simp [initLeaf], by simp [initLeaf]⟩
  all_goals
    rw [hcont]
    simp [chunksOf]

/-- What `init_super` leaves. -/
private theorem initTree_spec (hbits : 9 ≤ cfg.bits) (h : initTree (cfg.blankStore blank org) = some sb) :
    Store cfg.reserved sb ∧ sb.view.content = [] ∧ AllHome sb ∧ sb.dev = (cfg.blankStore blank org).dev ∧
      sb.core = ((cfg.blankStore blank org).reroot sb.image.etreeRoot sb.image.etreeLevels).core ∧
      sb.sbDirty = true := by
  simp only [initTree, newLeaf, newNode, Option.bind_eq_bind, Option.bind_eq_some_iff, Option.map_eq_some_iff, Prod.exists,
    Prod.mk.injEq, pure, Option.some.injEq] at h
  obtain ⟨_, sb2, ⟨leafbuf, sb1, ha, rfl, rfl⟩, _, sb4, ⟨rootbuf, sb3, ha', rfl, rfl⟩, rfl⟩ := h
  have hres : Reserved cfg.reserved (cfg.blankStore blank org) := blankStore_reserved (reserved_le ha)
  have hplaced : BitmapsPlaced (cfg.blankStore blank org) := by
    have hbase : 0 < cfg.bitmapBase := Nat.div_pos (by omega) (Nat.two_pow_pos _)
    exact ⟨hbase, by show 0 < cfg.bitmapBase + _; omega⟩
  have hpos : ∀ s, cfg.reserved ≤ s → 0 < s := fun s hs => by
    have := hres.base
    have := hres.metaArea
    omega
  have hsize : sb1.allocsize = 2 ^ cfg.bits := core_allocsize (allocChunk_spec hres ha).1.core
  -- the leaf, then the root
  obtain ⟨hlR, hlF, hlT, hg1, -, hlev1⟩ := newBlock_spec hres ha (.leaf (initLeaf sb1.allocsize))
  have he1 := (edits_allocChunk hplaced ha).trans (edits_put sb1 leafbuf (.leaf (initLeaf sb1.allocsize))
    (hpos _ hlR) rfl)
  have hm1 : (sb1.put leafbuf (.leaf (initLeaf sb1.allocsize))).mem leafbuf = .leaf (initLeaf (2 ^ cfg.bits)) := by
    rw [Sb.put_mem, Function.update_self, hsize]
  generalize sb1.put leafbuf (.leaf (initLeaf sb1.allocsize)) = sbA at *
  have hresA := hg1.reserved hres
  obtain ⟨hrR, hrF, hrT, hg2, -, hlev2⟩ := newBlock_spec hresA ha' (.node [])
  have he2 := he1.trans ((edits_allocChunk (he1.fixed.bitmapsPlaced hplaced) ha').trans
    (edits_put sb3 rootbuf (.node []) (hpos _ hrR) rfl))
  have hd2 : (sb3.put rootbuf (.node [])).sbDirty = true := by
    obtain ⟨-, -, -, rfl⟩ := allocChunk_found (hresA.lastAlloc .metadata) ha'
    rw [Sb.put_sbDirty]
    rfl
  have hm2 : (sb3.put rootbuf (.node [])).mem leafbuf = .leaf (initLeaf (2 ^ cfg.bits)) := by
    rw [hg2.mem leafbuf hlR hlT (by simp), hm1]
  have hne : leafbuf ≠ rootbuf := fun h => hrF (h ▸ hlT)
  generalize sb3.put rootbuf (.node []) = sbB at *
  have hresB := hg2.reserved hresA
  have hg3 := grown_put hresB hrR (.node [⟨0, leafbuf⟩])
  have he3 := he2.trans (edits_put sbB rootbuf (.node [⟨0, leafbuf⟩]) (hpos _ hrR) rfl)
  have hd3 := (sbB.put_sbDirty rootbuf (.node [⟨0, leafbuf⟩])).trans hd2
  have hm3 := sbB.put_mem rootbuf (.node [⟨0, leafbuf⟩])
  have hs3 := sbB.put_sync rootbuf (.node [⟨0, leafbuf⟩])
  have himg3 := (sbB.put_fixed rootbuf (.node [⟨0, leafbuf⟩])).2.2.2.2.1
  generalize sbB.put rootbuf (.node [⟨0, leafbuf⟩]) = sbC at *
  have hlevC : sbC.image.etreeLevels = 1 := by rw [himg3, hlev2, hlev1]; rfl
  have hh3 := he3.allHome blankStore_allHome
  have hg4 := grown_reroot cfg.reserved sbC rootbuf (Nat.le_refl sbC.image.etreeLevels)
  have hh4 : AllHome (sbC.reroot rootbuf sbC.image.etreeLevels) := ⟨hh3.home, hh3.deferring, hh3.noDefer, hh3.journaled⟩
  have hput := setBufferDirty_eq_put (sbC.reroot rootbuf sbC.image.etreeLevels) leafbuf
  change setBufferDirty { sbC with image := { sbC.image with etreeRoot := rootbuf } } leafbuf = _ at hput
  rw [hput]
  have hleafC : (sbC.reroot rootbuf sbC.image.etreeLevels).mem leafbuf = .leaf (initLeaf (2 ^ cfg.bits)) := by
    show sbC.mem leafbuf = _
    rw [hm3, Function.update_of_ne hne, hm2]
  have hrootC : (sbC.reroot rootbuf sbC.image.etreeLevels).mem rootbuf = .node [⟨0, leafbuf⟩] := by
    show sbC.mem rootbuf = _
    rw [hm3, Function.update_self]
  have hg5 := grown_put (hg4.reserved (hg3.reserved hresB)) hlR
    ((sbC.reroot rootbuf sbC.image.etreeLevels).mem leafbuf)
  have hgall := (((hg1.trans hg2).trans hg3).trans hg4).trans hg5
  have himg5 := ((sbC.reroot rootbuf sbC.image.etreeLevels).put_fixed leafbuf
    ((sbC.reroot rootbuf sbC.image.etreeLevels).mem leafbuf)).2.2.2.2.1
  have hd5 := (sbC.reroot rootbuf sbC.image.etreeLevels).put_sbDirty leafbuf
    ((sbC.reroot rootbuf sbC.image.etreeLevels).mem leafbuf)
  have hm5 := (sbC.reroot rootbuf sbC.image.etreeLevels).put_mem leafbuf
    ((sbC.reroot rootbuf sbC.image.etreeLevels).mem leafbuf)
  rw [Function.update_eq_self] at hm5
  have hh5 := (edits_put (sbC.reroot rootbuf sbC.image.etreeLevels) leafbuf
    ((sbC.reroot rootbuf sbC.image.etreeLevels).mem leafbuf) (hpos _ hlR) (by rw [hleafC]; rfl)).allHome hh4
  have hs5 := (sbC.reroot rootbuf sbC.image.etreeLevels).put_sync leafbuf
    ((sbC.reroot rootbuf sbC.image.etreeLevels).mem leafbuf)
  have hsr : (sbC.reroot rootbuf sbC.image.etreeLevels).SyncAt rootbuf := hs3
  have hsr5 := hsr.put leafbuf ((sbC.reroot rootbuf sbC.image.etreeLevels).mem leafbuf)
  generalize (sbC.reroot rootbuf sbC.image.etreeLevels).put leafbuf
    ((sbC.reroot rootbuf sbC.image.etreeLevels).mem leafbuf) = sbF at *
  have hsizeF : sbF.allocsize = 2 ^ cfg.bits := hgall.allocsize
  have hpow : 2 ^ 9 ≤ 2 ^ cfg.bits := Nat.pow_le_pow_right (by omega) hbits
  have htakenF : ∀ s, s = rootbuf ∨ s = leafbuf → sbF.Placed cfg.reserved s := by
    rintro s (rfl | rfl)
    · exact ⟨hrR, hg5.taken _ (hg4.taken _ (hg3.taken _ hrT)), hsr5⟩
    · exact ⟨hlR, hg5.taken _ (hg4.taken _ (hg3.taken _ (hg2.taken _ hlT))), hs5⟩
  obtain ⟨h1, h2⟩ := store_single (hgall.reserved hres) (by rw [himg5]; rfl) (by rw [himg5]; exact hlevC)
    (by rw [hm5]; exact hrootC) (by rw [hm5, hsizeF]; exact hleafC) htakenF
    (by rw [hgall.allocPerNode]; show 2 ≤ (2 ^ cfg.bits - 8) / 16; omega) (by omega) fun s hs => by
      rcases hgall.listed s hs with hs | hs | hs | hs
      · rcases hs with hs | hs <;> cases hs
      · exact .inl hs
      · simp only [List.nil_append, List.append_nil, List.singleton_append, List.mem_cons, List.not_mem_nil,
          or_false] at hs
        exact .inr (htakenF s hs).2.1
      · exact .inr hs.2
  exact ⟨h1, h2, hh5, hgall.dev, hgall.core, hd5.trans hd3⟩

/-! ### The started server -/

/-- What holds when the server starts on a freshly initialised store. -/
structure Started (cfg : Config) (org : Nat → D) (sb : Sb D) : Prop where
  store : Store cfg.reserved sb
  content : sb.view.content = []
  snapshots : sb.image.snapshots = 0
  noCopy : sb.copyChunks = 0
  source : sb.sourceChunk = 0
  combined : sb.combined = decide (cfg.snapchunks = 0)
  size : sb.bitmapSize .metadata = calcBitmapBlocks cfg.bits cfg.metachunks * 2 ^ (cfg.bits + 3)
  block : sb.image.snapdata.allocsizeBits = cfg.bits
  origin : ∀ c, sb.dev .orgdev c = .data (org c)

/-- A restart after a clean shutdown finds the store as it was. -/
private theorem Store.started {R : Nat} (h : Store R sb) (hh : AllHome sb) (hclean : sb.dirtyBuffers = [])
    (hsaved : sb.diskSuper = sb.image) (deferring : Bool) :
    Store R (startServer sb deferring) ∧ (startServer sb deferring).view = sb.view := by
  have hmem : sb.dev .metadev = sb.mem := funext fun s => (hh.home s).resolve_left (by simp [hclean])
  have himg : (startServer sb deferring).image = sb.image := hsaved
  have hview : (startServer sb deferring).view = sb.view := by
    show (⟨sb.dev .metadev, sb.diskSuper.etreeRoot, sb.diskSuper.etreeLevels⟩ : View D) = _
    rw [hmem, hsaved]
    rfl
  have hdef : ∀ c, isDeferredAlloc (startServer sb deferring) c = false := by
    intro c
    simp [isDeferredAlloc, chunkWithin, startServer, restart]
  have hdef0 : ∀ c, isDeferredAlloc sb c = false := by
    intro c
    have := hh.noDefer
    simp [isDeferredAlloc, chunkWithin, this.1, this.2]
  have hmem' : (startServer sb deferring).mem = sb.mem := hmem
  have hasi : ∀ as, (startServer sb deferring).asi as = sb.asi as := by
    intro as
    unfold Sb.asi Sb.combined
    rw [himg]
  have htaken : ∀ c, sb.Taken c → (startServer sb deferring).Taken c := by
    intro c hc
    unfold Sb.Taken Sb.bitmapSize Sb.marked Sb.bitmapBlock Sb.bitmapShift at *
    rw [hasi, hmem', himg, hdef]
    rwa [hdef0] at hc
  have hshift : (startServer sb deferring).bitmapShift = sb.bitmapShift := by
    unfold Sb.bitmapShift; rw [himg]
  have hsize : ∀ as, (startServer sb deferring).bitmapSize as = sb.bitmapSize as := by
    intro as
    unfold Sb.bitmapSize
    rw [hasi, hshift]
  have hlisted : ∀ s, ¬(startServer sb deferring).Listed s := by
    rintro s (hs | hs) <;> cases hs
  have hcomb : (startServer sb deferring).combined = sb.combined := by unfold Sb.combined; rw [himg]
  have hsync : ∀ s ∈ sb.view.addresses, (startServer sb deferring).SyncAt s := by
    intro s hs
    refine .inr ?_
    rw [hmem']
    exact (h.placed s hs).2.2.resolve_left (by simp [hclean])
  have hr := h.reserved
  have hres : Reserved R (startServer sb deferring) := by
    refine ⟨fun c hc => htaken c (hr.taken c hc), ?_, ?_, ?_, ?_, fun as => ?_, fun c hc => ?_⟩
    · rw [himg]; exact hr.metaArea
    · rw [hcomb, himg]; exact hr.snapArea
    · rw [hcomb, himg]; exact hr.apart
    · rw [himg]; exact hr.base
    · rw [hasi, hsize]; exact hr.lastAlloc as
    · rw [hdef] at hc; cases hc
  refine ⟨⟨⟨hres, ?_, ?_⟩, ?_, h.cap, himg ▸ h.deep, ?_, fun s hs => absurd hs (hlisted s), fun hc => ?_⟩, hview⟩
  · rw [hmem', himg]; exact h.planted
  · rw [hview]
    exact fun s hs => ⟨(h.placed s hs).1, htaken s (h.placed s hs).2.1, hsync s hs⟩
  · have : (startServer sb deferring).allocsize = sb.allocsize := by unfold Sb.allocsize; rw [himg]
    rw [hview, hmem', this]
    exact h.keyed
  · rw [hview, hsize]; exact h.inside
  · have ha := h.apart (by rw [← hcomb]; exact hc)
    refine ⟨by rw [hview]; exact ha.nodup, ?_, ?_, fun e _ => hlisted e⟩
    · rw [hview]
      exact fun e he => ⟨(ha.placed e he).1, htaken e (ha.placed e he).2⟩
    · rw [hview]; exact ha.notTree

/-- What `init_snapstore` leaves: everything is at home, and the superblock is saved. -/
structure Saved (cfg : Config) (blank : D) (org : Nat → D) (sb : Sb D) : Prop where
  store : Store cfg.reserved sb
  content : sb.view.content = []
  home : AllHome sb
  clean : sb.dirtyBuffers = []
  saved : sb.diskSuper = sb.image
  core : sb.core = ((cfg.blankStore blank org).reroot sb.image.etreeRoot sb.image.etreeLevels).core
  origin : ∀ c, sb.dev .orgdev c = .data (org c)

/-- The journal is no part of the tree. -/
theorem initJournal_eq (sb : Sb D) : ∃ next journal, initJournal sb =
    { sb with image := { sb.image with journalNext := next }, journal := journal } :=
  ⟨_, _, writeJournal_eq sb ((List.range sb.image.journalSize).map fun i => .commit (initCommit sb i))⟩

private theorem initSnapstore_saved (hbits : 9 ≤ cfg.bits) (h : initSnapstore cfg blank org = some sb) :
    Saved cfg blank org sb := by
  simp only [initSnapstore, saveSbCheck, Option.bind_eq_bind, Option.bind_eq_some_iff, Option.map_eq_some_iff] at h
  obtain ⟨sb1, h1, sb2, h2, rfl⟩ := h
  obtain ⟨hs1, hc1, hh1, hdev1, hcore1, hd1⟩ := initTree_spec hbits h1
  obtain ⟨next, journal, hj⟩ := initJournal_eq sb1
  have hq : Quiet cfg.reserved [] sb1 (initJournal sb1) := by
    rw [hj]
    exact quiet_same rfl rfl (fun _ => rfl) rfl rfl (fun _ h => h) (fun _ h => h) fun _ _ => .inl rfl
  have hhj : AllHome (initJournal sb1) := by
    rw [hj]
    exact ⟨hh1.home, hh1.deferring, hh1.noDefer, hh1.journaled⟩
  have hdj : (initJournal sb1).sbDirty = true := by rw [hj]; exact hd1
  have horg : (initJournal sb1).dev = (cfg.blankStore blank org).dev := by rw [hj]; exact hdev1
  obtain ⟨hsj, hcontj, -⟩ := hs1.quiet hq
  have hq2 := quiet_commitDeferredAllocs hsj.reserved h2
  obtain ⟨hs2, hc2, -⟩ := hsj.quiet hq2
  obtain ⟨hh2, hclean2, hd2⟩ := hhj.commitDeferred h2
  obtain ⟨hs3, hc3, -⟩ := hs2.quiet (quiet_saveSb cfg.reserved sb2)
  have hsave : saveSb sb2 = { sb2 with diskSuper := sb2.image, sbDirty := false } := by
    unfold saveSb
    rw [if_pos (by rw [hd2]; exact hdj)]
  have hcore : sb2.core = ((cfg.blankStore blank org).reroot sb1.image.etreeRoot sb1.image.etreeLevels).core := by
    rw [hq2.core, hq.core, hcore1]
  have hroot : sb2.image.etreeRoot = sb1.image.etreeRoot := congrArg Core.etreeRoot hcore
  have hlev : sb2.image.etreeLevels = sb1.image.etreeLevels := congrArg Core.etreeLevels hcore
  rw [← hroot, ← hlev] at hcore
  rw [hsave] at hs3 hc3 ⊢
  refine ⟨hs3, by rw [hc3, hc2, hcontj, hc1], ⟨hh2.home, hh2.deferring, hh2.noDefer, hh2.journaled⟩, hclean2, rfl, hcore,
    fun c => ?_⟩
  rcases hq2.dev .orgdev c with hd | ⟨hd, -⟩
  · show sb2.dev .orgdev c = _
    rw [hd, horg]
    rfl
  · cases hd

/-- `init_snapstore` and the start of the server. -/
theorem initSnapstore_started (hbits : 9 ≤ cfg.bits) (h : initSnapstore cfg blank org = some sb) (deferring : Bool) :
    Started cfg org (startServer sb deferring) := by
  have hs := initSnapstore_saved hbits h
  have hsnaps : sb.image.snapshots = 0 := congrArg Core.snapshots hs.core
  have hcomb : sb.combined = decide (cfg.snapchunks = 0) := by
    have : sb.combined = ((cfg.blankStore blank org).reroot _ _).combined := core_combined hs.core
    exact this
  obtain ⟨hst, hview⟩ := hs.store.started hs.home hs.clean hs.saved deferring
  have himg : (startServer sb deferring).image = sb.image := hs.saved
  refine ⟨hst, by rw [hview]; exact hs.content, by rw [himg]; exact hsnaps, rfl, rfl, ?_, ?_,
    himg ▸ (core_snapdata hs.core).2.2.2, hs.origin⟩
  · rw [← hcomb]
    unfold Sb.combined
    rw [himg]
  · have : sb.bitmapSize .metadata = ((cfg.blankStore blank org).reroot _ _).bitmapSize .metadata :=
      core_bitmapSize hs.core _
    refine Eq.trans ?_ this
    unfold Sb.bitmapSize Sb.bitmapShift Sb.asi
    rw [himg]

end

end Ddsnap
