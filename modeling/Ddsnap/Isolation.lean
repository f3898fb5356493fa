import Ddsnap.Fresh
import Ddsnap.MakeUnique

/-!
# Snapshot isolation

What a snapshot store is for: the origin and every snapshot are independent volumes, and a new snapshot starts out as a
copy of the origin (`Versions`).  A run serves writes to the origin, writes to snapshots and the creation of snapshots,
and each client carries out the writes that it was granted before the next request is served.  As long as nothing is
deleted and nothing fails, what a snapshot reads on the devices of a combined store is the content of its volume.
-/

namespace Ddsnap

variable {D : Type}

/-! ### Volumes -/

/-- The content of the origin, and of the snapshots by their tags. -/
structure Versions (D : Type) where
  origin : Nat → D
  snaps : Nat → Option (Nat → D)

/-- Some chunks of a volume are overwritten. -/
def overwrite (volume : Nat → D) (chunks : List Nat) (data : Nat → D) (c : Nat) : D :=
  if c ∈ chunks then data c else volume c

def Versions.writeOrigin (v : Versions D) (chunks : List Nat) (data : Nat → D) : Versions D :=
  { v with origin := overwrite v.origin chunks data }

def Versions.writeSnapshot (v : Versions D) (tag : Nat) (chunks : List Nat) (data : Nat → D) : Versions D :=
  { v with snaps := Function.update v.snaps tag ((v.snaps tag).map fun volume => overwrite volume chunks data) }

def Versions.create (v : Versions D) (tag : Nat) : Versions D :=
  { v with snaps := Function.update v.snaps tag (some v.origin) }

/-! ### Requests -/

/-- A request with the data that the client writes when it is granted. -/
inductive Request (D : Type) where
  | originWrite (ranges : List (Nat × Nat)) (data : Nat → D)
  | snapshotWrite (tag : Nat) (ranges : List (Nat × Nat)) (data : Nat → D)
  | create (tag : Nat)

/-- The client writes its chunks to the chunks of a device that it was granted for them. -/
def clientWrites (sb : Sb D) (device : Device) (data : Nat → D) (grants : List (Nat × Nat)) : Sb D :=
  grants.foldl (fun sb g => clientWrite sb device g.2 (data g.1)) sb

/-- The chunks of a snapshot write that were granted, with their exceptions. -/
def grantsOf (chunks : List Nat) (exceptions : List (Option Nat)) : List (Nat × Nat) :=
  (chunks.zip exceptions).filterMap fun p => p.2.map fun e => (p.1, e)

/-- A server with the volumes that it stands for. -/
structure Served (D : Type) where
  sb : Sb D
  spec : Versions D

/-- A request is served, and the client carries out what it was granted. -/
def Served.step (st : Served D) : Request D → Option (Served D)
  | .originWrite ranges data => do
    let (ok, sb) ← originWrite st.sb ranges
    if ok then
      return ⟨clientWrites sb .orgdev data ((rangeChunks ranges).map fun c => (c, c)),
        st.spec.writeOrigin (rangeChunks ranges) data⟩
    else return ⟨sb, st.spec⟩
  | .snapshotWrite tag ranges data => do
    let (exceptions, sb) ← snapshotWrite st.sb tag ranges
    let grants := grantsOf (rangeChunks ranges) exceptions
    return ⟨clientWrites sb sb.snapdev data grants, st.spec.writeSnapshot tag (grants.map Prod.fst) data⟩
  | .create tag => do
    let (bit, _) ← createSnapshot st.sb tag
    let sb ← createMessage st.sb tag
    return ⟨sb, if bit.isSome then st.spec.create tag else st.spec⟩

/-- The chunks of a request are served without a deletion and without a failure: there is free space before each of them,
and a leaf that is split holds two map entries. -/
def smooth (snapbit : Option Nat) : Sb D → List Nat → Bool
  | _, [] => true
  | sb, c :: chunks =>
    decide (c < 2 ^ 32) && decide (EnoughRoom sb) && decide (WideSplit sb c snapbit) &&
      match makeUnique sb c snapbit with
      | some (some _, sb) => smooth snapbit sb chunks
      | _ => false

/-- A request is served without a deletion and without a failure. -/
def Served.Ok (st : Served D) : Request D → Prop
  | .originWrite ranges _ => smooth none st.sb (rangeChunks ranges) = true
  | .snapshotWrite tag ranges _ =>
    ∀ slot ∈ findSnap st.sb tag, smooth (some (st.sb.image.snaplist slot).bit) st.sb (rangeChunks ranges) = true
  | .create _ => st.sb.image.snapshots < maxSnapshots ∨ usecount st.sb (st.sb.image.snaplist (findUnused st.sb)) ≠ 0

instance (st : Served D) : (r : Request D) → Decidable (st.Ok r)
  | .originWrite _ _ => inferInstanceAs (Decidable (_ = _))
  | .snapshotWrite tag _ _ => inferInstanceAs (Decidable (∀ slot ∈ findSnap st.sb tag, _))
  | .create _ => inferInstanceAs (Decidable (_ ∨ _))

/-- The sizes that `ddsnap initialize` accepts for a combined store: blocks of 512 bytes or more whose size is a 32-bit
number, and a device whose size in bytes is a 64-bit number. -/
structure Config.Combined (cfg : Config) : Prop where
  combined : cfg.snapchunks = 0
  sector : 9 ≤ cfg.bits
  block : cfg.bits < 32
  device : cfg.metachunks * 2 ^ cfg.bits < 2 ^ 64

/-- A server that was started on a freshly initialised combined store. -/
def Served.Init (st : Served D) : Prop :=
  ∃ cfg blank sb deferring, Config.Combined cfg ∧ initSnapstore cfg blank st.spec.origin = some sb ∧
    st.sb = startServer sb deferring ∧ st.spec.snaps = fun _ => none

/-- What a client of the snapshot with a bit reads: the chunk that `test_unique` finds, or else the chunk of the
origin. -/
def readSnapshot (sb : Sb D) (bit c : Nat) : Option (Block D) :=
  (testUnique sb c (some bit)).map fun found =>
    match found.2 with
    | some e => sb.dev sb.snapdev e
    | none => sb.dev .orgdev c

/-! ### The writes of the clients -/

section
variable {sb : Sb D} {device d : Device} {data : Nat → D} {grants : List (Nat × Nat)} {s : Nat}

private theorem clientWrites_cons (sb : Sb D) (device : Device) (data : Nat → D) (g : Nat × Nat)
    (grants : List (Nat × Nat)) : clientWrites sb device data (g :: grants) =
      clientWrites (clientWrite sb device g.2 (data g.1)) device data grants := rfl

private theorem clientWrites_eq (sb : Sb D) (device : Device) (data : Nat → D) (grants : List (Nat × Nat)) :
    clientWrites sb device data grants = { sb with dev := (clientWrites sb device data grants).dev } := by
  induction grants generalizing sb with
  | nil => rfl
  | cons g grants ih =>
    rw [clientWrites_cons, ih]
    rfl

private theorem clientWrites_outside (h : d = device → ∀ g ∈ grants, g.2 ≠ s) :
    (clientWrites sb device data grants).dev d s = sb.dev d s := by
  induction grants generalizing sb with
  | nil => rfl
  | cons g grants ih =>
    rw [clientWrites_cons, ih fun hd g' hg' => h hd g' (by simp [hg'])]
    unfold clientWrite
    by_cases hd : d = device
    · subst hd
      have := h rfl g (by simp)
      simp [Function.update_of_ne (Ne.symm this)]
    · simp [Function.update_of_ne hd]

private theorem clientWrites_granted {x : D} (hs : ∃ g ∈ grants, g.2 = s) (hx : ∀ g ∈ grants, g.2 = s → data g.1 = x) :
    (clientWrites sb device data grants).dev device s = .data x := by
  induction grants generalizing sb with
  | nil => simp at hs
  | cons g grants ih =>
    rw [clientWrites_cons]
    by_cases hrest : ∃ g' ∈ grants, g'.2 = s
    · exact ih hrest fun g' hg' => hx g' (by simp [hg'])
    · -- the last write to the chunk is the first grant
      push Not at hrest
      rw [clientWrites_outside fun _ => hrest]
      obtain ⟨g', hg', rfl⟩ := hs
      rcases List.mem_cons.1 hg' with rfl | hg'
      · simp [clientWrite, hx g' (by simp) rfl]
      · exact absurd rfl (hrest g' hg')

end

/-! ### The chunks of a request -/

section
variable {R c r bit slot : Nat} {sb sb' : Sb D} {snapbit : Option Nat} {org : Nat → Block D}
  {reads : Nat → Nat → Block D} {chunks : List Nat}

theorem smooth_cons (hs : smooth snapbit sb (c :: chunks) = true) :
    c < 2 ^ 32 ∧ WideSplit sb c snapbit ∧ ∃ r sb', makeUnique sb c snapbit = some (some r, sb') ∧
      uniqueException sb c snapbit = some (some r, sb') ∧ smooth snapbit sb' chunks = true := by
  simp only [smooth, Bool.and_eq_true, decide_eq_true_eq] at hs
  obtain ⟨⟨⟨hc, hroom⟩, hw⟩, hs⟩ := hs
  refine ⟨hc, hw, ?_⟩
  split at hs
  · rename_i r sb' hm
    exact ⟨r, sb', hm, makeUnique_enough hroom c snapbit ▸ hm, hs⟩
  · cases hs

private theorem Serving.makeUnique (h : Serving R snapbit org reads sb)
    (hlive : ∀ b ∈ snapbit, hasBit sb.snapmask b = true) (hs : smooth snapbit sb (c :: chunks) = true) :
    ∃ r sb', makeUnique sb c snapbit = some (some r, sb') ∧ smooth snapbit sb' chunks = true ∧
      Serving R snapbit org reads sb' ∧ SameSnaps sb sb' ∧ Granted sb' c r snapbit ∧
      ∀ c' r', Granted sb c' r' snapbit → Granted sb' c' r' snapbit := by
  obtain ⟨hc, hw, r, sb', hm, hu, hs⟩ := smooth_cons hs
  exact ⟨r, sb', hm, hs, h.unique hlive hc hw hu⟩

theorem makeRoom_idle
    (h : sb.image.snapshots < maxSnapshots ∨ usecount sb (sb.image.snaplist (findUnused sb)) ≠ 0) :
    makeRoom sb = some sb := by
  unfold makeRoom
  rw [if_neg]
  rintro ⟨h1, h2⟩
  rcases h with h | h
  · omega
  · exact h h2

/-- The loop of an origin write. -/
private theorem originChunks_spec {ok : Bool} (h : Serving R none org reads sb) (hs : smooth none sb chunks = true)
    (ho : originChunks sb chunks = some (ok, sb')) :
    ok = true ∧ Serving R none org reads sb' ∧ SameSnaps sb sb' ∧ (∀ c ∈ chunks, Granted sb' c 0 none) ∧
      ∀ c r, Granted sb c r none → Granted sb' c r none := by
  induction chunks generalizing sb ok with
  | nil =>
    simp only [originChunks, Option.some.injEq, Prod.mk.injEq] at ho
    obtain ⟨rfl, rfl⟩ := ho
    exact ⟨rfl, h, .refl _, by simp, fun _ _ hg => hg⟩
  | cons c chunks ih =>
    obtain ⟨r, sb1, hm, hs1, h1, hsame, hgr, hkeep⟩ := h.makeUnique (by simp) hs
    simp only [originChunks, hm, Option.bind_eq_bind, Option.bind_some, Option.bind_eq_some_iff, Prod.exists, pure,
      Option.some.injEq, Prod.mk.injEq] at ho
    obtain ⟨ok1, sb2, ho1, hok, rfl⟩ := ho
    obtain ⟨rfl, h2, hsame2, hgr2, hkeep2⟩ := ih h1 hs1 ho1
    refine ⟨hok.symm, h2, hsame.trans hsame2, fun c' hc' => ?_, fun c' r' hg => hkeep2 c' r' (hkeep c' r' hg)⟩
    rcases List.mem_cons.1 hc' with rfl | hc'
    · exact hkeep2 c' r hgr
    · exact hgr2 c' hc'

/-- The loop of a snapshot write. -/
private theorem snapshotChunks_spec {exceptions : List (Option Nat)} (h : Serving R (some bit) org reads sb)
    (hbit : (sb.image.snaplist slot).bit = bit) (hlive : hasBit sb.snapmask bit = true)
    (hs : smooth (some bit) sb chunks = true) (ho : snapshotChunks slot sb chunks = some (exceptions, sb')) :
    Serving R (some bit) org reads sb' ∧ SameSnaps sb sb' ∧ (grantsOf chunks exceptions).map Prod.fst = chunks ∧
      (∀ g ∈ grantsOf chunks exceptions, Granted sb' g.1 g.2 (some bit)) ∧
      ∀ c r, Granted sb c r (some bit) → Granted sb' c r (some bit) := by
  induction chunks generalizing sb exceptions with
  | nil =>
    simp only [snapshotChunks, Option.some.injEq, Prod.mk.injEq] at ho
    obtain ⟨rfl, rfl⟩ := ho
    exact ⟨h, .refl _, rfl, by simp [grantsOf], fun _ _ hg => hg⟩
  | cons c chunks ih =>
    obtain ⟨r, sb1, hm, hs1, h1, hsame, hgr, hkeep⟩ := h.makeUnique (by simpa using hlive) hs
    have hsq : isSquashed (sb.image.snaplist slot) = false := by
      have := hasBit_lt hlive
      simp only [isSquashed, snapshotSquashed, maxSnapshots, decide_eq_false_iff_not, hbit]
      omega
    have hone : snapshotChunk sb slot c = some (some r, sb1) := by
      unfold snapshotChunk
      simp only [hsq, hbit, hm]
      rfl
    simp only [snapshotChunks, hone, Option.bind_eq_bind, Option.bind_some, Option.bind_eq_some_iff, Prod.exists, pure,
      Option.some.injEq, Prod.mk.injEq] at ho
    obtain ⟨es, sb2, ho1, rfl, rfl⟩ := ho
    obtain ⟨h2, hsame2, hfst, hgr2, hkeep2⟩ := ih h1 (by rw [hsame.snaplist]; exact hbit)
      (by rw [hsame.snapmask]; exact hlive) hs1 ho1
    have hcons : grantsOf (c :: chunks) (some r :: es) = (c, r) :: grantsOf chunks es := rfl
    rw [hcons]
    refine ⟨h2, hsame.trans hsame2, by rw [List.map_cons, hfst], fun g hg => ?_,
      fun c' r' hg => hkeep2 c' r' (hkeep c' r' hg)⟩
    rcases List.mem_cons.1 hg with rfl | hg
    · exact hkeep2 c r hgr
    · exact hgr2 g hg

/-- The pending copies are finished. -/
private theorem Serving.finishCopyout (h : Serving R snapbit org reads sb) :
    Serving R none org reads (finishCopyout sb) ∧ (Ddsnap.finishCopyout sb).copyChunks = 0 ∧
      (Ddsnap.finishCopyout sb).exns = sb.exns ∧ SameSnaps sb (Ddsnap.finishCopyout sb) := by
  have hs1 := h.store.finishCopyout
  have hfix : (Ddsnap.finishCopyout sb).view = sb.view ∧ SameSnaps sb (Ddsnap.finishCopyout sb) ∧
      (Ddsnap.finishCopyout sb).combined = sb.combined ∧ (Ddsnap.finishCopyout sb).sourceChunk = sb.sourceChunk ∧
      (Ddsnap.finishCopyout sb).bitmapSize .snapdata = sb.bitmapSize .snapdata ∧
      (Ddsnap.finishCopyout sb).image.snapdata.allocsizeBits = sb.image.snapdata.allocsizeBits := by
    rw [finishCopyout_eq]
    exact ⟨rfl, ⟨rfl, rfl, rfl, rfl, rfl⟩, rfl, rfl, rfl, rfl⟩
  have hidle : (Ddsnap.finishCopyout sb).copyChunks = 0 := by
    unfold Ddsnap.finishCopyout
    split
    · assumption
    · rfl
  have hset : (Ddsnap.finishCopyout sb).dev = sb.settled := rfl
  obtain ⟨hview, hsame, hcomb, hsrc, hsize, hblock⟩ := hfix
  generalize Ddsnap.finishCopyout sb = sb1 at *
  have hex : sb1.exns = sb.exns := by
    unfold Sb.exns
    rw [hview]
  have hsd : sb1.snapdev = sb.snapdev := by unfold Sb.snapdev; rw [hcomb]
  refine ⟨⟨hs1, hcomb.trans h.combined, hsize ▸ h.small, hblock ▸ h.block, ?_, ⟨?_, by simp⟩, ?_, ?_⟩, hidle, hex, hsame⟩
  · intro c
    rw [hex, hsame.snapmask]
    exact h.masks c
  · rw [hidle, hsrc]
    exact h.pending.source.imp (fun h => by omega) id
  · funext s
    rw [hset, settled_outside _ _ fun hd => absurd hd.symm (snapdev_ne_orgdev sb), h.origin]
  · intro b hb c hc
    rw [settled_of_none hidle, hset, ← h.reads b (hsame.snapmask ▸ hb) c hc]
    unfold Sb.readOn
    rw [hex, hsd]

/-- A step that leaves the tree alone writes no chunk of an exception. -/
private theorem Serving.quiet (h : Serving R none org reads sb) (hidle : sb.copyChunks = 0) (hq : Quiet R [] sb sb') :
    Serving R none org reads sb' ∧ sb'.copyChunks = 0 ∧ sb'.exns = sb.exns ∧ SameSnaps sb sb' := by
  obtain ⟨hs', hcont, -⟩ := h.store.quiet hq
  have hcore := hq.core
  have hidle' : sb'.copyChunks = 0 := (congrArg Core.copyChunks hcore).trans hidle
  have hex : sb'.exns = sb.exns := by
    unfold Sb.exns
    rw [hcont]
  have hsame := sameSnaps_of_core hcore
  have horg : ∀ s, sb'.dev .orgdev s = sb.dev .orgdev s := fun s =>
    (hq.dev .orgdev s).resolve_right fun hd => nomatch hd.1
  have hkept : ∀ e ∈ chunksOf sb.view.content, ∀ d, sb'.dev d e = sb.dev d e := by
    intro e he d
    have ha := h.store.apart h.combined
    refine (hq.dev d e).resolve_right fun hd => ?_
    rcases hd.2 with hd | hd
    · exact ha.unlisted e he hd
    · have := (ha.placed e he).1
      omega
  refine ⟨⟨hs', by rw [core_combined hcore, h.combined], ?_, (core_snapdata hcore).2.2.2 ▸ h.block, ?_,
    ⟨?_, by simp⟩, ?_, ?_⟩, hidle', hex, hsame⟩
  · rw [core_bitmapSize hcore]
    exact h.small
  · intro c
    rw [hex, hsame.snapmask]
    exact h.masks c
  · rw [hidle', show sb'.sourceChunk = sb.sourceChunk from congrArg Core.sourceChunk hcore, ← hidle]
    exact h.pending.source
  · exact (funext horg).trans h.origin
  · intro b hb c hc
    rw [hsame.snapmask] at hb
    rw [settled_of_none hidle', ← h.reads b hb c hc, settled_of_none hidle]
    unfold Sb.readOn
    rw [hex, core_snapdev hcore]
    cases hst : storeChunk b (sb.exns c) with
    | none => exact horg c
    | some e =>
      obtain ⟨p, hp, rfl⟩ := storeChunk_mem hst
      exact hkept _ (chunk_mem_chunksOf hp) _

private theorem Serving.finish (h : Serving R snapbit org reads sb)
    (hc : commitTransaction (Ddsnap.finishCopyout sb) false = some sb') :
    Serving R none org reads sb' ∧ sb'.copyChunks = 0 ∧ sb'.exns = sb.exns ∧ SameSnaps sb sb' := by
  obtain ⟨h1, hidle1, hex1, hsame1⟩ := h.finishCopyout
  obtain ⟨h2, hidle2, hex2, hsame2⟩ := h1.quiet hidle1 (quiet_commitTransaction h1.store.reserved hc)
  exact ⟨h2, hidle2, hex2.trans hex1, hsame1.trans hsame2⟩

private theorem Serving.next (h : Serving R none org reads sb) (hidle : sb.copyChunks = 0) (snapbit : Option Nat) :
    Serving R snapbit org reads sb :=
  ⟨h.store, h.combined, h.small, h.block, h.masks, ⟨h.pending.source, fun _ _ k hk => by omega⟩, h.origin, h.reads⟩

end

/-! ### The invariant of a run -/

/-- The listed snapshots are live, and have different bits and different tags. -/
structure ListOk (sb : Sb D) : Prop where
  live : ∀ i < sb.image.snapshots, hasBit sb.snapmask (sb.image.snaplist i).bit = true
  bits : ∀ i < sb.image.snapshots, ∀ j < sb.image.snapshots,
    (sb.image.snaplist i).bit = (sb.image.snaplist j).bit → i = j
  tags : ∀ i < sb.image.snapshots, ∀ j < sb.image.snapshots,
    (sb.image.snaplist i).tag = (sb.image.snaplist j).tag → i = j

private theorem ListOk.same {sb sb' : Sb D} (h : ListOk sb) (hs : SameSnaps sb sb') : ListOk sb' := by
  refine ⟨?_, ?_, ?_⟩
  · rw [hs.snapshots, hs.snaplist, hs.snapmask]; exact h.live
  · rw [hs.snapshots, hs.snaplist]; exact h.bits
  · rw [hs.snapshots, hs.snaplist]; exact h.tags

/-- Between two requests, every listed snapshot reads the content of its volume. -/
structure Isolated (R : Nat) (st : Served D) : Prop where
  serving : Serving R none (fun c => .data (st.spec.origin c)) (fun b c => st.sb.readOn st.sb.dev b c) st.sb
  idle : st.sb.copyChunks = 0
  list : ListOk st.sb
  reads : ∀ i < st.sb.image.snapshots, ∃ volume, st.spec.snaps (st.sb.image.snaplist i).tag = some volume ∧
    ∀ c < 2 ^ 32, st.sb.readOn st.sb.dev (st.sb.image.snaplist i).bit c = .data (volume c)

section
variable {R : Nat} {st st' : Served D}

private theorem Isolated.written {sb : Sb D} {org : Nat → Block D} {reads : Nat → Nat → Block D} {spec : Versions D}
    {device : Device} {data : Nat → D} {grants : List (Nat × Nat)} (h : Serving R none org reads sb)
    (hidle : sb.copyChunks = 0) (hlist : ListOk sb)
    (horg : ∀ c, (clientWrites sb device data grants).dev .orgdev c = .data (spec.origin c))
    (hreads : ∀ i < sb.image.snapshots, ∃ volume, spec.snaps (sb.image.snaplist i).tag = some volume ∧
      ∀ c < 2 ^ 32, sb.readOn (clientWrites sb device data grants).dev (sb.image.snaplist i).bit c = .data (volume c)) :
    Isolated R ⟨clientWrites sb device data grants, spec⟩ := by
  generalize hdev : (clientWrites sb device data grants).dev = dev at horg hreads
  have heq : clientWrites sb device data grants = { sb with dev := dev } := by
    rw [← hdev]
    exact clientWrites_eq sb device data grants
  rw [heq]
  refine ⟨⟨h.store.redirect dev sb.sourceChunk sb.destException sb.copyChunks, h.combined, h.small, h.block, h.masks,
    ⟨h.pending.source, by simp⟩, funext horg, fun _ _ _ _ => readOn_settled (by exact hidle) _ _⟩, hidle,
    ⟨hlist.live, hlist.bits, hlist.tags⟩, hreads⟩

/-- A write to the origin. -/
private theorem Isolated.originWrite (h : Isolated R st) {ranges : List (Nat × Nat)} {data : Nat → D}
    (hok : smooth none st.sb (rangeChunks ranges) = true) (hst : st.step (.originWrite ranges data) = some st') :
    Isolated R st' := by
  simp only [Served.step, Ddsnap.originWrite, Option.bind_eq_bind, Option.bind_eq_some_iff, Prod.exists, pure,
    Option.some.injEq, Prod.mk.injEq] at hst
  obtain ⟨ok, sb2, ⟨ok1, sb1, ho, sb, hc, rfl, rfl⟩, hst⟩ := hst
  obtain ⟨rfl, h1, hsame1, hgr, -⟩ := originChunks_spec h.serving hok ho
  obtain ⟨h2, hidle, hex, hsame2⟩ := h1.finish hc
  have hsame := hsame1.trans hsame2
  rw [if_pos rfl] at hst
  cases hst
  have hin : ∀ g : Nat × Nat, g ∈ (rangeChunks ranges).map (fun c => (c, c)) ↔ g.1 = g.2 ∧ g.1 ∈ rangeChunks ranges := by
    intro g
    rw [List.mem_map]
    constructor
    · rintro ⟨c, hc, rfl⟩
      exact ⟨rfl, hc⟩
    · rintro ⟨he, hc⟩
      exact ⟨g.1, hc, Prod.ext rfl he⟩
  generalize (rangeChunks ranges).map (fun c => (c, c)) = grants at hin ⊢
  have hout : ∀ c, c ∉ rangeChunks ranges → (clientWrites sb .orgdev data grants).dev .orgdev c = sb.dev .orgdev c := by
    intro c hm
    refine clientWrites_outside fun _ g hg he => hm ?_
    rw [← he, ← ((hin g).1 hg).1]
    exact ((hin g).1 hg).2
  refine Isolated.written h2 hidle (h.list.same hsame) (fun c => ?_) fun i hi => ?_
  · show _ = Block.data (overwrite st.spec.origin (rangeChunks ranges) data c)
    unfold overwrite
    split
    · rename_i hm
      refine clientWrites_granted ⟨(c, c), (hin _).2 ⟨rfl, hm⟩, rfl⟩ fun g hg he => ?_
      rw [((hin g).1 hg).1, he]
    · rename_i hm
      rw [hout c hm, h2.origin]
  · rw [hsame.snapshots] at hi
    rw [hsame.snaplist]
    obtain ⟨volume, hv, hr⟩ := h.reads i hi
    have hlive := h.list.live i hi
    refine ⟨volume, hv, fun c hc => ?_⟩
    rw [← hr c hc, ← h2.reads _ (by rw [hsame.snapmask]; exact hlive) c hc, settled_of_none hidle]
    unfold Sb.readOn
    cases hs : storeChunk (st.sb.image.snaplist i).bit (sb.exns c) with
    | some e => exact clientWrites_outside fun hd => absurd hd (snapdev_ne_orgdev sb)
    | none =>
      -- a chunk that was written has an exception for every live snapshot
      refine hout c fun hm => ?_
      rw [hex] at hs
      exact hgr c hm _ (by rw [hsame1.snapmask]; exact hlive) hs

/-- A write to a snapshot. -/
private theorem Isolated.snapshotWrite (h : Isolated R st) {tag : Nat} {ranges : List (Nat × Nat)} {data : Nat → D}
    (hok : st.Ok (.snapshotWrite tag ranges data)) (hst : st.step (.snapshotWrite tag ranges data) = some st') :
    Isolated R st' := by
  simp only [Served.step, Ddsnap.snapshotWrite, Option.bind_eq_bind, Option.bind_eq_some_iff, Prod.exists, pure,
    Option.some.injEq, Prod.mk.injEq] at hst
  obtain ⟨exceptions, sb2, ⟨slot, hslot, exs, sb1, ho, sb, hc, rfl, rfl⟩, rfl⟩ := hst
  have hs := hok slot hslot
  obtain ⟨hlt, htag⟩ : slot < st.sb.image.snapshots ∧ (st.sb.image.snaplist slot).tag = tag := by
    have hf := hslot
    unfold findSnap at hf
    exact ⟨List.mem_range.1 (List.mem_of_find?_eq_some hf), by simpa using List.find?_some hf⟩
  generalize hbit : (st.sb.image.snaplist slot).bit = bit at hs
  have hlive : hasBit st.sb.snapmask bit = true := hbit ▸ h.list.live slot hlt
  obtain ⟨h1, hsame1, hfst, hgr, -⟩ :=
    snapshotChunks_spec (h.serving.next h.idle (some bit)) hbit hlive hs ho
  obtain ⟨h2, hidle, hex, hsame2⟩ := h1.finish hc
  have hsame := hsame1.trans hsame2
  rw [hfst]
  generalize grantsOf (rangeChunks ranges) exs = grants at hfst hgr ⊢
  have hown : ∀ g ∈ grants, (⟨maskBit bit, g.2⟩ : Exception) ∈ sb.exns g.1 := by
    intro g hg
    rw [hex]
    exact List.mem_of_find?_eq_some (hgr g hg)
  have hnodup := (h2.store.apart h2.combined).nodup
  refine Isolated.written h2 hidle (h.list.same hsame) (fun c => ?_) fun i hi => ?_
  · rw [clientWrites_outside fun hd => absurd hd.symm (snapdev_ne_orgdev sb), h2.origin]
    rfl
  rw [hsame.snapshots] at hi
  rw [hsame.snaplist]
  obtain ⟨volume, hv, hr⟩ := h.reads i hi
  have hlivei : hasBit sb.snapmask (st.sb.image.snaplist i).bit = true := by
    rw [hsame.snapmask]
    exact h.list.live i hi
  have hold : ∀ c < 2 ^ 32, sb.readOn sb.dev (st.sb.image.snaplist i).bit c = .data (volume c) := by
    intro c hc
    rw [← hr c hc, ← h2.reads _ hlivei c hc, settled_of_none hidle]
  by_cases his : i = slot
  · -- the snapshot that was written
    subst his
    refine ⟨overwrite volume (rangeChunks ranges) data, ?_, fun c hc => ?_⟩
    · show Function.update st.spec.snaps tag _ _ = _
      rw [htag] at hv ⊢
      rw [Function.update_self, hv]
      rfl
    · rw [hbit] at hold ⊢
      unfold overwrite
      split
      · rename_i hm
        rw [← hfst] at hm
        obtain ⟨g, hg, rfl⟩ := List.mem_map.1 hm
        have hst : storeChunk bit (sb.exns g.1) = some g.2 := by
          unfold storeChunk
          rw [hex, hgr g hg]
          rfl
        unfold Sb.readOn
        rw [hst]
        refine clientWrites_granted ⟨g, hg, rfl⟩ fun g' hg' he => ?_
        rw [(exnsAt_inj hnodup (hown g' hg') (hown g hg) he).1]
      · rename_i hm
        rw [← hold c hc]
        unfold Sb.readOn
        cases hst : storeChunk bit (sb.exns c) with
        | none => exact clientWrites_outside fun hd => absurd hd.symm (snapdev_ne_orgdev sb)
        | some e =>
          obtain ⟨p, hp, rfl⟩ := storeChunk_mem hst
          refine clientWrites_outside fun _ g hg he => hm ?_
          rw [← (exnsAt_inj hnodup (hown g hg) hp he).1, ← hfst]
          exact List.mem_map_of_mem hg
  · -- another snapshot shares no exception with it
    have hne : (st.sb.image.snaplist i).bit ≠ bit := fun he => his (h.list.bits i hi slot hlt (he.trans hbit.symm))
    refine ⟨volume, ?_, fun c hc => ?_⟩
    · show Function.update st.spec.snaps tag _ _ = _
      rw [Function.update_of_ne, hv]
      exact fun he => his (h.list.tags i hi slot hlt (he.trans htag.symm))
    · rw [← hold c hc]
      unfold Sb.readOn
      cases hst : storeChunk (st.sb.image.snaplist i).bit (sb.exns c) with
      | none => exact clientWrites_outside fun hd => absurd hd.symm (snapdev_ne_orgdev sb)
      | some e =>
        obtain ⟨p, hp, rfl⟩ := Option.map_eq_some_iff.1 hst
        refine clientWrites_outside fun _ g hg he => hne ?_
        have hpb : hasBit p.share (st.sb.image.snaplist i).bit = true :=
          (and_maskBit_ne (hasBit_lt hlivei)).1 (by simpa using List.find?_some hp)
        obtain ⟨-, rfl⟩ := exnsAt_inj hnodup (hown g hg) (List.mem_of_find?_eq_some hp) he
        rwa [hasBit_maskBit (hasBit_lt hlive), decide_eq_true_eq] at hpb

private theorem Isolated.quiet (h : Isolated R st) {sb : Sb D} (hq : Quiet R [] st.sb sb) : Isolated R
    ⟨sb, st.spec⟩ := by
  obtain ⟨h1, hidle, -, hsame⟩ := h.serving.quiet h.idle hq
  refine ⟨⟨h1.store, h1.combined, h1.small, h1.block, h1.masks, h1.pending, h1.origin,
    fun _ _ _ _ => readOn_settled hidle _ _⟩, hidle, h.list.same hsame, fun i hi => ?_⟩
  · change i < sb.image.snapshots at hi
    rw [hsame.snapshots] at hi
    obtain ⟨volume, hv, hr⟩ := h.reads i hi
    refine ⟨volume, ?_, fun c hc => ?_⟩
    · show st.spec.snaps (sb.image.snaplist i).tag = _
      rw [hsame.snaplist]
      exact hv
    · show sb.readOn sb.dev (sb.image.snaplist i).bit c = _
      rw [hsame.snaplist, ← hr c hc,
        ← h1.reads _ (by rw [hsame.snapmask]; exact h.list.live i hi) c hc, settled_of_none hidle]

/-- A snapshot with a new tag and a bit that was not in use is listed: it reads the origin everywhere. -/
private theorem Isolated.enlist (h : Isolated R st) {snap : Snapshot} (hb : snap.bit < 64)
    (hfree : hasBit st.sb.snapmask snap.bit = false)
    (htags : ∀ i < st.sb.image.snapshots, (st.sb.image.snaplist i).tag ≠ snap.tag) :
    Isolated R ⟨setSbDirty { st.sb with
      snapmask := st.sb.snapmask ||| maskBit snap.bit
      image := { st.sb.image with
        snaplist := Function.update st.sb.image.snaplist st.sb.image.snapshots snap
        snapshots := st.sb.image.snapshots + 1 } }, st.spec.create snap.tag⟩ := by
  generalize hlist : Function.update st.sb.image.snaplist st.sb.image.snapshots snap = snaplist
  have hself : snaplist st.sb.image.snapshots = snap := by rw [← hlist, Function.update_self]
  have hold : ∀ i < st.sb.image.snapshots, snaplist i = st.sb.image.snaplist i := fun i hi => by
    rw [← hlist, Function.update_of_ne (by omega)]
  have hbits : ∀ i < st.sb.image.snapshots, (st.sb.image.snaplist i).bit ≠ snap.bit := fun i hi he => by
    have := h.list.live i hi
    rw [he, hfree] at this
    cases this
  have hsplit : ∀ {i}, i < st.sb.image.snapshots + 1 → i < st.sb.image.snapshots ∨ i = st.sb.image.snapshots :=
    fun hi => by omega
  refine ⟨⟨h.serving.store.relist _ _ _ st.sb.usecount true, h.serving.combined, h.serving.small, h.serving.block,
    fun c => (h.serving.masks c).mono _, ⟨h.serving.pending.source, by simp⟩, h.serving.origin,
    fun _ _ _ _ => readOn_settled (by exact h.idle) _ _⟩, h.idle,
    ⟨fun i hi => ?_, fun i hi j hj he => ?_, fun i hi j hj he => ?_⟩, fun i hi => ?_⟩
  · show hasBit (st.sb.snapmask ||| maskBit snap.bit) (snaplist i).bit = true
    rcases hsplit hi with hi | rfl
    · rw [hasBit_or, hold i hi, h.list.live i hi, Bool.true_or]
    · rw [hasBit_or, hself, hasBit_maskBit hb]
      simp
  · change (snaplist i).bit = (snaplist j).bit at he
    rcases hsplit hi with hi | rfl <;> rcases hsplit hj with hj | rfl
    · rw [hold i hi, hold j hj] at he
      exact h.list.bits i hi j hj he
    · rw [hold i hi, hself] at he
      exact absurd he (hbits i hi)
    · rw [hold j hj, hself] at he
      exact absurd he.symm (hbits j hj)
    · rfl
  · change (snaplist i).tag = (snaplist j).tag at he
    rcases hsplit hi with hi | rfl <;> rcases hsplit hj with hj | rfl
    · rw [hold i hi, hold j hj] at he
      exact h.list.tags i hi j hj he
    · rw [hold i hi, hself] at he
      exact absurd he (htags i hi)
    · rw [hold j hj, hself] at he
      exact absurd he.symm (htags j hj)
    · rfl
  · show ∃ volume, Function.update st.spec.snaps snap.tag (some st.spec.origin) (snaplist i).tag = some volume ∧
      ∀ c < 2 ^ 32, st.sb.readOn st.sb.dev (snaplist i).bit c = .data (volume c)
    rcases hsplit hi with hi | rfl
    · obtain ⟨volume, hv, hr⟩ := h.reads i hi
      rw [hold i hi, Function.update_of_ne (htags i hi)]
      exact ⟨volume, hv, hr⟩
    · rw [hself, Function.update_self]
      refine ⟨st.spec.origin, rfl, fun c _ => ?_⟩
      -- no exception has a bit that was not in use
      have hnone : storeChunk snap.bit (st.sb.exns c) = none := by
        refine (storeChunk_eq_none hb).2 (Bool.eq_false_iff.2 fun hs => ?_)
        obtain ⟨p, hp, hpb⟩ := (hasBit_sharedBy _ _).1 hs
        have := and_not_eq_zero.1 ((h.serving.masks c).live p hp) _ hpb
        rw [hfree] at this
        cases this
      unfold Sb.readOn
      rw [hnone, h.serving.origin]

/-- A snapshot is created. -/
private theorem Isolated.create (h : Isolated R st) {tag : Nat} (hok : st.Ok (.create tag))
    (hst : st.step (.create tag) = some st') : Isolated R st' := by
  have hroom := makeRoom_idle hok
  simp only [Served.step, Option.bind_eq_bind, Option.bind_eq_some_iff, Prod.exists, pure, Option.some.injEq] at hst
  obtain ⟨bit, sb1, hcr, sb, hmsg, rfl⟩ := hst
  unfold createMessage at hmsg
  simp only [hcr, Option.bind_eq_bind, Option.bind_some] at hmsg
  rcases createSnapshot_cases hroom hcr with ⟨rfl, rfl⟩ | ⟨b, snap, rfl, hb, hfree, rfl, rfl, -, htags, rfl⟩
  · cases hmsg
    exact h
  simp only [Option.isSome_some, if_true, saveSbCheck, Option.map_eq_some_iff] at hmsg ⊢
  obtain ⟨sb2, hcd, rfl⟩ := hmsg
  have h1 := h.enlist hb hfree htags
  have hq := quiet_commitDeferredAllocs h1.serving.store.reserved hcd
  exact h1.quiet (hq.comp (quiet_saveSb R sb2))

/-- A freshly initialised combined store. -/
private theorem Served.Init.isolated (h : st.Init) : ∃ R, Isolated R st := by
  obtain ⟨cfg, blank, sb, deferring, hcfg, hinit, hsb, hspec⟩ := h
  have hs := initSnapstore_started hcfg.sector hinit deferring
  rw [← hsb] at hs
  have hcomb : st.sb.combined = true := by rw [hs.combined, hcfg.combined]; rfl
  have hexns : ∀ c, st.sb.exns c = [] := fun c => by unfold Sb.exns; rw [hs.content]; rfl
  have hsize : st.sb.bitmapSize .snapdata ≤ highbit := by
    have hsame : st.sb.bitmapSize .snapdata = st.sb.bitmapSize .metadata := by
      unfold Sb.bitmapSize Sb.asi
      rw [if_pos hcomb]
    have hpow : 2 ^ (cfg.bits + 3) ≤ 2 ^ 34 := Nat.pow_le_pow_right (by omega) (by have := hcfg.block; omega)
    have hchunks : cfg.metachunks < 2 ^ 55 := by
      have h9 : 2 ^ 9 ≤ 2 ^ cfg.bits := Nat.pow_le_pow_right (by omega) hcfg.sector
      have := Nat.mul_le_mul_left cfg.metachunks h9
      have := hcfg.device
      omega
    have hround : calcBitmapBlocks cfg.bits cfg.metachunks * 2 ^ (cfg.bits + 3) ≤
        cfg.metachunks + 2 ^ (cfg.bits + 3) - 1 := Nat.div_mul_le_self _ _
    rw [hsame, hs.size]
    unfold highbit
    omega
  refine ⟨cfg.reserved, ⟨hs.store, hcomb, hsize, hs.block ▸ hcfg.block, fun c => ?_, ⟨.inl ?_, by simp⟩, funext hs.origin,
    fun _ _ _ _ => readOn_settled hs.noCopy _ _⟩, hs.noCopy, ⟨?_, ?_, ?_⟩, ?_⟩
  · rw [hexns]
    exact .nil
  · rw [hs.source, hs.noCopy]
    omega
  all_goals
    intro i hi
    rw [hs.snapshots] at hi
    exact absurd hi (Nat.not_lt_zero i)

private theorem Isolated.step (h : Isolated R st) (r : Request D) (hok : st.Ok r) (hst : st.step r = some st') :
    Isolated R st' := by
  cases r with
  | originWrite ranges data => exact h.originWrite hok hst
  | snapshotWrite tag ranges data => exact h.snapshotWrite hok hst
  | create tag => exact h.create hok hst

private theorem Isolated.readSnapshot (h : Isolated R st) (bit : Nat) {c : Nat} (hc : c < 2 ^ 32) :
    readSnapshot st.sb bit c = some (st.sb.readOn st.sb.dev bit c) := by
  unfold Ddsnap.readSnapshot
  rw [h.serving.store.wellFormed.testUnique_eq hc, Option.map_some, findIn_snd, Option.bind_some]
  unfold Sb.readOn
  cases storeChunk bit (st.sb.exns c) <;> rfl

/-- Every run keeps the invariant. -/
theorem isolated_run (h : Reach.Run Served.step Served.Ok Served.Init st) : ∃ R, Isolated R st :=
  h.invariant (fun _ h0 => h0.isolated) fun _ r _ ⟨R, hR⟩ hok hst => ⟨R, hR.step r hok hst⟩

/-- Snapshot isolation: in every run without deletions and failures, each listed snapshot reads, through `test_unique`,
the content of the origin at the time of its creation, overwritten by its own writes only. -/
theorem snapshot_isolation (h : Reach.Run Served.step Served.Ok Served.Init st) {i c : Nat}
    (hi : i < st.sb.image.snapshots) (hc : c < 2 ^ 32) :
    ∃ volume, st.spec.snaps (st.sb.image.snaplist i).tag = some volume ∧
      readSnapshot st.sb (st.sb.image.snaplist i).bit c = some (.data (volume c)) := by
  obtain ⟨R, hinv⟩ := isolated_run h
  obtain ⟨volume, hv, hr⟩ := hinv.reads i hi
  exact ⟨volume, hv, by rw [hinv.readSnapshot _ hc, hr c hc]⟩

end

/-- A server that was started on the small store; the origin holds its own chunk numbers. -/
def tinyServer : Served Nat :=
  ⟨startServer ((initSnapstore tinyConfig 0 id).getD (tinyConfig.blankStore 0 id)) true, ⟨id, fun _ => none⟩⟩

/-- Two snapshots, with writes to the origin and to both snapshots. -/
def tinyRequests : List (Request Nat) :=
  [.create 7, .originWrite [(5, 2)] fun _ => 100, .snapshotWrite 7 [(6, 2)] fun _ => 200, .create 8,
    .originWrite [(5, 1)] fun _ => 300, .snapshotWrite 8 [(5, 2)] fun _ => 400]

def tinyRun : Served Nat := (Reach.exec Served.step Served.Ok tinyServer tinyRequests).getD tinyServer

private theorem tinyServer_init : tinyServer.Init := by
  have hsome : (initSnapstore tinyConfig 0 (id : Nat → Nat)).isSome = true := by decide +kernel
  obtain ⟨sb, hsb⟩ := Option.isSome_iff_exists.1 hsome
  refine ⟨tinyConfig, 0, sb, true, ⟨rfl, by decide, by decide, by decide⟩, hsb, ?_, rfl⟩
  unfold tinyServer
  rw [hsb]
  rfl

private theorem tinyRun_run : Reach.Run Served.step Served.Ok Served.Init tinyRun :=
  (Reach.Run.start tinyServer_init).exec_getD tinyRequests

theorem snapshot_isolation_two : 1 < tinyRun.sb.image.snapshots ∧ tinyRun.spec.origin 5 = 300 ∧
    ∃ volume, tinyRun.spec.snaps (tinyRun.sb.image.snaplist 1).tag = some volume ∧
      readSnapshot tinyRun.sb (tinyRun.sb.image.snaplist 1).bit 5 = some (.data (volume 5)) :=
  ⟨by decide +kernel, by decide +kernel, snapshot_isolation tinyRun_run (by decide +kernel) (by decide)⟩

/-- The chunks of the exceptions and the blocks of the tree are all different, allocated, and behind the bitmaps.  No
buffer of an exception's chunk waits for a home write, and a block of the tree is dirty or committed. -/
theorem store_chunks_apart {st : Served D} (h : Reach.Run Served.step Served.Ok Served.Init st) :
    (chunksOf st.sb.view.content ++ st.sb.view.addresses).Nodup ∧
      (∀ e ∈ chunksOf st.sb.view.content ++ st.sb.view.addresses, st.sb.Taken e ∧
        st.sb.image.metadata.bitmapBase + st.sb.image.metadata.bitmapBlocks ≤ e) ∧
      (∀ e ∈ chunksOf st.sb.view.content, ¬st.sb.Listed e) ∧ ∀ s ∈ st.sb.view.addresses, st.sb.SyncAt s := by
  obtain ⟨R, hinv⟩ := isolated_run h
  have hstore := hinv.serving.store
  have hapart := hstore.apart hinv.serving.combined
  have harea := hstore.reserved.metaArea
  refine ⟨List.nodup_append.2 ⟨hapart.nodup, hstore.planted.distinct, ?_⟩, fun e he => ?_, hapart.unlisted,
    fun s hs => (hstore.placed s hs).2.2⟩
  · rintro e he _ hs rfl
    exact hapart.notTree e he hs
  · rcases List.mem_append.1 he with he | he
    · exact ⟨(hapart.placed e he).2, Nat.le_trans harea (hapart.placed e he).1⟩
    · exact ⟨(hstore.placed e he).2.1, Nat.le_trans harea (hstore.placed e he).1⟩

theorem store_chunks_apart_two : (chunksOf tinyRun.sb.view.content ++ tinyRun.sb.view.addresses).Nodup :=
  (store_chunks_apart tinyRun_run).1

/-- The tree is in order, and the share masks of a chunk are not empty, disjoint, and those of live snapshots. -/
theorem share_masks_kept {st : Served D} (h : Reach.Run Served.step Served.Ok Served.Init st) :
    st.sb.view.WellFormed st.sb.allocPerNode st.sb.allocsize ∧ ∀ c, SharesOk st.sb.snapmask (st.sb.exns c) := by
  obtain ⟨R, hinv⟩ := isolated_run h
  exact ⟨hinv.serving.store.wellFormed, hinv.serving.masks⟩

theorem share_masks_kept_two : SharesOk tinyRun.sb.snapmask (tinyRun.sb.exns 5) := (share_masks_kept tinyRun_run).2 5

/-- The origin holds what its clients wrote to it. -/
theorem origin_holds_writes {st : Served D} (h : Reach.Run Served.step Served.Ok Served.Init st) (c : Nat) :
    st.sb.dev .orgdev c = .data (st.spec.origin c) := by
  obtain ⟨R, hinv⟩ := isolated_run h
  exact congrFun hinv.serving.origin c

theorem origin_holds_writes_two : tinyRun.sb.dev .orgdev 5 = .data (tinyRun.spec.origin 5) :=
  origin_holds_writes tinyRun_run 5

end Ddsnap
