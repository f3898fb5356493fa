import Mathlib.Data.List.Perm.Basic
import Ddsnap.AddException
import Ddsnap.Frame

/-!
# The invariant of a store

A store is in order when its tree is well-formed and stands in taken blocks whose content is committed or dirty, and,
on a combined store, when the chunks of the exceptions are taken, different from each other and from the blocks of the
tree, and no buffer of theirs waits for a home write.  Allocation and commits keep a store in order and do not touch the
content of its tree; `make_unique` after its check for free space adds at most one exception to the content.
-/

namespace Ddsnap

open IndexTree

variable {D : Type}

/-- The chunks of all exceptions of a map. -/
def chunksOf (map : List EtreeMap) : List Nat := map.flatMap fun m => m.exceptions.map Exception.chunk

/-- On a combined store the chunks of the exceptions are nobody else's. -/
structure Apart (R : Nat) (sb : Sb D) : Prop where
  nodup : (chunksOf sb.view.content).Nodup
  placed : ∀ e ∈ chunksOf sb.view.content, R ≤ e ∧ sb.Taken e
  notTree : ∀ e ∈ chunksOf sb.view.content, e ∉ sb.view.addresses
  unlisted : ∀ e ∈ chunksOf sb.view.content, ¬sb.Listed e

/-- A store in order. -/
structure Store (R : Nat) (sb : Sb D) : Prop extends Rooted R sb where
  keyed : Keyed sb.mem sb.allocsize sb.view.slots
  cap : 2 ≤ sb.allocPerNode
  deep : 0 < sb.image.etreeLevels
  inside : ∀ e ∈ chunksOf sb.view.content, e < sb.bitmapSize .snapdata
  listed : ∀ s, sb.Listed s → s < R ∨ sb.Taken s
  apart : sb.combined = true → Apart R sb

/-- What is found in a list of exceptions for the origin or for a snapshot. -/
def findIn (exns : List Exception) (snapmask : Mask) : Option Nat → Bool × Option Nat
  | none => (~~~(sharedBy exns) &&& snapmask = 0, none)
  | some bit =>
    match findShare (maskBit bit) exns with
    | none => (false, none)
    | some p => (p.share &&& ~~~(maskBit bit) = 0, some p.chunk)

/-- The exceptions of a chunk in the tree of the server. -/
def Sb.exns (sb : Sb D) (chunk : Nat) : List Exception := exnsAt sb.view.content chunk

/-- If the exception of a chunk makes its leaf split, the leaf holds two map entries. -/
def WideSplit (sb : Sb D) (chunk : Nat) (snapbit : Option Nat) : Prop :=
  ∀ p ∈ probe sb chunk, (chunkUnique sb p.2 chunk snapbit).1 = false →
    leafFreespace (leafAt sb.mem p.2) < bytesNeeded (leafAt sb.mem p.2).map (target32 (leafAt sb.mem p.2) chunk) →
    2 ≤ (leafAt sb.mem p.2).map.length

instance (sb : Sb D) (chunk : Nat) (snapbit : Option Nat) : Decidable (WideSplit sb chunk snapbit) :=
  inferInstanceAs (Decidable (∀ p ∈ probe sb chunk, _))

section
variable {R c : Nat} {sb sb1 sb' : Sb D} {snapbit : Option Nat}

/-! ### Chunks of exceptions -/

theorem mem_chunksOf {map : List EtreeMap} {e : Nat} :
    e ∈ chunksOf map ↔ ∃ m ∈ map, ∃ p ∈ m.exceptions, p.chunk = e := by
  simp [chunksOf]

private theorem chunksOf_cons (m : EtreeMap) (map : List EtreeMap) :
    chunksOf (m :: map) = m.exceptions.map Exception.chunk ++ chunksOf map := List.flatMap_cons

private theorem clearFirst_chunks (mask : Mask) (exns : List Exception) :
    (clearFirst mask exns).map Exception.chunk = exns.map Exception.chunk := by
  induction exns with
  | nil => rfl
  | cons p ps ih =>
    unfold clearFirst
    split
    · rfl
    · simp [ih]

private theorem addException_chunks (exns : List Exception) (e : Nat) (snapshot : Option Nat) (active : Mask) :
    (addException exns e snapshot active).map Exception.chunk = e :: exns.map Exception.chunk := by
  cases snapshot with
  | none => rfl
  | some bit => simp [addException, clearFirst_chunks]

private theorem chunksOf_addEntry (map : List EtreeMap) (t e : Nat) (snapshot : Option Nat) (active : Mask) :
    (chunksOf (addEntry map t e snapshot active)).Perm (e :: chunksOf map) := by
  induction map with
  | nil => simp [addEntry, addAt, firstException, chunksOf]
  | cons m map ih =>
    rw [addEntry_cons]
    split
    · rw [chunksOf_cons, chunksOf_cons]
      exact (ih.append_left _).trans List.perm_middle
    · simp only [addAt]
      split
      · rw [chunksOf_cons, chunksOf_cons, addException_chunks]
        exact List.Perm.refl _
      · rw [chunksOf_cons]
        exact List.Perm.refl _

/-! ### Lookup -/

/-- `probe` in a store in order. -/
theorem Store.wellFormed (h : Store R sb) : sb.view.WellFormed sb.allocPerNode sb.allocsize := ⟨h.planted, h.keyed⟩

private theorem Store.probe (h : Store R sb) (c : Nat) : ∃ path pre x post, probe sb c = some (path, x.2) ∧
    Trail (nodesOf id sb.mem) (0, sb.image.etreeRoot) path pre x post ∧ path.length = sb.image.etreeLevels ∧ x.1 ≤ c ∧
    ∀ y ∈ post, c < y.1 := h.wellFormed.probe c

/-- The leaf that `probe` finds decides the lookup. -/
private theorem View.WellFormed.chunkUnique_eq {cap size : Nat} (h : sb.view.WellFormed cap size) (hc : c < 2 ^ 32)
    {path : List EtreePath} {s : Nat} (hp : Ddsnap.probe sb c = some (path, s)) (snapbit : Option Nat) :
    chunkUnique sb s c snapbit = findIn (sb.exns c) sb.snapmask snapbit := by
  obtain ⟨path', pre, x, post, hp', ht, hlen, hx, hpost⟩ := h.probe c
  obtain ⟨rfl, rfl⟩ : path' = path ∧ x.2 = s := by
    have he := hp'.symm.trans hp
    simpa using he
  have hs := Rooted.slots_eq ht hlen
  have hkeyed : Keyed sb.mem size sb.view.slots := h.keyed
  have hok := hkeyed.leafOk x (by rw [hs]; simp)
  have hex : sb.exns c = exnsAt (leafAt sb.mem x.2).map c := by
    rw [hs] at hkeyed
    rw [← hkeyed.exnsAt hx hpost, ← hs]
    rfl
  cases snapbit with
  | none =>
    simp only [chunkUnique, findIn, originChunkUnique_eq, hok.target64 hc, hex]
  | some bit =>
    have hfound := snapshotChunkUnique_eq (leafAt sb.mem x.2) c bit
    rw [hok.target32 hc, ← hex] at hfound
    exact hfound

/-- `test_unique` in a tree in order. -/
theorem View.WellFormed.testUnique_eq {cap size : Nat} (h : sb.view.WellFormed cap size) (hc : c < 2 ^ 32)
    (snapbit : Option Nat) : testUnique sb c snapbit = some (findIn (sb.exns c) sb.snapmask snapbit) := by
  obtain ⟨path, pre, x, post, hp, -⟩ := h.probe c
  have hp : Ddsnap.probe sb c = some (path, x.2) := hp
  have := h.chunkUnique_eq hc hp snapbit
  unfold testUnique
  rw [hp, ← this]
  rfl

private theorem Store.chunkUnique_eq (h : Store R sb) (hc : c < 2 ^ 32) {path : List EtreePath} {s : Nat}
    (hp : Ddsnap.probe sb c = some (path, s)) (snapbit : Option Nat) :
    chunkUnique sb s c snapbit = findIn (sb.exns c) sb.snapmask snapbit := h.wellFormed.chunkUnique_eq hc hp snapbit

/-! ### Steps that leave the tree alone -/

/-- Steps that change blocks of the reserved area only keep a store in order. -/
theorem Store.quiet (h : Store R sb) (hq : Quiet R [] sb sb') :
    Store R sb' ∧ sb'.view.content = sb.view.content ∧ sb'.view.addresses = sb.view.addresses := by
  have hmem : ∀ s ∈ sb.view.addresses, sb'.mem s = sb.mem s := fun s hs => hq.mem s (h.placed s hs).1
  have htaken : ∀ s, sb.Taken s → sb'.Taken s := fun s hs => hq.taken s (by simp) hs
  obtain ⟨hroot, hslots, haddr⟩ := h.toRooted.congr (hq.reserved (by simp) h.reserved)
    (congrArg Core.etreeRoot hq.core) (congrArg Core.etreeLevels hq.core) (congrArg Core.allocPerNode hq.core) hmem
    (fun s hs => htaken s (h.placed s hs).2.1) fun s hs => hq.sync s (h.placed s hs).2.2
  have hleaf : ∀ x ∈ sb.view.slots, leafAt sb'.mem x.2 = leafAt sb.mem x.2 := by
    intro x hx
    unfold leafAt
    rw [hmem x.2 (View.slots_mem_addresses hx)]
  have hcont : sb'.view.content = sb.view.content := by
    show contentOf sb'.mem sb'.view.slots = contentOf sb.mem sb.view.slots
    rw [hslots, contentOf_congr hleaf]
  refine ⟨⟨hroot, ?_, ?_, Nat.lt_of_lt_of_eq h.deep (congrArg Core.etreeLevels hq.core).symm, ?_, ?_,
    fun hcomb => ?_⟩, hcont, haddr⟩
  · rw [hslots, core_allocsize hq.core]
    exact h.keyed.congr hleaf
  · rw [show sb'.allocPerNode = sb.allocPerNode from congrArg Core.allocPerNode hq.core]
    exact h.cap
  · rw [hcont, core_bitmapSize hq.core]
    exact h.inside
  · intro s hs
    rcases hq.listed s hs with hs | hs
    · exact (h.listed s hs).imp id (htaken s)
    · exact .inl hs
  · have ha := h.apart (by rw [← core_combined hq.core]; exact hcomb)
    refine ⟨hcont ▸ ha.nodup, ?_, ?_, ?_⟩
    · rw [hcont]
      exact fun e he => ⟨(ha.placed e he).1, htaken e (ha.placed e he).2⟩
    · rw [hcont, haddr]
      exact ha.notTree
    · rw [hcont]
      intro e he hl
      have := (ha.placed e he).1
      rcases hq.listed e hl with hl | hl
      · exact ha.unlisted e he hl
      · omega

/-- The devices and the pending copies are not part of what it means to be in order. -/
theorem Store.redirect (h : Store R sb) (dev : Device → Nat → Block D) (source dest count : Nat) :
    Store R { sb with dev := dev, sourceChunk := source, destException := dest, copyChunks := count } := by
  have hr := h.reserved
  exact ⟨⟨⟨hr.taken, hr.metaArea, hr.snapArea, hr.apart, hr.base, hr.lastAlloc, hr.deferred⟩, h.planted, h.placed⟩,
    h.keyed, h.cap, h.deep, h.inside, h.listed, fun hc => ⟨(h.apart hc).nodup, (h.apart hc).placed, (h.apart hc).notTree,
      (h.apart hc).unlisted⟩⟩

/-- Nor are the snapshots. -/
theorem Store.relist (h : Store R sb) (snapmask : Mask) (snaplist : Nat → Snapshot) (snapshots : Nat)
    (usecount : Nat → Nat) (dirty : Bool) :
    Store R { sb with
      snapmask := snapmask, usecount := usecount, sbDirty := dirty
      image := { sb.image with snaplist := snaplist, snapshots := snapshots } } := by
  have hr := h.reserved
  exact ⟨⟨⟨hr.taken, hr.metaArea, hr.snapArea, hr.apart, hr.base, hr.lastAlloc, hr.deferred⟩, h.planted, h.placed⟩,
    h.keyed, h.cap, h.deep, h.inside, h.listed, fun hc => ⟨(h.apart hc).nodup, (h.apart hc).placed, (h.apart hc).notTree,
      (h.apart hc).unlisted⟩⟩

theorem finishCopyout_eq (sb : Sb D) : finishCopyout sb = { sb with
    dev := (finishCopyout sb).dev
    copyChunks := (finishCopyout sb).copyChunks } := by
  unfold finishCopyout
  split <;> rfl

theorem copyout_eq (sb : Sb D) (chunk exception : Nat) : copyout sb chunk exception = { sb with
    dev := (copyout sb chunk exception).dev
    sourceChunk := (copyout sb chunk exception).sourceChunk
    destException := (copyout sb chunk exception).destException
    copyChunks := (copyout sb chunk exception).copyChunks } := by
  unfold copyout
  split
  · rfl
  · rw [finishCopyout_eq]

/-- A copy leaves the cache and the accounting alone. -/
theorem copyout_fixed (sb : Sb D) (chunk exception : Nat) :
    (copyout sb chunk exception).mem = sb.mem ∧ (copyout sb chunk exception).image = sb.image ∧
      (copyout sb chunk exception).snapmask = sb.snapmask ∧
      (∀ c, (copyout sb chunk exception).Taken c ↔ sb.Taken c) ∧
      (∀ s, (copyout sb chunk exception).Listed s ↔ sb.Listed s) ∧
      (copyout sb chunk exception).bitmapSize .snapdata = sb.bitmapSize .snapdata := by
  rw [copyout_eq]
  exact ⟨rfl, rfl, rfl, fun _ => Iff.rfl, fun _ => Iff.rfl, rfl⟩

private theorem Store.copyout (h : Store R sb) (chunk exception : Nat) : Store R (copyout sb chunk exception) := by
  rw [copyout_eq]
  exact h.redirect _ _ _ _

theorem Store.finishCopyout (h : Store R sb) : Store R (finishCopyout sb) := by
  rw [finishCopyout_eq]
  exact h.redirect _ _ _ _

/-! ### `make_unique` after its check for free space -/

private theorem addExceptionToLeaf_none {leaf : Eleaf} {e : Nat} {active : Mask}
    (h : addExceptionToLeaf leaf c e snapbit active = none) :
    leafFreespace leaf < bytesNeeded leaf.map (target32 leaf c) := by
  unfold addExceptionToLeaf at h
  dsimp only at h
  split at h
  · assumption
  · cases h

/-- What a call of `make_unique` that does not fail amounts to after its check for free space. -/
theorem uniqueException_cases {r : Nat} (h : uniqueException sb c snapbit = some (some r, sb')) :
    ∃ path leafbuf, Ddsnap.probe sb c = some (path, leafbuf) ∧
      (((chunkUnique sb leafbuf c snapbit).1 = true ∧ r = (chunkUnique sb leafbuf c snapbit).2.getD 0 ∧ sb' = sb) ∨
        ((chunkUnique sb leafbuf c snapbit).1 = false ∧ ∃ sb1, allocChunk sb .snapdata = some (r, sb1) ∧
          addExceptionToTree (Ddsnap.copyout sb1 (copySource c (chunkUnique sb leafbuf c snapbit).2) r) leafbuf c r snapbit
            path = (true, sb'))) := by
  obtain ⟨path, leafbuf, hp, ⟨hu, hr, rfl⟩ | ⟨hu, newex, sb1, sb2, ok, ha, hadd, hend⟩⟩ := uniqueException_outcome h
  · exact ⟨path, leafbuf, hp, .inl ⟨hu, by simpa using hr, rfl⟩⟩
  · obtain ⟨rfl, hr, rfl⟩ | ⟨-, hr, -⟩ := hend
    · obtain rfl : r = newex := by simpa using hr
      exact ⟨path, leafbuf, hp, .inr ⟨hu, sb1, ha, hadd⟩⟩
    · cases hr

/-- The chunk for a new exception of a combined store was nobody's. -/
theorem Store.newChunk (h : Store R sb) {r : Nat} (ha : allocChunk sb .snapdata = some (r, sb1)) :
    Store R sb1 ∧ sb1.view.content = sb.view.content ∧ sb1.view.addresses = sb.view.addresses ∧
      r < sb.bitmapSize .snapdata ∧
      (sb.combined = true → R ≤ r ∧ ¬sb.Taken r ∧ sb1.Taken r ∧ ¬sb1.Listed r ∧ r ∉ sb.view.addresses ∧
        r ∉ chunksOf sb.view.content) := by
  obtain ⟨hq, -, hsize, -, -, htaken⟩ := allocChunk_spec h.reserved ha
  obtain ⟨h1, h2, h3⟩ := h.quiet hq
  refine ⟨h1, h2, h3, hsize, fun hcomb => ?_⟩
  obtain ⟨hfresh, hR⟩ := allocChunk_fresh h.reserved ha (.inr hcomb)
  refine ⟨hR, hfresh, htaken (.inr hcomb), fun hl => ?_, fun hm => hfresh (h.placed r hm).2.1,
    fun hm => hfresh ((h.apart hcomb).placed r hm).2⟩
  rcases hq.listed r hl with hl | hl
  · rcases h.listed r hl with hl | hl
    · omega
    · exact hfresh hl
  · omega

/-- A new exception is added to a store in order. -/
private theorem Store.addException (h : Store R sb) (hc : c < 2 ^ 32) {path : List EtreePath} {leafbuf r : Nat}
    (hp : Ddsnap.probe sb c = some (path, leafbuf)) (hr : r < sb.bitmapSize .snapdata)
    (hown : sb.combined = true → R ≤ r ∧ sb.Taken r ∧ ¬sb.Listed r ∧ r ∉ sb.view.addresses ∧
      r ∉ chunksOf sb.view.content)
    (hsplit : leafFreespace (leafAt sb.mem leafbuf) <
        bytesNeeded (leafAt sb.mem leafbuf).map (target32 (leafAt sb.mem leafbuf) c) →
      2 ≤ (leafAt sb.mem leafbuf).map.length)
    (hadd : addExceptionToTree sb leafbuf c r snapbit path = (true, sb')) :
    Store R sb' ∧ sb'.view.content = addEntry sb.view.content c r snapbit sb.snapmask ∧
      Grown R sb.view.addresses sb sb' := by
  obtain ⟨path', pre, x, post, hp', ht, hlen, hx, hpost⟩ := h.probe c
  obtain ⟨rfl, rfl⟩ : path' = path ∧ x.2 = leafbuf := by
    rw [hp] at hp'
    simpa using hp'.symm
  obtain ⟨hroot, hg, hkeyed, hcont, haddr⟩ := addExceptionToTree_spec h.toRooted h.keyed h.cap ht hlen hx hpost hc
    (fun hn => hsplit (addExceptionToLeaf_none hn)) hadd
  have hg' : Grown R sb.view.addresses sb sb' := hg.mono fun s hm => .inl (Rooted.path_mem ht hlen hm)
  have hperm := chunksOf_addEntry sb.view.content c r snapbit sb.snapmask
  rw [← hcont] at hperm
  have hsize : sb'.bitmapSize .snapdata = sb.bitmapSize .snapdata := by
    have : sb'.bitmapSize .snapdata = (sb.reroot _ _).bitmapSize .snapdata := core_bitmapSize hg.core _
    exact this
  have hmem : ∀ e ∈ chunksOf sb'.view.content, e = r ∨ e ∈ chunksOf sb.view.content := fun e he =>
    List.mem_cons.1 (hperm.subset he)
  refine ⟨⟨hroot, hkeyed, by rw [hg.allocPerNode]; exact h.cap, Nat.lt_of_lt_of_le h.deep hg.levels, ?_, ?_,
    fun hcomb => ?_⟩, hcont, hg'⟩
  · intro e he
    rw [hsize]
    rcases hmem e he with rfl | he
    · exact hr
    · exact h.inside e he
  · intro s hl
    rcases hg'.listed s hl with hl | hl | hl | hl
    · exact (h.listed s hl).imp id (hg'.taken s)
    · exact .inl hl
    · exact .inr (hg'.taken s (h.placed s hl).2.1)
    · exact .inr hl.2
  · rw [hg.combined] at hcomb
    obtain ⟨hR, hT, hL, hA, hC⟩ := hown hcomb
    have ha := h.apart hcomb
    -- every chunk of an exception was taken, outside the tree and not listed before
    have hall : ∀ e ∈ chunksOf sb'.view.content, R ≤ e ∧ sb.Taken e ∧ ¬sb.Listed e ∧ e ∉ sb.view.addresses := by
      intro e he
      rcases hmem e he with rfl | he
      · exact ⟨hR, hT, hL, hA⟩
      · exact ⟨(ha.placed e he).1, (ha.placed e he).2, ha.unlisted e he, ha.notTree e he⟩
    refine ⟨hperm.nodup_iff.2 (List.nodup_cons.2 ⟨hC, ha.nodup⟩), fun e he => ?_, fun e he hm => ?_, fun e he hl => ?_⟩
    · exact ⟨(hall e he).1, hg'.taken e (hall e he).2.1⟩
    · obtain ⟨-, hT', -, hA'⟩ := hall e he
      rcases haddr e hm with hm | hm
      · exact hA' hm
      · exact hm hT'
    · obtain ⟨hR', hT', hL', hA'⟩ := hall e he
      rcases hg'.listed e hl with hl | hl | hl | hl
      · exact hL' hl
      · omega
      · exact hA' hl
      · exact hl.1 hT'

theorem probe_congr (hr : sb'.image.etreeRoot = sb.image.etreeRoot) (hl : sb'.image.etreeLevels = sb.image.etreeLevels)
    (hm : ∀ s ∈ sb.view.addresses, sb'.mem s = sb.mem s) : Ddsnap.probe sb' c = Ddsnap.probe sb c := by
  unfold Ddsnap.probe
  rw [hr, hl]
  exact probeFrom_congr (0, sb.image.etreeRoot) [] fun i hi w hw =>
    hm w.2 (View.mem_addresses.2 ⟨i, hi, w, hw, rfl⟩)

/-- `make_unique` after its check for free space, on a store in order: it finds an exception of the caller alone, or it
takes a new chunk, notes the copy and adds an exception to the content of the tree. -/
theorem Store.unique (h : Store R sb) (hc : c < 2 ^ 32) (hw : WideSplit sb c snapbit) {r : Nat}
    (hu : uniqueException sb c snapbit = some (some r, sb')) :
    Store R sb' ∧
      (((findIn (sb.exns c) sb.snapmask snapbit).1 = true ∧ r = (findIn (sb.exns c) sb.snapmask snapbit).2.getD 0 ∧
          sb' = sb) ∨
        ((findIn (sb.exns c) sb.snapmask snapbit).1 = false ∧
          ∃ sb1, allocChunk sb .snapdata = some (r, sb1) ∧
            Grown R sb.view.addresses
              (Ddsnap.copyout sb1 (copySource c (findIn (sb.exns c) sb.snapmask snapbit).2) r) sb' ∧
            sb'.view.content = addEntry sb.view.content c r snapbit sb.snapmask)) := by
  obtain ⟨path, leafbuf, hp, hcases⟩ := uniqueException_cases hu
  rw [h.chunkUnique_eq hc hp] at hcases
  rcases hcases with ⟨h1, h2, h3⟩ | ⟨h1, sb1, ha, hadd⟩
  · exact ⟨h3 ▸ h, .inl ⟨h1, h2, h3⟩⟩
  obtain ⟨hs1, hcont1, haddr1, hsize, hown⟩ := h.newChunk ha
  obtain ⟨hq, -⟩ := allocChunk_spec h.reserved ha
  generalize hsrc : copySource c (findIn (sb.exns c) sb.snapmask snapbit).2 = src at hadd ⊢
  have hs2 := hs1.copyout src r
  obtain ⟨hmem, himg, hmask, htk, hls, hbs⟩ := copyout_fixed sb1 src r
  have hview : (Ddsnap.copyout sb1 src r).view = sb1.view := by unfold Sb.view; rw [hmem, himg]
  have hmask1 : sb1.snapmask = sb.snapmask := congrArg Core.snapmask hq.core
  generalize hsb2 : Ddsnap.copyout sb1 src r = sb2 at hadd hs2 hmem himg hmask htk hls hbs hview
  -- neither the new chunk nor the copy changes what the leaf holds
  have hsame : ∀ s ∈ sb.view.addresses, sb2.mem s = sb.mem s := fun s hm => by
    rw [hmem]; exact hq.mem s (h.placed s hm).1
  have hp2 : Ddsnap.probe sb2 c = some (path, leafbuf) := by
    rw [probe_congr (by rw [himg]; exact congrArg Core.etreeRoot hq.core)
      (by rw [himg]; exact congrArg Core.etreeLevels hq.core) hsame, hp]
  have hleaf : leafAt sb2.mem leafbuf = leafAt sb.mem leafbuf := by
    obtain ⟨path', pre, x, post, hp', ht, hlen, -⟩ := h.probe c
    obtain ⟨rfl, rfl⟩ : path' = path ∧ x.2 = leafbuf := by
      rw [hp] at hp'
      simpa using hp'.symm
    unfold leafAt
    rw [hsame x.2 (View.slots_mem_addresses (by rw [Rooted.slots_eq ht hlen]; simp))]
  have hown2 : sb2.combined = true → R ≤ r ∧ sb2.Taken r ∧ ¬sb2.Listed r ∧ r ∉ sb2.view.addresses ∧
      r ∉ chunksOf sb2.view.content := by
    intro hcomb
    have hcomb0 : sb.combined = true := by
      rw [← core_combined hq.core]
      unfold Sb.combined at hcomb ⊢
      rwa [himg] at hcomb
    obtain ⟨hR, -, hT, hL, hA, hC⟩ := hown hcomb0
    rw [hview, haddr1, hcont1, htk, hls]
    exact ⟨hR, hT, hL, hA, hC⟩
  have hwide : leafFreespace (leafAt sb2.mem leafbuf) <
      bytesNeeded (leafAt sb2.mem leafbuf).map (target32 (leafAt sb2.mem leafbuf) c) →
      2 ≤ (leafAt sb2.mem leafbuf).map.length := by
    rw [hleaf]
    exact hw (path, leafbuf) hp (by rw [h.chunkUnique_eq hc hp]; exact h1)
  obtain ⟨hs', hcont', hg⟩ := hs2.addException hc hp2 (by rw [hbs, core_bitmapSize hq.core]; exact hsize) hown2 hwide
    hadd
  rw [hview, haddr1] at hg
  rw [hview, hcont1, hmask, hmask1] at hcont'
  exact ⟨hs', .inr ⟨h1, sb1, ha, by rw [hsb2]; exact hg, hcont'⟩⟩

end

end Ddsnap
