import Mathlib.Data.List.Pairwise
import Ddsnap.Masks
import Ddsnap.Store

/-!
# `make_unique` and what the snapshots read

One call of `make_unique` after its check for free space keeps the share masks of a store in order, and afterwards the
chunk belongs to the caller alone: a snapshot has an exception of its own, and behind the origin every live snapshot
has an exception.  Since the copies are made with delay, the content of the devices is described as it will be when the
pending copies are finished (`settled`); seen this way, `make_unique` does not change what any snapshot reads.
-/

namespace Ddsnap

variable {D : Type}

/-- The share masks of every chunk are in order. -/
def Sb.MasksOk (sb : Sb D) : Prop := ∀ c, SharesOk sb.snapmask (sb.exns c)

/-- The chunk can be written: for the origin, every live snapshot has an exception; for a snapshot, `r` is the chunk of
an exception that it shares with nobody. -/
def Granted (sb : Sb D) (c r : Nat) : Option Nat → Prop
  | none => ∀ b, hasBit sb.snapmask b = true → storeChunk b (sb.exns c) ≠ none
  | some bit => findShare (maskBit bit) (sb.exns c) = some ⟨maskBit bit, r⟩

/-! ### Exceptions in the content of a tree -/

section
variable {map : List EtreeMap} {c c' : Nat} {p q : Exception}

theorem mem_exnsAt (h : p ∈ exnsAt map c) : ∃ m ∈ map, m.rchunk = c ∧ p ∈ m.exceptions := by
  obtain ⟨m, hm, hc, he⟩ := mem_of_exnsAt_ne_nil (List.ne_nil_of_mem h)
  exact ⟨m, hm, hc, he ▸ h⟩

theorem chunk_mem_chunksOf (h : p ∈ exnsAt map c) : p.chunk ∈ chunksOf map := by
  obtain ⟨m, hm, -, hp⟩ := mem_exnsAt h
  exact mem_chunksOf.2 ⟨m, hm, p, hp, rfl⟩

/-- When no chunk is used twice, it determines its exception. -/
theorem exnsAt_inj (hn : (chunksOf map).Nodup) (hp : p ∈ exnsAt map c) (hq : q ∈ exnsAt map c')
    (h : p.chunk = q.chunk) : c = c' ∧ p = q := by
  obtain ⟨m, hm, rfl, hp'⟩ := mem_exnsAt hp
  obtain ⟨m', hm', rfl, hq'⟩ := mem_exnsAt hq
  obtain ⟨h1, h2⟩ := List.nodup_flatMap.1 hn
  have hsame : m = m' := by
    by_contra hne
    have : Std.Symm (Function.onFun List.Disjoint fun m : EtreeMap => m.exceptions.map Exception.chunk) :=
      ⟨fun _ _ h _ h1 h2 => h h2 h1⟩
    exact h2.forall hm hm' hne (List.mem_map_of_mem hp') (h ▸ List.mem_map_of_mem hq')
  subst hsame
  exact ⟨rfl, List.inj_on_of_nodup_map (h1 m hm) hp' hq' h⟩

/-- The exception with the bit of a snapshot is the one that is found for it. -/
private theorem SharesOk.findShare_eq {snapmask : Mask} {exns : List Exception} {b : Nat} (h : SharesOk snapmask exns)
    (hp : p ∈ exns) (hb : hasBit p.share b = true) : findShare (maskBit b) exns = some p := by
  have hlt := hasBit_lt hb
  induction exns with
  | nil => cases hp
  | cons a exns ih =>
    obtain ⟨-, -, hd, hok⟩ := sharesOk_cons.1 h
    unfold findShare
    rcases List.mem_cons.1 hp with rfl | hp
    · rw [List.find?_cons_of_pos (by simpa using (and_maskBit_ne hlt).2 hb)]
    · rw [List.find?_cons_of_neg]
      · exact ih hok hp
      · have hs := (hasBit_sharedBy exns b).2 ⟨p, hp, hb⟩
        have ha : ¬hasBit a.share b = true := fun ha => by
          rw [and_eq_zero.1 hd b ha] at hs
          cases hs
        simpa using mt (and_maskBit_ne hlt).1 ha

theorem findIn_snd (exns : List Exception) (snapmask : Mask) (snapbit : Option Nat) :
    (findIn exns snapmask snapbit).2 = snapbit.bind fun bit => storeChunk bit exns := by
  cases snapbit with
  | none => rfl
  | some bit =>
    simp only [findIn, Option.bind_some, storeChunk]
    cases findShare (maskBit bit) exns <;> rfl

private theorem eq_maskBit {m : Mask} {b : Nat} (hb : hasBit m b = true) (h : m &&& ~~~(maskBit b) = 0) : m =
    maskBit b := by
  have hlt := hasBit_lt hb
  refine BitVec.eq_of_getLsbD_eq fun i hi => ?_
  change hasBit m i = hasBit (maskBit b) i
  rw [hasBit_maskBit hlt]
  by_cases hib : i = b
  · subst hib; simp [hb]
  · rw [decide_eq_false hib]
    refine Bool.eq_false_iff.2 fun hm => hib ?_
    have := and_not_eq_zero.1 h i hm
    rwa [hasBit_maskBit hlt, decide_eq_true_eq] at this

end

/-! ### Share masks after `make_unique` -/

section
variable {R c r : Nat} {sb sb1 sb' : Sb D} {snapbit : Option Nat}

/-- A chunk that can be written is unique, and the other way round. -/
private theorem granted_iff (hlive : ∀ b ∈ snapbit, hasBit sb.snapmask b = true) :
    (findIn (sb.exns c) sb.snapmask snapbit).1 = true ↔
      Granted sb c ((findIn (sb.exns c) sb.snapmask snapbit).2.getD 0) snapbit := by
  cases snapbit with
  | none =>
    simp only [findIn, decide_eq_true_eq, Granted, ne_eq]
    constructor
    · intro h b hb hs
      rw [storeChunk_eq_none (hasBit_lt hb)] at hs
      have := mask_eq_zero.1 h b
      simp [hs, hb, hasBit_lt hb] at this
    · intro h
      refine mask_eq_zero.2 fun b => Bool.eq_false_iff.2 fun hb => ?_
      rw [hasBit_and, hasBit_not, Bool.and_eq_true, Bool.and_eq_true] at hb
      exact h b hb.2 ((storeChunk_eq_none (hasBit_lt hb.2)).2 (by simpa using hb.1.2))
  | some bit =>
    have hlt := hasBit_lt (hlive bit rfl)
    simp only [findIn, Granted]
    cases hf : findShare (maskBit bit) (sb.exns c) with
    | none => simp
    | some p =>
      have hp : hasBit p.share bit = true :=
        (and_maskBit_ne hlt).1 (by simpa using List.find?_some hf)
      simp only [decide_eq_true_eq, Option.getD_some, Option.some.injEq]
      constructor
      · intro h
        rw [← eq_maskBit hp h]
      · intro h
        have hshare : p.share = maskBit bit := by rw [h]
        rw [hshare]
        exact and_not_eq_zero.2 fun i hi => hi

private theorem exns_addEntry (h : Store R sb)
    (hcont : sb'.view.content = addEntry sb.view.content c r snapbit sb.snapmask)
    (c' : Nat) : sb'.exns c' = if c' = c then addException (sb.exns c) r snapbit sb.snapmask else sb.exns c' := by
  have hasc : Ascending sb.view.content := h.keyed.ascending
  unfold Sb.exns
  rw [hcont, exnsAt_addEntry hasc]

/-- An insertion for a caller that has the chunk not alone keeps the masks in order, gives the chunk to the caller, and
takes no chunk from it. -/
private theorem masks_addException (hm : sb.MasksOk) (hlive : ∀ b ∈ snapbit, hasBit sb.snapmask b = true)
    (hmask : sb'.snapmask = sb.snapmask) (hu : (findIn (sb.exns c) sb.snapmask snapbit).1 = false)
    (hex : ∀ c', sb'.exns c' = if c' = c then addException (sb.exns c) r snapbit sb.snapmask else sb.exns c') :
    sb'.MasksOk ∧ Granted sb' c r snapbit ∧ ∀ c' r', Granted sb c' r' snapbit → c' ≠ c ∧ Granted sb' c' r' snapbit := by
  refine ⟨fun c' => ?_, ?_, fun c' r' hg => ?_⟩
  · rw [hex, hmask]
    split
    · cases snapbit with
      | none =>
        refine (hm c).addOrigin r ?_
        simpa [findIn] using hu
      | some bit =>
        refine (hm c).addSnapshot (hasBit_lt (hlive bit rfl)) r (hlive bit rfl) fun p hp => ?_
        simpa [findIn, hp] using hu
    · exact hm c'
  · cases snapbit with
    | none =>
      intro b hb
      rw [hmask] at hb
      rw [hex, if_pos rfl, storeChunk_addOrigin (hasBit_lt hb)]
      by_cases hs : storeChunk b (sb.exns c) = none
      · simp [hs, hb]
      · simp [hs]
    | some bit =>
      have hlt := hasBit_lt (hlive bit rfl)
      show findShare (maskBit bit) (sb'.exns c) = _
      rw [hex, if_pos rfl]
      unfold addException findShare
      rw [List.find?_cons_of_pos]
      simpa using (and_maskBit_ne hlt).2 (by simp [hlt] : hasBit (maskBit bit) bit = true)
  · -- a chunk that was granted is unique
    have hne : c' ≠ c := by
      rintro rfl
      have hval : r' = (findIn (sb.exns c') sb.snapmask snapbit).2.getD 0 ∨ snapbit = none := by
        cases snapbit with
        | none => exact .inr rfl
        | some bit =>
          refine .inl ?_
          rw [findIn_snd]
          simp only [Granted] at hg
          simp [storeChunk, hg]
      have : (findIn (sb.exns c') sb.snapmask snapbit).1 = true := by
        refine (granted_iff hlive).2 ?_
        rcases hval with rfl | rfl
        · exact hg
        · exact hg
      rw [hu] at this
      cases this
    refine ⟨hne, ?_⟩
    have he : sb'.exns c' = sb.exns c' := by rw [hex, if_neg hne]
    cases snapbit with
    | none =>
      intro b hb
      rw [he]
      exact hg b (by rw [← hmask]; exact hb)
    | some bit =>
      simp only [Granted] at hg ⊢
      rw [he]
      exact hg

end

/-! ### Copies -/

/-- The devices as they will be when the pending copies are finished. -/
def Sb.settled (sb : Sb D) : Device → Nat → Block D := (finishCopyout sb).dev

/-- The device of the source of a copy. -/
def Sb.sourceDev (sb : Sb D) (src : Nat) : Device := if highbit ≤ src then sb.snapdev else .orgdev

/-- The content that a snapshot reads: that of its exception, or else that of the origin. -/
def Sb.readOn (sb : Sb D) (dev : Device → Nat → Block D) (bit c : Nat) : Block D :=
  match storeChunk bit (sb.exns c) with
  | some e => dev sb.snapdev e
  | none => dev .orgdev c

/-- The pending copies of a request: they come from the origin or from the snapshot store, and those of a snapshot go to
exceptions that it shares with nobody. -/
structure Pending (snapbit : Option Nat) (sb : Sb D) : Prop where
  source : sb.sourceChunk + sb.copyChunks ≤ 2 ^ 32 ∨ highbit ≤ sb.sourceChunk
  dest : ∀ bit ∈ snapbit, ∀ k < sb.copyChunks, ∃ c, ⟨maskBit bit, sb.destException + k⟩ ∈ sb.exns c

section
variable {R c r src : Nat} {sb sb1 sb' : Sb D} {snapbit : Option Nat}

theorem snapdev_ne_orgdev (sb : Sb D) : sb.snapdev ≠ .orgdev := by
  unfold Sb.snapdev
  split <;> decide

private theorem settled_congr (hc : sb'.combined = sb.combined) (hd : sb'.dev = sb.dev)
    (h1 : sb'.sourceChunk = sb.sourceChunk)
    (h2 : sb'.destException = sb.destException) (h3 : sb'.copyChunks = sb.copyChunks) : sb'.settled = sb.settled := by
  unfold Sb.settled finishCopyout Sb.snapdev
  rw [hc, hd, h1, h2, h3]
  split
  · exact hd
  · rfl

theorem settled_of_none (h : sb.copyChunks = 0) : sb.settled = sb.dev := by
  unfold Sb.settled finishCopyout
  rw [if_pos h]

theorem readOn_settled (h : sb.copyChunks = 0) (b c : Nat) : sb.readOn sb.settled b c = sb.readOn sb.dev b c := by
  rw [settled_of_none h]

/-- The devices outside the pending chunks. -/
theorem settled_outside (d : Device) (s : Nat)
    (h : d = sb.snapdev → ∀ k < sb.copyChunks, sb.destException + k ≠ s) : sb.settled d s = sb.dev d s := by
  unfold Sb.settled finishCopyout
  split
  · rfl
  · dsimp only
    by_cases hd : d = sb.snapdev
    · subst hd
      rw [Function.update_self, if_neg]
      rintro ⟨h1, h2⟩
      exact h rfl (s - sb.destException) (by omega) (by omega)
    · rw [Function.update_of_ne hd]

private theorem settled_dest {k : Nat} (hk : k < sb.copyChunks) : sb.settled sb.snapdev (sb.destException + k) =
    sb.dev (sb.sourceDev sb.sourceChunk) (sb.sourceChunk % highbit + k) := by
  unfold Sb.settled finishCopyout
  rw [if_neg (by omega)]
  dsimp only
  rw [Function.update_self, if_pos (by omega), Nat.add_sub_cancel_left]
  rfl

/-- What `copyout` does to the pending copies: the new one is the last. -/
theorem copyout_pending (sb : Sb D) (src r : Nat) :
    (copyout sb src r).sourceChunk + (copyout sb src r).copyChunks = src + 1 ∧
      ((copyout sb src r).sourceChunk = src ∨
        (copyout sb src r).sourceChunk = sb.sourceChunk ∧ sb.sourceChunk + sb.copyChunks = src) ∧
      ∀ k < (copyout sb src r).copyChunks, (copyout sb src r).destException + k = r ∨
        ∃ j < sb.copyChunks, (copyout sb src r).destException + k = sb.destException + j := by
  unfold copyout
  split
  · rename_i h
    obtain ⟨h1, h2, -⟩ := h
    refine ⟨by dsimp only; omega, .inr ⟨rfl, h1⟩, fun k hk => ?_⟩
    dsimp only at hk ⊢
    rcases Nat.lt_succ_iff_lt_or_eq.1 hk with hk | rfl
    · exact .inr ⟨k, hk, rfl⟩
    · exact .inl h2
  · refine ⟨rfl, .inl rfl, fun k hk => .inl ?_⟩
    dsimp only at hk ⊢
    omega

/-- A copy gives the new chunk the content of the source. -/
theorem copyout_settled (hsrc : src < 2 * highbit)
    (hold : sb.sourceChunk + sb.copyChunks < highbit ∨ highbit ≤ sb.sourceChunk)
    (hapart : highbit ≤ src → ∀ k < sb.copyChunks, sb.destException + k ≠ src - highbit) (d : Device) (s : Nat) :
    (copyout sb src r).settled d s = if d = sb.snapdev ∧ s = r then
      sb.settled (sb.sourceDev src) (src % highbit) else sb.settled d s := by
  by_cases h : sb.sourceChunk + sb.copyChunks = src ∧ sb.destException + sb.copyChunks = r ∧
      sb.copyChunks < sb.copybufChunks
  · obtain ⟨h1, h2, -⟩ := id h
    have hco : copyout sb src r = { sb with copyChunks := sb.copyChunks + 1 } := by
      unfold copyout
      rw [if_pos h]
    -- the source is on the device of the pending copies and is not pending itself
    have hside : (highbit ≤ sb.sourceChunk) = (highbit ≤ src) := by
      refine propext ⟨fun _ => by omega, fun _ => ?_⟩
      rcases hold with hold | hold <;> omega
    have hmod : sb.sourceChunk % highbit + sb.copyChunks = src % highbit := by
      by_cases hh : highbit ≤ src
      · have hh1 : highbit ≤ sb.sourceChunk := by rw [hside]; exact hh
        have e1 : sb.sourceChunk % highbit = sb.sourceChunk - highbit := by
          rw [Nat.mod_eq_sub_mod hh1, Nat.mod_eq_of_lt (by omega)]
        have e2 : src % highbit = src - highbit := by rw [Nat.mod_eq_sub_mod hh, Nat.mod_eq_of_lt (by omega)]
        omega
      · rw [Nat.mod_eq_of_lt (by omega), Nat.mod_eq_of_lt (by omega)]
        exact h1
    have hdev : sb.sourceDev sb.sourceChunk = sb.sourceDev src := by
      unfold Sb.sourceDev
      simp only [hside]
    have hraw : sb.settled (sb.sourceDev src) (src % highbit) = sb.dev (sb.sourceDev src) (src % highbit) := by
      refine settled_outside _ _ fun hd => ?_
      by_cases hh : highbit ≤ src
      · have e2 : src % highbit = src - highbit := by rw [Nat.mod_eq_sub_mod hh, Nat.mod_eq_of_lt (by omega)]
        rw [e2]
        exact hapart hh
      · rw [Sb.sourceDev, if_neg hh] at hd
        exact absurd hd.symm (snapdev_ne_orgdev sb)
    by_cases hnew : d = sb.snapdev ∧ s = r
    · obtain ⟨rfl, rfl⟩ := hnew
      rw [if_pos ⟨rfl, rfl⟩, hraw, hco, ← hmod, ← h2, ← hdev]
      exact @settled_dest D { sb with copyChunks := sb.copyChunks + 1 } sb.copyChunks (Nat.lt_succ_self _)
    · rw [if_neg hnew, hco]
      by_cases hin : d = sb.snapdev ∧ ∃ k < sb.copyChunks, sb.destException + k = s
      · obtain ⟨rfl, k, hk, rfl⟩ := hin
        have := @settled_dest D { sb with copyChunks := sb.copyChunks + 1 } k (Nat.lt_succ_of_lt hk)
        exact this.trans (settled_dest hk).symm
      · have h0 : sb.settled d s = sb.dev d s :=
          settled_outside d s fun hd k hk he => hin ⟨hd, k, hk, he⟩
        rw [h0]
        refine @settled_outside D { sb with copyChunks := sb.copyChunks + 1 } d s fun hd k hk he => ?_
        rcases Nat.lt_succ_iff_lt_or_eq.1 hk with hk | rfl
        · exact hin ⟨hd, k, hk, he⟩
        · exact hnew ⟨hd, he.symm.trans h2⟩
  · have hnew : (copyout sb src r).snapdev = sb.snapdev ∧ (copyout sb src r).sourceChunk = src ∧
        (copyout sb src r).destException = r ∧ (copyout sb src r).copyChunks = 1 ∧
        (copyout sb src r).dev = sb.settled := by
      unfold copyout
      rw [if_neg h]
      exact ⟨by rw [finishCopyout_eq]; rfl, rfl, rfl, rfl, rfl⟩
    obtain ⟨h1, h2, h3, h4, h5⟩ := hnew
    by_cases hnew : d = sb.snapdev ∧ s = r
    · obtain ⟨rfl, rfl⟩ := hnew
      have := settled_dest (by rw [h4]; decide : 0 < (copyout sb src s).copyChunks)
      rw [h1, h2, h3, h5] at this
      rw [if_pos ⟨rfl, rfl⟩]
      refine this.trans ?_
      unfold Sb.sourceDev
      rw [h1]
      rfl
    · rw [if_neg hnew, ← h5]
      refine settled_outside d s fun hd k hk he => hnew ⟨hd.trans h1, ?_⟩
      rw [h3] at he
      omega

end

/-! ### One chunk of a request -/

/-- The snapshots and the list of them are the same. -/
structure SameSnaps (sb sb' : Sb D) : Prop where
  snapmask : sb'.snapmask = sb.snapmask
  snaplist : sb'.image.snaplist = sb.image.snaplist
  snapshots : sb'.image.snapshots = sb.image.snapshots
  orgsectors : sb'.image.orgsectors = sb.image.orgsectors
  usecount : sb'.usecount = sb.usecount

theorem SameSnaps.refl (sb : Sb D) : SameSnaps sb sb := ⟨rfl, rfl, rfl, rfl, rfl⟩

theorem SameSnaps.trans {sb sb1 sb' : Sb D} (h1 : SameSnaps sb sb1) (h2 : SameSnaps sb1 sb') : SameSnaps sb sb' :=
  ⟨h2.snapmask.trans h1.snapmask, h2.snaplist.trans h1.snaplist, h2.snapshots.trans h1.snapshots,
    h2.orgsectors.trans h1.orgsectors, h2.usecount.trans h1.usecount⟩

theorem sameSnaps_of_core {sb sb' : Sb D} (h : sb'.core = sb.core) : SameSnaps sb sb' :=
  ⟨congrArg Core.snapmask h, congrArg Core.snaplist h, congrArg Core.snapshots h, congrArg Core.orgsectors h,
    congrArg Core.usecount h⟩

theorem sameSnaps_copyout (sb : Sb D) (src r : Nat) : SameSnaps sb (copyout sb src r) := by
  rw [copyout_eq]
  exact ⟨rfl, rfl, rfl, rfl, rfl⟩

private theorem Grown.sameSnaps {R : Nat} {changed : List Nat} {sb sb' : Sb D} (h : Grown R changed sb sb') :
    SameSnaps sb sb' :=
  ⟨congrArg Core.snapmask h.core, congrArg Core.snaplist h.core, congrArg Core.snapshots h.core,
    congrArg Core.orgsectors h.core, congrArg Core.usecount h.core⟩

/-- A combined store in order in the course of a request: `org` is the content of the origin, and `reads` is what the
live snapshots read. -/
structure Serving (R : Nat) (snapbit : Option Nat) (org : Nat → Block D) (reads : Nat → Nat → Block D) (sb : Sb D) :
    Prop where
  store : Store R sb
  combined : sb.combined = true
  small : sb.bitmapSize .snapdata ≤ highbit
  block : sb.image.snapdata.allocsizeBits < 32
  masks : sb.MasksOk
  pending : Pending snapbit sb
  origin : sb.dev .orgdev = org
  reads : ∀ b, hasBit sb.snapmask b = true → ∀ c < 2 ^ 32, sb.readOn sb.settled b c = reads b c

section
variable {R c r : Nat} {sb sb1 sb' : Sb D} {snapbit : Option Nat} {org : Nat → Block D} {reads : Nat → Nat → Block D}

/-- The source of a copy: the chunk of the origin when the caller reads the origin, else the exception that the caller
shares with others. -/
private theorem Serving.copySource (h : Serving R snapbit org reads sb) :
    (copySource c (findIn (sb.exns c) sb.snapmask snapbit).2 = c ∧ ∀ bit ∈ snapbit, storeChunk bit (sb.exns c) = none) ∨
      ∃ bit p, snapbit = some bit ∧ findShare (maskBit bit) (sb.exns c) = some p ∧ p ∈ sb.exns c ∧ p.chunk < highbit ∧
        Ddsnap.copySource c (findIn (sb.exns c) sb.snapmask snapbit).2 = p.chunk + highbit := by
  rw [findIn_snd]
  cases snapbit with
  | none => exact .inl ⟨rfl, by simp⟩
  | some bit =>
    cases hf : findShare (maskBit bit) (sb.exns c) with
    | none =>
      have hs : storeChunk bit (sb.exns c) = none := by unfold storeChunk; rw [hf]; rfl
      refine .inl ⟨?_, by simpa using hs⟩
      simp [Ddsnap.copySource, hs]
    | some p =>
      have hp : p ∈ sb.exns c := List.mem_of_find?_eq_some hf
      have hmem := chunk_mem_chunksOf hp
      have hpos : p.chunk ≠ 0 := by
        have := ((h.store.apart h.combined).placed _ hmem).1
        have := h.store.reserved.base
        have := h.store.reserved.metaArea
        omega
      have hs : storeChunk bit (sb.exns c) = some p.chunk := by unfold storeChunk; rw [hf]; rfl
      refine .inr ⟨bit, p, rfl, hf, hp, Nat.lt_of_lt_of_le (h.store.inside _ hmem) h.small, ?_⟩
      simp [Ddsnap.copySource, hs, hpos]

/-- A new chunk with the content that the caller reads leaves the reads as they are. -/
private theorem readOn_addException {dev dev' : Device → Nat → Block D}
    (hlive : ∀ b ∈ snapbit, hasBit sb.snapmask b = true)
    (hfresh : r ∉ chunksOf sb.view.content) (hsd : sb'.snapdev = sb.snapdev)
    (hex : ∀ c', sb'.exns c' = if c' = c then addException (sb.exns c) r snapbit sb.snapmask else sb.exns c')
    (hdev : ∀ d s, ¬(d = sb.snapdev ∧ s = r) → dev' d s = dev d s)
    (hnew : dev' sb.snapdev r = match snapbit with | none => dev .orgdev c | some bit => sb.readOn dev bit c)
    {b : Nat} (hb : hasBit sb.snapmask b = true) (c' : Nat) : sb'.readOn dev' b c' = sb.readOn dev b c' := by
  have hlt := hasBit_lt hb
  have horg : ∀ s, dev' .orgdev s = dev .orgdev s := fun s => hdev _ _ fun h => snapdev_ne_orgdev sb h.1.symm
  -- a snapshot that does not get the new chunk reads what it did
  have hsame : storeChunk b (sb'.exns c') = storeChunk b (sb.exns c') → sb'.readOn dev' b c' = sb.readOn dev b c' := by
    intro h
    unfold Sb.readOn
    rw [h, hsd]
    cases he : storeChunk b (sb.exns c') with
    | none => exact horg c'
    | some e =>
      obtain ⟨p, hp, rfl⟩ := storeChunk_mem he
      exact hdev _ _ fun hr => hfresh (hr.2 ▸ chunk_mem_chunksOf hp)
  by_cases hc : c' = c
  swap
  · exact hsame (by rw [hex, if_neg hc])
  subst hc
  have hget : storeChunk b (sb'.exns c') = some r → dev' sb.snapdev r = sb.readOn dev b c' →
      sb'.readOn dev' b c' = sb.readOn dev b c' := by
    intro h1 h2
    rw [← h2]
    unfold Sb.readOn
    rw [h1, hsd]
  cases snapbit with
  | none =>
    have hst := storeChunk_addOrigin hlt (sb.exns c') r sb.snapmask
    have hx := hex c'
    rw [if_pos rfl] at hx
    rw [← hx] at hst
    by_cases hn : storeChunk b (sb.exns c') = none
    · rw [if_pos ⟨hn, hb⟩] at hst
      refine hget hst (hnew.trans ?_)
      unfold Sb.readOn
      rw [hn]
    · rw [if_neg (fun h => hn h.1)] at hst
      exact hsame hst
  | some bit =>
    have hst := storeChunk_addSnapshot (hasBit_lt (hlive bit rfl)) hlt (sb.exns c') r sb.snapmask
    have hx := hex c'
    rw [if_pos rfl] at hx
    rw [← hx] at hst
    by_cases hbb : b = bit
    · subst hbb
      rw [if_pos rfl] at hst
      exact hget hst hnew
    · rw [if_neg hbb] at hst
      exact hsame hst

/-- `make_unique` after its check for free space: the store stays in order, the chunk is granted, and the chunks that were
granted before stay so. -/
theorem Serving.unique (h : Serving R snapbit org reads sb) (hlive : ∀ b ∈ snapbit, hasBit sb.snapmask b = true)
    (hc : c < 2 ^ 32) (hw : WideSplit sb c snapbit) (hu : uniqueException sb c snapbit = some (some r, sb')) :
    Serving R snapbit org reads sb' ∧ SameSnaps sb sb' ∧ Granted sb' c r snapbit ∧
      ∀ c' r', Granted sb c' r' snapbit → Granted sb' c' r' snapbit := by
  obtain ⟨hs', hcases⟩ := h.store.unique hc hw hu
  rcases hcases with ⟨h1, rfl, rfl⟩ | ⟨h1, sb1, ha, hg, hcont⟩
  · exact ⟨h, .refl _, (granted_iff hlive).1 h1, fun _ _ hg => hg⟩
  obtain ⟨hq, hdev, -⟩ := allocChunk_spec h.store.reserved ha
  obtain ⟨-, -, -, -, hown⟩ := h.store.newChunk ha
  obtain ⟨-, -, -, -, -, hfresh⟩ := hown h.combined
  have hsrc := h.copySource (c := c)
  generalize Ddsnap.copySource c (findIn (sb.exns c) sb.snapmask snapbit).2 = src at hg hsrc
  have hex := exns_addEntry h.store hcont
  have hsame : SameSnaps sb sb' := ((sameSnaps_of_core hq.core).trans (sameSnaps_copyout sb1 src r)).trans hg.sameSnaps
  obtain ⟨hm', hgr, hkeep⟩ := masks_addException h.masks hlive hsame.snapmask h1 hex
  have hold : sb1.sourceChunk = sb.sourceChunk ∧ sb1.destException = sb.destException ∧
      sb1.copyChunks = sb.copyChunks :=
    ⟨congrArg Core.sourceChunk hq.core, congrArg Core.destException hq.core, congrArg Core.copyChunks hq.core⟩
  have hset1 : sb1.settled = sb.settled :=
    settled_congr (core_combined hq.core) hdev hold.1 hold.2.1 hold.2.2
  have hlast : sb'.sourceChunk = (Ddsnap.copyout sb1 src r).sourceChunk ∧
      sb'.destException = (Ddsnap.copyout sb1 src r).destException ∧
      sb'.copyChunks = (Ddsnap.copyout sb1 src r).copyChunks :=
    ⟨congrArg Core.sourceChunk hg.core, congrArg Core.destException hg.core, congrArg Core.copyChunks hg.core⟩
  have hset' : sb'.settled = (Ddsnap.copyout sb1 src r).settled :=
    settled_congr hg.combined hg.dev hlast.1 hlast.2.1 hlast.2.2
  have hsd1 : sb1.snapdev = sb.snapdev := core_snapdev hq.core
  have hcomb2 : (Ddsnap.copyout sb1 src r).combined = sb.combined := by
    rw [← core_combined hq.core]
    unfold Sb.combined
    rw [(copyout_fixed sb1 src r).2.1]
  have hcomb' : sb'.combined = sb.combined := hg.combined.trans hcomb2
  have hsd' : sb'.snapdev = sb.snapdev := by unfold Sb.snapdev; rw [hcomb']
  -- a shared exception is not the target of a pending copy
  have hapart : highbit ≤ src → ∀ k < sb1.copyChunks, sb1.destException + k ≠ src - highbit := by
    intro hh k hk he
    rcases hsrc with ⟨rfl, -⟩ | ⟨bit, p, rfl, hf, hp, -, rfl⟩
    · unfold highbit at hh
      omega
    · rw [hold.2.2] at hk
      rw [hold.2.1, Nat.add_sub_cancel] at he
      obtain ⟨c', hq⟩ := h.pending.dest bit rfl k hk
      obtain ⟨-, rfl⟩ := exnsAt_inj (h.store.apart h.combined).nodup hp hq he.symm
      have := (granted_iff (c := c) hlive).2 (by
        simp only [Granted, findIn_snd, Option.bind_some, storeChunk, hf]
        rfl)
      rw [h1] at this
      cases this
  have hsmall : src < 2 * highbit := by
    rcases hsrc with ⟨rfl, -⟩ | ⟨-, p, -, -, -, hp, rfl⟩
    · unfold highbit
      omega
    · omega
  have hlow : sb1.sourceChunk + sb1.copyChunks < highbit ∨ highbit ≤ sb1.sourceChunk := by
    rw [hold.1, hold.2.2]
    refine h.pending.source.imp (fun h => ?_) id
    unfold highbit
    omega
  have hcopy : ∀ d s, sb'.settled d s = if d = sb.snapdev ∧ s = r then
      sb.settled (sb1.sourceDev src) (src % highbit) else sb.settled d s := by
    rw [hset', ← hset1, ← hsd1]
    exact copyout_settled hsmall hlow hapart
  obtain ⟨hsum, hstart, hdest⟩ := copyout_pending sb1 src r
  rw [← hlast.1, ← hlast.2.2] at hsum
  rw [← hlast.1, hold.1, hold.2.2] at hstart
  rw [← hlast.2.1, ← hlast.2.2, hold.2.1, hold.2.2] at hdest
  refine ⟨⟨hs', hcomb'.trans h.combined, ?_, ?_, hm', ?_, ?_, ?_⟩, hsame, hgr, fun c' r' hgr' => (hkeep c' r' hgr').2⟩
  · have : sb'.bitmapSize .snapdata = ((Ddsnap.copyout sb1 src r).reroot _ _).bitmapSize .snapdata :=
      core_bitmapSize hg.core _
    rw [this]
    show (Ddsnap.copyout sb1 src r).bitmapSize .snapdata ≤ _
    rw [(copyout_fixed sb1 src r).2.2.2.2.2, core_bitmapSize hq.core]
    exact h.small
  · have : sb'.image.snapdata.allocsizeBits = ((Ddsnap.copyout sb1 src r).reroot _ _).image.snapdata.allocsizeBits :=
      (core_snapdata hg.core).2.2.2
    rw [this]
    show (Ddsnap.copyout sb1 src r).image.snapdata.allocsizeBits < 32
    rw [(copyout_fixed sb1 src r).2.1, (core_snapdata hq.core).2.2.2]
    exact h.block
  · refine ⟨?_, fun bit hbit k hk => ?_⟩
    · rcases hsrc with ⟨rfl, -⟩ | ⟨-, p, -, -, -, -, rfl⟩
      · exact .inl (by omega)
      · refine .inr ?_
        rcases hstart with hst | ⟨hst, hst2⟩
        · omega
        · rcases h.pending.source with hlo | hhi
          · unfold highbit at hst2
            omega
          · omega
    · rw [Option.mem_def] at hbit
      subst hbit
      rcases hdest k hk with he | ⟨j, hj, he⟩
      · exact ⟨c, he ▸ List.mem_of_find?_eq_some hgr⟩
      · obtain ⟨c', hc'⟩ := h.pending.dest bit rfl j hj
        have hb : hasBit (maskBit bit) bit = true := by simp [hasBit_lt (hlive bit rfl)]
        exact ⟨c', he ▸ List.mem_of_find?_eq_some (hkeep c' _ ((h.masks c').findShare_eq hc' hb)).2⟩
  · funext s
    have h0 : sb'.settled .orgdev s = sb.settled .orgdev s := by
      rw [hcopy, if_neg fun h => snapdev_ne_orgdev sb h.1.symm]
    rw [settled_outside _ _ fun hd => absurd hd.symm (snapdev_ne_orgdev sb'),
      settled_outside _ _ fun hd => absurd hd.symm (snapdev_ne_orgdev sb)] at h0
    rw [h0, h.origin]
  · intro b hb c' hc'
    rw [hsame.snapmask] at hb
    rw [← h.reads b hb c' hc']
    refine readOn_addException hlive hfresh hsd' hex (fun d s hn => by rw [hcopy, if_neg hn]) ?_ hb c'
    rw [hcopy, if_pos ⟨rfl, rfl⟩]
    -- the source holds what the caller reads
    rcases hsrc with ⟨rfl, hn⟩ | ⟨bit, p, rfl, hf, -, hp, rfl⟩
    · have hlt : src < highbit := by unfold highbit; omega
      have hdev : sb1.sourceDev src = .orgdev := if_neg (by omega)
      rw [hdev, Nat.mod_eq_of_lt hlt]
      cases snapbit with
      | none => rfl
      | some bit =>
        simp only [Sb.readOn, hn bit rfl]
    · have hdev : sb1.sourceDev (p.chunk + highbit) = sb.snapdev := (if_pos (by omega)).trans hsd1
      rw [hdev, Nat.add_mod_right, Nat.mod_eq_of_lt hp]
      simp only [Sb.readOn, storeChunk, hf, Option.map_some]

end

/-! ### New snapshots -/

/-- What `create_snapshot` amounts to once there is room in the list: it fails and changes nothing, or it lists a
snapshot with a new tag and a bit that was not in use. -/
theorem createSnapshot_cases {sb sb1 sb' : Sb D} {tag : Nat} {bit : Option Nat} (hroom : makeRoom sb = some sb1)
    (h : createSnapshot sb tag = some (bit, sb')) :
    (bit = none ∧ sb' = sb1) ∨
      ∃ b snap, bit = some b ∧ b < 64 ∧ hasBit sb1.snapmask b = false ∧ snap.tag = tag ∧ snap.bit = b ∧
        snap.usecount = 0 ∧ (∀ i < sb1.image.snapshots, (sb1.image.snaplist i).tag ≠ tag) ∧
        sb' = setSbDirty { sb1 with
          snapmask := sb1.snapmask ||| maskBit b
          image := { sb1.image with
            snaplist := Function.update sb1.image.snaplist sb1.image.snapshots snap
            snapshots := sb1.image.snapshots + 1 } } := by
  unfold createSnapshot at h
  simp only [hroom, Option.bind_eq_bind, Option.bind_some] at h
  split at h
  · cases h
    exact .inl ⟨rfl, rfl⟩
  split at h
  · cases h
    exact .inl ⟨rfl, rfl⟩
  rename_i htag
  split at h
  · cases h
    exact .inl ⟨rfl, rfl⟩
  · rename_i b hb
    simp only [pure, Option.some.injEq, Prod.mk.injEq] at h
    obtain ⟨rfl, rfl⟩ := h
    unfold freeBit at hb
    have hlt : b < 64 := List.mem_range.1 (List.mem_of_find?_eq_some hb)
    have hfree : sb1.snapmask &&& maskBit b = 0 := by simpa using List.find?_some hb
    refine .inr ⟨b, _, rfl, hlt, ?_, rfl, rfl, rfl, fun i hi he => htag ?_, rfl⟩
    · exact Bool.eq_false_iff.2 fun hn => (and_maskBit_ne hlt).2 hn hfree
    · unfold findSnap
      rw [List.find?_isSome]
      exact ⟨i, List.mem_range.2 hi, by simpa using he⟩

end Ddsnap
