import Ddsnap.Daemon
import Ddsnap.MakeUnique

/-!
# The snapshot list and the transient use counts

The books that tie the snapshot list, the bits, the transient use counts and the clients together (`Tally`): the use
count of the bit of a live snapshot is the number of clients that are marked and carry its tag.  Deleting an entry keeps
them if no marked client carries its tag, and squashing a live snapshot keeps them in any case.  Automatic deletion only
does these two, so that no request breaks the books.
-/

namespace Ddsnap

variable {D : Type} {sb sb' : Sb D} {clients : List Client}

/-! ### The books -/

/-- The listed snapshots. -/
def Sb.entries (sb : Sb D) : List Snapshot := (List.range sb.image.snapshots).map sb.image.snaplist

/-- The number of clients that are marked and carry a tag. -/
def tagged (clients : List Client) (tag : Nat) : Nat := clients.countP fun client => client.snapclient ∧ client.snaptag = tag

/-- The list, the use counts, the mask of the live snapshots and the clients fit together. -/
structure Tally (entries : List Snapshot) (usecount : Nat → Nat) (snapmask : Mask) (clients : List Client) : Prop where
  tags : (entries.map Snapshot.tag).Nodup
  live : ∀ e ∈ entries, isSquashed e = false → hasBit snapmask e.bit = true
  owners : entries.Pairwise fun x y => isSquashed x = false → isSquashed y = false → x.bit ≠ y.bit
  small : ∀ e ∈ entries, e.usecount < 2 ^ 16 ∧ (isSquashed e = false → usecount e.bit + e.usecount < 2 ^ 16)
  unowned : ∀ b, (∀ e ∈ entries, isSquashed e = false → e.bit ≠ b) → usecount b = 0
  counts : ∀ e ∈ entries, isSquashed e = false → usecount e.bit = tagged clients e.tag
  carried : ∀ client ∈ clients, client.snapclient → ∃ e ∈ entries, e.tag = client.snaptag

section

variable {entries rest : List Snapshot} {usecount : Nat → Nat} {snapmask : Mask} {e : Snapshot}

theorem tagged_eq_zero {tag : Nat} :
    tagged clients tag = 0 ↔ ∀ client ∈ clients, client.snapclient → client.snaptag ≠ tag := by
  simp [tagged, List.countP_eq_zero]

private theorem Tally.perm {entries' : List Snapshot} (h : Tally entries usecount snapmask clients)
    (hp : entries.Perm entries') : Tally entries' usecount snapmask clients where
  tags := (hp.map Snapshot.tag).nodup_iff.1 h.tags
  live e he := h.live e (hp.mem_iff.2 he)
  owners := hp.pairwise h.owners fun hxy hx hy => (hxy hy hx).symm
  small e he := h.small e (hp.mem_iff.2 he)
  unowned b hb := h.unowned b fun e he => hb e (hp.mem_iff.1 he)
  counts e he := h.counts e (hp.mem_iff.2 he)
  carried client hc hm := by
    obtain ⟨e, he, ht⟩ := h.carried client hc hm
    exact ⟨e, hp.mem_iff.1 he, ht⟩

private theorem maskBit_apart {b b' : Nat} {mask : Mask} (hb : hasBit mask b = true) (hb' : b' < 64) (hne : b ≠ b') :
    hasBit (mask &&& ~~~(maskBit b')) b = true := by
  simp [hb, hasBit_lt hb, hb', hne]

private theorem Tally.others (h : Tally (e :: rest) usecount snapmask clients) (he : isSquashed e = false) :
    ∀ x ∈ rest, isSquashed x = false → x.bit ≠ e.bit := fun x hx hs =>
  ((List.pairwise_cons.1 h.owners).1 x hx he hs).symm

private theorem Tally.freeBit (h : Tally (e :: rest) usecount snapmask clients) (he : isSquashed e = false) :
    (∀ x ∈ rest, isSquashed x = false → hasBit (snapmask &&& ~~~(maskBit e.bit)) x.bit = true) ∧
      (∀ x ∈ rest, isSquashed x = false → Function.update usecount e.bit 0 x.bit = usecount x.bit) ∧
      ∀ b, (∀ x ∈ rest, isSquashed x = false → x.bit ≠ b) → Function.update usecount e.bit 0 b = 0 := by
  refine ⟨fun x hx hs => ?_, fun x hx hs => ?_, fun b hb => ?_⟩
  · exact maskBit_apart (h.live x (List.mem_cons_of_mem _ hx) hs) (hasBit_lt (h.live e List.mem_cons_self he))
      (h.others he x hx hs)
  · exact Function.update_of_ne (h.others he x hx hs) ..
  · rcases eq_or_ne b e.bit with rfl | hne
    · exact Function.update_self ..
    · rw [Function.update_of_ne hne]
      refine h.unowned b fun x hx hs => ?_
      rcases List.mem_cons.1 hx with rfl | hx
      · exact hne.symm
      · exact hb x hx hs

private theorem Tally.carried_tail (h : Tally (e :: rest) usecount snapmask clients) (hc : tagged clients e.tag = 0) :
    ∀ client ∈ clients, client.snapclient → ∃ x ∈ rest, x.tag = client.snaptag := by
  intro client hm hs
  obtain ⟨x, hx, ht⟩ := h.carried client hm hs
  rcases List.mem_cons.1 hx with rfl | hx
  · exact absurd ht.symm (tagged_eq_zero.1 hc client hm hs)
  · exact ⟨x, hx, ht⟩

private theorem Tally.delete (h : Tally (e :: rest) usecount snapmask clients) (he : isSquashed e = false)
    (hc : tagged clients e.tag = 0) :
    Tally rest (Function.update usecount e.bit 0) (snapmask &&& ~~~(maskBit e.bit)) clients := by
  obtain ⟨hlive, hcount, hfree⟩ := h.freeBit he
  refine ⟨(List.nodup_cons.1 h.tags).2, hlive, (List.pairwise_cons.1 h.owners).2, fun x hx => ?_, hfree,
    fun x hx hs => ?_, h.carried_tail hc⟩
  · obtain ⟨h1, h2⟩ := h.small x (List.mem_cons_of_mem _ hx)
    exact ⟨h1, fun hs => by rw [hcount x hx hs]; exact h2 hs⟩
  · rw [hcount x hx hs]
    exact h.counts x (List.mem_cons_of_mem _ hx) hs

private theorem Tally.deleteSquashed (h : Tally (e :: rest) usecount snapmask clients) (he : isSquashed e = true)
    (hc : tagged clients e.tag = 0) : Tally rest usecount snapmask clients := by
  refine ⟨(List.nodup_cons.1 h.tags).2, fun x hx => h.live x (List.mem_cons_of_mem _ hx),
    (List.pairwise_cons.1 h.owners).2, fun x hx => h.small x (List.mem_cons_of_mem _ hx), fun b hb => ?_,
    fun x hx => h.counts x (List.mem_cons_of_mem _ hx), h.carried_tail hc⟩
  refine h.unowned b fun x hx hs => ?_
  rcases List.mem_cons.1 hx with rfl | hx
  · rw [he] at hs
    cases hs
  · exact hb x hx hs

/-- A live snapshot is squashed: its entry stays, and its clients are not counted any more. -/
private theorem Tally.squash (h : Tally (e :: rest) usecount snapmask clients) (he : isSquashed e = false) :
    Tally ({ e with bit := snapshotSquashed } :: rest) (Function.update usecount e.bit 0)
      (snapmask &&& ~~~(maskBit e.bit)) clients := by
  obtain ⟨hlive, hcount, hfree⟩ := h.freeBit he
  have hsq : isSquashed { e with bit := snapshotSquashed } = true := by simp [isSquashed]
  refine ⟨h.tags, ?_, ?_, ?_, fun b hb => hfree b fun x hx => hb x (List.mem_cons_of_mem _ hx), ?_,
    fun client hm hs => ?_⟩
  · intro x hx hs
    rcases List.mem_cons.1 hx with rfl | hx
    · rw [hsq] at hs
      cases hs
    · exact hlive x hx hs
  · refine List.pairwise_cons.2 ⟨fun x _ hs => ?_, (List.pairwise_cons.1 h.owners).2⟩
    rw [hsq] at hs
    cases hs
  · intro x hx
    rcases List.mem_cons.1 hx with rfl | hx
    · refine ⟨(h.small e List.mem_cons_self).1, fun hs => ?_⟩
      rw [hsq] at hs
      cases hs
    · obtain ⟨h1, h2⟩ := h.small x (List.mem_cons_of_mem _ hx)
      exact ⟨h1, fun hs => by rw [hcount x hx hs]; exact h2 hs⟩
  · intro x hx hs
    rcases List.mem_cons.1 hx with rfl | hx
    · rw [hsq] at hs
      cases hs
    · rw [hcount x hx hs]
      exact h.counts x (List.mem_cons_of_mem _ hx) hs
  · obtain ⟨x, hx, ht⟩ := h.carried client hm hs
    rcases List.mem_cons.1 hx with rfl | hx
    · exact ⟨_, List.mem_cons_self, ht⟩
    · exact ⟨x, List.mem_cons_of_mem _ hx, ht⟩

/-- A new snapshot gets a bit that no live one has, and a tag that nobody carries. -/
private theorem Tally.create (h : Tally entries usecount snapmask clients) (hbit : hasBit snapmask e.bit = false)
    (hlt : e.bit < maxSnapshots) (hcount : e.usecount = 0) (htag : e.tag ∉ entries.map Snapshot.tag) :
    Tally (e :: entries) usecount (snapmask ||| maskBit e.bit) clients := by
  have hother : ∀ x ∈ entries, isSquashed x = false → x.bit ≠ e.bit := by
    intro x hx hs heq
    have := h.live x hx hs
    rw [heq, hbit] at this
    cases this
  have hzero : usecount e.bit = 0 := h.unowned e.bit hother
  have hnobody : tagged clients e.tag = 0 := tagged_eq_zero.2 fun client hm hs ht => by
    obtain ⟨x, hx, hxt⟩ := h.carried client hm hs
    exact htag (List.mem_map.2 ⟨x, hx, hxt.trans ht⟩)
  refine ⟨List.nodup_cons.2 ⟨htag, h.tags⟩, ?_, ?_, ?_, fun b hb => ?_, ?_, fun client hm hs => ?_⟩
  · intro x hx hs
    rcases List.mem_cons.1 hx with rfl | hx
    · have : x.bit < 64 := hlt
      simp [this]
    · simp [h.live x hx hs]
  · exact List.pairwise_cons.2 ⟨fun x hx _ hs => (hother x hx hs).symm, h.owners⟩
  · intro x hx
    rcases List.mem_cons.1 hx with rfl | hx
    · exact ⟨by omega, fun _ => by omega⟩
    · exact h.small x hx
  · exact h.unowned b fun x hx => hb x (List.mem_cons_of_mem _ hx)
  · intro x hx hs
    rcases List.mem_cons.1 hx with rfl | hx
    · rw [hzero, hnobody]
    · exact h.counts x hx hs
  · obtain ⟨x, hx, ht⟩ := h.carried client hm hs
    exact ⟨x, List.mem_cons_of_mem _ hx, ht⟩

private theorem Tally.modify {e' : Snapshot} (h : Tally (e :: rest) usecount snapmask clients) (htag : e'.tag = e.tag)
    (hbit : e'.bit = e.bit) (hsmall : e'.usecount < 2 ^ 16)
    (hsum : isSquashed e = false → usecount e.bit + e'.usecount < 2 ^ 16) :
    Tally (e' :: rest) usecount snapmask clients := by
  have hsq : isSquashed e' = isSquashed e := by simp only [isSquashed, hbit]
  refine ⟨?_, ?_, ?_, ?_, fun b hb => h.unowned b ?_, ?_, fun client hm hs => ?_⟩
  · simpa [htag] using h.tags
  · simpa [hsq, hbit] using h.live
  · simpa [hsq, hbit] using h.owners
  · intro x hx
    rcases List.mem_cons.1 hx with rfl | hx
    · exact ⟨hsmall, fun hs => hbit ▸ hsum (hsq ▸ hs)⟩
    · exact h.small x (List.mem_cons_of_mem _ hx)
  · simpa [hsq, hbit] using hb
  · simpa [hsq, hbit, htag] using h.counts
  · simpa [htag] using h.carried client hm hs

/-! ### The books and the clients -/

variable {client : Client}

theorem Tally.permClients {clients' : List Client} (h : Tally entries usecount snapmask clients)
    (hp : clients.Perm clients') : Tally entries usecount snapmask clients' :=
  { h with
    counts := fun e he hs => (h.counts e he hs).trans (hp.countP_eq _)
    carried := fun client hm => h.carried client (hp.mem_iff.2 hm) }

private theorem tagged_cons (client : Client) (tag : Nat) : tagged (client :: clients) tag =
    tagged clients tag + if client.snapclient ∧ client.snaptag = tag then 1 else 0 := by
  simp [tagged, List.countP_cons]

/-- A client that is not counted: it is not marked, or carries the tag of a squashed snapshot. -/
def Uncounted (entries : List Snapshot) (client : Client) : Prop :=
  client.snapclient → ∃ e ∈ entries, e.tag = client.snaptag ∧ isSquashed e = true

private theorem Uncounted.tagged_eq (hc : Uncounted entries client) (htags : (entries.map Snapshot.tag).Nodup)
    {x : Snapshot}
    (hx : x ∈ entries) (hs : isSquashed x = false) : tagged (client :: clients) x.tag = tagged clients x.tag := by
  rw [tagged_cons, if_neg, Nat.add_zero]
  rintro ⟨hm, ht⟩
  obtain ⟨e, he, het, hes⟩ := hc hm
  rw [List.inj_on_of_nodup_map htags he hx (het.trans ht), hs] at hes
  cases hes

theorem Tally.add (h : Tally entries usecount snapmask clients) (hc : Uncounted entries client) :
    Tally entries usecount snapmask (client :: clients) :=
  { h with
    counts := fun x hx hs => (h.counts x hx hs).trans (hc.tagged_eq h.tags hx hs).symm
    carried := fun other hm hs => by
      rcases List.mem_cons.1 hm with rfl | hm
      · obtain ⟨e, he, ht, -⟩ := hc hs
        exact ⟨e, he, ht⟩
      · exact h.carried other hm hs }

theorem Tally.forget (h : Tally entries usecount snapmask (client :: clients)) (hc : Uncounted entries client) :
    Tally entries usecount snapmask clients :=
  { h with
    counts := fun x hx hs => (h.counts x hx hs).trans (hc.tagged_eq h.tags hx hs)
    carried := fun other hm => h.carried other (List.mem_cons_of_mem _ hm) }

/-- The counter of a live snapshot is set, for the clients that it then has. -/
private theorem Tally.recount {clients' : List Client} (h : Tally entries usecount snapmask clients) (he : e ∈ entries)
    (hlive : isSquashed e = false) {n : Nat} (hn : n = tagged clients' e.tag) (hsum : n + e.usecount < 2 ^ 16)
    (hothers : ∀ tag ≠ e.tag, tagged clients' tag = tagged clients tag)
    (hcarried : ∀ client ∈ clients', client.snapclient → ∃ x ∈ entries, x.tag = client.snaptag) :
    Tally entries (Function.update usecount e.bit n) snapmask clients' := by
  have hbit : ∀ x ∈ entries, isSquashed x = false → x ≠ e → x.bit ≠ e.bit := fun x hx hs hne =>
    (h.perm (List.perm_cons_erase he)).others hlive x ((List.mem_erase_of_ne hne).2 hx) hs
  refine ⟨h.tags, h.live, h.owners, fun x hx => ⟨(h.small x hx).1, fun hs => ?_⟩, fun b hb => ?_, fun x hx hs => ?_,
    hcarried⟩
  · by_cases hxe : x = e
    · rw [hxe, Function.update_self]
      exact hsum
    · rw [Function.update_of_ne (hbit x hx hs hxe)]
      exact (h.small x hx).2 hs
  · rw [Function.update_of_ne (hb e he hlive).symm]
    exact h.unowned b hb
  · by_cases hxe : x = e
    · rw [hxe, Function.update_self, hn]
    · rw [Function.update_of_ne (hbit x hx hs hxe), hothers, h.counts x hx hs]
      exact fun ht => hxe (List.inj_on_of_nodup_map h.tags hx he ht)

/-- A client is marked for a live snapshot, and counted. -/
theorem Tally.addCounted (h : Tally entries usecount snapmask clients) (he : e ∈ entries)
    (hlive : isSquashed e = false) (hm : client.snapclient) (ht : client.snaptag = e.tag)
    (hsum : usecount e.bit + 1 + e.usecount < 2 ^ 16) :
    Tally entries (Function.update usecount e.bit (usecount e.bit + 1)) snapmask (client :: clients) := by
  refine h.recount he hlive ?_ hsum (fun tag hne => ?_) fun other hother hs => ?_
  · rw [tagged_cons, if_pos ⟨hm, ht⟩, h.counts e he hlive]
  · rw [tagged_cons, if_neg fun hc => hne (hc.2.symm.trans ht), Nat.add_zero]
  · rcases List.mem_cons.1 hother with rfl | hother
    · exact ⟨e, he, ht.symm⟩
    · exact h.carried other hother hs

/-- The count of the snapshot of a counted client is positive, and goes down with the client. -/
theorem Tally.forgetCounted (h : Tally entries usecount snapmask (client :: clients)) (he : e ∈ entries)
    (hlive : isSquashed e = false) (hm : client.snapclient) (ht : client.snaptag = e.tag) :
    usecount e.bit ≠ 0 ∧
      Tally entries (Function.update usecount e.bit (usecount e.bit - 1)) snapmask clients := by
  have hcount : usecount e.bit = tagged clients e.tag + 1 := by
    rw [h.counts e he hlive, tagged_cons, if_pos ⟨hm, ht⟩]
  refine ⟨by omega, h.recount he hlive (by omega) ?_ (fun tag hne => ?_) fun other hother hs => ?_⟩
  · have := (h.small e he).2 hlive
    omega
  · rw [tagged_cons, if_neg fun hc => hne (hc.2.symm.trans ht), Nat.add_zero]
  · exact h.carried other (List.mem_cons_of_mem _ hother) hs

end

/-! ### The snapshot list of the superblock -/

/-- The books of a store. -/
def Sb.Tallied (sb : Sb D) (clients : List Client) : Prop := Tally sb.entries sb.usecount sb.snapmask clients

private theorem Sb.Tallied.same (h : sb.Tallied clients) (hs : SameSnaps sb sb') : sb'.Tallied clients := by
  unfold Sb.Tallied Sb.entries
  rw [hs.snaplist, hs.snapshots, hs.usecount, hs.snapmask]
  exact h

theorem Frame.sameSnaps (h : Frame sb sb') : SameSnaps sb sb' :=
  ⟨congrArg Core.snapmask h.kept, congrArg Core.snaplist h.kept, congrArg Core.snapshots h.kept,
    congrArg Core.orgsectors h.kept, congrArg Core.usecount h.kept⟩

private theorem sameSnaps_saveSb (sb : Sb D) : SameSnaps sb (saveSb sb) := by
  unfold saveSb
  split <;> exact ⟨rfl, rfl, rfl, rfl, rfl⟩

/-- `delete_tree_range` takes the deleted snapshots out of the mask. -/
theorem deleteTreeRange_sameSnaps {mask : Mask} {resume : Nat} (h : deleteTreeRange sb mask resume = some sb') :
    SameSnaps { sb with snapmask := sb.snapmask &&& ~~~mask } sb' := by
  obtain ⟨sb1, hf, rfl⟩ := deleteTreeRange_cases h
  have hs := hf.sameSnaps
  have hmask : SameSnaps { sb with snapmask := sb.snapmask &&& ~~~mask }
      (setSbDirty { sb1 with snapmask := sb1.snapmask &&& ~~~mask }) :=
    ⟨congrArg (· &&& ~~~mask) hs.snapmask, hs.snaplist, hs.snapshots, hs.orgsectors, hs.usecount⟩
  exact hmask.trans (sameSnaps_saveSb _)

theorem snaplist_mem_entries {i : Nat} (hi : i < sb.image.snapshots) : sb.image.snaplist i ∈ sb.entries :=
  List.mem_map_of_mem (List.mem_range.2 hi)

/-- An entry in front of the others. -/
theorem entries_perm {i : Nat} (hi : i < sb.image.snapshots) :
    sb.entries.Perm (sb.image.snaplist i :: sb.entries.eraseIdx i) := by
  have hlen : i < sb.entries.length := by simpa [Sb.entries] using hi
  have hget : sb.entries[i] = sb.image.snaplist i := by simp [Sb.entries]
  rw [← hget]
  exact (List.getElem_cons_eraseIdx_perm hlen).symm

theorem entries_removeSlot {i : Nat} (hi : i < sb.image.snapshots) :
    (List.range (removeSlot sb.image i).snapshots).map (removeSlot sb.image i).snaplist = sb.entries.eraseIdx i := by
  apply List.ext_getElem
  · simp [removeSlot, Sb.entries, List.length_eraseIdx, hi]
  · intro j h1 h2
    have hj : j < sb.image.snapshots - 1 := by simpa [removeSlot] using h1
    rw [List.getElem_eraseIdx]
    by_cases hij : i ≤ j
    · simp [removeSlot, Sb.entries, hij, hj, Nat.not_lt.2 hij]
    · simp [removeSlot, Sb.entries, hij, Nat.lt_of_not_le hij]

theorem entries_set {i : Nat} (e : Snapshot) :
    (List.range sb.image.snapshots).map (Function.update sb.image.snaplist i e) = sb.entries.set i e := by
  apply List.ext_getElem
  · simp [Sb.entries]
  · intro j h1 h2
    rw [List.getElem_set]
    by_cases hij : i = j
    · simp [hij]
    · have hji : j ≠ i := fun e => hij e.symm
      simp [Sb.entries, hij, Function.update_of_ne hji]

theorem entries_update {i : Nat} (hi : i < sb.image.snapshots) (e : Snapshot) :
    ((List.range sb.image.snapshots).map (Function.update sb.image.snaplist i e)).Perm
      (e :: sb.entries.eraseIdx i) := by
  rw [entries_set]
  have hlen : i < (sb.entries.set i e).length := by simpa [Sb.entries] using hi
  have hp := (List.getElem_cons_eraseIdx_perm hlen).symm
  rwa [List.getElem_set_self, List.eraseIdx_set_eq] at hp

theorem entries_append (e : Snapshot) :
    (List.range (sb.image.snapshots + 1)).map (Function.update sb.image.snaplist sb.image.snapshots e) =
      sb.entries ++ [e] := by
  have hold : (List.range sb.image.snapshots).map (Function.update sb.image.snaplist sb.image.snapshots e) =
      sb.entries := List.map_congr_left fun i hi => Function.update_of_ne (Nat.ne_of_lt (List.mem_range.1 hi)) ..
  rw [List.range_succ, List.map_append, hold, List.map_singleton, Function.update_self]

theorem entries_push (e : Snapshot) : (e :: sb.entries).Perm
    ((List.range (sb.image.snapshots + 1)).map (Function.update sb.image.snaplist sb.image.snapshots e)) := by
  rw [entries_append]
  exact (List.perm_append_singleton e sb.entries).symm

/-- `calc_snapmask` collects the bits of the live snapshots. -/
theorem hasBit_calcSnapmask_iff {image : Disksuper} (hbits : ∀ i < image.snapshots,
    isSquashed (image.snaplist i) = false → (image.snaplist i).bit < 64) (b : Nat) :
    hasBit (calcSnapmask image) b = true ↔
      ∃ i < image.snapshots, isSquashed (image.snaplist i) = false ∧ (image.snaplist i).bit = b := by
  have hfold : ∀ (l : List Nat) (m : Mask), (∀ i ∈ l, i < image.snapshots) → (hasBit (l.foldl (fun mask i =>
        if isSquashed (image.snaplist i) then mask else mask ||| maskBit (image.snaplist i).bit) m) b = true ↔
          hasBit m b = true ∨ ∃ i ∈ l, isSquashed (image.snaplist i) = false ∧ (image.snaplist i).bit = b) := by
    intro l
    induction l with
    | nil => simp
    | cons i l ih =>
      intro m hl
      rw [List.foldl_cons, ih _ fun j hj => hl j (List.mem_cons_of_mem _ hj)]
      cases hi : isSquashed (image.snaplist i) with
      | true => simp [hi]
      | false =>
        have hlt := hbits i (hl i List.mem_cons_self) hi
        simp only [Bool.false_eq_true, if_false, hasBit_or, Bool.or_eq_true, hasBit_maskBit hlt, decide_eq_true_eq,
          List.exists_mem_cons_iff, hi, true_and, eq_comm (a := b), or_assoc]
  refine (hfold _ 0 fun i hi => List.mem_range.1 hi).trans ?_
  simp

theorem findSnap_eq_some {tag i : Nat} (h : findSnap sb tag = some i) :
    i < sb.image.snapshots ∧ (sb.image.snaplist i).tag = tag :=
  ⟨by simpa using List.mem_of_find?_eq_some h, by simpa using List.find?_some h⟩

theorem findSnap_eq_none {tag : Nat} : findSnap sb tag = none ↔ tag ∉ sb.entries.map Snapshot.tag := by
  simp [findSnap, Sb.entries]

theorem bestSlot_lt (skip : Snapshot → Snapshot → Bool) (h : sb.image.snapshots ≠ 0) :
    bestSlot sb skip < sb.image.snapshots := by
  have hfold : ∀ (l : List Nat) (best : Nat), best < sb.image.snapshots → (∀ i ∈ l, i < sb.image.snapshots) →
      l.foldl (fun best i => if skip (sb.image.snaplist i) (sb.image.snaplist best) then best else i) best <
        sb.image.snapshots := by
    intro l
    induction l with
    | nil => exact fun best hb _ => hb
    | cons i l ih =>
      intro best hb hl
      refine ih _ ?_ fun j hj => hl j (List.mem_cons_of_mem _ hj)
      dsimp only
      split_ifs
      · exact hb
      · exact hl i List.mem_cons_self
  refine hfold _ 0 (Nat.pos_of_ne_zero h) fun i hi => ?_
  simpa using List.mem_of_mem_drop hi

/-! ### What the list goes through -/

theorem deleteSnap_snaps {i : Nat} (hd : deleteSnap sb i = some sb') :
    (isSquashed (sb.image.snaplist i) = true ∧ SameSnaps { sb with image := removeSlot sb.image i } sb') ∨
    (isSquashed (sb.image.snaplist i) = false ∧
      SameSnaps { sb with
        image := removeSlot sb.image i
        usecount := Function.update sb.usecount (sb.image.snaplist i).bit 0
        snapmask := sb.snapmask &&& ~~~(maskBit (sb.image.snaplist i).bit) } sb') := by
  unfold deleteSnap at hd
  dsimp only at hd
  split_ifs at hd with hs
  · cases hd
    exact .inl ⟨hs, rfl, rfl, rfl, rfl, rfl⟩
  · obtain ⟨sb1, h1, h2⟩ := Option.bind_eq_some_iff.1 hd
    have hs1 := (frame_commitDeferredAllocs h1).sameSnaps
    have hs2 := deleteTreeRange_sameSnaps h2
    exact .inr ⟨by simpa using hs, hs2.snapmask.trans (congrArg (· &&& _) hs1.snapmask),
      hs2.snaplist.trans hs1.snaplist, hs2.snapshots.trans hs1.snapshots, hs2.orgsectors.trans hs1.orgsectors,
      hs2.usecount.trans hs1.usecount⟩

theorem squashSnap_snaps {i : Nat} (hd : squashSnap sb i = some sb') :
    SameSnaps { sb with
      image := { sb.image with
        snaplist := Function.update sb.image.snaplist i { sb.image.snaplist i with bit := snapshotSquashed } }
      usecount := Function.update sb.usecount (sb.image.snaplist i).bit 0
      snapmask := sb.snapmask &&& ~~~(maskBit (sb.image.snaplist i).bit) } sb' := by
  obtain ⟨sb1, h1, hd⟩ := Option.bind_eq_some_iff.1 hd
  obtain ⟨sb2, h2, hd⟩ := Option.bind_eq_some_iff.1 hd
  cases hd
  have hs1 := (frame_commitDeferredAllocs h1).sameSnaps
  have hs2 := deleteTreeRange_sameSnaps h2
  have hlist : sb2.image.snaplist = sb.image.snaplist := hs2.snaplist.trans hs1.snaplist
  have hcount : sb2.usecount = sb.usecount := hs2.usecount.trans hs1.usecount
  refine ⟨hs2.snapmask.trans (congrArg (· &&& _) hs1.snapmask), ?_, hs2.snapshots.trans hs1.snapshots,
    hs2.orgsectors.trans hs1.orgsectors, ?_⟩
  · dsimp only
    rw [hlist]
  · dsimp only
    rw [hcount]

/-- `auto_delete_snapshot` squashes a live snapshot that is in use, or deletes one that is not. -/
theorem autoDeleteSnapshot_cases {ok : Bool} (hd : autoDeleteSnapshot sb = some (ok, sb')) :
    SameSnaps sb sb' ∨
    (∃ i < sb.image.snapshots, isSquashed (sb.image.snaplist i) = false ∧
      usecount sb (sb.image.snaplist i) ≠ 0 ∧ squashSnap sb i = some sb') ∨
    ∃ i < sb.image.snapshots, isSquashed (sb.image.snaplist i) = false ∧
      usecount sb (sb.image.snaplist i) = 0 ∧ deleteSnap sb i = some sb' := by
  unfold autoDeleteSnapshot at hd
  split_ifs at hd with hn
  have hlt : findVictim sb < sb.image.snapshots := bestSlot_lt _ hn
  dsimp only at hd
  split_ifs at hd with hv hu
  · cases hd
    obtain ⟨metafree, snapfree, he⟩ := recountFree_eq sb
    rw [he]
    exact .inl ⟨rfl, rfl, rfl, rfl, rfl⟩
  all_goals
    obtain ⟨sb1, h1, he⟩ := Option.map_eq_some_iff.1 hd
    cases he
    have hlive : isSquashed (sb.image.snaplist (findVictim sb)) = false := by simpa using fun e => hv (.inl e)
  · exact .inr (.inl ⟨_, hlt, hlive, hu, h1⟩)
  · exact .inr (.inr ⟨_, hlt, hlive, by simpa using hu, h1⟩)

/-- A property of the snapshot list that `auto_delete_snapshot` keeps. -/
structure SurvivesRequests (P : Sb D → Prop) : Prop where
  same : ∀ {sb sb' : Sb D}, P sb → SameSnaps sb sb' → P sb'
  autoDelete : ∀ {sb sb' : Sb D} {ok : Bool}, P sb → autoDeleteSnapshot sb = some (ok, sb') → P sb'

section

variable {P : Sb D → Prop}

private theorem SurvivesRequests.spaceCheck (k : SurvivesRequests P) (h : P sb) {ok : Bool}
    (hd : spaceCheck sb = some (ok, sb')) : P sb' := (spaceCheck_deletions hd).keeps h k.autoDelete

theorem sameSnaps_uniqueException {chunk : Nat} {snapbit exception : Option Nat}
    (h : uniqueException sb chunk snapbit = some (exception, sb')) : SameSnaps sb sb' := by
  obtain ⟨path, leafbuf, -, ⟨-, -, rfl⟩ | ⟨-, newex, sb1, sb2, ok, ha, hadd, hend⟩⟩ := uniqueException_outcome h
  · exact .refl _
  · have hf := amend_addExceptionToTree (copyout sb1 (copySource chunk (chunkUnique sb leafbuf chunk snapbit).2) newex)
      leafbuf chunk newex snapbit path
    rw [hadd] at hf
    have hs := ((amend_allocChunk ha).frame.sameSnaps.trans (sameSnaps_copyout sb1 _ newex)).trans hf.frame.sameSnaps
    rcases hend with ⟨-, -, rfl⟩ | ⟨-, -, rfl⟩
    · exact hs
    · exact hs.trans (amend_freeChunk _ .snapdata newex).frame.sameSnaps

private theorem SurvivesRequests.makeUnique (k : SurvivesRequests P) (h : P sb) {chunk : Nat}
    {snapbit exception : Option Nat} (hd : makeUnique sb chunk snapbit = some (exception, sb')) : P sb' := by
  obtain ⟨⟨ok, sb1⟩, h1, h2⟩ := Option.bind_eq_some_iff.1 hd
  have ht := k.spaceCheck h h1
  dsimp only at h2
  split_ifs at h2
  · exact k.same ht (sameSnaps_uniqueException h2)
  · cases h2
    exact ht

theorem sameSnaps_finishCopyout (sb : Sb D) : SameSnaps sb (finishCopyout sb) := by
  unfold finishCopyout
  split_ifs <;> exact ⟨rfl, rfl, rfl, rfl, rfl⟩

theorem SurvivesRequests.finishRequest (k : SurvivesRequests P) (h : P sb)
    (hd : commitTransaction (finishCopyout sb) false = some sb') : P sb' :=
  k.same h ((sameSnaps_finishCopyout sb).trans (frame_commitTransaction hd).sameSnaps)

theorem SurvivesRequests.snapshotChunks (k : SurvivesRequests P) (h : P sb) {slot : Nat} {chunks : List Nat}
    {exceptions : List (Option Nat)} (hd : snapshotChunks slot sb chunks = some (exceptions, sb')) :
    P sb' := by
  induction chunks generalizing sb exceptions with
  | nil =>
    cases hd
    exact h
  | cons chunk chunks ih =>
    obtain ⟨⟨exception, sb1⟩, h1, hd⟩ := Option.bind_eq_some_iff.1 hd
    obtain ⟨⟨others, sb2⟩, h2, hd⟩ := Option.bind_eq_some_iff.1 hd
    cases hd
    have ht : P sb1 := by
      unfold snapshotChunk at h1
      dsimp only at h1
      split_ifs at h1
      · cases h1
        exact h
      · exact k.makeUnique h h1
    exact ih ht h2

theorem SurvivesRequests.originChunks (k : SurvivesRequests P) (h : P sb) {chunks : List Nat} {ok : Bool}
    (hd : originChunks sb chunks = some (ok, sb')) : P sb' := by
  induction chunks generalizing sb ok with
  | nil =>
    cases hd
    exact h
  | cons chunk chunks ih =>
    obtain ⟨⟨exception, sb1⟩, h1, hd⟩ := Option.bind_eq_some_iff.1 hd
    obtain ⟨⟨ok1, sb2⟩, h2, hd⟩ := Option.bind_eq_some_iff.1 hd
    cases hd
    exact ih (k.makeUnique h h1) h2

end

/-! ### Deletion and squashing -/

private theorem Sb.Tallied.unused (h : sb.Tallied clients) {i : Nat} (hi : i < sb.image.snapshots)
    (hlive : isSquashed (sb.image.snaplist i) = false) (hu : Ddsnap.usecount sb (sb.image.snaplist i) = 0) :
    tagged clients (sb.image.snaplist i).tag = 0 := by
  have hsmall := (h.small _ (snaplist_mem_entries hi)).2 hlive
  rw [← h.counts _ (snaplist_mem_entries hi) hlive]
  unfold Ddsnap.usecount at hu
  rw [hlive, if_neg (by simp), Nat.mod_eq_of_lt hsmall] at hu
  omega

private theorem Sb.Tallied.deleteSnap (h : sb.Tallied clients) {i : Nat} (hi : i < sb.image.snapshots)
    (hc : tagged clients (sb.image.snaplist i).tag = 0) (hd : deleteSnap sb i = some sb') : sb'.Tallied clients := by
  have hperm := Tally.perm h (entries_perm hi)
  rw [← entries_removeSlot hi] at hperm
  obtain ⟨hs, hsame⟩ | ⟨hlive, hsame⟩ := deleteSnap_snaps hd
  · refine Sb.Tallied.same ?_ hsame
    exact hperm.deleteSquashed hs hc
  · refine Sb.Tallied.same ?_ hsame
    exact hperm.delete hlive hc

private theorem Sb.Tallied.squashSnap (h : sb.Tallied clients) {i : Nat} (hi : i < sb.image.snapshots)
    (hlive : isSquashed (sb.image.snaplist i) = false) (hd : squashSnap sb i = some sb') : sb'.Tallied clients := by
  have htally := (Tally.perm h (entries_perm hi)).squash hlive
  refine Sb.Tallied.same ?_ (squashSnap_snaps hd)
  exact htally.perm (entries_update hi _).symm

/-- The books survive every request. -/
theorem Sb.Tallied.survives (clients : List Client) : SurvivesRequests fun sb : Sb D => sb.Tallied clients where
  same h hs := h.same hs
  autoDelete h hd := by
    obtain hs | ⟨i, hi, hlive, -, hd⟩ | ⟨i, hi, hlive, hu, hd⟩ := autoDeleteSnapshot_cases hd
    · exact h.same hs
    · exact h.squashSnap hi hlive hd
    · exact h.deleteSnap hi (h.unused hi hlive hu) hd

/-! ### Messages about the list -/

theorem sameSnaps_saveSbCheck (h : saveSbCheck sb = some sb') : SameSnaps sb sb' := by
  obtain ⟨sb1, h1, rfl⟩ := Option.map_eq_some_iff.1 h
  exact (frame_commitDeferredAllocs h1).sameSnaps.trans (sameSnaps_saveSb sb1)

private theorem Sb.Tallied.discard (h : sb.Tallied clients) {i : Nat} (hi : i < sb.image.snapshots)
    (hu : Ddsnap.usecount sb (sb.image.snaplist i) = 0)
    (hsq : isSquashed (sb.image.snaplist i) = true → tagged clients (sb.image.snaplist i).tag = 0)
    (hd : Ddsnap.deleteSnap sb i = some sb') : sb'.Tallied clients := by
  refine h.deleteSnap hi ?_ hd
  cases hs : isSquashed (sb.image.snaplist i) with
  | false => exact h.unused hi hs hu
  | true => exact hsq hs

theorem makeRoom_cases (h : makeRoom sb = some sb') : sb' = sb ∨
    ∃ i < sb.image.snapshots, i = findUnused sb ∧ maxSnapshots ≤ sb.image.snapshots ∧
      usecount sb (sb.image.snaplist i) = 0 ∧ deleteSnap sb i = some sb' := by
  unfold makeRoom at h
  split_ifs at h with hfull
  · have hne : sb.image.snapshots ≠ 0 := fun h0 => absurd (h0 ▸ hfull.1) (by decide)
    exact .inr ⟨_, bestSlot_lt _ hne, rfl, hfull.1, hfull.2, h⟩
  · cases h
    exact .inl rfl

/-- `CREATE_SNAPSHOT` makes room, and then appends an entry with a new tag, a free bit and no persistent count. -/
theorem createMessage_cases {tag : Nat} (hd : createMessage sb tag = some sb') :
    ∃ sb1, makeRoom sb = some sb1 ∧ (SameSnaps sb1 sb' ∨
      ∃ snap : Snapshot, snap.bit < maxSnapshots ∧ hasBit sb1.snapmask snap.bit = false ∧ snap.usecount = 0 ∧
        snap.tag ∉ sb1.entries.map Snapshot.tag ∧
        SameSnaps { sb1 with
          snapmask := sb1.snapmask ||| maskBit snap.bit
          image := { sb1.image with
            snaplist := Function.update sb1.image.snaplist sb1.image.snapshots snap
            snapshots := sb1.image.snapshots + 1 } } sb') := by
  obtain ⟨⟨bit, sb2⟩, hcr, hd⟩ := Option.bind_eq_some_iff.1 hd
  obtain ⟨sb1, hmk, -⟩ := Option.bind_eq_some_iff.1 hcr
  have hsave : SameSnaps sb2 sb' := by
    dsimp only at hd
    split_ifs at hd
    · exact sameSnaps_saveSbCheck hd
    · cases hd
      exact .refl _
  refine ⟨sb1, hmk, ?_⟩
  obtain ⟨-, rfl⟩ | ⟨b, snap, -, hb, hfree, rfl, rfl, hcount, htags, rfl⟩ := createSnapshot_cases hmk hcr
  · exact .inl hsave
  · refine .inr ⟨snap, hb, hfree, hcount, by simpa [Sb.entries] using htags, ?_⟩
    exact ⟨hsave.snapmask, hsave.snaplist, hsave.snapshots, hsave.orgsectors, hsave.usecount⟩

theorem Sb.Tallied.createMessage (h : sb.Tallied clients) {tag : Nat}
    (hroom : maxSnapshots ≤ sb.image.snapshots → Ddsnap.usecount sb (sb.image.snaplist (findUnused sb)) = 0 →
      isSquashed (sb.image.snaplist (findUnused sb)) = true →
      tagged clients (sb.image.snaplist (findUnused sb)).tag = 0)
    (hd : createMessage sb tag = some sb') : sb'.Tallied clients := by
  obtain ⟨sb1, hmk, hnew⟩ := createMessage_cases hd
  have h1 : sb1.Tallied clients := by
    obtain rfl | ⟨i, hi, rfl, hfull, hu, hdel⟩ := makeRoom_cases hmk
    · exact h
    · exact h.discard hi hu (hroom hfull hu) hdel
  obtain hsame | ⟨snap, hlt, hfree, hcount, htag, hsame⟩ := hnew
  · exact h1.same hsame
  · refine Sb.Tallied.same ?_ hsame
    exact (Tally.create h1 hfree hlt hcount htag).perm (entries_push snap)

theorem Sb.Tallied.deleteMessage (h : sb.Tallied clients) {tag : Nat}
    (hdis : ∀ slot ∈ findSnap sb tag, Ddsnap.usecount sb (sb.image.snaplist slot) = 0 →
      isSquashed (sb.image.snaplist slot) = true → tagged clients (sb.image.snaplist slot).tag = 0)
    (hd : deleteMessage sb tag = some sb') : sb'.Tallied clients := by
  unfold Ddsnap.deleteMessage at hd
  split at hd
  · cases hd
    exact h
  · rename_i slot hslot
    split_ifs at hd with hu
    · obtain ⟨sb1, h1, hd⟩ := Option.bind_eq_some_iff.1 hd
      exact (h.discard (findSnap_eq_some hslot).1 hu (hdis slot hslot hu) h1).same (sameSnaps_saveSbCheck hd)
    · cases hd
      exact h

private theorem Sb.Tallied.modifyEntry (h : sb.Tallied clients) {i : Nat} (hi : i < sb.image.snapshots) {e : Snapshot}
    (htag : e.tag = (sb.image.snaplist i).tag) (hbit : e.bit = (sb.image.snaplist i).bit)
    (hsmall : e.usecount < 2 ^ 16)
    (hsum : isSquashed (sb.image.snaplist i) = false →
      sb.usecount (sb.image.snaplist i).bit + e.usecount < 2 ^ 16) :
    Sb.Tallied { sb with image := { sb.image with snaplist := Function.update sb.image.snaplist i e } } clients :=
  ((Tally.perm h (entries_perm hi)).modify htag hbit hsmall hsum).perm (entries_update hi e).symm

theorem Sb.Tallied.setPriority (h : sb.Tallied clients) (tag : Nat) (prio : Int) :
    (setPriority sb tag prio).Tallied clients := by
  unfold Ddsnap.setPriority modifySnap
  split
  · exact h
  · rename_i slot hslot
    obtain ⟨hlt, -⟩ := findSnap_eq_some hslot
    obtain ⟨h1, h2⟩ := h.small _ (snaplist_mem_entries hlt)
    exact h.modifyEntry hlt rfl rfl h1 h2

theorem Sb.Tallied.changeUsecount (h : sb.Tallied clients) (tag : Nat) (dev : Int) :
    (changeUsecount sb tag dev).Tallied clients := by
  unfold Ddsnap.changeUsecount
  split_ifs
  · exact h
  split
  · exact h
  rename_i slot hslot
  obtain ⟨hlt, -⟩ := findSnap_eq_some hslot
  obtain ⟨h1, h2⟩ := h.small _ (snaplist_mem_entries hlt)
  dsimp only
  split_ifs with hover hunder
  · exact h
  · exact h
  · refine h.modifyEntry hlt rfl rfl (Nat.mod_lt _ (by decide)) fun hs => ?_
    have hsum := h2 hs
    have huse : Ddsnap.usecount sb (sb.image.snaplist slot) =
        sb.usecount (sb.image.snaplist slot).bit + (sb.image.snaplist slot).usecount := by
      simp only [Ddsnap.usecount, hs, Bool.false_eq_true, if_false, Nat.mod_eq_of_lt hsum]
    rw [huse] at hover
    have hle := Nat.mod_le ((sb.image.snaplist slot).usecount + dev).toNat (2 ^ 16)
    dsimp only
    omega

end Ddsnap
