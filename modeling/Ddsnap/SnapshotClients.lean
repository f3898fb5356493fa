import Ddsnap.DaemonStep
import Ddsnap.UseCounts

/-!
# The clients of the snapshots

A client that `IDENTIFY` accepts for a snapshot is marked and counted, and the daemon asserts that it finds the entry and
a positive count when the client disconnects.  The handlers keep the books (`Tally`) but for three cases: a second
`IDENTIFY` of a marked client does not take back the first one, one that is rejected for its size or its offset has
counted its client before, and a squashed snapshot has no transient count that protects its entry from deletion while
clients still carry its tag.
-/

namespace Ddsnap

variable {D : Type} {d d' : Daemon D} {sb sb' : Sb D} {e : Event}

/-! ### Events that keep the books -/

/-- The entry of a tag is squashed. -/
def SquashedTag (sb : Sb D) (tag : Nat) : Prop := ∃ slot ∈ findSnap sb tag, isSquashed (sb.image.snaplist slot) = true

instance (tag : Nat) : Decidable (SquashedTag sb tag) := Option.decidableExistsMem _

/-- A marked client may identify again: with a tag that counts it if its snapshot is squashed, and with its own tag if
that does not count it. -/
def Reidentify (sb : Sb D) (old tag : Nat) : Prop := if CountedBy sb tag then SquashedTag sb old else tag = old

instance (old tag : Nat) : Decidable (Reidentify sb old tag) :=
  inferInstanceAs (Decidable (if CountedBy sb tag then _ else _))

/-- The offset and the length of an `IDENTIFY` message are those of the snapshot with the tag. -/
def Daemon.SizesFit (d : Daemon D) (tag off len : Nat) : Prop :=
  off = d.orgoffset ∧ ∀ slot ∈ findSnap d.sb tag, len = (d.sb.image.snaplist slot).sectors

instance (tag off len : Nat) : Decidable (d.SizesFit tag off len) := inferInstanceAs (Decidable (_ ∧ _))

/-- An entry may be deleted: it is in use, or live, or no marked client carries its tag. -/
def Daemon.Discardable (d : Daemon D) (slot : Nat) : Prop :=
  usecount d.sb (d.sb.image.snaplist slot) = 0 → isSquashed (d.sb.image.snaplist slot) = true →
    tagged d.clientvec (d.sb.image.snaplist slot).tag = 0

instance (slot : Nat) : Decidable (d.Discardable slot) := inferInstanceAs (Decidable (_ → _ → _))

/-- Marked clients identify again only as `Reidentify` allows, clients that are counted are not rejected, and no squashed
snapshot is deleted while marked clients carry its tag. -/
def InStep (d : Daemon D) : Event → Prop
  | .message a (.identify tag off len) =>
    (∀ client ∈ clientAt d.clientvec a, client.snapclient → Reidentify d.sb client.snaptag tag) ∧
      (CountedBy d.sb tag → d.SizesFit tag off len)
  | .message _ (.createSnapshot _) => maxSnapshots ≤ d.sb.image.snapshots → d.Discardable (findUnused d.sb)
  | .message _ (.deleteSnapshot tag) => ∀ slot ∈ findSnap d.sb tag, d.Discardable slot
  | _ => True

instance (d : Daemon D) : (e : Event) → Decidable (InStep d e)
  | .message a (.identify tag off len) => inferInstanceAs (Decidable
      ((∀ client ∈ clientAt d.clientvec a, client.snapclient → Reidentify d.sb client.snaptag tag) ∧
        (CountedBy d.sb tag → d.SizesFit tag off len)))
  | .message _ (.createSnapshot _) =>
    inferInstanceAs (Decidable (maxSnapshots ≤ d.sb.image.snapshots → d.Discardable (findUnused d.sb)))
  | .message _ (.deleteSnapshot tag) => inferInstanceAs (Decidable (∀ slot ∈ findSnap d.sb tag, d.Discardable slot))
  | .message _ (.queryWrite ..) | .message _ (.querySnapshotRead _) | .message _ (.finishSnapshotRead _)
  | .message _ .uploadLock | .message _ (.priority ..) | .message _ (.usecount ..) | .connect .. | .disconnect _ =>
    isTrue trivial

/-! ### Identified clients -/

/-- The daemon with the snapshot that each connection is identified with: the tag of the last `IDENTIFY` that was
answered with `IDENTIFY_OK`, unless that was for the origin. -/
structure Identified (D : Type) where
  d : Daemon D
  tagOf : Nat → Option Nat

/-- The connections and the replies to `IDENTIFY` in an event. -/
def Identified.note (st : Identified D) : Event → Nat → Option Nat
  | .connect a _ => Function.update st.tagOf a none
  | .message a (.identify tag off len) =>
    if ((clientAt st.d.clientvec a).any fun client => (st.d.identifyClient client tag off len).1.isOk) then
      Function.update st.tagOf a (if tag = originTag then none else some tag)
    else st.tagOf
  | _ => st.tagOf

def Identified.step (st : Identified D) (e : Event) : Option (Identified D) :=
  (st.d.step e).map fun d => ⟨d, st.note e⟩

/-- The number of the connected clients that are identified with the snapshot with a tag. -/
def Identified.count (st : Identified D) (tag : Nat) : Nat :=
  st.d.clientvec.countP fun client => st.tagOf client.address = some tag

/-- The client records are different, and the books are in order. -/
structure Daemon.Tallied (d : Daemon D) : Prop where
  addresses : (d.clientvec.map Client.address).Nodup
  books : d.sb.Tallied d.clientvec

/-! ### The client vector -/

private theorem clientvec_perm {clientvec : List Client} {a : Nat} {client : Client}
    (hnd : (clientvec.map Client.address).Nodup) (h : clientAt clientvec a = some client) :
    clientvec.Perm (client :: clientvec.filter fun c => c.address ≠ a) := by
  induction clientvec with
  | nil => cases h
  | cons c clientvec ih =>
    obtain ⟨hc, hnd⟩ := List.nodup_cons.1 (List.map_cons ▸ hnd)
    by_cases hca : c.address = a
    · obtain rfl : c = client := by simpa [clientAt, hca] using h
      have hrest : clientvec.filter (fun c => decide (c.address ≠ a)) = clientvec := by
        refine List.filter_eq_self.2 fun x hx => ?_
        simpa using fun hxa => hc (List.mem_map.2 ⟨x, hx, hxa.trans hca.symm⟩)
      rw [List.filter_cons_of_neg (by simpa using hca), hrest]
    · have h' : clientAt clientvec a = some client := by simpa [clientAt, hca] using h
      rw [List.filter_cons_of_pos (by simpa using hca)]
      exact ((ih hnd h').cons c).trans (List.Perm.swap ..)

private theorem clientAt_of_mem {clientvec : List Client} {client : Client} (hnd : (clientvec.map Client.address).Nodup)
    (hc : client ∈ clientvec) : clientAt clientvec client.address = some client := by
  have hsome : (clientAt clientvec client.address).isSome := List.find?_isSome.2 ⟨client, hc, by simp⟩
  obtain ⟨other, hother⟩ := Option.isSome_iff_exists.1 hsome
  rw [hother, List.inj_on_of_nodup_map hnd (clientAt_mem hother) hc (clientAt_address hother)]

private theorem modifyClient_perm {clientvec : List Client} {a : Nat} {client : Client}
    (hnd : (clientvec.map Client.address).Nodup) (h : clientAt clientvec a = some client) (f : Client → Client) :
    (modifyClient clientvec a f).Perm (f client :: clientvec.filter fun c => c.address ≠ a) := by
  refine ((clientvec_perm hnd h).map _).trans ?_
  rw [List.map_cons, if_pos (clientAt_address h)]
  refine .of_eq (congrArg _ ((List.map_congr_left fun c hc => ?_).trans (List.map_id _)))
  rw [if_neg (by simpa using (List.mem_filter.1 hc).2)]
  rfl

private theorem modifyClient_addresses (clientvec : List Client) (a : Nat) {f : Client → Client}
    (hf : ∀ c, (f c).address = c.address) :
    (modifyClient clientvec a f).map Client.address = clientvec.map Client.address := by
  rw [modifyClient, List.map_map]
  refine List.map_congr_left fun c _ => ?_
  simp only [Function.comp_apply]
  split_ifs
  · exact hf c
  · rfl

/-! ### One event -/

theorem identifySnap_ok {tag : Nat} {snapshot : Snapshot} (h : identifySnap sb tag = .ok snapshot) :
    ∃ slot, findSnap sb tag = some slot ∧ snapshot = sb.image.snaplist slot ∧ isSquashed snapshot = false ∧
      usecount sb snapshot + 1 < 2 ^ 16 := by
  unfold identifySnap at h
  split at h
  · cases h
  · rename_i slot hslot
    dsimp only at h
    split_ifs at h with hs hu
    cases h
    refine ⟨slot, hslot, rfl, by simpa using hs, ?_⟩
    omega

theorem identifyClient_sb (d : Daemon D) (client : Client) (tag off len : Nat) :
    (d.identifyClient client tag off len).2.sb = d.sb ∨ ∃ snapshot, identifySnap d.sb tag = .ok snapshot ∧
      (d.identifyClient client tag off len).2.sb = countClient d.sb snapshot := by
  obtain ⟨-, he⟩ | ⟨-, snapshot, hok, he⟩ := identifyClient_cases d client tag off len
  · exact .inl (by rw [he])
  · exact .inr ⟨snapshot, hok, by rw [he]⟩

/-- `IDENTIFY` of a snapshot accepts the clients that it counts if their sizes fit, and rejects the others. -/
private theorem identifyClient_isOk {tag off len : Nat} (hfits : CountedBy d.sb tag → d.SizesFit tag off len)
    (htag : tag ≠ originTag) (client : Client) :
    (d.identifyClient client tag off len).1.isOk = decide (CountedBy d.sb tag) := by
  unfold Daemon.identifyClient
  dsimp only
  rw [if_neg htag]
  cases hs : identifySnap d.sb tag with
  | error err =>
    have hnot : ¬CountedBy d.sb tag := fun hc => by
      simp [CountedBy, hs, Except.isOk, Except.toBool] at hc
    rw [decide_eq_false hnot]
    rfl
  | ok snapshot =>
    have hc : CountedBy d.sb tag := ⟨htag, by rw [hs]; rfl⟩
    obtain ⟨slot, hslot, rfl, -⟩ := identifySnap_ok hs
    obtain ⟨hoff, hlen⟩ := hfits hc
    simp [identifySize, hoff, hlen slot hslot, hc, Except.isOk, Except.toBool]

/-- The entry of a tag that is found. -/
theorem findSnap_mem {tag slot : Nat} (h : findSnap sb tag = some slot) :
    sb.image.snaplist slot ∈ sb.entries ∧ (sb.image.snaplist slot).tag = tag :=
  ⟨snaplist_mem_entries (findSnap_eq_some h).1, (findSnap_eq_some h).2⟩

private theorem SquashedTag.uncounted {client : Client} (h : SquashedTag sb client.snaptag) :
    Uncounted sb.entries client := by
  intro _
  obtain ⟨slot, hslot, hs⟩ := h
  obtain ⟨hmem, htag⟩ := findSnap_mem hslot
  exact ⟨_, hmem, htag, hs⟩

private theorem Daemon.Tallied.identify (h : d.Tallied) {a tag : Nat} {client : Client}
    (hclient : clientAt d.clientvec a = some client)
    (hre : client.snapclient → Reidentify d.sb client.snaptag tag) (off len : Nat) :
    (d.identifyClient client tag off len).2.Tallied := by
  have ha := clientAt_address hclient
  have hold := Tally.permClients h.books (clientvec_perm h.addresses hclient)
  unfold Reidentify at hre
  have haddr {f : Client → Client} (hf : ∀ c, (f c).address = c.address) :
      ((modifyClient d.clientvec client.address f).map Client.address).Nodup := by
    rw [modifyClient_addresses _ _ hf]
    exact h.addresses
  obtain ⟨hnot, he⟩ | ⟨hcounted, snapshot, hok, he⟩ := identifyClient_cases d client tag off len
  all_goals
    rw [he]
    refine ⟨haddr fun _ => rfl, ?_⟩
    rw [ha]
    refine Tally.permClients ?_ (modifyClient_perm h.addresses hclient _).symm
  · rw [if_neg hnot] at hre
    by_cases hm : client.snapclient
    · rw [hre hm]
      exact hold
    · exact (hold.forget fun hm' => absurd hm' hm).add fun hm' => absurd hm' hm
  · rw [if_pos hcounted] at hre
    have hrest : d.sb.Tallied (d.clientvec.filter fun c => c.address ≠ a) :=
      hold.forget fun hm => (hre hm).uncounted hm
    obtain ⟨slot, hslot, rfl, hlive, hsum⟩ := identifySnap_ok hok
    obtain ⟨hmem, htag⟩ := findSnap_mem hslot
    have hsmall := (h.books.small _ hmem).2 hlive
    have huse : usecount d.sb (d.sb.image.snaplist slot) =
        d.sb.usecount (d.sb.image.snaplist slot).bit + (d.sb.image.snaplist slot).usecount := by
      simp only [usecount, hlive, Bool.false_eq_true, if_false, Nat.mod_eq_of_lt hsmall]
    unfold countClient
    rw [Nat.mod_eq_of_lt (by omega)]
    exact hrest.addCounted hmem hlive rfl htag.symm (by omega)

private theorem Daemon.Tallied.entry (h : d.Tallied) {client : Client} (hc : client ∈ d.clientvec)
    (hm : client.snapclient) : ∃ slot, findSnap d.sb client.snaptag = some slot ∧
      (isSquashed (d.sb.image.snaplist slot) = false → 0 < d.sb.usecount (d.sb.image.snaplist slot).bit) := by
  obtain ⟨e, he, het⟩ := h.books.carried client hc hm
  obtain ⟨slot, hslot⟩ := Option.ne_none_iff_exists'.1 fun hnone =>
    findSnap_eq_none.1 hnone (List.mem_map.2 ⟨e, he, het⟩)
  obtain ⟨hmem, htag⟩ := findSnap_mem hslot
  refine ⟨slot, hslot, fun hlive => ?_⟩
  rw [h.books.counts _ hmem hlive, htag, Nat.pos_iff_ne_zero]
  exact fun h0 => tagged_eq_zero.1 h0 client hc hm rfl

private theorem Daemon.Tallied.dropUsecount (h : d.Tallied) {a : Nat} {client : Client}
    (hclient : clientAt d.clientvec a = some client) (hm : client.snapclient) :
    ∃ sb, Ddsnap.dropUsecount d.sb client.snaptag = some sb ∧
      sb.Tallied (d.clientvec.filter fun c => c.address ≠ a) := by
  have hold := Tally.permClients h.books (clientvec_perm h.addresses hclient)
  obtain ⟨slot, hslot, -⟩ := h.entry (clientAt_mem hclient) hm
  obtain ⟨hmem, htag⟩ := findSnap_mem hslot
  unfold Ddsnap.dropUsecount
  rw [hslot, Option.bind_eq_bind, Option.bind_some]
  dsimp only
  cases hs : isSquashed (d.sb.image.snaplist slot) with
  | true => exact ⟨d.sb, rfl, hold.forget fun _ => ⟨_, hmem, htag, hs⟩⟩
  | false =>
    obtain ⟨hpos, hrest⟩ := hold.forgetCounted hmem hs hm htag.symm
    rw [if_neg (by simp), if_neg hpos]
    exact ⟨_, rfl, hrest⟩

private theorem Daemon.Tallied.of_vec (h : d.Tallied) (hvec : SameClients d d')
    (hbooks : d'.sb.Tallied d.clientvec) : d'.Tallied := ⟨hvec.clientvec ▸ h.addresses, hvec.clientvec ▸ hbooks⟩

/-- Every event that is in step keeps the books. -/
private theorem Daemon.Tallied.step (h : d.Tallied) (he : InStep d e) (hs : StoreEvent d e d') : d'.Tallied := by
  have k := Sb.Tallied.survives (D := D) d.clientvec
  have hgone {a : Nat} : ((d.clientvec.filter fun c => c.address ≠ a).map Client.address).Nodup :=
    h.addresses.sublist (List.filter_sublist.map _)
  cases hs with
  | @connect address sock _ hnew hsb hvec =>
    refine ⟨?_, ?_⟩
    · rw [hvec, List.map_append, List.map_singleton]
      refine List.nodup_append.2 ⟨h.addresses, List.nodup_singleton _, ?_⟩
      rintro x hx y hy rfl
      obtain ⟨client, hmem, rfl⟩ := List.mem_map.1 hx
      have := List.find?_eq_none.1 hnew client hmem
      simp at this hy
      exact this hy
    · rw [hsb, hvec]
      exact (Tally.add h.books fun hm => absurd hm (by simp)).permClients (List.perm_append_singleton ..).symm
  | drop hclient hm hdrop hvec =>
    obtain ⟨sb, hdrop', hbooks⟩ := h.dropUsecount hclient hm
    rw [hdrop'] at hdrop
    cases hdrop
    exact ⟨hvec ▸ hgone, hvec ▸ hbooks⟩
  | leave hclient hm hsb hvec =>
    refine ⟨hvec ▸ hgone, ?_⟩
    rw [hsb, hvec]
    exact (Tally.permClients h.books (clientvec_perm h.addresses hclient)).forget fun hm' => absurd hm' hm
  | identify hclient tag off len => exact h.identify hclient (he.1 _ hclient) off len
  | originWrite hclient htag hchunks hcommit hvec =>
    exact h.of_vec hvec (k.finishRequest (k.originChunks h.books hchunks) hcommit)
  | snapshotWrite hclient htag hslot hchunks hcommit hvec =>
    exact h.of_vec hvec (k.finishRequest (k.snapshotChunks h.books hchunks) hcommit)
  | create hcreate hvec => exact h.of_vec hvec (h.books.createMessage he hcreate)
  | delete hdelete hvec => exact h.of_vec hvec (h.books.deleteMessage he hdelete)
  | priority hsb hvec => exact h.of_vec hvec (hsb ▸ h.books.setPriority _ _)
  | usecount hsb hvec => exact h.of_vec hvec (hsb ▸ h.books.changeUsecount _ _)
  | quiet hm hsb hvec => exact h.of_vec hvec (hsb ▸ h.books)

/-! ### Runs -/

/-- A snapshot list in order: the tags are different, the live snapshots have different bits, and the counts have 16
bits. -/
structure Disksuper.ListOk (image : Disksuper) : Prop where
  tags : ((List.range image.snapshots).map fun i => (image.snaplist i).tag).Nodup
  owners : ((List.range image.snapshots).map image.snaplist).Pairwise fun x y =>
    isSquashed x = false → isSquashed y = false → x.bit ≠ y.bit
  bits : ∀ i < image.snapshots, isSquashed (image.snaplist i) = false → (image.snaplist i).bit < maxSnapshots
  small : ∀ i < image.snapshots, (image.snaplist i).usecount < 2 ^ 16

/-- The daemon after `START_SERVER`, on a store with a list in order. -/
def Daemon.Started (d : Daemon D) : Prop :=
  ∃ sb orgoffset, d = Daemon.start sb orgoffset ∧ sb.image.ListOk ∧ sb.snapmask = calcSnapmask sb.image ∧
    ∀ bit, sb.usecount bit = 0

private theorem Daemon.Started.tallied (h : d.Started) : d.Tallied := by
  obtain ⟨sb, orgoffset, rfl, hok, hmask, hcount⟩ := h
  have hslot : ∀ e ∈ sb.entries, ∃ i < sb.image.snapshots, sb.image.snaplist i = e := fun e he => by
    simpa [Sb.entries] using he
  refine ⟨List.nodup_nil, ?_, ?_, hok.owners, ?_, fun b _ => hcount b, fun e _ _ => hcount _, by simp [Daemon.start]⟩
  · rw [Sb.entries, List.map_map]
    exact hok.tags
  · intro e he hlive
    obtain ⟨i, hi, rfl⟩ := hslot e he
    exact hmask ▸ (hasBit_calcSnapmask_iff hok.bits _).2 ⟨i, hi, hlive, rfl⟩
  · intro e he
    obtain ⟨i, hi, rfl⟩ := hslot e he
    refine ⟨hok.small i hi, fun _ => ?_⟩
    rw [show (Daemon.start sb orgoffset).sb = sb from rfl, hcount, Nat.zero_add]
    exact hok.small i hi

/-- The marked clients are those that are identified with a snapshot, and carry its tag. -/
structure Identified.Synced (st : Identified D) : Prop where
  tallied : st.d.Tallied
  marks : ∀ client ∈ st.d.clientvec, st.tagOf client.address = if client.snapclient then some client.snaptag else none
  snapshots : ∀ client ∈ st.d.clientvec, client.snapclient → client.snaptag ≠ originTag

section

variable {st st' : Identified D}

private theorem mem_modifyClient {clientvec : List Client} {a : Nat} {f : Client → Client} {client : Client}
    (h : client ∈ modifyClient clientvec a f) :
    (client ∈ clientvec ∧ client.address ≠ a) ∨ ∃ old ∈ clientvec, old.address = a ∧ client = f old := by
  obtain ⟨old, hold, rfl⟩ := List.mem_map.1 h
  by_cases ha : old.address = a
  · exact .inr ⟨old, hold, ha, if_pos ha⟩
  · rw [if_neg ha]
    exact .inl ⟨hold, ha⟩

/-- What is noted of an `IDENTIFY` is the tag, if the answer is `IDENTIFY_OK`. -/
private theorem Identified.note_identify {a : Nat} {client : Client} (tag off len : Nat)
    (hclient : clientAt st.d.clientvec a = some client) :
    (∀ b, b ≠ a → st.note (.message a (.identify tag off len)) b = st.tagOf b) ∧
      st.note (.message a (.identify tag off len)) a =
        if (st.d.identifyClient client tag off len).1.isOk then if tag = originTag then none else some tag
        else st.tagOf a := by
  simp only [Identified.note, hclient, Option.any_some]
  split_ifs
  · exact ⟨fun b hb => Function.update_of_ne hb .., Function.update_self ..⟩
  · exact ⟨fun b hb => Function.update_of_ne hb .., Function.update_self ..⟩
  · exact ⟨fun _ _ => rfl, rfl⟩

private theorem Identified.Synced.identify (h : st.Synced) {a tag off len : Nat} {client : Client}
    (hclient : clientAt st.d.clientvec a = some client) (he : InStep st.d (.message a (.identify tag off len))) :
    (⟨(st.d.identifyClient client tag off len).2, st.note (.message a (.identify tag off len))⟩ :
      Identified D).Synced := by
  obtain ⟨hre, hfits⟩ := he
  have ha := clientAt_address hclient
  have hmem := clientAt_mem hclient
  have hsame : ∀ old ∈ st.d.clientvec, old.address = a → old = client := fun old hold hoa =>
    List.inj_on_of_nodup_map h.tallied.addresses hold hmem (hoa.trans ha.symm)
  have hmark : st.tagOf a = if client.snapclient then some client.snaptag else none := ha ▸ h.marks client hmem
  have hre' := hre client hclient
  unfold Reidentify at hre'
  obtain ⟨hnote, hself⟩ := Identified.note_identify tag off len hclient
  have htallied := h.tallied.identify hclient (hre client hclient) off len
  generalize st.note (.message a (.identify tag off len)) = note at hnote hself ⊢
  suffices hall : ∀ other ∈ (st.d.identifyClient client tag off len).2.clientvec,
      note other.address = (if other.snapclient then some other.snaptag else none) ∧
        (other.snapclient → other.snaptag ≠ originTag) from
    ⟨htallied, fun other hother => (hall other hother).1, fun other hother => (hall other hother).2⟩
  intro other hother
  obtain ⟨hnot, he⟩ | ⟨hcounted, _, -, he⟩ := identifyClient_cases st.d client tag off len
  all_goals
    rw [he, ha] at hother
    obtain ⟨hold, hne⟩ | ⟨old, hold, hoa, rfl⟩ := mem_modifyClient hother
  · exact ⟨(hnote _ hne).trans (h.marks other hold), h.snapshots other hold⟩
  · -- a marked client has sent its own tag, which is not that of the origin
    obtain rfl := hsame old hold hoa
    rw [if_neg hnot] at hre'
    have hown : old.snapclient → tag ≠ originTag := fun hm => hre' hm ▸ h.snapshots old hold hm
    refine ⟨?_, hown⟩
    show note old.address = if old.snapclient then some tag else none
    rw [hoa, hself]
    by_cases htag : tag = originTag
    · have hm : ¬old.snapclient := fun hm => hown hm htag
      rw [if_neg hm, if_pos htag, hmark, if_neg hm, ite_self]
    · rw [identifyClient_isOk hfits htag, if_neg (by simpa using hnot), hmark]
      by_cases hm : old.snapclient
      · rw [if_pos hm, if_pos hm, hre' hm]
      · rw [if_neg hm, if_neg hm]
  · exact ⟨(hnote _ hne).trans (h.marks other hold), h.snapshots other hold⟩
  · refine ⟨?_, fun _ => hcounted.1⟩
    show note old.address = some tag
    rw [hoa, hself, identifyClient_isOk hfits hcounted.1, if_pos (by simpa using hcounted), if_neg hcounted.1]

private theorem Identified.Synced.step (h : st.Synced) {e : Event} (he : InStep st.d e) (hs : st.step e = some st') :
    st'.Synced := by
  obtain ⟨d, hd, rfl⟩ := Option.map_eq_some_iff.1 hs
  have hevent := st.d.step_store hd
  have htallied := h.tallied.step he hevent
  have hkept : ∀ note, note = st.tagOf → (∀ client ∈ d.clientvec, client ∈ st.d.clientvec) →
      (⟨d, note⟩ : Identified D).Synced := fun note hnote hsub =>
    hnote ▸ ⟨htallied, fun client hc => h.marks client (hsub client hc),
      fun client hc => h.snapshots client (hsub client hc)⟩
  cases hevent with
  | @connect address sock _ hnew hsb hvec =>
    have hother : ∀ client ∈ st.d.clientvec, client.address ≠ address := fun client hc =>
      by simpa using List.find?_eq_none.1 hnew client hc
    refine ⟨htallied, fun client hc => ?_, fun client hc hm => ?_⟩
    all_goals rw [hvec] at hc
    all_goals rcases List.mem_append.1 hc with hc | hc
    · exact (Function.update_of_ne (hother client hc) ..).trans (h.marks client hc)
    · rw [List.mem_singleton.1 hc]
      exact Function.update_self ..
    · exact h.snapshots client hc hm
    · rw [List.mem_singleton.1 hc] at hm
      cases hm
  | drop _ _ _ hvec | leave _ _ _ hvec => exact hkept _ rfl fun _ hc => List.mem_of_mem_filter (hvec ▸ hc)
  | identify hclient tag off len => exact h.identify hclient he
  | originWrite _ _ _ _ hvec | snapshotWrite _ _ _ _ _ hvec | create _ hvec | delete _ hvec | priority _ hvec
  | usecount _ hvec => exact hkept _ rfl fun _ hc => hvec.clientvec ▸ hc
  | @quiet _ m _ hm _ hvec =>
    refine hkept _ ?_ fun _ hc => hvec.clientvec ▸ hc
    cases m with
    | identify tag off len => exact absurd rfl (hm tag off len)
    | _ => rfl

private theorem Identified.Synced.tagged_eq (h : st.Synced) (tag : Nat) : tagged st.d.clientvec tag = st.count tag := by
  refine List.countP_congr fun client hc => ?_
  rw [h.marks client hc]
  by_cases hm : client.snapclient <;> simp [hm]

end

/-- In every run whose events are in step, the disconnection of a marked client finds the entry of its tag and, unless
the snapshot is squashed, a positive use count; and the use count of a live snapshot is the number of the connected
clients that are identified with it. -/
theorem clients_stay_in_step {st : Identified D}
    (h : Reach.Run Identified.step (fun st e => InStep st.d e) (fun st => st.d.Started) st) :
    (∀ client ∈ st.d.clientvec, client.snapclient → (dropUsecount st.d.sb client.snaptag).isSome ∧
      ∃ slot, findSnap st.d.sb client.snaptag = some slot ∧
        (isSquashed (st.d.sb.image.snaplist slot) = false →
          0 < st.d.sb.usecount (st.d.sb.image.snaplist slot).bit)) ∧
    ∀ slot < st.d.sb.image.snapshots, isSquashed (st.d.sb.image.snaplist slot) = false →
      st.d.sb.usecount (st.d.sb.image.snaplist slot).bit = st.count (st.d.sb.image.snaplist slot).tag := by
  have hsync : st.Synced := by
    apply h.invariant
    · intro st hst
      have hnone : st.d.clientvec = [] := by
        obtain ⟨sb, orgoffset, hd, -⟩ := hst
        rw [hd]
        rfl
      exact ⟨hst.tallied, by simp [hnone], by simp [hnone]⟩
    · exact fun st e st' hst he hs => hst.step he hs
  have ht := hsync.tallied
  refine ⟨fun client hc hm => ?_, fun slot hs hlive => ?_⟩
  · have hclient : clientAt st.d.clientvec client.address = some client := clientAt_of_mem ht.addresses hc
    obtain ⟨sb, hdrop, -⟩ := ht.dropUsecount hclient hm
    exact ⟨hdrop ▸ rfl, ht.entry hc hm⟩
  · rw [ht.books.counts _ (snaplist_mem_entries hs) hlive, hsync.tagged_eq]

/-- Nobody is connected. -/
def tinyIdentified : Identified Nat := ⟨tinyDaemon, fun _ => none⟩

theorem tinyDaemon_started : tinyDaemon.Started := by
  refine ⟨_, _, rfl, ⟨?_, ?_, ?_, ?_⟩, by decide +kernel, fun _ => rfl⟩ <;> decide +kernel

def steadyRun : Identified Nat :=
  (Reach.exec Identified.step (fun st e => InStep st.d e) tinyIdentified sharedEvents).getD tinyIdentified

private theorem tinyIdentified_run (ok : Identified Nat → Event → Prop) :
    Reach.Run Identified.step ok (fun st => st.d.Started) tinyIdentified := .start tinyDaemon_started

private theorem steadyRun_run :
    Reach.Run Identified.step (fun st e => InStep st.d e) (fun st => st.d.Started) steadyRun :=
  (tinyIdentified_run _).exec_getD sharedEvents

/-- The count of a snapshot with two clients. -/
theorem clients_stay_in_step_two : (steadyRun.d.sb.image.snaplist 0).tag = 7 ∧
    steadyRun.d.sb.usecount (steadyRun.d.sb.image.snaplist 0).bit = steadyRun.count 7 ∧ steadyRun.count 7 = 2 := by
  have htag : (steadyRun.d.sb.image.snaplist 0).tag = 7 := by decide +kernel
  have hcount := (clients_stay_in_step steadyRun_run).2 0 (by decide +kernel) (by decide +kernel)
  exact ⟨htag, htag ▸ hcount, by decide +kernel⟩

/-! ### Clients out of step -/

/-- A client of the snapshot identifies again, with a tag that does not exist. -/
def againEvents : List Event := sharedEvents ++ [.message 1 (.identify 8 0 0)]

/-- The store gets full, so that the snapshot is squashed, and the squashed snapshot is deleted. -/
def squashEvents : List Event := sharedEvents ++ [.message 9 (.queryWrite 1 [(0, 18)]), .message 9 (.deleteSnapshot 7)]

/-- A client identifies with a wrong length. -/
def wrongLengthEvents : List Event :=
  [.connect 1 3, .connect 9 5, .message 9 (.identify originTag 0 0), .message 9 (.createSnapshot 7),
    .message 1 (.identify 7 0 1)]

/-- The daemon does not find the snapshot of a marked client, and dies when that disconnects. -/
def Orphan (d : Daemon D) (a : Nat) : Prop :=
  ((clientAt d.clientvec a).any fun client => client.snapclient && (findSnap d.sb client.snaptag).isNone) = true ∧
    d.step (.disconnect a) = none

def looseRun (events : List Event) : Identified Nat :=
  (Reach.exec Identified.step (fun _ _ => True) tinyIdentified events).getD tinyIdentified

private theorem looseRun_run (events : List Event) :
    Reach.Run Identified.step (fun _ _ => True) (fun st => st.d.Started) (looseRun events) :=
  (tinyIdentified_run _).exec_getD events

/-- Both ways to an assertion that fails: a second `IDENTIFY`, and the deletion of a squashed snapshot.  And a client that
was counted and rejected. -/
theorem marked_client_without_entry : ∃ st st' st'' : Identified Nat,
    Reach.Run Identified.step (fun _ _ => True) (fun st => st.d.Started) st ∧ Orphan st.d 1 ∧
    Reach.Run Identified.step (fun _ _ => True) (fun st => st.d.Started) st' ∧ Orphan st'.d 1 ∧
    Reach.Run Identified.step (fun _ _ => True) (fun st => st.d.Started) st'' ∧
      (st''.d.sb.image.snaplist 0).tag = 7 ∧ st''.d.sb.usecount (st''.d.sb.image.snaplist 0).bit = 1 ∧
      st''.count 7 = 0 := by
  refine ⟨looseRun againEvents, looseRun squashEvents, looseRun wrongLengthEvents, looseRun_run _,
    ⟨by decide +kernel, ?_⟩, looseRun_run _, ⟨by decide +kernel, ?_⟩, looseRun_run _, by decide +kernel,
    by decide +kernel, by decide +kernel⟩
  · exact Option.isNone_iff_eq_none.1 (by decide +kernel)
  · exact Option.isNone_iff_eq_none.1 (by decide +kernel)

end Ddsnap
