import Ddsnap.SnapshotClients
import Ddsnap.SnapshotList

/-!
# The bounds of the use counts

The use count of a snapshot is the 16-bit sum of a persistent count, which `USECOUNT` changes, and of a transient one,
which counts clients.  `IDENTIFY` and an increase check the sum, a decrease checks the persistent count alone, and the
transient count goes down under an assertion: neither the counts nor the sum ever wrap (`use_counts_never_wrap`).  The
transient counts belong to bits, so that a check for one snapshot is enough only because no other live snapshot has its
bit (`LiveBits`).
-/

namespace Ddsnap

variable {D : Type} {d : Daemon D} {sb sb' : Sb D}

/-! ### Counts with 16 bits -/

/-- The live snapshots have different bits, and the counts and the sums of the live snapshots have 16 bits. -/
structure CountsFit (entries : List Snapshot) (usecount : Nat → Nat) (mask : Mask) : Prop where
  live : LiveBits entries mask
  transient : ∀ b, usecount b < 2 ^ 16
  persistent : ∀ x ∈ entries, x.usecount < 2 ^ 16
  sum : ∀ x ∈ entries, isSquashed x = false → usecount x.bit + x.usecount < 2 ^ 16

section

variable {entries rest : List Snapshot} {usecount : Nat → Nat} {mask : Mask} {x y : Snapshot}

private theorem LiveBits.eq_of_bit (h : LiveBits entries mask) (hx : x ∈ entries) (hy : y ∈ entries)
    (hxl : isSquashed x = false) (hyl : isSquashed y = false) (hbit : x.bit = y.bit) : x = y := by
  by_contra hne
  have hmem : y ∈ entries.erase x := (List.mem_erase_of_ne (Ne.symm hne)).2 hy
  have howners := (h.perm (List.perm_cons_erase hx)).owners
  exact (List.pairwise_cons.1 howners).1 y hmem hxl hyl hbit

private theorem CountsFit.shrink {entries' : List Snapshot} {usecount' : Nat → Nat} {mask' : Mask}
    (h : CountsFit entries usecount mask) (hlive : LiveBits entries' mask') (hle : ∀ b, usecount' b ≤ usecount b)
    (hmem : ∀ x ∈ entries', x ∈ entries ∨ isSquashed x = true ∧ x.usecount < 2 ^ 16) :
    CountsFit entries' usecount' mask' := by
  refine ⟨hlive, fun b => (hle b).trans_lt (h.transient b), fun x hx => ?_, fun x hx hs => ?_⟩
  · rcases hmem x hx with hx | ⟨-, hsmall⟩
    · exact h.persistent x hx
    · exact hsmall
  · rcases hmem x hx with hx | ⟨hsq, -⟩
    · have := h.sum x hx hs
      have := hle x.bit
      omega
    · rw [hsq] at hs
      cases hs

private theorem CountsFit.perm {entries' : List Snapshot} (h : CountsFit entries usecount mask)
    (hp : entries.Perm entries') : CountsFit entries' usecount mask :=
  h.shrink (h.live.perm hp) (fun _ => Nat.le_refl _) fun _ hx => .inl (hp.mem_iff.2 hx)

private theorem update_zero_le (usecount : Nat → Nat) (bit b : Nat) :
    Function.update usecount bit 0 b ≤ usecount b := by
  by_cases hb : b = bit
  · simp [hb]
  · rw [Function.update_of_ne hb]

private theorem CountsFit.create (h : CountsFit entries usecount mask) (hbit : hasBit mask x.bit = false)
    (hlt : x.bit < maxSnapshots) (hcount : x.usecount = 0) :
    CountsFit (x :: entries) usecount (mask ||| maskBit x.bit) := by
  refine ⟨h.live.create hbit hlt, h.transient, fun y hy => ?_, fun y hy hs => ?_⟩
  · rcases List.mem_cons.1 hy with rfl | hy
    · omega
    · exact h.persistent y hy
  · rcases List.mem_cons.1 hy with rfl | hy
    · rw [hcount]
      exact h.transient y.bit
    · exact h.sum y hy hs

private theorem CountsFit.modify (h : CountsFit (x :: rest) usecount mask) (hbit : y.bit = x.bit)
    (hsmall : y.usecount < 2 ^ 16)
    (hsum : isSquashed x = false → usecount x.bit + y.usecount < 2 ^ 16) : CountsFit (y :: rest) usecount mask := by
  have hsq : isSquashed y = isSquashed x := by simp only [isSquashed, hbit]
  refine ⟨h.live.modify hbit, h.transient, fun z hz => ?_, fun z hz hs => ?_⟩
  · rcases List.mem_cons.1 hz with rfl | hz
    · exact hsmall
    · exact h.persistent z (List.mem_cons_of_mem _ hz)
  · rcases List.mem_cons.1 hz with rfl | hz
    · exact hbit ▸ hsum (hsq ▸ hs)
    · exact h.sum z (List.mem_cons_of_mem _ hz) hs

private theorem CountsFit.recount (h : CountsFit entries usecount mask) (hx : x ∈ entries)
    (hlive : isSquashed x = false)
    {n : Nat} (hsum : n + x.usecount < 2 ^ 16) : CountsFit entries (Function.update usecount x.bit n) mask := by
  refine ⟨h.live, fun b => ?_, h.persistent, fun y hy hs => ?_⟩
  · by_cases hb : b = x.bit
    · rw [hb, Function.update_self]
      omega
    · rw [Function.update_of_ne hb]
      exact h.transient b
  · by_cases hb : y.bit = x.bit
    · rw [h.live.eq_of_bit hy hx hs hlive hb, Function.update_self]
      exact hsum
    · rw [Function.update_of_ne hb]
      exact h.sum y hy hs

end

/-! ### The store -/

/-- The use counts of a store have 16 bits. -/
def Sb.InBounds (sb : Sb D) : Prop := CountsFit sb.entries sb.usecount sb.snapmask

/-- The transient use count of a snapshot: a squashed one has none. -/
def transientCount (sb : Sb D) (snap : Snapshot) : Nat := if isSquashed snap then 0 else sb.usecount snap.bit

private theorem Sb.InBounds.transientCount_add (h : sb.InBounds) {snap : Snapshot} (hmem : snap ∈ sb.entries) :
    transientCount sb snap + snap.usecount < 2 ^ 16 := by
  unfold transientCount
  cases hs : isSquashed snap with
  | true => simpa using h.persistent snap hmem
  | false => simpa using h.sum snap hmem hs

private theorem Sb.InBounds.usecount_eq (h : sb.InBounds) {snap : Snapshot} (hmem : snap ∈ sb.entries) :
    Ddsnap.usecount sb snap = transientCount sb snap + snap.usecount :=
  Nat.mod_eq_of_lt (h.transientCount_add hmem)

private theorem Sb.InBounds.same (h : sb.InBounds) (hs : SameSnaps sb sb') : sb'.InBounds := by
  unfold Sb.InBounds Sb.entries
  rw [hs.snaplist, hs.snapshots, hs.usecount, hs.snapmask]
  exact h

private theorem Sb.InBounds.deleteSnap (h : sb.InBounds) {i : Nat} (hi : i < sb.image.snapshots)
    (hd : deleteSnap sb i = some sb') : sb'.InBounds := by
  have hperm := CountsFit.perm h (entries_perm hi)
  rw [← entries_removeSlot hi] at hperm
  obtain ⟨hs, hsame⟩ | ⟨hlive, hsame⟩ := deleteSnap_snaps hd
  · refine Sb.InBounds.same ?_ hsame
    exact hperm.shrink (hperm.live.deleteSquashed hs) (fun _ => Nat.le_refl _) fun _ hx =>
      .inl (List.mem_cons_of_mem _ hx)
  · refine Sb.InBounds.same ?_ hsame
    exact hperm.shrink (hperm.live.delete hlive) (update_zero_le _ _) fun _ hx => .inl (List.mem_cons_of_mem _ hx)

private theorem Sb.InBounds.squashSnap (h : sb.InBounds) {i : Nat} (hi : i < sb.image.snapshots)
    (hlive : isSquashed (sb.image.snaplist i) = false) (hd : squashSnap sb i = some sb') : sb'.InBounds := by
  have hperm := CountsFit.perm h (entries_perm hi)
  have hsq : isSquashed { sb.image.snaplist i with bit := snapshotSquashed } = true := by simp [isSquashed]
  refine Sb.InBounds.same ?_ (squashSnap_snaps hd)
  refine CountsFit.perm (hperm.shrink ((hperm.live.delete hlive).addSquashed hsq) (update_zero_le _ _) fun x hx => ?_)
    (entries_update hi _).symm
  rcases List.mem_cons.1 hx with rfl | hx
  · exact .inr ⟨hsq, h.persistent (sb.image.snaplist i) (snaplist_mem_entries hi)⟩
  · exact .inl (List.mem_cons_of_mem _ hx)

private theorem Sb.InBounds.survives : SurvivesRequests fun sb : Sb D => sb.InBounds where
  same h hs := h.same hs
  autoDelete h hd := by
    obtain hs | ⟨i, hi, hlive, -, hd⟩ | ⟨i, hi, -, -, hd⟩ := autoDeleteSnapshot_cases hd
    · exact h.same hs
    · exact h.squashSnap hi hlive hd
    · exact h.deleteSnap hi hd

private theorem Sb.InBounds.createMessage (h : sb.InBounds) {tag : Nat} (hd : createMessage sb tag = some sb') :
    sb'.InBounds := by
  obtain ⟨sb1, hroom, hnew⟩ := createMessage_cases hd
  have h1 : sb1.InBounds := by
    obtain rfl | ⟨i, hi, -, -, -, hdel⟩ := makeRoom_cases hroom
    · exact h
    · exact h.deleteSnap hi hdel
  obtain hsame | ⟨snap, hlt, hfree, hcount, -, hsame⟩ := hnew
  · exact h1.same hsame
  · refine Sb.InBounds.same ?_ hsame
    exact (CountsFit.create h1 hfree hlt hcount).perm (entries_push snap)

private theorem Sb.InBounds.deleteMessage (h : sb.InBounds) {tag : Nat} (hd : deleteMessage sb tag = some sb') :
    sb'.InBounds := by
  unfold Ddsnap.deleteMessage at hd
  split at hd
  · cases hd
    exact h
  · rename_i slot hslot
    split_ifs at hd
    · obtain ⟨sb1, h1, hd⟩ := Option.bind_eq_some_iff.1 hd
      exact (h.deleteSnap (findSnap_eq_some hslot).1 h1).same (sameSnaps_saveSbCheck hd)
    · cases hd
      exact h

private theorem Sb.InBounds.modifyEntry (h : sb.InBounds) {i : Nat} (hi : i < sb.image.snapshots) {snap : Snapshot}
    (hbit : snap.bit = (sb.image.snaplist i).bit)
    (hsum : transientCount sb (sb.image.snaplist i) + snap.usecount < 2 ^ 16) :
    Sb.InBounds { sb with image := { sb.image with snaplist := Function.update sb.image.snaplist i snap } } := by
  have hfit := (CountsFit.perm h (entries_perm hi)).modify hbit (by omega) fun hlive => ?_
  · exact hfit.perm (entries_update hi snap).symm
  · simpa [transientCount, hlive] using hsum

private theorem Sb.InBounds.setPriority (h : sb.InBounds) (tag : Nat) (prio : Int) :
    (setPriority sb tag prio).InBounds := by
  unfold Ddsnap.setPriority modifySnap
  split
  · exact h
  · rename_i slot hslot
    have hlt := (findSnap_eq_some hslot).1
    exact h.modifyEntry hlt rfl (h.transientCount_add (snaplist_mem_entries hlt))

/-- What `USECOUNT` does to an entry: nothing, or the persistent count changes by exactly the signed number. -/
private theorem Sb.InBounds.changeUsecount_cases (h : sb.InBounds) {tag slot : Nat}
    (hslot : findSnap sb tag = some slot) (dev : Int) :
    changeUsecount sb tag dev = sb ∨
      ∃ count : Nat, (count : Int) = (sb.image.snaplist slot).usecount + dev ∧
        transientCount sb (sb.image.snaplist slot) + count < 2 ^ 16 ∧
        changeUsecount sb tag dev = { sb with image := { sb.image with
          snaplist := Function.update sb.image.snaplist slot { sb.image.snaplist slot with usecount := count } } } := by
  have hmem := snaplist_mem_entries (findSnap_eq_some hslot).1
  have hsum := h.transientCount_add hmem
  have huse := h.usecount_eq hmem
  unfold changeUsecount
  rw [hslot]
  dsimp only
  split_ifs with htag hover hunder
  · exact .inl rfl
  · exact .inl rfl
  · exact .inl rfl
  · refine .inr ⟨_, ?_, ?_, rfl⟩
    all_goals
      rw [Nat.mod_eq_of_lt (by omega)]
      omega

private theorem Sb.InBounds.changeUsecount (h : sb.InBounds) (tag : Nat) (dev : Int) :
    (changeUsecount sb tag dev).InBounds := by
  cases hslot : findSnap sb tag with
  | none =>
    have hsame : Ddsnap.changeUsecount sb tag dev = sb := by simp [Ddsnap.changeUsecount, hslot]
    rw [hsame]
    exact h
  | some slot =>
    obtain hsame | ⟨count, -, hsum, hnew⟩ := h.changeUsecount_cases hslot dev
    · rw [hsame]
      exact h
    · rw [hnew]
      exact h.modifyEntry (findSnap_eq_some hslot).1 rfl hsum

/-- What a disconnecting client does to the counts: nothing, or the transient count of its snapshot goes down from a
positive number. -/
private theorem dropUsecount_cases {tag : Nat} (hd : dropUsecount sb tag = some sb') :
    ∃ slot, findSnap sb tag = some slot ∧
      ((isSquashed (sb.image.snaplist slot) = true ∧ sb' = sb) ∨
        (isSquashed (sb.image.snaplist slot) = false ∧ ∃ count,
          sb.usecount (sb.image.snaplist slot).bit = count + 1 ∧
          sb' = { sb with usecount := Function.update sb.usecount (sb.image.snaplist slot).bit count })) := by
  obtain ⟨slot, hslot, hd⟩ := Option.bind_eq_some_iff.1 hd
  refine ⟨slot, hslot, ?_⟩
  dsimp only at hd
  split_ifs at hd with hs hzero
  · cases hd
    exact .inl ⟨hs, rfl⟩
  · cases hd
    exact .inr ⟨by simpa using hs, _, (Nat.succ_pred_eq_of_ne_zero hzero).symm, rfl⟩

private theorem Sb.InBounds.dropUsecount (h : sb.InBounds) {tag : Nat} (hd : dropUsecount sb tag = some sb') :
    sb'.InBounds := by
  obtain ⟨slot, hslot, ⟨-, rfl⟩ | ⟨hlive, count, hcount, rfl⟩⟩ := dropUsecount_cases hd
  · exact h
  · have hmem := (findSnap_mem hslot).1
    have hsum := h.sum _ hmem hlive
    exact CountsFit.recount h hmem hlive (by omega)

/-! ### Events -/

private theorem Sb.InBounds.identify (h : sb.InBounds) {tag : Nat} {snapshot : Snapshot}
    (hok : identifySnap sb tag = .ok snapshot) :
    (sb.usecount snapshot.bit + 1) % 2 ^ 16 = sb.usecount snapshot.bit + 1 ∧ (countClient sb snapshot).InBounds := by
  obtain ⟨slot, hslot, rfl, hlive, hsum⟩ := identifySnap_ok hok
  have hmem := (findSnap_mem hslot).1
  rw [h.usecount_eq hmem, transientCount, hlive, if_neg (by simp)] at hsum
  have hexact := Nat.mod_eq_of_lt (show sb.usecount (sb.image.snaplist slot).bit + 1 < 2 ^ 16 by omega)
  refine ⟨hexact, ?_⟩
  unfold countClient
  rw [hexact]
  exact CountsFit.recount h hmem hlive (by omega)

private theorem Sb.InBounds.event {d' : Daemon D} {e : Event} (h : d.sb.InBounds) (hs : StoreEvent d e d') :
    d'.sb.InBounds := by
  have k := Sb.InBounds.survives (D := D)
  cases hs with
  | connect _ hsb _ | leave _ _ hsb _ | quiet _ hsb _ =>
    rw [hsb]
    exact h
  | originWrite _ _ hchunks hcommit _ => exact k.finishRequest (k.originChunks h hchunks) hcommit
  | snapshotWrite _ _ _ hchunks hcommit _ => exact k.finishRequest (k.snapshotChunks h hchunks) hcommit
  | @identify _ client _ tag off len =>
    obtain hsb | ⟨snapshot, hok, hsb⟩ := identifyClient_sb d client tag off len
    · exact hsb ▸ h
    · exact hsb ▸ (h.identify hok).2
  | drop _ _ hdrop _ => exact h.dropUsecount hdrop
  | create hcreate _ => exact h.createMessage hcreate
  | delete hdelete _ => exact h.deleteMessage hdelete
  | priority hsb _ => exact hsb ▸ h.setPriority _ _
  | usecount hsb _ => exact hsb ▸ h.changeUsecount _ _

/-! ### Runs -/

private theorem Daemon.Started.inBounds (h : d.Started) : d.sb.InBounds := by
  obtain ⟨sb, orgoffset, rfl, hok, hmask, hcount⟩ := h
  have hslot : ∀ x ∈ sb.entries, ∃ i < sb.image.snapshots, sb.image.snaplist i = x := fun x hx => by
    simpa [Sb.entries] using hx
  have hlive : LiveBits sb.entries sb.snapmask := by
    refine ⟨hok.owners, fun b => ?_⟩
    rw [hmask, hasBit_calcSnapmask_iff hok.bits]
    simp [Sb.entries]
  refine ⟨hlive, fun b => ?_, fun x hx => ?_, fun x hx _ => ?_⟩
  · exact (hcount b).trans_lt (by decide)
  · obtain ⟨i, hi, rfl⟩ := hslot x hx
    exact hok.small i hi
  · obtain ⟨i, hi, rfl⟩ := hslot x hx
    rw [show (Daemon.start sb orgoffset).sb = sb from rfl, hcount, Nat.zero_add]
    exact hok.small i hi

/-- A snapshot in use: it has a persistent or a transient count. -/
def InUse (sb : Sb D) (snap : Snapshot) : Prop := 0 < snap.usecount ∨ 0 < transientCount sb snap

/-- The counts change by exactly the numbers that are added and taken away. -/
structure ExactCounts (sb : Sb D) : Prop where
  identify : ∀ tag snapshot, identifySnap sb tag = .ok snapshot →
    (sb.usecount snapshot.bit + 1) % 2 ^ 16 = sb.usecount snapshot.bit + 1
  change : ∀ tag dev slot, findSnap sb tag = some slot → changeUsecount sb tag dev = sb ∨
    (((changeUsecount sb tag dev).image.snaplist slot).usecount : Int) = (sb.image.snaplist slot).usecount + dev
  drop : ∀ tag slot sb', findSnap sb tag = some slot → isSquashed (sb.image.snaplist slot) = false →
    dropUsecount sb tag = some sb' →
      sb'.usecount (sb.image.snaplist slot).bit + 1 = sb.usecount (sb.image.snaplist slot).bit

private theorem Sb.InBounds.exactCounts (h : sb.InBounds) : ExactCounts sb where
  identify _ _ hs := (h.identify hs).1
  change tag dev slot hslot := by
    obtain hsame | ⟨count, hcount, -, hnew⟩ := h.changeUsecount_cases hslot dev
    · exact .inl hsame
    · refine .inr ?_
      rw [hnew, ← hcount]
      simp
  drop tag slot sb' hslot hlive hd := by
    obtain ⟨slot', hslot', ⟨hsq, -⟩ | ⟨-, count, hcount, rfl⟩⟩ := dropUsecount_cases hd
    all_goals obtain rfl : slot' = slot := Option.some.inj (hslot'.symm.trans hslot)
    · rw [hlive] at hsq
      cases hsq
    · rw [hcount]
      exact congrArg (· + 1) (Function.update_self ..)

/-- In every run of the daemon, the transient counts, the persistent counts of the listed snapshots and the sums of both
have 16 bits, no change of a count wraps, and `usecount` is the sum: it is positive for every snapshot in use. -/
theorem use_counts_never_wrap (h : Reach.Run Daemon.step (fun _ _ => True) Daemon.Started d) :
    (∀ bit, d.sb.usecount bit < 2 ^ 16) ∧
    (∀ slot < d.sb.image.snapshots,
      (d.sb.image.snaplist slot).usecount < 2 ^ 16 ∧
      transientCount d.sb (d.sb.image.snaplist slot) + (d.sb.image.snaplist slot).usecount < 2 ^ 16 ∧
      usecount d.sb (d.sb.image.snaplist slot) =
        transientCount d.sb (d.sb.image.snaplist slot) + (d.sb.image.snaplist slot).usecount ∧
      (InUse d.sb (d.sb.image.snaplist slot) → usecount d.sb (d.sb.image.snaplist slot) ≠ 0)) ∧
    ExactCounts d.sb := by
  have hfit : d.sb.InBounds := by
    apply h.invariant
    · exact fun d hd => hd.inBounds
    · exact fun d e d' hd _ hs => hd.event (d.step_store hs)
  refine ⟨hfit.transient, fun slot hslot => ?_, hfit.exactCounts⟩
  have hmem := snaplist_mem_entries hslot
  refine ⟨hfit.persistent _ hmem, hfit.transientCount_add hmem, hfit.usecount_eq hmem, fun huse => ?_⟩
  rw [hfit.usecount_eq hmem]
  unfold InUse at huse
  omega

/-- Two clients and the largest persistent count that is left.  One more is refused, and so is a decrease below 0. -/
def crowdedEvents : List Event :=
  sharedEvents ++ [.message 9 (.usecount 7 65533), .message 9 (.usecount 7 1), .message 9 (.usecount 7 (-65534)),
    .message 9 (.identify 7 0 0)]

def crowdedRun : Daemon Nat := (Reach.exec Daemon.step (fun _ _ => True) tinyDaemon crowdedEvents).getD tinyDaemon

private theorem crowdedRun_run : Reach.Run Daemon.step (fun _ _ => True) Daemon.Started crowdedRun :=
  (Reach.Run.start tinyDaemon_started).exec_getD crowdedEvents

/-- A snapshot with the largest use count. -/
theorem use_counts_never_wrap_full :
    transientCount crowdedRun.sb (crowdedRun.sb.image.snaplist 0) = 2 ∧ (crowdedRun.sb.image.snaplist 0).usecount = 65533 ∧
    usecount crowdedRun.sb (crowdedRun.sb.image.snaplist 0) = 65535 := by
  have htransient : transientCount crowdedRun.sb (crowdedRun.sb.image.snaplist 0) = 2 := by decide +kernel
  have hpersistent : (crowdedRun.sb.image.snaplist 0).usecount = 65533 := by decide +kernel
  obtain ⟨-, -, hsum, -⟩ := (use_counts_never_wrap crowdedRun_run).2.1 0 (by decide +kernel)
  rw [htransient, hpersistent] at hsum
  exact ⟨htransient, hpersistent, hsum⟩

end Ddsnap
