import Ddsnap.Lib.Rotation
import Ddsnap.Raid.Scan
import Ddsnap.Raid.Server

/-!
# Recovery finds the newest block

The blocks of the mirror journal are a circular log: the block number `t`, counted from the creation of the journal on,
lies at position `t % journal_size` and has the sequence number `t` modulo `2 ^ 32`.  The scan of `recover_journal`
recognises the newest block by the sequence number of its successor, unless the number of the newest block is the value
that the scan uses for "no sequence number yet".
-/

namespace Ddraid

variable {cfg : Config} {disk : Nat → JournalBlock} {s : List JournalBlock} {st : Scan} {sb : Sb}

private theorem sequence_wrap_succ {a n : Nat} (ha : a < 2 ^ 32) (hn : n < 2 ^ 32) :
    ((a + 1 + 2 ^ 32 - n) % 2 ^ 32 + 1) % 2 ^ 32 = ((a + 1) % 2 ^ 32 + 1 + 2 ^ 32 - n) % 2 ^ 32 := by
  rw [Nat.mod_add_mod]
  rcases Nat.lt_or_eq_of_le ha with hlt | heq
  · rw [Nat.mod_eq_of_lt hlt]
    congr 1
    omega
  · rw [show a + 1 = 2 ^ 32 from heq, Nat.mod_self, Nat.zero_add,
      show 2 ^ 32 + 2 ^ 32 - n + 1 = 1 + 2 ^ 32 - n + 2 ^ 32 by omega, Nat.add_mod_right]

/-- The journal holds the last blocks of the log `s`. -/
structure Ring (cfg : Config) (disk : Nat → JournalBlock) (s : List JournalBlock) : Prop where
  full : cfg.journalSize ≤ s.length
  holds : RingLog.Holds cfg.journalSize disk s
  sequence : ∀ t b, s[t]? = some b → b.sequence = t % 2 ^ 32
  sealed : ∀ b ∈ s, Sealed cfg b

section
variable (hr : Ring cfg disk s)
include hr

private theorem Ring.cell {t : Nat} (ht : t < s.length) (hlen : s.length ≤ t + cfg.journalSize) :
    Sealed cfg (disk (t % cfg.journalSize)) ∧ (disk (t % cfg.journalSize)).sequence = t % 2 ^ 32 := by
  rw [hr.holds.get ht hlen]
  exact ⟨hr.sealed _ (List.getElem_mem ht), hr.sequence t _ (List.getElem?_eq_getElem ht)⟩

private theorem Ring.exists_cell {i : Nat} (hi : i < cfg.journalSize) :
    ∃ t, t < s.length ∧ s.length ≤ t + cfg.journalSize ∧ t % cfg.journalSize = i := by
  have hfull := hr.full
  obtain ⟨k, hk, he⟩ := RingLog.exists_index (s.length - cfg.journalSize) hi
  exact ⟨s.length - cfg.journalSize + k, by omega, by omega, he⟩

private theorem Ring.sealed_at {i : Nat} (hi : i < cfg.journalSize) : Sealed cfg (disk i) := by
  obtain ⟨t, h1, h2, rfl⟩ := hr.exists_cell hi
  exact (hr.cell h1 h2).1

private theorem Ring.succ_sequence {i : Nat} (hi : i + 1 < cfg.journalSize)
    (hne : i ≠ (s.length - 1) % cfg.journalSize) : (disk (i + 1)).sequence = ((disk i).sequence + 1) % 2 ^ 32 := by
  obtain ⟨t, h1, h2, he⟩ := hr.exists_cell (i := i) (by omega)
  have hlast : t ≠ s.length - 1 := fun h => hne (by rw [← h, he])
  have hnext : (t + 1) % cfg.journalSize = i + 1 := by
    rw [← RingLog.succ_mod (by omega) t, he, if_neg (by omega)]
  have h3 := (hr.cell h1 h2).2
  have h4 := (hr.cell (t := t + 1) (by omega) (by omega)).2
  rw [he] at h3
  rw [hnext] at h4
  rw [h3, h4, Nat.mod_add_mod]

private theorem Ring.follows {i : Nat} (hi : i + 1 < cfg.journalSize) (hne : i ≠ (s.length - 1) % cfg.journalSize) :
    Follows (disk i).sequence (disk (i + 1)) := .inr (hr.succ_sequence hi hne)

private theorem Ring.oldest (hpos : 0 < cfg.journalSize) (hn : cfg.journalSize < 2 ^ 32)
    (hj : (s.length - 1) % cfg.journalSize + 1 < cfg.journalSize) :
    (disk ((s.length - 1) % cfg.journalSize)).sequence = (s.length - 1) % 2 ^ 32 ∧
      (disk ((s.length - 1) % cfg.journalSize + 1)).sequence =
        ((s.length - 1) % 2 ^ 32 + 1 + 2 ^ 32 - cfg.journalSize) % 2 ^ 32 := by
  have hfull := hr.full
  have hmod : (s.length - cfg.journalSize) % cfg.journalSize = (s.length - 1) % cfg.journalSize + 1 := by
    have hsucc := RingLog.succ_mod hpos (s.length - 1)
    rw [if_neg (by omega), Nat.sub_add_cancel (by omega)] at hsucc
    rw [hsucc, ← Nat.mod_eq_sub_mod hfull]
  have h1 := (hr.cell (t := s.length - 1) (by omega) (by omega)).2
  have h2 := (hr.cell (t := s.length - cfg.journalSize) (by omega) (by omega)).2
  rw [hmod] at h2
  exact ⟨h1, by rw [h2]; omega⟩

end

/-! ### The scan of a ring -/

section
variable {j : Nat}

private theorem scanFirst_head (hgood : Sealed cfg (disk 0)) :
    scanFirst cfg disk (0 + 1) = .ok { Scan.start with sequence := (disk 0).sequence } := by
  rw [scanFirst_succ, scanFirst_zero]
  exact scanBlock_follows hgood (.inl rfl)

private theorem Ring.scan_newest (hr : Ring cfg disk s) {d : Nat → JournalBlock}
    (hj : j = (s.length - 1) % cfg.journalSize) (hlt : j < cfg.journalSize) (hd : ∀ i ≤ j, d i = disk i) :
    scanFirst cfg d (j + 1) = .ok { Scan.start with sequence := (d j).sequence } := by
  have hgood : ∀ i ≤ j, Sealed cfg (d i) := fun i hi => by
    rw [hd i hi]
    exact hr.sealed_at (by omega)
  refine scanFirst_run (Nat.zero_le j) (scanFirst_head (hgood 0 (Nat.zero_le j))) (fun i _ hi => hgood i hi) ?_
  intro i _ hi
  rw [hd i (by omega), hd (i + 1) (by omega)]
  exact hr.follows (by omega) (by omega)

private theorem Ring.scan_end (hr : Ring cfg disk s) (st : Scan) {d : Nat → JournalBlock}
    (hj : j = (s.length - 1) % cfg.journalSize)
    {a : Nat} (ha : a < cfg.journalSize) (hja : ∀ i, a ≤ i → i + 1 < cfg.journalSize → i ≠ j)
    (hd : ∀ i, a ≤ i → i < cfg.journalSize → d i = disk i)
    (h : scanFirst cfg d (a + 1) = .ok { st with sequence := (d a).sequence }) :
    scanFirst cfg d cfg.journalSize = .ok { st with sequence := (d (cfg.journalSize - 1)).sequence } := by
  have hrun := scanFirst_run (b := cfg.journalSize - 1) (by omega) h
    (fun i h1 h2 => by rw [hd i (by omega) (by omega)]; exact hr.sealed_at (by omega)) fun i h1 h2 => by
      rw [hd i h1 (by omega), hd (i + 1) (by omega) (by omega)]
      exact hr.follows (by omega) (hj ▸ hja i h1 (by omega))
  rwa [Nat.sub_add_cancel (by omega)] at hrun

/-- The wrap is seen, unless the newest block has the number that stands for none. -/
private theorem Ring.recovers_iff (hr : Ring cfg disk s) (hpos : 0 < cfg.journalSize) (hn : cfg.journalSize < 2 ^ 32)
    (hj : j = (s.length - 1) % cfg.journalSize) :
    (∃ st, Recovers cfg disk st j ∧ st.scribbled = none) ↔ ((disk j).sequence = noSequence → j + 1 = cfg.journalSize) := by
  have hlt : j < cfg.journalSize := hj ▸ Nat.mod_lt _ hpos
  by_cases hlast : j + 1 = cfg.journalSize
  · refine iff_of_true ?_ fun _ => hlast
    obtain ⟨st, hst, hs⟩ := recovers_of_follows _ hpos (fun m hm => hr.sealed_at hm) fun m hm =>
      hr.follows hm (by omega)
    rw [← hlast, Nat.add_sub_cancel] at hst
    exact ⟨st, hst, hs⟩
  · by_cases hnone : (disk j).sequence = noSequence
    · refine iff_of_false ?_ fun h => hlast (h hnone)
      rintro ⟨st, hst, -⟩
      rcases hst.clean fun m hm => hr.sealed_at hm with ⟨-, hw⟩ | ⟨hl, -⟩
      · exact hw.1 hnone
      · exact hlast hl
    · refine iff_of_true ?_ fun h => absurd h hnone
      obtain ⟨h1, h2⟩ := hr.oldest hpos hn (by omega)
      rw [← hj] at h1 h2
      have hscan := hr.scan_newest hj hlt fun _ _ => rfl
      -- the block after the newest one wraps
      have hwrap : scanFirst cfg disk (j + 1 + 1) =
          .ok { sequence := (disk (j + 1)).sequence, scribbled := none, newestBlock := some j } := by
        have hne : (disk (j + 1)).sequence ≠ ((disk j).sequence + 1) % 2 ^ 32 := by
          rw [h1, h2]
          omega
        rw [scanFirst_succ, hscan]
        exact scanBlock_wraps (hr.sealed_at (by omega)) ⟨hnone, by rw [h2, ← h1]⟩ hne rfl (.inl rfl)
      have hend := hr.scan_end ⟨0, none, some j⟩ hj (a := j + 1) (by omega) (fun i hi _ => by omega)
        (fun _ _ _ => rfl) hwrap
      exact ⟨_, ⟨hend, rfl, hpos, nofun⟩, rfl⟩

/-- The block `k` was being written when the machine stopped. -/
structure TornAt (cfg : Config) (disk d : Nat → JournalBlock) (k : Nat) : Prop where
  bad : ¬ Sealed cfg (d k)
  same : ∀ i, i ≠ k → d i = disk i

private theorem TornAt.update {k : Nat} {t : JournalBlock} (ht : ¬ Sealed cfg t) : TornAt cfg disk
    (Function.update disk k t) k :=
  ⟨by rwa [Function.update_self], fun _ hi => Function.update_of_ne hi _ _⟩

section
variable {d : Nat → JournalBlock}

/-- The scribble is on the first block, the newest block is the last one. -/
private theorem Ring.torn_first (hr : Ring cfg disk s) (hsize : 2 ≤ cfg.journalSize)
    (hj : j = (s.length - 1) % cfg.journalSize) (hlast : j + 1 = cfg.journalSize) (ht : TornAt cfg disk d 0) :
    ∃ st, Recovers cfg d st j := by
  have hbad : scanFirst cfg d (0 + 1) = .ok ⟨noSequence, some 0, none⟩ := by
    rw [scanFirst_succ, scanFirst_zero]
    show scanBlock cfg Scan.start 0 (d 0) = _
    rw [scanBlock_bad ht.bad rfl rfl]
    rfl
  have hsecond : scanFirst cfg d (1 + 1) =
      .ok { sequence := (d 1).sequence, scribbled := some 0, newestBlock := none } := by
    rw [scanFirst_succ, hbad]
    exact scanBlock_follows (by rw [ht.same 1 (by decide)]; exact hr.sealed_at (by omega)) (.inl rfl)
  have hend := hr.scan_end ⟨0, some 0, none⟩ hj (a := 1) (by omega) (fun i _ _ => by omega)
    (fun i h1 _ => ht.same i (by omega)) hsecond
  refine ⟨_, hend, ?_, by omega, fun k hk => ?_⟩
  · show Except.ok (cfg.journalSize - 1) = _
    rw [← hlast, Nat.add_sub_cancel]
  · rw [hlast, Nat.mod_self]
    exact (Option.some.inj hk).symm

section
variable (hr : Ring cfg disk s) (hj : j = (s.length - 1) % cfg.journalSize) (ht : TornAt cfg disk d (j + 1))
include hr hj ht

private theorem Ring.scan_torn (hlt : j < cfg.journalSize) : scanFirst cfg d (j + 1 + 1) = .ok
    ⟨if (disk j).sequence ≠ noSequence then ((disk j).sequence + 1) % 2 ^ 32 else (disk j).sequence, some (j + 1),
      none⟩ := by
  rw [scanFirst_succ, hr.scan_newest hj hlt fun i hi => ht.same i (by omega)]
  show scanBlock cfg _ (j + 1) (d (j + 1)) = _
  rw [scanBlock_bad ht.bad rfl rfl, ht.same j (by omega)]
  rfl

private theorem Ring.torn_last (hlast : j + 2 = cfg.journalSize) : ∃ st, Recovers cfg d st j := by
  have hscan := hr.scan_torn hj ht (by omega)
  rw [show j + 1 + 1 = cfg.journalSize from hlast] at hscan
  refine ⟨_, hscan, ?_, by omega, fun k hk => ?_⟩
  · have h0 : ¬ (some (j + 1) = none ∨ some (j + 1) = some 0) := by simp
    have h1 : ¬ some (j + 1) ≠ some (cfg.journalSize - 1) := by simp; omega
    unfold selectNewest
    dsimp only
    rw [if_neg h0, if_neg h1, ← hlast, Nat.add_sub_cancel]
  · rw [Nat.mod_eq_of_lt (by omega)]
    exact (Option.some.inj hk).symm

/-- The scribble is between two blocks.  Its successor is compared with the newest block, unless the number of the
newest block or the number after it stands for none. -/
private theorem Ring.torn_middle_iff (hn : cfg.journalSize < 2 ^ 32) (hmid : j + 2 < cfg.journalSize) :
    (∃ st, Recovers cfg d st j) ↔ ¬ ((disk j).sequence = noSequence ∨ (disk j).sequence + 1 = noSequence) := by
  have hscan := hr.scan_torn hj ht (by omega)
  obtain ⟨h1, h2⟩ := hr.oldest (by omega) hn (by omega)
  rw [← hj] at h1 h2
  have hd2 : d (j + 2) = disk (j + 2) := ht.same _ (by omega)
  have hgood : Sealed cfg (d (j + 2)) := hd2 ▸ hr.sealed_at hmid
  have h3 : (d (j + 2)).sequence = ((disk (j + 1)).sequence + 1) % 2 ^ 32 :=
    hd2 ▸ hr.succ_sequence (i := j + 1) hmid (by omega)
  by_cases hnone : (disk j).sequence = noSequence ∨ (disk j).sequence + 1 = noSequence
  · refine iff_of_false ?_ (not_not.2 hnone)
    rintro ⟨st, hst⟩
    have hno : (if (disk j).sequence ≠ noSequence then ((disk j).sequence + 1) % 2 ^ 32 else (disk j).sequence) =
        noSequence := by
      unfold noSequence at hnone ⊢
      split_ifs <;> omega
    rw [hno] at hscan
    have hnext : scanFirst cfg d (j + 2 + 1) = .ok ⟨(d (j + 2)).sequence, some (j + 1), none⟩ := by
      rw [scanFirst_succ, hscan]
      exact scanBlock_follows hgood (.inl rfl)
    have hend := hr.scan_end ⟨0, some (j + 1), none⟩ hj (a := j + 2) hmid (fun i _ _ => by omega)
      (fun i h1 _ => ht.same i (by omega)) hnext
    have hsel := hst.select
    obtain rfl := Except.ok.inj (hst.scan.symm.trans hend)
    have h0 : ¬ (some (j + 1) = none ∨ some (j + 1) = some 0) := by simp
    have h1 : some (j + 1) ≠ some (cfg.journalSize - 1) := by simp; omega
    unfold selectNewest at hsel
    dsimp only at hsel
    rw [if_neg h0, if_pos h1] at hsel
    cases hsel
  · refine iff_of_true ?_ hnone
    obtain ⟨hne1, hne2⟩ := not_or.1 hnone
    rw [if_pos hne1] at hscan
    have hwrap : scanFirst cfg d (j + 2 + 1) = .ok ⟨(d (j + 2)).sequence, some (j + 1), some j⟩ := by
      have hno : ((disk j).sequence + 1) % 2 ^ 32 ≠ noSequence := by
        unfold noSequence at hne2 ⊢
        rw [h1] at hne2 ⊢
        omega
      have hne : (d (j + 2)).sequence ≠ (((disk j).sequence + 1) % 2 ^ 32 + 1) % 2 ^ 32 := by
        rw [h3, h2, h1]
        omega
      have heq : (d (j + 2)).sequence =
          (((disk j).sequence + 1) % 2 ^ 32 + 1 + 2 ^ 32 - cfg.journalSize) % 2 ^ 32 := by
        rw [h3, h2, h1]
        exact sequence_wrap_succ (Nat.mod_lt _ (by decide)) hn
      rw [scanFirst_succ, hscan]
      exact scanBlock_wraps hgood ⟨hno, heq⟩ hne rfl (.inr rfl)
    have hend := hr.scan_end ⟨0, some (j + 1), some j⟩ hj (a := j + 2) hmid (fun i _ _ => by omega)
      (fun i h1 _ => ht.same i (by omega)) hwrap
    refine ⟨_, hend, rfl, by omega, fun k hk => ?_⟩
    rw [Nat.mod_eq_of_lt (by omega)]
    exact (Option.some.inj hk).symm

end

/-- With a scribbled block after the newest one. -/
private theorem Ring.recovers_torn_iff (hr : Ring cfg disk s) (hsize : 2 ≤ cfg.journalSize)
    (hn : cfg.journalSize < 2 ^ 32)
    (hj : j = (s.length - 1) % cfg.journalSize) (ht : TornAt cfg disk d (s.length % cfg.journalSize)) :
    (∃ st, Recovers cfg d st j) ↔
      ((disk j).sequence = noSequence ∨ (disk j).sequence + 1 = noSequence →
        j + 1 = cfg.journalSize ∨ j + 2 = cfg.journalSize) := by
  have hpos : 0 < cfg.journalSize := by omega
  have hfull := hr.full
  have hlt : j < cfg.journalSize := hj ▸ Nat.mod_lt _ hpos
  have hk := RingLog.succ_mod hpos (s.length - 1)
  rw [← hj, Nat.sub_add_cancel (by omega)] at hk
  rw [← hk] at ht
  by_cases hlast : j + 1 = cfg.journalSize
  · rw [if_pos hlast] at ht
    exact iff_of_true (hr.torn_first hsize hj hlast ht) fun _ => .inl hlast
  rw [if_neg hlast] at ht
  by_cases hlast2 : j + 2 = cfg.journalSize
  · exact iff_of_true (hr.torn_last hj ht hlast2) fun _ => .inr hlast2
  · rw [hr.torn_middle_iff hj ht hn (by omega)]
    refine ⟨fun h h' => absurd h' h, fun h h' => ?_⟩
    exact (h h').elim hlast hlast2

end

end

/-! ### Loading the entries -/

/-- The loop gets from the oldest block to the newest one, `d` blocks after it on the ring. -/
private theorem loadBlocks_ends (disk : Nat → JournalBlock) (hpos : 0 < cfg.journalSize) {d t bound : Nat}
    (oldestEntry : Nat) (hash : Nat → Option Region) (hd : d < cfg.journalSize) (hb : d < bound) :
    ∃ hash', loadBlocks cfg disk ((t + d) % cfg.journalSize) bound (t % cfg.journalSize) (t % cfg.journalSize)
      oldestEntry hash = .ok hash' := by
  induction d generalizing t bound oldestEntry hash with
  | zero =>
    obtain ⟨bound, rfl⟩ := Nat.exists_eq_succ_of_ne_zero (Nat.ne_of_gt hb)
    have hlt := Nat.mod_lt t hpos
    unfold loadBlocks
    rw [if_neg (by omega), Nat.add_zero, if_pos rfl]
    exact ⟨_, rfl⟩
  | succ d ih =>
    obtain ⟨bound, rfl⟩ := Nat.exists_eq_succ_of_ne_zero (Nat.ne_of_gt (Nat.lt_of_le_of_lt (Nat.zero_le _) hb))
    have hlt := Nat.mod_lt t hpos
    have hne : t % cfg.journalSize ≠ (t + (d + 1)) % cfg.journalSize := fun h => by
      have := RingLog.mod_inj h (by omega) (by omega)
      omega
    unfold loadBlocks
    rw [if_neg (by omega), if_neg hne]
    dsimp only
    rw [RingLog.succ_mod hpos, show t + (d + 1) = t + 1 + d by omega]
    exact ih 0 _ (by omega) (Nat.lt_of_succ_lt_succ hb)

private theorem loadBlocks_isOk (disk : Nat → JournalBlock) {newest oldestBlock : Nat} (hn : newest < cfg.journalSize)
    (ho : oldestBlock < cfg.journalSize) (oldestEntry : Nat) (hash : Nat → Option Region) :
    ∃ hash', loadBlocks cfg disk newest cfg.journalSize oldestBlock oldestBlock oldestEntry hash = .ok hash' := by
  obtain ⟨d, hd, he⟩ := RingLog.exists_index oldestBlock hn
  have h := loadBlocks_ends (t := oldestBlock) disk (by omega) oldestEntry hash hd hd
  rwa [he, Nat.mod_eq_of_lt ho] at h

private theorem Recovers.exists_ok {newest : Nat} (h : Recovers cfg disk st newest)
    (ho : (disk newest).oldestBlock < cfg.journalSize) (hk : st.scribbled ≠ some newest) :
    ∃ r, recoverJournal cfg disk = .ok r ∧ r.newestBlock = newest := by
  have hsame : rewriteScribbled cfg disk newest st.scribbled newest = disk newest := by
    cases hs : st.scribbled with
    | none => rfl
    | some k => exact Function.update_of_ne (fun he => hk (by rw [hs, he])) _ _
  obtain ⟨hash, hload⟩ := loadBlocks_isOk (rewriteScribbled cfg disk newest st.scribbled) h.newest_lt ho
    (disk newest).oldestEntry fun _ => none
  have hok : recoverJournal cfg disk = .ok ⟨newest, st.scribbled, rewriteScribbled cfg disk newest st.scribbled,
      (disk newest).oldestBlock, fun r => (hash r).map fun region => { region with unsynced := true }⟩ := by
    rw [h.recoverJournal_eq]
    unfold rebuild
    simp only [bind, Except.bind]
    rw [hsame, hload]
  exact ⟨_, hok, rfl⟩

/-! ### Commits -/

section
variable (sb : Sb) (commit : Bool)

@[simp] theorem advanceNewBlock_newbuf : (advanceNewBlock cfg sb commit).newbuf =
    { checksum := 0, sequence := (sb.newbuf.sequence + 1) % 2 ^ 32, oldestBlock := sb.newbuf.oldestBlock,
      oldestEntry := sb.newbuf.oldestEntry, highwater := 0, entry := [] } := rfl

@[simp] theorem advanceNewBlock_newestBlock : (advanceNewBlock cfg sb commit).newestBlock =
    if sb.newestBlock + 1 = cfg.journalSize then 0 else sb.newestBlock + 1 := by
  cases commit <;> rfl

@[simp] theorem advanceNewBlock_disk : (advanceNewBlock cfg sb commit).disk =
    if commit then Function.update sb.disk sb.newestBlock (setChecksum cfg.blocksizeBits sb.newbuf) else sb.disk := by
  cases commit <;> rfl

end

/-- What the server may do to its memory between two commits. -/
structure Fills (cfg : Config) (sb sb' : Sb) : Prop where
  disk : sb'.disk = sb.disk
  newestBlock : sb'.newestBlock = sb.newestBlock
  sequence : sb'.newbuf.sequence = sb.newbuf.sequence
  oldestBlock : sb'.newbuf.oldestBlock < cfg.journalSize

/-- A server that was started on a journal that was just created, and made any number of commits, with the position of
the block that was written last. -/
inductive Committed (cfg : Config) : Sb → Nat → Prop where
  | start {sb : Sb} : startServer cfg (created cfg) = .ok sb → Committed cfg sb (cfg.journalSize - 1)
  | commit {sb sb' : Sb} {last : Nat} : Committed cfg sb last → Fills cfg sb sb' →
      Committed cfg (advanceNewBlock cfg sb' true) sb'.newestBlock

/-- The server and its journal after `s` was written. -/
structure AtBlock (cfg : Config) (sb : Sb) (s : List JournalBlock) : Prop where
  ring : Ring cfg sb.disk s
  newestBlock : sb.newestBlock = s.length % cfg.journalSize
  sequence : sb.newbuf.sequence = s.length % 2 ^ 32

private theorem AtBlock.advance {s : List JournalBlock} {sb : Sb} (h : AtBlock cfg sb s) (hpos : 0 < cfg.journalSize) :
    AtBlock cfg (advanceNewBlock cfg sb true) (s ++ [setChecksum cfg.blocksizeBits sb.newbuf]) := by
  have hfull := h.ring.full
  refine ⟨⟨?_, ?_, ?_, ?_⟩, ?_, ?_⟩
  · rw [List.length_append]
    omega
  · rw [advanceNewBlock_disk, if_pos rfl, h.newestBlock]
    exact h.ring.holds.push _
  · intro t b hb
    by_cases ht : t < s.length
    · rw [List.getElem?_append_left ht] at hb
      exact h.ring.sequence t b hb
    · rw [List.getElem?_append_right (by omega)] at hb
      obtain ⟨h0, rfl⟩ := List.getElem?_eq_some_iff.1 hb
      simp only [List.length_singleton] at h0
      obtain rfl : t = s.length := by omega
      rw [List.getElem_singleton]
      exact h.sequence
  · intro b hb
    rcases List.mem_append.1 hb with hb | hb
    · exact h.ring.sealed b hb
    · rw [List.mem_singleton.1 hb]
      exact checksumBlock_setChecksum _ _
  · rw [advanceNewBlock_newestBlock, h.newestBlock, RingLog.succ_mod hpos, List.length_append, List.length_singleton]
  · rw [advanceNewBlock_newbuf, List.length_append, List.length_singleton]
    dsimp only
    rw [h.sequence, Nat.mod_add_mod]

/-- The blocks of a new journal, as a log. -/
def createdLog (cfg : Config) : List JournalBlock := (List.range cfg.journalSize).map (created cfg)

private theorem ring_created (cfg : Config) : Ring cfg (created cfg) (createdLog cfg) := by
  have hget : ∀ t b, (createdLog cfg)[t]? = some b → t < cfg.journalSize ∧ created cfg t = b := fun t b hb => by
    unfold createdLog at hb
    rw [List.getElem?_map] at hb
    obtain ⟨i, hi, rfl⟩ := Option.map_eq_some_iff.1 hb
    obtain ⟨hlt, rfl⟩ := List.getElem?_eq_some_iff.1 hi
    rw [List.length_range] at hlt
    rw [List.getElem_range]
    exact ⟨hlt, rfl⟩
  refine ⟨by simp [createdLog], fun t b hb _ => ?_, fun t b hb => ?_, fun b hb => ?_⟩
  · obtain ⟨hlt, he⟩ := hget t b hb
    rw [Nat.mod_eq_of_lt hlt, he]
  · rw [← (hget t b hb).2]
    rfl
  · obtain ⟨i, -, rfl⟩ := List.mem_map.1 hb
    exact checksumBlock_emptyBlock _ _ _

/-- Recovery of a new journal finds its last block. -/
private theorem recover_created (hn : cfg.journalSize < 2 ^ 32) {r : Recovery}
    (h : recoverJournal cfg (created cfg) = .ok r) :
    0 < cfg.journalSize ∧ r.disk = created cfg ∧ r.newestBlock = cfg.journalSize - 1 := by
  obtain ⟨st, hst, hok⟩ := recovers_of_ok h
  have hpos := hst.pos
  have hgood : ∀ m < cfg.journalSize, Sealed cfg (created cfg m) := fun m _ => checksumBlock_emptyBlock _ _ _
  have hseq : ∀ m < cfg.journalSize, (created cfg m).sequence = m := fun m hm => Nat.mod_eq_of_lt (by omega)
  rw [(cleanScan hgood hst.scan).scribbled] at hok
  refine ⟨hpos, (rebuild_ok hok).1, ?_⟩
  rcases hst.clean hgood with ⟨hlt, -, hw⟩ | ⟨hl, -⟩
  · rw [hseq _ hlt, hseq _ (by omega)] at hw
    omega
  · omega

/-- The server starts at the block after those of the new journal. -/
private theorem atBlock_start (hn : cfg.journalSize < 2 ^ 32) {sb : Sb} (h : startServer cfg (created cfg) = .ok sb) :
    AtBlock cfg sb (createdLog cfg) ∧ sb.disk = created cfg ∧ 0 < cfg.journalSize ∧
      sb.newbuf.oldestBlock = (cfg.journalSize - 1) % 2 ^ 16 := by
  have hlen : (createdLog cfg).length = cfg.journalSize := by simp [createdLog]
  unfold startServer at h
  cases hrec : recoverJournal cfg (created cfg) with
  | error e => rw [hrec] at h; cases h
  | ok r =>
    rw [hrec] at h
    cases h
    obtain ⟨hpos, hdisk, hlast⟩ := recover_created hn hrec
    have hdisk' : (r.server cfg).disk = created cfg := hdisk
    refine ⟨⟨hdisk' ▸ ring_created cfg, ?_, ?_⟩, hdisk', hpos, ?_⟩
    · unfold Recovery.server
      rw [advanceNewBlock_newestBlock, hlast, if_pos (show cfg.journalSize - 1 + 1 = cfg.journalSize by omega), hlen,
        Nat.mod_self]
    · unfold Recovery.server
      rw [advanceNewBlock_newbuf, hdisk, hlast, hlen]
      show ((cfg.journalSize - 1) % 2 ^ 32 + 1) % 2 ^ 32 = _
      omega
    · unfold Recovery.server
      rw [advanceNewBlock_newbuf, hdisk, hlast]
      rfl

/-- The log that a number of commits leaves, and the block written last. -/
private theorem Committed.atBlock (hn : cfg.journalSize < 2 ^ 32) {last : Nat} {sb : Sb} (h : Committed cfg sb last) :
    ∃ s, AtBlock cfg sb s ∧ 0 < cfg.journalSize ∧ last = (s.length - 1) % cfg.journalSize ∧
      (sb.disk last).oldestBlock < cfg.journalSize := by
  induction h with
  | start hs =>
    obtain ⟨hat, hdisk, hpos, -⟩ := atBlock_start hn hs
    have hlen : (createdLog cfg).length = cfg.journalSize := by simp [createdLog]
    refine ⟨_, hat, hpos, ?_, ?_⟩
    · rw [hlen, Nat.mod_eq_of_lt (by omega)]
    · rw [hdisk]
      show (cfg.journalSize - 1) % 2 ^ 16 < _
      have := Nat.mod_le (cfg.journalSize - 1) (2 ^ 16)
      omega
  | @commit sb sb' last _ hf ih =>
    obtain ⟨s, hat, hpos, -, -⟩ := ih
    have hat' : AtBlock cfg sb' s :=
      ⟨hf.disk ▸ hat.ring, hf.newestBlock.trans hat.newestBlock, hf.sequence.trans hat.sequence⟩
    refine ⟨_, hat'.advance hpos, hpos, ?_, ?_⟩
    · rw [List.length_append, List.length_singleton, Nat.add_sub_cancel]
      exact hat'.newestBlock
    · rw [advanceNewBlock_disk, if_pos rfl, Function.update_self]
      exact hf.oldestBlock

/-- What a crash leaves: the journal as it is, or with the next block scribbled. -/
def crashed (sb : Sb) : Option JournalBlock → Nat → JournalBlock
  | none => sb.disk
  | some torn => Function.update sb.disk sb.newestBlock torn

/-- Recovery succeeds and finds this block. -/
def FindsNewest (cfg : Config) (disk : Nat → JournalBlock) (newest : Nat) : Prop :=
  ∃ r, recoverJournal cfg disk = .ok r ∧ r.newestBlock = newest

/-- The number of the newest block is not taken for "none", nor the one after it where that block is scribbled, or the
newest block is so near to the end of the journal that nothing is compared with it. -/
def Comparable (cfg : Config) (torn : Option JournalBlock) (newest sequence : Nat) : Prop :=
  match torn with
  | none => sequence = noSequence → newest + 1 = cfg.journalSize
  | some _ => sequence = noSequence ∨ sequence + 1 = noSequence →
      newest + 1 = cfg.journalSize ∨ newest + 2 = cfg.journalSize

private theorem FindsNewest.recovers {newest : Nat} (h : FindsNewest cfg disk newest) :
    ∃ st, Recovers cfg disk st newest := by
  obtain ⟨r, hr, rfl⟩ := h
  obtain ⟨st, hst, -⟩ := recovers_of_ok hr
  exact ⟨st, hst⟩

private theorem AtBlock.newest_iff (hsize : 2 ≤ cfg.journalSize) (hn : cfg.journalSize < 2 ^ 32)
    (hat : AtBlock cfg sb s)
    {last : Nat} (hlast : last = (s.length - 1) % cfg.journalSize) (hold : (sb.disk last).oldestBlock < cfg.journalSize)
    {torn : Option JournalBlock} (ht : ∀ t, torn = some t → ¬ Sealed cfg t) :
    FindsNewest cfg (crashed sb torn) last ↔ Comparable cfg torn last (sb.disk last).sequence := by
  have hpos : 0 < cfg.journalSize := by omega
  have hlt : last < cfg.journalSize := hlast ▸ Nat.mod_lt _ hpos
  cases torn with
  | none =>
    unfold Comparable crashed
    rw [← hat.ring.recovers_iff hpos hn hlast]
    constructor
    · intro hf
      obtain ⟨st, hst⟩ := hf.recovers
      exact ⟨st, hst, (cleanScan (fun m hm => hat.ring.sealed_at hm) hst.scan).scribbled⟩
    · rintro ⟨st, hst, hs⟩
      exact hst.exists_ok hold (by simp [hs])
  | some t =>
    have htorn : TornAt cfg sb.disk (crashed sb (some t)) (s.length % cfg.journalSize) := by
      unfold crashed
      rw [hat.newestBlock]
      exact TornAt.update (ht t rfl)
    unfold Comparable
    dsimp only
    rw [← hat.ring.recovers_torn_iff hsize hn hlast htorn]
    refine ⟨FindsNewest.recovers, ?_⟩
    rintro ⟨st, hst⟩
    -- the scribbled block is not the newest one
    have hne : last ≠ s.length % cfg.journalSize := by
      intro he
      have := RingLog.mod_inj (hlast.symm.trans he) (Nat.sub_le _ _) (by omega)
      have := hat.ring.full
      omega
    refine hst.exists_ok ?_ fun hs => ?_
    · rw [htorn.same last hne]
      exact hold
    · have hbad := (scanFirst_scribbled hst.scan).2 last hs
      refine (hbad.2 last hlt).1 ?_ rfl
      rw [htorn.same last hne]
      exact hat.ring.sealed_at hlt

/-- `recover_journal` finds the block that was written last, exactly when its sequence number can be compared. -/
theorem findsNewest_iff (hsize : 2 ≤ cfg.journalSize) (hn : cfg.journalSize < 2 ^ 32) {last : Nat}
    (h : Committed cfg sb last) {torn : Option JournalBlock} (ht : ∀ t, torn = some t → ¬ Sealed cfg t) :
    FindsNewest cfg (crashed sb torn) last ↔ Comparable cfg torn last (sb.disk last).sequence := by
  obtain ⟨s, hat, -, hlast, hold⟩ := h.atBlock hn
  exact hat.newest_iff hsize hn hlast hold ht

/-- A new journal of four blocks, whose first commit is torn. -/
theorem findsNewest_torn : ∃ sb, Committed ⟨9, 4, 5⟩ sb 3 ∧
    FindsNewest ⟨9, 4, 5⟩ (crashed sb (some { emptyBlock 9 4 3 with checksum := 1 })) 3 := by
  cases hs : startServer ⟨9, 4, 5⟩ (created ⟨9, 4, 5⟩) with
  | error e =>
    have hok : (startServer ⟨9, 4, 5⟩ (created ⟨9, 4, 5⟩)).isOk = true := by decide +kernel
    rw [hs] at hok
    cases hok
  | ok sb =>
    have hc : Committed ⟨9, 4, 5⟩ sb 3 := .start hs
    refine ⟨sb, hc, (findsNewest_iff (by decide) (by decide) hc ?_).2 fun _ => .inl rfl⟩
    rintro t ht
    cases ht
    unfold Sealed
    decide +kernel

/-- Any number of commits can be made. -/
private theorem exists_committed (cfg : Config) (hn : cfg.journalSize < 2 ^ 32)
    (h0 : (startServer cfg (created cfg)).isOk) (k : Nat) :
    ∃ sb s last, Committed cfg sb last ∧ AtBlock cfg sb s ∧ s.length = cfg.journalSize + k ∧
      last = (s.length - 1) % cfg.journalSize ∧ sb.newbuf.oldestBlock < cfg.journalSize ∧
      (sb.disk last).oldestBlock < cfg.journalSize := by
  induction k with
  | zero =>
    cases hs : startServer cfg (created cfg) with
    | error e =>
      rw [hs] at h0
      cases h0
    | ok sb =>
      obtain ⟨hat, hdisk, hpos, hob⟩ := atBlock_start hn hs
      have hlen : (createdLog cfg).length = cfg.journalSize := by simp [createdLog]
      have hold : ∀ i < cfg.journalSize, (created cfg i).oldestBlock < cfg.journalSize := fun i hi =>
        Nat.lt_of_le_of_lt (Nat.mod_le i (2 ^ 16)) hi
      refine ⟨sb, _, _, .start hs, hat, hlen, by rw [hlen, Nat.mod_eq_of_lt (by omega)], ?_, ?_⟩
      · rw [hob]
        exact hold (cfg.journalSize - 1) (by omega)
      · rw [hdisk]
        exact hold _ (by omega)
  | succ k ih =>
    obtain ⟨sb, s, last, hc, hat, hlen, -, hold, -⟩ := ih
    have hpos : 0 < cfg.journalSize := by omega
    refine ⟨_, _, _, .commit hc ⟨rfl, rfl, rfl, hold⟩, hat.advance hpos, ?_, ?_, hold, ?_⟩
    · rw [List.length_append, hlen]
      rfl
    · rw [List.length_append, List.length_singleton, Nat.add_sub_cancel]
      exact hat.newestBlock
    · rw [advanceNewBlock_disk, if_pos rfl, Function.update_self]
      exact hold

/-- A journal of three blocks in which the block with the number `2 ^ 32 - 1` was written last, at the first position:
the last position is taken for the newest one. -/
theorem last_sequence_missed : ∃ sb last, Committed ⟨9, 3, 5⟩ sb last ∧ (sb.disk last).sequence = noSequence ∧
    ¬ FindsNewest ⟨9, 3, 5⟩ (crashed sb none) last := by
  obtain ⟨sb, s, last, hc, hat, hlen, hlast, -, hold⟩ :=
    exists_committed ⟨9, 3, 5⟩ (by decide) (by decide +kernel) (2 ^ 32 - 3)
  have hpos : last = 0 := by
    rw [hlast, hlen]
    rfl
  have hseq : (sb.disk last).sequence = noSequence := by
    rw [hlast, (hat.ring.cell (t := s.length - 1) (by rw [hlen]; decide) (by rw [hlen]; decide)).2, hlen]
    rfl
  refine ⟨sb, last, hc, hseq, fun hf => ?_⟩
  have hcomp := (hat.newest_iff (by decide) (by decide) hlast hold (fun _ ht => by cases ht)).1 hf hseq
  rw [hpos] at hcomp
  cases hcomp

end Ddraid
