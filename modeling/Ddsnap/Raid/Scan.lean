import Ddsnap.Raid.Journal

/-!
# Recovery of the mirror journal, repeated

The scan of `recover_journal` block by block: what one block does to the variables of the scan (`scanBlock_cases`), and
what the variables say about the blocks before it.  A scribbled block is rewritten with a sequence number that is one
too small, so that the next recovery finds it out of sequence, except where the scan does not look.
-/

namespace Ddraid

variable {cfg : Config} {disk : Nat → JournalBlock} {st st' : Scan} {b : JournalBlock} {i k m : Nat}

/-! ### Checksums -/

theorem checksumBlock_setChecksum (bits : Nat) (b : JournalBlock) : checksumBlock bits (setChecksum bits b) = 0 := by
  unfold checksumBlock setChecksum
  cases hm : bits / 4 with
  | zero => rfl
  | succ m =>
    have hwords : ∀ c, ({ b with checksum := c } : JournalBlock).words = c :: b.words.tail := fun _ => rfl
    rw [hwords, List.take_succ_cons, List.sum_cons, checksumBlock, hm, hwords, List.take_succ_cons, List.sum_cons]
    have hlt : (0 + (b.words.tail.take m).sum) % 2 ^ 32 < 2 ^ 32 := Nat.mod_lt _ (by decide)
    omega

@[simp] theorem checksumBlock_emptyBlock (bits sequence i : Nat) :
    checksumBlock bits (emptyBlock bits sequence i) = 0 := checksumBlock_setChecksum _ _

@[simp] theorem emptyBlock_sequence (bits sequence i : Nat) :
    (emptyBlock bits sequence i).sequence = sequence % 2 ^ 32 := rfl

@[simp] theorem emptyBlock_oldestBlock (bits sequence i : Nat) :
    (emptyBlock bits sequence i).oldestBlock = i % 2 ^ 16 := rfl

@[simp] theorem emptyBlock_entry (bits sequence i : Nat) : (emptyBlock bits sequence i).entry = [] := rfl

/-- `block->checksum` is right. -/
abbrev Sealed (cfg : Config) (b : JournalBlock) : Prop := checksumBlock cfg.blocksizeBits b = 0

/-- A block that the scan takes for the next one after a block with this sequence number. -/
def Follows (sequence : Nat) (b : JournalBlock) : Prop :=
  sequence = noSequence ∨ b.sequence = (sequence + 1) % 2 ^ 32

/-- A block that the scan takes for the oldest one when it comes after a block with this sequence number. -/
def Wraps (cfg : Config) (sequence : Nat) (b : JournalBlock) : Prop :=
  sequence ≠ noSequence ∧ b.sequence = (sequence + 1 + 2 ^ 32 - cfg.journalSize) % 2 ^ 32

/-! ### One block -/

theorem scanFirst_zero (cfg : Config) (disk : Nat → JournalBlock) : scanFirst cfg disk 0 = .ok Scan.start := rfl

theorem scanFirst_succ (cfg : Config) (disk : Nat → JournalBlock) (i : Nat) :
    scanFirst cfg disk (i + 1) = (scanFirst cfg disk i).bind fun st => scanBlock cfg st i (disk i) := by
  unfold scanFirst
  rw [List.range_succ, List.foldlM_append]
  cases (List.range i).foldlM (fun st i => scanBlock cfg st i (disk i)) Scan.start with
  | error e => rfl
  | ok st =>
    show (scanBlock cfg st i (disk i) >>= pure) = scanBlock cfg st i (disk i)
    rw [bind_pure]

private theorem scanFirst_succ_ok (h : scanFirst cfg disk (i + 1) = .ok st') :
    ∃ st, scanFirst cfg disk i = .ok st ∧ scanBlock cfg st i (disk i) = .ok st' := by
  rw [scanFirst_succ] at h
  cases hs : scanFirst cfg disk i with
  | error e => rw [hs] at h; cases h
  | ok st => rw [hs] at h; exact ⟨st, rfl, h⟩

theorem scanBlock_follows (hb : Sealed cfg b) (hf : Follows st.sequence b) :
    scanBlock cfg st i b = .ok { st with sequence := b.sequence } := by
  unfold scanBlock
  rw [if_neg (not_not.2 hb), if_neg fun h => hf.elim h.1 h.2]

theorem scanBlock_bad (hb : ¬ Sealed cfg b) (hs : st.scribbled = none) (hn : st.newestBlock = none) :
    scanBlock cfg st i b = .ok { st with
      scribbled := some i
      sequence := if st.sequence ≠ noSequence then (st.sequence + 1) % 2 ^ 32 else st.sequence } := by
  unfold scanBlock
  rw [if_pos hb, if_neg (not_not.2 hs), if_neg fun h => h.1 hn]

theorem scanBlock_wraps (hb : Sealed cfg b) (hw : Wraps cfg st.sequence b)
    (hf : b.sequence ≠ (st.sequence + 1) % 2 ^ 32) (hn : st.newestBlock = none)
    (hs : st.scribbled = none ∨ st.scribbled = before i 1) :
    scanBlock cfg st i b = .ok { st with
      newestBlock := if st.scribbled = none then before i 1 else before i 2
      sequence := b.sequence } := by
  unfold scanBlock
  rw [if_neg (not_not.2 hb), if_pos ⟨hw.1, hf⟩, if_neg (not_not.2 hw.2), if_neg (not_not.2 hn)]
  cases h : st.scribbled with
  | none => rfl
  | some k =>
    dsimp only
    rw [if_neg (not_not.2 (h ▸ hs.resolve_left (by simp [h]))), if_neg (by simp)]

/-- What one block of a successful scan does. -/
private theorem scanBlock_cases (h : scanBlock cfg st i b = .ok st') :
    (¬ Sealed cfg b ∧ st.scribbled = none ∧ (st.newestBlock = none ∨ st.newestBlock = before i 1) ∧
      st'.scribbled = some i ∧ st'.newestBlock = st.newestBlock) ∨
    (Sealed cfg b ∧ Follows st.sequence b ∧ st' = { st with sequence := b.sequence }) ∨
    (Sealed cfg b ∧ Wraps cfg st.sequence b ∧ st.newestBlock = none ∧ st.scribbled = none ∧
      st' = { st with newestBlock := before i 1, sequence := b.sequence }) ∨
    (Sealed cfg b ∧ Wraps cfg st.sequence b ∧ st.newestBlock = none ∧ (∃ k, st.scribbled = some k ∧
      some k = before i 1) ∧ st' = { st with newestBlock := before i 2, sequence := b.sequence }) := by
  by_cases hb : Sealed cfg b
  · by_cases hf : Follows st.sequence b
    · rw [scanBlock_follows hb hf] at h
      cases h
      exact .inr (.inl ⟨hb, hf, rfl⟩)
    · have hf' : st.sequence ≠ noSequence ∧ b.sequence ≠ (st.sequence + 1) % 2 ^ 32 := not_or.1 hf
      unfold scanBlock at h
      rw [if_neg (not_not.2 hb), if_pos hf'] at h
      split_ifs at h with hw hn
      have hwraps : Wraps cfg st.sequence b := ⟨hf'.1, not_not.1 hw⟩
      have hnone : st.newestBlock = none := not_not.1 hn
      cases hs : st.scribbled with
      | none =>
        rw [hs] at h
        cases h
        exact .inr (.inr (.inl ⟨hb, hwraps, hnone, rfl, rfl⟩))
      | some k =>
        rw [hs] at h
        dsimp only at h
        split_ifs at h with hk
        cases h
        exact .inr (.inr (.inr ⟨hb, hwraps, hnone, ⟨k, rfl, not_not.1 hk⟩, rfl⟩))
  · unfold scanBlock at h
    rw [if_pos hb] at h
    by_cases hs : st.scribbled ≠ none
    · rw [if_pos hs] at h
      cases h
    rw [if_neg hs] at h
    by_cases hn : st.newestBlock ≠ none ∧ st.newestBlock ≠ before i 1
    · rw [if_pos hn] at h
      cases h
    rw [if_neg hn] at h
    cases h
    refine .inl ⟨hb, not_not.1 hs, ?_, rfl, rfl⟩
    by_cases hnone : st.newestBlock = none
    · exact .inl hnone
    · exact .inr (not_not.1 fun hne => hn ⟨hnone, hne⟩)

/-! ### Runs of blocks -/

/-- The scan passes over blocks that follow each other. -/
theorem scanFirst_run {a b : Nat} (hab : a ≤ b)
    (h : scanFirst cfg disk (a + 1) = .ok { st with sequence := (disk a).sequence })
    (hgood : ∀ i, a < i → i ≤ b → Sealed cfg (disk i))
    (hf : ∀ i, a ≤ i → i < b → Follows (disk i).sequence (disk (i + 1))) :
    scanFirst cfg disk (b + 1) = .ok { st with sequence := (disk b).sequence } := by
  induction hab with
  | refl => exact h
  | @step b hab ih =>
    have hb := ih (fun i h1 h2 => hgood i h1 (Nat.le_succ_of_le h2)) fun i h1 h2 => hf i h1 (Nat.lt_succ_of_lt h2)
    have hle : a ≤ b := hab
    rw [scanFirst_succ, hb]
    exact scanBlock_follows (hgood (b + 1) (by omega) (Nat.le_refl _)) (hf b hle (Nat.lt_succ_self b))

/-- The scan finds a scribbled block where one is, and at most one. -/
theorem scanFirst_scribbled (h : scanFirst cfg disk i = .ok st) :
    (st.scribbled = none → ∀ m < i, Sealed cfg (disk m)) ∧
      ∀ k, st.scribbled = some k → k < i ∧ ∀ m < i, Sealed cfg (disk m) ↔ m ≠ k := by
  induction i generalizing st with
  | zero =>
    rw [scanFirst_zero] at h
    cases h
    exact ⟨fun _ m hm => absurd hm (Nat.not_lt_zero m), nofun⟩
  | succ i ih =>
    obtain ⟨st0, h0, h1⟩ := scanFirst_succ_ok h
    obtain ⟨hnone, hsome⟩ := ih h0
    -- a block with a right checksum leaves `scribbled` as it is
    have hgood : Sealed cfg (disk i) → st.scribbled = st0.scribbled → _ := fun hb hs =>
      show (st.scribbled = none → ∀ m < i + 1, Sealed cfg (disk m)) ∧
        ∀ k, st.scribbled = some k → k < i + 1 ∧ ∀ m < i + 1, Sealed cfg (disk m) ↔ m ≠ k from by
      constructor
      · intro hn m hm
        rcases Nat.lt_succ_iff_lt_or_eq.1 hm with hlt | rfl
        · exact hnone (hs ▸ hn) m hlt
        · exact hb
      · intro k hk
        obtain ⟨hlt, hall⟩ := hsome k (hs ▸ hk)
        refine ⟨Nat.lt_succ_of_lt hlt, fun m hm => ?_⟩
        rcases Nat.lt_succ_iff_lt_or_eq.1 hm with hm | rfl
        · exact hall m hm
        · exact iff_of_true hb (Nat.ne_of_gt hlt)
    rcases scanBlock_cases h1 with ⟨hb, hs0, -, hs, -⟩ | ⟨hb, -, rfl⟩ | ⟨hb, -, -, -, rfl⟩ | ⟨hb, -, -, -, rfl⟩
    · refine ⟨fun hn => absurd (hn ▸ hs : none = some i) (by simp), fun k hk => ?_⟩
      obtain rfl : i = k := Option.some.inj (hs.symm.trans hk)
      refine ⟨Nat.lt_succ_self i, fun m hm => ?_⟩
      rcases Nat.lt_succ_iff_lt_or_eq.1 hm with hm | rfl
      · exact iff_of_true (hnone hs0 m hm) (Nat.ne_of_lt hm)
      · exact iff_of_false hb fun hne => hne rfl
    all_goals exact hgood hb rfl

/-- The variables of the scan of a journal without a scribbled block. -/
structure CleanScan (cfg : Config) (disk : Nat → JournalBlock) (i : Nat) (st : Scan) : Prop where
  scribbled : st.scribbled = none
  sequence : st.sequence = if i = 0 then noSequence else (disk (i - 1)).sequence
  wrapped : ∀ m, st.newestBlock = some m → m + 1 < i ∧ Wraps cfg (disk m).sequence (disk (m + 1))
  unwrapped : st.newestBlock = none → ∀ m, m + 1 < i → Follows (disk m).sequence (disk (m + 1))

theorem cleanScan (hgood : ∀ m < i, Sealed cfg (disk m)) (h : scanFirst cfg disk i = .ok st) :
    CleanScan cfg disk i st := by
  induction i generalizing st with
  | zero =>
    rw [scanFirst_zero] at h
    cases h
    exact ⟨rfl, rfl, nofun, fun _ m hm => absurd hm (by omega)⟩
  | succ i ih =>
    obtain ⟨st0, h0, h1⟩ := scanFirst_succ_ok h
    have hc := ih (fun m hm => hgood m (Nat.lt_succ_of_lt hm)) h0
    have hb := hgood i (Nat.lt_succ_self i)
    have hseq : ∀ m, m + 1 = i → st0.sequence = (disk m).sequence := fun m hm => by
      rw [hc.sequence, if_neg (by omega), ← hm, Nat.add_sub_cancel]
    rcases scanBlock_cases h1 with ⟨hn, -⟩ | ⟨-, hf, rfl⟩ | ⟨-, hw, hn, -, rfl⟩ | ⟨-, -, -, ⟨k, hk, -⟩, -⟩
    · exact absurd hb hn
    · refine ⟨hc.scribbled, rfl, fun m hm => ?_, fun hnone m hm => ?_⟩
      · obtain ⟨h2, h3⟩ := hc.wrapped m hm
        exact ⟨Nat.lt_succ_of_lt h2, h3⟩
      · rcases Nat.lt_succ_iff_lt_or_eq.1 hm with hm | hm
        · exact hc.unwrapped hnone m hm
        · rw [← hseq m hm, hm]
          exact hf
    · refine ⟨hc.scribbled, rfl, fun m hm => ?_, fun hnone m hm => ?_⟩
      · -- the first block is never taken for the oldest one, as no sequence number was seen yet
        have hi : i ≠ 0 := fun hi => hw.1 (by rw [hc.sequence, if_pos hi])
        have hm' : before i 1 = some m := hm
        unfold before at hm'
        rw [if_pos (by omega)] at hm'
        obtain rfl : i - 1 = m := Option.some.inj hm'
        have hsucc : i - 1 + 1 = i := by omega
        rw [hsucc, ← hseq (i - 1) hsucc]
        exact ⟨Nat.lt_succ_self i, hw⟩
      · have hi : i ≠ 0 := fun hi => hw.1 (by rw [hc.sequence, if_pos hi])
        have hnone' : before i 1 = none := hnone
        unfold before at hnone'
        rw [if_pos (by omega)] at hnone'
        cases hnone'
    · rw [hc.scribbled] at hk
      cases hk

/-- The variables of the scan when the first block is scribbled. -/
structure HeadScan (disk : Nat → JournalBlock) (i : Nat) (st : Scan) : Prop where
  scribbled : st.scribbled = some 0
  newestBlock : st.newestBlock = none
  sequence : st.sequence = if i = 1 then noSequence else (disk (i - 1)).sequence
  follows : ∀ m, 0 < m → m + 1 < i → Follows (disk m).sequence (disk (m + 1))

private theorem headScan (hbad : ¬ Sealed cfg (disk 0)) (h : scanFirst cfg disk (i + 1) = .ok st) :
    HeadScan disk (i + 1) st := by
  induction i generalizing st with
  | zero =>
    rw [scanFirst_succ, scanFirst_zero] at h
    change scanBlock cfg Scan.start 0 (disk 0) = .ok st at h
    rw [scanBlock_bad hbad rfl rfl] at h
    cases h
    exact ⟨rfl, rfl, rfl, fun m h1 h2 => absurd h2 (by omega)⟩
  | succ i ih =>
    obtain ⟨st0, h0, h1⟩ := scanFirst_succ_ok h
    have hc := ih h0
    rcases scanBlock_cases h1 with ⟨-, hn, -⟩ | ⟨-, hf, rfl⟩ | ⟨-, -, -, hn, -⟩ | ⟨-, hw, -, ⟨k, hk, hki⟩, -⟩
    · rw [hc.scribbled] at hn
      cases hn
    · refine ⟨hc.scribbled, hc.newestBlock, (if_neg (by omega)).symm, fun m hpos hm => ?_⟩
      rcases Nat.lt_succ_iff_lt_or_eq.1 hm with hm | hm
      · exact hc.follows m hpos hm
      · have hseq : st0.sequence = (disk m).sequence := by
          rw [hc.sequence, if_neg (by omega), ← hm, Nat.add_sub_cancel]
        rw [← hseq, hm]
        exact hf
    · rw [hc.scribbled] at hn
      cases hn
    · -- only the block after the scribbled one may wrap, and no sequence number was seen before that one
      obtain rfl : 0 = k := Option.some.inj (hc.scribbled.symm.trans hk)
      unfold before at hki
      rw [if_pos (by omega)] at hki
      have hi : i = 0 := by
        have := Option.some.inj hki
        omega
      subst hi
      exact absurd hc.sequence hw.1

/-! ### The end of the scan -/

private theorem before_lt {m : Nat} (h : before i k = some m) (hk : 0 < k) : m < i := by
  unfold before at h
  split_ifs at h with hi
  cases h
  omega

private theorem scanFirst_newestBlock_lt (h : scanFirst cfg disk i = .ok st) (hm : st.newestBlock = some m) :
    m < i := by
  induction i generalizing st with
  | zero =>
    rw [scanFirst_zero] at h
    cases h
    cases hm
  | succ i ih =>
    obtain ⟨st0, h0, h1⟩ := scanFirst_succ_ok h
    rcases scanBlock_cases h1 with ⟨-, -, -, -, hn⟩ | ⟨-, -, rfl⟩ | ⟨-, -, -, -, rfl⟩ | ⟨-, -, -, -, rfl⟩
    · exact Nat.lt_succ_of_lt (ih h0 (hn ▸ hm))
    · exact Nat.lt_succ_of_lt (ih h0 hm)
    · exact Nat.lt_succ_of_lt (before_lt hm Nat.one_pos)
    · exact Nat.lt_succ_of_lt (before_lt hm Nat.two_pos)

/-- A successful recovery of a journal. -/
structure Recovers (cfg : Config) (disk : Nat → JournalBlock) (st : Scan) (newest : Nat) : Prop where
  scan : scanFirst cfg disk cfg.journalSize = .ok st
  select : selectNewest cfg st = .ok newest
  pos : 0 < cfg.journalSize
  next : ∀ k, st.scribbled = some k → k = (newest + 1) % cfg.journalSize

theorem Recovers.recoverJournal_eq {newest : Nat} (h : Recovers cfg disk st newest) :
    recoverJournal cfg disk = rebuild cfg disk newest st.scribbled := by
  unfold recoverJournal
  rw [h.scan]
  simp only [bind, Except.bind]
  rw [h.select]
  simp only
  rw [if_neg (Nat.ne_of_gt h.pos), if_neg]
  rintro ⟨hs, hne⟩
  obtain ⟨k, hk⟩ := Option.ne_none_iff_exists'.1 hs
  exact hne (by rw [hk, h.next k hk])

theorem recovers_of_ok {r : Recovery} (h : recoverJournal cfg disk = .ok r) :
    ∃ st, Recovers cfg disk st r.newestBlock ∧ rebuild cfg disk r.newestBlock st.scribbled = .ok r := by
  unfold recoverJournal at h
  cases hscan : scanFirst cfg disk cfg.journalSize with
  | error e => rw [hscan] at h; cases h
  | ok st =>
    rw [hscan] at h
    simp only [bind, Except.bind] at h
    cases hsel : selectNewest cfg st with
    | error e => rw [hsel] at h; cases h
    | ok newest =>
      rw [hsel] at h
      simp only at h
      split_ifs at h with hpos hassert
      have hr : r.newestBlock = newest := by
        unfold rebuild at h
        simp only [bind, Except.bind] at h
        split at h
        · cases h
        · cases h
          rfl
      refine ⟨st, ⟨hscan, hr ▸ hsel, Nat.pos_of_ne_zero hpos, fun k hk => ?_⟩, hr ▸ h⟩
      rw [hr]
      by_contra hne
      exact hassert ⟨by simp [hk], by simpa [hk] using hne⟩

theorem Recovers.newest_lt {newest : Nat} (h : Recovers cfg disk st newest) : newest < cfg.journalSize := by
  have hpos := h.pos
  have hsel := h.select
  unfold selectNewest at hsel
  cases hn : st.newestBlock with
  | some m =>
    rw [hn] at hsel
    cases hsel
    exact scanFirst_newestBlock_lt h.scan hn
  | none =>
    rw [hn] at hsel
    dsimp only at hsel
    split_ifs at hsel <;>
      · cases hsel
        omega

/-- Without a scribbled block the newest one is the one before a wrap, or the last one if nothing wraps. -/
theorem Recovers.clean {newest : Nat} (h : Recovers cfg disk st newest)
    (hgood : ∀ m < cfg.journalSize, Sealed cfg (disk m)) :
    (newest + 1 < cfg.journalSize ∧ Wraps cfg (disk newest).sequence (disk (newest + 1))) ∨
      (newest + 1 = cfg.journalSize ∧
        ∀ m, m + 1 < cfg.journalSize → Follows (disk m).sequence (disk (m + 1))) := by
  have hc := cleanScan hgood h.scan
  have hsel := h.select
  unfold selectNewest at hsel
  cases hn : st.newestBlock with
  | some m =>
    rw [hn] at hsel
    cases hsel
    exact .inl (hc.wrapped newest hn)
  | none =>
    rw [hn] at hsel
    dsimp only at hsel
    rw [if_pos (.inl hc.scribbled)] at hsel
    cases hsel
    exact .inr ⟨Nat.sub_add_cancel h.pos, hc.unwrapped hn⟩

/-- A journal whose blocks follow each other. -/
theorem recovers_of_follows (disk : Nat → JournalBlock) (hpos : 0 < cfg.journalSize)
    (hgood : ∀ m < cfg.journalSize, Sealed cfg (disk m))
    (hf : ∀ m, m + 1 < cfg.journalSize → Follows (disk m).sequence (disk (m + 1))) :
    ∃ st, Recovers cfg disk st (cfg.journalSize - 1) ∧ st.scribbled = none := by
  have hfirst : scanFirst cfg disk (0 + 1) = .ok { Scan.start with sequence := (disk 0).sequence } := by
    rw [scanFirst_succ, scanFirst_zero]
    exact scanBlock_follows (hgood 0 hpos) (.inl rfl)
  have hrun := scanFirst_run (Nat.zero_le (cfg.journalSize - 1)) hfirst (fun i _ hi => hgood i (by omega))
    fun i _ hi => hf i (by omega)
  rw [Nat.sub_add_cancel hpos] at hrun
  exact ⟨_, ⟨hrun, rfl, hpos, nofun⟩, rfl⟩

/-! ### A second recovery -/

/-- The second recovery, of the journal that the first one leaves, finds the same newest block and the same unsynced
regions. -/
def RecoversAgain (cfg : Config) (r : Recovery) : Prop :=
  ∃ r', recoverJournal cfg r.disk = .ok r' ∧ r'.newestBlock = r.newestBlock ∧ ∀ x, r'.Unsynced x ↔ r.Unsynced x

/-- No block is scribbled, or the journal has one block, or the first block is scribbled and what it is rewritten with
is taken for the predecessor of the second one. -/
def Repeatable (cfg : Config) (disk : Nat → JournalBlock) : Prop :=
  (∀ i < cfg.journalSize, Sealed cfg (disk i)) ∨ cfg.journalSize = 1 ∨
    (¬ Sealed cfg (disk 0) ∧
      Follows (((disk (cfg.journalSize - 1)).sequence + 2 ^ 32 - cfg.journalSize) % 2 ^ 32) (disk 1))

section
variable {newest : Nat} {r : Recovery}

theorem rebuild_ok {scribbled : Option Nat} (h : rebuild cfg disk newest scribbled = .ok r) :
    r.disk = rewriteScribbled cfg disk newest scribbled ∧
      ∃ hash, loadBlocks cfg r.disk newest cfg.journalSize (r.disk newest).oldestBlock (disk newest).oldestBlock
          (disk newest).oldestEntry (fun _ => none) = .ok hash ∧
        r.hash = fun x => (hash x).map fun region => { region with unsynced := true } := by
  unfold rebuild at h
  simp only [bind, Except.bind] at h
  split at h
  · cases h
  · rename_i hash hload
    cases h
    exact ⟨rfl, hash, hload, rfl⟩

private theorem rebuild_of_load {hash : Nat → Option Region}
    (h : loadBlocks cfg disk newest cfg.journalSize (disk newest).oldestBlock (disk newest).oldestBlock
      (disk newest).oldestEntry (fun _ => none) = .ok hash) :
    rebuild cfg disk newest none = .ok ⟨newest, none, disk, (disk newest).oldestBlock,
      fun x => (hash x).map fun region => { region with unsynced := true }⟩ := by
  unfold rebuild rewriteScribbled
  simp only [bind, Except.bind]
  rw [h]

private theorem recoversAgain_of_recovers {st' : Scan} (hok : rebuild cfg disk newest (some k) = .ok r)
    (hr : r.newestBlock = newest) (hk : newest ≠ k) (h : Recovers cfg r.disk st' newest) (hs : st'.scribbled = none) :
    RecoversAgain cfg r := by
  obtain ⟨hdisk, hash, hload, hhash⟩ := rebuild_ok hok
  have hsame : r.disk newest = disk newest := by
    rw [hdisk]
    exact Function.update_of_ne hk _ _
  have hload' : loadBlocks cfg r.disk newest cfg.journalSize (r.disk newest).oldestBlock (r.disk newest).oldestBlock
      (r.disk newest).oldestEntry (fun _ => none) = .ok hash := by
    rw [hsame] at hload ⊢
    exact hload
  have hagain : recoverJournal cfg r.disk = _ := h.recoverJournal_eq.trans (hs ▸ rebuild_of_load hload')
  refine ⟨_, hagain, hr.symm, fun x => ?_⟩
  unfold Recovery.Unsynced
  rw [hhash]

/-- A journal of one block. -/
private theorem recoversAgain_one (hn : cfg.journalSize = 1) (hok : rebuild cfg disk 0 (some 0) = .ok r)
    (hr : r.newestBlock = 0) : RecoversAgain cfg r := by
  obtain ⟨hdisk, hash, hload, hhash⟩ := rebuild_ok hok
  have hzero : r.disk 0 = emptyBlock cfg.blocksizeBits ((disk 0).sequence + 2 ^ 32 - cfg.journalSize) 0 := by
    rw [hdisk]
    exact Function.update_self 0 _ disk
  obtain ⟨st, hst, hs⟩ := recovers_of_follows r.disk (hn ▸ Nat.one_pos)
    (fun m hm => by
      obtain rfl : m = 0 := by omega
      rw [hzero]
      exact checksumBlock_emptyBlock _ _ _)
    fun m hm => absurd hm (by omega)
  rw [hn] at hst
  have hempty : loadBlocks cfg r.disk 0 cfg.journalSize (r.disk 0).oldestBlock (r.disk 0).oldestBlock
      (r.disk 0).oldestEntry (fun _ => none) = .ok fun _ => none := by
    rw [hn, hzero, emptyBlock_oldestBlock, Nat.zero_mod]
    unfold loadBlocks
    rw [if_neg (by omega), hzero, if_pos rfl, emptyBlock_entry, List.drop_nil]
    rfl
  have hnone : hash = fun _ => none := by
    rw [hn, hzero, emptyBlock_oldestBlock, Nat.zero_mod] at hload
    unfold loadBlocks at hload
    rw [if_neg (by omega), hzero, emptyBlock_entry, List.drop_nil, List.foldl_nil] at hload
    dsimp only at hload
    by_cases hold : (disk 0).oldestBlock = 0
    · rw [if_pos hold] at hload
      exact (Except.ok.inj hload).symm
    · rw [if_neg hold] at hload
      cases hload
  have hagain : recoverJournal cfg r.disk = _ := hst.recoverJournal_eq.trans (hs ▸ rebuild_of_load hempty)
  refine ⟨_, hagain, hr.symm, fun x => ?_⟩
  unfold Recovery.Unsynced
  rw [hhash, hnone]

/-- `recover_journal` can be repeated exactly in these journals. -/
theorem recoversAgain_iff (hsize : cfg.journalSize < 2 ^ 32) (h : recoverJournal cfg disk = .ok r) :
    RecoversAgain cfg r ↔ Repeatable cfg disk := by
  obtain ⟨st, hrec, hok⟩ := recovers_of_ok h
  have hpos := hrec.pos
  have hlt := hrec.newest_lt
  obtain ⟨hnone, hsome⟩ := scanFirst_scribbled hrec.scan
  obtain ⟨hdisk, hash, hload, hhash⟩ := rebuild_ok hok
  cases hs : st.scribbled with
  | none =>
    rw [hs] at hdisk
    have hsame : r.disk = disk := hdisk
    refine iff_of_true ⟨r, ?_, rfl, fun _ => Iff.rfl⟩ (.inl (hnone hs))
    rw [hsame]
    exact h
  | some k =>
    obtain ⟨hk, hsealed⟩ := hsome k hs
    have hnext := hrec.next k hs
    rw [hs] at hok hdisk
    have hother : ∀ m, m ≠ k → r.disk m = disk m := fun m hm => by
      rw [hdisk]
      exact Function.update_of_ne hm _ _
    have hself : r.disk k = emptyBlock cfg.blocksizeBits ((disk r.newestBlock).sequence + 2 ^ 32 - cfg.journalSize) k := by
      rw [hdisk]
      exact Function.update_self _ _ _
    have hgood : ∀ m < cfg.journalSize, Sealed cfg (r.disk m) := fun m hm => by
      by_cases hmk : m = k
      · rw [hmk, hself]
        exact checksumBlock_emptyBlock _ _ _
      · rw [hother m hmk]
        exact (hsealed m hm).2 hmk
    have hbad : ¬ ∀ i < cfg.journalSize, Sealed cfg (disk i) := fun hall => (hsealed k hk).1 (hall k hk) rfl
    by_cases hone : cfg.journalSize = 1
    · obtain rfl : k = 0 := by omega
      have hn0 : r.newestBlock = 0 := by omega
      rw [hn0] at hok
      exact iff_of_true (recoversAgain_one hone hok hn0) (.inr (.inl hone))
    by_cases hzero : k = 0
    · -- the newest block is the last one, and the blocks from the second one on follow each other
      subst hzero
      have hunsealed : ¬ Sealed cfg (disk 0) := fun h0 => (hsealed 0 hk).1 h0 rfl
      have hlast : r.newestBlock + 1 = cfg.journalSize := by
        by_contra hne
        rw [Nat.mod_eq_of_lt (by omega)] at hnext
        omega
      have hpred : cfg.journalSize - 1 = r.newestBlock := by omega
      have hseq : (r.disk 0).sequence =
          ((disk (cfg.journalSize - 1)).sequence + 2 ^ 32 - cfg.journalSize) % 2 ^ 32 := by
        rw [hself, hpred]
        rfl
      have hsize' : cfg.journalSize - 1 + 1 = cfg.journalSize := by omega
      have hhead := headScan hunsealed (i := cfg.journalSize - 1) (hsize'.symm ▸ hrec.scan)
      constructor
      · rintro ⟨r', h', hnewest, -⟩
        obtain ⟨st', hrec', -⟩ := recovers_of_ok h'
        refine .inr (.inr ⟨hunsealed, ?_⟩)
        rcases hrec'.clean hgood with ⟨hwrap, -⟩ | ⟨-, hf⟩
        · omega
        · have hfirst := hf 0 (by omega)
          rw [hseq, hother 1 (by decide)] at hfirst
          exact hfirst
      · rintro (hall | h1 | ⟨-, hf⟩)
        · exact absurd hall hbad
        · exact absurd h1 hone
        · obtain ⟨st', hrec', hs'⟩ := recovers_of_follows _ hpos hgood fun m hm => by
            by_cases hm0 : m = 0
            · subst hm0
              rw [hseq, hother 1 (by decide)]
              exact hf
            · rw [hother m hm0, hother (m + 1) (by omega)]
              exact hhead.follows m (Nat.pos_of_ne_zero hm0) (by omega)
          rw [hpred] at hrec'
          exact recoversAgain_of_recovers hok rfl (by omega) hrec' hs'
    · -- the rewritten block is neither the successor of the newest one nor the oldest one
      have hbefore : r.newestBlock + 1 = k := by
        by_cases hl : r.newestBlock + 1 = cfg.journalSize
        · rw [hl, Nat.mod_self] at hnext
          exact absurd hnext hzero
        · rw [Nat.mod_eq_of_lt (by omega)] at hnext
          omega
      refine iff_of_false ?_ ?_
      · rintro ⟨r', h', hnewest, -⟩
        obtain ⟨st', hrec', -⟩ := recovers_of_ok h'
        rw [hnewest] at hrec'
        rcases hrec'.clean hgood with ⟨-, -, hwrap⟩ | ⟨hl, -⟩
        · rw [hbefore, hself, hother _ (by omega), emptyBlock_sequence] at hwrap
          omega
        · omega
      · rintro (hall | h1 | ⟨h0, -⟩)
        · exact hbad hall
        · exact hone h1
        · exact h0 ((hsealed 0 hpos).2 (Ne.symm hzero))

/-- A journal of four blocks that was just created, and a block that was being written over the first one. -/
def tornFirst : Nat → JournalBlock :=
  Function.update (created ⟨9, 4, 5⟩) 0 { emptyBlock 9 4 3 with checksum := 1 }

/-- A scribble on the first block, made by the first commit, is rewritten with the sequence number that the scan takes
for none. -/
theorem tornFirst_again : ∃ r, recoverJournal ⟨9, 4, 5⟩ tornFirst = .ok r ∧ RecoversAgain ⟨9, 4, 5⟩ r := by
  cases h : recoverJournal ⟨9, 4, 5⟩ tornFirst with
  | error e =>
    have hok : (recoverJournal ⟨9, 4, 5⟩ tornFirst).isOk = true := by decide +kernel
    rw [h] at hok
    cases hok
  | ok r =>
    exact ⟨r, rfl, (recoversAgain_iff (by decide) h).2 (.inr (.inr (by unfold Follows Sealed; decide +kernel)))⟩

/-- The first commit is complete, and the second block was being written. -/
def tornSecond : Nat → JournalBlock :=
  Function.update (Function.update (created ⟨9, 4, 5⟩) 0 (emptyBlock 9 4 3)) 1 { emptyBlock 9 5 3 with checksum := 1 }

/-- The first recovery finds the first block, the second one finds the rewritten block out of sequence. -/
theorem tornSecond_out_of_sequence : ∃ r, recoverJournal ⟨9, 4, 5⟩ tornSecond = .ok r ∧ r.newestBlock = 0 ∧
    recoverJournal ⟨9, 4, 5⟩ r.disk = .error .outOfSequence ∧ ¬ RecoversAgain ⟨9, 4, 5⟩ r := by
  have hrun : (match recoverJournal ⟨9, 4, 5⟩ tornSecond with
      | .ok r => (r.newestBlock, match recoverJournal ⟨9, 4, 5⟩ r.disk with | .ok _ => none | .error e => some e)
      | .error _ => (1, none)) = (0, some .outOfSequence) := by decide +kernel
  cases h : recoverJournal ⟨9, 4, 5⟩ tornSecond with
  | error e =>
    rw [h] at hrun
    cases hrun
  | ok r =>
    rw [h] at hrun
    obtain ⟨h1, h2⟩ := Prod.mk.inj hrun
    cases h' : recoverJournal ⟨9, 4, 5⟩ r.disk with
    | ok r' =>
      rw [h'] at h2
      cases h2
    | error e =>
      rw [h'] at h2
      cases h2
      exact ⟨r, rfl, h1, h', fun ⟨r', hr', _⟩ => by rw [h'] at hr'; cases hr'⟩

end

end Ddraid
