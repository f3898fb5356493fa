import Ddsnap.JournalSpace

/-!
# The newest commit of a journal

`replay_journal` scans the whole journal, takes the one commit whose sequence number is not followed by its successor
for the newest one, and gives up when a commit block fails its checksum or when there is a second gap.  In every journal
that transactions leave, with or without the first data blocks of another one, the only gap is at the commit that was
written last, and the replay takes it exactly when the commit blocks in the journal pass `checksum_block`
(`newest_found_iff`).  With blocks below 16 megabytes this is a matter of the block size alone: it sums `allocsize_bits /
4` words, which is two words for blocks of less than 4096 bytes, and the magic alone does not add up to zero.
-/

namespace Ddsnap

variable {D : Type} {st : Journaling D} {sb : Sb D} {h init : List (Txn D)} {tail : List (Block D)}

/-! ### What a replay reads -/

private theorem mem_recent {jblocks d : Nat} {c : Nat × CommitBlock} (hc : c ∈ recent jblocks h d) :
    ∃ k t, d ≤ k ∧ h[k]? = some t ∧ c.2 = t.commit := by
  obtain ⟨k, hk⟩ := List.mem_iff_getElem?.1 hc
  rw [recent_getElem?, Option.map_eq_some_iff] at hk
  obtain ⟨u, hu, rfl⟩ := hk
  exact ⟨d + k, u, by omega, hu, rfl⟩

private theorem scanJournal_congr {sb' : Sb D} (hj : sb'.journal = sb.journal)
    (hs : sb'.image.journalSize = sb.image.journalSize)
    (hb : sb'.image.metadata.allocsizeBits = sb.image.metadata.allocsizeBits) : scanJournal sb' = scanJournal sb := by
  unfold scanJournal
  rw [hj, hs, hb]

section
variable {sb1 sb' : Sb D} {barrier : Bool} {c : Call D}

/-- What a flush leaves alone on disk, next to the metadata blocks. -/
structure SameDisk (sb sb' : Sb D) : Prop where
  committed : sb'.committed = sb.committed
  diskSuper : sb'.diskSuper = sb.diskSuper
  maxCommitBlocks : sb'.maxCommitBlocks = sb.maxCommitBlocks

private theorem SameDisk.trans {sb sb1 sb2 : Sb D} (h1 : SameDisk sb sb1) (h2 : SameDisk sb1 sb2) : SameDisk sb sb2 :=
  ⟨h2.committed.trans h1.committed, h2.diskSuper.trans h1.diskSuper, h2.maxCommitBlocks.trans h1.maxCommitBlocks⟩

private theorem Fixed.sameDisk {sb sb' : Sb D} (h : Fixed sb sb') : SameDisk sb sb' :=
  ⟨h.committed, h.diskSuper, h.maxCommitBlocks⟩

private theorem sameDisk_flushIfNeeded (hb : BitmapsPlaced sb) : SameDisk sb (flushIfNeeded sb) := by
  unfold flushIfNeeded
  split
  · have hpl : BitmapsPlaced (flushJournaledBuffers sb) := hb
    have h1 : SameDisk sb (flushJournaledBuffers sb) := ⟨rfl, rfl, rfl⟩
    exact h1.trans (edits_flushDeferredAllocs hpl).fixed.sameDisk
  · exact ⟨rfl, rfl, rfl⟩

private theorem Call.sameDisk_commits (hb : BitmapsPlaced sb) (hc : c.commits sb = some (sb1, barrier)) :
    SameDisk sb sb1 := by
  cases c with
  | commit => cases hc; exact ⟨rfl, rfl, rfl⟩
  | barrier => cases hc; exact (edits_flushDeferredAllocs hb).fixed.sameDisk.trans ⟨rfl, rfl, rfl⟩
  | check =>
    simp only [Call.commits] at hc
    split at hc
    · cases hc; exact ⟨rfl, rfl, rfl⟩
    · cases hc
  | _ => cases hc

private theorem sameDisk_logging (hb : BitmapsPlaced sb) (barrier : Bool) (k : Nat) :
    SameDisk sb (logging sb barrier k) := by
  refine (sameDisk_flushIfNeeded hb).trans ?_
  unfold logging
  rw [writeJournal_eq]
  exact ⟨rfl, rfl, rfl⟩

end

/-! ### Where the machine stops -/

/-- The machine stops between two calls, or in `commit_transaction` after the first `k` data blocks of a transaction
that fits in the journal. -/
inductive Interrupted (st : Journaling D) : Nat → Sb D → Prop where
  | between : Interrupted st 0 st.sb
  | writing {c : Call D} {sb1 : Sb D} {barrier : Bool} {k : Nat} (call : c.commits st.sb = some (sb1, barrier))
      (fits : (flushIfNeeded sb1).dirtyBuffers.length + 1 ≤ st.sb.image.journalSize)
      (part : k ≤ (flushIfNeeded sb1).dirtyBuffers.length) : Interrupted st k (logging sb1 barrier k)

/-- The position of the last commit block. -/
def Journaling.lastPosition (st : Journaling D) : Nat :=
  (st.sb.image.journalNext + st.sb.image.journalSize - 1) % st.sb.image.journalSize

/-- The commits of the journal have one gap, at the commit block at a position; it is the last one of the history. -/
def OneGap (sb : Sb D) (pos : Nat) (h : List (Txn D)) : Prop :=
  ∃ i c, gaps (scanCommits sb.journal sb.image.journalSize) = [i] ∧
    (scanCommits sb.journal sb.image.journalSize)[i]? = some (pos, c) ∧ ∀ t, h.getLast? = some t → c = t.commit

/-- `replay_journal` finds one gap and takes the commit at a position, the last one of the history, for the newest. -/
def FindsNewest (sb : Sb D) (pos : Nat) (h : List (Txn D)) : Prop :=
  ∃ scan c, scanJournal sb = some scan ∧ gaps scan.commits = [scan.newest] ∧
    scan.commits[scan.newest]? = some (pos, c) ∧ ∀ t, h.getLast? = some t → c = t.commit

/-- Every commit block in the journal passes `checksum_block`. -/
def ChecksPass (sb : Sb D) : Prop :=
  ∀ p c, p < sb.image.journalSize → asCommit (sb.journal p) = some c →
    checksumBlock sb.image.metadata.allocsizeBits c = 0

/-! ### The scan -/

/-- What an interrupted server leaves in the journal: the log of its history and data blocks of one transaction. -/
structure Remains (st : Journaling D) (sb : Sb D) (init : List (Txn D)) (tail : List (Block D)) : Prop where
  logged : Logged sb (init ++ st.history) tail
  initTxns : InitTxns sb init
  tailNoMagic : NoMagic tail
  tailFits : tail.length < sb.image.journalSize
  geometry : SameGeometry st.sb sb
  diskSuper : sb.diskSuper = st.sb.diskSuper

theorem Interrupted.remains {k : Nat} (hi : st.Inv) (h : Interrupted st k sb) :
    ∃ init tail, Remains st sb init tail ∧ tail.length = k := by
  cases h with
  | between =>
    obtain ⟨init, hl, hinit⟩ := hi.logged
    exact ⟨init, [], ⟨hl, hinit, fun b hb => by simp at hb, hl.size_pos, .refl _, rfl⟩, rfl⟩
  | @writing c sb1 barrier _ hc hfit hk =>
    obtain ⟨init, tail, hl, hinit, hlen, ht⟩ := (hi.commits hc).logging barrier hk
    have hg := hi.logging_geometry hc k
    have hd := (Call.sameDisk_commits hi.placed hc).trans (sameDisk_logging (hi.commits hc).placed barrier k)
    exact ⟨init, tail, ⟨hl, hinit, ht, by rw [hlen, hg.journalSize]; omega, hg, hd.diskSuper⟩, hlen⟩

private theorem Remains.noMagic (hr : Remains st sb init tail) (hi : st.Inv) : ∀ t ∈ init ++ st.history, t.NoMagic := by
  intro t ht
  rcases List.mem_append.1 ht with ht | ht
  · intro b hb
    simp [hr.initTxns.data t ht] at hb
  · exact hi.noMagic t ht

theorem Remains.scanned (hr : Remains st sb init tail) (hi : st.Inv) :
    ∃ d r, Scanned sb (init ++ st.history) d r ∧ ∀ k t, (init ++ st.history)[k]? = some t →
      (d ≤ k ↔ (logOf (init ++ st.history) ++ tail).length ≤
        (logOf ((init ++ st.history).take k)).length + t.data.length + sb.image.journalSize) :=
  hr.logged.scanned (hr.noMagic hi) hr.tailNoMagic hr.tailFits

/-- The last transaction ends the log, and the next block goes behind it. -/
private theorem Remains.lastPosition_eq (hr : Remains st sb init tail) (hi : st.Inv) {t : Txn D}
    (ht : (init ++ st.history)[(init ++ st.history).length - 1]? = some t) :
    ((logOf ((init ++ st.history).take ((init ++ st.history).length - 1))).length + t.data.length) %
      sb.image.journalSize = st.lastPosition := by
  obtain ⟨hlt, -⟩ := List.getElem?_eq_some_iff.1 ht
  have hlen := congrArg List.length (logOf_split ht)
  rw [List.length_append, List.length_append, Txn.blocks_length,
    show (init ++ st.history).length - 1 + 1 = (init ++ st.history).length by omega, List.drop_length, logOf_nil,
    List.length_nil] at hlen
  generalize (logOf ((init ++ st.history).take ((init ++ st.history).length - 1))).length = n at hlen ⊢
  -- the log of the history does not depend on what `init_journal` wrote
  obtain ⟨init', hl', hinit'⟩ := hi.logged
  have hnext := hl'.next
  rw [List.append_nil, logOf_append, List.length_append, hinit'.logOf_length, ← hr.geometry.journalSize,
    ← hr.initTxns.logOf_length, ← List.length_append, ← logOf_append, hlen] at hnext
  have hpos := hr.logged.size_pos
  unfold Journaling.lastPosition
  rw [hnext, ← hr.geometry.journalSize, Nat.add_sub_assoc hpos, hr.initTxns.logOf_length, Nat.mod_add_mod,
    show n + (t.data.length + 1) + 0 + (sb.image.journalSize - 1) = n + t.data.length + sb.image.journalSize by omega,
    Nat.add_mod_right]

private theorem Remains.newest (hr : Remains st sb init tail) (hi : st.Inv) {d r : Nat}
    (hs : Scanned sb (init ++ st.history) d r) : ∃ c,
      (scanCommits sb.journal sb.image.journalSize)[scanIndex (init ++ st.history) d r
        ((init ++ st.history).length - 1)]? = some (st.lastPosition, c) ∧
      ∀ t, st.history.getLast? = some t → c = t.commit := by
  have hlt := hs.lt
  have hlast := List.getElem?_eq_getElem (show (init ++ st.history).length - 1 < (init ++ st.history).length by omega)
  generalize (init ++ st.history)[(init ++ st.history).length - 1] = u at hlast
  refine ⟨u.commit, ?_, fun t ht => ?_⟩
  · rw [hs.get (show d ≤ (init ++ st.history).length - 1 by omega) hlast, hr.lastPosition_eq hi hlast]
  · obtain ⟨h', he⟩ := List.getLast?_eq_some_iff.1 ht
    rw [he] at hlast
    have hu : t = u := by simpa using hlast
    rw [hu]

private theorem Remains.oneGap (hr : Remains st sb init tail) (hi : st.Inv) : OneGap sb st.lastPosition st.history := by
  obtain ⟨d, r, hs, -⟩ := hr.scanned hi
  obtain ⟨c, hget, hlast⟩ := hr.newest hi hs
  exact ⟨_, c, hs.gaps_eq, hget, hlast⟩

/-- The replay reads the journal size and the block size from the superblock on disk. -/
theorem Remains.scanJournal_restart (hr : Remains st sb init tail) (hi : st.Inv) :
    scanJournal (restart sb) = scanJournal sb := by
  refine scanJournal_congr rfl ?_ ?_
  · show sb.diskSuper.journalSize = _
    rw [hr.diskSuper, hi.disk, hr.geometry.journalSize]
  · show sb.diskSuper.metadata.allocsizeBits = _
    rw [hr.diskSuper, hi.diskBits, hr.geometry.bits]

private theorem Remains.newest_iff (hr : Remains st sb init tail) (hi : st.Inv) :
    FindsNewest (restart sb) st.lastPosition st.history ↔ ChecksPass sb := by
  obtain ⟨d, r, hs, -⟩ := hr.scanned hi
  obtain ⟨c, hget, hlast⟩ := hr.newest hi hs
  constructor
  · rintro ⟨scan, c, hscan, -⟩ p c' hp hc'
    by_contra hne
    rw [hr.scanJournal_restart hi, scanJournal_none hp hc' hne] at hscan
    cases hscan
  · intro hpass
    exact ⟨_, c, (hr.scanJournal_restart hi).trans (hs.scanJournal hpass), hs.gaps_eq, hget, hlast⟩

/-! ### Checksums and block sizes -/

/-- The commit blocks of a history pass where `checksum_block` covers the head of a commit block and nothing of what is
filled in later. -/
def Journaling.Summed (st : Journaling D) : Prop :=
  12 ≤ st.sb.image.metadata.allocsizeBits → st.sb.image.metadata.allocsizeBits < 24 →
    ∀ t ∈ st.history, checksumBlock st.sb.image.metadata.allocsizeBits t.commit = 0

private theorem Journaling.Summed.step {st' : Journaling D} {c : Call D} (hi : st.Inv) (h : st.Summed)
    (hst : st.step c = some st') : st'.Summed := by
  obtain ⟨sb', hc, rfl⟩ := Option.map_eq_some_iff.1 hst
  intro h12 h24 t ht
  dsimp only at h12 h24 ht ⊢
  have hbits := (Call.geometry_step hi.placed hc).bits
  rw [hbits] at h12 h24 ⊢
  rcases List.mem_append.1 ht with ht | ht
  · exact h h12 h24 t ht
  cases hcom : c.commits st.sb with
  | none => rw [hcom] at ht; cases ht
  | some p =>
    obtain ⟨sb1, barrier⟩ := p
    rw [hcom] at ht
    dsimp only at ht
    unfold commitTxns at ht
    split at ht
    · cases ht
    · rw [List.mem_singleton] at ht
      subst ht
      have hg := Call.geometry_commits hi.placed hcom
      have hb1 : (flushIfNeeded sb1).image.metadata.allocsizeBits = st.sb.image.metadata.allocsizeBits :=
        (hg.trans (geometry_flushIfNeeded (hg.placed hi.placed))).bits
      have hsum := checksumBlock_newCommit (flushIfNeeded sb1) (barrier || sb1.mustFlush) (by rw [hb1]; exact h12)
      rw [hb1, lateSum_small h24] at hsum
      exact hsum

theorem Journaling.Reached.summed {ok : Journaling D → Call D → Prop} (hr : st.Reached ok) : st.Summed := by
  refine (hr.invariant (I := fun st => st.Inv ∧ st.Summed) ?_ ?_).2
  · intro st hf
    refine ⟨hf.inv, ?_⟩
    obtain ⟨sb, -, rfl⟩ := hf
    exact fun _ _ t ht => by cases ht
  · exact fun st c st' h _ hst => ⟨h.1.step hst, h.2.step h.1 hst⟩

theorem Remains.checksPass_iff (hr : Remains st sb init tail) (hi : st.Inv) (hsum : st.Summed)
    (h24 : st.sb.image.metadata.allocsizeBits < 24) : ChecksPass sb ↔ 12 ≤ st.sb.image.metadata.allocsizeBits := by
  obtain ⟨d, r, hs, -⟩ := hr.scanned hi
  have hbits := hr.geometry.bits
  constructor
  · intro hpass
    -- the newest commit block is in the journal
    obtain ⟨c, hget, -⟩ := hr.newest hi hs
    obtain ⟨hp, hc⟩ := mem_scanCommits.1 (List.mem_of_getElem? hget)
    by_contra h12
    have h9 := hi.bits
    have := hpass _ _ hp hc
    rw [hbits] at this
    exact checksumBlock_small (by omega) (by omega) c this
  · intro h12 p c hp hc
    obtain ⟨k, t, -, hk, he⟩ := mem_recent (hs.rot.mem_iff.1 (mem_scanCommits.2 ⟨hp, hc⟩))
    dsimp only at he
    rw [he]
    rcases List.mem_append.1 (List.mem_of_getElem? hk) with ht | ht
    · exact hr.initTxns.checksum (by rw [hbits]; exact h12) t ht
    · rw [hbits]
      exact hsum h12 h24 t ht

/-- In every journal that any number of transactions leave, with or without data blocks of an unfinished one, the only
gap is at the commit that was written last.  `replay_journal` takes that commit for the newest exactly when the commit
blocks in the journal pass `checksum_block`, which for blocks below 16 megabytes means blocks of at least 4096 bytes. -/
theorem newest_found_iff {k : Nat} (hr : st.Reached fun _ _ => True) (hcrash : Interrupted st k sb) :
    OneGap sb st.lastPosition st.history ∧
      (FindsNewest (restart sb) st.lastPosition st.history ↔ ChecksPass sb) ∧
      (st.sb.image.metadata.allocsizeBits < 24 →
        (FindsNewest (restart sb) st.lastPosition st.history ↔ 12 ≤ st.sb.image.metadata.allocsizeBits)) := by
  have hi := hr.inv
  obtain ⟨init, tail, hrem, -⟩ := hcrash.remains hi
  exact ⟨hrem.oneGap hi, hrem.newest_iff hi, fun h24 =>
    (hrem.newest_iff hi).trans (hrem.checksPass_iff hi hr.summed h24)⟩

/-- The small store after a transaction of two blocks, stopped after the data block of the next one. -/
theorem newest_found_after_two : (afterTwo (fun _ _ => True) [7]).sb.dirtyBuffers = [7] ∧
    (afterTwo (fun _ _ => True) [7]).history.map (fun t => t.data.map Prod.fst) = [[5, 6]] ∧
    FindsNewest (restart (logging (afterTwo (fun _ _ => True) [7]).sb false 1))
      (afterTwo (fun _ _ => True) [7]).lastPosition (afterTwo (fun _ _ => True) [7]).history := by
  have hcrash : Interrupted (afterTwo (fun _ _ => True) [7]) 1
      (logging (afterTwo (fun _ _ => True) [7]).sb false 1) :=
    .writing (c := .commit) rfl (by decide +kernel) (by decide +kernel)
  have hfound := (newest_found_iff (smallRun_reached _ (by decide) (by decide) _ _) hcrash).2.2 (by decide +kernel)
  exact ⟨by decide +kernel, by decide +kernel, hfound.2 (by decide +kernel)⟩

/-- The small store with a journal of four blocks of 512 bytes. -/
def sectorStore : Sb Nat :=
  let image := { (smallStore 4 false).image with metadata := ⟨2, 64, 64, 0, 1, 9⟩, snapdata := ⟨2, 0, 0, 0, 0, 9⟩ }
  { smallStore 4 false with image := image, diskSuper := image, allocPerNode := 31, maxCommitBlocks := 57 }

/-- One block is committed on it. -/
def sectorRun : Journaling Nat :=
  let st : Journaling Nat := ⟨initJournal sectorStore, []⟩
  (Reach.exec Journaling.step (fun _ _ => True) st (Call.rounds [[5]])).getD st

private theorem sectorRun_reached : sectorRun.Reached fun _ _ => True := by
  have hfresh : Journaling.Fresh ⟨initJournal sectorStore, []⟩ :=
    ⟨sectorStore, ⟨by decide, by decide, rfl, rfl, by decide, ⟨by decide, by decide⟩, rfl, rfl, ⟨rfl, rfl⟩, rfl, rfl, rfl,
      rfl⟩, rfl⟩
  have hstart : Journaling.Reached (fun _ _ => True) ⟨initJournal sectorStore, []⟩ := .start hfresh
  exact hstart.exec_getD (Call.rounds [[5]])

/-- With blocks of 512 bytes every commit block is rejected as corrupt. -/
theorem newest_rejected : sectorRun.Reached (fun _ _ => True) ∧
    sectorRun.history.map (fun t => t.data.map Prod.fst) = [[5]] ∧
    gaps (scanCommits sectorRun.sb.journal 4) = [0] ∧
    ¬ FindsNewest (restart sectorRun.sb) sectorRun.lastPosition sectorRun.history := by
  have hrun : sectorRun.history.map (fun t => t.data.map Prod.fst) = [[5]] ∧
      gaps (scanCommits sectorRun.sb.journal 4) = [0] ∧ (scanJournal (restart sectorRun.sb)).isNone = true := by
    decide +kernel
  refine ⟨sectorRun_reached, hrun.1, hrun.2.1, ?_⟩
  rintro ⟨scan, c, hscan, -⟩
  have hnone := hrun.2.2
  rw [hscan] at hnone
  cases hnone

end Ddsnap
