import Ddsnap.JournalRun

/-!
# Replay without deferral

Without deferral the only transaction to redo after a crash is the newest one.  `replay_journal` writes all its data
blocks to the slot of the sector list that has the number of the commit among the commits of the journal, so it redoes
the transaction exactly when the transaction has one data block and its commit block is the first one in the journal
(`redoesNewest_iff`).
-/

namespace Ddsnap

variable {D : Type}

/-! ### Cells of the journal -/

/-- The number of blocks written before position `p` is reached from position `next`. -/
def ahead (jblocks next p : Nat) : Nat := if next ≤ p then p - next else p + jblocks - next

/-- The journal after some block writes. -/
private theorem writeJournal_cell {sb : Sb D} {p : Nat} (bs : List (Block D)) (hp : p < sb.image.journalSize)
    (hn : sb.image.journalNext < sb.image.journalSize) (hb : bs.length ≤ sb.image.journalSize) :
    (writeJournal sb bs).journal p =
      (bs[ahead sb.image.journalSize sb.image.journalNext p]?).getD (sb.journal p) := by
  induction bs generalizing sb with
  | nil => rfl
  | cons b bs ih =>
    rw [List.length_cons] at hb
    have hstep : writeJournal sb (b :: bs) = writeJournal (writeJournal sb [b]) bs := rfl
    have hsize : (writeJournal sb [b]).image.journalSize = sb.image.journalSize := rfl
    have hnext : (writeJournal sb [b]).image.journalNext =
      if sb.image.journalNext + 1 = sb.image.journalSize then 0 else sb.image.journalNext + 1 := rfl
    have hcell : (writeJournal sb [b]).journal = Function.update sb.journal sb.image.journalNext b := rfl
    have hn1 : (writeJournal sb [b]).image.journalNext < sb.image.journalSize := by
      rw [hnext]; split <;> omega
    have ih1 := @ih (writeJournal sb [b]) hp hn1 (by rw [hsize]; omega)
    rw [hstep, ih1, hsize, hcell]
    by_cases he : p = sb.image.journalNext
    · -- the first block; the others do not come round to it
      have h0 : ahead sb.image.journalSize sb.image.journalNext p = 0 := by
        simp [ahead, he]
      have h1 : bs.length ≤ ahead sb.image.journalSize (writeJournal sb [b]).image.journalNext p := by
        rw [hnext, ahead]; split <;> split <;> omega
      rw [h0, List.getElem?_eq_none h1]
      simp [he]
    · have h1 : ahead sb.image.journalSize sb.image.journalNext p =
          ahead sb.image.journalSize (writeJournal sb [b]).image.journalNext p + 1 := by
        rw [hnext]; unfold ahead; split <;> split <;> split <;> omega
      rw [h1, List.getElem?_cons_succ, Function.update_of_ne he]

/-! ### Runs without deferral -/

/-- Each transaction fits in the journal. -/
def Fits (st : Journaling D) (c : Call D) : Prop :=
  match c.commits st.sb with
  | some (sb1, _) => sb1.dirtyBuffers.length + 1 ≤ st.sb.image.journalSize
  | none => True

instance (st : Journaling D) (c : Call D) : Decidable (Fits st c) := by
  unfold Fits; split <;> infer_instance

section
variable {sb : Sb D}

private theorem mustFlush_false (hn : NoDefer sb) (hj : sb.journaledBuffers = []) (h2 : 2 ≤ sb.image.journalSize) :
    sb.mustFlush = false := by
  have : ¬ sb.image.journalSize / 2 = 0 := by omega
  simp [Sb.mustFlush, hn.2, hj, this]

private theorem flushIfNeeded_eq (h : sb.mustFlush = false) : flushIfNeeded sb = sb := by
  simp [flushIfNeeded, h]

private theorem dirty_ne_nil (hn : NoDefer sb) (hi : sb.idle = false) : sb.dirtyBuffers ≠ [] := by
  simpa [Sb.idle, hn.1] using hi

end

/-- Without deferral no commit is a barrier. -/
private theorem Journaling.Reached.noBarrier {st : Journaling D} (hr : st.Reached Fits) :
    st.sb.deferring = false → ∀ t ∈ st.history, t.commit.alloc.barrier = false := by
  refine (hr.invariant (I := fun st => st.Inv ∧ (st.sb.deferring = false →
    ∀ t ∈ st.history, t.commit.alloc.barrier = false)) ?_ ?_).2
  · intro st hf
    refine ⟨hf.inv, ?_⟩
    obtain ⟨sb, -, rfl⟩ := hf
    simp
  · rintro ⟨sb, h⟩ c st' ⟨hi, ih⟩ hfit hs
    refine ⟨hi.step hs, ?_⟩
    obtain ⟨sb', hc, rfl⟩ := Option.map_eq_some_iff.1 hs
    intro hd
    rw [(Call.geometry_step hi.placed hc).deferring] at hd
    obtain ⟨hn, hj⟩ := hi.noDefer hd
    rcases Call.step_cases hi.placed hc with ⟨hcom, -⟩ | ⟨sb1, barrier, hcom, -, ⟨rfl, rfl⟩ | ⟨hidle, rfl, -⟩⟩
    · simpa [hcom] using ih hd
    · simp only [hcom]
      intro t ht
      rcases List.mem_append.1 ht with ht | ht
      · exact ih hd t ht
      · unfold commitTxns at ht
        split at ht
        · simp at ht
        · rename_i hidle
          have hlen : 0 < sb1.dirtyBuffers.length := List.length_pos_iff.2 (dirty_ne_nil hn (by simpa using hidle))
          have hfit : sb1.dirtyBuffers.length + 1 ≤ sb1.image.journalSize := by
            unfold Fits at hfit; rw [hcom] at hfit; exact hfit
          have h2 : 2 ≤ sb1.image.journalSize := by omega
          rw [mustFlush_false hn hj h2, List.mem_singleton] at ht
          subst ht
          exact newCommit_barrier _ _
    · -- the second half of `commit_deferred_allocs` has nothing to flush
      have hidle1 : (flushJournaledBuffers (flushDeferredAllocs sb)).idle = true := by
        rw [flushDeferredAllocs_nil hn.2]; exact hidle
      simpa [hcom, commitTxns, hidle1] using ih hd

/-! ### The newest transaction after a crash -/

/-- The machine stops in `commit_transaction` after the commit block was written, with the first `done` of the home
writes made. -/
def crashAfterCommit (sb : Sb D) (barrier : Bool) (done : Nat) : Sb D :=
  let sb1 := logTransaction (flushIfNeeded sb) (barrier || sb.mustFlush)
  { sb1 with
    dev := Function.update sb1.dev .metadev
      (writeHome (sb1.dev .metadev) sb1.mem (sb1.dirtyBuffers.take done)) }

/-- After the crash the replay writes each data block of the newest transaction to the sector recorded for it, and
nothing else, whatever lies in memory behind the commit block. -/
def RedoesNewest (sb : Sb D) (done : Nat) : Prop :=
  ∀ behind, replayWrites (restart (crashAfterCommit sb false done)) behind =
    some (sb.dirtyBuffers.map fun s => (s, sb.mem s))

/-- The condition for that: the commit blocks that the journal will hold pass their checksums, the transaction has
one data block, and its commit block becomes the first one in the journal. -/
structure NewestRedoable (sb : Sb D) : Prop where
  bits : 12 ≤ sb.image.metadata.allocsizeBits
  sum : lateSum sb.image.metadata.allocsizeBits sb.image.snapdata.freechunks sb.image.metadata.freechunks
    ⟨0, 0, false⟩ = 0
  others : ∀ p c, p < sb.image.journalSize →
    sb.dirtyBuffers.length < ahead sb.image.journalSize sb.image.journalNext p → asCommit (sb.journal p) = some c →
      checksumBlock sb.image.metadata.allocsizeBits c = 0
  single : sb.dirtyBuffers.length = 1
  first : sb.image.journalNext = 0 ∨ sb.image.journalNext + 1 = sb.image.journalSize

/-- A transaction that is about to be committed without deferral, in a state of a run. -/
structure Committing (st : Journaling D) : Prop where
  inv : st.Inv
  noBarrier : ∀ t ∈ st.history, t.commit.alloc.barrier = false
  deferring : st.sb.deferring = false
  dirty : 0 < st.sb.dirtyBuffers.length
  fits : st.sb.dirtyBuffers.length + 1 ≤ st.sb.image.journalSize

section
variable {st : Journaling D}

private theorem Committing.mustFlush (hc : Committing st) : st.sb.mustFlush = false := by
  obtain ⟨hn, hj⟩ := hc.inv.noDefer hc.deferring
  have := hc.dirty; have := hc.fits
  exact mustFlush_false hn hj (by omega)

private theorem Committing.next_lt (hc : Committing st) : st.sb.image.journalNext < st.sb.image.journalSize := by
  obtain ⟨init, hl, -⟩ := hc.inv.logged
  rw [hl.next]
  exact Nat.mod_lt _ hl.size_pos

private theorem logTransaction_journal (sb : Sb D) (barrier : Bool) :
    (logTransaction sb barrier).journal = (writeJournal sb (transactionBlocks sb barrier)).journal := by
  unfold logTransaction; exact (recordCommit_pushDefer _).1

private theorem Committing.restart (hc : Committing st) (done : Nat) :
    (restart (crashAfterCommit st.sb false done)).journal = (logTransaction st.sb false).journal ∧
      (restart (crashAfterCommit st.sb false done)).image.journalSize = st.sb.image.journalSize ∧
      (restart (crashAfterCommit st.sb false done)).image.metadata.allocsizeBits =
        st.sb.image.metadata.allocsizeBits ∧
      (restart (crashAfterCommit st.sb false done)).maxCommitBlocks = st.sb.maxCommitBlocks := by
  obtain ⟨-, -, -, h4, -, -, -, -, -, h10⟩ := logTransaction_fixed st.sb false
  simp only [Ddsnap.restart, crashAfterCommit, hc.mustFlush, Bool.or_false, flushIfNeeded_eq hc.mustFlush, h4, h10,
    hc.inv.disk, hc.inv.diskBits, and_self]

private theorem Committing.cell (hc : Committing st) {p : Nat} (hp : p < st.sb.image.journalSize) :
    (logTransaction st.sb false).journal p =
      ((transactionBlocks st.sb false)[ahead st.sb.image.journalSize st.sb.image.journalNext p]?).getD
        (st.sb.journal p) := by
  rw [logTransaction_journal]
  refine writeJournal_cell _ hp hc.next_lt ?_
  have := hc.fits
  simpa [transactionBlocks] using this

/-- The replay writes all data blocks to one slot of the sector list of the newest commit, the one with the number
of the commit. -/
private theorem Committing.replayWrites (hc : Committing st) (done : Nat) :
    ∃ i, (scanCommits (logTransaction st.sb false).journal st.sb.image.journalSize)[i]? =
        some ((st.sb.image.journalNext + st.sb.dirtyBuffers.length) % st.sb.image.journalSize, newCommit st.sb false) ∧
      ∀ behind, (∀ p c, p < st.sb.image.journalSize → asCommit ((logTransaction st.sb false).journal p) = some c →
          checksumBlock st.sb.image.metadata.allocsizeBits c = 0) →
        replayWrites (Ddsnap.restart (crashAfterCommit st.sb false done)) behind = some (st.sb.dirtyBuffers.map fun s =>
          (sectorSlot st.sb.maxCommitBlocks behind (newCommit st.sb false) i, st.sb.mem s)) := by
  obtain ⟨h1, h2, h3, h4⟩ := hc.restart done
  obtain ⟨init, hl, hinit⟩ := hc.inv.logged
  set H := init ++ st.history with hH
  have hl' := hl.logTransaction false
  have hsize := (logTransaction_fixed st.sb false).1
  have hmH : ∀ t ∈ H ++ [openTxn st.sb false], t.NoMagic := by
    intro t ht
    rcases List.mem_append.1 ht with ht | ht
    · rcases List.mem_append.1 ht with ht | ht
      · intro b hb; simp [hinit.data t ht] at hb
      · exact hc.inv.noMagic t ht
    · rw [List.mem_singleton] at ht; exact ht ▸ openTxn_noMagic hc.inv.buffered _
  obtain ⟨d, r, hs, hiff⟩ := hl'.scanned hmH (by intro b hb; simp at hb) (by simpa using hl'.size_pos)
  have hs := hs.congr h1 (h2.trans hsize.symm)
  have hlast : (H ++ [openTxn st.sb false])[H.length]? = some (openTxn st.sb false) := by simp
  have hlen : (H ++ [openTxn st.sb false]).length - 1 = H.length := by simp
  have hdk : d ≤ H.length := by have := hs.lt; simp at this; omega
  have hget := hs.get hdk hlast
  rw [h1, h2] at hget
  have hpresent : Present (logTransaction st.sb false) (H ++ [openTxn st.sb false]) H.length := by
    refine hl'.present ?_
    have := hc.fits
    simp [openTxn, hsize]; omega
  have hpos : ((logOf ((H ++ [openTxn st.sb false]).take H.length)).length + (openTxn st.sb false).data.length) %
      st.sb.image.journalSize = (st.sb.image.journalNext + st.sb.dirtyBuffers.length) % st.sb.image.journalSize := by
    have := hl.next
    rw [List.append_nil] at this
    rw [this, Nat.mod_add_mod]
    simp [openTxn]
  rw [hpos] at hget
  refine ⟨scanIndex (H ++ [openTxn st.sb false]) d r H.length, hget, ?_⟩
  intro behind hsum
  rw [hs.replayWrites_newest behind (by rw [h1, h2, h3]; exact hsum), hlen]
  · rw [replayCommit_present behind (by rw [h2]; exact hl.size_lt) hlast
      (hpresent.congr h1 (h2.trans hsize.symm)) (openTxn_noMagic hc.inv.buffered _) (by simp [openTxn, Function.comp_def])
      (by have := hc.fits; rw [h2]; simp [openTxn]; omega) (by rw [h2]; exact hl.size_pos)
      (by rw [h1, h2, hpos]; exact hget), h4]
    simp [openTxn, Function.comp_def]
  · left
    have hx : ∀ c ∈ recent (Ddsnap.restart (crashAfterCommit st.sb false done)).image.journalSize
        (H ++ [openTxn st.sb false]) d, c.2.alloc.barrier = false := by
      intro c hcm
      obtain ⟨k, hk⟩ := List.mem_iff_getElem?.1 hcm
      rw [recent_getElem?, Option.map_eq_some_iff] at hk
      obtain ⟨t, ht, rfl⟩ := hk
      rcases List.mem_append.1 (List.mem_of_getElem? ht) with ht | ht
      · rcases List.mem_append.1 ht with ht | ht
        · rw [hinit.alloc t ht]
        · exact hc.noBarrier t ht
      · rw [List.mem_singleton] at ht; subst ht; exact newCommit_barrier _ _
    have := lastBarrier_none hs.rot _ (Nat.le_refl _) hx
    simpa using this

/-- All commit blocks in the journal pass. -/
private theorem Committing.checksums_iff (hc : Committing st) :
    (∀ p c, p < st.sb.image.journalSize → asCommit ((logTransaction st.sb false).journal p) = some c →
        checksumBlock st.sb.image.metadata.allocsizeBits c = 0) ↔
      12 ≤ st.sb.image.metadata.allocsizeBits ∧
      lateSum st.sb.image.metadata.allocsizeBits st.sb.image.snapdata.freechunks st.sb.image.metadata.freechunks
        ⟨0, 0, false⟩ = 0 ∧
      ∀ p c, p < st.sb.image.journalSize →
        st.sb.dirtyBuffers.length < ahead st.sb.image.journalSize st.sb.image.journalNext p →
          asCommit (st.sb.journal p) = some c → checksumBlock st.sb.image.metadata.allocsizeBits c = 0 := by
  have hnew : ∀ h12 : 12 ≤ st.sb.image.metadata.allocsizeBits,
      checksumBlock st.sb.image.metadata.allocsizeBits (newCommit st.sb false) =
        lateSum st.sb.image.metadata.allocsizeBits st.sb.image.snapdata.freechunks st.sb.image.metadata.freechunks
          ⟨0, 0, false⟩ := by
    intro h12
    rw [checksumBlock_newCommit st.sb false h12]
    simp [newCommit, (hc.inv.noDefer hc.deferring).1.1]
  have hblocks : (transactionBlocks st.sb false)[st.sb.dirtyBuffers.length]? = some (.commit (newCommit st.sb false)) := by
    simp [transactionBlocks]
  have hold : ∀ p, p < st.sb.image.journalSize →
      st.sb.dirtyBuffers.length < ahead st.sb.image.journalSize st.sb.image.journalNext p →
        (logTransaction st.sb false).journal p = st.sb.journal p := by
    intro p hp ha
    rw [hc.cell hp, List.getElem?_eq_none (by simp [transactionBlocks]; omega)]
    rfl
  constructor
  · intro hall
    -- the new commit block is in the journal
    obtain ⟨i, hi, -⟩ := hc.replayWrites 0
    obtain ⟨hpos, hcom⟩ := mem_scanCommits.1 (List.mem_of_getElem? hi)
    have h0 := hall _ _ hpos hcom
    have h12 : 12 ≤ st.sb.image.metadata.allocsizeBits := by
      by_contra h
      have h9 := hc.inv.bits
      exact checksumBlock_small (by omega) (by omega) _ h0
    refine ⟨h12, (hnew h12).symm.trans h0, ?_⟩
    intro p c hp ha hcp
    exact hall p c hp (by rw [hold p hp ha]; exact hcp)
  · rintro ⟨h12, hsum, hothers⟩ p c hp hcp
    rcases Nat.lt_trichotomy (ahead st.sb.image.journalSize st.sb.image.journalNext p) st.sb.dirtyBuffers.length with
      hlt | heq | hgt
    · -- a data block
      have hd : (transactionBlocks st.sb false)[ahead st.sb.image.journalSize st.sb.image.journalNext p]? =
          some (st.sb.mem (st.sb.dirtyBuffers[ahead st.sb.image.journalSize st.sb.image.journalNext p])) := by
        rw [transactionBlocks, List.getElem?_append_left (by simpa using hlt), List.getElem?_map,
          List.getElem?_eq_getElem hlt]
        rfl
      rw [hc.cell hp, hd, Option.getD_some, hc.inv.buffered.noMagic _ (List.getElem_mem hlt)] at hcp
      cases hcp
    · rw [hc.cell hp, heq, hblocks] at hcp
      cases hcp
      rw [hnew h12]; exact hsum
    · exact hothers p c hp hgt (by rw [← hold p hp hgt]; exact hcp)

/-- The position before the next one holds the commit block of the last transaction. -/
private theorem Committing.before_next (hc : Committing st) (h0 : 0 < st.sb.image.journalNext) :
    ∃ c, st.sb.journal (st.sb.image.journalNext - 1) = .commit c := by
  obtain ⟨init, hl, -⟩ := hc.inv.logged
  set H := init ++ st.history
  have hpos := hl.size_pos
  have hfull := hl.full
  have hnext := hl.next
  rw [List.append_nil] at hnext
  have hne : H ≠ [] := by
    intro h; rw [h] at hfull; simp at hfull; omega
  obtain ⟨H', t, hH⟩ := (List.eq_nil_or_concat H).resolve_left hne
  have hlast : (logOf H)[(logOf H).length - 1]? = some (.commit t.commit) := by
    rw [hH, List.concat_eq_append, logOf_append, logOf_singleton, Txn.blocks, ← List.append_assoc]
    simp
  have hmod : ((logOf H).length - 1) % st.sb.image.journalSize = st.sb.image.journalNext - 1 := by
    have hdm := Nat.div_add_mod (logOf H).length st.sb.image.journalSize
    have hlt := hc.next_lt
    rw [show (logOf H).length - 1 = st.sb.image.journalSize * ((logOf H).length / st.sb.image.journalSize) +
      (st.sb.image.journalNext - 1) by omega, Nat.mul_add_mod, Nat.mod_eq_of_lt (by omega)]
  refine ⟨t.commit, ?_⟩
  rw [← hmod]
  refine hl.holds _ _ ?_ ?_
  · rw [List.append_nil]; exact hlast
  · rw [List.append_nil]; omega

/-- The newest commit is the first one that the scan finds, for a transaction with one data block. -/
private theorem Committing.index_zero_iff (hc : Committing st) (h1 : st.sb.dirtyBuffers.length = 1) {i : Nat}
    (hi : (scanCommits (logTransaction st.sb false).journal st.sb.image.journalSize)[i]? =
      some ((st.sb.image.journalNext + st.sb.dirtyBuffers.length) % st.sb.image.journalSize, newCommit st.sb false)) :
    i = 0 ↔ st.sb.image.journalNext = 0 ∨ st.sb.image.journalNext + 1 = st.sb.image.journalSize := by
  have hlt := hc.next_lt
  have hfit := hc.fits
  rw [scanCommits_index_zero hi, h1]
  constructor
  · intro hq
    by_contra hcon
    rw [not_or] at hcon
    have hmod : (st.sb.image.journalNext + 1) % st.sb.image.journalSize = st.sb.image.journalNext + 1 :=
      Nat.mod_eq_of_lt (by omega)
    -- the commit block of the transaction before stands before the data block
    obtain ⟨c, hcb⟩ := hc.before_next (by omega)
    have hcell := hc.cell (show st.sb.image.journalNext - 1 < st.sb.image.journalSize by omega)
    have hah : ahead st.sb.image.journalSize st.sb.image.journalNext (st.sb.image.journalNext - 1) =
        st.sb.image.journalSize - 1 := by
      unfold ahead; split <;> omega
    rw [hah, List.getElem?_eq_none (by simp [transactionBlocks, h1]; omega), Option.getD_none, hcb] at hcell
    have := hq (st.sb.image.journalNext - 1) (by omega)
    rw [hcell] at this
    cases this
  · rintro (h0 | hJ) q hq
    · -- the data block is at position 0 and the commit block at position 1
      rw [h0, Nat.mod_eq_of_lt (by omega)] at hq
      have hq0 : q = 0 := by omega
      subst hq0
      obtain ⟨s, hs⟩ := List.length_eq_one_iff.1 h1
      have := hc.inv.buffered.noMagic s (by rw [hs]; simp)
      rw [hc.cell (by omega), h0]
      simp [ahead, transactionBlocks, hs, this]
    · rw [hJ, Nat.mod_self] at hq
      omega

end

/-- Without deferral the replay redoes the newest transaction exactly under the condition `NewestRedoable`, wherever
the machine stopped among the home writes. -/
theorem redoesNewest_iff {st : Journaling D} (hr : st.Reached Fits) (hd : st.sb.deferring = false)
    (hdirty : st.sb.dirtyBuffers ≠ []) (hfit : st.sb.dirtyBuffers.length + 1 ≤ st.sb.image.journalSize) (done : Nat) :
    RedoesNewest st.sb done ↔ NewestRedoable st.sb := by
  have hc : Committing st := ⟨hr.inv, hr.noBarrier hd, hd, List.length_pos_iff.2 hdirty, hfit⟩
  have hb := hc.inv.buffered
  obtain ⟨i, hi, hwrites⟩ := hc.replayWrites done
  constructor
  · intro hredo
    have hsums := hc.checksums_iff.1 (by
      -- a failed checksum would have stopped the replay
      intro p c hp hcp
      by_contra h0
      obtain ⟨h1, h2, h3, -⟩ := hc.restart done
      have hnone : scanJournal (restart (crashAfterCommit st.sb false done)) = none :=
        scanJournal_none (h2.symm ▸ hp) (by rw [h1]; exact hcp) (by rw [h3]; exact h0)
      have := hredo fun _ => 0
      rw [replayWrites, hnone] at this
      cases this)
    have hall := hc.checksums_iff.2 hsums
    have hslot : ∀ s ∈ st.sb.dirtyBuffers,
        sectorSlot st.sb.maxCommitBlocks (fun _ => 0) (newCommit st.sb false) i = s := by
      intro s hs
      have := (hwrites _ hall).symm.trans (hredo fun _ => 0)
      rw [Option.some.injEq, List.map_inj_left] at this
      exact congrArg Prod.fst (this s hs)
    have hone : st.sb.dirtyBuffers.length = 1 := by
      have hlen := hc.dirty
      by_contra hne
      have h01 := (hslot _ (List.getElem_mem hlen)).symm.trans
        (hslot _ (List.getElem_mem (show 1 < st.sb.dirtyBuffers.length by omega)))
      have := (hb.dirty_nodup.getElem_inj_iff).1 h01
      omega
    refine ⟨hsums.1, hsums.2.1, hsums.2.2, hone, (hc.index_zero_iff hone hi).1 ?_⟩
    -- a later slot is behind the list: zero, as memory behind the block may be
    by_contra hi0
    obtain ⟨s, hs⟩ := List.length_eq_one_iff.1 hone
    have h1 := hslot s (by rw [hs]; simp)
    have h2 := hb.pos s (by rw [hs]; simp)
    have hnone : (newCommit st.sb false).sector[i]? = none := by
      rw [newCommit_sector]; exact List.getElem?_eq_none (by omega)
    rw [sectorSlot, hnone] at h1
    simp at h1; omega
  · intro hcond behind
    have hi0 := (hc.index_zero_iff hcond.single hi).2 hcond.first
    obtain ⟨s, hs⟩ := List.length_eq_one_iff.1 hcond.single
    rw [hwrites behind (hc.checksums_iff.2 ⟨hcond.bits, hcond.sum, hcond.others⟩), hi0]
    simp [hs, sectorSlot]

/-- The small store with a journal of four blocks, after the blocks of a list were edited. -/
def editedStore (l : List Nat) : Journaling Nat := smallRun Fits 4 false (Call.edits 1 l)

private theorem editedStore_reached (l : List Nat) : (editedStore l).Reached Fits :=
  smallRun_reached Fits (by decide) (by decide) false _

/-- One block, committed from the first position of the journal on. -/
theorem redoesNewest_one_block : (editedStore [5]).sb.dirtyBuffers = [5] ∧ RedoesNewest (editedStore [5]).sb 0 := by
  refine ⟨by decide, (redoesNewest_iff (editedStore_reached [5]) rfl (by decide) (by decide) 0).2
    ⟨by decide, by decide, ?_, by decide, .inl (by decide)⟩⟩
  have hall : ∀ p < 4, ∀ c ∈ asCommit ((editedStore [5]).sb.journal p), checksumBlock 12 c = 0 := by decide +kernel
  intro p c hp _ hc
  exact hall p hp c hc

/-- Two blocks: both are written to the home of the first. -/
theorem two_blocks_misdirected : (editedStore [5, 6]).Reached Fits ∧ (editedStore [5, 6]).sb.deferring = false ∧
    (editedStore [5, 6]).sb.dirtyBuffers = [5, 6] ∧ (editedStore [5, 6]).sb.image.journalSize = 4 ∧
    ¬ RedoesNewest (editedStore [5, 6]).sb 0 := by
  refine ⟨editedStore_reached _, by decide, by decide, by decide, ?_⟩
  intro h
  have h1 := congrArg (Option.map (List.map Prod.fst)) (h fun _ => 0)
  exact absurd h1 (by decide +kernel)

end Ddsnap
