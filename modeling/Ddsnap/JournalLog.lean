import Ddsnap.Journal
import Ddsnap.Lib.RingLog

/-!
# The journal as a log of transactions

The blocks ever written to the journal form a log: the commit blocks of `init_journal`, then the data blocks and the
commit block of one transaction after the other.  `Logged sb h tail` says that the journal of `sb` is the ring that
holds the end of the log of the transactions `h`, followed by the blocks `tail` of a transaction whose commit block
is not written yet.  Each block write and each commit extends the log.
-/

namespace Ddsnap

variable {D : Type}

/-! ### What a journal write leaves alone -/

theorem writeJournal_eq (sb : Sb D) (bs : List (Block D)) :
    writeJournal sb bs = { sb with
      journal := (writeJournal sb bs).journal
      image := { sb.image with journalNext := (writeJournal sb bs).image.journalNext } } := by
  induction bs generalizing sb with
  | nil => rfl
  | cons b bs ih =>
    conv => lhs; unfold writeJournal; simp only [nextJournalBlock]
    rw [ih]
    rfl

@[simp] theorem writeJournal_journalSize (sb : Sb D) (bs : List (Block D)) :
    (writeJournal sb bs).image.journalSize = sb.image.journalSize := by
  rw [writeJournal_eq]

@[simp] theorem writeJournal_sequence (sb : Sb D) (bs : List (Block D)) :
    (writeJournal sb bs).image.sequence = sb.image.sequence := by
  rw [writeJournal_eq]

/-! ### Transactions and their log -/

/-- A transaction: the dirty blocks with their home positions, and the commit block. -/
structure Txn (D : Type) where
  data : List (Nat × Block D)
  commit : CommitBlock

/-- The journal blocks of a transaction. -/
def Txn.blocks (t : Txn D) : List (Block D) := t.data.map Prod.snd ++ [.commit t.commit]

/-- The journal blocks of a list of transactions. -/
def logOf (h : List (Txn D)) : List (Block D) := h.flatMap Txn.blocks

/-- The open transaction of `sb`. -/
def openTxn (sb : Sb D) (barrier : Bool) : Txn D :=
  ⟨sb.dirtyBuffers.map fun s => (s, sb.mem s), newCommit sb barrier⟩

/-- The transactions that `init_journal` writes: commit blocks without data. -/
def initTxns (sb : Sb D) : List (Txn D) := (List.range sb.image.journalSize).map fun i => ⟨[], initCommit sb i⟩

/-- The journal of `sb` is the ring that holds the end of the log `s`. -/
structure AtLog (sb : Sb D) (s : List (Block D)) : Prop where
  size_pos : 0 < sb.image.journalSize
  holds : RingLog.Holds sb.image.journalSize sb.journal s
  next : sb.image.journalNext = s.length % sb.image.journalSize

/-- The journal of `sb` holds the end of the log of `h` and `tail`. -/
structure Logged (sb : Sb D) (h : List (Txn D)) (tail : List (Block D)) : Prop extends
    AtLog sb (logOf h ++ tail) where
  size_lt : sb.image.journalSize < 2 ^ 31
  sequence : sb.image.sequence = h.length % 2 ^ 32
  full : sb.image.journalSize ≤ (logOf h).length
  numbered : ∀ i t, h[i]? = some t → t.commit.sequence = i % 2 ^ 32
  sectors : ∀ t ∈ h, t.commit.sector = t.data.map Prod.fst

@[simp] theorem Txn.blocks_length (t : Txn D) : t.blocks.length = t.data.length + 1 := by
  simp [Txn.blocks]

@[simp] theorem logOf_nil : logOf ([] : List (Txn D)) = [] := rfl

@[simp] theorem logOf_cons (t : Txn D) (h : List (Txn D)) : logOf (t :: h) = t.blocks ++ logOf h := by
  simp [logOf]

@[simp] theorem logOf_append (h h' : List (Txn D)) : logOf (h ++ h') = logOf h ++ logOf h' := by
  simp [logOf]

@[simp] theorem logOf_singleton (t : Txn D) : logOf [t] = t.blocks := by
  simp

private theorem transactionBlocks_eq (sb : Sb D) (barrier : Bool) :
    transactionBlocks sb barrier = (openTxn sb barrier).blocks := by
  simp [transactionBlocks, openTxn, Txn.blocks, Function.comp_def]

@[simp] theorem newCommit_sequence (sb : Sb D) (barrier : Bool) :
    (newCommit sb barrier).sequence = sb.image.sequence := by
  unfold newCommit; split <;> split <;> rfl

@[simp] theorem newCommit_sector (sb : Sb D) (barrier : Bool) :
    (newCommit sb barrier).sector = sb.dirtyBuffers := by
  unfold newCommit; split <;> split <;> rfl

@[simp] theorem newCommit_barrier (sb : Sb D) (barrier : Bool) :
    (newCommit sb barrier).alloc.barrier = barrier := by
  unfold newCommit; split <;> split <;> simp_all

/-! ### The journal operations extend the log -/

section
variable {sb sb' : Sb D} {h : List (Txn D)} {s tail : List (Block D)}

private theorem AtLog.writeBlock (hl : AtLog sb s) (b : Block D) : AtLog (writeJournal sb [b]) (s ++ [b]) := by
  refine ⟨hl.size_pos, ?_, ?_⟩
  · show RingLog.Holds _ (Function.update sb.journal sb.image.journalNext b) _
    rw [hl.next]
    exact hl.holds.push b
  · show (if sb.image.journalNext + 1 = sb.image.journalSize then 0 else sb.image.journalNext + 1) = _
    rw [hl.next, RingLog.succ_mod hl.size_pos]
    simp

private theorem AtLog.writeJournal (hl : AtLog sb s) (bs : List (Block D)) : AtLog (writeJournal sb bs) (s ++ bs) := by
  induction bs generalizing sb s with
  | nil => rw [List.append_nil]; exact hl
  | cons b bs ih =>
    have := ih (hl.writeBlock b)
    rw [List.append_assoc] at this
    exact this

/-- `Logged` reads the journal, its size, its next position and the sequence number only. -/
theorem Logged.congr (hl : Logged sb h tail) (hj : sb'.journal = sb.journal)
    (hs : sb'.image.journalSize = sb.image.journalSize) (hn : sb'.image.journalNext = sb.image.journalNext)
    (hq : sb'.image.sequence = sb.image.sequence) : Logged sb' h tail := by
  obtain ⟨⟨h1, h2, h3⟩, h4, h5, h6, h7, h8⟩ := hl
  refine ⟨⟨?_, ?_, ?_⟩, ?_, ?_, ?_, h7, h8⟩
  · rw [hs]; exact h1
  · rw [hs, hj]; exact h2
  · rw [hs, hn]; exact h3
  · rw [hs]; exact h4
  · rw [hq]; exact h5
  · rw [hs]; exact h6

theorem Logged.writeJournal (hl : Logged sb h tail) (bs : List (Block D)) :
    Logged (writeJournal sb bs) h (tail ++ bs) := by
  have hat := hl.toAtLog.writeJournal bs
  rw [List.append_assoc] at hat
  refine ⟨hat, ?_, ?_, ?_, hl.numbered, hl.sectors⟩
  · rw [writeJournal_journalSize]; exact hl.size_lt
  · rw [writeJournal_sequence]; exact hl.sequence
  · rw [writeJournal_journalSize]; exact hl.full

/-- What follows the journal writes of a commit does not touch the journal. -/
theorem recordCommit_pushDefer (sb : Sb D) :
    (recordCommit (pushDefer sb)).journal = sb.journal ∧ (recordCommit (pushDefer sb)).image = sb.image := by
  unfold pushDefer; split <;> exact ⟨rfl, rfl⟩

/-- A commit adds the open transaction to the log. -/
theorem Logged.logTransaction (hl : Logged sb h []) (barrier : Bool) :
    Logged (logTransaction sb barrier) (h ++ [openTxn sb barrier]) [] := by
  have hw := hl.writeJournal (transactionBlocks sb barrier)
  have hlog : logOf (h ++ [openTxn sb barrier]) = logOf h ++ transactionBlocks sb barrier := by
    rw [logOf_append, logOf_singleton, transactionBlocks_eq]
  unfold Ddsnap.logTransaction
  refine ⟨⟨?_, ?_, ?_⟩, ?_, ?_, ?_, ?_, ?_⟩
  · simp only [(recordCommit_pushDefer _).2]; exact hw.size_pos
  · simp only [(recordCommit_pushDefer _).1, (recordCommit_pushDefer _).2, hlog, List.append_nil]
    simpa using hw.holds
  · simp only [(recordCommit_pushDefer _).2, hlog, List.append_nil]
    simpa using hw.next
  · simp only [(recordCommit_pushDefer _).2]; exact hw.size_lt
  · simp only [(recordCommit_pushDefer _).2, writeJournal_sequence, hl.sequence, List.length_append,
      List.length_singleton]
    omega
  · simp only [(recordCommit_pushDefer _).2, writeJournal_journalSize, logOf_append, List.length_append]
    have := hl.full
    omega
  · intro i t ht
    by_cases hi : i < h.length
    · rw [List.getElem?_append_left hi] at ht
      exact hl.numbered i t ht
    · have hi' : i = h.length := by
        obtain ⟨hlt, -⟩ := List.getElem?_eq_some_iff.1 ht
        simp at hlt; omega
      subst hi'
      simp at ht
      subst ht
      show (newCommit sb barrier).sequence = _
      rw [newCommit_sequence, hl.sequence]
  · intro t ht
    rcases List.mem_append.1 ht with ht | ht
    · exact hl.sectors t ht
    · rw [List.mem_singleton] at ht
      subst ht
      simp [openTxn, Function.comp_def]

private theorem logOf_initTxns (sb : Sb D) :
    logOf (initTxns sb) = (List.range sb.image.journalSize).map fun i => .commit (initCommit sb i) := by
  simp only [logOf, initTxns, List.flatMap_map, Txn.blocks, List.map_nil, List.nil_append]
  rw [← List.map_eq_flatMap]

/-- The journal that `init_journal` leaves is the log of its commit blocks. -/
theorem logged_initJournal (hpos : 0 < sb.image.journalSize) (hlt : sb.image.journalSize < 2 ^ 31)
    (hn : sb.image.journalNext = 0) (hq : sb.image.sequence = sb.image.journalSize) :
    Logged (initJournal sb) (initTxns sb) [] := by
  have hat : AtLog sb [] := ⟨hpos, RingLog.Holds.nil _ _, by rw [hn]; simp⟩
  have hw := hat.writeJournal (logOf (initTxns sb))
  rw [List.nil_append, ← List.append_nil (logOf _), logOf_initTxns] at hw
  have hsize : (initJournal sb).image.journalSize = sb.image.journalSize := writeJournal_journalSize _ _
  refine ⟨?_, ?_, ?_, ?_, ?_, ?_⟩
  · rw [logOf_initTxns]; simpa [initJournal] using hw
  · rw [hsize]; exact hlt
  · simp only [initJournal, writeJournal_sequence, hq, initTxns, List.length_map, List.length_range]
    omega
  · rw [hsize, logOf_initTxns]; simp
  · intro i t ht
    simp only [initTxns, List.getElem?_map, Option.map_eq_some_iff] at ht
    obtain ⟨j, hj, rfl⟩ := ht
    obtain ⟨hi, hj⟩ := List.getElem?_eq_some_iff.1 hj
    simp at hj hi
    subst hj
    show i = i % 2 ^ 32
    omega
  · intro t ht
    simp only [initTxns, List.mem_map] at ht
    obtain ⟨i, -, rfl⟩ := ht
    rfl

end

end Ddsnap
