import Ddsnap.Allocation
import Ddsnap.CopyOrder

/-!
# Commits on a failing disk

Two things a disk can do to `commit_transaction`.  It can return a commit block with a changed word: the sum of
`checksum_block` notices a change exactly in the words that it covers, and it covers `allocsize_bits >> 2` of them
(`checksumWords_set`, `newCommit_protects_iff`).  And it can fail block writes: `commitWrites` is `commit_transaction`
with the outcome of every write given.  A failed write to the journal is passed over, a failed write of a journaled
buffer to its home is passed over too and the buffer is marked clean, and a failed write of a dirty buffer to its home
is made again until it succeeds (`commitWrites_safe_iff`).
-/

namespace Ddsnap

variable {D : Type}

/-! ### Changed words -/

/-- `checksum_block` on the words of a block. -/
def checksumWords (bits : Nat) (words : List Nat) : Nat := (words.take (bits / 4)).sum % 2 ^ 32

/-- The words pass the test of `replay_journal`, and fail it after any change of one word behind the magic. -/
def Protects (bits : Nat) (words : List Nat) : Prop :=
  checksumWords bits words = 0 ∧
    ∀ k w, jmagic.length ≤ k → k < words.length → w % 2 ^ 32 ≠ words.getD k 0 % 2 ^ 32 →
      checksumWords bits (words.set k w) ≠ 0

private theorem sum_set (words : List Nat) (k w : Nat) (hk : k < words.length) :
    (words.set k w).sum + words.getD k 0 = words.sum + w := by
  induction words generalizing k with
  | nil => simp at hk
  | cons x words ih =>
    cases k with
    | zero => simp only [List.set_cons_zero, List.sum_cons, List.getD_cons_zero]; omega
    | succ k =>
      have := ih k (by simpa using hk)
      simp only [List.set_cons_succ, List.sum_cons, List.getD_cons_succ]
      omega

private theorem checksumWords_set_behind {bits k : Nat} (words : List Nat) (w : Nat) (hk : bits / 4 ≤ k) :
    checksumWords bits (words.set k w) = checksumWords bits words := by
  rw [checksumWords, List.take_set_of_le hk]
  rfl

private theorem checksumWords_set {bits k w : Nat} {words : List Nat} (hk : k < words.length) (hb : k < bits / 4)
    (hw : w % 2 ^ 32 ≠ words.getD k 0 % 2 ^ 32) :
    checksumWords bits (words.set k w) ≠ checksumWords bits words := by
  have hlen : k < (words.take (bits / 4)).length := by rw [List.length_take]; omega
  have hsum := sum_set (words.take (bits / 4)) k w hlen
  have hget : (words.take (bits / 4)).getD k 0 = words.getD k 0 := by
    rw [List.getD_eq_getElem?_getD, List.getD_eq_getElem?_getD, List.getElem?_take_of_lt hb]
  rw [hget] at hsum
  rw [checksumWords, checksumWords, List.take_set]
  omega

private theorem protects_iff {bits : Nat} {words : List Nat} (hlen : jmagic.length < words.length) :
    Protects bits words ↔ checksumWords bits words = 0 ∧ words.length ≤ bits / 4 := by
  refine and_congr_right fun hpass => ⟨fun h => ?_, fun hle k w _ hk hw => ?_⟩
  · by_contra hlt
    -- The first word behind the sum that is not part of the magic.
    have hk : max jmagic.length (bits / 4) < words.length := by omega
    refine h _ (words.getD (max jmagic.length (bits / 4)) 0 + 1) (Nat.le_max_left _ _) hk (by omega) ?_
    rw [checksumWords_set_behind _ _ (Nat.le_max_right _ _), hpass]
  · rw [← hpass]
    exact checksumWords_set hk (by omega) hw

private theorem newCommit_range (sb : Sb D) (barrier : Bool) : (newCommit sb barrier).alloc =
    ⟨if sb.defer.count = 0 then 0 else sb.defer.chunk, sb.defer.count, barrier⟩ := by
  unfold newCommit
  cases barrier <;> by_cases hd : sb.defer.count = 0 <;> simp [hd]

private theorem flatMap_words64_length (l : List Nat) : (l.flatMap words64).length = 2 * l.length := by
  induction l with
  | nil => rfl
  | cons s l ih =>
    rw [List.flatMap_cons, List.length_append, ih]
    simp only [words64, List.length_cons, List.length_nil]
    omega

private theorem newCommit_words_length (sb : Sb D) (barrier : Bool) :
    (newCommit sb barrier).words.length = 13 + 2 * sb.dirtyBuffers.length := by
  have hsec : (newCommit sb barrier).sector = sb.dirtyBuffers := by
    unfold newCommit; split <;> split <;> rfl
  rw [words_eq, hsec]
  simp only [lateWords, words64, List.length_cons, List.length_append, List.length_nil, flatMap_words64_length]
  omega

/-- The checksum protects a commit block exactly when it covers the whole of it and the words that are filled in after
it was taken add up to zero.  No block that a disk has is large enough: the first 13 words need `2 ^ 52` bytes. -/
theorem newCommit_protects_iff (sb : Sb D) (barrier : Bool) :
    Protects sb.image.metadata.allocsizeBits (newCommit sb barrier).words ↔
      13 + 2 * sb.dirtyBuffers.length ≤ sb.image.metadata.allocsizeBits / 4 ∧
      lateSum sb.image.metadata.allocsizeBits sb.image.snapdata.freechunks sb.image.metadata.freechunks
        ⟨if sb.defer.count = 0 then 0 else sb.defer.chunk, sb.defer.count, barrier⟩ = 0 := by
  have hlen := newCommit_words_length sb barrier
  rw [protects_iff (by rw [hlen, jmagic, List.length_cons, List.length_singleton]; omega), hlen, and_comm]
  refine and_congr_right fun hle => ?_
  rw [← newCommit_range, ← checksumBlock_newCommit sb barrier (by omega)]
  rfl

/-- The small store with a journal of four blocks, some dirty buffers and some journaled ones. -/
def openStore (deferring : Bool) (dirty journaled : List Nat) : Sb Nat :=
  { smallStore 4 deferring with dirtyBuffers := dirty, journaledBuffers := journaled }

/-- With blocks of 4096 bytes three words are summed: the free count in word 5 can be changed without notice. -/
theorem freechunks_unprotected :
    checksumWords 12 (newCommit (openStore false [5] []) false).words = 0 ∧
    (newCommit (openStore false [5] []) false).words.getD 5 0 = 0 ∧
    checksumWords 12 ((newCommit (openStore false [5] []) false).words.set 5 1) = 0 ∧
    ¬ Protects 12 (newCommit (openStore false [5] []) false).words := by
  have hrun : checksumWords 12 (newCommit (openStore false [5] []) false).words = 0 ∧
      (newCommit (openStore false [5] []) false).words.getD 5 0 = 0 ∧
      checksumWords 12 ((newCommit (openStore false [5] []) false).words.set 5 1) = 0 ∧
      5 < (newCommit (openStore false [5] []) false).words.length := by
    decide +kernel
  obtain ⟨hpass, hword, hset, hlen⟩ := hrun
  exact ⟨hpass, hword, hset, fun h => h.2 5 1 (by decide) hlen (by rw [hword]; decide) hset⟩

/-! ### Failing writes -/

/-- A commit in progress on a disk that may fail: how many blocks were written so far, and, newest first, the blocks
that were marked clean with the outcome of the home write before. -/
structure Writing (D : Type) where
  sb : Sb D
  writes : Nat
  cleaned : List (Nat × Bool)

/-- `write_buffer_to` with the home of the buffer, where `ok` has the outcome of every write.  A failed write leaves
the block as it was. -/
def homeWrite (ok : Nat → Bool) (st : Writing D) (s : Nat) : Writing D :=
  { st with
    sb := if ok st.writes then
        { st.sb with
          dev := Function.update st.sb.dev .metadev (Function.update (st.sb.dev .metadev) s (st.sb.mem s)) }
      else st.sb
    writes := st.writes + 1 }

/-- The loop of `flush_journaled_buffers`: every buffer is marked clean after its write, whatever the outcome. -/
def flushWrites (ok : Nat → Bool) : List Nat → Writing D → Writing D
  | [], st => st
  | s :: journaled, st =>
    let st1 := homeWrite ok st s
    flushWrites ok journaled
      { st1 with
        sb := { st1.sb with journaledBuffers := journaled }
        cleaned := (s, ok st.writes) :: st.cleaned }

/-- The flush at the start of `commit_transaction`. -/
def flushWritesIfNeeded (ok : Nat → Bool) (st : Writing D) : Writing D :=
  if st.sb.mustFlush then
    let st := flushWrites ok st.sb.journaledBuffers st
    { st with sb := flushDeferredAllocs st.sb }
  else st

/-- Blocks are written to the journal, one after the other.  A failed write leaves the block as it was, and the next
one goes to the next position. -/
def journalWrites (ok : Nat → Bool) : List (Block D) → Writing D → Writing D
  | [], st => st
  | b :: bs, st =>
    let (pos, sb1) := nextJournalBlock st.sb
    journalWrites ok bs
      { st with
        sb := if ok st.writes then { sb1 with journal := Function.update sb1.journal pos b } else sb1
        writes := st.writes + 1 }

/-- The dirty blocks and the commit block go to the journal.  The transaction is on disk when all of them are. -/
def logWrites (ok : Nat → Bool) (st : Writing D) (barrier : Bool) : Writing D :=
  let blocks := transactionBlocks st.sb barrier
  let st1 := journalWrites ok blocks st
  let sb := pushDefer { st1.sb with
    image := { st1.sb.image with sequence := (st1.sb.image.sequence + 1) % 2 ^ 32 } }
  { st1 with sb := if (List.range blocks.length).all fun i => ok (st.writes + i) then recordCommit sb else sb }

/-- The loop that writes the dirty buffers to their homes, with a bound on its rounds: `write_buffer` takes a buffer off
the dirty list when its write succeeds, and the next round writes the first buffer of the list. -/
def homeLoop (ok : Nat → Bool) : Nat → Writing D → Option (Writing D)
  | 0, _ => none
  | rounds + 1, st =>
    match st.sb.dirtyBuffers with
    | [] => some st
    | s :: dirty =>
      let st1 := homeWrite ok st s
      if ok st.writes then
        homeLoop ok rounds
          { st1 with sb := { st1.sb with dirtyBuffers := dirty }, cleaned := (s, true) :: st.cleaned }
      else homeLoop ok rounds st1

/-- What happens to the dirty buffers after the commit block. -/
def retireWrites (ok : Nat → Bool) (rounds : Nat) (st : Writing D) (barrier : Bool) : Option (Writing D) :=
  if st.sb.deferring ∧ barrier = false then
    some { st with sb := { st.sb with
      journaledBuffers := st.sb.journaledBuffers ++ st.sb.dirtyBuffers, dirtyBuffers := [] } }
  else homeLoop ok rounds st

/-- `commit_transaction` with the outcome of every block write.  `none` stands for the assertion on the number of
entries of a commit block, or for a loop of more than `rounds` rounds. -/
def commitWrites (ok : Nat → Bool) (rounds : Nat) (sb : Sb D) (barrier : Bool) : Option (Writing D) :=
  if sb.dirtyBuffers = [] ∧ sb.defer.count = 0 then some ⟨sb, 0, []⟩
  else
    let st := flushWritesIfNeeded ok ⟨sb, 0, []⟩
    let barrier := barrier || sb.mustFlush
    if st.sb.dirtyBuffers.length ≤ st.sb.maxCommitBlocks then
      retireWrites ok rounds (logWrites ok st barrier) barrier
    else none

/-- `commit_transaction` returns, and marks no block clean whose home write failed. -/
def CommitSafe (ok : Nat → Bool) (sb : Sb D) (barrier : Bool) : Prop :=
  ∃ rounds st, commitWrites ok rounds sb barrier = some st ∧ ∀ p ∈ st.cleaned, p.2 = true

/-- The number of writes that succeed among `n` writes from the one with number `start` on. -/
def successes (ok : Nat → Bool) (start n : Nat) : Nat := (List.range n).countP fun i => ok (start + i)

private theorem successes_succ (ok : Nat → Bool) (start n : Nat) :
    successes ok start (n + 1) = (if ok start then 1 else 0) + successes ok (start + 1) n := by
  unfold successes
  rw [List.range_succ_eq_map, List.countP_cons, List.countP_map, Nat.add_comm]
  congr 1
  exact List.countP_congr fun i _ => by simp only [Function.comp_apply]; rw [Nat.add_right_comm, Nat.add_assoc]

section
variable {ok : Nat → Bool} {st st' : Writing D}

@[simp] theorem homeWrite_writes (s : Nat) : (homeWrite ok st s).writes = st.writes + 1 := rfl

@[simp] theorem homeWrite_dirtyBuffers (s : Nat) : (homeWrite ok st s).sb.dirtyBuffers = st.sb.dirtyBuffers := by
  unfold homeWrite
  split <;> rfl

/-! ### The flush -/

private theorem flushWrites_writes (l : List Nat) (st : Writing D) :
    (flushWrites ok l st).writes = st.writes + l.length := by
  induction l generalizing st with
  | nil => rfl
  | cons s l ih =>
    rw [flushWrites, ih]
    simp only [homeWrite_writes, List.length_cons]
    omega

/-- The flush marks a block clean after a failed write unless all of its writes succeed. -/
private theorem flushWrites_cleaned (l : List Nat) (st : Writing D) :
    (∀ p ∈ (flushWrites ok l st).cleaned, p.2 = true) ↔
      (∀ p ∈ st.cleaned, p.2 = true) ∧ ∀ i < l.length, ok (st.writes + i) = true := by
  induction l generalizing st with
  | nil => simp [flushWrites]
  | cons s l ih =>
    rw [flushWrites, ih]
    simp only [homeWrite_writes, List.forall_mem_cons, List.length_cons]
    constructor
    · rintro ⟨⟨hs, hst⟩, hl⟩
      refine ⟨hst, fun i hi => ?_⟩
      cases i with
      | zero => exact hs
      | succ i => rw [← Nat.add_assoc, Nat.add_right_comm]; exact hl i (by omega)
    · rintro ⟨hst, hl⟩
      refine ⟨⟨hl 0 (by omega), hst⟩, fun i hi => ?_⟩
      rw [Nat.add_right_comm, Nat.add_assoc]
      exact hl (i + 1) (by omega)

private theorem flushWrites_sb (l : List Nat) (st : Writing D) (hl : st.sb.journaledBuffers = l)
    (hok : ∀ i < l.length, ok (st.writes + i) = true) : (flushWrites ok l st).sb = flushJournaledBuffers st.sb := by
  induction l generalizing st with
  | nil => rw [flushWrites, flushJournaledBuffers, hl, writeHome, List.foldl_nil, Function.update_eq_self, ← hl]
  | cons s l ih =>
    have hs : ok st.writes = true := hok 0 (Nat.succ_pos _)
    rw [flushWrites, ih _ rfl]
    · simp only [flushJournaledBuffers, homeWrite, hs, if_true, hl]
      congr 1
      rw [Function.update_self, Function.update_idem]
      rfl
    · intro i hi
      rw [homeWrite_writes, Nat.add_right_comm, Nat.add_assoc]
      exact hok (i + 1) (Nat.succ_lt_succ hi)

/-! ### The journal -/

private theorem journalWrites_same (ok : Nat → Bool) (bs : List (Block D)) (st : Writing D) :
    (journalWrites ok bs st).writes = st.writes + bs.length ∧ (journalWrites ok bs st).cleaned = st.cleaned ∧
      (journalWrites ok bs st).sb.dirtyBuffers = st.sb.dirtyBuffers ∧
      (journalWrites ok bs st).sb.deferring = st.sb.deferring := by
  induction bs generalizing st with
  | nil => exact ⟨rfl, rfl, rfl, rfl⟩
  | cons b bs ih =>
    obtain ⟨hw, hc, hd, hf⟩ := ih
      { st with
        sb := if ok st.writes then
            { (nextJournalBlock st.sb).2 with
              journal := Function.update (nextJournalBlock st.sb).2.journal (nextJournalBlock st.sb).1 b }
          else (nextJournalBlock st.sb).2
        writes := st.writes + 1 }
    refine ⟨hw.trans ?_, hc, hd.trans ?_, hf.trans ?_⟩
    · rw [List.length_cons, Nat.add_assoc, Nat.add_comm 1]
    · dsimp only; split <;> rfl
    · dsimp only; split <;> rfl

private theorem journalWrites_sb (bs : List (Block D)) (st : Writing D)
    (hok : ∀ i < bs.length, ok (st.writes + i) = true) : (journalWrites ok bs st).sb = writeJournal st.sb bs := by
  induction bs generalizing st with
  | nil => rfl
  | cons b bs ih =>
    have hs : ok st.writes = true := hok 0 (Nat.succ_pos _)
    rw [journalWrites, ih]
    · simp only [hs, if_true]
      rfl
    · intro i hi
      rw [Nat.add_right_comm, Nat.add_assoc]
      exact hok (i + 1) (Nat.succ_lt_succ hi)

private theorem transactionBlocks_length (sb : Sb D) (barrier : Bool) :
    (transactionBlocks sb barrier).length = sb.dirtyBuffers.length + 1 := by
  simp [transactionBlocks]

private theorem pushDefer_same (sb : Sb D) : (pushDefer sb).dirtyBuffers = sb.dirtyBuffers ∧
    (pushDefer sb).deferring = sb.deferring := by
  unfold pushDefer
  split <;> exact ⟨rfl, rfl⟩

private theorem logWrites_same (ok : Nat → Bool) (st : Writing D) (barrier : Bool) :
    (logWrites ok st barrier).writes = st.writes + (st.sb.dirtyBuffers.length + 1) ∧
      (logWrites ok st barrier).cleaned = st.cleaned ∧
      (logWrites ok st barrier).sb.dirtyBuffers = st.sb.dirtyBuffers ∧
      (logWrites ok st barrier).sb.deferring = st.sb.deferring := by
  obtain ⟨hw, hc, hd, hf⟩ := journalWrites_same ok (transactionBlocks st.sb barrier) st
  rw [transactionBlocks_length] at hw
  refine ⟨hw, hc, ?_, ?_⟩
  · rw [← hd]
    simp only [logWrites]
    split
    · exact (pushDefer_same _).1
    · exact (pushDefer_same _).1
  · rw [← hf]
    simp only [logWrites]
    split
    · exact (pushDefer_same _).2
    · exact (pushDefer_same _).2

private theorem logWrites_sb (st : Writing D) (barrier : Bool)
    (hok : ∀ n, ok n = true) : (logWrites ok st barrier).sb = logTransaction st.sb barrier := by
  simp only [logWrites, hok, List.all_eq_true, implies_true, if_true,
    journalWrites_sb (transactionBlocks st.sb barrier) st fun i _ => hok _]
  rfl

/-! ### The loop of the home writes -/

/-- The loop returns when as many writes succeed as there are dirty blocks. -/
private theorem homeLoop_returns (n : Nat) (st : Writing D)
    (h : st.sb.dirtyBuffers.length ≤ successes ok st.writes n) : ∃ st', homeLoop ok (n + 1) st = some st' := by
  induction n generalizing st with
  | zero =>
    have hnil : st.sb.dirtyBuffers = [] := List.eq_nil_of_length_eq_zero (Nat.le_zero.1 h)
    exact ⟨st, by rw [homeLoop, hnil]⟩
  | succ n ih =>
    rw [successes_succ] at h
    rw [homeLoop]
    split
    · exact ⟨st, rfl⟩
    · rename_i s dirty hd
      rw [hd, List.length_cons] at h
      dsimp only
      split
      · rename_i hs
        rw [if_pos hs] at h
        exact ih _ (by dsimp only [homeWrite_writes]; omega)
      · rename_i hs
        rw [if_neg hs] at h
        exact ih _ (by rw [homeWrite_dirtyBuffers, hd, homeWrite_writes, List.length_cons]; omega)

/-- When the loop has returned, as many writes have succeeded as there were dirty blocks, and only their blocks were
marked clean. -/
private theorem homeLoop_done (n : Nat) (st : Writing D) (h : homeLoop ok n st = some st') :
    st.sb.dirtyBuffers.length ≤ successes ok st.writes n ∧
      ((∀ p ∈ st'.cleaned, p.2 = true) ↔ ∀ p ∈ st.cleaned, p.2 = true) := by
  induction n generalizing st with
  | zero => cases h
  | succ n ih =>
    rw [homeLoop] at h
    rw [successes_succ]
    split at h
    · rename_i hd
      cases h
      exact ⟨by rw [hd]; exact Nat.zero_le _, Iff.rfl⟩
    · rename_i s dirty hd
      dsimp only at h
      rw [hd, List.length_cons]
      split at h
      · rename_i hs
        obtain ⟨hle, hclean⟩ := ih _ h
        refine ⟨?_, hclean.trans ?_⟩
        · rw [if_pos hs]
          dsimp only [homeWrite_writes] at hle
          omega
        · simp
      · rename_i hs
        obtain ⟨hle, hclean⟩ := ih _ h
        rw [homeWrite_dirtyBuffers, homeWrite_writes, hd, List.length_cons] at hle
        exact ⟨by omega, hclean⟩

private theorem homeLoop_sb (hok : ∀ n, ok n = true) (l : List Nat) (st : Writing D) (hl : st.sb.dirtyBuffers = l) :
    (homeLoop ok (l.length + 1) st).map Writing.sb = some { st.sb with
      dev := Function.update st.sb.dev .metadev (writeHome (st.sb.dev .metadev) st.sb.mem l)
      dirtyBuffers := [] } := by
  induction l generalizing st with
  | nil =>
    have hdone : homeLoop ok 1 st = some st := by rw [homeLoop, hl]
    rw [List.length_nil, Nat.zero_add, hdone, writeHome, List.foldl_nil, Function.update_eq_self, ← hl]
    rfl
  | cons s l ih =>
    rw [List.length_cons, homeLoop, hl]
    dsimp only
    rw [if_pos (hok _), ih _ rfl]
    simp only [homeWrite, hok, if_true, Function.update_self, Function.update_idem]
    rfl

/-! ### The commit -/

private theorem flushWritesIfNeeded_writes (sb : Sb D) : (flushWritesIfNeeded ok ⟨sb, 0, []⟩).writes =
    if sb.mustFlush then sb.journaledBuffers.length else 0 := by
  unfold flushWritesIfNeeded
  split
  · exact (flushWrites_writes _ _).trans (Nat.zero_add _)
  · rfl

private theorem flushWritesIfNeeded_cleaned (ok : Nat → Bool) (sb : Sb D) :
    (∀ p ∈ (flushWritesIfNeeded ok ⟨sb, 0, []⟩).cleaned, p.2 = true) ↔
      (sb.mustFlush = true → ∀ i < sb.journaledBuffers.length, ok i = true) := by
  unfold flushWritesIfNeeded
  split
  · rename_i hm
    refine (flushWrites_cleaned _ _).trans ?_
    simp [show sb.mustFlush = true from hm]
  · rename_i hm
    simp [show ¬ sb.mustFlush = true from hm]

private theorem flushWritesIfNeeded_sb {sb : Sb D}
    (hok : sb.mustFlush = true → ∀ i < sb.journaledBuffers.length, ok i = true) :
    (flushWritesIfNeeded ok ⟨sb, 0, []⟩).sb = flushIfNeeded sb := by
  unfold flushWritesIfNeeded flushIfNeeded
  split
  · rename_i hm
    dsimp only
    rw [flushWrites_sb sb.journaledBuffers ⟨sb, 0, []⟩ rfl]
    intro i hi
    rw [Nat.zero_add]
    exact hok hm i hi
  · rfl

/-- Without a failing write this is `commit_transaction`. -/
theorem commitWrites_sb (hok : ∀ n, ok n = true) (sb : Sb D) (barrier : Bool) :
    ∃ rounds, (commitWrites ok rounds sb barrier).map Writing.sb = commitTransaction sb barrier := by
  refine ⟨(flushIfNeeded sb).dirtyBuffers.length + 1, ?_⟩
  unfold commitWrites commitTransaction
  dsimp only
  rw [flushWritesIfNeeded_sb fun _ i _ => hok i]
  split
  · rfl
  split
  · generalize hst : logWrites ok (flushWritesIfNeeded ok ⟨sb, 0, []⟩) (barrier || sb.mustFlush) = st
    have hsb : st.sb = logTransaction (flushIfNeeded sb) (barrier || sb.mustFlush) := by
      rw [← hst, logWrites_sb _ _ hok, flushWritesIfNeeded_sb fun _ i _ => hok i]
    have hd : st.sb.dirtyBuffers = (flushIfNeeded sb).dirtyBuffers := by
      rw [← hst, (logWrites_same _ _ _).2.2.1, flushWritesIfNeeded_sb fun _ i _ => hok i]
    rw [← hsb]
    unfold retireWrites retireDirty
    split
    · rfl
    · rw [homeLoop_sb hok _ st hd, hd]
  · rfl

private theorem commitWrites_unflushed {sb : Sb D} {rounds : Nat} {barrier : Bool} (hopen : sb.dirtyBuffers ≠ [])
    (hflush : sb.mustFlush = false) (hmax : sb.dirtyBuffers.length ≤ sb.maxCommitBlocks) :
    commitWrites ok rounds sb barrier = retireWrites ok rounds (logWrites ok ⟨sb, 0, []⟩ barrier) barrier := by
  unfold commitWrites flushWritesIfNeeded
  dsimp only
  rw [if_neg (fun h => hopen h.1), hflush, Bool.or_false, if_neg Bool.false_ne_true, if_pos hmax]

private theorem retireWrites_safe_iff (st : Writing D) (barrier : Bool) :
    (∃ rounds st', retireWrites ok rounds st barrier = some st' ∧ ∀ p ∈ st'.cleaned, p.2 = true) ↔
      (∀ p ∈ st.cleaned, p.2 = true) ∧
      ((st.sb.deferring = true ∧ barrier = false) ∨ ∃ n, st.sb.dirtyBuffers.length ≤ successes ok st.writes n) := by
  unfold retireWrites
  by_cases hdefer : st.sb.deferring = true ∧ barrier = false
  · simp only [hdefer, true_or, and_true]
    exact ⟨fun ⟨_, _, h, hc⟩ => by cases h; exact hc, fun hc => ⟨0, _, rfl, hc⟩⟩
  · simp only [hdefer, false_or]
    constructor
    · rintro ⟨rounds, st', h, hc⟩
      obtain ⟨hle, hclean⟩ := homeLoop_done rounds st h
      exact ⟨hclean.1 hc, rounds, hle⟩
    · rintro ⟨hc, n, hle⟩
      obtain ⟨st', h⟩ := homeLoop_returns n st hle
      exact ⟨n + 1, st', h, (homeLoop_done _ st h).2.2 hc⟩

end

private theorem flushDeferredAllocs_core (sb : Sb D) : (flushDeferredAllocs sb).core = sb.core := by
  rw [flushDeferredAllocs_eq]
  generalize sb.deferredAlloc.flatMap AllocRange.chunks = L
  show (L.foldl _ sb).core = sb.core
  induction L generalizing sb with
  | nil => rfl
  | cons c L ih => exact (ih _).trans (sb.put_core _ _)

private theorem flushIfNeeded_core (sb : Sb D) : (flushIfNeeded sb).core = sb.core := by
  unfold flushIfNeeded
  split
  · exact flushDeferredAllocs_core (flushJournaledBuffers sb)
  · rfl

/-- `commit_transaction` returns and marks only written blocks clean exactly when the home writes of its flush succeed,
its blocks fit into one commit block, and it defers the home writes or as many of them succeed as there are dirty
blocks: a block whose home write always fails is written again forever. -/
theorem commitWrites_safe_iff (ok : Nat → Bool) (sb : Sb D) (barrier : Bool) : CommitSafe ok sb barrier ↔
    (sb.dirtyBuffers = [] ∧ sb.defer.count = 0) ∨
    ((sb.mustFlush = true → ∀ i < sb.journaledBuffers.length, ok i = true) ∧
      (flushIfNeeded sb).dirtyBuffers.length ≤ sb.maxCommitBlocks ∧
      ((sb.deferring = true ∧ barrier = false ∧ sb.mustFlush = false) ∨
        ∃ n, (flushIfNeeded sb).dirtyBuffers.length ≤
          successes ok ((if sb.mustFlush then sb.journaledBuffers.length else 0) +
            ((flushIfNeeded sb).dirtyBuffers.length + 1)) n)) := by
  by_cases hidle : sb.dirtyBuffers = [] ∧ sb.defer.count = 0
  · exact iff_of_true ⟨0, ⟨sb, 0, []⟩, if_pos hidle, by simp⟩ (.inl hidle)
  rw [or_iff_right hidle, ← flushWritesIfNeeded_cleaned]
  have hmax : (flushIfNeeded sb).maxCommitBlocks = sb.maxCommitBlocks :=
    congrArg Core.maxCommitBlocks (flushIfNeeded_core sb)
  have hdefer : (flushIfNeeded sb).deferring = sb.deferring := congrArg Core.deferring (flushIfNeeded_core sb)
  have hbarrier : (barrier || sb.mustFlush) = false ↔ barrier = false ∧ sb.mustFlush = false := by simp
  -- The part after the flush, for a flush without failures.
  have hlog : (∀ p ∈ (flushWritesIfNeeded ok ⟨sb, 0, []⟩).cleaned, p.2 = true) →
      ((∃ rounds st, retireWrites ok rounds
          (logWrites ok (flushWritesIfNeeded ok ⟨sb, 0, []⟩) (barrier || sb.mustFlush)) (barrier || sb.mustFlush) =
          some st ∧ ∀ p ∈ st.cleaned, p.2 = true) ↔
        (sb.deferring = true ∧ barrier = false ∧ sb.mustFlush = false) ∨
        ∃ n, (flushIfNeeded sb).dirtyBuffers.length ≤
          successes ok ((if sb.mustFlush then sb.journaledBuffers.length else 0) +
            ((flushIfNeeded sb).dirtyBuffers.length + 1)) n) := by
    intro hclean
    obtain ⟨hw, hc, hd, hf⟩ :=
      logWrites_same ok (flushWritesIfNeeded ok ⟨sb, 0, []⟩) (barrier || sb.mustFlush)
    rw [retireWrites_safe_iff, hw, hc, hd, hf, flushWritesIfNeeded_writes,
      flushWritesIfNeeded_sb ((flushWritesIfNeeded_cleaned ok sb).1 hclean), hdefer, hbarrier]
    exact and_iff_right hclean
  have hsb := fun hclean => flushWritesIfNeeded_sb ((flushWritesIfNeeded_cleaned ok sb).1 hclean)
  unfold CommitSafe commitWrites
  simp only [if_neg hidle]
  constructor
  · rintro ⟨rounds, st, h, hc⟩
    split at h
    · rename_i hlen
      have hclean := ((logWrites_same _ _ _).2.1 ▸ ((retireWrites_safe_iff _ _).1 ⟨rounds, st, h, hc⟩).1)
      rw [hsb hclean, hmax] at hlen
      exact ⟨hclean, hlen, (hlog hclean).1 ⟨rounds, st, h, hc⟩⟩
    · cases h
  · rintro ⟨hclean, hlen, hrest⟩
    obtain ⟨rounds, st, h, hc⟩ := (hlog hclean).2 hrest
    exact ⟨rounds, st, by rw [hsb hclean, hmax, if_pos hlen]; exact h, hc⟩

/-- The home write of block 5 always fails: the commit writes it again in every round.  And the home write of the
journaled block 5 fails in the flush before a commit of block 7: the commit returns, and block 5 is marked clean. -/
theorem failed_home_writes :
    (∀ rounds, commitWrites (fun n => n < 2) rounds (openStore false [5] []) false = none) ∧
    (commitWrites (fun n => 0 < n) 4 (openStore true [7] [5, 6]) false).map Writing.cleaned =
      some [(7, true), (6, true), (5, false)] := by
  refine ⟨fun rounds => ?_, by decide +kernel⟩
  generalize hok : (fun n : Nat => decide (n < 2)) = ok
  obtain ⟨hw, -, hd, hf⟩ := logWrites_same ok ⟨openStore false [5] [], 0, []⟩ false
  rw [commitWrites_unflushed (by decide) (by decide) (by decide), retireWrites, if_neg (by rw [hf]; decide)]
  by_contra hne
  obtain ⟨st, hst⟩ := Option.ne_none_iff_exists'.1 hne
  have hle : 1 ≤ successes ok 2 rounds := by
    have hle := (homeLoop_done rounds _ hst).1
    rw [hd, hw] at hle
    exact hle
  have hnone : successes ok 2 rounds = 0 := by
    rw [← hok, successes, List.countP_eq_zero]
    exact fun i _ hi => absurd (of_decide_eq_true hi) (by omega)
  omega

end Ddsnap
