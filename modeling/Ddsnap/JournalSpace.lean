import Mathlib.Data.List.DropRight
import Ddsnap.ReplayNewest

/-!
# Room in the journal

The journal is overwritten from its oldest block on.  With deferral the commits since the last barrier must survive
(`deferred_commits_kept`), without deferral the newest commit (`newest_commit_kept`).  `commit_transaction` checks
neither: it flushes on the numbers of deferred ranges and of journaled buffers, which do not count journal blocks, and
it bounds the size of one transaction but not of two in a row.
-/

namespace Ddsnap

variable {D : Type}

/-! ### Between two journal writes -/

/-- `commit_transaction` after `k` of its journal block writes. -/
def logging (sb : Sb D) (barrier : Bool) (k : Nat) : Sb D :=
  writeJournal (flushIfNeeded sb) ((transactionBlocks (flushIfNeeded sb) (barrier || sb.mustFlush)).take k)

section
variable {st : Journaling D} {sb sb1 : Sb D} {barrier : Bool} {h : List (Txn D)} {c : Call D} {k : Nat}

theorem Journaling.Inv.commits (hi : st.Inv) (hc : c.commits st.sb = some (sb1, barrier)) :
    Journaling.Inv ⟨sb1, st.history⟩ := by
  cases c with
  | commit => cases hc; exact hi
  | barrier => cases hc; exact (hi.edits (edits_flushDeferredAllocs hi.placed)).flushJournaled
  | check =>
    simp only [Call.commits] at hc
    split at hc
    · cases hc; exact hi
    · cases hc
  | _ => cases hc

/-- Before the commit block is written, the log of the history is followed by data blocks of the open transaction. -/
theorem Journaling.Inv.logging (hi : Journaling.Inv ⟨sb, h⟩) (barrier : Bool)
    (hk : k ≤ (Ddsnap.flushIfNeeded sb).dirtyBuffers.length) :
    ∃ init tail, Logged (Ddsnap.logging sb barrier k) (init ++ h) tail ∧ InitTxns (Ddsnap.logging sb barrier k) init ∧
      tail.length = k ∧ NoMagic tail := by
  have hi' := hi.flushIfNeeded
  obtain ⟨init, hl, hinit⟩ := hi'.logged
  have htake : (transactionBlocks (Ddsnap.flushIfNeeded sb) (barrier || sb.mustFlush)).take k =
      ((Ddsnap.flushIfNeeded sb).dirtyBuffers.take k).map (Ddsnap.flushIfNeeded sb).mem := by
    rw [transactionBlocks, List.take_append_of_le_length (by simpa using hk), List.map_take]
  refine ⟨init, (transactionBlocks (Ddsnap.flushIfNeeded sb) (barrier || sb.mustFlush)).take k, ?_, ?_, ?_, ?_⟩
  · have := hl.writeJournal ((transactionBlocks (Ddsnap.flushIfNeeded sb) (barrier || sb.mustFlush)).take k)
    rwa [List.nil_append] at this
  · exact hinit.congr (writeJournal_journalSize _ _) (by rw [Ddsnap.logging, writeJournal_eq])
  · rw [htake, List.length_map, List.length_take]; exact Nat.min_eq_left hk
  · rw [htake]
    intro b hb
    obtain ⟨s, hs, rfl⟩ := List.mem_map.1 hb
    exact hi'.buffered.noMagic s (List.mem_of_mem_take hs)

theorem InitTxns.logOf_length {init : List (Txn D)} (hinit : InitTxns sb init) :
    (logOf init).length = sb.image.journalSize := by
  rw [← hinit.length_eq]
  have hd := hinit.data
  clear hinit
  induction init with
  | nil => rfl
  | cons t init ih =>
    rw [logOf_cons, List.length_append, ih (fun u hu => hd u (List.mem_cons_of_mem _ hu)), Txn.blocks_length,
      hd t (by simp)]
    simp [Nat.add_comm]

/-- The blocks of `init_journal` fill the ring once, so positions can be counted from the first transaction after
it. -/
private theorem InitTxns.present {init : List (Txn D)} (hinit : InitTxns sb init)
    (hp : Present sb (init ++ h) (init.length + k)) : Present sb h k := by
  intro t ht j b hb
  have := hp t (by rw [List.getElem?_append_right (by omega), Nat.add_sub_cancel_left]; exact ht) j b hb
  rwa [List.take_length_add_append, logOf_append, List.length_append, hinit.logOf_length, Nat.add_assoc,
    Nat.add_mod_left] at this

private theorem Logged.present_of_init {init : List (Txn D)} {tail : List (Block D)} (hl : Logged sb (init ++ h) tail)
    (hinit : InitTxns sb init)
    (hk : (logOf h).length + tail.length ≤ (logOf (h.take k)).length + sb.image.journalSize) : Present sb h k := by
  refine hinit.present (hl.present ?_)
  rw [List.take_length_add_append]
  simp only [logOf_append, List.length_append, hinit.logOf_length]
  omega

end

/-! ### The commits since the last barrier -/

/-- The transactions after the last barrier. -/
def sinceBarrier (h : List (Txn D)) : List (Txn D) := h.rtakeWhile fun t => !t.commit.alloc.barrier

private theorem sinceBarrier_concat (h : List (Txn D)) (t : Txn D) :
    sinceBarrier (h ++ [t]) = if t.commit.alloc.barrier then [] else sinceBarrier h ++ [t] := by
  unfold sinceBarrier
  rw [List.rtakeWhile_concat]
  cases t.commit.alloc.barrier <;> rfl

/-- The transactions since the last barrier are all, or those after a barrier. -/
theorem sinceBarrier_split (h : List (Txn D)) :
    sinceBarrier h = h ∨ ∃ old b, h = old ++ b :: sinceBarrier h ∧ b.commit.alloc.barrier = true := by
  induction h using List.reverseRecOn with
  | nil => exact .inl rfl
  | append_singleton h t ih =>
    rw [sinceBarrier_concat]
    cases hb : t.commit.alloc.barrier with
    | true => exact .inr ⟨h, t, by simp, hb⟩
    | false =>
      rcases ih with ih | ⟨old, b, ih, hbar⟩
      · left; simp [ih]
      · right
        refine ⟨old, b, ?_, hbar⟩
        conv => lhs; rw [ih]
        simp

theorem sinceBarrier_noBarrier {h : List (Txn D)} {t : Txn D} (ht : t ∈ sinceBarrier h) :
    t.commit.alloc.barrier = false := by
  have := List.mem_rtakeWhile_imp ht
  simpa using this

private theorem sinceBarrier_eq_drop (h : List (Txn D)) : h.drop (h.length - (sinceBarrier h).length) =
    sinceBarrier h :=
  (List.suffix_iff_eq_drop.1 (List.rtakeWhile_suffix _ h)).symm

/-- Every commit since the last barrier is in the journal with all its data blocks. -/
def DeferredKept (sb : Sb D) (h : List (Txn D)) : Prop :=
  ∀ k, h.length - (sinceBarrier h).length ≤ k → Present sb h k

/-- The journal blocks that a commit writes before it can give up the commits since the last barrier: a barrier is
complete with its commit block. -/
def commitBlocks (sb : Sb D) (barrier : Bool) : Nat :=
  (flushIfNeeded sb).dirtyBuffers.length + if barrier || sb.mustFlush then 0 else 1

/-- The commits since the last barrier and the commit that is made fit in the journal together. -/
def FitsSinceBarrier (st : Journaling D) (c : Call D) : Prop :=
  match c.commits st.sb with
  | some (sb1, barrier) =>
    sb1.idle = false → (logOf (sinceBarrier st.history)).length + commitBlocks sb1 barrier ≤ st.sb.image.journalSize
  | none => True

instance (st : Journaling D) (c : Call D) : Decidable (FitsSinceBarrier st c) :=
  match h : c.commits st.sb with
  | some (sb1, barrier) =>
    decidable_of_iff (sb1.idle = false → (logOf (sinceBarrier st.history)).length + commitBlocks sb1 barrier ≤
      st.sb.image.journalSize) (by rw [FitsSinceBarrier, h])
  | none => isTrue (by rw [FitsSinceBarrier, h]; trivial)

section
variable {st : Journaling D} {sb sb1 : Sb D} {barrier : Bool} {h : List (Txn D)} {c : Call D} {k : Nat}

private theorem FitsSinceBarrier.le (hf : FitsSinceBarrier st c) (hc : c.commits st.sb = some (sb1, barrier))
    (hidle : sb1.idle = false) :
    (logOf (sinceBarrier st.history)).length + commitBlocks sb1 barrier ≤ st.sb.image.journalSize := by
  unfold FitsSinceBarrier at hf
  rw [hc] at hf
  exact hf hidle

private theorem Logged.deferredKept {init : List (Txn D)} {tail : List (Block D)} (hl : Logged sb (init ++ h) tail)
    (hinit : InitTxns sb init)
    (hk : (logOf (sinceBarrier h)).length + tail.length ≤ sb.image.journalSize) : DeferredKept sb h := by
  intro k hge
  refine hl.present_of_init hinit ?_
  -- what is written after transaction `k` is part of what is written since the barrier
  have h1 : (logOf h).length = (logOf (h.take (h.length - (sinceBarrier h).length))).length +
      (logOf (sinceBarrier h)).length := by
    conv => lhs; rw [← List.take_append_drop (h.length - (sinceBarrier h).length) h, sinceBarrier_eq_drop]
    rw [logOf_append, List.length_append]
  have h2 : (logOf (h.take (h.length - (sinceBarrier h).length))).length ≤ (logOf (h.take k)).length := by
    have : h.take k = h.take (h.length - (sinceBarrier h).length) ++
        (h.take k).drop (h.length - (sinceBarrier h).length) := by
      rw [← List.take_append_drop (h.length - (sinceBarrier h).length) (h.take k), List.take_take,
        Nat.min_eq_left hge]
      simp
    rw [this, logOf_append, List.length_append]
    omega
  omega

theorem Journaling.Inv.logging_geometry (hi : st.Inv) (hc : c.commits st.sb = some (sb1, barrier)) (k : Nat) :
    SameGeometry st.sb (Ddsnap.logging sb1 barrier k) := by
  have hg := Call.geometry_commits hi.placed hc
  exact (hg.trans (geometry_flushIfNeeded (hg.placed hi.placed))).trans (geometry_writeJournal _ _)

/-- A measure of the history that no commit takes beyond the size of the journal. -/
private theorem Journaling.Reached.measure_le {ok : Journaling D → Call D → Prop} {f : List (Txn D) → Nat}
    (hf : f [] ≤ 1) (hcommit : ∀ st c sb1 barrier, f st.history ≤ st.sb.image.journalSize → ok st c →
      c.commits st.sb = some (sb1, barrier) → sb1.idle = false →
        f (st.history ++ [openTxn (flushIfNeeded sb1) (barrier || sb1.mustFlush)]) ≤ st.sb.image.journalSize)
    (hr : st.Reached ok) : f st.history ≤ st.sb.image.journalSize := by
  refine (hr.invariant (I := fun st => st.Inv ∧ f st.history ≤ st.sb.image.journalSize) ?_ ?_).2
  · intro st hfresh
    have hi := hfresh.inv
    refine ⟨hi, ?_⟩
    obtain ⟨init, hl, -⟩ := hi.logged
    have hpos := hl.size_pos
    obtain ⟨sb, -, rfl⟩ := hfresh
    exact hf.trans hpos
  · rintro ⟨sb, h⟩ c st' ⟨hi, ih⟩ hfit hs
    refine ⟨hi.step hs, ?_⟩
    obtain ⟨sb', hc, rfl⟩ := Option.map_eq_some_iff.1 hs
    dsimp only at ih ⊢
    rw [(Call.geometry_step hi.placed hc).journalSize]
    cases hcom : c.commits sb with
    | none => simpa using ih
    | some p =>
      obtain ⟨sb1, barrier⟩ := p
      cases hidle : sb1.idle with
      | true => simpa [commitTxns, hidle] using ih
      | false => simpa [commitTxns, hidle] using hcommit ⟨sb, h⟩ c sb1 barrier ih hfit hcom hidle

private theorem Journaling.Reached.sinceBarrier_le (hr : st.Reached FitsSinceBarrier) :
    (logOf (sinceBarrier st.history)).length ≤ st.sb.image.journalSize := by
  refine Journaling.Reached.measure_le (f := fun h => (logOf (sinceBarrier h)).length) (by simp [sinceBarrier])
    (fun st c sb1 barrier _ hfit hcom hidle => ?_) hr
  have hle := hfit.le hcom hidle
  have hb : (openTxn (flushIfNeeded sb1) (barrier || sb1.mustFlush)).commit.alloc.barrier =
    (barrier || sb1.mustFlush) := newCommit_barrier _ _
  rw [sinceBarrier_concat, hb]
  unfold commitBlocks at hle
  cases hbar : barrier || sb1.mustFlush with
  | true => simp
  | false =>
    simp only [hbar, Bool.false_eq_true, if_false] at hle ⊢
    simp [openTxn]; omega

end

/-- In every run in which the commits since the last barrier and the commit that is made always fit in the journal
together, the commits since the last barrier are never overwritten: not between calls, and not between two journal
writes of a commit. -/
theorem deferred_commits_kept {st : Journaling D} (hr : st.Reached FitsSinceBarrier) :
    DeferredKept st.sb st.history ∧
      ∀ c sb1 barrier k, FitsSinceBarrier st c → c.commits st.sb = some (sb1, barrier) → sb1.idle = false →
        k ≤ (flushIfNeeded sb1).dirtyBuffers.length → DeferredKept (logging sb1 barrier k) st.history := by
  have hi := hr.inv
  constructor
  · obtain ⟨init, hl, hinit⟩ := hi.logged
    exact hl.deferredKept hinit (by simpa using hr.sinceBarrier_le)
  · intro c sb1 barrier k hfit hcom hidle hk
    have hi1 := hi.commits hcom
    obtain ⟨init, tail, hl, hinit, hlen, -⟩ := hi1.logging barrier hk
    refine hl.deferredKept hinit ?_
    have hle := hfit.le hcom hidle
    have hsize := (hi.logging_geometry hcom k).journalSize
    unfold commitBlocks at hle
    rw [hlen, hsize]
    omega

/-- Two commits of one block in a journal of four blocks: the next one does not fit. -/
theorem deferred_commits_kept_twice :
    (smallRun FitsSinceBarrier 4 true (Call.rounds [[5], [5]])).history.length = 2 ∧
      DeferredKept (smallRun FitsSinceBarrier 4 true (Call.rounds [[5], [5]])).sb
        (smallRun FitsSinceBarrier 4 true (Call.rounds [[5], [5]])).history :=
  ⟨by decide +kernel, (deferred_commits_kept (smallRun_reached _ (by decide) (by decide) _ _)).1⟩

/-- The small store with deferral and a journal of four blocks, after one block was edited and committed three
times. -/
def redirtiedStore : Journaling Nat := smallRun (fun _ _ => True) 4 true (Call.rounds [[5], [5], [5]])

/-- Three commits of one block: neither counter moves beyond one, and the third commit overwrites the first. -/
theorem deferred_commit_eaten : redirtiedStore.Reached (fun _ _ => True) ∧ redirtiedStore.sb.deferring = true ∧
    redirtiedStore.history.map (fun t => (t.data.map Prod.fst, t.commit.alloc.barrier)) =
      [([5], false), ([5], false), ([5], false)] ∧
    ¬ DeferredKept redirtiedStore.sb redirtiedStore.history := by
  refine ⟨smallRun_reached _ (by decide) (by decide) _ _, by decide +kernel, by decide +kernel, ?_⟩
  intro h
  have hlen : redirtiedStore.history.length - (sinceBarrier redirtiedStore.history).length ≤ 0 := by decide +kernel
  have hfirst : redirtiedStore.history[0]?.map (fun t => (t.data.length, t.commit.sequence)) = some (1, 4) := by
    decide +kernel
  obtain ⟨t, ht, he⟩ := Option.map_eq_some_iff.1 hfirst
  simp only [Prod.mk.injEq] at he
  have hcell := h 0 hlen t ht 1 (.commit t.commit) (by simp [Txn.blocks, he.1])
  have hseq : (asCommit (redirtiedStore.sb.journal 1)).map CommitBlock.sequence = some 6 := by decide +kernel
  have hpos : ((logOf (redirtiedStore.history.take 0)).length + 1) % redirtiedStore.sb.image.journalSize = 1 := by
    decide +kernel
  rw [hpos] at hcell
  rw [hcell] at hseq
  simp [asCommit, he.2] at hseq

/-! ### The newest commit -/

/-- The number of data blocks of the newest transaction. -/
def newestSize (h : List (Txn D)) : Nat := (h.getLast?.map fun t => t.data.length).getD 0

/-- The newest transaction and the data blocks of the one that is committed fit in the journal together. -/
def FitsBesideNewest (st : Journaling D) (c : Call D) : Prop :=
  match c.commits st.sb with
  | some (sb1, _) => sb1.idle = false →
    newestSize st.history + 1 + (flushIfNeeded sb1).dirtyBuffers.length ≤ st.sb.image.journalSize
  | none => True

instance (st : Journaling D) (c : Call D) : Decidable (FitsBesideNewest st c) :=
  match h : c.commits st.sb with
  | some (sb1, barrier) =>
    decidable_of_iff (sb1.idle = false → newestSize st.history + 1 + (flushIfNeeded sb1).dirtyBuffers.length ≤
      st.sb.image.journalSize) (by rw [FitsBesideNewest, h])
  | none => isTrue (by rw [FitsBesideNewest, h]; trivial)

/-- The commit that the scan of `replay_journal` takes for the newest one is the one of the newest transaction, and
the journal holds all the data blocks of that transaction at their positions. -/
def NewestIntact (sb : Sb D) (h : List (Txn D)) : Prop :=
  ∃ i pos c, gaps (scanCommits sb.journal sb.image.journalSize) = [i] ∧
    (scanCommits sb.journal sb.image.journalSize)[i]? = some (pos, c) ∧
    ∀ t, h.getLast? = some t → c = t.commit ∧ ∀ j p, t.data[j]? = some p →
      sb.journal ((pos + sb.image.journalSize - t.data.length + j) % sb.image.journalSize) = p.2

section
variable {st : Journaling D} {sb sb1 : Sb D} {barrier : Bool} {h : List (Txn D)} {c : Call D} {k : Nat}

theorem Scanned.gaps_eq {d r : Nat} (hs : Scanned sb h d r) :
    gaps (scanCommits sb.journal sb.image.journalSize) = [scanIndex h d r (h.length - 1)] := by
  have hlt := hs.lt
  have hgaps := gaps_rotation hs.rot (by rw [recent_length]; omega) (by rw [recent_length]; exact hs.small)
    hs.sequence
  rw [recent_length] at hgaps
  rw [hgaps, scanIndex, show h.length - d - 1 = h.length - 1 - d by omega]

private theorem Logged.newestIntact {init : List (Txn D)} {tail : List (Block D)} (hl : Logged sb (init ++ h) tail)
    (hinit : InitTxns sb init) (hm : ∀ t ∈ h, t.NoMagic) (ht : NoMagic tail)
    (hfit : newestSize h + 1 + tail.length ≤ sb.image.journalSize) : NewestIntact sb h := by
  have hmH : ∀ t ∈ init ++ h, t.NoMagic := by
    intro t htm
    rcases List.mem_append.1 htm with htm | htm
    · intro b hb; simp [hinit.data t htm] at hb
    · exact hm t htm
  obtain ⟨d, r, hs, -⟩ := hl.scanned hmH ht (by omega)
  have hlt := hs.lt
  have hlast := List.getElem?_eq_getElem (show (init ++ h).length - 1 < (init ++ h).length by omega)
  have hget := hs.get (show d ≤ (init ++ h).length - 1 by omega) hlast
  refine ⟨_, _, _, hs.gaps_eq, hget, ?_⟩
  intro t htl
  -- the newest transaction is the last one of the log
  obtain ⟨h', rfl⟩ : ∃ h', h = h' ++ [t] := List.getLast?_eq_some_iff.1 htl
  have hidx : (init ++ (h' ++ [t])).length - 1 = (init ++ h').length := by simp
  have hlast' : (init ++ (h' ++ [t]))[(init ++ (h' ++ [t])).length - 1] = t := by
    simp
  have hstart : (logOf ((init ++ (h' ++ [t])).take ((init ++ (h' ++ [t])).length - 1))).length =
      (logOf (init ++ h')).length := by
    rw [hidx, ← List.append_assoc, List.take_left]
  have hsize : newestSize (h' ++ [t]) = t.data.length := by simp [newestSize]
  have hpresent : Present sb (init ++ (h' ++ [t])) ((init ++ (h' ++ [t])).length - 1) := by
    refine hl.present ?_
    rw [hstart, ← List.append_assoc, logOf_append (init ++ h')]
    simp; omega
  simp only [hlast', hstart]
  refine ⟨trivial, ?_⟩
  intro j p hp
  obtain ⟨hj, -⟩ := List.getElem?_eq_some_iff.1 hp
  have hcell := hpresent t (by rw [hlast, hlast']) j p.2 (by
    rw [Txn.blocks, List.getElem?_append_left (by simpa using hj), List.getElem?_map, hp]; rfl)
  rw [hstart] at hcell
  rw [← hcell]
  congr 1
  -- from the position of the commit block back to that of entry `j`
  rw [show ((logOf (init ++ h')).length + t.data.length) % sb.image.journalSize + sb.image.journalSize -
      t.data.length + j = ((logOf (init ++ h')).length + t.data.length) % sb.image.journalSize +
        (sb.image.journalSize - t.data.length + j) by omega, Nat.mod_add_mod,
    show (logOf (init ++ h')).length + t.data.length + (sb.image.journalSize - t.data.length + j) =
      (logOf (init ++ h')).length + j + sb.image.journalSize by omega, Nat.add_mod_right]

private theorem FitsBesideNewest.le (hf : FitsBesideNewest st c) (hc : c.commits st.sb = some (sb1, barrier))
    (hidle : sb1.idle = false) :
    newestSize st.history + 1 + (flushIfNeeded sb1).dirtyBuffers.length ≤ st.sb.image.journalSize := by
  unfold FitsBesideNewest at hf
  rw [hc] at hf
  exact hf hidle

private theorem Journaling.Reached.newestSize_lt (hr : st.Reached FitsBesideNewest) :
    newestSize st.history + 1 ≤ st.sb.image.journalSize := by
  refine Journaling.Reached.measure_le (f := fun h => newestSize h + 1) (by simp [newestSize])
    (fun st c sb1 barrier _ hfit hcom hidle => ?_) hr
  have hle := hfit.le hcom hidle
  simp [newestSize, openTxn] at hle ⊢
  omega

end

/-- In every run in which the newest transaction and the data blocks of the one that is committed always fit in the
journal together, a crash leaves the newest complete commit with all its data blocks, between calls and between any
two journal writes of a commit. -/
theorem newest_commit_kept {st : Journaling D} (hr : st.Reached FitsBesideNewest) :
    NewestIntact st.sb st.history ∧
      ∀ c sb1 barrier k, FitsBesideNewest st c → c.commits st.sb = some (sb1, barrier) → sb1.idle = false →
        k ≤ (flushIfNeeded sb1).dirtyBuffers.length → NewestIntact (logging sb1 barrier k) st.history := by
  have hi := hr.inv
  constructor
  · obtain ⟨init, hl, hinit⟩ := hi.logged
    exact hl.newestIntact hinit hi.noMagic (by intro b hb; simp at hb) (by simpa using hr.newestSize_lt)
  · intro c sb1 barrier k hfit hcom hidle hk
    have hi1 := hi.commits hcom
    obtain ⟨init, tail, hl, hinit, hlen, htail⟩ := hi1.logging barrier hk
    refine hl.newestIntact hinit hi.noMagic htail ?_
    have hle := hfit.le hcom hidle
    have hsize := (hi.logging_geometry hcom k).journalSize
    rw [hlen, hsize]
    omega

/-- The small store without deferral and with a journal of four blocks, after blocks 5 and 6 were committed and the
blocks of a list were edited. -/
def afterTwo (ok : Journaling Nat → Call Nat → Prop) [∀ s c, Decidable (ok s c)] (l : List Nat) : Journaling Nat :=
  smallRun ok 4 false (Call.rounds [[5, 6]] ++ Call.edits 2 l)

/-- A transaction of two blocks and one of one block. -/
theorem newest_commit_kept_one_block : (afterTwo FitsBesideNewest [7]).sb.dirtyBuffers = [7] ∧
    NewestIntact (logging (afterTwo FitsBesideNewest [7]).sb false 1) (afterTwo FitsBesideNewest [7]).history :=
  ⟨by decide +kernel, (newest_commit_kept (smallRun_reached _ (by decide) (by decide) _ _)).2 .commit _ _ 1
    (by decide +kernel) rfl (by decide +kernel) (by decide +kernel)⟩

/-- Two transactions of two blocks: after two journal writes of the second one, the first data block of the first one
is overwritten, while its commit block is still the newest. -/
theorem newest_commit_torn : (afterTwo (fun _ _ => True) [7, 8]).Reached (fun _ _ => True) ∧
    (afterTwo (fun _ _ => True) [7, 8]).sb.deferring = false ∧
    (afterTwo (fun _ _ => True) [7, 8]).history.map (fun t => t.data.map Prod.fst) = [[5, 6]] ∧
    (afterTwo (fun _ _ => True) [7, 8]).sb.dirtyBuffers = [7, 8] ∧
    ¬ NewestIntact (logging (afterTwo (fun _ _ => True) [7, 8]).sb false 2)
      (afterTwo (fun _ _ => True) [7, 8]).history := by
  refine ⟨smallRun_reached _ (by decide) (by decide) _ _, by decide +kernel, by decide +kernel, by decide +kernel, ?_⟩
  rintro ⟨i, pos, c, hi, hget, hlast⟩
  set st := afterTwo (fun _ _ => True) [7, 8] with hst
  -- the contents of the data blocks tell the transactions apart
  let content : Block Nat → Option Nat := fun b => match b with
    | .data n => some n
    | _ => none
  have hgaps : gaps (scanCommits (logging st.sb false 2).journal (logging st.sb false 2).image.journalSize) = [0] := by
    decide +kernel
  have hpos : (scanCommits (logging st.sb false 2).journal (logging st.sb false 2).image.journalSize)[0]?.map
      Prod.fst = some 2 := by decide +kernel
  have ht : st.history.getLast?.map (fun t => t.data.map fun p => (p.1, content p.2)) =
      some [(5, some 1), (6, some 1)] := by decide +kernel
  have hcell : content ((logging st.sb false 2).journal 0) = some 2 := by decide +kernel
  have hsize : (logging st.sb false 2).image.journalSize = 4 := by decide +kernel
  rw [hgaps, List.cons.injEq] at hi
  rw [← hi.1] at hget
  rw [hget, Option.map_some, Option.some.injEq] at hpos
  obtain ⟨t, htl, htd⟩ := Option.map_eq_some_iff.1 ht
  have hlen : t.data.length = 2 := by simpa using congrArg List.length htd
  have hfirst := congrArg (fun l => l[0]?) htd
  simp only [List.getElem?_map, List.getElem?_cons_zero, Option.map_eq_some_iff] at hfirst
  obtain ⟨p, hp, hpc⟩ := hfirst
  have := (hlast t htl).2 0 p hp
  simp only at hpos
  rw [hpos, hsize, hlen] at this
  rw [this] at hcell
  simp only [Prod.mk.injEq] at hpc
  rw [hpc.2] at hcell
  exact absurd hcell (by decide)

end Ddsnap
