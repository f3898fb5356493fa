import Ddsnap.Allocation
import Ddsnap.NewestFound

/-!
# Deferred allocations after a crash

With deferral `commit_transaction` records the pending range in the commit block and moves it to the list of deferred
ranges; a barrier empties the list first, after its ranges were marked in the bitmaps.  `replay_journal` goes through the
commits from the oldest to the newest and does the same to an empty list.  The two agree on every history, so the list
is rebuilt exactly as long as the replay accepts the commit blocks and sees the commits from the last barrier on, the
barrier included if it records a range itself (`deferred_ranges_rebuilt_iff`).
-/

namespace Ddsnap

variable {D : Type} {st st' : Journaling D} {sb sb' : Sb D} {h init : List (Txn D)} {tail : List (Block D)}

/-- The deferred range that a commit block records, with the barrier flag. -/
def recordedRange (sb : Sb D) (barrier : Bool) : AllocRange :=
  ⟨if sb.defer.count = 0 then 0 else sb.defer.chunk, sb.defer.count, barrier⟩

private theorem newCommit_alloc (sb : Sb D) (barrier : Bool) : (newCommit sb barrier).alloc =
    recordedRange sb barrier := by
  unfold newCommit recordedRange
  by_cases hc : sb.defer.count = 0 <;> cases barrier <;> simp [hc]

/-! ### The ranges of a history -/

/-- The range that a commit block records. -/
def ownRange (c : CommitBlock) : List AllocRange :=
  if c.alloc.count = 0 then [] else [{ chunk := c.alloc.chunk, count := c.alloc.count, barrier := false }]

/-- What a commit block does to the list of deferred ranges. -/
def addRange (deferred : List AllocRange) (c : CommitBlock) : List AllocRange :=
  (if c.alloc.barrier then [] else deferred) ++ ownRange c

/-- The deferred ranges that a list of transactions leaves. -/
def rangesOf (h : List (Txn D)) : List AllocRange := h.foldl (fun deferred t => addRange deferred t.commit) []

private theorem rangesOf_concat (h : List (Txn D)) (t : Txn D) : rangesOf (h ++ [t]) = addRange
    (rangesOf h) t.commit := by
  unfold rangesOf
  rw [List.foldl_append]
  rfl

private theorem foldl_addRange (h : List (Txn D)) (deferred : List AllocRange)
    (hb : ∀ t ∈ h, t.commit.alloc.barrier = false) :
    h.foldl (fun deferred t => addRange deferred t.commit) deferred =
      deferred ++ h.flatMap fun t => ownRange t.commit := by
  induction h generalizing deferred with
  | nil => simp
  | cons t h ih =>
    rw [List.foldl_cons, ih _ fun u hu => hb u (List.mem_cons_of_mem _ hu), List.flatMap_cons, addRange,
      hb t List.mem_cons_self, if_neg (by simp), List.append_assoc]

private theorem rangesOf_noBarrier (hb : ∀ t ∈ h, t.commit.alloc.barrier = false) :
    rangesOf h = h.flatMap fun t => ownRange t.commit := foldl_addRange h [] hb

private theorem rangesOf_barrier (old since : List (Txn D)) {b : Txn D} (hb : b.commit.alloc.barrier = true)
    (hs : ∀ t ∈ since, t.commit.alloc.barrier = false) :
    rangesOf (old ++ b :: since) = ownRange b.commit ++ since.flatMap fun t => ownRange t.commit := by
  unfold rangesOf
  rw [List.foldl_append, List.foldl_cons, foldl_addRange since _ hs, addRange, if_pos hb, List.nil_append]

private theorem rangesOf_init (hinit : ∀ t ∈ init, t.commit.alloc = ⟨0, 0, false⟩) (h : List (Txn D)) :
    rangesOf (init ++ h) = rangesOf h := by
  have hnil : rangesOf init = [] := by
    rw [rangesOf_noBarrier fun t ht => by rw [hinit t ht], List.flatMap_eq_nil_iff]
    intro t ht
    unfold ownRange
    rw [hinit t ht]
    rfl
  unfold rangesOf at hnil ⊢
  rw [List.foldl_append, hnil]

/-! ### The ranges that the replay rebuilds -/

/-- The list of deferred ranges after the first loop of `replay_journal` over the commits. -/
def rebuiltRanges (sb : Sb D) : Option (List AllocRange) :=
  (scanJournal sb).map fun scan => recoverDeferred scan.commits sb.deferredAlloc
    (visitTo scan.commits.length scan.newest (scan.commits.length + 1) (scan.newest + 1))

/-- The loop goes through the commits from the oldest to the newest. -/
private theorem recoverDeferred_rotation {r : Nat} {cs xs : List (Nat × CommitBlock)} (hrot : RingLog.Rotation r cs xs)
    (deferred : List AllocRange) :
    recoverDeferred cs deferred ((List.range' 0 xs.length).map fun k => (r + k) % xs.length) =
      xs.foldl (fun deferred c => addRange deferred c.2) deferred := by
  have htaken : ∀ n ≤ xs.length,
      recoverDeferred cs deferred ((List.range' 0 n).map fun k => (r + k) % xs.length) =
        (xs.take n).foldl (fun deferred c => addRange deferred c.2) deferred := by
    intro n
    induction n with
    | zero => exact fun _ => rfl
    | succ n ih =>
      intro hn
      have hlt : n < xs.length := by omega
      have hget := hrot.get n hlt
      rw [List.getElem?_eq_getElem hlt] at hget
      have ih := ih (by omega)
      unfold recoverDeferred at ih ⊢
      rw [List.range'_concat, List.map_append, List.foldl_append, ih, List.take_add_one, List.getElem?_eq_getElem hlt,
        Option.toList_some, List.foldl_append]
      simp only [Nat.one_mul, Nat.zero_add, List.map_singleton, List.foldl_cons, List.foldl_nil, hget]
      unfold addRange ownRange
      split_ifs <;> simp
  rw [htaken xs.length le_rfl, List.take_length]

private theorem recent_foldl (jblocks : Nat) (h : List (Txn D)) (d : Nat) :
    (recent jblocks h d).foldl (fun deferred c => addRange deferred c.2) [] = rangesOf (h.drop d) := by
  have hcommits : (recent jblocks h d).map Prod.snd = (h.drop d).map Txn.commit := by
    apply List.ext_getElem?
    intro k
    rw [List.getElem?_map, List.getElem?_map, recent_getElem?, List.getElem?_drop, Option.map_map]
    rfl
  have hleft : ∀ (l : List (Nat × CommitBlock)) (deferred : List AllocRange),
      l.foldl (fun deferred c => addRange deferred c.2) deferred = (l.map Prod.snd).foldl addRange deferred :=
    fun l deferred => (List.foldl_map ..).symm
  have hright : ∀ (l : List (Txn D)) (deferred : List AllocRange),
      l.foldl (fun deferred t => addRange deferred t.commit) deferred = (l.map Txn.commit).foldl addRange deferred :=
    fun l deferred => (List.foldl_map ..).symm
  unfold rangesOf
  rw [hleft, hright, hcommits]

/-- The replay rebuilds the ranges of the transactions that the scan finds. -/
private theorem Remains.rebuilt (hr : Remains st sb init tail) (hi : st.Inv) {d r : Nat}
    (hs : Scanned sb (init ++ st.history) d r) (hpass : ChecksPass sb) :
    rebuiltRanges (restart sb) = some (rangesOf ((init ++ st.history).drop d)) := by
  have hlt := hs.lt
  have hlen := recent_length sb.image.journalSize (init ++ st.history) d
  have hidx : scanIndex (init ++ st.history) d r ((init ++ st.history).length - 1) =
      (r + ((init ++ st.history).length - d - 1)) % ((init ++ st.history).length - d) := by
    unfold scanIndex; congr 2; omega
  have hmod := Nat.mod_lt (r + ((init ++ st.history).length - d - 1)) (show 0 < (init ++ st.history).length - d by omega)
  have hvisit := visitTo_rotation (m := (init ++ st.history).length - d) (by omega) r
    ((init ++ st.history).length - d - 1) 0
    ((r + ((init ++ st.history).length - d - 1)) % ((init ++ st.history).length - d) + 1)
    ((init ++ st.history).length - d + 1) (by omega) (by omega)
    (by
      rw [Nat.mod_add_mod, show r + ((init ++ st.history).length - d - 1) + 1 =
        r + 0 + ((init ++ st.history).length - d) by omega, Nat.add_mod_right])
    (by omega)
  have hrec := recoverDeferred_rotation hs.rot []
  rw [recent_foldl, hlen] at hrec
  unfold rebuiltRanges
  rw [hr.scanJournal_restart hi, hs.scanJournal hpass, Option.map_some]
  dsimp only
  rw [hs.rot.length_eq, hlen, hidx, hvisit, show (init ++ st.history).length - d - 1 + 1 =
    (init ++ st.history).length - d by omega]
  exact congrArg some hrec

private theorem Remains.rebuilt_none (hr : Remains st sb init tail) (hi : st.Inv) (hpass : ¬ ChecksPass sb) :
    rebuiltRanges (restart sb) = none := by
  unfold ChecksPass at hpass
  push Not at hpass
  obtain ⟨p, c, hp, hc, hne⟩ := hpass
  unfold rebuiltRanges
  rw [hr.scanJournal_restart hi, scanJournal_none hp hc hne]
  rfl

/-! ### The commits that the replay must see -/

/-- The commit blocks after the last barrier are not overwritten, when `k` blocks were written after the last commit:
the first of them is among the last blocks of the log. -/
def SinceKept (jblocks k : Nat) (h : List (Txn D)) : Prop := (logOf (sinceBarrier h).tail).length + k < jblocks

/-- The last barrier is not overwritten either, unless it records no range. -/
def BarrierKept (jblocks k : Nat) (h : List (Txn D)) : Prop :=
  ∀ old b, h = old ++ b :: sinceBarrier h → b.commit.alloc.count = 0 ∨ (logOf (sinceBarrier h)).length + k < jblocks

private theorem rangesOf_drop_init (hinit : InitTxns sb init) (d : Nat) (hd : d ≤ init.length) :
    rangesOf ((init ++ h).drop d) = rangesOf h := by
  rw [List.drop_append_of_le_length hd]
  exact rangesOf_init (fun t ht => hinit.alloc t (List.mem_of_mem_drop ht)) h

private theorem ownRange_eq_nil {c : CommitBlock} : ownRange c = [] ↔ c.alloc.count = 0 := by
  unfold ownRange
  split_ifs with hc <;> simp [hc]

private theorem sees_iff {H before after : List (Txn D)} {t : Txn D} {d jblocks : Nat}
    (hiff : ∀ k t, H[k]? = some t → (d ≤ k ↔ (logOf H ++ tail).length ≤
      (logOf (H.take k)).length + t.data.length + jblocks)) (hH : H = before ++ t :: after) :
    d ≤ before.length ↔ (logOf after).length + tail.length < jblocks := by
  rw [hiff before.length t (by rw [hH]; simp), hH, List.take_left, logOf_append, logOf_cons]
  simp only [List.length_append, Txn.blocks_length]
  omega

private theorem SinceKept.sees_all {d jblocks : Nat} (hkept : SinceKept jblocks tail.length h)
    (hall : sinceBarrier h = h) (hlt : d < (init ++ h).length)
    (hiff : ∀ k t, (init ++ h)[k]? = some t → (d ≤ k ↔ (logOf (init ++ h) ++ tail).length ≤
      (logOf ((init ++ h).take k)).length + t.data.length + jblocks)) : d ≤ init.length := by
  unfold SinceKept at hkept
  rw [hall] at hkept
  cases h with
  | nil =>
    rw [List.append_nil] at hlt
    omega
  | cons t rest => exact (sees_iff hiff rfl).2 hkept

private theorem SinceKept.sees_since {old since : List (Txn D)} {b : Txn D} {d jblocks : Nat}
    (hkept : (logOf since.tail).length + tail.length < jblocks) (hlt : d < (old ++ b :: since).length)
    (hiff : ∀ k t, (old ++ b :: since)[k]? = some t → (d ≤ k ↔ (logOf (old ++ b :: since) ++ tail).length ≤
      (logOf ((old ++ b :: since).take k)).length + t.data.length + jblocks)) : d ≤ old.length + 1 := by
  cases since with
  | nil => simpa using Nat.le_of_lt hlt
  | cons t rest =>
    have hH : old ++ b :: t :: rest = (old ++ [b]) ++ t :: rest := by simp
    simpa using (sees_iff hiff hH).2 hkept

/-- The ranges that the scan sees are those of the history, as long as it sees the ranges since the last barrier. -/
private theorem Remains.rangesOf_drop (hr : Remains st sb init tail) {d r : Nat}
    (hs : Scanned sb (init ++ st.history) d r)
    (hiff : ∀ k t, (init ++ st.history)[k]? = some t → (d ≤ k ↔ (logOf (init ++ st.history) ++ tail).length ≤
      (logOf ((init ++ st.history).take k)).length + t.data.length + sb.image.journalSize))
    (hkept : SinceKept sb.image.journalSize tail.length st.history) :
    rangesOf ((init ++ st.history).drop d) = rangesOf st.history ↔
      BarrierKept sb.image.journalSize tail.length st.history := by
  have hlt := hs.lt
  rcases sinceBarrier_split st.history with hall | ⟨old, b, hsplit, hb⟩
  · rw [rangesOf_drop_init hr.initTxns d (hkept.sees_all hall hlt hiff)]
    refine iff_of_true rfl fun old b heq => ?_
    have hlen := congrArg List.length heq
    rw [hall, List.length_append, List.length_cons] at hlen
    omega
  · have hnb : ∀ t ∈ sinceBarrier st.history, t.commit.alloc.barrier = false := fun t ht => sinceBarrier_noBarrier ht
    unfold SinceKept at hkept
    unfold BarrierKept
    generalize sinceBarrier st.history = since at hsplit hnb hkept ⊢
    rw [hsplit] at hlt hiff ⊢
    rw [← List.append_assoc] at hlt hiff ⊢
    rw [rangesOf_barrier old since hb hnb]
    have hsee := sees_iff hiff rfl
    by_cases hd : d ≤ (init ++ old).length
    · rw [List.drop_append_of_le_length hd, rangesOf_barrier _ since hb hnb]
      exact iff_of_true rfl fun _ _ _ => .inr (hsee.1 hd)
    · -- only the commits after the barrier are in sight
      have hd1 := SinceKept.sees_since hkept hlt hiff
      have hdrop : ((init ++ old) ++ b :: since).drop d = since := by
        rw [show d = (init ++ old ++ [b]).length by simp at hd hd1 ⊢; omega,
          show (init ++ old) ++ b :: since = (init ++ old ++ [b]) ++ since by simp, List.drop_left]
      rw [hdrop, rangesOf_noBarrier hnb]
      constructor
      · intro heq old' b' heq'
        have hlast := List.append_inj_right' heq' (by simp)
        rw [← (List.cons.inj hlast).1]
        exact .inl (ownRange_eq_nil.1 (List.self_eq_append_left.1 heq))
      · intro hbar
        rcases hbar old b rfl with hzero | hsmall
        · rw [ownRange_eq_nil.2 hzero, List.nil_append]
        · exact absurd (hsee.2 hsmall) hd

/-! ### The list in memory -/

/-- The deferred ranges and the pending one are the same. -/
structure SameRanges (sb sb' : Sb D) : Prop where
  deferredAlloc : sb'.deferredAlloc = sb.deferredAlloc
  defer : sb'.defer = sb.defer

private theorem SameRanges.trans {sb1 : Sb D} (h1 : SameRanges sb sb1) (h2 : SameRanges sb1 sb') : SameRanges sb sb' :=
  ⟨h2.deferredAlloc.trans h1.deferredAlloc, h2.defer.trans h1.defer⟩

private theorem sameRanges_setBufferDirty (sb : Sb D) (s : Nat) : SameRanges sb (setBufferDirty sb s) := by
  unfold setBufferDirty
  split <;> exact ⟨rfl, rfl⟩

private theorem sameRanges_touch (sb : Sb D) (s : Nat) (b : Block D) : SameRanges sb
    (setBufferDirty (sb.store s b) s) :=
  (⟨rfl, rfl⟩ : SameRanges sb (sb.store s b)).trans (sameRanges_setBufferDirty _ s)

private theorem sameRanges_account (sb : Sb D) (as : Space) (asi : AllocspaceImg) :
    SameRanges sb (setSbDirty (sb.setAsi as asi)) := by
  unfold setSbDirty Sb.setAsi
  split
  · exact ⟨rfl, rfl⟩
  · split <;> exact ⟨rfl, rfl⟩

private theorem sameRanges_freeChunk (sb : Sb D) (as : Space) (chunk : Nat) : SameRanges sb
    (freeChunk sb as chunk) := by
  unfold freeChunk
  split
  · exact (sameRanges_touch sb _ _).trans (sameRanges_account _ as _)
  · exact ⟨rfl, rfl⟩

private theorem sameRanges_saveSb (sb : Sb D) : SameRanges sb (saveSb sb) := by
  unfold saveSb
  split <;> exact ⟨rfl, rfl⟩

/-- The pending range, if there is one. -/
def Sb.pendingRange (sb : Sb D) : List AllocRange :=
  if sb.defer.count = 0 then [] else [{ chunk := sb.defer.chunk, count := sb.defer.count, barrier := false }]

private theorem flushIfNeeded_ranges (sb : Sb D) : (flushIfNeeded sb).defer = sb.defer ∧
    (flushIfNeeded sb).deferredAlloc = if sb.mustFlush then [] else sb.deferredAlloc := by
  unfold flushIfNeeded
  split
  · exact ⟨flushDeferredAllocs_defer (flushJournaledBuffers sb), rfl⟩
  · exact ⟨rfl, rfl⟩

private theorem retireDirty_ranges (sb : Sb D) (barrier : Bool) : SameRanges sb (retireDirty sb barrier) := by
  unfold retireDirty
  split <;> exact ⟨rfl, rfl⟩

/-- A commit moves the pending range to the list, behind the flush if there is one. -/
private theorem commitTransaction_ranges {barrier : Bool} (hidle : sb.idle = false)
    (h : commitTransaction sb barrier = some sb') :
    sb'.deferredAlloc = (if sb.mustFlush then [] else sb.deferredAlloc) ++ sb.pendingRange ∧ sb'.defer.count = 0 := by
  rcases commitTransaction_cases h with ⟨hidle', -⟩ | ⟨-, -, rfl⟩
  · rw [hidle] at hidle'
    cases hidle'
  obtain ⟨hdefer, hlist⟩ := flushIfNeeded_ranges sb
  have hretire := retireDirty_ranges (logTransaction (flushIfNeeded sb) (barrier || sb.mustFlush))
    (barrier || sb.mustFlush)
  rw [hretire.deferredAlloc, hretire.defer]
  unfold logTransaction
  dsimp only
  rw [writeJournal_eq]
  unfold pushDefer Sb.pendingRange recordCommit
  dsimp only
  rw [hdefer, hlist]
  split
  · rename_i hzero
    exact ⟨(List.append_nil _).symm, hzero⟩
  · exact ⟨rfl, rfl⟩

private theorem openTxn_ranges (sb : Sb D) (barrier : Bool) (deferred : List AllocRange) :
    addRange deferred (openTxn sb barrier).commit = (if barrier then [] else deferred) ++ sb.pendingRange := by
  unfold addRange ownRange Sb.pendingRange
  rw [show (openTxn sb barrier).commit.alloc = recordedRange sb barrier from newCommit_alloc sb barrier]
  unfold recordedRange
  split_ifs <;> simp_all

private theorem allocChunk_ranges {as : Space} {chunk : Nat} (h : allocChunk sb as = some (chunk, sb')) :
    sb'.deferredAlloc = sb.deferredAlloc ∧ (sb'.defer = sb.defer ∨ sb.deferredAlloc.length < maxDeferredAllocs ∧
      (sb'.defer.chunk = chunk ∧ isDeferredAlloc sb chunk = false ∨
        sb.defer.count ≠ 0 ∧ sb'.defer.chunk = sb.defer.chunk)) := by
  obtain ⟨⟨start, n, -, hscan⟩, rfl⟩ := allocChunk_cases h
  have hfree := (scanBytes_free hscan).2
  rw [(sameRanges_account _ as _).deferredAlloc, (sameRanges_account _ as _).defer]
  unfold takeChunk
  dsimp only
  rw [(sameRanges_account _ as _).deferredAlloc, (sameRanges_account _ as _).defer]
  split_ifs with h1 h2
  · exact ⟨rfl, .inr ⟨h1.2.1, .inl ⟨rfl, hfree⟩⟩⟩
  · exact ⟨rfl, .inr ⟨h2.2.1, .inr ⟨fun hzero => h1 ⟨h2.1, h2.2.1, hzero⟩, rfl⟩⟩⟩
  · have hmark := sameRanges_touch sb (sb.bitmapBlock (sb.asi as).bitmapBase chunk)
      (setBitmapBit (sb.mem (sb.bitmapBlock (sb.asi as).bitmapBase chunk)) (chunk % 2 ^ sb.bitmapShift))
    exact ⟨hmark.deferredAlloc, .inl hmark.defer⟩

/-- The list in memory is the one that the history leaves, it is bounded, and the pending range is no part of it. -/
structure Journaling.Deferral (st : Journaling D) : Prop where
  ranges : st.sb.deferredAlloc = rangesOf st.history
  few : st.sb.deferredAlloc.length ≤ maxDeferredAllocs
  room : st.sb.defer.count ≠ 0 → st.sb.deferredAlloc.length < maxDeferredAllocs
  counts : ∀ r ∈ st.sb.deferredAlloc, r.count ≠ 0
  apart : st.sb.defer.count ≠ 0 → ∀ r ∈ st.sb.deferredAlloc, chunkWithin st.sb.defer.chunk r.chunk r.count = false

private theorem Journaling.Deferral.same (hd : st.Deferral) (hs : SameRanges st.sb sb') :
    Journaling.Deferral ⟨sb', st.history⟩ := by
  refine ⟨?_, ?_, ?_, ?_, ?_⟩
  · rw [hs.deferredAlloc]; exact hd.ranges
  · rw [hs.deferredAlloc]; exact hd.few
  · rw [hs.deferredAlloc, hs.defer]; exact hd.room
  · rw [hs.deferredAlloc]; exact hd.counts
  · rw [hs.deferredAlloc, hs.defer]; exact hd.apart

private theorem Journaling.Deferral.alloc (hd : st.Deferral) {as : Space} {chunk : Nat}
    (ha : allocChunk st.sb as = some (chunk, sb')) : Journaling.Deferral ⟨sb', st.history⟩ := by
  obtain ⟨hlist, hsame | ⟨hroom, hpend⟩⟩ := allocChunk_ranges ha
  · exact hd.same ⟨hlist, hsame⟩
  refine ⟨by rw [hlist]; exact hd.ranges, by rw [hlist]; exact hd.few, fun _ => by rw [hlist]; exact hroom,
    by rw [hlist]; exact hd.counts, fun _ r hr => ?_⟩
  rw [hlist] at hr
  rcases hpend with ⟨hchunk, hfree⟩ | ⟨hcount, hchunk⟩
  · rw [hchunk]
    unfold isDeferredAlloc at hfree
    rw [Bool.or_eq_false_iff, List.any_eq_false] at hfree
    simpa using hfree.2 r hr
  · rw [hchunk]
    exact hd.apart hcount r hr

/-- A commit, or the barrier of `commit_deferred_allocs` after its flush. -/
private theorem Journaling.Deferral.commit (hd : st.Deferral) {sb1 : Sb D} {barrier : Bool}
    (hdefer : sb1.defer = st.sb.defer)
    (hstart : sb1.deferredAlloc = if barrier then [] else st.sb.deferredAlloc) (hidle : sb1.idle = false)
    (hc : commitTransaction sb1 barrier = some sb') :
    Journaling.Deferral ⟨sb', st.history ++ commitTxns sb1 barrier⟩ ∧
      sb'.deferredAlloc = (if barrier || sb1.mustFlush then [] else st.sb.deferredAlloc) ++ st.sb.pendingRange := by
  obtain ⟨hlist, hzero⟩ := commitTransaction_ranges hidle hc
  have hpend : sb1.pendingRange = st.sb.pendingRange := by unfold Sb.pendingRange; rw [hdefer]
  have hflag : (if sb1.mustFlush then [] else sb1.deferredAlloc) =
      if barrier || sb1.mustFlush then [] else st.sb.deferredAlloc := by
    rw [hstart]
    cases barrier <;> cases sb1.mustFlush <;> rfl
  rw [hflag, hpend] at hlist
  refine ⟨⟨?_, ?_, fun h0 => absurd hzero h0, fun r hr => ?_, fun h0 => absurd hzero h0⟩, hlist⟩
  · have hopen : (flushIfNeeded sb1).pendingRange = sb1.pendingRange := by
      unfold Sb.pendingRange
      rw [(flushIfNeeded_ranges sb1).1]
    unfold commitTxns
    rw [hidle, if_neg (by simp)]
    dsimp only
    rw [rangesOf_concat, openTxn_ranges, hopen, hpend, ← hd.ranges, hlist]
  · dsimp only
    have hlen : (if barrier || sb1.mustFlush then [] else st.sb.deferredAlloc).length ≤ st.sb.deferredAlloc.length := by
      split
      · exact Nat.zero_le _
      · exact le_rfl
    rw [hlist, List.length_append]
    unfold Sb.pendingRange
    by_cases hne : st.sb.defer.count = 0
    · rw [if_pos hne]
      exact hlen.trans hd.few
    · rw [if_neg hne]
      exact Nat.lt_of_le_of_lt hlen (hd.room hne)
  · dsimp only at hr
    rw [hlist] at hr
    rcases List.mem_append.1 hr with hr | hr
    · split at hr
      · cases hr
      · exact hd.counts r hr
    · unfold Sb.pendingRange at hr
      split at hr
      · cases hr
      · rename_i hne
        rw [List.mem_singleton.1 hr]
        exact hne

private theorem flushDeferredAllocs_open (hcounts : ∀ r ∈ sb.deferredAlloc, r.count ≠ 0) (hne : sb.deferredAlloc ≠ []) :
    (flushDeferredAllocs sb).Open := by
  obtain ⟨r, rest, hlist⟩ := List.exists_cons_of_ne_nil hne
  have hr := hcounts r (by rw [hlist]; exact List.mem_cons_self)
  obtain ⟨n, hn⟩ := Nat.exists_eq_succ_of_ne_zero hr
  have hrest : ∀ sb1 : Sb D, Amend sb1 (rest.foldl (fun sb r => setAllocated sb r.chunk r.count) sb1) :=
    amend_foldl (fun sb r => amend_setAllocated sb r.chunk r.count) rest
  have hfirst : (setAllocated sb r.chunk r.count).Open := by
    unfold setAllocated
    rw [hn, List.range_succ_eq_map, List.foldl_cons]
    exact (amend_foldl (fun _ _ => amend_markChunk _ _ _) _ _).opened (setBufferDirty_open _ _)
  unfold flushDeferredAllocs
  rw [hlist, List.foldl_cons]
  exact (hrest _).opened hfirst

/-- What the call does when it commits: the new list, if it writes a transaction at all. -/
private theorem Journaling.Deferral.commits (hd : st.Deferral) {c : Call D} {sb1 : Sb D} {barrier : Bool}
    (hcom : c.commits st.sb = some (sb1, barrier)) (hc : c.step st.sb = some sb') :
    Journaling.Deferral ⟨sb', st.history ++ commitTxns sb1 barrier⟩ ∧
      (sb1.idle = false → sb'.deferredAlloc =
        (if barrier || sb1.mustFlush then [] else st.sb.deferredAlloc) ++ st.sb.pendingRange) := by
  have hcommit : commitTransaction st.sb false = some sb' →
      Journaling.Deferral ⟨sb', st.history ++ commitTxns st.sb false⟩ ∧ (st.sb.idle = false → sb'.deferredAlloc =
        (if false || st.sb.mustFlush then [] else st.sb.deferredAlloc) ++ st.sb.pendingRange) := by
    intro hct
    cases hidle : st.sb.idle with
    | true =>
      rw [commitTransaction_idle hidle] at hct
      cases hct
      rw [commitTxns, hidle, if_pos rfl, List.append_nil]
      exact ⟨hd, fun hf => by cases hf⟩
    | false =>
      obtain ⟨h1, h2⟩ := hd.commit rfl rfl hidle hct
      exact ⟨h1, fun _ => h2⟩
  cases c with
  | commit =>
    cases hcom
    exact hcommit hc
  | check =>
    simp only [Call.step, dirtyBufferCountCheck] at hc
    simp only [Call.commits] at hcom
    split at hcom
    · rename_i hfull
      cases hcom
      rw [if_pos hfull] at hc
      split at hc
      · cases hc
      · exact hcommit hc
    · cases hcom
  | barrier =>
    cases hcom
    simp only [Call.step] at hc
    split at hc
    · have hdefer : (flushJournaledBuffers (flushDeferredAllocs st.sb)).defer = st.sb.defer :=
        flushDeferredAllocs_defer st.sb
      cases hidle1 : (flushJournaledBuffers (flushDeferredAllocs st.sb)).idle with
      | true =>
        -- nothing was marked, so that there was nothing to flush
        rw [commitTransaction_idle hidle1] at hc
        cases hc
        have hnil : st.sb.deferredAlloc = [] := by
          by_contra hne
          have hopen := flushDeferredAllocs_open hd.counts hne
          simp only [Sb.idle, Bool.decide_and, Bool.and_eq_true, decide_eq_true_eq] at hidle1
          exact hopen.elim (fun h1 => h1 hidle1.1) fun h1 => h1 hidle1.2
        rw [commitTxns, hidle1, if_pos rfl, List.append_nil, flushDeferredAllocs_nil hnil]
        exact ⟨hd.same ⟨rfl, rfl⟩, fun hf => by cases hf⟩
      | false =>
        obtain ⟨h1, h2⟩ := hd.commit hdefer rfl hidle1 hc
        exact ⟨h1, fun _ => h2⟩
    · cases hc
  | _ => cases hcom

private theorem Journaling.Deferral.step (hd : st.Deferral) {c : Call D} (hst : st.step c = some st') :
    st'.Deferral := by
  obtain ⟨sb', hc, rfl⟩ := Option.map_eq_some_iff.1 hst
  cases hcom : c.commits st.sb with
  | some p => exact (hd.commits hcom hc).1
  | none =>
    dsimp only
    rw [List.append_nil]
    cases c with
    | edit s b hs hm =>
      cases hc
      exact hd.same (sameRanges_touch st.sb s b)
    | alloc as =>
      obtain ⟨⟨chunk, sb1⟩, ha, rfl⟩ := Option.map_eq_some_iff.1 hc
      exact hd.alloc ha
    | free as chunk =>
      cases hc
      exact hd.same (sameRanges_freeChunk st.sb as chunk)
    | release s =>
      cases hc
      exact hd.same ⟨rfl, rfl⟩
    | save =>
      cases hc
      exact hd.same (sameRanges_saveSb st.sb)
    | commit => cases hcom
    | barrier => cases hcom
    | check =>
      simp only [Call.step, dirtyBufferCountCheck] at hc
      simp only [Call.commits] at hcom
      split at hcom
      · cases hcom
      · rename_i hfull
        rw [if_neg hfull] at hc
        cases hc
        exact hd

private theorem Journaling.Reached.deferral {ok : Journaling D → Call D → Prop} (hr : st.Reached ok) : st.Deferral := by
  refine hr.invariant (fun st hf => ?_) fun _ _ _ hd _ hst => hd.step hst
  obtain ⟨sb, hb, rfl⟩ := hf
  have hfix : initJournal sb = { sb with
      journal := (initJournal sb).journal
      image := { sb.image with journalNext := (initJournal sb).image.journalNext } } := writeJournal_eq _ _
  obtain ⟨hzero, hnil⟩ := hb.noDefer
  have hlist : (initJournal sb).deferredAlloc = [] := by rw [hfix]; exact hnil
  have hcount : (initJournal sb).defer.count = 0 := by rw [hfix]; exact hzero
  refine ⟨hlist, ?_, fun h0 => absurd hcount h0, ?_, fun h0 => absurd hcount h0⟩
  · dsimp only
    rw [hlist]
    exact Nat.zero_le _
  · dsimp only
    rw [hlist]
    exact fun r hr => by cases hr

/-! ### The theorem -/

/-- In every run with deferral in which the commit blocks after the last barrier are not overwritten, a crash leaves a
journal from which `replay_journal` rebuilds exactly the deferred ranges of the last commit if and only if the commit
blocks pass `checksum_block` and the last barrier is in sight too or records no range.  The list never has more than 500
entries, and a barrier leaves none of the ranges that it marks. -/
theorem deferred_ranges_rebuilt_iff {k : Nat} (hr : st.Reached fun _ _ => True) (hcrash : Interrupted st k sb)
    (hkept : SinceKept st.sb.image.journalSize k st.history) :
    (rebuiltRanges (restart sb) = some st.sb.deferredAlloc ↔
      ChecksPass sb ∧ BarrierKept st.sb.image.journalSize k st.history) ∧
    st.sb.deferredAlloc.length ≤ maxDeferredAllocs ∧
    ∀ (c : Call D) (sb1 : Sb D) (barrier : Bool), c.commits st.sb = some (sb1, barrier) → sb1.idle = false →
      (barrier || sb1.mustFlush) = true →
        ∀ sb', c.step st.sb = some sb' → ∀ range ∈ st.sb.deferredAlloc, range ∉ sb'.deferredAlloc := by
  have hi := hr.inv
  have hd := hr.deferral
  refine ⟨?_, hd.few, ?_⟩
  · obtain ⟨init, tail, hrem, hlen⟩ := hcrash.remains hi
    obtain ⟨d, r, hs, hiff⟩ := hrem.scanned hi
    have hsize := hrem.geometry.journalSize
    rw [← hlen, ← hsize] at hkept ⊢
    have hdrop := hrem.rangesOf_drop hs hiff hkept
    by_cases hpass : ChecksPass sb
    · rw [hrem.rebuilt hi hs hpass, Option.some.injEq, hd.ranges, hdrop]
      exact (and_iff_right hpass).symm
    · rw [hrem.rebuilt_none hi hpass]
      exact iff_of_false (by simp) fun h => hpass h.1
  · intro c sb1 barrier hcom hidle hbar sb' hc range hrange hmem
    rw [(hd.commits hcom hc).2 hidle, hbar, if_pos rfl, List.nil_append] at hmem
    unfold Sb.pendingRange at hmem
    split at hmem
    · cases hmem
    · -- the pending range starts at a chunk that was not deferred
      rename_i hne
      have hout := hd.apart hne range hrange
      have hcount := hd.counts range hrange
      rw [List.mem_singleton] at hmem
      rw [hmem] at hout hcount
      simp only [chunkWithin, decide_eq_false_iff_not, le_refl, true_and, Nat.not_lt] at hout
      omega

/-- The small store with deferral and a journal of eight blocks, after five commits with a deferred chunk each.  The
fifth is a barrier. -/
def deferredRun (edits : List (List Nat)) : Journaling Nat :=
  smallRun (fun _ _ => True) 8 true ((List.replicate 5 [.alloc .metadata, .commit]).flatten ++ Call.rounds edits)

private theorem deferredRun_reached (edits : List (List Nat)) : (deferredRun edits).Reached fun _ _ => True :=
  smallRun_reached _ (by decide) (by decide) _ _

/-- Chunks 0 to 3 were marked by the barrier, and chunk 4 is rebuilt. -/
theorem deferred_ranges_rebuilt_barrier : (deferredRun []).sb.deferredAlloc = [⟨4, 1, false⟩] ∧
    rebuiltRanges (restart (deferredRun []).sb) = some (deferredRun []).sb.deferredAlloc := by
  have hrun : (deferredRun []).sb.deferredAlloc = [⟨4, 1, false⟩] ∧
      (logOf (sinceBarrier (deferredRun []).history).tail).length + 0 < (deferredRun []).sb.image.journalSize ∧
      (logOf (sinceBarrier (deferredRun []).history)).length + 0 < (deferredRun []).sb.image.journalSize ∧
      (deferredRun []).sb.image.metadata.allocsizeBits = 12 := by decide +kernel
  obtain ⟨hlist, hsince, hbar, hbits⟩ := hrun
  obtain ⟨init, tail, hrem, -⟩ := Interrupted.between.remains (deferredRun_reached []).inv
  have hpass : ChecksPass (deferredRun []).sb :=
    (hrem.checksPass_iff (deferredRun_reached []).inv (deferredRun_reached []).summed (by rw [hbits]; decide)).2
      (by rw [hbits])
  have hiff := (deferred_ranges_rebuilt_iff (deferredRun_reached []) .between hsince).1
  exact ⟨hlist, hiff.2 ⟨hpass, fun _ _ _ => .inr hbar⟩⟩

/-- The store with blocks of 512 bytes and deferral, after one commit with a deferred chunk. -/
def sectorDeferred : Journaling Nat :=
  let st : Journaling Nat := ⟨initJournal { sectorStore with deferring := true }, []⟩
  (Reach.exec Journaling.step (fun _ _ => True) st [.alloc .metadata, .commit]).getD st

private theorem sectorDeferred_reached : sectorDeferred.Reached fun _ _ => True := by
  have hfresh : Journaling.Fresh ⟨initJournal { sectorStore with deferring := true }, []⟩ :=
    ⟨{ sectorStore with deferring := true }, ⟨by decide, by decide, rfl, rfl, by decide, ⟨by decide, by decide⟩, rfl, rfl,
      ⟨rfl, rfl⟩, rfl, rfl, rfl, rfl⟩, rfl⟩
  have hstart : Journaling.Reached (fun _ _ => True)
    ⟨initJournal { sectorStore with deferring := true }, []⟩ := .start hfresh
  exact hstart.exec_getD [.alloc .metadata, .commit]

/-- With blocks of 512 bytes nothing is rebuilt.  With blocks of 4096 bytes four commits after a barrier write over the
barrier and nothing else, and the range that it recorded is lost. -/
theorem deferred_ranges_lost : sectorDeferred.Reached (fun _ _ => True) ∧ sectorDeferred.sb.deferring = true ∧
    SinceKept sectorDeferred.sb.image.journalSize 0 sectorDeferred.history ∧
    sectorDeferred.sb.deferredAlloc = [⟨0, 1, false⟩] ∧ rebuiltRanges (restart sectorDeferred.sb) = none ∧
    (deferredRun [[30], [30], [30], [30]]).Reached (fun _ _ => True) ∧
    SinceKept (deferredRun [[30], [30], [30], [30]]).sb.image.journalSize 0
      (deferredRun [[30], [30], [30], [30]]).history ∧
    (deferredRun [[30], [30], [30], [30]]).sb.deferredAlloc = [⟨4, 1, false⟩] ∧
    rebuiltRanges (restart (deferredRun [[30], [30], [30], [30]]).sb) = some [] := by
  have hsector : sectorDeferred.sb.deferring = true ∧
      (logOf (sinceBarrier sectorDeferred.history).tail).length + 0 < sectorDeferred.sb.image.journalSize ∧
      sectorDeferred.sb.deferredAlloc = [⟨0, 1, false⟩] ∧ rebuiltRanges (restart sectorDeferred.sb) = none := by
    decide +kernel
  have hlarge : (logOf (sinceBarrier (deferredRun [[30], [30], [30], [30]]).history).tail).length + 0 <
        (deferredRun [[30], [30], [30], [30]]).sb.image.journalSize ∧
      (deferredRun [[30], [30], [30], [30]]).sb.deferredAlloc = [⟨4, 1, false⟩] ∧
      rebuiltRanges (restart (deferredRun [[30], [30], [30], [30]]).sb) = some [] := by decide +kernel
  exact ⟨sectorDeferred_reached, hsector.1, hsector.2.1, hsector.2.2.1, hsector.2.2.2, deferredRun_reached _, hlarge.1,
    hlarge.2.1, hlarge.2.2⟩

end Ddsnap
