import Ddsnap.Lib.HashChain
import Ddsnap.Locks

/-!
# The lock table

What `readlock_chunk`, `waitfor_chunk`, `release_chunk` and `client_locks` do to the table, in terms of the holders and
the waiters of every chunk.  The table is in order (`TableOk`) when every lock is in its chain, alone for its chunk, and
held by somebody.  A release keeps it in order if the client holds the lock, or if there is none: otherwise the null
pointer that `release_lock` returns cuts the chain.
-/

namespace Ddsnap

variable {t : Snaplocks} {c a w : Nat}

/-- The lock of a chunk. -/
def lockAt (t : Snaplocks) (c : Nat) : Option Snaplock := HashChain.lookup Snaplock.chunk snaplockHash t c

/-- The clients that hold a chunk, by their addresses. -/
def holders (t : Snaplocks) (c : Nat) : List Nat := ((lockAt t c).map Snaplock.holdlist).getD []

/-- The writes that wait for a chunk. -/
def waiters (t : Snaplocks) (c : Nat) : List Nat := ((lockAt t c).map Snaplock.waitlist).getD []

/-- The number of wait records that point to a pending write. -/
def waitRecords (t : Snaplocks) (w : Nat) : Nat :=
  HashChain.total (2 ^ snaplockHashBits) (fun lock => lock.waitlist.count w) t

/-- The table is in order. -/
structure TableOk (t : Snaplocks) : Prop extends HashChain.WellPlaced Snaplock.chunk snaplockHash t where
  held : ∀ i, ∀ lock ∈ t i, lock.holdlist ≠ []

theorem TableOk.nil : TableOk fun _ => [] := ⟨.nil, by simp⟩

theorem snaplockHash_lt (c : Nat) : snaplockHash c < 2 ^ snaplockHashBits := by
  unfold snaplockHash snaplockHashBits
  omega

private theorem findSnaplock_bucket (t : Snaplocks) (c : Nat) : findSnaplock (t (snaplockHash c)) c = lockAt t c := rfl

theorem TableOk.lockAt_eq_some (h : TableOk t) {lock : Snaplock} :
    lockAt t c = some lock ↔ lock ∈ t (snaplockHash c) ∧ lock.chunk = c := HashChain.lookup_eq_some h.toWellPlaced

/-- A lock is there exactly if it is held. -/
theorem TableOk.lockAt_eq_none (h : TableOk t) : lockAt t c = none ↔ holders t c = [] := by
  unfold holders
  cases hl : lockAt t c with
  | none => simp
  | some lock =>
    have := h.held _ lock (h.lockAt_eq_some.1 hl).1
    simpa using this

theorem TableOk.waiters_eq_nil (h : TableOk t) (hc : holders t c = []) : waiters t c = [] := by
  unfold waiters
  rw [h.lockAt_eq_none.2 hc]
  rfl

/-- A write has wait records exactly if it waits for some chunk. -/
theorem TableOk.waitRecords_eq_zero (h : TableOk t) : waitRecords t w = 0 ↔ ∀ c, w ∉ waiters t c := by
  unfold waitRecords
  rw [HashChain.total_eq_zero]
  simp only [List.count_eq_zero]
  constructor
  · intro h0 c hw
    cases hl : lockAt t c with
    | none => simp [waiters, hl] at hw
    | some lock =>
      simp only [waiters, hl, Option.map_some, Option.getD_some] at hw
      exact h0 _ (snaplockHash_lt c) lock (h.lockAt_eq_some.1 hl).1 hw
  · intro h0 i _ lock hlock hw
    have hl : lockAt t lock.chunk = some lock := h.toWellPlaced.lookup_of_mem hlock
    exact h0 lock.chunk (by simpa [waiters, hl] using hw)

/-! ### One lock is rewritten -/

/-- The table after the lock of a chunk was changed or unlinked. -/
def rewriteLock (t : Snaplocks) (c : Nat) (g : Snaplock → Option Snaplock) : Snaplocks :=
  Function.update t (snaplockHash c) ((t (snaplockHash c)).filterMap (HashChain.rewriteKey Snaplock.chunk c g))

section Rewrite

variable {g : Snaplock → Option Snaplock} (hg : ∀ x y, g x = some y → y.chunk = x.chunk)

include hg

theorem TableOk.rewrite (h : TableOk t) (hheld : ∀ x y, g x = some y → x.holdlist ≠ [] → y.holdlist ≠ []) :
    TableOk (rewriteLock t c g) := by
  refine ⟨h.toWellPlaced.rewrite (HashChain.rewriteKey_key hg) _, fun i lock hlock => ?_⟩
  unfold rewriteLock at hlock
  rcases eq_or_ne i (snaplockHash c) with rfl | hi
  · rw [Function.update_self, List.mem_filterMap] at hlock
    obtain ⟨x, hx, hxy⟩ := hlock
    unfold HashChain.rewriteKey at hxy
    split_ifs at hxy
    · exact hheld x lock hxy (h.held _ x hx)
    · rw [← Option.some.inj hxy]
      exact h.held _ x hx
  · rw [Function.update_of_ne hi] at hlock
    exact h.held i lock hlock

theorem TableOk.lockAt_rewrite (h : TableOk t) (c' : Nat) :
    lockAt (rewriteLock t c g) c' = if c' = c then (lockAt t c).bind g else lockAt t c' :=
  h.toWellPlaced.lookup_rewriteKey hg c c'

end Rewrite

theorem modifySnaplock_eq {f : Snaplock → Snaplock} {l : List Snaplock} (h : (l.map Snaplock.chunk).Nodup) :
    modifySnaplock c f l = l.filterMap (HashChain.rewriteKey Snaplock.chunk c fun lock => some (f lock)) := by
  induction l with
  | nil => rfl
  | cons lock l ih =>
    rw [HashChain.filterMap_rewriteKey_cons h, ← ih (List.nodup_cons.1 h).2]
    rfl

/-- The wait records of the other locks are not touched. -/
theorem TableOk.waitRecords_rewrite (h : TableOk t) (g : Snaplock → Option Snaplock)
    (hg : ∀ x y, g x = some y → y.chunk = x.chunk) (w : Nat) :
    waitRecords (rewriteLock t c g) w + (waiters t c).count w =
      waitRecords t w + (waiters (rewriteLock t c g) c).count w := by
  have hw : ∀ o : Option Snaplock, ((o.map Snaplock.waitlist).getD []).count w =
      (o.map fun lock => lock.waitlist.count w).getD 0 := by
    rintro (_ | lock) <;> rfl
  unfold waitRecords waiters
  rw [hw, hw, h.lockAt_rewrite hg, if_pos rfl]
  exact h.toWellPlaced.total_rewriteKey _ (snaplockHash_lt c)

/-! ### `readlock_chunk` -/

/-- The effect of a new hold on the table. -/
structure Held (t t' : Snaplocks) (c a : Nat) : Prop where
  ok : TableOk t'
  holders : ∀ c', holders t' c' = if c' = c then a :: holders t c else holders t c'
  waiters : ∀ c', waiters t' c' = waiters t c'
  records : ∀ w, waitRecords t' w = waitRecords t w

theorem TableOk.readlockChunk (h : TableOk t) (c a : Nat) : Held t (readlockChunk t c a) c a := by
  unfold Ddsnap.readlockChunk
  dsimp only
  rcases Option.eq_none_or_eq_some (findSnaplock (t (snaplockHash c)) c) with hl | ⟨lock, hl⟩
  · -- a new lock is put in front of the chain, and holds nothing but the new hold
    have hplaced := h.toWellPlaced.push ⟨c, [a], []⟩ hl
    have hlock : ∀ c', lockAt (Function.update t (snaplockHash c) (⟨c, [a], []⟩ :: t (snaplockHash c))) c' =
        if c' = c then some ⟨c, [a], []⟩ else lockAt t c' :=
      HashChain.lookup_push Snaplock.chunk snaplockHash t ⟨c, [a], []⟩
    rw [if_pos hl, modifySnaplock, if_pos rfl]
    rw [findSnaplock_bucket] at hl
    change Held t (Function.update t (snaplockHash c) (⟨c, [a], []⟩ :: t (snaplockHash c))) c a
    refine ⟨⟨hplaced, ?_⟩, fun c' => ?_, fun c' => ?_, fun w => ?_⟩
    · intro i lock hlock
      rcases eq_or_ne i (snaplockHash c) with rfl | hi
      · rw [Function.update_self] at hlock
        rcases List.mem_cons.1 hlock with rfl | hlock
        · simp
        · exact h.held _ lock hlock
      · rw [Function.update_of_ne hi] at hlock
        exact h.held i lock hlock
    · unfold Ddsnap.holders
      rw [hlock, hl]
      split_ifs <;> rfl
    · unfold Ddsnap.waiters
      rw [hlock]
      split_ifs with hc
      · rw [hc, hl]; rfl
      · rfl
    · have := HashChain.total_update (t := t) (fun lock : Snaplock => lock.waitlist.count w) (snaplockHash_lt c)
        (⟨c, [a], []⟩ :: t (snaplockHash c))
      unfold waitRecords
      simp only [List.map_cons, List.sum_cons, List.count_nil, Nat.zero_add] at this
      omega
  · rw [if_neg (by simp [hl]), modifySnaplock_eq (h.nodup _)]
    rw [findSnaplock_bucket] at hl
    let g : Snaplock → Option Snaplock := fun lock => some { lock with holdlist := a :: lock.holdlist }
    change Held t (rewriteLock t c g) c a
    have hg : ∀ x y, g x = some y → y.chunk = x.chunk := by rintro x y ⟨⟩; rfl
    have hwait : ∀ c', waiters (rewriteLock t c g) c' = waiters t c' := by
      intro c'
      unfold waiters
      rw [h.lockAt_rewrite hg]
      split_ifs with hc
      · rw [hc, hl]; rfl
      · rfl
    refine ⟨h.rewrite hg (by rintro x y ⟨⟩; simp), fun c' => ?_, hwait, fun w => ?_⟩
    · unfold Ddsnap.holders
      rw [h.lockAt_rewrite hg, hl]
      split_ifs <;> rfl
    · have := h.waitRecords_rewrite g hg (c := c) w
      rw [hwait] at this
      omega

/-! ### `release_chunk` -/

/-- What is left of a lock when a client gives up a hold. -/
def dropHold (a : Nat) (lock : Snaplock) : Option Snaplock :=
  if lock.holdlist.erase a = [] then none else some { lock with holdlist := lock.holdlist.erase a }

private theorem dropHold_chunk (a : Nat) (x y : Snaplock) (h : dropHold a x = some y) : y.chunk = x.chunk := by
  unfold dropHold at h
  split_ifs at h
  rw [← Option.some.inj h]

private theorem dropHold_holdlist (a : Nat) (x y : Snaplock) (h : dropHold a x = some y) :
    y.holdlist = x.holdlist.erase a ∧ y.holdlist ≠ [] ∧ y.waitlist = x.waitlist := by
  unfold dropHold at h
  split_ifs at h with he
  rw [← Option.some.inj h]
  exact ⟨rfl, he, rfl⟩

/-- A client that holds the lock is released from it: nothing else of the chain changes. -/
private theorem releaseChain_eq {l : List Snaplock} (h : (l.map Snaplock.chunk).Nodup)
    (ha : ∀ lock, findSnaplock l c = some lock → a ∈ lock.holdlist) :
    (releaseChain c a l).1 = l.filterMap (HashChain.rewriteKey Snaplock.chunk c (dropHold a)) ∧
      (releaseChain c a l).2 =
        ((findSnaplock l c).map fun lock => if lock.holdlist.erase a = [] then lock.waitlist else []).getD [] := by
  induction l with
  | nil => exact ⟨rfl, rfl⟩
  | cons lock l ih =>
    rw [HashChain.filterMap_rewriteKey_cons h]
    unfold findSnaplock at ha ⊢
    unfold releaseChain
    split_ifs with hc
    · rw [List.find?_cons_of_pos (by simpa using hc)] at ha ⊢
      have hmem : a ∈ lock.holdlist := ha lock rfl
      unfold releaseLock dropHold
      rw [if_neg (not_not_intro hmem), Option.map_some, Option.getD_some]
      by_cases he : lock.holdlist.erase a = []
      · rw [if_neg (not_not_intro he), if_pos he, if_pos he]
        exact ⟨rfl, rfl⟩
      · rw [if_pos he, if_neg he, if_neg he]
        exact ⟨rfl, rfl⟩
    · rw [List.find?_cons_of_neg (by simpa using hc)] at ha ⊢
      have ih := ih (List.nodup_cons.1 h).2 ha
      exact ⟨by rw [ih.1], ih.2⟩

/-- The table after `release_chunk`. -/
def releaseTable (t : Snaplocks) (c a : Nat) : Snaplocks :=
  Function.update t (snaplockHash c) (releaseChain c a (t (snaplockHash c))).1

/-- The wait records that `release_chunk` releases. -/
def releasedWaits (t : Snaplocks) (c a : Nat) : List Nat := (releaseChain c a (t (snaplockHash c))).2

/-- The effect of given up holds on the table: the holds that are left, and the wait records that were released. -/
structure Dropped (t t' : Snaplocks) (left : Nat → List Nat) (released : List Nat) : Prop where
  ok : TableOk t'
  holders : ∀ c, holders t' c = left c
  waiters : ∀ c, waiters t' c = if left c = [] then [] else waiters t c
  records : ∀ w, waitRecords t' w + released.count w = waitRecords t w

/-- The holds that are left when a client gives up one of them. -/
def eraseHold (holds : Nat → List Nat) (c a : Nat) : Nat → List Nat :=
  Function.update holds c ((holds c).erase a)

@[simp] theorem eraseHold_same (holds : Nat → List Nat) (c a : Nat) : eraseHold holds c a c = (holds c).erase a :=
  Function.update_self ..

theorem TableOk.releaseChunk (h : TableOk t) (ha : holders t c = [] ∨ a ∈ holders t c) :
    Dropped t (releaseTable t c a) (eraseHold (holders t) c a) (releasedWaits t c a) := by
  have hmem : ∀ lock, findSnaplock (t (snaplockHash c)) c = some lock → a ∈ lock.holdlist := by
    intro lock hl
    rw [findSnaplock_bucket] at hl
    rcases ha with ha | ha
    · rw [h.lockAt_eq_none.2 ha] at hl
      cases hl
    · simpa [holders, hl] using ha
  obtain ⟨hchain, hreleased⟩ := releaseChain_eq (h.nodup (snaplockHash c)) hmem
  unfold releaseTable releasedWaits
  rw [hchain, hreleased, findSnaplock_bucket]
  change Dropped t (rewriteLock t c (dropHold a)) _ _
  have hg := dropHold_chunk a
  have hel : ∀ lock, lockAt t c = some lock → (holders t c).erase a = lock.holdlist.erase a := by
    intro lock hl
    unfold holders
    rw [hl]
    rfl
  have hholders : ∀ c', holders (rewriteLock t c (dropHold a)) c' = eraseHold (holders t) c a c' := by
    intro c'
    unfold holders eraseHold
    rw [h.lockAt_rewrite hg]
    rcases eq_or_ne c' c with rfl | hc
    · rw [if_pos rfl, Function.update_self]
      cases hl : lockAt t c' with
      | none => simp [hl]
      | some lock =>
        simp only [hl, Option.bind_some, Option.map_some, Option.getD_some]
        unfold dropHold
        split_ifs with he
        · exact he.symm
        · rfl
    · rw [if_neg hc, Function.update_of_ne hc]
  have hok : TableOk (rewriteLock t c (dropHold a)) :=
    h.rewrite hg fun x y hxy _ => (dropHold_holdlist a x y hxy).2.1
  have hwaiters : ∀ c', waiters (rewriteLock t c (dropHold a)) c' =
      if eraseHold (holders t) c a c' = [] then [] else waiters t c' := by
    intro c'
    split_ifs with he
    · exact hok.waiters_eq_nil ((hholders c').trans he)
    · unfold waiters
      rw [h.lockAt_rewrite hg]
      split_ifs with hc
      · subst hc
        cases hl : lockAt t c' with
        | none => rfl
        | some lock =>
          rw [eraseHold_same, hel lock hl] at he
          rw [Option.bind_some, dropHold, if_neg he]
          rfl
      · rfl
  refine ⟨hok, hholders, hwaiters, fun w => ?_⟩
  have hrec := h.waitRecords_rewrite (dropHold a) hg (c := c) w
  rw [hwaiters] at hrec
  cases hl : lockAt t c with
  | none =>
    have : waiters t c = [] := by simp [waiters, hl]
    simpa [this] using hrec
  | some lock =>
    have hwl : waiters t c = lock.waitlist := by simp [waiters, hl]
    rw [eraseHold_same, hel lock hl, hwl] at hrec
    rw [Option.map_some, Option.getD_some]
    split_ifs with he
    · rw [if_pos he, List.count_nil, Nat.add_zero] at hrec
      exact hrec
    · rw [if_neg he] at hrec
      rw [List.count_nil]
      omega

/-! ### `client_locks` -/

/-- What is left of a lock when a client gives up all its holds. -/
def dropClient (a : Nat) (lock : Snaplock) : Option Snaplock :=
  if lock.holdlist.filter (· ≠ a) = [] then none else some { lock with holdlist := lock.holdlist.filter (· ≠ a) }

private theorem dropClient_chunk (a : Nat) (x y : Snaplock) (h : dropClient a x = some y) : y.chunk = x.chunk := by
  unfold dropClient at h
  split_ifs at h
  rw [← Option.some.inj h]

private theorem dropClient_of_notMem {lock : Snaplock} (hne : lock.holdlist ≠ []) (ha : a ∉ lock.holdlist) :
    dropClient a lock = some lock := by
  have hfilter : lock.holdlist.filter (· ≠ a) = lock.holdlist := by
    rw [List.filter_eq_self]
    intro b hb
    simpa using fun e : b = a => ha (e ▸ hb)
  unfold dropClient
  rw [hfilter, if_neg hne]

private theorem filter_erase_self (l : List Nat) (a : Nat) : (l.erase a).filter (· ≠ a) = l.filter (· ≠ a) := by
  induction l with
  | nil => rfl
  | cons b l ih =>
    rcases eq_or_ne b a with rfl | hb
    · rw [List.erase_cons_head, List.filter_cons_of_neg (by simp)]
    · rw [List.erase_cons_tail (by simpa using hb), List.filter_cons_of_pos (by simpa using hb),
        List.filter_cons_of_pos (by simpa using hb), ih]

/-- `client_locks` frees the holds of the client, and no others. -/
private theorem clientChain_eq (a : Nat) {rounds : Nat} {l : List Snaplock} (hr : clientRounds l ≤ rounds)
    (hheld : ∀ lock ∈ l, lock.holdlist ≠ []) : (clientChain a rounds l).1 = l.filterMap (dropClient a) := by
  induction rounds generalizing l with
  | zero =>
    cases l with
    | nil => rfl
    | cons lock next => simp [clientRounds] at hr
  | succ rounds ih =>
    cases l with
    | nil => rfl
    | cons lock next =>
      have hnext : ∀ lock' ∈ next, lock'.holdlist ≠ [] := fun lock' hl => hheld lock' (List.mem_cons_of_mem _ hl)
      simp only [clientRounds, List.map_cons, List.sum_cons] at hr
      unfold clientChain
      split_ifs with ha
      · unfold releaseLock
        rw [if_neg (not_not_intro ha)]
        have hlen : (lock.holdlist.erase a).length + 1 = lock.holdlist.length := by
          rw [List.length_erase_of_mem ha]
          have := List.length_pos_of_mem ha
          omega
        by_cases he : lock.holdlist.erase a = []
        · have hdrop : dropClient a lock = none := by
            rw [dropClient, if_pos]
            rw [← filter_erase_self, he]
            rfl
          rw [if_neg (not_not_intro he), List.filterMap_cons_none hdrop]
          exact ih (by unfold clientRounds; omega) hnext
        · -- the same lock is visited again, with one hold less
          rw [if_pos he]
          have hdrop : dropClient a { lock with holdlist := lock.holdlist.erase a } = dropClient a lock := by
            simp only [dropClient, filter_erase_self]
          have hagain := ih (l := { lock with holdlist := lock.holdlist.erase a } :: next)
            (by simp only [clientRounds, List.map_cons, List.sum_cons]; omega) (by
              intro lock' hl
              rcases List.mem_cons.1 hl with rfl | hl
              · exact he
              · exact hnext lock' hl)
          rw [List.filterMap_cons, hdrop, ← List.filterMap_cons] at hagain
          exact hagain
      · rw [List.filterMap_cons_some (dropClient_of_notMem (hheld lock List.mem_cons_self) ha)]
        exact congrArg (lock :: ·) (ih (by unfold clientRounds; omega) hnext)

/-- The wait records that `client_locks` releases are those of the locks that it unlinks. -/
private theorem clientChain_waits (a w rounds : Nat) (l : List Snaplock) :
    ((clientChain a rounds l).1.map fun lock => lock.waitlist.count w).sum + (clientChain a rounds l).2.count w =
      (l.map fun lock => lock.waitlist.count w).sum := by
  induction rounds generalizing l with
  | zero => simp [clientChain]
  | succ rounds ih =>
    cases l with
    | nil => simp [clientChain]
    | cons lock next =>
      unfold clientChain
      split_ifs with ha
      · unfold releaseLock
        rw [if_neg (not_not_intro ha)]
        split_ifs with he
        · have := ih ({ lock with holdlist := lock.holdlist.erase a } :: next)
          simpa using this
        · have := ih next
          simp only [List.count_append, List.map_cons, List.sum_cons]
          omega
      · have := ih next
        simp only [List.map_cons, List.sum_cons]
        omega

/-- The table after the locks of a client in one chain were freed. -/
def freeTable (t : Snaplocks) (a i : Nat) : Snaplocks :=
  Function.update t i (clientChain a (clientRounds (t i)) (t i)).1

/-- The wait records that are released by it. -/
def freedWaits (t : Snaplocks) (a i : Nat) : List Nat := (clientChain a (clientRounds (t i)) (t i)).2

theorem TableOk.freeChain (h : TableOk t) (a : Nat) {i : Nat} (hi : i < 2 ^ snaplockHashBits) :
    Dropped t (freeTable t a i)
      (fun c => if snaplockHash c = i then (holders t c).filter (· ≠ a) else holders t c) (freedWaits t a i) := by
  have hchain := clientChain_eq a le_rfl (h.held i)
  have hg := dropClient_chunk a
  have hlock : ∀ c, lockAt (freeTable t a i) c =
      if snaplockHash c = i then (lockAt t c).bind (dropClient a) else lockAt t c := by
    intro c
    unfold freeTable
    rw [hchain]
    exact h.toWellPlaced.lookup_rewrite hg i c
  have hok : TableOk (freeTable t a i) := by
    refine ⟨?_, fun j lock hlock => ?_⟩
    · unfold freeTable
      rw [hchain]
      exact h.toWellPlaced.rewrite hg i
    · unfold freeTable at hlock
      rcases eq_or_ne j i with rfl | hj
      · rw [Function.update_self, hchain, List.mem_filterMap] at hlock
        obtain ⟨x, -, hx⟩ := hlock
        unfold dropClient at hx
        split_ifs at hx with he
        rw [← Option.some.inj hx]
        exact he
      · rw [Function.update_of_ne hj] at hlock
        exact h.held j lock hlock
  have hholders : ∀ c, holders (freeTable t a i) c =
      if snaplockHash c = i then (holders t c).filter (· ≠ a) else holders t c := by
    intro c
    unfold holders
    rw [hlock]
    split_ifs
    · cases lockAt t c with
      | none => rfl
      | some lock =>
        rw [Option.bind_some, Option.map_some, Option.getD_some, dropClient]
        split_ifs with he
        · exact he.symm
        · rfl
    · rfl
  refine ⟨hok, hholders, fun c => ?_, fun w => ?_⟩
  · simp only [← hholders c]
    split_ifs with he
    · exact hok.waiters_eq_nil he
    · rw [hholders] at he
      unfold waiters
      rw [hlock]
      split_ifs at he ⊢ with hc
      · cases hl : lockAt t c with
        | none => rfl
        | some lock =>
          unfold holders at he
          rw [hl, Option.map_some, Option.getD_some] at he
          rw [Option.bind_some, dropClient, if_neg he]
          rfl
      · rfl
  · have hsum := clientChain_waits a w (clientRounds (t i)) (t i)
    have htotal := HashChain.total_update (t := t) (fun lock : Snaplock => lock.waitlist.count w) hi
      (clientChain a (clientRounds (t i)) (t i)).1
    unfold waitRecords freeTable freedWaits
    omega

/-- Holds that are given up one after the other. -/
theorem Dropped.trans {t' t'' : Snaplocks} {left left' : Nat → List Nat} {released released' : List Nat}
    (h : Dropped t t' left released) (h' : Dropped t' t'' left' released')
    (hleft : ∀ c, left c = [] → left' c = []) : Dropped t t'' left' (released ++ released') := by
  refine ⟨h'.ok, h'.holders, fun c => ?_, fun w => ?_⟩
  · rw [h'.waiters, h.waiters]
    split_ifs with h1 h2
    · rfl
    · exact absurd (hleft c h2) h1
    · rfl
  · rw [List.count_append, ← h.records, ← h'.records]
    omega

end Ddsnap
