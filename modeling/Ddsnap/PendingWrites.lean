import Ddsnap.LockTable

/-!
# Pending writes and their replies

Every released wait record takes one from the hold count of its pending write, and the last one sends the reply.  What
such a release does to the pending writes and the replies holds for any table (`Answers`).  In a table in order the
hold counts are the numbers of wait records (`Balanced`), and no release of a client's own holds fails.
-/

namespace Ddsnap

variable {clientvec : List Client} {l l' l'' : Locks} {sent sent' : List Reply} {c a w : Nat}

/-! ### Replies -/

/-- 1 for a pending write, and 0 for any other. -/
def pendingCount (l : Locks) (w : Nat) : Nat := if (l.pendings w).isSome then 1 else 0

/-- Some pending writes are answered, each once, to the record behind its pointer; the others keep their requests. -/
structure Answers (clientvec : List Client) (l l' : Locks) (sent : List Reply) : Prop where
  replies : l'.replies = l.replies ++ sent
  pending : ∀ r ∈ sent, ∃ p, l.pendings r.write = some p ∧ r.client = clientAt clientvec p.client ∧
    r.sender = p.sender ∧ r.message = p.message
  once : ∀ w, (sent.map Reply.write).count w + pendingCount l' w = pendingCount l w
  kept : ∀ w p', l'.pendings w = some p' →
    ∃ p, l.pendings w = some p ∧ p'.client = p.client ∧ p'.sender = p.sender ∧ p'.message = p.message

theorem Answers.of_eq (hr : l'.replies = l.replies) (hp : l'.pendings = l.pendings) : Answers clientvec l l' [] := by
  refine ⟨by simp [hr], by simp, fun w => by simp [pendingCount, hp], fun w p' h => ?_⟩
  exact ⟨p', hp ▸ h, rfl, rfl, rfl⟩

private theorem Answers.trans (h : Answers clientvec l l' sent) (h' : Answers clientvec l' l'' sent') :
    Answers clientvec l l'' (sent ++ sent') := by
  refine ⟨by rw [h'.replies, h.replies, List.append_assoc], fun r hr => ?_, fun w => ?_, fun w p'' hp => ?_⟩
  · rcases List.mem_append.1 hr with hr | hr
    · exact h.pending r hr
    · obtain ⟨p', hp', e1, e2, e3⟩ := h'.pending r hr
      obtain ⟨p, hp, k1, k2, k3⟩ := h.kept _ p' hp'
      exact ⟨p, hp, by rw [e1, k1], by rw [e2, k2], by rw [e3, k3]⟩
  · rw [List.map_append, List.count_append, ← h.once w, ← h'.once w]
    omega
  · obtain ⟨p', hp', e1, e2, e3⟩ := h'.kept w p'' hp
    obtain ⟨p, hp, k1, k2, k3⟩ := h.kept w p' hp'
    exact ⟨p, hp, by rw [e1, k1], by rw [e2, k2], by rw [e3, k3]⟩

/-- A loop whose rounds send replies. -/
theorem answers_foldlM {β : Type} {f : Locks → β → Option Locks}
    (hf : ∀ l b l', f l b = some l' → ∃ sent, Answers clientvec l l' sent) {bs : List β}
    (h : bs.foldlM f l = some l') : ∃ sent, Answers clientvec l l' sent := by
  induction bs generalizing l with
  | nil =>
    cases h
    exact ⟨[], .of_eq rfl rfl⟩
  | cons b bs ih =>
    rw [List.foldlM_cons] at h
    obtain ⟨l1, h1, h2⟩ := Option.bind_eq_some_iff.1 h
    obtain ⟨sent, hs⟩ := hf l b l1 h1
    obtain ⟨sent', hs'⟩ := ih h2
    exact ⟨sent ++ sent', hs.trans hs'⟩

private theorem releaseWait_cases (h : releaseWait clientvec l w = some l') :
    ∃ p, l.pendings w = some p ∧
      ((p.holdcount = 1 ∧ l' = { l with
          pendings := Function.update l.pendings w none
          replies := l.replies ++ [⟨w, clientAt clientvec p.client, p.sender, p.message⟩] }) ∨
        (p.holdcount ≠ 1 ∧ l' = { l with
          pendings := Function.update l.pendings w (some { p with holdcount := p.holdcount - 1 }) })) := by
  unfold releaseWait at h
  obtain ⟨p, hp, h⟩ := Option.bind_eq_some_iff.1 h
  split_ifs at h with h0 h1
  · exact ⟨p, hp, .inl ⟨by omega, (Option.some.inj h).symm⟩⟩
  · exact ⟨p, hp, .inr ⟨by omega, (Option.some.inj h).symm⟩⟩

private theorem releaseWait_snaplocks (h : releaseWait clientvec l w = some l') : l'.snaplocks = l.snaplocks := by
  obtain ⟨p, -, ⟨-, rfl⟩ | ⟨-, rfl⟩⟩ := releaseWait_cases h <;> rfl

private theorem releaseWait_answers (h : releaseWait clientvec l w = some l') :
    ∃ sent, Answers clientvec l l' sent := by
  obtain ⟨p, hp, ⟨-, rfl⟩ | ⟨-, rfl⟩⟩ := releaseWait_cases h
  · refine ⟨[⟨w, clientAt clientvec p.client, p.sender, p.message⟩], rfl, ?_, fun v => ?_, fun v p' hv => ?_⟩
    · intro r hr
      rw [List.mem_singleton.1 hr]
      exact ⟨p, hp, rfl, rfl, rfl⟩
    · rcases eq_or_ne v w with rfl | hv
      · simp [pendingCount, hp]
      · simp [pendingCount, Function.update_of_ne hv, hv.symm]
    · have hne : v ≠ w := by
        rintro rfl
        simp at hv
      simp only [Function.update_of_ne hne] at hv
      exact ⟨p', hv, rfl, rfl, rfl⟩
  · refine ⟨[], by simp, by simp, fun v => ?_, fun v p' hv => ?_⟩
    · rcases eq_or_ne v w with rfl | hv
      · simp [pendingCount, hp]
      · simp [pendingCount, Function.update_of_ne hv]
    · rcases eq_or_ne v w with rfl | hne
      · simp only [Function.update_self, Option.some.injEq] at hv
        exact ⟨p, hp, by rw [← hv], by rw [← hv], by rw [← hv]⟩
      · simp only [Function.update_of_ne hne] at hv
        exact ⟨p', hv, rfl, rfl, rfl⟩

private theorem releaseWaits_answers {t : Snaplocks} {ws : List Nat}
    (h : ws.foldlM (releaseWait clientvec) { l with snaplocks := t } = some l') :
    ∃ sent, Answers clientvec l l' sent := by
  obtain ⟨sent, hs⟩ := answers_foldlM (fun _ _ _ => releaseWait_answers) h
  have h0 : Answers clientvec l { l with snaplocks := t } [] := .of_eq rfl rfl
  exact ⟨[] ++ sent, h0.trans hs⟩

/-- The replies of `release_chunk`, in any table. -/
theorem releaseChunk_answers (h : releaseChunk clientvec l a c = some l') : ∃ sent, Answers clientvec l l' sent :=
  releaseWaits_answers h

/-- The replies of `free_client_locks`, in any table. -/
theorem freeClientLocks_answers (h : freeClientLocks clientvec l a = some l') :
    ∃ sent, Answers clientvec l l' sent :=
  answers_foldlM (fun _ _ _ => releaseWaits_answers) h

/-! ### Hold counts -/

/-- The hold counts are the numbers of wait records, up to a surplus. -/
structure Balanced (surplus : Nat → Nat) (l : Locks) : Prop where
  count : ∀ w, ((l.pendings w).map PendingWrite.holdcount).getD 0 = waitRecords l.snaplocks w + surplus w
  positive : ∀ w p, l.pendings w = some p → 0 < p.holdcount

/-- A released wait record uses up one of the surplus. -/
private theorem Balanced.releaseWait (clientvec : List Client) {ws : List Nat} (h : Balanced (w :: ws).count l) :
    ∃ l', releaseWait clientvec l w = some l' ∧ Balanced ws.count l' := by
  have hw := h.count w
  rw [List.count_cons_self] at hw
  cases hp : l.pendings w with
  | none => simp [hp] at hw
  | some p =>
    rw [hp, Option.map_some, Option.getD_some] at hw
    unfold Ddsnap.releaseWait
    rw [hp, Option.bind_eq_bind, Option.bind_some, if_neg (by omega)]
    split_ifs with h1
    · refine ⟨_, rfl, fun v => ?_, fun v p' hv => ?_⟩
      · rcases eq_or_ne v w with rfl | hne
        · simp only [Function.update_self, Option.map_none, Option.getD_none]
          omega
        · have := h.count v
          rw [List.count_cons_of_ne hne.symm] at this
          simpa [Function.update_of_ne hne] using this
      · have hne : v ≠ w := by
          rintro rfl
          simp at hv
        simp only [Function.update_of_ne hne] at hv
        exact h.positive v p' hv
    · refine ⟨_, rfl, fun v => ?_, fun v p' hv => ?_⟩
      · rcases eq_or_ne v w with rfl | hne
        · simp only [Function.update_self, Option.map_some, Option.getD_some]
          omega
        · have := h.count v
          rw [List.count_cons_of_ne hne.symm] at this
          simpa [Function.update_of_ne hne] using this
      · rcases eq_or_ne v w with rfl | hne
        · simp only [Function.update_self, Option.some.injEq] at hv
          rw [← hv]
          change 0 < p.holdcount - 1
          omega
        · simp only [Function.update_of_ne hne] at hv
          exact h.positive v p' hv

private theorem Balanced.releaseWaits (clientvec : List Client) {ws : List Nat} (h : Balanced ws.count l) :
    ∃ l', ws.foldlM (Ddsnap.releaseWait clientvec) l = some l' ∧ Balanced [].count l' ∧
      l'.snaplocks = l.snaplocks := by
  induction ws generalizing l with
  | nil => exact ⟨l, rfl, h, rfl⟩
  | cons w ws ih =>
    obtain ⟨l1, h1, hb1⟩ := h.releaseWait clientvec
    obtain ⟨l2, h2, hb2, ht2⟩ := ih hb1
    refine ⟨l2, ?_, hb2, ht2.trans (releaseWait_snaplocks h1)⟩
    rw [List.foldlM_cons, h1]
    exact h2

/-! ### Locks in order -/

/-- The table is in order, and the hold counts are right. -/
structure LocksOk (l : Locks) : Prop where
  table : TableOk l.snaplocks
  balanced : Balanced [].count l

theorem LocksOk.nil : LocksOk ⟨fun _ => [], fun _ => none, []⟩ := by
  refine ⟨.nil, fun w => ?_, by simp⟩
  simp [waitRecords, HashChain.total]

/-- A write is pending exactly if it waits for some chunk. -/
theorem LocksOk.pendingCount_eq (h : LocksOk l) (w : Nat) :
    pendingCount l w = 0 ↔ ∀ c, w ∉ waiters l.snaplocks c := by
  rw [← h.table.waitRecords_eq_zero]
  have hc := h.balanced.count w
  rw [List.count_nil, Nat.add_zero] at hc
  unfold pendingCount
  cases hp : l.pendings w with
  | none => simpa [hp] using hc.symm
  | some p =>
    have := h.balanced.positive w p hp
    rw [hp, Option.map_some, Option.getD_some] at hc
    simp
    omega

private theorem LocksOk.drop (h : LocksOk l) (clientvec : List Client) {t' : Snaplocks} {left : Nat → List Nat}
    {released : List Nat} (hd : Dropped l.snaplocks t' left released) :
    ∃ l', released.foldlM (releaseWait clientvec) { l with snaplocks := t' } = some l' ∧ LocksOk l' ∧
      l'.snaplocks = t' := by
  have hb : Balanced released.count { l with snaplocks := t' } := by
    refine ⟨fun w => ?_, h.balanced.positive⟩
    have hc := h.balanced.count w
    rw [List.count_nil, Nat.add_zero, ← hd.records w] at hc
    exact hc
  obtain ⟨l', hl', hb', ht'⟩ := hb.releaseWaits clientvec
  exact ⟨l', hl', ⟨by rw [ht']; exact hd.ok, hb'⟩, ht'⟩

/-- The locks after holds were given up. -/
structure Left (l l' : Locks) (left : Nat → List Nat) : Prop where
  ok : LocksOk l'
  dropped : ∃ released, Dropped l.snaplocks l'.snaplocks left released

theorem Left.holders (h : Left l l' left) (c : Nat) : holders l'.snaplocks c = left c := by
  obtain ⟨_, hd⟩ := h.dropped
  exact hd.holders c

private theorem Left.trans {left left' : Nat → List Nat} (h : Left l l' left) (h' : Left l' l'' left')
    (hleft : ∀ c, left c = [] → left' c = []) : Left l l'' left' := by
  obtain ⟨_, hd⟩ := h.dropped
  obtain ⟨_, hd'⟩ := h'.dropped
  exact ⟨h'.ok, _, hd.trans hd' hleft⟩

private theorem LocksOk.left (h : LocksOk l) : Left l l (Ddsnap.holders l.snaplocks) := by
  refine ⟨h, [], h.table, fun _ => rfl, fun c => ?_, fun w => by simp⟩
  split_ifs with hc
  · exact h.table.waiters_eq_nil hc
  · rfl

private theorem LocksOk.releaseChunk (h : LocksOk l) (clientvec : List Client)
    (ha : Ddsnap.holders l.snaplocks c = [] ∨ a ∈ Ddsnap.holders l.snaplocks c) :
    ∃ l', releaseChunk clientvec l a c = some l' ∧ Left l l' (eraseHold (Ddsnap.holders l.snaplocks) c a) := by
  have hd := h.table.releaseChunk ha
  obtain ⟨l', hl', hok, ht⟩ := h.drop clientvec hd
  refine ⟨l', hl', hok, releasedWaits l.snaplocks c a, ?_⟩
  rw [ht]
  exact hd

/-- The releases of a message are of the sender's own holds, or of chunks that nobody holds, each at its turn. -/
def OwnReleases (holds : Nat → List Nat) (a : Nat) : List Nat → Prop
  | [] => True
  | c :: cs => (holds c = [] ∨ a ∈ holds c) ∧ OwnReleases (eraseHold holds c a) a cs

instance decidableOwnReleases (holds : Nat → List Nat) (a : Nat) :
    (cs : List Nat) → Decidable (OwnReleases holds a cs)
  | [] => isTrue trivial
  | c :: cs =>
    have := decidableOwnReleases (eraseHold holds c a) a cs
    inferInstanceAs (Decidable ((holds c = [] ∨ a ∈ holds c) ∧ OwnReleases (eraseHold holds c a) a cs))

/-- The holds that are left after the releases of a message. -/
def eraseHolds (holds : Nat → List Nat) (a : Nat) (cs : List Nat) : Nat → List Nat :=
  cs.foldl (fun holds c => eraseHold holds c a) holds

private theorem eraseHold_eq_nil {holds : Nat → List Nat} {c' : Nat} (h : holds c' = []) : eraseHold holds c a c' =
    [] := by
  unfold eraseHold
  rcases eq_or_ne c' c with rfl | hc
  · rw [Function.update_self, h]; rfl
  · rw [Function.update_of_ne hc, h]

private theorem eraseHolds_eq_nil {holds : Nat → List Nat} {c' : Nat} (cs : List Nat) (h : holds c' = []) :
    eraseHolds holds a cs c' = [] := by
  induction cs generalizing holds with
  | nil => exact h
  | cons c cs ih => exact ih (eraseHold_eq_nil h)

/-- The loop of `FINISH_SNAPSHOT_READ`. -/
theorem LocksOk.releaseChunks (h : LocksOk l) (clientvec : List Client) {cs : List Nat}
    (ha : OwnReleases (Ddsnap.holders l.snaplocks) a cs) :
    ∃ l', cs.foldlM (fun l => Ddsnap.releaseChunk clientvec l a) l = some l' ∧
      Left l l' (eraseHolds (Ddsnap.holders l.snaplocks) a cs) := by
  induction cs generalizing l with
  | nil => exact ⟨l, rfl, h.left⟩
  | cons c cs ih =>
    obtain ⟨l1, h1, hleft1⟩ := h.releaseChunk clientvec ha.1
    have heq : Ddsnap.holders l1.snaplocks = eraseHold (Ddsnap.holders l.snaplocks) c a := funext hleft1.holders
    obtain ⟨l2, h2, hleft2⟩ := ih hleft1.ok (heq ▸ ha.2)
    refine ⟨l2, ?_, ?_⟩
    · rw [List.foldlM_cons, h1]
      exact h2
    · rw [heq] at hleft2
      exact hleft1.trans hleft2 fun c' => eraseHolds_eq_nil cs

/-- The chains of the table up to one of them are freed. -/
private theorem LocksOk.freeChains (h : LocksOk l) (clientvec : List Client) (a : Nat) {n : Nat}
    (hn : n ≤ 2 ^ snaplockHashBits) :
    ∃ l', (List.range n).foldlM (freeChain clientvec a) l = some l' ∧
      Left l l' fun c => if snaplockHash c < n then (Ddsnap.holders l.snaplocks c).filter (· ≠ a)
        else Ddsnap.holders l.snaplocks c := by
  induction n with
  | zero =>
    refine ⟨l, rfl, ?_⟩
    simpa using h.left
  | succ n ih =>
    obtain ⟨l1, h1, hleft1⟩ := ih (by omega)
    have hd := hleft1.ok.table.freeChain a (i := n) (by omega)
    obtain ⟨l2, h2, hok, ht⟩ := hleft1.ok.drop clientvec hd
    have hleft2 : Left l1 l2 _ := ⟨hok, freedWaits l1.snaplocks a n, by rw [ht]; exact hd⟩
    refine ⟨l2, ?_, ?_⟩
    · rw [List.range_succ, List.foldlM_append, h1, Option.bind_eq_bind, Option.bind_some, List.foldlM_cons]
      exact (congrArg (· >>= fun l => some l) h2).trans rfl
    · have htrans := hleft1.trans hleft2 (by
        intro c hc
        rw [hleft1.holders, hc]
        split_ifs <;> rfl)
      have heq : (fun c => if snaplockHash c = n then (Ddsnap.holders l1.snaplocks c).filter (· ≠ a)
          else Ddsnap.holders l1.snaplocks c) = fun c => if snaplockHash c < n + 1 then
          (Ddsnap.holders l.snaplocks c).filter (· ≠ a) else Ddsnap.holders l.snaplocks c := by
        funext c
        rw [hleft1.holders]
        by_cases hlt : snaplockHash c < n
        · rw [if_neg (by omega), if_pos hlt, if_pos (by omega)]
        · rw [if_neg hlt]
          by_cases he : snaplockHash c = n
          · rw [if_pos he, if_pos (by omega)]
          · rw [if_neg he, if_neg (by omega)]
      rw [heq] at htrans
      exact htrans

/-- `free_client_locks` frees all holds of the client. -/
theorem LocksOk.freeClientLocks (h : LocksOk l) (clientvec : List Client) (a : Nat) :
    ∃ l', freeClientLocks clientvec l a = some l' ∧
      Left l l' fun c => (Ddsnap.holders l.snaplocks c).filter (· ≠ a) := by
  obtain ⟨l', hl', hleft⟩ := h.freeChains clientvec a le_rfl
  simp only [snaplockHash_lt, if_true] at hleft
  exact ⟨l', hl', hleft⟩

/-! ### `waitfor_chunk` -/

/-- The locks after a write has asked for some chunks: it waits for those that are held.  Its pending structure still
has the hold of the request itself. -/
structure Waits (l l' : Locks) (cs : List Nat) (w : Nat) : Prop where
  table : TableOk l'.snaplocks
  balanced : Balanced (fun v => if v = w then pendingCount l' w else 0) l'
  replies : l'.replies = l.replies
  pendings : ∀ v ≠ w, l'.pendings v = l.pendings v
  pending : (l'.pendings w).isSome ↔ ∃ c ∈ cs, holders l.snaplocks c ≠ []
  holders : ∀ c, Ddsnap.holders l'.snaplocks c = Ddsnap.holders l.snaplocks c
  waiters : ∀ c v, v ∈ Ddsnap.waiters l'.snaplocks c ↔
    v ∈ Ddsnap.waiters l.snaplocks c ∨ (v = w ∧ c ∈ cs ∧ Ddsnap.holders l.snaplocks c ≠ [])

theorem LocksOk.waits (h : LocksOk l) (hw : l.pendings w = none) : Waits l l [] w := by
  refine ⟨h.table, ⟨fun v => ?_, h.balanced.positive⟩, rfl, fun _ _ => rfl, by simp [hw], fun _ => rfl, by simp⟩
  have := h.balanced.count v
  rw [List.count_nil] at this
  rw [this]
  split_ifs
  · simp [pendingCount, hw]
  · rfl

/-- The table after a wait record was pushed. -/
private theorem TableOk.pushWait {t : Snaplocks} (h : TableOk t) (hc : Ddsnap.holders t c ≠ []) (w : Nat) :
    let t' := Function.update t (snaplockHash c)
      (modifySnaplock c (fun lock => { lock with waitlist := w :: lock.waitlist }) (t (snaplockHash c)))
    TableOk t' ∧ (∀ c', Ddsnap.holders t' c' = Ddsnap.holders t c') ∧
      (∀ c', Ddsnap.waiters t' c' = if c' = c then w :: Ddsnap.waiters t c else Ddsnap.waiters t c') ∧
      ∀ v, waitRecords t' v = waitRecords t v + if v = w then 1 else 0 := by
  obtain ⟨lock, hl⟩ := Option.ne_none_iff_exists'.1 fun hn => hc (h.lockAt_eq_none.1 hn)
  let g : Snaplock → Option Snaplock := fun lock => some { lock with waitlist := w :: lock.waitlist }
  have hg : ∀ x y, g x = some y → y.chunk = x.chunk := by rintro x y ⟨⟩; rfl
  intro t'
  have ht : t' = rewriteLock t c g := by
    unfold t' rewriteLock
    rw [modifySnaplock_eq (h.nodup _)]
  rw [ht]
  have hwaiters : ∀ c', Ddsnap.waiters (rewriteLock t c g) c' =
      if c' = c then w :: Ddsnap.waiters t c else Ddsnap.waiters t c' := by
    intro c'
    unfold Ddsnap.waiters
    rw [h.lockAt_rewrite hg, hl]
    split_ifs <;> rfl
  refine ⟨h.rewrite hg (by rintro x y ⟨⟩ hx; exact hx), fun c' => ?_, hwaiters, fun v => ?_⟩
  · unfold Ddsnap.holders
    rw [h.lockAt_rewrite hg]
    split_ifs with hc'
    · rw [hc', hl]; rfl
    · rfl
  · have := h.waitRecords_rewrite g hg (c := c) v
    rw [hwaiters, if_pos rfl, List.count_cons] at this
    split_ifs with hv
    · simp only [hv, beq_self_eq_true, if_true] at this ⊢
      omega
    · have hne : (w == v) = false := by simpa using fun e : w = v => hv e.symm
      simp only [hne] at this
      simpa using this

private theorem Waits.waitforChunk {cs : List Nat} (h : Waits l l' cs w) (c : Nat) :
    Waits l (waitforChunk l' c w) (cs ++ [c]) w := by
  by_cases hc : Ddsnap.holders l'.snaplocks c = []
  · have hnone : findSnaplock (l'.snaplocks (snaplockHash c)) c = none := h.table.lockAt_eq_none.2 hc
    have hc' : Ddsnap.holders l.snaplocks c = [] := by rw [← h.holders, hc]
    unfold Ddsnap.waitforChunk
    dsimp only
    rw [if_pos hnone]
    refine ⟨h.table, h.balanced, h.replies, h.pendings, ?_, h.holders, fun c' v => ?_⟩
    · rw [h.pending]
      simp only [List.mem_append, List.mem_singleton, or_and_right, exists_or, exists_eq_left, hc', ne_eq,
        not_true_eq_false, or_false]
    · rw [h.waiters]
      have : ∀ hc'' : c' = c, Ddsnap.holders l.snaplocks c' = [] := fun e => e ▸ hc'
      simp only [List.mem_append, List.mem_singleton]
      tauto
  · have hsome : findSnaplock (l'.snaplocks (snaplockHash c)) c ≠ none := fun hn => hc (h.table.lockAt_eq_none.1 hn)
    have hc' : Ddsnap.holders l.snaplocks c ≠ [] := by rw [← h.holders]; exact hc
    obtain ⟨htable, hholders, hwaiters, hrecords⟩ := h.table.pushWait hc w
    unfold Ddsnap.waitforChunk
    dsimp only
    rw [if_neg hsome]
    refine ⟨htable, ⟨fun v => ?_, fun v p hp => ?_⟩, h.replies, fun v hv => ?_, ?_, fun c' => ?_, fun c' v => ?_⟩
    · have hcount := h.balanced.count v
      simp only [hrecords]
      rcases eq_or_ne v w with rfl | hv
      · rw [Function.update_self, Option.map_some, Option.getD_some]
        cases hp : l'.pendings v with
        | none =>
          simp only [pendingCount, hp, Option.map_none, Option.getD_none, Option.isSome_none, Bool.false_eq_true,
            if_false, if_true, Function.update_self, Option.isSome_some] at hcount ⊢
          omega
        | some p =>
          simp only [pendingCount, hp, Option.map_some, Option.getD_some, Option.isSome_some, if_true,
            Function.update_self] at hcount ⊢
          omega
      · rw [Function.update_of_ne hv, if_neg hv, if_neg hv]
        rw [if_neg hv] at hcount
        exact hcount
    · rcases eq_or_ne v w with rfl | hv
      · simp only [Function.update_self, Option.some.injEq] at hp
        rw [← hp]
        exact Nat.succ_pos _
      · simp only [Function.update_of_ne hv] at hp
        exact h.balanced.positive v p hp
    · simp only [Function.update_of_ne hv]
      exact h.pendings v hv
    · simp only [Function.update_self, Option.isSome_some, true_iff]
      exact ⟨c, by simp, hc'⟩
    · rw [hholders, h.holders]
    · rw [hwaiters]
      split_ifs with he
      · subst he
        rw [List.mem_cons, h.waiters]
        simp only [List.mem_append, List.mem_singleton]
        tauto
      · rw [h.waiters]
        simp only [List.mem_append, List.mem_singleton, he, or_false]

theorem Waits.waitforChunks {cs : List Nat} (h : Waits l l' cs w) (cs' : List Nat) :
    Waits l (cs'.foldl (fun l c => Ddsnap.waitforChunk l c w) l') (cs ++ cs') w := by
  induction cs' generalizing l' cs with
  | nil => simpa using h
  | cons c cs' ih => simpa using ih (h.waitforChunk c)

end Ddsnap
