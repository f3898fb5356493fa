import Ddsnap.DaemonStep

/-!
# Blocked writes

An origin write that finds some of its chunks locked is left pending.  In a run whose releases are orderly, that is of
locks that the sender holds or that nobody holds, every write is answered exactly once: at once if none of its chunks is
held, and otherwise in the step that releases the last lock that it waits for.
-/

namespace Ddsnap

variable {D : Type} {d d' : Daemon D} {e : Event} {a w : Nat}

/-! ### Orderly runs -/

/-- `check_client_locks`: whether a client holds some lock. -/
def checkClientLocks (t : Snaplocks) (a : Nat) : Bool :=
  (List.range (2 ^ snaplockHashBits)).any fun i => (t i).any fun lock => a ∈ lock.holdlist

theorem TableOk.checkClientLocks_eq_false {t : Snaplocks} (h : TableOk t) :
    checkClientLocks t a = false ↔ ∀ c, a ∉ holders t c := by
  simp only [checkClientLocks, List.any_eq_false, List.mem_range, decide_eq_true_eq, List.any_eq_true, not_exists,
    not_and]
  constructor
  · intro h0 c ha
    cases hl : lockAt t c with
    | none => simp [holders, hl] at ha
    | some lock =>
      simp only [holders, hl, Option.map_some, Option.getD_some] at ha
      exact h0 _ (snaplockHash_lt c) lock (h.lockAt_eq_some.1 hl).1 ha
  · intro h0 i _ lock hlock ha
    have hl : lockAt t lock.chunk = some lock := h.toWellPlaced.lookup_of_mem hlock
    exact h0 lock.chunk (by simpa [holders, hl] using ha)

/-- Clients release chunks that they hold or that nobody holds, and a client that disconnects without being marked as
a snapshot client holds nothing. -/
def Orderly (d : Daemon D) : Event → Prop
  | .message a (.finishSnapshotRead ranges) => OwnReleases (holders d.locks.snaplocks) a (rangeChunks ranges)
  | .disconnect a => ∀ client ∈ d.clientvec, client.address = a →
      client.snapclient ∨ checkClientLocks d.locks.snaplocks a = false
  | _ => True

instance (d : Daemon D) : (e : Event) → Decidable (Orderly d e)
  | .message a (.finishSnapshotRead ranges) => decidableOwnReleases _ a (rangeChunks ranges)
  | .disconnect a => inferInstanceAs (Decidable (∀ client ∈ d.clientvec, client.address = a →
      client.snapclient ∨ checkClientLocks d.locks.snaplocks a = false))
  | .connect .. | .message _ (.queryWrite ..) | .message _ (.querySnapshotRead ..) | .message _ (.identify ..)
  | .message _ .uploadLock | .message _ (.createSnapshot ..) | .message _ (.deleteSnapshot ..)
  | .message _ (.priority ..) | .message _ (.usecount ..) => isTrue trivial

/-- The locks are in order, and every write so far is pending or was answered once. -/
structure WritesOk (d : Daemon D) : Prop where
  locks : LocksOk d.locks
  once : ∀ w, (d.locks.replies.map Reply.write).count w + pendingCount d.locks w = if w < d.writes then 1 else 0

/-- A write is answered in a step exactly if the step leaves none of the locks held that it waits for, and a new write
whose copies succeed is answered exactly if none of its chunks is held. -/
structure Answered (d : Daemon D) (e : Event) (d' : Daemon D) (sent : List Reply) : Prop where
  replies : d'.locks.replies = d.locks.replies ++ sent
  blocked : ∀ w, (d.locks.pendings w).isSome → ((sent.map Reply.write).count w = 1 ↔
    ∀ c, w ∈ waiters d.locks.snaplocks c → holders d'.locks.snaplocks c = [])
  arrived : ∀ a id ranges client sb, e = .message a (.queryWrite id ranges) → clientAt d.clientvec a = some client →
    client.snaptag = originTag → originWrite d.sb ranges = some (true, sb) →
      ((sent.map Reply.write).count d.writes = 1 ↔ ∀ c ∈ rangeChunks ranges, holders d.locks.snaplocks c = []) ∧
      ∀ c, d.writes ∈ waiters d'.locks.snaplocks c ↔ c ∈ rangeChunks ranges ∧ holders d.locks.snaplocks c ≠ []

theorem WritesOk.pendings_writes (h : WritesOk d) : d.locks.pendings d.writes = none := by
  have := h.once d.writes
  rw [if_neg (lt_irrefl _)] at this
  unfold pendingCount at this
  cases hp : d.locks.pendings d.writes with
  | none => rfl
  | some p => simp [hp] at this

/-- The bookkeeping of a step that is not a new write. -/
private theorem WritesOk.answers (h : WritesOk d) (e : Event) {clientvec : List Client} {sent : List Reply}
    (ha : Answers clientvec d.locks d'.locks sent) (hok : LocksOk d'.locks) (hwrites : d'.writes = d.writes)
    (hw : ∀ c, waiters d'.locks.snaplocks c =
      if holders d'.locks.snaplocks c = [] then [] else waiters d.locks.snaplocks c)
    (he : ∀ a id ranges client, e = .message a (.queryWrite id ranges) → clientAt d.clientvec a = some client →
      client.snaptag ≠ originTag) : WritesOk d' ∧ Answered d e d' sent := by
  refine ⟨⟨hok, fun w => ?_⟩, ha.replies, fun w hp => ?_, fun a id ranges client sb h1 h2 h3 _ => ?_⟩
  · rw [hwrites, ← h.once w, ← ha.once w, ha.replies, List.map_append, List.count_append]
    omega
  · have hone := ha.once w
    have hpending : pendingCount d.locks w = 1 := by simp [pendingCount, hp]
    rw [hpending] at hone
    rw [show (sent.map Reply.write).count w = 1 ↔ pendingCount d'.locks w = 0 by omega, hok.pendingCount_eq]
    constructor
    · intro hnone c hc
      by_contra hheld
      exact hnone c (by rw [hw, if_neg hheld]; exact hc)
    · intro hall c hc
      rw [hw] at hc
      split_ifs at hc with hheld
      · cases hc
      · exact hheld (hall c hc)
  · exact absurd h3 (he a id ranges client h1 h2)

/-- The end of a write leaves the locks in order. -/
theorem finishWrite_spec {l l' : Locks} {cs : List Nat} (h : Waits l l' cs w) (client : Client)
    (message : WriteReply) : LocksOk (finishWrite l' client w message) ∧
      (finishWrite l' client w message).snaplocks = l'.snaplocks ∧
      (∀ v ≠ w, (finishWrite l' client w message).pendings v = l.pendings v) ∧
      ((∃ c ∈ cs, holders l.snaplocks c ≠ []) →
        ((finishWrite l' client w message).pendings w).isSome ∧
          (finishWrite l' client w message).replies = l.replies) ∧
      ((∀ c ∈ cs, holders l.snaplocks c = []) →
        (finishWrite l' client w message).pendings w = none ∧
          (finishWrite l' client w message).replies =
            l.replies ++ [⟨w, some client, client.connection, message⟩]) := by
  unfold finishWrite
  cases hp : l'.pendings w with
  | none =>
    have hnone : ¬∃ c ∈ cs, holders l.snaplocks c ≠ [] := by rw [← h.pending, hp]; simp
    refine ⟨⟨h.table, fun v => ?_, h.balanced.positive⟩, rfl, h.pendings, fun hc => absurd hc hnone, fun _ => ?_⟩
    · have := h.balanced.count v
      rw [this, List.count_nil]
      split_ifs with hv
      · simp [pendingCount, hp]
      · rfl
    · exact ⟨hp, by rw [h.replies]⟩
  | some p =>
    obtain ⟨c, hc, hheld⟩ := h.pending.1 (by rw [hp]; rfl)
    have hcount := h.balanced.count w
    rw [hp, if_pos rfl, Option.map_some, Option.getD_some] at hcount
    have hpc : pendingCount l' w = 1 := by simp [pendingCount, hp]
    -- the write waits for a chunk, so that its hold count stays positive
    have hrec : waitRecords l'.snaplocks w ≠ 0 := fun h0 =>
      h.table.waitRecords_eq_zero.1 h0 c ((h.waiters c w).2 (.inr ⟨rfl, hc, hheld⟩))
    refine ⟨⟨h.table, fun v => ?_, fun v p' hv => ?_⟩, rfl, fun v hv => ?_, fun _ => ?_, fun hall => ?_⟩
    · rcases eq_or_ne v w with rfl | hv
      · simp only [Function.update_self, Option.map_some, Option.getD_some, List.count_nil]
        omega
      · simp only [Function.update_of_ne hv]
        have := h.balanced.count v
        rw [if_neg hv] at this
        exact this
    · rcases eq_or_ne v w with rfl | hv'
      · simp only [Function.update_self, Option.some.injEq] at hv
        rw [← hv]
        change 0 < p.holdcount - 1
        omega
      · simp only [Function.update_of_ne hv'] at hv
        exact h.balanced.positive v p' hv
    · simp only [Function.update_of_ne hv]
      exact h.pendings v hv
    · exact ⟨by simp, h.replies⟩
    · exact absurd (hall c hc) hheld

/-- The bookkeeping of a new write. -/
private theorem WritesOk.write {id : Nat} {ranges : List (Nat × Nat)} {client : Client} {ok : Bool} {sb : Sb D}
    {locks : Locks} (h : WritesOk d)
    (hquery : queryChunks d.writes d.sb d.locks (rangeChunks ranges) = some (ok, sb, locks))
    (hlocks : d'.locks = finishWrite locks client d.writes ⟨ok, id, ranges⟩) (hwrites : d'.writes = d.writes + 1) :
    WritesOk d' ∧ ∃ sent, Answered d (.message a (.queryWrite id ranges)) d' sent := by
  obtain ⟨waited, hall, rfl⟩ := queryChunks_waits hquery
  have hwaits := (h.locks.waits h.pendings_writes).waitforChunks waited
  rw [List.nil_append] at hwaits
  obtain ⟨hok, htable, hothers, hpending, hanswered⟩ := finishWrite_spec hwaits client ⟨ok, id, ranges⟩
  rw [← hlocks] at hok htable hothers hpending hanswered
  have hwaiters : ∀ c v, v ∈ waiters d'.locks.snaplocks c ↔ v ∈ waiters d.locks.snaplocks c ∨
      (v = d.writes ∧ c ∈ waited ∧ holders d.locks.snaplocks c ≠ []) := by
    intro c v
    rw [htable]
    exact hwaits.waiters c v
  have hholders : ∀ c, holders d'.locks.snaplocks c = holders d.locks.snaplocks c := by
    intro c
    rw [htable]
    exact hwaits.holders c
  have hnew : ∀ c, d.writes ∉ waiters d.locks.snaplocks c := by
    rw [← h.locks.pendingCount_eq]
    simp [pendingCount, h.pendings_writes]
  -- a write that was pending before waits for a lock that is still held
  have hblocked : ∀ w, (d.locks.pendings w).isSome →
      ∃ c, w ∈ waiters d.locks.snaplocks c ∧ holders d'.locks.snaplocks c ≠ [] := by
    intro w hw
    by_contra hnone
    have h0 : pendingCount d.locks w = 0 := by
      rw [h.locks.pendingCount_eq]
      intro c hc
      exact hnone ⟨c, hc, fun hheld => by
        rw [hholders] at hheld
        rw [h.locks.table.waiters_eq_nil hheld] at hc
        cases hc⟩
    simp [pendingCount, hw] at h0
  have hne : ∀ w, (d.locks.pendings w).isSome → w ≠ d.writes := by
    rintro w hw rfl
    rw [h.pendings_writes] at hw
    cases hw
  have hcount : ∀ w, w ≠ d.writes → pendingCount d'.locks w = pendingCount d.locks w := fun w hw => by
    unfold pendingCount
    rw [hothers w hw]
  have honce := h.once
  have hfresh := h.once d.writes
  simp only [pendingCount, h.pendings_writes, lt_irrefl, if_false, Option.isSome_none, Bool.false_eq_true] at hfresh
  have hlt : ∀ w, w ≠ d.writes → (w < d.writes + 1 ↔ w < d.writes) := by omega
  have harrived : ∀ sent : List Reply, (sent.map Reply.write).count d.writes =
      (if ∀ c ∈ waited, holders d.locks.snaplocks c = [] then 1 else 0) → ∀ a' id' ranges' client' sb',
      Event.message a (.queryWrite id ranges) = .message a' (.queryWrite id' ranges') →
      clientAt d.clientvec a' = some client' → client'.snaptag = originTag →
      originWrite d.sb ranges' = some (true, sb') →
      ((sent.map Reply.write).count d.writes = 1 ↔ ∀ c ∈ rangeChunks ranges', holders d.locks.snaplocks c = []) ∧
      ∀ c, d.writes ∈ waiters d'.locks.snaplocks c ↔
        c ∈ rangeChunks ranges' ∧ holders d.locks.snaplocks c ≠ [] := by
    intro sent hsent a' id' ranges' client' sb' he _ _ hor
    cases he
    rw [hall (queryChunks_ok hquery hor)] at hsent hwaiters
    refine ⟨?_, fun c => ?_⟩
    · rw [hsent]
      split_ifs with hc
      · simpa using hc
      · simpa using hc
    · rw [hwaiters]
      simp [hnew c]
  by_cases hc : ∀ c ∈ waited, holders d.locks.snaplocks c = []
  · obtain ⟨hp, hr⟩ := hanswered hc
    refine ⟨⟨hok, fun w => ?_⟩, _, hr, fun w hw => ?_, harrived _ (by rw [if_pos hc]; simp)⟩
    · rw [hr, hwrites, List.map_append, List.count_append]
      rcases eq_or_ne w d.writes with rfl | hw
      · simp [pendingCount, hp]
        omega
      · rw [hcount w hw]
        simp only [List.map_cons, List.map_nil, List.count_cons_of_ne hw.symm, List.count_nil, hlt w hw]
        exact honce w
    · obtain ⟨c, hc1, hc2⟩ := hblocked w hw
      rw [List.map_singleton, List.count_cons_of_ne (hne w hw).symm]
      simp only [List.count_nil, zero_ne_one, false_iff, not_forall]
      exact ⟨c, hc1, hc2⟩
  · obtain ⟨hp, hr⟩ := hpending (by push Not at hc; exact hc)
    refine ⟨⟨hok, fun w => ?_⟩, [], by rw [hr, List.append_nil], fun w hw => ?_, harrived _ (by rw [if_neg hc]; rfl)⟩
    · rw [hr, hwrites]
      rcases eq_or_ne w d.writes with rfl | hw
      · simp [pendingCount, hp]
        omega
      · rw [hcount w hw]
        simp only [hlt w hw]
        exact honce w
    · obtain ⟨c, hc1, hc2⟩ := hblocked w hw
      simp only [List.map_nil, List.count_nil, zero_ne_one, false_iff, not_forall]
      exact ⟨c, hc1, hc2⟩

/-- The holds after a client took another one. -/
def takeHold (holds : Nat → List Nat) (c a : Nat) : Nat → List Nat := Function.update holds c (a :: holds c)

/-- The holds after a read. -/
def takeHolds (holds : Nat → List Nat) (a : Nat) (cs : List Nat) : Nat → List Nat :=
  cs.foldl (fun holds c => takeHold holds c a) holds

/-- The locks after a read. -/
theorem LocksOk.readlockChunks {l : Locks} (h : LocksOk l) (a : Nat) (cs : List Nat) :
    let l' : Locks := { l with snaplocks := cs.foldl (fun t c => readlockChunk t c a) l.snaplocks }
    LocksOk l' ∧ (∀ c, waiters l'.snaplocks c = waiters l.snaplocks c) ∧
      holders l'.snaplocks = takeHolds (holders l.snaplocks) a cs := by
  induction cs generalizing l with
  | nil => exact ⟨h, fun _ => rfl, rfl⟩
  | cons c cs ih =>
    have hheld := h.table.readlockChunk c a
    have hok : LocksOk { l with snaplocks := readlockChunk l.snaplocks c a } := by
      refine ⟨hheld.ok, fun w => ?_, h.balanced.positive⟩
      rw [hheld.records]
      exact h.balanced.count w
    obtain ⟨h1, h2, h3⟩ := ih hok
    refine ⟨h1, fun c' => (h2 c').trans (hheld.waiters c'), h3.trans ?_⟩
    have : holders (readlockChunk l.snaplocks c a) = takeHold (holders l.snaplocks) c a := by
      funext c'
      rw [hheld.holders, takeHold, Function.update_apply]
    rw [this]
    rfl

/-- An orderly event keeps the books, and answers the writes that it should. -/
theorem WritesOk.step (h : WritesOk d) (ho : Orderly d e) (hs : d.step e = some d') :
    WritesOk d' ∧ ∃ sent, Answered d e d' sent := by
  -- with the table unchanged, a lock that nobody holds has no waiters
  have hsame : ∀ c, waiters d.locks.snaplocks c =
      if holders d.locks.snaplocks c = [] then [] else waiters d.locks.snaplocks c := by
    intro c
    split_ifs with hc
    · exact h.locks.table.waiters_eq_nil hc
    · rfl
  cases d.step_locks hs with
  | quiet hlocks hwrites _ _ _ hwrite =>
    have ha : Answers d.clientvec d.locks d'.locks [] := .of_eq (by rw [hlocks]) (by rw [hlocks])
    obtain ⟨h1, h2⟩ := h.answers e ha (by rw [hlocks]; exact h.locks) hwrites (by rw [hlocks]; exact hsame) hwrite
    exact ⟨h1, _, h2⟩
  | leave hclient hsnap hlocks hwrites =>
    have ha : Answers d.clientvec d.locks d'.locks [] := .of_eq (by rw [hlocks]) (by rw [hlocks])
    obtain ⟨h1, h2⟩ := h.answers (.disconnect _) ha (by rw [hlocks]; exact h.locks) hwrites
      (by rw [hlocks]; exact hsame) (by simp)
    exact ⟨h1, _, h2⟩
  | read hclient hreply hlocks hwrites =>
    rename_i a ranges client reply
    have ha : Answers d.clientvec d.locks d'.locks [] := .of_eq (by rw [hlocks]) (by rw [hlocks])
    obtain ⟨hok, hw, -⟩ := h.locks.readlockChunks a reply.org
    rw [← hlocks] at hok hw
    obtain ⟨h1, h2⟩ := h.answers (.message a (.querySnapshotRead ranges)) ha hok hwrites (by
      intro c
      split_ifs with hc
      · exact hok.table.waiters_eq_nil hc
      · exact hw c) (by simp)
    exact ⟨h1, _, h2⟩
  | finish hclient hlocks hwrites =>
    rename_i a ranges client
    obtain ⟨l', hl', hleft⟩ := h.locks.releaseChunks d.clientvec ho
    rw [hlocks] at hl'
    cases hl'
    obtain ⟨sent, ha⟩ := answers_foldlM (fun _ _ _ => releaseChunk_answers) hlocks
    obtain ⟨released, hd⟩ := hleft.dropped
    obtain ⟨h1, h2⟩ := h.answers (.message a (.finishSnapshotRead ranges)) ha hleft.ok hwrites (by
      intro c
      rw [hd.waiters, hd.holders]) (by simp)
    exact ⟨h1, _, h2⟩
  | free hclient hsnap hlocks hwrites =>
    rename_i a client
    obtain ⟨l', hl', hleft⟩ := h.locks.freeClientLocks d.clientvec a
    rw [hlocks] at hl'
    cases hl'
    obtain ⟨sent, ha⟩ := freeClientLocks_answers hlocks
    obtain ⟨released, hd⟩ := hleft.dropped
    obtain ⟨h1, h2⟩ := h.answers (.disconnect a) ha hleft.ok hwrites (by
      intro c
      rw [hd.waiters, hd.holders]) (by simp)
    exact ⟨h1, _, h2⟩
  | write hclient htag hquery hlocks hwrites => exact h.write hquery hlocks hwrites

theorem WritesOk.start (sb : Sb D) (orgoffset : Nat) : WritesOk (Daemon.start sb orgoffset) := by
  refine ⟨.nil, fun w => ?_⟩
  simp [Daemon.start, pendingCount]

private theorem writesOk_of_run (h : Reach.Run Daemon.step Orderly Daemon.Init d) : WritesOk d := by
  apply h.invariant
  · rintro d ⟨sb, orgoffset, rfl⟩
    exact .start sb orgoffset
  · intro d e d' hd ho hs
    exact (hd.step ho hs).1

/-- In every orderly run the hold count of a pending write is the number of its wait records, every write is pending or
was answered exactly once, and it is answered in the step that leaves none of its locks held. -/
theorem blocked_writes_answered_once (h : Reach.Run Daemon.step Orderly Daemon.Init d) :
    (∀ w p, d.locks.pendings w = some p → p.holdcount = waitRecords d.locks.snaplocks w) ∧
      (∀ w, (d.locks.replies.map Reply.write).count w + pendingCount d.locks w = if w < d.writes then 1 else 0) ∧
      ∀ e d', Orderly d e → d.step e = some d' → ∃ sent, Answered d e d' sent := by
  have hd := writesOk_of_run h
  refine ⟨fun w p hp => ?_, hd.once, fun e d' ho hs => (hd.step ho hs).2⟩
  have := hd.locks.balanced.count w
  rwa [hp, Option.map_some, Option.getD_some, List.count_nil, Nat.add_zero] at this

/-- Two snapshot clients read chunks that the origin client then writes, and one of them releases its locks. -/
def blockingEvents : List Event :=
  sharedEvents ++ [.message 1 (.querySnapshotRead [(5, 2)]), .message 2 (.querySnapshotRead [(6, 1)]),
    .message 9 (.queryWrite 1 [(5, 1), (6, 1), (5, 1)]), .message 1 (.finishSnapshotRead [(5, 2)])]

def blockingRun : Daemon Nat := (Reach.exec Daemon.step Orderly tinyDaemon blockingEvents).getD tinyDaemon

private theorem blockingRun_run : Reach.Run Daemon.step Orderly Daemon.Init blockingRun :=
  (Reach.Run.start tinyDaemon_init).exec_getD blockingEvents

/-- The write waits for the one lock that is left, and is answered in the step that releases it. -/
theorem blocked_writes_answered_once_last : ((blockingRun.locks.pendings 0).map PendingWrite.holdcount) = some 1 ∧
    ∃ d', blockingRun.step (.message 2 (.finishSnapshotRead [(6, 1)])) = some d' ∧
      ∃ sent, Answered blockingRun (.message 2 (.finishSnapshotRead [(6, 1)])) d' sent := by
  refine ⟨by decide +kernel, ?_⟩
  obtain ⟨d', hd⟩ := Option.isSome_iff_exists.1
    (by decide +kernel : (blockingRun.step (.message 2 (.finishSnapshotRead [(6, 1)]))).isSome = true)
  exact ⟨d', hd, (blocked_writes_answered_once blockingRun_run).2.2 _ d' (by decide +kernel) hd⟩

end Ddsnap
