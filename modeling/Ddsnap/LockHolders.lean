import Ddsnap.BlockedWrites

/-!
# Locks are dropped by their holders

The abstract lock manager keeps, for every chunk, the connections that hold it: a read adds the sender, a release by the
sender and the end of its connection remove it, and nothing else does.  In an orderly run the lock table is that of the
abstract manager.  A release by a client that does not hold the lock cuts the chain of the table at that lock, and the
holds of other clients are lost.
-/

namespace Ddsnap

variable {D : Type} {a k : Nat} {f : Nat → Option Nat} {holders' holds : Nat → List Nat}

/-! ### The abstract manager -/

/-- The daemon together with the abstract manager. -/
structure Locking (D : Type) where
  daemon : Daemon D
  holds : Nat → List Nat

/-- What an event does to the holds. -/
def holdsAfter (d : Daemon D) (holds : Nat → List Nat) : Event → Nat → List Nat
  | .message a (.querySnapshotRead ranges) =>
    match clientAt d.clientvec a with
    | none => holds
    | some client =>
      match d.snapshotRead client ranges with
      | none => holds
      | some (reply, _) => takeHolds holds client.connection reply.org
  | .message a (.finishSnapshotRead ranges) =>
    match clientAt d.clientvec a with
    | none => holds
    | some client => eraseHolds holds client.connection (rangeChunks ranges)
  | .disconnect a =>
    match clientAt d.clientvec a with
    | none => holds
    | some client => fun c => (holds c).filter (· ≠ client.connection)
  | _ => holds

/-- An event of the daemon, followed by the abstract manager. -/
def Locking.step (s : Locking D) (e : Event) : Option (Locking D) :=
  (s.daemon.step e).map fun d => ⟨d, holdsAfter s.daemon s.holds e⟩

/-- Nobody is connected, and nothing is held. -/
def Locking.Init (s : Locking D) : Prop := s.daemon.Init ∧ s.holds = fun _ => []

private theorem holdsAfter_quiet {d : Daemon D} {e : Event}
    (hread : ∀ a ranges, e ≠ .message a (.querySnapshotRead ranges))
    (hfinish : ∀ a ranges, e ≠ .message a (.finishSnapshotRead ranges)) (hleave : ∀ a, e ≠ .disconnect a) :
    holdsAfter d holds e = holds := by
  unfold holdsAfter
  split
  · exact absurd rfl (hread _ _)
  · exact absurd rfl (hfinish _ _)
  · exact absurd rfl (hleave _)
  · rfl

/-! ### Addresses and connections -/

/-- The holders of the table, by address, are those of the abstract manager, by connection. -/
def SameHolds (f : Nat → Option Nat) (holders holds : Nat → List Nat) : Prop :=
  ∀ c, (holders c).map f = (holds c).map some

private theorem SameHolds.mem (h : SameHolds f holders' holds) {c : Nat} (ha : a ∈ holders' c) : ∃ k ∈ holds c, f a =
    some k := by
  have hm : f a ∈ (holds c).map some := h c ▸ List.mem_map_of_mem ha
  obtain ⟨k, hk, he⟩ := List.mem_map.1 hm
  exact ⟨k, hk, he.symm⟩

private theorem SameHolds.nil_iff (h : SameHolds f holders' holds) (c : Nat) : holders' c = [] ↔ holds c = [] := by
  rw [← List.map_eq_nil_iff (f := f), h c, List.map_eq_nil_iff]

private theorem SameHolds.congr {g : Nat → Option Nat} (h : SameHolds f holders' holds)
    (hg : ∀ c, ∀ b ∈ holders' c, g b = f b) : SameHolds g holders' holds := fun c => by
  rw [← h c]
  exact List.map_congr_left (hg c)

private theorem SameHolds.take (h : SameHolds f holders' holds) (ha : f a = some k) (cs : List Nat) :
    SameHolds f (takeHolds holders' a cs) (takeHolds holds k cs) := by
  induction cs generalizing holders' holds with
  | nil => exact h
  | cons c cs ih =>
    have hc : SameHolds f (takeHold holders' c a) (takeHold holds c k) := by
      intro c'
      unfold takeHold
      rcases eq_or_ne c' c with rfl | hc
      · rw [Function.update_self, Function.update_self, List.map_cons, List.map_cons, ha, h c']
      · rw [Function.update_of_ne hc, Function.update_of_ne hc, h c']
    exact ih hc

section Injective

variable (ha : f a = some k) (hinj : ∀ b, f b = some k → b = a)

include ha hinj

private theorem beq_connection : (· == a) = (· == some k) ∘ f := by
  funext b
  rw [Function.comp_apply, Bool.eq_iff_iff, beq_iff_eq, beq_iff_eq]
  exact ⟨fun hb => hb ▸ ha, hinj b⟩

private theorem map_erase_connection {l l' : List Nat} (h : l.map f = l'.map some) :
    (l.erase a).map f = (l'.erase k).map some := by
  rw [List.erase_eq_eraseP', List.erase_eq_eraseP', beq_connection ha hinj, ← List.eraseP_map, h, List.eraseP_map]
  rfl

private theorem map_filter_connection {l l' : List Nat} (h : l.map f = l'.map some) :
    (l.filter (· ≠ a)).map f = (l'.filter (· ≠ k)).map some := by
  have hp : (fun b => decide (b ≠ a)) = (fun x => decide (x ≠ some k)) ∘ f := by
    funext b
    exact decide_eq_decide.2 (not_congr ⟨fun hb => hb ▸ ha, hinj b⟩)
  rw [hp, ← List.filter_map, h, List.filter_map]
  congr 2
  funext j
  simp

private theorem SameHolds.erase (h : SameHolds f holders' holds) (cs : List Nat) :
    SameHolds f (eraseHolds holders' a cs) (eraseHolds holds k cs) := by
  induction cs generalizing holders' holds with
  | nil => exact h
  | cons c cs ih =>
    have hc : SameHolds f (eraseHold holders' c a) (eraseHold holds c k) := by
      intro c'
      unfold eraseHold
      rcases eq_or_ne c' c with rfl | hc
      · rw [Function.update_self, Function.update_self]
        exact map_erase_connection ha hinj (h c')
      · rw [Function.update_of_ne hc, Function.update_of_ne hc, h c']
    exact ih hc

end Injective

/-! ### The refinement -/

/-- The table is that of the abstract manager. -/
structure Locking.Ok (s : Locking D) : Prop where
  writes : WritesOk s.daemon
  below : ∀ client ∈ s.daemon.clientvec, client.connection < s.daemon.connections
  unique : ∀ x ∈ s.daemon.clientvec, ∀ y ∈ s.daemon.clientvec, x.connection = y.connection → x.address = y.address
  holds : SameHolds s.daemon.connectionAt (holders s.daemon.locks.snaplocks) s.holds

private theorem Locking.Ok.connectionAt_inj {s : Locking D} (h : s.Ok) (ha : s.daemon.connectionAt a = some k) {b : Nat}
    (hb : s.daemon.connectionAt b = some k) : b = a := by
  obtain ⟨x, hx, rfl⟩ := Option.map_eq_some_iff.1 ha
  obtain ⟨y, hy, he⟩ := Option.map_eq_some_iff.1 hb
  rw [← clientAt_address hx, ← clientAt_address hy]
  exact h.unique y (clientAt_mem hy) x (clientAt_mem hx) he

/-- The clients of a step stay apart. -/
private theorem Locking.Ok.clients {s : Locking D} {d' : Daemon D} {e : Event} (h : s.Ok)
    (hc : ClientStep s.daemon e d') : (∀ client ∈ d'.clientvec, client.connection < d'.connections) ∧
      ∀ x ∈ d'.clientvec, ∀ y ∈ d'.clientvec, x.connection = y.connection → x.address = y.address := by
  refine ⟨fun client hm => ?_, fun x hx y hy he => ?_⟩
  · rcases hc.records client hm with ⟨old, hold, -, hconn, -⟩ | ⟨-, hnew, -, hnext⟩
    · exact hconn ▸ (h.below old hold).trans_le hc.connections
    · omega
  · rcases hc.records x hx with ⟨x', hx', ax, cx, -⟩ | ⟨⟨_, ex⟩, nx, -, -⟩ <;>
      rcases hc.records y hy with ⟨y', hy', ay, cy, -⟩ | ⟨⟨_, ey⟩, ny, -, -⟩
    · rw [ax, ay]
      exact h.unique x' hx' y' hy' (by rw [← cx, ← cy, he])
    · have := h.below x' hx'
      omega
    · have := h.below y' hy'
      omega
    · rw [ex] at ey
      exact (Event.connect.inj ey).1

/-- The holders of the table after a step are those of the abstract manager. -/
private theorem Locking.Ok.sameHolds {s : Locking D} {d' : Daemon D} {e : Event} (h : s.Ok) (ho : Orderly s.daemon e)
    (hs : s.daemon.step e = some d') :
    SameHolds s.daemon.connectionAt (holders d'.locks.snaplocks) (holdsAfter s.daemon s.holds e) ∧
      ∀ a, e = .disconnect a → ∀ c, a ∉ holders d'.locks.snaplocks c := by
  have hconn : ∀ {a : Nat} {client : Client}, clientAt s.daemon.clientvec a = some client →
      s.daemon.connectionAt a = some client.connection := fun hc => by rw [Daemon.connectionAt, hc]; rfl
  have hinj : ∀ {a : Nat} {client : Client}, clientAt s.daemon.clientvec a = some client →
      ∀ b, s.daemon.connectionAt b = some client.connection → b = a := fun hc _ hb => h.connectionAt_inj (hconn hc) hb
  cases s.daemon.step_locks hs with
  | quiet hlocks _ hread hfinish hleave _ =>
    rw [hlocks, holdsAfter_quiet hread hfinish hleave]
    exact ⟨h.holds, fun a he => absurd he (hleave a)⟩
  | @write a id ranges client ok sb locks _ hclient htag hquery hlocks hwrites =>
    obtain ⟨waited, -, rfl⟩ := queryChunks_waits hquery
    have hwaits := (h.writes.locks.waits h.writes.pendings_writes).waitforChunks waited
    have heq : holders d'.locks.snaplocks = holders s.daemon.locks.snaplocks := by
      rw [hlocks, (finishWrite_spec hwaits client _).2.1]
      exact funext hwaits.holders
    rw [heq]
    exact ⟨h.holds, by simp⟩
  | @read a ranges client reply _ hclient hreply hlocks hwrites =>
    have hafter : holdsAfter s.daemon s.holds (.message a (.querySnapshotRead ranges)) =
        takeHolds s.holds client.connection reply.org := by simp only [holdsAfter, hclient, hreply]
    rw [hafter, hlocks, (h.writes.locks.readlockChunks a reply.org).2.2]
    exact ⟨h.holds.take (hconn hclient) reply.org, by simp⟩
  | @finish a ranges client _ hclient hlocks hwrites =>
    obtain ⟨l', hl', hleft⟩ := h.writes.locks.releaseChunks s.daemon.clientvec ho
    rw [hlocks] at hl'
    cases hl'
    have hafter : holdsAfter s.daemon s.holds (.message a (.finishSnapshotRead ranges)) =
        eraseHolds s.holds client.connection (rangeChunks ranges) := by simp only [holdsAfter, hclient]
    rw [hafter, funext hleft.holders]
    exact ⟨h.holds.erase (hconn hclient) (hinj hclient) _, by simp⟩
  | @free a client _ hclient hsnap hlocks hwrites =>
    obtain ⟨l', hl', hleft⟩ := h.writes.locks.freeClientLocks s.daemon.clientvec a
    rw [hlocks] at hl'
    cases hl'
    have hafter : holdsAfter s.daemon s.holds (.disconnect a) =
        fun c => (s.holds c).filter (· ≠ client.connection) := by simp only [holdsAfter, hclient]
    rw [hafter, funext hleft.holders]
    refine ⟨fun c => map_filter_connection (hconn hclient) (hinj hclient) (h.holds c), fun b hb c => ?_⟩
    cases hb
    simp
  | @leave a client _ hclient hsnap hlocks hwrites =>
    have hnone : ∀ c, a ∉ holders s.daemon.locks.snaplocks c := by
      rw [← h.writes.locks.table.checkClientLocks_eq_false]
      exact (ho client (clientAt_mem hclient) (clientAt_address hclient)).resolve_left hsnap
    have hafter : holdsAfter s.daemon s.holds (.disconnect a) =
        fun c => (s.holds c).filter (· ≠ client.connection) := by simp only [holdsAfter, hclient]
    rw [hafter, hlocks]
    refine ⟨fun c => ?_, fun b hb => ?_⟩
    · rw [← map_filter_connection (hconn hclient) (hinj hclient) (h.holds c)]
      congr 1
      rw [eq_comm, List.filter_eq_self]
      intro b hb
      simpa using fun e : b = a => hnone c (e ▸ hb)
    · cases hb
      exact hnone

private theorem Locking.Ok.step {s s' : Locking D} {e : Event} (h : s.Ok) (ho : Orderly s.daemon e)
    (hs : s.step e = some s') : s'.Ok := by
  obtain ⟨d', hd, rfl⟩ := Option.map_eq_some_iff.1 hs
  have hclients := s.daemon.step_clients hd
  obtain ⟨hholds, hgone⟩ := h.sameHolds ho hd
  refine ⟨(h.writes.step ho hd).1, (h.clients hclients).1, (h.clients hclients).2, ?_⟩
  -- no holder that is left is the client that disconnects
  refine hholds.congr fun c b hb => ?_
  obtain ⟨k, -, hk⟩ := hholds.mem hb
  rw [hk]
  exact hclients.connected b k hk fun he => hgone b he c hb

private theorem Locking.Init.ok {s : Locking D} (h : s.Init) : s.Ok := by
  obtain ⟨⟨sb, orgoffset, hd⟩, hh⟩ := h
  obtain ⟨daemon, holds⟩ := s
  dsimp only at hd hh
  subst hd hh
  exact ⟨.start sb orgoffset, by simp [Daemon.start], by simp [Daemon.start], fun c => rfl⟩

/-- In every orderly run the lock table is that of the abstract manager, and an origin write is acknowledged at once only
if nobody holds any of its chunks. -/
theorem locks_dropped_by_holders {s : Locking D}
    (h : Reach.Run Locking.step (fun s => Orderly s.daemon) Locking.Init s) :
    (∀ c, (holders s.daemon.locks.snaplocks c).map s.daemon.connectionAt = (s.holds c).map some) ∧
      (∀ c, lockAt s.daemon.locks.snaplocks c = none ↔ s.holds c = []) ∧
      ∀ a id ranges client d' reply, clientAt s.daemon.clientvec a = some client → client.snaptag = originTag →
        s.daemon.step (.message a (.queryWrite id ranges)) = some d' →
        d'.locks.replies = s.daemon.locks.replies ++ [reply] → reply.message.ok →
        ∀ c ∈ rangeChunks ranges, s.holds c = [] := by
  have hok : s.Ok := h.invariant (fun _ => Locking.Init.ok) fun _ _ _ hok ho hs => hok.step ho hs
  refine ⟨hok.holds, fun c => ?_, ?_⟩
  · rw [hok.writes.locks.table.lockAt_eq_none, hok.holds.nil_iff]
  · intro a id ranges client d' reply hclient htag hs hreply hack c hc
    rw [← hok.holds.nil_iff]
    cases s.daemon.step_locks hs with
    | quiet _ _ _ _ _ hwrite => exact absurd htag (hwrite a id ranges client rfl hclient)
    | write hclient' htag' hquery hlocks hwrites =>
      obtain ⟨waited, hall, rfl⟩ := queryChunks_waits hquery
      have hwaits := (hok.writes.locks.waits hok.writes.pendings_writes).waitforChunks waited
      obtain ⟨-, -, -, hpending, hanswered⟩ := finishWrite_spec hwaits _ ⟨_, id, ranges⟩
      rw [← hlocks] at hpending hanswered
      by_cases hfree : ∀ c ∈ [] ++ waited, holders s.daemon.locks.snaplocks c = []
      · -- all copies succeeded, so that the write asked for every chunk
        rw [(hanswered hfree).2] at hreply
        have hr := List.append_cancel_left hreply
        have hw := hall (by rw [← List.singleton_injective hr] at hack; exact hack)
        exact hfree c (by rw [List.nil_append, hw]; exact hc)
      · push Not at hfree
        rw [(hpending hfree).2] at hreply
        simp at hreply

/-- The small daemon, with nothing held. -/
def tinyLocking : Locking Nat := ⟨tinyDaemon, fun _ => []⟩

private theorem tinyLocking_init : tinyLocking.Init := ⟨tinyDaemon_init, rfl⟩

/-- Both snapshot clients hold a chunk, one of them releases it, and it releases another one that nobody holds. -/
def holdingEvents : List Event :=
  sharedEvents ++ [.message 1 (.querySnapshotRead [(5, 1)]), .message 2 (.querySnapshotRead [(5, 1)]),
    .message 1 (.finishSnapshotRead [(5, 2)])]

def holdingRun : Locking Nat :=
  (Reach.exec Locking.step (fun s => Orderly s.daemon) tinyLocking holdingEvents).getD tinyLocking

private theorem holdingRun_run : Reach.Run Locking.step (fun s => Orderly s.daemon) Locking.Init holdingRun :=
  (Reach.Run.start tinyLocking_init).exec_getD holdingEvents

theorem locks_dropped_by_holders_two : holdingRun.holds 5 = [1] ∧
    (holders holdingRun.daemon.locks.snaplocks 5).map holdingRun.daemon.connectionAt =
      (holdingRun.holds 5).map some :=
  ⟨by decide +kernel, (locks_dropped_by_holders holdingRun_run).1 5⟩

/-- In every orderly run a write that was not answered yet waits for a chunk that a connected client holds. -/
theorem unanswered_write_waits {s : Locking D} {w : Nat}
    (h : Reach.Run Locking.step (fun s => Orderly s.daemon) Locking.Init s) (hw : w < s.daemon.writes)
    (hn : w ∉ s.daemon.locks.replies.map Reply.write) :
    ∃ c, w ∈ waiters s.daemon.locks.snaplocks c ∧ ∃ client ∈ s.daemon.clientvec, client.connection ∈ s.holds c := by
  have hok : s.Ok := h.invariant (fun _ => Locking.Init.ok) fun _ _ _ hok ho hs => hok.step ho hs
  have hone := hok.writes.once w
  rw [if_pos hw, List.count_eq_zero.2 hn] at hone
  obtain ⟨c, hc⟩ : ∃ c, w ∈ waiters s.daemon.locks.snaplocks c := by
    by_contra hnone
    have := (hok.writes.locks.pendingCount_eq w).2 (not_exists.1 hnone)
    omega
  -- a lock with waiters is held
  obtain ⟨a, ha⟩ := List.exists_mem_of_ne_nil _ fun hnil =>
    List.ne_nil_of_mem hc (hok.writes.locks.table.waiters_eq_nil hnil)
  obtain ⟨k, hk, hconn⟩ := hok.holds.mem ha
  obtain ⟨client, hclient, rfl⟩ := Option.map_eq_some_iff.1 hconn
  exact ⟨c, hc, client, clientAt_mem hclient, hk⟩

/-- The origin client writes the chunk that is held. -/
def blockedLocking : Locking Nat := (Reach.exec Locking.step (fun s => Orderly s.daemon) tinyLocking
  (holdingEvents ++ [.message 9 (.queryWrite 1 [(5, 1)])])).getD tinyLocking

theorem unanswered_write_waits_one : ∃ c, 0 ∈ waiters blockedLocking.daemon.locks.snaplocks c ∧
    ∃ client ∈ blockedLocking.daemon.clientvec, client.connection ∈ blockedLocking.holds c :=
  unanswered_write_waits ((Reach.Run.start tinyLocking_init).exec_getD _) (by decide +kernel) (by decide +kernel)

/-! ### A release by a stranger -/

/-- One snapshot client holds a chunk, and the other one, which does not, releases it. -/
def strangerEvents : List Event :=
  sharedEvents ++ [.message 1 (.querySnapshotRead [(5, 1)]), .message 2 (.finishSnapshotRead [(5, 1)])]

def strangerRun : Locking Nat := (Reach.exec Locking.step (fun _ _ => True) tinyLocking strangerEvents).getD tinyLocking

private theorem strangerRun_run : Reach.Run Locking.step (fun _ _ => True) Locking.Init strangerRun :=
  (Reach.Run.start tinyLocking_init).exec_getD strangerEvents

/-- The lock is gone although its holder did not release it, and a write to the chunk is acknowledged at once. -/
theorem stranger_drops_lock : ∃ s : Locking Nat, Reach.Run Locking.step (fun _ _ => True) Locking.Init s ∧
    s.holds 5 = [0] ∧ lockAt s.daemon.locks.snaplocks 5 = none ∧
    (s.daemon.step (.message 9 (.queryWrite 1 [(5, 1)]))).map (fun d => d.locks.replies.map fun r => r.message.ok) =
      some [true] :=
  ⟨strangerRun, strangerRun_run, by decide +kernel, by decide +kernel, by decide +kernel⟩

end Ddsnap
