import Ddsnap.DaemonStep

/-!
# Delayed replies and their requesters

A pending write keeps a pointer to the record of its client.  As long as no client disconnects before its writes are
answered, every reply finds the record of the client that sent the request.  The disconnection of an origin client does
not look for its pending writes: their replies then go to whoever has a record at the same address, or to nobody.
-/

namespace Ddsnap

variable {D : Type} {d d' : Daemon D} {e : Event} {w : Nat}

/-! ### Runs without early disconnections -/

/-- The client that disconnects has no pending write. -/
def NonePending (d : Daemon D) : Event → Prop
  | .disconnect a => ∀ w ∈ List.range d.writes, (d.locks.pendings w).all fun p => p.client ≠ a
  | _ => True

instance (d : Daemon D) : (e : Event) → Decidable (NonePending d e)
  | .disconnect a => inferInstanceAs (Decidable (∀ w ∈ List.range d.writes,
      (d.locks.pendings w).all fun p => p.client ≠ a))
  | .connect .. | .message .. => isTrue trivial

/-- Every pending write points to the record of its sender, which is still connected. -/
structure SendersOk (d : Daemon D) : Prop where
  numbered : ∀ w p, d.locks.pendings w = some p → w < d.writes
  connected : ∀ w p, d.locks.pendings w = some p → d.connectionAt p.client = some p.sender

/-- The replies of a step go to the connected clients that sent the requests. -/
def ToRequesters (d : Daemon D) (sent : List Reply) : Prop :=
  ∀ r ∈ sent, ∃ client ∈ d.clientvec, r.client = some client ∧ client.connection = r.sender

/-! ### One step -/

private theorem waitforChunks_frame (l : Locks) (w : Nat) (cs : List Nat) :
    (cs.foldl (fun l c => waitforChunk l c w) l).replies = l.replies ∧
      ∀ v ≠ w, (cs.foldl (fun l c => waitforChunk l c w) l).pendings v = l.pendings v := by
  induction cs generalizing l with
  | nil => exact ⟨rfl, fun _ _ => rfl⟩
  | cons c cs ih =>
    have hc : (waitforChunk l c w).replies = l.replies ∧ ∀ v ≠ w, (waitforChunk l c w).pendings v = l.pendings v := by
      unfold waitforChunk
      dsimp only
      split_ifs
      · exact ⟨rfl, fun _ _ => rfl⟩
      · exact ⟨rfl, fun v hv => Function.update_of_ne hv ..⟩
    obtain ⟨h1, h2⟩ := ih (waitforChunk l c w)
    exact ⟨h1.trans hc.1, fun v hv => (h2 v hv).trans (hc.2 v hv)⟩

private theorem SendersOk.answers {sent : List Reply} (h : SendersOk d) (ha : Answers d.clientvec d.locks d'.locks sent)
    (hwrites : d'.writes = d.writes) (hc : ClientStep d e d') (he : NonePending d e) :
    SendersOk d' ∧ d'.locks.replies = d.locks.replies ++ sent ∧ ToRequesters d sent := by
  refine ⟨⟨fun w p' hp' => ?_, fun w p' hp' => ?_⟩, ha.replies, fun r hr => ?_⟩
  · obtain ⟨p, hp, -, -, -⟩ := ha.kept w p' hp'
    exact hwrites ▸ h.numbered w p hp
  · obtain ⟨p, hp, hclient, hsender, -⟩ := ha.kept w p' hp'
    rw [hclient, hsender]
    refine hc.connected _ _ (h.connected w p hp) ?_
    rintro rfl
    have := he w (List.mem_range.2 (h.numbered w p hp))
    simp [hp] at this
  · obtain ⟨p, hp, hclient, hsender, -⟩ := ha.pending r hr
    obtain ⟨client, hfound, hconn⟩ := Option.map_eq_some_iff.1 (h.connected _ p hp)
    exact ⟨client, clientAt_mem hfound, hclient.trans hfound, hconn.trans hsender.symm⟩

/-- A new write points to its sender, or is answered to it. -/
private theorem SendersOk.write {a id : Nat} {ranges : List (Nat × Nat)} {client : Client} {ok : Bool} {sb : Sb D}
    {locks : Locks} (h : SendersOk d) (hc : ClientStep d (.message a (.queryWrite id ranges)) d')
    (hclient : clientAt d.clientvec a = some client)
    (hquery : queryChunks d.writes d.sb d.locks (rangeChunks ranges) = some (ok, sb, locks))
    (hlocks : d'.locks = finishWrite locks client d.writes ⟨ok, id, ranges⟩) (hwrites : d'.writes = d.writes + 1) :
    SendersOk d' ∧ ∃ sent, d'.locks.replies = d.locks.replies ++ sent ∧ ToRequesters d sent := by
  obtain ⟨waited, -, rfl⟩ := queryChunks_waits hquery
  obtain ⟨hreplies, hothers⟩ := waitforChunks_frame d.locks d.writes waited
  have hself : d'.connectionAt client.address = some client.connection := by
    refine hc.connected _ _ ?_ (by simp)
    rw [clientAt_address hclient, Daemon.connectionAt, hclient]
    rfl
  have hold : ∀ w ≠ d.writes, ∀ p, d.locks.pendings w = some p →
      w < d'.writes ∧ d'.connectionAt p.client = some p.sender := fun w _ p hp =>
    ⟨hwrites ▸ (h.numbered w p hp).trans (Nat.lt_succ_self _), hc.connected _ _ (h.connected w p hp) (by simp)⟩
  unfold finishWrite at hlocks
  split at hlocks
  · have hpend : ∀ w p, d'.locks.pendings w = some p →
        w < d'.writes ∧ d'.connectionAt p.client = some p.sender := by
      intro w p hp
      rw [hlocks] at hp
      rcases eq_or_ne w d.writes with rfl | hw
      · simp only [Function.update_self, Option.some.injEq] at hp
        rw [← hp]
        exact ⟨by omega, hself⟩
      · simp only [Function.update_of_ne hw, hothers w hw] at hp
        exact hold w hw p hp
    exact ⟨⟨fun w p hp => (hpend w p hp).1, fun w p hp => (hpend w p hp).2⟩, [],
      by rw [hlocks, List.append_nil]; exact hreplies, by simp [ToRequesters]⟩
  · rename_i hnone
    have hpend : ∀ w p, d'.locks.pendings w = some p →
        w < d'.writes ∧ d'.connectionAt p.client = some p.sender := by
      intro w p hp
      rw [hlocks] at hp
      rcases eq_or_ne w d.writes with rfl | hw
      · rw [show _ = none from hnone] at hp
        cases hp
      · rw [show _ = d.locks.pendings w from hothers w hw] at hp
        exact hold w hw p hp
    refine ⟨⟨fun w p hp => (hpend w p hp).1, fun w p hp => (hpend w p hp).2⟩, _,
      by rw [hlocks]; exact congrArg (· ++ _) hreplies, ?_⟩
    intro r hr
    rw [List.mem_singleton.1 hr]
    exact ⟨client, clientAt_mem hclient, rfl, rfl⟩

private theorem SendersOk.step (h : SendersOk d) (he : NonePending d e) (hs : d.step e = some d') :
    SendersOk d' ∧ ∃ sent, d'.locks.replies = d.locks.replies ++ sent ∧ ToRequesters d sent := by
  have hc := d.step_clients hs
  cases d.step_locks hs with
  | quiet hlocks hwrites _ _ _ _ =>
    obtain ⟨h1, h2⟩ := h.answers (.of_eq (by rw [hlocks]) (by rw [hlocks])) hwrites hc he
    exact ⟨h1, _, h2⟩
  | read hclient hreply hlocks hwrites =>
    obtain ⟨h1, h2⟩ := h.answers (.of_eq (by rw [hlocks]) (by rw [hlocks])) hwrites hc he
    exact ⟨h1, _, h2⟩
  | finish hclient hlocks hwrites =>
    obtain ⟨sent, ha⟩ := answers_foldlM (fun _ _ _ => releaseChunk_answers) hlocks
    obtain ⟨h1, h2⟩ := h.answers ha hwrites hc he
    exact ⟨h1, _, h2⟩
  | write hclient htag hquery hlocks hwrites => exact h.write hc hclient hquery hlocks hwrites
  | free hclient hsnap hlocks hwrites =>
    obtain ⟨sent, ha⟩ := freeClientLocks_answers hlocks
    obtain ⟨h1, h2⟩ := h.answers ha hwrites hc he
    exact ⟨h1, _, h2⟩
  | leave hclient hsnap hlocks hwrites =>
    obtain ⟨h1, h2⟩ := h.answers (.of_eq (by rw [hlocks]) (by rw [hlocks])) hwrites hc he
    exact ⟨h1, _, h2⟩

/-- In every run where no client disconnects before its writes are answered, the pending writes are those of connected
clients, and every reply goes to the client that sent the request. -/
theorem replies_reach_requesters (h : Reach.Run Daemon.step NonePending Daemon.Init d) :
    (∀ w p, d.locks.pendings w = some p → ∃ client ∈ d.clientvec, clientAt d.clientvec p.client = some client ∧
      client.connection = p.sender) ∧
    ∀ e d', NonePending d e → d.step e = some d' →
      ∃ sent, d'.locks.replies = d.locks.replies ++ sent ∧ ToRequesters d sent := by
  have hok : SendersOk d := by
    apply h.invariant
    · rintro d ⟨sb, orgoffset, rfl⟩
      exact ⟨by simp [Daemon.start], by simp [Daemon.start]⟩
    · intro d e d' hd he hs
      exact (hd.step he hs).1
  refine ⟨fun w p hp => ?_, fun e d' he hs => (hok.step he hs).2⟩
  obtain ⟨client, hfound, hconn⟩ := Option.map_eq_some_iff.1 (hok.connected w p hp)
  exact ⟨client, clientAt_mem hfound, hfound, hconn⟩

/-- The origin client writes a chunk that is locked. -/
def waitingEvents : List Event :=
  sharedEvents ++ [.message 1 (.querySnapshotRead [(5, 1)]), .message 9 (.queryWrite 1 [(5, 1)])]

def waitingRun : Daemon Nat := (Reach.exec Daemon.step NonePending tinyDaemon waitingEvents).getD tinyDaemon

private theorem waitingRun_run : Reach.Run Daemon.step NonePending Daemon.Init waitingRun :=
  (Reach.Run.start tinyDaemon_init).exec_getD waitingEvents

/-- The reply that the release of the lock sends. -/
theorem replies_reach_requesters_one : (waitingRun.locks.pendings 0).isSome ∧
    ∃ d', waitingRun.step (.message 1 (.finishSnapshotRead [(5, 1)])) = some d' ∧
      ∃ sent, d'.locks.replies = waitingRun.locks.replies ++ sent ∧ ToRequesters waitingRun sent := by
  refine ⟨by decide +kernel, ?_⟩
  obtain ⟨d', hd⟩ := Option.isSome_iff_exists.1
    (by decide +kernel : (waitingRun.step (.message 1 (.finishSnapshotRead [(5, 1)]))).isSome = true)
  exact ⟨d', hd, (replies_reach_requesters waitingRun_run).2 (.message 1 (.finishSnapshotRead [(5, 1)])) d' trivial hd⟩

/-! ### A requester that disconnects -/

/-- The origin client disconnects while its write waits, the next client gets its address, and the lock is released. -/
def leavingEvents : List Event :=
  waitingEvents ++ [.disconnect 9, .connect 9 6, .message 1 (.finishSnapshotRead [(5, 1)])]

def leavingRun : Daemon Nat := (Reach.exec Daemon.step (fun _ _ => True) tinyDaemon leavingEvents).getD tinyDaemon

private theorem leavingRun_run : Reach.Run Daemon.step (fun _ _ => True) Daemon.Init leavingRun :=
  (Reach.Run.start tinyDaemon_init).exec_getD leavingEvents

/-- The write of connection 2, which is closed, is answered to connection 3. -/
theorem reply_to_next_client : ∃ d : Daemon Nat, Reach.Run Daemon.step (fun _ _ => True) Daemon.Init d ∧
    d.locks.replies.map (fun r => (r.sender, r.client.map Client.connection)) = [(2, some 3)] :=
  ⟨leavingRun, leavingRun_run, by decide +kernel⟩

end Ddsnap
