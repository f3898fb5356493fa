import Ddsnap.Daemon
import Ddsnap.PendingWrites

/-!
# The events of the daemon

What an event does to the locks (`LockStep`), to the store (`StoreEvent`) and to the client vector (`ClientStep`).  The
results on runs of the daemon use these and not the handlers.
-/

namespace Ddsnap

variable {D : Type} {d d' : Daemon D} {e : Event} {a w : Nat}

/-! ### What an event does to the locks -/

/-- The effect of an event on the locks. -/
inductive LockStep (d : Daemon D) : Event → Daemon D → Prop
  /-- Neither a read, nor a release, nor an origin write, nor the end of a connection. -/
  | quiet {e : Event} {d' : Daemon D} (hlocks : d'.locks = d.locks) (hwrites : d'.writes = d.writes)
      (hread : ∀ a ranges, e ≠ .message a (.querySnapshotRead ranges))
      (hfinish : ∀ a ranges, e ≠ .message a (.finishSnapshotRead ranges))
      (hleave : ∀ a, e ≠ .disconnect a)
      (hwrite : ∀ a id ranges client, e = .message a (.queryWrite id ranges) → clientAt d.clientvec a = some client →
        client.snaptag ≠ originTag) : LockStep d e d'
  | read {a : Nat} {ranges : List (Nat × Nat)} {client : Client} {reply : ReadReply} {d' : Daemon D}
      (hclient : clientAt d.clientvec a = some client) (hreply : d.snapshotRead client ranges = some (reply, d'))
      (hlocks : d'.locks = { d.locks with
        snaplocks := reply.org.foldl (fun t c => readlockChunk t c a) d.locks.snaplocks })
      (hwrites : d'.writes = d.writes) : LockStep d (.message a (.querySnapshotRead ranges)) d'
  | finish {a : Nat} {ranges : List (Nat × Nat)} {client : Client} {d' : Daemon D}
      (hclient : clientAt d.clientvec a = some client)
      (hlocks : (rangeChunks ranges).foldlM (fun locks => releaseChunk d.clientvec locks a) d.locks = some d'.locks)
      (hwrites : d'.writes = d.writes) : LockStep d (.message a (.finishSnapshotRead ranges)) d'
  | write {a id : Nat} {ranges : List (Nat × Nat)} {client : Client} {ok : Bool} {sb : Sb D} {locks : Locks}
      {d' : Daemon D} (hclient : clientAt d.clientvec a = some client) (htag : client.snaptag = originTag)
      (hquery : queryChunks d.writes d.sb d.locks (rangeChunks ranges) = some (ok, sb, locks))
      (hlocks : d'.locks = finishWrite locks client d.writes ⟨ok, id, ranges⟩)
      (hwrites : d'.writes = d.writes + 1) : LockStep d (.message a (.queryWrite id ranges)) d'
  | free {a : Nat} {client : Client} {d' : Daemon D} (hclient : clientAt d.clientvec a = some client)
      (hsnap : client.snapclient) (hlocks : freeClientLocks d.clientvec d.locks a = some d'.locks)
      (hwrites : d'.writes = d.writes) : LockStep d (.disconnect a) d'
  | leave {a : Nat} {client : Client} {d' : Daemon D} (hclient : clientAt d.clientvec a = some client)
      (hsnap : ¬client.snapclient) (hlocks : d'.locks = d.locks) (hwrites : d'.writes = d.writes) :
      LockStep d (.disconnect a) d'

theorem clientAt_address {clientvec : List Client} {client : Client} (h : clientAt clientvec a = some client) :
    client.address = a := by simpa using List.find?_some h

theorem clientAt_mem {clientvec : List Client} {client : Client} (h : clientAt clientvec a = some client) :
    client ∈ clientvec := List.mem_of_find?_eq_some h

private theorem readChunks_locks (sb : Sb D) (bit a : Nat) (t : Snaplocks) (chunks : List Nat) :
    (readChunks sb bit a t chunks).2 =
      (readChunks sb bit a t chunks).1.org.foldl (fun t c => readlockChunk t c a) t := by
  induction chunks generalizing t with
  | nil => rfl
  | cons chunk chunks ih =>
    unfold readChunks
    dsimp only
    split_ifs
    · exact ih t
    · exact ih (readlockChunk t chunk a)

private theorem snapshotRead_locks {client : Client} {ranges : List (Nat × Nat)} {reply : ReadReply}
    (h : d.snapshotRead client ranges = some (reply, d')) :
    d' = { d with locks := { d.locks with
      snaplocks := reply.org.foldl (fun t c => readlockChunk t c client.address) d.locks.snaplocks } } := by
  unfold Daemon.snapshotRead at h
  obtain ⟨slot, -, h⟩ := Option.bind_eq_some_iff.1 h
  dsimp only at h
  split_ifs at h
  · cases h
    rfl
  · cases h
    rw [readChunks_locks]

private theorem disconnect_cases {client : Client} (h : d.disconnect client = some d') :
    d'.clientvec = d.clientvec.filter (fun c => c.address ≠ client.address) ∧ d'.writes = d.writes ∧
      d'.connections = d.connections ∧
      ((client.snapclient ∧ dropUsecount d.sb client.snaptag = some d'.sb ∧
          freeClientLocks d.clientvec d.locks client.address = some d'.locks) ∨
        (¬client.snapclient ∧ d'.sb = d.sb ∧ d'.locks = d.locks)) := by
  unfold Daemon.disconnect at h
  obtain ⟨d1, h1, rfl⟩ := Option.map_eq_some_iff.1 h
  split_ifs at h1 with hs
  · obtain ⟨sb, hsb, h1⟩ := Option.bind_eq_some_iff.1 h1
    obtain ⟨locks, hl, h1⟩ := Option.bind_eq_some_iff.1 h1
    cases h1
    exact ⟨rfl, rfl, rfl, .inl ⟨hs, hsb, hl⟩⟩
  · cases h1
    exact ⟨rfl, rfl, rfl, .inr ⟨hs, rfl, rfl⟩⟩

/-- `IDENTIFY` marks and counts its client. -/
def CountedBy (sb : Sb D) (tag : Nat) : Prop := tag ≠ originTag ∧ (identifySnap sb tag).isOk = true

instance (sb : Sb D) (tag : Nat) : Decidable (CountedBy sb tag) := inferInstanceAs (Decidable (_ ∧ _))

/-- What `IDENTIFY` does: the client only gets its tag, or is marked and counted as well. -/
theorem identifyClient_cases (d : Daemon D) (client : Client) (tag off len : Nat) :
    (¬CountedBy d.sb tag ∧ (d.identifyClient client tag off len).2 =
      { d with clientvec := modifyClient d.clientvec client.address fun c => { c with snaptag := tag } }) ∨
    (CountedBy d.sb tag ∧ ∃ snapshot, identifySnap d.sb tag = .ok snapshot ∧
      (d.identifyClient client tag off len).2 = { d with
        sb := countClient d.sb snapshot
        clientvec :=
          modifyClient d.clientvec client.address fun c => { c with snaptag := tag, snapclient := true } }) := by
  unfold Daemon.identifyClient CountedBy
  dsimp only
  by_cases htag : tag = originTag
  · rw [if_pos htag]
    exact .inl ⟨fun hc => hc.1 htag, rfl⟩
  rw [if_neg htag]
  cases hs : identifySnap d.sb tag with
  | error err => exact .inl ⟨fun hc => by simp [Except.isOk, Except.toBool] at hc, rfl⟩
  | ok snapshot =>
    refine .inr ⟨⟨htag, rfl⟩, snapshot, rfl, ?_⟩
    simp only [modifyClient, List.map_map]
    congr 1
    refine List.map_congr_left fun c _ => ?_
    by_cases hc : c.address = client.address <;> simp [hc]

/-- Every event is one of them. -/
theorem Daemon.step_locks (h : d.step e = some d') : LockStep d e d' := by
  cases e with
  | connect address sock =>
    simp only [Daemon.step, Daemon.connect] at h
    split_ifs at h
    cases h
    exact .quiet rfl rfl (by simp) (by simp) (by simp) (by simp)
  | disconnect a =>
    obtain ⟨client, hclient, h⟩ := Option.bind_eq_some_iff.1 h
    obtain ⟨-, hwrites, -, ⟨hs, -, hl⟩ | ⟨hs, -, hl⟩⟩ := disconnect_cases h
    · rw [clientAt_address hclient] at hl
      exact .free hclient hs hl hwrites
    · exact .leave hclient hs hl hwrites
  | message a m =>
    obtain ⟨client, hclient, h⟩ := Option.bind_eq_some_iff.1 h
    cases m with
    | queryWrite id ranges =>
      simp only [Daemon.incoming, Daemon.queryWrite] at h
      split_ifs at h with htag
      · obtain ⟨⟨ok, sb, locks⟩, hq, h⟩ := Option.bind_eq_some_iff.1 h
        obtain ⟨sb', -, h⟩ := Option.bind_eq_some_iff.1 h
        cases h
        exact .write hclient htag hq rfl rfl
      · obtain ⟨r, -, rfl⟩ := Option.map_eq_some_iff.1 h
        refine .quiet rfl rfl (by simp) (by simp) (by simp) ?_
        intro a' id' ranges' client' he hclient'
        cases he
        rw [hclient] at hclient'
        cases hclient'
        exact htag
    | querySnapshotRead ranges =>
      obtain ⟨⟨reply, d1⟩, hr, rfl⟩ := Option.map_eq_some_iff.1 h
      have hd := snapshotRead_locks hr
      rw [clientAt_address hclient] at hd
      exact .read hclient hr (by rw [hd]) (by rw [hd])
    | finishSnapshotRead ranges =>
      simp only [Daemon.incoming, Daemon.finishRead] at h
      obtain ⟨locks, hl, h⟩ := Option.bind_eq_some_iff.1 h
      cases h
      rw [clientAt_address hclient] at hl
      exact .finish hclient hl rfl
    | identify tag off len =>
      simp only [Daemon.incoming, Option.some.injEq] at h
      have hd : d'.locks = d.locks ∧ d'.writes = d.writes := by
        obtain ⟨-, he⟩ | ⟨-, _, -, he⟩ := identifyClient_cases d client tag off len <;> rw [← h, he] <;>
          exact ⟨rfl, rfl⟩
      exact .quiet hd.1 hd.2 (by simp) (by simp) (by simp) (by simp)
    | uploadLock =>
      cases h
      exact .quiet rfl rfl (by simp) (by simp) (by simp) (by simp)
    | createSnapshot tag | deleteSnapshot tag =>
      obtain ⟨sb, -, rfl⟩ := Option.map_eq_some_iff.1 h
      exact .quiet rfl rfl (by simp) (by simp) (by simp) (by simp)
    | priority tag prio | usecount tag dev =>
      cases h
      exact .quiet rfl rfl (by simp) (by simp) (by simp) (by simp)

/-- An origin write waits for the chunks whose copies succeeded. -/
theorem queryChunks_waits {sb sb' : Sb D} {locks locks' : Locks} {chunks : List Nat} {ok : Bool}
    (h : queryChunks w sb locks chunks = some (ok, sb', locks')) :
    ∃ waited : List Nat, (ok = true → waited = chunks) ∧
      locks' = waited.foldl (fun l c => waitforChunk l c w) locks := by
  induction chunks generalizing sb locks ok with
  | nil =>
    cases h
    exact ⟨[], fun _ => rfl, rfl⟩
  | cons chunk chunks ih =>
    obtain ⟨⟨exception, sb1⟩, -, h⟩ := Option.bind_eq_some_iff.1 h
    obtain ⟨⟨ok1, sb2, locks2⟩, hq, h⟩ := Option.bind_eq_some_iff.1 h
    cases h
    obtain ⟨waited, hall, rfl⟩ := ih hq
    cases exception with
    | none => exact ⟨waited, by simp, rfl⟩
    | some exception =>
      refine ⟨chunk :: waited, fun hok => ?_, rfl⟩
      rw [hall (by simpa using hok)]

/-- The daemon's own result of a write that succeeds. -/
theorem queryChunks_ok {sb sb1 sb2 : Sb D} {locks locks' : Locks} {ranges : List (Nat × Nat)} {ok : Bool}
    (hquery : queryChunks w sb locks (rangeChunks ranges) = some (ok, sb1, locks'))
    (h : originWrite sb ranges = some (true, sb2)) : ok = true := by
  have horg := queryChunks_originChunks w sb locks (rangeChunks ranges)
  rw [hquery, Option.map_some] at horg
  unfold originWrite at h
  rw [← horg, Option.bind_eq_bind, Option.bind_some] at h
  obtain ⟨_, -, h⟩ := Option.bind_eq_some_iff.1 h
  exact congrArg Prod.fst (Option.some.inj h)

/-! ### What an event does to the store -/

/-- The client vector and the number of connections are the same. -/
structure SameClients (d d' : Daemon D) : Prop where
  clientvec : d'.clientvec = d.clientvec
  connections : d'.connections = d.connections

/-- What an event does to the store and to the client vector. -/
inductive StoreEvent (d : Daemon D) : Event → Daemon D → Prop
  | connect {address sock : Nat} {d' : Daemon D} (hnew : clientAt d.clientvec address = none) (hsb : d'.sb = d.sb)
    (hvec : d'.clientvec = d.clientvec ++ [⟨address, d.connections, sock, 0, false⟩])
    (hconn : d'.connections = d.connections + 1) :
    StoreEvent d (.connect address sock) d'
  | drop {a : Nat} {client : Client} {d' : Daemon D} (hclient : clientAt d.clientvec a = some client)
    (hm : client.snapclient) (hdrop : dropUsecount d.sb client.snaptag = some d'.sb)
    (hvec : d'.clientvec = d.clientvec.filter fun c => c.address ≠ a) (hconn : d'.connections = d.connections) :
    StoreEvent d (.disconnect a) d'
  | leave {a : Nat} {client : Client} {d' : Daemon D} (hclient : clientAt d.clientvec a = some client)
    (hm : ¬client.snapclient) (hsb : d'.sb = d.sb)
    (hvec : d'.clientvec = d.clientvec.filter fun c => c.address ≠ a) (hconn : d'.connections = d.connections) :
    StoreEvent d (.disconnect a) d'
  | identify {a : Nat} {client : Client} (hclient : clientAt d.clientvec a = some client) (tag off len : Nat) :
    StoreEvent d (.message a (.identify tag off len)) (d.identifyClient client tag off len).2
  | originWrite {a id : Nat} {ranges : List (Nat × Nat)} {client : Client} {ok : Bool} {sb1 : Sb D} {d' : Daemon D}
    (hclient : clientAt d.clientvec a = some client) (htag : client.snaptag = originTag)
    (hchunks : originChunks d.sb (rangeChunks ranges) = some (ok, sb1))
    (hcommit : commitTransaction (finishCopyout sb1) false = some d'.sb) (hvec : SameClients d d') :
    StoreEvent d (.message a (.queryWrite id ranges)) d'
  | snapshotWrite {a id slot : Nat} {ranges : List (Nat × Nat)} {client : Client} {exceptions : List (Option Nat)}
    {sb1 : Sb D} {d' : Daemon D} (hclient : clientAt d.clientvec a = some client) (htag : client.snaptag ≠ originTag)
    (hslot : findSnap d.sb client.snaptag = some slot)
    (hchunks : snapshotChunks slot d.sb (rangeChunks ranges) = some (exceptions, sb1))
    (hcommit : commitTransaction (finishCopyout sb1) false = some d'.sb) (hvec : SameClients d d') :
    StoreEvent d (.message a (.queryWrite id ranges)) d'
  | create {a tag : Nat} {d' : Daemon D} (hcreate : createMessage d.sb tag = some d'.sb)
    (hvec : SameClients d d') : StoreEvent d (.message a (.createSnapshot tag)) d'
  | delete {a tag : Nat} {d' : Daemon D} (hdelete : deleteMessage d.sb tag = some d'.sb)
    (hvec : SameClients d d') : StoreEvent d (.message a (.deleteSnapshot tag)) d'
  | priority {a tag : Nat} {prio : Int} {d' : Daemon D} (hsb : d'.sb = setPriority d.sb tag prio)
    (hvec : SameClients d d') : StoreEvent d (.message a (.priority tag prio)) d'
  | usecount {a tag : Nat} {dev : Int} {d' : Daemon D} (hsb : d'.sb = changeUsecount d.sb tag dev)
    (hvec : SameClients d d') : StoreEvent d (.message a (.usecount tag dev)) d'
  | quiet {a : Nat} {m : Message} {d' : Daemon D} (hm : ∀ tag off len, m ≠ .identify tag off len) (hsb : d'.sb = d.sb)
    (hvec : SameClients d d') : StoreEvent d (.message a m) d'

theorem Daemon.step_store (hs : d.step e = some d') : StoreEvent d e d' := by
  cases e with
  | connect address sock =>
    simp only [Daemon.step, Daemon.connect] at hs
    split_ifs at hs with hc
    cases hs
    exact .connect hc.2 rfl rfl rfl
  | disconnect a =>
    obtain ⟨client, hclient, hs⟩ := Option.bind_eq_some_iff.1 hs
    obtain ⟨hvec, -, hconn, hsb⟩ := disconnect_cases hs
    rw [clientAt_address hclient] at hvec
    obtain ⟨hm, hsb, -⟩ | ⟨hm, hsb, -⟩ := hsb
    · exact .drop hclient hm hsb hvec hconn
    · exact .leave hclient hm hsb hvec hconn
  | message a m =>
    obtain ⟨client, hclient, hs⟩ := Option.bind_eq_some_iff.1 hs
    cases m with
    | queryWrite id ranges =>
      simp only [Daemon.incoming, Daemon.queryWrite] at hs
      split_ifs at hs with htag
      · obtain ⟨⟨ok, sb, locks⟩, hq, hs⟩ := Option.bind_eq_some_iff.1 hs
        obtain ⟨sb', hcommit, hs⟩ := Option.bind_eq_some_iff.1 hs
        cases hs
        have horg := queryChunks_originChunks d.writes d.sb d.locks (rangeChunks ranges)
        rw [hq] at horg
        exact .originWrite hclient htag horg.symm hcommit ⟨rfl, rfl⟩
      · obtain ⟨⟨exceptions, sb⟩, hw, rfl⟩ := Option.map_eq_some_iff.1 hs
        obtain ⟨slot, hslot, hw⟩ := Option.bind_eq_some_iff.1 hw
        obtain ⟨⟨found, sb1⟩, h1, hw⟩ := Option.bind_eq_some_iff.1 hw
        obtain ⟨sb2, hcommit, hw⟩ := Option.bind_eq_some_iff.1 hw
        cases hw
        exact .snapshotWrite hclient htag hslot h1 hcommit ⟨rfl, rfl⟩
    | querySnapshotRead ranges =>
      obtain ⟨⟨reply, d1⟩, hr, rfl⟩ := Option.map_eq_some_iff.1 hs
      have hd := snapshotRead_locks hr
      exact .quiet (by simp) (by rw [hd]) (by rw [hd]; exact ⟨rfl, rfl⟩)
    | finishSnapshotRead ranges =>
      obtain ⟨locks, -, hs⟩ := Option.bind_eq_some_iff.1 hs
      cases hs
      exact .quiet (by simp) rfl ⟨rfl, rfl⟩
    | identify tag off len =>
      cases hs
      exact .identify hclient tag off len
    | uploadLock =>
      cases hs
      exact .quiet (by simp) rfl ⟨rfl, rfl⟩
    | createSnapshot tag =>
      obtain ⟨sb, hc, rfl⟩ := Option.map_eq_some_iff.1 hs
      exact .create hc ⟨rfl, rfl⟩
    | deleteSnapshot tag =>
      obtain ⟨sb, hd, rfl⟩ := Option.map_eq_some_iff.1 hs
      exact .delete hd ⟨rfl, rfl⟩
    | priority tag prio =>
      cases hs
      by_cases htag : tag = originTag
      · exact .quiet (by simp) (if_pos htag) ⟨rfl, rfl⟩
      · exact .priority (if_neg htag) ⟨rfl, rfl⟩
    | usecount tag dev =>
      cases hs
      exact .usecount rfl ⟨rfl, rfl⟩

/-! ### Clients -/

/-- The connection of the client record at an address. -/
def Daemon.connectionAt (d : Daemon D) (a : Nat) : Option Nat := (clientAt d.clientvec a).map Client.connection

/-- The effect of an event on the client vector: the records that stay keep their addresses and connections. -/
structure ClientStep (d : Daemon D) (e : Event) (d' : Daemon D) : Prop where
  connected : ∀ a k, d.connectionAt a = some k → e ≠ .disconnect a → d'.connectionAt a = some k
  records : ∀ client ∈ d'.clientvec, (∃ old ∈ d.clientvec, client.address = old.address ∧
      client.connection = old.connection ∧ e ≠ .disconnect client.address) ∨
    ((∃ sock, e = .connect client.address sock) ∧ client.connection = d.connections ∧
      d.connectionAt client.address = none ∧ d'.connections = d.connections + 1)
  connections : d.connections ≤ d'.connections

/-- An event that changes no address, no connection and nothing else of the vector. -/
private theorem ClientStep.of_map {g : Client → Client} (hvec : d'.clientvec = d.clientvec.map g)
    (hg : ∀ client, (g client).address = client.address ∧ (g client).connection = client.connection)
    (hconn : d'.connections = d.connections) (he : ∀ a, e ≠ .disconnect a) : ClientStep d e d' := by
  refine ⟨fun a k hk _ => ?_, fun client hc => ?_, hconn.ge⟩
  · unfold Daemon.connectionAt clientAt at hk ⊢
    rw [hvec, List.find?_map, Option.map_map]
    have h1 : ((fun client : Client => decide (client.address = a)) ∘ g) = fun client => decide (client.address = a) := by
      funext client
      simp only [Function.comp_apply, (hg client).1]
    have h2 : Client.connection ∘ g = Client.connection := by
      funext client
      exact (hg client).2
    rw [h1, h2]
    exact hk
  · rw [hvec] at hc
    obtain ⟨old, hold, rfl⟩ := List.mem_map.1 hc
    exact .inl ⟨old, hold, (hg old).1, (hg old).2, he _⟩

private theorem ClientStep.of_eq (h : SameClients d d') (he : ∀ a, e ≠ .disconnect a) : ClientStep d e d' :=
  .of_map (g := id) (by rw [h.clientvec, List.map_id]) (fun _ => ⟨rfl, rfl⟩) h.connections he

private theorem clientAt_append_of_some {clientvec : List Client} {client : Client}
    (h : clientAt clientvec a = some client)
    (others : List Client) : clientAt (clientvec ++ others) a = some client := by
  unfold clientAt at h ⊢
  rw [List.find?_append, h]
  rfl

private theorem clientAt_filter {clientvec : List Client} {b : Nat} (hab : a ≠ b) :
    clientAt (clientvec.filter fun client => client.address ≠ b) a = clientAt clientvec a := by
  unfold clientAt
  rw [List.find?_filter]
  congr 1
  funext client
  by_cases hc : client.address = a
  · simp [hc, hab]
  · simp [hc]

private theorem ClientStep.of_filter {b : Nat} (hvec : d'.clientvec = d.clientvec.filter fun c => c.address ≠ b)
    (hconn : d'.connections = d.connections) : ClientStep d (.disconnect b) d' := by
  refine ⟨fun a k hk hne => ?_, fun other hm => ?_, hconn.ge⟩
  · have hab : a ≠ b := fun e => hne (e ▸ rfl)
    unfold Daemon.connectionAt at hk ⊢
    rw [hvec, clientAt_filter hab]
    exact hk
  · rw [hvec, List.mem_filter] at hm
    exact .inl ⟨other, hm.1, rfl, rfl, by simpa using fun e => (by simpa using hm.2 : other.address ≠ b) e.symm⟩

theorem Daemon.step_clients (h : d.step e = some d') : ClientStep d e d' := by
  cases d.step_store h with
  | connect hnew _ hvec hconn =>
    refine ⟨fun a k hk _ => ?_, fun client hm => ?_, hconn ▸ Nat.le_succ _⟩
    · obtain ⟨client, hclient, rfl⟩ := Option.map_eq_some_iff.1 hk
      unfold Daemon.connectionAt
      rw [hvec, clientAt_append_of_some hclient]
      rfl
    · rw [hvec] at hm
      rcases List.mem_append.1 hm with hm | hm
      · exact .inl ⟨client, hm, rfl, rfl, by simp⟩
      · rw [List.mem_singleton.1 hm]
        exact .inr ⟨⟨_, rfl⟩, rfl, by simp [Daemon.connectionAt, hnew], hconn⟩
  | drop _ _ _ hvec hconn | leave _ _ _ hvec hconn => exact .of_filter hvec hconn
  | @identify _ client _ tag off len =>
    obtain ⟨-, he⟩ | ⟨-, _, -, he⟩ := identifyClient_cases d client tag off len <;> rw [he] <;>
      exact .of_map rfl (fun c => by split_ifs <;> exact ⟨rfl, rfl⟩) rfl (by simp)
  | originWrite _ _ _ _ hvec | snapshotWrite _ _ _ _ _ hvec | create _ hvec | delete _ hvec | priority _ hvec
  | usecount _ hvec | quiet _ _ hvec => exact .of_eq hvec (by simp)

end Ddsnap
