import Ddsnap.Lib.Reach
import Mathlib.Data.List.Nodup
import Mathlib.Data.List.Perm.Basic
import Mathlib.Logic.Function.Basic

/-!
# The agent

The agent (`ddsnap.agent.c`) hands a socket of the server to every client that asks for one.  A client that asks is put
on `context->waiting`; `connect_clients` serves the entries when a server has registered.  The client records live in
memory that `monitor` allocates and frees, and both `clientvec` and `waiting` point to them.  A record that is freed
while it waits leaves a stale entry behind, and a connect that is refused is tried again only at the next event.
-/

namespace Ddsnap.Agent

/-- The length of `clientvec`. -/
def maxclients : Nat := 100

/-- The length of `context->waiting`. -/
def maxWaiting : Nat := 100

/-- `sizeof(addr.sun_path)`. -/
def sunPath : Nat := 108

inductive ConType where
  | clientCon
  | serverCon
  deriving DecidableEq

/-- `struct client`, with two counts that the agent does not keep: the `NEED_SERVER` messages read from the connection
and the `CONNECT_SERVER` messages, each with a socket, sent on it. -/
structure Client where
  sock : Nat
  type : ConType
  asked : Nat
  answered : Nat
  deriving DecidableEq

/-- `struct server`: the length comes from the header of the message, the address follows it. -/
structure Server where
  length : Nat
  address : String

/-- How the connect for one client ends: the server answers and its socket is passed on, the server refuses, or
`error` ends the agent (no socket left, or the client does not take the message). -/
inductive Attempt where
  | connected
  | refused
  | fatal
  deriving DecidableEq

/-- The variables of `monitor` with `struct context`.  A client pointer is a number; `memory` has what the pointer
refers to, `none` if it is free.  `reachable` is no variable of the agent: a connect to the active server would
succeed. -/
structure State where
  active : Server
  localServer : Server
  serv : Option Nat
  waiting : List Nat
  clientvec : List Nat
  memory : Nat → Option Client
  reachable : Bool

/-- The agent at the start of `monitor`. -/
def start : State :=
  { active := ⟨0, ""⟩, localServer := ⟨0, ""⟩, serv := none, waiting := [], clientvec := [], memory := fun _ => none,
    reachable := false }

/-- Entry `i` is overwritten with the last one and the array gets shorter by one:
`waiting[0] = waiting[--waiters]`, `clientvec[i] = clientvec[--clients]`. -/
def fillHole (l : List Nat) (i : Nat) : List Nat :=
  match l.getLast? with
  | none => []
  | some last => (l.set i last).dropLast

/-- `connect_clients` with `n` clients waiting; `attempt n` is the outcome of the connect made at that point. -/
def connectLoop (attempt : Nat → Attempt) : Nat → State → Option State
  | 0, st => some st
  | n + 1, st =>
    match st.waiting with
    | [] => some st
    | p :: _ =>
      (st.memory p).bind fun client =>
        if st.active.length > sunPath then none
        else
          match attempt (n + 1) with
          | .fatal => none
          | .refused => some { st with reachable := false }
          | .connected =>
            connectLoop attempt n
              { st with
                memory := Function.update st.memory p (some { client with answered := client.answered + 1 })
                waiting := fillHole st.waiting 0
                reachable := true }

def connectClients (attempt : Nat → Attempt) (st : State) : Option State :=
  connectLoop attempt st.waiting.length st

/-- `try_to_instantiate`; `sent` says that `START_SERVER` went out. -/
def tryToInstantiate (sent : Bool) (attempt : Nat → Attempt) (st : State) : Option State :=
  if sent then connectClients attempt { st with active := st.localServer } else none

/-- A connection is lost: the agent exits with its server, and forgets any other client. -/
def lostConnection (st : State) (i p : Nat) (client : Client) : Option State :=
  if client.type = .serverCon then none
  else some { st with memory := Function.update st.memory p none, clientvec := fillHole st.clientvec i }

/-- `NEED_SERVER` from the client at `p`. -/
def needServer (st : State) (p : Nat) (client : Client) (attempt : Nat → Attempt) : Option State :=
  let st1 := { st with
    waiting := st.waiting ++ [p]
    memory := Function.update st.memory p (some { client with asked := client.asked + 1 }) }
  if st.serv.isSome then connectClients attempt st1 else some st1

/-- `SERVER_READY` from the client at `p`, with the address read after it. -/
def serverReady (st : State) (p : Nat) (client : Client) (server : Server) (sent : Bool) (attempt : Nat → Attempt) :
    Option State :=
  tryToInstantiate sent attempt { st with
    localServer := server
    serv := some client.sock
    memory := Function.update st.memory p (some { client with type := .serverCon }) }

/-- What wakes `monitor`.  `timeout` is a poll that returns 0; `accept` has the pointer that malloc gives and the new
socket; the others come from client `i`.  `readyCut` is a `SERVER_READY` whose address could not be read, `other` is any
message that changes nothing, `lost` a connection that ends or a message that is too long.  `reach` is no event of the
agent: the server becomes reachable or unreachable. -/
inductive Event where
  | timeout (attempt : Nat → Attempt)
  | accept (p sock : Nat)
  | needServer (i : Nat) (attempt : Nat → Attempt)
  | serverReady (i : Nat) (server : Server) (sent : Bool) (attempt : Nat → Attempt)
  | readyCut (i : Nat) (server : Server)
  | other (i : Nat)
  | lost (i : Nat)
  | reach (up : Bool)

/-- The record of client `i` and its pointer. -/
def State.client (st : State) (i : Nat) : Option (Nat × Client) :=
  st.clientvec[i]?.bind fun p => (st.memory p).map fun c => (p, c)

/-- One event of `monitor`.  `none`: the agent has ended, or the event cannot happen here. -/
def step (st : State) : Event → Option State
  | .timeout attempt => connectClients attempt st
  | .accept p sock =>
    if st.clientvec.length < maxclients ∧ st.memory p = none then
      some { st with
        memory := Function.update st.memory p (some ⟨sock, .clientCon, 0, 0⟩)
        clientvec := st.clientvec ++ [p] }
    else none
  | .needServer i attempt => (st.client i).bind fun pc => needServer st pc.1 pc.2 attempt
  | .serverReady i server sent attempt =>
    (st.client i).bind fun pc => serverReady st pc.1 pc.2 server sent attempt
  | .readyCut i server => (st.client i).bind fun pc => lostConnection { st with localServer := server } i pc.1 pc.2
  | .other i => (st.client i).map fun _ => st
  | .lost i => (st.client i).bind fun pc => lostConnection st i pc.1 pc.2
  | .reach up => some { st with reachable := up }

/-- The agent serves exactly its waiting clients: every entry of `waiting` is a connected client, the array holds
them, every `NEED_SERVER` of a connected client is answered once or still waits, and none waits for a server that is
registered and reachable. -/
structure Serves (st : State) : Prop where
  connected : ∀ p ∈ st.waiting, p ∈ st.clientvec
  waiters : st.waiting.length ≤ maxWaiting
  once : ∀ p ∈ st.clientvec, ∀ c, st.memory p = some c → c.asked = c.answered + st.waiting.count p
  served : st.serv.isSome → st.reachable = true → st.waiting = []

/-- No client leaves while it waits, a `NEED_SERVER` comes only when `waiting` has a free entry, and a registered server
does not become reachable while somebody waits for it. -/
def Orderly (st : State) : Event → Prop
  | .needServer _ _ => st.waiting.length < maxWaiting
  | .readyCut i _ | .lost i => ∀ p ∈ st.clientvec[i]?, p ∉ st.waiting
  | .reach up => up = true → st.serv.isSome → st.waiting = []
  | _ => True

instance (st : State) : (e : Event) → Decidable (Orderly st e)
  | .needServer _ _ => inferInstanceAs (Decidable (_ < _))
  | .readyCut i _ | .lost i => inferInstanceAs (Decidable (∀ p ∈ st.clientvec[i]?, p ∉ st.waiting))
  | .reach up => inferInstanceAs (Decidable (up = true → st.serv.isSome → st.waiting = []))
  | .timeout _ | .accept _ _ | .serverReady _ _ _ _ | .other _ => inferInstanceAs (Decidable True)

/-! ### The two arrays -/

private theorem fillHole_perm {l : List Nat} {i : Nat} (hi : i < l.length) : (fillHole l i).Perm (l.eraseIdx i) := by
  obtain ⟨l', x, rfl⟩ := List.eq_nil_or_concat l |>.resolve_left (by rintro rfl; simp at hi)
  rw [List.concat_eq_append] at hi ⊢
  have hlast : fillHole (l' ++ [x]) i = ((l' ++ [x]).set i x).dropLast := by simp [fillHole]
  rw [hlast]
  rcases Nat.lt_or_ge i l'.length with h | h
  · rw [List.set_append_left _ _ h, List.dropLast_concat, List.eraseIdx_append_of_lt_length h]
    exact (List.set_perm_cons_eraseIdx h x).trans (List.perm_append_singleton x _).symm
  · obtain rfl : i = l'.length := by simp at hi; omega
    simp [List.set_append_right, List.eraseIdx_append_of_length_le]

private theorem mem_fillHole {l : List Nat} {i p q : Nat} (hl : l.Nodup) (hp : l[i]? = some p) :
    q ∈ fillHole l i ↔ q ∈ l ∧ q ≠ p := by
  obtain ⟨hi, rfl⟩ := List.getElem?_eq_some_iff.1 hp
  rw [(fillHole_perm hi).mem_iff, ← hl.erase_getElem _ hi, hl.mem_erase_iff, and_comm]

/-! ### The entries that wait -/

/-- What holds of the records: the pointers of `clientvec` are the allocated ones, each listed once; the entries of
`waiting` are among them, and count the questions that are not answered. -/
structure Waits (st : State) : Prop where
  nodup : st.clientvec.Nodup
  alloc : ∀ p, (st.memory p).isSome ↔ p ∈ st.clientvec
  connected : ∀ p ∈ st.waiting, p ∈ st.clientvec
  once : ∀ p ∈ st.clientvec, ∀ c, st.memory p = some c → c.asked = c.answered + st.waiting.count p

variable {st st' : State} {p i : Nat} {client : Client}

/-- The record of a client is changed and the list of waiting entries with it. -/
private theorem Waits.update (h : Waits st) (hp : st.memory p = some client) {c : Client} {w : List Nat}
    (hw : ∀ q ∈ w, q ∈ st.clientvec) (hc : c.asked = c.answered + w.count p)
    (hrest : ∀ q, q ≠ p → w.count q = st.waiting.count q) :
    Waits { st with memory := Function.update st.memory p (some c), waiting := w } where
  nodup := h.nodup
  alloc q := by
    by_cases hq : q = p
    · subst hq
      simpa using (h.alloc q).1 (by simp [hp])
    · simpa [Function.update_of_ne hq] using h.alloc q
  connected := hw
  once q hq c' hc' := by
    by_cases hqp : q = p
    · subst hqp
      simp only [Function.update_self, Option.some.injEq] at hc'
      exact hc' ▸ hc
    · simp only [Function.update_of_ne hqp] at hc'
      have h0 : c'.asked = c'.answered + st.waiting.count q := h.once q hq c' hc'
      simpa only [hrest q hqp] using h0

private theorem Waits.answer (h : Waits st) {ws : List Nat} (hw : st.waiting = p :: ws) (hp : st.memory p = some client)
    (up : Bool) :
    Waits { st with
      memory := Function.update st.memory p (some { client with answered := client.answered + 1 })
      waiting := fillHole st.waiting 0
      reachable := up } := by
  have hperm : (fillHole st.waiting 0).Perm ws := by
    have := fillHole_perm (l := st.waiting) (i := 0) (by simp [hw])
    simpa [hw] using this
  have hin : p ∈ st.clientvec := h.connected p (by simp [hw])
  have hcount := h.once p hin client hp
  have hu := h.update hp (c := { client with answered := client.answered + 1 }) (w := fillHole st.waiting 0)
    (fun q hq => h.connected q (by rw [hw]; exact List.mem_cons_of_mem _ (hperm.mem_iff.1 hq)))
    (by simp only [hw, List.count_cons_self] at hcount; simp only [hperm.count_eq]; omega)
    (fun q hq => by rw [hperm.count_eq, hw, List.count_cons_of_ne (Ne.symm hq)])
  exact ⟨hu.nodup, hu.alloc, hu.connected, hu.once⟩

/-- What `connect_clients` leaves behind: no new entries, and none at all if the last connect went through. -/
structure Connected (st st' : State) : Prop where
  waits : Waits st'
  length : st'.waiting.length ≤ st.waiting.length
  serv : st'.serv = st.serv
  served : st'.reachable = true → st'.waiting = []

private theorem connectLoop_connected {attempt : Nat → Attempt} {n : Nat} (h : Waits st) (hn : n = st.waiting.length)
    (hs : connectLoop attempt n st = some st') : Connected st st' := by
  induction n generalizing st with
  | zero =>
    simp only [connectLoop, Option.some.injEq] at hs
    subst hs
    exact ⟨h, Nat.le_refl _, rfl, fun _ => List.length_eq_zero_iff.1 hn.symm⟩
  | succ n ih =>
    obtain ⟨p, ws, hw⟩ := List.exists_cons_of_length_eq_add_one hn.symm
    simp only [connectLoop, hw] at hs
    obtain ⟨client, hp, hs⟩ := Option.bind_eq_some_iff.1 hs
    split at hs
    · cases hs
    · split at hs
      · cases hs
      · -- refused: the entries stay, and the server is not reachable
        rw [← hw] at hs
        cases hs
        exact ⟨⟨h.nodup, h.alloc, h.connected, h.once⟩, Nat.le_refl _, rfl, fun hr => by simp at hr⟩
      · rw [← hw] at hs
        have hlen : (fillHole st.waiting 0).length = n := by
          rw [(fillHole_perm (by simp [hw])).length_eq, List.length_eraseIdx, if_pos (by simp [hw])]
          omega
        have hrest := ih (h.answer hw hp true) hlen.symm hs
        exact ⟨hrest.waits, Nat.le_trans hrest.length (by simp only [hlen]; omega), hrest.serv, hrest.served⟩

private theorem connectClients_connected {attempt : Nat → Attempt} (h : Waits st)
    (hs : connectClients attempt st = some st') : Connected st st' :=
  connectLoop_connected h rfl hs

/-! ### One event -/

/-- The records are in order and the agent serves exactly its waiting clients. -/
structure Kept (st : State) : Prop extends Waits st where
  waiters : st.waiting.length ≤ maxWaiting
  served : st.serv.isSome → st.reachable = true → st.waiting = []

private theorem Connected.kept (h : Connected st st') (hlen : st.waiting.length ≤ maxWaiting) : Kept st' :=
  ⟨h.waits, Nat.le_trans h.length hlen, fun _ => h.served⟩

private theorem client_eq (h : st.client i = some (p, client)) : st.clientvec[i]? = some p ∧ st.memory p =
    some client := by
  obtain ⟨q, hq, hc⟩ := Option.bind_eq_some_iff.1 h
  obtain ⟨c, hc, he⟩ := Option.map_eq_some_iff.1 hc
  cases he
  exact ⟨hq, hc⟩

private theorem Kept.accept (h : Kept st) {sock : Nat} (hp : st.memory p = none) :
    Kept { st with
      memory := Function.update st.memory p (some ⟨sock, .clientCon, 0, 0⟩)
      clientvec := st.clientvec ++ [p] } := by
  have hnew : p ∉ st.clientvec := fun hm => by simpa [hp] using (h.alloc p).2 hm
  have hcount : st.waiting.count p = 0 := List.count_eq_zero.2 fun hm => hnew (h.connected p hm)
  refine ⟨⟨by simpa using (List.nodup_concat _ _).2 ⟨hnew, h.nodup⟩, fun q => ?_, fun q hq => ?_,
    fun q hq c hc => ?_⟩, h.waiters, h.served⟩
  · by_cases hq : q = p
    · simp [hq]
    · simpa [Function.update_of_ne hq, hq] using h.alloc q
  · exact List.mem_append_left _ (h.connected q hq)
  · by_cases hqp : q = p
    · subst hqp
      simp only [Function.update_self, Option.some.injEq] at hc
      simp [← hc, hcount]
    · simp only [Function.update_of_ne hqp] at hc
      exact h.once q (by simpa [hqp] using hq) c hc

private theorem Kept.lostConnection (h : Kept st) (hi : st.clientvec[i]? = some p) (hp : p ∉ st.waiting)
    (hs : lostConnection st i p client = some st') : Kept st' := by
  unfold Agent.lostConnection at hs
  split at hs
  · cases hs
  · cases hs
    have hmem : ∀ q, q ∈ fillHole st.clientvec i ↔ q ∈ st.clientvec ∧ q ≠ p := fun q => mem_fillHole h.nodup hi
    have hlt := (List.getElem?_eq_some_iff.1 hi).1
    refine ⟨⟨(fillHole_perm hlt).nodup_iff.2 (h.nodup.sublist (List.eraseIdx_sublist _ _)), fun q => ?_,
      fun q hq => (hmem q).2 ⟨h.connected q hq, fun hqp => hp (hqp ▸ hq)⟩, fun q hq c hc => ?_⟩, h.waiters, h.served⟩
    · by_cases hq : q = p
      · simp [hmem, hq]
      · simpa [hmem, Function.update_of_ne hq, hq] using h.alloc q
    · obtain ⟨hq, hqp⟩ := (hmem q).1 hq
      simp only [Function.update_of_ne hqp] at hc
      exact h.once q hq c hc

private theorem Kept.needServer (h : Kept st) {attempt : Nat → Attempt} (hi : st.clientvec[i]? = some p)
    (hp : st.memory p = some client) (hlen : st.waiting.length < maxWaiting)
    (hs : needServer st p client attempt = some st') : Kept st' := by
  have hin : p ∈ st.clientvec := List.mem_of_getElem? hi
  have hcount := h.once p hin client hp
  have hw := h.toWaits.update hp (c := { client with asked := client.asked + 1 }) (w := st.waiting ++ [p])
    (fun q hq => by
      rcases List.mem_append.1 hq with hq | hq
      · exact h.connected q hq
      · exact List.mem_singleton.1 hq ▸ hin)
    (by simp only [List.count_append, List.count_singleton_self]; omega)
    (fun q hq => by simp [List.count_append, Ne.symm hq])
  have hlen' : (st.waiting ++ [p]).length ≤ maxWaiting := by
    simp only [List.length_append, List.length_singleton]
    omega
  simp only [Agent.needServer] at hs
  split at hs
  · exact (connectClients_connected hw hs).kept hlen'
  · rename_i hserv
    cases hs
    exact ⟨hw, hlen', fun hs => absurd hs hserv⟩

private theorem Kept.serverReady (h : Kept st) {attempt : Nat → Attempt} {server : Server} {sent : Bool}
    (hi : st.clientvec[i]? = some p) (hp : st.memory p = some client)
    (hs : serverReady st p client server sent attempt = some st') : Kept st' := by
  have hw := h.toWaits.update hp (c := { client with type := .serverCon }) (w := st.waiting) h.connected
    (h.once p (List.mem_of_getElem? hi) client hp) (fun _ _ => rfl)
  simp only [Agent.serverReady, tryToInstantiate] at hs
  split at hs
  · refine (connectClients_connected ?_ hs).kept h.waiters
    exact ⟨hw.nodup, hw.alloc, hw.connected, hw.once⟩
  · cases hs

private theorem Kept.step (h : Kept st) {e : Event} (hok : Orderly st e) (hs : step st e = some st') : Kept st' := by
  cases e with
  | timeout attempt => exact (connectClients_connected h.toWaits hs).kept h.waiters
  | accept p sock =>
    simp only [Agent.step] at hs
    split at hs
    · rename_i hfree
      cases hs
      exact h.accept hfree.2
    · cases hs
  | needServer i attempt =>
    obtain ⟨⟨p, client⟩, hc, hs⟩ := Option.bind_eq_some_iff.1 hs
    exact h.needServer (client_eq hc).1 (client_eq hc).2 hok hs
  | serverReady i server sent attempt =>
    obtain ⟨⟨p, client⟩, hc, hs⟩ := Option.bind_eq_some_iff.1 hs
    exact h.serverReady (client_eq hc).1 (client_eq hc).2 hs
  | readyCut i server =>
    obtain ⟨⟨p, client⟩, hc, hs⟩ := Option.bind_eq_some_iff.1 hs
    have hlocal : Kept { st with localServer := server } :=
      ⟨⟨h.nodup, h.alloc, h.connected, h.once⟩, h.waiters, h.served⟩
    exact hlocal.lostConnection (client_eq hc).1 (hok p (client_eq hc).1) hs
  | other i =>
    obtain ⟨pc, -, rfl⟩ := Option.map_eq_some_iff.1 hs
    exact h
  | lost i =>
    obtain ⟨⟨p, client⟩, hc, hs⟩ := Option.bind_eq_some_iff.1 hs
    exact h.lostConnection (client_eq hc).1 (hok p (client_eq hc).1) hs
  | reach up =>
    cases hs
    exact ⟨⟨h.nodup, h.alloc, h.connected, h.once⟩, h.waiters, fun hserv hup => hok hup hserv⟩

/-! ### Every run -/

private theorem run_start {ok : State → Event → Prop} : Reach.Run step ok (· = start) start := .start rfl

/-- In every run in which no client leaves while it waits, `waiting` is never full at a `NEED_SERVER`, and no registered
server becomes reachable behind the back of a waiting client, the agent serves exactly its waiting clients. -/
theorem agent_serves_waiting (h : Reach.Run step Orderly (· = start) st) : Serves st := by
  have hk : Kept st := h.invariant
    (by
      rintro s rfl
      exact ⟨⟨List.nodup_nil, fun p => by simp [start], nofun, nofun⟩, Nat.zero_le _, nofun⟩)
    (fun s e s' hs hok hst => hs.step hok hst)
  exact ⟨hk.connected, hk.waiters, hk.once, hk.served⟩

/-- A client asks before the server is there, a second one leaves without having asked, then the server registers. -/
def servedEvents : List Event :=
  [.accept 0 5, .accept 1 6, .accept 2 7, .needServer 0 fun _ => .refused, .lost 1,
    .serverReady 1 ⟨12, "/tmp/server"⟩ true fun _ => .connected]

def servedState : State := (Reach.exec step Orderly start servedEvents).getD start

theorem servedState_serves :
    (servedState.clientvec = [0, 2] ∧ servedState.memory 0 = some ⟨5, .clientCon, 1, 1⟩) ∧ Serves servedState :=
  ⟨by decide +kernel, agent_serves_waiting (run_start.exec_getD servedEvents)⟩

/-- A client asks before the server is there and leaves. -/
def staleEvents : List Event := [.accept 0 5, .needServer 0 fun _ => .refused, .lost 0]

/-- Its entry stays on `waiting` and points to freed memory. -/
theorem stale_entry :
    ∃ st, Reach.Run step (fun _ _ => True) (· = start) st ∧ st.waiting = [0] ∧ st.memory 0 = none ∧ ¬Serves st := by
  refine ⟨(Reach.exec step (fun _ _ => True) start staleEvents).getD start, run_start.exec_getD _,
    by decide +kernel, by decide +kernel, fun h => ?_⟩
  have hin := h.connected 0 (by decide +kernel)
  revert hin
  decide +kernel

end Ddsnap.Agent
