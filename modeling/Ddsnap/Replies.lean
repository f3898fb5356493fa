import Ddsnap.DeltaExtents
import Ddsnap.Lib.ByteMemory
import Mathlib.Data.List.GetD

/-!
# Replies to read and write requests

The server answers a request with a message that it builds chunk by chunk: after a header come ranges of adjacent
chunks, each with its first chunk, its length and, in an answer about a snapshot, one exception for every chunk.  The
length of a range is stored when the range is over, through a pointer that was kept; the number of ranges is counted
apart and stored at the end.

A client walks over as many ranges as the message says.  What it finds is what was put in exactly if everything lies in
one range: the counter moves with the buffer, not with the ranges.
-/

namespace Ddsnap

open ByteMemory

/-! ### The message -/

/-- `sizeof(struct head) + offsetof(struct rw_request, ranges)`, after the code, the length, the id and the count. -/
def rangesAt : Nat := 14

def maxbody : Nat := 500

def snapshotWriteOk : Nat := 0xbead0007

/-- How a message can fail: `error("Need realloc")`, or a store through a pointer that is not set. -/
inductive ReplyError where
  | needRealloc
  | nullPointer
  deriving DecidableEq

/-- `struct addto`.  The buffer is addressed from its start, with what `malloc` leaves in it; `lim` is `maxbody`. -/
structure Addto where
  count : Nat
  firstchunk : Nat
  nextchunk : Nat
  reply : Mem
  countp : Option Nat
  top : Option Nat

/-- `{ .nextchunk = -1 }`. -/
def Addto.init (memory : Mem) : Addto := ⟨0, 0, 2 ^ 64 - 1, memory, none, none⟩

def checkResponseFull (top bytes : Nat) : Except ReplyError Unit :=
  if top + bytes < maxbody then .ok () else .error .needRealloc

/-- `*(r->countp) = r->nextchunk - r->firstchunk`. -/
def Addto.finishRange (r : Addto) (countp : Nat) : Mem := write 2 r.reply countp (diff64 r.nextchunk r.firstchunk)

/-- The old range is finished, or the buffer is there: the reply, and where the next range goes. -/
def Addto.nextRange (r : Addto) : Except ReplyError (Addto × Nat) :=
  match r.top, r.countp with
  | none, _ => .ok ({ r with count := (r.count + 1) % 2 ^ 32 }, rangesAt)
  | some top, some countp => .ok ({ r with reply := r.finishRange countp }, top)
  | some _, none => .error .nullPointer

/-- A new range. -/
def Addto.startRange (r : Addto) (top chunk : Nat) : Except ReplyError Addto := do
  checkResponseFull top 16
  return { r with
    reply := write 8 r.reply top chunk, firstchunk := chunk, countp := some (top + 8), top := some (top + 10) }

def addtoResponse (r : Addto) (chunk : Nat) : Except ReplyError Addto := do
  let r ← if chunk = r.nextchunk then pure r else do
    let (r, top) ← r.nextRange
    r.startRange top chunk
  return { r with nextchunk := (chunk + 1) % 2 ^ 64 }

/-- `*(snap.top)++ = exception`, after the check for room: that finds nothing wrong with a buffer that is not there. -/
def Addto.storeException (r : Addto) (exception : Nat) : Except ReplyError Addto :=
  match r.top with
  | none => .error .nullPointer
  | some top => do
    checkResponseFull top 8
    return { r with reply := write 8 r.reply top exception, top := some (top + 8) }

/-- What `incoming` adds for a chunk: only an answer about a snapshot has exceptions. -/
def addChunk (snap : Bool) (r : Addto) (item : Nat × Nat) : Except ReplyError Addto := do
  let r ← addtoResponse r item.1
  if snap then r.storeException item.2 else return r

/-- The chunks of a request with their exceptions, one after the other. -/
def feed (snap : Bool) : Addto → List (Nat × Nat) → Except ReplyError Addto
  | r, [] => .ok r
  | r, item :: items => do
    let r ← addChunk snap r item
    feed snap r items

/-- `finish_reply_`: the message, if there is one. -/
def finishReply (r : Addto) (code id : Nat) : Option Mem :=
  r.countp.map fun countp =>
    let m := r.finishRange countp
    let m := write 4 m 0 code
    let m := write 4 m 4 (r.top.getD 0 - 8)
    let m := write 4 m 8 id
    write 2 m 12 r.count

/-- What a client finds in `n` ranges. -/
def decodeRanges (snap : Bool) (m : Mem) : Nat → Nat → List (Nat × Option Nat)
  | 0, _ => []
  | n + 1, p =>
    let chunks := load 2 m (p + 8)
    (List.range chunks).map (fun j => ((load 8 m p + j) % 2 ^ 64, if snap then some (load 8 m (p + 10 + 8 * j)) else none))
      ++ decodeRanges snap m n (p + 10 + if snap then 8 * chunks else 0)

/-- What a client finds in a message. -/
def decodeReply (snap : Bool) (m : Mem) : List (Nat × Option Nat) := decodeRanges snap m (load 2 m 12) rangesAt

/-- The buffer of a client that got the message: header and body, with anything after it. -/
def Received (msg rcv : Mem) : Prop := ∀ i < 8 + load 4 msg 4, rcv i = msg i

/-- The chunks, with the exceptions that are sent. -/
def sentItems (snap : Bool) (items : List (Nat × Nat)) : List (Nat × Option Nat) :=
  items.map fun item => (item.1, if snap then some item.2 else none)

/-- The message is built, and a client finds in it what was put in.  There is none if nothing was. -/
def Recovered (snap : Bool) (memory : Mem) (code id : Nat) (items : List (Nat × Nat)) : Prop :=
  ∃ r, feed snap (Addto.init memory) items = .ok r ∧ (finishReply r code id = none → items = []) ∧
    ∀ msg, finishReply r code id = some msg → ∀ rcv, Received msg rcv → decodeReply snap rcv = sentItems snap items

/-- The second chunk comes right after the first, as 64-bit numbers. -/
def Adjacent (a b : Nat × Nat) : Prop := b.1 = (a.1 + 1) % 2 ^ 64

/-- The chunks make one range, not at the last number, and its length is a `shortcount`. -/
def OneRange (items : List (Nat × Nat)) : Prop :=
  items.head?.map Prod.fst ≠ some (2 ^ 64 - 1) ∧ items.IsChain Adjacent ∧ items.length < 2 ^ 16

/-! ### The first range -/

/-- The end of a range of `k` chunks at the start of the message. -/
def rangeEnd (snap : Bool) (k : Nat) : Nat := 24 + if snap then 8 * k else 0

/-- The first range is in the buffer, but for its length. -/
structure FirstRange (snap : Bool) (m : Mem) (first : Nat) (exceptions : List Nat) : Prop where
  chunk : load 8 m rangesAt = first
  stored : snap = true → ∀ j < exceptions.length, load 8 m (24 + 8 * j) = exceptions.getD j 0

/-- The first range is being extended. -/
structure Opened (snap : Bool) (r : Addto) (first : Nat) (exceptions : List Nat) : Prop where
  count : r.count = 1
  firstchunk : r.firstchunk = first
  nextchunk : r.nextchunk = (first + exceptions.length) % 2 ^ 64
  countp : r.countp = some 22
  top : r.top = some (rangeEnd snap exceptions.length)
  top_le : rangeEnd snap exceptions.length ≤ maxbody
  range : FirstRange snap r.reply first exceptions

/-- The first range is over, and others follow. -/
structure Closed (snap : Bool) (r : Addto) (exceptions : List Nat) : Prop where
  count : r.count = 1
  places : ∃ countp top, r.countp = some countp ∧ r.top = some top ∧ rangeEnd snap exceptions.length ≤ countp ∧
    countp + 2 ≤ top ∧ top ≤ maxbody
  length : load 2 r.reply 22 = exceptions.length % 2 ^ 16

/-- No range was started. -/
structure Idle (r : Addto) : Prop where
  count : r.count = 0
  top : r.top = none
  countp : r.countp = none

variable {snap : Bool} {r r' : Addto} {m msg rcv : Mem} {first a w v code id : Nat} {exceptions : List Nat}
  {item : Nat × Nat} {items : List (Nat × Nat)}

private theorem le_rangeEnd (snap : Bool) (k : Nat) : 24 ≤ rangeEnd snap k := Nat.le_add_right _ _

private theorem FirstRange.write_behind (h : FirstRange snap m first exceptions)
    (ha : rangeEnd snap exceptions.length ≤ a) : FirstRange snap (write w m a v) first exceptions := by
  have hend := le_rangeEnd snap exceptions.length
  refine ⟨?_, fun hsnap j hj => ?_⟩
  · rw [load_write_of_disjoint (by unfold rangesAt; omega), h.chunk]
  · rw [load_write_of_disjoint (by simp only [rangeEnd, hsnap, if_true] at ha; omega), h.stored hsnap j hj]

private theorem FirstRange.write_before (h : FirstRange snap m first exceptions)
    (ha : a + w ≤ rangesAt ∨ a = 22 ∧ w = 2) : FirstRange snap (write w m a v) first exceptions := by
  unfold rangesAt at ha
  refine ⟨?_, fun hsnap j hj => ?_⟩
  · rw [load_write_of_disjoint (by unfold rangesAt; omega), h.chunk]
  · rw [load_write_of_disjoint (by omega), h.stored hsnap j hj]

private theorem Opened.length_eq (h : Opened snap r first exceptions) (hfirst : first < 2 ^ 64) :
    diff64 r.nextchunk r.firstchunk % 2 ^ 16 = exceptions.length % 2 ^ 16 := by
  rw [h.nextchunk, h.firstchunk, diff64]
  omega

private theorem load_finishRange (h : Opened snap r first exceptions) (hfirst : first < 2 ^ 64) :
    load 2 (r.finishRange 22) 22 = exceptions.length % 2 ^ 16 := by
  rw [Addto.finishRange, load_write_self]
  exact h.length_eq hfirst

/-! ### One more chunk -/

private theorem startRange_eq (r : Addto) (top chunk : Nat) :
    r.startRange top chunk = .error .needRealloc ∨ top + 16 < maxbody ∧ r.startRange top chunk = .ok { r with
      reply := write 8 r.reply top chunk, firstchunk := chunk, countp := some (top + 8), top := some (top + 10) } := by
  unfold Addto.startRange checkResponseFull
  split
  · exact .inr ⟨‹_›, rfl⟩
  · exact .inl rfl

private theorem storeException_eq (e : Nat) (htop : r.top = some a) :
    r.storeException e = .error .needRealloc ∨
      a + 8 < maxbody ∧ r.storeException e = .ok { r with reply := write 8 r.reply a e, top := some (a + 8) } := by
  unfold Addto.storeException checkResponseFull
  rw [htop]
  dsimp only
  split
  · exact .inr ⟨‹_›, rfl⟩
  · exact .inl rfl

private theorem addtoResponse_of_eq (h : item.1 = r.nextchunk) :
    addtoResponse r item.1 = .ok { r with nextchunk := (item.1 + 1) % 2 ^ 64 } := by
  unfold addtoResponse
  rw [if_pos h]
  rfl

private theorem addtoResponse_of_ne {countp top : Nat} (h : item.1 ≠ r.nextchunk) (hcountp : r.countp = some countp)
    (htop : r.top = some top) :
    addtoResponse r item.1 = .error .needRealloc ∨ top + 16 < maxbody ∧ addtoResponse r item.1 = .ok { r with
      reply := write 8 (r.finishRange countp) top item.1, firstchunk := item.1, countp := some (top + 8),
      top := some (top + 10), nextchunk := (item.1 + 1) % 2 ^ 64 } := by
  have hnext : r.nextRange = .ok ({ r with reply := r.finishRange countp }, top) := by
    unfold Addto.nextRange
    rw [htop, hcountp]
  unfold addtoResponse
  rw [if_neg h, hnext]
  rcases startRange_eq { r with reply := r.finishRange countp } top item.1 with hs | ⟨hroom, hs⟩
  · exact .inl (by simp only [bind, Except.bind, hs])
  · exact .inr ⟨hroom, by simp only [bind, Except.bind, hs]; rfl⟩

private theorem addtoResponse_of_idle (hr : Idle r) (h : item.1 ≠ r.nextchunk) :
    addtoResponse r item.1 = .ok { r with
      count := 1, reply := write 8 r.reply rangesAt item.1, firstchunk := item.1, countp := some 22,
      top := some 24, nextchunk := (item.1 + 1) % 2 ^ 64 } := by
  have hnext : r.nextRange = .ok ({ r with count := 1 }, rangesAt) := by
    unfold Addto.nextRange
    rw [hr.top, hr.count, hr.countp]
    rfl
  unfold addtoResponse
  rw [if_neg h, hnext]
  rfl

private theorem Opened.extend (h : Opened snap r first exceptions) (hitem : item.1 = r.nextchunk)
    (he : item.2 < 2 ^ 64) : addChunk snap r item = .error .needRealloc ∨
      ∃ r', addChunk snap r item = .ok r' ∧ Opened snap r' first (exceptions ++ [item.2]) := by
  have hnext : (item.1 + 1) % 2 ^ 64 = (first + (exceptions ++ [item.2]).length) % 2 ^ 64 := by
    rw [hitem, h.nextchunk, List.length_append, List.length_singleton]
    omega
  unfold addChunk
  rw [addtoResponse_of_eq hitem]
  cases snap with
  | false =>
    exact .inr ⟨_, rfl, h.count, h.firstchunk, hnext, h.countp, h.top, h.top_le, h.range.chunk, nofun⟩
  | true =>
    simp only [bind, Except.bind, if_true]
    rcases storeException_eq item.2 (r := { r with nextchunk := (item.1 + 1) % 2 ^ 64 }) h.top with hs | ⟨hroom, hs⟩
    · exact .inl hs
    · have hend : rangeEnd true (exceptions ++ [item.2]).length = rangeEnd true exceptions.length + 8 := by
        simp only [rangeEnd, if_true, List.length_append, List.length_singleton]
        omega
      refine .inr ⟨_, hs, h.count, h.firstchunk, hnext, h.countp, by rw [hend], by rw [hend]; omega, ?_, ?_⟩
      · exact (h.range.write_behind (Nat.le_refl _)).chunk
      · intro _ j hj
        rw [List.length_append, List.length_singleton] at hj
        rcases Nat.lt_or_eq_of_le (Nat.le_of_lt_succ hj) with hj | rfl
        · rw [(h.range.write_behind (Nat.le_refl _)).stored rfl j hj, List.getD_append _ _ _ _ hj]
        · have hat : rangeEnd true exceptions.length = 24 + 8 * exceptions.length := rfl
          rw [hat, load_write_self, List.getD_append_right _ _ _ _ (Nat.le_refl _), Nat.sub_self]
          exact Nat.mod_eq_of_lt he

/-- Whatever starts a range behind the first one leaves that alone. -/
private theorem addChunk_behind {countp top : Nat} (h : item.1 ≠ r.nextchunk) (hcountp : r.countp = some countp)
    (htop : r.top = some top) (hcount : r.count = 1) (hlast : countp = 22 ∨ rangeEnd snap exceptions.length ≤ countp)
    (hplace : rangeEnd snap exceptions.length ≤ top)
    (hlength : load 2 (r.finishRange countp) 22 = exceptions.length % 2 ^ 16) :
    addChunk snap r item = .error .needRealloc ∨
      ∃ r', addChunk snap r item = .ok r' ∧ Closed snap r' exceptions := by
  have hend := le_rangeEnd snap exceptions.length
  unfold addChunk
  rcases addtoResponse_of_ne h hcountp htop with hs | ⟨hroom, hs⟩
  · exact .inl (by simp only [hs, bind, Except.bind])
  · rw [hs]
    have hkept : load 2 (write 8 (r.finishRange countp) top item.1) 22 = exceptions.length % 2 ^ 16 := by
      rw [load_write_of_disjoint (by omega), hlength]
    cases snap with
    | false => exact .inr ⟨_, rfl, hcount, ⟨top + 8, top + 10, rfl, rfl, by omega, by omega, by omega⟩, hkept⟩
    | true =>
      simp only [bind, Except.bind, if_true]
      rcases storeException_eq item.2 (a := top + 10) (r := { r with
        reply := write 8 (r.finishRange countp) top item.1, firstchunk := item.1, countp := some (top + 8),
        top := some (top + 10), nextchunk := (item.1 + 1) % 2 ^ 64 }) rfl with hs | ⟨hroom', hs⟩
      · exact .inl hs
      · refine .inr ⟨_, hs, hcount, ⟨top + 8, top + 10 + 8, rfl, rfl, by omega, by omega, by omega⟩, ?_⟩
        rw [load_write_of_disjoint (by omega), hkept]

private theorem Opened.close (h : Opened snap r first exceptions) (hfirst : first < 2 ^ 64)
    (hitem : item.1 ≠ r.nextchunk) :
    addChunk snap r item = .error .needRealloc ∨ ∃ r', addChunk snap r item = .ok r' ∧ Closed snap r' exceptions :=
  addChunk_behind hitem h.countp h.top h.count (.inl rfl) (Nat.le_refl _) (load_finishRange h hfirst)

private theorem Closed.step (h : Closed snap r exceptions) (item : Nat × Nat) :
    addChunk snap r item = .error .needRealloc ∨ ∃ r', addChunk snap r item = .ok r' ∧ Closed snap r' exceptions := by
  obtain ⟨countp, top, hcountp, htop, hplace, hle, hmax⟩ := h.places
  have hend := le_rangeEnd snap exceptions.length
  by_cases hitem : item.1 = r.nextchunk
  · unfold addChunk
    rw [addtoResponse_of_eq hitem]
    cases snap with
    | false => exact .inr ⟨_, rfl, h.count, h.places, h.length⟩
    | true =>
      simp only [bind, Except.bind, if_true]
      rcases storeException_eq item.2 (r := { r with nextchunk := (item.1 + 1) % 2 ^ 64 }) htop with hs | ⟨hroom, hs⟩
      · exact .inl hs
      · refine .inr ⟨_, hs, h.count, ⟨countp, top + 8, hcountp, rfl, hplace, by omega, by omega⟩, ?_⟩
        rw [load_write_of_disjoint (by omega), h.length]
  · refine addChunk_behind hitem hcountp htop h.count (.inr hplace) (by omega) ?_
    rw [Addto.finishRange, load_write_of_disjoint (by omega), h.length]

private theorem Idle.open (snap : Bool) (hr : Idle r) (hfirst : item.1 < 2 ^ 64) (he : item.2 < 2 ^ 64)
    (hitem : item.1 ≠ r.nextchunk) :
    ∃ r', addChunk snap r item = .ok r' ∧ Opened snap r' item.1 [item.2] := by
  unfold addChunk
  rw [addtoResponse_of_idle hr hitem]
  have hchunk : load 8 (write 8 r.reply rangesAt item.1) rangesAt = item.1 := by
    rw [load_write_self]
    exact Nat.mod_eq_of_lt hfirst
  cases snap with
  | false => exact ⟨_, rfl, rfl, rfl, rfl, rfl, rfl, by simp [rangeEnd, maxbody], hchunk, nofun⟩
  | true =>
    refine ⟨_, rfl, rfl, rfl, rfl, rfl, rfl, by simp [rangeEnd, maxbody], ?_, fun _ j hj => ?_⟩
    · rw [load_write_of_disjoint (by decide), hchunk]
    · obtain rfl : j = 0 := by simpa using hj
      rw [load_write_self]
      exact Nat.mod_eq_of_lt he

private theorem Idle.stay (snap : Bool) (hr : Idle r) (hitem : item.1 = r.nextchunk) :
    (snap = true → addChunk snap r item = .error .nullPointer) ∧
      (snap = false → ∃ r', addChunk snap r item = .ok r' ∧ Idle r') := by
  unfold addChunk
  rw [addtoResponse_of_eq hitem]
  refine ⟨fun hsnap => ?_, fun hsnap => ?_⟩
  · simp only [hsnap, bind, Except.bind, if_true, Addto.storeException, hr.top]
  · rw [hsnap]
    exact ⟨_, rfl, hr.count, hr.top, hr.countp⟩

/-! ### All chunks of a request -/

private theorem feed_cons_error (items : List (Nat × Nat)) {e : ReplyError} (h : addChunk snap r item = .error e) :
    feed snap r (item :: items) = .error e := by
  simp only [feed, h, bind, Except.bind]

private theorem feed_cons_ok (items : List (Nat × Nat)) (h : addChunk snap r item = .ok r') :
    feed snap r (item :: items) = feed snap r' items := by
  simp only [feed, h, bind, Except.bind]

private theorem Closed.feed (h : Closed snap r exceptions) (items : List (Nat × Nat)) :
    feed snap r items = .error .needRealloc ∨ ∃ r', feed snap r items = .ok r' ∧ Closed snap r' exceptions := by
  induction items generalizing r with
  | nil => exact .inr ⟨r, rfl, h⟩
  | cons item items ih =>
    rcases h.step item with hs | ⟨r1, hs, h1⟩
    · exact .inl (feed_cons_error items hs)
    · rw [feed_cons_ok items hs]
      exact ih h1

/-- The first range takes in the chunks that follow on it, and is over with the first that does not. -/
private theorem Opened.feed {last : Nat × Nat} (h : Opened snap r first exceptions) (hfirst : first < 2 ^ 64)
    (hlast : r.nextchunk = (last.1 + 1) % 2 ^ 64) (he : ∀ item ∈ items, item.2 < 2 ^ 64) :
    feed snap r items = .error .needRealloc ∨ ∃ r', feed snap r items = .ok r' ∧
      ((last :: items).IsChain Adjacent ∧ Opened snap r' first (exceptions ++ items.map Prod.snd) ∨
        ¬(last :: items).IsChain Adjacent ∧
          ∃ run, Closed snap r' run ∧ run.length < exceptions.length + items.length) := by
  induction items generalizing r exceptions last with
  | nil => exact .inr ⟨r, rfl, .inl ⟨.singleton _, by rwa [List.map_nil, List.append_nil]⟩⟩
  | cons item items ih =>
    have hi := he item List.mem_cons_self
    by_cases hitem : item.1 = r.nextchunk
    · rcases h.extend hitem hi with hs | ⟨r1, hs, h1⟩
      · exact .inl (feed_cons_error items hs)
      · have hnext : r1.nextchunk = (item.1 + 1) % 2 ^ 64 := by
          rw [h1.nextchunk, hitem, h.nextchunk, List.length_append, List.length_singleton]
          omega
        have hadj : Adjacent last item := hitem.trans hlast
        rw [feed_cons_ok items hs, List.isChain_cons_cons]
        rcases ih h1 hnext fun i hm => he i (List.mem_cons_of_mem _ hm) with hf | ⟨r', hf, hr⟩
        · exact .inl hf
        · refine .inr ⟨r', hf, hr.imp (fun ⟨hc, ho⟩ => ⟨⟨hadj, hc⟩, ?_⟩) fun ⟨hc, run, hrun, hlt⟩ =>
            ⟨fun hall => hc hall.2, run, hrun, ?_⟩⟩
          · rwa [List.append_assoc] at ho
          · rw [List.length_append, List.length_singleton] at hlt
            rw [List.length_cons]
            omega
    · have hbreak : ¬(last :: item :: items).IsChain Adjacent := fun hc =>
        hitem (((List.isChain_cons_cons.1 hc).1 : item.1 = _).trans hlast.symm)
      rcases h.close hfirst hitem with hs | ⟨r1, hs, h1⟩
      · exact .inl (feed_cons_error items hs)
      · rw [feed_cons_ok items hs]
        refine (h1.feed items).imp_right fun ⟨r', hf, hr⟩ => ⟨r', hf, .inr ⟨hbreak, exceptions, hr, ?_⟩⟩
        rw [List.length_cons]
        omega

/-- If nothing opens a range at first, what the message has is of the chunks after that. -/
private theorem Idle.feed (hr : Idle r) (hwords : ∀ item ∈ items, item.1 < 2 ^ 64 ∧ item.2 < 2 ^ 64)
    (hf : feed snap r items = .ok r') :
    r'.countp = none ∨ ∃ first run, first < 2 ^ 64 ∧ run.length ≤ items.length ∧
      (Opened snap r' first run ∨ Closed snap r' run) := by
  induction items generalizing r with
  | nil =>
    cases hf
    exact .inl hr.countp
  | cons item items ih =>
    obtain ⟨hchunk, he⟩ := hwords item List.mem_cons_self
    have hrest := fun i hm => hwords i (List.mem_cons_of_mem item hm)
    by_cases hitem : item.1 = r.nextchunk
    · obtain ⟨hsnap, horg⟩ := hr.stay snap hitem
      cases hs : snap with
      | true =>
        rw [feed_cons_error items (hsnap hs)] at hf
        cases hf
      | false =>
        obtain ⟨r1, h1, hidle⟩ := horg hs
        rw [feed_cons_ok items h1] at hf
        subst hs
        refine (ih hidle hrest hf).imp_right fun ⟨first, run, hfirst, hle, h⟩ => ⟨first, run, hfirst, ?_, h⟩
        rw [List.length_cons]
        omega
    · obtain ⟨r1, h1, hopen⟩ := hr.open snap hchunk he hitem
      rw [feed_cons_ok items h1] at hf
      refine .inr ?_
      rcases hopen.feed hchunk hopen.nextchunk fun i hm => (hrest i hm).2 with h | ⟨r2, h, hr2⟩
      · rw [h] at hf
        cases hf
      · rw [h] at hf
        cases hf
        rcases hr2 with ⟨-, ho⟩ | ⟨-, run, hclosed, hlt⟩
        · exact ⟨item.1, _, hchunk, by simp, .inl ho⟩
        · refine ⟨item.1, run, hchunk, ?_, .inr hclosed⟩
          rw [List.length_cons]
          simp only [List.length_singleton] at hlt
          omega

/-! ### The message that is sent -/

/-- What the client reads of the header, and the length of the first range. -/
structure Sent (snap : Bool) (msg : Mem) (k : Nat) : Prop where
  count : load 2 msg 12 = 1
  length : load 2 msg 22 = k % 2 ^ 16
  reach : rangeEnd snap k ≤ 8 + load 4 msg 4

private theorem finishReply_eq (code id : Nat) {countp : Nat} (hcountp : r.countp = some countp) :
    finishReply r code id = some (write 2 (write 4 (write 4 (write 4 (r.finishRange countp) 0 code) 4
      (r.top.getD 0 - 8)) 8 id) 12 r.count) := by
  rw [finishReply, hcountp]
  rfl

private theorem load_finishReply (hmsg : finishReply r code id = some msg) {countp : Nat}
    (hcountp : r.countp = some countp) (ha : rangesAt ≤ a) : load w msg a = load w (r.finishRange countp) a := by
  unfold rangesAt at ha
  rw [finishReply_eq code id hcountp] at hmsg
  cases hmsg
  rw [load_write_of_disjoint (by omega), load_write_of_disjoint (by omega), load_write_of_disjoint (by omega),
    load_write_of_disjoint (by omega)]

private theorem sent_of {countp top k : Nat} (hmsg : finishReply r code id = some msg) (hcount : r.count = 1)
    (hcountp : r.countp = some countp) (htop : r.top = some top) (hmax : top ≤ maxbody) (hend : rangeEnd snap k ≤ top)
    (hlength : load 2 (r.finishRange countp) 22 = k % 2 ^ 16) : Sent snap msg k := by
  have hlen := (load_finishReply hmsg hcountp (by decide : rangesAt ≤ 22)).trans hlength
  have h24 := le_rangeEnd snap k
  rw [finishReply_eq code id hcountp] at hmsg
  cases hmsg
  refine ⟨?_, hlen, ?_⟩
  · rw [load_write_self, hcount]
    decide
  · rw [load_write_of_disjoint (by omega), load_write_of_disjoint (by omega), load_write_self, htop]
    have hlt : top - 8 < 256 ^ 4 := by
      unfold maxbody at hmax
      omega
    rw [Option.getD_some, Nat.mod_eq_of_lt hlt]
    omega

private theorem Opened.sent (h : Opened snap r first exceptions) (hfirst : first < 2 ^ 64)
    (hmsg : finishReply r code id = some msg) :
    Sent snap msg exceptions.length ∧ FirstRange snap msg first exceptions := by
  have hrange : FirstRange snap (r.finishRange 22) first exceptions := h.range.write_before (.inr ⟨rfl, rfl⟩)
  refine ⟨sent_of hmsg h.count h.countp h.top h.top_le (Nat.le_refl _) (load_finishRange h hfirst), ?_, ?_⟩
  · rw [load_finishReply hmsg h.countp (Nat.le_refl _), hrange.chunk]
  · intro hsnap j hj
    rw [load_finishReply hmsg h.countp (by unfold rangesAt; omega), hrange.stored hsnap j hj]

private theorem Closed.sent (h : Closed snap r exceptions) (hmsg : finishReply r code id = some msg) :
    Sent snap msg exceptions.length := by
  obtain ⟨countp, top, hcountp, htop, hplace, hle, hmax⟩ := h.places
  have hend := le_rangeEnd snap exceptions.length
  refine sent_of hmsg h.count hcountp htop hmax (by omega) ?_
  rw [Addto.finishRange, load_write_of_disjoint (by omega), h.length]

/-! ### What the client finds -/

private theorem load_received (hrcv : Received msg rcv) (ha : a + w ≤ 8 + load 4 msg 4) : load w rcv a = load w msg a :=
  load_congr fun i hi => hrcv (a + i) (by omega)

private theorem Sent.decode (h : Sent snap msg first) (hrcv : Received msg rcv) :
    decodeReply snap rcv = (List.range (first % 2 ^ 16)).map fun j =>
      ((load 8 msg rangesAt + j) % 2 ^ 64, if snap then some (load 8 rcv (24 + 8 * j)) else none) := by
  have hend := le_rangeEnd snap first
  have hreach := h.reach
  have hcount := load_received (w := 2) (a := 12) hrcv (by omega)
  have hlength := load_received (w := 2) (a := 22) hrcv (by omega)
  have hchunk := load_received (w := 8) (a := rangesAt) hrcv (by unfold rangesAt; omega)
  have hat : rangesAt + 8 = 22 := rfl
  have hat' : rangesAt + 10 = 24 := rfl
  rw [decodeReply, hcount, h.count, decodeRanges, decodeRanges, hat, hat', hlength, h.length, hchunk, List.append_nil]

private theorem Sent.length_decode {k : Nat} (h : Sent snap msg k) (hrcv : Received msg rcv) :
    (decodeReply snap rcv).length ≤ k := by
  rw [h.decode hrcv, List.length_map, List.length_range]
  exact Nat.mod_le _ _

private theorem adjacent_getElem (h : (item :: items).IsChain Adjacent) (hitem : item.1 < 2 ^ 64) {j : Nat}
    (hj : j < (item :: items).length) : ((item :: items)[j]).1 = (item.1 + j) % 2 ^ 64 := by
  induction items generalizing item j with
  | nil =>
    obtain rfl : j = 0 := by simpa using hj
    exact (Nat.mod_eq_of_lt hitem).symm
  | cons next items ih =>
    cases j with
    | zero => exact (Nat.mod_eq_of_lt hitem).symm
    | succ j =>
      obtain ⟨hadj, hrest⟩ := List.isChain_cons_cons.1 h
      have hnext : next.1 = (item.1 + 1) % 2 ^ 64 := hadj
      have := ih hrest (by omega) (by simpa using hj)
      rw [List.getElem_cons_succ, this, hnext]
      omega

/-- One range is found as it was. -/
private theorem Opened.decode (h : Opened snap r item.1 ((item :: items).map Prod.snd)) (hitem : item.1 < 2 ^ 64)
    (hchain : (item :: items).IsChain Adjacent) (hlen : (item :: items).length < 2 ^ 16)
    (hmsg : finishReply r code id = some msg) (hrcv : Received msg rcv) :
    decodeReply snap rcv = sentItems snap (item :: items) := by
  obtain ⟨hsent, hrange⟩ := h.sent hitem hmsg
  have hreach := hsent.reach
  rw [List.length_map] at hreach hsent
  rw [hsent.decode hrcv, hrange.chunk, Nat.mod_eq_of_lt hlen]
  refine List.ext_getElem (by simp [sentItems]) fun j h1 h2 => ?_
  have hj : j < (item :: items).length := by simpa using h1
  simp only [sentItems, List.getElem_map, List.getElem_range, adjacent_getElem hchain hitem hj]
  by_cases hs : snap = true
  · simp only [rangeEnd, hs, if_true] at hreach
    have hstored := hrange.stored hs j (by rwa [List.length_map])
    rw [List.getD_eq_getElem _ _ (by rwa [List.length_map]), List.getElem_map] at hstored
    rw [if_pos hs, if_pos hs, load_received hrcv (by omega), hstored]
  · rw [if_neg hs, if_neg hs]

private theorem idle_init (memory : Mem) : Idle (Addto.init memory) := ⟨rfl, rfl, rfl⟩

private theorem not_recovered {memory : Mem} (h : feed snap (Addto.init memory) items = .ok r) (hne : items ≠ [])
    (hshort : r.countp = none ∨
      ∃ first run, first < 2 ^ 64 ∧ run.length < items.length ∧ (Opened snap r first run ∨ Closed snap r run)) :
    ¬Recovered snap memory code id items := by
  rintro ⟨r', hr', hnone, hsome⟩
  obtain rfl : r = r' := Except.ok.inj (h.symm.trans hr')
  rcases hshort with hnull | ⟨first, run, hfirst, hlt, hrun⟩
  · exact hne (hnone (by rw [finishReply, hnull]; rfl))
  · obtain ⟨countp, hcountp⟩ : ∃ countp, r.countp = some countp :=
      hrun.elim (fun h => ⟨_, h.countp⟩) fun h => h.places.imp fun _ ⟨_, h, _⟩ => h
    have hmsg := finishReply_eq code id hcountp
    have hsent := hrun.elim (fun h => (h.sent hfirst hmsg).1) fun h => h.sent hmsg
    have hle := hsent.length_decode fun _ _ => rfl
    rw [hsome _ hmsg _ fun _ _ => rfl, sentItems, List.length_map] at hle
    omega

/-- For chunks that fit in the reply, the client finds them again exactly if they make one range. -/
theorem reply_recovered_iff (snap : Bool) (memory : Mem) (code id : Nat) (items : List (Nat × Nat))
    (hwords : ∀ item ∈ items, item.1 < 2 ^ 64 ∧ item.2 < 2 ^ 64)
    (hfit : feed snap (Addto.init memory) items ≠ .error .needRealloc) :
    Recovered snap memory code id items ↔ OneRange items := by
  cases items with
  | nil =>
    refine ⟨fun _ => ⟨nofun, .nil, by decide⟩, fun _ => ⟨_, rfl, fun _ => rfl, fun msg hmsg => ?_⟩⟩
    cases hmsg
  | cons item items =>
    obtain ⟨hchunk, he⟩ := hwords item List.mem_cons_self
    have hrest := fun i hm => hwords i (List.mem_cons_of_mem item hm)
    by_cases hitem : item.1 = 2 ^ 64 - 1
    · -- the number that `nextchunk` starts with opens no range
      refine iff_of_false (fun hrec => ?_) fun h => h.1 (congrArg some hitem)
      have hbuilt := hrec
      obtain ⟨r, hr, -⟩ := hbuilt
      obtain ⟨hsnap, horg⟩ := (idle_init memory).stay snap hitem
      cases hs : snap with
      | true =>
        rw [feed_cons_error items (hsnap hs)] at hr
        cases hr
      | false =>
        obtain ⟨r1, h1, hidle⟩ := horg hs
        have hf := hr
        rw [feed_cons_ok items h1] at hf
        refine not_recovered hr (List.cons_ne_nil _ _) ((hidle.feed hrest hf).imp_right ?_) hrec
        rintro ⟨first, run, hfirst, hle, h⟩
        exact ⟨first, run, hfirst, by rw [List.length_cons]; omega, h⟩
    · obtain ⟨r1, h1, hopen⟩ := (idle_init memory).open snap hchunk he hitem
      have hf := feed_cons_ok items h1
      rcases hopen.feed hchunk hopen.nextchunk fun i hm => (hrest i hm).2 with h | ⟨r, h, hr⟩
      · exact absurd (hf.trans h) hfit
      · have hall := hf.trans h
        rcases hr with ⟨hchain, ho⟩ | ⟨hbreak, run, hclosed, hlt⟩
        · refine ⟨fun hrec => ⟨fun hh => hitem (Option.some.inj hh), hchain, ?_⟩, fun hone => ?_⟩
          · -- a length that is not a `shortcount` is cut off
            by_contra hlong
            obtain ⟨r', hr', -, hsome⟩ := hrec
            obtain rfl : r = r' := Except.ok.inj (hall.symm.trans hr')
            have hmsg := finishReply_eq code id ho.countp
            have hdec := (ho.sent hchunk hmsg).1.decode fun _ _ => rfl
            have hlen := congrArg List.length ((hsome _ hmsg _ fun _ _ => rfl).symm.trans hdec)
            simp only [sentItems, List.length_map, List.length_range] at hlen
            omega
          · refine ⟨r, hall, fun hnone => ?_, fun msg hmsg rcv hrcv => ?_⟩
            · rw [finishReply_eq code id ho.countp] at hnone
              cases hnone
            · exact Opened.decode ho hchunk hchain hone.2.2 hmsg hrcv
        · refine iff_of_false (not_recovered hall (List.cons_ne_nil _ _) (.inr ⟨item.1, run, hchunk, ?_, .inr hclosed⟩))
            fun hone => hbreak hone.2.1
          rw [List.length_cons]
          simp only [List.length_singleton] at hlt
          omega

theorem reply_recovered_iff_two_chunks :
    feed true (Addto.init fun _ => 0) [(3, 100), (4, 101)] ≠ .error .needRealloc ∧
      Recovered true (fun _ => 0) snapshotWriteOk 7 [(3, 100), (4, 101)] :=
  ⟨nofun, (reply_recovered_iff true (fun _ => 0) snapshotWriteOk 7 [(3, 100), (4, 101)] (by decide) nofun).2
    ⟨by decide, by simp [Adjacent], by decide⟩⟩

/-- The answer to a write of two chunks apart: the second one is in the message, but not in its count of ranges. -/
theorem second_range_lost :
    ∃ r msg, feed true (Addto.init fun _ => 0) [(1, 100), (5, 200)] = .ok r ∧ finishReply r snapshotWriteOk 7 = some msg ∧
      load 8 msg 32 = 5 ∧ load 8 msg 42 = 200 ∧ decodeReply true msg = [(1, some 100)] ∧
      ¬Recovered true (fun _ => 0) snapshotWriteOk 7 [(1, 100), (5, 200)] := by
  refine ⟨_, _, rfl, rfl, by decide +kernel, by decide +kernel, by decide +kernel, ?_⟩
  rintro ⟨r, hr, -, hsome⟩
  cases hr
  have := hsome _ rfl _ fun _ _ => rfl
  revert this
  decide +kernel

end Ddsnap
