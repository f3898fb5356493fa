import Ddsnap.CopyOrder
import Ddsnap.StoreCalls

/-!
# Batches of copies

`copyout` postpones the copy of a chunk and adds the next one to it when source and destination both continue.  Batches
amount to single copies in the order of the calls (`batched_copies`).  A copy that fails is not noticed:
`finish_copyout` returns no error, and the exception is in the tree by then (`failed_copies_iff`).
-/

namespace Ddsnap

variable {D : Type} {sb : Sb D}

/-! ### Batches and single copies -/

/-- A sequence of calls of `copyout`, each with its source and its destination. -/
def copyouts (sb : Sb D) (calls : List (Nat × Nat)) : Sb D := calls.foldl (fun sb p => copyout sb p.1 p.2) sb

/-- One chunk is copied to the snapshot store at once. -/
def Sb.copyNow (sb : Sb D) (dev : Device → Nat → Block D) (p : Nat × Nat) : Device → Nat → Block D :=
  Function.update dev sb.snapdev (Function.update (dev sb.snapdev) p.2 (dev (sb.sourceDev p.1) (p.1 % highbit)))

/-- What is pending after some calls: the sources are all on one device, the destinations are those of earlier calls,
and the chunks fit into the copy buffer. -/
structure PendingCopies (earlier : List (Nat × Nat)) (sb : Sb D) : Prop where
  side : sb.sourceChunk + sb.copyChunks < highbit ∨ highbit ≤ sb.sourceChunk
  dests : ∀ k < sb.copyChunks, sb.destException + k ∈ earlier.map Prod.snd
  fits : sb.copyChunks ≤ sb.copybufChunks

private theorem copyout_snapdev (sb : Sb D) (src r : Nat) : (copyout sb src r).snapdev = sb.snapdev := by
  rw [copyout_eq]
  rfl

private theorem copyout_copybufChunks (sb : Sb D) (src r : Nat) : (copyout sb src r).copybufChunks =
    sb.copybufChunks := by
  rw [copyout_eq]

private theorem copyout_copyNow (sb : Sb D) (src r : Nat) : (copyout sb src r).copyNow = sb.copyNow := by
  funext dev p
  unfold Sb.copyNow Sb.sourceDev
  rw [copyout_snapdev]

private theorem PendingCopies.copyout {earlier : List (Nat × Nat)} (h : PendingCopies earlier sb) {p : Nat × Nat}
    (hbuf : 1 ≤ sb.copybufChunks) (hsrc : p.1 % highbit + 1 < highbit) :
    PendingCopies (earlier ++ [p]) (copyout sb p.1 p.2) := by
  obtain ⟨hend, hstart, hdests⟩ := copyout_pending sb p.1 p.2
  refine ⟨?_, fun k hk => ?_, ?_⟩
  · rw [hend]
    by_cases hhigh : highbit ≤ p.1
    · refine .inr ?_
      rcases hstart with he | ⟨he, hcont⟩
      · rw [he]; exact hhigh
      · rw [he]
        rcases h.side with hs | hs
        · omega
        · exact hs
    · rw [Nat.mod_eq_of_lt (by omega)] at hsrc
      exact .inl hsrc
  · rw [List.map_append, List.mem_append]
    rcases hdests k hk with he | ⟨j, hj, he⟩
    · exact .inr (by simp [he])
    · exact .inl (he ▸ h.dests j hj)
  · rw [copyout_copybufChunks]
    unfold Ddsnap.copyout
    split
    · rename_i hc
      exact hc.2.2
    · exact hbuf

/-- After some calls the devices are, once the pending copy is finished, those after single copies. -/
private theorem copyouts_settled (calls earlier : List (Nat × Nat)) (sb : Sb D) (h : PendingCopies earlier sb)
    (hbuf : 1 ≤ sb.copybufChunks) (hsrc : ∀ p ∈ calls, p.1 < 2 * highbit ∧ p.1 % highbit + 1 < highbit)
    (hapart : ∀ q ∈ calls, highbit ≤ q.1 → q.1 - highbit ∉ earlier.map Prod.snd)
    (hpair : calls.Pairwise fun p q => highbit ≤ q.1 → q.1 - highbit ≠ p.2) :
    (copyouts sb calls).settled = calls.foldl sb.copyNow sb.settled ∧
      PendingCopies (earlier ++ calls) (copyouts sb calls) := by
  induction calls generalizing earlier sb with
  | nil => exact ⟨rfl, by rw [List.append_nil]; exact h⟩
  | cons p calls ih =>
    obtain ⟨hp, hrest⟩ := List.pairwise_cons.1 hpair
    obtain ⟨hsrcp, hsrc⟩ := List.forall_mem_cons.1 hsrc
    obtain ⟨hapartp, hapart⟩ := List.forall_mem_cons.1 hapart
    have hone : (copyout sb p.1 p.2).settled = sb.copyNow sb.settled p := by
      funext d s
      rw [copyout_settled hsrcp.1 h.side
        fun hh k hk he => hapartp hh (he ▸ h.dests k hk)]
      unfold Sb.copyNow
      by_cases hd : d = sb.snapdev
      · subst hd
        by_cases hs : s = p.2
        · simp [hs]
        · simp [hs]
      · rw [if_neg (fun hc => hd hc.1), Function.update_of_ne hd]
    obtain ⟨hset, hpend⟩ := ih (earlier ++ [p]) (copyout sb p.1 p.2) (h.copyout hbuf hsrcp.2)
      (by rw [copyout_copybufChunks]; exact hbuf) hsrc
      (fun q hq hh hmem => by
        rw [List.map_append, List.mem_append] at hmem
        rcases hmem with hmem | hmem
        · exact hapart q hq hh hmem
        · exact hp q hq hh (by simpa using hmem))
      hrest
    rw [copyout_copyNow, hone] at hset
    exact ⟨hset, by rw [List.append_assoc] at hpend; exact hpend⟩

/-- Batched copies leave what single copies leave, and no batch exceeds the copy buffer.  The chunk numbers are below
`2 ^ 63 - 1`: the last one before the high bit is not the number of a chunk of any device. -/
theorem batched_copies (sb : Sb D) (calls : List (Nat × Nat)) (hnone : sb.copyChunks = 0)
    (hbuf : 1 ≤ sb.copybufChunks) (hsrc : ∀ p ∈ calls, p.1 < 2 * highbit ∧ p.1 % highbit + 1 < highbit)
    (hapart : calls.Pairwise fun p q => highbit ≤ q.1 → q.1 - highbit ≠ p.2) :
    (finishCopyout (copyouts sb calls)).dev = calls.foldl sb.copyNow sb.dev ∧
      ∀ n, (copyouts sb (calls.take n)).copyChunks ≤ sb.copybufChunks := by
  have hstart : PendingCopies [] sb := ⟨by omega, by omega, by omega⟩
  constructor
  · have h := (copyouts_settled calls [] sb hstart hbuf hsrc (by simp) hapart).1
    rw [settled_of_none hnone] at h
    exact h
  · intro n
    have h := (copyouts_settled (calls.take n) [] sb hstart hbuf
      (fun p hp => hsrc p (List.mem_of_mem_take hp)) (by simp) (hapart.sublist (List.take_sublist n calls))).2
    have hcopy : ∀ (l : List (Nat × Nat)) (sb : Sb D), (copyouts sb l).copybufChunks = sb.copybufChunks := by
      intro l
      induction l with
      | nil => exact fun _ => rfl
      | cons p l ih => exact fun sb => (ih _).trans (copyout_copybufChunks sb p.1 p.2)
    rw [← hcopy (calls.take n) sb]
    exact h.fits

/-- The small store with chunk numbers for contents. -/
def numberedStore : Sb Nat := { smallStore 4 false with dev := fun _ c => .data c, copybufChunks := 2 }

theorem batched_copies_three :
    (finishCopyout (copyouts numberedStore [(5, 20), (6, 21), (7, 22), (highbit + 9, 23)])).dev =
      [(5, 20), (6, 21), (7, 22), (highbit + 9, 23)].foldl numberedStore.copyNow numberedStore.dev ∧
    ∀ n, (copyouts numberedStore ([(5, 20), (6, 21), (7, 22), (highbit + 9, 23)].take n)).copyChunks ≤ 2 :=
  batched_copies numberedStore _ rfl (by decide) (by decide) (by decide)

/-! ### Failing copies -/

/-- What happens to one copy of `finish_copyout`: whether the read and the write succeed, and what the destination holds
if one of them does not. -/
structure CopyOutcome (D : Type) where
  read : Bool
  write : Bool
  left : Nat → Block D

def CopyOutcome.ok (o : CopyOutcome D) : Bool := o.read && o.write

/-- A server whose copies may fail: the number of copies so far, and the destinations of those that failed. -/
structure Copier (D : Type) where
  sb : Sb D
  copies : Nat
  failed : List Nat

/-- `finish_copyout` with the outcome of every copy.  An error is printed and forgotten. -/
def finishCopyoutOn (io : Nat → CopyOutcome D) (st : Copier D) : Copier D :=
  if st.sb.copyChunks = 0 then st
  else if (io st.copies).ok then ⟨finishCopyout st.sb, st.copies + 1, st.failed⟩
  else
    { sb := { st.sb with
        dev := Function.update st.sb.dev st.sb.snapdev fun c =>
          if st.sb.destException ≤ c ∧ c < st.sb.destException + st.sb.copyChunks then
            (io st.copies).left (c - st.sb.destException)
          else st.sb.dev st.sb.snapdev c
        copyChunks := 0 }
      copies := st.copies + 1
      failed := (List.range st.sb.copyChunks).map (st.sb.destException + ·) ++ st.failed }

/-- `copyout` with the outcome of every copy. -/
def copyoutOn (io : Nat → CopyOutcome D) (st : Copier D) (chunk exception : Nat) : Copier D :=
  if st.sb.sourceChunk + st.sb.copyChunks = chunk ∧ st.sb.destException + st.sb.copyChunks = exception ∧
      st.sb.copyChunks < st.sb.copybufChunks then
    { st with sb := { st.sb with copyChunks := st.sb.copyChunks + 1 } }
  else
    let st := finishCopyoutOn io st
    { st with sb := { st.sb with copyChunks := 1, sourceChunk := chunk, destException := exception } }

/-- `make_unique` after its check for free space, with the outcome of every copy. -/
def uniqueExceptionOn (io : Nat → CopyOutcome D) (st : Copier D) (chunk : Nat) (snapbit : Option Nat) :
    Option (Option Nat × Copier D) := do
  let (path, leafbuf) ← probe st.sb chunk
  let (unique, exception) := chunkUnique st.sb leafbuf chunk snapbit
  if unique then return (some (exception.getD 0), st)
  else
    let (newex, sb) ← allocChunk st.sb .snapdata
    let st := copyoutOn io { st with sb := sb } (copySource chunk exception) newex
    let (ok, sb) := addExceptionToTree st.sb leafbuf chunk newex snapbit path
    return if ok then (some newex, { st with sb := sb }) else (none, { st with sb := freeException sb newex })

/-- `make_unique` with the outcome of every copy. -/
def makeUniqueOn (io : Nat → CopyOutcome D) (st : Copier D) (chunk : Nat) (snapbit : Option Nat) :
    Option (Option Nat × Copier D) := do
  let (ok, sb) ← spaceCheck st.sb
  if ok then uniqueExceptionOn io { st with sb := sb } chunk snapbit else return (none, { st with sb := sb })

/-- One chunk of a `QUERY_WRITE` of the origin, or of the snapshot in a slot of the list. -/
def writeChunkOn (io : Nat → CopyOutcome D) (slot : Option Nat) (st : Copier D) (chunk : Nat) :
    Option (Option Nat × Copier D) :=
  match slot with
  | none => makeUniqueOn io st chunk none
  | some slot =>
    if isSquashed (st.sb.image.snaplist slot) then some (none, st)
    else makeUniqueOn io st chunk (some (st.sb.image.snaplist slot).bit)

/-- The loop of a `QUERY_WRITE`: the exception of every chunk, or `none` for an error. -/
def writeChunksOn (io : Nat → CopyOutcome D) (slot : Option Nat) :
    Copier D → List Nat → Option (List (Option Nat) × Copier D)
  | st, [] => some ([], st)
  | st, chunk :: chunks => do
    let (exception, st) ← writeChunkOn io slot st chunk
    let (exceptions, st) ← writeChunksOn io slot st chunks
    return (exception :: exceptions, st)

/-- `QUERY_WRITE` with the outcome of every copy.  It is answered with `ORIGIN_WRITE_OK` or `SNAPSHOT_WRITE_OK` if every
chunk has an exception. -/
def queryWriteOn (io : Nat → CopyOutcome D) (slot : Option Nat) (sb : Sb D) (ranges : List (Nat × Nat)) :
    Option (List (Option Nat) × Copier D) := do
  let (exceptions, st) ← writeChunksOn io slot ⟨sb, 0, []⟩ (rangeChunks ranges)
  let st := finishCopyoutOn io st
  let sb ← commitTransaction st.sb false
  return (exceptions, { st with sb := sb })

def answeredOk (exceptions : List (Option Nat)) : Bool := exceptions.all Option.isSome

/-- No chunk whose copy failed is answered as granted, and no snapshot resolves a chunk to the destination of a copy
that failed. -/
structure FailuresReported (exceptions : List (Option Nat)) (st : Copier D) : Prop where
  refused : answeredOk exceptions = true → ∀ e ∈ st.failed, some e ∉ exceptions
  unresolved : ∀ e ∈ st.failed, ∀ chunk bit own, testUnique st.sb chunk (some bit) ≠ some (own, some e)

section
variable {io : Nat → CopyOutcome D} {st st' : Copier D} {slot : Option Nat}

/-! ### Copies that succeed -/

private theorem finishCopyoutOn_sb (hio : ∀ n, (io n).ok = true) : (finishCopyoutOn io st).sb =
    finishCopyout st.sb := by
  unfold finishCopyoutOn
  split
  · rename_i h
    rw [finishCopyout, if_pos h]
  · rw [if_pos (hio _)]

private theorem copyoutOn_sb (hio : ∀ n, (io n).ok = true) (chunk exception : Nat) :
    (copyoutOn io st chunk exception).sb = copyout st.sb chunk exception := by
  unfold copyoutOn copyout
  split
  · rfl
  · dsimp only
    rw [finishCopyoutOn_sb hio]

private theorem uniqueExceptionOn_sb (hio : ∀ n, (io n).ok = true) (chunk : Nat) (snapbit : Option Nat) :
    (uniqueExceptionOn io st chunk snapbit).map (fun r => (r.1, r.2.sb)) = uniqueException st.sb chunk snapbit := by
  unfold uniqueExceptionOn uniqueException
  cases probe st.sb chunk with
  | none => rfl
  | some p =>
    simp only [Option.bind_eq_bind, Option.bind_some]
    split_ifs with hu
    · rfl
    · cases allocChunk st.sb .snapdata with
      | none => rfl
      | some a =>
        simp only [Option.bind_some, copyoutOn_sb hio]
        rcases addExceptionToTree (copyout a.2 (copySource chunk (chunkUnique st.sb p.2 chunk snapbit).2) a.1) p.2 chunk
          a.1 snapbit p.1 with ⟨_ | _, sb1⟩ <;> rfl

theorem makeUniqueOn_sb (hio : ∀ n, (io n).ok = true) (chunk : Nat) (snapbit : Option Nat) :
    (makeUniqueOn io st chunk snapbit).map (fun r => (r.1, r.2.sb)) = makeUnique st.sb chunk snapbit := by
  unfold makeUniqueOn makeUnique
  rcases spaceCheck st.sb with _ | ⟨_ | _, sb⟩
  · rfl
  · rfl
  · exact uniqueExceptionOn_sb hio chunk snapbit

private theorem writeChunksOn_origin (hio : ∀ n, (io n).ok = true) (chunks : List Nat) (st : Copier D) :
    (writeChunksOn io none st chunks).map (fun r => (answeredOk r.1, r.2.sb)) = originChunks st.sb chunks := by
  induction chunks generalizing st with
  | nil => rfl
  | cons chunk chunks ih =>
    rw [originChunks, ← makeUniqueOn_sb hio, writeChunksOn, writeChunkOn]
    rcases makeUniqueOn io st chunk none with _ | ⟨exception, st1⟩
    · rfl
    · simp only [Option.map_some, Option.bind_eq_bind, Option.bind_some]
      rw [← ih st1]
      rcases writeChunksOn io none st1 chunks with _ | ⟨exceptions, st2⟩ <;> rfl

private theorem writeChunksOn_snapshot (hio : ∀ n, (io n).ok = true) (slot : Nat) (chunks : List Nat) (st : Copier D) :
    (writeChunksOn io (some slot) st chunks).map (fun r => (r.1, r.2.sb)) = snapshotChunks slot st.sb chunks := by
  induction chunks generalizing st with
  | nil => rfl
  | cons chunk chunks ih =>
    have hchunk : (writeChunkOn io (some slot) st chunk).map (fun r => (r.1, r.2.sb)) =
        snapshotChunk st.sb slot chunk := by
      unfold writeChunkOn snapshotChunk
      dsimp only
      split
      · rfl
      · exact makeUniqueOn_sb hio chunk _
    rw [snapshotChunks, ← hchunk, writeChunksOn]
    rcases writeChunkOn io (some slot) st chunk with _ | ⟨exception, st1⟩
    · rfl
    · simp only [Option.map_some, Option.bind_eq_bind, Option.bind_some]
      rw [← ih st1]
      rcases writeChunksOn io (some slot) st1 chunks with _ | ⟨exceptions, st2⟩ <;> rfl

/-- When every copy succeeds, a write request of the origin is served as before. -/
theorem queryWriteOn_origin (hio : ∀ n, (io n).ok = true) (sb : Sb D) (ranges : List (Nat × Nat)) :
    (queryWriteOn io none sb ranges).map (fun r => (answeredOk r.1, r.2.sb)) = originWrite sb ranges := by
  unfold queryWriteOn originWrite
  rw [← writeChunksOn_origin hio (rangeChunks ranges) ⟨sb, 0, []⟩]
  rcases writeChunksOn io none ⟨sb, 0, []⟩ (rangeChunks ranges) with _ | ⟨exceptions, st⟩
  · rfl
  · simp only [Option.map_some, Option.bind_eq_bind, Option.bind_some, finishCopyoutOn_sb hio]
    rcases commitTransaction (finishCopyout st.sb) false with _ | sb1 <;> rfl

/-- When every copy succeeds, a write request of a snapshot is served as before. -/
theorem queryWriteOn_snapshot (hio : ∀ n, (io n).ok = true) (sb : Sb D) {tag slot : Nat}
    (hslot : findSnap sb tag = some slot) (ranges : List (Nat × Nat)) :
    (queryWriteOn io (some slot) sb ranges).map (fun r => (r.1, r.2.sb)) = snapshotWrite sb tag ranges := by
  unfold queryWriteOn snapshotWrite
  simp only [hslot, Option.bind_eq_bind, Option.bind_some]
  rw [← writeChunksOn_snapshot hio slot (rangeChunks ranges) ⟨sb, 0, []⟩]
  rcases writeChunksOn io (some slot) ⟨sb, 0, []⟩ (rangeChunks ranges) with _ | ⟨exceptions, st⟩
  · rfl
  · simp only [Option.map_some, Option.bind_some, finishCopyoutOn_sb hio]
    rcases commitTransaction (finishCopyout st.sb) false with _ | sb1 <;> rfl

/-! ### Copies that fail -/

/-- Destinations are recorded exactly when a copy so far has failed. -/
def Recorded (io : Nat → CopyOutcome D) (st : Copier D) : Prop :=
  st.failed = [] ↔ ∀ n < st.copies, (io n).ok = true

/-- The destinations that are recorded or pending are among some exceptions. -/
structure CopyAnswered (exceptions : List (Option Nat)) (st : Copier D) : Prop where
  failed : ∀ e ∈ st.failed, some e ∈ exceptions
  pending : ∀ k < st.sb.copyChunks, some (st.sb.destException + k) ∈ exceptions

private theorem Recorded.finish (h : Recorded io st) : Recorded io (finishCopyoutOn io st) := by
  unfold finishCopyoutOn
  split
  · exact h
  split
  · rename_i hok
    unfold Recorded at h ⊢
    rw [h]
    simp only [Nat.forall_lt_succ_right, hok, and_true]
  · rename_i hne hok
    refine iff_of_false (fun hnil => ?_) fun hall => hok (hall st.copies (Nat.lt_succ_self _))
    simp [hne] at hnil

private theorem Recorded.copyout (h : Recorded io st) (chunk exception : Nat) :
    Recorded io (copyoutOn io st chunk exception) := by
  unfold copyoutOn
  split
  · exact h
  · exact h.finish

private theorem CopyAnswered.finish {exceptions : List (Option Nat)} (h : CopyAnswered exceptions st) :
    CopyAnswered exceptions (finishCopyoutOn io st) := by
  unfold finishCopyoutOn
  split
  · exact h
  split
  · refine ⟨h.failed, fun k hk => ?_⟩
    have hzero : (finishCopyout st.sb).copyChunks = 0 := by
      unfold finishCopyout
      split <;> first | assumption | rfl
    dsimp only at hk
    omega
  · refine ⟨fun e he => ?_, fun k hk => absurd hk (Nat.not_lt_zero k)⟩
    rcases List.mem_append.1 he with he | he
    · obtain ⟨k, hk, rfl⟩ := List.mem_map.1 he
      exact h.pending k (List.mem_range.1 hk)
    · exact h.failed e he

private theorem CopyAnswered.mono {exceptions exceptions' : List (Option Nat)} (h : CopyAnswered exceptions st)
    (hsub : exceptions ⊆ exceptions') : CopyAnswered exceptions' st :=
  ⟨fun e he => hsub (h.failed e he), fun k hk => hsub (h.pending k hk)⟩

private theorem CopyAnswered.copyout {exceptions : List (Option Nat)} (h : CopyAnswered exceptions st)
    (chunk exception : Nat) : CopyAnswered (some exception :: exceptions) (copyoutOn io st chunk exception) := by
  unfold copyoutOn
  split
  · rename_i hc
    refine ⟨fun e he => List.mem_cons_of_mem _ (h.failed e he), fun k hk => ?_⟩
    dsimp only at hk ⊢
    rcases Nat.lt_succ_iff_lt_or_eq.1 hk with hk | rfl
    · exact List.mem_cons_of_mem _ (h.pending k hk)
    · rw [hc.2.1]
      exact List.mem_cons_self
  · refine ⟨fun e he => List.mem_cons_of_mem _ (h.finish.failed e he), fun k hk => ?_⟩
    dsimp only at hk ⊢
    rw [Nat.lt_one_iff.1 hk, Nat.add_zero]
    exact List.mem_cons_self

/-- The copies made so far and the copies pending are the same. -/
structure SameCopies (st st' : Copier D) : Prop where
  copies : st'.copies = st.copies
  failed : st'.failed = st.failed
  copyChunks : st'.sb.copyChunks = st.sb.copyChunks
  destException : st'.sb.destException = st.sb.destException

private theorem SameCopies.recorded (h : SameCopies st st') (hr : Recorded io st) : Recorded io st' := by
  unfold Recorded
  rw [h.failed, h.copies]
  exact hr

private theorem SameCopies.answered (h : SameCopies st st') {exceptions : List (Option Nat)}
    (ha : CopyAnswered exceptions st) : CopyAnswered exceptions st' :=
  ⟨h.failed ▸ ha.failed, by rw [h.copyChunks, h.destException]; exact ha.pending⟩

private theorem sameCopies_logs {sb1 : Sb D} (h : Logs st.sb sb1) : SameCopies st { st with sb := sb1 } :=
  ⟨rfl, rfl, h.copyChunks, h.destException⟩

private theorem sameCopies_amend {sb1 : Sb D} (h : Amend st.sb sb1) : SameCopies st { st with sb := sb1 } :=
  sameCopies_logs h.frame.logs

/-- `make_unique` copies at most one chunk, to the exception that it returns if it succeeds. -/
private theorem makeUniqueOn_cases {chunk : Nat} {snapbit exception : Option Nat}
    (h : makeUniqueOn io st chunk snapbit = some (exception, st')) : SameCopies st st' ∨
      ∃ st1 source newex, SameCopies st st1 ∧ SameCopies (copyoutOn io st1 source newex) st' ∧
        (exception = some newex ∨ exception = none) := by
  obtain ⟨⟨ok, sb1⟩, hspace, h⟩ := Option.bind_eq_some_iff.1 h
  have hlogs : SameCopies st { st with sb := sb1 } := sameCopies_logs (spaceCheck_logs hspace)
  dsimp only at h
  split_ifs at h
  · obtain ⟨⟨path, leafbuf⟩, -, h⟩ := Option.bind_eq_some_iff.1 h
    dsimp only at h
    split_ifs at h
    · cases h
      exact .inl hlogs
    · obtain ⟨⟨newex, sb2⟩, halloc, h⟩ := Option.bind_eq_some_iff.1 h
      have hst1 : SameCopies st { st with sb := sb2 } :=
        sameCopies_logs ((spaceCheck_logs hspace).trans (amend_allocChunk halloc).frame.logs)
      dsimp only at h
      generalize hst2 : copyoutOn io { st with sb := sb2 }
        (copySource chunk (chunkUnique sb1 leafbuf chunk snapbit).2) newex = st2 at h
      have hadd := amend_addExceptionToTree st2.sb leafbuf chunk newex snapbit path
      refine .inr ⟨{ st with sb := sb2 }, copySource chunk (chunkUnique sb1 leafbuf chunk snapbit).2, newex, hst1, ?_⟩
      rw [hst2]
      split at h
      · cases h
        exact ⟨sameCopies_amend hadd, .inl rfl⟩
      · cases h
        exact ⟨sameCopies_amend (hadd.trans (amend_freeChunk _ _ _)), .inr rfl⟩
  · cases h
    exact .inl hlogs

private theorem Recorded.makeUnique {chunk : Nat} {snapbit exception : Option Nat} (hr : Recorded io st)
    (h : makeUniqueOn io st chunk snapbit = some (exception, st')) : Recorded io st' := by
  obtain hs | ⟨st1, source, newex, h1, h2, -⟩ := makeUniqueOn_cases h
  · exact hs.recorded hr
  · exact h2.recorded ((h1.recorded hr).copyout source newex)

private theorem CopyAnswered.makeUnique {exceptions : List (Option Nat)} {chunk e : Nat} {snapbit : Option Nat}
    (ha : CopyAnswered exceptions st) (h : makeUniqueOn io st chunk snapbit = some (some e, st')) :
    CopyAnswered (some e :: exceptions) st' := by
  obtain hs | ⟨st1, source, newex, h1, h2, he⟩ := makeUniqueOn_cases h
  · exact (hs.answered ha).mono (List.subset_cons_self _ _)
  · obtain rfl : e = newex := by simpa using he
    exact h2.answered ((h1.answered ha).copyout source e)

private theorem writeChunkOn_cases {chunk : Nat} {exception : Option Nat}
    (h : writeChunkOn io slot st chunk = some (exception, st')) : (exception = none ∧ st' = st) ∨
      ∃ snapbit, makeUniqueOn io st chunk snapbit = some (exception, st') := by
  unfold writeChunkOn at h
  split at h
  · exact .inr ⟨none, h⟩
  · split_ifs at h
    · cases h
      exact .inl ⟨rfl, rfl⟩
    · exact .inr ⟨_, h⟩

private theorem Recorded.writeChunks (chunks : List Nat) {exceptions : List (Option Nat)} (hr : Recorded io st)
    (h : writeChunksOn io slot st chunks = some (exceptions, st')) : Recorded io st' := by
  induction chunks generalizing st exceptions with
  | nil =>
    cases h
    exact hr
  | cons chunk chunks ih =>
    obtain ⟨⟨exception, st1⟩, h1, h⟩ := Option.bind_eq_some_iff.1 h
    obtain ⟨⟨rest, st2⟩, h2, h⟩ := Option.bind_eq_some_iff.1 h
    cases h
    refine ih ?_ h2
    obtain ⟨-, rfl⟩ | ⟨snapbit, hm⟩ := writeChunkOn_cases h1
    · exact hr
    · exact hr.makeUnique hm

/-- When every chunk of a request is granted, the destinations of its copies are the exceptions in the answer. -/
private theorem CopyAnswered.writeChunks (chunks : List Nat) {exceptions before : List (Option Nat)}
    (ha : CopyAnswered before st) (h : writeChunksOn io slot st chunks = some (exceptions, st'))
    (hok : answeredOk exceptions = true) :
    CopyAnswered (exceptions ++ before) st' := by
  induction chunks generalizing st exceptions before with
  | nil =>
    cases h
    exact ha
  | cons chunk chunks ih =>
    obtain ⟨⟨exception, st1⟩, h1, h⟩ := Option.bind_eq_some_iff.1 h
    obtain ⟨⟨rest, st2⟩, h2, h⟩ := Option.bind_eq_some_iff.1 h
    cases h
    obtain ⟨hsome, hrest⟩ : exception.isSome = true ∧ answeredOk rest = true := by
      simpa [answeredOk] using hok
    obtain ⟨e, rfl⟩ := Option.isSome_iff_exists.1 hsome
    obtain ⟨hnone, -⟩ | ⟨snapbit, hm⟩ := writeChunkOn_cases h1
    · cases hnone
    · exact (ih (ha.makeUnique hm) h2 hrest).mono fun x hx => by
        simp only [List.mem_append, List.mem_cons] at hx ⊢
        tauto

end

/-- A failed copy is reported as long as no copy fails; when every chunk of the request got its exception, only then. -/
theorem failed_copies_iff {io : Nat → CopyOutcome D} {slot : Option Nat} {ranges : List (Nat × Nat)}
    {exceptions : List (Option Nat)} {st : Copier D} (h0 : sb.copyChunks = 0)
    (h : queryWriteOn io slot sb ranges = some (exceptions, st)) :
    ((∀ n < st.copies, (io n).ok = true) → FailuresReported exceptions st) ∧
      (answeredOk exceptions = true →
        (FailuresReported exceptions st ↔ ∀ n < st.copies, (io n).ok = true)) := by
  obtain ⟨⟨exceptions1, st1⟩, h1, h⟩ := Option.bind_eq_some_iff.1 h
  obtain ⟨sb2, h2, h⟩ := Option.bind_eq_some_iff.1 h
  cases h
  have hstart : Recorded io ⟨sb, 0, []⟩ := by simp [Recorded]
  have hrec : Recorded io (finishCopyoutOn io st1) := (hstart.writeChunks _ h1).finish
  have hsafe : (∀ n < (finishCopyoutOn io st1).copies, (io n).ok = true) →
      FailuresReported exceptions { finishCopyoutOn io st1 with sb := sb2 } := by
    intro hok
    have hnil : (finishCopyoutOn io st1).failed = [] := hrec.2 hok
    exact ⟨fun _ e he => by simp [hnil] at he, fun e he => by simp [hnil] at he⟩
  refine ⟨hsafe, fun hans => ⟨fun hrep => hrec.1 ?_, hsafe⟩⟩
  have hnone : CopyAnswered [] (⟨sb, 0, []⟩ : Copier D) := ⟨by simp, by simp [h0]⟩
  have hgranted : CopyAnswered (exceptions ++ []) (finishCopyoutOn io st1) := (hnone.writeChunks _ h1 hans).finish
  rw [List.append_nil] at hgranted
  exact List.eq_nil_iff_forall_not_mem.2 fun e he => hrep.refused hans e he (hgranted.failed e he)

/-- A store with one snapshot. -/
def snappedRun : Option (Sb Nat) := Reach.exec storeStep (fun _ _ => True) tinyStore [.createSnapshot 1]

/-- All copies succeed, or none of them does. -/
def allCopies (ok : Bool) (_ : Nat) : CopyOutcome Nat := ⟨ok, ok, fun _ => .data 0⟩

theorem failed_copies_none : ∃ st, queryWriteOn (allCopies true) none (snappedRun.getD tinyStore) [(5, 2)] =
    some ([some 13, some 14], st) ∧ st.copies = 1 ∧ FailuresReported [some 13, some 14] st := by
  have hrun : ((queryWriteOn (allCopies true) none (snappedRun.getD tinyStore) [(5, 2)]).map fun r =>
      (r.1, r.2.copies)) = some ([some 13, some 14], 1) ∧ (snappedRun.getD tinyStore).copyChunks = 0 := by
    decide +kernel
  obtain ⟨⟨exceptions, st⟩, h, he⟩ := Option.map_eq_some_iff.1 hrun.1
  obtain ⟨rfl, hcopies⟩ := Prod.mk.inj he
  exact ⟨st, h, hcopies, (failed_copies_iff hrun.2 h).1 fun _ _ => rfl⟩

/-- The number in a data block. -/
def dataOf : Block Nat → Option Nat
  | .data n => some n
  | _ => none

/-- The copy of chunk 5 fails: the write is granted, and the snapshot resolves the chunk to an exception that does not
hold its content. -/
theorem failed_copy_granted : ∃ st, queryWriteOn (allCopies false) none (snappedRun.getD tinyStore) [(5, 1)] =
    some ([some 13], st) ∧ st.failed = [13] ∧ testUnique st.sb 5 (some 0) = some (true, some 13) ∧
    dataOf ((snappedRun.getD tinyStore).dev .orgdev 5) = some 5 ∧ dataOf (st.sb.dev .metadev 13) = some 0 ∧
    ¬ FailuresReported [some 13] st := by
  have hrun : ∀ r ∈ queryWriteOn (allCopies false) none (snappedRun.getD tinyStore) [(5, 1)],
      r.1 = [some 13] ∧ r.2.failed = [13] ∧ testUnique r.2.sb 5 (some 0) = some (true, some 13) ∧
        dataOf (r.2.sb.dev .metadev 13) = some 0 := by
    decide +kernel
  have hsome : (queryWriteOn (allCopies false) none (snappedRun.getD tinyStore) [(5, 1)]).isSome = true := by
    decide +kernel
  have hold : dataOf ((snappedRun.getD tinyStore).dev .orgdev 5) = some 5 := by decide +kernel
  obtain ⟨⟨exceptions, st⟩, h⟩ := Option.isSome_iff_exists.1 hsome
  obtain ⟨rfl, hfailed, hlookup, hleft⟩ := hrun _ h
  refine ⟨st, h, hfailed, hlookup, hold, hleft, fun hrep => ?_⟩
  exact hrep.unresolved 13 (hfailed ▸ List.mem_singleton_self 13) 5 0 true hlookup

end Ddsnap
