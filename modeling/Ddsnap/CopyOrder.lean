import Ddsnap.SnapshotClients

/-!
# Copies and commits

The copies of the chunks of a `QUERY_WRITE` are collected and carried out by `finish_copyout`, at the latest before the
commit that ends the request.  Inside the request only the automatic deletion of a snapshot commits, and it does not
look at the pending copies: the exceptions of the request are then committed before their data is written.

The chunks of a request are single steps here, so that a commit can be seen between two of them; `run_of_daemon` says
that the runs of the daemon are runs of these steps.
-/

namespace Ddsnap

variable {D : Type} {sb sb1 sb' : Sb D}

/-! ### Requests chunk by chunk -/

/-- What a `QUERY_WRITE` writes: the origin, or the snapshot in a slot of the list. -/
inductive Target where
  | origin
  | snapshot (slot : Nat)
  deriving DecidableEq, Repr

/-- The server, between two messages or inside a `QUERY_WRITE`. -/
structure Copying (D : Type) where
  sb : Sb D
  request : Option Target

/-- One chunk of a request. -/
def targetChunk (sb : Sb D) (chunk : Nat) : Target → Option (Option Nat × Sb D)
  | .origin => makeUnique sb chunk none
  | .snapshot slot => snapshotChunk sb slot chunk

/-- The steps: a `QUERY_WRITE` with a tag arrives, its next chunk is made unique, and it ends; the other messages that
change the store come between requests. -/
inductive Action (D : Type) where
  | query (tag : Nat)
  | chunk (chunk : Nat)
  | finish
  | identify (tag : Nat)
  | disconnect (tag : Nat)
  | createSnapshot (tag : Nat)
  | deleteSnapshot (tag : Nat)
  | priority (tag : Nat) (prio : Int)
  | usecount (tag : Nat) (dev : Int)
  | clientWrite (device : Device) (chunk : Nat) (content : D)

def Copying.step : Copying D → Action D → Option (Copying D)
  | ⟨sb, none⟩, .query tag =>
    if tag = originTag then some ⟨sb, some .origin⟩
    else (findSnap sb tag).map fun slot => ⟨sb, some (.snapshot slot)⟩
  | ⟨sb, some target⟩, .chunk chunk => (targetChunk sb chunk target).map fun r => ⟨r.2, some target⟩
  | ⟨sb, some _⟩, .finish => (commitTransaction (finishCopyout sb) false).map fun sb => ⟨sb, none⟩
  | ⟨sb, none⟩, .identify tag =>
    match identifySnap sb tag with
    | .ok snapshot => some ⟨countClient sb snapshot, none⟩
    | .error _ => some ⟨sb, none⟩
  | ⟨sb, none⟩, .disconnect tag => (dropUsecount sb tag).map fun sb => ⟨sb, none⟩
  | ⟨sb, none⟩, .createSnapshot tag => (createMessage sb tag).map fun sb => ⟨sb, none⟩
  | ⟨sb, none⟩, .deleteSnapshot tag => (deleteMessage sb tag).map fun sb => ⟨sb, none⟩
  | ⟨sb, none⟩, .priority tag prio => some ⟨setPriority sb tag prio, none⟩
  | ⟨sb, none⟩, .usecount tag dev => some ⟨changeUsecount sb tag dev, none⟩
  | ⟨sb, none⟩, .clientWrite device chunk content => some ⟨clientWrite sb device chunk content, none⟩
  | _, _ => none

/-- A server between two messages that has no copies pending and had none at its commits so far, if any. -/
def Copying.Init (st : Copying D) : Prop :=
  st.request = none ∧ st.sb.copyChunks = 0 ∧ ∀ point ∈ st.sb.commits, point.copyChunks = 0

/-! ### Room -/

/-- `auto_delete_snapshot` has a snapshot to delete or to squash. -/
def Deletable (sb : Sb D) : Prop :=
  sb.image.snapshots ≠ 0 ∧
    ¬(isSquashed (sb.image.snaplist (findVictim sb)) ∨ (sb.image.snaplist (findVictim sb)).prio = 127)

instance : Decidable (Deletable sb) := inferInstanceAs (Decidable (_ ∧ _))

/-- `make_unique` does not commit with copies pending: there are none, or there is room, or nothing to delete. -/
def CopySafe (sb : Sb D) : Prop := sb.copyChunks = 0 ∨ EnoughRoom sb ∨ ¬Deletable sb

instance : Decidable (CopySafe sb) := inferInstanceAs (Decidable (_ ∨ _))

/-- The next chunk calls `make_unique`, which a request for a squashed snapshot does not. -/
def Copying.callsMakeUnique (st : Copying D) : Bool :=
  match st.request with
  | some (.snapshot slot) => !isSquashed (st.sb.image.snaplist slot)
  | _ => true

/-- Every call of `make_unique` is safe. -/
def Copying.Safe (st : Copying D) : Action D → Prop
  | .chunk _ => st.callsMakeUnique = true → CopySafe st.sb
  | _ => True

instance (st : Copying D) : (a : Action D) → Decidable (st.Safe a)
  | .chunk _ => inferInstanceAs (Decidable (st.callsMakeUnique = true → CopySafe st.sb))
  | .query _ | .finish | .identify _ | .disconnect _ | .createSnapshot _ | .deleteSnapshot _ | .priority .. | .usecount ..
  | .clientWrite .. => isTrue trivial

/-! ### Deletions and their commits -/

/-- The commits of a step are recorded with the copies that are pending, and these stay pending. -/
structure Logs (sb sb' : Sb D) : Prop where
  copyChunks : sb'.copyChunks = sb.copyChunks
  destException : sb'.destException = sb.destException
  commits : ∃ new, sb'.commits = new ++ sb.commits ∧ ∀ point ∈ new, point.copyChunks = sb.copyChunks

private theorem Logs.of_eq (hc : sb'.copyChunks = sb.copyChunks) (hd : sb'.destException = sb.destException)
    (h : sb'.commits = sb.commits) : Logs sb sb' := ⟨hc, hd, [], h, by simp⟩

private theorem Logs.refl (sb : Sb D) : Logs sb sb := .of_eq rfl rfl rfl

theorem Frame.logs (h : Frame sb sb') : Logs sb sb' := by
  obtain ⟨new, hc, hp⟩ := h.commits
  exact ⟨kept_copyChunks h.kept, congrArg Core.destException h.kept, new, hc, fun point hn => (hp point hn).1⟩

theorem Logs.trans (h1 : Logs sb sb1) (h2 : Logs sb1 sb') : Logs sb sb' := by
  obtain ⟨new1, hc1, hp1⟩ := h1.commits
  obtain ⟨new2, hc2, hp2⟩ := h2.commits
  refine ⟨h2.copyChunks.trans h1.copyChunks, h2.destException.trans h1.destException, new2 ++ new1,
    by rw [hc2, hc1, List.append_assoc], fun point hp => ?_⟩
  rcases List.mem_append.1 hp with hp | hp
  · exact (hp2 point hp).trans h1.copyChunks
  · exact hp1 point hp

private theorem Logs.mem (h : Logs sb sb') {point : CommitPoint D} (hp : point ∈ sb.commits) : point ∈ sb'.commits := by
  obtain ⟨new, hc, -⟩ := h.commits
  exact hc ▸ List.mem_append_right new hp

private theorem Logs.settled (h : Logs sb sb') (h0 : sb.copyChunks = 0)
    (hold : ∀ point ∈ sb.commits, point.copyChunks = 0) : ∀ point ∈ sb'.commits, point.copyChunks = 0 := by
  obtain ⟨new, hc, hp⟩ := h.commits
  intro point hm
  rcases List.mem_append.1 (hc ▸ hm) with hm | hm
  · exact (hp point hm).trans h0
  · exact hold point hm

private theorem logs_saveSb (sb : Sb D) : Logs sb (saveSb sb) := by
  unfold saveSb
  split <;> exact .of_eq rfl rfl rfl

private theorem logs_deleteTreeRange {snapmask : Mask} {resume : Nat}
    (h : deleteTreeRange sb snapmask resume = some sb') : Logs sb sb' := by
  obtain ⟨sb1, hf, rfl⟩ := deleteTreeRange_cases h
  refine (hf.logs.trans ?_).trans (logs_saveSb _)
  exact .of_eq rfl rfl rfl

private theorem point_copyChunks (sb : Sb D) : sb.point.copyChunks = sb.copyChunks := rfl

private theorem commitTransaction_point {barrier : Bool} (h : commitTransaction sb barrier = some sb') (ho : sb.Open) :
    ∃ point ∈ sb'.commits, point.copyChunks = sb.copyChunks := by
  rcases commitTransaction_cases h with ⟨hidle, rfl⟩ | ⟨-, -, rfl⟩
  · simp only [Sb.idle, decide_eq_true_eq] at hidle
    rcases ho with ho | ho
    · exact absurd hidle.1 ho
    · exact absurd hidle.2 ho
  · obtain ⟨hf, hc⟩ := frame_logTransaction (flushIfNeeded sb) (barrier || sb.mustFlush)
    refine ⟨(logTransaction (flushIfNeeded sb) (barrier || sb.mustFlush)).point,
      (frame_retireDirty _ _).logs.mem (hc ▸ List.mem_cons_self), ?_⟩
    rw [point_copyChunks, kept_copyChunks hf.kept, kept_copyChunks (amend_flushIfNeeded sb).kept]

private theorem commitDeferredAllocs_point (h : commitDeferredAllocs sb = some sb') (ho : sb.Open) :
    ∃ point ∈ sb'.commits, point.copyChunks = sb.copyChunks := by
  obtain ⟨sb1, h1, h2⟩ := Option.bind_eq_some_iff.1 h
  obtain ⟨point, hp, hc⟩ := commitTransaction_point h1 ho
  have hrest := ((amend_flushDeferredAllocs sb1).trans (amend_flushJournaledBuffers _)).frame.trans
    (frame_commitTransaction h2)
  exact ⟨point, hrest.logs.mem hp, hc⟩

private theorem deleteSnap_logs {i : Nat} (h : deleteSnap sb i = some sb') : Logs sb sb' ∧
    (sb.Open → isSquashed (sb.image.snaplist i) = false → ∃ point ∈ sb'.commits, point.copyChunks = sb.copyChunks) := by
  unfold deleteSnap at h
  dsimp only at h
  split_ifs at h with hs
  · cases h
    exact ⟨.of_eq rfl rfl rfl, fun _ hn => by simp [hs] at hn⟩
  · obtain ⟨sb1, h1, h2⟩ := Option.bind_eq_some_iff.1 h
    have hrest := logs_deleteTreeRange h2
    refine ⟨(Logs.trans ?_ (frame_commitDeferredAllocs h1).logs).trans hrest, fun ho _ => ?_⟩
    · exact .of_eq rfl rfl rfl
    obtain ⟨point, hp, hc⟩ := commitDeferredAllocs_point h1 ho
    exact ⟨point, hrest.mem hp, hc⟩

private theorem squashSnap_logs {i : Nat} (h : squashSnap sb i = some sb') : Logs sb sb' ∧
    (sb.Open → ∃ point ∈ sb'.commits, point.copyChunks = sb.copyChunks) := by
  obtain ⟨sb1, h1, h⟩ := Option.bind_eq_some_iff.1 h
  obtain ⟨sb2, h2, h⟩ := Option.bind_eq_some_iff.1 h
  have hrest : Logs sb1 sb' := by
    cases h
    refine (logs_deleteTreeRange h2).trans ?_
    exact .of_eq rfl rfl rfl
  refine ⟨(frame_commitDeferredAllocs h1).logs.trans hrest, fun ho => ?_⟩
  obtain ⟨point, hp, hc⟩ := commitDeferredAllocs_point h1 ho
  exact ⟨point, hrest.mem hp, hc⟩

theorem amend_recountFree (sb : Sb D) : Amend sb (recountFree sb) := by
  obtain ⟨metafree, snapfree, he⟩ := recountFree_eq sb
  rw [he]
  exact .of_eq rfl rfl rfl rfl rfl

/-- `auto_delete_snapshot` commits an open transaction if it deletes or squashes a snapshot, and nothing otherwise. -/
private theorem autoDeleteSnapshot_logs {ok : Bool} (h : autoDeleteSnapshot sb = some (ok, sb')) : Logs sb sb' ∧
    (sb.Open → Deletable sb → ∃ point ∈ sb'.commits, point.copyChunks = sb.copyChunks) ∧
    (¬Deletable sb → ok = false ∧ Amend sb sb') := by
  unfold autoDeleteSnapshot at h
  split_ifs at h with hn
  dsimp only at h
  split_ifs at h with hv hu
  · cases h
    exact ⟨(amend_recountFree sb).frame.logs, fun _ hd => absurd hv hd.2, fun _ => ⟨rfl, amend_recountFree sb⟩⟩
  · obtain ⟨sb1, h1, he⟩ := Option.map_eq_some_iff.1 h
    cases he
    obtain ⟨hl, hp⟩ := squashSnap_logs h1
    exact ⟨hl, fun ho _ => hp ho, fun hd => absurd ⟨hn, hv⟩ hd⟩
  · obtain ⟨sb1, h1, he⟩ := Option.map_eq_some_iff.1 h
    cases he
    obtain ⟨hl, hp⟩ := deleteSnap_logs h1
    exact ⟨hl, fun ho _ => hp ho (by simpa using fun e => hv (.inl e)), fun hd => absurd ⟨hn, hv⟩ hd⟩

theorem spaceCheck_logs {ok : Bool} (h : spaceCheck sb = some (ok, sb')) : Logs sb sb' :=
  (spaceCheck_deletions h).keeps (P := Logs sb) (.refl sb) fun hl ha => hl.trans (autoDeleteSnapshot_logs ha).1

/-- The check for free space on a store that is short of chunks. -/
private theorem spaceCheck_commits {ok : Bool} (hr : ¬EnoughRoom sb) (h : spaceCheck sb = some (ok, sb')) :
    (sb.Open → Deletable sb → ∃ point ∈ sb'.commits, point.copyChunks = sb.copyChunks) ∧
      (¬Deletable sb → ok = false ∧ Amend sb sb') := by
  obtain ⟨ok1, sb1, h1, hd, hfail⟩ := spaceCheck_short hr h
  obtain ⟨-, hp, hn⟩ := autoDeleteSnapshot_logs h1
  refine ⟨fun ho hdel => ?_, fun hdel => ?_⟩
  · obtain ⟨point, hm, hc⟩ := hp ho hdel
    exact ⟨point, hd.keeps hm fun hm ha => (autoDeleteSnapshot_logs ha).1.mem hm, hc⟩
  · obtain ⟨rfl, ha⟩ := hn hdel
    obtain ⟨rfl, rfl⟩ := hfail rfl
    exact ⟨rfl, ha⟩

/-! ### `make_unique` -/

private theorem copyout_open (sb : Sb D) (chunk exception : Nat) : (copyout sb chunk exception).commits = sb.commits ∧
    (sb.Open → (copyout sb chunk exception).Open) := by
  unfold copyout finishCopyout Sb.Open
  split_ifs <;> exact ⟨rfl, id⟩

private theorem uniqueException_open {chunk : Nat} {snapbit exception : Option Nat}
    (h : uniqueException sb chunk snapbit = some (exception, sb')) :
    sb'.commits = sb.commits ∧ ((sb.copyChunks ≠ 0 → sb.Open) → sb'.copyChunks ≠ 0 → sb'.Open) := by
  obtain ⟨path, leafbuf, -, ⟨-, -, rfl⟩ | ⟨-, newex, sb1, sb2, ok, ha, hadd, hend⟩⟩ := uniqueException_outcome h
  · exact ⟨rfl, id⟩
  · have hcopy := copyout_open sb1 (copySource chunk (chunkUnique sb leafbuf chunk snapbit).2) newex
    have htree := amend_addExceptionToTree (copyout sb1 (copySource chunk (chunkUnique sb leafbuf chunk snapbit).2) newex)
      leafbuf chunk newex snapbit path
    rw [hadd] at htree
    have h2 : sb2.commits = sb.commits ∧ sb2.Open :=
      ⟨htree.commits.trans (hcopy.1.trans (amend_allocChunk ha).commits), htree.opened (hcopy.2 (allocChunk_open ha))⟩
    rcases hend with ⟨-, -, rfl⟩ | ⟨-, -, rfl⟩
    · exact ⟨h2.1, fun _ _ => h2.2⟩
    · have hfree := amend_freeChunk sb2 .snapdata newex
      exact ⟨hfree.commits.trans h2.1, fun _ _ => hfree.opened h2.2⟩

section

variable {chunk : Nat} {snapbit exception : Option Nat} (h : makeUnique sb chunk snapbit = some (exception, sb'))
  (ho : sb.copyChunks ≠ 0 → sb.Open)

include h ho

/-- A safe call of `make_unique` commits only if no copies are pending. -/
private theorem makeUnique_settled (hs : CopySafe sb) (hold : ∀ point ∈ sb.commits, point.copyChunks = 0) :
    (∀ point ∈ sb'.commits, point.copyChunks = 0) ∧ (sb'.copyChunks ≠ 0 → sb'.Open) := by
  obtain ⟨⟨ok, sb1⟩, h1, h2⟩ := Option.bind_eq_some_iff.1 h
  have h1' : (∀ point ∈ sb1.commits, point.copyChunks = 0) ∧ (sb1.copyChunks ≠ 0 → sb1.Open) := by
    by_cases h0 : sb.copyChunks = 0
    · have hl := spaceCheck_logs h1
      exact ⟨hl.settled h0 hold, fun hn => absurd (hl.copyChunks.trans h0) hn⟩
    by_cases hr : EnoughRoom sb
    · rw [spaceCheck_enough hr] at h1
      cases h1
      exact ⟨hold, ho⟩
    · obtain ⟨-, ha⟩ := (spaceCheck_commits hr h1).2 ((hs.resolve_left h0).resolve_left hr)
      exact ⟨ha.commits ▸ hold, fun hn => ha.opened (ho fun h0 => hn ((kept_copyChunks ha.kept).trans h0))⟩
  dsimp only at h2
  split_ifs at h2
  · obtain ⟨hc, ho'⟩ := uniqueException_open h2
    exact ⟨hc ▸ h1'.1, ho' h1'.2⟩
  · cases h2
    exact h1'

private theorem makeUnique_unsettled (hs : ¬CopySafe sb) : ∃ point ∈ sb'.commits, point.copyChunks ≠ 0 := by
  obtain ⟨h0, hr, hd⟩ : sb.copyChunks ≠ 0 ∧ ¬EnoughRoom sb ∧ Deletable sb := by
    simpa [CopySafe] using hs
  obtain ⟨⟨ok, sb1⟩, h1, h2⟩ := Option.bind_eq_some_iff.1 h
  obtain ⟨point, hp, hc⟩ := (spaceCheck_commits hr h1).1 (ho h0) hd
  refine ⟨point, ?_, hc ▸ h0⟩
  dsimp only at h2
  split_ifs at h2
  · exact (uniqueException_open h2).1 ▸ hp
  · cases h2
    exact hp

end

/-! ### One step -/

/-- No commit had copies pending, none are pending between requests, and pending copies belong to an open
transaction. -/
structure Copying.Settled (st : Copying D) : Prop where
  commits : ∀ point ∈ st.sb.commits, point.copyChunks = 0
  idle : st.request = none → st.sb.copyChunks = 0
  opened : st.sb.copyChunks ≠ 0 → st.sb.Open

private theorem Copying.Settled.logs (h : Copying.Settled ⟨sb, none⟩) (hl : Logs sb sb') : Copying.Settled
    ⟨sb', none⟩ :=
  ⟨hl.settled (h.idle rfl) h.commits, fun _ => hl.copyChunks.trans (h.idle rfl),
    fun hn => absurd (hl.copyChunks.trans (h.idle rfl)) hn⟩

private theorem logs_saveSbCheck (h : saveSbCheck sb = some sb') : Logs sb sb' := by
  obtain ⟨sb1, h1, rfl⟩ := Option.map_eq_some_iff.1 h
  exact (frame_commitDeferredAllocs h1).logs.trans (logs_saveSb sb1)

private theorem logs_createMessage {tag : Nat} (h : createMessage sb tag = some sb') : Logs sb sb' := by
  obtain ⟨⟨bit, sb2⟩, hcr, h⟩ := Option.bind_eq_some_iff.1 h
  obtain ⟨sb1, hmk, -⟩ := Option.bind_eq_some_iff.1 hcr
  have h1 : Logs sb sb1 := by
    unfold makeRoom at hmk
    split_ifs at hmk
    · exact (deleteSnap_logs hmk).1
    · cases hmk
      exact .refl _
  have h2 : Logs sb1 sb2 := by
    obtain ⟨-, rfl⟩ | ⟨b, snap, -, -, -, -, -, -, -, rfl⟩ := createSnapshot_cases hmk hcr
    · exact .refl _
    · exact .of_eq rfl rfl rfl
  dsimp only at h
  split_ifs at h
  · exact (h1.trans h2).trans (logs_saveSbCheck h)
  · cases h
    exact h1.trans h2

private theorem logs_deleteMessage {tag : Nat} (h : deleteMessage sb tag = some sb') : Logs sb sb' := by
  unfold deleteMessage at h
  split at h
  · cases h
    exact .refl _
  · split_ifs at h
    · obtain ⟨sb1, h1, h⟩ := Option.bind_eq_some_iff.1 h
      exact (deleteSnap_logs h1).1.trans (logs_saveSbCheck h)
    · cases h
      exact .refl _

private theorem logs_dropUsecount {tag : Nat} (h : dropUsecount sb tag = some sb') : Logs sb sb' := by
  obtain ⟨slot, -, h⟩ := Option.bind_eq_some_iff.1 h
  dsimp only at h
  split_ifs at h <;> cases h
  · exact .refl _
  · exact .of_eq rfl rfl rfl

private theorem logs_setPriority (sb : Sb D) (tag : Nat) (prio : Int) : Logs sb (setPriority sb tag prio) := by
  unfold setPriority modifySnap
  split
  · exact .refl _
  · exact .of_eq rfl rfl rfl

private theorem logs_changeUsecount (sb : Sb D) (tag : Nat) (dev : Int) : Logs sb (changeUsecount sb tag dev) := by
  unfold changeUsecount
  split_ifs
  · exact .refl _
  split
  · exact .refl _
  dsimp only
  split_ifs
  · exact .refl _
  · exact .refl _
  · exact .of_eq rfl rfl rfl

private theorem Copying.Settled.finish {target : Target} (h : Copying.Settled ⟨sb, some target⟩)
    (hs : commitTransaction (finishCopyout sb) false = some sb') : Copying.Settled ⟨sb', none⟩ := by
  have h0 : (finishCopyout sb).copyChunks = 0 ∧ (finishCopyout sb).commits = sb.commits := by
    by_cases hc : sb.copyChunks = 0
    · rw [finishCopyout, if_pos hc]
      exact ⟨hc, rfl⟩
    · rw [finishCopyout, if_neg hc]
      exact ⟨rfl, rfl⟩
  have hl := (frame_commitTransaction hs).logs
  exact ⟨hl.settled h0.1 (h0.2 ▸ h.commits), fun _ => hl.copyChunks.trans h0.1,
    fun hn => absurd (hl.copyChunks.trans h0.1) hn⟩

/-- A chunk of a request keeps the order exactly if it is safe. -/
private theorem Copying.Settled.chunk {target : Target} {chunk : Nat} {exception : Option Nat}
    (h : Copying.Settled ⟨sb, some target⟩) (hs : targetChunk sb chunk target = some (exception, sb')) :
    (Copying.Safe ⟨sb, some target⟩ (.chunk chunk) → Copying.Settled ⟨sb', some target⟩) ∧
      (¬Copying.Safe ⟨sb, some target⟩ (.chunk chunk) → ∃ point ∈ sb'.commits, point.copyChunks ≠ 0) := by
  have hmake : ∀ {snapbit : Option Nat}, makeUnique sb chunk snapbit = some (exception, sb') →
      (CopySafe sb → Copying.Settled ⟨sb', some target⟩) ∧
        (¬CopySafe sb → ∃ point ∈ sb'.commits, point.copyChunks ≠ 0) := by
    intro snapbit hm
    refine ⟨fun hsafe => ?_, makeUnique_unsettled hm h.opened⟩
    obtain ⟨hc, ho⟩ := makeUnique_settled hm h.opened hsafe h.commits
    exact ⟨hc, nofun, ho⟩
  cases target with
  | origin =>
    obtain ⟨h1, h2⟩ := hmake hs
    exact ⟨fun hsafe => h1 (hsafe rfl), fun hn => h2 fun hsafe => hn fun _ => hsafe⟩
  | snapshot slot =>
    unfold targetChunk snapshotChunk at hs
    dsimp only at hs
    split_ifs at hs with hsq
    · cases hs
      refine ⟨fun _ => h, fun hn => absurd ?_ hn⟩
      exact fun hcalls => by simp [Copying.callsMakeUnique, hsq] at hcalls
    · obtain ⟨h1, h2⟩ := hmake hs
      exact ⟨fun hsafe => h1 (hsafe (by simpa [Copying.callsMakeUnique] using hsq)),
        fun hn => h2 fun hsafe => hn fun _ => hsafe⟩

private theorem Copying.Settled.step {st st' : Copying D} {a : Action D} (h : st.Settled) (hs : st.step a = some st') :
    (st.Safe a → st'.Settled) ∧ (¬st.Safe a → ∃ point ∈ st'.sb.commits, point.copyChunks ≠ 0) := by
  obtain ⟨sb, request⟩ := st
  cases request with
  | none =>
    cases a with
    | chunk _ | finish => cases hs
    | query tag =>
      refine ⟨fun _ => ?_, fun hn => absurd trivial hn⟩
      simp only [Copying.step] at hs
      have hsb : st'.sb = sb := by
        split_ifs at hs
        · cases hs
          rfl
        · obtain ⟨slot, -, rfl⟩ := Option.map_eq_some_iff.1 hs
          rfl
      exact ⟨hsb ▸ h.commits, fun _ => hsb ▸ h.idle rfl, hsb ▸ h.opened⟩
    | identify tag =>
      refine ⟨fun _ => ?_, fun hn => absurd trivial hn⟩
      simp only [Copying.step] at hs
      split at hs <;> cases hs
      · exact h.logs (.of_eq rfl rfl rfl)
      · exact h
    | disconnect tag =>
      obtain ⟨sb', h1, rfl⟩ := Option.map_eq_some_iff.1 hs
      exact ⟨fun _ => h.logs (logs_dropUsecount h1), fun hn => absurd trivial hn⟩
    | createSnapshot tag =>
      obtain ⟨sb', h1, rfl⟩ := Option.map_eq_some_iff.1 hs
      exact ⟨fun _ => h.logs (logs_createMessage h1), fun hn => absurd trivial hn⟩
    | deleteSnapshot tag =>
      obtain ⟨sb', h1, rfl⟩ := Option.map_eq_some_iff.1 hs
      exact ⟨fun _ => h.logs (logs_deleteMessage h1), fun hn => absurd trivial hn⟩
    | priority tag prio =>
      cases hs
      exact ⟨fun _ => h.logs (logs_setPriority sb tag prio), fun hn => absurd trivial hn⟩
    | usecount tag dev =>
      cases hs
      exact ⟨fun _ => h.logs (logs_changeUsecount sb tag dev), fun hn => absurd trivial hn⟩
    | clientWrite device chunk content =>
      cases hs
      exact ⟨fun _ => h.logs (.of_eq rfl rfl rfl), fun hn => absurd trivial hn⟩
  | some target =>
    cases a with
    | query _ | identify _ | disconnect _ | createSnapshot _ | deleteSnapshot _ | priority _ _ | usecount _ _
    | clientWrite _ _ _ => cases hs
    | chunk chunk =>
      obtain ⟨⟨exception, sb'⟩, h1, rfl⟩ := Option.map_eq_some_iff.1 hs
      exact h.chunk h1
    | finish =>
      obtain ⟨sb', h1, rfl⟩ := Option.map_eq_some_iff.1 hs
      exact ⟨fun _ => h.finish h1, fun hn => absurd trivial hn⟩

/-! ### Runs -/

/-- In every run whose calls of `make_unique` are safe, no commit is written with copies pending; and a next step keeps
this exactly if it is safe too. -/
theorem copies_before_commits {st : Copying D} (h : Reach.Run Copying.step Copying.Safe Copying.Init st) :
    (∀ point ∈ st.sb.commits, point.copyChunks = 0) ∧
    ∀ a st', st.step a = some st' → ((∀ point ∈ st'.sb.commits, point.copyChunks = 0) ↔ st.Safe a) := by
  have hst : st.Settled := by
    apply h.invariant
    · rintro st ⟨-, h0, hc⟩
      exact ⟨hc, fun _ => h0, fun hn => absurd h0 hn⟩
    · intro st a st' hst hsafe hs
      exact (hst.step hs).1 hsafe
  refine ⟨hst.commits, fun a st' hs => ⟨fun hall => ?_, fun hsafe => ((hst.step hs).1 hsafe).commits⟩⟩
  by_contra hn
  obtain ⟨point, hp, hne⟩ := (hst.step hs).2 hn
  exact hne (hall point hp)

/-- The server on a small store, with a snapshot and in the middle of an origin write. -/
def tinyCopying : Copying Nat := ⟨tinyDaemon.sb, none⟩

def copyingActions (chunks : Nat) : List (Action Nat) :=
  [.createSnapshot 7, .query originTag] ++ (List.range chunks).map Action.chunk

def copyingRun : Copying Nat := (Reach.exec Copying.step Copying.Safe tinyCopying (copyingActions 3)).getD tinyCopying

private theorem tinyCopying_init : tinyCopying.Init := ⟨rfl, by decide +kernel, by decide +kernel⟩

private theorem copyingRun_run : Reach.Run Copying.step Copying.Safe Copying.Init copyingRun :=
  (Reach.Run.start tinyCopying_init).exec_getD (copyingActions 3)

/-- The end of a request with three pending copies. -/
theorem copies_before_commits_three : copyingRun.sb.copyChunks = 3 ∧ ∃ st', copyingRun.step .finish = some st' ∧
    ∀ point ∈ st'.sb.commits, point.copyChunks = 0 := by
  refine ⟨by decide +kernel, ?_⟩
  obtain ⟨st', hst⟩ := Option.isSome_iff_exists.1 (by decide +kernel : (copyingRun.step .finish).isSome = true)
  exact ⟨st', hst, ((copies_before_commits copyingRun_run).2 .finish st' hst).2 trivial⟩

/-! ### A commit with copies pending -/

def unsafeRun : Copying Nat :=
  (Reach.exec Copying.step (fun _ _ => True) tinyCopying (copyingActions 18)).getD tinyCopying

/-- An origin write of 18 chunks fills the store; the snapshot is deleted for the last one, with 17 copies pending. -/
theorem commit_before_copies : ∃ st : Copying Nat, Reach.Run Copying.step (fun _ _ => True) Copying.Init st ∧
    ∃ point ∈ st.sb.commits, point.copyChunks = 17 :=
  ⟨unsafeRun, (Reach.Run.start tinyCopying_init).exec_getD (copyingActions 18),
    by simpa using (by decide +kernel : (unsafeRun.sb.commits.any fun point => point.copyChunks = 17) = true)⟩

/-! ### The daemon -/

section

variable {init : Copying D → Prop}

private theorem run_originChunks {chunks : List Nat} {ok : Bool}
    (h : Reach.Run Copying.step (fun _ _ => True) init ⟨sb, some .origin⟩)
    (hs : originChunks sb chunks = some (ok, sb')) :
    Reach.Run Copying.step (fun _ _ => True) init ⟨sb', some .origin⟩ := by
  induction chunks generalizing sb ok with
  | nil =>
    cases hs
    exact h
  | cons chunk chunks ih =>
    obtain ⟨⟨exception, sb1⟩, h1, hs⟩ := Option.bind_eq_some_iff.1 hs
    obtain ⟨⟨ok1, sb2⟩, h2, hs⟩ := Option.bind_eq_some_iff.1 hs
    cases hs
    refine ih (h.step (c := .chunk chunk) trivial ?_) h2
    simp only [Copying.step, targetChunk, h1, Option.map_some]

private theorem run_snapshotChunks {slot : Nat} {chunks : List Nat} {exceptions : List (Option Nat)}
    (h : Reach.Run Copying.step (fun _ _ => True) init ⟨sb, some (.snapshot slot)⟩)
    (hs : snapshotChunks slot sb chunks = some (exceptions, sb')) :
    Reach.Run Copying.step (fun _ _ => True) init ⟨sb', some (.snapshot slot)⟩ := by
  induction chunks generalizing sb exceptions with
  | nil =>
    cases hs
    exact h
  | cons chunk chunks ih =>
    obtain ⟨⟨exception, sb1⟩, h1, hs⟩ := Option.bind_eq_some_iff.1 hs
    obtain ⟨⟨others, sb2⟩, h2, hs⟩ := Option.bind_eq_some_iff.1 hs
    cases hs
    refine ih (h.step (c := .chunk chunk) trivial ?_) h2
    simp only [Copying.step, targetChunk, h1, Option.map_some]

private theorem run_finish {target : Target} (h : Reach.Run Copying.step (fun _ _ => True) init ⟨sb, some target⟩)
    (hs : commitTransaction (finishCopyout sb) false = some sb') :
    Reach.Run Copying.step (fun _ _ => True) init ⟨sb', none⟩ := by
  refine h.step (c := .finish) trivial ?_
  simp only [Copying.step, hs, Option.map_some]

/-- An event of the daemon is a run of steps. -/
theorem run_of_event {d d' : Daemon D} {e : Event}
    (h : Reach.Run Copying.step (fun _ _ => True) init ⟨d.sb, none⟩) (hs : StoreEvent d e d') :
    Reach.Run Copying.step (fun _ _ => True) init ⟨d'.sb, none⟩ := by
  cases hs with
  | connect _ hsb _ | leave _ _ hsb _ | quiet _ hsb _ =>
    rw [hsb]
    exact h
  | originWrite _ _ hchunks hcommit _ =>
    have hquery : Copying.step ⟨d.sb, none⟩ (.query originTag) = some ⟨d.sb, some .origin⟩ := by
      simp only [Copying.step, if_pos]
    exact run_finish (run_originChunks (h.step trivial hquery) hchunks) hcommit
  | @snapshotWrite _ _ slot _ client _ _ _ _ htag hslot hchunks hcommit _ =>
    have hquery : Copying.step ⟨d.sb, none⟩ (.query client.snaptag) = some ⟨d.sb, some (.snapshot slot)⟩ := by
      simp only [Copying.step, if_neg htag, hslot, Option.map_some]
    exact run_finish (run_snapshotChunks (h.step trivial hquery) hchunks) hcommit
  | @identify _ client _ tag off len =>
    obtain hsb | ⟨snapshot, hok, hsb⟩ := identifyClient_sb d client tag off len
    · rw [hsb]
      exact h
    · rw [hsb]
      refine h.step (c := .identify tag) trivial ?_
      simp only [Copying.step, hok]
  | @drop _ client _ _ _ hdrop _ =>
    refine h.step (c := .disconnect client.snaptag) trivial ?_
    simp only [Copying.step, hdrop, Option.map_some]
  | @create _ tag _ hcreate _ =>
    refine h.step (c := .createSnapshot tag) trivial ?_
    simp only [Copying.step, hcreate, Option.map_some]
  | @delete _ tag _ hdelete _ =>
    refine h.step (c := .deleteSnapshot tag) trivial ?_
    simp only [Copying.step, hdelete, Option.map_some]
  | @priority _ tag prio _ hsb _ => exact hsb ▸ h.step (c := .priority tag prio) trivial rfl
  | @usecount _ tag dev _ hsb _ => exact hsb ▸ h.step (c := .usecount tag dev) trivial rfl

end

/-- The runs of the daemon are runs of these steps. -/
theorem run_of_daemon {d : Daemon D}
    (h : Reach.Run Daemon.step (fun _ _ => True) (fun d => Copying.Init ⟨d.sb, none⟩) d) :
    Reach.Run Copying.step (fun _ _ => True) Copying.Init ⟨d.sb, none⟩ := by
  apply h.invariant
  · exact fun d hd => .start hd
  · exact fun d e d' hd _ hs => run_of_event hd (d.step_store hs)

end Ddsnap
