import Ddsnap.DiskIo

/-!
# The revert command

`ddsnap revert` copies every chunk on the changelist from the snapshot back to the origin.  Its loop compares the
results of `diskread` and `diskwrite` with -1, but these return the negative errno: only `EPERM` is noticed.  After any
other failure the loop goes on, and after a read that failed it writes what the buffer happens to hold.
-/

namespace Ddsnap

/-- A changelist as the server sends it: the chunks of a volume, whose addresses are 64-bit numbers. -/
structure ChangeList where
  chunksizeBits : Nat
  chunks : List Nat
  inRange : ∀ c ∈ chunks, c * 2 ^ chunksizeBits < 2 ^ 64

/-- What ends the command before its loop. -/
inductive RevertSetup where
  | ready
  | noVolume
  | noChangelist
  | noMemory
  | noOrigin
  | noSnapshot

def RevertSetup.err : RevertSetup → Int
  | .ready => 0
  | .noVolume | .noChangelist => Errno.einval.ret
  | .noMemory => Errno.enomem.ret
  | .noOrigin | .noSnapshot => -1

private theorem RevertSetup.err_ne_zero {setup : RevertSetup} (h : setup ≠ .ready) : setup.err ≠ 0 := by
  cases setup with
  | ready => exact absurd rfl h
  | _ => decide

/-- The origin and the buffer, and the results of the device calls so far, the last one first. -/
structure RevertState (β : Type) where
  origin : Volume β
  buffer : Nat → β
  results : List Int

variable {β : Type}

/-- The loop of the command from chunk `i` on; `reads i` and `writes i` are the results of the system calls for it. -/
def revertLoop (snap : Volume β) (bits : Nat) (reads writes : Nat → List Ret) :
    List Nat → Nat → RevertState β → Option (RevertState β × Int)
  | [], _, st => some (st, 0)
  | c :: chunks, i, st =>
    (diskread snap (reads i) st.buffer (2 ^ bits) (chunkpos bits c)).bind fun rd =>
      let st1 := { st with buffer := rd.1, results := rd.2 :: st.results }
      if rd.2 = -1 then some (st1, Errno.eio.ret)
      else
        (diskwrite st1.origin (writes i) st1.buffer (2 ^ bits) (chunkpos bits c)).bind fun wr =>
          let st2 := { st1 with origin := wr.1, results := wr.2 :: st1.results }
          if wr.2 = -1 then some (st2, Errno.eio.ret)
          else revertLoop snap bits reads writes chunks (i + 1) st2

/-- `ddsnap revert`: the state at the end and the result.  `none`: a device call does not return. -/
def revert (setup : RevertSetup) (cl : ChangeList) (snap origin : Volume β) (buffer : Nat → β)
    (reads writes : Nat → List Ret) : Option (RevertState β × Int) :=
  match setup with
  | .ready => revertLoop snap cl.chunksizeBits reads writes cl.chunks 0 ⟨origin, buffer, []⟩
  | setup => some (⟨origin, buffer, []⟩, setup.err)

/-- The revert is exact or fails: with result 0 the listed chunks hold the snapshot's content and all else is as before,
no device call follows one that failed, and a failure is reported. -/
structure RevertExact (cl : ChangeList) (snap origin : Volume β) (out : RevertState β × Int) : Prop where
  reverted : out.2 = 0 → ∀ a, Listed cl.chunksizeBits cl.chunks a → out.1.origin.byte a = snap.byte a
  kept : out.2 = 0 → ∀ a, ¬Listed cl.chunksizeBits cl.chunks a → out.1.origin.byte a = origin.byte a
  stops : ∀ r ∈ out.1.results.tail, r = 0
  reported : (∃ r ∈ out.1.results, r ≠ 0) → out.2 ≠ 0

/-- The results of the device calls for the chunks from `i` on, were all of them made. -/
def callResults (snapSize orgSize bits : Nat) (reads writes : Nat → List Ret) : List Nat → Nat → List Int
  | [], _ => []
  | c :: chunks, i =>
    ((fdio snapSize (reads i) (2 ^ bits) (chunkpos bits c)).elim 0 Prod.snd)
      :: ((fdio orgSize (writes i) (2 ^ bits) (chunkpos bits c)).elim 0 Prod.snd)
      :: callResults snapSize orgSize bits reads writes chunks (i + 1)

/-- The first device call that fails, if any, fails with `EPERM`. -/
def Caught (results : List Int) : Prop := ∀ r ∈ results.find? (· ≠ 0), r = Errno.eperm.ret

instance (results : List Int) : Decidable (Caught results) :=
  inferInstanceAs (Decidable (∀ r ∈ results.find? (· ≠ 0), r = Errno.eperm.ret))

variable {snap origin : Volume β} {bits i : Nat} {reads writes : Nat → List Ret} {chunks : List Nat}
variable {st : RevertState β} {out : RevertState β × Int}

/-- The state after a read of `n` bytes at `pos` with result `r`. -/
def RevertState.afterRead (st : RevertState β) (snap : Volume β) (pos n : Nat) (r : Int) : RevertState β :=
  { st with buffer := patch st.buffer 0 n (fun j => snap.byte (pos + j)), results := r :: st.results }

/-- The state after a write of `n` bytes at `pos` with result `w`. -/
def RevertState.afterWrite (st : RevertState β) (pos n : Nat) (w : Int) : RevertState β :=
  { st with origin := st.origin.patch pos n st.buffer, results := w :: st.results }

/-- One round: the read, and unless it is seen to fail the write, and unless that is seen to fail the other chunks. -/
private theorem revertLoop_cons {c : Nat} (h : revertLoop snap bits reads writes (c :: chunks) i st = some out) :
    ∃ n r, fdio snap.size (reads i) (2 ^ bits) (chunkpos bits c) = some (n, r) ∧
      (r = -1 ∧ out = (st.afterRead snap (chunkpos bits c) n r, Errno.eio.ret) ∨
        r ≠ -1 ∧ ∃ m w, fdio st.origin.size (writes i) (2 ^ bits) (chunkpos bits c) = some (m, w) ∧
          (w = -1 ∧ out = ((st.afterRead snap (chunkpos bits c) n r).afterWrite (chunkpos bits c) m w, Errno.eio.ret) ∨
            w ≠ -1 ∧ revertLoop snap bits reads writes chunks (i + 1)
              ((st.afterRead snap (chunkpos bits c) n r).afterWrite (chunkpos bits c) m w) = some out)) := by
  simp only [revertLoop] at h
  obtain ⟨⟨buffer, r⟩, hread, h⟩ := Option.bind_eq_some_iff.1 h
  obtain ⟨⟨n, r'⟩, hn, he⟩ := Option.map_eq_some_iff.1 hread
  cases he
  refine ⟨n, r', hn, ?_⟩
  split at h
  · rename_i hr
    cases h
    exact .inl ⟨hr, rfl⟩
  · rename_i hr
    obtain ⟨⟨org, w⟩, hwrite, h⟩ := Option.bind_eq_some_iff.1 h
    obtain ⟨⟨m, w'⟩, hm, he⟩ := Option.map_eq_some_iff.1 hwrite
    cases he
    refine .inr ⟨hr, m, w', hm, ?_⟩
    split at h
    · rename_i hw
      cases h
      exact .inl ⟨hw, rfl⟩
    · rename_i hw
      exact .inr ⟨hw, h⟩

private theorem revertLoop_results (h : revertLoop snap bits reads writes chunks i st = some out) :
    ∃ new, out.1.results = new ++ st.results ∧ (new = [] → out.2 = 0) := by
  induction chunks generalizing i st with
  | nil =>
    cases h
    exact ⟨[], rfl, fun _ => rfl⟩
  | cons c chunks ih =>
    obtain ⟨n, r, -, ⟨-, rfl⟩ | ⟨-, m, w, -, ⟨-, rfl⟩ | ⟨-, h⟩⟩⟩ := revertLoop_cons h
    · exact ⟨[r], rfl, nofun⟩
    · exact ⟨[w, r], rfl, nofun⟩
    · obtain ⟨new, hnew, -⟩ := ih h
      exact ⟨new ++ [w, r], by simp [hnew, RevertState.afterWrite, RevertState.afterRead], by simp⟩

/-- A failure that the loop did not see: another call follows it, or the result is 0. -/
def Unnoticed (out : RevertState β × Int) : Prop :=
  (∃ r ∈ out.1.results.tail, r ≠ 0) ∨ (∃ r ∈ out.1.results, r ≠ 0) ∧ out.2 = 0

private theorem revertLoop_unnoticed (h : revertLoop snap bits reads writes chunks i st = some out)
    (hfail : ∃ r ∈ st.results, r ≠ 0) : Unnoticed out := by
  obtain ⟨r, hr, hne⟩ := hfail
  obtain ⟨new, hnew, hdone⟩ := revertLoop_results h
  cases new with
  | nil => exact .inr ⟨⟨r, by simp [hnew, hr], hne⟩, hdone rfl⟩
  | cons w new => exact .inl ⟨r, by simp [hnew, hr], hne⟩

private theorem copied_byte (st : RevertState β) (snap : Volume β) {c n m : Nat} (hc : c * 2 ^ bits < 2 ^ 64)
    (hn : n = 2 ^ bits) (hm : m = 2 ^ bits) (r w : Int) (a : Nat) :
    ((st.afterRead snap (chunkpos bits c) n r).afterWrite (chunkpos bits c) m w).origin.byte a
      = if c * 2 ^ bits ≤ a ∧ a < (c + 1) * 2 ^ bits then snap.byte a else st.origin.byte a := by
  have hpos := chunkpos_eq hc
  have hend : (c + 1) * 2 ^ bits = c * 2 ^ bits + 2 ^ bits := Nat.succ_mul _ _
  subst hn hm
  rw [hpos, hend]
  simp only [RevertState.afterWrite, RevertState.afterRead, Volume.patch, patch]
  split
  · rw [if_pos (by omega)]
    congr 1
    omega
  · rfl

private theorem caught_zero {results : List Int} : Caught (0 :: results) ↔ Caught results := by
  rw [Caught, List.find?_cons_of_neg (by simp), Caught]

private theorem caught_cons {results : List Int} {r : Int} (h : r ≠ 0) : Caught (r :: results) ↔ r =
    Errno.eperm.ret := by
  rw [Caught, List.find?_cons_of_pos (by simpa using h)]
  simp

private theorem callResults_cons {snapSize orgSize c n m : Nat} {r w : Int}
    (hread : fdio snapSize (reads i) (2 ^ bits) (chunkpos bits c) = some (n, r))
    (hwrite : fdio orgSize (writes i) (2 ^ bits) (chunkpos bits c) = some (m, w)) :
    callResults snapSize orgSize bits reads writes (c :: chunks) i
      = r :: w :: callResults snapSize orgSize bits reads writes chunks (i + 1) := by
  simp only [callResults, hread, hwrite, Option.elim_some]

private theorem caught_read {snapSize orgSize c n : Nat} {r : Int} (hr : r ≠ 0)
    (hread : fdio snapSize (reads i) (2 ^ bits) (chunkpos bits c) = some (n, r)) :
    Caught (callResults snapSize orgSize bits reads writes (c :: chunks) i) ↔ r = Errno.eperm.ret := by
  simp only [callResults, hread, Option.elim_some]
  exact caught_cons hr

/-- If the first failure is none that the loop sees, then it goes unnoticed. -/
private theorem revertLoop_not_caught (h : revertLoop snap bits reads writes chunks i st = some out)
    (hn : ¬Caught (callResults snap.size st.origin.size bits reads writes chunks i)) : Unnoticed out := by
  induction chunks generalizing i st with
  | nil => exact absurd nofun hn
  | cons c chunks ih =>
    obtain ⟨n, r, hread, hrest⟩ := revertLoop_cons h
    by_cases hr : r = 0
    · subst hr
      obtain ⟨h0, -⟩ | ⟨-, m, w, hwrite, hrest⟩ := hrest
      · cases h0
      · rw [callResults_cons hread hwrite, caught_zero] at hn
        by_cases hw : w = 0
        · subst hw
          obtain ⟨h0, -⟩ | ⟨-, hloop⟩ := hrest
          · cases h0
          · exact ih hloop (by rwa [caught_zero] at hn)
        · rw [caught_cons hw] at hn
          obtain ⟨hw1, -⟩ | ⟨-, hloop⟩ := hrest
          · exact absurd hw1 hn
          · exact revertLoop_unnoticed hloop ⟨w, List.mem_cons_self, hw⟩
    · rw [caught_read hr hread] at hn
      obtain ⟨hr1, -⟩ | ⟨-, m, w, -, ⟨-, rfl⟩ | ⟨-, hloop⟩⟩ := hrest
      · exact absurd hr1 hn
      · exact .inl ⟨r, List.mem_cons_self, hr⟩
      · exact revertLoop_unnoticed hloop ⟨r, List.mem_cons_of_mem _ List.mem_cons_self, hr⟩

/-- If the first failure is one that the loop sees, then the loop ends with it. -/
private theorem revertLoop_caught (h : revertLoop snap bits reads writes chunks i st = some out)
    (hclean : ∀ r ∈ st.results, r = 0)
    (hc : Caught (callResults snap.size st.origin.size bits reads writes chunks i)) :
    (∀ r ∈ out.1.results.tail, r = 0) ∧ ((∃ r ∈ out.1.results, r ≠ 0) → out.2 ≠ 0) := by
  have hio : Errno.eio.ret ≠ 0 := Int.ne_of_lt (Errno.ret_neg _)
  induction chunks generalizing i st with
  | nil =>
    cases h
    refine ⟨fun r hr => hclean r (List.mem_of_mem_tail hr), ?_⟩
    rintro ⟨r, hr, hne⟩
    exact absurd (hclean r hr) hne
  | cons c chunks ih =>
    obtain ⟨n, r, hread, hrest⟩ := revertLoop_cons h
    by_cases hr : r = 0
    · subst hr
      have hclean1 : ∀ r ∈ (0 : Int) :: st.results, r = 0 := by simpa using hclean
      obtain ⟨h0, -⟩ | ⟨-, m, w, hwrite, hrest⟩ := hrest
      · cases h0
      · rw [callResults_cons hread hwrite, caught_zero] at hc
        obtain ⟨-, rfl⟩ | ⟨hw1, hloop⟩ := hrest
        · exact ⟨hclean1, fun _ => hio⟩
        · have hw : w = 0 := by
            by_contra hw
            exact hw1 ((caught_cons hw).1 hc)
          subst hw
          exact ih hloop (by simpa [RevertState.afterWrite, RevertState.afterRead] using hclean) (caught_zero.1 hc)
    · obtain ⟨-, rfl⟩ | ⟨hr1, -⟩ := hrest
      · exact ⟨hclean, fun _ => hio⟩
      · exact absurd ((caught_read hr hread).1 hc) hr1

/-- If no call fails then the chunks are copied. -/
private theorem revertLoop_content (hcl : ∀ c ∈ chunks, c * 2 ^ bits < 2 ^ 64)
    (h : revertLoop snap bits reads writes chunks i st = some out) (hall : ∀ r ∈ out.1.results, r = 0) (a : Nat) :
    (Listed bits chunks a → out.1.origin.byte a = snap.byte a) ∧
      (¬Listed bits chunks a → out.1.origin.byte a = st.origin.byte a) := by
  induction chunks generalizing i st with
  | nil =>
    cases h
    exact ⟨fun ⟨_, hc, _⟩ => absurd hc List.not_mem_nil, fun _ => rfl⟩
  | cons c chunks ih =>
    obtain ⟨n, r, hread, ⟨hr, rfl⟩ | ⟨-, m, w, hwrite, ⟨hw, rfl⟩ | ⟨-, hloop⟩⟩⟩ := revertLoop_cons h
    · have := hall r List.mem_cons_self
      omega
    · have := hall w List.mem_cons_self
      omega
    · obtain ⟨new, hnew, -⟩ := revertLoop_results hloop
      have hw0 : w = 0 := hall w (by simp [hnew, RevertState.afterWrite])
      have hr0 : r = 0 := hall r (by simp [hnew, RevertState.afterWrite, RevertState.afterRead])
      have hn : n = 2 ^ bits := by have := (fdio_spec hread).1; omega
      have hm : m = 2 ^ bits := by have := (fdio_spec hwrite).1; omega
      obtain ⟨h1, h2⟩ := ih (fun c hc => hcl c (List.mem_cons_of_mem _ hc)) hloop
      have hcopied := copied_byte st snap (hcl c List.mem_cons_self) hn hm r w a
      have hcons : Listed bits (c :: chunks) a ↔
          (c * 2 ^ bits ≤ a ∧ a < (c + 1) * 2 ^ bits) ∨ Listed bits chunks a := by
        simp [Listed]
      rw [hcons]
      by_cases hl : Listed bits chunks a
      · exact ⟨fun _ => h1 hl, fun hn => absurd (.inr hl) hn⟩
      · rw [h2 hl, hcopied]
        refine ⟨fun hor => if_pos (hor.resolve_right hl), fun hn => if_neg fun hin => hn (.inl hin)⟩

/-- The revert is exact or fails if and only if its first device call that fails, if any, fails with `EPERM`. -/
theorem revert_exact_iff {setup : RevertSetup} {cl : ChangeList} {buffer : Nat → β}
    (h : revert setup cl snap origin buffer reads writes = some out) :
    RevertExact cl snap origin out ↔
      (setup = .ready → Caught (callResults snap.size origin.size cl.chunksizeBits reads writes cl.chunks 0)) := by
  by_cases hs : setup = .ready
  · subst hs
    refine ⟨fun hex _ => ?_, fun hc => ?_⟩
    · by_contra hn
      rcases revertLoop_not_caught h hn with ⟨r, hr, hne⟩ | ⟨hr, h0⟩
      · exact hne (hex.stops r hr)
      · exact hex.reported hr h0
    · obtain ⟨hstops, hreported⟩ := revertLoop_caught h nofun (hc rfl)
      have hall : out.2 = 0 → ∀ r ∈ out.1.results, r = 0 := fun h0 r hr => by
        by_contra hne
        exact hreported ⟨r, hr, hne⟩ h0
      exact ⟨fun h0 a => (revertLoop_content cl.inRange h (hall h0) a).1,
        fun h0 a => (revertLoop_content cl.inRange h (hall h0) a).2, hstops, hreported⟩
  · refine ⟨fun _ he => absurd he hs, fun _ => ?_⟩
    have hout : out.1.results = [] ∧ out.2 ≠ 0 := by
      have hne := RevertSetup.err_ne_zero hs
      cases setup with
      | ready => exact absurd rfl hs
      | _ => cases h; exact ⟨rfl, hne⟩
    exact ⟨fun h0 => absurd h0 hout.2, fun h0 => absurd h0 hout.2, by simp [hout.1], by simp [hout.1]⟩

/-- A volume of eight bytes that all have the same value. -/
def plain (x : Nat) : Volume Nat := ⟨8, fun _ => x, by decide⟩

def sampleChanges : ChangeList := ⟨1, [1, 3], by decide⟩

/-- The calls move what they are asked for, the first write in two parts and after an interruption. -/
def sampleWrites (i : Nat) : List Ret := if i = 0 then [.bytes 1, .err .eintr, .bytes 1] else [.bytes 2]

theorem sample_reverted :
    ∃ out, revert .ready sampleChanges (plain 1) (plain 0) (fun _ => 7) (fun _ => [.bytes 2]) sampleWrites = some out ∧
      out.2 = 0 ∧ RevertExact sampleChanges (plain 1) (plain 0) out := by
  obtain ⟨out, hout, h0⟩ : ∃ out, revert .ready sampleChanges (plain 1) (plain 0) (fun _ => 7)
      (fun _ => [.bytes 2]) sampleWrites = some out ∧ out.2 = 0 := ⟨_, rfl, rfl⟩
  exact ⟨out, hout, h0, (revert_exact_iff hout).2 fun _ => by decide⟩

/-- The first read fails with `EIO`: the buffer is written all the same and the result is 0. -/
theorem unread_buffer_written :
    ∃ out, revert .ready sampleChanges (plain 1) (plain 0) (fun _ => 7)
        (fun i => if i = 0 then [.err .eio] else [.bytes 2]) sampleWrites = some out ∧
      out.2 = 0 ∧ out.1.origin.byte 2 = 7 ∧ ¬RevertExact sampleChanges (plain 1) (plain 0) out := by
  refine ⟨_, rfl, rfl, rfl, fun hex => ?_⟩
  exact hex.reported ⟨Errno.eio.ret, by decide, by decide⟩ rfl

end Ddsnap
