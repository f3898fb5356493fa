import Ddsnap.KernelClient

/-!
# The hooks of the origin reads

A hook is on `locked` while its read is under way, on `releases` after it, and it is freed when the worker sends
`FINISH_SNAPSHOT_READ` or when the connection is given up.  `snapshot_read_end_io` frees the hook without taking it off
its list when the target is not ready, and `upload_locks` leaves the reads that ended during the upload on `locked` when
the worker is not ready.  Apart from these two cases every hook is released properly.
-/

namespace Ddsnap.Kernel

/-- The `FINISH_SNAPSHOT_READ` messages sent for the hook. -/
def DevInfo.finishesOf (info : DevInfo) (h : Nat) : Nat := (info.finishes.map Prod.fst).count h

/-- The hooks are released properly: what is freed is on no list and is not freed again, and a read that ended while its
lock is known to the server of the current connection has had its one `FINISH_SNAPSHOT_READ`, for its chunk, or the
worker will come to it: the hook is on `releases`, or on `locked` while the upload goes on. -/
structure Released (info : DevInfo) : Prop where
  unlisted : ∀ h ∈ info.freed, h ∉ info.locked ∧ h ∉ info.releases
  freedOnce : info.freed.Nodup
  finishOnce : ∀ h, info.finishesOf h ≤ 1
  chunk : ∀ m ∈ info.finishes, ∃ hook, info.hooks m.1 = some hook ∧ m.2 = hook.sector >>> info.chunkshift
  released : ∀ h ∈ info.taken, info.completed h = true →
    info.finishesOf h = 1 ∨
      info.finishesOf h = 0 ∧ (h ∈ info.releases ∨ info.worker ≠ .running ∧ h ∈ info.locked)

/-- The target is ready when a hooked read ends, and at the end of `upload_locks` the worker is ready or no read ended
during the upload. -/
def Guarded (info : DevInfo) : Event → Prop
  | .endIo _ => info.ready = true
  | .uploadEnd => info.workerReady = true ∨ ∀ h ∈ info.locked, info.completed h = false
  | _ => True

instance (info : DevInfo) : (e : Event) → Decidable (Guarded info e)
  | .endIo _ => inferInstanceAs (Decidable (info.ready = true))
  | .uploadEnd => inferInstanceAs (Decidable (_ ∨ ∀ h ∈ info.locked, info.completed h = false))
  | .flags _ _ _ | .map _ _ | .send | .reply _ _ _ _ _ | .requeue | .flushPending | .flushReleases | .hook _
  | .release _ | .uploadStart | .uploadNext _ => inferInstanceAs (Decidable True)

/-- The entries of `locked` that the loop of `upload_locks` still visits. -/
def Worker.todo : Worker → List Nat
  | .running => []
  | .uploading todo => todo

/-- The hooks of the two lists and those that were freed. -/
def DevInfo.listed (info : DevInfo) : List Nat := info.locked ++ info.releases ++ info.freed

/-- What holds between two sections.  No hook is listed or freed twice; a hook off `locked` has completed, and one on
`locked` has not unless the upload goes on; the loop of `upload_locks` has only entries of `locked` before it whose lock
it has not uploaded; a `FINISH_SNAPSHOT_READ` is for a hook that was freed. -/
structure HooksKept (info : DevInfo) : Prop where
  nodup : info.listed.Nodup
  known : ∀ h, h ∈ info.listed ↔ (info.hooks h).isSome
  ended : ∀ h ∈ info.listed, h ∉ info.locked → info.completed h = true
  lockedOpen : info.worker = .running → ∀ h ∈ info.locked, info.completed h = false
  switch : info.dontSwitchLists = true ↔ info.worker ≠ .running
  todo : ∀ h ∈ info.worker.todo, h ∈ info.locked ∧ h ∉ info.taken
  todoNodup : info.worker.todo.Nodup
  finishOnce : ∀ h, info.finishesOf h ≤ 1
  finishFreed : ∀ h, info.finishesOf h ≠ 0 → h ∈ info.freed
  chunk : ∀ m ∈ info.finishes, ∃ hook, info.hooks m.1 = some hook ∧ m.2 = hook.sector >>> info.chunkshift
  taken : ∀ h ∈ info.taken, h ∈ info.locked ∨ h ∈ info.releases ∨ info.finishesOf h = 1

variable {info info' : DevInfo} {h : Nat} {hook : Hook}

private theorem HooksKept.off_freed (hk : HooksKept info) (hf : h ∈ info.freed) : h ∉ info.locked ∧
    h ∉ info.releases := by
  have hd := (List.nodup_append.1 hk.nodup).2.2
  exact ⟨fun hl => hd h (List.mem_append_left _ hl) h hf rfl, fun hr => hd h (List.mem_append_right _ hr) h hf rfl⟩

private theorem HooksKept.off_locked (hk : HooksKept info) (hr : h ∈ info.releases) : h ∉ info.locked := fun hl =>
  (List.nodup_append.1 (List.nodup_append.1 hk.nodup).1).2.2 h hl h hr rfl

private theorem HooksKept.finishesOf_eq_zero (hk : HooksKept info) (hf : h ∉ info.freed) : info.finishesOf h = 0 := by
  by_contra hne
  exact hf (hk.finishFreed h hne)

private theorem HooksKept.released (hk : HooksKept info) : Released info := by
  refine ⟨fun h hf => hk.off_freed hf, (List.nodup_append.1 hk.nodup).2.1, hk.finishOnce, hk.chunk, fun h ht hc => ?_⟩
  rcases hk.taken h ht with hl | hr | hone
  · refine .inr ⟨hk.finishesOf_eq_zero fun hf => (hk.off_freed hf).1 hl, .inr ⟨fun hw => ?_, hl⟩⟩
    simpa [hc] using hk.lockedOpen hw h hl
  · exact .inr ⟨hk.finishesOf_eq_zero fun hf => (hk.off_freed hf).2 hr, .inl hr⟩
  · exact .inl hone

/-! ### Steps that leave the hooks alone -/

structure SameHooks (info info' : DevInfo) : Prop where
  chunkshift : info'.chunkshift = info.chunkshift
  locked : info'.locked = info.locked
  releases : info'.releases = info.releases
  dontSwitchLists : info'.dontSwitchLists = info.dontSwitchLists
  hooks : info'.hooks = info.hooks
  worker : info'.worker = info.worker
  freed : info'.freed = info.freed
  taken : info'.taken = info.taken
  finishes : info'.finishes = info.finishes

private theorem SameHooks.refl (info : DevInfo) : SameHooks info info := ⟨rfl, rfl, rfl, rfl, rfl, rfl, rfl, rfl, rfl⟩

private theorem HooksKept.same (hk : HooksKept info) (hs : SameHooks info info') : HooksKept info' := by
  obtain ⟨h1, h2, h3, h4, h5, h6, h7, h8, h9⟩ := hs
  have hlisted : info'.listed = info.listed := by simp only [DevInfo.listed, h2, h3, h7]
  have hcompleted : info'.completed = info.completed := by funext h; simp only [DevInfo.completed, h5]
  have hfinishes : info'.finishesOf = info.finishesOf := by funext h; simp only [DevInfo.finishesOf, h9]
  constructor
  · exact hlisted ▸ hk.nodup
  · exact hlisted ▸ h5 ▸ hk.known
  · exact hlisted ▸ h2 ▸ hcompleted ▸ hk.ended
  · exact h6 ▸ h2 ▸ hcompleted ▸ hk.lockedOpen
  · exact h4 ▸ h6 ▸ hk.switch
  · exact h6 ▸ h2 ▸ h8 ▸ hk.todo
  · exact h6 ▸ hk.todoNodup
  · exact hfinishes ▸ hk.finishOnce
  · exact hfinishes ▸ h7 ▸ hk.finishFreed
  · exact h9 ▸ h5 ▸ h1 ▸ hk.chunk
  · exact h8 ▸ h2 ▸ h3 ▸ hfinishes ▸ hk.taken

private theorem ddsnapMap_hooks (wasReady : Bool) (bio : Bio) : SameHooks info (ddsnapMap info wasReady bio) := by
  unfold ddsnapMap
  split
  · exact .refl info
  · split
    · exact .refl info
    · dsimp only
      split <;> exact ⟨rfl, rfl, rfl, rfl, rfl, rfl, rfl, rfl, rfl⟩

private theorem sendQuery_hooks : SameHooks info (sendQuery info) := by
  unfold sendQuery
  split
  · split
    · exact .refl info
    · exact ⟨rfl, rfl, rfl, rfl, rfl, rfl, rfl, rfl, rfl⟩
  · exact .refl info

private theorem repliedRw_hooks (id chunks : Nat) (write snap failedIo : Bool) :
    SameHooks info (repliedRw info id chunks write snap failedIo) := by
  simp only [repliedRw]
  split
  · exact .refl info
  · split
    · exact ⟨rfl, rfl, rfl, rfl, rfl, rfl, rfl, rfl, rfl⟩
    · split
      · exact ⟨rfl, rfl, rfl, rfl, rfl, rfl, rfl, rfl, rfl⟩
      · split <;> exact ⟨rfl, rfl, rfl, rfl, rfl, rfl, rfl, rfl, rfl⟩

/-! ### Hooks that come, end and go -/

private theorem HooksKept.hookRead (hk : HooksKept info) (bio : Bio) (hnew : info.hooks h = none) :
    HooksKept (hookRead info bio h) := by
  have hout : h ∉ info.listed := fun hm => by simpa [hnew] using (hk.known h).1 hm
  have hne : ∀ g ∈ info.listed, g ≠ h := fun g hg he => hout (he ▸ hg)
  have hcomp : ∀ g ≠ h, (Kernel.hookRead info bio h).completed g = info.completed g := fun g hg => by
    simp [DevInfo.completed, Kernel.hookRead, Function.update_of_ne hg]
  have hself : (Kernel.hookRead info bio h).completed h = false := by
    simp [DevInfo.completed, Kernel.hookRead]
  have hlocked : ∀ g ∈ info.locked, g ≠ h := fun g hg => hne g (by simp [DevInfo.listed, hg])
  constructor
  · exact List.nodup_cons.2 ⟨hout, hk.nodup⟩
  · intro g
    by_cases hg : g = h
    · subst hg
      simp [DevInfo.listed, Kernel.hookRead]
    · have := hk.known g
      simpa [DevInfo.listed, Kernel.hookRead, Function.update_of_ne hg, hg] using this
  · intro g hg hl
    have hgh : g ≠ h := fun he => hl (he ▸ List.mem_cons_self)
    rw [hcomp g hgh]
    exact hk.ended g ((List.mem_cons.1 hg).resolve_left hgh) fun hl' => hl (List.mem_cons_of_mem _ hl')
  · intro hw g hg
    rcases List.mem_cons.1 hg with rfl | hg
    · exact hself
    · rw [hcomp g (hlocked g hg)]
      exact hk.lockedOpen hw g hg
  · exact hk.switch
  · intro g hg
    obtain ⟨hl, ht⟩ := hk.todo g hg
    exact ⟨List.mem_cons_of_mem _ hl, fun ht' => ht ((List.mem_cons.1 ht').resolve_left (hlocked g hl))⟩
  · exact hk.todoNodup
  · exact hk.finishOnce
  · exact hk.finishFreed
  · intro m hm
    obtain ⟨k, hk1, hk2⟩ := hk.chunk m hm
    have hmh : m.1 ≠ h := fun he => by simp [he, hnew] at hk1
    exact ⟨k, by simpa [Kernel.hookRead, Function.update_of_ne hmh] using hk1, hk2⟩
  · intro g hg
    rcases List.mem_cons.1 hg with rfl | hg
    · exact .inl List.mem_cons_self
    · exact (hk.taken g hg).imp (List.mem_cons_of_mem _) id

private theorem HooksKept.open_locked (hk : HooksKept info) (hh : info.hooks h = some hook)
    (hc : hook.completed = false) : h ∈ info.locked := by
  by_contra hl
  simpa [DevInfo.completed, hh, hc] using hk.ended h ((hk.known h).2 (by simp [hh])) hl

/-- Hooks of `releases` are freed and the connection is given up. -/
private theorem HooksKept.drop (hk : HooksKept info) {releases freed : List Nat} (hsub : ∀ g ∈ info.freed, g ∈ freed)
    (hperm : (releases ++ freed).Perm (info.releases ++ info.freed)) :
    HooksKept { info with releases := releases, freed := freed, taken := [] } := by
  have hlisted : (info.locked ++ releases ++ freed).Perm info.listed := by
    simpa [DevInfo.listed, List.append_assoc] using hperm.append_left info.locked
  exact {
    nodup := hlisted.nodup_iff.2 hk.nodup
    known := fun g => hlisted.mem_iff.trans (hk.known g)
    ended := fun g hg => hk.ended g (hlisted.mem_iff.1 hg)
    lockedOpen := hk.lockedOpen
    switch := hk.switch
    todo := fun g hg => ⟨(hk.todo g hg).1, List.not_mem_nil⟩
    todoNodup := hk.todoNodup
    finishOnce := hk.finishOnce
    finishFreed := fun g hg => hsub g (hk.finishFreed g hg)
    chunk := hk.chunk
    taken := nofun }

/-- The last hook of `releases` is freed and its `FINISH_SNAPSHOT_READ` is sent. -/
private theorem HooksKept.release (hk : HooksKept info) {releases : List Nat} (hsplit : releases ++ [h] = info.releases)
    (hhook : info.hooks h = some hook) :
    HooksKept { info with
      releases := releases, freed := h :: info.freed,
      finishes := (h, hook.sector >>> info.chunkshift) :: info.finishes } := by
  have hlisted : info.locked ++ releases ++ (h :: info.freed) = info.listed := by
    rw [DevInfo.listed, ← hsplit]
    simp
  have hmem : h ∈ info.releases := by simp [← hsplit]
  have hzero : info.finishesOf h = 0 := hk.finishesOf_eq_zero fun hf => (hk.off_freed hf).2 hmem
  have hcount : ∀ g, (((h, hook.sector >>> info.chunkshift) :: info.finishes).map Prod.fst).count g
      = info.finishesOf g + if h = g then 1 else 0 := fun g => by
    simp [DevInfo.finishesOf, List.count_cons]
  have hother : ∀ g, info.finishesOf g ≠ 0 → h ≠ g := fun g hg he => hg (he ▸ hzero)
  constructor
  · exact (List.Perm.of_eq hlisted).nodup_iff.2 hk.nodup
  · exact fun g => (List.Perm.of_eq hlisted).mem_iff.trans (hk.known g)
  · exact fun g hg => hk.ended g ((List.Perm.of_eq hlisted).mem_iff.1 hg)
  · exact hk.lockedOpen
  · exact hk.switch
  · exact hk.todo
  · exact hk.todoNodup
  · intro g
    rw [DevInfo.finishesOf, hcount]
    by_cases hg : h = g
    · simp [← hg, hzero]
    · simpa [hg] using hk.finishOnce g
  · intro g hne
    rw [DevInfo.finishesOf, hcount] at hne
    by_cases hg : h = g
    · exact hg ▸ List.mem_cons_self
    · exact List.mem_cons_of_mem _ (hk.finishFreed g (by simpa [hg] using hne))
  · intro m hm
    rcases List.mem_cons.1 hm with rfl | hm
    · exact ⟨hook, hhook, rfl⟩
    · exact hk.chunk m hm
  · intro g hg
    rw [DevInfo.finishesOf, hcount]
    rcases hk.taken g hg with hl | hr | hone
    · exact .inl hl
    · rw [← hsplit, List.mem_append, List.mem_singleton] at hr
      rcases hr with hr | rfl
      · exact .inr (.inl hr)
      · exact .inr (.inr (by simp [hzero]))
    · exact .inr (.inr (by simp [hone, hother g (by omega)]))

private theorem HooksKept.sendRelease (hk : HooksKept info) (sent : Bool) : HooksKept (sendRelease info sent) := by
  unfold Kernel.sendRelease
  split
  · split
    · exact hk
    · rename_i h hlast
      have hsplit : info.releases.dropLast ++ [h] = info.releases := List.dropLast_append_getLast? _ hlast
      have hmem : h ∈ info.releases := List.mem_of_getLast? hlast
      obtain ⟨hook, hhook⟩ := Option.isSome_iff_exists.1 ((hk.known h).1 (by simp [DevInfo.listed, hmem]))
      cases sent with
      | false =>
        have hperm : (info.releases.dropLast ++ h :: info.freed).Perm (info.releases ++ info.freed) := by
          refine List.Perm.of_eq ?_
          conv_rhs => rw [← hsplit]
          simp
        exact hk.drop (fun g hg => List.mem_cons_of_mem _ hg) hperm
      | true => simpa [hhook, DevInfo.free] using hk.release hsplit hhook
  · exact hk

private theorem HooksKept.flushReleases (hk : HooksKept info) : HooksKept (flushReleases info) :=
  hk.drop (fun _ hg => List.mem_append_right _ hg) (by simpa using (List.reverse_perm _).append_right _)

/-! ### A read ends -/

private theorem complete_completed (info : DevInfo) (h : Nat) (hook : Hook) (g : Nat) :
    (info.complete h hook).completed g = (info.completed g || decide (g = h)) := by
  by_cases hg : g = h
  · subst hg
    simp [DevInfo.completed, DevInfo.complete]
  · simp [DevInfo.completed, DevInfo.complete, hg]

private theorem complete_isSome (hhook : info.hooks h = some hook) (g : Nat) :
    ((info.complete h hook).hooks g).isSome ↔ (info.hooks g).isSome := by
  by_cases hg : g = h
  · simp [DevInfo.complete, hg, hhook]
  · simp [DevInfo.complete, Function.update_of_ne hg]

private theorem complete_chunk (hhook : info.hooks h = some hook) {n c : Nat}
    (hm : ∃ k, info.hooks n = some k ∧ c = k.sector >>> info.chunkshift) :
    ∃ k, (info.complete h hook).hooks n = some k ∧ c = k.sector >>> info.chunkshift := by
  obtain ⟨k, hk1, hk2⟩ := hm
  by_cases hn : n = h
  · rw [hn, hhook, Option.some.injEq] at hk1
    exact ⟨{ hook with completed := true }, by simp [DevInfo.complete, hn], by simpa [hk1] using hk2⟩
  · exact ⟨k, by simp [DevInfo.complete, Function.update_of_ne hn, hk1], hk2⟩

private theorem HooksKept.complete (hk : HooksKept info) (hhook : info.hooks h = some hook)
    (hw : info.worker ≠ .running) : HooksKept (info.complete h hook) where
  nodup := hk.nodup
  known g := (hk.known g).trans (complete_isSome hhook g).symm
  ended g hg hl := by rw [complete_completed info h hook, hk.ended g hg hl, Bool.true_or]
  lockedOpen hw' := absurd hw' hw
  switch := hk.switch
  todo := hk.todo
  todoNodup := hk.todoNodup
  finishOnce := hk.finishOnce
  finishFreed := hk.finishFreed
  chunk m hm := complete_chunk hhook (hk.chunk m hm)
  taken := hk.taken

/-- A read ends outside the upload: its hook moves to `releases`. -/
private theorem HooksKept.completeMove (hk : HooksKept info) (hhook : info.hooks h = some hook)
    (hopen : hook.completed = false) (hw : info.worker = .running) :
    HooksKept { info.complete h hook with locked := info.locked.erase h, releases := h :: info.releases.erase h } := by
  have hl : h ∈ info.locked := hk.open_locked hhook hopen
  have hr : info.releases.erase h = info.releases := List.erase_of_not_mem fun hr => hk.off_locked hr hl
  have hlocked : info.locked.Nodup := (List.nodup_append.1 (List.nodup_append.1 hk.nodup).1).1
  have hperm : (info.locked.erase h ++ h :: info.releases ++ info.freed).Perm info.listed := by
    have : (info.locked.erase h ++ h :: info.releases).Perm (info.locked ++ info.releases) :=
      List.perm_middle.trans ((List.perm_cons_erase hl).symm.append_right _)
    exact this.append_right _
  rw [hr]
  constructor
  · exact hperm.nodup_iff.2 hk.nodup
  · exact fun g => hperm.mem_iff.trans ((hk.known g).trans (complete_isSome hhook g).symm)
  · intro g hg hnl
    by_cases hgh : g = h
    · exact (complete_completed info h hook g).trans (by simp [hgh])
    · have hc := hk.ended g (hperm.mem_iff.1 hg) fun hl => hnl ((List.mem_erase_of_ne hgh).2 hl)
      exact (complete_completed info h hook g).trans (by simp [hc])
  · intro _ g hg
    obtain ⟨hgh, hg⟩ := hlocked.mem_erase_iff.1 hg
    exact (complete_completed info h hook g).trans (by simp [hk.lockedOpen hw g hg, hgh])
  · exact hk.switch
  · exact fun g hg => by simp [DevInfo.complete, hw, Worker.todo] at hg
  · exact hk.todoNodup
  · exact hk.finishOnce
  · exact hk.finishFreed
  · exact fun m hm => complete_chunk hhook (hk.chunk m hm)
  · intro g hg
    by_cases hgh : g = h
    · exact .inr (.inl (hgh ▸ List.mem_cons_self))
    · rcases hk.taken g hg with hl | hr | hone
      · exact .inl ((List.mem_erase_of_ne hgh).2 hl)
      · exact .inr (.inl (List.mem_cons_of_mem _ hr))
      · exact .inr (.inr hone)

private theorem HooksKept.snapshotReadEndIo (hk : HooksKept info) (hready : info.ready = true)
    (hhook : info.hooks h = some hook) (hopen : hook.completed = false) :
    HooksKept (snapshotReadEndIo info h hook) := by
  simp only [Kernel.snapshotReadEndIo, hready, Bool.not_true, Bool.false_eq_true, if_false]
  split
  · rename_i hsw
    have hw : info.worker = .running := by
      by_contra hw
      simp [hk.switch.2 hw] at hsw
    exact hk.completeMove hhook hopen hw
  · rename_i hsw
    exact hk.complete hhook (hk.switch.1 (by simpa using hsw))

/-! ### The upload -/

private theorem HooksKept.nodup_locked (hk : HooksKept info) : info.locked.Nodup :=
  (List.nodup_append.1 (List.nodup_append.1 hk.nodup).1).1

private theorem HooksKept.uploadStart (hk : HooksKept info) : HooksKept (uploadStart info) := by
  have hd : HooksKept { info with releases := [], freed := info.releases ++ info.freed, taken := [] } :=
    hk.drop (fun _ hg => List.mem_append_right _ hg) (List.Perm.refl _)
  exact {
    nodup := hd.nodup
    known := hd.known
    ended := hd.ended
    lockedOpen := nofun
    switch := by simp [Kernel.uploadStart]
    todo := fun g hg => ⟨hg, List.not_mem_nil⟩
    todoNodup := hk.nodup_locked
    finishOnce := hd.finishOnce
    finishFreed := hd.finishFreed
    chunk := hd.chunk
    taken := nofun }

private theorem HooksKept.advance (hk : HooksKept info) {todo : List Nat} (hw : info.worker = .uploading (h :: todo)) :
    HooksKept { info with worker := .uploading todo } where
  nodup := hk.nodup
  known := hk.known
  ended := hk.ended
  lockedOpen := nofun
  switch := by simpa [hw] using hk.switch
  todo g hg := hk.todo g (by simp [hw, Worker.todo] at hg ⊢; exact .inr hg)
  todoNodup := by
    have := hk.todoNodup
    rw [hw] at this
    exact (List.nodup_cons.1 this).2
  finishOnce := hk.finishOnce
  finishFreed := hk.finishFreed
  chunk := hk.chunk
  taken := hk.taken

/-- An entry of `locked` whose lock is not uploaded is freed, or its lock is uploaded. -/
private theorem HooksKept.uploadNext (hk : HooksKept info) {todo : List Nat} (hw : info.worker = .uploading (h :: todo))
    (sent : Bool) : HooksKept (uploadNext info h todo sent) := by
  have ha := hk.advance hw
  have hnodup : h ∉ todo := by
    have := hk.todoNodup
    rw [hw] at this
    exact (List.nodup_cons.1 this).1
  have hne : ∀ g ∈ todo, g ≠ h := fun g hg he => hnodup (he ▸ hg)
  obtain ⟨hl, ht⟩ := hk.todo h (by simp [hw, Worker.todo])
  simp only [Kernel.uploadNext]
  split
  · rename_i hc
    have hr : info.releases.erase h = info.releases := List.erase_of_not_mem fun hr => hk.off_locked hr hl
    have hperm : (info.locked.erase h ++ info.releases.erase h ++ h :: info.freed).Perm info.listed := by
      rw [hr]
      refine List.perm_middle.trans ?_
      have := (List.perm_cons_erase hl).symm.append_right (info.releases ++ info.freed)
      simpa [DevInfo.listed] using this
    constructor
    · exact hperm.nodup_iff.2 hk.nodup
    · exact fun g => hperm.mem_iff.trans (hk.known g)
    · intro g hg hnl
      by_cases hgh : g = h
      · exact hgh ▸ hc
      · exact hk.ended g (hperm.mem_iff.1 hg) fun hl => hnl ((List.mem_erase_of_ne hgh).2 hl)
    · intro hrun
      cases hrun
    · exact ha.switch
    · exact fun g hg => ⟨(List.mem_erase_of_ne (hne g hg)).2 (ha.todo g hg).1, (ha.todo g hg).2⟩
    · exact ha.todoNodup
    · exact hk.finishOnce
    · exact fun g hg => List.mem_cons_of_mem _ (hk.finishFreed g hg)
    · exact hk.chunk
    · intro g hg
      have hgh : g ≠ h := fun he => ht (he ▸ hg)
      rcases hk.taken g hg with hl | hr' | hone
      · exact .inl ((List.mem_erase_of_ne hgh).2 hl)
      · exact .inr (.inl ((List.mem_erase_of_ne hgh).2 hr'))
      · exact .inr (.inr hone)
  · cases sent with
    | false => exact ha
    | true =>
      exact {
        nodup := ha.nodup
        known := ha.known
        ended := ha.ended
        lockedOpen := ha.lockedOpen
        switch := ha.switch
        todo := fun g hg => ⟨(ha.todo g hg).1, fun hm =>
          (List.mem_cons.1 hm).elim (hne g hg) (ha.todo g hg).2⟩
        todoNodup := ha.todoNodup
        finishOnce := ha.finishOnce
        finishFreed := ha.finishFreed
        chunk := ha.chunk
        taken := fun g hg => by
          rcases List.mem_cons.1 hg with rfl | hg
          · exact .inl hl
          · exact ha.taken g hg }

private theorem uploadEnd_eq (hg : Guarded info .uploadEnd) :
    uploadEnd info = { info with
      locked := info.locked.filter fun h => !info.completed h
      releases := (info.locked.filter info.completed).reverse ++ info.releases
      dontSwitchLists := false
      worker := .running } := by
  simp only [uploadEnd]
  split
  · rfl
  · rename_i hready
    have hopen := hg.resolve_left hready
    have h1 : info.locked.filter (fun h => !info.completed h) = info.locked :=
      List.filter_eq_self.2 fun g hg => by simp [hopen g hg]
    have h2 : info.locked.filter info.completed = [] := List.filter_eq_nil_iff.2 fun g hg => by simp [hopen g hg]
    rw [h1, h2]
    rfl

private theorem HooksKept.uploadEnd (hk : HooksKept info) (hg : Guarded info .uploadEnd) : HooksKept
    (uploadEnd info) := by
  rw [uploadEnd_eq hg]
  have hperm : (info.locked.filter (fun h => !info.completed h)
      ++ ((info.locked.filter info.completed).reverse ++ info.releases) ++ info.freed).Perm info.listed := by
    have h1 := List.filter_append_perm info.completed info.locked
    have h2 := (List.perm_append_comm.trans (((List.reverse_perm _).append_right _).trans h1)).append_right
      (info.releases ++ info.freed)
    simpa [DevInfo.listed, List.append_assoc] using h2
  constructor
  · exact hperm.nodup_iff.2 hk.nodup
  · exact fun g => hperm.mem_iff.trans (hk.known g)
  · intro g hg hnl
    by_cases hl : g ∈ info.locked
    · cases hc : info.completed g with
      | true => exact hc
      | false => exact absurd (List.mem_filter.2 ⟨hl, by simp [hc]⟩) hnl
    · exact hk.ended g (hperm.mem_iff.1 hg) hl
  · intro _ g hg
    have hc : info.completed g = false := by simpa using (List.mem_filter.1 hg).2
    exact hc
  · simp
  · exact nofun
  · exact List.nodup_nil
  · exact hk.finishOnce
  · exact hk.finishFreed
  · exact hk.chunk
  · intro g hg
    rcases hk.taken g hg with hl | hr | hone
    · cases hc : info.completed g with
      | true => exact .inr (.inl (by simp [hl, hc]))
      | false => exact .inl (List.mem_filter.2 ⟨hl, by simp [hc]⟩)
    · exact .inr (.inl (List.mem_append_right _ hr))
    · exact .inr (.inr hone)

/-! ### Every run -/

private theorem HooksKept.step (hk : HooksKept info) {e : Event} (hok : Guarded info e)
    (hs : step info e = some info') : HooksKept info' := by
  cases e with
  | flags ready recover finish =>
    cases hs
    exact hk.same ⟨rfl, rfl, rfl, rfl, rfl, rfl, rfl, rfl, rfl⟩
  | map wasReady bio =>
    obtain ⟨-, he⟩ := Option.ite_none_left_eq_some.1 hs
    cases he
    exact hk.same (ddsnapMap_hooks wasReady bio)
  | send =>
    obtain ⟨-, he⟩ := Option.ite_none_right_eq_some.1 hs
    cases he
    exact hk.same sendQuery_hooks
  | reply id chunks write snap failedIo =>
    obtain ⟨-, he⟩ := Option.ite_none_right_eq_some.1 hs
    cases he
    exact hk.same (repliedRw_hooks id chunks write snap failedIo)
  | requeue =>
    obtain ⟨-, he⟩ := Option.ite_none_right_eq_some.1 hs
    cases he
    exact hk.same ⟨rfl, rfl, rfl, rfl, rfl, rfl, rfl, rfl, rfl⟩
  | flushPending =>
    cases hs
    exact hk.same ⟨rfl, rfl, rfl, rfl, rfl, rfl, rfl, rfl, rfl⟩
  | flushReleases =>
    cases hs
    exact hk.flushReleases
  | hook n =>
    obtain ⟨bio, -, hs⟩ := Option.bind_eq_some_iff.1 hs
    obtain ⟨hnew, he⟩ := Option.ite_none_right_eq_some.1 hs
    cases he
    exact hk.hookRead bio hnew
  | endIo n =>
    obtain ⟨hook, hhook, hs⟩ := Option.bind_eq_some_iff.1 hs
    obtain ⟨hopen, he⟩ := Option.ite_none_left_eq_some.1 hs
    cases he
    exact hk.snapshotReadEndIo hok hhook (by simpa using hopen)
  | release sent =>
    obtain ⟨-, he⟩ := Option.ite_none_right_eq_some.1 hs
    cases he
    exact hk.sendRelease sent
  | uploadStart =>
    obtain ⟨-, he⟩ := Option.ite_none_right_eq_some.1 hs
    cases he
    exact hk.uploadStart
  | uploadNext sent =>
    simp only [Kernel.step] at hs
    split at hs
    · rename_i h todo hw
      cases hs
      exact hk.uploadNext hw sent
    · cases hs
  | uploadEnd =>
    simp only [Kernel.step] at hs
    split at hs
    · cases hs
      exact hk.uploadEnd hok
    · cases hs

private theorem start_hooksKept (isSnapshot : Bool) (chunkshift : Nat) : HooksKept (start isSnapshot chunkshift) where
  nodup := List.nodup_nil
  known g := by simp [DevInfo.listed, start]
  ended := nofun
  lockedOpen := nofun
  switch := by simp [start]
  todo := nofun
  todoNodup := List.nodup_nil
  finishOnce g := by simp [DevInfo.finishesOf, start]
  finishFreed g hg := absurd rfl hg
  chunk := nofun
  taken := nofun

/-- In every run in which the target is ready whenever a hooked read ends, and every upload ends with a ready worker or
without a read that ended during it, the hooks are released properly. -/
theorem hooks_released (h : Reach.Run step Guarded Fresh info) : Released info := by
  have hk : HooksKept info := h.invariant
    (by
      rintro s ⟨isSnapshot, chunkshift, rfl⟩
      exact start_hooksKept isSnapshot chunkshift)
    (fun s e s' hs hok hst => hs.step hok hst)
  exact hk.released

private theorem start_run {ok : DevInfo → Event → Prop} (isSnapshot : Bool) (chunkshift : Nat) :
    Reach.Run step ok Fresh (start isSnapshot chunkshift) := .start ⟨isSnapshot, chunkshift, rfl⟩

/-- Two reads of the origin: the lock of the first one is uploaded to a new server before it ends, the second one is
released on the same connection. -/
def twoReads : List Event :=
  [.flags true false false, .map true ⟨0, 8, false⟩, .map true ⟨1, 24, false⟩, .send, .reply 0 1 false false false,
    .hook 0, .flags true true false, .uploadStart, .uploadNext true, .uploadEnd, .flags true false false, .send,
    .reply 1 1 false false false, .hook 1, .endIo 1, .endIo 0, .release true]

def twoReadsEnd : DevInfo := (Reach.exec step Guarded (start true 3) twoReads).getD (start true 3)

theorem twoReadsEnd_released :
    (twoReadsEnd.releases = [0] ∧ twoReadsEnd.finishes = [(1, 3)] ∧ twoReadsEnd.freed = [1]) ∧ Released twoReadsEnd :=
  ⟨by decide +kernel, hooks_released ((start_run true 3).exec_getD twoReads)⟩

/-- A read of the origin is hooked, the agent fails, and the read ends. -/
def agentFailure : List Event :=
  [.flags true false false, .map true ⟨0, 8, false⟩, .send, .reply 0 1 false false false, .hook 0,
    .flags false false false, .flushPending, .flushReleases, .endIo 0]

/-- The hook is freed while it is on `locked`. -/
theorem freed_on_locked :
    ∃ info, Reach.Run step (fun _ _ => True) Fresh info ∧ info.freed = [0] ∧ info.locked = [0] ∧ ¬Released info := by
  refine ⟨(Reach.exec step (fun _ _ => True) (start true 3) agentFailure).getD (start true 3),
    (start_run true 3).exec_getD _, by decide +kernel, by decide +kernel, fun h => ?_⟩
  exact (h.unlisted 0 (by decide +kernel)).1 (by decide +kernel)

end Ddsnap.Kernel
