import Ddsnap.FailedUnique
import Ddsnap.StoreCalls
import Mathlib.Data.Prod.Lex

/-!
# Automatic removal of snapshots

`find_victim` and `find_unused` scan the snapshot list and keep the best entry so far.  Both scans are a search for the
first minimum of a key: live before squashed, unused before used, then the lower priority (`findVictim_min`,
`findUnused_min`).  Use comes before priority, and only afterwards `auto_delete_snapshot` looks for priority 127, which
`create_snapshot` does not do at all (`honoursPriority_iff`).  A full list is the only case in which a refused
`create_snapshot` has changed anything (`refused_creation_iff`).
-/

namespace Ddsnap

variable {D : Type} {sb sb' : Sb D}

/-! ### The scans -/

section
variable {κ : Type} [LinearOrder κ] {skip : Snapshot → Snapshot → Bool} {key : Snapshot → κ}

/-- A scan that skips the entries whose key is not smaller ends at a minimum. -/
private theorem bestSlot_min (hskip : ∀ snap best, skip snap best = true ↔ key best ≤ key snap) :
    ∀ e ∈ sb.entries, key (sb.image.snaplist (bestSlot sb skip)) ≤ key e := by
  have hfold : ∀ (l : List Nat) (best : Nat),
      let last := l.foldl (fun best i => if skip (sb.image.snaplist i) (sb.image.snaplist best) then best else i) best
      key (sb.image.snaplist last) ≤ key (sb.image.snaplist best) ∧
        ∀ i ∈ l, key (sb.image.snaplist last) ≤ key (sb.image.snaplist i) := by
    intro l
    induction l with
    | nil => exact fun best => ⟨le_refl _, by simp⟩
    | cons i l ih =>
      intro best
      dsimp only
      rw [List.foldl_cons, List.forall_mem_cons]
      split_ifs with hs
      · obtain ⟨hbest, hl⟩ := ih best
        exact ⟨hbest, hbest.trans ((hskip _ _).1 hs), hl⟩
      · obtain ⟨hi, hl⟩ := ih i
        have hlt : key (sb.image.snaplist i) < key (sb.image.snaplist best) :=
          lt_of_not_ge fun hle => hs ((hskip _ _).2 hle)
        exact ⟨hi.trans hlt.le, hi, hl⟩
  intro e he
  obtain ⟨i, hi, rfl⟩ := List.mem_map.1 he
  obtain ⟨h0, hl⟩ := hfold ((List.range sb.image.snapshots).drop 1) 0
  cases i with
  | zero => exact h0
  | succ i =>
    refine hl (i + 1) ?_
    rw [List.mem_range] at hi
    refine List.mem_iff_getElem?.2 ⟨i, ?_⟩
    rw [List.getElem?_drop, Nat.add_comm, List.getElem?_range hi]

end

/-- Unused snapshots come first, then the order is that of the priorities. -/
def unusedKey (sb : Sb D) (snap : Snapshot) : Nat ×ₗ Int :=
  toLex (if usecount sb snap = 0 then 0 else 1, snap.prio)

/-- Squashed snapshots come last. -/
def victimKey (sb : Sb D) (snap : Snapshot) : Nat ×ₗ Int := if isSquashed snap then toLex (2, 0) else unusedKey sb snap

private theorem unusedKey_le (a b : Snapshot) : unusedKey sb a ≤ unusedKey sb b ↔
    (usecount sb a = 0 ∧ usecount sb b ≠ 0) ∨ ((usecount sb a = 0 ↔ usecount sb b = 0) ∧ a.prio ≤ b.prio) := by
  rw [unusedKey, unusedKey, Prod.Lex.toLex_le_toLex]
  by_cases ha : usecount sb a = 0 <;> by_cases hb : usecount sb b = 0 <;> simp [ha, hb]

private theorem victimKey_le (a b : Snapshot) : victimKey sb a ≤ victimKey sb b ↔
    isSquashed b = true ∨ isSquashed a = false ∧ unusedKey sb a ≤ unusedKey sb b := by
  have hlt : ∀ snap, unusedKey sb snap < toLex (2, 0) := by
    intro snap
    rw [unusedKey, Prod.Lex.toLex_lt_toLex]
    refine .inl ?_
    dsimp only
    split_ifs <;> omega
  unfold victimKey
  cases ha : isSquashed a <;> cases hb : isSquashed b <;> simp [(hlt _).le, hlt]

private theorem findVictim_min (sb : Sb D) :
    ∀ e ∈ sb.entries, victimKey sb (sb.image.snaplist (findVictim sb)) ≤ victimKey sb e := by
  refine bestSlot_min fun snap best => ?_
  rw [victimKey_le, unusedKey_le]
  by_cases hs : usecount sb snap = 0 <;> by_cases hb : usecount sb best = 0 <;> cases isSquashed snap <;>
    cases isSquashed best <;> simp [hs, hb]

private theorem findUnused_min (sb : Sb D) :
    ∀ e ∈ sb.entries, unusedKey sb (sb.image.snaplist (findUnused sb)) ≤ unusedKey sb e := by
  refine bestSlot_min fun snap best => ?_
  rw [unusedKey_le]
  by_cases hs : usecount sb snap = 0 <;> by_cases hb : usecount sb best = 0 <;> simp [hs, hb]

/-! ### Priority 127 -/

/-- The slot that `auto_delete_snapshot` deletes or squashes. -/
def autoVictim (sb : Sb D) : Option Nat :=
  if isSquashed (sb.image.snaplist (findVictim sb)) ∨ (sb.image.snaplist (findVictim sb)).prio = 127 then none
  else some (findVictim sb)

/-- The slot that `create_snapshot` deletes. -/
def roomVictim (sb : Sb D) : Option Nat :=
  if maxSnapshots ≤ sb.image.snapshots ∧ usecount sb (sb.image.snaplist (findUnused sb)) = 0 then some (findUnused sb)
  else none

private theorem autoDeleteSnapshot_eq (hn : sb.image.snapshots ≠ 0) : autoDeleteSnapshot sb =
    (autoVictim sb).elim (some (false, recountFree sb)) fun i =>
      (if usecount sb (sb.image.snaplist i) ≠ 0 then squashSnap sb i else deleteSnap sb i).map
        fun sb => (true, sb) := by
  unfold autoDeleteSnapshot autoVictim
  rw [if_neg hn]
  dsimp only
  by_cases hv : isSquashed (sb.image.snaplist (findVictim sb)) = true ∨ (sb.image.snaplist (findVictim sb)).prio = 127
  · rw [if_pos hv, if_pos hv]
    rfl
  · rw [if_neg hv, if_neg hv]
    rfl

private theorem makeRoom_eq : makeRoom sb = (roomVictim sb).elim (some sb) (deleteSnap sb) := by
  unfold makeRoom roomVictim
  split_ifs <;> rfl

/-- A snapshot that may be removed: it is live and its priority is not 127. -/
def Removable (e : Snapshot) : Prop := isSquashed e = false ∧ e.prio ≠ 127

instance (e : Snapshot) : Decidable (Removable e) := inferInstanceAs (Decidable (_ ∧ _))

/-- No automatic removal takes a snapshot of priority 127, and `auto_delete_snapshot` takes a removable snapshot if
there is one. -/
structure HonoursPriority (sb : Sb D) : Prop where
  auto : ∀ i ∈ autoVictim sb, (sb.image.snaplist i).prio ≠ 127
  room : ∀ i ∈ roomVictim sb, (sb.image.snaplist i).prio ≠ 127
  eager : (∃ e ∈ sb.entries, Removable e) →
    ∃ i ∈ autoVictim sb, i < sb.image.snapshots ∧ Removable (sb.image.snaplist i)

private theorem autoVictim_some {i : Nat} (h : i ∈ autoVictim sb) : i = findVictim sb ∧ Removable
    (sb.image.snaplist i) := by
  unfold autoVictim at h
  split_ifs at h with hv
  · cases h
  · cases h
    exact ⟨rfl, by simpa using fun e => hv (.inl e), fun e => hv (.inr e)⟩

private theorem roomVictim_some {i : Nat} (h : i ∈ roomVictim sb) : i = findUnused sb ∧
    maxSnapshots ≤ sb.image.snapshots ∧ usecount sb (sb.image.snaplist i) = 0 := by
  unfold roomVictim at h
  split_ifs at h with hv
  · cases h
    exact ⟨rfl, hv⟩
  · cases h

/-- `auto_delete_snapshot` finds a removable snapshot exactly when not all of them are in use beside an unused live
snapshot of priority 127. -/
private theorem autoVictim_isSome_iff (hprio : ∀ e ∈ sb.entries, e.prio ≤ 127) (hex : ∃ e ∈ sb.entries, Removable e) :
    (∃ i ∈ autoVictim sb, i < sb.image.snapshots ∧ Removable (sb.image.snaplist i)) ↔
      (∃ e ∈ sb.entries, Removable e ∧ usecount sb e = 0) ∨
        ∀ e ∈ sb.entries, isSquashed e = false → usecount sb e = 0 → e.prio ≠ 127 := by
  obtain ⟨e0, he0, hr0⟩ := hex
  have hn : sb.image.snapshots ≠ 0 := by
    rintro hn
    rw [Sb.entries, hn] at he0
    simp at he0
  have hlt : findVictim sb < sb.image.snapshots := bestSlot_lt _ hn
  have hmin := findVictim_min sb
  generalize hv : sb.image.snaplist (findVictim sb) = v at hmin
  have hvmem : v ∈ sb.entries := hv ▸ snaplist_mem_entries hlt
  -- The victim is live, since there is a live snapshot.
  have hvlive : isSquashed v = false := by
    rcases (victimKey_le v e0).1 (hmin e0 he0) with h | h
    · rw [hr0.1] at h; cases h
    · exact h.1
  have hle : ∀ e ∈ sb.entries, isSquashed e = false → unusedKey sb v ≤ unusedKey sb e := by
    intro e he hl
    rcases (victimKey_le v e).1 (hmin e he) with h | h
    · rw [hl] at h; cases h
    · exact h.2
  have hfound : (∃ i ∈ autoVictim sb, i < sb.image.snapshots ∧ Removable (sb.image.snaplist i)) ↔ v.prio ≠ 127 := by
    constructor
    · rintro ⟨i, hi, -, -⟩
      obtain ⟨rfl, hr⟩ := autoVictim_some hi
      exact hv ▸ hr.2
    · intro hne
      refine ⟨findVictim sb, ?_, hlt, hv.symm ▸ hvlive, hv.symm ▸ hne⟩
      rw [autoVictim, hv, if_neg (by simp [hvlive, hne])]
      rfl
  rw [hfound]
  constructor
  · intro hne
    by_cases hu : usecount sb v = 0
    · exact .inl ⟨v, hvmem, ⟨hvlive, hne⟩, hu⟩
    · refine .inr fun e he hl hue => ?_
      rcases (unusedKey_le v e).1 (hle e he hl) with h | h
      · exact absurd h.1 hu
      · exact absurd (h.1.2 hue) hu
  · rintro (⟨e, he, hr, hue⟩ | hall) h127
    · have hlow := hprio e he
      have hne := hr.2
      rcases (unusedKey_le v e).1 (hle e he hr.1) with h | h
      · exact h.2 hue
      · omega
    · have hu : usecount sb v ≠ 0 := fun hu => hall v hvmem hvlive hu h127
      have hlow := hprio e0 he0
      have hne := hr0.2
      rcases (unusedKey_le v e0).1 (hle e0 he0 hr0.1) with h | h
      · exact hu h.1
      · omega

/-- `create_snapshot` spares priority 127 exactly when a full list with unused snapshots has one of another priority
among them. -/
private theorem roomVictim_spares_iff (hprio : ∀ e ∈ sb.entries, e.prio ≤ 127) :
    (∀ i ∈ roomVictim sb, (sb.image.snaplist i).prio ≠ 127) ↔
      (maxSnapshots ≤ sb.image.snapshots → (∃ e ∈ sb.entries, usecount sb e = 0) →
        ∃ e ∈ sb.entries, usecount sb e = 0 ∧ e.prio ≠ 127) := by
  have hmin := findUnused_min sb
  constructor
  · rintro h hfull ⟨e, he, hue⟩
    have hn : sb.image.snapshots ≠ 0 := by rw [maxSnapshots] at hfull; omega
    have hlt : findUnused sb < sb.image.snapshots := bestSlot_lt _ hn
    have hu : usecount sb (sb.image.snaplist (findUnused sb)) = 0 := by
      rcases (unusedKey_le _ e).1 (hmin e he) with h | h
      · exact h.1
      · exact h.1.2 hue
    refine ⟨_, snaplist_mem_entries hlt, hu, h (findUnused sb) ?_⟩
    rw [roomVictim, if_pos ⟨hfull, hu⟩]
    rfl
  · rintro h i hi h127
    obtain ⟨rfl, hfull, hu⟩ := roomVictim_some hi
    have hn : sb.image.snapshots ≠ 0 := by rw [maxSnapshots] at hfull; omega
    have hlt : findUnused sb < sb.image.snapshots := bestSlot_lt _ hn
    obtain ⟨e, he, hue, hne⟩ := h hfull ⟨_, snaplist_mem_entries hlt, hu⟩
    have hlow := hprio e he
    rcases (unusedKey_le _ e).1 (hmin e he) with h | h
    · exact h.2 hue
    · omega

/-- Which snapshots the automatic removals take, and when they honour priority 127. -/
theorem honoursPriority_iff (sb : Sb D) (hprio : ∀ e ∈ sb.entries, e.prio ≤ 127) :
    (sb.image.snapshots ≠ 0 → autoDeleteSnapshot sb =
      (autoVictim sb).elim (some (false, recountFree sb)) fun i =>
        (if usecount sb (sb.image.snaplist i) ≠ 0 then squashSnap sb i else deleteSnap sb i).map fun sb => (true, sb)) ∧
    makeRoom sb = (roomVictim sb).elim (some sb) (deleteSnap sb) ∧
    (HonoursPriority sb ↔
      ((∃ e ∈ sb.entries, Removable e) → (∃ e ∈ sb.entries, Removable e ∧ usecount sb e = 0) ∨
        ∀ e ∈ sb.entries, isSquashed e = false → usecount sb e = 0 → e.prio ≠ 127) ∧
      (maxSnapshots ≤ sb.image.snapshots → (∃ e ∈ sb.entries, usecount sb e = 0) →
        ∃ e ∈ sb.entries, usecount sb e = 0 ∧ e.prio ≠ 127)) := by
  refine ⟨autoDeleteSnapshot_eq, makeRoom_eq, fun h => ⟨fun hex => ?_, (roomVictim_spares_iff hprio).1 h.room⟩,
    fun h => ⟨fun i hi => (autoVictim_some hi).2.2, (roomVictim_spares_iff hprio).2 h.2, fun hex => ?_⟩⟩
  · exact (autoVictim_isSome_iff hprio hex).1 (h.eager hex)
  · exact (autoVictim_isSome_iff hprio hex).2 (h.1 hex)

/-- The small store with a list of snapshots. -/
def listStore (entries : List Snapshot) : Sb Nat :=
  { smallStore 4 false with
    image := { (smallStore 4 false).image with
      snaplist := fun i => entries.getD i ⟨0, 0, 0, 0, 0⟩
      snapshots := entries.length } }

theorem honoursPriority_unused : HonoursPriority (listStore [⟨1, 0, 0, 127, 0⟩, ⟨2, 1, 1, 0, 0⟩, ⟨3, 0, 2, 5, 0⟩]) :=
  (honoursPriority_iff (listStore [⟨1, 0, 0, 127, 0⟩, ⟨2, 1, 1, 0, 0⟩, ⟨3, 0, 2, 5, 0⟩])
    (by decide +kernel)).2.2.2 (by decide +kernel)

/-- Snapshot 1 is in use and has priority 0, snapshot 2 is unused and has priority 127: `auto_delete_snapshot` gives up.
And on a full list of unused snapshots of priority 127 `create_snapshot` deletes the first. -/
theorem priority_dishonoured :
    autoVictim (listStore [⟨1, 1, 0, 0, 0⟩, ⟨2, 0, 1, 127, 0⟩]) = none ∧
    ¬ HonoursPriority (listStore [⟨1, 1, 0, 0, 0⟩, ⟨2, 0, 1, 127, 0⟩]) ∧
    roomVictim (listStore ((List.range 64).map fun i => ⟨i, 0, i, 127, 0⟩)) = some 0 ∧
    ¬ HonoursPriority (listStore ((List.range 64).map fun i => ⟨i, 0, i, 127, 0⟩)) := by
  have hauto : autoVictim (listStore [⟨1, 1, 0, 0, 0⟩, ⟨2, 0, 1, 127, 0⟩]) = none := by decide +kernel
  have hroom : roomVictim (listStore ((List.range 64).map fun i => ⟨i, 0, i, 127, 0⟩)) = some 0 := by decide +kernel
  refine ⟨hauto, fun h => ?_, hroom, fun h => h.room 0 hroom (by decide +kernel)⟩
  obtain ⟨i, hi, -⟩ := h.eager (by decide +kernel)
  rw [hauto] at hi
  cases hi

/-! ### Refused creations -/

/-- The list, the mask, the lookups in the tree, the allocated chunks and the free counters are the same. -/
structure SameStore (sb sb' : Sb D) : Prop extends Unchanged sb sb' where
  list : sb'.entries = sb.entries
  mask : sb'.snapmask = sb.snapmask

/-- The mask after the deletion of a snapshot. -/
def maskWithout (sb : Sb D) (i : Nat) : Mask :=
  if isSquashed (sb.image.snaplist i) then sb.snapmask else sb.snapmask &&& ~~~(maskBit (sb.image.snaplist i).bit)

private theorem deleteSnap_list {i : Nat} (hi : i < sb.image.snapshots) (h : deleteSnap sb i = some sb') :
    sb'.entries = sb.entries.eraseIdx i ∧ sb'.snapmask = maskWithout sb i := by
  unfold deleteSnap at h
  dsimp only at h
  unfold maskWithout
  split_ifs at h with hsq
  · cases h
    exact ⟨entries_removeSlot hi, by rw [if_pos hsq]; rfl⟩
  · obtain ⟨sb1, h1, h2⟩ := Option.bind_eq_some_iff.1 h
    obtain ⟨sb2, hf, rfl⟩ := deleteTreeRange_cases h2
    have hsame := ((frame_commitDeferredAllocs h1).trans hf).sameSnaps
    refine ⟨hsame.entries.trans (entries_removeSlot hi), ?_⟩
    rw [if_neg hsq]
    exact congrArg (· &&& _) hsame.snapmask

private theorem mem_eraseIdx_entries {v : Nat} {e : Snapshot} :
    e ∈ sb.entries.eraseIdx v ↔ ∃ i < sb.image.snapshots, i ≠ v ∧ sb.image.snaplist i = e := by
  rw [List.mem_eraseIdx_iff_getElem?]
  constructor
  · rintro ⟨i, hne, h⟩
    obtain ⟨hi, rfl⟩ := List.getElem?_eq_some_iff.1 h
    simp only [Sb.entries, List.length_map, List.length_range] at hi
    exact ⟨i, hi, hne, by simp [Sb.entries]⟩
  · rintro ⟨i, hi, hne, rfl⟩
    exact ⟨i, hne, by simp [Sb.entries, hi]⟩

private theorem createSnapshot_refused {tag : Nat} {sb1 : Sb D} (hroom : makeRoom sb = some sb1) :
    createSnapshot sb tag = some (none, sb') ↔ sb' = sb1 ∧
      (maxSnapshots ≤ sb1.entries.length ∨ (∃ e ∈ sb1.entries, e.tag = tag) ∨ freeBit sb1.snapmask = none) := by
  have hlen : sb1.entries.length = sb1.image.snapshots := by simp [Sb.entries]
  have htag : (findSnap sb1 tag).isSome = true ↔ ∃ e ∈ sb1.entries, e.tag = tag := by
    rw [Option.isSome_iff_ne_none, ne_eq, findSnap_eq_none, not_not, List.mem_map]
  unfold createSnapshot
  rw [hroom, Option.bind_eq_bind, Option.bind_some, hlen, ← htag]
  have hdone : some ((none : Option Nat), sb1) = some (none, sb') ↔ sb' = sb1 := by simp [eq_comm]
  split_ifs with hfull hused
  · exact hdone.trans (and_iff_left (.inl hfull)).symm
  · exact hdone.trans (and_iff_left (.inr (.inl hused))).symm
  · cases hb : freeBit sb1.snapmask with
    | none => exact hdone.trans (and_iff_left (.inr (.inr rfl))).symm
    | some bit => simp [hfull, hused]

/-- A refused `create_snapshot` has changed nothing, unless it has deleted a snapshot of a full list and then found the
list still full, the tag in use by another snapshot or no free bit. -/
theorem refused_creation_iff (sb : Sb D) (tag : Nat) (hdel : (makeRoom sb).isSome = true) :
    (∀ sb', createSnapshot sb tag = some (none, sb') → SameStore sb sb') ↔
      ∀ v ∈ roomVictim sb, sb.image.snapshots ≤ maxSnapshots ∧
        (∀ i < sb.image.snapshots, i ≠ v → (sb.image.snaplist i).tag ≠ tag) ∧ freeBit (maskWithout sb v) ≠ none := by
  obtain ⟨sb1, hsb1⟩ := Option.isSome_iff_exists.1 hdel
  simp only [createSnapshot_refused hsb1]
  rw [makeRoom_eq] at hsb1
  cases hv : roomVictim sb with
  | none =>
    rw [hv] at hsb1
    cases hsb1
    simp only [Option.mem_def, reduceCtorEq, false_implies, implies_true, iff_true]
    rintro _ ⟨rfl, -⟩
    exact ⟨⟨fun _ _ => rfl, fun _ _ => rfl, fun _ => rfl⟩, rfl, rfl⟩
  | some v =>
    rw [hv] at hsb1
    obtain ⟨rfl, hfull, -⟩ := roomVictim_some hv
    have hn : sb.image.snapshots ≠ 0 := by rw [maxSnapshots] at hfull; omega
    have hlt : findUnused sb < sb.image.snapshots := bestSlot_lt _ hn
    obtain ⟨hlist, hmask⟩ := deleteSnap_list hlt hsb1
    have hlen : sb1.entries.length = sb.image.snapshots - 1 := by
      rw [hlist, List.length_eraseIdx, Sb.entries, List.length_map, List.length_range, if_pos hlt]
    have htags : (∃ e ∈ sb1.entries, e.tag = tag) ↔
        ∃ i < sb.image.snapshots, i ≠ findUnused sb ∧ (sb.image.snaplist i).tag = tag := by
      simp only [hlist, mem_eraseIdx_entries]
      constructor
      · rintro ⟨_, ⟨i, hi, hne, rfl⟩, ht⟩
        exact ⟨i, hi, hne, ht⟩
      · rintro ⟨i, hi, hne, ht⟩
        exact ⟨_, ⟨i, hi, hne, rfl⟩, ht⟩
    have hother : ¬ SameStore sb sb1 := by
      intro hs
      have := congrArg List.length hs.list
      rw [hlen, Sb.entries, List.length_map, List.length_range] at this
      omega
    simp only [Option.mem_def, Option.some.injEq, forall_eq', hmask, hlen, htags]
    constructor
    · intro h
      refine ⟨?_, fun i hi hne he => ?_, fun hnone => ?_⟩
      · by_contra hlt
        exact hother (h sb1 ⟨rfl, .inl (by omega)⟩)
      · exact hother (h sb1 ⟨rfl, .inr (.inl ⟨i, hi, hne, he⟩)⟩)
      · exact hother (h sb1 ⟨rfl, .inr (.inr hnone)⟩)
    · rintro ⟨hle, htag, hbit⟩ sb' ⟨-, h | ⟨i, hi, hne, he⟩ | h⟩
      · rw [maxSnapshots] at hle h hfull
        omega
      · exact absurd he (htag i hi hne)
      · exact absurd h hbit

theorem refused_creation_listed : ∃ sb', createSnapshot (tinyStoreRun.getD tinyStore) 2 = some (none, sb') ∧
    SameStore (tinyStoreRun.getD tinyStore) sb' := by
  have hrun : ((createSnapshot (tinyStoreRun.getD tinyStore) 2).map fun r => r.1) = some none ∧
      (makeRoom (tinyStoreRun.getD tinyStore)).isSome = true ∧ roomVictim (tinyStoreRun.getD tinyStore) = none := by
    decide +kernel
  obtain ⟨hcreate, hdel, hroom⟩ := hrun
  obtain ⟨⟨_, sb'⟩, hsb', rfl⟩ := Option.map_eq_some_iff.1 hcreate
  refine ⟨sb', hsb', (refused_creation_iff _ 2 hdel).2 (fun v hv => ?_) sb' hsb'⟩
  rw [hroom] at hv
  cases hv

/-- A store with 64 snapshots. -/
def fullListRun : Option (Sb Nat) :=
  Reach.exec storeStep (fun _ _ => True) tinyStore
    (((List.range 64).map fun i => .createSnapshot (i + 1)) ++ [.makeUnique 5 none, .finishCopyout])

/-- On a full list the creation of a snapshot with a tag that is in use deletes the first snapshot and is refused. -/
theorem refused_creation_deletes : ∃ sb sb' : Sb Nat,
    Reach.Run storeStep (fun _ _ => True) (StoreInit tinyConfig) sb ∧ createSnapshot sb 3 = some (none, sb') ∧
    sb.entries.map Snapshot.tag = (List.range 64).map (· + 1) ∧
    sb'.entries.map Snapshot.tag = (List.range 63).map (· + 2) ∧ ¬ SameStore sb sb' := by
  have hrun : ((fullListRun.bind fun sb => createSnapshot sb 3).map fun r => (r.1, r.2.entries.map Snapshot.tag)) =
      some (none, (List.range 63).map (· + 2)) ∧
      (fullListRun.map fun sb => sb.entries.map Snapshot.tag) = some ((List.range 64).map (· + 1)) := by
    decide +kernel
  obtain ⟨hcreate, hlist⟩ := hrun
  obtain ⟨sb, hsb, htags⟩ := Option.map_eq_some_iff.1 hlist
  rw [hsb, Option.bind_some] at hcreate
  obtain ⟨⟨ret, sb'⟩, hsb', he⟩ := Option.map_eq_some_iff.1 hcreate
  obtain ⟨rfl, htags'⟩ := Prod.mk.inj he
  refine ⟨sb, sb', (Reach.Run.start tinyStore_init).of_exec _ hsb, hsb', htags, htags', fun hs => ?_⟩
  have hlen := congrArg List.length (congrArg (List.map Snapshot.tag) hs.list)
  rw [htags, htags'] at hlen
  simp at hlen

end Ddsnap
