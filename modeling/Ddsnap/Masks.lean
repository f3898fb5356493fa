import Ddsnap.Leaf

/-!
# Share masks

The share masks of the exceptions of one chunk are disjoint, none of them is empty and all of them are masks of live
snapshots; so every live snapshot either has one exception of the chunk or reads the origin.  Insertion and deletion keep
this, and they change what the snapshots concerned read and nothing else.
-/

namespace Ddsnap

/-! ### Bits -/

/-- A snapshot belongs to a mask. -/
def hasBit (m : Mask) (b : Nat) : Bool := m.getLsbD b

section
variable {m m' : Mask} {b : Nat}

@[simp] theorem hasBit_zero (b : Nat) : hasBit 0#64 b = false := BitVec.getLsbD_zero

@[simp] theorem hasBit_and (m m' : Mask) (b : Nat) : hasBit (m &&& m') b = (hasBit m b && hasBit m' b) :=
  BitVec.getLsbD_and

@[simp] theorem hasBit_or (m m' : Mask) (b : Nat) : hasBit (m ||| m') b = (hasBit m b || hasBit m' b) :=
  BitVec.getLsbD_or

@[simp] theorem hasBit_not (m : Mask) (b : Nat) : hasBit (~~~m) b = (decide (b < 64) && !hasBit m b) :=
  BitVec.getLsbD_not

theorem hasBit_lt (h : hasBit m b = true) : b < 64 := by
  by_contra hge
  rw [hasBit, BitVec.getLsbD_of_ge _ _ (Nat.le_of_not_lt hge)] at h
  cases h

@[simp] theorem hasBit_maskBit (hb : b < 64) (i : Nat) : hasBit (maskBit b) i = decide (i = b) := by
  unfold hasBit maskBit
  rw [BitVec.getLsbD_shiftLeft, BitVec.getLsbD_one]
  by_cases h : i = b
  · subst h
    simp [hb]
  · simp [h]
    omega

theorem mask_eq_zero : m = 0 ↔ ∀ i, hasBit m i = false := by
  constructor
  · rintro rfl i
    exact hasBit_zero i
  · exact fun h => BitVec.eq_of_getLsbD_eq fun i _ => (h i).trans BitVec.getLsbD_zero.symm

theorem mask_ne_zero : m ≠ 0 ↔ ∃ i, hasBit m i = true := by
  rw [ne_eq, mask_eq_zero]
  simp

/-- Two masks are disjoint when no snapshot belongs to both. -/
theorem and_eq_zero : m &&& m' = 0 ↔ ∀ i, hasBit m i = true → hasBit m' i = false := by
  simp only [mask_eq_zero, hasBit_and, Bool.and_eq_false_imp]

/-- A mask lies in another when all its snapshots belong to the other. -/
theorem and_not_eq_zero : m &&& ~~~m' = 0 ↔ ∀ i, hasBit m i = true → hasBit m' i = true := by
  rw [and_eq_zero]
  refine forall_congr' fun i => imp_congr_right fun hi => ?_
  simp [hasBit_lt hi]

/-- A mask meets the mask of one snapshot when it has its bit. -/
theorem and_maskBit_ne (hb : b < 64) : m &&& maskBit b ≠ 0 ↔ hasBit m b = true := by
  rw [mask_ne_zero]
  constructor
  · rintro ⟨i, hi⟩
    rw [hasBit_and, hasBit_maskBit hb, Bool.and_eq_true, decide_eq_true_eq] at hi
    exact hi.2 ▸ hi.1
  · intro h
    exact ⟨b, by simp [hb, h]⟩

theorem sharedBy_cons (p : Exception) (exns : List Exception) : sharedBy (p :: exns) = p.share ||| sharedBy exns := by
  have hfold : ∀ (used : Mask), exns.foldl (fun used p => used ||| p.share) used = used ||| sharedBy exns := by
    unfold sharedBy
    induction exns with
    | nil => simp
    | cons q exns ih =>
      intro used
      rw [List.foldl_cons, List.foldl_cons, ih, ih (0 ||| q.share), BitVec.or_assoc]
      simp
  show exns.foldl _ (0 ||| p.share) = _
  rw [hfold]
  simp

theorem hasBit_sharedBy (exns : List Exception) (i : Nat) :
    hasBit (sharedBy exns) i = true ↔ ∃ p ∈ exns, hasBit p.share i = true := by
  induction exns with
  | nil => simp [sharedBy]
  | cons p exns ih => rw [sharedBy_cons, hasBit_or, Bool.or_eq_true, ih]; simp

end

/-! ### What a snapshot reads -/

/-- The chunk of the exception that a snapshot reads, if it reads one. -/
def storeChunk (bit : Nat) (exns : List Exception) : Option Nat := (findShare (maskBit bit) exns).map Exception.chunk

section
variable {b b' : Nat} {p : Exception} {exns : List Exception}

private theorem storeChunk_cons (hb : b < 64) (p : Exception) (exns : List Exception) :
    storeChunk b (p :: exns) = if hasBit p.share b then some p.chunk else storeChunk b exns := by
  unfold storeChunk findShare
  by_cases h : hasBit p.share b = true
  · rw [List.find?_cons_of_pos (by simpa using (and_maskBit_ne hb).2 h), if_pos h]
    rfl
  · rw [List.find?_cons_of_neg (by simpa using mt (and_maskBit_ne hb).1 h), if_neg h]

theorem storeChunk_eq_none (hb : b < 64) : storeChunk b exns = none ↔ hasBit (sharedBy exns) b = false := by
  induction exns with
  | nil => simp [storeChunk, findShare, sharedBy]
  | cons p exns ih =>
    rw [storeChunk_cons hb, sharedBy_cons, hasBit_or]
    by_cases h : hasBit p.share b = true
    · simp [h]
    · simp [h, ih]

theorem storeChunk_mem {e : Nat} (h : storeChunk b exns = some e) : ∃ p ∈ exns, p.chunk = e := by
  obtain ⟨p, hp, rfl⟩ := Option.map_eq_some_iff.1 h
  exact ⟨p, List.mem_of_find?_eq_some hp, rfl⟩

private theorem storeChunk_clearFirst (hb : b < 64) (hb' : b' < 64) (hne : b' ≠ b) (exns : List Exception) :
    storeChunk b' (clearFirst (maskBit b) exns) = storeChunk b' exns := by
  induction exns with
  | nil => rfl
  | cons p exns ih =>
    unfold clearFirst
    split
    · have hbit : hasBit (p.share &&& ~~~(maskBit b)) b' = hasBit p.share b' := by simp [hb, hb', hne]
      rw [storeChunk_cons hb', storeChunk_cons hb']
      simp only [hbit]
    · rw [storeChunk_cons hb', storeChunk_cons hb', ih]

/-- A new exception of the origin is read by the live snapshots that read the origin before. -/
theorem storeChunk_addOrigin (hb : b < 64) (exns : List Exception) (e : Nat) (active : Mask) :
    storeChunk b (addException exns e none active) =
      if storeChunk b exns = none ∧ hasBit active b = true then some e else storeChunk b exns := by
  show storeChunk b (⟨~~~(sharedBy exns) &&& active, e⟩ :: exns) = _
  simp only [storeChunk_cons hb, storeChunk_eq_none hb]
  by_cases hs : hasBit (sharedBy exns) b = true <;> by_cases ha : hasBit active b = true <;> simp [hs, ha, hb]

/-- A new exception of a snapshot is read by this snapshot. -/
theorem storeChunk_addSnapshot (hb : b < 64) (hb' : b' < 64) (exns : List Exception) (e : Nat) (active : Mask) :
    storeChunk b' (addException exns e (some b) active) = if b' = b then some e else storeChunk b' exns := by
  show storeChunk b' (⟨maskBit b, e⟩ :: clearFirst (maskBit b) exns) = _
  rw [storeChunk_cons hb']
  by_cases h : b' = b
  · subst h; simp [hb]
  · simp [h, hb, storeChunk_clearFirst hb hb' h]

end

/-! ### Disjoint masks of live snapshots -/

/-- The masks of the exceptions of one chunk are not empty, those of live snapshots, and disjoint. -/
structure SharesOk (snapmask : Mask) (exns : List Exception) : Prop where
  nonzero : ∀ p ∈ exns, p.share ≠ 0
  live : ∀ p ∈ exns, p.share &&& ~~~snapmask = 0
  disjoint : exns.Pairwise fun p q => p.share &&& q.share = 0

section
variable {b : Nat} {snapmask active : Mask} {exns : List Exception}

theorem SharesOk.nil : SharesOk snapmask [] := ⟨by simp, by simp, .nil⟩

theorem sharesOk_cons {p : Exception} : SharesOk snapmask (p :: exns) ↔
    p.share ≠ 0 ∧ p.share &&& ~~~snapmask = 0 ∧ p.share &&& sharedBy exns = 0 ∧ SharesOk snapmask exns := by
  have hd : (∀ q ∈ exns, p.share &&& q.share = 0) ↔ p.share &&& sharedBy exns = 0 := by
    simp only [and_eq_zero]
    constructor
    · intro h i hi
      refine Bool.eq_false_iff.2 fun hs => ?_
      obtain ⟨q, hq, hqi⟩ := (hasBit_sharedBy exns i).1 hs
      rw [h q hq i hi] at hqi
      cases hqi
    · intro h q hq i hi
      refine Bool.eq_false_iff.2 fun hqi => ?_
      have := h i hi
      rw [(hasBit_sharedBy exns i).2 ⟨q, hq, hqi⟩] at this
      cases this
  rw [← hd]
  constructor
  · intro h
    obtain ⟨h1, h2⟩ := List.pairwise_cons.1 h.disjoint
    exact ⟨h.nonzero p (by simp), h.live p (by simp), h1, fun q hq => h.nonzero q (by simp [hq]),
      fun q hq => h.live q (by simp [hq]), h2⟩
  · rintro ⟨h1, h2, h3, h4⟩
    refine ⟨?_, ?_, List.pairwise_cons.2 ⟨h3, h4.disjoint⟩⟩
    · simpa using ⟨h1, h4.nonzero⟩
    · simpa using ⟨h2, h4.live⟩

/-- More snapshots may be live. -/
theorem SharesOk.mono (h : SharesOk snapmask exns) (m : Mask) : SharesOk (snapmask ||| m) exns := by
  refine ⟨h.nonzero, fun p hp => and_not_eq_zero.2 fun i hi => ?_, h.disjoint⟩
  rw [hasBit_or, and_not_eq_zero.1 (h.live p hp) i hi, Bool.true_or]

theorem SharesOk.addOrigin (h : SharesOk active exns) (e : Nat) (hu : ~~~(sharedBy exns) &&& active ≠ 0) :
    SharesOk active (addException exns e none active) := by
  refine sharesOk_cons.2 ⟨hu, and_not_eq_zero.2 fun i hi => ?_, and_eq_zero.2 fun i hi => ?_, h⟩
  · rw [hasBit_and, Bool.and_eq_true] at hi
    exact hi.2
  · rw [hasBit_and, hasBit_not, Bool.and_eq_true, Bool.and_eq_true] at hi
    simpa using hi.1.2

/-- The exceptions of a chunk after the bit of a snapshot was cleared in the one it shares with others. -/
private theorem SharesOk.clearFirst (hb : b < 64) (h : SharesOk snapmask exns)
    (hu : ∀ p, findShare (maskBit b) exns = some p → p.share &&& ~~~(maskBit b) ≠ 0) :
    SharesOk snapmask (clearFirst (maskBit b) exns) ∧
      ∀ i, hasBit (sharedBy (clearFirst (maskBit b) exns)) i = (hasBit (sharedBy exns) i && decide (i ≠ b)) := by
  induction exns with
  | nil => exact ⟨h, fun i => by simp [Ddsnap.clearFirst, sharedBy]⟩
  | cons p exns ih =>
    obtain ⟨h1, h2, h3, h4⟩ := sharesOk_cons.1 h
    rw [and_not_eq_zero] at h2
    rw [and_eq_zero] at h3
    unfold Ddsnap.clearFirst
    split
    · rename_i hp
      have hpb : hasBit p.share b = true := (and_maskBit_ne hb).1 hp
      have hne := hu p (by unfold findShare; rw [List.find?_cons_of_pos (by simpa using hp)])
      -- no other exception has the bit
      have hrest := h3 b hpb
      have hbit : ∀ i, hasBit (p.share &&& ~~~(maskBit b)) i = (hasBit p.share i && decide (i ≠ b)) := by
        intro i
        by_cases hi : hasBit p.share i = true
        · simp [hb, hi, hasBit_lt hi]
        · simp [hi]
      refine ⟨sharesOk_cons.2 ⟨hne, and_not_eq_zero.2 fun i hi => h2 i ?_, and_eq_zero.2 fun i hi => h3 i ?_, h4⟩,
        fun i => ?_⟩
      · rw [hbit, Bool.and_eq_true] at hi
        exact hi.1
      · rw [hbit, Bool.and_eq_true] at hi
        exact hi.1
      · rw [sharedBy_cons, sharedBy_cons, hasBit_or, hasBit_or, hbit]
        by_cases hib : i = b
        · subst hib; simp [hrest]
        · simp [hib]
    · rename_i hp
      have hpb : hasBit p.share b = false := Bool.eq_false_iff.2 fun hn => hp ((and_maskBit_ne hb).2 hn)
      obtain ⟨hok, hbits⟩ := ih h4 fun q hq => hu q (by
        unfold findShare at hq ⊢
        rw [List.find?_cons_of_neg (by simpa using hp)]
        exact hq)
      refine ⟨sharesOk_cons.2 ⟨h1, and_not_eq_zero.2 h2, and_eq_zero.2 fun i hi => ?_, hok⟩, fun i => ?_⟩
      · rw [hbits, h3 i hi, Bool.false_and]
      · rw [sharedBy_cons, sharedBy_cons, hasBit_or, hasBit_or, hbits]
        by_cases hib : i = b
        · subst hib; simp [hpb]
        · simp [hib]

theorem SharesOk.addSnapshot (hb : b < 64) (h : SharesOk active exns) (e : Nat) (hlive : hasBit active b = true)
    (hu : ∀ p, findShare (maskBit b) exns = some p → p.share &&& ~~~(maskBit b) ≠ 0) :
    SharesOk active (addException exns e (some b) active) := by
  obtain ⟨hok, hbits⟩ := h.clearFirst hb hu
  refine sharesOk_cons.2 ⟨mask_ne_zero.2 ⟨b, by simp [hb]⟩, and_not_eq_zero.2 fun i hi => ?_, and_eq_zero.2 fun i hi => ?_,
    hok⟩
  · rw [hasBit_maskBit hb, decide_eq_true_eq] at hi
    exact hi ▸ hlive
  · rw [hasBit_maskBit hb, decide_eq_true_eq] at hi
    rw [hbits]
    simp [hi]

end

end Ddsnap
