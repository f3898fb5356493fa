import Ddsnap.Types

/-!
# Editing a leaf of the exception tree

The leaf functions of `ddsnapd.c`.  A leaf maps chunks to lists of exceptions; its size in bytes is what the map
entries (8 bytes), the exceptions (16 bytes), the header (24 bytes) and the phantom entry after the last one take.

A leaf that holds no chunk twice is a function from chunks to lists of exceptions (`exnsAt`), and every leaf function
is described by what it does to this function.
-/

namespace Ddsnap

/-! ### Sizes -/

/-- The number of exceptions of a map. -/
def exceptionCount (map : List EtreeMap) : Nat := (map.map fun m => m.exceptions.length).sum

def leafFreespace (leaf : Eleaf) : Nat :=
  leaf.sentinel - 16 * exceptionCount leaf.map - (24 + 8 * (leaf.map.length + 1))

def leafPayload (leaf : Eleaf) : Nat := 8 * leaf.map.length + 16 * exceptionCount leaf.map

/-! ### Lookup -/

/-- `chunk - leaf->base_chunk` in 64 bits. -/
def target64 (leaf : Eleaf) (chunk : Nat) : Nat := (chunk + (2 ^ 64 - leaf.baseChunk)) % 2 ^ 64

/-- `chunk - leaf->base_chunk` in an `unsigned`. -/
def target32 (leaf : Eleaf) (chunk : Nat) : Nat := target64 leaf chunk % 2 ^ 32

/-- The union of the share masks of a list of exceptions. -/
def sharedBy (exns : List Exception) : Mask := exns.foldl (fun used p => used ||| p.share) 0

def originChunkUnique (leaf : Eleaf) (chunk : Nat) (snapmask : Mask) : Bool :=
  match leaf.map.find? fun m => m.rchunk = target64 leaf chunk with
  | none => snapmask = 0
  | some m => ~~~(sharedBy m.exceptions) &&& snapmask = 0

/-- The first exception of a list that is shared by the snapshots of a mask. -/
def findShare (mask : Mask) (exns : List Exception) : Option Exception := exns.find? fun p => p.share &&& mask ≠ 0

/-- `snapshot_chunk_unique`: its result, and the chunk that it stores through its last argument if it stores one. -/
def snapshotChunkUnique (leaf : Eleaf) (chunk snapbit : Nat) : Bool × Option Nat :=
  match leaf.map.find? fun m => m.rchunk = target32 leaf chunk with
  | none => (false, none)
  | some m =>
    match findShare (maskBit snapbit) m.exceptions with
    | none => (false, none)
    | some p => (p.share &&& ~~~(maskBit snapbit) = 0, some p.chunk)

/-! ### Insertion -/

/-- The bits of a mask are cleared in the first exception that shares them. -/
def clearFirst (mask : Mask) : List Exception → List Exception
  | [] => []
  | p :: ps =>
    if p.share &&& mask ≠ 0 then { p with share := p.share &&& ~~~mask } :: ps else p :: clearFirst mask ps

/-- The exceptions of a chunk after a new one was added for the origin (`none`) or for a snapshot. -/
def addException (exns : List Exception) (exception : Nat) (snapshot : Option Nat) (active : Mask) :
    List Exception :=
  match snapshot with
  | none => ⟨~~~(sharedBy exns) &&& active, exception⟩ :: exns
  | some bit => ⟨maskBit bit, exception⟩ :: clearFirst (maskBit bit) exns

/-- The exceptions of a chunk that had none. -/
def firstException (exception : Nat) (snapshot : Option Nat) (active : Mask) : List Exception :=
  [⟨match snapshot with | none => active | some bit => maskBit bit, exception⟩]

/-- The map entries from the insertion point on, after the new exception was added to them. -/
def addAt (target exception : Nat) (snapshot : Option Nat) (active : Mask) : List EtreeMap → List EtreeMap
  | [] => [⟨target, firstException exception snapshot active⟩]
  | m :: tail =>
    if m.rchunk = target then { m with exceptions := addException m.exceptions exception snapshot active } :: tail
    else ⟨target, firstException exception snapshot active⟩ :: m :: tail

/-- A map after an exception was added. -/
def addEntry (map : List EtreeMap) (target exception : Nat) (snapshot : Option Nat) (active : Mask) : List EtreeMap :=
  map.takeWhile (fun m => m.rchunk < target) ++
    addAt target exception snapshot active (map.dropWhile fun m => m.rchunk < target)

/-- The bytes that a new exception needs: a chunk that has no entry yet needs one. -/
def bytesNeeded (map : List EtreeMap) (target : Nat) : Nat :=
  match (map.dropWhile fun m => m.rchunk < target).head? with
  | some m => if m.rchunk = target then 16 else 24
  | none => 24

/-- `add_exception_to_leaf`.  `none` stands for `-EFULL`. -/
def addExceptionToLeaf (leaf : Eleaf) (chunk exception : Nat) (snapshot : Option Nat) (active : Mask) :
    Option Eleaf :=
  let target := target32 leaf chunk
  if leafFreespace leaf < bytesNeeded leaf.map target then none
  else some { leaf with map := addEntry leaf.map target exception snapshot active }

/-! ### Splitting, merging and deleting -/

/-- `split_leaf`: the splitpoint, the leaf and the new leaf.  The phantom entry after the last one has the chunk
number 0. -/
def splitLeaf (leaf : Eleaf) : Nat × Eleaf × Eleaf :=
  let nhead := (leaf.map.length + 1) / 2
  let splitpoint := ((leaf.map[nhead]?.map EtreeMap.rchunk).getD 0) + leaf.baseChunk
  (splitpoint, { leaf with map := leaf.map.take nhead }, { leaf with map := leaf.map.drop nhead })

def mergeLeaves (leaf leaf2 : Eleaf) : Eleaf :=
  { leaf with map := leaf.map ++ leaf2.map, sentinel := leaf2.sentinel }

def initLeaf (blockSize : Nat) : Eleaf := { baseChunk := 0, map := [], sentinel := blockSize }

/-- The exceptions of a chunk that are still shared after the snapshots of a mask are deleted. -/
def unshare (snapmask : Mask) (exns : List Exception) : List Exception :=
  (exns.map fun p => { p with share := p.share &&& ~~~snapmask }).filter fun p => p.share ≠ 0

/-- The map that `_delete_snapshots_from_leaf` leaves. -/
def purgeMap (snapmask : Mask) (map : List EtreeMap) : List EtreeMap :=
  (map.map fun m => { m with exceptions := unshare snapmask m.exceptions }).filter fun m => m.exceptions ≠ []

/-- The leaf that `_delete_snapshots_from_leaf` leaves. -/
def purgeLeaf (snapmask : Mask) (leaf : Eleaf) : Eleaf := { leaf with map := purgeMap snapmask leaf.map }

/-- `dinfo.any`: some exception of the leaf was shared by a deleted snapshot. -/
def anyShared (snapmask : Mask) (leaf : Eleaf) : Bool :=
  leaf.map.any fun m => m.exceptions.any fun p => p.share &&& snapmask ≠ 0

/-! ### A leaf as a function of the chunk -/

/-- The exceptions that a map holds for a chunk. -/
def exnsAt (map : List EtreeMap) (chunk : Nat) : List Exception :=
  ((map.find? fun m => m.rchunk = chunk).map EtreeMap.exceptions).getD []

/-- The chunks of a map increase. -/
abbrev Ascending (map : List EtreeMap) : Prop := map.Pairwise fun m m' => m.rchunk < m'.rchunk

section
variable {map map' : List EtreeMap} {c t e : Nat} {snapshot : Option Nat} {active M : Mask}

@[simp] theorem exnsAt_nil : exnsAt [] c = [] := rfl

theorem exnsAt_cons (m : EtreeMap) (map : List EtreeMap) (c : Nat) :
    exnsAt (m :: map) c = if m.rchunk = c then m.exceptions else exnsAt map c := by
  unfold exnsAt
  by_cases h : m.rchunk = c <;> simp [h]

theorem exnsAt_of_ne (h : ∀ m ∈ map, m.rchunk ≠ c) : exnsAt map c = [] := by
  induction map with
  | nil => rfl
  | cons m map ih =>
    rw [exnsAt_cons, if_neg (h m (by simp))]
    exact ih fun m' hm' => h m' (by simp [hm'])

theorem exnsAt_append_of_ne (h : ∀ m ∈ map, m.rchunk ≠ c) : exnsAt (map ++ map') c = exnsAt map' c := by
  induction map with
  | nil => rfl
  | cons m map ih =>
    rw [List.cons_append, exnsAt_cons, if_neg (h m (by simp))]
    exact ih fun m' hm' => h m' (by simp [hm'])

theorem exnsAt_append_of_ne_right (h : ∀ m ∈ map', m.rchunk ≠ c) : exnsAt (map ++ map') c = exnsAt map c := by
  induction map with
  | nil => exact exnsAt_of_ne h
  | cons m map ih => rw [List.cons_append, exnsAt_cons, exnsAt_cons, ih]

theorem exnsAt_mem (hs : Ascending map) {m : EtreeMap} (hm : m ∈ map) : exnsAt map m.rchunk = m.exceptions := by
  induction map with
  | nil => cases hm
  | cons m' map ih =>
    rw [exnsAt_cons]
    rcases List.mem_cons.1 hm with rfl | hm
    · rw [if_pos rfl]
    · have hlt := (List.pairwise_cons.1 hs).1 m hm
      rw [if_neg (by omega)]
      exact ih (List.pairwise_cons.1 hs).2 hm

/-- A chunk with exceptions has a map entry. -/
theorem mem_of_exnsAt_ne_nil (h : exnsAt map c ≠ []) : ∃ m ∈ map, m.rchunk = c ∧ m.exceptions = exnsAt map c := by
  by_contra hn
  push Not at hn
  induction map with
  | nil => exact h rfl
  | cons m map ih =>
    rw [exnsAt_cons] at h hn
    by_cases hc : m.rchunk = c
    · rw [if_pos hc] at hn
      exact hn m (by simp) hc rfl
    · rw [if_neg hc] at h hn
      exact ih h fun m' hm' => hn m' (by simp [hm'])

/-! ### What the leaf functions do to it -/

theorem addEntry_cons (m : EtreeMap) (map : List EtreeMap) (t e : Nat) (snapshot : Option Nat) (active : Mask) :
    addEntry (m :: map) t e snapshot active =
      if m.rchunk < t then m :: addEntry map t e snapshot active else addAt t e snapshot active (m :: map) := by
  unfold addEntry
  by_cases h : m.rchunk < t <;> simp [h]

/-- The new exception is added between the entries below and those above its chunk. -/
theorem addEntry_append (ha : ∀ m ∈ map, m.rchunk < t) (tail : List EtreeMap) :
    addEntry (map ++ tail) t e snapshot active = map ++ addEntry tail t e snapshot active := by
  induction map with
  | nil => rfl
  | cons m map ih =>
    rw [List.cons_append, addEntry_cons, if_pos (ha m (by simp)), ih fun m' hm' => ha m' (by simp [hm'])]
    rfl

theorem addEntry_append_right (hb : ∀ m ∈ map', t < m.rchunk) :
    addEntry (map ++ map') t e snapshot active = addEntry map t e snapshot active ++ map' := by
  induction map with
  | nil =>
    cases map' with
    | nil => rfl
    | cons m map' =>
      have hm := hb m (by simp)
      rw [List.nil_append, addEntry_cons, if_neg (by omega)]
      simp [addEntry, addAt, Nat.ne_of_gt hm]
  | cons m map ih =>
    rw [List.cons_append, addEntry_cons, addEntry_cons, ih]
    by_cases h1 : m.rchunk < t
    · simp [h1]
    · by_cases h2 : m.rchunk = t <;> simp [addAt, h1, h2]

theorem addEntry_rchunk {m : EtreeMap} (hm : m ∈ addEntry map t e snapshot active) :
    m.rchunk = t ∨ ∃ m' ∈ map, m'.rchunk = m.rchunk := by
  induction map with
  | nil => simp [addEntry, addAt] at hm; exact .inl (by rw [hm])
  | cons a map ih =>
    rw [addEntry_cons] at hm
    split at hm
    · rcases List.mem_cons.1 hm with rfl | hm
      · exact .inr ⟨m, by simp, rfl⟩
      · rcases ih hm with h | ⟨m', hm', h⟩
        · exact .inl h
        · exact .inr ⟨m', by simp [hm'], h⟩
    · simp only [addAt] at hm
      split at hm
      · rename_i ht
        rcases List.mem_cons.1 hm with rfl | hm
        · exact .inl ht
        · exact .inr ⟨m, by simp [hm], rfl⟩
      · rcases List.mem_cons.1 hm with rfl | hm
        · exact .inl rfl
        · exact .inr ⟨m, hm, rfl⟩

theorem Ascending.addEntry (hs : Ascending map) : Ascending (addEntry map t e snapshot active) := by
  induction map with
  | nil => simp [Ddsnap.addEntry, addAt]
  | cons a map ih =>
    obtain ⟨ha, hs⟩ := List.pairwise_cons.1 hs
    rw [addEntry_cons]
    split
    · rename_i hlt
      refine List.pairwise_cons.2 ⟨?_, ih hs⟩
      intro m hm
      rcases addEntry_rchunk hm with h | ⟨m', hm', h⟩
      · omega
      · have := ha m' hm'; omega
    · simp only [addAt]
      split
      · exact List.pairwise_cons.2 ⟨ha, hs⟩
      · refine List.pairwise_cons.2 ⟨?_, List.pairwise_cons.2 ⟨ha, hs⟩⟩
        intro m hm
        rcases List.mem_cons.1 hm with rfl | hm
        · show t < m.rchunk; omega
        · have := ha m hm
          show t < m.rchunk
          omega

private theorem addException_nil : addException [] e snapshot active = firstException e snapshot active := by
  have hall : ~~~(0 : Mask) &&& active = active := BitVec.allOnes_and
  cases snapshot with
  | none => simp only [addException, firstException, sharedBy, List.foldl_nil, hall]
  | some bit => rfl

theorem exnsAt_addEntry (hs : Ascending map) (c : Nat) :
    exnsAt (addEntry map t e snapshot active) c =
      if c = t then addException (exnsAt map t) e snapshot active else exnsAt map c := by
  induction map with
  | nil =>
    by_cases h : c = t
    · subst h; simp [addEntry, addAt, exnsAt_cons, addException_nil]
    · simp [addEntry, addAt, exnsAt_cons, h, Ne.symm h]
  | cons a map ih =>
    obtain ⟨ha, hs⟩ := List.pairwise_cons.1 hs
    rw [addEntry_cons]
    by_cases h1 : a.rchunk < t
    · rw [if_pos h1, exnsAt_cons, exnsAt_cons a map c, exnsAt_cons a map t, ih hs, if_neg (by omega : a.rchunk ≠ t)]
      by_cases h2 : a.rchunk = c
      · rw [if_pos h2, if_neg (by omega), if_pos h2]
      · simp only [if_neg h2]
    · rw [if_neg h1]
      simp only [addAt]
      by_cases h2 : a.rchunk = t
      · rw [if_pos h2, exnsAt_cons, exnsAt_cons a map c, exnsAt_cons a map t, if_pos h2]
        dsimp only
        by_cases h3 : c = t
        · rw [if_pos (by omega), if_pos h3]
        · rw [if_neg (by omega), if_neg h3, if_neg (by omega)]
      · have ht : exnsAt (a :: map) t = [] := by
          refine exnsAt_of_ne fun m hm => ?_
          rcases List.mem_cons.1 hm with rfl | hm
          · exact h2
          · have := ha m hm; omega
        rw [if_neg h2, exnsAt_cons, ht, addException_nil]
        by_cases h3 : c = t
        · rw [if_pos (by simp [h3]), if_pos h3]
        · rw [if_neg (by simpa using Ne.symm h3), if_neg h3]

theorem mem_purgeMap {m : EtreeMap} (hm : m ∈ purgeMap M map) :
    ∃ m' ∈ map, m'.rchunk = m.rchunk ∧ m.exceptions = unshare M m'.exceptions ∧ m.exceptions ≠ [] := by
  simp only [purgeMap, List.mem_filter, List.mem_map, decide_eq_true_eq] at hm
  obtain ⟨⟨m', hm', rfl⟩, hne⟩ := hm
  exact ⟨m', hm', rfl, rfl, hne⟩

theorem purgeMap_append (map map' : List EtreeMap) : purgeMap M (map ++ map') = purgeMap M map ++ purgeMap M map' := by
  simp [purgeMap]

theorem Ascending.purgeMap (hs : Ascending map) (M : Mask) : Ascending (purgeMap M map) := by
  refine List.Pairwise.filter _ ?_
  rw [List.pairwise_map]
  exact hs

/-! ### Lookup through this function -/

theorem snapshotChunkUnique_eq (leaf : Eleaf) (chunk bit : Nat) : snapshotChunkUnique leaf chunk bit =
    match findShare (maskBit bit) (exnsAt leaf.map (target32 leaf chunk)) with
    | none => (false, none)
    | some p => (p.share &&& ~~~(maskBit bit) = 0, some p.chunk) := by
  unfold snapshotChunkUnique exnsAt
  cases leaf.map.find? fun m => m.rchunk = target32 leaf chunk with
  | none => rfl
  | some m => rfl

theorem originChunkUnique_eq (leaf : Eleaf) (chunk : Nat) (snapmask : Mask) : originChunkUnique leaf chunk snapmask =
    decide (~~~(sharedBy (exnsAt leaf.map (target64 leaf chunk))) &&& snapmask = 0) := by
  have hall : ~~~(0 : Mask) &&& snapmask = snapmask := BitVec.allOnes_and
  unfold originChunkUnique exnsAt
  cases leaf.map.find? fun m => m.rchunk = target64 leaf chunk with
  | none =>
    show decide (snapmask = 0) = decide (~~~(0 : Mask) &&& snapmask = 0)
    rw [hall]
  | some m => rfl

/-! ### Sizes of the edited leaves -/

theorem exceptionCount_cons (m : EtreeMap) (map : List EtreeMap) :
    exceptionCount (m :: map) = m.exceptions.length + exceptionCount map := by simp [exceptionCount]

theorem exceptionCount_append (map map' : List EtreeMap) :
    exceptionCount (map ++ map') = exceptionCount map + exceptionCount map' := by simp [exceptionCount]

theorem clearFirst_length (mask : Mask) (exns : List Exception) : (clearFirst mask exns).length = exns.length := by
  induction exns with
  | nil => rfl
  | cons p ps ih =>
    unfold clearFirst
    split
    · rfl
    · simp [ih]

theorem addException_length (exns : List Exception) : (addException exns e snapshot active).length = exns.length + 1 := by
  cases snapshot with
  | none => rfl
  | some bit => simp [addException, clearFirst_length]

theorem bytesNeeded_cons (m : EtreeMap) (map : List EtreeMap) (t : Nat) :
    bytesNeeded (m :: map) t = if m.rchunk < t then bytesNeeded map t else if m.rchunk = t then 16 else 24 := by
  unfold bytesNeeded
  by_cases h : m.rchunk < t <;> simp [h]

theorem bytesNeeded_le (map : List EtreeMap) (t : Nat) : bytesNeeded map t ≤ 24 := by
  induction map with
  | nil => exact Nat.le_refl 24
  | cons m map ih =>
    rw [bytesNeeded_cons]
    split
    · exact ih
    · split <;> omega

/-- A new exception takes the bytes that were asked for. -/
theorem addEntry_size (map : List EtreeMap) (t e : Nat) (snapshot : Option Nat) (active : Mask) :
    8 * (addEntry map t e snapshot active).length + 16 * exceptionCount (addEntry map t e snapshot active) =
      8 * map.length + 16 * exceptionCount map + bytesNeeded map t := by
  induction map with
  | nil => simp [addEntry, addAt, firstException, exceptionCount, bytesNeeded]
  | cons m map ih =>
    rw [addEntry_cons, bytesNeeded_cons]
    by_cases h1 : m.rchunk < t
    · simp only [if_pos h1, List.length_cons, exceptionCount_cons]
      omega
    · simp only [if_neg h1, addAt]
      by_cases h2 : m.rchunk = t
      · simp only [if_pos h2, List.length_cons, exceptionCount_cons, addException_length]
        omega
      · simp only [if_neg h2, List.length_cons, exceptionCount_cons, firstException, List.length_nil]
        omega

theorem addEntry_nonempty (hne : ∀ m ∈ map, m.exceptions ≠ []) {m : EtreeMap}
    (hm : m ∈ addEntry map t e snapshot active) : m.exceptions ≠ [] := by
  induction map with
  | nil =>
    simp only [addEntry, addAt, List.takeWhile_nil, List.dropWhile_nil, List.nil_append, List.mem_singleton] at hm
    rw [hm]
    exact List.cons_ne_nil _ _
  | cons a map ih =>
    rw [addEntry_cons] at hm
    split at hm
    · rcases List.mem_cons.1 hm with rfl | hm
      · exact hne m (by simp)
      · exact ih (fun m' hm' => hne m' (by simp [hm'])) hm
    · simp only [addAt] at hm
      split at hm
      · rcases List.mem_cons.1 hm with rfl | hm
        · refine List.ne_nil_of_length_pos ?_
          rw [addException_length]
          omega
        · exact hne m (by simp [hm])
      · rcases List.mem_cons.1 hm with rfl | hm
        · exact List.cons_ne_nil _ _
        · exact hne m hm

end

end Ddsnap
