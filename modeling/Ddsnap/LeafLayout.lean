import Ddsnap.LeafBytes

/-!
# Which leaf a block holds

`Entries m i p map` says that the map entries from `i` on, with the exceptions from `p` on, are those of `map`.  It splits
along `map`, and it moves with the entries and the exceptions (`Entries.relocate`), which is all that inserting, splitting
and merging do to it.
-/

namespace Ddsnap.LeafBytes

open ByteMemory

variable {m m' : Mem} {i j n p q v top : Nat} {map map' : List EtreeMap}

theorem load4_lt (m : Mem) (a : Nat) : load 4 m a < 2 ^ 32 := Nat.lt_of_lt_of_eq (load_lt 4 m a) (by decide)

private theorem load4_write (m : Mem) (a v : Nat) : load 4 (write 4 m a v) a = v % 2 ^ 32 := load_write_self 4 m a v

theorem load8_write (m : Mem) (a v : Nat) : load 8 (write 8 m a v) a = v % 2 ^ 64 := load_write_self 8 m a v

theorem diff32_eq {a b : Nat} (h : b ≤ a) (ha : a < 2 ^ 32) : diff32 a b = a - b := by
  unfold diff32
  omega

/-! ### The map after a change -/

theorem count_congr (h : ∀ x < 24, m' x = m x) : count m' = count m := load_congr fun _ _ => h _ (by omega)

theorem baseChunk_congr (h : ∀ x < 24, m' x = m x) : baseChunk m' = baseChunk m := load_congr fun _ _ => h _ (by omega)

theorem offset_congr (h : ∀ x < top, m' x = m x) (hj : mapAt (j + 1) ≤ top) : offset m' j = offset m j :=
  load_congr fun _ _ => h _ (by unfold mapAt at *; omega)

theorem rchunk_congr (h : ∀ x < top, m' x = m x) (hj : mapAt (j + 1) ≤ top) : rchunk m' j = rchunk m j :=
  load_congr fun _ _ => h _ (by unfold mapAt at *; omega)

theorem offset_setOffset (m : Mem) (i v j : Nat) :
    offset (setOffset m i v) j = if j = i then v % 2 ^ 32 else offset m j := by
  by_cases h : j = i
  · rw [if_pos h, h]
    exact load4_write _ _ _
  · rw [if_neg h]
    exact load_write_of_disjoint (by unfold mapAt; omega)

@[simp] theorem rchunk_setOffset (m : Mem) (i v j : Nat) : rchunk (setOffset m i v) j = rchunk m j :=
  load_write_of_disjoint (by unfold mapAt; omega)

@[simp] theorem count_setOffset (m : Mem) (i v : Nat) : count (setOffset m i v) = count m :=
  load_write_of_disjoint (by unfold mapAt; omega)

@[simp] theorem baseChunk_setOffset (m : Mem) (i v : Nat) : baseChunk (setOffset m i v) = baseChunk m :=
  load_write_of_disjoint (by unfold mapAt; omega)

@[simp] theorem offset_setRchunk (m : Mem) (i v j : Nat) : offset (setRchunk m i v) j = offset m j :=
  load_write_of_disjoint (by unfold mapAt; omega)

theorem rchunk_setRchunk (m : Mem) (i v j : Nat) :
    rchunk (setRchunk m i v) j = if j = i then v % 2 ^ 32 else rchunk m j := by
  by_cases h : j = i
  · rw [if_pos h, h]
    exact load4_write _ _ _
  · rw [if_neg h]
    exact load_write_of_disjoint (by unfold mapAt; omega)

@[simp] theorem count_setRchunk (m : Mem) (i v : Nat) : count (setRchunk m i v) = count m :=
  load_write_of_disjoint (by unfold mapAt; omega)

@[simp] theorem baseChunk_setRchunk (m : Mem) (i v : Nat) : baseChunk (setRchunk m i v) = baseChunk m :=
  load_write_of_disjoint (by unfold mapAt; omega)

@[simp] theorem offset_setCount (m : Mem) (v j : Nat) : offset (setCount m v) j = offset m j :=
  load_write_of_disjoint (by unfold mapAt; omega)

@[simp] theorem rchunk_setCount (m : Mem) (v j : Nat) : rchunk (setCount m v) j = rchunk m j :=
  load_write_of_disjoint (by unfold mapAt; omega)

@[simp] theorem count_setCount (m : Mem) (v : Nat) : count (setCount m v) = v % 2 ^ 32 := load4_write _ _ _

@[simp] theorem baseChunk_setCount (m : Mem) (v : Nat) : baseChunk (setCount m v) = baseChunk m :=
  load_write_of_disjoint (by omega)

theorem offset_rebase (f : Nat → Nat) (m : Mem) (n j : Nat) :
    offset (rebase f m n) j = if j < n then f (offset m j) % 2 ^ 32 else offset m j := by
  induction n generalizing j with
  | zero => rfl
  | succ n ih =>
    rw [rebase, offset_setOffset, ih, ih, if_neg (Nat.lt_irrefl n)]
    by_cases hj : j = n
    · rw [if_pos hj, if_pos (by omega), hj]
    · rw [if_neg hj]
      by_cases hlt : j < n
      · rw [if_pos hlt, if_pos (by omega)]
      · rw [if_neg hlt, if_neg (by omega)]

@[simp] theorem rchunk_rebase (f : Nat → Nat) (m : Mem) (n j : Nat) : rchunk (rebase f m n) j = rchunk m j := by
  induction n with
  | zero => rfl
  | succ n ih => rw [rebase, rchunk_setOffset, ih]

@[simp] theorem count_rebase (f : Nat → Nat) (m : Mem) (n : Nat) : count (rebase f m n) = count m := by
  induction n with
  | zero => rfl
  | succ n ih => rw [rebase, count_setOffset, ih]

@[simp] theorem baseChunk_rebase (f : Nat → Nat) (m : Mem) (n : Nat) : baseChunk (rebase f m n) = baseChunk m := by
  induction n with
  | zero => rfl
  | succ n ih => rw [rebase, baseChunk_setOffset, ih]

/-- Map entries that were copied. -/
theorem offset_copy {m2 : Mem} {cnt k : Nat} (hk : k < cnt) :
    offset (copy m (mapAt i) m2 (mapAt j) (8 * cnt)) (i + k) = offset m2 (j + k) := by
  unfold offset
  rw [show mapAt (i + k) = mapAt i + 8 * k by unfold mapAt; omega, load_copy (by omega),
    show mapAt (j + k) = mapAt j + 8 * k by unfold mapAt; omega]

theorem rchunk_copy {m2 : Mem} {cnt k : Nat} (hk : k < cnt) :
    rchunk (copy m (mapAt i) m2 (mapAt j) (8 * cnt)) (i + k) = rchunk m2 (j + k) := by
  unfold rchunk
  rw [show mapAt (i + k) + 4 = mapAt i + (8 * k + 4) by unfold mapAt; omega, load_copy (by omega),
    show mapAt (j + k) + 4 = mapAt j + (8 * k + 4) by unfold mapAt; omega]

/-! ### What a change of the map leaves alone -/

theorem setOffset_above (hx : mapAt (i + 1) ≤ p) : setOffset m i v p = m p :=
  write_of_outside (by unfold mapAt at *; omega)

theorem setRchunk_above (hx : mapAt (i + 1) ≤ p) : setRchunk m i v p = m p :=
  write_of_outside (by unfold mapAt at *; omega)

theorem setOffset_header (hx : p < 24) : setOffset m i v p = m p := write_of_outside (by unfold mapAt; omega)

theorem setRchunk_header (hx : p < 24) : setRchunk m i v p = m p := write_of_outside (by unfold mapAt; omega)

theorem setCount_above (hx : mapAt 0 ≤ p) : setCount m v p = m p := write_of_outside (by unfold mapAt at *; omega)

theorem rebase_above {f : Nat → Nat} (hx : mapAt n ≤ p) : rebase f m n p = m p := by
  induction n with
  | zero => rfl
  | succ n ih => rw [rebase, setOffset_above hx, ih (by unfold mapAt at *; omega)]

theorem rebase_header {f : Nat → Nat} (hx : p < 24) : rebase f m n p = m p := by
  induction n with
  | zero => rfl
  | succ n ih => rw [rebase, setOffset_header hx, ih]

/-! ### Exceptions -/

/-- `n` exceptions from a pointer on. -/
def exceptionsFrom (m : Mem) (p : Nat) : Nat → List Exception
  | 0 => []
  | n + 1 => exceptionAt m p :: exceptionsFrom m (p + 16) n

theorem exceptionsFrom_length (m : Mem) (p n : Nat) : (exceptionsFrom m p n).length = n := by
  induction n generalizing p with
  | zero => rfl
  | succ n ih => rw [exceptionsFrom, List.length_cons, ih]

theorem exceptionsFrom_add (m : Mem) (p n k : Nat) :
    exceptionsFrom m p (n + k) = exceptionsFrom m p n ++ exceptionsFrom m (p + 16 * n) k := by
  induction n generalizing p with
  | zero => simp [exceptionsFrom]
  | succ n ih =>
    rw [Nat.add_right_comm, exceptionsFrom, exceptionsFrom, ih, show p + 16 * (n + 1) = p + 16 + 16 * n by omega]
    rfl

theorem exceptionAt_congr (h : ∀ x < 16, m' (q + x) = m (p + x)) : exceptionAt m' q = exceptionAt m p := by
  have hshare : load 8 m' q = load 8 m p := load_congr fun x _ => h x (by omega)
  have hchunk : load 8 m' (q + 8) = load 8 m (p + 8) := load_congr fun x _ => by
    rw [Nat.add_assoc, Nat.add_assoc]
    exact h _ (by omega)
  rw [exceptionAt, exceptionAt, share, share, hshare, hchunk]

theorem share_setShare (m : Mem) (p : Nat) (v : Mask) : share (setShare m p v) p = v := by
  have hload : load 8 (setShare m p v) p = v.toNat := (load8_write m p v.toNat).trans (Nat.mod_eq_of_lt v.isLt)
  rw [share, hload, BitVec.ofNat_toNat, BitVec.setWidth_eq]

theorem exceptionAt_setShare (m : Mem) (p : Nat) (v : Mask) :
    exceptionAt (setShare m p v) p = { exceptionAt m p with share := v } := by
  have hchunk : load 8 (setShare m p v) (p + 8) = load 8 m (p + 8) := load_write_of_disjoint (by omega)
  rw [exceptionAt, share_setShare, hchunk]
  rfl

theorem exceptionsFrom_congr (h : ∀ x < 16 * n, m' (q + x) = m (p + x)) :
    exceptionsFrom m' q n = exceptionsFrom m p n := by
  induction n generalizing p q with
  | zero => rfl
  | succ n ih =>
    rw [exceptionsFrom, exceptionsFrom, exceptionAt_congr fun x hx => h x (by omega), ih fun x hx => ?_]
    rw [Nat.add_assoc, Nat.add_assoc]
    exact h _ (by omega)

/-! ### Entries -/

/-- The map entries from `i` on, with the exceptions from `p` on, are those of `map`, and the next entry has the offset of
the end of these exceptions. -/
def Entries (m : Mem) : Nat → Nat → List EtreeMap → Prop
  | i, p, [] => offset m i = p
  | i, p, e :: map => offset m i = p ∧ rchunk m i = e.rchunk ∧ exceptionsFrom m p e.exceptions.length = e.exceptions ∧
      Entries m (i + 1) (p + 16 * e.exceptions.length) map

theorem Entries.offset_first (h : Entries m i p map) : offset m i = p := by
  cases map with
  | nil => exact h
  | cons e map => exact h.1

private theorem Entries.offset_last (h : Entries m i p map) : offset m (i + map.length) =
    p + 16 * exceptionCount map := by
  induction map generalizing i p with
  | nil => exact h
  | cons e map ih =>
    have := ih h.2.2.2
    rw [exceptionCount_cons, List.length_cons, show i + (map.length + 1) = i + 1 + map.length by omega, this]
    omega

theorem entries_append : Entries m i p (map ++ map') ↔
    Entries m i p map ∧ Entries m (i + map.length) (p + 16 * exceptionCount map) map' := by
  induction map generalizing i p with
  | nil => exact ⟨fun h => ⟨h.offset_first, h⟩, fun h => h.2⟩
  | cons e map ih =>
    have hi : i + (e :: map).length = i + 1 + map.length := by rw [List.length_cons]; omega
    have hp : p + 16 * exceptionCount (e :: map) = p + 16 * e.exceptions.length + 16 * exceptionCount map := by
      rw [exceptionCount_cons]; omega
    rw [List.cons_append, hi, hp]
    simp only [Entries, ih, and_assoc]

/-- Entries that were moved in the map, or whose exceptions were moved, or both. -/
theorem Entries.relocate (h : Entries m i p map) (hchunks : ∀ k < map.length, rchunk m' (j + k) = rchunk m (i + k))
    (hoffsets : ∀ k ≤ map.length, offset m' (j + k) + p = offset m (i + k) + q)
    (hbytes : ∀ x < 16 * exceptionCount map, m' (q + x) = m (p + x)) : Entries m' j q map := by
  induction map generalizing i j p q with
  | nil =>
    have h0 := hoffsets 0 (Nat.le_refl 0)
    have : offset m i = p := h
    show offset m' j = q
    simp only [Nat.add_zero] at h0
    omega
  | cons e map ih =>
    obtain ⟨hfirst, hchunk, hexns, hrest⟩ := h
    have h0 := hoffsets 0 (Nat.zero_le _)
    rw [exceptionCount_cons] at hbytes
    simp only [Nat.add_zero] at h0
    refine ⟨by omega, ?_, ?_, ih hrest (fun k hk => ?_) (fun k hk => ?_) fun x hx => ?_⟩
    · rw [← hchunk]
      exact hchunks 0 (by simp)
    · rw [exceptionsFrom_congr fun x hx => hbytes x (by omega)]
      exact hexns
    · have := hchunks (k + 1) (by rw [List.length_cons]; omega)
      rwa [show j + (k + 1) = j + 1 + k by omega, show i + (k + 1) = i + 1 + k by omega] at this
    · have := hoffsets (k + 1) (by rw [List.length_cons]; omega)
      rw [show j + (k + 1) = j + 1 + k by omega, show i + (k + 1) = i + 1 + k by omega] at this
      omega
    · rw [Nat.add_assoc, Nat.add_assoc]
      exact hbytes _ (by omega)

/-- Entries that stay where they are. -/
theorem Entries.congr (h : Entries m i p map) (hchunks : ∀ k < map.length, rchunk m' (i + k) = rchunk m (i + k))
    (hoffsets : ∀ k ≤ map.length, offset m' (i + k) = offset m (i + k))
    (hbytes : ∀ x < 16 * exceptionCount map, m' (p + x) = m (p + x)) : Entries m' i p map :=
  h.relocate hchunks (fun k hk => by rw [hoffsets k hk]) hbytes

/-! ### Leaves -/

/-- A block of a given size holds a leaf: the fields of the header, the map and the exceptions are those of the leaf, the
phantom entry has the end of the block as its offset, and map and exceptions do not overlap. -/
structure Holds (size : Nat) (m : Mem) (leaf : Eleaf) : Prop where
  counted : count m = leaf.map.length
  base : baseChunk m = leaf.baseChunk
  entries : Entries m 0 (size - 16 * exceptionCount leaf.map) leaf.map
  sentinel : leaf.sentinel = size
  room : mapAt (leaf.map.length + 1) + 16 * exceptionCount leaf.map ≤ size
  size : size < 2 ^ 32
  ascending : Ascending leaf.map
  nonempty : ∀ e ∈ leaf.map, e.exceptions ≠ []
  chunks : ∀ e ∈ leaf.map, leaf.baseChunk + e.rchunk < 2 ^ 64

variable {size : Nat} {leaf : Eleaf}

theorem Holds.first (h : Holds size m leaf) : offset m 0 = size - 16 * exceptionCount leaf.map := h.entries.offset_first

theorem Holds.last (h : Holds size m leaf) : offset m leaf.map.length = size := by
  have hlast := h.entries.offset_last
  have hroom := h.room
  rw [Nat.zero_add] at hlast
  omega

theorem Holds.freespace (h : Holds size m leaf) : leafFreespace m = Ddsnap.leafFreespace leaf := by
  have hroom := h.room
  have hsize := h.size
  unfold leafFreespace emap
  rw [h.first, h.counted, diff32_eq (by omega) (by omega), Ddsnap.leafFreespace, h.sentinel]
  rfl

theorem Holds.payload (h : Holds size m leaf) : leafPayload m = Ddsnap.leafPayload leaf := by
  have hroom := h.room
  have hsize := h.size
  unfold leafPayload emap
  unfold mapAt at hroom ⊢
  rw [h.counted, h.first, h.last, diff32_eq (by omega) (by omega), diff32_eq (by omega) (by omega), Ddsnap.leafPayload]
  omega

end Ddsnap.LeafBytes
