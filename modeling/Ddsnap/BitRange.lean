import Ddsnap.Space

/-!
# Ranges of bits

`change_bits` sets, clears or tests the bits of a range of chunks in a bitmap that is spread over blocks.  It goes through
the blocks of the range, and in each block through the bits up to the end of the block or of the range.  The model of the
store takes the bits one by one (`setAllocated`), which does the same to it (`changeBits_setAllocated`).
-/

namespace Ddsnap

variable {D : Type}

/-! ### The function -/

/-- The argument `flag`: 0, 1 or 2. -/
inductive Flag where
  | test
  | set
  | clear
  deriving DecidableEq

def Flag.change (flag : Flag) (b : Block D) (bit : Nat) : Block D :=
  match flag with
  | .test => b
  | .set => setBitmapBit b bit
  | .clear => clearBitmapBit b bit

/-- The inner loop, from a chunk on with `left` chunks to the end of the range: the block, and how many chunks are left
for the next one.  `none`: a chunk is in use. -/
def changeBlock (flag : Flag) (shift : Nat) : Nat → Nat → Block D → Option (Block D × Nat)
  | 0, _, b => some (b, 0)
  | left + 1, chunk, b =>
    if flag = .test ∧ bitmapBits b (chunk % 2 ^ shift) = true then none
    else if (chunk + 1) % 2 ^ shift ≠ 0 ∧ left ≠ 0 then
      changeBlock flag shift left (chunk + 1) (flag.change b (chunk % 2 ^ shift))
    else some (flag.change b (chunk % 2 ^ shift), left)

/-- The outer loop, at most `rounds` rounds of it, from the block `s` on.  The result is false when a chunk is in use. -/
def changeBlocks (flag : Flag) : Nat → Nat → Nat → Nat → Sb D → Option (Bool × Sb D)
  | 0, _, _, _, _ => none
  | rounds + 1, s, chunk, left, sb =>
    if left = 0 then some (true, sb)
    else
      match changeBlock flag sb.bitmapShift left chunk (sb.mem s) with
      | none => some (false, sb)
      | some (b, rest) =>
        changeBlocks flag rounds (s + 1) (chunk + (left - rest)) rest (if flag = .test then sb else sb.put s b)

/-- `change_bits` on a bitmap that starts at `base`. -/
def changeBits (rounds : Nat) (sb : Sb D) (start count base : Nat) (flag : Flag) : Option (Bool × Sb D) :=
  changeBlocks flag rounds (sb.bitmapBlock base start) start count sb

/-! ### What is expected -/

/-- The bit of a chunk. -/
def Sb.chunkBit (sb : Sb D) (base chunk : Nat) : Bool :=
  bitmapBits (sb.mem (sb.bitmapBlock base chunk)) (chunk % 2 ^ sb.bitmapShift)

/-- The bits of a range have a value now, every other bit of every block has the value that it had, and blocks without
bits of the range are as they were. -/
structure RangeChanged (sb sb' : Sb D) (start count base : Nat) (value : Bool) : Prop where
  inside : ∀ i < count, sb'.chunkBit base (start + i) = value
  outside : ∀ s bit, (∀ i < count, ¬(s = sb.bitmapBlock base (start + i) ∧ bit = (start + i) % 2 ^ sb.bitmapShift)) →
    bitmapBits (sb'.mem s) bit = bitmapBits (sb.mem s) bit
  blocks : ∀ s, (∀ i < count, s ≠ sb.bitmapBlock base (start + i)) → sb'.mem s = sb.mem s

/-! ### One bit after the other -/

/-- The bit of one chunk is changed and its block is dirtied. -/
def Sb.changeBit (sb : Sb D) (base chunk : Nat) (value : Bool) : Sb D :=
  let s := sb.bitmapBlock base chunk
  sb.put s (.bitmap (Function.update (bitmapBits (sb.mem s)) (chunk % 2 ^ sb.bitmapShift) value))

/-- The bits of a range, one after the other. -/
def changeEach (sb : Sb D) (start count base : Nat) (value : Bool) : Sb D :=
  (List.range count).foldl (fun sb i => sb.changeBit base (start + i) value) sb

variable {sb : Sb D} {base chunk start count left s : Nat} {value : Bool} {flag : Flag}

private theorem setBufferDirty_twice (sb : Sb D) (s : Nat) : setBufferDirty (setBufferDirty sb s) s =
    setBufferDirty sb s := by
  have hmem : s ∈ (setBufferDirty sb s).dirtyBuffers := mem_setBufferDirty.2 (.inr rfl)
  rw [setBufferDirty, if_pos hmem]

private theorem put_again (sb : Sb D) (s : Nat) (b b' : Block D) : (sb.put s b).put s b' = sb.put s b' := by
  have hstore : (sb.store s b).store s b' = sb.store s b' := by
    unfold Sb.store
    simp only [Function.update_idem]
  rw [put_put, hstore, setBufferDirty_twice, Sb.put]

private theorem changeEach_zero (sb : Sb D) : changeEach sb start 0 base value = sb := rfl

private theorem changeEach_add (sb : Sb D) (n rest : Nat) : changeEach sb start (n + rest) base value =
    changeEach (changeEach sb start n base value) (start + n) rest base value := by
  unfold changeEach
  rw [List.range_add, List.foldl_append, List.foldl_map]
  simp only [Nat.add_assoc]

private theorem changeEach_one (sb : Sb D) : changeEach sb start 1 base value = sb.changeBit base start value := rfl

private theorem bitmapShift_put (sb : Sb D) (s : Nat) (b : Block D) : (sb.put s b).bitmapShift = sb.bitmapShift :=
  core_bitmapShift (sb.put_core s b)

private theorem RangeChanged.zero (sb : Sb D) : RangeChanged sb sb start 0 base value :=
  ⟨fun _ h => absurd h (Nat.not_lt_zero _), fun _ _ _ => rfl, fun _ _ => rfl⟩

/-- One more bit behind a range. -/
private theorem RangeChanged.succ {sb' : Sb D} (h : RangeChanged sb sb' start count base value)
    (hshift : sb'.bitmapShift = sb.bitmapShift) :
    RangeChanged sb (sb'.changeBit base (start + count) value) start (count + 1) base value := by
  have hblock : ∀ chunk, sb'.bitmapBlock base chunk = sb.bitmapBlock base chunk := fun chunk => by
    unfold Sb.bitmapBlock
    rw [hshift]
  have hmem : (sb'.changeBit base (start + count) value).mem = Function.update sb'.mem
      (sb.bitmapBlock base (start + count)) (.bitmap (Function.update (bitmapBits (sb'.mem
        (sb.bitmapBlock base (start + count)))) ((start + count) % 2 ^ sb.bitmapShift) value)) := by
    unfold Sb.changeBit
    rw [Sb.put_mem, hblock, hshift]
  have hbit : ∀ s bit, bitmapBits ((sb'.changeBit base (start + count) value).mem s) bit =
      if s = sb.bitmapBlock base (start + count) ∧ bit = (start + count) % 2 ^ sb.bitmapShift then value
      else bitmapBits (sb'.mem s) bit := by
    intro s bit
    rw [hmem]
    by_cases hs : s = sb.bitmapBlock base (start + count)
    · subst hs
      rw [Function.update_self, bitmapBits, Function.update_apply]
      simp only [true_and]
    · rw [Function.update_of_ne hs, if_neg fun h => hs h.1]
  refine ⟨fun i hi => ?_, fun s bit hout => ?_, fun s hout => ?_⟩
  · have hsame : (sb'.changeBit base (start + count) value).chunkBit base (start + i) = bitmapBits
        ((sb'.changeBit base (start + count) value).mem (sb.bitmapBlock base (start + i)))
        ((start + i) % 2 ^ sb.bitmapShift) := by
      unfold Sb.chunkBit Sb.bitmapBlock Sb.changeBit
      rw [bitmapShift_put, hshift]
    rw [hsame, hbit]
    split_ifs with heq
    · rfl
    · have hi' : i < count := by
        refine Nat.lt_of_le_of_ne (Nat.le_of_lt_succ hi) ?_
        rintro rfl
        exact heq ⟨rfl, rfl⟩
      have hin := h.inside i hi'
      rwa [Sb.chunkBit, hblock, hshift] at hin
  · rw [hbit, if_neg (hout count (Nat.lt_succ_self _))]
    exact h.outside s bit fun i hi => hout i (Nat.lt_succ_of_lt hi)
  · rw [hmem, Function.update_of_ne (hout count (Nat.lt_succ_self _))]
    exact h.blocks s fun i hi => hout i (Nat.lt_succ_of_lt hi)

private theorem changeEach_spec (sb : Sb D) (start count base : Nat) (value : Bool) :
    RangeChanged sb (changeEach sb start count base value) start count base value ∧
      (changeEach sb start count base value).bitmapShift = sb.bitmapShift := by
  induction count with
  | zero => exact ⟨.zero sb, rfl⟩
  | succ count ih =>
    rw [changeEach_add, changeEach_one]
    refine ⟨ih.1.succ ih.2, ?_⟩
    unfold Sb.changeBit
    rw [bitmapShift_put, ih.2]

/-! ### One block after the other -/

private theorem next_block (chunk shift : Nat) : (chunk + 1) / 2 ^ shift =
    chunk / 2 ^ shift + if (chunk + 1) % 2 ^ shift = 0 then 1 else 0 := by
  rw [Nat.succ_div]
  simp only [Nat.dvd_iff_mod_eq_zero]

/-- The inner loop changes the bits of the range that are in the block. -/
private theorem changeBlock_change (hflag : flag = .set ∧ value = true ∨ flag = .clear ∧ value = false)
    (base shift left chunk : Nat) (b : Block D) :
    ∃ b' n rest, changeBlock flag shift (left + 1) chunk b = some (b', rest) ∧ n + rest = left ∧
      (rest ≠ 0 → (chunk + n + 1) / 2 ^ shift = chunk / 2 ^ shift + 1) ∧
      ∀ sb : Sb D, sb.bitmapShift = shift → sb.mem (sb.bitmapBlock base chunk) = b →
        changeEach sb chunk (n + 1) base value = sb.put (sb.bitmapBlock base chunk) b' := by
  have hchange : ∀ b : Block D, ∀ bit, flag.change b bit = .bitmap (Function.update (bitmapBits b) bit value) := by
    rcases hflag with ⟨rfl, rfl⟩ | ⟨rfl, rfl⟩ <;> exact fun _ _ => rfl
  have hone : ∀ sb : Sb D, ∀ b chunk, sb.bitmapShift = shift → sb.mem (sb.bitmapBlock base chunk) = b →
      changeEach sb chunk 1 base value = sb.put (sb.bitmapBlock base chunk) (flag.change b (chunk % 2 ^ shift)) := by
    rintro sb _ chunk rfl rfl
    rw [changeEach_one, hchange]
    rfl
  have htest : ∀ P : Prop, ¬(flag = .test ∧ P) := by
    rcases hflag with ⟨rfl, -⟩ | ⟨rfl, -⟩ <;> exact fun _ h => nomatch h.1
  induction left generalizing chunk b with
  | zero =>
    refine ⟨_, 0, 0, ?_, rfl, fun h => absurd rfl h, fun sb => hone sb b chunk⟩
    rw [changeBlock, if_neg (htest _), if_neg fun h => h.2 rfl]
  | succ left ih =>
    rw [changeBlock, if_neg (htest _)]
    by_cases hend : (chunk + 1) % 2 ^ shift = 0
    · refine ⟨_, 0, left + 1, if_neg fun h => h.1 hend, Nat.zero_add _, fun _ => ?_, fun sb => hone sb b chunk⟩
      rw [Nat.add_zero, next_block, if_pos hend]
    · have hnext : (chunk + 1) / 2 ^ shift = chunk / 2 ^ shift := by rw [next_block, if_neg hend]; rfl
      obtain ⟨b', n, rest, hrun, hn, hrest, heach⟩ := ih (chunk + 1) (flag.change b (chunk % 2 ^ shift))
      refine ⟨b', n + 1, rest, ?_, by omega, fun h => ?_, fun sb hshift hb => ?_⟩
      · rw [if_pos ⟨hend, Nat.succ_ne_zero _⟩, hrun]
      · rw [← hnext, ← hrest h]
        congr 1
        omega
      · have hplace : ∀ x : Block D, (sb.put (sb.bitmapBlock base chunk) x).bitmapBlock base (chunk + 1) =
            sb.bitmapBlock base chunk := fun x => by
          unfold Sb.bitmapBlock
          rw [bitmapShift_put, hshift, hnext]
        rw [Nat.add_comm (n + 1) 1, changeEach_add, hone sb b chunk hshift hb, heach _ ?_ ?_, hplace, put_again]
        · rw [bitmapShift_put, hshift]
        · rw [hplace, Sb.put_mem, Function.update_self]

private theorem changeBlocks_change (hflag : flag = .set ∧ value = true ∨ flag = .clear ∧ value = false) {rounds : Nat}
    (hs : left ≠ 0 → s = sb.bitmapBlock base chunk) (hrounds : left < rounds) :
    changeBlocks flag rounds s chunk left sb = some (true, changeEach sb chunk left base value) := by
  induction rounds generalizing s chunk left sb with
  | zero => cases hrounds
  | succ rounds ih =>
    unfold changeBlocks
    cases left with
    | zero => rw [if_pos rfl, changeEach_zero]
    | succ left =>
      obtain rfl := hs (Nat.succ_ne_zero _)
      obtain ⟨b', n, rest, hrun, hn, hrest, heach⟩ :=
        changeBlock_change hflag base sb.bitmapShift left chunk (sb.mem (sb.bitmapBlock base chunk))
      have hput := heach sb rfl rfl
      have hne : flag ≠ .test := by rcases hflag with ⟨rfl, -⟩ | ⟨rfl, -⟩ <;> exact nofun
      rw [if_neg (Nat.succ_ne_zero _), hrun]
      dsimp only
      rw [if_neg hne, show left + 1 - rest = n + 1 by omega, show left + 1 = n + 1 + rest by omega, changeEach_add, hput]
      refine ih (fun h => ?_) (by omega)
      unfold Sb.bitmapBlock
      rw [bitmapShift_put, ← Nat.add_assoc, hrest h, Nat.add_assoc]

/-- The inner loop finds the chunks in use. -/
private theorem changeBlock_test (shift left chunk : Nat) (b : Block D) :
    (changeBlock .test shift (left + 1) chunk b = none ∧ ∃ i ≤ left, (chunk + i) / 2 ^ shift = chunk / 2 ^ shift ∧
      bitmapBits b ((chunk + i) % 2 ^ shift) = true) ∨
    ∃ n rest, changeBlock .test shift (left + 1) chunk b = some (b, rest) ∧ n + rest = left ∧
      (rest ≠ 0 → (chunk + n + 1) / 2 ^ shift = chunk / 2 ^ shift + 1) ∧
      ∀ i ≤ n, (chunk + i) / 2 ^ shift = chunk / 2 ^ shift ∧ bitmapBits b ((chunk + i) % 2 ^ shift) = false := by
  induction left generalizing chunk with
  | zero =>
    by_cases hbit : bitmapBits b (chunk % 2 ^ shift) = true
    · exact .inl ⟨by rw [changeBlock, if_pos ⟨rfl, hbit⟩], 0, Nat.le_refl _, rfl, hbit⟩
    · refine .inr ⟨0, 0, ?_, rfl, fun h => absurd rfl h, fun i hi => ?_⟩
      · rw [changeBlock, if_neg fun h => hbit h.2, if_neg fun h => h.2 rfl]
        rfl
      · obtain rfl := Nat.le_zero.1 hi
        exact ⟨rfl, Bool.eq_false_iff.2 hbit⟩
  | succ left ih =>
    by_cases hbit : bitmapBits b (chunk % 2 ^ shift) = true
    · exact .inl ⟨by rw [changeBlock, if_pos ⟨rfl, hbit⟩], 0, Nat.zero_le _, rfl, hbit⟩
    rw [changeBlock, if_neg fun h => hbit h.2]
    by_cases hend : (chunk + 1) % 2 ^ shift = 0
    · refine .inr ⟨0, left + 1, if_neg fun h => h.1 hend, Nat.zero_add _, fun _ => ?_, fun i hi => ?_⟩
      · rw [Nat.add_zero, next_block, if_pos hend]
      · obtain rfl := Nat.le_zero.1 hi
        exact ⟨rfl, Bool.eq_false_iff.2 hbit⟩
    · have hnext : (chunk + 1) / 2 ^ shift = chunk / 2 ^ shift := by rw [next_block, if_neg hend]; rfl
      rw [if_pos ⟨hend, Nat.succ_ne_zero _⟩]
      have hshiftOne : ∀ i, chunk + 1 + i = chunk + (i + 1) := fun i => by omega
      rcases ih (chunk + 1) with ⟨hnone, i, hi, hblock, hset⟩ | ⟨n, rest, hrun, hn, hrest, hclear⟩
      · rw [hshiftOne] at hblock hset
        exact .inl ⟨hnone, i + 1, Nat.succ_le_succ hi, hblock.trans hnext, hset⟩
      · refine .inr ⟨n + 1, rest, hrun, by omega, fun h => ?_, fun i hi => ?_⟩
        · rw [← hnext, ← hrest h]
          congr 1
          omega
        · cases i with
          | zero => exact ⟨rfl, Bool.eq_false_iff.2 hbit⟩
          | succ i =>
            obtain ⟨hblock, hbit'⟩ := hclear i (Nat.le_of_succ_le_succ hi)
            rw [hshiftOne] at hblock hbit'
            exact ⟨hblock.trans hnext, hbit'⟩

private theorem changeBlocks_test {rounds : Nat} (hs : left ≠ 0 → s = sb.bitmapBlock base chunk)
    (hrounds : left < rounds) : ∃ ok, changeBlocks .test rounds s chunk left sb = some (ok, sb) ∧
      (ok = true ↔ ∀ i < left, sb.chunkBit base (chunk + i) = false) := by
  induction rounds generalizing s chunk left with
  | zero => cases hrounds
  | succ rounds ih =>
    unfold changeBlocks
    cases left with
    | zero => exact ⟨true, if_pos rfl, iff_of_true rfl fun i hi => absurd hi (Nat.not_lt_zero _)⟩
    | succ left =>
      obtain rfl := hs (Nat.succ_ne_zero _)
      rw [if_neg (Nat.succ_ne_zero _)]
      have hchunkBit : ∀ i, (chunk + i) / 2 ^ sb.bitmapShift = chunk / 2 ^ sb.bitmapShift → sb.chunkBit base (chunk + i) =
          bitmapBits (sb.mem (sb.bitmapBlock base chunk)) ((chunk + i) % 2 ^ sb.bitmapShift) := fun i h => by
        unfold Sb.chunkBit Sb.bitmapBlock
        rw [h]
      rcases changeBlock_test sb.bitmapShift left chunk (sb.mem (sb.bitmapBlock base chunk)) with
        ⟨hnone, i, hi, hblock, hset⟩ | ⟨n, rest, hrun, hn, hrest, hclear⟩
      · rw [hnone]
        refine ⟨false, rfl, iff_of_false Bool.false_ne_true fun h => ?_⟩
        have := h i (Nat.lt_succ_of_le hi)
        rw [hchunkBit i hblock, hset] at this
        cases this
      · rw [hrun]
        dsimp only
        have hs' : rest ≠ 0 → sb.bitmapBlock base chunk + 1 = sb.bitmapBlock base (chunk + (n + 1)) := fun h => by
          unfold Sb.bitmapBlock
          rw [← Nat.add_assoc chunk, hrest h, Nat.add_assoc]
        obtain ⟨ok, hok, hiff⟩ := ih hs' (by omega)
        refine ⟨ok, ?_, hiff.trans ⟨fun h i hi => ?_, fun h i hi => ?_⟩⟩
        · rw [if_pos rfl, show left + 1 - rest = n + 1 by omega]
          exact hok
        · by_cases hin : i ≤ n
          · rw [hchunkBit i (hclear i hin).1]
            exact (hclear i hin).2
          · have := h (i - (n + 1)) (by omega)
            rwa [show chunk + (n + 1) + (i - (n + 1)) = chunk + i by omega] at this
        · rw [Nat.add_assoc]
          exact h (n + 1 + i) (by omega)

/-! ### The whole range -/

/-- `set_allocated`, which the flush of the deferred allocations calls, is `change_bits` with flag 1. -/
theorem changeBits_setAllocated (sb : Sb D) (chunk count more : Nat) :
    changeBits (count + 1 + more) sb chunk count sb.image.metadata.bitmapBase .set =
      some (true, setAllocated sb chunk count) := by
  have hrun : changeBits (count + 1 + more) sb chunk count sb.image.metadata.bitmapBase .set =
      some (true, changeEach sb chunk count sb.image.metadata.bitmapBase true) :=
    changeBlocks_change (.inl ⟨rfl, rfl⟩) (fun _ => rfl) (by omega)
  rw [hrun]
  have hbase : ∀ n, (changeEach sb chunk n sb.image.metadata.bitmapBase true) = setAllocated sb chunk n ∧
      (setAllocated sb chunk n).image = sb.image := by
    intro n
    induction n with
    | zero => exact ⟨rfl, rfl⟩
    | succ n ih =>
      have hset : setAllocated sb chunk (n + 1) = markChunk (setAllocated sb chunk n) sb.image.metadata.bitmapBase
          (chunk + n) := by
        unfold setAllocated at ih ⊢
        rw [List.range_succ, List.foldl_append, List.foldl_cons, List.foldl_nil, ih.2]
      rw [hset, changeEach_add, changeEach_one, ih.1]
      refine ⟨rfl, ?_⟩
      rw [← ih.2]
      exact (Sb.put_fixed _ _ _).2.2.2.2.1
  rw [(hbase count).1]

/-- Flag 1 sets and flag 2 clears the bits of the range and no other bit; flag 0 changes nothing and tells whether all of
them are clear. -/
theorem change_bits_exact (sb : Sb D) (start count base : Nat) : ∃ bound, ∀ rounds ≥ bound,
    (∃ sb', changeBits rounds sb start count base .set = some (true, sb') ∧ RangeChanged sb sb' start count base true) ∧
    (∃ sb', changeBits rounds sb start count base .clear = some (true, sb') ∧
      RangeChanged sb sb' start count base false) ∧
    ∃ ok, changeBits rounds sb start count base .test = some (ok, sb) ∧
      (ok = true ↔ ∀ i < count, sb.chunkBit base (start + i) = false) := by
  refine ⟨count + 1, fun rounds hrounds => ⟨⟨_, ?_, (changeEach_spec sb start count base true).1⟩,
    ⟨_, ?_, (changeEach_spec sb start count base false).1⟩, changeBlocks_test (fun _ => rfl) hrounds⟩⟩
  · exact changeBlocks_change (.inl ⟨rfl, rfl⟩) (fun _ => rfl) hrounds
  · exact changeBlocks_change (.inr ⟨rfl, rfl⟩) (fun _ => rfl) hrounds

end Ddsnap
