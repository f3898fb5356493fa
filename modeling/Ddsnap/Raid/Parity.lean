import Mathlib.Algebra.Group.Nat.Defs
import Mathlib.Data.BitVec
import Mathlib.Logic.Function.Basic

/-!
# Parity of a ddraid block

A block of the array (`dm-ddraid.c`) is cut into fragments, one for each data member, and the last member has their
parity.  `compute_parity` has a loop for any number of fragments, and for blocks of 4096 bytes one that is written out
for 2, 4, 8 and 16 of them.

When a data member is dead, `clone_read_endio` copies the parity over the missing fragment and computes the parity of
the block with that fragment as the destination.  The loop then overwrites a word of its input in every round, but only
one that no later round reads.

The memory is addressed by words of the type `xor_t`.
-/

namespace Ddraid.Parity

/-- `xor_t`. -/
abbrev Word := BitVec 64

abbrev Words := Nat → Word

/-- What the parity needs of `struct devinfo`. -/
structure Devinfo where
  blocksizeBits : Nat
  fragsizeBits : Nat
  members : Nat

variable (info : Devinfo)

def blocksize : Nat := 2 ^ info.blocksizeBits

def frags : Nat := info.members - 1

/-- `fragsize / sizeof(xor_t)`. -/
def stride : Nat := 2 ^ info.fragsizeBits / 8

/-! ### Loops -/

/-- `for (; p < limit; p += step, v += step)`.  The first argument bounds the rounds: `limit - p` are enough. -/
def loop (body : Words → Nat → Nat → Words) (step limit : Nat) : Nat → Words → Nat → Nat → Words
  | 0, m, _, _ => m
  | fuel + 1, m, v, p =>
    if p < limit then loop body step limit fuel (body m v p) (v + step) (p + step) else m

/-- `while (n--) x ^= *(q += stride)`. -/
def xorOnto (m : Words) (stride : Nat) : Nat → Nat → Word → Word
  | 0, _, x => x
  | n + 1, q, x => xorOnto m stride n (q + stride) (x ^^^ m (q + stride))

/-- The parity of the words at `v`. -/
def parityWord (m : Words) (v : Nat) : Word := xorOnto m (stride info) (frags info - 1) v (m v)

/-- The loop for any number of fragments. -/
def genericParity (m : Words) (v p : Nat) : Words :=
  loop (fun m v p => Function.update m p (parityWord info m v)) 1 (p + stride info) (stride info) m v p

/-- `S4K2`, `S4K4`, `S4K8` and `S4K16`. -/
def s4k (n : Nat) : Nat := 4096 / (n * 8)

/-- The body of the loop for two fragments, with four words. -/
def body2 (m : Words) (v p : Nat) : Words :=
  let m := Function.update m (p + 0) (m (v + 0) ^^^ m (v + 0 + s4k 2))
  let m := Function.update m (p + 1) (m (v + 1) ^^^ m (v + 1 + s4k 2))
  let m := Function.update m (p + 2) (m (v + 2) ^^^ m (v + 2 + s4k 2))
  Function.update m (p + 3) (m (v + 3) ^^^ m (v + 3 + s4k 2))

def body4 (m : Words) (v p : Nat) : Words :=
  Function.update m p (m (v + 0 * s4k 4) ^^^ m (v + 1 * s4k 4) ^^^ m (v + 2 * s4k 4) ^^^ m (v + 3 * s4k 4))

def body8 (m : Words) (v p : Nat) : Words :=
  Function.update m p
    (m (v + 0 * s4k 8) ^^^ m (v + 1 * s4k 8) ^^^ m (v + 2 * s4k 8) ^^^ m (v + 3 * s4k 8) ^^^
      m (v + 4 * s4k 8) ^^^ m (v + 5 * s4k 8) ^^^ m (v + 6 * s4k 8) ^^^ m (v + 7 * s4k 8))

def body16 (m : Words) (v p : Nat) : Words :=
  Function.update m p
    (m (v + 0 * s4k 16) ^^^ m (v + 1 * s4k 16) ^^^ m (v + 2 * s4k 16) ^^^ m (v + 3 * s4k 16) ^^^
      m (v + 4 * s4k 16) ^^^ m (v + 5 * s4k 16) ^^^ m (v + 6 * s4k 16) ^^^ m (v + 7 * s4k 16) ^^^
      m (v + 8 * s4k 16) ^^^ m (v + 9 * s4k 16) ^^^ m (v + 10 * s4k 16) ^^^ m (v + 11 * s4k 16) ^^^
      m (v + 12 * s4k 16) ^^^ m (v + 13 * s4k 16) ^^^ m (v + 14 * s4k 16) ^^^ m (v + 15 * s4k 16))

def computeParity (m : Words) (v p : Nat) : Words :=
  match if blocksize info = 4096 then frags info else 0 with
  | 2 => loop body2 4 (p + stride info) (stride info) m v p
  | 4 => loop body4 1 (p + stride info) (stride info) m v p
  | 8 => loop body8 1 (p + stride info) (stride info) m v p
  | 16 => loop body16 1 (p + stride info) (stride info) m v p
  | _ => genericParity info m v p

/-- `verify_parity`, with `n` words to go. -/
def verifyFrom (m : Words) : Nat → Nat → Nat → Int
  | 0, _, _ => 0
  | n + 1, v, p => if m p ^^^ parityWord info m v ≠ 0 then -1 else verifyFrom m n (v + 1) (p + 1)

def verifyParity (m : Words) (v p : Nat) : Int := verifyFrom info m (stride info) v p

/-- `memcpy` of `n` words. -/
def memcpy (m : Words) (dst src n : Nat) : Words :=
  fun x => if dst ≤ x ∧ x < dst + n then m (src + (x - dst)) else m x

/-- A block in `clone_read_endio` when a data member is dead: `s` is the block, `p` its parity. -/
def reconstruct (m : Words) (s p dead : Nat) : Words :=
  let d := s + dead * stride info
  computeParity info (memcpy m d p (stride info)) s d

/-! ### The written out loops -/

variable {info}

/-- The body for any number of fragments. -/
def genericBody (info : Devinfo) (m : Words) (v p : Nat) : Words := Function.update m p (parityWord info m v)

private theorem genericParity_eq (m : Words) (v p : Nat) :
    genericParity info m v p = loop (genericBody info) 1 (p + stride info) (stride info) m v p := rfl

private theorem loop_four {body four : Words → Nat → Nat → Words}
    (h : ∀ m v p, four m v p =
      body (body (body (body m v p) (v + 1) (p + 1)) (v + 2) (p + 2)) (v + 3) (p + 3))
    (k fuel : Nat) (hfuel : k ≤ fuel) (m : Words) (v p : Nat) :
    loop four 4 (p + 4 * k) fuel m v p = loop body 1 (p + 4 * k) (4 * k) m v p := by
  induction k generalizing fuel m v p with
  | zero =>
    cases fuel with
    | zero => rfl
    | succ fuel => exact if_neg (by omega)
  | succ k ih =>
    obtain ⟨fuel, rfl⟩ : ∃ n, fuel = n + 1 := ⟨fuel - 1, by omega⟩
    have hlimit : p + 4 * (k + 1) = p + 4 + 4 * k := by omega
    have hrounds : 4 * (k + 1) = 4 * k + 1 + 1 + 1 + 1 := by omega
    rw [hlimit, hrounds, loop, if_pos (by omega), ih fuel (by omega), h]
    rw [loop, if_pos (by omega), loop, if_pos (by omega), loop, if_pos (by omega), loop, if_pos (by omega)]

/-- An array of `2 ^ k` data members and one for the parity, with blocks of 4096 bytes. -/
def arrayOf (k : Nat) : Devinfo := ⟨12, 12 - k, 2 ^ k + 1⟩

private theorem body2_eq (m : Words) (v p : Nat) : body2 m v p =
    genericBody (arrayOf 1) (genericBody (arrayOf 1) (genericBody (arrayOf 1) (genericBody (arrayOf 1) m v p)
      (v + 1) (p + 1)) (v + 2) (p + 2)) (v + 3) (p + 3) := rfl

private theorem body4_eq : body4 = genericBody (arrayOf 2) := by
  have hstride : stride (arrayOf 2) = 128 := by decide
  have hfrags : frags (arrayOf 2) - 1 = 3 := by decide
  have hs4k : s4k 4 = 128 := by decide
  funext m v p
  rw [body4, genericBody, parityWord, hstride, hfrags]
  simp only [xorOnto, hs4k, Nat.add_assoc, Nat.reduceAdd, Nat.reduceMul, Nat.add_zero]

private theorem body8_eq : body8 = genericBody (arrayOf 3) := by
  have hstride : stride (arrayOf 3) = 64 := by decide
  have hfrags : frags (arrayOf 3) - 1 = 7 := by decide
  have hs4k : s4k 8 = 64 := by decide
  funext m v p
  rw [body8, genericBody, parityWord, hstride, hfrags]
  simp only [xorOnto, hs4k, Nat.add_assoc, Nat.reduceAdd, Nat.reduceMul, Nat.add_zero]

private theorem body16_eq : body16 = genericBody (arrayOf 4) := by
  have hstride : stride (arrayOf 4) = 32 := by decide
  have hfrags : frags (arrayOf 4) - 1 = 15 := by decide
  have hs4k : s4k 16 = 32 := by decide
  funext m v p
  rw [body16, genericBody, parityWord, hstride, hfrags]
  simp only [xorOnto, hs4k, Nat.add_assoc, Nat.reduceAdd, Nat.reduceMul, Nat.add_zero]

private theorem computeParity_eq {k : Nat} (hk : 1 ≤ k ∧ k ≤ 4) (m : Words) (v p : Nat) :
    computeParity (arrayOf k) m v p = genericParity (arrayOf k) m v p := by
  obtain rfl | rfl | rfl | rfl : k = 1 ∨ k = 2 ∨ k = 3 ∨ k = 4 := by omega
  · have hcase : (if blocksize (arrayOf 1) = 4096 then frags (arrayOf 1) else 0) = 2 := by decide
    have hstride : stride (arrayOf 1) = 4 * 64 := by decide
    rw [computeParity, hcase, genericParity_eq, hstride]
    exact loop_four body2_eq 64 (4 * 64) (by decide) m v p
  · have hcase : (if blocksize (arrayOf 2) = 4096 then frags (arrayOf 2) else 0) = 4 := by decide
    rw [computeParity, hcase, genericParity_eq, body4_eq]
    rfl
  · have hcase : (if blocksize (arrayOf 3) = 4096 then frags (arrayOf 3) else 0) = 8 := by decide
    rw [computeParity, hcase, genericParity_eq, body8_eq]
    rfl
  · have hcase : (if blocksize (arrayOf 4) = 4096 then frags (arrayOf 4) else 0) = 16 := by decide
    rw [computeParity, hcase, genericParity_eq, body16_eq]
    rfl

/-! ### Sums of words -/

/-- The first `n` words of a sequence, added up without carry. -/
def xorSum (f : Nat → Word) : Nat → Word
  | 0 => 0
  | n + 1 => f 0 ^^^ xorSum (fun t => f (t + 1)) n

private theorem xorSum_congr {f g : Nat → Word} {n : Nat} (h : ∀ t < n, f t = g t) : xorSum f n = xorSum g n := by
  induction n generalizing f g with
  | zero => rfl
  | succ n ih => rw [xorSum, xorSum, h 0 (by omega), ih fun t ht => h (t + 1) (by omega)]

private theorem xorSum_except {f g : Nat → Word} {n d : Nat} (hd : d < n) (h : ∀ t < n, t ≠ d → f t = g t) :
    xorSum f n ^^^ f d = xorSum g n ^^^ g d := by
  induction n generalizing f g d with
  | zero => omega
  | succ n ih =>
    rw [xorSum, xorSum]
    cases d with
    | zero =>
      have hrest : xorSum (fun t => f (t + 1)) n = xorSum (fun t => g (t + 1)) n :=
        xorSum_congr fun t ht => h (t + 1) (by omega) (by omega)
      rw [BitVec.xor_comm (f 0), BitVec.xor_comm (g 0), BitVec.xor_assoc, BitVec.xor_assoc, BitVec.xor_self,
        BitVec.xor_self, hrest]
    | succ d =>
      rw [h 0 (by omega) (by omega), BitVec.xor_assoc, BitVec.xor_assoc]
      exact congrArg (g 0 ^^^ ·) (ih (by omega) fun t ht hne => h (t + 1) (by omega) (by omega))

private theorem xorOnto_eq (m : Words) (s n q : Nat) (x : Word) :
    xorOnto m s n q x = x ^^^ xorSum (fun t => m (q + (t + 1) * s)) n := by
  induction n generalizing q x with
  | zero => exact (BitVec.xor_zero).symm
  | succ n ih =>
    rw [xorOnto, ih, xorSum, BitVec.xor_assoc, Nat.zero_add, Nat.one_mul]
    congr 2
    refine xorSum_congr fun t _ => congrArg m ?_
    rw [Nat.succ_mul (t + 1)]
    omega

private theorem parityWord_eq (hfrags : 1 ≤ frags info) (m : Words) (v : Nat) :
    parityWord info m v = xorSum (fun t => m (v + t * stride info)) (frags info) := by
  obtain ⟨n, hn⟩ : ∃ n, frags info = n + 1 := ⟨frags info - 1, by omega⟩
  rw [parityWord, xorOnto_eq, hn, xorSum, Nat.zero_mul, Nat.add_sub_cancel]
  rfl

private theorem parityWord_congr (hfrags : 1 ≤ frags info) {m m' : Words} {v : Nat}
    (h : ∀ t < frags info, m (v + t * stride info) = m' (v + t * stride info)) :
    parityWord info m v = parityWord info m' v := by
  rw [parityWord_eq hfrags, parityWord_eq hfrags]
  exact xorSum_congr h

/-! ### The loop -/

/-- No round of the loop reads a word that an earlier round has written. -/
def NoClash (info : Devinfo) (n v p : Nat) : Prop :=
  ∀ i < n, ∀ j < i, ∀ t < frags info, p + j ≠ v + i + t * stride info

private theorem loop_spec (hfrags : 1 ≤ frags info) {n : Nat} {m : Words} {v p : Nat} (h : NoClash info n v p)
    (x : Nat) : loop (genericBody info) 1 (p + n) n m v p x =
      if p ≤ x ∧ x < p + n then parityWord info m (v + (x - p)) else m x := by
  induction n generalizing m v p with
  | zero => exact (if_neg (by omega)).symm
  | succ n ih =>
    have hlater : NoClash info n (v + 1) (p + 1) := fun i hi j hj t ht => by
      have := h (i + 1) (by omega) (j + 1) (by omega) t ht
      omega
    rw [loop, if_pos (by omega), show p + (n + 1) = p + 1 + n by omega, ih hlater]
    by_cases hin : p + 1 ≤ x ∧ x < p + 1 + n
    · rw [if_pos hin, if_pos (by omega), show v + 1 + (x - (p + 1)) = v + (x - p) by omega]
      refine parityWord_congr hfrags fun t ht => ?_
      have := h (x - p) (by omega) 0 (by omega) t ht
      exact Function.update_of_ne (by omega) _ _
    · rw [if_neg hin]
      by_cases hx : x = p
      · subst hx
        rw [if_pos (by omega), Nat.sub_self, Nat.add_zero]
        exact Function.update_self _ _ _
      · rw [if_neg (by omega)]
        exact Function.update_of_ne hx _ _

private theorem genericParity_spec (hfrags : 1 ≤ frags info) {m : Words} {v p : Nat}
    (h : NoClash info (stride info) v p) (x : Nat) : genericParity info m v p x =
      if p ≤ x ∧ x < p + stride info then parityWord info m (v + (x - p)) else m x := loop_spec hfrags h x

/-- The parity lies outside the block. -/
def Apart (info : Devinfo) (v p : Nat) : Prop := p + stride info ≤ v ∨ v + frags info * stride info ≤ p

private theorem fragment_lt {t i : Nat} (ht : t < frags info) (hi : i < stride info) :
    i + t * stride info < frags info * stride info := by
  have := Nat.mul_le_mul_right (stride info) (show t + 1 ≤ frags info from ht)
  rw [Nat.succ_mul] at this
  omega

private theorem Apart.noClash {v p : Nat} (h : Apart info v p) : NoClash info
    (stride info) v p := fun i hi j hj t ht => by
  have := fragment_lt ht hi
  unfold Apart at h
  omega

private theorem noClash_fragment (v dead : Nat) : NoClash info (stride info) v
    (v + dead * stride info) := fun i hi j hj t _ => by
  rcases Nat.lt_trichotomy t dead with hlt | rfl | hlt
  · have := Nat.mul_le_mul_right (stride info) (show t + 1 ≤ dead from hlt)
    rw [Nat.succ_mul] at this
    omega
  · omega
  · have := Nat.mul_le_mul_right (stride info) (show dead + 1 ≤ t from hlt)
    rw [Nat.succ_mul] at this
    omega

private theorem verifyFrom_eq_zero {m : Words} {n v p : Nat} (h : ∀ i < n, m (p + i) = parityWord info m (v + i)) :
    verifyFrom info m n v p = 0 := by
  induction n generalizing v p with
  | zero => rfl
  | succ n ih =>
    have hfirst : m p = parityWord info m v := h 0 (by omega)
    rw [verifyFrom, hfirst, BitVec.xor_self, if_neg (by simp)]
    refine ih fun i hi => ?_
    have := h (i + 1) (by omega)
    rwa [show p + (i + 1) = p + 1 + i by omega, show v + (i + 1) = v + 1 + i by omega] at this

private theorem verifyParity_genericParity (hfrags : 1 ≤ frags info) {m : Words} {v p : Nat} (h : Apart info v p) :
    verifyParity info (genericParity info m v p) v p = 0 := by
  refine verifyFrom_eq_zero fun i hi => ?_
  rw [genericParity_spec hfrags h.noClash, if_pos (by omega), Nat.add_sub_cancel_left]
  refine parityWord_congr hfrags fun t ht => ?_
  have := fragment_lt ht hi
  unfold Apart at h
  rw [genericParity_spec hfrags (Apart.noClash h), if_neg (by omega)]

/-! ### Reconstruction -/

/-- What is left of a block: the other fragments and the parity. -/
structure Survives (info : Devinfo) (m : Words) (v : Nat) (m' : Words) (s q dead : Nat) : Prop where
  data : ∀ t < frags info, t ≠ dead → ∀ i < stride info, m' (s + t * stride info + i) = m (v + t * stride info + i)
  parity : ∀ i < stride info, m' (q + i) = parityWord info m (v + i)

private theorem reconstruct_spec (hfrags : 1 ≤ frags info) {m m' : Words} {v s q dead : Nat} (hdead : dead < frags info)
    (h : Survives info m v m' s q dead) {d : Nat} (hd : d = s + dead * stride info) :
    (∀ i < stride info,
      genericParity info (memcpy m' d q (stride info)) s d (d + i) = m (v + dead * stride info + i)) ∧
    ∀ x, ¬(d ≤ x ∧ x < d + stride info) → genericParity info (memcpy m' d q (stride info)) s d x = m' x := by
  have hspec := genericParity_spec (m := memcpy m' d q (stride info)) hfrags (hd ▸ noClash_fragment s dead)
  refine ⟨fun i hi => ?_, fun x hx => ?_⟩
  · rw [hspec, if_pos (by omega), Nat.add_sub_cancel_left, parityWord_eq hfrags]
    -- the copy has the parity in the dead fragment, and the old words in the others
    have hcopy : ∀ t < frags info, t ≠ dead →
        memcpy m' d q (stride info) (s + i + t * stride info) = m (v + i + t * stride info) := fun t ht hne => by
      have hout : ¬(d ≤ s + i + t * stride info ∧ s + i + t * stride info < d + stride info) := by
        rcases Nat.lt_or_gt_of_ne hne with hlt | hlt
        · have := Nat.mul_le_mul_right (stride info) (show t + 1 ≤ dead from hlt)
          rw [Nat.succ_mul] at this
          omega
        · have := Nat.mul_le_mul_right (stride info) (show dead + 1 ≤ t from hlt)
          rw [Nat.succ_mul] at this
          omega
      rw [memcpy, if_neg hout, Nat.add_right_comm, h.data t ht hne i hi, Nat.add_right_comm]
    have hparity : memcpy m' d q (stride info) (s + i + dead * stride info) = parityWord info m (v + i) := by
      rw [memcpy, if_pos (by omega), show s + i + dead * stride info - d = i by omega, h.parity i hi]
    have hsum := xorSum_except hdead hcopy
    rw [hparity, parityWord_eq hfrags, BitVec.xor_comm (xorSum (fun t => m (v + i + t * stride info)) (frags info))] at hsum
    have hword := BitVec.xor_left_inj _ |>.1 hsum
    rw [hword, Nat.add_right_comm]
  · rw [hspec, if_neg hx]
    exact if_neg hx

private theorem frags_arrayOf (k : Nat) : frags (arrayOf k) = 2 ^ k := Nat.add_sub_cancel _ _

/-- For 2, 4, 8 or 16 fragments of a block of 4096 bytes, the written out loops compute the parity of the general one,
and `verify_parity` accepts it.  A dead fragment is restored from it and from the others, and nothing else changes. -/
theorem parity_reconstructs (k : Nat) (hk : 1 ≤ k ∧ k ≤ 4) (m : Words) (v p : Nat) (hp : Apart (arrayOf k) v p) :
    computeParity (arrayOf k) m v p = genericParity (arrayOf k) m v p ∧
    verifyParity (arrayOf k) (computeParity (arrayOf k) m v p) v p = 0 ∧
    ∀ dead < frags (arrayOf k), ∀ (m' : Words) (s q : Nat),
      (∀ t < frags (arrayOf k), t ≠ dead → ∀ i < stride (arrayOf k),
        m' (s + t * stride (arrayOf k) + i) = m (v + t * stride (arrayOf k) + i)) →
      (∀ i < stride (arrayOf k), m' (q + i) = computeParity (arrayOf k) m v p (p + i)) →
      (∀ i < stride (arrayOf k), reconstruct (arrayOf k) m' s q dead (s + dead * stride (arrayOf k) + i) =
        m (v + dead * stride (arrayOf k) + i)) ∧
      ∀ x, ¬(s + dead * stride (arrayOf k) ≤ x ∧ x < s + dead * stride (arrayOf k) + stride (arrayOf k)) →
        reconstruct (arrayOf k) m' s q dead x = m' x := by
  have hfrags : 1 ≤ frags (arrayOf k) := by
    rw [frags_arrayOf]
    exact Nat.one_le_two_pow
  refine ⟨computeParity_eq hk m v p, ?_, fun dead hdead m' s q hdata hparity => ?_⟩
  · rw [computeParity_eq hk]
    exact verifyParity_genericParity hfrags hp
  · have hsurvives : Survives (arrayOf k) m v m' s q dead := by
      refine ⟨hdata, fun i hi => ?_⟩
      rw [hparity i hi, computeParity_eq hk, genericParity_spec hfrags hp.noClash, if_pos (by omega),
        Nat.add_sub_cancel_left]
    simp only [reconstruct, computeParity_eq hk]
    exact reconstruct_spec hfrags hdead hsurvives rfl

theorem parity_reconstructs_two :
    Apart (arrayOf 1) 0 512 ∧ verifyParity (arrayOf 1) (computeParity (arrayOf 1) (BitVec.ofNat 64) 0 512) 0 512 = 0 :=
  ⟨.inr (by decide), (parity_reconstructs 1 (by decide) (BitVec.ofNat 64) 0 512 (.inr (by decide))).2.1⟩

end Ddraid.Parity
