import Mathlib.Data.List.Perm.Basic
import Mathlib.Data.List.Nodup
import Mathlib.Data.List.Range

/-!
# Bitmaps with deferred slots and a free count

The slots `0, …, n - 1` of an allocator are taken when their bit is set or when they are on a list of deferred slots,
whose bits are set later.  A counter holds the number of free slots; it is checked against the clear bits below a bound
`m` that may be larger than `n`, where the bits from `n` on are set once and for all.
-/

namespace FreeMap

variable {n m free : Nat} {bits bits' : Nat → Bool} {deferred deferred' rest : List Nat} {c : Nat}

/-- The clear bits below a bound. -/
def zeros (m : Nat) (bits : Nat → Bool) : Nat := (List.range m).countP fun c => !bits c

/-- The bits, the deferred slots and the counter fit together. -/
structure Exact (n m : Nat) (bits : Nat → Bool) (deferred : List Nat) (free : Nat) : Prop where
  nodup : deferred.Nodup
  clear : ∀ c ∈ deferred, bits c = false
  inside : ∀ c ∈ deferred, c < n
  tail : ∀ c, n ≤ c → c < m → bits c = true
  bound : n ≤ m
  count : free + deferred.length = zeros m bits

private theorem zeros_congr (h : ∀ x < m, bits' x = bits x) : zeros m bits' = zeros m bits :=
  List.countP_congr fun x hx => by rw [h x (List.mem_range.1 hx)]

private theorem zeros_erase (hc : c < m) (bits : Nat → Bool) :
    zeros m bits = ((List.range m).erase c).countP (fun x => !bits x) + if bits c then 0 else 1 := by
  rw [zeros, (List.perm_cons_erase (List.mem_range.2 hc)).countP_eq, List.countP_cons]
  cases bits c <;> rfl

/-- The slots between two bounds are free. -/
theorem zeros_between {r : Nat} (h : ∀ x < m, bits x = decide (x < r ∨ n ≤ x)) : zeros m bits = min m n - r := by
  induction m with
  | zero => simp [zeros]
  | succ m ih =>
    have hlast := h m (by omega)
    have hrest := ih fun x hx => h x (by omega)
    unfold zeros at hrest ⊢
    rw [List.range_succ, List.countP_append, hrest, List.countP_singleton, hlast]
    by_cases hm : m < r ∨ n ≤ m
    · rw [if_neg (by simp [hm])]
      omega
    · rw [if_pos (by simp [hm])]
      omega

/-- The slots from `n` on are not free. -/
theorem zeros_le (hbound : n ≤ m) (h : ∀ c, n ≤ c → c < m → bits c = true) : zeros m bits ≤ n := by
  obtain ⟨k, rfl⟩ := Nat.exists_eq_add_of_le hbound
  have htail : ((List.range k).map (n + ·)).countP (fun c => !bits c) = 0 := by
    refine List.countP_eq_zero.2 fun c hc => ?_
    obtain ⟨i, hi, rfl⟩ := List.mem_map.1 hc
    simp [h (n + i) (by omega) (by have := List.mem_range.1 hi; omega)]
  rw [zeros, List.range_add, List.countP_append, htail]
  exact List.countP_le_length.trans (by simp)

private theorem zeros_flip (hc : c < m) (h : ∀ x < m, x ≠ c → bits' x = bits x) (hset : bits' c = true)
    (hclear : bits c = false) : zeros m bits' + 1 = zeros m bits := by
  have hrest : ((List.range m).erase c).countP (fun x => !bits' x) =
      ((List.range m).erase c).countP (fun x => !bits x) := by
    refine List.countP_congr fun x hx => ?_
    obtain ⟨hne, hx⟩ := (List.Nodup.mem_erase_iff List.nodup_range).1 hx
    rw [h x (List.mem_range.1 hx) hne]
  rw [zeros_erase hc bits, zeros_erase hc bits', hrest, hset, hclear]
  rfl

/-- The counter is at most the number of slots. -/
theorem Exact.free_le (h : Exact n m bits deferred free) : free ≤ n := by
  have hcount := h.count
  have hzeros := zeros_le h.bound h.tail
  omega

theorem Exact.congr (h : Exact n m bits deferred free) (hb : ∀ x < m, bits' x = bits x)
    (hp : deferred.Perm deferred') : Exact n m bits' deferred' free where
  nodup := hp.nodup_iff.1 h.nodup
  clear x hx := by
    have hold := hp.mem_iff.2 hx
    rw [hb x (Nat.lt_of_lt_of_le (h.inside x hold) h.bound)]
    exact h.clear x hold
  inside x hx := h.inside x (hp.mem_iff.2 hx)
  tail x h1 h2 := (hb x h2).trans (h.tail x h1 h2)
  bound := h.bound
  count := by
    rw [← hp.length_eq, zeros_congr hb]
    exact h.count

/-- A slot whose bit is clear is a slot of the allocator. -/
theorem Exact.lt (h : Exact n m bits deferred free) (hc : c < m) (hb : bits c = false) : c < n := by
  by_contra hn
  rw [h.tail c (Nat.le_of_not_lt hn) hc] at hb
  cases hb

theorem Exact.pos (h : Exact n m bits deferred free) (hc : c < m) (hb : bits c = false) (hd : c ∉ deferred) :
    0 < free := by
  have hsub : (c :: deferred).Subperm ((List.range m).filter fun x => !bits x) := by
    refine List.subperm_of_subset (List.nodup_cons.2 ⟨hd, h.nodup⟩) fun x hx => ?_
    rw [List.mem_filter, List.mem_range]
    rcases List.mem_cons.1 hx with rfl | hx
    · exact ⟨hc, by rw [hb]; rfl⟩
    · exact ⟨Nat.lt_of_lt_of_le (h.inside x hx) h.bound, by rw [h.clear x hx]; rfl⟩
  have hlen := hsub.length_le
  rw [← List.countP_eq_length_filter, List.length_cons] at hlen
  have := h.count
  unfold zeros at this
  omega

/-- A free slot is deferred. -/
theorem Exact.defer (h : Exact n m bits deferred free) (hc : c < m) (hb : bits c = false) (hd : c ∉ deferred) :
    Exact n m bits (c :: deferred) (free - 1) where
  nodup := List.nodup_cons.2 ⟨hd, h.nodup⟩
  clear x hx := by
    rcases List.mem_cons.1 hx with rfl | hx
    · exact hb
    · exact h.clear x hx
  inside x hx := by
    rcases List.mem_cons.1 hx with rfl | hx
    · exact h.lt hc hb
    · exact h.inside x hx
  tail := h.tail
  bound := h.bound
  count := by
    have h1 := h.count
    have h2 := h.pos hc hb hd
    rw [List.length_cons]
    omega

/-- The bit of a free slot is set. -/
theorem Exact.mark (h : Exact n m bits deferred free) (hc : c < m) (hb : bits c = false) (hd : c ∉ deferred)
    (hset : bits' c = true) (hkeep : ∀ x < m, x ≠ c → bits' x = bits x) : Exact n m bits' deferred (free - 1) where
  nodup := h.nodup
  clear x hx := by
    rw [hkeep x (Nat.lt_of_lt_of_le (h.inside x hx) h.bound) fun e => hd (e ▸ hx)]
    exact h.clear x hx
  inside := h.inside
  tail x h1 h2 := by
    rw [hkeep x h2 fun e => Nat.not_lt.2 h1 (e ▸ h.lt hc hb)]
    exact h.tail x h1 h2
  bound := h.bound
  count := by
    have h1 := h.count
    have h2 := h.pos hc hb hd
    have h3 := zeros_flip hc hkeep hset hb
    omega

/-- The bit of a slot is cleared. -/
theorem Exact.unmark (h : Exact n m bits deferred free) (hc : c < n) (hb : bits c = true) (hclear : bits' c = false)
    (hkeep : ∀ x < m, x ≠ c → bits' x = bits x) : Exact n m bits' deferred (free + 1) where
  nodup := h.nodup
  clear x hx := by
    by_cases hxc : x = c
    · exact hxc ▸ hclear
    · rw [hkeep x (Nat.lt_of_lt_of_le (h.inside x hx) h.bound) hxc]
      exact h.clear x hx
  inside := h.inside
  tail x h1 h2 := by
    rw [hkeep x h2 (by omega)]
    exact h.tail x h1 h2
  bound := h.bound
  count := by
    have h1 := h.count
    have h3 := zeros_flip (Nat.lt_of_lt_of_le hc h.bound) (fun x hx hne => (hkeep x hx hne).symm) hb hclear
    omega

private theorem Exact.settle (h : Exact n m bits (c :: rest) free) (hset : bits' c = true)
    (hkeep : ∀ x < m, x ≠ c → bits' x = bits x) : Exact n m bits' rest free := by
  obtain ⟨hd, hnd⟩ := List.nodup_cons.1 h.nodup
  have hc := h.inside c List.mem_cons_self
  have hb := h.clear c List.mem_cons_self
  refine ⟨hnd, fun x hx => ?_, fun x hx => h.inside x (List.mem_cons_of_mem _ hx), fun x h1 h2 => ?_, h.bound, ?_⟩
  · have hin := h.inside x (List.mem_cons_of_mem _ hx)
    rw [hkeep x (Nat.lt_of_lt_of_le hin h.bound) fun e => hd (e ▸ hx)]
    exact h.clear x (List.mem_cons_of_mem _ hx)
  · rw [hkeep x h2 (by omega)]
    exact h.tail x h1 h2
  · have h1 := h.count
    have h3 := zeros_flip (Nat.lt_of_lt_of_le hc h.bound) hkeep hset hb
    rw [List.length_cons] at h1
    omega

/-- The accounts of a new bitmap, whose first slots are reserved. -/
theorem Exact.initial {r : Nat} (hbound : n ≤ m) (h : ∀ x < m, bits x = decide (x < r ∨ n ≤ x)) :
    Exact n m bits [] (n - r) where
  nodup := .nil
  clear c hc := by cases hc
  inside c hc := by cases hc
  tail c h1 h2 := by rw [h c h2]; simp [h1]
  bound := hbound
  count := by rw [zeros_between h, Nat.min_eq_right hbound]; rfl

/-- The bits of some deferred slots are set, and these slots leave the list. -/
theorem Exact.settleAll {moved : List Nat} (h : Exact n m bits (moved ++ rest) free) (hset : ∀ x ∈ moved, bits' x = true)
    (hkeep : ∀ x < m, x ∉ moved → bits' x = bits x) : Exact n m bits' rest free := by
  induction moved generalizing bits with
  | nil => exact h.congr (fun x hx => hkeep x hx (by simp)) (.refl _)
  | cons c moved ih =>
    have hfirst : Exact n m (fun x => decide (x = c) || bits x) (moved ++ rest) free :=
      Exact.settle h (by simp) fun x _ hne => by simp [hne]
    refine ih hfirst (fun x hx => hset x (List.mem_cons_of_mem _ hx)) fun x hx hn => ?_
    by_cases hxc : x = c
    · rw [hxc, hset c List.mem_cons_self]
      simp
    · rw [hkeep x hx (by simp [hxc, hn])]
      simp [hxc]

end FreeMap
