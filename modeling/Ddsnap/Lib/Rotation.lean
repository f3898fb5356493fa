import Ddsnap.Lib.RingLog

/-!
# Lists read from the middle

A ring read cell by cell gives the log with its two halves exchanged.  `RingLog.Rotation r cs xs` says that `cs` is
`xs` read from such a place: element number `k` of `xs` stands at index `(r + k) % m` of `cs`.
-/

namespace RingLog

variable {α : Type*} {r : Nat} {cs xs : List α}

/-- `cs` holds the elements of `xs`, element `k` at index `(r + k) % xs.length`. -/
structure Rotation (r : Nat) (cs xs : List α) : Prop where
  length_eq : cs.length = xs.length
  get : ∀ k, k < xs.length → cs[(r + k) % xs.length]? = xs[k]?

/-- Two lists joined in the other order. -/
theorem Rotation.of_append (a b : List α) : Rotation b.length (b ++ a) (a ++ b) := by
  refine ⟨by simp [Nat.add_comm], ?_⟩
  intro k hk
  rw [List.length_append] at hk ⊢
  by_cases ha : k < a.length
  · rw [Nat.mod_eq_of_lt (by omega), List.getElem?_append_left ha, List.getElem?_append_right (by omega)]
    congr 1; omega
  · have hmod : (b.length + k) % (a.length + b.length) = k - a.length := by
      rw [show b.length + k = (k - a.length) + (a.length + b.length) by omega, Nat.add_mod_right,
        Nat.mod_eq_of_lt (by omega)]
    rw [hmod, List.getElem?_append_left (show k - a.length < b.length by omega),
      List.getElem?_append_right (show a.length ≤ k by omega)]

/-- Every index of a ring of `m` cells is reached from `r`. -/
theorem exists_index {m i : Nat} (r : Nat) (hi : i < m) : ∃ k, k < m ∧ (r + k) % m = i := by
  refine ⟨(i + (m - r % m)) % m, Nat.mod_lt _ (by omega), ?_⟩
  have hr : r % m < m := Nat.mod_lt _ (by omega)
  rw [Nat.add_mod, Nat.mod_mod, ← Nat.add_mod, Nat.add_mod r, Nat.add_mod_mod,
    show r % m + (i + (m - r % m)) = i + m by omega, Nat.add_mod_right, Nat.mod_eq_of_lt hi]

/-- The numbers of two elements at one index are equal. -/
theorem index_inj {m k l : Nat} (hk : k < m) (hl : l < m) (h : (r + k) % m = (r + l) % m) : k = l := by
  rcases Nat.le_total k l with hkl | hkl
  · have := mod_inj h (by omega) (by omega); omega
  · have := mod_inj h.symm (by omega) (by omega); omega

theorem Rotation.mem_iff (h : Rotation r cs xs) {x : α} : x ∈ cs ↔ x ∈ xs := by
  rw [List.mem_iff_getElem?, List.mem_iff_getElem?]
  constructor
  · rintro ⟨i, hi⟩
    obtain ⟨hlt, -⟩ := List.getElem?_eq_some_iff.1 hi
    obtain ⟨k, hk, rfl⟩ := exists_index r (h.length_eq ▸ hlt)
    exact ⟨k, by rw [← h.get k hk]; exact hi⟩
  · rintro ⟨k, hk⟩
    obtain ⟨hlt, -⟩ := List.getElem?_eq_some_iff.1 hk
    exact ⟨_, by rw [h.get k hlt]; exact hk⟩

end RingLog
