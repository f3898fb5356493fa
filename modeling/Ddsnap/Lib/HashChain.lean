import Mathlib.Algebra.BigOperators.Group.Finset.Basic
import Mathlib.Algebra.GroupWithZero.Nat
import Mathlib.Data.List.Nodup

/-!
# Chained hash tables

A table of chains, where an element with key `k` stands in the chain of the hash of `k`.  The operations are those of
an implementation with linked lists: a chain is replaced by what is left of it after its elements were changed or
unlinked, or an element is put in front of it.
-/

namespace HashChain

variable {α κ : Type*} [DecidableEq κ] {key : α → κ} {hash : κ → Nat} {t : Nat → List α} {k : κ} {x : α} {i : Nat}

/-- The first element with a key in its chain. -/
def lookup (key : α → κ) (hash : κ → Nat) (t : Nat → List α) (k : κ) : Option α :=
  (t (hash k)).find? fun x => key x = k

/-- Every element is in its chain, and no chain has two elements with one key. -/
structure WellPlaced (key : α → κ) (hash : κ → Nat) (t : Nat → List α) : Prop where
  placed : ∀ i, ∀ x ∈ t i, hash (key x) = i
  nodup : ∀ i, ((t i).map key).Nodup

omit [DecidableEq κ] in
theorem WellPlaced.nil : WellPlaced key hash fun _ => [] := ⟨by simp, by simp⟩

private theorem find?_eq_some_of_nodup {l : List α} (h : (l.map key).Nodup) (hx : x ∈ l) (hk : key x = k) :
    (l.find? fun y => key y = k) = some x := by
  induction l with
  | nil => cases hx
  | cons y l ih =>
    rw [List.map_cons, List.nodup_cons] at h
    rcases List.mem_cons.1 hx with rfl | hx
    · simp [hk]
    · have hne : key y ≠ k := fun e => h.1 (by rw [e, ← hk]; exact List.mem_map_of_mem hx)
      rw [List.find?_cons_of_neg (by simpa using hne)]
      exact ih h.2 hx

theorem lookup_eq_some (h : WellPlaced key hash t) : lookup key hash t k = some x ↔ x ∈ t (hash k) ∧ key x = k := by
  constructor
  · intro hf
    exact ⟨List.mem_of_find?_eq_some hf, by simpa using List.find?_some hf⟩
  · rintro ⟨hx, hk⟩
    exact find?_eq_some_of_nodup (h.nodup _) hx hk

theorem WellPlaced.lookup_of_mem (h : WellPlaced key hash t) (hx : x ∈ t i) : lookup key hash t (key x) = some x :=
  (lookup_eq_some h).2 ⟨h.placed i x hx ▸ hx, rfl⟩

/-! ### A chain is rewritten -/

section Rewrite

variable {g : α → Option α} (hg : ∀ x y, g x = some y → key y = key x)

include hg

omit [DecidableEq κ] in
private theorem map_key_filterMap (l : List α) : ((l.filterMap g).map key).Sublist (l.map key) := by
  induction l with
  | nil => simp
  | cons x l ih =>
    cases hx : g x with
    | none => rw [List.filterMap_cons_none hx]; exact ih.cons _
    | some y =>
      rw [List.filterMap_cons_some hx, List.map_cons, List.map_cons, hg x y hx]
      exact ih.cons_cons _

private theorem find?_filterMap {l : List α} (h : (l.map key).Nodup) :
    ((l.filterMap g).find? fun y => key y = k) = (l.find? fun y => key y = k).bind g := by
  induction l with
  | nil => rfl
  | cons x l ih =>
    rw [List.map_cons, List.nodup_cons] at h
    by_cases hk : key x = k
    · rw [List.find?_cons_of_pos (by simpa using hk), Option.bind_some]
      cases hx : g x with
      | none =>
        rw [List.filterMap_cons_none hx, List.find?_eq_none]
        intro y hy hyk
        -- the keys of a chain are distinct, so nothing else in it has this key
        have hmem := (map_key_filterMap hg l).subset (List.mem_map_of_mem hy)
        rw [show key y = key x from (by simpa using hyk : key y = k).trans hk.symm] at hmem
        exact h.1 hmem
      | some y =>
        rw [List.filterMap_cons_some hx, List.find?_cons_of_pos (by simp [hg x y hx, hk])]
    · rw [List.find?_cons_of_neg (by simpa using hk), ← ih h.2]
      cases hx : g x with
      | none => rw [List.filterMap_cons_none hx]
      | some y => rw [List.filterMap_cons_some hx, List.find?_cons_of_neg (by simpa [hg x y hx] using hk)]

omit [DecidableEq κ] in
/-- A chain whose elements are changed or unlinked. -/
theorem WellPlaced.rewrite (h : WellPlaced key hash t) (i : Nat) :
    WellPlaced key hash (Function.update t i ((t i).filterMap g)) := by
  constructor
  · intro j y hy
    rcases eq_or_ne j i with rfl | hj
    · rw [Function.update_self, List.mem_filterMap] at hy
      obtain ⟨x, hx, hxy⟩ := hy
      rw [hg x y hxy]
      exact h.placed j x hx
    · rw [Function.update_of_ne hj] at hy
      exact h.placed j y hy
  · intro j
    rcases eq_or_ne j i with rfl | hj
    · rw [Function.update_self]
      exact (h.nodup j).sublist (map_key_filterMap hg _)
    · rw [Function.update_of_ne hj]
      exact h.nodup j

theorem WellPlaced.lookup_rewrite (h : WellPlaced key hash t) (i : Nat) (k : κ) :
    lookup key hash (Function.update t i ((t i).filterMap g)) k =
      if hash k = i then (lookup key hash t k).bind g else lookup key hash t k := by
  unfold lookup
  split_ifs with hi
  · rw [hi, Function.update_self, find?_filterMap hg (h.nodup i)]
  · rw [Function.update_of_ne hi]

end Rewrite

/-! ### The element with one key is rewritten -/

/-- The element with a key is changed or unlinked, and the others are left alone. -/
def rewriteKey (key : α → κ) (k : κ) (g : α → Option α) (x : α) : Option α := if key x = k then g x else some x

theorem rewriteKey_key {g : α → Option α} (hg : ∀ x y, g x = some y → key y = key x) (x y : α)
    (h : rewriteKey key k g x = some y) : key y = key x := by
  unfold rewriteKey at h
  split_ifs at h with hk
  · exact hg x y h
  · rw [Option.some.inj h]

private theorem filterMap_rewriteKey_of_forall_ne {g : α → Option α} {l : List α} (h : ∀ x ∈ l, key x ≠ k) :
    l.filterMap (rewriteKey key k g) = l := by
  calc l.filterMap (rewriteKey key k g) = l.filterMap some :=
        List.filterMap_congr fun x hx => if_neg (h x hx)
    _ = l := List.filterMap_some

/-- In a chain with distinct keys nothing behind the element with a key is rewritten. -/
theorem filterMap_rewriteKey_cons {g : α → Option α} {l : List α} (h : ((x :: l).map key).Nodup) :
    (x :: l).filterMap (rewriteKey key k g) =
      if key x = k then (g x).toList ++ l else x :: l.filterMap (rewriteKey key k g) := by
  rw [List.map_cons, List.nodup_cons] at h
  split_ifs with hk
  · have hl : l.filterMap (rewriteKey key k g) = l :=
      filterMap_rewriteKey_of_forall_ne fun y hy e => h.1 (by rw [hk, ← e]; exact List.mem_map_of_mem hy)
    cases hx : g x with
    | none => rw [List.filterMap_cons_none (by rw [rewriteKey, if_pos hk, hx]), hl]; rfl
    | some y => rw [List.filterMap_cons_some (by rw [rewriteKey, if_pos hk, hx]), hl]; rfl
  · rw [List.filterMap_cons_some (by rw [rewriteKey, if_neg hk])]

theorem WellPlaced.lookup_rewriteKey {g : α → Option α} (hg : ∀ x y, g x = some y → key y = key x)
    (h : WellPlaced key hash t) (k k' : κ) :
    lookup key hash (Function.update t (hash k) ((t (hash k)).filterMap (rewriteKey key k g))) k' =
      if k' = k then (lookup key hash t k).bind g else lookup key hash t k' := by
  rw [h.lookup_rewrite (rewriteKey_key hg)]
  cases hl : lookup key hash t k' with
  | none =>
    rcases eq_or_ne k' k with rfl | hk
    · simp [hl]
    · simp [hk]
  | some x =>
    have hx := ((lookup_eq_some h).1 hl).2
    rcases eq_or_ne k' k with rfl | hk
    · simp [hl, rewriteKey, hx]
    · simp [hk, rewriteKey, hx]

/-! ### An element is put in front -/

/-- An element with a key that is not in the table. -/
theorem WellPlaced.push (h : WellPlaced key hash t) (x : α) (hx : lookup key hash t (key x) = none) :
    WellPlaced key hash (Function.update t (hash (key x)) (x :: t (hash (key x)))) := by
  constructor
  · intro j y hy
    rcases eq_or_ne j (hash (key x)) with rfl | hj
    · rw [Function.update_self] at hy
      rcases List.mem_cons.1 hy with rfl | hy
      · rfl
      · exact h.placed _ y hy
    · rw [Function.update_of_ne hj] at hy
      exact h.placed j y hy
  · intro j
    rcases eq_or_ne j (hash (key x)) with rfl | hj
    · rw [Function.update_self, List.map_cons, List.nodup_cons]
      refine ⟨fun hm => ?_, h.nodup _⟩
      obtain ⟨y, hy, hyx⟩ := List.mem_map.1 hm
      have := List.find?_eq_none.1 hx y hy
      simp [hyx] at this
    · rw [Function.update_of_ne hj]
      exact h.nodup j

theorem lookup_push (key : α → κ) (hash : κ → Nat) (t : Nat → List α) (x : α) (k : κ) :
    lookup key hash (Function.update t (hash (key x)) (x :: t (hash (key x)))) k =
      if k = key x then some x else lookup key hash t k := by
  unfold lookup
  rcases eq_or_ne (hash k) (hash (key x)) with hh | hh
  · rw [hh, Function.update_self]
    split_ifs with hk
    · rw [List.find?_cons_of_pos (by simp [hk])]
    · rw [List.find?_cons_of_neg (by simpa using fun e => hk e.symm)]
  · rw [Function.update_of_ne hh, if_neg fun e => hh (by rw [e])]

/-! ### Sums over the table -/

/-- The sum of a weight over all elements of the first `n` chains. -/
def total (n : Nat) (weight : α → Nat) (t : Nat → List α) : Nat :=
  ∑ i ∈ Finset.range n, ((t i).map weight).sum

theorem total_update {n : Nat} (weight : α → Nat) (hi : i < n) (l : List α) :
    total n weight (Function.update t i l) + ((t i).map weight).sum = total n weight t + (l.map weight).sum := by
  unfold total
  have hm : i ∈ Finset.range n := Finset.mem_range.2 hi
  rw [← Finset.add_sum_erase _ _ hm, ← Finset.add_sum_erase (Finset.range n) (fun j => ((t j).map weight).sum) hm,
    Function.update_self]
  have hrest : ∑ j ∈ (Finset.range n).erase i, ((Function.update t i l j).map weight).sum =
      ∑ j ∈ (Finset.range n).erase i, ((t j).map weight).sum := by
    apply Finset.sum_congr rfl
    intro j hj
    rw [Function.update_of_ne (Finset.ne_of_mem_erase hj)]
  omega

private theorem sum_rewriteKey (weight : α → Nat) {g : α → Option α} {l : List α} (h : (l.map key).Nodup) :
    ((l.filterMap (rewriteKey key k g)).map weight).sum + ((l.find? fun x => key x = k).map weight).getD 0 =
      (l.map weight).sum + (((l.find? fun x => key x = k).bind g).map weight).getD 0 := by
  induction l with
  | nil => rfl
  | cons x l ih =>
    rw [filterMap_rewriteKey_cons h]
    have ih := ih (List.nodup_cons.1 h).2
    split_ifs with hk
    · rw [List.find?_cons_of_pos (by simpa using hk), Option.bind_some, List.map_append, List.sum_append]
      cases hx : g x with
      | none => simp [Nat.add_comm]
      | some y => simp; omega
    · rw [List.find?_cons_of_neg (by simpa using hk)]
      simp only [List.map_cons, List.sum_cons]
      omega

theorem WellPlaced.total_rewriteKey {n : Nat} (weight : α → Nat) {g : α → Option α} (h : WellPlaced key hash t)
    (hk : hash k < n) :
    total n weight (Function.update t (hash k) ((t (hash k)).filterMap (rewriteKey key k g))) +
        ((lookup key hash t k).map weight).getD 0 =
      total n weight t + (((lookup key hash t k).bind g).map weight).getD 0 := by
  have hsum := sum_rewriteKey (k := k) (g := g) weight (h.nodup (hash k))
  have htotal := total_update (t := t) weight hk ((t (hash k)).filterMap (rewriteKey key k g))
  unfold lookup
  omega

theorem total_eq_zero {n : Nat} {weight : α → Nat} :
    total n weight t = 0 ↔ ∀ i < n, ∀ x ∈ t i, weight x = 0 := by
  simp [total, Finset.sum_eq_zero_iff, List.sum_eq_zero_iff_forall_eq_nat]

end HashChain
