import Ddsnap.Raid.Journal
import Mathlib.Data.List.Chain
import Mathlib.Data.List.GetD
import Mathlib.Data.List.Perm.Basic

/-!
# The sort of the unsynced regions

`recover_journal` sorts the vector of the unsynced regions with the macro `COMBSORT`, largest number first.  A pass
compares the entries that are `gap` places apart, from the end of the vector on; the gap shrinks by the factor 10/13 from
pass to pass, and the sort ends with a pass of gap 1 that exchanges nothing.

An exchange moves the larger number to the smaller index, so that the sum of the numbers, each times its index, falls.
The gap is computed with 32 bits: for some lengths from 429496730 on it is zero after the first step, and the pass does
not end (`combsort_iff`).
-/

namespace Ddraid

variable {gap i j : Nat} {u : List Nat}

/-! ### The macro -/

/-- `gap = gap*10/13`, and the gap 11 in place of 9 and 10. -/
def nextGap (gap : Nat) : Nat :=
  let gap := if 1 < gap then gap * 10 % 2 ^ 32 / 13 else gap
  if (gap + 2 ^ 32 - 9) % 2 ^ 32 < 2 then 11 else gap

/-- The exchange of two entries. -/
def exchange (u : List Nat) (i j : Nat) : List Nat := (u.set i (u.getD j 0)).set j (u.getD i 0)

/-- A pass from the index `i` on down: the vector and the flag `more` at its end.  `none`: the gap is zero, so that the
unsigned index runs through zero to the largest number, and the loop goes on behind the vector. -/
def combPass (gap : Nat) : Nat → List Nat → Bool → Option (List Nat × Bool)
  | 0, u, more => if 0 < gap then some (u, more) else none
  | i + 1, u, more =>
    if i + 1 < gap then some (u, more)
    else if u.getD (i + 1 - gap) 0 < u.getD (i + 1) 0 then combPass gap i (exchange u (i + 1) (i + 1 - gap)) true
    else combPass gap i u more

/-- The passes, at most `fuel` of them. -/
def combLoop : Nat → Nat → List Nat → Option (List Nat)
  | 0, _, _ => none
  | fuel + 1, gap, u =>
    (combPass (nextGap gap) (u.length - 1) u (decide (1 < nextGap gap))).bind fun r =>
      if r.2 then combLoop fuel (nextGap gap) r.1 else some r.1

/-- `COMBSORT`, with at most `fuel` passes. -/
def combsort (fuel : Nat) (u : List Nat) : Option (List Nat) :=
  if u.length = 0 then some u else combLoop fuel u.length u

/-! ### The sum that an exchange lowers -/

/-- The sum of the numbers, each times its index, when the indices start at `k`. -/
def weight : Nat → List Nat → Nat
  | _, [] => 0
  | k, x :: u => k * x + weight (k + 1) u

private theorem weight_set (hi : i < u.length) (k x : Nat) :
    weight k (u.set i x) + (k + i) * u.getD i 0 = weight k u + (k + i) * x := by
  induction u generalizing i k with
  | nil => cases hi
  | cons y u ih =>
    cases i with
    | zero =>
      simp only [List.set_cons_zero, weight, List.getD_cons_zero, Nat.add_zero]
      omega
    | succ i =>
      have hrest := ih (Nat.lt_of_succ_lt_succ hi) (k + 1)
      rw [show k + 1 + i = k + (i + 1) by omega] at hrest
      simp only [List.set_cons_succ, weight, List.getD_cons_succ]
      omega

private theorem length_exchange : (exchange u i j).length = u.length := by simp [exchange]

private theorem exchange_perm (hi : i < u.length) (hj : j < u.length) : (exchange u i j).Perm u := by
  unfold exchange
  rw [List.getD_eq_getElem _ _ hi, List.getD_eq_getElem _ _ hj]
  exact List.set_set_perm hi hj

private theorem weight_exchange (hji : j < i) (hi : i < u.length) (hlt : u.getD j 0 < u.getD i 0) :
    weight 0 (exchange u i j) < weight 0 u := by
  have h1 := weight_set hi 0 (u.getD j 0)
  have h2 := weight_set (u := u.set i (u.getD j 0)) (i := j) (by rw [List.length_set]; omega) 0 (u.getD i 0)
  have hother : (u.set i (u.getD j 0)).getD j 0 = u.getD j 0 := by
    simp only [List.getD_eq_getElem?_getD, List.getElem?_set_ne (Nat.ne_of_gt hji)]
  rw [hother] at h2
  obtain ⟨e, rfl⟩ := Nat.exists_eq_add_of_lt hji
  obtain ⟨d, hd⟩ := Nat.exists_eq_add_of_lt hlt
  unfold exchange
  rw [hd] at h1 h2 ⊢
  simp only [Nat.zero_add, Nat.add_mul, Nat.mul_add, Nat.mul_one, Nat.one_mul] at h1 h2
  omega

/-! ### One pass -/

/-- What a pass does: it permutes the vector, and unless it lowers the weight, it has found the entries in order. -/
structure Passed (gap i : Nat) (u : List Nat) (more : Bool) (v : List Nat) (m : Bool) : Prop where
  perm : v.Perm u
  le : weight 0 v ≤ weight 0 u
  lower : m = true → more = true ∨ weight 0 v < weight 0 u
  sorted : m = false → v = u ∧ more = false ∧ ∀ k, gap ≤ k → k ≤ i → u.getD k 0 ≤ u.getD (k - gap) 0

private theorem combPass_spec (more : Bool) (hgap : 0 < gap) (hi : i < u.length) :
    ∃ v m, combPass gap i u more = some (v, m) ∧ Passed gap i u more v m := by
  induction i generalizing u more with
  | zero =>
    refine ⟨u, more, if_pos hgap, .refl _, Nat.le_refl _, .inl, fun hm => ⟨rfl, hm, fun k h1 h2 => ?_⟩⟩
    omega
  | succ i ih =>
    unfold combPass
    split_ifs with hend hlt
    · refine ⟨u, more, rfl, .refl _, Nat.le_refl _, .inl, fun hm => ⟨rfl, hm, fun k h1 h2 => ?_⟩⟩
      omega
    · obtain ⟨v, m, hpass, hv⟩ := ih true (u := exchange u (i + 1) (i + 1 - gap))
        (by rw [length_exchange]; omega)
      have hlow := weight_exchange (by omega) hi hlt
      refine ⟨v, m, hpass, hv.perm.trans (exchange_perm hi (by omega)), ?_, fun _ => .inr ?_, fun hm => ?_⟩
      · exact Nat.le_trans hv.le (Nat.le_of_lt hlow)
      · exact Nat.lt_of_le_of_lt hv.le hlow
      · exact absurd (hv.sorted hm).2.1 (by decide)
    · obtain ⟨v, m, hpass, hv⟩ := ih more (u := u) (by omega)
      refine ⟨v, m, hpass, hv.perm, hv.le, hv.lower, fun hm => ?_⟩
      obtain ⟨hsame, hmore, hk⟩ := hv.sorted hm
      refine ⟨hsame, hmore, fun k h1 h2 => ?_⟩
      by_cases hki : k = i + 1
      · rw [hki]
        exact Nat.le_of_not_lt hlt
      · exact hk k h1 (by omega)

private theorem combPass_zero (i : Nat) (u : List Nat) (more : Bool) : combPass 0 i u more = none := by
  induction i generalizing u more with
  | zero => rfl
  | succ i ih =>
    unfold combPass
    split_ifs with hend hlt
    · exact absurd hend (Nat.not_lt_zero _)
    · exact ih _ _
    · exact ih _ _

/-! ### The gap -/

/-- The next gap is not zero. -/
def GapOk (gap : Nat) : Prop := 1 ≤ gap ∧ (2 ≤ gap → 13 ≤ 10 * gap % 2 ^ 32)

private theorem nextGap_one : nextGap 1 = 1 := by decide

private theorem nextGap_spec (h : GapOk gap) (htwo : 2 ≤ gap) : GapOk (nextGap gap) ∧ nextGap gap < gap := by
  have hge := h.2 htwo
  have hle : 10 * gap % 2 ^ 32 ≤ 10 * gap := Nat.mod_le _ _
  have hlt : 10 * gap % 2 ^ 32 < 2 ^ 32 := Nat.mod_lt _ (by decide)
  unfold nextGap GapOk
  simp only [if_pos (show 1 < gap by omega), Nat.mul_comm gap 10]
  generalize 10 * gap % 2 ^ 32 = p at hge hle hlt ⊢
  split_ifs with hspecial
  · omega
  · refine ⟨⟨by omega, fun htwo' => ?_⟩, by omega⟩
    rw [Nat.mod_eq_of_lt (by omega)]
    omega

private theorem nextGap_zero (htwo : 2 ≤ gap) (h : 10 * gap % 2 ^ 32 < 13) : nextGap gap = 0 := by
  unfold nextGap
  simp only [if_pos (show 1 < gap by omega), Nat.mul_comm gap 10, Nat.div_eq_of_lt h]
  decide

/-! ### The sort -/

private theorem pairwise_of_adjacent (h : ∀ k, 1 ≤ k → k ≤ u.length - 1 → u.getD k 0 ≤ u.getD (k - 1) 0) :
    u.Pairwise (· ≥ ·) := by
  rw [← List.isChain_iff_pairwise, List.isChain_iff_getElem]
  intro k hk
  have hle := h (k + 1) (by omega) (by omega)
  rwa [Nat.add_sub_cancel, List.getD_eq_getElem _ _ hk, List.getD_eq_getElem _ _ (by omega)] at hle

/-- Every pass that is not the last one lowers the gap or the weight. -/
private theorem combLoop_sorts {fuel : Nat} (hgap : GapOk gap) (hu : 0 < u.length) (hfuel : gap + weight 0 u < fuel) :
    ∃ v, combLoop fuel gap u = some v ∧ v.Perm u ∧ v.Pairwise (· ≥ ·) := by
  induction fuel generalizing gap u with
  | zero => cases hfuel
  | succ fuel ih =>
    have hnext : GapOk (nextGap gap) ∧ (nextGap gap < gap ∨ gap = 1 ∧ nextGap gap = 1) := by
      by_cases htwo : 2 ≤ gap
      · exact ⟨(nextGap_spec hgap htwo).1, .inl (nextGap_spec hgap htwo).2⟩
      · obtain rfl : gap = 1 := by have := hgap.1; omega
        exact ⟨by rwa [nextGap_one], .inr ⟨rfl, nextGap_one⟩⟩
    obtain ⟨hok, hshrinks⟩ := hnext
    obtain ⟨v, m, hpass, hv⟩ := combPass_spec (decide (1 < nextGap gap)) hok.1 (Nat.sub_one_lt_of_lt hu)
    unfold combLoop
    rw [hpass, Option.bind_some]
    dsimp only
    cases m with
    | true =>
      have hlower := hv.lower rfl
      have hle := hv.le
      rw [decide_eq_true_eq] at hlower
      obtain ⟨w, hw, hperm, hsorted⟩ := ih (u := v) hok (by rw [hv.perm.length_eq]; exact hu) (by omega)
      exact ⟨w, by rw [if_pos rfl, hw], hperm.trans hv.perm, hsorted⟩
    | false =>
      obtain ⟨rfl, hmore, hk⟩ := hv.sorted rfl
      have hone : nextGap gap = 1 := by
        have := hok.1
        rw [decide_eq_false_iff_not] at hmore
        omega
      refine ⟨v, if_neg Bool.false_ne_true, .refl _, pairwise_of_adjacent ?_⟩
      rwa [hone] at hk

private theorem combLoop_endless (htwo : 2 ≤ u.length) (h : 10 * u.length % 2 ^ 32 < 13) (fuel : Nat) :
    combLoop fuel u.length u = none := by
  cases fuel with
  | zero => rfl
  | succ fuel =>
    unfold combLoop
    rw [nextGap_zero htwo h, combPass_zero]
    rfl

/-- The sort ends, with the numbers of the vector in descending order. -/
def Sorts (u : List Nat) : Prop :=
  ∃ bound, ∀ fuel ≥ bound, ∃ v, combsort fuel u = some v ∧ v.Perm u ∧ v.Pairwise (· ≥ ·)

/-- The vectors that are sorted, among those whose length is an `int`. -/
theorem combsort_iff (u : List Nat) (hlen : u.length < 2 ^ 31) :
    Sorts u ↔ (2 ≤ u.length → 13 ≤ 10 * u.length % 2 ^ 32) := by
  constructor
  · rintro ⟨bound, h⟩ htwo
    by_contra hlt
    obtain ⟨v, hv, -⟩ := h bound (Nat.le_refl _)
    rw [combsort, if_neg (by omega), combLoop_endless htwo (by omega)] at hv
    cases hv
  · intro hgap
    by_cases hzero : u.length = 0
    · refine ⟨0, fun fuel _ => ⟨u, if_pos hzero, .refl _, ?_⟩⟩
      rw [List.length_eq_zero_iff.1 hzero]
      exact .nil
    · refine ⟨u.length + weight 0 u + 1, fun fuel hfuel => ?_⟩
      rw [combsort, if_neg hzero]
      exact combLoop_sorts ⟨by omega, hgap⟩ (by omega) hfuel

theorem combsort_iff_five : combsort 5 [3, 1, 4, 1, 5] = some [5, 4, 3, 1, 1] ∧ Sorts [3, 1, 4, 1, 5] :=
  ⟨by decide, (combsort_iff [3, 1, 4, 1, 5] (by decide)).2 (by decide)⟩

/-- Ten times the length is four more than `2 ^ 32`. -/
theorem combsort_endless : ¬Sorts (List.replicate 429496730 0) ∧
    ∀ fuel, combsort fuel (List.replicate 429496730 0) = none := by
  have hlen : (List.replicate 429496730 0).length = 429496730 := List.length_replicate
  have hnone : ∀ fuel, combsort fuel (List.replicate 429496730 0) = none := by
    intro fuel
    rw [combsort, if_neg (by rw [hlen]; decide)]
    exact combLoop_endless (by rw [hlen]; decide) (by rw [hlen]; decide) fuel
  refine ⟨?_, hnone⟩
  rintro ⟨bound, h⟩
  obtain ⟨v, hv, -⟩ := h bound (Nat.le_refl _)
  rw [hnone] at hv
  cases hv

end Ddraid
