import Mathlib.Data.List.Basic
import Mathlib.Logic.Function.Basic

/-!
# Circular logs

A log is written into a ring of `n` cells, element number `t` into cell `t % n`, so that the ring always holds the
last `n` elements.  `RingLog.Holds` says this of a ring and a log; `Holds.push` is the step, `Holds.cells` reads the
ring from its first to its last cell: first the elements written since the last wrap, then the older ones.
-/

namespace RingLog

variable {α : Type*} {n : Nat} {buf : Nat → α} {s : List α}

/-- The ring `buf` of `n` cells holds the last `n` elements of the log `s`. -/
def Holds (n : Nat) (buf : Nat → α) (s : List α) : Prop :=
  ∀ t x, s[t]? = some x → s.length ≤ t + n → buf (t % n) = x

/-- The position after `t % n`, as a loop that wraps at `n` computes it. -/
theorem succ_mod (hn : 0 < n) (t : Nat) : (if t % n + 1 = n then 0 else t % n + 1) = (t + 1) % n := by
  have hlt := Nat.mod_lt t hn
  rw [Nat.add_mod]
  by_cases h1 : n = 1
  · subst h1; simp [Nat.mod_one]
  · rw [Nat.mod_eq_of_lt (show 1 < n by omega)]
    split
    · rename_i h; rw [h, Nat.mod_self]
    · rw [Nat.mod_eq_of_lt (show t % n + 1 < n by omega)]

theorem Holds.nil (n : Nat) (buf : Nat → α) : Holds n buf [] := by
  intro t x h; simp at h

/-- Two numbers less than `n` apart with the same remainder are equal. -/
theorem mod_inj {t u : Nat} (h : t % n = u % n) (htu : t ≤ u) (hu : u < t + n) : t = u := by
  have hd : (u - t) % n = 0 := Nat.sub_mod_eq_zero_of_mod_eq h.symm
  rw [Nat.mod_eq_of_lt (by omega)] at hd
  omega

/-- Writing the next element overwrites the oldest cell only. -/
theorem Holds.push (h : Holds n buf s) (x : α) :
    Holds n (Function.update buf (s.length % n) x) (s ++ [x]) := by
  intro t y hy hlen
  rw [List.length_append, List.length_singleton] at hlen
  by_cases ht : t < s.length
  · rw [List.getElem?_append_left ht] at hy
    have hne : t % n ≠ s.length % n := fun he => by
      have := mod_inj he (by omega) (by omega); omega
    rw [Function.update_of_ne hne]
    exact h t y hy (by omega)
  · rw [List.getElem?_append_right (by omega)] at hy
    have ht' : t = s.length := by
      have := List.getElem?_eq_some_iff.1 hy
      obtain ⟨h1, -⟩ := this
      simp at h1; omega
    subst ht'
    simp at hy
    rw [Function.update_self, hy]

/-- The element number `t` of a full log lies in cell `t % n` as long as fewer than `n` elements followed it. -/
theorem Holds.get (h : Holds n buf s) {t : Nat} (ht : t < s.length) (hlen : s.length ≤ t + n) :
    buf (t % n) = s[t] :=
  h t s[t] (List.getElem?_eq_getElem ht) hlen

/-- The cells of a full ring, in order: the elements `b` written since the last wrap, then the older elements `a`. -/
theorem Holds.cells (hn : 0 < n) (h : Holds n buf s) (hs : n ≤ s.length) :
    ∃ old a b, s = old ++ a ++ b ∧ a.length + b.length = n ∧ b.length = s.length % n ∧
      (List.range n).map buf = b ++ a := by
  have hp : s.length % n < n := Nat.mod_lt _ hn
  have hps : s.length % n ≤ s.length := Nat.mod_le _ _
  -- the log splits after the element that filled the last cell
  have hdiv : (s.length - s.length % n) % n = 0 := Nat.sub_mod_eq_zero_of_mod_eq (by simp)
  have hle : n ≤ s.length - s.length % n := by
    rcases Nat.eq_zero_or_pos (s.length - s.length % n) with h0 | h0
    · omega
    · exact Nat.le_of_dvd h0 (Nat.dvd_of_mod_eq_zero hdiv)
  refine ⟨s.take (s.length - n), (s.drop (s.length - n)).take (n - s.length % n), s.drop (s.length - s.length % n),
    ?_, ?_, ?_, ?_⟩
  · have e : s.drop (s.length - s.length % n) = (s.drop (s.length - n)).drop (n - s.length % n) := by
      rw [List.drop_drop]; congr 1; omega
    rw [e, List.append_assoc, List.take_append_drop, List.take_append_drop]
  · simp only [List.length_take, List.length_drop]; omega
  · simp only [List.length_drop]; omega
  · have hb : (s.drop (s.length - s.length % n)).length = s.length % n := by
      simp only [List.length_drop]; omega
    apply List.ext_getElem
    · simp only [List.length_map, List.length_range, List.length_append, List.length_take, List.length_drop]
      omega
    · intro i h1 h2
      simp only [List.length_map, List.length_range] at h1
      simp only [List.getElem_map, List.getElem_range]
      by_cases hi : i < s.length % n
      · rw [List.getElem_append_left (by omega), List.getElem_drop]
        have hmod : (s.length - s.length % n + i) % n = i := by
          rw [Nat.add_mod, hdiv, Nat.zero_add, Nat.mod_mod, Nat.mod_eq_of_lt h1]
        have := h.get (t := s.length - s.length % n + i) (by omega) (by omega)
        rw [hmod] at this
        exact this
      · rw [List.getElem_append_right (by omega), List.getElem_take, List.getElem_drop]
        have hmod : (s.length - n + (i - s.length % n)) % n = i := by
          have e : s.length - n + (i - s.length % n) = (s.length - s.length % n - n) + i := by omega
          have hz : (s.length - s.length % n - n) % n = 0 := by
            rw [← Nat.mod_eq_sub_mod hle]; exact hdiv
          rw [e, Nat.add_mod, hz, Nat.zero_add, Nat.mod_mod, Nat.mod_eq_of_lt h1]
        have := h.get (t := s.length - n + (i - s.length % n)) (by omega) (by omega)
        rw [hmod] at this
        simp only [hb]
        exact this

end RingLog
