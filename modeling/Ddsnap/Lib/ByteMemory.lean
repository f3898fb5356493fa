import Ddsnap.Lib.WordFormat

/-!
# Byte memories

A memory holds a byte at every address.  Words of a given width are loaded and written at an address, and a range is
copied as `memcpy` and `memmove` do it, all of it read before it is written.  Every operation is described by the bytes
that it leaves alone and by what is loaded from those that it wrote.
-/

namespace ByteMemory

open WordFormat

abbrev Mem := Nat → UInt8

/-- The bytes of a range. -/
def bytes (m : Mem) (a n : Nat) : List UInt8 := (List.range n).map fun i => m (a + i)

/-- The word of `w` bytes at an address. -/
def load (w : Nat) (m : Mem) (a : Nat) : Nat := leNat (bytes m a w)

/-- A word of `w` bytes is written at an address. -/
def write (w : Nat) (m : Mem) (a v : Nat) : Mem :=
  fun x => if a ≤ x ∧ x < a + w then (leBytes w v).getD (x - a) 0 else m x

/-- `n` bytes of a memory are copied to an address. -/
def copy (m : Mem) (dst : Nat) (m2 : Mem) (src n : Nat) : Mem :=
  fun x => if dst ≤ x ∧ x < dst + n then m2 (src + (x - dst)) else m x

variable {m m' m2 : Mem} {a b w w' v x k n dst src : Nat}

private theorem length_bytes (m : Mem) (a n : Nat) : (bytes m a n).length = n := by simp [bytes]

private theorem bytes_getElem? (hk : k < n) : (bytes m a n)[k]? = some (m (a + k)) := by simp [bytes, hk]

theorem bytes_congr (h : ∀ i < n, m' (b + i) = m (a + i)) : bytes m' b n = bytes m a n :=
  List.map_congr_left fun i hi => h i (List.mem_range.1 hi)

/-! ### What an operation leaves alone -/

theorem write_of_outside (hx : x < a ∨ a + w ≤ x) : write w m a v x = m x := if_neg (by omega)

theorem copy_of_outside (hx : x < dst ∨ dst + n ≤ x) : copy m dst m2 src n x = m x := if_neg (by omega)

theorem copy_inside (hk : k < n) : copy m dst m2 src n (dst + k) = m2 (src + k) := by
  unfold copy
  rw [if_pos ⟨by omega, by omega⟩, Nat.add_sub_cancel_left]

/-! ### Words -/

theorem load_lt (w : Nat) (m : Mem) (a : Nat) : load w m a < 256 ^ w := by
  have := leNat_lt (bytes m a w)
  rwa [length_bytes] at this

theorem load_congr (h : ∀ i < w, m' (b + i) = m (a + i)) : load w m' b = load w m a := by
  unfold load
  rw [bytes_congr h]

/-- A word determines its bytes. -/
theorem load_inj (h : load w m' b = load w m a) (hk : k < w) : m' (b + k) = m (a + k) := by
  have hbytes := leNat_inj (by rw [length_bytes, length_bytes]) h
  have hk' := congrArg (fun bs => bs[k]?) hbytes
  simp only [bytes_getElem? hk] at hk'
  exact Option.some.inj hk'

theorem load_write_self (w : Nat) (m : Mem) (a v : Nat) : load w (write w m a v) a = v % 256 ^ w := by
  have hbytes : bytes (write w m a v) a w = leBytes w v := by
    refine List.ext_getElem? fun k => ?_
    by_cases hk : k < w
    · have hin : a ≤ a + k ∧ a + k < a + w := ⟨by omega, by omega⟩
      rw [bytes_getElem? hk, write, if_pos hin, Nat.add_sub_cancel_left, List.getD_eq_getElem?_getD,
        List.getElem?_eq_getElem (by rw [length_leBytes]; exact hk)]
      rfl
    · rw [List.getElem?_eq_none (by rw [length_bytes]; omega), List.getElem?_eq_none (by rw [length_leBytes]; omega)]
  rw [load, hbytes, leNat_leBytes_mod]

theorem load_write_of_disjoint (h : b + w' ≤ a ∨ a + w ≤ b) : load w' (write w m a v) b = load w' m b :=
  load_congr fun _ _ => write_of_outside (by omega)

theorem load_copy_of_disjoint (h : b + w ≤ dst ∨ dst + n ≤ b) : load w (copy m dst m2 src n) b = load w m b :=
  load_congr fun _ _ => copy_of_outside (by omega)

theorem load_copy (h : k + w ≤ n) : load w (copy m dst m2 src n) (dst + k) = load w m2 (src + k) :=
  load_congr fun i _ => by
    rw [Nat.add_assoc, Nat.add_assoc]
    exact copy_inside (by omega)

end ByteMemory
