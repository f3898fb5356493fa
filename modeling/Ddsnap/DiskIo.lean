import Mathlib.Algebra.Group.Nat.Defs
import Mathlib.Data.Nat.Basic
import Mathlib.Order.Lattice

/-!
# Reading and writing devices

`fdio` (`diskio.c`) calls `pread` or `pwrite` until all bytes are moved.  A call that is interrupted is made again, an
error is returned as the negative errno, and a call that moves nothing is an I/O error.  The results of the system calls
are an input of the model, one list for each call of `fdio`.
-/

namespace Ddsnap

/-- The value of `errno` after a system call that failed. -/
abbrev Errno := { n : Nat // n ≠ 0 }

namespace Errno

def eperm : Errno := ⟨1, by decide⟩
def eintr : Errno := ⟨4, by decide⟩
def eio : Errno := ⟨5, by decide⟩
def eagain : Errno := ⟨11, by decide⟩
def enomem : Errno := ⟨12, by decide⟩
def einval : Errno := ⟨22, by decide⟩
def epipe : Errno := ⟨32, by decide⟩
def erange : Errno := ⟨34, by decide⟩

/-- The value that the code returns for the error. -/
def ret (e : Errno) : Int := -(e.1 : Int)

theorem ret_neg (e : Errno) : e.ret < 0 := by
  have := Nat.pos_of_ne_zero e.2
  simp only [ret]
  omega

end Errno

/-- The result of one `pread`, `pwrite`, `read` or `write`: it fails, or it moves as many bytes as it likes, up to what
was asked for and what the device has (a negative offset is one of the failures). -/
inductive Ret where
  | bytes (n : Nat)
  | err (e : Errno)

/-- A device or a snapshot: its size in bytes, which `off_t` can hold, and its content. -/
structure Volume (β : Type) where
  size : Nat
  byte : Nat → β
  size_lt : size < 2 ^ 63

/-- `fdio` on a device of the given size: how many bytes it moves and what it returns.  `none`: it is still waiting. -/
def fdio (size : Nat) : List Ret → (count offset : Nat) → Option (Nat × Int)
  | _, 0, _ => some (0, 0)
  | [], _ + 1, _ => none
  | .err e :: rets, count + 1, offset =>
    if e = .eagain ∨ e = .eintr then fdio size rets (count + 1) offset else some (0, e.ret)
  | .bytes n :: rets, count + 1, offset =>
    let ret := min n (min (count + 1) (size - offset))
    if ret = 0 then some (0, Errno.eio.ret)
    else (fdio size rets (count + 1 - ret) (offset + ret)).map fun p => (ret + p.1, p.2)

/-- All bytes are moved and the result is 0, or some are missing and it is negative; what is moved is on the device. -/
theorem fdio_spec {size count offset n : Nat} {rets : List Ret} {r : Int}
    (h : fdio size rets count offset = some (n, r)) :
    (r = 0 ∧ n = count ∨ r < 0 ∧ n < count) ∧ (n ≠ 0 → offset + n ≤ size) := by
  induction rets generalizing count offset n with
  | nil =>
    cases count with
    | zero => simp only [fdio, Option.some.injEq, Prod.mk.injEq] at h; omega
    | succ count => cases h
  | cons ret rets ih =>
    cases count with
    | zero => simp only [fdio, Option.some.injEq, Prod.mk.injEq] at h; omega
    | succ count =>
      cases ret with
      | err e =>
        simp only [fdio] at h
        split at h
        · exact ih h
        · simp only [Option.some.injEq, Prod.mk.injEq] at h
          have := e.ret_neg
          omega
      | bytes k =>
        simp only [fdio] at h
        split at h
        · simp only [Option.some.injEq, Prod.mk.injEq] at h
          have := Errno.eio.ret_neg
          omega
        · obtain ⟨⟨m, s⟩, hm, he⟩ := Option.map_eq_some_iff.1 h
          obtain ⟨hn, rfl⟩ : min k (min (count + 1) (size - offset)) + m = n ∧ s = r := by simpa using he
          have := ih hm
          omega

variable {β : Type}

/-- The content with `n` bytes at `offset` replaced. -/
def patch (f : Nat → β) (offset n : Nat) (data : Nat → β) : Nat → β :=
  fun a => if offset ≤ a ∧ a < offset + n then data (a - offset) else f a

theorem patch_of_mem {f data : Nat → β} {offset n a : Nat} (h : offset ≤ a ∧ a < offset + n) :
    patch f offset n data a = data (a - offset) := if_pos h

theorem patch_of_notMem {f data : Nat → β} {offset n a : Nat} (h : ¬(offset ≤ a ∧ a < offset + n)) :
    patch f offset n data a = f a := if_neg h

theorem patch_congr {f data data' : Nat → β} {offset n : Nat} (h : ∀ j < n, data j = data' j) :
    patch f offset n data = patch f offset n data' := by
  funext a
  simp only [patch]
  split
  · exact h _ (by omega)
  · rfl

def Volume.patch (v : Volume β) (offset n : Nat) (data : Nat → β) : Volume β :=
  { v with byte := Ddsnap.patch v.byte offset n data }

/-- `diskread`: the bytes that were read are at the front of the buffer. -/
def diskread (v : Volume β) (rets : List Ret) (buffer : Nat → β) (count offset : Nat) : Option ((Nat → β) × Int) :=
  (fdio v.size rets count offset).map fun p => (patch buffer 0 p.1 fun j => v.byte (offset + j), p.2)

def diskwrite (v : Volume β) (rets : List Ret) (buffer : Nat → β) (count offset : Nat) : Option (Volume β × Int) :=
  (fdio v.size rets count offset).map fun p => (v.patch offset p.1 buffer, p.2)

/-! ### Chunks on a volume -/

/-- Where a chunk starts: `chunk << chunksize_bits`, a 64-bit number. -/
def chunkpos (bits chunk : Nat) : Nat := (chunk <<< bits) % 2 ^ 64

theorem chunkpos_eq {bits chunk : Nat} (h : chunk * 2 ^ bits < 2 ^ 64) : chunkpos bits chunk = chunk * 2 ^ bits := by
  rw [chunkpos, Nat.shiftLeft_eq, Nat.mod_eq_of_lt h]

/-- The byte belongs to a chunk on the list. -/
def Listed (bits : Nat) (chunks : List Nat) (a : Nat) : Prop := ∃ c ∈ chunks, c * 2 ^ bits ≤ a ∧ a < (c + 1) * 2 ^ bits

end Ddsnap
