import Mathlib.Data.Nat.Basic
import Mathlib.Data.List.Basic
import Mathlib.Tactic.Ring

/-!
# Records of little-endian words

A number as a fixed count of little-endian bytes, and a record of such numbers as the bytes of its fields one after the
other.  What is packed is found again, as long as every number fits its field.
-/

namespace WordFormat

/-- The low `k` bytes of a number, the lowest first. -/
def leBytes : Nat → Nat → List UInt8
  | 0, _ => []
  | k + 1, n => UInt8.ofNat n :: leBytes k (n / 256)

def leNat : List UInt8 → Nat
  | [] => 0
  | b :: bs => b.toNat + 256 * leNat bs

@[simp] theorem length_leBytes (k n : Nat) : (leBytes k n).length = k := by
  induction k generalizing n with
  | zero => rfl
  | succ k ih => simp [leBytes, ih]

theorem leNat_leBytes {k n : Nat} (h : n < 256 ^ k) : leNat (leBytes k n) = n := by
  induction k generalizing n with
  | zero => simp only [leBytes, leNat]; simp at h; omega
  | succ k ih =>
    have hdiv : n / 256 < 256 ^ k := Nat.div_lt_of_lt_mul (by rw [pow_succ] at h; omega)
    simp only [leBytes, leNat, ih hdiv, UInt8.toNat_ofNat']
    omega

/-- A number that does not fit loses its upper bytes. -/
theorem leNat_leBytes_mod (k n : Nat) : leNat (leBytes k n) = n % 256 ^ k := by
  induction k generalizing n with
  | zero => simp only [leBytes, leNat, pow_zero, Nat.mod_one]
  | succ k ih =>
    simp only [leBytes, leNat, ih, UInt8.toNat_ofNat']
    rw [pow_succ 256 k, Nat.mul_comm (256 ^ k) 256, Nat.mod_mul]

theorem leNat_lt (bs : List UInt8) : leNat bs < 256 ^ bs.length := by
  induction bs with
  | nil => exact Nat.one_pos
  | cons b bs ih =>
    have := b.toNat_lt
    simp only [leNat, List.length_cons, pow_succ]
    omega

/-- Words of one length are told apart by their numbers. -/
theorem leNat_inj {bs bs' : List UInt8} (hlen : bs.length = bs'.length) (h : leNat bs = leNat bs') : bs = bs' := by
  induction bs generalizing bs' with
  | nil => exact (List.eq_nil_of_length_eq_zero hlen.symm).symm
  | cons b bs ih =>
    cases bs' with
    | nil => cases hlen
    | cons b' bs' =>
      have hb := b.toNat_lt
      have hb' := b'.toNat_lt
      simp only [leNat] at h
      have hhead : b.toNat = b'.toNat := by omega
      rw [ih (by simpa using hlen) (by omega), UInt8.toNat_inj.1 hhead]

/-- The fields of a record, with the width of each. -/
def pack : List Nat → List Nat → List UInt8
  | w :: ws, v :: vs => leBytes w v ++ pack ws vs
  | _, _ => []

def unpack : List Nat → List UInt8 → List Nat
  | [], _ => []
  | w :: ws, bs => leNat (bs.take w) :: unpack ws (bs.drop w)

/-- Every number fits its field. -/
def Fits (ws vs : List Nat) : Prop := List.Forall₂ (fun w v => v < 256 ^ w) ws vs

theorem length_pack {ws vs : List Nat} (h : ws.length = vs.length) : (pack ws vs).length = ws.sum := by
  induction ws generalizing vs with
  | nil => rfl
  | cons w ws ih =>
    cases vs with
    | nil => cases h
    | cons v vs => simp [pack, ih (by simpa using h)]

theorem unpack_pack {ws vs : List Nat} (h : Fits ws vs) : unpack ws (pack ws vs) = vs := by
  induction h with
  | nil => rfl
  | cons hv _ ih =>
    rw [pack, unpack, List.take_left' (length_leBytes _ _), List.drop_left' (length_leBytes _ _), leNat_leBytes hv, ih]

end WordFormat
