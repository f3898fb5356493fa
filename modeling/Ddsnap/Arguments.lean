import Mathlib.Algebra.Group.Int.Defs
import Mathlib.Algebra.Group.Nat.Defs
import Mathlib.Data.List.TakeWhile
import Mathlib.Data.Nat.Init

/-!
# Numbers on the command line

The functions of `ddsnap.c` that read sizes and snapshot tags: `strtobytes64`, `strtobytes`, `strtobits` and
`parse_snaptag`.  They call `strtoull`, `strtol` and `strtoul`, which skip white space, read a sign and take as many digits
as there are.  A string is the list of its characters without the terminating zero; `long` has 64 bits.

What a whole string stands for is a number with a sign, times the factor of a suffix (`Denotes`).  `numbers_exact_iff`
says for each of the functions which strings it neither rejects nor takes for that number.
-/

namespace Ddsnap.Arguments

/-! ### The conversions of the C library -/

def isSpace (c : Char) : Bool := c = ' ' || (9 ≤ c.toNat && c.toNat ≤ 13)

/-- A sign, and what comes after it. -/
def splitSign : List Char → Bool × List Char
  | [] => (false, [])
  | c :: t => if c = '-' then (true, t) else if c = '+' then (false, t) else (false, c :: t)

/-- The sign, the digits and the rest of a string. -/
structure Scan where
  neg : Bool
  digits : List Char
  rest : List Char

def scan (s : List Char) : Scan :=
  let t := splitSign (s.dropWhile isSpace)
  ⟨t.1, t.2.takeWhile Char.isDigit, t.2.dropWhile Char.isDigit⟩

/-- The number that digits stand for. -/
def decimal (digits : List Char) : Nat := digits.foldl (fun n c => n * 10 + (c.toNat - 48)) 0

def Scan.amount (n : Scan) : Nat := decimal n.digits

/-- What a conversion to 64 bits makes of the digits, a minus sign included. -/
def Scan.wrapped (n : Scan) : Nat := if n.neg then (2 ^ 64 - n.amount) % 2 ^ 64 else n.amount

/-- `strtoull` and `strtoul`: the number, what is left of the string, and whether `errno` is set to `ERANGE`. -/
def strtoull (s : List Char) : Nat × List Char × Bool :=
  if (scan s).digits = [] then (0, s, false)
  else if 2 ^ 64 ≤ (scan s).amount then (2 ^ 64 - 1, (scan s).rest, true)
  else ((scan s).wrapped, (scan s).rest, false)

/-- `strtol`: the number, and what is left of the string. -/
def strtol (s : List Char) : Int × List Char :=
  if (scan s).digits = [] then (0, s)
  else if (scan s).neg then (if (scan s).amount ≤ 2 ^ 63 then -(scan s).amount else -2 ^ 63, (scan s).rest)
  else (if (scan s).amount < 2 ^ 63 then (scan s).amount else 2 ^ 63 - 1, (scan s).rest)

/-! ### The functions -/

def inputError64 : Nat := 2 ^ 64 - 1

def inputError : Nat := 2 ^ 32 - 1

/-- The binary logarithm of the factor of a suffix. -/
def suffixBits (c : Char) : Option Nat :=
  if c = 'k' ∨ c = 'K' then some 10 else if c = 'm' ∨ c = 'M' then some 20
  else if c = 'g' ∨ c = 'G' then some 30 else none

/-- The part of `strtobytes64` that looks at the suffix. -/
def withSuffix (bytes : Nat) : List Char → Nat
  | [] => bytes
  | [c] => (suffixBits c).elim inputError64 fun k => bytes * 2 ^ k % 2 ^ 64
  | _ :: _ :: _ => inputError64

/-- `strtobytes64`.  `erange`: `errno` is `ERANGE` from an earlier call. -/
def strtobytes64 (erange : Bool) (s : List Char) : Nat :=
  let r := strtoull s
  if r.1 = 2 ^ 64 - 1 ∧ (r.2.2 || erange) = true then inputError64 else withSuffix r.1 r.2.1

/-- `strtobytes`.  `ULONG_MAX` is the largest number of 64 bits. -/
def strtobytes (erange : Bool) (s : List Char) : Nat :=
  let bytes := strtobytes64 erange s
  if 2 ^ 64 - 1 < bytes ∨ bytes = inputError64 then inputError else bytes % 2 ^ 32

/-- `strtobits`.  `none`: with nothing behind the digits, `letter[1]` is behind the terminating zero. -/
def strtobits (s : List Char) : Option Nat :=
  let r := strtol s
  if r.1 ≤ 0 ∨ r.1.toNat &&& (r.1.toNat - 1) ≠ 0 then some inputError
  else
    match r.2 with
    | [] => none
    | [c] => some ((suffixBits c).elim inputError fun k => Nat.log2 r.1.toNat + k)
    | _ :: _ :: _ => some inputError

/-- `parse_snaptag`, the tag or `none` for the result -1. -/
def parseSnaptag (s : List Char) : Option Nat :=
  if s = [] ∨ s.head? = some '-' then none
  else if (strtoull s).2.1 ≠ [] then none
  else if 2 ^ 64 - 1 ≤ (strtoull s).1 then none
  else some ((strtoull s).1 % 2 ^ 32)

/-! ### What a string stands for -/

/-- White space, a sign and digits, up to a suffix. -/
def Numeral (s suffix : List Char) (v : Int) : Prop :=
  ∃ blanks sign digits, s = blanks ++ (sign ++ (digits ++ suffix)) ∧ (∀ c ∈ blanks, isSpace c = true) ∧
    (sign = [] ∨ sign = ['+'] ∨ sign = ['-']) ∧ digits ≠ [] ∧ (∀ c ∈ digits, c.isDigit = true) ∧
    v = if sign = ['-'] then -(decimal digits : Int) else decimal digits

/-- The factor of a suffix; no suffix is the factor 1. -/
def factor : List Char → Option Nat
  | [] => some 1
  | [c] => (suffixBits c).map (2 ^ ·)
  | _ :: _ :: _ => none

/-- The number that a whole string stands for. -/
def Denotes (s : List Char) (v : Int) : Prop :=
  ∃ suffix k w, factor suffix = some k ∧ Numeral s suffix w ∧ v = w * k

/-- `strtobytes64` returns its error value or the number. -/
def Exact64 (erange : Bool) (s : List Char) : Prop :=
  strtobytes64 erange s = inputError64 ∨ Denotes s (strtobytes64 erange s)

def Exact32 (erange : Bool) (s : List Char) : Prop :=
  strtobytes erange s = inputError ∨ Denotes s (strtobytes erange s)

/-- `strtobits` does not look behind the string, and returns its error value or the logarithm of the number. -/
def ExactBits (s : List Char) : Prop :=
  ∃ bits, strtobits s = some bits ∧ (bits = inputError ∨ Denotes s (2 ^ bits))

def ExactTag (s : List Char) : Prop := ∀ tag : Nat, parseSnaptag s = some tag → Numeral s [] tag

/-! ### The scan -/

/-- The number with its sign. -/
def Scan.value (n : Scan) : Int := if n.neg then -(n.amount : Int) else n.amount

variable {s suffix : List Char} {v : Int} {k : Nat}

private theorem suffix_not_digit (h : factor suffix = some k) : suffix.takeWhile Char.isDigit = [] := by
  match suffix, h with
  | [], _ => rfl
  | [c], h =>
    have hc : c.isDigit = false := by
      by_contra hd
      have hnone : suffixBits c = none := by
        unfold suffixBits
        split_ifs with h1 h2 h3
        · rcases h1 with rfl | rfl <;> exact absurd rfl hd
        · rcases h2 with rfl | rfl <;> exact absurd rfl hd
        · rcases h3 with rfl | rfl <;> exact absurd rfl hd
        · rfl
      rw [factor, hnone] at h
      cases h
    rw [List.takeWhile_cons, hc]
    rfl

private theorem scan_eq {blanks sign digits : List Char} (hblanks : ∀ c ∈ blanks, isSpace c = true)
    (hsign : sign = [] ∨ sign = ['+'] ∨ sign = ['-']) (hne : digits ≠ []) (hdigits : ∀ c ∈ digits, c.isDigit = true)
    (hsuffix : suffix.takeWhile Char.isDigit = []) :
    scan (blanks ++ (sign ++ (digits ++ suffix))) = ⟨decide (sign = ['-']), digits, suffix⟩ := by
  obtain ⟨d, ds, rfl⟩ := List.exists_cons_of_ne_nil hne
  have hd := hdigits d (by simp)
  have hspace : isSpace d = false := by
    by_contra h
    simp only [isSpace, Bool.not_eq_false, Bool.or_eq_true, Bool.and_eq_true, decide_eq_true_eq] at h
    simp only [Char.isDigit, Bool.and_eq_true, decide_eq_true_eq, ge_iff_le, UInt32.le_iff_toNat_le] at hd
    rcases h with rfl | h
    · exact absurd hd.1 (by decide)
    · have h1 : 48 ≤ d.toNat := hd.1
      omega
  have hplus : d ≠ '+' := by rintro rfl; cases hd
  have hminus : d ≠ '-' := by rintro rfl; cases hd
  have hsplit : splitSign ((sign ++ (d :: ds ++ suffix)).dropWhile isSpace) = (decide (sign = ['-']), d :: ds ++ suffix) := by
    rcases hsign with rfl | rfl | rfl
    · simp [splitSign, hspace, hplus, hminus]
    · simp [splitSign, isSpace]
    · simp [splitSign, isSpace]
  unfold scan
  rw [List.dropWhile_append_of_pos hblanks, hsplit]
  dsimp only
  rw [List.takeWhile_append_of_pos hdigits, List.dropWhile_append_of_pos hdigits, hsuffix, List.append_nil]
  congr
  have hall := List.takeWhile_append_dropWhile (p := Char.isDigit) (l := suffix)
  rwa [hsuffix, List.nil_append] at hall

/-- The scan takes a string apart. -/
private theorem numeral_scan (hne : (scan s).digits ≠ []) : Numeral s (scan s).rest (scan s).value := by
  have hblank : s.takeWhile isSpace ++ s.dropWhile isSpace = s := List.takeWhile_append_dropWhile
  have hdigit : ∀ t : List Char, t.takeWhile Char.isDigit ++ t.dropWhile Char.isDigit = t := fun t =>
    List.takeWhile_append_dropWhile
  obtain ⟨sign, hsign, htext, hneg⟩ : ∃ sign, (sign = [] ∨ sign = ['+'] ∨ sign = ['-']) ∧
      s.dropWhile isSpace = sign ++ (splitSign (s.dropWhile isSpace)).2 ∧
      (splitSign (s.dropWhile isSpace)).1 = decide (sign = ['-']) := by
    generalize s.dropWhile isSpace = t
    cases t with
    | nil => exact ⟨[], .inl rfl, rfl, rfl⟩
    | cons c t =>
      simp only [splitSign]
      split_ifs with h1 h2
      · exact ⟨['-'], .inr (.inr rfl), by rw [h1]; rfl, rfl⟩
      · exact ⟨['+'], .inr (.inl rfl), by rw [h2]; rfl, rfl⟩
      · exact ⟨[], .inl rfl, rfl, rfl⟩
  refine ⟨s.takeWhile isSpace, sign, (scan s).digits, ?_, fun c hc => List.mem_takeWhile_imp hc, hsign, hne,
    fun c hc => List.mem_takeWhile_imp hc, ?_⟩
  · rw [scan, hdigit, ← htext, hblank]
  · rw [Scan.value, Scan.amount, show (scan s).neg = decide (sign = ['-']) from hneg]
    by_cases h : sign = ['-'] <;> simp [h]

private theorem numeral_iff (hsuffix : suffix.takeWhile Char.isDigit = []) :
    Numeral s suffix v ↔ (scan s).digits ≠ [] ∧ (scan s).rest = suffix ∧ v = (scan s).value := by
  constructor
  · rintro ⟨blanks, sign, digits, rfl, hblanks, hsign, hne, hdigits, rfl⟩
    rw [scan_eq hblanks hsign hne hdigits hsuffix]
    refine ⟨hne, rfl, ?_⟩
    by_cases h : sign = ['-'] <;> simp [Scan.value, Scan.amount, h]
  · rintro ⟨hne, rfl, rfl⟩
    exact numeral_scan hne

private theorem denotes_iff : Denotes s v ↔
    (scan s).digits ≠ [] ∧ ∃ k, factor (scan s).rest = some k ∧ v = (scan s).value * k := by
  constructor
  · rintro ⟨suffix, k, w, hk, hw, rfl⟩
    obtain ⟨hne, rfl, rfl⟩ := (numeral_iff (suffix_not_digit hk)).1 hw
    exact ⟨hne, k, hk, rfl⟩
  · rintro ⟨hne, k, hk, rfl⟩
    exact ⟨_, k, _, hk, numeral_scan hne, rfl⟩

/-! ### Sizes -/

private theorem factor_cases (h : factor suffix = some k) :
    suffix = [] ∧ k = 1 ∨ suffix ≠ [] ∧ (k = 2 ^ 10 ∨ k = 2 ^ 20 ∨ k = 2 ^ 30) := by
  match suffix, h with
  | [], h => cases h; exact .inl ⟨rfl, rfl⟩
  | [c], h =>
    obtain ⟨b, hb, rfl⟩ := Option.map_eq_some_iff.1 h
    refine .inr ⟨nofun, ?_⟩
    unfold suffixBits at hb
    split_ifs at hb <;> cases hb <;> simp

private theorem withSuffix_eq {bytes : Nat} (hb : bytes < 2 ^ 64) (letter : List Char) :
    withSuffix bytes letter = (factor letter).elim inputError64 fun k => bytes * k % 2 ^ 64 := by
  match letter with
  | [] => rw [withSuffix, factor, Option.elim_some, Nat.mul_one, Nat.mod_eq_of_lt hb]
  | [c] =>
    rw [withSuffix, factor]
    cases suffixBits c <;> rfl
  | _ :: _ :: _ => rfl

/-- No digits, and yet no error: the empty string, and a suffix alone. -/
def Bare (s : List Char) : Prop := (scan s).digits = [] ∧ factor s ≠ none

/-- The digits and the suffix are accepted with the factor `k`. -/
structure Accepted (erange : Bool) (s : List Char) (k : Nat) : Prop where
  digits : (scan s).digits ≠ []
  amount : (scan s).amount < 2 ^ 64
  factor : factor (scan s).rest = some k
  /-- Not `ULLONG_MAX` where `errno` says that it is an error. -/
  range : ¬((scan s).wrapped = 2 ^ 64 - 1 ∧ erange = true)

private theorem Scan.wrapped_lt {n : Scan} (h : n.amount < 2 ^ 64) : n.wrapped < 2 ^ 64 := by
  unfold Scan.wrapped
  split <;> omega

/-- What `strtobytes64` returns. -/
private theorem strtobytes64_cases (erange : Bool) (s : List Char) :
    strtobytes64 erange s = inputError64 ∧ ¬Bare s ∧ (∀ k, ¬Accepted erange s k) ∨
    strtobytes64 erange s = 0 ∧ Bare s ∨
    ∃ k, Accepted erange s k ∧ strtobytes64 erange s = (scan s).wrapped * k % 2 ^ 64 := by
  unfold strtobytes64 strtoull
  by_cases hd : (scan s).digits = []
  · simp only [if_pos hd]
    rw [if_neg (by omega), withSuffix_eq (by decide)]
    cases hf : factor s with
    | none => exact .inl ⟨rfl, fun h => h.2 hf, fun k h => h.digits hd⟩
    | some k => exact .inr (.inl ⟨by simp, hd, by simp [hf]⟩)
  simp only [if_neg hd]
  by_cases hm : 2 ^ 64 ≤ (scan s).amount
  · simp only [if_pos hm]
    refine .inl ⟨by simp, fun h => hd h.1, fun k h => ?_⟩
    have := h.amount
    omega
  simp only [if_neg hm, Bool.false_or]
  have hb := Scan.wrapped_lt (Nat.lt_of_not_le hm)
  by_cases hr : (scan s).wrapped = 2 ^ 64 - 1 ∧ erange = true
  · rw [if_pos hr]
    exact .inl ⟨rfl, fun h => hd h.1, fun k h => h.range hr⟩
  · rw [if_neg hr, withSuffix_eq hb]
    cases hf : factor (scan s).rest with
    | none => exact .inl ⟨rfl, fun h => hd h.1, fun k h => absurd (hf.symm.trans h.factor) nofun⟩
    | some k => exact .inr (.inr ⟨k, ⟨hd, Nat.lt_of_not_le hm, hf, hr⟩, rfl⟩)

/-- The strings that `strtobytes64` gets wrong: no digits, a number below zero (but for -1, which is the error value), or
one that does not fit in 64 bits with its suffix. -/
def Wrong64 (erange : Bool) (s : List Char) : Prop :=
  Bare s ∨ ∃ k, Accepted erange s k ∧
    if (scan s).neg then (scan s).amount ≠ 0 ∧ ¬(k = 1 ∧ (scan s).amount = 1) else 2 ^ 64 ≤ (scan s).amount * k

/-- The strings that `strtobytes` gets wrong: the result keeps 32 bits. -/
def Wrong32 (erange : Bool) (s : List Char) : Prop :=
  Bare s ∨ ∃ k, Accepted erange s k ∧
    if (scan s).neg then (scan s).amount ≠ 0 ∧ (scan s).amount * k % 2 ^ 32 ≠ 1
    else 2 ^ 32 ≤ (scan s).amount * k ∧ (scan s).amount * k % 2 ^ 32 ≠ 2 ^ 32 - 1

private theorem Bare.not_denotes (h : Bare s) (v : Int) : ¬Denotes s v := fun hv => (denotes_iff.1 hv).1 h.1

private theorem Accepted.unique {erange : Bool} {k' : Nat} (h : Accepted erange s k) (h' : Accepted erange s k') : k =
    k' :=
  Option.some.inj (h.factor.symm.trans h'.factor)

private theorem Accepted.denotes_iff {erange : Bool} (h : Accepted erange s k) : Denotes s v ↔ v =
    (scan s).value * k := by
  rw [Arguments.denotes_iff]
  constructor
  · rintro ⟨-, k', hk', rfl⟩
    rw [Option.some.inj (h.factor.symm.trans hk')]
  · exact fun hv => ⟨h.digits, k, h.factor, hv⟩

private theorem Accepted.or_exists_iff {erange : Bool} (h : Accepted erange s k) {P : Nat → Prop} :
    (Bare s ∨ ∃ k, Accepted erange s k ∧ P k) ↔ P k := by
  constructor
  · rintro (hbare | ⟨k', hk', hp⟩)
    · exact absurd hbare.1 h.digits
    · rwa [h.unique hk']
  · exact fun hp => .inr ⟨k, h, hp⟩

private theorem exact64_iff (erange : Bool) (s : List Char) : Exact64 erange s ↔ ¬Wrong64 erange s := by
  unfold Exact64 Wrong64
  rcases strtobytes64_cases erange s with ⟨hr, hbare, hno⟩ | ⟨hr, hbare⟩ | ⟨k, hk, hr⟩
  · exact iff_of_true (.inl hr) fun h => h.elim hbare fun ⟨k, hk, _⟩ => hno k hk
  · refine iff_of_false ?_ (not_not.2 (.inl hbare))
    rw [hr]
    exact fun h => h.elim (by decide) (hbare.not_denotes _)
  · rw [hk.or_exists_iff, hk.denotes_iff, hr, inputError64, Scan.wrapped, Scan.value]
    have hm := hk.amount
    generalize (scan s).amount = m at hm ⊢
    cases (scan s).neg with
    | false =>
      simp only [Bool.false_eq_true, if_false]
      rcases factor_cases hk.factor with ⟨-, rfl⟩ | ⟨-, rfl | rfl | rfl⟩ <;> omega
    | true =>
      simp only [if_true]
      rcases factor_cases hk.factor with ⟨-, rfl⟩ | ⟨-, rfl | rfl | rfl⟩ <;> omega

private theorem strtobytes_eq (erange : Bool) (s : List Char) :
    strtobytes erange s = if strtobytes64 erange s = inputError64 then inputError else strtobytes64 erange s % 2 ^ 32 := by
  have hlt : ¬2 ^ 64 - 1 < strtobytes64 erange s := by
    rcases strtobytes64_cases erange s with ⟨hr, -⟩ | ⟨hr, -⟩ | ⟨k, -, hr⟩
    · rw [hr, inputError64]
      omega
    · rw [hr]
      omega
    · rw [hr]
      omega
  unfold strtobytes
  simp only [hlt, false_or]

private theorem exact32_iff (erange : Bool) (s : List Char) : Exact32 erange s ↔ ¬Wrong32 erange s := by
  unfold Exact32 Wrong32
  rw [strtobytes_eq]
  rcases strtobytes64_cases erange s with ⟨hr, hbare, hno⟩ | ⟨hr, hbare⟩ | ⟨k, hk, hr⟩
  · exact iff_of_true (.inl (if_pos hr)) fun h => h.elim hbare fun ⟨k, hk, _⟩ => hno k hk
  · refine iff_of_false ?_ (not_not.2 (.inl hbare))
    rw [hr]
    exact fun h => h.elim (by decide) (hbare.not_denotes _)
  · rw [hk.or_exists_iff, hk.denotes_iff, hr, inputError64, inputError, Scan.wrapped, Scan.value]
    have hm := hk.amount
    generalize (scan s).amount = m at hm ⊢
    cases (scan s).neg with
    | false =>
      simp only [Bool.false_eq_true, if_false]
      rcases factor_cases hk.factor with ⟨-, rfl⟩ | ⟨-, rfl | rfl | rfl⟩ <;> split_ifs <;> omega
    | true =>
      simp only [if_true]
      rcases factor_cases hk.factor with ⟨-, rfl⟩ | ⟨-, rfl | rfl | rfl⟩ <;> split_ifs <;> omega

/-! ### Block sizes and tags -/

/-- The strings for which `strtobits` looks behind the terminating zero: every power of two without a suffix. -/
def WrongBits (s : List Char) : Prop :=
  (scan s).digits ≠ [] ∧ (scan s).rest = [] ∧ (scan s).neg = false ∧ ∃ b ≤ 62, (scan s).amount = 2 ^ b

/-- The strings that `parse_snaptag` gets wrong: a minus sign behind white space, and tags with more than 32 bits. -/
def WrongTag (s : List Char) : Prop :=
  s.head? ≠ some '-' ∧ (scan s).digits ≠ [] ∧ (scan s).rest = [] ∧ (scan s).amount < 2 ^ 64 ∧
    if (scan s).neg then 2 ≤ (scan s).amount else 2 ^ 32 ≤ (scan s).amount ∧ (scan s).amount ≠ 2 ^ 64 - 1

/-- The amounts that pass the first test of `strtobits`. -/
private theorem strtol_power (hpos : ¬(strtol s).1 ≤ 0) (hpow : (strtol s).1.toNat &&& ((strtol s).1.toNat - 1) = 0) :
    (scan s).digits ≠ [] ∧ (scan s).neg = false ∧ (strtol s).2 = (scan s).rest ∧
      (strtol s).1.toNat = (scan s).amount ∧ ∃ b ≤ 62, (scan s).amount = 2 ^ b := by
  unfold strtol at hpos hpow ⊢
  by_cases hd : (scan s).digits = []
  · rw [if_pos hd] at hpos
    exact absurd (Int.le_refl 0) hpos
  rw [if_neg hd] at hpos hpow ⊢
  cases hneg : (scan s).neg with
  | true =>
    rw [hneg, if_pos rfl] at hpos
    dsimp only at hpos
    split_ifs at hpos <;> omega
  | false =>
    rw [hneg, if_neg Bool.false_ne_true] at hpos hpow
    dsimp only at hpos hpow
    have hlt : (scan s).amount < 2 ^ 63 := by
      by_contra hge
      rw [if_neg hge] at hpow
      exact absurd hpow (by decide)
    rw [if_pos hlt, Int.toNat_natCast] at hpow
    rw [if_pos hlt] at hpos
    obtain ⟨b, hb⟩ := (Nat.and_sub_one_eq_zero_iff_isPowerOfTwo (by omega)).1 hpow
    refine ⟨hd, rfl, rfl, ?_, b, ?_, hb⟩
    · rw [if_neg Bool.false_ne_true]
      dsimp only
      rw [if_pos hlt, Int.toNat_natCast]
    · rw [hb] at hlt
      have := (Nat.pow_lt_pow_iff_right (by decide)).1 hlt
      omega

private theorem strtol_of_power (hd : (scan s).digits ≠ []) (hneg : (scan s).neg = false) {b : Nat} (hb : b ≤ 62)
    (hm : (scan s).amount = 2 ^ b) : strtol s = (((2 ^ b : Nat) : Int), (scan s).rest) := by
  have hlt : 2 ^ b ≤ 2 ^ 62 := Nat.pow_le_pow_right (by decide) hb
  rw [strtol, if_neg hd, hneg, if_neg Bool.false_ne_true, hm, if_pos (by omega)]

private theorem exactBits_iff (s : List Char) : ExactBits s ↔ ¬WrongBits s := by
  unfold ExactBits strtobits
  dsimp only
  constructor
  · rintro ⟨bits, hbits, -⟩ ⟨hd, hrest, hneg, b, hb, hm⟩
    have hpos := Nat.two_pow_pos b
    rw [strtol_of_power hd hneg hb hm, hrest, Int.toNat_natCast, if_neg] at hbits
    · cases hbits
    · rintro (h | h)
      · omega
      · exact h ((Nat.and_sub_one_eq_zero_iff_isPowerOfTwo (by omega)).2 ⟨b, rfl⟩)
  · intro hwrong
    by_cases hfirst : (strtol s).1 ≤ 0 ∨ (strtol s).1.toNat &&& ((strtol s).1.toNat - 1) ≠ 0
    · exact ⟨inputError, if_pos hfirst, .inl rfl⟩
    rw [if_neg hfirst]
    rw [not_or, not_not] at hfirst
    obtain ⟨hd, hneg, hrest, hamount, b, hb, hm⟩ := strtol_power hfirst.1 hfirst.2
    rw [hrest, hamount, hm, Nat.log2_two_pow]
    match hletter : (scan s).rest with
    | [] => exact absurd ⟨hd, hletter, hneg, b, hb, hm⟩ hwrong
    | [c] =>
      refine ⟨_, rfl, ?_⟩
      cases hc : suffixBits c with
      | none => exact .inl rfl
      | some k =>
        refine .inr (denotes_iff.2 ⟨hd, 2 ^ k, ?_, ?_⟩)
        · rw [hletter, factor, hc]
          rfl
        · rw [Scan.value, hneg, if_neg Bool.false_ne_true, hm, Option.elim_some, pow_add]
          push_cast
          rfl
    | _ :: _ :: _ => exact ⟨inputError, rfl, .inl rfl⟩

private theorem exactTag_iff (s : List Char) : ExactTag s ↔ ¬WrongTag s := by
  unfold ExactTag parseSnaptag WrongTag
  have hnum : ∀ v, Numeral s [] v ↔ (scan s).digits ≠ [] ∧ (scan s).rest = [] ∧ v = (scan s).value :=
    fun v => numeral_iff rfl
  by_cases hfirst : s = [] ∨ s.head? = some '-'
  · rw [if_pos hfirst]
    refine iff_of_true nofun ?_
    rintro ⟨hhead, hd, -⟩
    rcases hfirst with rfl | h
    · exact hd rfl
    · exact hhead h
  rw [if_neg hfirst]
  rw [not_or] at hfirst
  unfold strtoull
  by_cases hd : (scan s).digits = []
  · simp only [if_pos hd]
    rw [if_pos hfirst.1]
    exact iff_of_true nofun fun h => h.2.1 hd
  simp only [if_neg hd]
  by_cases hm : 2 ^ 64 ≤ (scan s).amount
  · simp only [if_pos hm]
    refine iff_of_true (fun tag h => ?_) fun h => ?_
    · split_ifs at h
      omega
    · have := h.2.2.2.1
      omega
  simp only [if_neg hm]
  by_cases hrest : (scan s).rest ≠ []
  · rw [if_pos hrest]
    exact iff_of_true nofun fun h => hrest h.2.2.1
  rw [if_neg hrest]
  rw [not_not] at hrest
  simp only [hnum, ne_eq, hd, not_false_eq_true, hrest, true_and, hfirst.2]
  cases hneg : (scan s).neg with
  | false =>
    have hw : (scan s).wrapped = (scan s).amount := by rw [Scan.wrapped, hneg, if_neg Bool.false_ne_true]
    have hv : (scan s).value = (scan s).amount := by rw [Scan.value, hneg, if_neg Bool.false_ne_true]
    simp only [hw, hv, Bool.false_eq_true, if_false]
    split_ifs with hmax
    · exact iff_of_true nofun (by omega)
    · simp only [Option.some.injEq, forall_eq']
      omega
  | true =>
    have hw : (scan s).wrapped = (2 ^ 64 - (scan s).amount) % 2 ^ 64 := by rw [Scan.wrapped, hneg, if_pos rfl]
    have hv : (scan s).value = -((scan s).amount : Int) := by rw [Scan.value, hneg, if_pos rfl]
    simp only [hw, hv, if_true]
    split_ifs with hmax
    · exact iff_of_true nofun (by omega)
    · simp only [Option.some.injEq, forall_eq']
      omega

/-- The strings for which each of the functions returns its error value or the number, without looking behind them. -/
theorem numbers_exact_iff (erange : Bool) (s : List Char) :
    (Exact64 erange s ↔ ¬Wrong64 erange s) ∧ (Exact32 erange s ↔ ¬Wrong32 erange s) ∧
      (ExactBits s ↔ ¬WrongBits s) ∧ (ExactTag s ↔ ¬WrongTag s) :=
  ⟨exact64_iff erange s, exact32_iff erange s, exactBits_iff s, exactTag_iff s⟩

/-- 17179869184 gigabytes are taken for none, 4 gigabytes for none, the tag `2 ^ 32 + 1` for 1; and the block size 4096 is
only accepted after a look behind the string. -/
theorem numbers_inexact :
    (strtobytes64 false "17179869184g".toList = 0 ∧ ¬Exact64 false "17179869184g".toList) ∧
      (strtobytes false "4g".toList = 0 ∧ ¬Exact32 false "4g".toList) ∧
      (strtobits "4096".toList = none ∧ ¬ExactBits "4096".toList) ∧
      (parseSnaptag "4294967297".toList = some 1 ∧ ¬ExactTag "4294967297".toList) := by
  refine ⟨⟨by decide, ?_⟩, ⟨by decide, ?_⟩, ⟨by decide, ?_⟩, ⟨by decide, ?_⟩⟩
  · rw [exact64_iff, not_not]
    exact .inr ⟨2 ^ 30, ⟨by decide, by decide, by decide, by decide⟩, by decide⟩
  · rw [exact32_iff, not_not]
    exact .inr ⟨2 ^ 30, ⟨by decide, by decide, by decide, by decide⟩, by decide⟩
  · rw [exactBits_iff, not_not]
    exact ⟨by decide, by decide, by decide, 12, by decide, by decide⟩
  · rw [exactTag_iff, not_not]
    exact ⟨by decide, by decide, by decide, by decide, by decide⟩

end Ddsnap.Arguments
