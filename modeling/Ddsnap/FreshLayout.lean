import Ddsnap.Fresh
import Ddsnap.Lib.FreeMap
import Mathlib.Data.Int.Init

/-!
# The layout of a fresh store

`init_allocation` in the integer types of the source: the places of the bitmaps are sectors of 64 bits, the number of
reserved blocks and the sector that `init_bitmap_blocks` writes have 32 bits, the place of the journal has 32 bits and a
sign.  Nothing in it looks at the size of the device, and it never fails.
-/

namespace Ddsnap

variable {D : Type}

/-! ### What initialize accepts -/

/-- The arguments of `ddsnap initialize`: the block and the chunk size as powers of two, the sizes of the devices and of
the journal in bytes.  `snapsize` is zero when the snapshot data share the metadata device. -/
structure Initialize where
  bsBits : Nat
  csBits : Nat
  metasize : Nat
  snapsize : Nat
  orgsectors : Nat
  jsBytes : Nat
  sector_le : 9 ≤ bsBits ∧ 9 ≤ csBits
  device_lt : metasize < 2 ^ 64 ∧ snapsize < 2 ^ 64
  journal_lt : 9 ≤ jsBytes ∧ jsBytes < 2 ^ 32 - 1
  /-- The assertion of `setup_sb`. -/
  combined_bits : snapsize / 2 ^ csBits = 0 → bsBits = csBits

/-- The sizes that `init_super` computes from the arguments.  The rounding of the journal size is done with 32 bits. -/
def Initialize.config (a : Initialize) : Config where
  bits := a.bsBits
  metachunks := a.metasize / 2 ^ a.bsBits
  snapchunks := a.snapsize / 2 ^ a.csBits
  journalSize := (a.jsBytes + 2 ^ a.csBits - 1) % 2 ^ 32 / 2 ^ a.csBits
  orgsectors := a.orgsectors

/-! ### `init_allocation` -/

/-- What `init_allocation` fills in for one space; the bitmap starts at a sector. -/
structure SectorSpace where
  bitmapBase : Nat
  chunks : Nat
  freechunks : Nat
  bitmapBlocks : Nat

/-- The result of `init_allocation`.  The blocks of the metadata device are found by their first sector. -/
structure Allocation (D : Type) where
  metadata : SectorSpace
  snapdata : SectorSpace
  journalBase : Int
  dev : Nat → Block D

/-- `chunk_sectors` of the metadata. -/
def Config.chunkSectors (cfg : Config) : Nat := 2 ^ (cfg.bits - 9)

/-- The bits that a bitmap block holds. -/
def Config.blockBits (cfg : Config) : Nat := 2 ^ (cfg.bits + 3)

/-- A value in a variable of type `s32`. -/
def s32 (n : Nat) : Int := (n : Int).bmod (2 ^ 32)

/-- The byte that holds the last chunk, behind that chunk. -/
def Config.suppressed (cfg : Config) (bitmaps chunks i j : Nat) : Prop :=
  i + 1 = bitmaps ∧ chunks % 8 ≠ 0 ∧ j / 8 = chunks / 8 % 2 ^ cfg.bits ∧ chunks % 8 ≤ j % 8

instance (cfg : Config) (bitmaps chunks i j : Nat) : Decidable (cfg.suppressed bitmaps chunks i j) :=
  inferInstanceAs (Decidable (_ ∧ _))

/-- Bitmap block `i` when `reserved` chunks are left to be marked: all of its bits or its first ones, and the last
byte. -/
def reservedBlock (cfg : Config) (bitmaps chunks i reserved : Nat) : Block D :=
  .bitmap fun j =>
    (if cfg.blockBits < reserved then j < cfg.blockBits else j < reserved) ∨ cfg.suppressed bitmaps chunks i j

/-- The loop of `init_bitmap_blocks`: `n` blocks are left, `i` is the next one. -/
def initBitmapLoop (cfg : Config) (bitmaps chunks : Nat) :
    (n i sector reserved : Nat) → (Nat → Block D) → Nat → Block D
  | 0, _, _, _, dev => dev
  | n + 1, i, sector, reserved, dev =>
    initBitmapLoop cfg bitmaps chunks n (i + 1) ((sector + cfg.chunkSectors) % 2 ^ 32)
      (if cfg.blockBits < reserved then reserved - cfg.blockBits else 0)
      (Function.update dev sector (reservedBlock cfg bitmaps chunks i reserved))

/-- `init_bitmap_blocks`, whose parameters for the place and the number of the blocks have 32 bits. -/
def initBitmapBlocks (cfg : Config) (base bitmaps chunks reserved : Nat) (dev : Nat → Block D) : Nat → Block D :=
  initBitmapLoop cfg (bitmaps % 2 ^ 32) chunks (bitmaps % 2 ^ 32) 0 (base % 2 ^ 32) reserved dev

/-- `init_allocation` on a device with any content. -/
def initAllocation (cfg : Config) (dev : Nat → Block D) : Allocation D :=
  let metaBase := (8 + 8 + cfg.chunkSectors - 1) / cfg.chunkSectors
  let metaBlocks := calcBitmapBlocks cfg.bits cfg.metachunks
  let metaSector := metaBase * cfg.chunkSectors
  let reserved := (metaBase + metaBlocks + cfg.journalSize) % 2 ^ 32
  if cfg.snapchunks = 0 then
    { metadata := ⟨metaSector, cfg.metachunks, diff64 cfg.metachunks reserved, metaBlocks⟩
      snapdata := ⟨0, 0, 0, 0⟩
      journalBase := s32 (metaSector + metaBlocks * cfg.chunkSectors)
      dev := initBitmapBlocks cfg metaSector metaBlocks cfg.metachunks reserved dev }
  else
    let snapBase := metaSector / cfg.chunkSectors + metaBlocks
    let snapBlocks := calcBitmapBlocks cfg.bits cfg.snapchunks
    let snapSector := snapBase * cfg.chunkSectors
    let reserved := (reserved + snapBlocks) % 2 ^ 32
    { metadata := ⟨metaSector, cfg.metachunks, diff64 cfg.metachunks reserved, metaBlocks⟩
      snapdata := ⟨snapSector, cfg.snapchunks, cfg.snapchunks, snapBlocks⟩
      journalBase := s32 (metaSector + (metaBlocks + snapBlocks) * cfg.chunkSectors)
      dev := initBitmapBlocks cfg snapSector snapBlocks cfg.snapchunks 0
        (initBitmapBlocks cfg metaSector metaBlocks cfg.metachunks reserved dev) }

/-- `init_super` up to `init_allocation`.  `none` stands for a shift that C leaves undefined: `1 << (chunkshift + 3)` in
`calc_bitmap_blocks` or `1 << cs_bits` in `setup_sb`. -/
def Initialize.allocate (a : Initialize) (dev : Nat → Block D) : Option (Allocation D) :=
  if a.bsBits + 3 < 31 ∧ a.csBits < 31 then some (initAllocation a.config dev) else none

/-! ### A consistent layout -/

/-- A part of the metadata device: its first sector and its size in blocks. -/
structure Region where
  start : Int
  blocks : Nat

/-- A chunk lies in the region. -/
def Region.Has (cfg : Config) (r : Region) (chunk : Nat) : Prop :=
  r.start ≤ chunk * cfg.chunkSectors ∧ (chunk * cfg.chunkSectors : Int) < r.start + r.blocks * cfg.chunkSectors

/-- The superblock with the unused sectors before it, the bitmaps and the journal. -/
def Allocation.regions (cfg : Config) (l : Allocation D) : List Region :=
  [⟨0, cfg.bitmapBase⟩, ⟨l.metadata.bitmapBase, l.metadata.bitmapBlocks⟩,
    ⟨l.snapdata.bitmapBase, l.snapdata.bitmapBlocks⟩, ⟨l.journalBase, cfg.journalSize⟩]

/-- The bit of a chunk in the bitmap of a space. -/
def Allocation.marked (cfg : Config) (l : Allocation D) (space : SectorSpace) (chunk : Nat) : Bool :=
  bitmapBits (l.dev (space.bitmapBase + chunk / cfg.blockBits * cfg.chunkSectors)) (chunk % cfg.blockBits)

/-- The number of clear bits below the size of a space. -/
def Allocation.zeros (cfg : Config) (l : Allocation D) (space : SectorSpace) : Nat :=
  FreeMap.zeros space.chunks (l.marked cfg space)

/-- There is a journal, the regions are disjoint and inside the device, the metadata bitmap marks exactly them and the
rest of its last byte, and the free chunks are counted in both spaces. -/
structure Consistent (cfg : Config) (l : Allocation D) : Prop where
  journal : 0 < cfg.journalSize
  inside : ∀ r ∈ l.regions cfg,
    0 ≤ r.start ∧ r.start + r.blocks * cfg.chunkSectors ≤ cfg.metachunks * cfg.chunkSectors
  disjoint : (l.regions cfg).Pairwise fun r s => ∀ chunk, r.Has cfg chunk → ¬s.Has cfg chunk
  marks : ∀ chunk < l.metadata.bitmapBlocks * cfg.blockBits, l.marked cfg l.metadata chunk = true ↔
    (∃ r ∈ l.regions cfg, r.Has cfg chunk) ∨ (cfg.metachunks ≤ chunk ∧ chunk < 8 * ((cfg.metachunks + 7) / 8))
  metafree : l.metadata.freechunks = l.zeros cfg l.metadata
  snapfree : l.snapdata.freechunks = l.zeros cfg l.snapdata

/-! ### The loop over the bitmap blocks -/

section Loop

variable {cfg : Config} {bitmaps chunks n i sector reserved : Nat} {dev : Nat → Block D}

private theorem chunkSectors_pos (cfg : Config) : 0 < cfg.chunkSectors := Nat.two_pow_pos _

private theorem blockBits_eq (cfg : Config) : cfg.blockBits = 8 * 2 ^ cfg.bits := by
  rw [Config.blockBits, Nat.pow_add, Nat.mul_comm]

private theorem next_sector (hle : sector + (n + 1) * cfg.chunkSectors ≤ 2 ^ 32) (hn : 0 < n) :
    (sector + cfg.chunkSectors) % 2 ^ 32 = sector + cfg.chunkSectors := by
  have hpos := chunkSectors_pos cfg
  have hone := Nat.mul_le_mul_right cfg.chunkSectors (show 1 + 1 ≤ n + 1 by omega)
  exact Nat.mod_eq_of_lt (by omega)

private theorem initBitmapLoop_other {s : Nat} (hle : sector + n * cfg.chunkSectors ≤ 2 ^ 32)
    (hs : s < sector ∨ sector + n * cfg.chunkSectors ≤ s) :
    initBitmapLoop cfg bitmaps chunks n i sector reserved dev s = dev s := by
  induction n generalizing i sector reserved dev with
  | zero => rfl
  | succ n ih =>
    have hpos := chunkSectors_pos cfg
    rw [Nat.succ_mul] at hs
    have hne : s ≠ sector := by omega
    cases n with
    | zero => exact Function.update_of_ne hne _ _
    | succ n =>
      rw [initBitmapLoop, next_sector hle (Nat.succ_pos n), ih (by rw [Nat.succ_mul] at hle; omega) (by omega)]
      exact Function.update_of_ne hne _ _

private theorem reservedBlock_bits {j : Nat} (hj : j < cfg.blockBits) :
    bitmapBits (reservedBlock (D := D) cfg bitmaps chunks i reserved) j =
      decide (j < reserved ∨ cfg.suppressed bitmaps chunks i j) := by
  refine decide_eq_decide.2 (or_congr_left ?_)
  split
  · omega
  · rfl

private theorem initBitmapLoop_first (hle : sector + (n + 1) * cfg.chunkSectors ≤ 2 ^ 32) :
    initBitmapLoop cfg bitmaps chunks (n + 1) i sector reserved dev sector =
      reservedBlock cfg bitmaps chunks i reserved := by
  have hpos := chunkSectors_pos cfg
  have hsplit : (n + 1) * cfg.chunkSectors = n * cfg.chunkSectors + cfg.chunkSectors := Nat.succ_mul _ _
  cases n with
  | zero => exact Function.update_self sector _ dev
  | succ n =>
    rw [initBitmapLoop, next_sector hle (Nat.succ_pos n), initBitmapLoop_other (by omega) (.inl (by omega))]
    exact Function.update_self sector _ dev

/-- Bit `j` of the block that the loop writes as its `k`-th. -/
private theorem initBitmapLoop_bits (hle : sector + n * cfg.chunkSectors ≤ 2 ^ 32) {k j : Nat} (hk : k < n)
    (hj : j < cfg.blockBits) :
    bitmapBits (initBitmapLoop cfg bitmaps chunks n i sector reserved dev (sector + k * cfg.chunkSectors)) j =
      decide (k * cfg.blockBits + j < reserved ∨ cfg.suppressed bitmaps chunks (i + k) j) := by
  induction n generalizing i sector reserved dev k with
  | zero => omega
  | succ n ih =>
    have hsplit : (n + 1) * cfg.chunkSectors = n * cfg.chunkSectors + cfg.chunkSectors := Nat.succ_mul _ _
    cases k with
    | zero =>
      simp only [Nat.zero_mul, Nat.add_zero, Nat.zero_add]
      rw [initBitmapLoop_first hle, reservedBlock_bits hj]
    | succ k =>
      have hrest : (if cfg.blockBits < reserved then reserved - cfg.blockBits else 0) = reserved - cfg.blockBits := by
        split <;> omega
      have hsector : sector + (k + 1) * cfg.chunkSectors = sector + cfg.chunkSectors + k * cfg.chunkSectors := by
        rw [Nat.succ_mul]
        omega
      rw [initBitmapLoop, next_sector hle (by omega), hrest, hsector, ih (by omega) (by omega)]
      have hbit : k * cfg.blockBits + j < reserved - cfg.blockBits ↔ (k + 1) * cfg.blockBits + j < reserved := by
        rw [Nat.succ_mul]
        omega
      rw [Nat.add_right_comm, Nat.add_assoc i k 1]
      exact decide_eq_decide.2 (or_congr_left hbit)

/-- The bits that are suppressed are those behind the end of the space in its last byte. -/
private theorem suppressed_iff {chunk : Nat} :
    cfg.suppressed (calcBitmapBlocks cfg.bits chunks) chunks (chunk / cfg.blockBits) (chunk % cfg.blockBits) ↔
      chunks ≤ chunk ∧ chunk < 8 * ((chunks + 7) / 8) := by
  rw [Config.suppressed, blockBits_eq, ← Nat.div_div_eq_div_mul, Nat.mod_mul_right_div_self,
    Nat.mod_mod_of_dvd _ (Nat.dvd_mul_right 8 _)]
  constructor
  · rintro ⟨hblock, hpart, hbyte, hbit⟩
    rw [calcBitmapBlocks_ragged hpart] at hblock
    have hsame : chunk / 8 = chunks / 8 := by
      rw [← Nat.div_add_mod (chunk / 8) (2 ^ cfg.bits), ← Nat.div_add_mod (chunks / 8) (2 ^ cfg.bits), hbyte,
        Nat.succ_injective hblock]
    omega
  · rintro ⟨hle, hlt⟩
    have hpart : chunks % 8 ≠ 0 := by omega
    have hsame : chunk / 8 = chunks / 8 := by omega
    rw [calcBitmapBlocks_ragged hpart, hsame]
    exact ⟨rfl, hpart, rfl, by omega⟩

variable {base : Nat}

private theorem initBitmapBlocks_other {s : Nat} (hle : base + bitmaps * cfg.chunkSectors < 2 ^ 32)
    (hs : s < base ∨ base + bitmaps * cfg.chunkSectors ≤ s) :
    initBitmapBlocks cfg base bitmaps chunks reserved dev s = dev s := by
  have hbitmaps := Nat.le_mul_of_pos_right bitmaps (chunkSectors_pos cfg)
  rw [initBitmapBlocks, Nat.mod_eq_of_lt (show bitmaps < 2 ^ 32 by omega),
    Nat.mod_eq_of_lt (show base < 2 ^ 32 by omega)]
  exact initBitmapLoop_other hle.le hs

private theorem initBitmapBlocks_bits {chunk : Nat}
    (hle : base + calcBitmapBlocks cfg.bits chunks * cfg.chunkSectors < 2 ^ 32)
    (hc : chunk < calcBitmapBlocks cfg.bits chunks * cfg.blockBits) :
    bitmapBits (initBitmapBlocks cfg base (calcBitmapBlocks cfg.bits chunks) chunks reserved dev
        (base + chunk / cfg.blockBits * cfg.chunkSectors)) (chunk % cfg.blockBits) =
      decide (chunk < reserved ∨ (chunks ≤ chunk ∧ chunk < 8 * ((chunks + 7) / 8))) := by
  have hbits : 0 < cfg.blockBits := Nat.two_pow_pos _
  have hbitmaps := Nat.le_mul_of_pos_right (calcBitmapBlocks cfg.bits chunks) (chunkSectors_pos cfg)
  rw [initBitmapBlocks, Nat.mod_eq_of_lt (show calcBitmapBlocks cfg.bits chunks < 2 ^ 32 by omega),
    Nat.mod_eq_of_lt (show base < 2 ^ 32 by omega),
    initBitmapLoop_bits hle.le (Nat.div_lt_of_lt_mul (by rwa [Nat.mul_comm])) (Nat.mod_lt _ hbits), Nat.zero_add,
    Nat.mul_comm, Nat.div_add_mod]
  exact decide_eq_decide.2 (or_congr_right suppressed_iff)

end Loop

/-! ### The places and the counters -/

section Places

variable {cfg : Config} {dev : Nat → Block D}

/-- The blocks of the superblock and of the bitmaps, which lie before the journal. -/
def Config.headBlocks (cfg : Config) : Nat :=
  cfg.bitmapBase + calcBitmapBlocks cfg.bits cfg.metachunks + calcBitmapBlocks cfg.bits cfg.snapchunks

private theorem reserved_eq (cfg : Config) : cfg.reserved = cfg.headBlocks + cfg.journalSize := rfl

private theorem bitmapBase_eq (hbits : 9 ≤ cfg.bits) : (8 + 8 + cfg.chunkSectors - 1) / cfg.chunkSectors =
    cfg.bitmapBase := by
  obtain ⟨k, hk⟩ := Nat.exists_eq_add_of_le hbits
  have hpos := Nat.two_pow_pos k
  rw [Config.bitmapBase, Config.chunkSectors, hk, Nat.add_sub_cancel_left, Nat.pow_add, ← Nat.div_div_eq_div_mul,
    show (2 ^ 13 + 2 ^ 9 * 2 ^ k - 1) / 2 ^ 9 = 8 + 8 + 2 ^ k - 1 by omega]

private theorem calcBitmapBlocks_zero (bits : Nat) : calcBitmapBlocks bits 0 = 0 :=
  Nat.div_eq_of_lt (by have := Nat.two_pow_pos (bits + 3); omega)

private theorem le_calcBitmapBlocks (cfg : Config) (chunks : Nat) :
    chunks ≤ calcBitmapBlocks cfg.bits chunks * cfg.blockBits :=
  le_trans (by omega) (counted_le_calcBitmapBlocks cfg.bits chunks)

private theorem initAllocation_metadata (hbits : 9 ≤ cfg.bits) : (initAllocation cfg dev).metadata =
    ⟨cfg.bitmapBase * cfg.chunkSectors, cfg.metachunks, diff64 cfg.metachunks (cfg.reserved % 2 ^ 32),
      calcBitmapBlocks cfg.bits cfg.metachunks⟩ := by
  rw [initAllocation, bitmapBase_eq hbits]
  split_ifs with h
  · rw [Config.reserved, h, calcBitmapBlocks_zero]
    rfl
  · dsimp only
    rw [Nat.mod_add_mod, Config.reserved, Nat.add_right_comm _ cfg.journalSize]

private theorem initAllocation_snapdata (hbits : 9 ≤ cfg.bits) : (initAllocation cfg dev).snapdata =
    if cfg.snapchunks = 0 then ⟨0, 0, 0, 0⟩ else
    ⟨(cfg.bitmapBase + calcBitmapBlocks cfg.bits cfg.metachunks) * cfg.chunkSectors, cfg.snapchunks, cfg.snapchunks,
      calcBitmapBlocks cfg.bits cfg.snapchunks⟩ := by
  rw [initAllocation, bitmapBase_eq hbits]
  split_ifs with h
  · rfl
  · rw [Nat.mul_div_cancel _ (chunkSectors_pos cfg)]

private theorem initAllocation_journalBase (hbits : 9 ≤ cfg.bits) :
    (initAllocation cfg dev).journalBase = s32 (cfg.headBlocks * cfg.chunkSectors) := by
  rw [initAllocation, bitmapBase_eq hbits]
  split_ifs with h
  · rw [Config.headBlocks, h, calcBitmapBlocks_zero, Nat.add_zero, Nat.add_mul]
  · dsimp only
    rw [Config.headBlocks, ← Nat.add_mul, ← Nat.add_assoc]

private theorem initAllocation_dev (hbits : 9 ≤ cfg.bits) : (initAllocation cfg dev).dev =
    let written := initBitmapBlocks cfg (cfg.bitmapBase * cfg.chunkSectors) (calcBitmapBlocks cfg.bits cfg.metachunks)
      cfg.metachunks (cfg.reserved % 2 ^ 32) dev
    if cfg.snapchunks = 0 then written else
    initBitmapBlocks cfg ((cfg.bitmapBase + calcBitmapBlocks cfg.bits cfg.metachunks) * cfg.chunkSectors)
      (calcBitmapBlocks cfg.bits cfg.snapchunks) cfg.snapchunks 0 written := by
  rw [initAllocation, bitmapBase_eq hbits]
  split_ifs with h
  · rw [Config.reserved, h, calcBitmapBlocks_zero]
    rfl
  · dsimp only
    rw [Nat.mod_add_mod, Config.reserved, Nat.add_right_comm _ cfg.journalSize,
      Nat.mul_div_cancel _ (chunkSectors_pos cfg)]

private theorem s32_of_lt {n : Nat} (h : n < 2 ^ 31) : s32 n = n := by
  unfold s32
  exact Int.bmod_eq_of_le (by omega) (by omega)

private theorem s32_of_le {n : Nat} (h : 2 ^ 31 ≤ n) (hpos : 0 ≤ s32 n) : s32 n = (n % 2 ^ 32 : Nat) ∧
    n % 2 ^ 32 < n := by
  unfold s32 at hpos ⊢
  rw [Int.bmod_def] at hpos ⊢
  split_ifs at hpos ⊢ <;> omega

/-- The sectors before the journal fit the type of `journal_base`, and the reserved blocks lie on the device. -/
structure Config.Fits (cfg : Config) : Prop where
  sectors : cfg.headBlocks * cfg.chunkSectors < 2 ^ 31
  room : cfg.reserved ≤ cfg.metachunks

variable (hbits : 9 ≤ cfg.bits) (hjournal : cfg.journalSize < 2 ^ 31) (hsize : cfg.metachunks < 2 ^ 64)

include hjournal in
private theorem Config.Fits.reserved_lt (h : cfg.Fits) : cfg.reserved % 2 ^ 32 = cfg.reserved := by
  have hhead := Nat.le_mul_of_pos_right cfg.headBlocks (chunkSectors_pos cfg)
  have hsectors := h.sectors
  exact Nat.mod_eq_of_lt (by rw [reserved_eq]; omega)

include hbits hjournal in
private theorem Config.Fits.marked_metadata (h : cfg.Fits) {chunk : Nat}
    (hc : chunk < calcBitmapBlocks cfg.bits cfg.metachunks * cfg.blockBits) :
    (initAllocation cfg dev).marked cfg (initAllocation cfg dev).metadata chunk =
      decide (chunk < cfg.reserved ∨ (cfg.metachunks ≤ chunk ∧ chunk < 8 * ((cfg.metachunks + 7) / 8))) := by
  have hsectors := h.sectors
  simp only [Config.headBlocks, Nat.add_mul] at hsectors
  have hblock : chunk / cfg.blockBits < calcBitmapBlocks cfg.bits cfg.metachunks :=
    Nat.div_lt_of_lt_mul (by rwa [Nat.mul_comm])
  have hplace := Nat.mul_lt_mul_of_pos_right hblock (chunkSectors_pos cfg)
  rw [Allocation.marked, initAllocation_metadata hbits, initAllocation_dev hbits, h.reserved_lt hjournal]
  dsimp only
  split_ifs with hcomb
  · exact initBitmapBlocks_bits (by omega) hc
  · -- the blocks of the data bitmap come behind
    rw [initBitmapBlocks_other (by rw [Nat.add_mul]; omega) (.inl (by rw [Nat.add_mul]; omega))]
    exact initBitmapBlocks_bits (by omega) hc

include hbits in
private theorem Config.Fits.marked_snapdata (h : cfg.Fits) {chunk : Nat} (hc : chunk < cfg.snapchunks) :
    (initAllocation cfg dev).marked cfg (initAllocation cfg dev).snapdata chunk = false := by
  have hsectors := h.sectors
  simp only [Config.headBlocks, Nat.add_mul] at hsectors
  have hblocks := lt_of_lt_of_le hc (le_calcBitmapBlocks cfg cfg.snapchunks)
  have hcomb : cfg.snapchunks ≠ 0 := by omega
  rw [Allocation.marked, initAllocation_snapdata hbits, initAllocation_dev hbits]
  dsimp only
  rw [if_neg hcomb, if_neg hcomb]
  rw [initBitmapBlocks_bits (by rw [Nat.add_mul]; omega) hblocks]
  exact decide_eq_false (by omega)

/-- A region by the numbers of its first block and of its blocks. -/
def Config.region (cfg : Config) (p : Nat × Nat) : Region := ⟨(p.1 * cfg.chunkSectors : Nat), p.2⟩

/-- The regions before the journal.  A combined store has no data bitmap. -/
def Config.headRegions (cfg : Config) : List (Nat × Nat) :=
  [(0, cfg.bitmapBase), (cfg.bitmapBase, calcBitmapBlocks cfg.bits cfg.metachunks),
    (if cfg.snapchunks = 0 then 0 else cfg.bitmapBase + calcBitmapBlocks cfg.bits cfg.metachunks,
      calcBitmapBlocks cfg.bits cfg.snapchunks)]

private theorem region_has {p : Nat × Nat} {chunk : Nat} :
    (cfg.region p).Has cfg chunk ↔ p.1 ≤ chunk ∧ chunk < p.1 + p.2 := by
  have hpos := chunkSectors_pos cfg
  simp only [Region.Has, Config.region]
  norm_cast
  rw [← Nat.add_mul, Nat.mul_le_mul_right_iff hpos, Nat.mul_lt_mul_right hpos]

private theorem region_inside {p : Nat × Nat} : (0 ≤ (cfg.region p).start ∧
    (cfg.region p).start + (cfg.region p).blocks * cfg.chunkSectors ≤ cfg.metachunks * cfg.chunkSectors) ↔
      p.1 + p.2 ≤ cfg.metachunks := by
  have hpos := chunkSectors_pos cfg
  simp only [Config.region]
  norm_cast
  rw [← Nat.add_mul, Nat.mul_le_mul_right_iff hpos]
  exact and_iff_right (Nat.zero_le _)

include hbits in
private theorem initAllocation_regions : (initAllocation cfg dev).regions cfg =
    cfg.headRegions.map cfg.region ++ [⟨s32 (cfg.headBlocks * cfg.chunkSectors), cfg.journalSize⟩] := by
  rw [Allocation.regions, initAllocation_metadata hbits, initAllocation_snapdata hbits,
    initAllocation_journalBase hbits]
  simp only [Config.headRegions, Config.region, List.map_cons, List.map_nil, Nat.zero_mul]
  split_ifs with hcomb
  · rw [hcomb, calcBitmapBlocks_zero, Nat.zero_mul]
    rfl
  · rfl

private theorem headRegions_has {chunk : Nat} :
    (∃ p ∈ cfg.headRegions, p.1 ≤ chunk ∧ chunk < p.1 + p.2) ↔ chunk < cfg.headBlocks := by
  simp only [Config.headRegions, Config.headBlocks, List.mem_cons, List.not_mem_nil, or_false, exists_eq_or_imp,
    exists_eq_left]
  split_ifs with hcomb
  · rw [hcomb, calcBitmapBlocks_zero]
    omega
  · omega

/-! ### A layout is consistent exactly when it fits -/

include hbits in
/-- The journal of a consistent layout lies behind the bitmaps: an overflow of `journal_base` would put it on one of
them, or before the device. -/
private theorem Consistent.sectors (hshift : cfg.bits ≤ 41) (h : Consistent cfg (initAllocation cfg dev)) :
    cfg.headBlocks * cfg.chunkSectors < 2 ^ 31 := by
  by_contra hlarge
  have hlarge := Nat.not_lt.1 hlarge
  have hinside := h.inside
  have hdisjoint := h.disjoint
  rw [initAllocation_regions hbits] at hinside hdisjoint
  have hstart := (hinside _ (List.mem_append_right _ (List.mem_singleton_self _))).1
  dsimp only at hstart
  obtain ⟨hbase, hlt⟩ := s32_of_le hlarge hstart
  -- 2³² sectors are whole blocks, so that the journal begins with a block before the bitmaps' end
  have hwrap : 2 ^ 32 = 2 ^ (41 - cfg.bits) * cfg.chunkSectors := by
    rw [Config.chunkSectors, ← Nat.pow_add, show 41 - cfg.bits + (cfg.bits - 9) = 32 by omega]
  rw [hwrap, Nat.mul_mod_mul_right] at hbase hlt
  have hbefore := Nat.lt_of_mul_lt_mul_right hlt
  obtain ⟨p, hp, hhas⟩ := headRegions_has.2 hbefore
  refine (List.pairwise_append.1 hdisjoint).2.2 _ (List.mem_map_of_mem hp) _ (List.mem_singleton_self _) _
    (region_has.2 hhas) ?_
  rw [hbase]
  exact (region_has (p := (_, cfg.journalSize))).2 ⟨le_rfl, Nat.lt_add_of_pos_right h.journal⟩

include hbits in
private theorem Consistent.fits (hshift : cfg.bits ≤ 41) (h : Consistent cfg (initAllocation cfg dev)) : cfg.Fits := by
  have hsectors := h.sectors hbits hshift
  refine ⟨hsectors, ?_⟩
  have hinside := h.inside
  rw [initAllocation_regions hbits, s32_of_lt hsectors] at hinside
  exact (region_inside (p := (cfg.headBlocks, cfg.journalSize))).1
    (hinside _ (List.mem_append_right _ (List.mem_singleton_self _)))

include hbits in
private theorem Config.Fits.regions (h : cfg.Fits) : (initAllocation cfg dev).regions cfg =
    (cfg.headRegions ++ [(cfg.headBlocks, cfg.journalSize)]).map cfg.region := by
  rw [initAllocation_regions hbits, s32_of_lt h.sectors, List.map_append]
  rfl

private theorem regions_has {chunk : Nat} :
    (∃ p ∈ cfg.headRegions ++ [(cfg.headBlocks, cfg.journalSize)], p.1 ≤ chunk ∧ chunk < p.1 + p.2) ↔
      chunk < cfg.reserved := by
  simp only [List.mem_append, or_and_right, exists_or, headRegions_has, List.mem_singleton, exists_eq_left, reserved_eq]
  omega

private theorem regions_le : ∀ p ∈ cfg.headRegions ++
    [(cfg.headBlocks, cfg.journalSize)], p.1 + p.2 ≤ cfg.reserved := by
  simp only [Config.headRegions, Config.headBlocks, Config.reserved, List.cons_append, List.nil_append, List.mem_cons,
    List.not_mem_nil, or_false, forall_eq_or_imp, forall_eq]
  refine ⟨?_, ?_, ?_, ?_⟩
  · omega
  · omega
  · split <;> omega
  · omega

private theorem regions_disjoint : (cfg.headRegions ++ [(cfg.headBlocks, cfg.journalSize)]).Pairwise fun p q =>
    ∀ chunk, p.1 ≤ chunk ∧ chunk < p.1 + p.2 → ¬(q.1 ≤ chunk ∧ chunk < q.1 + q.2) := by
  have hcomb : cfg.snapchunks = 0 → calcBitmapBlocks cfg.bits cfg.snapchunks = 0 := by
    intro h
    rw [h, calcBitmapBlocks_zero]
  simp only [Config.headRegions, Config.headBlocks, List.cons_append, List.nil_append, List.pairwise_cons,
    List.mem_cons, List.not_mem_nil, or_false, forall_eq_or_imp, forall_eq, List.Pairwise.nil, and_true, false_imp_iff,
    implies_true]
  refine ⟨⟨?_, ?_, ?_⟩, ⟨?_, ?_⟩, ?_⟩ <;> intro chunk hp hq
  · omega
  · split_ifs at hq <;> omega
  · omega
  · split_ifs at hq <;> omega
  · omega
  · split_ifs at hp <;> omega

include hbits hjournal in
private theorem Config.Fits.zeros_metadata (h : cfg.Fits) :
    (initAllocation cfg dev).zeros cfg (initAllocation cfg dev).metadata = cfg.metachunks - cfg.reserved := by
  have hchunks : (initAllocation cfg dev).metadata.chunks = cfg.metachunks := by rw [initAllocation_metadata hbits]
  rw [Allocation.zeros, hchunks, FreeMap.zeros_between (n := cfg.metachunks) (r := cfg.reserved), Nat.min_self]
  intro chunk hc
  rw [h.marked_metadata hbits hjournal (lt_of_lt_of_le hc (le_calcBitmapBlocks cfg _))]
  exact decide_eq_decide.2 (by omega)

include hbits in
private theorem Config.Fits.zeros_snapdata (h : cfg.Fits) :
    (initAllocation cfg dev).zeros cfg (initAllocation cfg dev).snapdata = cfg.snapchunks := by
  have hchunks : (initAllocation cfg dev).snapdata.chunks = cfg.snapchunks := by
    rw [initAllocation_snapdata hbits]
    split
    · exact Eq.symm ‹_›
    · rfl
  rw [Allocation.zeros, hchunks, FreeMap.zeros_between (n := cfg.snapchunks) (r := 0), Nat.min_self, Nat.sub_zero]
  intro chunk hc
  rw [h.marked_snapdata hbits hc]
  exact (decide_eq_false (by omega)).symm

include hbits hjournal hsize in
private theorem Config.Fits.consistent (h : cfg.Fits) (hpos : 0 < cfg.journalSize) :
    Consistent cfg (initAllocation cfg dev) := by
  have hreserved := reserved_eq cfg
  have hroom := h.room
  refine ⟨hpos, ?_, ?_, ?_, ?_, ?_⟩
  · rw [h.regions hbits]
    intro r hr
    obtain ⟨p, hp, rfl⟩ := List.mem_map.1 hr
    exact region_inside.2 ((regions_le p hp).trans hroom)
  · rw [h.regions hbits, List.pairwise_map]
    simpa only [region_has] using regions_disjoint
  · intro chunk hc
    rw [initAllocation_metadata hbits] at hc
    rw [h.marked_metadata hbits hjournal hc, decide_eq_true_eq, h.regions hbits]
    refine or_congr_left ?_
    rw [← regions_has]
    simp only [List.mem_map, exists_exists_and_eq_and, region_has]
  · rw [h.zeros_metadata hbits hjournal, initAllocation_metadata hbits, h.reserved_lt hjournal]
    simp only [diff64]
    omega
  · rw [h.zeros_snapdata hbits, initAllocation_snapdata hbits]
    split
    · exact Eq.symm ‹_›
    · rfl

include hbits hjournal in
/-- On such a store `Config.blankStore` is what `init_allocation` leaves: the counters and the bits are the same. -/
theorem Config.Fits.blankStore (h : cfg.Fits) (blank : D) (org : Nat → D) :
    (cfg.blankStore blank org).image.metadata.freechunks = (initAllocation cfg dev).metadata.freechunks ∧
      ∀ chunk < calcBitmapBlocks cfg.bits cfg.metachunks * cfg.blockBits,
        (cfg.blankStore blank org).marked .metadata chunk =
          (initAllocation cfg dev).marked cfg (initAllocation cfg dev).metadata chunk := by
  have hroom := h.room
  constructor
  · rw [initAllocation_metadata hbits, h.reserved_lt hjournal]
    rfl
  · intro chunk hc
    have hblock : chunk / cfg.blockBits < calcBitmapBlocks cfg.bits cfg.metachunks :=
      Nat.div_lt_of_lt_mul (by rwa [Nat.mul_comm])
    have hdiv := Nat.div_add_mod chunk cfg.blockBits
    rw [Nat.mul_comm] at hdiv
    rw [h.marked_metadata hbits hjournal hc]
    simp only [Sb.marked, Sb.asi, Sb.bitmapBlock, Sb.bitmapShift, Config.blankStore, Config.image, Config.initialBlocks]
    rw [if_pos ⟨Nat.le_add_right _ _, Nat.add_lt_add_left hblock _⟩, Nat.add_sub_cancel_left]
    refine decide_eq_decide.2 (or_congr ?_ suppressed_iff)
    exact iff_of_eq (congrArg (· < cfg.reserved) hdiv)

end Places

/-- The arguments with which the layout is consistent: the shifts are defined, the journal size does not wrap when it is
rounded up, the bitmaps end before sector 2³¹, and what is reserved fits on the metadata device. -/
def Initialize.Sound (a : Initialize) : Prop :=
  a.bsBits + 3 < 31 ∧ a.csBits < 31 ∧ a.jsBytes + 2 ^ a.csBits ≤ 2 ^ 32 ∧
    a.config.headBlocks * a.config.chunkSectors < 2 ^ 31 ∧ a.config.reserved ≤ a.config.metachunks

private theorem journalSize_pos (a : Initialize) (hcs : a.csBits < 31) :
    0 < a.config.journalSize ↔ a.jsBytes + 2 ^ a.csBits ≤ 2 ^ 32 := by
  have hpos := Nat.two_pow_pos a.csBits
  have hlt := Nat.pow_lt_pow_right (show 1 < 2 by omega) hcs
  have hjs := a.journal_lt
  simp only [Initialize.config, Nat.div_pos_iff, hpos, true_and]
  omega

private theorem journalSize_lt (a : Initialize) : a.config.journalSize < 2 ^ 31 := by
  have hle := Nat.pow_le_pow_right (show 0 < 2 by omega) a.sector_le.2
  have hmod := Nat.mod_lt (a.jsBytes + 2 ^ a.csBits - 1) (show 0 < 2 ^ 32 by omega)
  refine Nat.div_lt_of_lt_mul ?_
  have hmul := Nat.mul_le_mul_right (2 ^ 31) hle
  omega

theorem allocate_consistent_iff (a : Initialize) (dev : Nat → Block D) :
    (∃ l, a.allocate dev = some l ∧ Consistent a.config l) ↔ a.Sound := by
  have hbits : 9 ≤ a.config.bits := a.sector_le.1
  constructor
  · rintro ⟨l, hl, hcons⟩
    unfold Initialize.allocate at hl
    split_ifs at hl with hshift
    obtain rfl := Option.some.inj hl
    have hfits := hcons.fits hbits (show a.bsBits ≤ 41 by omega)
    exact ⟨hshift.1, hshift.2, (journalSize_pos a hshift.2).1 hcons.journal, hfits.sectors, hfits.room⟩
  · rintro ⟨hbs, hcs, hjs, hsectors, hroom⟩
    have hsize : a.config.metachunks < 2 ^ 64 := lt_of_le_of_lt (Nat.div_le_self _ _) a.device_lt.1
    refine ⟨initAllocation a.config dev, if_pos ⟨hbs, hcs⟩, ?_⟩
    exact Config.Fits.consistent hbits (journalSize_lt a) hsize ⟨hsectors, hroom⟩ ((journalSize_pos a hcs).2 hjs)

/-- A metadata device of ten blocks of 4 KiB, and the default journal, which takes 125 blocks. -/
def smallDevice : Initialize where
  bsBits := 12
  csBits := 12
  metasize := 40960
  snapsize := 0
  orgsectors := 0
  jsBytes := 512000
  sector_le := by decide
  device_lt := by decide
  journal_lt := by decide
  combined_bits := fun _ => rfl

/-- `init_allocation` succeeds on it: 128 blocks of ten are reserved, and the number of free chunks wraps. -/
theorem smallDevice_inconsistent :
    ∃ l, smallDevice.allocate (fun _ => Block.data 0) = some l ∧ l.metadata.freechunks = 2 ^ 64 - 118 ∧
      ¬Consistent smallDevice.config l := by
  have hbits : 9 ≤ smallDevice.config.bits := by decide
  refine ⟨initAllocation smallDevice.config _, rfl, ?_, fun h => ?_⟩
  · rw [initAllocation_metadata hbits]
    decide
  · exact absurd (h.fits hbits (by decide)).room (by decide)

end Ddsnap
