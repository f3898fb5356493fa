import Ddsnap.DiskIo
import Ddsnap.Lib.ByteMemory

/-!
# Upgrading the superblock

`ddsnap-sb` converts the superblock of release 0.4, whose snapshots take 16 bytes each, to the one of release 0.6, whose
snapshots have the number of sectors in addition and take 24.  `upgrade_04` copies the fields before the snapshot list,
every listed snapshot and the fields behind the list.  It copies as many bytes of an old snapshot as a new one has, and
then stores the number of sectors over what was too much.

The offsets are computed from the sizes and alignments of the fields, with 8-byte fields at multiples of 8.
-/

namespace Ddsnap.SuperblockUpgrade

open ByteMemory

/-! ### Layouts -/

/-- A field of a C structure. -/
structure Field (ι : Type) where
  name : ι
  size : Nat
  align : Nat

def alignUp (n align : Nat) : Nat := (n + align - 1) / align * align

variable {ι : Type} [DecidableEq ι]

/-- `offsetof`, for the fields from an offset on. -/
def offsetFrom : Nat → List (Field ι) → ι → Nat
  | start, [], _ => start
  | start, g :: gs, f =>
    if g.name = f then alignUp start g.align else offsetFrom (alignUp start g.align + g.size) gs f

def endFrom : Nat → List (Field ι) → Nat
  | start, [] => start
  | start, g :: gs => endFrom (alignUp start g.align + g.size) gs

/-- The alignment of a structure, the largest of its fields'. -/
def alignOf (gs : List (Field ι)) : Nat := gs.foldl (fun a g => max a g.align) 1

def sizeOf (gs : List (Field ι)) : Nat := alignUp (endFrom 0 gs) (alignOf gs)

/-! ### The superblocks -/

/-- The fields of `struct snapshot_04` and `struct snapshot_06`. -/
inductive SnapField where
  | ctime | tag | usecount | bit | prio | reserved | sectors
  deriving DecidableEq

/-- The fields that both have. -/
def snapFields : List (Field SnapField) :=
  [⟨.ctime, 4, 4⟩, ⟨.tag, 4, 4⟩, ⟨.usecount, 2, 2⟩, ⟨.bit, 1, 1⟩, ⟨.prio, 1, 1⟩]

/-- `struct snapshot_04`. -/
def snapshot04 : List (Field SnapField) := snapFields ++ [⟨.reserved, 4, 1⟩]

/-- `struct snapshot_06`. -/
def snapshot06 : List (Field SnapField) := snapFields ++ [⟨.sectors, 8, 8⟩]

/-- The fields of `struct allocspace_img`. -/
inductive SpaceField where
  | bitmapBase | chunks | freechunks | lastAlloc | bitmapBlocks | allocsizeBits
  deriving DecidableEq

/-- `struct allocspace_img`. -/
def allocspaceImg : List (Field SpaceField) :=
  [⟨.bitmapBase, 8, 8⟩, ⟨.chunks, 8, 8⟩, ⟨.freechunks, 8, 8⟩, ⟨.lastAlloc, 8, 8⟩, ⟨.bitmapBlocks, 8, 8⟩,
    ⟨.allocsizeBits, 4, 4⟩]

/-- The fields of `struct disksuper_04` and `struct disksuper_06`. -/
inductive SuperField where
  | magic | createTime | etreeRoot | orgoffset | orgsectors | flags | deleting
  | snaplist
  | snapshots | etreeLevels | journalBase | journalNext | journalSize | sequence | metadata | snapdata
  deriving DecidableEq

/-- The fields before the snapshot list. -/
def headFields : List (Field SuperField) :=
  [⟨.magic, 8, 1⟩, ⟨.createTime, 8, 8⟩, ⟨.etreeRoot, 8, 8⟩, ⟨.orgoffset, 8, 8⟩, ⟨.orgsectors, 8, 8⟩, ⟨.flags, 8, 8⟩,
    ⟨.deleting, 8, 8⟩]

/-- The fields behind it. -/
def tailFields : List (Field SuperField) :=
  [⟨.snapshots, 4, 4⟩, ⟨.etreeLevels, 4, 4⟩, ⟨.journalBase, 4, 4⟩, ⟨.journalNext, 4, 4⟩, ⟨.journalSize, 4, 4⟩,
    ⟨.sequence, 4, 4⟩, ⟨.metadata, sizeOf allocspaceImg, alignOf allocspaceImg⟩,
    ⟨.snapdata, sizeOf allocspaceImg, alignOf allocspaceImg⟩]

def maxSnapshots : Nat := 64

/-- A superblock with the given snapshots. -/
def disksuper (snapshot : List (Field SnapField)) : List (Field SuperField) :=
  headFields ++ [⟨.snaplist, maxSnapshots * sizeOf snapshot, alignOf snapshot⟩] ++ tailFields

/-- `struct disksuper_04`. -/
def disksuper04 : List (Field SuperField) := disksuper snapshot04

/-- `struct disksuper_06`. -/
def disksuper06 : List (Field SuperField) := disksuper snapshot06

/-- `offsetof(struct disksuper_04, f)`. -/
def offset04 (f : SuperField) : Nat := offsetFrom 0 disksuper04 f

/-- `offsetof(struct disksuper_06, f)`. -/
def offset06 (f : SuperField) : Nat := offsetFrom 0 disksuper06 f

/-- `&oldsb.snaplist[i]`. -/
def snap04 (i : Nat) : Nat := offset04 .snaplist + sizeOf snapshot04 * i

/-- `&sb.snaplist[i]`. -/
def snap06 (i : Nat) : Nat := offset06 .snaplist + sizeOf snapshot06 * i

/-! ### The upgrade -/

/-- One round of the loop over the snapshots. -/
def upgradeSnapshot (oldsb : Mem) (i : Nat) (sb : Mem) : Mem :=
  let sb := copy sb (snap06 i) oldsb (snap04 i) (sizeOf snapshot06)
  write 8 sb (snap06 i + offsetFrom 0 snapshot06 .sectors) (load 8 oldsb (offset04 .orgsectors))

/-- The first `n` rounds of the loop. -/
def upgradeSnapshots (oldsb : Mem) : Nat → Mem → Mem
  | 0, sb => sb
  | n + 1, sb => upgradeSnapshot oldsb n (upgradeSnapshots oldsb n sb)

/-- The new superblock, made in what the stack holds. -/
def upgrade (oldsb sb : Mem) : Mem :=
  let sb := copy sb 0 oldsb 0 (offset04 .snaplist)
  let sb := upgradeSnapshots oldsb (load 4 oldsb (offset04 .snapshots)) sb
  copy sb (offset06 .snapshots) oldsb (offset04 .snapshots) (sizeOf disksuper04 - offset04 .snapshots)

/-- `SB_SECTORS << SECTOR_BITS`. -/
def sbAddress : Nat := 8 <<< 9

/-- `upgrade_04`: the device and the result.  `oldsb` and `sb` are what the stack holds. -/
def upgrade04 (metadev : Volume UInt8) (readRets writeRets : List Ret) (oldsb sb : Mem) :
    Option (Volume UInt8 × Int) := do
  let (oldsb, err) ← diskread metadev readRets oldsb (sizeOf disksuper04) sbAddress
  if err < 0 then return (metadev, err)
  diskwrite metadev writeRets (upgrade oldsb sb) (sizeOf disksuper06) sbAddress

/-! ### Where the fields are -/

private theorem snap04_eq (i : Nat) : snap04 i = 56 + 16 * i := by
  have h1 : offset04 .snaplist = 56 := by decide
  have h2 : sizeOf snapshot04 = 16 := by decide
  rw [snap04, h1, h2]

private theorem snap06_eq (i : Nat) : snap06 i = 56 + 24 * i := by
  have h1 : offset06 .snaplist = 56 := by decide
  have h2 : sizeOf snapshot06 = 24 := by decide
  rw [snap06, h1, h2]

private theorem head_offsets : ∀ g ∈ headFields, offset06 g.name = offset04 g.name ∧ offset04 g.name + g.size ≤ 56 := by
  decide

private theorem tail_offsets : ∀ g ∈ tailFields, offset06 g.name = offset04 g.name + 512 ∧ 1080 ≤ offset04 g.name ∧
    offset04 g.name + g.size ≤ 1200 := by
  decide

private theorem snap_offsets : ∀ g ∈ snapFields, offsetFrom 0 snapshot06 g.name = offsetFrom 0 snapshot04 g.name ∧
    offsetFrom 0 snapshot04 g.name + g.size ≤ 12 := by
  decide

/-! ### What is copied -/

variable {oldsb sb : Mem} {n i k x : Nat}

private theorem upgradeSnapshot_of_outside (hx : x < 56 + 24 * i ∨ 56 + 24 * (i + 1) ≤ x) :
    upgradeSnapshot oldsb i sb x = sb x := by
  have hoffset : offsetFrom 0 snapshot06 .sectors = 16 := by decide
  have hsize : sizeOf snapshot06 = 24 := by decide
  rw [upgradeSnapshot, snap06_eq, hoffset, hsize]
  rw [write_of_outside (by omega), copy_of_outside (by omega)]

private theorem upgradeSnapshot_inside :
    (∀ k < 12, upgradeSnapshot oldsb i sb (56 + 24 * i + k) = oldsb (56 + 16 * i + k)) ∧
      load 8 (upgradeSnapshot oldsb i sb) (56 + 24 * i + 16) = load 8 oldsb (offset04 .orgsectors) := by
  have hoffset : offsetFrom 0 snapshot06 .sectors = 16 := by decide
  have hsize : sizeOf snapshot06 = 24 := by decide
  rw [upgradeSnapshot, snap06_eq, snap04_eq, hoffset, hsize]
  refine ⟨fun k hk => ?_, ?_⟩
  · rw [write_of_outside (by omega), copy_inside (by omega)]
  · rw [load_write_self, Nat.mod_eq_of_lt (load_lt 8 oldsb _)]

private theorem upgradeSnapshots_of_outside (hx : x < 56 ∨ 56 + 24 * n ≤ x) : upgradeSnapshots oldsb n sb x = sb x := by
  induction n with
  | zero => rfl
  | succ n ih => rw [upgradeSnapshots, upgradeSnapshot_of_outside (by omega), ih (by omega)]

private theorem upgradeSnapshots_inside (hi : i < n) :
    (∀ k < 12, upgradeSnapshots oldsb n sb (56 + 24 * i + k) = oldsb (56 + 16 * i + k)) ∧
      load 8 (upgradeSnapshots oldsb n sb) (56 + 24 * i + 16) = load 8 oldsb (offset04 .orgsectors) := by
  induction n with
  | zero => omega
  | succ n ih =>
    rw [upgradeSnapshots]
    rcases Nat.lt_or_eq_of_le (Nat.le_of_lt_succ hi) with hlt | rfl
    · -- a later round does not touch the snapshot
      obtain ⟨hfields, hsectors⟩ := ih hlt
      refine ⟨fun k hk => ?_, ?_⟩
      · rw [upgradeSnapshot_of_outside (by omega), hfields k hk]
      · rw [← hsectors]
        exact load_congr fun j hj => upgradeSnapshot_of_outside (by omega)
    · exact upgradeSnapshot_inside

/-- The new superblock: the part before the list, the part behind it, and the listed snapshots. -/
private theorem upgrade_spec (sb : Mem) (hcount : load 4 oldsb (offset04 .snapshots) ≤ maxSnapshots) :
    (∀ k < 56, upgrade oldsb sb k = oldsb k) ∧
    (∀ k < 120, upgrade oldsb sb (1592 + k) = oldsb (1080 + k)) ∧
    ∀ i < load 4 oldsb (offset04 .snapshots),
      (∀ k < 12, upgrade oldsb sb (56 + 24 * i + k) = oldsb (56 + 16 * i + k)) ∧
        load 8 (upgrade oldsb sb) (56 + 24 * i + 16) = load 8 oldsb (offset04 .orgsectors) := by
  have hmax : maxSnapshots = 64 := rfl
  have hlist : offset04 .snaplist = 56 := by decide
  have hto : offset06 .snapshots = 1592 := by decide
  have hlen : sizeOf disksuper04 - offset04 .snapshots = 120 := by decide
  have hfrom : offset04 .snapshots = 1080 := by decide
  rw [hfrom] at hcount
  unfold upgrade
  rw [hlist, hto, hlen, hfrom]
  refine ⟨fun k hk => ?_, fun k hk => ?_, fun i hi => ⟨fun k hk => ?_, ?_⟩⟩
  · rw [copy_of_outside (by omega), upgradeSnapshots_of_outside (by omega)]
    have hcopy : copy sb 0 oldsb 0 56 (0 + k) = oldsb (0 + k) := copy_inside hk
    rwa [Nat.zero_add] at hcopy
  · exact copy_inside hk
  · rw [copy_of_outside (by omega)]
    exact (upgradeSnapshots_inside hi).1 k hk
  · rw [load_copy_of_disjoint (by omega)]
    exact (upgradeSnapshots_inside hi).2

/-! ### On the device -/

/-- The superblock on a device. -/
def superblockOn (metadev : Volume UInt8) : Mem := fun x => metadev.byte (sbAddress + x)

private theorem upgrade04_ok {metadev metadev' : Volume UInt8} {readRets writeRets : List Ret} {err : Int}
    (h : upgrade04 metadev readRets writeRets oldsb sb = some (metadev', err)) (hok : 0 ≤ err) :
    ∃ old, (∀ x < 1200, old x = superblockOn metadev x) ∧ ∀ x < 1712, superblockOn metadev' x = upgrade old sb x := by
  have hsize04 : sizeOf disksuper04 = 1200 := by decide
  have hsize06 : sizeOf disksuper06 = 1712 := by decide
  obtain ⟨⟨old, err1⟩, hread, h⟩ := Option.bind_eq_some_iff.1 h
  dsimp only at h
  split at h
  · cases h
    omega
  · rename_i hneg
    obtain ⟨⟨moved, err2⟩, hio, hmoved⟩ := Option.map_eq_some_iff.1 hread
    obtain ⟨⟨moved', err3⟩, hio', hmoved'⟩ := Option.map_eq_some_iff.1 h
    cases hmoved
    cases hmoved'
    -- neither call stopped early
    have hall := (fdio_spec hio).1
    have hall' := (fdio_spec hio').1
    obtain rfl : moved = 1200 := by omega
    obtain rfl : moved' = 1712 := by omega
    refine ⟨patch oldsb 0 1200 fun j => metadev.byte (sbAddress + j), fun x hx => ?_, fun x hx => ?_⟩
    · rw [patch_of_mem ⟨Nat.zero_le _, by omega⟩]
      rfl
    · rw [superblockOn]
      dsimp only [Volume.patch]
      rw [patch_of_mem ⟨Nat.le_add_right _ _, by omega⟩, Nat.add_sub_cancel_left]

/-- An upgrade that succeeds keeps every field outside the snapshot list and every field of the listed snapshots, and the
sectors of each snapshot are those of the origin. -/
theorem upgrade04_preserves (metadev metadev' : Volume UInt8) (readRets writeRets : List Ret) (oldsb sb : Mem) (err : Int)
    (hcount : load 4 (superblockOn metadev) (offset04 .snapshots) ≤ 64)
    (h : upgrade04 metadev readRets writeRets oldsb sb = some (metadev', err)) (hok : 0 ≤ err) :
    (∀ g ∈ headFields ++ tailFields, bytes (superblockOn metadev') (offset06 g.name) g.size =
      bytes (superblockOn metadev) (offset04 g.name) g.size) ∧
    ∀ i < load 4 (superblockOn metadev) (offset04 .snapshots),
      (∀ g ∈ snapFields, bytes (superblockOn metadev') (snap06 i + offsetFrom 0 snapshot06 g.name) g.size =
        bytes (superblockOn metadev) (snap04 i + offsetFrom 0 snapshot04 g.name) g.size) ∧
      load 8 (superblockOn metadev') (snap06 i + offsetFrom 0 snapshot06 .sectors) =
        load 8 (superblockOn metadev) (offset04 .orgsectors) := by
  obtain ⟨old, hold, hnew⟩ := upgrade04_ok h hok
  have hsnapshots : offset04 .snapshots = 1080 := by decide
  have horg : offset04 .orgsectors = 32 := by decide
  have hsectors : offsetFrom 0 snapshot06 .sectors = 16 := by decide
  have hn : load 4 old (offset04 .snapshots) = load 4 (superblockOn metadev) (offset04 .snapshots) :=
    load_congr fun j hj => hold _ (by omega)
  rw [← hn] at hcount
  obtain ⟨hhead, htail, hlist⟩ := upgrade_spec sb hcount
  rw [hn] at hlist hcount
  refine ⟨fun g hg => bytes_congr fun j hj => ?_, fun i hi => ⟨fun g hg => bytes_congr fun j hj => ?_, ?_⟩⟩
  · rcases List.mem_append.1 hg with hg | hg
    · obtain ⟨heq, hle⟩ := head_offsets g hg
      rw [heq, hnew _ (by omega), hhead _ (by omega), hold _ (by omega)]
    · obtain ⟨heq, hge, hle⟩ := tail_offsets g hg
      have hk := htail (offset04 g.name + j - 1080) (by omega)
      rw [show 1592 + (offset04 g.name + j - 1080) = offset04 g.name + 512 + j by omega,
        show 1080 + (offset04 g.name + j - 1080) = offset04 g.name + j by omega] at hk
      rw [heq, hnew _ (by omega), hk, hold _ (by omega)]
  · obtain ⟨heq, hle⟩ := snap_offsets g hg
    rw [heq, snap06_eq, snap04_eq, hnew _ (by omega), Nat.add_assoc _ (offsetFrom 0 snapshot04 g.name),
      (hlist i hi).1 _ (by omega), hold _ (by omega), Nat.add_assoc (56 + 16 * i)]
  · have hload : load 8 (superblockOn metadev') (56 + 24 * i + 16) = load 8 (upgrade old sb) (56 + 24 * i + 16) :=
      load_congr fun j hj => hnew _ (by omega)
    have hold8 : load 8 old (offset04 .orgsectors) = load 8 (superblockOn metadev) (offset04 .orgsectors) :=
      load_congr fun j hj => hold _ (by omega)
    rw [snap06_eq, hsectors, hload, (hlist i hi).2, hold8]

private theorem oldDevice_size : 8192 < 2 ^ 63 := by decide

/-- A metadata device with an origin of 9 sectors and two snapshots, whose entries are the bytes from 1 to 16 and from 17
to 32. -/
def oldDevice : Volume UInt8 where
  size := 8192
  byte a :=
    if a = sbAddress + 1080 then 2 else if a = sbAddress + 32 then 9
    else if sbAddress + 56 ≤ a ∧ a < sbAddress + 88 then UInt8.ofNat (a - (sbAddress + 55)) else 0
  size_lt := oldDevice_size

theorem upgrade04_preserves_two :
    ∃ metadev', upgrade04 oldDevice [.bytes 1200] [.bytes 1712] (fun _ => 0) (fun _ => 255) = some (metadev', 0) ∧
      (∀ i < 2, load 8 (superblockOn metadev') (snap06 i + offsetFrom 0 snapshot06 .sectors) = 9) ∧
      bytes (superblockOn metadev') (snap06 0 + offsetFrom 0 snapshot06 .tag) 4 = [5, 6, 7, 8] ∧
      bytes (superblockOn metadev') (snap06 1 + offsetFrom 0 snapshot06 .tag) 4 = [21, 22, 23, 24] ∧
      bytes (superblockOn metadev') (snap06 1 + offsetFrom 0 snapshot06 .bit) 1 = [27] := by
  have hsectors : load 8 (superblockOn oldDevice) (offset04 .orgsectors) = 9 := by decide +kernel
  have htwo : load 4 (superblockOn oldDevice) (offset04 .snapshots) = 2 := by decide +kernel
  have hread : fdio oldDevice.size [.bytes 1200] (sizeOf disksuper04) sbAddress = some (1200, 0) := by decide +kernel
  have hwrite : fdio oldDevice.size [.bytes 1712] (sizeOf disksuper06) sbAddress = some (1712, 0) := by decide +kernel
  have hrun : upgrade04 oldDevice [.bytes 1200] [.bytes 1712] (fun _ => 0) (fun _ => 255) = some (oldDevice.patch sbAddress
      1712 (upgrade (patch (fun _ => 0) 0 1200 fun j => oldDevice.byte (sbAddress + j)) fun _ => 255), 0) := by
    rw [upgrade04, diskread, hread]
    simp only [Option.map_some, Option.bind_some, bind, Int.lt_irrefl, if_false]
    rw [diskwrite, hwrite]
    rfl
  refine ⟨_, hrun, ?_⟩
  obtain ⟨-, hlist⟩ := upgrade04_preserves oldDevice _ [.bytes 1200] [.bytes 1712] (fun _ => 0) (fun _ => 255) 0
    (by rw [htwo]; decide) hrun (by decide)
  rw [htwo, hsectors] at hlist
  refine ⟨fun i hi => (hlist i hi).2, ?_, ?_, ?_⟩
  · exact ((hlist 0 (by decide)).1 ⟨.tag, 4, 4⟩ (by simp [snapFields])).trans (by decide +kernel)
  · exact ((hlist 1 (by decide)).1 ⟨.tag, 4, 4⟩ (by simp [snapFields])).trans (by decide +kernel)
  · exact ((hlist 1 (by decide)).1 ⟨.bit, 1, 1⟩ (by simp [snapFields])).trans (by decide +kernel)

/-! ### The tool -/

/-- `SB_MAGIC_070604`, the magic of the releases 0.4 to 0.7. -/
def sbMagic070604 : List UInt8 := [0x74, 0x65, 0x73, 0x74, 0xdd, 0x07, 0x06, 0x04]

def sbMagic080325 : List UInt8 := [0x74, 0x65, 0x73, 0x74, 0xdd, 0x08, 0x03, 0x25]

/-- `SB_MAGIC`, the magic of the latest format. -/
def sbMagic : List UInt8 := [0x74, 0x65, 0x73, 0x74, 0xdd, 0x07, 0x06, 0x04]

/-- The layout of a superblock.  The first two have the same magic. -/
inductive Layout where
  | release04 | release06 | spoilt
  deriving DecidableEq

/-- The superblock on the metadata device. -/
structure Device where
  magic : List UInt8
  layout : Layout
  deriving DecidableEq

/-- How an upgrade step ends: its calls succeed, or `diskread` fails, or `diskwrite` fails and leaves something. -/
inductive Outcome where
  | done
  | unread
  | unwritten (left : Device)

/-- What `upgrade_04` does to the device (`upgrade04_preserves`).  A superblock that has the new layout already is read
with the old offsets. -/
def Device.upgrade04 (dev : Device) : Outcome → Device
  | .done => { dev with layout := if dev.layout = .release04 then .release06 else .spoilt }
  | .unread => dev
  | .unwritten left => left

/-- What `upgrade_06` does to the device. -/
def Device.upgrade06 (dev : Device) : Outcome → Device
  | .unwritten left => left
  | _ => { dev with magic := sbMagic080325 }

/-- The variables of `main`, and the device. -/
structure Tool where
  magic : List UInt8
  release4 : Bool
  err : Int
  metadev : Device

/-- The body of the loop.  The results of the upgrade steps are not looked at. -/
def Tool.round (t : Tool) (outcome : Outcome) : Tool :=
  if t.magic = sbMagic070604 then
    if t.release4 then { t with metadev := t.metadev.upgrade04 outcome, release4 := false }
    else { t with magic := sbMagic080325, metadev := t.metadev.upgrade06 outcome }
  else if t.magic = sbMagic080325 then t
  else { t with err := Errno.einval.ret }

/-- The loop, at most `fuel` rounds of it. -/
def Tool.loop (io : Nat → Outcome) : Nat → Nat → Tool → Option Tool
  | 0, _, _ => none
  | fuel + 1, k, t =>
    if t.err = 0 ∧ (t.magic ≠ sbMagic ∨ t.release4 = true) then Tool.loop io fuel (k + 1) (t.round (io k)) else some t

/-- The variables before the loop; `argument` tells whether `0.4` is on the command line. -/
def Tool.start (argument : Bool) (dev : Device) : Tool := ⟨dev.magic, argument && dev.magic = sbMagic070604, 0, dev⟩

/-- The superblock is in the current format. -/
def Device.Current (dev : Device) : Prop := dev.magic = sbMagic ∧ dev.layout = .release06

/-- The tool ends, and without an error only when the superblock is in the current format. -/
def Finishes (io : Nat → Outcome) (argument : Bool) (dev : Device) : Prop :=
  ∃ bound, ∀ fuel ≥ bound, ∃ t, Tool.loop io fuel 0 (.start argument dev) = some t ∧ (t.err = 0 → t.metadev.Current)

/-- A superblock with the current magic is in the current format when the tool ends. -/
def Ready : Bool → Outcome → Device → Prop
  | false, _, dev => dev.layout = .release06
  | true, .done, dev => dev.layout = .release04
  | true, .unread, dev => dev.layout = .release06
  | true, .unwritten left, _ => left.Current

private theorem Tool.loop_endless (io : Nat → Outcome) {t : Tool} (hm : t.magic = sbMagic080325) (herr : t.err = 0)
    (fuel k : Nat) : Tool.loop io fuel k t = none := by
  have hround : ∀ outcome, t.round outcome = t := fun outcome => by
    rw [Tool.round, if_neg (by rw [hm]; decide), if_pos hm]
  induction fuel generalizing k with
  | zero => rfl
  | succ fuel ih => rw [Tool.loop, if_pos ⟨herr, .inl (by rw [hm]; decide)⟩, hround, ih]

private theorem Tool.loop_ends (io : Nat → Outcome) {t : Tool} (h : t.err ≠ 0 ∨ t.magic = sbMagic ∧ t.release4 = false)
    (fuel k : Nat) : Tool.loop io (fuel + 1) k t = some t := by
  rw [Tool.loop, if_neg]
  rintro ⟨herr, hne | hr⟩
  · exact h.elim (fun h => h herr) fun h => hne h.1
  · exact h.elim (fun h => h herr) fun h => absurd (hr.symm.trans h.2) (by decide)

private theorem Device.current_upgrade04 {dev : Device} (hm : dev.magic = sbMagic) (outcome : Outcome) :
    (dev.upgrade04 outcome).Current ↔ Ready true outcome dev := by
  cases outcome with
  | done =>
    show (dev.magic = sbMagic ∧ (if dev.layout = .release04 then Layout.release06 else .spoilt) = .release06) ↔
      dev.layout = .release04
    split_ifs with h
    · exact iff_of_true ⟨hm, rfl⟩ h
    · exact iff_of_false (fun h' => h'.2) h
  | unread => exact and_iff_right hm
  | unwritten left => exact Iff.rfl

private theorem Tool.loop_current (io : Nat → Outcome) (argument : Bool) {dev : Device} (hm : dev.magic = sbMagic)
    (fuel : Nat) : ∃ t, Tool.loop io (fuel + 2) 0 (.start argument dev) = some t ∧ t.err = 0 ∧
      (t.metadev.Current ↔ Ready argument (io 0) dev) := by
  cases argument with
  | false => exact ⟨_, Tool.loop_ends io (.inr ⟨hm, rfl⟩) _ _, rfl, and_iff_right hm⟩
  | true =>
    have hr : (Tool.start true dev).release4 = true := decide_eq_true hm
    have hround : (Tool.start true dev).round (io 0) =
        { Tool.start true dev with metadev := dev.upgrade04 (io 0), release4 := false } := by
      rw [Tool.round, if_pos (show (Tool.start true dev).magic = sbMagic070604 from hm), if_pos hr]
      rfl
    refine ⟨{ Tool.start true dev with metadev := dev.upgrade04 (io 0), release4 := false }, ?_, rfl,
      Device.current_upgrade04 hm _⟩
    rw [Tool.loop, if_pos ⟨rfl, .inr hr⟩, hround]
    exact Tool.loop_ends io (.inr ⟨hm, rfl⟩) _ _

/-- When the tool does what it is for. -/
theorem finishes_iff (io : Nat → Outcome) (argument : Bool) (dev : Device) :
    Finishes io argument dev ↔ dev.magic ≠ sbMagic080325 ∧ (dev.magic = sbMagic → Ready argument (io 0) dev) := by
  constructor
  · rintro ⟨bound, h⟩
    refine ⟨fun hm => ?_, fun hm => ?_⟩
    · obtain ⟨t, ht, -⟩ := h bound (Nat.le_refl _)
      rw [Tool.loop_endless io hm rfl] at ht
      cases ht
    · obtain ⟨t, ht, hcurrent⟩ := h (bound + 2) (Nat.le_add_right _ _)
      obtain ⟨t', ht', herr, hiff⟩ := Tool.loop_current io argument hm bound
      cases ht.symm.trans ht'
      exact hiff.1 (hcurrent herr)
  · rintro ⟨hother, hready⟩
    refine ⟨2, fun fuel hfuel => ?_⟩
    obtain ⟨fuel, rfl⟩ := Nat.exists_eq_add_of_le' hfuel
    by_cases hm : dev.magic = sbMagic
    · obtain ⟨t, ht, -, hiff⟩ := Tool.loop_current io argument hm fuel
      exact ⟨t, ht, fun _ => hiff.2 (hready hm)⟩
    · -- the magic is not supported
      have hround : (Tool.start argument dev).round (io 0) = { Tool.start argument dev with err := Errno.einval.ret } := by
        rw [Tool.round, if_neg (show (Tool.start argument dev).magic ≠ sbMagic070604 from hm),
          if_neg (show (Tool.start argument dev).magic ≠ sbMagic080325 from hother)]
      have herr : Errno.einval.ret ≠ 0 := by decide
      refine ⟨{ Tool.start argument dev with err := Errno.einval.ret }, ?_, fun h => absurd h herr⟩
      rw [Tool.loop, if_pos ⟨rfl, .inl hm⟩, hround]
      exact Tool.loop_ends io (.inl herr) _ _

/-- The tool does not end on a superblock of release 0.8.  And it ends without an error when the read of the superblock
of release 0.4 fails. -/
theorem tool_fails :
    (∀ io fuel, Tool.loop io fuel 0 (.start false ⟨sbMagic080325, .release06⟩) = none) ∧
    (Tool.loop (fun _ => .unread) 2 0 (.start true ⟨sbMagic, .release04⟩)).map (fun t => (t.err, t.metadev)) =
      some (0, ⟨sbMagic, .release04⟩) :=
  ⟨fun io fuel => Tool.loop_endless io rfl rfl fuel 0, by decide⟩

end Ddsnap.SuperblockUpgrade
