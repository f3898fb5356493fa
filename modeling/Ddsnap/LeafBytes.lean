import Ddsnap.Lib.ByteMemory
import Ddsnap.Leaf

/-!
# The bytes of a leaf

The leaf functions of `ddsnapd.c` on the block itself.  After a header of 24 bytes the map grows upwards, with 8 bytes
for an entry; the exceptions grow down from the end of the block, with 16 bytes for each, in the order of the map.  The
exceptions of an entry begin at its offset and end at the offset of the next one; after the last entry comes a phantom
entry with the offset of the end of the block.

A pointer into a leaf is its distance from the start of the block.
-/

namespace Ddsnap.LeafBytes

open ByteMemory

/-! ### Fields -/

/-- `leaf->count`. -/
def count (m : Mem) : Nat := load 4 m 4

/-- `leaf->base_chunk`. -/
def baseChunk (m : Mem) : Nat := load 8 m 8

/-- `&leaf->map[i]`. -/
def mapAt (i : Nat) : Nat := 24 + 8 * i

/-- `leaf->map[i].offset`. -/
def offset (m : Mem) (i : Nat) : Nat := load 4 m (mapAt i)

/-- `leaf->map[i].rchunk`. -/
def rchunk (m : Mem) (i : Nat) : Nat := load 4 m (mapAt i + 4)

def emap (m : Mem) (i : Nat) : Nat := offset m i

/-- `p->share`. -/
def share (m : Mem) (p : Nat) : Mask := BitVec.ofNat 64 (load 8 m p)

/-- `*p`. -/
def exceptionAt (m : Mem) (p : Nat) : Exception := ⟨share m p, load 8 m (p + 8)⟩

def setCount (m : Mem) (v : Nat) : Mem := write 4 m 4 v

def setOffset (m : Mem) (i v : Nat) : Mem := write 4 m (mapAt i) v

def setRchunk (m : Mem) (i v : Nat) : Mem := write 4 m (mapAt i + 4) v

def setShare (m : Mem) (p : Nat) (v : Mask) : Mem := write 8 m p v.toNat

def setChunk (m : Mem) (p v : Nat) : Mem := write 8 m (p + 8) v

/-- A difference of two pointers in an `unsigned`. -/
def diff32 (a b : Nat) : Nat := (((a : Int) - b) % 2 ^ 32).toNat

/-- `leaf->map[j].offset` changed for the first `n` entries, in their order. -/
def rebase (f : Nat → Nat) (m : Mem) : Nat → Mem
  | 0 => m
  | n + 1 => setOffset (rebase f m n) n (f (offset (rebase f m n) n))

/-! ### Insertion -/

def leafFreespace (m : Mem) : Nat := diff32 (emap m 0) (mapAt (count m + 1))

def leafPayload (m : Mem) : Nat :=
  (diff32 (mapAt (count m)) (mapAt 0) + diff32 (emap m (count m)) (emap m 0)) % 2 ^ 32

/-- The first of `k` entries from entry `i` on with a chunk that is not below the target, and else the one after them. -/
def findEntry (m : Mem) (target : Nat) : Nat → Nat → Nat
  | 0, i => i
  | k + 1, i => if target ≤ rchunk m i then i else findEntry m target k (i + 1)

/-- The share masks from `p` up to `q` together.  The first argument bounds the steps: `q - p` are enough. -/
def sharesUpTo (m : Mem) (q : Nat) : Nat → Nat → Mask → Mask
  | 0, _, sharemap => sharemap
  | k + 1, p, sharemap => if p < q then sharesUpTo m q k (p + 16) (sharemap ||| share m p) else sharemap

/-- The bits of a mask are cleared in the first exception from `p` up to `q` that shares them. -/
def clearUpTo (m : Mem) (mask : Mask) (q : Nat) : Nat → Nat → Mem
  | 0, _ => m
  | k + 1, p =>
    if p < q then
      if share m p &&& mask ≠ 0 then setShare m p (share m p &&& ~~~mask) else clearUpTo m mask q k (p + 16)
    else m

/-- The end of `add_exception_to_leaf`, from the label `insert` on. -/
def insertException (m : Mem) (exceptions ins i : Nat) (sharemap : Mask) (exception : Nat) : Mem :=
  let m := copy m (exceptions - 16) m exceptions (ins - exceptions)
  let m := setShare m (ins - 16) sharemap
  let m := setChunk m (ins - 16) exception
  rebase (fun offset => offset + (2 ^ 32 - 16)) m (i + 1)

/-- `add_exception_to_leaf`: whether it returns 0, and the block that it leaves.  Else it returns `-EFULL`. -/
def addExceptionToLeaf (m : Mem) (chunk exception : Nat) (snapshot : Option Nat) (active : Mask) : Bool × Mem :=
  let target := (chunk + (2 ^ 64 - baseChunk m)) % 2 ^ 64 % 2 ^ 32
  let exceptions := emap m 0
  let maptop := mapAt (count m + 1)
  let free := diff32 exceptions maptop
  let i := findEntry m target (count m) 0
  let ins := emap m i
  if i = count m ∨ target < rchunk m i then
    if free < 24 then (false, m)
    else
      let m := copy m (mapAt (i + 1)) m (mapAt i) (maptop - mapAt i)
      let m := setOffset m i ins
      let m := setRchunk m i target
      let m := setCount m (count m + 1)
      let sharemap := match snapshot with | none => active | some bit => maskBit bit
      (true, insertException m exceptions ins i sharemap exception)
  else if free < 16 then (false, m)
  else
    match snapshot with
    | none =>
      let sharemap := ~~~(sharesUpTo m (emap m (i + 1)) (emap m (i + 1) - ins) ins 0) &&& active
      (true, insertException m exceptions ins i sharemap exception)
    | some bit =>
      let m := clearUpTo m (maskBit bit) (emap m (i + 1)) (emap m (i + 1) - ins) ins
      (true, insertException m exceptions ins i (maskBit bit) exception)

/-! ### Splitting and merging -/

/-- `split_leaf`: the splitpoint, the leaf and the new leaf. -/
def splitLeaf (leaf leaf2 : Mem) : Nat × Mem × Mem :=
  let nhead := (count leaf + 1) % 2 ^ 32 / 2
  let ntail := count leaf - nhead
  let splitpoint := (rchunk leaf nhead + baseChunk leaf) % 2 ^ 64
  let phead := emap leaf 0
  let ptail := emap leaf nhead
  let tailsize := diff32 (emap leaf (count leaf)) ptail
  -- the upper half goes to the new leaf
  let leaf2 := copy leaf2 0 leaf 0 24
  let leaf2 := copy leaf2 (mapAt 0) leaf (mapAt nhead) ((ntail + 1) * 8)
  let leaf2 := copy leaf2 ptail leaf ptail tailsize
  let leaf2 := setCount leaf2 ntail
  -- the lower half goes to the top of the block
  let leaf := copy leaf (phead + tailsize) leaf phead (ptail - phead)
  let leaf := setCount leaf nhead
  let leaf := rebase (fun offset => offset + tailsize) leaf (nhead + 1)
  let leaf := setRchunk leaf nhead 0
  (splitpoint, leaf, leaf2)

def mergeLeaves (leaf leaf2 : Mem) : Mem :=
  let nhead := count leaf
  let ntail := count leaf2
  let tailsize := diff32 (emap leaf2 ntail) (emap leaf2 0)
  let phead := emap leaf 0
  let ptail := emap leaf nhead
  let leaf := copy leaf (phead - tailsize) leaf phead (ptail - phead)
  let leaf := rebase (fun offset => offset + (2 ^ 32 - tailsize)) leaf (nhead + 1)
  let leaf := copy leaf (ptail - tailsize) leaf2 (emap leaf2 0) tailsize
  let leaf := copy leaf (mapAt nhead) leaf2 (mapAt 0) ((ntail + 1) * 8)
  setCount leaf (count leaf + ntail)

def initLeaf (m : Mem) (blockSize : Nat) : Mem :=
  let m := write 2 m 0 0x1eaf
  let m := write 2 m 2 0
  let m := write 8 m 8 0
  let m := setCount m 0
  setOffset m 0 blockSize

/-! ### Deletion -/

/-- The scan of `_delete_snapshots_from_leaf`: the block, its two pointers, `dinfo->any`, and the chunks passed to
`free_exception`. -/
structure Purge where
  leaf : Mem
  p : Nat
  dest : Nat
  any : Mask
  freed : List Nat

/-- The exception before `p`: it is moved up to `dest` if some snapshot still shares it, and else its chunk is freed. -/
def Purge.step (s : Purge) (snapmask : Mask) : Purge :=
  let p := s.p - 16
  let any := s.any ||| (share s.leaf p &&& snapmask)
  let leaf := setShare s.leaf p (share s.leaf p &&& ~~~snapmask)
  if share leaf p ≠ 0 then ⟨copy leaf (s.dest - 16) leaf p 16, p, s.dest - 16, any, s.freed⟩
  else ⟨leaf, p, s.dest, any, s.freed ++ [(exceptionAt leaf p).chunk]⟩

/-- The exceptions of an entry, from the last to the first.  The first argument bounds the steps; `none` stands for a scan
that misses the start of the entry. -/
def purgeEntry (snapmask : Mask) (i : Nat) : Nat → Purge → Option Purge
  | 0, s => if s.p = emap s.leaf i then some s else none
  | k + 1, s => if s.p = emap s.leaf i then some s else purgeEntry snapmask i k (s.step snapmask)

/-- The entries, from the last to the first. -/
def purgeEntries (snapmask : Mask) : Nat → Purge → Option Purge
  | 0, s => some s
  | i + 1, s => do
    let s ← purgeEntry snapmask i s.p s
    purgeEntries snapmask i { s with leaf := setOffset s.leaf i s.dest }

/-- The entries without exceptions are removed from the map: `k` entries are left from entry `i` on, and `d` were kept.  At
the end the phantom entry is put after the last one. -/
def compactMap (m : Mem) : Nat → Nat → Nat → Nat × Mem
  | 0, i, d => (d, setRchunk (setOffset m d (offset m i)) d 0)
  | k + 1, i, d =>
    if offset m i ≠ offset m (i + 1) then compactMap (copy m (mapAt d) m (mapAt i) 8) k (i + 1) (d + 1)
    else compactMap m k (i + 1) d

/-- `_delete_snapshots_from_leaf`: `dinfo->any`, the block that it leaves, and the chunks that it frees in order. -/
def deleteSnapshotsFromLeaf (m : Mem) (snapmask : Mask) : Option (Mask × Mem × List Nat) := do
  let p := emap m (count m)
  let s ← purgeEntries snapmask (count m) ⟨m, p, p, 0, []⟩
  let (n, m) := compactMap s.leaf (count s.leaf) 0 0
  return (s.any, setCount m n, s.freed)

end Ddsnap.LeafBytes
