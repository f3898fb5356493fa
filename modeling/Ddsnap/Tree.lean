import Ddsnap.Journal
import Ddsnap.Leaf
import Ddsnap.Lib.IndexTree

/-!
# The exception tree: lookup and insertion

An index node holds pairs of a key and the block of a child; the key of its first entry is never read.  A path through
the tree is the list of its nodes with a pointer behind the entry that was taken, the node above the leaf first.
-/

namespace Ddsnap

variable {D : Type}

/-! ### Lookup -/

/-- `buffer2node`. -/
def asNode : Block D → Option (List IndexEntry)
  | .node entries => some entries
  | _ => none

/-- `buffer2leaf`, with the check of the leaf magic. -/
def asLeaf : Block D → Option Eleaf
  | .leaf leaf => some leaf
  | _ => none

/-- The entries of an index node. -/
def entriesAt (mem : Nat → Block D) (s : Nat) : List IndexEntry := (asNode (mem s)).getD []

/-- The content of a leaf. -/
def leafAt (mem : Nat → Block D) (s : Nat) : Eleaf := (asLeaf (mem s)).getD (initLeaf 0)

/-- `struct etree_path`: the block of the node, and the number of the entry that `pnext` points to, one after the entry
that leads on. -/
abbrev EtreePath := IndexTree.Pos Nat

/-- The loop of `probe` over the entries of a node: `pnext` stops at the first entry after the first one whose key is
above the chunk. -/
def scanEntries (entries : List IndexEntry) (chunk : Nat) : Nat :=
  1 + (entries.tail.takeWhile fun e => e.key ≤ chunk).length

/-- The descent of `probe` through the index levels that are left.  `none` stands for a block that is no node or no
leaf, and for an empty node. -/
def probeFrom (mem : Nat → Block D) (chunk : Nat) : Nat → Nat → List EtreePath → Option (List EtreePath × Nat)
  | 0, s, path => (asLeaf (mem s)).map fun _ => (path, s)
  | levels + 1, s, path =>
    match asNode (mem s) with
    | none => none
    | some entries =>
      match entries[scanEntries entries chunk - 1]? with
      | none => none
      | some e => probeFrom mem chunk levels e.sector (⟨s, scanEntries entries chunk⟩ :: path)

/-- `probe`: the path and the block of the leaf. -/
def probe (sb : Sb D) (chunk : Nat) : Option (List EtreePath × Nat) :=
  probeFrom sb.mem chunk sb.image.etreeLevels sb.image.etreeRoot []

/-- `test_unique`.  `none` stands for a failed `probe`. -/
def testUnique (sb : Sb D) (chunk : Nat) (snapbit : Option Nat) : Option (Bool × Option Nat) :=
  (probe sb chunk).map fun (_, leafbuf) =>
    match snapbit with
    | none => (originChunkUnique (leafAt sb.mem leafbuf) chunk sb.snapmask, none)
    | some bit => snapshotChunkUnique (leafAt sb.mem leafbuf) chunk bit

/-! ### New blocks -/

/-- A content is stored in a buffer, and the buffer is dirtied. -/
def Sb.put (sb : Sb D) (s : Nat) (b : Block D) : Sb D := setBufferDirty (sb.store s b) s

def newLeaf (sb : Sb D) : Option (Nat × Sb D) :=
  (allocChunk sb .metadata).map fun (s, sb) => (s, sb.put s (.leaf (initLeaf sb.allocsize)))

def newNode (sb : Sb D) : Option (Nat × Sb D) :=
  (allocChunk sb .metadata).map fun (s, sb) => (s, sb.put s (.node []))

/-! ### Insertion -/

def insertChild (entries : List IndexEntry) (p : Nat) (child : IndexEntry) : List IndexEntry :=
  entries.insertIdx p child

/-- The end of `add_exception_to_tree`: a new root above the old one and the new child. -/
def addRoot (sb : Sb D) (child : IndexEntry) : Bool × Sb D :=
  match newNode sb with
  | none => (false, sb)
  | some (newroot, sb) =>
    let sb := sb.put newroot (.node [⟨0, sb.image.etreeRoot⟩, child])
    (true, setSbDirty { sb with image := { sb.image with
      etreeRoot := newroot, etreeLevels := sb.image.etreeLevels + 1 } })

/-- A full node is split and the child is inserted into the half that the path points into; `t` is the new node. -/
def splitNode (sb : Sb D) (s t p : Nat) (child : IndexEntry) : Sb D :=
  let entries := entriesAt sb.mem s
  let half := entries.length / 2
  if half < p then
    (sb.put s (.node (entries.take half))).put t (.node (insertChild (entries.drop half) (p - half) child))
  else (sb.put t (.node (entries.drop half))).put s (.node (insertChild (entries.take half) p child))

/-- The loop of `add_exception_to_tree` over the path: a child is inserted behind the path, and nodes are split as long
as they are full.  The result is `false` when a node cannot be allocated. -/
def addChild (sb : Sb D) : List EtreePath → IndexEntry → Bool × Sb D
  | [], child => addRoot sb child
  | ⟨s, p⟩ :: up, child =>
    let entries := entriesAt sb.mem s
    if entries.length < sb.allocPerNode then (true, sb.put s (.node (insertChild entries p child)))
    else
      match newNode sb with
      | none => (false, sb)
      | some (t, sb) =>
        let newkey := ((entries[entries.length / 2]?).map IndexEntry.key).getD 0
        addChild (splitNode sb s t p child) up ⟨newkey, t⟩

/-- The exception is added to one of the halves of a leaf that was split, and the new leaf to the index.  A half without
room is an error that leaves the buffers as they are. -/
def addToHalf (sb : Sb D) (leafbuf childbuf target exception : Nat) (snapbit : Option Nat) (path : List EtreePath) :
    Bool × Sb D :=
  let (childkey, lower, upper) := splitLeaf (leafAt sb.mem leafbuf)
  let sb := (sb.store leafbuf (.leaf lower)).store childbuf (.leaf upper)
  let half := if target < childkey then leafbuf else childbuf
  match addExceptionToLeaf (leafAt sb.mem half) target exception snapbit sb.snapmask with
  | none => (false, sb)
  | some leaf =>
    addChild (setBufferDirty (setBufferDirty (sb.store half (.leaf leaf)) leafbuf) childbuf) path ⟨childkey, childbuf⟩

/-- `add_exception_to_tree`.  The result is `false` for `-ENOMEM`. -/
def addExceptionToTree (sb : Sb D) (leafbuf target exception : Nat) (snapbit : Option Nat) (path : List EtreePath) :
    Bool × Sb D :=
  match addExceptionToLeaf (leafAt sb.mem leafbuf) target exception snapbit sb.snapmask with
  | some leaf => (true, sb.put leafbuf (.leaf leaf))
  | none =>
    match newLeaf sb with
    | none => (false, sb)
    | some (childbuf, sb) => addToHalf sb leafbuf childbuf target exception snapbit path

end Ddsnap
