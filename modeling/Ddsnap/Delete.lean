import Ddsnap.Tree

/-!
# Deleting snapshots from the exception tree

`delete_tree_range`, an in-order walk over the leaves.  Each leaf is purged of the deleted snapshots and merged into the
leaf before it when it fits; each index node that the walk has finished is merged into the node before it on its level
when it fits; at the end the root gives way to its only child.
-/

namespace Ddsnap

variable {D : Type}

/-! ### Removing an index entry -/

/-- The key of entry `i` of a node is changed. -/
def setKey (entries : List IndexEntry) (i key : Nat) : List IndexEntry := entries.modify i fun e => { e with key := key }

/-- The climb of `remove_index`: the nearest node of the path that was not entered by its first entry gets the
pivot. -/
def setPivot (sb : Sb D) (pivot : Nat) : List EtreePath → Sb D
  | [] => sb
  | ⟨s, p⟩ :: up =>
    if p = 1 then setPivot sb pivot up else sb.put s (.node (setKey (entriesAt sb.mem s) (p - 1) pivot))

/-- `remove_index`: the entry before `pnext` is removed from the first node of the path. -/
def removeIndex (sb : Sb D) : List EtreePath → Sb D × List EtreePath
  | [] => (sb, [])
  | ⟨s, p⟩ :: up =>
    let entries := entriesAt sb.mem s
    let pivot := ((entries[p]?).map IndexEntry.key).getD 0
    let rest := entries.eraseIdx (p - 1)
    let sb := sb.put s (.node rest)
    (if p - 1 < rest.length ∧ p - 1 = 0 then setPivot sb pivot up else sb, ⟨s, p - 1⟩ :: up)

def brelseFree (sb : Sb D) (s : Nat) : Sb D := setBufferEmpty (freeBlock sb s) s

/-! ### One leaf -/

/-- The exceptions of a leaf in the order in which `_delete_snapshots_from_leaf` visits them. -/
def leafExceptions (leaf : Eleaf) : List Exception := (leaf.map.flatMap EtreeMap.exceptions).reverse

/-- The loop of `_delete_snapshots_from_leaf` over the exceptions: those that no snapshot shares any more are freed, and
the dirty buffers are counted after each one. -/
def freeUnshared (sb : Sb D) (snapmask : Mask) : List Exception → Option (Sb D)
  | [] => some sb
  | p :: ps => do
    let sb ← dirtyBufferCountCheck (if p.share &&& ~~~snapmask = 0 then freeException sb p.chunk else sb)
    freeUnshared sb snapmask ps

/-- `delete_snapshots_from_leaf`, and the dirtying of the leaf that follows it.  The leaf is edited in place while its
exceptions are visited, but its buffer is on no list meanwhile, so that the commits in between do not write it. -/
def deleteSnapshotsFromLeaf (sb : Sb D) (leafbuf : Nat) (snapmask : Mask) : Option (Sb D) := do
  let leaf := leafAt sb.mem leafbuf
  let sb ← freeUnshared sb snapmask (leafExceptions leaf)
  let sb := sb.store leafbuf (.leaf (purgeLeaf snapmask leaf))
  return if anyShared snapmask leaf then setBufferDirty sb leafbuf else sb

/-- The state of the walk: the store, the path with the node of the current level first, the last finished node of
every level, and the last leaf. -/
structure Walk (D : Type) where
  sb : Sb D
  path : List EtreePath
  hold : Nat → Option Nat
  prevleaf : Option Nat

def Walk.finishedLevel (w : Walk D) : Bool :=
  match w.path with
  | [] => true
  | ⟨s, p⟩ :: _ => p = (entriesAt w.sb.mem s).length

/-- A leaf is merged into the leaf before it if that has room, and else becomes the leaf before the next one. -/
def mergeLeaf (w : Walk D) (leafbuf : Nat) : Option (Walk D) :=
  match w.prevleaf with
  | none => some { w with prevleaf := some leafbuf }
  | some prevleaf =>
    let this := leafAt w.sb.mem leafbuf
    let prev := leafAt w.sb.mem prevleaf
    if leafPayload this ≤ leafFreespace prev then do
      let (sb, path) := removeIndex (w.sb.store prevleaf (.leaf (mergeLeaves prev this))) w.path
      let sb ← dirtyBufferCountCheck (brelseFree (setBufferDirty sb prevleaf) leafbuf)
      return { w with sb := sb, path := path }
    else some { w with prevleaf := some leafbuf }

/-- A leaf is purged and merged. -/
def walkLeaf (w : Walk D) (leafbuf : Nat) (snapmask : Mask) : Option (Walk D) := do
  let sb ← deleteSnapshotsFromLeaf w.sb leafbuf snapmask
  mergeLeaf { w with sb := sb } leafbuf

/-! ### Index nodes -/

def mergeNodes (node node2 : List IndexEntry) : List IndexEntry := node ++ node2

/-- A finished node is merged into the node before it on its level if that has room, and else becomes that node; the
walk goes up to the next level. -/
def popNode (w : Walk D) : Option (Walk D) :=
  match w.path with
  | [] => none
  | ⟨s, _⟩ :: up =>
    match w.hold up.length with
    | none => some { w with path := up, hold := Function.update w.hold up.length (some s) }
    | some prev =>
      let this := entriesAt w.sb.mem s
      let held := entriesAt w.sb.mem prev
      if this.length ≤ w.sb.allocPerNode - held.length then do
        let (sb, path) := removeIndex (w.sb.store prev (.node (mergeNodes held this))) up
        let sb ← dirtyBufferCountCheck (brelseFree (setBufferDirty sb prev) s)
        return { w with sb := sb, path := path }
      else some { w with path := up, hold := Function.update w.hold up.length (some s) }

/-- The loop that pops finished nodes, from a level up to the first unfinished one.  The path is empty when the root is
finished. -/
def popNodes : Nat → Walk D → Option (Walk D)
  | 0, w => popNode w
  | level + 1, w => do
    let w ← popNode w
    if w.finishedLevel then popNodes level w else return w

/-- The loop that pushes down again by `n` levels, to the node above the next leaf. -/
def pushDown : Nat → Walk D → Option (Walk D)
  | 0, w => some w
  | n + 1, w =>
    match w.path with
    | [] => none
    | ⟨s, p⟩ :: up =>
      match (entriesAt w.sb.mem s)[p]? with
      | none => none
      | some e => pushDown n { w with path := ⟨e.sector, 0⟩ :: ⟨s, p + 1⟩ :: up }

/-- The next leaf is read through the first node of the path. -/
def nextLeaf (w : Walk D) : Option (Walk D × Nat) :=
  match w.path with
  | [] => none
  | ⟨s, p⟩ :: up =>
    match (entriesAt w.sb.mem s)[p]? with
    | none => none
    | some e => some ({ w with path := ⟨s, p + 1⟩ :: up }, e.sector)

/-- The leaf walk.  `levels` is the depth of the tree, the first argument bounds the number of leaves. -/
def walkLeaves (levels : Nat) (snapmask : Mask) : Nat → Walk D → Nat → Option (Walk D)
  | 0, _, _ => none
  | leaves + 1, w, leafbuf => do
    let w ← walkLeaf w leafbuf snapmask
    if w.finishedLevel then
      let w ← popNodes (levels - 1) w
      if w.path = [] then return w
      else
        let w ← pushDown (levels - w.path.length) w
        let sb ← dirtyBufferCountCheck w.sb
        let (w, leafbuf) ← nextLeaf { w with sb := sb }
        walkLeaves levels snapmask leaves w leafbuf
    else
      let sb ← dirtyBufferCountCheck w.sb
      let (w, leafbuf) ← nextLeaf { w with sb := sb }
      walkLeaves levels snapmask leaves w leafbuf

/-! ### The whole deletion -/

/-- The loop that removes levels: as long as the root has one entry, its child becomes the root. -/
def dropLevels (sb : Sb D) (hold : Nat → Option Nat) : Nat → Option (Sb D)
  | levels + 2 =>
    match hold 0, hold 1 with
    | some root, some child =>
      if (entriesAt sb.mem root).length = 1 then do
        let sb := brelseFree { sb with image := { sb.image with etreeRoot := child } } root
        let sb ← dirtyBufferCountCheck sb
        let sb := setSbDirty { sb with image := { sb.image with etreeLevels := sb.image.etreeLevels - 1 } }
        dropLevels sb (fun i => hold (i + 1)) (levels + 1)
      else some sb
    | _, _ => none
  | _ => some sb

/-- The number of leaves below a block. -/
def leafCount (mem : Nat → Block D) : Nat → Nat → Nat
  | 0, _ => 1
  | levels + 1, s => ((entriesAt mem s).map fun e => leafCount mem levels e.sector).sum

/-- `delete_tree_range`.  `none` stands for the end of the server by an assertion, and for a tree that cannot be
walked. -/
def deleteTreeRange (sb : Sb D) (snapmask : Mask) (resume : Nat) : Option (Sb D) := do
  let levels := sb.image.etreeLevels
  let (path, leafbuf) ← probe sb resume
  let sb ← commitTransaction sb false
  let w : Walk D := { sb := sb, path := path, hold := fun _ => none, prevleaf := none }
  let w ← walkLeaves levels snapmask (leafCount sb.mem levels sb.image.etreeRoot) w leafbuf
  let sb ← dropLevels w.sb w.hold levels
  let sb ← if sb.dirtyBuffers = [] then some sb else commitTransaction sb false
  return saveSb (setSbDirty { sb with snapmask := sb.snapmask &&& ~~~snapmask })

end Ddsnap
