import Ddsnap.Allocation
import Ddsnap.Store

/-!
# The committed content

The content that the last commits gave to the metadata blocks is known to the model only: `add_exception_to_tree` and the
allocator do the same to a store whatever was committed.  So an insertion into the tree of a store can be followed in a
copy of the store in which all of its blocks count as committed (`Sb.note`).
-/

namespace Ddsnap

open IndexTree

variable {D : Type} {R : Nat} {sb sb1 sb' : Sb D}

/-- The store with another committed content. -/
def Sb.note (sb : Sb D) (m : Nat → Block D) : Sb D := { sb with committed := m }

theorem Reserved.note (h : Reserved R sb) (m : Nat → Block D) : Reserved R (sb.note m) :=
  ⟨h.taken, h.metaArea, h.snapArea, h.apart, h.base, h.lastAlloc, h.deferred⟩

section
variable (sb : Sb D) (m : Nat → Block D)

private theorem note_setBufferDirty (s : Nat) : setBufferDirty (sb.note m) s = (setBufferDirty sb s).note m := by
  by_cases h : s ∈ sb.dirtyBuffers
  · rw [setBufferDirty, if_pos (show s ∈ (sb.note m).dirtyBuffers from h), setBufferDirty, if_pos h]
  · rw [setBufferDirty, if_neg (show s ∉ (sb.note m).dirtyBuffers from h), setBufferDirty, if_neg h]
    rfl

private theorem note_put (s : Nat) (b : Block D) : (sb.note m).put s b = (sb.put s b).note m :=
  note_setBufferDirty (sb.store s b) m s

private theorem note_setAsi (as : Space) (asi : AllocspaceImg) : (sb.note m).setAsi as asi =
    (sb.setAsi as asi).note m := by
  unfold Sb.setAsi
  cases as with
  | metadata => rfl
  | snapdata =>
    by_cases h : sb.combined = true
    · simp only [h, show (sb.note m).combined = true from h, if_true]
      rfl
    · simp only [h, show ¬(sb.note m).combined = true from h]
      rfl

private theorem note_scanBytes (as : Space) (length byte : Nat) :
    scanBytes (sb.note m) as length byte = scanBytes sb as length byte := by
  induction length generalizing byte with
  | zero => rfl
  | succ length ih =>
    unfold scanBytes
    rw [ih]
    rfl

private theorem note_takeChunk (as : Space) (c : Nat) : takeChunk (sb.note m) as c = (takeChunk sb as c).note m := by
  have hmark : ∀ base, markChunk (sb.note m) base c = (markChunk sb base c).note m := fun base =>
    note_setBufferDirty (sb.store _ _) m _
  have hend : ∀ sb1 : Sb D, setSbDirty ((sb1.note m).setAsi as
      { (sb1.note m).asi as with freechunks := diff64 ((sb1.note m).asi as).freechunks 1 }) =
        (setSbDirty (sb1.setAsi as { sb1.asi as with freechunks := diff64 (sb1.asi as).freechunks 1 })).note m :=
    fun sb1 => congrArg setSbDirty (note_setAsi sb1 m as _)
  unfold takeChunk
  simp only [show (sb.note m).deferring = sb.deferring from rfl,
    show (sb.note m).deferredAlloc = sb.deferredAlloc from rfl, show (sb.note m).defer = sb.defer from rfl]
  split_ifs
  · exact hend { sb with defer := { sb.defer with chunk := c, count := 1 } }
  · exact hend { sb with defer := { sb.defer with count := sb.defer.count + 1 } }
  · rw [hmark]
    exact hend _

private theorem note_allocChunk (as : Space) :
    allocChunk (sb.note m) as = (allocChunk sb as).map fun p => (p.1, p.2.note m) := by
  have hrange : ∀ start n, allocChunkFromRange (sb.note m) as start n =
      (allocChunkFromRange sb as start n).map fun p => (p.1, p.2.note m) := by
    intro start n
    unfold allocChunkFromRange
    rw [note_scanBytes]
    cases scanBytes sb as ((n + start % 8 + 7) / 8) (start / 8) with
    | none => rfl
    | some c => exact congrArg (fun sb' => some (c, sb')) (note_takeChunk sb m as c)
  have hend : ∀ (sb1 : Sb D) found, setSbDirty ((sb1.note m).setAsi as
      { (sb1.note m).asi as with lastAlloc := found }) =
        (setSbDirty (sb1.setAsi as { sb1.asi as with lastAlloc := found })).note m :=
    fun sb1 found => congrArg setSbDirty (note_setAsi sb1 m as _)
  unfold allocChunk
  simp only [show (sb.note m).asi as = sb.asi as from rfl, hrange]
  cases allocChunkFromRange sb as (sb.asi as).lastAlloc ((sb.asi as).chunks - (sb.asi as).lastAlloc) with
  | some p => exact congrArg (fun sb' => some (p.1, sb')) (hend p.2 p.1)
  | none =>
    simp only [Option.map_none, Option.orElse_none]
    cases allocChunkFromRange sb as 0 (sb.asi as).lastAlloc with
    | some p => exact congrArg (fun sb' => some (p.1, sb')) (hend p.2 p.1)
    | none => rfl

private theorem note_splitNode (s t p : Nat) (child : IndexEntry) :
    splitNode (sb.note m) s t p child = (splitNode sb s t p child).note m := by
  unfold splitNode
  simp only [note_put, show (sb.note m).mem = sb.mem from rfl]
  split <;> rfl

private theorem note_addRoot (child : IndexEntry) :
    addRoot (sb.note m) child = ((addRoot sb child).1, (addRoot sb child).2.note m) := by
  unfold addRoot newNode
  rw [note_allocChunk]
  cases allocChunk sb .metadata with
  | none => rfl
  | some a =>
    simp only [Option.map_some, note_put]
    rfl

private theorem note_addChild (path : List EtreePath) (child : IndexEntry) :
    addChild (sb.note m) path child = ((addChild sb path child).1, (addChild sb path child).2.note m) := by
  induction path generalizing sb child with
  | nil => exact note_addRoot sb m child
  | cons pos up ih =>
    unfold addChild
    dsimp only
    split
    · rename_i h
      rw [if_pos (show (entriesAt sb.mem pos.node).length < sb.allocPerNode from h), note_put]
      rfl
    · rename_i h
      rw [if_neg (show ¬(entriesAt sb.mem pos.node).length < sb.allocPerNode from h)]
      unfold newNode
      rw [note_allocChunk]
      cases allocChunk sb .metadata with
      | none => rfl
      | some a =>
        simp only [Option.map_some, note_put, note_splitNode]
        exact ih _ _

private theorem note_addToHalf (leafbuf t c e : Nat) (snapbit : Option Nat) (path : List EtreePath) :
    addToHalf (sb.note m) leafbuf t c e snapbit path =
      ((addToHalf sb leafbuf t c e snapbit path).1, (addToHalf sb leafbuf t c e snapbit path).2.note m) := by
  have hstore : ∀ (sb : Sb D) s b, (sb.note m).store s b = (sb.store s b).note m := fun _ _ _ => rfl
  unfold addToHalf
  simp only [hstore, show ∀ sb : Sb D, (sb.note m).mem = sb.mem from fun _ => rfl,
    show ∀ sb : Sb D, (sb.note m).snapmask = sb.snapmask from fun _ => rfl]
  generalize addExceptionToLeaf _ c e snapbit _ = leaf
  cases leaf with
  | none => rfl
  | some leaf =>
    simp only [note_setBufferDirty]
    exact note_addChild _ m _ _

theorem note_addExceptionToTree (leafbuf c e : Nat) (snapbit : Option Nat) (path : List EtreePath) :
    addExceptionToTree (sb.note m) leafbuf c e snapbit path =
      ((addExceptionToTree sb leafbuf c e snapbit path).1, (addExceptionToTree sb leafbuf c e snapbit path).2.note m) := by
  unfold addExceptionToTree
  simp only [show (sb.note m).mem = sb.mem from rfl, show (sb.note m).snapmask = sb.snapmask from rfl]
  cases addExceptionToLeaf (leafAt sb.mem leafbuf) c e snapbit sb.snapmask with
  | some leaf =>
    simp only [note_put]
  | none =>
    unfold newLeaf
    rw [note_allocChunk]
    cases allocChunk sb .metadata with
    | none => rfl
    | some a =>
      simp only [Option.map_some, note_put, show (a.2.note m).allocsize = a.2.allocsize from rfl]
      exact note_addToHalf _ m ..

end

end Ddsnap
