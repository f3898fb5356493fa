import Ddsnap.Types

/-!
# The buffer cache

The buffer states of `buffer.c`: a buffer is on the dirty list, on the journaled list, or on neither.  The hash, the
reference counts and the eviction of clean buffers do not change what a `bread` returns and are left out: `mem` is
the content of every block as seen through the cache.
-/

namespace Ddsnap

variable {D : Type}

/-- The content of a block is edited in its buffer. -/
def Sb.store (sb : Sb D) (s : Nat) (b : Block D) : Sb D :=
  { sb with mem := Function.update sb.mem s b }

def setBufferDirty (sb : Sb D) (s : Nat) : Sb D :=
  if s ∈ sb.dirtyBuffers then sb
  else { sb with journaledBuffers := sb.journaledBuffers.erase s, dirtyBuffers := sb.dirtyBuffers ++ [s] }

/-- `set_buffer_empty`: the buffer leaves its list and becomes invalid, so that the next read goes to the disk. -/
def setBufferEmpty (sb : Sb D) (s : Nat) : Sb D :=
  { sb with
    dirtyBuffers := sb.dirtyBuffers.erase s
    journaledBuffers := sb.journaledBuffers.erase s
    mem := Function.update sb.mem s (sb.dev .metadev s) }

/-- The blocks of a list are written from their buffers to their home positions. -/
def writeHome (dev mem : Nat → Block D) (l : List Nat) : Nat → Block D :=
  l.foldl (fun d s => Function.update d s (mem s)) dev

def flushJournaledBuffers (sb : Sb D) : Sb D :=
  { sb with
    dev := Function.update sb.dev .metadev (writeHome (sb.dev .metadev) sb.mem sb.journaledBuffers)
    journaledBuffers := [] }

theorem writeHome_apply (dev mem : Nat → Block D) (l : List Nat) (s : Nat) :
    writeHome dev mem l s = if s ∈ l then mem s else dev s := by
  induction l generalizing dev with
  | nil => simp [writeHome]
  | cons t l ih =>
    show writeHome (Function.update dev t (mem t)) mem l s = _
    rw [ih]
    by_cases hl : s ∈ l
    · simp [hl]
    · by_cases ht : s = t
      · subst ht; simp [hl]
      · simp [hl, ht]

@[simp] theorem Sb.store_mem (sb : Sb D) (s : Nat) (b : Block D) :
    (sb.store s b).mem = Function.update sb.mem s b := rfl

@[simp] theorem Sb.store_dirtyBuffers (sb : Sb D) (s : Nat) (b : Block D) :
    (sb.store s b).dirtyBuffers = sb.dirtyBuffers := rfl

@[simp] theorem setBufferDirty_mem (sb : Sb D) (s : Nat) : (setBufferDirty sb s).mem = sb.mem := by
  unfold setBufferDirty; split <;> rfl

@[simp] theorem mem_setBufferDirty {sb : Sb D} {s u : Nat} :
    u ∈ (setBufferDirty sb s).dirtyBuffers ↔ u ∈ sb.dirtyBuffers ∨ u = s := by
  unfold setBufferDirty
  split
  · exact ⟨.inl, fun h => h.elim id fun e => e ▸ by assumption⟩
  · simp

theorem journaled_setBufferDirty {sb : Sb D} {s u : Nat} (hne : u ≠ s) :
    u ∈ (setBufferDirty sb s).journaledBuffers ↔ u ∈ sb.journaledBuffers := by
  unfold setBufferDirty
  split
  · rfl
  · exact List.mem_erase_of_ne hne

end Ddsnap
