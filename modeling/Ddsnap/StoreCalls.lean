import Ddsnap.AllocationRun
import Ddsnap.CommittedContent

/-!
# The calls of a server on its store

Runs of a store from its initialisation on, whatever the messages were that made the server call its functions.
-/

namespace Ddsnap

variable {D : Type}

/-- A call that the server makes on its store. -/
inductive StoreCall where
  | makeUnique (chunk : Nat) (snapbit : Option Nat)
  | createSnapshot (tag : Nat)
  | deleteSnap (slot : Nat)
  | autoDeleteSnapshot
  | finishCopyout
  | commitTransaction (barrier : Bool)
  | saveSbCheck

/-- The calls of a run.  A call of `make_unique` that fails is no step; those of the others that report an error are. -/
def storeStep (sb : Sb D) : StoreCall → Option (Sb D)
  | .makeUnique chunk snapbit =>
    match makeUnique sb chunk snapbit with
    | some (some _, sb) => some sb
    | _ => none
  | .createSnapshot tag => (createSnapshot sb tag).map Prod.snd
  | .deleteSnap slot => if slot < sb.image.snapshots then deleteSnap sb slot else none
  | .autoDeleteSnapshot => (autoDeleteSnapshot sb).map Prod.snd
  | .finishCopyout => some (finishCopyout sb)
  | .commitTransaction barrier => commitTransaction sb barrier
  | .saveSbCheck => saveSbCheck sb

/-- A server that was started on a new store. -/
def StoreInit (cfg : Config) (sb : Sb D) : Prop :=
  ∃ blank org deferring sb0, initSnapstore cfg blank org = some sb0 ∧ sb = startServer sb0 deferring

/-- The server on a small combined store. -/
def tinyStore : Sb Nat := startServer ((initSnapstore tinyConfig 0 id).getD (tinyConfig.blankStore 0 id)) true

theorem tinyStore_init : StoreInit tinyConfig tinyStore := by
  have hsome : (initSnapstore tinyConfig 0 (id : Nat → Nat)).isSome = true := by decide +kernel
  obtain ⟨sb, hsb⟩ := Option.isSome_iff_exists.1 hsome
  exact ⟨0, id, true, sb, hsb, by rw [tinyStore, hsb]; rfl⟩

/-- Two snapshots, three exceptions, a commit, and the deletion of the older snapshot, which frees chunk 13. -/
def tinyStoreRun : Option (Sb Nat) :=
  Reach.exec storeStep (fun _ _ => True) tinyStore
    [.createSnapshot 1, .makeUnique 5 none, .createSnapshot 2, .makeUnique 5 (some 1), .makeUnique 9 none, .finishCopyout,
      .commitTransaction false, .deleteSnap 0, .saveSbCheck]

end Ddsnap
