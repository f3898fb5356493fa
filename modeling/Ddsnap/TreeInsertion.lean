import Ddsnap.CommittedContent
import Ddsnap.Isolation

/-!
# Insertion into the search tree

`add_exception_to_tree` after a successful `probe`, as an operation on a search tree: the tree is well formed again, the
chunk has the new exception, and no other chunk is concerned.  A leaf has 32 bits for the number of a chunk, so that this
holds for the chunks below `2 ^ 32` and for no other one.
-/

namespace Ddsnap

open IndexTree

variable {D : Type} {R c c' e : Nat} {sb sb' : Sb D} {snapbit : Option Nat}

/-- The exceptions that the tree has for a chunk: `probe` finds the leaf, and the full number of the chunk the entry. -/
def Sb.lookup (sb : Sb D) (chunk : Nat) : Option (List Exception) :=
  (probe sb chunk).map fun p => exnsAt (leafAt sb.mem p.2).map (target64 (leafAt sb.mem p.2) chunk)

/-- An exception was added for a chunk. -/
structure AddsException (sb sb' : Sb D) (chunk exception : Nat) (snapbit : Option Nat) : Prop where
  wellFormed : sb'.view.WellFormed sb'.allocPerNode sb'.allocsize
  added : sb'.lookup chunk = (sb.lookup chunk).map fun exns => addException exns exception snapbit sb.snapmask
  others : ∀ chunk' < 2 ^ 64, chunk' ≠ chunk → sb'.lookup chunk' = sb.lookup chunk'

theorem LeafOk.target64_of_lt {size : Nat} {leaf : Eleaf} (h : LeafOk size leaf) (hc : c < 2 ^ 64) :
    Ddsnap.target64 leaf c = c := by
  unfold Ddsnap.target64
  rw [h.base]
  omega

theorem leafOk_init {size : Nat} (hsize : 32 ≤ size) : LeafOk size (initLeaf size) :=
  ⟨rfl, rfl, by simpa [leafPayload, initLeaf, exceptionCount] using hsize, List.Pairwise.nil, nofun, nofun⟩

private theorem View.WellFormed.lookup {cap size : Nat} (h : sb.view.WellFormed cap size) (hc : c < 2 ^ 64) :
    sb.lookup c = some (sb.exns c) := by
  obtain ⟨path, pre, x, post, hp, ht, hlen, hx, hpost⟩ := h.probe c
  have hs := Rooted.slots_eq ht hlen
  have hkeyed : Keyed sb.mem size sb.view.slots := h.keyed
  have hok := hkeyed.leafOk x (by rw [hs]; simp)
  have hex : sb.exns c = exnsAt (leafAt sb.mem x.2).map c := by
    rw [hs] at hkeyed
    rw [← hkeyed.exnsAt hx hpost, ← hs]
    rfl
  unfold Sb.lookup
  rw [show Ddsnap.probe sb c = some (path, x.2) from hp, Option.map_some, hok.target64_of_lt hc, hex]

private theorem View.WellFormed.exns_large {cap size : Nat} (h : sb.view.WellFormed cap size) (hc : 2 ^ 32 ≤ c) :
    sb.exns c = [] := by
  refine exnsAt_of_ne fun m hm he => ?_
  obtain ⟨x, hx, hmx⟩ := mem_contentOf.1 hm
  have := (h.keyed.leafOk x hx).small m hmx
  omega

/-- Whether a block is committed or dirty does not matter for the insertion. -/
theorem addExceptionToTree_content (hr : Reserved R sb) (hwf : sb.view.WellFormed sb.allocPerNode sb.allocsize)
    (hplaced : ∀ s ∈ sb.view.addresses, R ≤ s ∧ sb.Taken s) (hcap : 2 ≤ sb.allocPerNode) {path : List EtreePath}
    {leafbuf : Nat} (hp : probe sb c = some (path, leafbuf)) (hc : c < 2 ^ 32)
    (hsplit : addExceptionToLeaf (leafAt sb.mem leafbuf) c e snapbit sb.snapmask = none →
      2 ≤ (leafAt sb.mem leafbuf).map.length)
    (h : addExceptionToTree sb leafbuf c e snapbit path = (true, sb')) :
    sb'.view.WellFormed sb'.allocPerNode sb'.allocsize ∧
      sb'.view.content = addEntry sb.view.content c e snapbit sb.snapmask ∧ sb'.snapmask = sb.snapmask := by
  obtain ⟨path', pre, x, post, hp', ht, hlen, hx, hpost⟩ := hwf.probe c
  obtain ⟨rfl, rfl⟩ : path' = path ∧ x.2 = leafbuf := by
    have he := (show probe sb c = some (path', x.2) from hp').symm.trans hp
    simpa using he
  have hroot : Rooted R (sb.note sb.mem) :=
    ⟨hr.note _, hwf.planted, fun s hs => ⟨(hplaced s hs).1, (hplaced s hs).2, .inr rfl⟩⟩
  have hrun : addExceptionToTree (sb.note sb.mem) x.2 c e snapbit path' = (true, sb'.note sb.mem) := by
    rw [note_addExceptionToTree, h]
  obtain ⟨hroot', hg, hkeyed', hcontent, -⟩ :=
    addExceptionToTree_spec hroot hwf.keyed hcap ht hlen hx hpost hc hsplit hrun
  exact ⟨⟨hroot'.planted, hkeyed'⟩, hcontent, hg.snapmask⟩

private theorem AddsException.small (hadd : AddsException sb sb' c e snapbit)
    (hwf : sb.view.WellFormed sb.allocPerNode sb.allocsize) (hc : c < 2 ^ 64) : c < 2 ^ 32 := by
  by_contra hlarge
  have hnew := hadd.added
  rw [hadd.wellFormed.lookup hc, hwf.lookup hc, hadd.wellFormed.exns_large (by omega)] at hnew
  have hlen := congrArg List.length (Option.some.inj hnew)
  rw [addException_length] at hlen
  cases hlen

/-- `add_exception_to_tree` on a well-formed tree adds the exception for its chunk and for no other one, exactly when the
number of the chunk has 32 bits. -/
theorem addsException_iff (hr : Reserved R sb) (hwf : sb.view.WellFormed sb.allocPerNode sb.allocsize)
    (hplaced : ∀ s ∈ sb.view.addresses, R ≤ s ∧ sb.Taken s) (hcap : 2 ≤ sb.allocPerNode) {path : List EtreePath}
    {leafbuf : Nat} (hp : probe sb c = some (path, leafbuf)) (hc : c < 2 ^ 64)
    (hsplit : addExceptionToLeaf (leafAt sb.mem leafbuf) c e snapbit sb.snapmask = none →
      2 ≤ (leafAt sb.mem leafbuf).map.length)
    (h : addExceptionToTree sb leafbuf c e snapbit path = (true, sb')) :
    AddsException sb sb' c e snapbit ↔ c < 2 ^ 32 := by
  refine ⟨fun hadd => hadd.small hwf hc, fun hsmall => ?_⟩
  obtain ⟨hwf', hcontent, -⟩ := addExceptionToTree_content hr hwf hplaced hcap hp hsmall hsplit h
  have hasc : Ascending sb.view.content := hwf.keyed.ascending
  have hexns : ∀ x, sb'.exns x = if x = c then addException (sb.exns c) e snapbit sb.snapmask else sb.exns x := by
    intro x
    unfold Sb.exns
    rw [hcontent]
    exact exnsAt_addEntry hasc x
  refine ⟨hwf', ?_, fun x hx hne => ?_⟩
  · rw [hwf'.lookup hc, hwf.lookup hc, hexns, if_pos rfl, Option.map_some]
  · rw [hwf'.lookup hx, hwf.lookup hx, hexns, if_neg hne]

/-! ### A store of small blocks -/

/-- A combined store of 512-byte blocks. -/
def narrowConfig : Config := { bits := 9, metachunks := 120, snapchunks := 0, journalSize := 32, orgsectors := 0 }

/-- A server on it; the origin holds its own chunk numbers. -/
def narrowServer : Served Nat :=
  ⟨startServer ((initSnapstore narrowConfig 0 id).getD (narrowConfig.blankStore 0 id)) true, ⟨id, fun _ => none⟩⟩

private theorem narrowServer_init : narrowServer.Init := by
  have hsome : (initSnapstore narrowConfig 0 (id : Nat → Nat)).isSome = true := by decide +kernel
  obtain ⟨sb, hsb⟩ := Option.isSome_iff_exists.1 hsome
  refine ⟨narrowConfig, 0, sb, true, ⟨rfl, by decide, by decide, by decide⟩, hsb, ?_, rfl⟩
  unfold narrowServer
  rw [hsb]
  rfl

private theorem narrow_store (requests : List (Request Nat)) : ∃ R,
    Store R ((Reach.exec Served.step Served.Ok narrowServer requests).getD narrowServer).sb := by
  obtain ⟨R, h⟩ := isolated_run ((Reach.Run.start narrowServer_init).exec_getD requests)
  exact ⟨R, h.serving.store⟩

/-- After twenty chunks were copied for a snapshot, their leaf is full. -/
def fullLeaf : Sb Nat := ((Reach.exec Served.step Served.Ok narrowServer
  [.create 7, .originWrite [(0, 20)] fun _ => 100]).getD narrowServer).sb

/-- What an insertion for the origin finds and does: the number of entries of the leaf, whether the result is 0, and the
lookup of the chunk afterwards. -/
def insertAt (sb : Sb D) (chunk exception : Nat) : Option (Nat × Bool × Option (List Exception)) :=
  (probe sb chunk).map fun p =>
    ((leafAt sb.mem p.2).map.length, (addExceptionToTree sb p.2 chunk exception none p.1).1,
      (addExceptionToTree sb p.2 chunk exception none p.1).2.lookup chunk)

private theorem insertAt_eq {n : Nat} {found : Option (List Exception)} (h : insertAt sb c e = some (n, true, found)) :
    ∃ path leafbuf sb', probe sb c = some (path, leafbuf) ∧ (leafAt sb.mem leafbuf).map.length = n ∧
      addExceptionToTree sb leafbuf c e none path = (true, sb') ∧ sb'.lookup c = found := by
  obtain ⟨⟨path, leafbuf⟩, hp, hins⟩ := Option.map_eq_some_iff.1 h
  obtain ⟨hlen, hins⟩ := Prod.mk.inj hins
  obtain ⟨hok, hfound⟩ := Prod.mk.inj hins
  exact ⟨path, leafbuf, _, hp, hlen, Prod.ext hok rfl, hfound⟩

theorem addsException_split : ∃ path leafbuf sb', probe fullLeaf 30 = some (path, leafbuf) ∧
    addExceptionToTree fullLeaf leafbuf 30 99 none path = (true, sb') ∧ AddsException fullLeaf sb' 30 99 none := by
  obtain ⟨R, h⟩ : ∃ R, Store R fullLeaf := narrow_store _
  have hrun : insertAt fullLeaf 30 99 = some (20, true, some [⟨1, 99⟩]) := by decide +kernel
  obtain ⟨path, leafbuf, sb', hp, hlen, hadd, -⟩ := insertAt_eq hrun
  refine ⟨path, leafbuf, sb', hp, hadd, ?_⟩
  exact (addsException_iff h.reserved h.wellFormed (fun s hs => ⟨(h.placed s hs).1, (h.placed s hs).2.1⟩) h.cap hp
    (by decide) (fun _ => by omega) hadd).2 (by decide)

/-- The exception of a chunk above `2 ^ 32` is entered under the lower half of its number, and is not found. -/
theorem large_chunk_lost : ∃ path leafbuf sb', fullLeaf.view.WellFormed fullLeaf.allocPerNode fullLeaf.allocsize ∧
    probe fullLeaf (2 ^ 32 + 3) = some (path, leafbuf) ∧ 2 ≤ (leafAt fullLeaf.mem leafbuf).map.length ∧
    addExceptionToTree fullLeaf leafbuf (2 ^ 32 + 3) 99 none path = (true, sb') ∧
    sb'.lookup (2 ^ 32 + 3) = some [] ∧ ¬ AddsException fullLeaf sb' (2 ^ 32 + 3) 99 none := by
  obtain ⟨R, h⟩ : ∃ R, Store R fullLeaf := narrow_store _
  have hrun : insertAt fullLeaf (2 ^ 32 + 3) 99 = some (20, true, some []) := by decide +kernel
  obtain ⟨path, leafbuf, sb', hp, hlen, hadd, hfound⟩ := insertAt_eq hrun
  refine ⟨path, leafbuf, sb', h.wellFormed, hp, by omega, hadd, hfound, fun hno => ?_⟩
  exact absurd (hno.small h.wellFormed (by decide)) (by decide)

end Ddsnap
