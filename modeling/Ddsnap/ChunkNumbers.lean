import Ddsnap.TreeInsertion

/-!
# Chunk numbers of 64 bits

The entries of a leaf have 32 bits for the distance of a chunk from a base that is always 0.  `origin_chunk_unique`
looks for the full number of a chunk, `snapshot_chunk_unique` and `add_exception_to_leaf` for its lower half.  In a
volume of at most `2 ^ 32` chunks the three of them agree, and in no larger one.
-/

namespace Ddsnap

open IndexTree

variable {D : Type}

/-! ### Leaves -/

/-- What the functions that search a leaf find for a chunk is the same in two leaves. -/
structure SameAnswers (leaf leaf' : Eleaf) (chunk : Nat) : Prop where
  origin : ∀ snapmask, originChunkUnique leaf' chunk snapmask = originChunkUnique leaf chunk snapmask
  snapshot : ∀ snapbit, snapshotChunkUnique leaf' chunk snapbit = snapshotChunkUnique leaf chunk snapbit
  room : bytesNeeded leaf'.map (target32 leaf' chunk) = bytesNeeded leaf.map (target32 leaf chunk)
  entry : exnsAt leaf'.map (target32 leaf' chunk) = exnsAt leaf.map (target32 leaf chunk)

/-- The leaf after an exception was added for a chunk: its keys are the full numbers of chunks in order, that of the chunk
among them, and nothing changes for the other chunks of the volume. -/
structure KeptApart (volume : Nat) (leaf leaf' : Eleaf) (chunk : Nat) : Prop where
  sorted : leaf'.map.Pairwise fun m m' => leaf'.baseChunk + m.rchunk < leaf'.baseChunk + m'.rchunk
  key : ∃ m ∈ leaf'.map, leaf'.baseChunk + m.rchunk = chunk
  others : ∀ other < volume, other ≠ chunk → SameAnswers leaf leaf' other

section
variable {size c t e volume : Nat} {leaf leaf' : Eleaf} {map : List EtreeMap} {snapshot : Option Nat} {active : Mask}

/-- An entry is found when there is one. -/
private theorem bytesNeeded_eq (hs : Ascending map) (t : Nat) :
    bytesNeeded map t = if t ∈ map.map EtreeMap.rchunk then 16 else 24 := by
  induction map with
  | nil => rfl
  | cons m map ih =>
    obtain ⟨hm, hs⟩ := List.pairwise_cons.1 hs
    rw [bytesNeeded_cons, ih hs, List.map_cons]
    by_cases h1 : m.rchunk < t
    · have hne : t ≠ m.rchunk := by omega
      simp [h1, hne]
    · rw [if_neg h1]
      by_cases h2 : m.rchunk = t
      · simp [h2]
      · have hnot : t ∉ m.rchunk :: map.map EtreeMap.rchunk := by
          intro ht
          rcases List.mem_cons.1 ht with ht | ht
          · exact h2 ht.symm
          · obtain ⟨m', hm', rfl⟩ := List.mem_map.1 ht
            have := hm m' hm'
            omega
        rw [if_neg h2, if_neg hnot]

private theorem mem_addEntry_rchunk (map : List EtreeMap) (t e : Nat) (snapshot : Option Nat) (active : Mask)
    (u : Nat) : u ∈ (addEntry map t e snapshot active).map EtreeMap.rchunk ↔ u = t ∨ u ∈ map.map EtreeMap.rchunk := by
  induction map with
  | nil => simp [addEntry, addAt]
  | cons m map ih =>
    rw [addEntry_cons]
    by_cases h1 : m.rchunk < t
    · rw [if_pos h1, List.map_cons, List.mem_cons, ih, List.map_cons, List.mem_cons]
      exact or_left_comm
    · rw [if_neg h1, addAt]
      by_cases h2 : m.rchunk = t
      · rw [if_pos h2]
        simp [h2]
      · rw [if_neg h2]
        simp

private theorem addExceptionToLeaf_eq (h : addExceptionToLeaf leaf c e snapshot active = some leaf') :
    leaf' = { leaf with map := addEntry leaf.map (target32 leaf c) e snapshot active } := by
  unfold addExceptionToLeaf at h
  dsimp only at h
  split at h
  · cases h
  · exact (Option.some.inj h).symm

/-- Only what is asked with the number under which the exception was added changes. -/
private theorem sameAnswers_of_ne (hok : LeafOk size leaf)
    (h : addExceptionToLeaf leaf c e snapshot active = some leaf')
    {other : Nat} (h32 : target32 leaf other ≠ target32 leaf c) (h64 : target64 leaf other ≠ target32 leaf c) :
    SameAnswers leaf leaf' other := by
  have hexns : ∀ u, u ≠ target32 leaf c → exnsAt leaf'.map u = exnsAt leaf.map u := fun u hu => by
    rw [addExceptionToLeaf_eq h]
    exact (exnsAt_addEntry hok.ascending u).trans (if_neg hu)
  have ht32 : target32 leaf' other = target32 leaf other := by rw [addExceptionToLeaf_eq h]; rfl
  have ht64 : target64 leaf' other = target64 leaf other := by rw [addExceptionToLeaf_eq h]; rfl
  have hasc : Ascending leaf'.map := by
    rw [addExceptionToLeaf_eq h]
    exact hok.ascending.addEntry
  refine ⟨fun mask => ?_, fun bit => ?_, ?_, ?_⟩
  · rw [originChunkUnique_eq, originChunkUnique_eq, ht64, hexns _ h64]
  · rw [snapshotChunkUnique_eq, snapshotChunkUnique_eq, ht32, hexns _ h32]
  · rw [bytesNeeded_eq hasc, bytesNeeded_eq hok.ascending, ht32, addExceptionToLeaf_eq h]
    simp only [mem_addEntry_rchunk, h32, false_or]
  · rw [ht32, hexns _ h32]

/-- What an insertion does to the chunks of a volume, by their numbers. -/
private theorem keptApart_iff (hok : LeafOk size leaf) (hv : volume ≤ 2 ^ 64) (hc : c < volume)
    (h : addExceptionToLeaf leaf c e snapshot active = some leaf') :
    KeptApart volume leaf leaf' c ↔ c < 2 ^ 32 ∧ volume ≤ 2 ^ 32 + c := by
  have hleaf' := addExceptionToLeaf_eq h
  have hbase : leaf'.baseChunk = 0 := by rw [hleaf']; exact hok.base
  have ht64 : ∀ x < volume, target64 leaf x = x := fun x hx => hok.target64_of_lt (by omega)
  have ht32 : ∀ x < volume, target32 leaf x = x % 2 ^ 32 := fun x hx => by rw [target32, ht64 x hx]
  constructor
  · intro hk
    have hsmall : c < 2 ^ 32 := by
      obtain ⟨m, hm, he⟩ := hk.key
      rw [hleaf'] at hm
      rw [hbase] at he
      rcases addEntry_rchunk hm with h1 | ⟨m', hm', h1⟩
      · rw [ht32 c hc] at h1
        omega
      · have := hok.small m' hm'
        omega
    refine ⟨hsmall, ?_⟩
    by_contra hlarge
    -- the chunk with the same lower half gets the exception, too
    have hsame := (hk.others (2 ^ 32 + c) (by omega) (by omega)).entry
    have he : target32 leaf (2 ^ 32 + c) = target32 leaf c := by
      rw [ht32 _ (by omega), ht32 c hc]
      omega
    rw [hleaf'] at hsame
    rw [show target32 { leaf with map := addEntry leaf.map (target32 leaf c) e snapshot active } (2 ^ 32 + c) =
      target32 leaf (2 ^ 32 + c) from rfl, he, exnsAt_addEntry hok.ascending, if_pos rfl] at hsame
    have hlen := congrArg List.length hsame
    rw [addException_length] at hlen
    omega
  · rintro ⟨hsmall, hvol⟩
    have hc32 : target32 leaf c = c := hok.target32 hsmall
    refine ⟨?_, ?_, fun other ho hne => sameAnswers_of_ne hok h ?_ ?_⟩
    · rw [hbase, hleaf', hc32]
      simpa using hok.ascending.addEntry
    · have hmem : c ∈ leaf'.map.map EtreeMap.rchunk := by
        rw [hleaf', hc32]
        exact (mem_addEntry_rchunk _ _ _ _ _ _).2 (.inl rfl)
      obtain ⟨m, hm, he⟩ := List.mem_map.1 hmem
      exact ⟨m, hm, by rw [hbase, Nat.zero_add, he]⟩
    · rw [hc32, ht32 other ho]
      omega
    · rw [hc32, ht64 other ho]
      exact hne

end

/-! ### The tree -/

/-- A well-formed tree in allocated blocks. -/
structure TreeOk (R : Nat) (sb : Sb D) : Prop where
  reserved : Reserved R sb
  wellFormed : sb.view.WellFormed sb.allocPerNode sb.allocsize
  placed : ∀ s ∈ sb.view.addresses, R ≤ s ∧ sb.Taken s
  cap : 2 ≤ sb.allocPerNode

section
variable {R c e r : Nat} {sb sb1 sb' : Sb D} {path : List EtreePath} {leafbuf : Nat}

private theorem TreeOk.rooted (h : TreeOk R sb) : Rooted R (sb.note sb.mem) :=
  ⟨h.reserved.note _, h.wellFormed.planted, fun s hs => ⟨(h.placed s hs).1, (h.placed s hs).2, .inr rfl⟩⟩

/-- A new chunk for an exception, and the note of its copy, leave the tree alone. -/
private theorem TreeOk.copied (h : TreeOk R sb) (ha : allocChunk sb .snapdata = some (r, sb1)) (source : Nat) :
    TreeOk R (copyout sb1 source r) ∧ (∀ s ∈ sb.view.addresses, (copyout sb1 source r).mem s = sb.mem s) ∧
      (copyout sb1 source r).image.etreeRoot = sb.image.etreeRoot ∧
      (copyout sb1 source r).image.etreeLevels = sb.image.etreeLevels ∧
      (copyout sb1 source r).snapmask = sb.snapmask := by
  obtain ⟨hq, -⟩ := allocChunk_spec h.reserved ha
  have hmem : ∀ s ∈ sb.view.addresses, sb1.mem s = sb.mem s := fun s hs => hq.mem s (h.placed s hs).1
  have hroot : sb1.image.etreeRoot = sb.image.etreeRoot := congrArg Core.etreeRoot hq.core
  have hlevels : sb1.image.etreeLevels = sb.image.etreeLevels := congrArg Core.etreeLevels hq.core
  have hcap : sb1.allocPerNode = sb.allocPerNode := congrArg Core.allocPerNode hq.core
  have hres : Reserved R (sb1.note sb1.mem) := (hq.reserved (by simp) h.reserved).note _
  obtain ⟨hrooted, hslots, haddr⟩ := h.rooted.congr hres hroot hlevels hcap hmem
    (fun s hs => hq.taken s (by simp) (h.placed s hs).2) fun s hs => .inr rfl
  have hleaf : ∀ x ∈ sb.view.slots, leafAt sb1.mem x.2 = leafAt sb.mem x.2 := by
    intro x hx
    unfold leafAt
    rw [hmem x.2 (View.slots_mem_addresses hx)]
  have hkeyed : Keyed sb1.mem sb1.allocsize sb1.view.slots := by
    rw [show sb1.view.slots = sb.view.slots from hslots, core_allocsize hq.core]
    exact h.wellFormed.keyed.congr hleaf
  have h1 : TreeOk R sb1 := by
    refine ⟨hq.reserved (by simp) h.reserved, ⟨hrooted.planted, hkeyed⟩, fun s hs => ?_, hcap ▸ h.cap⟩
    exact ⟨(hrooted.placed s hs).1, (hrooted.placed s hs).2.1⟩
  rw [copyout_eq]
  exact ⟨⟨⟨h1.reserved.taken, h1.reserved.metaArea, h1.reserved.snapArea, h1.reserved.apart, h1.reserved.base,
    h1.reserved.lastAlloc, h1.reserved.deferred⟩, h1.wellFormed, h1.placed, h1.cap⟩, hmem, hroot, hlevels,
    congrArg Core.snapmask hq.core⟩

private theorem addException_unique (exns : List Exception) (e : Nat) (active : Mask) :
    ~~~(sharedBy (addException exns e none active)) &&& active = 0 := by
  rw [addException, sharedBy_cons]
  refine mask_eq_zero.2 fun i => ?_
  simp only [hasBit_and, hasBit_not, hasBit_or]
  by_cases hi : i < 64 <;> cases hasBit (sharedBy exns) i <;> cases hasBit active i <;> simp [hi]

private theorem last_passing {α : Type*} (test : α → Bool) {l l' r r' : List α} {a b : α}
    (h : l ++ a :: r = l' ++ b :: r')
    (ha : test a = true) (hr : ∀ y ∈ r, test y = false) (hb : test b = true) (hr' : ∀ y ∈ r', test y = false) : a = b := by
  rcases List.append_eq_append_iff.1 h with ⟨k, -, hk⟩ | ⟨k, -, hk⟩
  · cases k with
    | nil => exact (List.cons.inj hk).1
    | cons d k =>
      have := hr b (by rw [(List.cons.inj hk).2]; simp)
      rw [hb] at this
      cases this
  · cases k with
    | nil => exact (List.cons.inj hk).1.symm
    | cons d k =>
      have := hr' a (by rw [(List.cons.inj hk).2]; simp)
      rw [ha] at this
      cases this

private theorem splitLeaf_narrow {size : Nat} {leaf : Eleaf} (hok : LeafOk size leaf) (h1 : leaf.map.length < 2) :
    splitLeaf leaf = (0, leaf, { leaf with map := [] }) := by
  have hhalf : leaf.map.length ≤ (leaf.map.length + 1) / 2 := by omega
  unfold splitLeaf
  dsimp only
  rw [List.getElem?_eq_none hhalf, List.take_of_length_le hhalf, List.drop_eq_nil_of_le hhalf]
  refine Prod.ext ?_ rfl
  show 0 + leaf.baseChunk = 0
  rw [hok.base]

variable {pre post : List (Nat × Nat)} {x : Nat × Nat}

/-- The exception of such a leaf is added to the new leaf, and `probe` finds it there. -/
private theorem addToHalf_narrow {t : Nat} (hroot : Rooted R sb) (hkeyed : Keyed sb.mem sb.allocsize sb.view.slots)
    (hcap : 2 ≤ sb.allocPerNode) (ht : Trail (nodesOf id sb.mem) (0, sb.image.etreeRoot) path pre x post)
    (hlen : path.length = sb.image.etreeLevels) (hx : x.1 ≤ c) (hpost : ∀ y ∈ post, c < y.1) (hc : c < 2 ^ 32)
    (h1 : (leafAt sb.mem x.2).map.length < 2) (hnew : allocChunk sb .metadata = some (t, sb1)) (b : Block D)
    (h : addToHalf (sb1.put t b) x.2 t c e none path = (true, sb')) :
    testUnique sb' c none = some (true, none) := by
  have hs := Rooted.slots_eq ht hlen
  have hxm : x ∈ sb.view.slots := by rw [hs]; simp
  have hok := hkeyed.leafOk x hxm
  obtain ⟨hxR, hxT, -⟩ := hroot.placed x.2 (View.slots_mem_addresses hxm)
  obtain ⟨-, hfresh, -, hg1, -⟩ := newBlock_spec hroot.reserved hnew b
  have hleaf2 : leafAt (sb1.put t b).mem x.2 = leafAt sb.mem x.2 := by
    unfold leafAt; rw [hg1.mem x.2 hxR hxT (by simp)]
  have hsplit := splitLeaf_narrow hok h1
  rw [← hleaf2] at hsplit
  have hne : x.2 ≠ t := fun he => hfresh (he ▸ hxT)
  set upper : Eleaf := { leafAt (sb1.put t b).mem x.2 with map := [] } with hupper
  -- the exception fits into the empty leaf, or else the result is an error
  cases hadd : addExceptionToLeaf upper c e none (sb1.put t b).snapmask with
  | none =>
    have hu : leafAt (((sb1.put t b).store x.2 (.leaf (leafAt (sb1.put t b).mem x.2))).store t (.leaf upper)).mem t =
        upper := leafAt_leaf (by simp)
    unfold addToHalf at h
    rw [hsplit] at h
    dsimp only at h
    rw [if_neg (Nat.not_lt_zero c), hu, show ((((sb1.put t b).store x.2 _).store t (.leaf upper)) : Sb D).snapmask =
      (sb1.put t b).snapmask from rfl, hadd] at h
    cases h
  | some upper' =>
    rw [addToHalf_eq hne hsplit (.inr ⟨Nat.zero_le c, hadd, rfl⟩)] at h
    have hst := putHalves_spec 0 hroot ht hlen hnew b (leafAt (sb1.put t b).mem x.2) upper'
    generalize ((sb1.put t b).put x.2 (.leaf (leafAt (sb1.put t b).mem x.2))).put t (.leaf upper') = sb4 at h hst
    obtain ⟨hroot', hg', hslots', -⟩ := hst.addChild hroot hcap hlen h
    -- the separators up to that of the new leaf are not above the chunk, those behind it are
    rw [hs] at hkeyed
    have hbelow : ∀ y ∈ pre, y.1 ≤ c := fun y hy =>
      Nat.le_trans (Nat.le_of_lt ((List.pairwise_append.1 hkeyed.sorted).2.2 y hy x (by simp)).1) hx
    have hm : (down (nodesOf id sb'.mem) sb'.image.etreeLevels [(0, sb'.image.etreeRoot)]).Pairwise
        fun a b => decide (b.1 ≤ c) = true → decide (a.1 ≤ c) = true := by
      change sb'.view.slots.Pairwise _
      rw [hslots', List.append_cons, List.append_cons]
      refine List.pairwise_append.2 ⟨?_, ?_, ?_⟩
      · refine List.pairwise_of_forall_mem_list fun a ha b _ _ => decide_eq_true ?_
        rcases List.mem_append.1 ha with ha | ha
        · rcases List.mem_append.1 ha with ha | ha
          · exact hbelow a ha
          · rw [List.mem_singleton.1 ha]
            exact hx
        · rw [List.mem_singleton.1 ha]
          exact Nat.zero_le c
      · refine List.pairwise_of_forall_mem_list fun a _ b hb hbc => ?_
        have := hpost b hb
        simp only [decide_eq_true_eq] at hbc
        omega
      · intro a _ b hb hbc
        have := hpost b hb
        simp only [decide_eq_true_eq] at hbc
        omega
    obtain ⟨path', pre', x', post', hp', ht', hlen', hx', hpost'⟩ := probeFrom_trail (fun k => decide (k ≤ c))
      (fun _ => rfl) hroot'.planted hm (Nat.zero_add _) Trail.root (by simp) (by simp)
    have hcut : pre' ++ x' :: post' = pre ++ x :: (0, t) :: post := by
      rw [← hslots']
      exact (Rooted.slots_eq ht' hlen').symm
    have hx't : x' = (0, t) := by
      rw [List.append_cons pre] at hcut
      refine last_passing (fun y => decide (y.1 ≤ c)) hcut hx' hpost' (decide_eq_true (Nat.zero_le c)) fun y hy =>
        decide_eq_false ?_
      have := hpost y hy
      omega
    have hfound : probe sb' c = some (path', t) := by
      have : probe sb' c = some (path', x'.2) := hp'
      rwa [hx't] at this
    have hleaf : leafAt sb'.mem t = upper' :=
      (hst.leaves_kept hlen hg' (by simp)).trans (leafAt_leaf hst.upper)
    have hmask : sb'.snapmask = (sb1.put t b).snapmask := by
      rw [hg'.snapmask, hst.grown.snapmask, hg1.snapmask]
    unfold testUnique
    rw [hfound, Option.map_some]
    dsimp only
    rw [hleaf, hmask]
    have hub : upper.baseChunk = 0 := by
      show (leafAt (sb1.put t b).mem x.2).baseChunk = 0
      rw [hleaf2]
      exact hok.base
    have htarget : target32 upper c = c := by
      unfold target32 target64
      rw [hub]
      omega
    have hmap : upper'.map = addEntry [] c e none (sb1.put t b).snapmask := by
      rw [addExceptionToLeaf_eq hadd, htarget]
    have hbase : upper'.baseChunk = 0 := by
      rw [addExceptionToLeaf_eq hadd]
      exact hub
    rw [originChunkUnique_eq, target64, hbase, show (c + (2 ^ 64 - 0)) % 2 ^ 64 = c by omega, hmap,
      exnsAt_addEntry List.Pairwise.nil, if_pos rfl, decide_eq_true (addException_unique _ _ _)]

/-- `add_exception_to_tree` for the origin makes the chunk unique, whether a leaf is split or not. -/
private theorem TreeOk.addException_unique (h : TreeOk R sb) (hc : c < 2 ^ 32) (hp : probe sb c = some (path, leafbuf))
    (hadd : addExceptionToTree sb leafbuf c e none path = (true, sb')) :
    testUnique sb' c none = some (true, none) := by
  by_cases hsplit : addExceptionToLeaf (leafAt sb.mem leafbuf) c e none sb.snapmask = none →
      2 ≤ (leafAt sb.mem leafbuf).map.length
  · obtain ⟨hwf', hcontent, hmask⟩ :=
      addExceptionToTree_content h.reserved h.wellFormed h.placed h.cap hp hc hsplit hadd
    have hexns : sb'.exns c = addException (sb.exns c) e none sb.snapmask := by
      unfold Sb.exns
      rw [hcontent]
      exact (exnsAt_addEntry h.wellFormed.keyed.ascending c).trans (if_pos rfl)
    rw [hwf'.testUnique_eq hc, findIn, hexns, hmask, decide_eq_true (Ddsnap.addException_unique _ _ _)]
  · obtain ⟨hnone, hnarrow⟩ := Classical.not_imp.1 hsplit
    obtain ⟨path', pre, x, post, hp', ht, hlen, hx, hpost⟩ := h.wellFormed.probe c
    obtain ⟨rfl, rfl⟩ : path' = path ∧ x.2 = leafbuf := by
      have he := (show probe sb c = some (path', x.2) from hp').symm.trans hp
      simpa using he
    have hn := note_addExceptionToTree sb sb.mem x.2 c e none path'
    rw [hadd] at hn
    unfold addExceptionToTree at hn
    rw [show addExceptionToLeaf (leafAt (sb.note sb.mem).mem x.2) c e none (sb.note sb.mem).snapmask = none from hnone]
      at hn
    unfold newLeaf at hn
    cases hnew : allocChunk (sb.note sb.mem) .metadata with
    | none => rw [hnew] at hn; cases hn
    | some a =>
      obtain ⟨t, sb1⟩ := a
      rw [hnew] at hn
      have hfound := addToHalf_narrow h.rooted h.wellFormed.keyed h.cap ht hlen hx hpost hc (Nat.lt_of_not_le hnarrow)
        hnew _ hn
      exact hfound

private theorem TreeOk.uniqueException (h : TreeOk R sb) (hc : c < 2 ^ 32)
    (hu : uniqueException sb c none = some (some r, sb')) : testUnique sb' c none = some (true, none) := by
  obtain ⟨path, leafbuf, hp, ⟨hunique, -, rfl⟩ | ⟨-, sb1, ha, hadd⟩⟩ := uniqueException_cases hu
  · unfold testUnique
    rw [hp]
    exact congrArg (fun b => some (b, none)) hunique
  · obtain ⟨h2, hmem, hroot, hlevels, -⟩ := h.copied ha (copySource c (chunkUnique sb leafbuf c none).2)
    refine h2.addException_unique hc ?_ hadd
    rw [probe_congr hroot hlevels hmem, hp]

/-! ### Volumes -/

/-- The chunks of a volume are kept apart by leaves of a given size, and a chunk that `make_unique` was called for is
unique. -/
structure NumbersKept (D : Type) (size volume : Nat) : Prop where
  leaves : ∀ leaf leaf' chunk exception snapshot active, LeafOk size leaf → chunk < volume →
    addExceptionToLeaf leaf chunk exception snapshot active = some leaf' → KeptApart volume leaf leaf' chunk
  unique : ∀ (R : Nat) (sb sb1 sb' : Sb D) (chunk r : Nat), spaceCheck sb = some (true, sb1) → TreeOk R sb1 →
    chunk < volume → makeUnique sb chunk none = some (some r, sb') → testUnique sb' chunk none = some (true, none)

/-- The chunks of a volume are kept apart exactly when their numbers have 32 bits. -/
theorem numbersKept_iff (D : Type) {size volume : Nat} (hsize : 512 ≤ size) (hv : volume ≤ 2 ^ 64) :
    NumbersKept D size volume ↔ volume ≤ 2 ^ 32 := by
  constructor
  · intro h
    by_contra hlarge
    have hok := leafOk_init (show 32 ≤ size by omega)
    have hroom : 24 ≤ leafFreespace (initLeaf size) := by
      simp [leafFreespace, initLeaf, exceptionCount]
      omega
    -- an exception for chunk 0 is found for chunk `2 ^ 32`
    obtain ⟨leaf', hadd⟩ := addExceptionToLeaf_room hroom 0 0 none 0
    have := (keptApart_iff hok hv (by omega) hadd).1 (h.leaves _ _ _ _ _ _ hok (by omega) hadd)
    omega
  · intro hsmall
    refine ⟨fun leaf leaf' c e snapshot active hok hc hadd => ?_, fun R sb sb1 sb' c r hspace h hc hu => ?_⟩
    · exact (keptApart_iff hok hv hc hadd).2 ⟨by omega, by omega⟩
    · unfold makeUnique at hu
      rw [hspace] at hu
      exact h.uniqueException (by omega) hu

/-- A volume of 16 terabytes in chunks of 4096 bytes. -/
theorem numbersKept_full : NumbersKept Nat 4096 (2 ^ 32) := (numbersKept_iff Nat (by decide) (by decide)).2 (by decide)

/-- The exception for chunk `2 ^ 32 + 5` of a larger volume is not found for the origin, and it is found for a snapshot
that asks for chunk 5. -/
theorem large_numbers_mixed : ∃ leaf', addExceptionToLeaf (initLeaf 4096) (2 ^ 32 + 5) 77 none 1 = some leaf' ∧
    originChunkUnique leaf' (2 ^ 32 + 5) 1 = false ∧ (snapshotChunkUnique leaf' 5 0).2 = some 77 ∧
    ¬ KeptApart (2 ^ 32 + 6) (initLeaf 4096) leaf' (2 ^ 32 + 5) := by
  have hadd : addExceptionToLeaf (initLeaf 4096) (2 ^ 32 + 5) 77 none 1 = some ⟨0, [⟨5, [⟨1, 77⟩]⟩], 4096⟩ := rfl
  refine ⟨_, hadd, by decide, by decide, fun hk => ?_⟩
  have := (keptApart_iff (leafOk_init (by decide)) (by decide) (by decide) hadd).1 hk
  omega

end

end Ddsnap
