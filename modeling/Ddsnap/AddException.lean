import Ddsnap.Insert

/-!
# Adding an exception

`add_exception_to_leaf` and `split_leaf` on well-formed leaves, and what `add_exception_to_tree` does to a well-formed
tree: one exception is added to its content.  A leaf that is split must hold two map entries; then both halves have room
for the new exception.
-/

namespace Ddsnap

open IndexTree

variable {D : Type}

/-! ### Leaves -/

section
variable {size chunk e : Nat} {leaf leaf' : Eleaf} {snapshot : Option Nat} {active : Mask}

theorem LeafOk.target64 (h : LeafOk size leaf) (hc : chunk < 2 ^ 32) : target64 leaf chunk = chunk := by
  unfold Ddsnap.target64
  rw [h.base]
  omega

theorem LeafOk.target32 (h : LeafOk size leaf) (hc : chunk < 2 ^ 32) : target32 leaf chunk = chunk := by
  unfold Ddsnap.target32
  rw [h.target64 hc]
  omega

theorem LeafOk.freespace (h : LeafOk size leaf) : leafFreespace leaf + leafPayload leaf + 32 = size := by
  have h1 := h.fits
  unfold leafPayload leafFreespace at *
  rw [h.sentinel]
  omega

/-- Room for the exception was found. -/
private theorem LeafOk.addException (h : LeafOk size leaf) (hc : chunk < 2 ^ 32)
    (ha : addExceptionToLeaf leaf chunk e snapshot active = some leaf') :
    LeafOk size leaf' ∧ leaf'.map = addEntry leaf.map chunk e snapshot active := by
  unfold addExceptionToLeaf at ha
  rw [h.target32 hc] at ha
  dsimp only at ha
  split at ha
  · cases ha
  · rename_i hroom
    cases ha
    have hfree := h.freespace
    have hsize := addEntry_size leaf.map chunk e snapshot active
    refine ⟨⟨h.base, h.sentinel, ?_, h.ascending.addEntry, ?_, ?_⟩, rfl⟩
    · unfold leafPayload at hfree ⊢
      dsimp only
      omega
    · intro m hm
      rcases addEntry_rchunk hm with h1 | ⟨m', hm', h1⟩
      · omega
      · have := h.small m' hm'; omega
    · intro m hm
      exact addEntry_nonempty h.nonempty hm

private theorem payload_ge (map : List EtreeMap) (hne : map ≠ []) (hex : ∀ m ∈ map, m.exceptions ≠ []) :
    24 ≤ 8 * map.length + 16 * exceptionCount map := by
  cases map with
  | nil => exact absurd rfl hne
  | cons m map =>
    have := List.length_pos_of_ne_nil (hex m (by simp))
    rw [exceptionCount_cons, List.length_cons]
    omega

theorem LeafOk.sublist (h : LeafOk size leaf) (hb : leaf'.baseChunk = leaf.baseChunk)
    (hs : leaf'.sentinel = leaf.sentinel) (hm : leaf'.map.Sublist leaf.map)
    (hp : leafPayload leaf' ≤ leafPayload leaf) : LeafOk size leaf' :=
  ⟨hb.trans h.base, hs.trans h.sentinel, by have := h.fits; omega, h.ascending.sublist hm,
    fun m hx => h.small m (hm.subset hx), fun m hx => h.nonempty m (hm.subset hx)⟩

/-- What `split_leaf` does to a leaf with two entries. -/
structure LeafSplit (size : Nat) (leaf : Eleaf) (key : Nat) (lower upper : Eleaf) : Prop where
  lowerOk : LeafOk size lower
  upperOk : LeafOk size upper
  cut : lower.map ++ upper.map = leaf.map
  below : ∀ m ∈ lower.map, m.rchunk < key
  above : ∀ m ∈ upper.map, key ≤ m.rchunk
  key_mem : ∃ m ∈ upper.map, m.rchunk = key
  first : ∃ m ∈ lower.map, m.rchunk < key
  lowerRoom : 24 ≤ leafFreespace lower
  upperRoom : 24 ≤ leafFreespace upper

theorem LeafOk.split (h : LeafOk size leaf) (h2 : 2 ≤ leaf.map.length) :
    LeafSplit size leaf (splitLeaf leaf).1 (splitLeaf leaf).2.1 (splitLeaf leaf).2.2 := by
  obtain ⟨half, hhalf⟩ : ∃ half, half = (leaf.map.length + 1) / 2 := ⟨_, rfl⟩
  have hcut := List.take_append_drop half leaf.map
  have hlen := congrArg List.length hcut
  rw [List.length_append, List.length_take, List.length_drop] at hlen
  obtain ⟨a, tail, hdrop⟩ : ∃ a tail, leaf.map.drop half = a :: tail := by
    refine List.exists_cons_of_ne_nil (List.ne_nil_of_length_pos ?_)
    rw [List.length_drop]; omega
  obtain ⟨b, rest, htake⟩ : ∃ b rest, leaf.map.take half = b :: rest := by
    refine List.exists_cons_of_ne_nil (List.ne_nil_of_length_pos ?_)
    rw [List.length_take]; omega
  have hkey : (splitLeaf leaf).1 = a.rchunk := by
    have : leaf.map[half]? = some a := by rw [← List.head?_drop, hdrop]; rfl
    simp only [splitLeaf, ← hhalf, this, h.base]
    rfl
  have hlower : (splitLeaf leaf).2.1 = { leaf with map := leaf.map.take half } := by rw [hhalf]; rfl
  have hupper : (splitLeaf leaf).2.2 = { leaf with map := leaf.map.drop half } := by rw [hhalf]; rfl
  have hasc := h.ascending
  rw [← hcut] at hasc
  obtain ⟨-, hasc2, hcross⟩ := List.pairwise_append.1 hasc
  have hcount : exceptionCount leaf.map =
      exceptionCount (leaf.map.take half) + exceptionCount (leaf.map.drop half) := by
    rw [← exceptionCount_append, hcut]
  have hlowp := payload_ge (leaf.map.take half) (by rw [htake]; simp)
    fun m hm => h.nonempty m (List.mem_of_mem_take hm)
  have huppp := payload_ge (leaf.map.drop half) (by rw [hdrop]; simp)
    fun m hm => h.nonempty m (List.mem_of_mem_drop hm)
  have hfits := h.fits
  unfold leafPayload at hfits
  rw [List.length_take] at hlowp
  rw [List.length_drop] at huppp
  rw [hkey, hlower, hupper]
  refine ⟨h.sublist rfl rfl (List.take_sublist _ _) ?_, h.sublist rfl rfl (List.drop_sublist _ _) ?_, hcut, ?_, ?_,
    ⟨a, by rw [hdrop]; simp, rfl⟩, ⟨b, by rw [htake]; simp, ?_⟩, ?_, ?_⟩
  · unfold leafPayload
    dsimp only
    rw [List.length_take]
    omega
  · unfold leafPayload
    dsimp only
    rw [List.length_drop]
    omega
  · intro m hm
    exact hcross m hm a (by rw [hdrop]; simp)
  · intro m hm
    rw [hdrop] at hm hasc2
    rcases List.mem_cons.1 hm with rfl | hm
    · exact Nat.le_refl _
    · exact Nat.le_of_lt ((List.pairwise_cons.1 hasc2).1 m hm)
  · exact hcross b (by rw [htake]; simp) a (by rw [hdrop]; simp)
  · unfold leafFreespace
    dsimp only
    rw [h.sentinel, List.length_take]
    omega
  · unfold leafFreespace
    dsimp only
    rw [h.sentinel, List.length_drop]
    omega

/-- A leaf with room for an entry takes the exception. -/
theorem addExceptionToLeaf_room (hroom : 24 ≤ leafFreespace leaf) (chunk e : Nat) (snapshot : Option Nat)
    (active : Mask) :
    ∃ leaf', addExceptionToLeaf leaf chunk e snapshot active = some leaf' := by
  unfold addExceptionToLeaf
  have := bytesNeeded_le leaf.map (Ddsnap.target32 leaf chunk)
  rw [if_neg (by omega)]
  exact ⟨_, rfl⟩

end

/-! ### The tree -/

section
variable {R c e : Nat} {sb sb1 sb' : Sb D} {snapbit : Option Nat} {path : List EtreePath} {pre post : List (Nat × Nat)}
  {x : Nat × Nat}

/-- The slots around the end of a path to a leaf. -/
theorem Rooted.slots_eq (ht : Trail (nodesOf id sb.mem) (0, sb.image.etreeRoot) path pre x post)
    (hlen : path.length = sb.image.etreeLevels) : sb.view.slots = pre ++ x :: post := by
  show down (nodesOf id sb.mem) sb.image.etreeLevels [(0, sb.image.etreeRoot)] = _
  rw [← hlen, ht.down_eq]

/-- The leaf of a path and the nodes above it are blocks of the tree. -/
theorem Rooted.path_mem (ht : Trail (nodesOf id sb.mem) (0, sb.image.etreeRoot) path pre x post)
    (hlen : path.length = sb.image.etreeLevels) {s : Nat} (hs : s ∈ x.2 :: path.map Pos.node) :
    s ∈ sb.view.addresses := by
  rcases List.mem_cons.1 hs with rfl | hs
  · exact View.slots_mem_addresses (by rw [Rooted.slots_eq ht hlen]; simp)
  · obtain ⟨pos, hpos, rfl⟩ := List.mem_map.1 hs
    obtain ⟨i, hi, w, hw, he⟩ := ht.mem_path hpos
    exact View.mem_addresses.2 ⟨i, by rw [hlen] at hi; exact Nat.le_of_lt hi, w, hw, he⟩

/-- The tree does not change when its blocks do not. -/
theorem Rooted.congr (hroot : Rooted R sb) (hr : Reserved R sb')
    (hr' : sb'.image.etreeRoot = sb.image.etreeRoot) (hl' : sb'.image.etreeLevels = sb.image.etreeLevels)
    (hcap : sb'.allocPerNode = sb.allocPerNode) (hmem : ∀ s ∈ sb.view.addresses, sb'.mem s = sb.mem s)
    (htaken : ∀ s ∈ sb.view.addresses, sb'.Taken s) (hsync : ∀ s ∈ sb.view.addresses, sb'.SyncAt s) :
    Rooted R sb' ∧ sb'.view.slots = sb.view.slots ∧ sb'.view.addresses = sb.view.addresses := by
  obtain ⟨hdown, hplant⟩ := hroot.planted.congr hmem
  have haddr : sb'.view.addresses = sb.view.addresses := by
    unfold View.addresses IndexTree.blocks Sb.view
    rw [hr', hl']
    refine List.flatMap_congr fun i hi => ?_
    rw [List.mem_range] at hi
    dsimp only at hi
    exact congrArg _ (hdown i (by omega))
  refine ⟨⟨hr, ?_, fun s hs => ?_⟩, ?_, haddr⟩
  · rw [hr', hl', hcap]; exact hplant
  · rw [haddr] at hs
    exact ⟨(hroot.placed s hs).1, htaken s hs, hsync s hs⟩
  · unfold View.slots View.level Sb.view
    rw [hr', hl']
    exact hdown _ (Nat.le_refl _)

/-- A step that changes blocks outside the tree. -/
private theorem Rooted.apart {changed : List Nat} (hroot : Rooted R sb) (hg : Grown R changed sb sb')
    (hr' : sb'.image.etreeRoot = sb.image.etreeRoot) (hl' : sb'.image.etreeLevels = sb.image.etreeLevels)
    (hne : ∀ s ∈ changed, s ∉ sb.view.addresses) :
    Rooted R sb' ∧ sb'.view.slots = sb.view.slots ∧ sb'.view.addresses = sb.view.addresses ∧
      ∀ {path pre x post}, path.length ≤ sb.image.etreeLevels →
        Trail (nodesOf id sb.mem) (0, sb.image.etreeRoot) path pre x post →
        Trail (nodesOf id sb'.mem) (0, sb'.image.etreeRoot) path pre x post := by
  have hmem : ∀ s ∈ sb.view.addresses, sb'.mem s = sb.mem s := fun s hs =>
    hg.mem s (hroot.placed s hs).1 (hroot.placed s hs).2.1 fun hc => hne s hc hs
  obtain ⟨h1, h2, h3⟩ := hroot.congr (hg.reserved hroot.reserved) hr' hl' hg.allocPerNode hmem
    (fun s hs => hg.taken s (hroot.placed s hs).2.1) fun s hs => hg.sync s (hroot.placed s hs).2.2
  refine ⟨h1, h2, h3, ?_⟩
  intro path pre x post hlen ht
  rw [hr']
  refine ht.congr fun i hi y hy => nodesOf_congr (hmem y.2 (View.mem_addresses.2 ⟨i, ?_, y, hy, rfl⟩))
  show i ≤ sb.image.etreeLevels
  omega

/-- A leaf of the tree gets another content. -/
private theorem Rooted.putLeaf (hroot : Rooted R sb) (hx : x ∈ sb.view.slots) (leaf : Eleaf) :
    Rooted R (sb.put x.2 (.leaf leaf)) ∧ Grown R [x.2] sb (sb.put x.2 (.leaf leaf)) ∧
      nodesOf id (sb.put x.2 (.leaf leaf)).mem = nodesOf id sb.mem ∧
      (sb.put x.2 (.leaf leaf)).view.slots = sb.view.slots ∧
      (sb.put x.2 (.leaf leaf)).view.addresses = sb.view.addresses := by
  have hold := hroot.planted.leafAt hx
  obtain ⟨hnodes, hplant⟩ := hroot.planted.edit_leaf hold leaf
  have hg := grown_put hroot.reserved (hroot.placed x.2 (View.slots_mem_addresses hx)).1 (.leaf leaf)
  have himg := (sb.put_fixed x.2 (.leaf leaf)).2.2.2.2.1
  rw [← Sb.put_mem] at hnodes hplant
  have haddr : (sb.put x.2 (.leaf leaf)).view.addresses = sb.view.addresses := by
    unfold View.addresses Sb.view
    rw [himg]
    dsimp only
    rw [hnodes]
  refine ⟨⟨hg.reserved hroot.reserved, ?_, fun s hs => ?_⟩, hg, hnodes, ?_, haddr⟩
  · rw [himg, hg.allocPerNode]; exact hplant
  · rw [haddr] at hs
    exact hg.placed (hroot.placed s hs)
  · unfold View.slots View.level Sb.view
    rw [himg]
    dsimp only
    rw [hnodes]

private theorem Rooted.slot_ne (hroot : Rooted R sb) (hs : sb.view.slots = pre ++ x :: post) {y : Nat × Nat}
    (hy : y ∈ pre ++ post) : y.2 ≠ x.2 := by
  have hn : (sb.view.slots.map Prod.snd).Nodup := hroot.planted.nodup
  rw [hs, List.map_append, List.map_cons, List.nodup_middle, List.nodup_cons] at hn
  intro he
  refine hn.1 ?_
  rw [← he, ← List.map_append]
  exact List.mem_map_of_mem hy

/-- The exception finds room in its leaf. -/
private theorem addToLeaf_spec {leaf : Eleaf} (hroot : Rooted R sb) (hkeyed : Keyed sb.mem sb.allocsize sb.view.slots)
    (hs : sb.view.slots = pre ++ x :: post) (hx : x.1 ≤ c) (hpost : ∀ y ∈ post, c < y.1) (hc : c < 2 ^ 32)
    (h : addExceptionToLeaf (leafAt sb.mem x.2) c e snapbit sb.snapmask = some leaf)
    (hsb' : sb' = sb.put x.2 (.leaf leaf)) :
    Keyed sb'.mem sb'.allocsize sb'.view.slots ∧
      sb'.view.content = addEntry sb.view.content c e snapbit sb.snapmask := by
  have hxm : x ∈ sb.view.slots := by rw [hs]; simp
  obtain ⟨-, hg, -, hslots, -⟩ := hroot.putLeaf hxm leaf
  rw [← hsb'] at hg hslots
  obtain ⟨hok, hmap⟩ := (hkeyed.leafOk x hxm).addException hc h
  have hleaf : leafAt sb'.mem x.2 = leaf := leafAt_leaf (by rw [hsb', Sb.put_mem, Function.update_self])
  have hsame : ∀ y ∈ pre ++ post, leafAt sb'.mem y.2 = leafAt sb.mem y.2 := by
    intro y hy
    unfold leafAt
    rw [hsb', Sb.put_mem, Function.update_of_ne (hroot.slot_ne hs hy)]
  rw [hs] at hkeyed
  have hentry : ∀ m ∈ leaf.map, x.1 ≤ m.rchunk ∧ ∀ z ∈ post, m.rchunk < z.1 := by
    intro m hm
    rw [hmap] at hm
    rcases addEntry_rchunk hm with h1 | ⟨m', hm', h1⟩
    · exact ⟨by omega, fun z hz => by have := hpost z hz; omega⟩
    · have h2 := hkeyed.above x (by simp) m' hm'
      have h3 := (List.pairwise_cons.1 (List.pairwise_append.1 hkeyed.sorted).2.1).1
      exact ⟨by omega, fun z hz => by have := (h3 z hz).2 m' hm'; omega⟩
  constructor
  · rw [hslots, hs, hg.allocsize, List.append_cons]
    refine hkeyed.replace ⟨List.pairwise_singleton _ _, ?_, ?_⟩ hsame (by simp) ?_
    · intro y hy m hm
      rw [List.mem_singleton] at hy
      subst hy
      rw [hleaf] at hm
      exact (hentry m hm).1
    · intro y hy
      rw [List.mem_singleton] at hy
      subst hy
      rw [hleaf]
      exact hok
    · intro y hy z hz
      rw [List.mem_singleton] at hy
      subst hy
      rw [hleaf]
      exact ⟨((List.pairwise_cons.1 (List.pairwise_append.1 hkeyed.sorted).2.1).1 z hz).1,
        fun m hm => (hentry m hm).2 z hz⟩
  · obtain ⟨hl, hr⟩ := hkeyed.around
    show contentOf sb'.mem sb'.view.slots = addEntry (contentOf sb.mem sb.view.slots) c e snapbit sb.snapmask
    rw [hslots, hs, contentOf_append, contentOf_cons, contentOf_append, contentOf_cons, hleaf, hmap,
      contentOf_congr fun y hy => hsame y (by simp [hy]), contentOf_congr fun y hy => hsame y (by simp [hy]),
      addEntry_append (fun m hm => by have := hl m hm; omega), addEntry_append_right fun m hm => hr c hpost m hm]

/-- A leaf that is split: the exception is added to one of the halves. -/
private theorem halves_spec {size : Nat} {leaf : Eleaf} (hok : LeafOk size leaf) (h2 : 2 ≤ leaf.map.length)
    (hc : c < 2 ^ 32) (e : Nat) (snapbit : Option Nat) (active : Mask) :
    ∃ key lower upper lower' upper', splitLeaf leaf = (key, lower, upper) ∧
      ((c < key ∧ addExceptionToLeaf lower c e snapbit active = some lower' ∧ upper' = upper) ∨
        (key ≤ c ∧ addExceptionToLeaf upper c e snapbit active = some upper' ∧ lower' = lower)) ∧
      LeafOk size lower' ∧ LeafOk size upper' ∧
      lower'.map ++ upper'.map = addEntry leaf.map c e snapbit active ∧
      (∀ m ∈ lower'.map, m.rchunk < key) ∧ (∀ m ∈ upper'.map, key ≤ m.rchunk) ∧
      (∃ m ∈ leaf.map, m.rchunk < key) ∧ ∃ m ∈ leaf.map, m.rchunk = key := by
  have hs := hok.split h2
  obtain ⟨⟨key, lower, upper⟩, hsplit⟩ : ∃ p, splitLeaf leaf = p := ⟨_, rfl⟩
  rw [hsplit] at hs
  dsimp only at hs
  have hfirst : ∃ m ∈ leaf.map, m.rchunk < key := by
    obtain ⟨m, hm, hlt⟩ := hs.first
    exact ⟨m, by rw [← hs.cut]; simp [hm], hlt⟩
  have hkey : ∃ m ∈ leaf.map, m.rchunk = key := by
    obtain ⟨m, hm, he⟩ := hs.key_mem
    exact ⟨m, by rw [← hs.cut]; simp [hm], he⟩
  by_cases hlt : c < key
  · obtain ⟨lower', hadd⟩ := addExceptionToLeaf_room hs.lowerRoom c e snapbit active
    obtain ⟨hok', hmap⟩ := hs.lowerOk.addException hc hadd
    refine ⟨key, lower, upper, lower', upper, hsplit, .inl ⟨hlt, hadd, rfl⟩, hok', hs.upperOk, ?_, ?_, hs.above, hfirst,
      hkey⟩
    · rw [hmap, ← hs.cut, addEntry_append_right fun m hm => by have := hs.above m hm; omega]
    · intro m hm
      rw [hmap] at hm
      rcases addEntry_rchunk hm with h1 | ⟨m', hm', h1⟩
      · omega
      · have := hs.below m' hm'; omega
  · obtain ⟨upper', hadd⟩ := addExceptionToLeaf_room hs.upperRoom c e snapbit active
    obtain ⟨hok', hmap⟩ := hs.upperOk.addException hc hadd
    refine ⟨key, lower, upper, lower, upper', hsplit, .inr ⟨by omega, hadd, rfl⟩, hs.lowerOk, hok', ?_, hs.below, ?_,
      hfirst, hkey⟩
    · rw [hmap, ← hs.cut, addEntry_append fun m hm => by have := hs.below m hm; omega]
    · intro m hm
      rw [hmap] at hm
      rcases addEntry_rchunk hm with h1 | ⟨m', hm', h1⟩
      · omega
      · have := hs.above m' hm'; omega

/-- Both halves are stored, and the new leaf becomes the pending child of the path. -/
theorem addToHalf_eq {leafbuf t key : Nat} {lower upper lower' upper' : Eleaf} (hne : leafbuf ≠ t)
    (hsplit : splitLeaf (leafAt sb.mem leafbuf) = (key, lower, upper))
    (hadd : (c < key ∧ addExceptionToLeaf lower c e snapbit sb.snapmask = some lower' ∧ upper' = upper) ∨
      (key ≤ c ∧ addExceptionToLeaf upper c e snapbit sb.snapmask = some upper' ∧ lower' = lower)) :
    addToHalf sb leafbuf t c e snapbit path =
      addChild ((sb.put leafbuf (.leaf lower')).put t (.leaf upper')) path ⟨key, t⟩ := by
  rw [put_put]
  unfold addToHalf
  rw [hsplit]
  dsimp only
  rcases hadd with ⟨hlt, hadd, rfl⟩ | ⟨hle, hadd, rfl⟩
  · have hl : leafAt ((sb.store leafbuf (.leaf lower)).store t (.leaf upper')).mem leafbuf = lower :=
      leafAt_leaf (by simp [Function.update_of_ne hne])
    rw [if_pos hlt, hl]
    simp only [Sb.store, hadd]
    rw [Function.update_comm hne, Function.update_idem]
    simp only [Function.update_comm hne.symm]
  · have hu : leafAt ((sb.store leafbuf (.leaf lower')).store t (.leaf upper)).mem t = upper :=
      leafAt_leaf (by simp)
    rw [if_neg (by omega), hu]
    simp only [Sb.store, hadd, Function.update_idem]

/-- Both halves of a split leaf are stored, and the slot `y` of the upper half is pending behind the slot `x` of the
leaf. -/
structure LeafStored (R : Nat) (sb sb' : Sb D) (path : List EtreePath) (pre post : List (Nat × Nat)) (x y : Nat × Nat)
    (lower upper : Eleaf) : Prop where
  rooted : Rooted R sb'
  grown : Grown R [x.2] sb sb'
  levels : sb'.image.etreeLevels = sb.image.etreeLevels
  slots : sb'.view.slots = pre ++ x :: post
  addresses : sb'.view.addresses = sb.view.addresses
  trail : Trail (nodesOf id sb'.mem) (0, sb'.image.etreeRoot) path pre x post
  fresh : ¬sb.Taken y.2
  placed : sb'.Placed R y.2
  lower : sb'.mem x.2 = .leaf lower
  upper : sb'.mem y.2 = .leaf upper

theorem putHalves_spec {t : Nat} (key : Nat) (hroot : Rooted R sb)
    (ht : Trail (nodesOf id sb.mem) (0, sb.image.etreeRoot) path pre x post)
    (hlen : path.length = sb.image.etreeLevels) (hnew : allocChunk sb .metadata = some (t, sb1)) (b : Block D)
    (lower upper : Eleaf) :
    LeafStored R sb (((sb1.put t b).put x.2 (.leaf lower)).put t (.leaf upper)) path pre post x (key, t) lower upper := by
  have hs := Rooted.slots_eq ht hlen
  have hxm : x ∈ sb.view.slots := by rw [hs]; simp
  obtain ⟨hR, hfresh, htaken, hg1, hr1, hl1⟩ := newBlock_spec hroot.reserved hnew b
  generalize sb1.put t b = sb2 at htaken hg1 hr1 hl1
  obtain ⟨hroot2, hslots2, haddr2, htrail2⟩ := hroot.apart hg1 hr1 hl1 (by simp)
  have hne : x.2 ≠ t := fun he => hfresh (he ▸ (hroot.placed x.2 (View.slots_mem_addresses hxm)).2.1)
  obtain ⟨hroot3, hg3, hnodes3, hslots3, haddr3⟩ := hroot2.putLeaf (x := x) (by rw [hslots2]; exact hxm) lower
  have himg3 := (sb2.put_fixed x.2 (.leaf lower)).2.2.2.2.1
  have hmem3 := sb2.put_mem x.2 (.leaf lower)
  have htaken3 := hg3.taken t htaken
  generalize sb2.put x.2 (.leaf lower) = sb3 at *
  have hg4 := grown_put hroot3.reserved hR (.leaf upper)
  have himg4 := (sb3.put_fixed t (.leaf upper)).2.2.2.2.1
  have hmem4 := sb3.put_mem t (.leaf upper)
  have hsync4 := sb3.put_sync t (.leaf upper)
  have htaken4 := hg4.taken t htaken3
  generalize sb3.put t (.leaf upper) = sb4 at *
  obtain ⟨hroot4, hslots4, haddr4, htrail4⟩ := hroot3.apart hg4 (by rw [himg4]) (by rw [himg4]) fun s hst hsm => by
    rw [haddr3, haddr2] at hsm
    rw [List.mem_singleton] at hst
    exact hfresh (hst ▸ (hroot.placed s hsm).2.1)
  refine ⟨hroot4, ((hg1.trans hg3).trans hg4).mono fun s hsm => ?_, by rw [himg4, himg3, hl1],
    by rw [hslots4, hslots3, hslots2, hs], by rw [haddr4, haddr3, haddr2], htrail4 (by rw [himg3, hl1]; omega) ?_, hfresh,
    ⟨hR, htaken4, hsync4⟩, by rw [hmem4, Function.update_of_ne hne, hmem3, Function.update_self],
    by rw [hmem4, Function.update_self]⟩
  · simp only [List.nil_append, List.singleton_append, List.mem_cons, List.not_mem_nil, or_false] at hsm ⊢
    refine hsm.imp id fun he => ?_
    rw [he]
    exact ⟨hfresh, htaken4⟩
  · rw [hnodes3, himg3]
    exact htrail2 (by omega) ht

private theorem mem_blocks_leaf {nodes : Nat → List (Nat × Nat)} {y : Nat × Nat} {s : Nat} :
    s ∈ IndexTree.blocks nodes [y] 0 ↔ s = y.2 := by
  simp [IndexTree.blocks, down]

namespace LeafStored
variable {y : Nat × Nat} {lower upper : Eleaf} (h : LeafStored R sb sb1 path pre post x y lower upper)
include h

/-- The leaves with the pending one among them. -/
private theorem forest (hroot : Rooted R sb) : Planted id sb1.mem sb1.allocPerNode (pre ++ x :: y :: post) 0 := by
  refine ⟨fun i hi => absurd hi (by omega), fun w hw => ?_, ?_⟩
  · rcases mem_after hw with rfl | hw'
    · exact ⟨upper, h.upper⟩
    · refine h.rooted.planted.leaf w ?_
      show w ∈ sb1.view.slots
      rw [h.slots]; exact hw'
  · have hn : (sb1.view.slots.map Prod.snd).Nodup := h.rooted.planted.nodup
    rw [h.slots] at hn
    show ((pre ++ x :: y :: post).map Prod.snd).Nodup
    rw [List.append_cons, List.map_append, List.map_cons, List.nodup_middle, List.nodup_cons, ← List.map_append,
      List.append_assoc, List.singleton_append]
    refine ⟨fun hm => ?_, hn⟩
    obtain ⟨w, hw, he⟩ := List.mem_map.1 hm
    have hwm : w.2 ∈ sb.view.addresses := by
      rw [← h.addresses]
      exact View.slots_mem_addresses (by rw [h.slots]; exact hw)
    exact h.fresh (he ▸ (hroot.placed w.2 hwm).2.1)

private theorem side (hroot : Rooted R sb) (hs : sb.view.slots = pre ++ x :: post) {v : Nat × Nat}
    (hv : v ∈ pre ++ post) : leafAt sb1.mem v.2 = leafAt sb.mem v.2 := by
  have hvm : v ∈ sb.view.slots := by
    rw [hs]
    rcases List.mem_append.1 hv with hv | hv <;> simp [hv]
  obtain ⟨hvR, hvT, -⟩ := hroot.placed v.2 (View.slots_mem_addresses hvm)
  unfold leafAt
  rw [h.grown.mem v.2 hvR hvT (by simpa using hroot.slot_ne hs hv)]

/-- The loop over the path does not change leaves. -/
theorem leaves_kept (hlen : path.length = sb.image.etreeLevels) (hg : Grown R (path.map Pos.node) sb1 sb')
    {v : Nat × Nat} (hv : v ∈ pre ++ x :: y :: post) : leafAt sb'.mem v.2 = leafAt sb1.mem v.2 := by
  obtain ⟨leaf, hl, hplace⟩ : ∃ leaf, sb1.mem v.2 = .leaf leaf ∧ R ≤ v.2 ∧ sb1.Taken v.2 := by
    rcases mem_after hv with rfl | hv'
    · exact ⟨upper, h.upper, h.placed.1, h.placed.2.1⟩
    · rw [← h.slots] at hv'
      obtain ⟨leaf, hl⟩ := h.rooted.planted.leaf v hv'
      have := h.rooted.placed v.2 (View.slots_mem_addresses hv')
      exact ⟨leaf, hl, this.1, this.2.1⟩
  unfold leafAt
  rw [hg.mem v.2 hplace.1 hplace.2]
  intro hm
  obtain ⟨pos, hp, he⟩ := List.mem_map.1 hm
  obtain ⟨i, hi, w, hw, hwe⟩ := h.trail.mem_path hp
  obtain ⟨es, hes, -⟩ := h.rooted.planted.index i (by rw [h.levels]; omega) w hw
  rw [hwe, he, hl] at hes
  cases hes

/-- The loop over the path puts the pending leaf behind the other one. -/
theorem addChild (hroot : Rooted R sb) (hcap : 2 ≤ sb.allocPerNode) (hlen : path.length = sb.image.etreeLevels)
    (hadd : Ddsnap.addChild sb1 path ⟨y.1, y.2⟩ = (true, sb')) :
    Rooted R sb' ∧ Grown R (path.map Pos.node) sb1 sb' ∧ sb'.view.slots = pre ++ x :: y :: post ∧
      ∀ s ∈ sb'.view.addresses, s ∈ sb.view.addresses ∨ ¬sb.Taken s := by
  have hpend : ∀ s ∈ IndexTree.blocks (nodesOf id sb1.mem) [y] 0, sb1.Placed R s := by
    intro s hs
    rw [mem_blocks_leaf.1 hs]
    exact h.placed
  obtain ⟨hroot', hg, hslots, haddr⟩ := addChild_spec (n := 0) h.rooted (by rw [h.grown.allocPerNode]; exact hcap)
    h.trail (by rw [h.levels]; omega) (h.forest hroot) hpend hadd
  refine ⟨hroot', hg, hslots, fun s hs => ?_⟩
  rcases haddr s hs with hs | hs | hs
  · exact .inl (h.addresses ▸ hs)
  · rw [mem_blocks_leaf.1 hs]
    exact .inr h.fresh
  · exact .inr fun hts => hs (h.grown.taken s hts)

end LeafStored

/-- The leaf is split, and the exception is added to one of the halves. -/
private theorem addToHalf_spec {t : Nat} (hroot : Rooted R sb) (hkeyed : Keyed sb.mem sb.allocsize sb.view.slots)
    (hcap : 2 ≤ sb.allocPerNode) (ht : Trail (nodesOf id sb.mem) (0, sb.image.etreeRoot) path pre x post)
    (hlen : path.length = sb.image.etreeLevels) (hx : x.1 ≤ c) (hpost : ∀ y ∈ post, c < y.1) (hc : c < 2 ^ 32)
    (h2 : 2 ≤ (leafAt sb.mem x.2).map.length) (hnew : allocChunk sb .metadata = some (t, sb1)) (b : Block D)
    (h : addToHalf (sb1.put t b) x.2 t c e snapbit path = (true, sb')) :
    Rooted R sb' ∧ Grown R (x.2 :: path.map Pos.node) sb sb' ∧ Keyed sb'.mem sb'.allocsize sb'.view.slots ∧
      sb'.view.content = addEntry sb.view.content c e snapbit sb.snapmask ∧
      ∀ s ∈ sb'.view.addresses, s ∈ sb.view.addresses ∨ ¬sb.Taken s := by
  have hs := Rooted.slots_eq ht hlen
  have hxm : x ∈ sb.view.slots := by rw [hs]; simp
  obtain ⟨hxR, hxT, -⟩ := hroot.placed x.2 (View.slots_mem_addresses hxm)
  obtain ⟨-, hfresh, -, hg1, -⟩ := newBlock_spec hroot.reserved hnew b
  have hleaf2 : leafAt (sb1.put t b).mem x.2 = leafAt sb.mem x.2 := by
    unfold leafAt; rw [hg1.mem x.2 hxR hxT (by simp)]
  obtain ⟨key, lower, upper, lower', upper', hsplit, hadd, hlok, huok, hmap, hbelow, habove, hfirst, hkeym⟩ :=
    halves_spec (hkeyed.leafOk x hxm) h2 hc e snapbit sb.snapmask
  rw [← hleaf2] at hsplit
  rw [← hg1.snapmask] at hadd
  have hne : x.2 ≠ t := fun he => hfresh (he ▸ hxT)
  rw [addToHalf_eq hne hsplit hadd] at h
  -- both halves are stored, and the loop over the path puts the new leaf behind the old one
  have hst := putHalves_spec key hroot ht hlen hnew b lower' upper'
  generalize ((sb1.put t b).put x.2 (.leaf lower')).put t (.leaf upper') = sb4 at h hst
  obtain ⟨hroot', hg', hslots', haddr'⟩ := hst.addChild hroot hcap hlen h
  have hkeyed0 := hkeyed
  rw [hs] at hkeyed0
  have hnext := (List.pairwise_cons.1 (List.pairwise_append.1 hkeyed0.sorted).2.1).1
  have hlow : ∀ m ∈ (leafAt sb.mem x.2).map, x.1 ≤ m.rchunk := hkeyed0.above x (by simp)
  -- old and new entries lie between the separators of the old leaf
  have hrange : ∀ m ∈ lower'.map ++ upper'.map, x.1 ≤ m.rchunk ∧ ∀ z ∈ post, m.rchunk < z.1 := by
    intro m hm
    rw [hmap] at hm
    rcases addEntry_rchunk hm with h1 | ⟨m', hm', h1⟩
    · exact ⟨by omega, fun z hz => by have := hpost z hz; omega⟩
    · have := hlow m' hm'
      exact ⟨by omega, fun z hz => by have := (hnext z hz).2 m' hm'; omega⟩
  have hxkey : x.1 < key := by
    obtain ⟨m, hm, hlt'⟩ := hfirst
    have := hlow m hm
    omega
  have hkeypost : ∀ z ∈ post, key < z.1 := by
    obtain ⟨m, hm, he⟩ := hkeym
    intro z hz
    have := (hnext z hz).2 m hm
    omega
  have hkeyed4 : Keyed sb4.mem sb.allocsize (pre ++ [x, (key, t)] ++ post) := by
    refine hkeyed0.replace ⟨?_, ?_, ?_⟩ (fun v hv => hst.side hroot hs hv) ?_ ?_
    · rw [List.pairwise_pair, leafAt_leaf hst.lower]
      exact ⟨hxkey, hbelow⟩
    · intro y hy
      rcases List.mem_pair.1 hy with rfl | rfl
      · rw [leafAt_leaf hst.lower]
        exact fun m hm => (hrange m (by simp [hm])).1
      · rw [leafAt_leaf hst.upper]
        exact habove
    · intro y hy
      rcases List.mem_pair.1 hy with rfl | rfl
      · rw [leafAt_leaf hst.lower]; exact hlok
      · rw [leafAt_leaf hst.upper]; exact huok
    · intro y hy
      rcases List.mem_pair.1 hy with rfl | rfl
      · exact Nat.le_refl _
      · exact Nat.le_of_lt hxkey
    · intro y hy z hz
      rcases List.mem_pair.1 hy with rfl | rfl
      · rw [leafAt_leaf hst.lower]
        exact ⟨(hnext z hz).1, fun m hm => (hrange m (by simp [hm])).2 z hz⟩
      · rw [leafAt_leaf hst.upper]
        exact ⟨hkeypost z hz, fun m hm => (hrange m (by simp [hm])).2 z hz⟩
  have hgall : Grown R (x.2 :: path.map Pos.node) sb sb' := hst.grown.trans hg'
  refine ⟨hroot', hgall, ?_, ?_, haddr'⟩
  · rw [hslots', hgall.allocsize]
    refine Keyed.congr ?_ fun v hv => hst.leaves_kept hlen hg' hv
    simpa using hkeyed4
  · obtain ⟨hl, hr⟩ := hkeyed0.around
    show contentOf sb'.mem sb'.view.slots = addEntry (contentOf sb.mem sb.view.slots) c e snapbit sb.snapmask
    rw [hslots', contentOf_congr fun v hv => hst.leaves_kept hlen hg' hv, hs, contentOf_append, contentOf_cons,
      contentOf_cons, contentOf_append, contentOf_cons, leafAt_leaf hst.lower, leafAt_leaf hst.upper,
      ← List.append_assoc lower'.map, hmap, contentOf_congr fun y hy => hst.side hroot hs (by simp [hy]),
      contentOf_congr fun y hy => hst.side hroot hs (by simp [hy]),
      addEntry_append (fun m hm => by have := hl m hm; omega), addEntry_append_right fun m hm => hr c hpost m hm]

/-- `add_exception_to_tree` adds one exception to the content of a well-formed tree. -/
theorem addExceptionToTree_spec (hroot : Rooted R sb) (hkeyed : Keyed sb.mem sb.allocsize sb.view.slots)
    (hcap : 2 ≤ sb.allocPerNode) (ht : Trail (nodesOf id sb.mem) (0, sb.image.etreeRoot) path pre x post)
    (hlen : path.length = sb.image.etreeLevels) (hx : x.1 ≤ c) (hpost : ∀ y ∈ post, c < y.1) (hc : c < 2 ^ 32)
    (hsplit : addExceptionToLeaf (leafAt sb.mem x.2) c e snapbit sb.snapmask = none →
      2 ≤ (leafAt sb.mem x.2).map.length)
    (h : addExceptionToTree sb x.2 c e snapbit path = (true, sb')) :
    Rooted R sb' ∧ Grown R (x.2 :: path.map Pos.node) sb sb' ∧ Keyed sb'.mem sb'.allocsize sb'.view.slots ∧
      sb'.view.content = addEntry sb.view.content c e snapbit sb.snapmask ∧
      ∀ s ∈ sb'.view.addresses, s ∈ sb.view.addresses ∨ ¬sb.Taken s := by
  have hs := Rooted.slots_eq ht hlen
  have hxm : x ∈ sb.view.slots := by rw [hs]; simp
  unfold addExceptionToTree at h
  cases ha : addExceptionToLeaf (leafAt sb.mem x.2) c e snapbit sb.snapmask with
  | some leaf =>
    rw [ha] at h
    have hsb' : sb' = sb.put x.2 (.leaf leaf) := (Prod.mk.inj h).2.symm
    obtain ⟨h1, h2, -, -, h5⟩ := hroot.putLeaf hxm leaf
    rw [← hsb'] at h1 h2 h5
    obtain ⟨h6, h7⟩ := addToLeaf_spec hroot hkeyed hs hx hpost hc ha hsb'
    exact ⟨h1, h2.mono fun s hm => .inl (by simp_all), h6, h7, fun s hm => .inl (h5 ▸ hm)⟩
  | none =>
    rw [ha] at h
    unfold newLeaf at h
    cases hn : allocChunk sb .metadata with
    | none => rw [hn] at h; cases h
    | some a =>
      obtain ⟨t, sb1⟩ := a
      rw [hn] at h
      exact addToHalf_spec hroot hkeyed hcap ht hlen hx hpost hc (hsplit ha) hn _ h

end

end Ddsnap
