import Ddsnap.Tree

/-!
# The exception tree as lists of slots

The tree in a map of blocks, read level by level: a slot is a block with the separator on its left.  The leaves of a
well-formed tree hold their chunks between their separators, and `probe` finds the one leaf that can hold a chunk, so
that the tree is one ascending map from chunks to exceptions, its content.

Separators are taken through a function `key`, the identity for the tree itself.  What `probe` does for one chunk depends
only on which separators are above that chunk.
-/

namespace Ddsnap

open IndexTree

variable {D : Type} {κ : Type*}

/-! ### Levels -/

/-- The entries of an index node as slots. -/
def nodesOf (key : Nat → κ) (blocks : Nat → Block D) (s : Nat) : List (κ × Nat) :=
  (entriesAt blocks s).map fun e => (key e.key, e.sector)

/-- An exception tree in a map of blocks. -/
structure View (D : Type) where
  blocks : Nat → Block D
  root : Nat
  levels : Nat

/-- The tree of the server. -/
def Sb.view (sb : Sb D) : View D := ⟨sb.mem, sb.image.etreeRoot, sb.image.etreeLevels⟩

/-- The slots of a level, the root on level 0. -/
def View.level (key : Nat → κ) (v : View D) (i : Nat) : List (κ × Nat) :=
  down (nodesOf key v.blocks) i [(key 0, v.root)]

/-- The slots of the leaves. -/
def View.slots (v : View D) : List (Nat × Nat) := v.level id v.levels

/-- The map entries of the leaves of a list. -/
def contentOf (blocks : Nat → Block D) (xs : List (κ × Nat)) : List EtreeMap :=
  xs.flatMap fun x => (leafAt blocks x.2).map

/-- All map entries of the tree. -/
def View.content (v : View D) : List EtreeMap := contentOf v.blocks v.slots

/-- The blocks of the tree. -/
def View.addresses (v : View D) : List Nat := IndexTree.blocks (nodesOf id v.blocks) [(0, v.root)] v.levels

/-! ### Well-formed trees -/

/-- The trees below the slots of a list: `n` levels of index nodes with at most `cap` entries, and leaves below them.  No
leaf has two parents. -/
structure Planted (key : Nat → κ) (blocks : Nat → Block D) (cap : Nat) (xs : List (κ × Nat)) (n : Nat) : Prop where
  index : ∀ i < n, ∀ x ∈ down (nodesOf key blocks) i xs, ∃ es, blocks x.2 = .node es ∧ es ≠ [] ∧ es.length ≤ cap
  leaf : ∀ x ∈ down (nodesOf key blocks) n xs, ∃ leaf, blocks x.2 = .leaf leaf
  nodup : ((down (nodesOf key blocks) n xs).map Prod.snd).Nodup

/-- A leaf in a block of a given size.  Its chunks are counted from 0 in 32 bits. -/
structure LeafOk (size : Nat) (leaf : Eleaf) : Prop where
  base : leaf.baseChunk = 0
  sentinel : leaf.sentinel = size
  fits : leafPayload leaf + 32 ≤ size
  ascending : Ascending leaf.map
  small : ∀ m ∈ leaf.map, m.rchunk < 2 ^ 32
  nonempty : ∀ m ∈ leaf.map, m.exceptions ≠ []

/-- The separators increase, and the chunks of every leaf lie between its separator and the next one. -/
structure Keyed (blocks : Nat → Block D) (size : Nat) (xs : List (Nat × Nat)) : Prop where
  sorted : xs.Pairwise fun x y => x.1 < y.1 ∧ ∀ m ∈ (leafAt blocks x.2).map, m.rchunk < y.1
  above : ∀ x ∈ xs, ∀ m ∈ (leafAt blocks x.2).map, x.1 ≤ m.rchunk
  leafOk : ∀ x ∈ xs, LeafOk size (leafAt blocks x.2)

/-- A well-formed exception tree, with at most `cap` entries in a node and leaves of a given size. -/
structure View.WellFormed (v : View D) (cap size : Nat) : Prop where
  planted : Planted id v.blocks cap [(0, v.root)] v.levels
  keyed : Keyed v.blocks size v.slots

section
variable {key : Nat → κ} {blocks blocks' : Nat → Block D} {cap n s : Nat} {xs : List (κ × Nat)} {es : List IndexEntry}
  {v : View D}

theorem nodesOf_node (h : blocks s = .node es) : nodesOf key blocks s = es.map fun e => (key e.key, e.sector) := by
  simp [nodesOf, entriesAt, asNode, h]

theorem nodesOf_congr (h : blocks' s = blocks s) : nodesOf key blocks' s = nodesOf key blocks s := by
  simp [nodesOf, entriesAt, h]

private theorem nodesOf_leaf {leaf : Eleaf} (h : blocks s = .leaf leaf) : nodesOf key blocks s = [] := by
  simp [nodesOf, entriesAt, asNode, h]

theorem entriesAt_node (h : blocks s = .node es) : entriesAt blocks s = es := by
  simp [entriesAt, asNode, h]

theorem leafAt_leaf {leaf : Eleaf} (h : blocks s = .leaf leaf) : leafAt blocks s = leaf := by
  simp [leafAt, asLeaf, h]

private theorem nodesOf_update_leaf {leaf : Eleaf} (hs : blocks s = .leaf leaf) (leaf' : Eleaf) :
    nodesOf key (Function.update blocks s (.leaf leaf')) = nodesOf key blocks := by
  funext u
  by_cases hu : u = s
  · subst hu
    rw [nodesOf_leaf hs, nodesOf_leaf (Function.update_self ..)]
  · exact nodesOf_congr (Function.update_of_ne hu _ _)

theorem Planted.ne_nil (h : Planted key blocks cap xs n) {i : Nat} (hi : i < n) {x : κ × Nat}
    (hx : x ∈ down (nodesOf key blocks) i xs) : nodesOf key blocks x.2 ≠ [] := by
  obtain ⟨es, he, hne, -⟩ := h.index i hi x hx
  rw [nodesOf_node he]
  simpa using hne

theorem Planted.leaf_nil (h : Planted key blocks cap xs n) {x : κ × Nat} (hx : x ∈ down (nodesOf key blocks) n xs) :
    nodesOf key blocks x.2 = [] := by
  obtain ⟨leaf, hl⟩ := h.leaf x hx
  exact nodesOf_leaf hl

theorem Planted.distinct (h : Planted key blocks cap xs n) : Distinct (nodesOf key blocks) xs n :=
  distinct_of_leaves (fun _ hi _ hx => h.ne_nil hi hx) (fun _ hx => h.leaf_nil hx) h.nodup

theorem Planted.leafAt (h : Planted key blocks cap xs n) {x : κ × Nat} (hx : x ∈ down (nodesOf key blocks) n xs) :
    blocks x.2 = .leaf (leafAt blocks x.2) := by
  obtain ⟨leaf, hl⟩ := h.leaf x hx
  rw [hl, leafAt_leaf hl]

/-- A tree does not change when its blocks do not. -/
theorem Planted.congr (h : Planted key blocks cap xs n)
    (hb : ∀ s ∈ IndexTree.blocks (nodesOf key blocks) xs n, blocks' s = blocks s) :
    (∀ i ≤ n, down (nodesOf key blocks') i xs = down (nodesOf key blocks) i xs) ∧ Planted key blocks' cap xs n := by
  have hmem : ∀ i ≤ n, ∀ x ∈ down (nodesOf key blocks) i xs, blocks' x.2 = blocks x.2 := fun i hi x hx =>
    hb x.2 (IndexTree.mem_blocks.2 ⟨i, hi, x, hx, rfl⟩)
  have hdown : ∀ i ≤ n, down (nodesOf key blocks') i xs = down (nodesOf key blocks) i xs := fun i hi =>
    down_congr fun j hj x hx => nodesOf_congr (hmem j (by omega) x hx)
  refine ⟨hdown, fun i hi x hx => ?_, fun x hx => ?_, ?_⟩
  · rw [hdown i (by omega)] at hx
    rw [hmem i (by omega) x hx]
    exact h.index i hi x hx
  · rw [hdown n (Nat.le_refl _)] at hx
    rw [hmem n (Nat.le_refl _) x hx]
    exact h.leaf x hx
  · rw [hdown n (Nat.le_refl _)]
    exact h.nodup

/-- A leaf is edited. -/
theorem Planted.edit_leaf (h : Planted key blocks cap xs n) {s : Nat} {leaf : Eleaf} (hs : blocks s = .leaf leaf)
    (leaf' : Eleaf) :
    nodesOf key (Function.update blocks s (.leaf leaf')) = nodesOf key blocks ∧
      Planted key (Function.update blocks s (.leaf leaf')) cap xs n := by
  have hnodes : nodesOf key (Function.update blocks s (.leaf leaf')) = nodesOf key blocks :=
    nodesOf_update_leaf hs leaf'
  refine ⟨hnodes, ?_, ?_, ?_⟩
  · intro i hi x hx
    rw [hnodes] at hx
    obtain ⟨es, he, hes⟩ := h.index i hi x hx
    refine ⟨es, ?_, hes⟩
    rw [Function.update_of_ne, he]
    rintro rfl
    rw [he] at hs
    cases hs
  · intro x hx
    rw [hnodes] at hx
    by_cases hx' : x.2 = s
    · exact ⟨leaf', by rw [hx', Function.update_self]⟩
    · rw [Function.update_of_ne hx']
      exact h.leaf x hx
  · rw [hnodes]
    exact h.nodup

theorem View.mem_addresses : s ∈ v.addresses ↔ ∃ i ≤ v.levels, ∃ x ∈ v.level id i, x.2 = s := IndexTree.mem_blocks

theorem View.slots_mem_addresses {x : Nat × Nat} (hx : x ∈ v.slots) : x.2 ∈ v.addresses :=
  View.mem_addresses.2 ⟨v.levels, Nat.le_refl _, x, hx, rfl⟩

/-! ### Content -/

section
variable {size c : Nat} {xs pre post : List (Nat × Nat)} {x : Nat × Nat}

private theorem Keyed.sublist (h : Keyed blocks size xs) {ys : List (Nat × Nat)} (hs : ys.Sublist xs) :
    Keyed blocks size ys :=
  ⟨h.sorted.sublist hs, fun x hx => h.above x (hs.subset hx), fun x hx => h.leafOk x (hs.subset hx)⟩

theorem Keyed.congr (h : Keyed blocks size xs) (hb : ∀ x ∈ xs, leafAt blocks' x.2 = leafAt blocks x.2) :
    Keyed blocks' size xs := by
  refine ⟨h.sorted.imp_of_mem fun hx _ hxy => ?_, fun x hx => ?_, fun x hx => ?_⟩
  · rwa [hb _ hx]
  · rw [hb x hx]; exact h.above x hx
  · rw [hb x hx]; exact h.leafOk x hx

/-- A slot is replaced by slots between its separator and the next one. -/
theorem Keyed.replace (h : Keyed blocks size (pre ++ x :: post)) {mid : List (Nat × Nat)} (hmid : Keyed blocks' size mid)
    (hsame : ∀ y ∈ pre ++ post, leafAt blocks' y.2 = leafAt blocks y.2) (hlow : ∀ y ∈ mid, x.1 ≤ y.1)
    (hhigh : ∀ y ∈ mid, ∀ z ∈ post, y.1 < z.1 ∧ ∀ m ∈ (leafAt blocks' y.2).map, m.rchunk < z.1) :
    Keyed blocks' size (pre ++ mid ++ post) := by
  have hpre : Keyed blocks' size pre :=
    (h.sublist (List.sublist_append_left _ _)).congr fun y hy => hsame y (by simp [hy])
  have hpost : Keyed blocks' size post :=
    (h.sublist ((List.sublist_cons_self x post).trans (List.sublist_append_right _ _))).congr
      fun y hy => hsame y (by simp [hy])
  obtain ⟨-, -, hcross⟩ := List.pairwise_append.1 h.sorted
  refine ⟨?_, ?_, ?_⟩
  · rw [List.append_assoc, List.pairwise_append, List.pairwise_append]
    refine ⟨hpre.sorted, ⟨hmid.sorted, hpost.sorted, hhigh⟩, fun u hu y hy => ?_⟩
    rw [hsame u (by simp [hu])]
    rcases List.mem_append.1 hy with hy | hy
    · have := hcross u hu x (by simp)
      have hxy := hlow y hy
      exact ⟨by omega, fun m hm => by have := this.2 m hm; omega⟩
    · exact hcross u hu y (by simp [hy])
  all_goals
    intro y hy
    rcases List.mem_append.1 hy with hy | hy
    · rcases List.mem_append.1 hy with hy | hy
      · first | exact hpre.above y hy | exact hpre.leafOk y hy
      · first | exact hmid.above y hy | exact hmid.leafOk y hy
    · first | exact hpost.above y hy | exact hpost.leafOk y hy

@[simp] theorem contentOf_append (blocks : Nat → Block D) (xs ys : List (κ × Nat)) :
    contentOf blocks (xs ++ ys) = contentOf blocks xs ++ contentOf blocks ys := List.flatMap_append

@[simp] theorem contentOf_cons (blocks : Nat → Block D) (x : κ × Nat) (xs : List (κ × Nat)) :
    contentOf blocks (x :: xs) = (leafAt blocks x.2).map ++ contentOf blocks xs := List.flatMap_cons

theorem mem_contentOf {xs : List (κ × Nat)} {m : EtreeMap} :
    m ∈ contentOf blocks xs ↔ ∃ x ∈ xs, m ∈ (leafAt blocks x.2).map := List.mem_flatMap

theorem contentOf_congr {xs : List (κ × Nat)} (h : ∀ x ∈ xs, leafAt blocks' x.2 = leafAt blocks x.2) :
    contentOf blocks' xs = contentOf blocks xs :=
  List.flatMap_congr fun x hx => by rw [h x hx]

theorem Keyed.ascending (h : Keyed blocks size xs) : Ascending (contentOf blocks xs) := by
  induction xs with
  | nil => exact List.Pairwise.nil
  | cons x xs ih =>
    obtain ⟨hx, -⟩ := List.pairwise_cons.1 h.sorted
    rw [contentOf_cons]
    refine List.pairwise_append.2 ⟨(h.leafOk x (by simp)).ascending, ih (h.sublist (List.sublist_cons_self _ _)), ?_⟩
    intro m hm m' hm'
    obtain ⟨y, hy, hm'⟩ := mem_contentOf.1 hm'
    have h1 := (hx y hy).2 m hm
    have h2 := h.above y (by simp [hy]) m' hm'
    omega

/-- The chunks on the left of a slot are below its separator, those on the right are above the next one. -/
theorem Keyed.around (h : Keyed blocks size (pre ++ x :: post)) :
    (∀ m ∈ contentOf blocks pre, m.rchunk < x.1) ∧
      ∀ c, (∀ y ∈ post, c < y.1) → ∀ m ∈ contentOf blocks post, c < m.rchunk := by
  obtain ⟨-, h2, h3⟩ := List.pairwise_append.1 h.sorted
  constructor
  · intro m hm
    obtain ⟨y, hy, hm⟩ := mem_contentOf.1 hm
    exact (h3 y hy x (by simp)).2 m hm
  · intro c hc m hm
    obtain ⟨y, hy, hm⟩ := mem_contentOf.1 hm
    have := h.above y (by simp [hy]) m hm
    have := hc y hy
    omega

/-- The exceptions of a chunk are those in the leaf between whose separators it lies. -/
theorem Keyed.exnsAt (h : Keyed blocks size (pre ++ x :: post)) (hx : x.1 ≤ c) (hc : ∀ y ∈ post, c < y.1) :
    exnsAt (contentOf blocks (pre ++ x :: post)) c = exnsAt (leafAt blocks x.2).map c := by
  obtain ⟨hl, hr⟩ := h.around
  rw [contentOf_append, contentOf_cons, exnsAt_append_of_ne, exnsAt_append_of_ne_right]
  · intro m hm; have := hr c hc m hm; omega
  · intro m hm; have := hl m hm; omega

end

/-! ### Lookup -/

private theorem Planted.monotone (h : Planted key blocks cap xs n) (test : κ → Bool)
    (hm : (down (nodesOf key blocks) n xs).Pairwise fun a b => test b.1 = true → test a.1 = true) {i : Nat}
    (hi : i ≤ n) : (down (nodesOf key blocks) i xs).Pairwise fun a b => test b.1 = true → test a.1 = true := by
  have hs := down_keys_sublist (fun i hi x hx => h.ne_nil hi hx) hi
  have := List.Pairwise.sublist (R := fun a b => test b = true → test a = true) hs (List.pairwise_map.2 hm)
  exact List.pairwise_map.1 this

/-- `probe` follows the last separator that passes the test on every level. -/
theorem probeFrom_trail {r : κ × Nat} {c : Nat} (test : κ → Bool) (htest : ∀ k, test (key k) = decide (k ≤ c))
    (h : Planted key blocks cap [r] n)
    (hm : (down (nodesOf key blocks) n [r]).Pairwise fun a b => test b.1 = true → test a.1 = true)
    {path : List EtreePath} {pre post : List (κ × Nat)} {x : κ × Nat} {m : Nat} (hn : path.length + m = n)
    (ht : Trail (nodesOf key blocks) r path pre x post) (hx : test x.1 = true)
    (hpost : ∀ y ∈ post, test y.1 = false) :
    ∃ path' pre' x' post', probeFrom blocks c m x.2 path = some (path', x'.2) ∧
      Trail (nodesOf key blocks) r path' pre' x' post' ∧ path'.length = n ∧ test x'.1 = true ∧
      ∀ y ∈ post', test y.1 = false := by
  induction m generalizing path pre x post with
  | zero =>
    obtain ⟨leaf, hl⟩ := h.leaf x (by rw [← hn, Nat.add_zero, ht.down_eq]; simp)
    exact ⟨path, pre, x, post, by simp [probeFrom, asLeaf, hl], ht, hn, hx, hpost⟩
  | succ m ih =>
    have hmem : ∀ y ∈ x :: post, nodesOf key blocks y.2 ≠ [] := fun y hy =>
      h.ne_nil (i := path.length) (by omega) (by rw [ht.down_eq]; exact List.mem_append_right _ hy)
    obtain ⟨left, y, right, hk, hlen, hy, hright⟩ := ht.search test hx hpost (hmem x (by simp))
      (fun z hz => hmem z (by simp [hz])) (h.monotone test hm (by omega))
    obtain ⟨es, he, -⟩ := h.index path.length (by omega) x (by rw [ht.down_eq]; simp)
    have hscan : scanEntries es c = left.length + 1 := by
      rw [hlen, nodesOf_node he, ← List.map_tail, List.takeWhile_map, List.length_map]
      simp only [scanEntries, Function.comp_def, htest]
      omega
    have hentry : es[left.length]?.map IndexEntry.sector = some y.2 := by
      have := congrArg (fun l => (l.map Prod.snd)[left.length]?) hk
      simp only [kids_map_snd, nodesOf_node he, List.map_map] at this
      simpa [Function.comp_def] using this
    obtain ⟨e, hget, hsec⟩ := Option.map_eq_some_iff.1 hentry
    obtain ⟨path', pre', x', post', h1, h2⟩ := ih (by simp; omega) (Trail.child ht hk) hy hright
    refine ⟨path', pre', x', post', ?_, h2⟩
    simp only [probeFrom, asNode, he, hscan, Nat.add_sub_cancel, hget]
    rw [hsec]
    exact h1

/-- `probe` reads blocks of the tree only. -/
theorem probeFrom_congr {blocks' : Nat → Block D} {c n : Nat} (x : Nat × Nat) (path : List EtreePath)
    (hb : ∀ i ≤ n, ∀ w ∈ down (nodesOf id blocks) i [x], blocks' w.2 = blocks w.2) :
    probeFrom blocks' c n x.2 path = probeFrom blocks c n x.2 path := by
  induction n generalizing x path with
  | zero => simp only [probeFrom, hb 0 (Nat.le_refl 0) x (by simp [down])]
  | succ n ih =>
    simp only [probeFrom, hb 0 (by omega) x (by simp [down])]
    cases hn : asNode (blocks x.2) with
    | none => rfl
    | some es =>
      dsimp only
      cases he : es[scanEntries es c - 1]? with
      | none => rfl
      | some e =>
        have hmem : e.sector ∈ (kids (nodesOf id blocks) x).map Prod.snd := by
          rw [kids_map_snd]
          simp only [nodesOf, entriesAt, hn, Option.getD_some, List.map_map, Function.comp_def]
          exact List.mem_map_of_mem (List.mem_of_getElem? he)
        obtain ⟨y, hy, hye⟩ := List.mem_map.1 hmem
        dsimp only
        rw [← hye]
        refine ih y _ fun i hi w hw => hb (i + 1) (by omega) w ?_
        rw [down, List.flatMap_singleton]
        exact (down_sublist (List.singleton_sublist.2 hy)).subset hw

/-- `probe` finds the leaf between whose separators the chunk lies. -/
theorem View.WellFormed.probe {cap size : Nat} (h : v.WellFormed cap size) (c : Nat) :
    ∃ path pre x post, probeFrom v.blocks c v.levels v.root [] = some (path, x.2) ∧
      Trail (nodesOf id v.blocks) (0, v.root) path pre x post ∧ path.length = v.levels ∧ x.1 ≤ c ∧
      ∀ y ∈ post, c < y.1 := by
  have hm : (down (nodesOf id v.blocks) v.levels [(0, v.root)]).Pairwise
      fun a b => decide (b.1 ≤ c) = true → decide (a.1 ≤ c) = true := by
    refine h.keyed.sorted.imp fun hxy hb => ?_
    simp only [decide_eq_true_eq] at hb ⊢
    omega
  obtain ⟨path, pre, x, post, h1, h2, h3, h4, h5⟩ := probeFrom_trail (fun k => decide (k ≤ c)) (fun _ => rfl) h.planted
    hm (Nat.zero_add _) Trail.root (by simp) (by simp)
  exact ⟨path, pre, x, post, h1, h2, h3, by simpa using h4, fun y hy => by simpa using h5 y hy⟩

end

end Ddsnap
