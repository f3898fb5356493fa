import Mathlib.Data.List.InsertIdx
import Ddsnap.Levels
import Ddsnap.Space

/-!
# Insertion into the exception tree

`add_exception_to_tree` adds one exception to the content of the tree and changes nothing else, whether it finds room in
the leaf, splits the leaf, splits index nodes up to some level, or puts a new root on top.

The loop over the path carries a pending child: a slot that belongs behind the slot that the path leads to, with a tree of
its own below it.  When a node is split its upper half becomes the pending child of the next level, and the slots of that
level with the pending child among them are the ones that the finished tree will have.
-/

namespace Ddsnap

open IndexTree

variable {D : Type}

/-! ### What an insertion leaves alone -/

/-- The superblock with another root. -/
def Sb.reroot (sb : Sb D) (root levels : Nat) : Sb D :=
  { sb with image := { sb.image with etreeRoot := root, etreeLevels := levels } }

/-- A step that changes the content of the blocks of a list, of new blocks and of blocks below `R`, and writes nothing. -/
structure Grown (R : Nat) (changed : List Nat) (sb sb' : Sb D) : Prop where
  core : sb'.core = (sb.reroot sb'.image.etreeRoot sb'.image.etreeLevels).core
  levels : sb.image.etreeLevels ≤ sb'.image.etreeLevels
  mem : ∀ s, R ≤ s → sb.Taken s → s ∉ changed → sb'.mem s = sb.mem s
  dev : sb'.dev = sb.dev
  taken : ∀ chunk, sb.Taken chunk → sb'.Taken chunk
  reserved : Reserved R sb → Reserved R sb'
  listed : ∀ s, sb'.Listed s → sb.Listed s ∨ s < R ∨ s ∈ changed ∨ (¬sb.Taken s ∧ sb'.Taken s)
  sync : ∀ s, sb.SyncAt s → sb'.SyncAt s

theorem Grown.placed {R s : Nat} {changed : List Nat} {sb sb' : Sb D} (hg : Grown R changed sb sb')
    (h : sb.Placed R s) : sb'.Placed R s :=
  ⟨h.1, hg.taken s h.2.1, hg.sync s h.2.2⟩

/-- The tree of the server stands in taken blocks above `R` whose content is committed or will be. -/
structure Rooted (R : Nat) (sb : Sb D) : Prop where
  reserved : Reserved R sb
  planted : Planted id sb.mem sb.allocPerNode [(0, sb.image.etreeRoot)] sb.image.etreeLevels
  placed : ∀ s ∈ sb.view.addresses, sb.Placed R s

section
variable {R s : Nat} {changed changed' : List Nat} {sb sb1 sb' : Sb D}

theorem Grown.trans (h1 : Grown R changed sb sb1) (h2 : Grown R changed' sb1 sb') :
    Grown R (changed ++ changed') sb sb' where
  core := by
    have : (sb1.reroot sb'.image.etreeRoot sb'.image.etreeLevels).core =
        { sb1.core with etreeRoot := sb'.image.etreeRoot, etreeLevels := sb'.image.etreeLevels } := rfl
    rw [h2.core, this, h1.core]
    rfl
  levels := Nat.le_trans h1.levels h2.levels
  mem s hs ht hn := by
    simp only [List.mem_append, not_or] at hn
    rw [h2.mem s hs (h1.taken s ht) hn.2, h1.mem s hs ht hn.1]
  dev := h2.dev.trans h1.dev
  taken c hc := h2.taken c (h1.taken c hc)
  reserved hr := h2.reserved (h1.reserved hr)
  listed s hs := by
    rcases h2.listed s hs with h | h | h | ⟨h, h'⟩
    · rcases h1.listed s h with h | h | h | ⟨h, h'⟩
      · exact .inl h
      · exact .inr (.inl h)
      · exact .inr (.inr (.inl (by simp [h])))
      · exact .inr (.inr (.inr ⟨h, h2.taken s h'⟩))
    · exact .inr (.inl h)
    · exact .inr (.inr (.inl (by simp [h])))
    · exact .inr (.inr (.inr ⟨fun ht => h (h1.taken s ht), h'⟩))
  sync s hs := h2.sync s (h1.sync s hs)

/-- New blocks need not be listed among the changed ones. -/
theorem Grown.mono (h : Grown R changed sb sb') (hc : ∀ s ∈ changed, s ∈ changed' ∨ (¬sb.Taken s ∧ sb'.Taken s)) :
    Grown R changed' sb sb' where
  core := h.core
  levels := h.levels
  mem s hs ht hn := h.mem s hs ht fun hm => (hc s hm).elim hn fun h => h.1 ht
  dev := h.dev
  taken := h.taken
  reserved := h.reserved
  listed s hs := by
    rcases h.listed s hs with h | h | h | h
    · exact .inl h
    · exact .inr (.inl h)
    · exact .inr (.inr ((hc s h).imp id id))
    · exact .inr (.inr (.inr h))
  sync := h.sync

private theorem grown_quiet (hq : Quiet R [] sb sb') (hd : sb'.dev = sb.dev) : Grown R [] sb sb' where
  core := by
    have h1 : sb'.image.etreeRoot = sb.image.etreeRoot := congrArg Core.etreeRoot hq.core
    have h2 : sb'.image.etreeLevels = sb.image.etreeLevels := congrArg Core.etreeLevels hq.core
    rw [h1, h2]
    exact hq.core
  levels := Nat.le_of_eq (congrArg Core.etreeLevels hq.core).symm
  mem s hs _ _ := hq.mem s hs
  dev := hd
  taken c hc := hq.taken c (by simp) hc
  reserved hr := hq.reserved (by simp) hr
  listed s hs := (hq.listed s hs).imp id .inl
  sync := hq.sync

private theorem taken_put (hr : Reserved R sb) (hs : R ≤ s) (b : Block D) (chunk : Nat) :
    (sb.put s b).Taken chunk ↔ sb.Taken chunk := by
  obtain ⟨-, -, hdef, hdal, -⟩ := sb.put_fixed s b
  unfold Sb.Taken
  rw [core_bitmapSize (sb.put_core s b), isDeferredAlloc_congr hdef hdal]
  refine and_congr_right fun hc => ?_
  rw [marked_put, if_neg]
  have : sb.bitmapBlock sb.image.metadata.bitmapBase chunk < R := (hr.bitmapBlock_lt hc).2
  omega

theorem grown_put (hr : Reserved R sb) (hs : R ≤ s) (b : Block D) : Grown R [s] sb (sb.put s b) where
  core := by
    rw [sb.put_core s b, (sb.put_fixed s b).2.2.2.2.1]
    rfl
  levels := Nat.le_of_eq (congrArg Core.etreeLevels (sb.put_core s b)).symm
  mem u _ _ hu := by rw [Sb.put_mem, Function.update_of_ne (by simpa using hu)]
  dev := (sb.put_fixed s b).1
  taken c hc := (taken_put hr hs b c).2 hc
  reserved _ := by
    obtain ⟨-, -, hdef, hdal, himg, -⟩ := sb.put_fixed s b
    refine hr.congr (sb.put_core s b) (fun c hc => (taken_put hr hs b c).2 (hr.taken c hc)) (fun as => ?_) fun c hc => ?_
    · have := hr.lastAlloc as
      unfold Sb.asi at this ⊢
      rwa [himg, core_combined (sb.put_core s b)]
    · rw [isDeferredAlloc_congr hdef hdal] at hc
      exact hr.deferred c hc
  listed u hu := (Sb.put_listed hu).imp id fun h => .inr (.inl (by simp [h]))
  sync u hu := hu.put s b

theorem Grown.allocPerNode (h : Grown R changed sb sb') : sb'.allocPerNode = sb.allocPerNode :=
  congrArg Core.allocPerNode h.core

theorem Grown.snapmask (h : Grown R changed sb sb') : sb'.snapmask = sb.snapmask := congrArg Core.snapmask h.core

theorem Grown.allocsize (h : Grown R changed sb sb') : sb'.allocsize = sb.allocsize := by
  have : sb'.allocsize = (sb.reroot _ _).allocsize := core_allocsize h.core
  exact this

theorem Grown.combined (h : Grown R changed sb sb') : sb'.combined = sb.combined := by
  have : sb'.combined = (sb.reroot _ _).combined := core_combined h.core
  exact this

/-- What `new_node` and `new_leaf` do: a block that was not taken is. -/
theorem newBlock_spec (hr : Reserved R sb) {t : Nat} (h : allocChunk sb .metadata = some (t, sb1)) (b : Block D) :
    R ≤ t ∧ ¬sb.Taken t ∧ (sb1.put t b).Taken t ∧ Grown R [] sb (sb1.put t b) ∧
      (sb1.put t b).image.etreeRoot = sb.image.etreeRoot ∧
      (sb1.put t b).image.etreeLevels = sb.image.etreeLevels := by
  obtain ⟨hq, hd, -, -, -, ht⟩ := allocChunk_spec hr h
  obtain ⟨hfresh, hR⟩ := allocChunk_fresh hr h (.inl rfl)
  have hr1 := hq.reserved (by simp) hr
  have htaken := (taken_put hr1 hR b t).2 (ht (.inl rfl))
  refine ⟨hR, hfresh, htaken, ((grown_quiet hq hd).trans (grown_put hr1 hR b)).mono ?_, ?_, ?_⟩
  · intro s hs
    rw [List.nil_append, List.mem_singleton] at hs
    subst hs
    exact .inr ⟨hfresh, htaken⟩
  · rw [(sb1.put_fixed t b).2.2.2.2.1]
    exact congrArg Core.etreeRoot hq.core
  · rw [(sb1.put_fixed t b).2.2.2.2.1]
    exact congrArg Core.etreeLevels hq.core

/-! ### Nodes -/

/-- A full node is split: both halves together are the node with the child inserted. -/
private theorem splitNode_spec {t p : Nat} {es : List IndexEntry} (child : IndexEntry) (he : sb.mem s = .node es)
    (hst : s ≠ t) (hp : 1 ≤ p) (hlen : p ≤ es.length) (h2 : 2 ≤ es.length) :
    ∃ lower upper, (splitNode sb s t p child).mem =
        Function.update (Function.update sb.mem s (.node lower)) t (.node upper) ∧
      lower ≠ [] ∧ upper ≠ [] ∧ lower ++ upper = es.insertIdx p child ∧
      (∀ e ∈ upper.head?, e.key = ((es[es.length / 2]?).map IndexEntry.key).getD 0) ∧
      lower.length ≤ es.length ∧ upper.length ≤ es.length := by
  have hes : entriesAt sb.mem s = es := entriesAt_node he
  have hsplit := List.take_append_drop (es.length / 2) es
  have hhead : (es.drop (es.length / 2)).head? = es[es.length / 2]? := by rw [List.head?_drop]
  unfold splitNode insertChild
  rw [hes]
  dsimp only
  by_cases hhalf : es.length / 2 < p
  · rw [if_pos hhalf]
    refine ⟨es.take (es.length / 2), (es.drop (es.length / 2)).insertIdx (p - es.length / 2) child, ?_, ?_, ?_, ?_, ?_,
      ?_, ?_⟩
    · rw [Sb.put_mem, Sb.put_mem]
    · refine List.ne_nil_of_length_pos ?_
      rw [List.length_take]; omega
    · refine List.ne_nil_of_length_pos ?_
      rw [List.length_insertIdx, List.length_drop]
      split <;> omega
    · have hl : (es.take (es.length / 2)).length = es.length / 2 := by rw [List.length_take]; omega
      conv => rhs; rw [← hsplit, insertIdx_append_right (by rw [hl]; omega), hl]
    · intro e hm
      obtain ⟨q, hq⟩ : ∃ q, p - es.length / 2 = q + 1 := ⟨p - es.length / 2 - 1, by omega⟩
      rw [hq] at hm
      rw [← hhead]
      cases hd : es.drop (es.length / 2) with
      | nil =>
        have := congrArg List.length hd
        rw [List.length_drop, List.length_nil] at this
        omega
      | cons a l => rw [hd] at hm; simp_all
    · rw [List.length_take]; omega
    · rw [List.length_insertIdx, List.length_drop]
      split <;> omega
  · rw [if_neg hhalf]
    refine ⟨(es.take (es.length / 2)).insertIdx p child, es.drop (es.length / 2), ?_, ?_, ?_, ?_, ?_, ?_, ?_⟩
    · rw [Sb.put_mem, Sb.put_mem, Function.update_comm hst]
    · refine List.ne_nil_of_length_pos ?_
      rw [List.length_insertIdx, List.length_take]
      split <;> omega
    · refine List.ne_nil_of_length_pos ?_
      rw [List.length_drop]; omega
    · conv => rhs; rw [← hsplit, insertIdx_append_left (by rw [List.length_take]; omega)]
    · intro e hm
      rw [hhead] at hm
      rw [Option.mem_def.1 hm]
      rfl
    · rw [List.length_insertIdx, List.length_take]
      split <;> omega
    · rw [List.length_drop]; omega

private theorem grown_splitNode (hr : Reserved R sb) {t : Nat} (hs : R ≤ s) (ht : R ≤ t) (p : Nat)
    (child : IndexEntry) :
    Grown R [s, t] sb (splitNode sb s t p child) ∧ (splitNode sb s t p child).image = sb.image ∧
      (splitNode sb s t p child).SyncAt t := by
  unfold splitNode
  dsimp only
  split
  · have h1 := grown_put hr hs (.node ((entriesAt sb.mem s).take ((entriesAt sb.mem s).length / 2)))
    refine ⟨h1.trans (grown_put (h1.reserved hr) ht _), ?_, Sb.put_sync _ _ _⟩
    rw [(Sb.put_fixed _ _ _).2.2.2.2.1, (Sb.put_fixed _ _ _).2.2.2.2.1]
  · have h1 := grown_put hr ht (.node ((entriesAt sb.mem s).drop ((entriesAt sb.mem s).length / 2)))
    refine ⟨(h1.trans (grown_put (h1.reserved hr) hs _)).mono fun u hu => .inl ?_, ?_,
      (Sb.put_sync _ _ _).put _ _⟩
    · simp only [List.singleton_append, List.mem_cons, List.not_mem_nil, or_false] at hu ⊢
      exact hu.symm
    · rw [(Sb.put_fixed _ _ _).2.2.2.2.1, (Sb.put_fixed _ _ _).2.2.2.2.1]

/-! ### Slots on both sides of a path -/

section
variable {κ : Type*} {key : Nat → κ} {blocks blocks' : Nat → Block D} {cap n : Nat} {r x y z : κ × Nat}
  {path : List EtreePath} {pre post left right F : List (κ × Nat)}

private theorem planted_of_trail (ht : Trail (nodesOf key blocks) r path pre x post)
    (hup : ∀ i ≤ path.length, ∀ w ∈ down (nodesOf key blocks) i [r],
      ∃ es, blocks w.2 = .node es ∧ es ≠ [] ∧ es.length ≤ cap)
    (hsub : ((pre ++ x :: post).flatMap (kids (nodesOf key blocks))).Sublist F) (hF : Planted key blocks cap F n) :
    Planted key blocks cap [r] (path.length + 1 + n) := by
  have hlow : ∀ i, (down (nodesOf key blocks) (path.length + 1 + i) [r]).Sublist (down (nodesOf key blocks) i F) := by
    intro i
    rw [down_add, down_succ, ht.down_eq]
    exact down_sublist hsub
  refine ⟨fun i hi w hw => ?_, fun w hw => hF.leaf w ((hlow n).subset hw), hF.nodup.sublist ((hlow n).map _)⟩
  by_cases hle : i ≤ path.length
  · exact hup i hle w hw
  · obtain ⟨j, rfl⟩ : ∃ j, i = path.length + 1 + j := ⟨i - (path.length + 1), by omega⟩
    exact hF.index j (by omega) w ((hlow j).subset hw)

private theorem node_not_mem_below (hF : Planted key blocks cap F n) (hx : x ∈ F)
    (hk : x ∈ kids (nodesOf key blocks) z) : z.2 ∉ IndexTree.blocks (nodesOf key blocks) F n := by
  intro hm
  obtain ⟨i, hi, w, hw, he⟩ := IndexTree.mem_blocks.1 hm
  have hsec : x.2 ∈ (kids (nodesOf key blocks) w).map Prod.snd := by
    rw [kids_map_snd, he, ← kids_map_snd]
    exact List.mem_map_of_mem hk
  obtain ⟨x', hx', hxe⟩ := List.mem_map.1 hsec
  rcases Nat.lt_or_eq_of_le hi with hlt | rfl
  · refine (distinct_iff.1 hF.distinct).2 0 (i + 1) (by omega) (by omega) x hx x' ?_ hxe.symm
    rw [down_succ]
    exact List.mem_flatMap.2 ⟨w, hw, hx'⟩
  · rw [kids_eq_nil.2 (hF.leaf_nil hw)] at hx'
    cases hx'

/-- The node `z` at the end of a path is edited in a tree, and a pending slot `y` is to follow its child `x`.  The edited
node keeps some of its slots and of the pending one; no other block of the tree or of the pending tree changes. -/
structure Graft (key : Nat → κ) (blocks blocks' : Nat → Block D) (cap n : Nat) (r : κ × Nat) (path : List EtreePath)
    (pre post left right : List (κ × Nat)) (x y z : κ × Nat) : Prop where
  trail : Trail (nodesOf key blocks) r path pre z post
  kids : kids (nodesOf key blocks) z = left ++ x :: right
  tree : Planted key blocks cap [r] (path.length + 1 + n)
  forest : Planted key blocks cap (pre.flatMap (IndexTree.kids (nodesOf key blocks)) ++ left ++ x :: y ::
    (right ++ post.flatMap (IndexTree.kids (nodesOf key blocks)))) n
  agree : ∀ s, s ≠ z.2 → s ∈ IndexTree.blocks (nodesOf key blocks) [r] (path.length + 1 + n) ∨
    s ∈ IndexTree.blocks (nodesOf key blocks) [y] n → blocks' s = blocks s
  node : ∃ es, blocks' z.2 = .node es ∧ es ≠ [] ∧ es.length ≤ cap
  kept : (IndexTree.kids (nodesOf key blocks') z).Sublist (left ++ x :: y :: right)

namespace Graft
variable (h : Graft key blocks blocks' cap n r path pre post left right x y z)
include h

private theorem next_level : down (nodesOf key blocks) (path.length + 1) [r] =
    pre.flatMap (IndexTree.kids (nodesOf key blocks)) ++ left ++ x ::
      (right ++ post.flatMap (IndexTree.kids (nodesOf key blocks))) := by
  rw [down_succ, h.trail.down_eq]
  simp [h.kids]

/-- The blocks of the trees below are those of the old tree and of the pending one. -/
private theorem below {s : Nat} (hs : s ∈ IndexTree.blocks (nodesOf key blocks)
    (pre.flatMap (IndexTree.kids (nodesOf key blocks)) ++ left ++ x :: y ::
      (right ++ post.flatMap (IndexTree.kids (nodesOf key blocks)))) n) :
    s ≠ z.2 ∧ (s ∈ IndexTree.blocks (nodesOf key blocks) [r] (path.length + 1 + n) ∨
      s ∈ IndexTree.blocks (nodesOf key blocks) [y] n) := by
  refine ⟨?_, ?_⟩
  · rintro rfl
    exact node_not_mem_below h.forest (x := x) (by simp) (by rw [h.kids]; simp) hs
  obtain ⟨i, hi, w, hw, rfl⟩ := IndexTree.mem_blocks.1 hs
  rw [List.append_cons] at hw
  change w ∈ down _ i (_ ++ ([y] ++ _)) at hw
  rw [down_append, down_append _ _ [y], List.mem_append, List.mem_append] at hw
  rcases hw with hw | hw | hw
  · refine .inl (IndexTree.mem_blocks.2 ⟨path.length + 1 + i, by omega, w, ?_, rfl⟩)
    rw [down_add, h.next_level, List.append_cons, down_append]
    exact List.mem_append_left _ hw
  · exact .inr (IndexTree.mem_blocks.2 ⟨i, hi, w, hw, rfl⟩)
  · refine .inl (IndexTree.mem_blocks.2 ⟨path.length + 1 + i, by omega, w, ?_, rfl⟩)
    rw [down_add, h.next_level, List.append_cons, down_append]
    exact List.mem_append_right _ hw

private theorem forest_after :
    (∀ i ≤ n, down (nodesOf key blocks') i (pre.flatMap (IndexTree.kids (nodesOf key blocks)) ++ left ++ x :: y ::
        (right ++ post.flatMap (IndexTree.kids (nodesOf key blocks)))) =
      down (nodesOf key blocks) i (pre.flatMap (IndexTree.kids (nodesOf key blocks)) ++ left ++ x :: y ::
        (right ++ post.flatMap (IndexTree.kids (nodesOf key blocks))))) ∧
      Planted key blocks' cap (pre.flatMap (IndexTree.kids (nodesOf key blocks)) ++ left ++ x :: y ::
        (right ++ post.flatMap (IndexTree.kids (nodesOf key blocks)))) n :=
  h.forest.congr fun s hs => h.agree s (h.below hs).1 (h.below hs).2

private theorem above {i : Nat} (hi : i ≤ path.length) {w : κ × Nat} (hw : w ∈ down (nodesOf key blocks) i [r])
    (hne : w.2 ≠ z.2) : blocks' w.2 = blocks w.2 :=
  h.agree w.2 hne (.inl (IndexTree.mem_blocks.2 ⟨i, by omega, w, hw, rfl⟩))

private theorem above_ne {i : Nat} (hi : i < path.length) {w : κ × Nat} (hw : w ∈ down (nodesOf key blocks) i [r]) :
    w.2 ≠ z.2 :=
  (distinct_iff.1 h.tree.distinct).2 i path.length hi (by omega) w hw z (by rw [h.trail.down_eq]; simp)

private theorem side_ne {w : κ × Nat} (hw : w ∈ pre ++ post) : w.2 ≠ z.2 := by
  have hn := (distinct_iff.1 h.tree.distinct).1 path.length (by omega)
  rw [h.trail.down_eq, List.map_append, List.map_cons, List.nodup_middle, List.nodup_cons] at hn
  intro he
  refine hn.1 ?_
  rw [← he, ← List.map_append]
  exact List.mem_map_of_mem hw

private theorem trail_after : Trail (nodesOf key blocks') r path pre z post :=
  h.trail.congr fun _ hi _ hw => nodesOf_congr (h.above (Nat.le_of_lt hi) hw (h.above_ne hi hw))

private theorem side_after : pre.flatMap (IndexTree.kids (nodesOf key blocks')) = pre.flatMap
    (IndexTree.kids (nodesOf key blocks)) ∧
    post.flatMap (IndexTree.kids (nodesOf key blocks')) = post.flatMap (IndexTree.kids (nodesOf key blocks)) := by
  have hl := h.trail.down_eq
  exact ⟨flatMap_kids_congr fun w hw => nodesOf_congr (h.above (Nat.le_refl _) (by rw [hl]; simp [hw])
      (h.side_ne (by simp [hw]))),
    flatMap_kids_congr fun w hw => nodesOf_congr (h.above (Nat.le_refl _) (by rw [hl]; simp [hw])
      (h.side_ne (by simp [hw])))⟩

private theorem above_after {i : Nat} (hi : i ≤ path.length) :
    down (nodesOf key blocks') i [r] = down (nodesOf key blocks) i [r] :=
  down_congr fun j hj w hw => nodesOf_congr (h.above (by omega) hw (h.above_ne (by omega) hw))

private theorem node_after {i : Nat} (hi : i ≤ path.length) {w : κ × Nat} (hw : w ∈ down (nodesOf key blocks) i [r]) :
    ∃ es, blocks' w.2 = .node es ∧ es ≠ [] ∧ es.length ≤ cap := by
  by_cases hz : w.2 = z.2
  · rw [hz]; exact h.node
  · rw [h.above hi hw hz]
    exact h.tree.index i (by omega) w hw

private theorem kept_below : ((pre ++ z :: post).flatMap (IndexTree.kids (nodesOf key blocks'))).Sublist
    (pre.flatMap (IndexTree.kids (nodesOf key blocks)) ++ left ++ x :: y ::
      (right ++ post.flatMap (IndexTree.kids (nodesOf key blocks)))) := by
  obtain ⟨h1, h2⟩ := h.side_after
  rw [List.flatMap_append, List.flatMap_cons, h1, h2]
  have : pre.flatMap (IndexTree.kids (nodesOf key blocks)) ++ left ++ x :: y ::
      (right ++ post.flatMap (IndexTree.kids (nodesOf key blocks))) =
    pre.flatMap (IndexTree.kids (nodesOf key blocks)) ++ ((left ++ x :: y :: right) ++
      post.flatMap (IndexTree.kids (nodesOf key blocks))) := by simp
  rw [this]
  exact (List.Sublist.refl _).append (h.kept.append (List.Sublist.refl _))

private theorem tree_after : Planted key blocks' cap [r] (path.length + 1 + n) :=
  planted_of_trail h.trail_after (fun i hi w hw => h.node_after hi (by rwa [h.above_after hi] at hw)) h.kept_below
    h.forest_after.2

private theorem blocks_after {s : Nat} (hs : s ∈ IndexTree.blocks (nodesOf key blocks') [r] (path.length + 1 + n)) :
    s ∈ IndexTree.blocks (nodesOf key blocks) [r] (path.length + 1 + n) ∨
      s ∈ IndexTree.blocks (nodesOf key blocks) [y] n := by
  obtain ⟨i, hi, w, hw, rfl⟩ := IndexTree.mem_blocks.1 hs
  by_cases hle : i ≤ path.length
  · rw [h.above_after hle] at hw
    exact .inl (IndexTree.mem_blocks.2 ⟨i, hi, w, hw, rfl⟩)
  · obtain ⟨j, rfl⟩ : ∃ j, i = path.length + 1 + j := ⟨i - (path.length + 1), by omega⟩
    rw [down_add, down_succ, h.trail_after.down_eq] at hw
    have hw' := (down_sublist h.kept_below).subset hw
    rw [h.forest_after.1 j (by omega)] at hw'
    exact (h.below (IndexTree.mem_blocks.2 ⟨j, by omega, w, hw', rfl⟩)).2

end Graft

end

/-! ### The loop over the path -/

theorem grown_reroot (R : Nat) (sb : Sb D) (root : Nat) {levels : Nat} (h : sb.image.etreeLevels ≤ levels) :
    Grown R [] sb (sb.reroot root levels) where
  core := rfl
  levels := h
  mem _ _ _ _ := rfl
  dev := rfl
  taken _ h := h
  reserved hr := ⟨hr.taken, hr.metaArea, hr.snapArea, hr.apart, hr.base, hr.lastAlloc, hr.deferred⟩
  listed _ h := .inl h
  sync _ h := h

private theorem grown_setSbDirty (R : Nat) (sb : Sb D) : Grown R [] sb (setSbDirty sb) :=
  grown_quiet (quiet_setSbDirty R sb) rfl

/-- A new root `t` above the old one and a pending child. -/
structure RootAdded (R : Nat) (sb sb' : Sb D) (child : IndexEntry) (t : Nat) : Prop where
  grown : Grown R [] sb sb'
  root : sb'.image.etreeRoot = t
  levels : sb'.image.etreeLevels = sb.image.etreeLevels + 1
  fresh : ¬sb.Taken t
  placed : sb'.Placed R t
  node : sb'.mem t = .node [⟨0, sb.image.etreeRoot⟩, child]
  below : ∀ i ≤ sb.image.etreeLevels, down (nodesOf id sb'.mem) (i + 1) [(0, t)] =
    down (nodesOf id sb.mem) i [(0, sb.image.etreeRoot), (child.key, child.sector)]
  forest : Planted id sb'.mem sb.allocPerNode [(0, sb.image.etreeRoot), (child.key, child.sector)] sb.image.etreeLevels

private theorem addRoot_eq {child : IndexEntry} (h : addRoot sb child = (true, sb')) :
    ∃ t sb0, allocChunk sb .metadata = some (t, sb0) ∧
      sb' = setSbDirty (((sb0.put t (.node [])).put t
        (.node [⟨0, (sb0.put t (.node [])).image.etreeRoot⟩, child])).reroot t
          (((sb0.put t (.node [])).put t
            (.node [⟨0, (sb0.put t (.node [])).image.etreeRoot⟩, child])).image.etreeLevels + 1)) := by
  unfold addRoot newNode at h
  cases ha : allocChunk sb .metadata with
  | none => rw [ha] at h; cases h
  | some a =>
    rw [ha] at h
    simp only [Option.map_some, Prod.mk.injEq, true_and] at h
    exact ⟨a.1, a.2, rfl, h.symm⟩

private theorem mem_blocks_pair {nodes : Nat → List (Nat × Nat)} {x y : Nat × Nat} {n s : Nat} :
    s ∈ IndexTree.blocks nodes [x, y] n ↔ s ∈ IndexTree.blocks nodes [x] n ∨ s ∈ IndexTree.blocks nodes [y] n := by
  have hsplit : ∀ i, down nodes i [x, y] = down nodes i [x] ++ down nodes i [y] := fun i => down_append nodes i [x] [y]
  simp only [IndexTree.mem_blocks, hsplit, List.mem_append, or_and_right, exists_or, and_or_left]

private theorem addRoot_added {child : IndexEntry} {t : Nat} {sb0 : Sb D} (hroot : Rooted R sb)
    (hF : Planted id sb.mem sb.allocPerNode [(0, sb.image.etreeRoot), (child.key, child.sector)] sb.image.etreeLevels)
    (hpend : ∀ s ∈ IndexTree.blocks (nodesOf id sb.mem) [(child.key, child.sector)] sb.image.etreeLevels, sb.Placed R s)
    (ha : allocChunk sb .metadata = some (t, sb0))
    (hsb' : sb' = setSbDirty (((sb0.put t (.node [])).put t
        (.node [⟨0, (sb0.put t (.node [])).image.etreeRoot⟩, child])).reroot t
          (((sb0.put t (.node [])).put t
            (.node [⟨0, (sb0.put t (.node [])).image.etreeRoot⟩, child])).image.etreeLevels + 1))) :
    RootAdded R sb sb' child t := by
  obtain ⟨hR, hfresh, htaken, hg, hr1, hl1⟩ := newBlock_spec hroot.reserved ha (.node [])
  generalize sb0.put t (.node []) = sb1 at hsb' htaken hg hr1 hl1
  have hg2 := grown_put (hg.reserved hroot.reserved) hR (.node [⟨0, sb1.image.etreeRoot⟩, child])
  have himg := (sb1.put_fixed t (.node [⟨0, sb1.image.etreeRoot⟩, child])).2.2.2.2.1
  have hsync := sb1.put_sync t (.node [⟨0, sb1.image.etreeRoot⟩, child])
  have hmem2 := sb1.put_mem t (.node [⟨0, sb1.image.etreeRoot⟩, child])
  have htaken2 := hg2.taken t htaken
  generalize sb1.put t (.node [⟨0, sb1.image.etreeRoot⟩, child]) = sb2 at hsb' hg2 himg hsync hmem2 htaken2
  have hlev : sb2.image.etreeLevels = sb.image.etreeLevels := by rw [himg, hl1]
  have hg3 := (grown_reroot R sb2 t (Nat.le_succ sb2.image.etreeLevels)).trans (grown_setSbDirty R _)
  rw [← hsb', List.append_nil] at hg3
  have hgall : Grown R [] sb sb' := ((hg.trans hg2).trans hg3).mono fun s hs => by
    simp only [List.nil_append, List.append_nil, List.mem_singleton] at hs
    subst hs
    exact .inr ⟨hfresh, hg3.taken s htaken2⟩
  have hnode : sb'.mem t = .node [⟨0, sb.image.etreeRoot⟩, child] := by
    rw [hsb', ← hr1]
    show sb2.mem t = _
    rw [hmem2, Function.update_self]
  have hkids : [((0 : Nat), t)].flatMap (kids (nodesOf id sb'.mem)) =
      [(0, sb.image.etreeRoot), (child.key, child.sector)] := by
    simp [kids, nodesOf_node hnode, rekey]
  have hplace : ∀ s ∈ IndexTree.blocks (nodesOf id sb.mem) [(0, sb.image.etreeRoot), (child.key, child.sector)]
      sb.image.etreeLevels, sb.Placed R s := fun s hs =>
    (mem_blocks_pair.1 hs).elim (hroot.placed s) (hpend s)
  obtain ⟨hdown, hF'⟩ : (∀ i ≤ sb.image.etreeLevels, down (nodesOf id sb'.mem) i _ = _) ∧ Planted id sb'.mem _ _ _ :=
    hF.congr fun s hs => hgall.mem s (hplace s hs).1 (hplace s hs).2.1 (by simp)
  refine ⟨hgall, by rw [hsb']; rfl, ?_, hfresh, ⟨hR, hg3.taken t htaken2, hg3.sync t hsync⟩, hnode, fun i hi => ?_, hF'⟩
  · rw [hsb', ← hlev]; rfl
  · rw [down, hkids, hdown i hi]

/-- The blocks of the tree with the new root. -/
private theorem RootAdded.mem_addresses {child : IndexEntry} {t : Nat} (h : RootAdded R sb sb' child t) {s : Nat} :
    s ∈ sb'.view.addresses ↔ s ∈ sb.view.addresses ∨
      s ∈ IndexTree.blocks (nodesOf id sb.mem) [(child.key, child.sector)] sb.image.etreeLevels ∨ s = t := by
  have hpair : s ∈ IndexTree.blocks (nodesOf id sb.mem) [(0, sb.image.etreeRoot), (child.key, child.sector)]
      sb.image.etreeLevels ↔ _ := mem_blocks_pair
  rw [← or_assoc]
  refine Iff.trans ?_ (or_congr_left hpair)
  show s ∈ IndexTree.blocks (nodesOf id sb'.mem) [(0, sb'.image.etreeRoot)] sb'.image.etreeLevels ↔ _
  rw [h.root, h.levels, IndexTree.mem_blocks, IndexTree.mem_blocks]
  constructor
  · rintro ⟨i, hi, w, hw, rfl⟩
    cases i with
    | zero => exact .inr (by rw [show w = (0, t) by simpa [down] using hw])
    | succ i =>
      rw [h.below i (by omega)] at hw
      exact .inl ⟨i, by omega, w, hw, rfl⟩
  · rintro (⟨i, hi, w, hw, rfl⟩ | rfl)
    · exact ⟨i + 1, by omega, w, by rw [h.below i hi]; exact hw, rfl⟩
    · exact ⟨0, Nat.zero_le _, (0, s), by simp [down], rfl⟩

/-- A new root is put above the old one and a pending child. -/
private theorem addRoot_spec {child : IndexEntry} (hroot : Rooted R sb) (hcap : 2 ≤ sb.allocPerNode)
    (hF : Planted id sb.mem sb.allocPerNode [(0, sb.image.etreeRoot), (child.key, child.sector)] sb.image.etreeLevels)
    (hpend : ∀ s ∈ IndexTree.blocks (nodesOf id sb.mem) [(child.key, child.sector)] sb.image.etreeLevels, sb.Placed R s)
    (h : addRoot sb child = (true, sb')) :
    Rooted R sb' ∧ Grown R [] sb sb' ∧
      sb'.view.slots = down (nodesOf id sb.mem) sb.image.etreeLevels
        [(0, sb.image.etreeRoot), (child.key, child.sector)] ∧
      ∀ s ∈ sb'.view.addresses, s ∈ sb.view.addresses ∨
        s ∈ IndexTree.blocks (nodesOf id sb.mem) [(child.key, child.sector)] sb.image.etreeLevels ∨ ¬sb.Taken s := by
  obtain ⟨t, sb0, ha, hsb'⟩ := addRoot_eq h
  have hadd := addRoot_added hroot hF hpend ha hsb'
  have hg := hadd.grown
  refine ⟨⟨hg.reserved hroot.reserved, ?_, fun s hs => ?_⟩, hg, ?_, fun s hs => ?_⟩
  · rw [hadd.root, hadd.levels, hg.allocPerNode, Nat.add_comm, ← Nat.zero_add 1]
    have htr : Trail (nodesOf id sb'.mem) (0, t) [] [] (0, t) [] := Trail.root
    refine planted_of_trail htr ?_ ?_ hadd.forest
    · intro i hi w hw
      rw [show i = 0 from Nat.le_zero.1 hi] at hw
      rw [show w = (0, t) by simpa [down] using hw]
      exact ⟨_, hadd.node, by simp, by simpa using hcap⟩
    · have := hadd.below 0 (Nat.zero_le _)
      simp only [down] at this
      rw [List.nil_append, this]
  · rcases hadd.mem_addresses.1 hs with hs | hs | rfl
    · exact hg.placed (hroot.placed s hs)
    · exact hg.placed (hpend s hs)
    · exact hadd.placed
  · show down (nodesOf id sb'.mem) sb'.image.etreeLevels [(0, sb'.image.etreeRoot)] = _
    rw [hadd.root, hadd.levels, hadd.below _ (Nat.le_refl _)]
  · rcases hadd.mem_addresses.1 hs with hs | hs | rfl
    · exact .inl hs
    · exact .inr (.inl hs)
    · exact .inr (.inr hadd.fresh)

section
variable {n : Nat} {child : IndexEntry} {path : List EtreePath} {pre post left right : List (Nat × Nat)} {x z : Nat × Nat}

/-- What the two cases of a node have in common: the node at the end of the path was edited, and nothing else. -/
private theorem Graft.rooted (hroot : Rooted R sb)
    (hpend : ∀ s ∈ IndexTree.blocks (nodesOf id sb.mem) [(child.key, child.sector)] n, sb.Placed R s)
    (hlev : path.length + 1 + n = sb.image.etreeLevels)
    (hg : Grown R changed sb sb') (hr' : sb'.image.etreeRoot = sb.image.etreeRoot)
    (hl' : sb'.image.etreeLevels = sb.image.etreeLevels)
    (h : Graft id sb.mem sb'.mem sb.allocPerNode n (0, sb.image.etreeRoot) path pre post left right x
      (child.key, child.sector) z) :
    Rooted R sb' ∧ ∀ s ∈ sb'.view.addresses, s ∈ sb.view.addresses ∨
      s ∈ IndexTree.blocks (nodesOf id sb.mem) [(child.key, child.sector)] n := by
  have haddr : ∀ s ∈ sb'.view.addresses, s ∈ sb.view.addresses ∨
      s ∈ IndexTree.blocks (nodesOf id sb.mem) [(child.key, child.sector)] n := by
    intro s hs
    have hs' : s ∈ IndexTree.blocks (nodesOf id sb'.mem) [(0, sb.image.etreeRoot)] (path.length + 1 + n) := by
      rw [hlev, ← hr', ← hl']; exact hs
    have := h.blocks_after hs'
    rwa [hlev] at this
  refine ⟨⟨hg.reserved hroot.reserved, ?_, fun s hs => ?_⟩, haddr⟩
  · rw [hr', hl', hg.allocPerNode, ← hlev]
    exact h.tree_after
  · rcases haddr s hs with hs | hs
    · exact hg.placed (hroot.placed s hs)
    · exact hg.placed (hpend s hs)

/-- The edit of a node with room for the pending child. -/
private theorem insertChild_graft {es : List IndexEntry}
    (htree : Planted id sb.mem sb.allocPerNode [(0, sb.image.etreeRoot)] (path.length + 1 + n))
    (ht : Trail (nodesOf id sb.mem) (0, sb.image.etreeRoot) path pre z post)
    (hk : kids (nodesOf id sb.mem) z = left ++ x :: right)
    (hF : Planted id sb.mem sb.allocPerNode (pre.flatMap (kids (nodesOf id sb.mem)) ++ left ++ x ::
      (child.key, child.sector) :: (right ++ post.flatMap (kids (nodesOf id sb.mem)))) n)
    (hes : sb.mem z.2 = .node es) (hroom : es.length < sb.allocPerNode)
    (hsb' : sb' = sb.put z.2 (.node (insertChild es (left.length + 1) child))) :
    Graft id sb.mem sb'.mem sb.allocPerNode n (0, sb.image.etreeRoot) path pre post left right x
        (child.key, child.sector) z ∧
      kids (nodesOf id sb'.mem) z = left ++ x :: (child.key, child.sector) :: right := by
  have hnode : sb'.mem z.2 = .node (es.insertIdx (left.length + 1) child) := by
    rw [hsb', Sb.put_mem, Function.update_self]; rfl
  have hkids : kids (nodesOf id sb'.mem) z = left ++ x :: (child.key, child.sector) :: right := by
    unfold kids at hk ⊢
    rw [nodesOf_node hes] at hk
    rw [nodesOf_node hnode]
    have := rekey_insertIdx z.1 hk (child.key, child.sector)
    rwa [List.map_insertIdx]
  refine ⟨⟨ht, hk, htree, hF, fun s hs _ => ?_, ⟨_, hnode, ?_, ?_⟩, by rw [hkids]⟩, hkids⟩
  · rw [hsb', Sb.put_mem, Function.update_of_ne hs]
  · intro hnil
    have : kids (nodesOf id sb'.mem) z = [] := kids_eq_nil.2 (by rw [nodesOf_node hnode, hnil]; rfl)
    rw [hkids] at this
    simp at this
  · rw [List.length_insertIdx]
    split <;> omega

private theorem Rooted.node_placed (hroot : Rooted R sb)
    (ht : Trail (nodesOf id sb.mem) (0, sb.image.etreeRoot) path pre z post)
    (hlev : path.length ≤ sb.image.etreeLevels) : sb.Placed R z.2 :=
  hroot.placed z.2 (View.mem_addresses.2 ⟨path.length, hlev, z, by
    show z ∈ down (nodesOf id sb.mem) path.length [(0, sb.image.etreeRoot)]
    rw [ht.down_eq]; simp, rfl⟩)

/-- A child is pending behind the slot `x` of the node `z`, where a path leads to: it is placed, and the level of `x`
with it is a forest. -/
structure PendingAt (R : Nat) (sb : Sb D) (n : Nat) (child : IndexEntry) (path : List EtreePath)
    (pre post left right : List (Nat × Nat)) (x z : Nat × Nat) : Prop where
  trail : Trail (nodesOf id sb.mem) (0, sb.image.etreeRoot) path pre z post
  slots : kids (nodesOf id sb.mem) z = left ++ x :: right
  levels : path.length + 1 + n = sb.image.etreeLevels
  forest : Planted id sb.mem sb.allocPerNode (pre.flatMap (kids (nodesOf id sb.mem)) ++ left ++ x ::
    (child.key, child.sector) :: (right ++ post.flatMap (kids (nodesOf id sb.mem)))) n
  placed : ∀ s ∈ IndexTree.blocks (nodesOf id sb.mem) [(child.key, child.sector)] n, sb.Placed R s

/-- A pending child finds room in the node above it. -/
private theorem insertChild_spec {es : List IndexEntry} (hroot : Rooted R sb)
    (hp : PendingAt R sb n child path pre post left right x z)
    (hes : sb.mem z.2 = .node es) (hroom : es.length < sb.allocPerNode)
    (hsb' : sb' = sb.put z.2 (.node (insertChild es (left.length + 1) child))) :
    Rooted R sb' ∧ Grown R [z.2] sb sb' ∧
      sb'.view.slots = down (nodesOf id sb.mem) n (pre.flatMap (kids (nodesOf id sb.mem)) ++ left ++ x ::
        (child.key, child.sector) :: (right ++ post.flatMap (kids (nodesOf id sb.mem)))) ∧
      ∀ s ∈ sb'.view.addresses, s ∈ sb.view.addresses ∨
        s ∈ IndexTree.blocks (nodesOf id sb.mem) [(child.key, child.sector)] n := by
  obtain ⟨ht, hk, hlev, hF, hpend⟩ := hp
  have hg : Grown R [z.2] sb sb' := hsb' ▸ grown_put hroot.reserved (hroot.node_placed ht (by omega)).1 _
  have himg : sb'.image = sb.image := by rw [hsb']; exact (sb.put_fixed _ _).2.2.2.2.1
  obtain ⟨hgraft, hkids⟩ := insertChild_graft (hlev ▸ hroot.planted) ht hk hF hes hroom hsb'
  obtain ⟨hroot', haddr⟩ := hgraft.rooted hroot hpend hlev hg (by rw [himg]) (by rw [himg])
  refine ⟨hroot', hg, ?_, haddr⟩
  obtain ⟨hpre, hpost⟩ := hgraft.side_after
  show down (nodesOf id sb'.mem) sb'.image.etreeLevels [(0, sb'.image.etreeRoot)] = _
  rw [himg, ← hlev, down_add, down_succ, hgraft.trail_after.down_eq, List.flatMap_append, List.flatMap_cons, hpre, hpost,
    hkids]
  have := hgraft.forest_after.1 n (Nat.le_refl _)
  simpa using this

/-- What the split of a full node leaves in the node `z` and in the new node `t`. -/
structure NodeSplit (R : Nat) (sb sb' : Sb D) (n : Nat) (child : IndexEntry) (path : List EtreePath)
    (pre post left right : List (Nat × Nat)) (x z y : Nat × Nat) : Prop where
  grown : Grown R [z.2] sb sb'
  root : sb'.image.etreeRoot = sb.image.etreeRoot
  levels : sb'.image.etreeLevels = sb.image.etreeLevels
  fresh : ¬sb.Taken y.2
  placed : sb'.Placed R y.2
  node : ∃ es, sb'.mem y.2 = .node es ∧ es ≠ [] ∧ es.length ≤ sb.allocPerNode
  cut : kids (nodesOf id sb'.mem) z ++ kids (nodesOf id sb'.mem) y = left ++ x :: (child.key, child.sector) :: right
  graft : Graft id sb.mem sb'.mem sb.allocPerNode n (0, sb.image.etreeRoot) path pre post left right x
    (child.key, child.sector) z

private theorem splitChild_graft {t : Nat} {es : List IndexEntry} (hroot : Rooted R sb)
    (hp : PendingAt R sb n child path pre post left right x z)
    (hes : sb.mem z.2 = .node es) (h2 : 2 ≤ es.length) (hcap : es.length ≤ sb.allocPerNode)
    (hnew : allocChunk sb .metadata = some (t, sb1))
    (hsb' : sb' = splitNode (sb1.put t (.node [])) z.2 t (left.length + 1) child) :
    NodeSplit R sb sb' n child path pre post left right x z (((es[es.length / 2]?).map IndexEntry.key).getD 0, t) := by
  obtain ⟨ht, hk, hlev, hF, hpend⟩ := hp
  obtain ⟨hR, hfresh, htaken, hg1, hr1, hl1⟩ := newBlock_spec hroot.reserved hnew (.node [])
  generalize sb1.put t (.node []) = sb2 at hsb' htaken hg1 hr1 hl1
  obtain ⟨hzR, hzt, -⟩ := hroot.node_placed ht (by omega)
  have hne : z.2 ≠ t := fun he => hfresh (he ▸ hzt)
  have hes2 : sb2.mem z.2 = .node es := by rw [hg1.mem z.2 hzR hzt (by simp), hes]
  have hkl : es.length = left.length + 1 + right.length := by
    have := congrArg List.length hk
    rw [kids_length, nodesOf_node hes] at this
    simp at this
    omega
  obtain ⟨lower, upper, hmem, hlow, hupp, hcat, hhead, hllen, hulen⟩ := splitNode_spec
    (p := left.length + 1) child hes2 hne (by omega) (by omega) h2
  obtain ⟨hg2, himg, hsyt⟩ := grown_splitNode (hg1.reserved hroot.reserved) hzR hR (left.length + 1) child
  rw [← hsb'] at hmem hg2 himg hsyt
  have htaken' := hg2.taken t htaken
  have hg : Grown R [z.2] sb sb' := (hg1.trans hg2).mono fun s hs => by
    simp only [List.nil_append, List.mem_cons, List.not_mem_nil, or_false] at hs ⊢
    refine hs.imp id fun he => ?_
    rw [he]
    exact ⟨hfresh, htaken'⟩
  have hr' : sb'.image.etreeRoot = sb.image.etreeRoot := by rw [himg, hr1]
  have hl' : sb'.image.etreeLevels = sb.image.etreeLevels := by rw [himg, hl1]
  have hlower : sb'.mem z.2 = .node lower := by rw [hmem, Function.update_of_ne hne, Function.update_self]
  have hupper : sb'.mem t = .node upper := by rw [hmem, Function.update_self]
  generalize hnk : ((es[es.length / 2]?).map IndexEntry.key).getD 0 = newkey at *
  -- the slots of both halves are the slots of the node and the pending child
  have hcut : kids (nodesOf id sb'.mem) z ++ kids (nodesOf id sb'.mem) (newkey, t) =
      left ++ x :: (child.key, child.sector) :: right := by
    unfold kids at hk ⊢
    rw [nodesOf_node hes] at hk
    dsimp only
    rw [nodesOf_node hlower, nodesOf_node hupper]
    have hu : rekey newkey (upper.map fun e => (id e.key, e.sector)) = upper.map fun e => (id e.key, e.sector) := by
      refine rekey_of_head fun e he => ?_
      rw [List.head?_map, Option.mem_def, Option.map_eq_some_iff] at he
      obtain ⟨a, ha, rfl⟩ := he
      exact hhead a ha
    rw [hu, ← rekey_append _ (by simpa using hlow), ← List.map_append, hcat, List.map_insertIdx]
    exact rekey_insertIdx z.1 hk (child.key, child.sector)
  refine ⟨hg, hr', hl', hfresh, ⟨hR, htaken', hsyt⟩, ⟨upper, hupper, hupp, by omega⟩, hcut, ht, hk,
    hlev ▸ hroot.planted, hF, fun s hs hmem' => ?_, ⟨lower, hlower, hlow, by omega⟩, ?_⟩
  · rcases hmem' with hm | hm
    · rw [hlev] at hm
      exact hg.mem s (hroot.placed s hm).1 (hroot.placed s hm).2.1 (by simpa using hs)
    · exact hg.mem s (hpend s hm).1 (hpend s hm).2.1 (by simpa using hs)
  · rw [← hcut]
    exact List.sublist_append_left _ _

/-- A full node is split, and its upper half becomes the pending child of the level above. -/
private theorem splitChild_spec {t : Nat} {es : List IndexEntry} (hroot : Rooted R sb)
    (hp : PendingAt R sb n child path pre post left right x z)
    (hes : sb.mem z.2 = .node es) (h2 : 2 ≤ es.length) (hcap : es.length ≤ sb.allocPerNode)
    (hnew : allocChunk sb .metadata = some (t, sb1))
    (hsb' : sb' = splitNode (sb1.put t (.node [])) z.2 t (left.length + 1) child) :
    Rooted R sb' ∧ Grown R [z.2] sb sb' ∧ ¬sb.Taken t ∧ sb'.image.etreeRoot = sb.image.etreeRoot ∧
      sb'.image.etreeLevels = sb.image.etreeLevels ∧
      Trail (nodesOf id sb'.mem) (0, sb.image.etreeRoot) path pre z post ∧
      Planted id sb'.mem sb.allocPerNode
        (pre ++ z :: (((es[es.length / 2]?).map IndexEntry.key).getD 0, t) :: post) (n + 1) ∧
      down (nodesOf id sb'.mem) (n + 1) (pre ++ z :: (((es[es.length / 2]?).map IndexEntry.key).getD 0, t) :: post) =
        down (nodesOf id sb.mem) n (pre.flatMap (kids (nodesOf id sb.mem)) ++ left ++ x ::
          (child.key, child.sector) :: (right ++ post.flatMap (kids (nodesOf id sb.mem)))) ∧
      (∀ s ∈ IndexTree.blocks (nodesOf id sb'.mem) [(((es[es.length / 2]?).map IndexEntry.key).getD 0, t)] (n + 1),
        sb'.Placed R s ∧ (s ∈ sb.view.addresses ∨
          s ∈ IndexTree.blocks (nodesOf id sb.mem) [(child.key, child.sector)] n ∨ ¬sb.Taken s)) ∧
      ∀ s ∈ sb'.view.addresses, s ∈ sb.view.addresses ∨
        s ∈ IndexTree.blocks (nodesOf id sb.mem) [(child.key, child.sector)] n := by
  obtain ⟨hg, hr', hl', hfresh, hplaced, hupper, hcut, hgraft⟩ := splitChild_graft hroot hp hes h2 hcap hnew hsb'
  obtain ⟨ht, hk, hlev, hF, hpend⟩ := hp
  generalize ((es[es.length / 2]?).map IndexEntry.key).getD 0 = newkey at *
  obtain ⟨hroot', haddr⟩ := hgraft.rooted hroot hpend hlev hg hr' hl'
  obtain ⟨hpre, hpost⟩ := hgraft.side_after
  obtain ⟨hdown, hF'⟩ := hgraft.forest_after
  have hstep : (pre ++ z :: (newkey, t) :: post).flatMap (kids (nodesOf id sb'.mem)) =
      pre.flatMap (kids (nodesOf id sb.mem)) ++ left ++ x :: (child.key, child.sector) ::
        (right ++ post.flatMap (kids (nodesOf id sb.mem))) := by
    rw [List.flatMap_append, List.flatMap_cons, List.flatMap_cons, hpre, hpost,
      ← List.append_assoc (kids _ z) (kids _ (newkey, t)), hcut]
    simp
  have hplant : Planted id sb'.mem sb.allocPerNode (pre ++ z :: (newkey, t) :: post) (n + 1) := by
    refine ⟨fun i hi w hw => ?_, fun w hw => ?_, ?_⟩
    · cases i with
      | zero =>
        rcases mem_after hw with rfl | hw'
        · exact hupper
        · refine hgraft.node_after (Nat.le_refl _) ?_
          rw [ht.down_eq]; exact hw'
      | succ i =>
        rw [down, hstep] at hw
        exact hF'.index i (by omega) w hw
    · rw [down, hstep] at hw
      exact hF'.leaf w hw
    · rw [down, hstep]
      exact hF'.nodup
  refine ⟨hroot', hg, hfresh, hr', hl', hgraft.trail_after, hplant, ?_, fun s hs => ?_, haddr⟩
  · rw [down, hstep, hdown n (Nat.le_refl _)]
  · obtain ⟨i, hi, w, hw, rfl⟩ := IndexTree.mem_blocks.1 hs
    cases i with
    | zero =>
      rw [show w = (newkey, t) by simpa [down] using hw]
      exact ⟨hplaced, .inr (.inr hfresh)⟩
    | succ i =>
      have hsub : ([(newkey, t)].flatMap (kids (nodesOf id sb'.mem))).Sublist
          (pre.flatMap (kids (nodesOf id sb.mem)) ++ left ++ x :: (child.key, child.sector) ::
            (right ++ post.flatMap (kids (nodesOf id sb.mem)))) := by
        rw [← hstep]
        refine List.Sublist.flatMap ?_ _
        simp
      have hw' := (down_sublist hsub).subset (by simpa [down] using hw)
      rw [hdown i (by omega)] at hw'
      have hold := (hgraft.below (IndexTree.mem_blocks.2 ⟨i, by omega, w, hw', rfl⟩)).2
      rw [hlev] at hold
      refine ⟨?_, hold.imp id .inl⟩
      rcases hold with hs | hs
      · exact hg.placed (hroot.placed _ hs)
      · exact hg.placed (hpend _ hs)

/-- The loop of `add_exception_to_tree` over the path puts a pending child behind the slot that the path leads to. -/
theorem addChild_spec (hroot : Rooted R sb) (hcap : 2 ≤ sb.allocPerNode)
    (ht : Trail (nodesOf id sb.mem) (0, sb.image.etreeRoot) path pre x post)
    (hlev : path.length + n = sb.image.etreeLevels)
    (hF : Planted id sb.mem sb.allocPerNode (pre ++ x :: (child.key, child.sector) :: post) n)
    (hpend : ∀ s ∈ IndexTree.blocks (nodesOf id sb.mem) [(child.key, child.sector)] n, sb.Placed R s)
    (h : addChild sb path child = (true, sb')) :
    Rooted R sb' ∧ Grown R (path.map Pos.node) sb sb' ∧
      sb'.view.slots = down (nodesOf id sb.mem) n (pre ++ x :: (child.key, child.sector) :: post) ∧
      ∀ s ∈ sb'.view.addresses, s ∈ sb.view.addresses ∨
        s ∈ IndexTree.blocks (nodesOf id sb.mem) [(child.key, child.sector)] n ∨ ¬sb.Taken s := by
  -- induction on the path: the pending child of a level is the upper half of a node of the level below
  induction path generalizing sb child pre x post n with
  | nil =>
    cases ht with
    | root =>
      rw [List.length_nil, Nat.zero_add] at hlev
      subst hlev
      exact addRoot_spec hroot hcap hF hpend h
  | cons pos up ih =>
    cases ht with
    | @child _ pre0 post0 left right z _ ht hk =>
      rw [List.length_cons] at hlev
      obtain ⟨es, hes, -, hlen⟩ := hroot.planted.index up.length (by omega) z (by rw [ht.down_eq]; simp)
      have hp : PendingAt R sb n child up pre0 post0 left right x z := ⟨ht, hk, by omega, hF, hpend⟩
      unfold addChild at h
      rw [entriesAt_node hes] at h
      dsimp only at h
      by_cases hroom : es.length < sb.allocPerNode
      · rw [if_pos hroom] at h
        obtain ⟨h1, h2, h3, h4⟩ := insertChild_spec hroot hp hes hroom (Prod.mk.inj h).2.symm
        exact ⟨h1, h2.mono fun s hs => .inl (by simp_all), h3, fun s hs => (h4 s hs).imp id .inl⟩
      · rw [if_neg hroom] at h
        unfold newNode at h
        cases ha : allocChunk sb .metadata with
        | none => rw [ha] at h; cases h
        | some a =>
          obtain ⟨t, sb1⟩ := a
          rw [ha] at h
          simp only [Option.map_some] at h
          obtain ⟨hroot2, hg, hfresh, hr2, hl2, ht2, hF2, hslots, hpend2, haddr⟩ := splitChild_spec hroot hp hes
            (by omega) hlen ha rfl
          have hcap2 := hg.allocPerNode
          obtain ⟨h1, h2, h3, h4⟩ := ih hroot2 (by rw [hcap2]; exact hcap) (hr2 ▸ ht2) (by rw [hl2]; omega)
            (by rw [hcap2]; exact hF2) (fun s hs => (hpend2 s hs).1) h
          refine ⟨h1, (hg.trans h2).mono fun s hs => .inl ?_, h3.trans hslots, fun s hs => ?_⟩
          · simpa using hs
          · rcases h4 s hs with hs | hs | hs
            · exact (haddr s hs).imp id .inl
            · exact (hpend2 s hs).2
            · exact .inr (.inr fun hts => hs (hg.taken s hts))

end

end

end Ddsnap
