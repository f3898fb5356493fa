import Mathlib.Data.List.Flatten
import Mathlib.Data.List.Nodup
import Mathlib.Logic.Function.Basic

/-!
# Index trees

An index tree of uniform depth, stored as a map from block addresses to lists of entries.  An entry is a key and the
address of a child; the key of the first entry of a node is not part of the tree, so that a node of `n` children carries
`n - 1` separators.  A slot is an address together with the separator on its left, which may be stored several levels
above it.

Reading the slots of one level from left to right (`down`) turns the tree into a list per level.  A `Trail` is the path
from the root to a slot, with the slots on its left and on its right on the level that it reaches.
-/

namespace IndexTree

variable {κ σ : Type*}

/-- The entries of a node as slots: the first one gets the separator on the left of the node. -/
def rekey (k : κ) : List (κ × σ) → List (κ × σ)
  | [] => []
  | e :: es => (k, e.2) :: es

/-- The slots below a slot. -/
def kids (nodes : σ → List (κ × σ)) (x : κ × σ) : List (κ × σ) := rekey x.1 (nodes x.2)

/-- The slots `n` levels below the slots of a list. -/
def down (nodes : σ → List (κ × σ)) : Nat → List (κ × σ) → List (κ × σ)
  | 0, xs => xs
  | n + 1, xs => down nodes n (xs.flatMap (kids nodes))

/-- A node on a path, and the number of the entry after the one that the path takes. -/
structure Pos (σ : Type*) where
  node : σ
  next : Nat
  deriving DecidableEq, Repr

/-- A path from the root `r`, its lowest node first: it ends at the slot `x`, between the slots `pre` and `post` of the
same level. -/
inductive Trail (nodes : σ → List (κ × σ)) (r : κ × σ) :
    List (Pos σ) → List (κ × σ) → κ × σ → List (κ × σ) → Prop where
  | root : Trail nodes r [] [] r []
  | child {path : List (Pos σ)} {pre post left right : List (κ × σ)} {x y : κ × σ} :
      Trail nodes r path pre x post → kids nodes x = left ++ y :: right →
      Trail nodes r (⟨x.2, left.length + 1⟩ :: path) (pre.flatMap (kids nodes) ++ left) y
        (right ++ post.flatMap (kids nodes))

section
variable {nodes nodes' : σ → List (κ × σ)} {r x y : κ × σ} {xs ys pre post : List (κ × σ)} {path : List (Pos σ)}
  {n : Nat}

/-! ### Nodes -/

theorem rekey_append (k : κ) {es : List (κ × σ)} (hne : es ≠ []) (es' : List (κ × σ)) :
    rekey k (es ++ es') = rekey k es ++ es' := by
  cases es with
  | nil => exact absurd rfl hne
  | cons e es => rfl

theorem rekey_of_head {k : κ} {es : List (κ × σ)} (h : ∀ e ∈ es.head?, e.1 = k) : rekey k es = es := by
  cases es with
  | nil => rfl
  | cons e es => simp [rekey, ← h e (by simp)]

@[simp] theorem rekey_map_snd (k : κ) (es : List (κ × σ)) : (rekey k es).map Prod.snd = es.map Prod.snd := by
  cases es <;> rfl

@[simp] theorem rekey_eq_nil {k : κ} {es : List (κ × σ)} : rekey k es = [] ↔ es = [] := by
  cases es <;> simp [rekey]

@[simp] theorem rekey_length (k : κ) (es : List (κ × σ)) : (rekey k es).length = es.length := by
  cases es <;> rfl

/-- A slot behind the first one is inserted into a node. -/
theorem rekey_insertIdx (k : κ) {es left right : List (κ × σ)} (h : rekey k es = left ++ y :: right) (c : κ × σ) :
    rekey k (es.insertIdx (left.length + 1) c) = left ++ y :: c :: right := by
  cases es with
  | nil => simp [rekey] at h
  | cons e es =>
    simp only [rekey, List.insertIdx_succ_cons] at h ⊢
    cases left with
    | nil =>
      obtain ⟨rfl, rfl⟩ := List.cons.inj h
      rfl
    | cons z left =>
      obtain ⟨rfl, rfl⟩ := List.cons.inj h
      simp only [List.cons_append, List.cons.injEq, true_and, List.length_cons]
      clear h
      induction left with
      | nil => rfl
      | cons z left ih => simpa using ih

theorem mem_after {α : Type*} {l l' : List α} {a b c : α} (h : c ∈ l ++ a :: b :: l') : c = b ∨ c ∈ l ++ a :: l' := by
  rw [List.append_cons] at h
  rcases List.mem_append.1 h with h | h
  · exact .inr (by rw [List.append_cons]; exact List.mem_append_left _ h)
  · exact (List.mem_cons.1 h).imp id fun h => by rw [List.append_cons]; exact List.mem_append_right _ h

theorem insertIdx_append_left {α : Type*} {l l' : List α} {p : Nat} (hp : p ≤ l.length) (c : α) :
    (l ++ l').insertIdx p c = l.insertIdx p c ++ l' := by
  induction l generalizing p with
  | nil => rw [List.nil_append, Nat.le_zero.1 hp]; rfl
  | cons a l ih =>
    cases p with
    | zero => rfl
    | succ p => simp [ih (by simpa using hp)]

theorem insertIdx_append_right {α : Type*} {l l' : List α} {p : Nat} (hp : l.length ≤ p) (c : α) :
    (l ++ l').insertIdx p c = l ++ l'.insertIdx (p - l.length) c := by
  induction l generalizing p with
  | nil => rfl
  | cons a l ih =>
    cases p with
    | zero => simp at hp
    | succ p => simp [ih (by simpa using hp)]

/-! ### Levels -/

private theorem kids_congr (h : nodes' x.2 = nodes x.2) : kids nodes' x = kids nodes x := by
  unfold kids; rw [h]

theorem kids_map_snd (nodes : σ → List (κ × σ)) (x : κ × σ) :
    (kids nodes x).map Prod.snd = (nodes x.2).map Prod.snd := rekey_map_snd _ _

theorem kids_eq_nil : kids nodes x = [] ↔ nodes x.2 = [] := rekey_eq_nil

theorem kids_length : (kids nodes x).length = (nodes x.2).length := rekey_length _ _

private theorem kids_cons {e : κ × σ} {es : List (κ × σ)} (h : nodes x.2 = e :: es) : kids nodes x =
    (x.1, e.2) :: es := by
  unfold kids; rw [h]; rfl

theorem down_append (nodes : σ → List (κ × σ)) (n : Nat) (xs ys : List (κ × σ)) :
    down nodes n (xs ++ ys) = down nodes n xs ++ down nodes n ys := by
  induction n generalizing xs ys with
  | zero => rfl
  | succ n ih => simp only [down, List.flatMap_append, ih]

theorem down_succ (nodes : σ → List (κ × σ)) (n : Nat) (xs : List (κ × σ)) :
    down nodes (n + 1) xs = (down nodes n xs).flatMap (kids nodes) := by
  induction n generalizing xs with
  | zero => rfl
  | succ n ih => exact ih (xs.flatMap (kids nodes))

theorem down_add (nodes : σ → List (κ × σ)) (m n : Nat) (xs : List (κ × σ)) :
    down nodes (m + n) xs = down nodes n (down nodes m xs) := by
  induction n with
  | zero => rfl
  | succ n ih => rw [← Nat.add_assoc, down_succ, down_succ, ih]

theorem flatMap_kids_congr (h : ∀ x ∈ xs, nodes' x.2 = nodes x.2) :
    xs.flatMap (kids nodes') = xs.flatMap (kids nodes) :=
  List.flatMap_congr fun x hx => kids_congr (h x hx)

/-- Blocks outside the levels above do not matter. -/
theorem down_congr (h : ∀ i < n, ∀ x ∈ down nodes i xs, nodes' x.2 = nodes x.2) :
    down nodes' n xs = down nodes n xs := by
  induction n with
  | zero => rfl
  | succ n ih =>
    rw [down_succ, down_succ, ih fun i hi => h i (by omega)]
    exact flatMap_kids_congr (h n (by omega))

theorem down_sublist (h : xs.Sublist ys) : (down nodes n xs).Sublist (down nodes n ys) := by
  induction n generalizing xs ys with
  | zero => exact h
  | succ n ih => exact ih (h.flatMap _)

theorem Trail.down_eq (h : Trail nodes r path pre x post) : down nodes path.length [r] = pre ++ x :: post := by
  induction h with
  | root => rfl
  | child _ hk ih =>
    rw [List.length_cons, down_succ, ih]
    simp [hk]

/-- The nodes of a path are nodes of the levels above its end. -/
theorem Trail.mem_path (h : Trail nodes r path pre x post) {pos : Pos σ} (hp : pos ∈ path) :
    ∃ i < path.length, ∃ w ∈ down nodes i [r], w.2 = pos.node := by
  induction h with
  | root => cases hp
  | @child path pre post left right x y ht hk ih =>
    rcases List.mem_cons.1 hp with rfl | hp
    · exact ⟨path.length, by simp, x, by rw [ht.down_eq]; simp, rfl⟩
    · obtain ⟨i, hi, w, hw, he⟩ := ih hp
      exact ⟨i, by simp; omega, w, hw, he⟩

theorem Trail.congr (h : Trail nodes r path pre x post)
    (hn : ∀ i < path.length, ∀ y ∈ down nodes i [r], nodes' y.2 = nodes y.2) : Trail nodes' r path pre x post := by
  induction h with
  | root => exact .root
  | @child path pre post left right x y ht hk ih =>
    have hlevel : ∀ z ∈ pre ++ x :: post, nodes' z.2 = nodes z.2 := by
      intro z hz
      exact hn path.length (by simp) z (ht.down_eq ▸ hz)
    have ht' := ih fun i hi => hn i (by simp; omega)
    have hk' : kids nodes' x = left ++ y :: right := by rw [kids_congr (hlevel x (by simp)), hk]
    have := Trail.child ht' hk'
    rwa [flatMap_kids_congr fun z hz => hlevel z (by simp [hz]),
      flatMap_kids_congr fun z hz => hlevel z (by simp [hz])] at this

/-! ### Addresses -/

/-- The addresses of the first levels of the trees below the slots of a list. -/
def blocks (nodes : σ → List (κ × σ)) (xs : List (κ × σ)) (n : Nat) : List σ :=
  (List.range (n + 1)).flatMap fun i => (down nodes i xs).map Prod.snd

theorem mem_blocks {s : σ} : s ∈ blocks nodes xs n ↔ ∃ i ≤ n, ∃ x ∈ down nodes i xs, x.2 = s := by
  simp only [blocks, List.mem_flatMap, List.mem_range, List.mem_map, Nat.lt_succ_iff]

/-- No address occurs twice in the first levels. -/
abbrev Distinct (nodes : σ → List (κ × σ)) (xs : List (κ × σ)) (n : Nat) : Prop := (blocks nodes xs n).Nodup

theorem distinct_iff : Distinct nodes xs n ↔
    (∀ i ≤ n, ((down nodes i xs).map Prod.snd).Nodup) ∧
      ∀ i j, i < j → j ≤ n → ∀ x ∈ down nodes i xs, ∀ y ∈ down nodes j xs, x.2 ≠ y.2 := by
  unfold Distinct blocks
  rw [List.nodup_flatMap, List.pairwise_iff_getElem]
  constructor
  · rintro ⟨h1, h2⟩
    refine ⟨fun i hi => h1 i (by simp; omega), ?_⟩
    intro i j hij hj x hx y hy he
    have := h2 i j (by simp; omega) (by simp; omega) hij
    simp only [List.getElem_range, Function.onFun, List.disjoint_left, List.mem_map] at this
    exact this ⟨x, hx, rfl⟩ ⟨y, hy, he.symm⟩
  · rintro ⟨h1, h2⟩
    refine ⟨fun i hi => h1 i (by simp at hi; omega), ?_⟩
    intro i j hi hj hij
    simp only [List.getElem_range, Function.onFun, List.disjoint_left, List.mem_map]
    rintro s ⟨x, hx, rfl⟩ ⟨y, hy, he⟩
    exact h2 i j hij (by simp at hj; omega) x hx y hy he.symm

/-- If the leaves have different addresses, and no node is empty, then all addresses are different. -/
theorem distinct_of_leaves (hn : ∀ i < n, ∀ x ∈ down nodes i xs, nodes x.2 ≠ [])
    (hl : ∀ x ∈ down nodes n xs, nodes x.2 = []) (hd : ((down nodes n xs).map Prod.snd).Nodup) :
    Distinct nodes xs n := by
  have hlevel : ∀ j i, i + j = n → ((down nodes i xs).map Prod.snd).Nodup := by
    intro j
    induction j with
    | zero => rintro i rfl; exact hd
    | succ j ih =>
      intro i hi
      have h1 := ih (i + 1) (by omega)
      rw [down_succ, List.map_flatMap, List.nodup_flatMap] at h1
      refine List.pairwise_map.2 (h1.2.imp_of_mem ?_)
      intro x y hx _ hdis he
      refine hn i (by omega) x hx ?_
      have hnil : (kids nodes x).map Prod.snd = [] := by
        refine List.eq_nil_iff_forall_not_mem.2 fun s hs => hdis hs ?_
        show s ∈ (kids nodes y).map Prod.snd
        rw [kids_map_snd] at hs ⊢
        rwa [← he]
      rw [List.map_eq_nil_iff, kids_eq_nil] at hnil
      exact hnil
  -- an address on two levels would have a leaf and a node as its leftmost descendant
  have hapart : ∀ m i j, j + m = n → i < j → ∀ x ∈ down nodes i xs, ∀ y ∈ down nodes j xs, x.2 ≠ y.2 := by
    intro m
    induction m with
    | zero =>
      intro i j hj hij x hx y hy he
      refine hn i (by omega) x hx ?_
      rw [he]
      exact hl y (by rwa [show n = j by omega])
    | succ m ih =>
      intro i j hj hij x hx y hy he
      obtain ⟨e, es, hes⟩ := List.exists_cons_of_ne_nil (hn i (by omega) x hx)
      refine ih (i + 1) (j + 1) (by omega) (by omega) (x.1, e.2) ?_ (y.1, e.2) ?_ rfl
      · rw [down_succ, List.mem_flatMap]
        exact ⟨x, hx, by simp [kids_cons hes]⟩
      · rw [down_succ, List.mem_flatMap]
        exact ⟨y, hy, by simp [kids_cons (he ▸ hes : nodes y.2 = e :: es)]⟩
  exact distinct_iff.2 ⟨fun i hi => hlevel (n - i) i (by omega), fun i j hij hj => hapart (n - j) i j (by omega) hij⟩

/-! ### Separators -/

private theorem kids_keys_sublist (hne : ∀ x ∈ xs, nodes x.2 ≠ []) :
    (xs.map Prod.fst).Sublist ((xs.flatMap (kids nodes)).map Prod.fst) := by
  induction xs with
  | nil => simp
  | cons x xs ih =>
    obtain ⟨e, es, hes⟩ := List.exists_cons_of_ne_nil (hne x (by simp))
    have hk := kids_cons hes
    simp only [List.flatMap_cons, hk, List.map_cons, List.cons_append, List.map_append]
    exact List.Sublist.cons_cons x.1 ((ih fun y hy => hne y (by simp [hy])).trans (List.sublist_append_right _ _))

theorem down_keys_sublist (hne : ∀ i < n, ∀ x ∈ down nodes i xs, nodes x.2 ≠ []) {i : Nat} (hi : i ≤ n) :
    ((down nodes i xs).map Prod.fst).Sublist ((down nodes n xs).map Prod.fst) := by
  induction n with
  | zero => rw [Nat.le_zero.1 hi]
  | succ n ih =>
    rcases Nat.lt_or_eq_of_le hi with hi | rfl
    · rw [down_succ]
      exact (ih (fun j hj => hne j (by omega)) (by omega)).trans (kids_keys_sublist (hne n (by omega)))
    · exact List.Sublist.refl _

/-- One step of a search for the last slot whose separator passes a test. -/
theorem Trail.search (test : κ → Bool) (ht : Trail nodes r path pre x post) (hx : test x.1 = true)
    (hpost : ∀ y ∈ post, test y.1 = false) (hne : nodes x.2 ≠ []) (hne' : ∀ y ∈ post, nodes y.2 ≠ [])
    (hmono : (down nodes (path.length + 1) [r]).Pairwise fun a b => test b.1 = true → test a.1 = true) :
    ∃ left y right, kids nodes x = left ++ y :: right ∧
      left.length = ((nodes x.2).tail.takeWhile fun e => test e.1).length ∧ test y.1 = true ∧
      ∀ z ∈ right ++ post.flatMap (kids nodes), test z.1 = false := by
  obtain ⟨e, es, hes⟩ := List.exists_cons_of_ne_nil hne
  have hk := kids_cons hes
  -- the slots that pass the test come first
  have hsplit := List.takeWhile_append_dropWhile (p := fun e : κ × σ => test e.1) (l := es)
  have hpass : ∀ z ∈ (x.1, e.2) :: es.takeWhile fun e => test e.1, test z.1 = true := by
    intro z hz
    rcases List.mem_cons.1 hz with rfl | hz
    · exact hx
    · exact (List.all_eq_true.1 List.all_takeWhile) z hz
  obtain ⟨left, y, hly⟩ : ∃ left y, (x.1, e.2) :: (es.takeWhile fun e => test e.1) = left ++ [y] :=
    ⟨_, _, (List.dropLast_append_getLast (List.cons_ne_nil _ _)).symm⟩
  have hkids : kids nodes x = left ++ y :: es.dropWhile fun e => test e.1 := by
    rw [hk, List.append_cons, ← hly, List.cons_append, hsplit]
  refine ⟨left, y, es.dropWhile fun e => test e.1, hkids, ?_, hpass y (by simp [hly]), ?_⟩
  · have := congrArg List.length hly
    simp only [List.length_cons, List.length_append, List.length_nil] at this
    rw [hes, List.tail_cons]
    omega
  -- the first slot that fails the test is the next separator in the node or that of a node on the right
  rw [down_succ, ht.down_eq] at hmono
  simp only [List.flatMap_append, List.flatMap_cons, hkids, List.append_assoc, List.cons_append] at hmono
  have hrest := (List.pairwise_cons.1 (List.pairwise_append.1 (List.pairwise_append.1 hmono).2.1).2.1).2
  have hfirst : ∀ z ∈ ((es.dropWhile fun e => test e.1) ++ post.flatMap (kids nodes)).head?, test z.1 = false := by
    intro z hz
    cases hd : es.dropWhile fun e => test e.1 with
    | cons a l =>
      rw [hd] at hz
      simp only [List.cons_append, List.head?_cons, Option.mem_some_iff] at hz
      have := List.head?_dropWhile_not (fun e : κ × σ => test e.1) es
      rw [hd] at this
      simpa [← hz] using this
    | nil =>
      rw [hd, List.nil_append] at hz
      cases post with
      | nil => simp at hz
      | cons p post =>
        obtain ⟨e', es', hes'⟩ := List.exists_cons_of_ne_nil (hne' p (by simp))
        have hk' := kids_cons hes'
        simp only [List.flatMap_cons, hk', List.cons_append, List.head?_cons, Option.mem_some_iff] at hz
        rw [← hz]
        exact hpost p (by simp)
  intro z hz
  cases hl : (es.dropWhile fun e => test e.1) ++ post.flatMap (kids nodes) with
  | nil => rw [hl] at hz; cases hz
  | cons a l =>
    rw [hl] at hz hfirst hrest
    have ha := hfirst a (by simp)
    rcases List.mem_cons.1 hz with rfl | hz
    · exact ha
    · by_contra hne2
      have := (List.pairwise_cons.1 hrest).1 z hz (by simpa using hne2)
      rw [ha] at this
      cases this

end

end IndexTree
