import Ddsnap.Lib.IndexTree

/-!
# Visiting the leaves of an index tree with a stack

A traversal keeps the nodes from the root to the node above the leaves, each with the number of its next entry.  It builds
the stack down to the lowest nodes (`stackDown`), visits the leaves of the last one, pops the nodes that it has finished
(`stackPop`), and goes down again through the next entry.  It visits all leaves from left to right
(`visitLeaves_eq`): what is left to visit is always a list that the stack determines (`ahead`).  It holds the blocks of
the stack and the leaf that it visits, and releases them all (`leavesActs_spec`).
-/

namespace IndexTree

variable {κ σ : Type*}

/-! ### The traversal -/

/-- A node and the first nodes of the `n` levels below it are pushed. -/
def stackDown (nodes : σ → List (κ × σ)) : Nat → σ → List (Pos σ) → Option (List (Pos σ))
  | 0, s, path => some (⟨s, 0⟩ :: path)
  | n + 1, s, path =>
    match nodes s with
    | [] => none
    | e :: _ => stackDown nodes n e.2 (⟨s, 1⟩ :: path)

/-- The finished nodes are popped. -/
def stackPop (nodes : σ → List (κ × σ)) : List (Pos σ) → List (Pos σ)
  | [] => []
  | ⟨s, p⟩ :: up => if p = (nodes s).length then stackPop nodes up else ⟨s, p⟩ :: up

/-- The leaves that a traversal visits from a node on, below a stack.  The first argument is the depth of the tree, the
second one bounds the number of its lowest nodes. -/
def visitLeaves (nodes : σ → List (κ × σ)) (levels : Nat) : Nat → σ → List (Pos σ) → Option (List σ)
  | 0, _, _ => none
  | rounds + 1, s, path =>
    match stackDown nodes (levels - path.length - 1) s path with
    | some (⟨t, p⟩ :: up) =>
      match stackPop nodes up with
      | [] => some (((nodes t).drop p).map Prod.snd)
      | ⟨u, q⟩ :: rest =>
        match (nodes u)[q]? with
        | none => none
        | some e =>
          (visitLeaves nodes levels rounds e.2 (⟨u, q + 1⟩ :: rest)).map (((nodes t).drop p).map Prod.snd ++ ·)
    | _ => none

/-! ### What is left to visit -/

/-- The addresses `n` levels below a node. -/
def below (nodes : σ → List (κ × σ)) : Nat → σ → List σ
  | 0, s => [s]
  | n + 1, s => (nodes s).flatMap fun e => below nodes n e.2

/-- The leaves ahead of a stack in a tree of a given depth. -/
def ahead (nodes : σ → List (κ × σ)) (levels : Nat) : List (Pos σ) → List σ
  | [] => []
  | ⟨s, p⟩ :: up => ((nodes s).drop p).flatMap (fun e => below nodes (levels - (up.length + 1)) e.2) ++
      ahead nodes levels up

/-- No node of the `n` levels from a node on is empty. -/
def Filled (nodes : σ → List (κ × σ)) : Nat → σ → Prop
  | 0, _ => True
  | n + 1, s => nodes s ≠ [] ∧ ∀ e ∈ nodes s, Filled nodes n e.2

/-- The entries ahead of a stack are in the nodes, and no node below them is empty. -/
def FilledAhead (nodes : σ → List (κ × σ)) (levels : Nat) : List (Pos σ) → Prop
  | [] => True
  | ⟨s, p⟩ :: up => p ≤ (nodes s).length ∧ (∀ e ∈ nodes s, Filled nodes (levels - (up.length + 1)) e.2) ∧
      FilledAhead nodes levels up

variable {nodes : σ → List (κ × σ)} {levels n : Nat} {s : σ} {path : List (Pos σ)}

theorem down_map_snd (nodes : σ → List (κ × σ)) (n : Nat) (xs : List (κ × σ)) :
    (down nodes n xs).map Prod.snd = xs.flatMap fun x => below nodes n x.2 := by
  induction n generalizing xs with
  | zero => exact List.map_eq_flatMap
  | succ n ih =>
    rw [down, ih, List.flatMap_assoc]
    refine List.flatMap_congr fun x _ => ?_
    have hk := congrArg (List.flatMap (below nodes n)) (kids_map_snd nodes x)
    rwa [List.flatMap_map, List.flatMap_map] at hk

private theorem Filled.below_ne_nil (h : Filled nodes n s) : below nodes n s ≠ [] := by
  induction n generalizing s with
  | zero => exact List.cons_ne_nil _ _
  | succ n ih =>
    obtain ⟨e, es, hes⟩ := List.exists_cons_of_ne_nil h.1
    have he := ih (h.2 e (by simp [hes]))
    simp [below, hes, he]

private theorem filled_of_down {xs : List (κ × σ)} (h : ∀ i < n, ∀ x ∈ down nodes i xs, nodes x.2 ≠ []) :
    ∀ x ∈ xs, Filled nodes n x.2 := by
  induction n generalizing xs with
  | zero => exact fun _ _ => trivial
  | succ n ih =>
    intro x hx
    refine ⟨h 0 (Nat.succ_pos n) x hx, fun e he => ?_⟩
    have hmem : e.2 ∈ (kids nodes x).map Prod.snd := by
      rw [kids_map_snd]
      exact List.mem_map_of_mem he
    obtain ⟨y, hy, hye⟩ := List.mem_map.1 hmem
    rw [← hye]
    exact ih (fun i hi => h (i + 1) (by omega)) y (List.mem_flatMap.2 ⟨x, hx, hy⟩)

/-- Pushing nodes leaves the same leaves ahead. -/
private theorem stackDown_spec (hlev : path.length + n + 1 = levels) (hs : Filled nodes (n + 1) s)
    (hp : FilledAhead nodes levels path) : ∃ t up, stackDown nodes n s path = some (⟨t, 0⟩ :: up) ∧
      up.length + 1 = levels ∧ nodes t ≠ [] ∧ FilledAhead nodes levels up ∧
      below nodes (n + 1) s ++ ahead nodes levels path = (nodes t).map Prod.snd ++ ahead nodes levels up := by
  induction n generalizing s path with
  | zero =>
    refine ⟨s, path, rfl, hlev, hs.1, hp, ?_⟩
    simp only [below, List.map_eq_flatMap]
  | succ n ih =>
    obtain ⟨e, es, hes⟩ := List.exists_cons_of_ne_nil hs.1
    have hheight : levels - (path.length + 1) = n + 1 := by omega
    have hpush : FilledAhead nodes levels (⟨s, 1⟩ :: path) := ⟨by simp [hes], by rw [hheight]; exact hs.2, hp⟩
    obtain ⟨t, up, hd, hl, ht, hup, hahead⟩ := ih (by rw [List.length_cons]; omega) (hs.2 e (by simp [hes])) hpush
    refine ⟨t, up, ?_, hl, ht, hup, ?_⟩
    · unfold stackDown
      rw [hes]
      exact hd
    · rw [← hahead]
      simp only [below, hes, ahead, hheight, List.flatMap_cons, List.drop_succ_cons, List.drop_zero, List.append_assoc]

/-- Popping finished nodes leaves the same leaves ahead. -/
private theorem stackPop_spec (hp : FilledAhead nodes levels path) :
    FilledAhead nodes levels (stackPop nodes path) ∧
      ahead nodes levels (stackPop nodes path) = ahead nodes levels path ∧
      (stackPop nodes path).length ≤ path.length ∧
      ∀ pos rest, stackPop nodes path = pos :: rest → pos.next ≠ (nodes pos.node).length := by
  induction path with
  | nil => exact ⟨trivial, rfl, Nat.le_refl _, by simp [stackPop]⟩
  | cons pos up ih =>
    obtain ⟨s, p⟩ := pos
    unfold stackPop
    split
    · rename_i h
      obtain ⟨h1, h2, h3, h4⟩ := ih hp.2.2
      exact ⟨h1, by rw [h2]; simp [ahead, h], Nat.le_succ_of_le h3, h4⟩
    · rename_i h
      refine ⟨hp, rfl, Nat.le_refl _, ?_⟩
      rintro pos rest he
      cases he
      exact h

/-- The traversal visits the leaves below a node, and then those ahead of the stack. -/
private theorem visitLeaves_spec {rounds : Nat} (hlev : path.length + n + 1 = levels) (hs : Filled nodes (n + 1) s)
    (hp : FilledAhead nodes levels path)
    (hr : (below nodes (n + 1) s ++ ahead nodes levels path).length ≤ rounds) :
    visitLeaves nodes levels rounds s path = some (below nodes (n + 1) s ++ ahead nodes levels path) := by
  induction rounds generalizing n s path with
  | zero =>
    have := hs.below_ne_nil
    simp_all
  | succ rounds ih =>
    obtain ⟨t, up, hd, hl, ht, hup, hahead⟩ := stackDown_spec hlev hs hp
    obtain ⟨hpop, hsame, hshort, hnext⟩ := stackPop_spec hup
    rw [hahead] at hr ⊢
    unfold visitLeaves
    rw [show levels - path.length - 1 = n by omega, hd]
    dsimp only
    cases hpath : stackPop nodes up with
    | nil =>
      rw [hpath] at hsame
      rw [← hsame]
      simp [ahead]
    | cons pos rest =>
      obtain ⟨u, q⟩ := pos
      have hq := hnext _ _ hpath
      rw [hpath] at hsame hpop hshort
      obtain ⟨hle, hfill, hrest⟩ := hpop
      have hlt : q < (nodes u).length := Nat.lt_of_le_of_ne hle hq
      rw [List.length_cons] at hshort
      -- the next entry of the node on top of the stack is below the lowest level
      obtain ⟨m, hm⟩ : ∃ m, levels - (rest.length + 1) = m + 1 := ⟨levels - rest.length - 2, by omega⟩
      have hsplit : ahead nodes levels (⟨u, q⟩ :: rest) =
          below nodes (m + 1) (nodes u)[q].2 ++ ahead nodes levels (⟨u, q + 1⟩ :: rest) := by
        simp only [ahead, hm]
        rw [List.drop_eq_getElem_cons hlt, List.flatMap_cons, List.append_assoc]
      rw [← hsame, hsplit] at hr ⊢
      have hlen : 0 < ((nodes t).map Prod.snd).length := by
        rw [List.length_map]
        exact List.length_pos_of_ne_nil ht
      rw [List.length_append] at hr
      rw [hm] at hfill
      simp only [List.getElem?_eq_getElem hlt, List.drop_zero]
      have hnext : FilledAhead nodes levels (⟨u, q + 1⟩ :: rest) := ⟨hlt, by rw [hm]; exact hfill, hrest⟩
      rw [ih (by rw [List.length_cons]; omega) (hfill _ (List.getElem_mem hlt)) hnext (by omega)]
      rfl

/-- A traversal that starts at the root visits all leaves from left to right. -/
theorem visitLeaves_eq {r : κ × σ} {rounds : Nat} (hlev : 0 < levels)
    (hne : ∀ i < levels, ∀ x ∈ down nodes i [r], nodes x.2 ≠ [])
    (hr : (down nodes levels [r]).length ≤ rounds) :
    visitLeaves nodes levels rounds r.2 [] = some ((down nodes levels [r]).map Prod.snd) := by
  obtain ⟨n, rfl⟩ : ∃ n, levels = n + 1 := ⟨levels - 1, by omega⟩
  have hbelow : (down nodes (n + 1) [r]).map Prod.snd = below nodes (n + 1) r.2 ++ ahead nodes (n + 1) [] := by
    rw [down_map_snd]
    simp [ahead]
  rw [hbelow]
  refine visitLeaves_spec (by simp) (filled_of_down hne r (by simp)) trivial ?_
  rw [← hbelow, List.length_map]
  exact hr

/-! ### What a traversal acquires and releases -/

/-- What a traversal does: it reads a block, which it then holds, it visits a leaf, and it releases a block. -/
inductive Act (σ : Type*) where
  | read (s : σ)
  | visit (s : σ)
  | release (s : σ)

def Act.read? : Act σ → Option σ
  | .read s => some s
  | _ => none

def Act.visit? : Act σ → Option σ
  | .visit s => some s
  | _ => none

def Act.release? : Act σ → Option σ
  | .release s => some s
  | _ => none

/-- The nodes that are pushed are read. -/
def downActs (nodes : σ → List (κ × σ)) : Nat → σ → List (Act σ)
  | 0, s => [.read s]
  | n + 1, s => .read s :: ((nodes s).head?.elim [] fun e => downActs nodes n e.2)

/-- Every leaf is read, visited and released. -/
def leafActs (es : List (κ × σ)) : List (Act σ) := es.flatMap fun e => [.read e.2, .visit e.2, .release e.2]

/-- The nodes that are popped are released. -/
def popActs (nodes : σ → List (κ × σ)) : List (Pos σ) → List (Act σ)
  | [] => []
  | ⟨s, p⟩ :: up => if p = (nodes s).length then .release s :: popActs nodes up else []

/-- What the traversal of `visitLeaves` does. -/
def leavesActs (nodes : σ → List (κ × σ)) (levels : Nat) : Nat → σ → List (Pos σ) → Option (List (Act σ))
  | 0, _, _ => none
  | rounds + 1, s, path =>
    match stackDown nodes (levels - path.length - 1) s path with
    | some (⟨t, p⟩ :: up) =>
      let acts := downActs nodes (levels - path.length - 1) s ++ leafActs ((nodes t).drop p) ++
        .release t :: popActs nodes up
      match stackPop nodes up with
      | [] => some acts
      | ⟨u, q⟩ :: rest =>
        match (nodes u)[q]? with
        | none => none
        | some e => (leavesActs nodes levels rounds e.2 (⟨u, q + 1⟩ :: rest)).map (acts ++ ·)
    | _ => none

private theorem leafActs_spec (es : List (κ × σ)) : (leafActs es).filterMap Act.read? = es.map Prod.snd ∧
    (leafActs es).filterMap Act.visit? = es.map Prod.snd ∧ (leafActs es).filterMap Act.release? = es.map Prod.snd := by
  induction es with
  | nil => exact ⟨rfl, rfl, rfl⟩
  | cons e es ih =>
    obtain ⟨h1, h2, h3⟩ := ih
    unfold leafActs at h1 h2 h3 ⊢
    simp only [List.flatMap_cons, List.filterMap_append, h1, h2, h3]
    exact ⟨rfl, rfl, rfl⟩

private theorem downActs_spec {stack : List (Pos σ)} (h : stackDown nodes n s path = some stack) :
    ((downActs nodes n s).filterMap Act.read?).reverse ++ path.map Pos.node = stack.map Pos.node ∧
      (downActs nodes n s).filterMap Act.visit? = [] ∧ (downActs nodes n s).filterMap Act.release? = [] := by
  induction n generalizing s path with
  | zero =>
    cases h
    exact ⟨rfl, rfl, rfl⟩
  | succ n ih =>
    unfold stackDown at h
    split at h
    · cases h
    · rename_i e es hes
      obtain ⟨h1, h2, h3⟩ := ih h
      simp only [downActs, hes, List.head?_cons, Option.elim_some, Act.read?, Act.visit?, Act.release?,
        List.filterMap_cons, List.reverse_cons, List.append_assoc]
      exact ⟨h1, h2, h3⟩

private theorem popActs_spec (nodes : σ → List (κ × σ)) (path : List (Pos σ)) :
    (popActs nodes path).filterMap Act.release? ++ (stackPop nodes path).map Pos.node = path.map Pos.node ∧
      (popActs nodes path).filterMap Act.read? = [] ∧ (popActs nodes path).filterMap Act.visit? = [] := by
  induction path with
  | nil => exact ⟨rfl, rfl, rfl⟩
  | cons pos up ih =>
    obtain ⟨h1, h2, h3⟩ := ih
    unfold popActs stackPop
    split
    · simp only [Act.read?, Act.visit?, Act.release?, List.filterMap_cons, List.map_cons, List.cons_append, h1, true_and]
      exact ⟨h2, h3⟩
    · exact ⟨rfl, rfl, rfl⟩

/-- One round: what it visits, and that it releases what it has read and what it pops. -/
private theorem round_spec {t : σ} {p : Nat} {up : List (Pos σ)} (h : stackDown nodes n s path = some (⟨t, p⟩ :: up)) :
    let acts := downActs nodes n s ++ leafActs ((nodes t).drop p) ++ .release t :: popActs nodes up
    acts.filterMap Act.visit? = ((nodes t).drop p).map Prod.snd ∧
      (path.map Pos.node ++ acts.filterMap Act.read?).Perm
        (acts.filterMap Act.release? ++ (stackPop nodes up).map Pos.node) := by
  obtain ⟨hd1, hd2, hd3⟩ := downActs_spec h
  obtain ⟨hp1, hp2, hp3⟩ := popActs_spec nodes up
  obtain ⟨hl1, hl2, hl3⟩ := leafActs_spec ((nodes t).drop p)
  simp only [List.filterMap_append, List.filterMap_cons, Act.read?, Act.visit?, Act.release?, hd2, hd3, hp2, hp3, hl1,
    hl2, hl3, List.nil_append, List.append_nil, true_and, List.append_assoc, List.cons_append, hp1]
  -- what is held at the bottom is what was read on the way down and the stack above
  rw [List.map_cons] at hd1
  have hheld : (path.map Pos.node ++ (downActs nodes n s).filterMap Act.read?).Perm (t :: up.map Pos.node) := by
    rw [← hd1]
    exact List.perm_append_comm.trans ((List.reverse_perm _).symm.append_right _)
  rw [← List.append_assoc]
  exact (hheld.append_right _).trans List.perm_append_comm

/-- The traversal visits what `visitLeaves` says, and it releases what the stack holds and what it reads. -/
theorem leavesActs_spec (rounds : Nat) (s : σ) (path : List (Pos σ)) :
    (leavesActs nodes levels rounds s path).map (List.filterMap Act.visit?) = visitLeaves nodes levels rounds s path ∧
      ∀ acts ∈ leavesActs nodes levels rounds s path,
        (path.map Pos.node ++ acts.filterMap Act.read?).Perm (acts.filterMap Act.release?) := by
  induction rounds generalizing s path with
  | zero => exact ⟨rfl, nofun⟩
  | succ rounds ih =>
    unfold leavesActs visitLeaves
    split
    · rename_i t p up hdown
      obtain ⟨hvisit, hheld⟩ := round_spec hdown
      dsimp only at hvisit hheld ⊢
      generalize downActs nodes _ s ++ leafActs ((nodes t).drop p) ++ .release t :: popActs nodes up = acts
        at hvisit hheld ⊢
      split
      · rename_i hpop
        rw [hpop, List.map_nil, List.append_nil] at hheld
        refine ⟨congrArg some hvisit, fun acts' h => ?_⟩
        cases h
        exact hheld
      · rename_i u q rest hpop
        rw [hpop] at hheld
        split
        · exact ⟨rfl, nofun⟩
        · rename_i e he
          obtain ⟨h1, h2⟩ := ih e.2 (⟨u, q + 1⟩ :: rest)
          refine ⟨?_, fun acts' h => ?_⟩
          · rw [← h1, Option.map_map, Option.map_map]
            congr 1
            funext more
            simp only [Function.comp, List.filterMap_append, hvisit]
          · obtain ⟨more, hmore, rfl⟩ := Option.map_eq_some_iff.1 h
            rw [List.filterMap_append, List.filterMap_append, ← List.append_assoc]
            refine (hheld.append_right _).trans ?_
            rw [List.append_assoc]
            exact (h2 more hmore).append_left _
    · exact ⟨rfl, nofun⟩

end IndexTree
