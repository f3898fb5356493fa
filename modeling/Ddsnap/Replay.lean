import Mathlib.Data.List.Nodup
import Ddsnap.JournalLog
import Ddsnap.Lib.Rotation

/-!
# What a replay reads

`replay_journal` scans the ring from its first to its last cell.  The commits it finds are the newest transactions of
the log, read from the middle (`scanCommits_logged`); the one gap in their sequence numbers is after the newest
transaction (`gaps_rotation`), and the loops that start after the gap visit them oldest first (`visitTo_rotation`).
-/

namespace Ddsnap

open RingLog (Rotation)

variable {D : Type}

/-! ### The commit blocks of a log -/

/-- The commit blocks of a piece of the log that starts at index `off`, with their log indices. -/
def logCommits (off : Nat) (s : List (Block D)) : List (Nat × CommitBlock) :=
  (s.zipIdx off).filterMap fun p => (asCommit p.1).map fun c => (p.2, c)

/-- The transactions of a history with the log indices of their commit blocks. -/
def commitIndices : Nat → List (Txn D) → List (Nat × Txn D)
  | _, [] => []
  | off, t :: h => (off + t.data.length, t) :: commitIndices (off + t.data.length + 1) h

/-- No data block starts with the commit magic. -/
def NoMagic (bs : List (Block D)) : Prop := ∀ b ∈ bs, asCommit b = none

/-- No data block of the transaction starts with the commit magic. -/
def Txn.NoMagic (t : Txn D) : Prop := Ddsnap.NoMagic (t.data.map Prod.snd)

private theorem logCommits_append (off : Nat) (s s' : List (Block D)) :
    logCommits off (s ++ s') = logCommits off s ++ logCommits (off + s.length) s' := by
  simp [logCommits, List.zipIdx_append]

private theorem logCommits_noMagic {s : List (Block D)} (off : Nat) (h : NoMagic s) : logCommits off s = [] := by
  simp only [logCommits, List.filterMap_eq_nil_iff, Option.map_eq_none_iff]
  rintro ⟨b, i⟩ hb
  exact h b (List.fst_mem_of_mem_zipIdx hb)

private theorem logCommits_blocks (off : Nat) {t : Txn D} (h : t.NoMagic) :
    logCommits off t.blocks = [(off + t.data.length, t.commit)] := by
  rw [Txn.blocks, logCommits_append, logCommits_noMagic _ h]
  simp [logCommits, asCommit]

private theorem logCommits_logOf (off : Nat) (h : List (Txn D)) (hm : ∀ t ∈ h, t.NoMagic) :
    logCommits off (logOf h) = (commitIndices off h).map fun p => (p.1, p.2.commit) := by
  induction h generalizing off with
  | nil => rfl
  | cons t h ih =>
    rw [logOf_cons, logCommits_append, logCommits_blocks off (hm t (by simp)),
      ih _ (fun u hu => hm u (List.mem_cons_of_mem _ hu))]
    simp [commitIndices, Nat.add_assoc]

private theorem mem_logCommits {off i : Nat} {c : CommitBlock} {s : List (Block D)} (h : (i, c) ∈ logCommits off s) :
    off ≤ i ∧ i < off + s.length := by
  simp only [logCommits, List.mem_filterMap, Option.map_eq_some_iff] at h
  obtain ⟨⟨b, j⟩, hb, c', -, he⟩ := h
  simp only [Prod.mk.injEq] at he
  obtain ⟨rfl, -⟩ := he
  exact ⟨List.le_snd_of_mem_zipIdx hb, by have := List.snd_lt_add_of_mem_zipIdx hb; omega⟩

/-- A piece of the log that does not wrap, read by position. -/
private theorem logCommits_mod {J x y : Nat} (s : List (Block D)) (hxy : x % J = y) (hy : y + s.length ≤ J) :
    (logCommits x s).map (fun p => (p.1 % J, p.2)) = logCommits y s := by
  induction s generalizing x y with
  | nil => rfl
  | cons b s ih =>
    rw [List.length_cons] at hy
    have hb : logCommits x (b :: s) = logCommits x [b] ++ logCommits (x + 1) s := by
      rw [← List.singleton_append, logCommits_append]; rfl
    have hb' : logCommits y (b :: s) = logCommits y [b] ++ logCommits (y + 1) s := by
      rw [← List.singleton_append, logCommits_append]; rfl
    rw [hb, hb', List.map_append]
    congr 1
    · simp only [logCommits, List.zipIdx_cons, List.zipIdx_nil, List.filterMap_cons, List.filterMap_nil]
      cases asCommit b <;> simp [hxy]
    · rcases Nat.eq_zero_or_pos s.length with h0 | h0
      · rw [List.length_eq_zero_iff.1 h0]; rfl
      · refine ih ?_ (by omega)
        rw [← hxy, ← Nat.mod_add_mod, Nat.mod_eq_of_lt (by omega)]

/-! ### The scan -/

private theorem zipIdx_map_range {α : Type} (f : Nat → α) (n : Nat) :
    ((List.range n).map f).zipIdx = (List.range n).map fun i => (f i, i) := by
  apply List.ext_getElem
  · simp
  · intro i h1 h2; simp

theorem mem_scanCommits {journal : Nat → Block D} {jblocks p : Nat} {c : CommitBlock} :
    (p, c) ∈ scanCommits journal jblocks ↔ p < jblocks ∧ asCommit (journal p) = some c := by
  simp [scanCommits]

private theorem scanCommits_eq (journal : Nat → Block D) (jblocks : Nat) :
    scanCommits journal jblocks = logCommits 0 ((List.range jblocks).map journal) := by
  rw [logCommits, zipIdx_map_range, List.filterMap_map]
  rfl

section
variable {sb : Sb D} {h : List (Txn D)} {tail : List (Block D)}

/-- The commits that the scan finds are those of the transactions from number `d` on, read from the middle.  They are
the transactions whose commit block is among the last `J` blocks of the log. -/
private theorem scanCommits_logged (hl : Logged sb h tail) (hm : ∀ t ∈ h, t.NoMagic) (ht : NoMagic tail) :
    ∃ d r, Rotation r (scanCommits sb.journal sb.image.journalSize)
        (((commitIndices 0 h).drop d).map fun p => (p.1 % sb.image.journalSize, p.2.commit)) ∧
      (∀ p ∈ (commitIndices 0 h).take d, p.1 + sb.image.journalSize < (logOf h ++ tail).length) ∧
      (∀ p ∈ (commitIndices 0 h).drop d, (logOf h ++ tail).length ≤ p.1 + sb.image.journalSize) := by
  set J := sb.image.journalSize with hJ
  have hfull : J ≤ (logOf h ++ tail).length := by
    rw [List.length_append]; have := hl.full; omega
  obtain ⟨old, a, b, hs, hab, hb, hcells⟩ := hl.holds.cells hl.size_pos hfull
  rw [← hJ] at hab hb hcells
  have hlen : (logOf h ++ tail).length = old.length + a.length + b.length := by
    rw [hs]; simp [Nat.add_assoc]
  have hscan : scanCommits sb.journal J = logCommits 0 b ++ logCommits b.length a := by
    rw [scanCommits_eq, hcells, logCommits_append, Nat.zero_add]
  -- the log splits into the overwritten part `old` and the two halves of the ring
  have hdiv : (old.length + a.length) % J = 0 := by
    have : old.length + a.length = (logOf h ++ tail).length - (logOf h ++ tail).length % J := by omega
    rw [this]; exact Nat.sub_mod_eq_zero_of_mod_eq (by simp)
  have hold : old.length % J = b.length := by
    rcases Nat.eq_zero_or_pos a.length with h0 | h0
    · have hlt : (logOf h ++ tail).length % J < J := Nat.mod_lt _ hl.size_pos
      omega
    · have h1 : (old.length + J) % J = b.length := by
        rw [show old.length + J = (old.length + a.length) + b.length by omega, Nat.add_mod, hdiv, Nat.zero_add,
          Nat.mod_mod, Nat.mod_eq_of_lt (by omega)]
      rw [← h1, Nat.add_mod_right]
  have hsplit : (commitIndices 0 h).map (fun p => (p.1, p.2.commit)) =
      logCommits 0 old ++ logCommits old.length (a ++ b) := by
    rw [← logCommits_logOf 0 h hm]
    have := logCommits_append 0 (logOf h) tail
    rw [logCommits_noMagic _ ht, List.append_nil] at this
    rw [← this, hs, List.append_assoc, logCommits_append, Nat.zero_add]
  have hdrop : ((commitIndices 0 h).drop (logCommits 0 old).length).map (fun p => (p.1, p.2.commit)) =
      logCommits old.length (a ++ b) := by
    rw [List.map_drop, hsplit, List.drop_left]
  have htake : ((commitIndices 0 h).take (logCommits 0 old).length).map (fun p => (p.1, p.2.commit)) =
      logCommits 0 old := by
    rw [List.map_take, hsplit, List.take_left]
  refine ⟨(logCommits 0 old).length, (logCommits 0 b).length, ?_, ?_, ?_⟩
  · have hchron : (((commitIndices 0 h).drop (logCommits 0 old).length).map fun p => (p.1 % J, p.2.commit)) =
        logCommits b.length a ++ logCommits 0 b := by
      have hcomp : (fun p : Nat × Txn D => (p.1 % J, p.2.commit)) =
          (fun p : Nat × CommitBlock => (p.1 % J, p.2)) ∘ fun p : Nat × Txn D => (p.1, p.2.commit) := rfl
      rw [hcomp, ← List.map_map, hdrop, logCommits_append, List.map_append,
        logCommits_mod a hold (by omega), logCommits_mod b hdiv (by omega)]
    rw [hscan, hchron]
    exact Rotation.of_append _ _
  · intro p hp
    have : (p.1, p.2.commit) ∈ logCommits 0 old := htake ▸ List.mem_map_of_mem hp
    have := mem_logCommits this
    omega
  · intro p hp
    have : (p.1, p.2.commit) ∈ logCommits old.length (a ++ b) := hdrop ▸ List.mem_map_of_mem hp
    have := mem_logCommits this
    omega

end

/-! ### The order of the commits -/

section
variable {r d : Nat} {cs xs : List (Nat × CommitBlock)}

/-- The only commit whose number is not followed by its successor is the newest one. -/
theorem gaps_rotation (hrot : Rotation r cs xs) (hne : 0 < xs.length) (hlt : xs.length < 2 ^ 32)
    (hseq : ∀ k c, xs[k]? = some c → c.2.sequence = (d + k) % 2 ^ 32) :
    gaps cs = [(r + (xs.length - 1)) % xs.length] := by
  have hget : ∀ k, k < xs.length → (cs.map fun c => c.2.sequence)[(r + k) % xs.length]? = some ((d + k) % 2 ^ 32) := by
    intro k hk
    rw [List.getElem?_map, hrot.get k hk, List.getElem?_eq_getElem hk, Option.map_some,
      hseq k _ (List.getElem?_eq_getElem hk)]
  have hget1 : ∀ k, k < xs.length →
      (cs.map fun c => (c.2.sequence + 1) % 2 ^ 32)[(r + k) % xs.length]? = some ((d + k + 1) % 2 ^ 32) := by
    intro k hk
    rw [List.getElem?_map, hrot.get k hk, List.getElem?_eq_getElem hk, Option.map_some,
      hseq k _ (List.getElem?_eq_getElem hk), Nat.mod_add_mod]
  have hpred : ∀ i, i < xs.length →
      ((cs.map fun c => c.2.sequence)[(i + 1) % cs.length]? ≠ (cs.map fun c => (c.2.sequence + 1) % 2 ^ 32)[i]? ↔
        i = (r + (xs.length - 1)) % xs.length) := by
    intro i hi
    obtain ⟨k, hk, rfl⟩ := RingLog.exists_index r hi
    rw [hrot.length_eq, hget1 k hk, Nat.mod_add_mod, Nat.add_assoc]
    by_cases hlast : k + 1 < xs.length
    · rw [hget (k + 1) hlast, Nat.add_assoc]
      simp only [ne_eq, not_true_eq_false, false_iff]
      intro he
      have := RingLog.index_inj hk (by omega) he
      omega
    · have hk' : k = xs.length - 1 := by omega
      rw [show r + (k + 1) = r + 0 + xs.length by omega, Nat.add_mod_right, hget 0 hne]
      simp only [ne_eq, Option.some.injEq, hk', iff_true]
      omega
  unfold gaps
  rw [List.filter_congr (q := fun i => decide (i = (r + (xs.length - 1)) % xs.length))]
  · rw [hrot.length_eq]
    have hmem := List.mem_range.2 (Nat.mod_lt (r + (xs.length - 1)) hne)
    rw [List.filter_eq]
    rw [List.count_eq_one_of_mem List.nodup_range hmem]
    rfl
  · intro i hi
    rw [List.mem_range, hrot.length_eq] at hi
    exact decide_eq_decide.2 (hpred i hi)

/-- The loop that starts at commit number `k` visits the commits from there to the newest one. -/
theorem visitTo_rotation {m : Nat} (hm : 0 < m) (r n k i fuel : Nat) (hk : k + n = m - 1) (hf : n < fuel)
    (hi : i % m = (r + k) % m) (him : i ≤ m) :
    visitTo m ((r + (m - 1)) % m) fuel i = (List.range' k (n + 1)).map fun k => (r + k) % m := by
  induction n generalizing k i fuel with
  | zero =>
    obtain ⟨fuel, rfl⟩ : ∃ f, fuel = f + 1 := ⟨fuel - 1, by omega⟩
    have hk' : k = m - 1 := by omega
    subst hk'
    have hi' : (if i = m then 0 else i) = (r + (m - 1)) % m := by
      rw [← hi]; split
      · rename_i h; rw [h, Nat.mod_self]
      · rw [Nat.mod_eq_of_lt (by omega)]
    simp only [visitTo, hi']
    simp
  | succ n ih =>
    obtain ⟨fuel, rfl⟩ : ∃ f, fuel = f + 1 := ⟨fuel - 1, by omega⟩
    have hi' : (if i = m then 0 else i) = (r + k) % m := by
      rw [← hi]; split
      · rename_i h; rw [h, Nat.mod_self]
      · rw [Nat.mod_eq_of_lt (by omega)]
    have hne : (r + k) % m ≠ (r + (m - 1)) % m := by
      intro he
      have := RingLog.index_inj (show k < m by omega) (by omega) he
      omega
    have hlt : (r + k) % m < m := Nat.mod_lt _ hm
    simp only [visitTo, hi', if_neg hne]
    rw [ih (k + 1) _ fuel (by omega) (by omega) (by rw [Nat.mod_add_mod, Nat.add_assoc]) (by omega),
      List.range'_succ (n := n + 1), List.map_cons]

/-- Without a barrier among the commits the replay starts from the newest commit. -/
theorem lastBarrier_none (hrot : Rotation r cs xs) (n : Nat) (hn : n ≤ xs.length)
    (hx : ∀ c ∈ xs, c.2.alloc.barrier = false) :
    lastBarrier cs ((List.range' 0 n).map fun k => (r + k) % xs.length) = none := by
  induction n with
  | zero => rfl
  | succ n ih =>
    have hget := hrot.get n (by omega)
    have hb := hx _ (List.getElem_mem (show n < xs.length by omega))
    rw [List.getElem?_eq_getElem (show n < xs.length by omega)] at hget
    have ih := ih (by omega)
    unfold lastBarrier at ih ⊢
    rw [List.range'_concat, List.map_append, List.foldl_append, ih]
    simp [hget, hb]

end

/-! ### Reading the data of a transaction -/

/-- Transaction number `k` of the history is in the journal, its data blocks and its commit block unmodified. -/
def Present (sb : Sb D) (h : List (Txn D)) (k : Nat) : Prop :=
  ∀ t, h[k]? = some t → ∀ j b, t.blocks[j]? = some b →
    sb.journal (((logOf (h.take k)).length + j) % sb.image.journalSize) = b

private theorem commitIndices_getElem? (off : Nat) (h : List (Txn D)) (k : Nat) :
    (commitIndices off h)[k]? = h[k]?.map fun t => (off + (logOf (h.take k)).length + t.data.length, t) := by
  induction h generalizing off k with
  | nil => simp [commitIndices]
  | cons t h ih =>
    cases k with
    | zero => simp [commitIndices]
    | succ k =>
      have hcons : (logOf (t :: h.take k)).length = t.data.length + 1 + (logOf (h.take k)).length := by
        simp
      simp only [commitIndices, List.getElem?_cons_succ, ih, List.take_succ_cons, hcons]
      congr 1
      funext u
      simp only [Prod.mk.injEq, and_true]
      omega

@[simp] theorem commitIndices_length (off : Nat) (h : List (Txn D)) : (commitIndices off h).length = h.length := by
  induction h generalizing off with
  | nil => rfl
  | cons t h ih => simp [commitIndices, ih]

section
variable {sb : Sb D} {h : List (Txn D)} {tail : List (Block D)} {k : Nat} {t : Txn D}

theorem logOf_split (hk : h[k]? = some t) : logOf h = logOf (h.take k) ++ t.blocks ++ logOf (h.drop (k + 1)) := by
  obtain ⟨hlt, rfl⟩ := List.getElem?_eq_some_iff.1 hk
  have hsplit : h = h.take k ++ [h[k]] ++ h.drop (k + 1) := by
    rw [List.append_assoc, List.singleton_append, ← List.drop_eq_getElem_cons hlt, List.take_append_drop]
  calc logOf h = logOf (h.take k ++ [h[k]] ++ h.drop (k + 1)) := congrArg logOf hsplit
    _ = _ := by simp only [logOf_append, logOf_singleton]

/-- A transaction whose first block is among the last `J` blocks of the log is present. -/
theorem Logged.present (hl : Logged sb h tail)
    (hk : (logOf h ++ tail).length ≤ (logOf (h.take k)).length + sb.image.journalSize) : Present sb h k := by
  intro t ht j b hb
  obtain ⟨hj, hb⟩ := List.getElem?_eq_some_iff.1 hb
  refine hl.holds _ _ ?_ (by omega)
  rw [logOf_split ht, List.append_assoc, List.append_assoc, List.getElem?_append_right (by omega),
    Nat.add_sub_cancel_left, List.getElem?_append_left hj, List.getElem?_eq_getElem hj, hb]

private theorem mapM_some_map {α β : Type} (l : List α) (f : α → Option β) (g : α → β)
    (h : ∀ x ∈ l, f x = some (g x)) : l.mapM f = some (l.map g) := by
  induction l with
  | nil => rfl
  | cons x l ih =>
    rw [List.mapM_cons, h x (by simp), ih (fun y hy => h y (List.mem_cons_of_mem _ hy))]
    rfl

/-- The replay of a present transaction reads its own data blocks, and writes all of them to the slot of the sector
list that has the number of the commit. -/
theorem replayCommit_present (behind : Nat → Nat) {cs : List (Nat × CommitBlock)} {i : Nat}
    (hlt : sb.image.journalSize < 2 ^ 31) (ht : h[k]? = some t) (hp : Present sb h k) (hm : t.NoMagic)
    (hsec : t.commit.sector = t.data.map Prod.fst) (hn : t.data.length ≤ sb.image.journalSize)
    (hpos : 0 < sb.image.journalSize)
    (hcs : cs[i]? = some (((logOf (h.take k)).length + t.data.length) % sb.image.journalSize, t.commit)) :
    replayCommit sb behind cs i =
      some (t.data.map fun p => (sectorSlot sb.maxCommitBlocks behind t.commit i, p.2)) := by
  have hentries : t.commit.sector.length = t.data.length := by rw [hsec, List.length_map]
  set J := sb.image.journalSize with hJ
  set start := (logOf (h.take k)).length with hstart
  -- the position of entry `j`, with the wrap of the unsigned subtraction
  have hreplay : ∀ j, j < t.data.length →
      ((start + t.data.length) % J + 2 ^ 32 - t.data.length + j + J) % 2 ^ 32 % J = (start + j) % J := by
    intro j hj
    have hmod : (start + t.data.length) % J < J := Nat.mod_lt _ hpos
    rw [show (start + t.data.length) % J + 2 ^ 32 - t.data.length + j + J =
      (start + t.data.length) % J + (J - t.data.length + j) + 2 ^ 32 by omega, Nat.add_mod_right,
      Nat.mod_eq_of_lt (show (start + t.data.length) % J + (J - t.data.length + j) < 2 ^ 32 by omega),
      Nat.mod_add_mod, show start + t.data.length + (J - t.data.length + j) = start + j + J by omega,
      Nat.add_mod_right]
  have hread : ∀ j (hj : j < t.data.length), sb.journal ((start + j) % J) = (t.data[j]).2 := by
    intro j hj
    refine hp t ht j _ ?_
    rw [Txn.blocks, List.getElem?_append_left (by simpa using hj), List.getElem?_map, List.getElem?_eq_getElem hj]
    rfl
  unfold replayCommit
  rw [hcs]
  simp only [hentries]
  rw [mapM_some_map (g := fun j => (sectorSlot sb.maxCommitBlocks behind t.commit i, sb.journal ((start + j) % J)))]
  · congr 1
    apply List.ext_getElem
    · simp
    · intro j h1 h2
      simp only [List.length_map, List.length_range] at h1
      simp only [List.getElem_map, List.getElem_range, hread j h1]
  · intro j hj
    rw [List.mem_range] at hj
    rw [← hJ, hreplay j hj, hread j hj, hm _ (List.mem_map_of_mem (List.getElem_mem hj))]

end

/-! ### The scan of a logged journal -/

/-- The commits of the transactions from number `d` on, with their journal positions. -/
def recent (jblocks : Nat) (h : List (Txn D)) (d : Nat) : List (Nat × CommitBlock) :=
  ((commitIndices 0 h).drop d).map fun p => (p.1 % jblocks, p.2.commit)

@[simp] theorem recent_length (jblocks : Nat) (h : List (Txn D)) (d : Nat) :
    (recent jblocks h d).length = h.length - d := by
  simp [recent]

theorem recent_getElem? (jblocks : Nat) (h : List (Txn D)) (d k : Nat) :
    (recent jblocks h d)[k]? =
      h[d + k]?.map fun t => (((logOf (h.take (d + k))).length + t.data.length) % jblocks, t.commit) := by
  simp [recent, List.getElem?_map, List.getElem?_drop, commitIndices_getElem?, Function.comp_def]

/-- The scan of the journal of `sb` finds the transactions of `h` from number `d` on, the first of them at index
`r`. -/
structure Scanned (sb : Sb D) (h : List (Txn D)) (d r : Nat) : Prop where
  lt : d < h.length
  small : h.length - d < 2 ^ 32
  rot : Rotation r (scanCommits sb.journal sb.image.journalSize) (recent sb.image.journalSize h d)
  sequence : ∀ k c, (recent sb.image.journalSize h d)[k]? = some c → c.2.sequence = (d + k) % 2 ^ 32

/-- The index at which the scan finds transaction number `k`. -/
def scanIndex (h : List (Txn D)) (d r k : Nat) : Nat := (r + (k - d)) % (h.length - d)

section
variable {sb : Sb D} {h : List (Txn D)} {tail : List (Block D)} {d r k : Nat} {t : Txn D}

/-- As long as the open transaction has not overwritten the newest commit block, the scan finds the transactions
whose commit block is among the last `J` blocks of the log. -/
theorem Logged.scanned (hl : Logged sb h tail) (hm : ∀ t ∈ h, t.NoMagic) (ht : NoMagic tail)
    (hlast : tail.length < sb.image.journalSize) :
    ∃ d r, Scanned sb h d r ∧ ∀ k t, h[k]? = some t →
      (d ≤ k ↔ (logOf h ++ tail).length ≤
        (logOf (h.take k)).length + t.data.length + sb.image.journalSize) := by
  obtain ⟨d, r, hrot, hold, hnew⟩ := scanCommits_logged hl hm ht
  have hiff : ∀ k t, h[k]? = some t → (d ≤ k ↔ (logOf h ++ tail).length ≤
      (logOf (h.take k)).length + t.data.length + sb.image.journalSize) := by
    intro k t hk
    have hci : (commitIndices 0 h)[k]? = some ((logOf (h.take k)).length + t.data.length, t) := by
      rw [commitIndices_getElem?, hk]; simp
    constructor
    · intro hdk
      exact hnew ((logOf (h.take k)).length + t.data.length, t)
        (List.mem_iff_getElem?.2 ⟨k - d, by rw [List.getElem?_drop, Nat.add_sub_cancel' hdk, hci]⟩)
    · intro hle
      by_contra hdk
      have := hold ((logOf (h.take k)).length + t.data.length, t)
        (List.mem_iff_getElem?.2 ⟨k, by rw [List.getElem?_take_of_lt (by omega), hci]⟩)
      omega
  have hne : h ≠ [] := by
    rintro rfl
    have := hl.full; have := hl.size_pos
    simp at *; omega
  -- the commit block of the last transaction is the last block of its log
  have hlt : d < h.length := by
    have hpos : 0 < h.length := List.length_pos_iff.2 hne
    have hget := List.getElem?_eq_getElem (show h.length - 1 < h.length by omega)
    have hlen := congrArg List.length (logOf_split hget)
    rw [show h.length - 1 + 1 = h.length by omega, List.drop_length] at hlen
    simp at hlen
    have := (hiff _ _ hget).2 (by rw [List.length_append]; omega)
    omega
  refine ⟨d, r, ⟨hlt, ?_, hrot, ?_⟩, hiff⟩
  · have h1 := hrot.length_eq
    have h2 : (scanCommits sb.journal sb.image.journalSize).length ≤ sb.image.journalSize := by
      have := List.length_filterMap_le (fun i => (asCommit (sb.journal i)).map fun c => (i, c))
        (List.range sb.image.journalSize)
      rwa [List.length_range] at this
    have h3 := hl.size_lt
    simp at h1
    omega
  · intro k c hc
    rw [recent_getElem?, Option.map_eq_some_iff] at hc
    obtain ⟨t, htk, rfl⟩ := hc
    exact hl.numbered _ _ htk

/-- The scan finds transaction `k` at its index. -/
theorem Scanned.get (hs : Scanned sb h d r) (hdk : d ≤ k) (hk : h[k]? = some t) :
    (scanCommits sb.journal sb.image.journalSize)[scanIndex h d r k]? =
      some (((logOf (h.take k)).length + t.data.length) % sb.image.journalSize, t.commit) := by
  obtain ⟨hlt, -⟩ := List.getElem?_eq_some_iff.1 hk
  have := hs.rot.get (k - d) (by simp; omega)
  rw [recent_length] at this
  rw [scanIndex, this, recent_getElem?, Nat.add_sub_cancel' hdk, hk]
  rfl

theorem Scanned.scanJournal (hs : Scanned sb h d r)
    (hsum : ∀ p c, p < sb.image.journalSize → asCommit (sb.journal p) = some c →
      checksumBlock sb.image.metadata.allocsizeBits c = 0) :
    scanJournal sb = some ⟨scanCommits sb.journal sb.image.journalSize, scanIndex h d r (h.length - 1),
      lastBarrier (scanCommits sb.journal sb.image.journalSize)
        ((List.range' 0 (h.length - d)).map fun k => (r + k) % (h.length - d))⟩ := by
  have hlen := recent_length sb.image.journalSize h d
  have hlt := hs.lt
  have hall : (scanCommits sb.journal sb.image.journalSize).all
      (fun c => checksumBlock sb.image.metadata.allocsizeBits c.2 = 0) = true := by
    rw [List.all_eq_true]
    rintro ⟨p, c⟩ hc
    rw [mem_scanCommits] at hc
    simpa using hsum p c hc.1 hc.2
  have hgaps := gaps_rotation hs.rot (by omega) (by rw [hlen]; exact hs.small) hs.sequence
  rw [hlen] at hgaps
  have hidx : scanIndex h d r (h.length - 1) = (r + (h.length - d - 1)) % (h.length - d) := by
    unfold scanIndex; congr 2; omega
  have hvisit := visitTo_rotation (m := h.length - d) (by omega) r (h.length - d - 1) 0
    ((r + (h.length - d - 1)) % (h.length - d) + 1) (h.length - d + 1) (by omega) (by omega)
    (by
      rw [Nat.mod_add_mod, show r + (h.length - d - 1) + 1 = r + 0 + (h.length - d) by omega, Nat.add_mod_right])
    (by have := Nat.mod_lt (r + (h.length - d - 1)) (show 0 < h.length - d by omega); omega)
  unfold Ddsnap.scanJournal
  simp only [hall, if_true, hgaps, hidx]
  rw [hs.rot.length_eq, hlen, hvisit, show h.length - d - 1 + 1 = h.length - d by omega]

/-- A commit block that fails its checksum stops the replay. -/
theorem scanJournal_none {p : Nat} {c : CommitBlock} (hp : p < sb.image.journalSize)
    (hc : asCommit (sb.journal p) = some c) (hsum : checksumBlock sb.image.metadata.allocsizeBits c ≠ 0) :
    Ddsnap.scanJournal sb = none := by
  unfold Ddsnap.scanJournal
  rw [if_neg]
  intro hall
  rw [List.all_eq_true] at hall
  have := hall _ (mem_scanCommits.2 ⟨hp, hc⟩)
  simp only [decide_eq_true_eq] at this
  exact hsum this

/-- The scan reads the journal and its size only. -/
theorem Scanned.congr {sb' : Sb D} (hs : Scanned sb h d r) (hj : sb'.journal = sb.journal)
    (hsize : sb'.image.journalSize = sb.image.journalSize) : Scanned sb' h d r :=
  ⟨hs.lt, hs.small, by rw [hj, hsize]; exact hs.rot, by rw [hsize]; exact hs.sequence⟩

theorem Present.congr {sb' : Sb D} (hp : Present sb h k) (hj : sb'.journal = sb.journal)
    (hsize : sb'.image.journalSize = sb.image.journalSize) : Present sb' h k := by
  unfold Present; rw [hj, hsize]; exact hp

/-- The commit at index 0 of the scan is the one before which the journal holds data only. -/
theorem scanCommits_index_zero {journal : Nat → Block D} {jblocks i pos : Nat} {c : CommitBlock}
    (hi : (scanCommits journal jblocks)[i]? = some (pos, c)) :
    i = 0 ↔ ∀ q < pos, asCommit (journal q) = none := by
  have hmem := mem_scanCommits.1 (List.mem_of_getElem? hi)
  -- the positions of the scan increase
  have hsorted : (scanCommits journal jblocks).Pairwise (fun a b => a.1 < b.1) := by
    unfold scanCommits
    rw [List.pairwise_filterMap]
    refine List.pairwise_lt_range.imp ?_
    intro a b hab x hx y hy
    simp only [Option.map_eq_some_iff] at hx hy
    obtain ⟨_, -, rfl⟩ := hx
    obtain ⟨_, -, rfl⟩ := hy
    exact hab
  obtain ⟨hlt, hget⟩ := List.getElem?_eq_some_iff.1 hi
  constructor
  · rintro rfl q hq
    rw [Option.eq_none_iff_forall_ne_some]
    intro c' hc'
    have hm : (q, c') ∈ scanCommits journal jblocks := mem_scanCommits.2 ⟨by omega, hc'⟩
    obtain ⟨j, hj, he⟩ := List.mem_iff_getElem.1 hm
    rcases Nat.eq_zero_or_pos j with rfl | hj0
    · rw [hget] at he; simp only [Prod.mk.injEq] at he; omega
    · have := List.pairwise_iff_getElem.1 hsorted 0 j hlt hj hj0
      rw [hget, he] at this
      simp only at this; omega
  · intro hq
    by_contra h0
    have h1 := List.pairwise_iff_getElem.1 hsorted 0 i (by omega) hlt (by omega)
    rw [hget] at h1
    have h2 := (mem_scanCommits.1 (List.getElem_mem (show 0 < (scanCommits journal jblocks).length by omega))).2
    exact absurd ((hq _ h1).symm.trans h2) (by simp)

/-- When there is no barrier, or the newest commit is the barrier, the replay writes the newest transaction only. -/
theorem Scanned.replayWrites_newest (hs : Scanned sb h d r) (behind : Nat → Nat)
    (hsum : ∀ p c, p < sb.image.journalSize → asCommit (sb.journal p) = some c →
      checksumBlock sb.image.metadata.allocsizeBits c = 0)
    (hb : lastBarrier (scanCommits sb.journal sb.image.journalSize)
        ((List.range' 0 (h.length - d)).map fun k => (r + k) % (h.length - d)) = none ∨
      lastBarrier (scanCommits sb.journal sb.image.journalSize)
        ((List.range' 0 (h.length - d)).map fun k => (r + k) % (h.length - d)) =
          some (scanIndex h d r (h.length - 1))) :
    replayWrites sb behind =
      replayCommit sb behind (scanCommits sb.journal sb.image.journalSize) (scanIndex h d r (h.length - 1)) := by
  have hlt := hs.lt
  have horder : visitTo (scanCommits sb.journal sb.image.journalSize).length (scanIndex h d r (h.length - 1))
      ((scanCommits sb.journal sb.image.journalSize).length + 1) (scanIndex h d r (h.length - 1)) =
        [scanIndex h d r (h.length - 1)] := by
    have := Nat.mod_lt (r + (h.length - 1 - d)) (show 0 < h.length - d by omega)
    have hne : (r + (h.length - 1 - d)) % (h.length - d) ≠ h.length - d := by omega
    rw [hs.rot.length_eq, recent_length, visitTo, scanIndex]
    simp [hne]
  unfold replayWrites
  rw [hs.scanJournal hsum]
  simp only [Option.bind_eq_bind, Option.bind_some, replayOrder]
  rcases hb with hb | hb <;>
    simp only [hb, if_true, horder, List.mapM_cons, List.mapM_nil, Option.bind_eq_bind, Option.pure_def] <;>
    cases replayCommit sb behind (scanCommits sb.journal sb.image.journalSize) (scanIndex h d r (h.length - 1)) <;>
    simp

end

end Ddsnap
