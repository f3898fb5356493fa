import Ddsnap.Changelist

/-!
# The status of a store

`STATUS` is answered with a table that has a row for every listed snapshot: in column `k` stands the number of exceptions
that this snapshot shares with `k` others.  The server counts over all exceptions of the tree (`calc_sharing`), by the
bits of their share masks; the row of a squashed snapshot has no counts.

`ddsnap status` adds up the rows, and it adds up every column and divides it by its number, since an exception that `k`
snapshots share was counted `k` times.
-/

namespace Ddsnap

variable {D : Type}

/-! ### The server -/

/-- The loop of `bit_count`.  The first argument bounds the rounds: one for every bit is enough. -/
def bitCountLoop : Nat → Mask → Nat → Nat
  | 0, _, count => count
  | fuel + 1, num, count =>
    if num = 0 then count else bitCountLoop fuel (num >>> 1) (if num &&& 1 ≠ 0 then count + 1 else count)

def bitCount (num : Mask) : Nat := bitCountLoop 64 num 0

/-- The round of `calc_sharing` for one bit of an exception. -/
def countBit (p : Exception) (shareTable : Nat → Nat) (bit : Nat) : Nat → Nat :=
  let i := maxSnapshots * bit + (bitCount p.share - 1)
  if p.share &&& maskBit bit ≠ 0 then Function.update shareTable i ((shareTable i + 1) % 2 ^ 64) else shareTable

/-- One exception in `calc_sharing`.  It ends at the assertion if nobody shares the exception. -/
def countException (shareTable : Nat → Nat) (p : Exception) : Option (Nat → Nat) :=
  if p.share = 0 then none else some ((List.range maxSnapshots).foldl (countBit p) shareTable)

/-- The exceptions of map entries. -/
def exceptionsOf (map : List EtreeMap) : List Exception := map.flatMap EtreeMap.exceptions

def calcSharing (shareTable : Nat → Nat) (leaf : Eleaf) : Option (Nat → Nat) :=
  (exceptionsOf leaf.map).foldlM countException shareTable

/-- The part of a `STATUS_OK` message about the snapshots. -/
structure StatusReply where
  snapshots : Nat
  sharing : Nat → Nat → Nat

/-- `details->sharing[0]` of a squashed snapshot. -/
def noSharing : Nat := 2 ^ 64 - 1

/-- The row of a snapshot. -/
def sharingRow (shareTable : Nat → Nat) (snapshot : Snapshot) (col : Nat) : Nat :=
  if isSquashed snapshot then if col = 0 then noSharing else 0 else shareTable (maxSnapshots * snapshot.bit + col)

/-- `get_status`.  `none` stands for a tree that cannot be read, or a failed assertion. -/
def getStatus (sb : Sb D) : Option StatusReply := do
  let leaves ← traverseTreeRange sb
  let shareTable ← leaves.foldlM (fun t s => calcSharing t (leafAt sb.mem s)) fun _ => 0
  return ⟨sb.image.snapshots, fun row => sharingRow shareTable (sb.image.snaplist row)⟩

/-! ### The client -/

/-- `for (i = 0; i < n; i++) total += f(i)`, in 64 bits. -/
def sum64 (f : Nat → Nat) : Nat → Nat
  | 0 => 0
  | n + 1 => (sum64 f n + f n) % 2 ^ 64

namespace StatusReply

variable (reply : StatusReply)

/-- The number of chunks that is printed for a snapshot. -/
def rowTotal (row : Nat) : Nat := sum64 (reply.sharing row) reply.snapshots

/-- The sum of a column, without the squashed snapshots. -/
def columnSum (col : Nat) : Nat :=
  sum64 (fun row => if reply.sharing row 0 = noSharing then 0 else reply.sharing row col) reply.snapshots

/-- `column_totals[col]`. -/
def columnTotal (col : Nat) : Nat := reply.columnSum col / (col + 1)

/-- `total_chunks` in the line of the totals. -/
def totalChunks : Nat := sum64 reply.columnTotal reply.snapshots

end StatusReply

/-! ### Sums -/

/-- The same sum without a bound. -/
def total (f : Nat → Nat) : Nat → Nat
  | 0 => 0
  | n + 1 => total f n + f n

variable {f g : Nat → Nat} {n k : Nat}

private theorem sum64_eq (f : Nat → Nat) (n : Nat) : sum64 f n = total f n % 2 ^ 64 := by
  induction n with
  | zero => rfl
  | succ n ih => rw [sum64, total, ih, Nat.mod_add_mod]

private theorem total_congr (h : ∀ i < n, f i = g i) : total f n = total g n := by
  induction n with
  | zero => rfl
  | succ n ih => rw [total, total, ih fun i hi => h i (by omega), h n (by omega)]

private theorem total_add (f g : Nat → Nat) (n : Nat) : total (fun i => f i + g i) n = total f n + total g n := by
  induction n with
  | zero => rfl
  | succ n ih =>
    rw [total, total, total, ih]
    omega

private theorem total_zero (n : Nat) : total (fun _ => 0) n = 0 := by
  induction n with
  | zero => rfl
  | succ n ih => rw [total, ih]

private theorem total_ite (q : Nat → Bool) (n : Nat) : total (fun i => if q i then 1 else 0) n =
    (List.range n).countP q := by
  induction n with
  | zero => rfl
  | succ n ih => rw [total, ih, List.range_succ, List.countP_append, List.countP_singleton]

private theorem total_single (hk : k < n) : total (fun i => if k = i then 1 else 0) n = 1 := by
  induction n with
  | zero => omega
  | succ n ih =>
    rw [total]
    rcases Nat.lt_or_eq_of_le (Nat.le_of_lt_succ hk) with hlt | rfl
    · rw [ih hlt, if_neg (by omega)]
    · rw [if_pos rfl, total_congr (g := fun _ => 0) fun i hi => if_neg (by omega), total_zero]

/-! ### The bits of a mask -/

private theorem bitCountLoop_eq (fuel : Nat) (num : Mask) (count : Nat) (h : ∀ i, hasBit num i = true → i < fuel) :
    bitCountLoop fuel num count = count + (List.range fuel).countP (hasBit num) := by
  induction fuel generalizing num count with
  | zero => rfl
  | succ fuel ih =>
    have hshift : ∀ i, hasBit (num >>> 1) i = hasBit num (i + 1) := fun i => by
      unfold hasBit
      rw [BitVec.getLsbD_ushiftRight, Nat.add_comm]
    have hone : maskBit 0 = 1 := by decide
    have hfirst : (num &&& 1 ≠ 0) ↔ hasBit num 0 = true := hone ▸ and_maskBit_ne (b := 0) (by decide)
    rw [bitCountLoop, List.range_succ_eq_map, List.countP_cons, List.countP_map]
    have hrest : (List.range fuel).countP (hasBit num ∘ Nat.succ) = (List.range fuel).countP (hasBit (num >>> 1)) :=
      List.countP_congr fun i _ => by rw [Function.comp_apply, hshift]
    split
    · rename_i hzero
      subst hzero
      rw [List.countP_eq_zero.2 fun i _ => by simp]
      simp
    · rw [ih _ _ fun i hi => Nat.lt_of_succ_lt_succ (h (i + 1) (by rw [← hshift]; exact hi)), hrest]
      by_cases hb : hasBit num 0 = true
      · rw [if_pos (hfirst.2 hb), if_pos hb]
        omega
      · rw [if_neg fun hn => hb (hfirst.1 hn), if_neg hb]
        omega

private theorem bitCount_eq (num : Mask) : bitCount num = (List.range 64).countP (hasBit num) := by
  rw [bitCount, bitCountLoop_eq 64 num 0 fun i hi => hasBit_lt hi, Nat.zero_add]

private theorem bitCount_pos {num : Mask} (h : num ≠ 0) : 1 ≤ bitCount num := by
  obtain ⟨i, hi⟩ := mask_ne_zero.1 h
  rw [bitCount_eq]
  exact List.countP_pos_iff.2 ⟨i, List.mem_range.2 (hasBit_lt hi), hi⟩

private theorem bitCount_le (num : Mask) : bitCount num ≤ 64 := by
  rw [bitCount_eq]
  exact Nat.le_trans List.countP_le_length (by simp)

/-! ### The table -/

/-- The exception belongs to the snapshot with a bit, and `col` others share it. -/
def countsFor (bit col : Nat) (p : Exception) : Bool := hasBit p.share bit && bitCount p.share == col + 1

variable {p : Exception} {t t' : Nat → Nat} {bit col : Nat} {exns : List Exception}

private theorem foldl_countBit (hbit : bit < 64) (hcol : col < 64) (hp : p.share ≠ 0) (t : Nat → Nat) (m : Nat) :
    (List.range m).foldl (countBit p) t (64 * bit + col) =
      if bit < m ∧ countsFor bit col p = true then (t (64 * bit + col) + 1) % 2 ^ 64 else t (64 * bit + col) := by
  have hpos := bitCount_pos hp
  have hle := bitCount_le p.share
  induction m with
  | zero => exact (if_neg fun h => absurd h.1 (Nat.not_lt_zero _)).symm
  | succ m ih =>
    rw [List.range_succ, List.foldl_append, List.foldl_cons, List.foldl_nil]
    generalize (List.range m).foldl (countBit p) t = t1 at ih
    unfold countBit
    dsimp only [maxSnapshots]
    by_cases hm : m = bit
    · subst hm
      have hbefore : ¬(m < m ∧ countsFor m col p = true) := fun h => Nat.lt_irrefl _ h.1
      rw [if_neg hbefore] at ih
      by_cases hhas : hasBit p.share m = true
      · rw [if_pos ((and_maskBit_ne hbit).2 hhas)]
        by_cases hc : bitCount p.share = col + 1
        · rw [if_pos ⟨Nat.lt_succ_self m, by simp [countsFor, hhas, hc]⟩, hc, Nat.add_sub_cancel, Function.update_self, ih]
        · rw [if_neg fun h => hc (by simpa [countsFor, hhas] using h.2), Function.update_of_ne (by omega), ih]
      · rw [if_neg fun h => hhas ((and_maskBit_ne hbit).1 h), if_neg fun h => hhas (by
          have := h.2
          simp only [countsFor, Bool.and_eq_true] at this
          exact this.1), ih]
    · -- another bit is counted elsewhere
      have hother : (if p.share &&& maskBit m ≠ 0 then
          Function.update t1 (64 * m + (bitCount p.share - 1)) ((t1 (64 * m + (bitCount p.share - 1)) + 1) % 2 ^ 64)
          else t1) (64 * bit + col) = t1 (64 * bit + col) := by
        split
        · exact Function.update_of_ne (by omega) _ _
        · rfl
      rw [hother, ih]
      refine if_congr (and_congr_left fun _ => ?_) rfl rfl
      omega

/-- The table after all exceptions. -/
private theorem foldlM_countException (hbit : bit < 64) (hcol : col < 64) (hshare : ∀ p ∈ exns, p.share ≠ 0)
    (ht : t (64 * bit + col) < 2 ^ 64) (h : exns.foldlM countException t = some t') :
    t' (64 * bit + col) = (t (64 * bit + col) + exns.countP (countsFor bit col)) % 2 ^ 64 := by
  induction exns generalizing t with
  | nil =>
    cases h
    exact (Nat.mod_eq_of_lt ht).symm
  | cons p exns ih =>
    have hp := hshare p List.mem_cons_self
    rw [List.foldlM_cons, countException, if_neg hp] at h
    have hone := foldl_countBit hbit hcol hp t 64
    have hrec := ih (fun q hq => hshare q (List.mem_cons_of_mem _ hq)) (by
      change (List.range 64).foldl (countBit p) t (64 * bit + col) < 2 ^ 64
      rw [hone]
      split
      · exact Nat.mod_lt _ (by decide)
      · exact ht) h
    rw [hrec]
    change ((List.range 64).foldl (countBit p) t (64 * bit + col) + _) % 2 ^ 64 = _
    rw [hone, List.countP_cons]
    by_cases hc : countsFor bit col p = true
    · rw [if_pos ⟨hbit, hc⟩, if_pos hc, Nat.mod_add_mod]
      congr 1
      omega
    · rw [if_neg fun h => hc h.2, if_neg hc]
      congr 1

private theorem foldlM_countException_isSome (hshare : ∀ p ∈ exns, p.share ≠ 0) (t : Nat → Nat) :
    ∃ t', exns.foldlM countException t = some t' := by
  induction exns generalizing t with
  | nil => exact ⟨t, rfl⟩
  | cons p exns ih =>
    rw [List.foldlM_cons, countException, if_neg (hshare p List.mem_cons_self)]
    exact ih (fun q hq => hshare q (List.mem_cons_of_mem _ hq)) _

private theorem foldlM_calcSharing (mem : Nat → Block D) (xs : List (Nat × Nat)) (t : Nat → Nat) :
    (xs.map Prod.snd).foldlM (fun t s => calcSharing t (leafAt mem s)) t =
      (exceptionsOf (contentOf mem xs)).foldlM countException t := by
  induction xs generalizing t with
  | nil => rfl
  | cons x xs ih =>
    rw [List.map_cons, List.foldlM_cons, contentOf_cons, exceptionsOf, List.flatMap_append, List.foldlM_append]
    exact congrArg _ (funext fun t => ih t)

/-! ### Counting twice -/

/-- The snapshots of a list and the masks fit together: the bits of the snapshots that are not squashed are different,
and every mask has some of them and no others. -/
structure Shared (image : Disksuper) (exns : List Exception) : Prop where
  count : image.snapshots ≤ maxSnapshots
  bits : ∀ i < image.snapshots, isSquashed (image.snaplist i) = false → (image.snaplist i).bit < 64
  distinct : ∀ i < image.snapshots, ∀ j < image.snapshots, isSquashed (image.snaplist i) = false →
    isSquashed (image.snaplist j) = false → (image.snaplist i).bit = (image.snaplist j).bit → i = j
  shares : ∀ p ∈ exns, p.share ≠ 0 ∧ ∀ b, hasBit p.share b = true →
    ∃ i < image.snapshots, isSquashed (image.snaplist i) = false ∧ (image.snaplist i).bit = b

variable {image : Disksuper}

/-- The row belongs to a snapshot that shares the exception. -/
def sharer (image : Disksuper) (p : Exception) (row : Nat) : Bool :=
  !isSquashed (image.snaplist row) && hasBit p.share (image.snaplist row).bit

/-- As many rows share an exception as its mask has bits. -/
private theorem countP_sharer (h : Shared image exns) (hp : p ∈ exns) :
    (List.range image.snapshots).countP (sharer image p) = bitCount p.share := by
  rw [bitCount_eq, List.countP_eq_length_filter, List.countP_eq_length_filter,
    ← List.length_map (f := fun row => (image.snaplist row).bit)]
  have hmem : ∀ row ∈ (List.range image.snapshots).filter (sharer image p), row < image.snapshots ∧
      isSquashed (image.snaplist row) = false ∧ hasBit p.share (image.snaplist row).bit = true := fun row hrow => by
    simpa [sharer] using hrow
  refine List.Perm.length_eq ((List.perm_ext_iff_of_nodup ?_ ?_).2 fun b => ?_)
  · refine List.Nodup.map_on (fun i hi j hj heq => ?_) (List.nodup_range.filter _)
    obtain ⟨hi, hli, -⟩ := hmem i hi
    obtain ⟨hj, hlj, -⟩ := hmem j hj
    exact h.distinct i hi j hj hli hlj heq
  · exact List.nodup_range.filter _
  · simp only [List.mem_map, List.mem_filter, List.mem_range]
    constructor
    · rintro ⟨row, ⟨hrow, hs⟩, rfl⟩
      simp only [sharer, Bool.and_eq_true, Bool.not_eq_true'] at hs
      exact ⟨h.bits row hrow hs.1, hs.2⟩
    · rintro ⟨-, hb⟩
      obtain ⟨row, hrow, hlive, rfl⟩ := (h.shares p hp).2 b hb
      exact ⟨row, ⟨hrow, by simp [sharer, hlive, hb]⟩, rfl⟩

private theorem bitCount_le_snapshots (h : Shared image exns) (hp : p ∈ exns) : bitCount p.share ≤ image.snapshots := by
  rw [← countP_sharer h hp]
  exact Nat.le_trans List.countP_le_length (by simp)

/-- What a row counts in a column. -/
def rowCount (image : Disksuper) (exns : List Exception) (row col : Nat) : Nat :=
  exns.countP (countsFor (image.snaplist row).bit col)

private theorem Shared.tail (h : Shared image (p :: exns)) : Shared image exns :=
  ⟨h.count, h.bits, h.distinct, fun q hq => h.shares q (List.mem_cons_of_mem _ hq)⟩

/-- A row counts every exception of its snapshot once. -/
private theorem total_rowCount (h : Shared image exns) (row : Nat) :
    total (rowCount image exns row) image.snapshots = exns.countP fun p => hasBit p.share (image.snaplist row).bit := by
  induction exns with
  | nil => exact total_zero _
  | cons p exns ih =>
    have hpos := bitCount_pos (h.shares p List.mem_cons_self).1
    have hle := bitCount_le_snapshots h List.mem_cons_self
    have hsplit : ∀ col, rowCount image (p :: exns) row col = rowCount image exns row col +
        if countsFor (image.snaplist row).bit col p then 1 else 0 := fun col => List.countP_cons
    rw [total_congr fun col _ => hsplit col, total_add, ih h.tail, List.countP_cons]
    congr 1
    by_cases hb : hasBit p.share (image.snaplist row).bit = true
    · have hcol : ∀ col < image.snapshots, (if countsFor (image.snaplist row).bit col p = true then 1 else 0) =
          if bitCount p.share - 1 = col then 1 else 0 := fun col _ => by
        refine if_congr ?_ rfl rfl
        simp only [countsFor, hb, Bool.true_and, beq_iff_eq]
        omega
      rw [if_pos hb, total_congr hcol, total_single (by omega)]
    · have hcol : ∀ col < image.snapshots, (if countsFor (image.snaplist row).bit col p = true then 1 else 0) = 0 :=
        fun col _ => if_neg (by simp [countsFor, hb])
      rw [if_neg hb, total_congr (g := fun _ => 0) hcol, total_zero]

/-- A column counts every exception of its number once for each snapshot that shares it. -/
private theorem total_columnCount (h : Shared image exns) (col : Nat) :
    total (fun row => if isSquashed (image.snaplist row) then 0 else rowCount image exns row col) image.snapshots =
      (col + 1) * exns.countP fun p => bitCount p.share == col + 1 := by
  induction exns with
  | nil =>
    rw [total_congr (g := fun _ => 0) fun row _ => by split <;> rfl, total_zero]
    rfl
  | cons p exns ih =>
    have hsplit : ∀ row, (if isSquashed (image.snaplist row) then 0 else rowCount image (p :: exns) row col) =
        (if isSquashed (image.snaplist row) then 0 else rowCount image exns row col) +
          if sharer image p row && bitCount p.share == col + 1 then 1 else 0 := fun row => by
      simp only [rowCount, List.countP_cons, sharer, countsFor]
      by_cases hs : isSquashed (image.snaplist row) = true <;> simp [hs]
    rw [total_congr fun row _ => hsplit row, total_add, ih h.tail, List.countP_cons, Nat.mul_add, total_ite]
    congr 1
    by_cases hc : bitCount p.share = col + 1
    · rw [if_pos (by simpa using hc), Nat.mul_one, ← hc, ← countP_sharer h List.mem_cons_self]
      exact List.countP_congr fun row _ => by simp
    · rw [if_neg (by simpa using hc), Nat.mul_zero]
      exact List.countP_eq_zero.2 fun row _ => by simp [hc]

private theorem total_degrees (h : Shared image exns) :
    total (fun col => exns.countP fun p => bitCount p.share == col + 1) image.snapshots = exns.length := by
  induction exns with
  | nil => exact total_zero _
  | cons p exns ih =>
    have hpos := bitCount_pos (h.shares p List.mem_cons_self).1
    have hle := bitCount_le_snapshots h List.mem_cons_self
    have hsplit : ∀ col < image.snapshots, ((p :: exns).countP fun p => bitCount p.share == col + 1) =
        (exns.countP fun p => bitCount p.share == col + 1) + if bitCount p.share - 1 = col then 1 else 0 := fun col _ => by
      rw [List.countP_cons]
      congr 1
      refine if_congr ?_ rfl rfl
      rw [beq_iff_eq]
      omega
    rw [total_congr hsplit, total_add, ih h.tail, total_single (by omega), List.length_cons]

/-! ### The reply -/

/-- The reply for a tree in order: the rows of the snapshots that are not squashed have the counts, the others are
marked. -/
private theorem getStatus_eq {sb : Sb D} {cap size : Nat} (hw : sb.view.WellFormed cap size)
    (hlev : 0 < sb.image.etreeLevels)
    (hs : Shared sb.image (exceptionsOf sb.view.content)) (hcount : (exceptionsOf sb.view.content).length < 2 ^ 64) :
    ∃ reply, getStatus sb = some reply ∧ reply.snapshots = sb.image.snapshots ∧
      ∀ row < sb.image.snapshots, ∀ col < sb.image.snapshots, reply.sharing row col =
        if isSquashed (sb.image.snaplist row) then if col = 0 then noSharing else 0
        else rowCount sb.image (exceptionsOf sb.view.content) row col := by
  have hshare := fun p hp => (hs.shares p hp).1
  obtain ⟨t, ht⟩ := foldlM_countException_isSome hshare fun _ => 0
  have hrun : getStatus sb =
      some ⟨sb.image.snapshots, fun row => sharingRow t (sb.image.snaplist row)⟩ := by
    unfold getStatus
    rw [traverseTreeRange_eq hw.planted hlev]
    have hfold := foldlM_calcSharing sb.mem sb.view.slots fun _ => 0
    simp only [bind, Option.bind_some]
    rw [hfold]
    change ((exceptionsOf sb.view.content).foldlM countException fun _ => 0).bind _ = _
    rw [ht]
    rfl
  refine ⟨_, hrun, rfl, fun row hrow col hcol => ?_⟩
  have hmax : sb.image.snapshots ≤ 64 := hs.count
  dsimp only [sharingRow]
  by_cases hsq : isSquashed (sb.image.snaplist row) = true
  · rw [if_pos hsq, if_pos hsq]
  · rw [if_neg hsq, if_neg hsq]
    have hbit := hs.bits row hrow (by simpa using hsq)
    have hcell := foldlM_countException hbit (by omega : col < 64) hshare (by decide) ht
    rw [Nat.zero_add] at hcell
    exact hcell.trans (Nat.mod_eq_of_lt (Nat.lt_of_le_of_lt List.countP_le_length hcount))

private theorem rowCount_le (image : Disksuper) (exns : List Exception) (row col : Nat) :
    rowCount image exns row col ≤ exns.length := List.countP_le_length

/-- For a tree in order whose masks belong to the listed snapshots, every row that is not squashed adds up to the number
of exceptions of its snapshot, every column is a multiple of its number, and the totals add up to the number of all
exceptions.  The counters and the sums have 64 bits; a tree that makes one overflow has 2 ^ 58 exceptions, which take
2 ^ 62 bytes. -/
theorem status_totals {sb : Sb D} {cap size : Nat} (hw : sb.view.WellFormed cap size) (hlev : 0 < sb.image.etreeLevels)
    (hs : Shared sb.image (exceptionsOf sb.view.content))
    (hcount : 64 * (exceptionsOf sb.view.content).length < 2 ^ 64) :
    ∃ reply, getStatus sb = some reply ∧
      (∀ row < sb.image.snapshots, isSquashed (sb.image.snaplist row) = false →
        reply.rowTotal row =
          (exceptionsOf sb.view.content).countP fun p => hasBit p.share (sb.image.snaplist row).bit) ∧
      (∀ col < sb.image.snapshots, col + 1 ∣ reply.columnSum col) ∧
      reply.totalChunks = (exceptionsOf sb.view.content).length := by
  obtain ⟨reply, hrun, hn, hrows⟩ := getStatus_eq hw hlev hs (by omega)
  generalize exceptionsOf sb.view.content = exns at *
  -- the mark of the squashed rows is not a count
  have hcolumn : ∀ col < sb.image.snapshots, reply.columnSum col =
      (col + 1) * exns.countP fun p => bitCount p.share == col + 1 := fun col hcol => by
    have hmax : sb.image.snapshots ≤ 64 := hs.count
    have hcells : ∀ row < sb.image.snapshots,
        (if reply.sharing row 0 = noSharing then 0 else reply.sharing row col) =
          if isSquashed (sb.image.snaplist row) then 0 else rowCount sb.image exns row col := fun row hrow => by
      rw [hrows row hrow 0 (by omega), hrows row hrow col hcol]
      by_cases hsq : isSquashed (sb.image.snaplist row) = true
      · rw [if_pos hsq, if_pos hsq, if_pos hsq, if_pos rfl, if_pos rfl]
      · have hle := rowCount_le sb.image exns row 0
        rw [if_neg hsq, if_neg hsq, if_neg hsq, if_neg (by unfold noSharing; omega)]
    rw [StatusReply.columnSum, sum64_eq, hn, total_congr hcells, total_columnCount hs]
    refine Nat.mod_eq_of_lt (Nat.lt_of_le_of_lt (Nat.mul_le_mul (by omega : col + 1 ≤ 64) List.countP_le_length) hcount)
  refine ⟨reply, hrun, fun row hrow hlive => ?_, fun col hcol => ?_, ?_⟩
  · rw [StatusReply.rowTotal, sum64_eq, hn]
    have hcells : ∀ col < sb.image.snapshots, reply.sharing row col = rowCount sb.image exns row col := fun col hcol => by
      rw [hrows row hrow col hcol, hlive]
      rfl
    rw [total_congr hcells, total_rowCount hs]
    have hle : (exns.countP fun p => hasBit p.share (sb.image.snaplist row).bit) ≤ exns.length := List.countP_le_length
    exact Nat.mod_eq_of_lt (by omega)
  · rw [hcolumn col hcol]
    exact Nat.dvd_mul_right _ _
  · have htotals : ∀ col < sb.image.snapshots, reply.columnTotal col =
        exns.countP fun p => bitCount p.share == col + 1 := fun col hcol => by
      rw [StatusReply.columnTotal, hcolumn col hcol, Nat.mul_div_cancel_left _ (Nat.succ_pos col)]
    rw [StatusReply.totalChunks, sum64_eq, hn, total_congr htotals, total_degrees hs]
    exact Nat.mod_eq_of_lt (by omega)

private theorem sizedRun_shared : Shared sizedRun.sb.image (exceptionsOf sizedRun.sb.view.content) := by
  have hshares : ∀ p ∈ exceptionsOf sizedRun.sb.view.content, p.share ≠ 0 ∧ ∀ b < 64, hasBit p.share b = true →
      ∃ i < sizedRun.sb.image.snapshots, isSquashed (sizedRun.sb.image.snaplist i) = false ∧
        (sizedRun.sb.image.snaplist i).bit = b := by decide +kernel
  refine ⟨by decide +kernel, by decide +kernel, by decide +kernel, fun p hp => ⟨(hshares p hp).1, fun b hb => ?_⟩⟩
  exact (hshares p hp).2 b (BitVec.lt_of_getLsbD hb) hb

/-- Both snapshots share chunks 6 and 50, the first one alone has chunk 5 and the second one its own chunk 7. -/
theorem status_totals_two : ∃ reply, getStatus sizedRun.sb = some reply ∧
    (∀ row < sizedRun.sb.image.snapshots, isSquashed (sizedRun.sb.image.snaplist row) = false →
      reply.rowTotal row = (exceptionsOf sizedRun.sb.view.content).countP fun p =>
        hasBit p.share (sizedRun.sb.image.snaplist row).bit) ∧
    (∀ col < sizedRun.sb.image.snapshots, col + 1 ∣ reply.columnSum col) ∧
    reply.totalChunks = (exceptionsOf sizedRun.sb.view.content).length :=
  status_totals (served_tree sizedRun_run).1 (by decide +kernel) sizedRun_shared (by decide +kernel)

end Ddsnap
