import Ddsnap.DeltaRecords

/-!
# Changelist files

A changelist is kept in an array that doubles when it is nearly full.  `write_changelist` writes a header, the entries
as one block and an end marker of ones; `read_changelist` reads the header and then one entry after the other up to the
marker, and appends each to a list of its own.

The file is a regular one: `read` returns what was asked for as long as it is there.
-/

namespace Ddsnap.ChangelistFile

open WordFormat GenerateArgs

/-! ### The list in memory -/

/-- `struct change_list`: the stored entries, the number of entries that the array is taken to have, and the bytes that
were allocated for it. -/
structure ChangeList where
  length : Nat
  chunksizeBits : Nat
  srcSnap : Nat
  tgtSnap : Nat
  chunks : List Nat
  allocated : Nat
  deriving DecidableEq

def chunkArrayInit : Nat := 1024

/-- `init_change_list`.  `alloc` tells for which sizes there is memory. -/
def initChangeList (alloc : Nat → Bool) (chunksizeBits srcSnap tgtSnap : Nat) : Option ChangeList :=
  if alloc (chunkArrayInit * 8) then
    some ⟨chunkArrayInit, chunksizeBits, srcSnap, tgtSnap, [], chunkArrayInit * 8⟩
  else none

/-- `cl->chunks[cl->count++] = chunkaddr`. -/
def ChangeList.store (cl : ChangeList) (chunkaddr : Nat) : ChangeList := { cl with chunks := cl.chunks ++ [chunkaddr] }

def appendChangeList (alloc : Nat → Bool) (cl : ChangeList) (chunkaddr : Nat) : Option ChangeList :=
  if cl.chunks.length + 1 ≥ cl.length then
    let bytes := (cl.length * 2 * 8) % 2 ^ 64
    if alloc bytes then some ({ cl with length := (cl.length * 2) % 2 ^ 64, allocated := bytes }.store chunkaddr) else none
  else some (cl.store chunkaddr)

/-! ### The file -/

/-- `"rln"`. -/
def changelistMagicId : Bytes := [0x72, 0x6c, 0x6e]

/-- `strncpy`: the string, filled up with zeros. -/
def strncpy (n : Nat) (s : Bytes) : Bytes := (s ++ List.replicate n 0).take n

/-- Whether `strncmp` is 0; the second string ends with a zero. -/
def strncmpEq : Nat → Bytes → Bytes → Bool
  | 0, _, _ => true
  | _ + 1, [], _ => false
  | _ + 1, c :: _, [] => c == 0
  | n + 1, c :: s, d :: t => c == d && (c == 0 || strncmpEq n s t)

/-- `sizeof(struct cl_header)`. -/
def clHeaderSize : Nat := 20

/-- `struct cl_header`. -/
def clHeader (cl : ChangeList) : Bytes :=
  strncpy 8 changelistMagicId ++ pack [4, 4, 4] [cl.chunksizeBits, cl.srcSnap, cl.tgtSnap]

/-- The array as it is written. -/
def chunkBytes (chunks : List Nat) : Bytes := chunks.flatMap (leBytes 8)

/-- `u64 marker = -1`. -/
def marker : Nat := 2 ^ 64 - 1

/-- The writes of `write_changelist`. -/
inductive ClWrite where
  | header
  | chunks
  | marker

/-- `write_changelist`: what is in the file, and the result.  `failure` tells which of the three writes stops early. -/
def writeChangelist (failure : ClWrite → Option (Nat × Errno)) (cl : ChangeList) : Bytes × Int :=
  match fdwrite (clHeader cl) (failure .header) with
  | some (out, _) => (out, -1)
  | none =>
    match fdwrite (chunkBytes cl.chunks) (failure .chunks) with
    | some (out, _) => (clHeader cl ++ out, -1)
    | none =>
      match fdwrite (leBytes 8 marker) (failure .marker) with
      | some (out, err) => (clHeader cl ++ chunkBytes cl.chunks ++ out, err)
      | none => (clHeader cl ++ chunkBytes cl.chunks ++ leBytes 8 marker, 0)

/-- What keeps `read_changelist` from a result. -/
inductive ReadError where
  | tooShort
  | wrongMagic
  | incomplete
  | noMemory
  deriving DecidableEq

/-- The loop of `read_changelist`.  The first argument bounds the rounds: one for every byte is enough. -/
def readChunks (alloc : Nat → Bool) : Nat → ChangeList → Bytes → Except ReadError ChangeList
  | 0, _, _ => .error .incomplete
  | fuel + 1, cl, file =>
    if file = [] then .ok cl
    else if file.length < 8 then .error .incomplete
    else
      let chunkaddr := leNat (file.take 8)
      if chunkaddr = marker then .ok cl
      else
        match appendChangeList alloc cl chunkaddr with
        | none => .error .noMemory
        | some cl => readChunks alloc fuel cl (file.drop 8)

def readChangelist (alloc : Nat → Bool) (file : Bytes) : Except ReadError ChangeList :=
  if file.length < clHeaderSize then .error .tooShort
  else if !strncmpEq 8 (file.take 8) changelistMagicId then .error .wrongMagic
  else
    let fields := unpack [4, 4, 4] ((file.drop 8).take 12)
    match initChangeList alloc (fields.getD 0 0) (fields.getD 1 0) (fields.getD 2 0) with
    | none => .error .noMemory
    | some cl => readChunks alloc (file.length + 1) cl (file.drop clHeaderSize)

/-! ### The array grows in time -/

/-- There is room for one more entry, and the array is as long as the list takes it to be. -/
structure ChangeList.Roomy (cl : ChangeList) : Prop where
  room : cl.chunks.length < cl.length
  allocated : cl.allocated = 8 * cl.length

/-- The numbers of a list are of their types, and its entries are an object in memory. -/
structure ChangeList.Typed (cl : ChangeList) : Prop where
  chunksizeBits : cl.chunksizeBits < 2 ^ 32
  srcSnap : cl.srcSnap < 2 ^ 32
  tgtSnap : cl.tgtSnap < 2 ^ 32
  entries : ∀ c ∈ cl.chunks, c < 2 ^ 64
  object : 8 * cl.chunks.length < 2 ^ 63

variable {alloc : Nat → Bool} {cl cl' : ChangeList} {chunkaddr fuel : Nat} {chunks : List Nat} {file rest : Bytes}

/-- An entry is stored inside the array. -/
private theorem append_roomy (h : cl.Roomy) (hlen : 8 * (cl.chunks.length + 1) < 2 ^ 63)
    (happ : appendChangeList alloc cl chunkaddr = some cl') :
    cl'.Roomy ∧ cl'.chunks = cl.chunks ++ [chunkaddr] ∧ cl'.chunksizeBits = cl.chunksizeBits ∧
      cl'.srcSnap = cl.srcSnap ∧ cl'.tgtSnap = cl.tgtSnap := by
  have hroom := h.room
  unfold appendChangeList at happ
  split at happ
  · dsimp only at happ
    split at happ
    · cases happ
      refine ⟨⟨?_, ?_⟩, rfl, rfl, rfl, rfl⟩
      · simp only [ChangeList.store, List.length_append, List.length_singleton]
        omega
      · simp only [ChangeList.store]
        omega
    · cases happ
  · cases happ
    refine ⟨⟨?_, h.allocated⟩, rfl, rfl, rfl, rfl⟩
    simp only [ChangeList.store, List.length_append, List.length_singleton]
    omega

/-- Entries are appended one after the other. -/
def appendChunks (alloc : Nat → Bool) : ChangeList → List Nat → Option ChangeList
  | cl, [] => some cl
  | cl, chunkaddr :: chunks => (appendChangeList alloc cl chunkaddr).bind fun cl => appendChunks alloc cl chunks

private theorem appendChunks_roomy (h : cl.Roomy) (hlen : 8 * (cl.chunks.length + chunks.length) < 2 ^ 63)
    (happ : appendChunks alloc cl chunks = some cl') :
    cl'.Roomy ∧ cl'.chunks = cl.chunks ++ chunks ∧ cl'.chunksizeBits = cl.chunksizeBits ∧
      cl'.srcSnap = cl.srcSnap ∧ cl'.tgtSnap = cl.tgtSnap := by
  induction chunks generalizing cl with
  | nil =>
    cases happ
    exact ⟨h, (List.append_nil _).symm, rfl, rfl, rfl⟩
  | cons c chunks ih =>
    rw [List.length_cons] at hlen
    obtain ⟨cl1, hone, happ⟩ := Option.bind_eq_some_iff.1 happ
    obtain ⟨h1, hchunks, hbits, hsrc, htgt⟩ := append_roomy h (by omega) hone
    have hlen1 : 8 * (cl1.chunks.length + chunks.length) < 2 ^ 63 := by
      rw [hchunks, List.length_append, List.length_singleton]
      omega
    obtain ⟨hroomy, hall, hbits', hsrc', htgt'⟩ := ih h1 hlen1 happ
    refine ⟨hroomy, ?_, hbits'.trans hbits, hsrc'.trans hsrc, htgt'.trans htgt⟩
    rw [hall, hchunks, List.append_assoc]
    rfl

private theorem appendChunks_isSome (halloc : ∀ n, alloc n = true) (cl : ChangeList) (chunks : List Nat) :
    ∃ cl', appendChunks alloc cl chunks = some cl' := by
  induction chunks generalizing cl with
  | nil => exact ⟨cl, rfl⟩
  | cons c chunks ih =>
    obtain ⟨cl1, hone⟩ : ∃ cl1, appendChangeList alloc cl c = some cl1 := by
      unfold appendChangeList
      split
      · exact ⟨_, if_pos (halloc _)⟩
      · exact ⟨_, rfl⟩
    rw [appendChunks, hone]
    exact ih cl1

/-! ### What is read -/

private theorem readChunks_marker (fuel : Nat) (cl : ChangeList) (rest : Bytes) :
    readChunks alloc (fuel + 1) cl (leBytes 8 marker ++ rest) = .ok cl := by
  have hne : leBytes 8 marker ++ rest ≠ [] := by simp [leBytes]
  have htake : (leBytes 8 marker ++ rest).take 8 = leBytes 8 marker := List.take_left' (length_leBytes _ _)
  rw [readChunks, if_neg hne, if_neg (by simp), htake, leNat_leBytes (by decide), if_pos rfl]

/-- The entries are appended one after the other, up to the marker. -/
private theorem readChunks_chunks (alloc : Nat → Bool) (cl : ChangeList) (hwords : ∀ c ∈ chunks, c < 2 ^ 64)
    (hmark : ∀ c ∈ chunks, c ≠ marker) (hfuel : chunks.length < fuel) :
    readChunks alloc fuel cl (chunkBytes chunks ++ leBytes 8 marker) =
      (appendChunks alloc cl chunks).elim (.error .noMemory) .ok := by
  induction chunks generalizing cl fuel with
  | nil =>
    obtain ⟨fuel, rfl⟩ : ∃ k, fuel = k + 1 := ⟨fuel - 1, by omega⟩
    rw [← List.append_nil (leBytes 8 marker)]
    exact readChunks_marker fuel cl []
  | cons c chunks ih =>
    rw [List.length_cons] at hfuel
    obtain ⟨fuel, rfl⟩ : ∃ k, fuel = k + 1 := ⟨fuel - 1, by omega⟩
    have hsplit : chunkBytes (c :: chunks) ++ leBytes 8 marker =
        leBytes 8 c ++ (chunkBytes chunks ++ leBytes 8 marker) := List.append_assoc _ _ _
    have hne : leBytes 8 c ++ (chunkBytes chunks ++ leBytes 8 marker) ≠ [] := by simp [leBytes]
    rw [hsplit, readChunks, if_neg hne, if_neg (by simp), List.take_left' (length_leBytes _ _),
      List.drop_left' (length_leBytes _ _), leNat_leBytes (hwords c List.mem_cons_self)]
    dsimp only
    rw [if_neg (hmark c List.mem_cons_self), appendChunks]
    cases appendChangeList alloc cl c with
    | none => rfl
    | some cl1 =>
      exact ih cl1 (fun c hc => hwords c (List.mem_cons_of_mem _ hc)) (fun c hc => hmark c (List.mem_cons_of_mem _ hc))
        (by omega)

private theorem length_clFields (a b c : Nat) : (pack [4, 4, 4] [a, b, c]).length = 12 := length_pack rfl

private theorem length_clHeader (cl : ChangeList) : (clHeader cl).length = clHeaderSize := by
  rw [clHeader, List.length_append, length_clFields]
  rfl

private theorem length_chunkBytes (chunks : List Nat) : (chunkBytes chunks).length = 8 * chunks.length := by
  induction chunks with
  | nil => rfl
  | cons c chunks ih =>
    rw [chunkBytes, List.flatMap_cons, List.length_append, length_leBytes, ← chunkBytes, ih, List.length_cons]
    omega

private theorem writeChangelist_ok {failure : ClWrite → Option (Nat × Errno)}
    (h : writeChangelist failure cl = (file, 0)) :
    file = clHeader cl ++ chunkBytes cl.chunks ++ leBytes 8 marker := by
  unfold writeChangelist at h
  split at h
  · cases h
  · split at h
    · cases h
    · split at h
      · rename_i out err hw
        have herr := fdwrite_neg hw
        cases h
        omega
      · cases h
        rfl

/-- The header is accepted, and the rest is read into a new list. -/
private theorem readChangelist_header (alloc : Nat → Bool) (hcl : cl.Typed) (rest : Bytes) :
    readChangelist alloc (clHeader cl ++ rest) =
      (initChangeList alloc cl.chunksizeBits cl.srcSnap cl.tgtSnap).elim (.error .noMemory) fun new =>
        readChunks alloc ((clHeader cl ++ rest).length + 1) new rest := by
  have hfits : Fits [4, 4, 4] [cl.chunksizeBits, cl.srcSnap, cl.tgtSnap] :=
    .cons hcl.chunksizeBits (.cons hcl.srcSnap (.cons hcl.tgtSnap .nil))
  have hmagic : (clHeader cl ++ rest).take 8 = strncpy 8 changelistMagicId := by
    rw [clHeader, List.append_assoc]
    exact List.take_left' rfl
  have hfields : ((clHeader cl ++ rest).drop 8).take 12 = pack [4, 4, 4] [cl.chunksizeBits, cl.srcSnap, cl.tgtSnap] := by
    have hdrop : (clHeader cl ++ rest).drop 8 = pack [4, 4, 4] [cl.chunksizeBits, cl.srcSnap, cl.tgtSnap] ++ rest := by
      rw [clHeader, List.append_assoc]
      exact List.drop_left' rfl
    rw [hdrop]
    exact List.take_left' (length_clFields _ _ _)
  have hlong : ¬(clHeader cl ++ rest).length < clHeaderSize := by
    rw [List.length_append, length_clHeader]
    omega
  have haccepted : ¬(!strncmpEq 8 (strncpy 8 changelistMagicId) changelistMagicId) = true := by decide
  rw [readChangelist, if_neg hlong, hmagic, if_neg haccepted, hfields, unpack_pack hfits,
    List.drop_left' (length_clHeader cl)]
  simp only [List.getD_cons_zero, List.getD_cons_succ]
  cases initChangeList alloc cl.chunksizeBits cl.srcSnap cl.tgtSnap <;> rfl

private theorem initChangeList_roomy {a b c : Nat} (h : initChangeList alloc a b c = some cl) :
    cl.Roomy ∧ cl.chunks = [] ∧ cl.chunksizeBits = a ∧ cl.srcSnap = b ∧ cl.tgtSnap = c := by
  unfold initChangeList at h
  split at h
  · cases h
    exact ⟨⟨Nat.zero_lt_succ _, rfl⟩, rfl, rfl, rfl, rfl⟩
  · cases h

/-- A changelist file that was written is read back as it was, and on the way the entries are always inside the array
that is allocated for them. -/
theorem changelist_roundtrip (alloc : Nat → Bool) (failure : ClWrite → Option (Nat × Errno)) (cl : ChangeList) (file : Bytes)
    (hcl : cl.Typed) (hmark : ∀ c ∈ cl.chunks, c ≠ 2 ^ 64 - 1) (hwrite : writeChangelist failure cl = (file, 0)) :
    (∀ k ≤ cl.chunks.length, ∀ new part, initChangeList alloc cl.chunksizeBits cl.srcSnap cl.tgtSnap = some new →
      appendChunks alloc new (cl.chunks.take k) = some part →
        part.chunks = cl.chunks.take k ∧ k ≤ part.length ∧ part.allocated = 8 * part.length) ∧
    (readChangelist alloc file = .error .noMemory ∨ ∃ new, readChangelist alloc file = .ok new ∧
      new.srcSnap = cl.srcSnap ∧ new.tgtSnap = cl.tgtSnap ∧ new.chunksizeBits = cl.chunksizeBits ∧
      new.chunks = cl.chunks ∧ new.chunks.length ≤ new.length ∧ new.allocated = 8 * new.length) ∧
    ((∀ n, alloc n = true) → readChangelist alloc file ≠ .error .noMemory) := by
  have hobject := hcl.object
  have hgrow : ∀ {new part chunks}, initChangeList alloc cl.chunksizeBits cl.srcSnap cl.tgtSnap = some new →
      8 * chunks.length < 2 ^ 63 → appendChunks alloc new chunks = some part →
      part.Roomy ∧ part.chunks = chunks ∧ part.chunksizeBits = cl.chunksizeBits ∧ part.srcSnap = cl.srcSnap ∧
        part.tgtSnap = cl.tgtSnap := by
    intro new part chunks hnew hlen happ
    obtain ⟨hroomy, hnil, hbits, hsrc, htgt⟩ := initChangeList_roomy hnew
    have := appendChunks_roomy hroomy (by rw [hnil, List.length_nil]; omega) happ
    rwa [hnil, List.nil_append, hbits, hsrc, htgt] at this
  obtain rfl := writeChangelist_ok hwrite
  have hread : readChangelist alloc (clHeader cl ++ chunkBytes cl.chunks ++ leBytes 8 marker) =
      (initChangeList alloc cl.chunksizeBits cl.srcSnap cl.tgtSnap).elim (.error .noMemory) fun new =>
        (appendChunks alloc new cl.chunks).elim (.error .noMemory) .ok := by
    rw [List.append_assoc, readChangelist_header alloc hcl]
    congr 1
    funext new
    refine readChunks_chunks alloc new hcl.entries hmark ?_
    rw [List.length_append, List.length_append, length_chunkBytes]
    omega
  refine ⟨fun k hk new part hnew happ => ?_, ?_, fun halloc => ?_⟩
  · have hlen : (cl.chunks.take k).length = k := List.length_take_of_le hk
    obtain ⟨hroomy, hchunks, -⟩ := hgrow hnew (by omega) happ
    have hroom := hroomy.room
    rw [hchunks, hlen] at hroom
    exact ⟨hchunks, by omega, hroomy.allocated⟩
  · rw [hread]
    cases hnew : initChangeList alloc cl.chunksizeBits cl.srcSnap cl.tgtSnap with
    | none => exact .inl rfl
    | some new =>
      cases happ : appendChunks alloc new cl.chunks with
      | none => exact .inl (by simp only [Option.elim, happ])
      | some part =>
        obtain ⟨hroomy, hchunks, hbits, hsrc, htgt⟩ := hgrow hnew hobject happ
        exact .inr ⟨part, by simp only [Option.elim, happ], hsrc, htgt, hbits, hchunks, Nat.le_of_lt hroomy.room,
          hroomy.allocated⟩
  · obtain ⟨part, happ⟩ := appendChunks_isSome halloc
      ⟨chunkArrayInit, cl.chunksizeBits, cl.srcSnap, cl.tgtSnap, [], chunkArrayInit * 8⟩ cl.chunks
    rw [hread, initChangeList, if_pos (halloc _), Option.elim_some, happ]
    nofun

/-- The chunks 5 and 7 of 4 KiB between the snapshots 1 and 2. -/
def shortList : ChangeList := ⟨1024, 12, 1, 2, [5, 7], 8192⟩

theorem changelist_roundtrip_short :
    (writeChangelist (fun _ => none) shortList).1.length = 44 ∧ ∃ new,
      readChangelist (fun _ => true) (writeChangelist (fun _ => none) shortList).1 = .ok new ∧ new.chunks = [5, 7] := by
  refine ⟨by decide +kernel, ?_⟩
  obtain ⟨-, hread, hmem⟩ := changelist_roundtrip (fun _ => true) (fun _ => none) shortList _
    ⟨by decide, by decide, by decide, by decide, by decide⟩ (by decide) rfl
  obtain ⟨new, hnew, -, -, -, hchunks, -⟩ := hread.resolve_left (hmem fun _ => rfl)
  exact ⟨new, hnew, hchunks⟩

end Ddsnap.ChangelistFile
