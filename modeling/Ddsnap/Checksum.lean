import Ddsnap.Journal

/-!
# Checksums of commit blocks

`checksum_block` adds the first `allocsize_bits >> 2` words of a commit block, not all of them.  With blocks of less
than 4096 bytes these are the two words of the magic, so no commit block passes (`checksumBlock_small`).  With larger
blocks the commit block passes when the words that `commit_transaction` fills in after the checksum, as far as they
are summed, add up to zero (`checksumBlock_newCommit`); up to `2 ^ 23` bytes none of them is summed.
-/

namespace Ddsnap

variable {D : Type}

/-- The words of a commit block that are filled in after its checksum was taken. -/
def lateWords (snapfree metafree : Nat) (alloc : AllocRange) : List Nat :=
  words64 snapfree ++ words64 metafree ++ words64 alloc.chunk ++ [alloc.barrier.toNat + 2 * alloc.count, 0]

/-- The part of the late words that `checksum_block` adds up. -/
def lateSum (bits snapfree metafree : Nat) (alloc : AllocRange) : Nat :=
  ((lateWords snapfree metafree alloc).take (bits / 4 - 5)).sum % 2 ^ 32

theorem lateSum_small {bits : Nat} (h : bits < 24) (snapfree metafree : Nat) (alloc : AllocRange) :
    lateSum bits snapfree metafree alloc = 0 := by
  rw [lateSum, show bits / 4 - 5 = 0 by omega]
  rfl

theorem words_eq (c : CommitBlock) :
    c.words = 0x4947414d :: 0x4d554e43 :: c.checksum :: c.sequence :: c.sector.length ::
      (lateWords c.snapfree c.metafree c.alloc ++ c.sector.flatMap words64) := by
  simp [CommitBlock.words, lateWords, jmagic, List.append_assoc]

/-- Words before the late ones, the late ones and the words after them, as far as the sum goes. -/
private theorem sum_take_words (n a b : Nat) (late rest : List Nat) (hl : late.length = 8) :
    ((a :: b :: (late ++ rest)).take n).sum =
      ([a, b].take n).sum + (late.take (n - 2)).sum + (rest.take (n - 10)).sum := by
  have : a :: b :: (late ++ rest) = [a, b] ++ (late ++ rest) := rfl
  rw [this, List.take_append, List.take_append, List.sum_append, List.sum_append, hl]
  simp [Nat.sub_sub, Nat.add_assoc]

private theorem checksumBlock_eq {bits : Nat} (hb : 12 ≤ bits) (c : CommitBlock) :
    checksumBlock bits c =
      (0x4947414d + 0x4d554e43 + c.checksum + ([c.sequence, c.sector.length].take (bits / 4 - 3)).sum +
        ((lateWords c.snapfree c.metafree c.alloc).take (bits / 4 - 5)).sum +
        ((c.sector.flatMap words64).take (bits / 4 - 13)).sum) % 2 ^ 32 := by
  obtain ⟨n, hn⟩ : ∃ n, bits / 4 = n + 3 := ⟨bits / 4 - 3, by omega⟩
  rw [checksumBlock, words_eq, hn]
  simp only [List.take_succ_cons, List.sum_cons]
  rw [sum_take_words n _ _ _ _ (by simp [lateWords, words64])]
  congr 1
  rw [show n + 3 - 3 = n by omega, show n + 3 - 5 = n - 2 by omega, show n + 3 - 13 = n - 10 by omega]
  omega

private theorem lateWords_zero_sum (n : Nat) : ((lateWords 0 0 ⟨0, 0, false⟩).take n).sum = 0 := by
  rw [List.sum_eq_zero_iff_forall_eq_nat]
  intro x hx
  have := List.mem_of_mem_take hx
  simpa [lateWords, words64] using this

/-- A commit block of `commit_transaction` passes when the late words that are summed add up to zero. -/
theorem checksumBlock_newCommit (sb : Sb D) (barrier : Bool) (hb : 12 ≤ sb.image.metadata.allocsizeBits) :
    checksumBlock sb.image.metadata.allocsizeBits (newCommit sb barrier) =
      lateSum sb.image.metadata.allocsizeBits sb.image.snapdata.freechunks sb.image.metadata.freechunks
        (newCommit sb barrier).alloc := by
  obtain ⟨hck, hsnap, hmeta, hseq, hsec⟩ : (newCommit sb barrier).checksum =
      (2 ^ 32 - checksumBlock sb.image.metadata.allocsizeBits
        ⟨0, sb.image.sequence, 0, 0, ⟨0, 0, false⟩, sb.dirtyBuffers⟩) % 2 ^ 32 ∧
      (newCommit sb barrier).snapfree = sb.image.snapdata.freechunks ∧
      (newCommit sb barrier).metafree = sb.image.metadata.freechunks ∧
      (newCommit sb barrier).sequence = sb.image.sequence ∧
      (newCommit sb barrier).sector = sb.dirtyBuffers := by
    unfold newCommit; split <;> split <;> exact ⟨rfl, rfl, rfl, rfl, rfl⟩
  rw [checksumBlock_eq hb, hck, hsnap, hmeta, hseq, hsec, checksumBlock_eq hb, lateWords_zero_sum, lateSum]
  dsimp only
  omega

/-- The commit blocks of `init_journal` pass. -/
theorem checksumBlock_initCommit (sb : Sb D) (i : Nat) (hb : 12 ≤ sb.image.metadata.allocsizeBits) :
    checksumBlock sb.image.metadata.allocsizeBits (initCommit sb i) = 0 := by
  rw [initCommit, checksumBlock_eq hb, checksumBlock_eq hb]
  dsimp only
  omega

/-- With blocks of 256 to 2048 bytes no commit block passes. -/
theorem checksumBlock_small {bits : Nat} (h8 : 8 ≤ bits) (h12 : bits < 12) (c : CommitBlock) :
    checksumBlock bits c ≠ 0 := by
  rw [checksumBlock, words_eq, show bits / 4 = 2 by omega, List.take_succ_cons, List.take_succ_cons, List.take_zero]
  decide

end Ddsnap
