import OperatingSystem.Fs.Store

namespace OperatingSystem.Fs

open Bytes

namespace InodePtr

variable (p : InodePtr)

/-- The lookup of block `n` is left to the indirect block, which ends before `n`. -/
def Misled (n : Int) : Prop := 2058 ≤ n ∧ p.pointer .dindirect = 0 ∧ p.pointer .indirect ≠ 0

def Inside (n : Int) : Prop := n < MAX_FILE_BLOCKS ∧ ¬ p.Misled n

def Finds (n : Int) : Prop :=
  p.testfs_read_block n = .ok (p.pointer (target n.toNat), p.content n.toNat)

end InodePtr

section Lookups

variable {p : InodePtr} (nonneg : ∀ k, 0 ≤ p.pointer k) {n : Nat}
include nonneg

theorem lookup_found (small : n < MAX_FILE_BLOCKS) (fine : ¬ p.Misled n) :
    p.lookup n = .ok (p.pointer (target n)) := by
  have found : ∃ v, p.lookup n = .ok v := by
    simp only [MAX_FILE_BLOCKS] at small
    simp only [InodePtr.lookup, NR_DIRECT_BLOCKS, NR_INDIRECT_BLOCKS]
    by_cases direct : n < 10
    · rw [dif_pos direct]
      exact ⟨_, rfl⟩
    rw [dif_neg direct]
    by_cases double : 2048 ≤ n - 10 ∧ 0 < p.dinode.i_dindirect.toInt
    · have outside : (n - 10 - 2048) / 2048 < 2048 := by omega
      have inside : (n - 10 - 2048) % 2048 < 2048 := by omega
      rw [if_pos double, read_block_eq double.2, Result.ok_bind, lookupEntry, if_pos outside, Result.ok_bind]
      split_ifs with real
      · rw [read_block_eq real, Result.ok_bind, lookupEntry, if_pos inside]
        exact ⟨_, rfl⟩
      · exact ⟨_, rfl⟩
    rw [if_neg double]
    by_cases single : 0 < p.dinode.i_indirect.toInt
    · have low : 0 ≤ p.dinode.i_dindirect.toInt := nonneg .dindirect
      have inside : n - 10 < 2048 := by
        by_contra outside
        exact fine ⟨by omega, by change p.dinode.i_dindirect.toInt = 0; omega, ne_of_gt single⟩
      rw [if_pos single, read_block_eq single, Result.ok_bind, lookupEntry, if_pos inside]
      exact ⟨_, rfl⟩
    · rw [if_neg single]
      exact ⟨_, rfl⟩
  obtain ⟨v, look⟩ := found
  rw [look, lookup_eq nonneg look small]

theorem lookup_misled (misled : p.Misled n) : p.lookup n = .error .outOfTable := by
  obtain ⟨high, absent, present⟩ := misled
  have single : 0 < p.dinode.i_indirect.toInt := lt_of_le_of_ne (nonneg .indirect) (Ne.symm present)
  have double : ¬ (2048 ≤ n - 10 ∧ 0 < p.dinode.i_dindirect.toInt) := by
    rintro ⟨-, real⟩
    exact ne_of_gt real absent
  have direct : ¬ n < 10 := by omega
  have outside : ¬ n - 10 < 2048 := by omega
  simp only [InodePtr.lookup, NR_DIRECT_BLOCKS, NR_INDIRECT_BLOCKS]
  rw [dif_neg direct, if_neg double, if_pos single, read_block_eq single, Result.ok_bind, lookupEntry,
    if_neg outside]

theorem lookup_beyond (large : MAX_FILE_BLOCKS ≤ n) :
    p.lookup n = if p.pointer .indirect = 0 ∧ p.pointer .dindirect = 0 then .ok 0 else .error .outOfTable := by
  simp only [MAX_FILE_BLOCKS] at large
  by_cases double : p.pointer .dindirect = 0
  · by_cases single : p.pointer .indirect = 0
    · have absent : ¬ 0 < p.dinode.i_dindirect.toInt := not_lt.mpr (le_of_eq double)
      have absent' : ¬ 0 < p.dinode.i_indirect.toInt := not_lt.mpr (le_of_eq single)
      have direct : ¬ n < 10 := by omega
      rw [if_pos ⟨single, double⟩]
      simp only [InodePtr.lookup, NR_DIRECT_BLOCKS, direct, dif_neg, not_false_eq_true, absent, and_false,
        if_false, absent']
      rfl
    · rw [if_neg (fun both => single both.1)]
      exact lookup_misled nonneg ⟨by omega, double, single⟩
  · have real : 0 < p.dinode.i_dindirect.toInt := lt_of_le_of_ne (nonneg .dindirect) (Ne.symm double)
    have direct : ¬ n < 10 := by omega
    have behind : 2048 ≤ n - 10 := by omega
    have outside : ¬ (n - 10 - 2048) / 2048 < 2048 := by omega
    rw [if_neg (fun both => double both.2)]
    simp only [InodePtr.lookup, NR_DIRECT_BLOCKS, NR_INDIRECT_BLOCKS]
    rw [dif_neg direct, if_pos ⟨behind, real⟩, read_block_eq real, Result.ok_bind, lookupEntry,
      if_neg outside]
    rfl

variable {n : Int} (low : 0 ≤ n)
include low

theorem testfs_read_block_found (small : n < MAX_FILE_BLOCKS) (fine : ¬ p.Misled n) : p.Finds n := by
  have look : p.lookup n.toNat = .ok (p.pointer (target n.toNat)) :=
    lookup_found nonneg (by omega) (by rwa [Int.toNat_of_nonneg low])
  simp only [InodePtr.Finds, InodePtr.testfs_read_block, assert, if_pos low, Result.ok_bind, look,
    InodePtr.content, content]
  split_ifs with real
  · rw [read_block_eq real]
    rfl
  · rfl

theorem testfs_read_block_misled (misled : p.Misled n) : p.testfs_read_block n = .error .outOfTable := by
  have look : p.lookup n.toNat = .error .outOfTable :=
    lookup_misled nonneg (by rwa [Int.toNat_of_nonneg low])
  simp only [InodePtr.testfs_read_block, assert, if_pos low, Result.ok_bind, look, Result.error_bind]

/-- The lookup is right except where it takes the indirect block for the double-indirect one. -/
theorem testfs_read_block_iff (small : n < MAX_FILE_BLOCKS) : p.Finds n ↔ ¬ p.Misled n := by
  constructor
  · intro finds misled
    rw [InodePtr.Finds, testfs_read_block_misled nonneg low misled] at finds
    cases finds
  · exact testfs_read_block_found nonneg low small

end Lookups

def indirectOnly : InodePtr where
  sb := testfs_init_super_block fun _ => zero
  inode := { dinode := { DInode.zero with i_indirect := 146 }, dirty := false, i_nr := 1, i_count := 1 }

theorem indirectOnly_pointer (k : Place) : indirectOnly.pointer k = if k = .indirect then 146 else 0 := by
  have table (b : Int) (i : Nat) : child (fun _ => zero) b i = 0 := by
    unfold child
    split_ifs
    · exact entry_zero i
    · rfl
  cases k with
  | indirectEntry i => exact table 146 i
  | dindirectEntry i => exact table 0 i
  | leaf i j => exact table _ j
  | _ => rfl

theorem indirectOnly_nonneg (k : Place) : 0 ≤ indirectOnly.pointer k := by
  rw [indirectOnly_pointer]
  split_ifs <;> decide

/-- Block 2058 is looked for in entry 2048 of the indirect block. -/
theorem testfs_read_block_fails :
    (∀ k, 0 ≤ indirectOnly.pointer k) ∧ indirectOnly.testfs_read_block 2058 = .error .outOfTable ∧
      ¬ indirectOnly.Finds 2058 := by
  have misled : indirectOnly.Misled 2058 := ⟨by decide, by simp [indirectOnly_pointer], by simp [indirectOnly_pointer]⟩
  have run := testfs_read_block_misled indirectOnly_nonneg (by decide) misled
  refine ⟨indirectOnly_nonneg, run, fun finds => ?_⟩
  rw [InodePtr.Finds, run] at finds
  cases finds

theorem testfs_read_block_iff_last : indirectOnly.Finds 2057 ↔ ¬ indirectOnly.Misled 2057 :=
  testfs_read_block_iff indirectOnly_nonneg (by decide) (by decide)

end OperatingSystem.Fs
