import OperatingSystem.Fs.Owned

namespace OperatingSystem.Fs

open Bytes Ownership

theorem Bitmap.nr_allocated_empty {b : Bitmap} (clear : ∀ i, i < b.nbits → b.bitmap_isset i = false) :
    b.bitmap_nr_allocated = 0 := by
  rw [bitmap_nr_allocated, Nat.count_eq_card_filter_range, Finset.card_eq_zero, Finset.filter_eq_empty_iff]
  intro i inside
  simp [clear i (Finset.mem_range.mp inside)]

theorem bitmap_isset_zero {b : Bitmap} {i : Nat} (word : b.v (i / 8) = 0) : b.bitmap_isset i = false := by
  rw [Bitmap.bitmap_isset_eq, word]
  simp

def SuperBlock.made (dev : Disk) (max_fs_blocks : UInt64) : SuperBlock :=
  testfs_init_super_block (makeImage dev max_fs_blocks)

section Made

variable (dev : Disk) (max_fs_blocks : UInt64)

theorem zero_blocks_inside {start nr b : Nat} (inside : start ≤ b ∧ b < start + nr) :
    zero_blocks dev start nr b = zero := by
  rw [zero_blocks, write_blocks, if_pos inside]
  rfl

theorem zero_blocks_outside {start nr b : Nat} (outside : ¬ (start ≤ b ∧ b < start + nr)) :
    zero_blocks dev start nr b = dev b := by
  rw [zero_blocks, write_blocks, if_neg outside]

theorem makeImage_super_block :
    DSuperBlock.ofMemory (makeImage dev max_fs_blocks 0) = testfs_make_super_block max_fs_blocks := by
  rw [makeImage, Function.update_self, DSuperBlock.ofMemory_bytes]

theorem makeImage_zero {b : Nat} (low : 1 ≤ b) (high : b < 146) : makeImage dev max_fs_blocks b = zero := by
  rw [makeImage, Function.update_of_ne (by omega)]
  have freemap : (testfs_make_super_block max_fs_blocks).inode_freemap_start.toNat = 1 := rfl
  have blocks : (testfs_make_super_block max_fs_blocks).block_freemap_start.toNat = 2 := rfl
  have inodes : (testfs_make_super_block max_fs_blocks).inode_blocks_start.toNat = 18 := rfl
  simp only [freemap, blocks, inodes, INODE_FREEMAP_SIZE, BLOCK_FREEMAP_SIZE, NR_INODE_BLOCKS]
  by_cases third : 18 ≤ b ∧ b < 18 + 128
  · rw [zero_blocks_inside _ third]
  rw [zero_blocks_outside _ third]
  by_cases second : 2 ≤ b ∧ b < 2 + 16
  · rw [zero_blocks_inside _ second]
  rw [zero_blocks_outside _ second, zero_blocks_inside _ (by omega)]

theorem makeImage_other {b : Nat} (high : 146 ≤ b) : makeImage dev max_fs_blocks b = dev b := by
  rw [makeImage, Function.update_of_ne (by omega)]
  have freemap : (testfs_make_super_block max_fs_blocks).inode_freemap_start.toNat = 1 := rfl
  have blocks : (testfs_make_super_block max_fs_blocks).block_freemap_start.toNat = 2 := rfl
  have inodes : (testfs_make_super_block max_fs_blocks).inode_blocks_start.toNat = 18 := rfl
  simp only [freemap, blocks, inodes, INODE_FREEMAP_SIZE, BLOCK_FREEMAP_SIZE, NR_INODE_BLOCKS]
  rw [zero_blocks_outside _ (by omega), zero_blocks_outside _ (by omega), zero_blocks_outside _ (by omega),
    Function.update_of_ne (by omega)]

theorem made_free : (SuperBlock.made dev max_fs_blocks).free = max_fs_blocks.toNat := by
  have sb : (SuperBlock.made dev max_fs_blocks).sb = testfs_make_super_block max_fs_blocks :=
    makeImage_super_block dev max_fs_blocks
  rw [SuperBlock.free, sb]
  rfl

theorem made_inode_freemap (i : Nat) (inside : i < 65536) :
    (SuperBlock.made dev max_fs_blocks).inode_freemap.bitmap_isset i = false := by
  apply bitmap_isset_zero
  simp only [SuperBlock.made, testfs_init_super_block, read_blocks, makeImage_super_block, BLOCK_SIZE]
  have start : (testfs_make_super_block max_fs_blocks).inode_freemap_start.toNat = 1 := rfl
  rw [start, makeImage_zero _ _ (by omega) (by omega)]
  rfl

theorem made_block_freemap (i : Nat) (inside : i < 1048576) :
    (SuperBlock.made dev max_fs_blocks).block_freemap.bitmap_isset i = false := by
  apply bitmap_isset_zero
  simp only [SuperBlock.made, testfs_init_super_block, read_blocks, makeImage_super_block, BLOCK_SIZE]
  have start : (testfs_make_super_block max_fs_blocks).block_freemap_start.toNat = 2 := rfl
  rw [start, makeImage_zero _ _ (by omega) (by omega)]
  rfl

theorem made_accounts (bounded : max_fs_blocks.toNat ≤ 1048576) : Accounts (SuperBlock.made dev max_fs_blocks) := by
  have sb : (SuperBlock.made dev max_fs_blocks).sb = testfs_make_super_block max_fs_blocks :=
    makeImage_super_block dev max_fs_blocks
  refine ⟨⟨?_, ?_, ?_, ?_, rfl, rfl⟩, ?_, ?_, ?_, ?_, ⟨rfl, fun _ _ => rfl, fun _ _ => rfl⟩⟩
  · rw [sb]
    rfl
  · rw [sb]
    rfl
  · rw [sb]
    rfl
  · rw [sb]
    rfl
  · rw [sb, Bitmap.nr_allocated_empty (made_inode_freemap dev max_fs_blocks)]
    rfl
  · rw [sb, Bitmap.nr_allocated_empty (made_block_freemap dev max_fs_blocks)]
    rfl
  · rw [sb]
    exact Nat.zero_le _
  · rwa [sb]

theorem pointer_zero (k : Place) : pointer dev DInode.zero k = 0 := by
  cases k <;> rfl

theorem made_owned (bounded : max_fs_blocks.toNat ≤ 1048576) :
    Owned (SuperBlock.made dev max_fs_blocks) fun _ => DInode.zero where
  exact := by
    refine ⟨fun i k taken => absurd (pointer_zero _ k) taken, fun i k _ _ taken => absurd (pointer_zero _ k) taken,
      fun b inUse => ?_⟩
    obtain ⟨k, inside, -, set⟩ := (SuperBlock.marked_iff (made_accounts dev max_fs_blocks bounded).layout).mp inUse
    rw [made_block_freemap dev max_fs_blocks k inside] at set
    cases set
  counts i := by
    rw [count_eq_zero.mpr (pointer_zero _)]
    rfl

def InodePtr.made (i_size : Int64) : InodePtr where
  sb := SuperBlock.made dev max_fs_blocks
  inode := { dinode := { DInode.zero with i_size }, dirty := false, i_nr := 1, i_count := 1 }

theorem made_pointer (i_size : Int64) (k : Place) : (InodePtr.made dev max_fs_blocks i_size).pointer k = 0 := by
  cases k <;> rfl

theorem made_holds (bounded : max_fs_blocks.toNat ≤ 1048576) (i_size : Int64) :
    Holds (InodePtr.made dev max_fs_blocks i_size) fun _ => DInode.zero where
  accounts := made_accounts dev max_fs_blocks bounded
  number := show 1 < NR_INODES by decide
  owned := by
    have owned := made_owned dev max_fs_blocks bounded
    have empty (i : Nat) (k : Place) : pointer (InodePtr.made dev max_fs_blocks i_size).sb.dev
        ((InodePtr.made dev max_fs_blocks i_size).view (fun _ => DInode.zero) i) k = 0 := by
      by_cases here : i = 1
      · subst here
        exact made_pointer dev max_fs_blocks i_size k
      · simp only [InodePtr.view, InodePtr.made, Function.update_of_ne here]
        exact pointer_zero _ k
    refine ⟨⟨fun i k taken => absurd (empty i k) taken, fun i k _ _ taken => absurd (empty i k) taken,
      fun b inUse => ?_⟩, fun i => ?_⟩
    · obtain ⟨nonzero, i, k, here⟩ := owned.exact.found b inUse
      exact absurd ((pointer_zero _ k).symm.trans here).symm nonzero
    · rw [count_eq_zero.mpr (empty i)]
      by_cases here : (i : Nat) = 1
      · simp [InodePtr.view, InodePtr.made, here, DInode.zero]
      · simp [InodePtr.view, InodePtr.made, Function.update_of_ne here, DInode.zero]

end Made

end OperatingSystem.Fs
