import OperatingSystem.Fs.Super

namespace OperatingSystem.Fs

open Bytes

/-- The super block and both freemaps are on the disk as they are in memory. -/
structure OnDisk (s : SuperBlock) : Prop where
  super_block : DSuperBlock.ofMemory (s.dev 0) = s.sb
  inode_freemap : ∀ i, i < BLOCK_SIZE * INODE_FREEMAP_SIZE →
    read_blocks s.dev s.sb.inode_freemap_start.toNat i = s.inode_freemap.v i
  block_freemap : ∀ i, i < BLOCK_SIZE * BLOCK_FREEMAP_SIZE →
    read_blocks s.dev s.sb.block_freemap_start.toNat i = s.block_freemap.v i

structure Layout (s : SuperBlock) : Prop where
  inode_freemap_start : s.sb.inode_freemap_start = 1
  block_freemap_start : s.sb.block_freemap_start = 2
  inode_blocks_start : s.sb.inode_blocks_start = 18
  data_blocks_start : s.sb.data_blocks_start = 146
  inode_bits : s.inode_freemap.nbits = 65536
  block_bits : s.block_freemap.nbits = 1048576

structure Accounts (s : SuperBlock) : Prop where
  layout : Layout s
  used_inodes : s.sb.used_inode_count.toNat = s.inode_freemap.bitmap_nr_allocated
  used_blocks : s.sb.used_block_count.toNat = s.block_freemap.bitmap_nr_allocated
  within : s.sb.used_block_count.toNat ≤ s.sb.max_fs_blocks.toNat
  bounded : s.sb.max_fs_blocks.toNat ≤ 1048576
  onDisk : OnDisk s

namespace SuperBlock

def Marked (s : SuperBlock) (b : Int) : Prop :=
  s.sb.data_blocks_start.toNat ≤ b ∧ b < s.sb.data_blocks_start.toNat + s.block_freemap.nbits ∧
    s.block_freemap.bitmap_isset (b - s.sb.data_blocks_start.toNat).toNat = true

def free (s : SuperBlock) : Nat := s.sb.max_fs_blocks.toNat - s.sb.used_block_count.toNat

section Copies

variable {s : SuperBlock}

theorem ofMemory_write_super_block : DSuperBlock.ofMemory (s.testfs_write_super_block.dev 0) = s.sb := by
  simp [testfs_write_super_block, DSuperBlock.ofMemory_bytes]

theorem write_super_block_other {b : Nat} (h : b ≠ 0) : s.testfs_write_super_block.dev b = s.dev b := by
  simp [testfs_write_super_block, Function.update_of_ne h]

theorem read_writeFreemap {dev : Disk} {old new : Bitmap} {start bit i size : Nat}
    (copied : ∀ i, i < size → read_blocks dev start i = old.v i)
    (same : ∀ w, w ≠ bit / 8 → new.v w = old.v w) (h : i < size) :
    read_blocks (writeFreemap dev new start bit) start i = new.v i := by
  simp only [read_blocks, writeFreemap, BLOCK_SIZE, BITS_PER_WORD]
  by_cases here : i / 8192 = bit / (8192 * 8)
  · have : bit / (8192 * 8) * 8192 + i % 8192 = i := by omega
    simp [here, this]
  · have other : start + i / 8192 ≠ start + bit / (8192 * 8) := by omega
    rw [Function.update_of_ne other, same i (by omega)]
    exact copied i h

theorem writeFreemap_other {dev : Disk} {freemap : Bitmap} {start bit b : Nat}
    (h : b ≠ start + bit / 65536) : writeFreemap dev freemap start bit b = dev b := by
  simp only [writeFreemap, BLOCK_SIZE, BITS_PER_WORD]
  exact Function.update_of_ne h _ _

end Copies

section Explicit

variable (s : SuperBlock)

def withBlockFreemap (dev : Disk) (freemap : Bitmap) (k : Nat) (count : UInt32) : SuperBlock :=
  let sb := { s.sb with used_block_count := count }
  { s with
    sb
    block_freemap := freemap
    dev := Function.update (writeFreemap dev freemap s.sb.block_freemap_start.toNat k) 0
      (splice zero 0 sb.bytes) }

def withInodeFreemap (freemap : Bitmap) (nr : Nat) (count : UInt32) : SuperBlock :=
  let sb := { s.sb with used_inode_count := count }
  { s with
    sb
    inode_freemap := freemap
    dev := Function.update (writeFreemap s.dev freemap s.sb.inode_freemap_start.toNat nr) 0
      (splice zero 0 sb.bytes) }

def takeBlock (k : Nat) : SuperBlock :=
  s.withBlockFreemap s.dev (s.block_freemap.orMask k) k (s.sb.used_block_count + 1)

def dropBlock (b k : Nat) : SuperBlock :=
  s.withBlockFreemap (Function.update s.dev b zero) (s.block_freemap.andNotMask k) k
    (s.sb.used_block_count - 1)

def takeInode (nr : Nat) : SuperBlock :=
  s.withInodeFreemap (s.inode_freemap.orMask nr) nr (s.sb.used_inode_count + 1)

def dropInode (nr : Nat) : SuperBlock :=
  s.withInodeFreemap (s.inode_freemap.andNotMask nr) nr (s.sb.used_inode_count - 1)

end Explicit

end SuperBlock

namespace Layout

variable {s : SuperBlock} (layout : Layout s)
include layout

theorem inode_freemap_at : s.sb.inode_freemap_start.toNat = 1 := by
  rw [layout.inode_freemap_start]
  rfl

theorem block_freemap_at : s.sb.block_freemap_start.toNat = 2 := by
  rw [layout.block_freemap_start]
  rfl

theorem inode_blocks_at : s.sb.inode_blocks_start.toNat = 18 := by
  rw [layout.inode_blocks_start]
  rfl

theorem data_blocks_at : s.sb.data_blocks_start.toNat = 146 := by
  rw [layout.data_blocks_start]
  rfl

end Layout

namespace OnDisk

variable {s : SuperBlock} (layout : Layout s) (onDisk : OnDisk s)
include layout onDisk

theorem congr {dev : Disk} (same : ∀ b, b < 18 → dev b = s.dev b) : OnDisk { s with dev } where
  super_block := by
    rw [← onDisk.super_block]
    simp only [same 0 (by decide)]
  inode_freemap := by
    intro i h
    rw [← onDisk.inode_freemap i h]
    simp only [BLOCK_SIZE, INODE_FREEMAP_SIZE] at h
    simp only [read_blocks, layout.inode_freemap_at, BLOCK_SIZE]
    rw [same _ (by omega)]
  block_freemap := by
    intro i h
    rw [← onDisk.block_freemap i h]
    simp only [BLOCK_SIZE, BLOCK_FREEMAP_SIZE] at h
    simp only [read_blocks, layout.block_freemap_at, BLOCK_SIZE]
    rw [same _ (by omega)]

theorem withBlockFreemap {dev : Disk} {freemap : Bitmap} {k : Nat} (count : UInt32) (inside : k < 1048576)
    (same : ∀ b, b < 18 → dev b = s.dev b) (words : ∀ w, w ≠ k / 8 → freemap.v w = s.block_freemap.v w) :
    OnDisk (s.withBlockFreemap dev freemap k count) where
  super_block := by simp [SuperBlock.withBlockFreemap, DSuperBlock.ofMemory_bytes]
  inode_freemap := by
    intro i h
    have copied := (onDisk.congr layout same).inode_freemap i h
    simp only [BLOCK_SIZE, INODE_FREEMAP_SIZE] at h
    simp only [SuperBlock.withBlockFreemap, read_blocks, layout.inode_freemap_at, layout.block_freemap_at,
      BLOCK_SIZE] at copied ⊢
    rw [Function.update_of_ne (by omega), SuperBlock.writeFreemap_other (by omega), copied]
  block_freemap := by
    intro i h
    have copied := SuperBlock.read_writeFreemap (onDisk.congr layout same).block_freemap words h
    simp only [BLOCK_SIZE, BLOCK_FREEMAP_SIZE] at h
    simp only [SuperBlock.withBlockFreemap, read_blocks, layout.block_freemap_at, BLOCK_SIZE] at copied ⊢
    rw [Function.update_of_ne (by omega), copied]

theorem withInodeFreemap {freemap : Bitmap} {nr : Nat} (count : UInt32) (inside : nr < 65536)
    (words : ∀ w, w ≠ nr / 8 → freemap.v w = s.inode_freemap.v w) :
    OnDisk (s.withInodeFreemap freemap nr count) where
  super_block := by simp [SuperBlock.withInodeFreemap, DSuperBlock.ofMemory_bytes]
  inode_freemap := by
    intro i h
    have copied := @SuperBlock.read_writeFreemap _ _ _ _ nr _ _ onDisk.inode_freemap words h
    simp only [BLOCK_SIZE, INODE_FREEMAP_SIZE] at h
    simp only [SuperBlock.withInodeFreemap, read_blocks, layout.inode_freemap_at, BLOCK_SIZE] at copied ⊢
    rw [Function.update_of_ne (by omega), copied]
  block_freemap := by
    intro i h
    have copied := onDisk.block_freemap i h
    simp only [BLOCK_SIZE, BLOCK_FREEMAP_SIZE] at h
    simp only [SuperBlock.withInodeFreemap, read_blocks, layout.inode_freemap_at, layout.block_freemap_at,
      BLOCK_SIZE] at copied ⊢
    rw [Function.update_of_ne (by omega), SuperBlock.writeFreemap_other (by omega), copied]

end OnDisk

section Words

variable (b : Bitmap) (k w : Nat) (h : w ≠ k / 8)
include h

theorem Bitmap.v_orMask : (b.orMask k).v w = b.v w := by
  simp only [Bitmap.orMask, Bitmap.setWord, BITS_PER_WORD]
  exact Function.update_of_ne h _ _

theorem Bitmap.v_andNotMask : (b.andNotMask k).v w = b.v w := by
  simp only [Bitmap.andNotMask, Bitmap.setWord, BITS_PER_WORD]
  exact Function.update_of_ne h _ _

end Words

namespace SuperBlock

section Freemaps

variable {s : SuperBlock} (layout : Layout s)
include layout

theorem withBlockFreemap_dev {dev : Disk} {freemap : Bitmap} {k : Nat} {count : UInt32} {b : Nat}
    (inside : k < 1048576) (high : 18 ≤ b) : (s.withBlockFreemap dev freemap k count).dev b = dev b := by
  simp only [withBlockFreemap]
  rw [Function.update_of_ne (by omega), writeFreemap_other (by rw [layout.block_freemap_at]; omega)]

theorem withInodeFreemap_dev {freemap : Bitmap} {nr : Nat} {count : UInt32} {b : Nat}
    (inside : nr < 65536) (high : 18 ≤ b) : (s.withInodeFreemap freemap nr count).dev b = s.dev b := by
  simp only [withInodeFreemap]
  rw [Function.update_of_ne (by omega), writeFreemap_other (by rw [layout.inode_freemap_at]; omega)]

theorem marked_iff {b : Int} : s.Marked b ↔
    ∃ k, k < 1048576 ∧ b = (146 + k : Nat) ∧ s.block_freemap.bitmap_isset k = true := by
  simp only [Marked, layout.data_blocks_at, layout.block_bits]
  constructor
  · rintro ⟨low, high, set⟩
    exact ⟨(b - 146).toNat, by omega, by omega, set⟩
  · rintro ⟨k, inside, rfl, set⟩
    refine ⟨by omega, by omega, ?_⟩
    rwa [show (((146 + k : Nat) : Int) - ((146 : Nat) : Int)).toNat = k by omega]

end Freemaps

end SuperBlock

namespace Accounts

open SuperBlock

variable {s : SuperBlock} (acc : Accounts s) {k nr : Nat}
include acc

theorem congr {dev : Disk} (failed : Bool) (same : ∀ b, b < 18 → dev b = s.dev b) :
    Accounts { s with dev, allocFailed := failed } :=
  have onDisk := acc.onDisk.congr acc.layout same
  { acc with
    layout := { acc.layout with }
    onDisk := { onDisk with } }

theorem takeBlock (inside : k < 1048576) (clear : s.block_freemap.bitmap_isset k = false)
    (room : 0 < s.free) : Accounts (s.takeBlock k) := by
  have bits := acc.layout.block_bits
  have small := Bitmap.nr_allocated_lt (b := s.block_freemap) (by omega) clear
  rw [← acc.used_blocks, bits] at small
  have count : (s.sb.used_block_count + 1).toNat = s.sb.used_block_count.toNat + 1 := by
    rw [UInt32.toNat_add, UInt32.toNat_one]
    omega
  refine ⟨{ acc.layout with }, acc.used_inodes, ?_, ?_, acc.bounded,
    acc.onDisk.withBlockFreemap acc.layout _ inside (fun _ _ => rfl) (Bitmap.v_orMask _ k)⟩
  · change (s.sb.used_block_count + 1).toNat = (s.block_freemap.orMask k).bitmap_nr_allocated
    rw [Bitmap.nr_allocated_orMask (by omega) clear, ← acc.used_blocks, count]
  · change (s.sb.used_block_count + 1).toNat ≤ s.sb.max_fs_blocks.toNat
    rw [count]
    exact Nat.lt_of_sub_pos room

theorem dropBlock {b : Nat} (inside : k < 1048576) (set : s.block_freemap.bitmap_isset k = true)
    (high : 18 ≤ b) : 0 < s.sb.used_block_count.toNat ∧ Accounts (s.dropBlock b k) := by
  have bits := acc.layout.block_bits
  have dropped := Bitmap.nr_allocated_andNotMask (b := s.block_freemap) (by omega) set
  have used := acc.used_blocks
  have count : (s.sb.used_block_count - 1).toNat = s.sb.used_block_count.toNat - 1 := by
    have := s.sb.used_block_count.toNat_lt
    rw [UInt32.toNat_sub, UInt32.toNat_one]
    omega
  refine ⟨by omega, { acc.layout with }, acc.used_inodes, ?_, ?_, acc.bounded,
    acc.onDisk.withBlockFreemap acc.layout _ inside
      (fun c low => Function.update_of_ne (by omega) _ _) (Bitmap.v_andNotMask _ k)⟩
  · change (s.sb.used_block_count - 1).toNat = (s.block_freemap.andNotMask k).bitmap_nr_allocated
    omega
  · change (s.sb.used_block_count - 1).toNat ≤ s.sb.max_fs_blocks.toNat
    have := acc.within
    omega

theorem takeInode (inside : nr < 65536) (clear : s.inode_freemap.bitmap_isset nr = false) :
    Accounts (s.takeInode nr) := by
  have bits := acc.layout.inode_bits
  have small := Bitmap.nr_allocated_lt (b := s.inode_freemap) (by omega) clear
  rw [← acc.used_inodes, bits] at small
  refine ⟨{ acc.layout with }, ?_, acc.used_blocks, acc.within, acc.bounded,
    acc.onDisk.withInodeFreemap acc.layout _ inside (Bitmap.v_orMask _ nr)⟩
  change (s.sb.used_inode_count + 1).toNat = (s.inode_freemap.orMask nr).bitmap_nr_allocated
  rw [Bitmap.nr_allocated_orMask (by omega) clear, ← acc.used_inodes, UInt32.toNat_add, UInt32.toNat_one]
  omega

theorem dropInode (inside : nr < 65536) (set : s.inode_freemap.bitmap_isset nr = true) :
    0 < s.sb.used_inode_count.toNat ∧ Accounts (s.dropInode nr) := by
  have bits := acc.layout.inode_bits
  have dropped := Bitmap.nr_allocated_andNotMask (b := s.inode_freemap) (by omega) set
  have used := acc.used_inodes
  refine ⟨by omega, { acc.layout with }, ?_, acc.used_blocks, acc.within, acc.bounded,
    acc.onDisk.withInodeFreemap acc.layout _ inside (Bitmap.v_andNotMask _ nr)⟩
  change (s.sb.used_inode_count - 1).toNat = (s.inode_freemap.andNotMask nr).bitmap_nr_allocated
  have := s.sb.used_inode_count.toNat_lt
  rw [UInt32.toNat_sub, UInt32.toNat_one]
  omega

theorem alloc_block :
    (s.free = 0 ∧ s.testfs_alloc_block = .ok (-ENOSPC, { s with allocFailed := true })) ∨
    ∃ k, k < 1048576 ∧ s.block_freemap.bitmap_isset k = false ∧ 0 < s.free ∧
      s.testfs_alloc_block = .ok ((146 + k : Nat), s.takeBlock k) := by
  by_cases full : s.sb.used_block_count.toUInt64 ≥ s.sb.max_fs_blocks
  · have : s.sb.max_fs_blocks.toNat ≤ s.sb.used_block_count.toNat := by
      simpa [UInt64.le_iff_toNat_le] using full
    refine Or.inl ⟨by rw [free]; omega, ?_⟩
    simp [testfs_alloc_block, full]
  · have room : s.sb.used_block_count.toNat < s.sb.max_fs_blocks.toNat := by
      simpa [UInt64.le_iff_toNat_le] using full
    have bits := acc.layout.block_bits
    rcases Bitmap.bitmap_alloc_spec (b := s.block_freemap) (Bitmap.padded_of_whole (by rw [bits])) with
      ⟨k, inside, clear, -, found⟩ | ⟨set, -⟩
    · refine Or.inr ⟨k, by omega, clear, by rw [free]; omega, ?_⟩
      have start := acc.layout.data_blocks_start
      have positive : ¬ (k : Int) < 0 := by omega
      simp [testfs_alloc_block, full, testfs_get_block_freemap, found, SuperBlock.takeBlock,
        SuperBlock.withBlockFreemap, testfs_write_block_freemap, testfs_write_super_block, start, positive]
    · have count := Bitmap.nr_allocated_full set
      have := acc.used_blocks
      have := acc.bounded
      omega

theorem free_block (inside : k < 1048576) (set : s.block_freemap.bitmap_isset k = true) :
    s.testfs_free_block (146 + k : Nat) = .ok (s.dropBlock (146 + k) k) := by
  have bits := acc.layout.block_bits
  have used := (acc.dropBlock (b := 146 + k) inside set (by omega)).1
  have unmark : s.block_freemap.bitmap_unmark k = .ok (s.block_freemap.andNotMask k) :=
    Bitmap.bitmap_unmark_eq_ok.mpr ⟨by omega, set, rfl⟩
  have number : (((146 + k : Nat) : Int) - ((146 : Nat) : Int)) = (k : Int) := by omega
  have counted : 0 < s.sb.used_block_count := by simpa [UInt32.lt_iff_toNat_lt] using used
  have high : ¬ ((146 + k : Nat) : Int) < 0 := by omega
  simp only [testfs_free_block, write_block, high, if_false, Result.ok_bind, acc.layout.data_blocks_at,
    number, assert, Int.natCast_nonneg, if_true, testfs_put_block_freemap, Int.toNat_natCast, unmark,
    Result.pure_eq_ok, testfs_write_block_freemap, counted, testfs_write_super_block, SuperBlock.dropBlock,
    withBlockFreemap]

theorem put_inode_freemap (inside : nr < 65536) (set : s.inode_freemap.bitmap_isset nr = true) :
    s.testfs_put_inode_freemap nr = .ok (s.dropInode nr) := by
  have bits := acc.layout.inode_bits
  have used := (acc.dropInode inside set).1
  have unmark : s.inode_freemap.bitmap_unmark nr = .ok (s.inode_freemap.andNotMask nr) :=
    Bitmap.bitmap_unmark_eq_ok.mpr ⟨by omega, set, rfl⟩
  have counted : 0 < s.sb.used_inode_count := by simpa [UInt32.lt_iff_toNat_lt] using used
  simp only [testfs_put_inode_freemap, unmark, Result.ok_bind, testfs_write_inode_freemap, assert, counted,
    if_true, Result.pure_eq_ok, testfs_write_super_block, SuperBlock.dropInode, withInodeFreemap]

theorem get_inode_freemap :
    ((∀ nr, nr < 65536 → s.inode_freemap.bitmap_isset nr = true) ∧
      s.testfs_get_inode_freemap = .ok (-ENOSPC, s)) ∨
    ∃ nr, nr < 65536 ∧ s.inode_freemap.bitmap_isset nr = false ∧
      (∀ j, j < nr → s.inode_freemap.bitmap_isset j = true) ∧
      s.testfs_get_inode_freemap = .ok ((nr : Int), s.takeInode nr) := by
  have bits := acc.layout.inode_bits
  rcases Bitmap.bitmap_alloc_spec (b := s.inode_freemap) (Bitmap.padded_of_whole (by rw [bits])) with
    ⟨nr, inside, clear, least, found⟩ | ⟨set, found⟩
  · refine Or.inr ⟨nr, by omega, clear, least, ?_⟩
    simp [testfs_get_inode_freemap, found, SuperBlock.takeInode, withInodeFreemap,
      testfs_write_inode_freemap, testfs_write_super_block]
  · refine Or.inl ⟨fun nr h => set nr (by omega), ?_⟩
    simp [testfs_get_inode_freemap, found]

end Accounts

end OperatingSystem.Fs
