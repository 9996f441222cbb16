import OperatingSystem.Library.Bytes
import OperatingSystem.Fs.Bitmap

/-!
# `block.c` and `super.c`

The device is a function from block numbers to blocks, of which the first 8192 bytes count.  A
program that reads past the end of the image would stop; here every block can be read.
-/

namespace OperatingSystem.Fs

open Bytes

def BLOCK_SIZE : Nat := 8192
def SUPER_BLOCK_SIZE : Nat := 1
def INODE_FREEMAP_SIZE : Nat := 1
def BLOCK_FREEMAP_SIZE : Nat := 16
def NR_INODE_BLOCKS : Nat := 128

def ENOENT : Int := 2
def ENOMEM : Int := 12
def EEXIST : Int := 17
def ENOTDIR : Int := 20
def EISDIR : Int := 21
def EINVAL : Int := 22
def EFBIG : Int := 27
def ENOSPC : Int := 28
def ENOTEMPTY : Int := 39

abbrev Disk := Nat → Memory

def zero : Memory := fun _ => 0

def read_block (dev : Disk) (start : Int) : Except Fault Memory :=
  if start < 0 then .error .exit else .ok (dev start.toNat)

def write_block (dev : Disk) (block : Memory) (start : Int) : Except Fault Disk :=
  if start < 0 then .error .exit else .ok (Function.update dev start.toNat block)

/-- `nr` consecutive blocks as one memory, and back. -/
def read_blocks (dev : Disk) (start : Nat) : Memory :=
  fun i => dev (start + i / BLOCK_SIZE) (i % BLOCK_SIZE)

def write_blocks (dev : Disk) (blocks : Memory) (start nr : Nat) : Disk := fun n =>
  if start ≤ n ∧ n < start + nr then fun k => blocks ((n - start) * BLOCK_SIZE + k) else dev n

def zero_blocks (dev : Disk) (start nr : Nat) : Disk := write_blocks dev zero start nr

@[ext] structure DSuperBlock where
  inode_freemap_start : UInt32
  block_freemap_start : UInt32
  inode_blocks_start : UInt32
  data_blocks_start : UInt32
  used_inode_count : UInt32
  used_block_count : UInt32
  max_fs_blocks : UInt64

namespace DSuperBlock

def words (d : DSuperBlock) : List UInt32 :=
  [d.inode_freemap_start, d.block_freemap_start, d.inode_blocks_start, d.data_blocks_start,
    d.used_inode_count, d.used_block_count]

def bytes (d : DSuperBlock) : List UInt8 := wordBytes d.words ++ bytes64 d.max_fs_blocks

def ofMemory (m : Memory) : DSuperBlock where
  inode_freemap_start := load32 m 0
  block_freemap_start := load32 m 4
  inode_blocks_start := load32 m 8
  data_blocks_start := load32 m 12
  used_inode_count := load32 m 16
  used_block_count := load32 m 20
  max_fs_blocks := load64 m 24

theorem ofMemory_bytes (m : Memory) (d : DSuperBlock) : ofMemory (splice m 0 d.bytes) = d := by
  have word (k : Nat) (h : k < 6) : load32 (splice m 0 d.bytes) (4 * k) = d.words[k] := by
    have := load32_wordBytes m 0 d.words (bytes64 d.max_fs_blocks) k h
    rwa [Nat.zero_add] at this
  have last := load64_wordBytes m 0 d.words d.max_fs_blocks
  ext1
  · exact word 0 (by decide)
  · exact word 1 (by decide)
  · exact word 2 (by decide)
  · exact word 3 (by decide)
  · exact word 4 (by decide)
  · exact word 5 (by decide)
  · exact last

end DSuperBlock

/-- `struct super_block`.  `allocFailed` is history: some block allocation has failed. -/
structure SuperBlock where
  sb : DSuperBlock
  dev : Disk
  inode_freemap : Bitmap
  block_freemap : Bitmap
  allocFailed : Bool

namespace SuperBlock

variable (s : SuperBlock)

def testfs_write_super_block : SuperBlock :=
  { s with dev := Function.update s.dev 0 (splice zero 0 s.sb.bytes) }

/-- The block of a freemap that holds bit `bit`, written after that bit changed. -/
def writeFreemap (dev : Disk) (freemap : Bitmap) (start bit : Nat) : Disk :=
  let nr := bit / (BLOCK_SIZE * BITS_PER_WORD)
  Function.update dev (start + nr) fun k => freemap.v (nr * BLOCK_SIZE + k)

def testfs_write_inode_freemap (inode_nr : Nat) : SuperBlock :=
  { s with dev := writeFreemap s.dev s.inode_freemap s.sb.inode_freemap_start.toNat inode_nr }

def testfs_write_block_freemap (block_nr : Nat) : SuperBlock :=
  { s with dev := writeFreemap s.dev s.block_freemap s.sb.block_freemap_start.toNat block_nr }

def testfs_get_block_freemap : Except Fault (Int × SuperBlock) := do
  match ← s.block_freemap.bitmap_alloc with
  | none => return (-ENOSPC, s)
  | some (index, freemap) =>
      return (index, { s with block_freemap := freemap }.testfs_write_block_freemap index)

def testfs_put_block_freemap (block_nr : Nat) : Except Fault SuperBlock := do
  let freemap ← s.block_freemap.bitmap_unmark block_nr
  return { s with block_freemap := freemap }.testfs_write_block_freemap block_nr

def testfs_get_inode_freemap : Except Fault (Int × SuperBlock) := do
  match ← s.inode_freemap.bitmap_alloc with
  | none => return (-ENOSPC, s)
  | some (index, freemap) =>
      let s := { s with inode_freemap := freemap }.testfs_write_inode_freemap index
      let s := { s with sb.used_inode_count := s.sb.used_inode_count + 1 }
      return (index, s.testfs_write_super_block)

def testfs_put_inode_freemap (inode_nr : Nat) : Except Fault SuperBlock := do
  let freemap ← s.inode_freemap.bitmap_unmark inode_nr
  let s := { s with inode_freemap := freemap }.testfs_write_inode_freemap inode_nr
  assert (0 < s.sb.used_inode_count)
  let s := { s with sb.used_inode_count := s.sb.used_inode_count - 1 }
  return s.testfs_write_super_block

def testfs_alloc_block : Except Fault (Int × SuperBlock) := do
  if s.sb.used_block_count.toUInt64 ≥ s.sb.max_fs_blocks then
    return (-ENOSPC, { s with allocFailed := true })
  let (phy_block_nr, s) ← s.testfs_get_block_freemap
  if phy_block_nr < 0 then return (phy_block_nr, { s with allocFailed := true })
  let s := { s with sb.used_block_count := s.sb.used_block_count + 1 }
  return (s.sb.data_blocks_start.toNat + phy_block_nr, s.testfs_write_super_block)

def testfs_free_block (block_nr : Int) : Except Fault SuperBlock := do
  let dev ← write_block s.dev zero block_nr
  let s := { s with dev }
  let block_nr := block_nr - s.sb.data_blocks_start.toNat
  assert (0 ≤ block_nr)
  let s ← s.testfs_put_block_freemap block_nr.toNat
  assert (0 < s.sb.used_block_count)
  let s := { s with sb.used_block_count := s.sb.used_block_count - 1 }
  return s.testfs_write_super_block

end SuperBlock

def testfs_make_super_block (max_fs_blocks : UInt64) : DSuperBlock where
  inode_freemap_start := .ofNat SUPER_BLOCK_SIZE
  block_freemap_start := .ofNat (SUPER_BLOCK_SIZE + INODE_FREEMAP_SIZE)
  inode_blocks_start := .ofNat (SUPER_BLOCK_SIZE + INODE_FREEMAP_SIZE + BLOCK_FREEMAP_SIZE)
  data_blocks_start := .ofNat (SUPER_BLOCK_SIZE + INODE_FREEMAP_SIZE + BLOCK_FREEMAP_SIZE + NR_INODE_BLOCKS)
  used_inode_count := 0
  used_block_count := 0
  max_fs_blocks := max_fs_blocks

/-- The steps of `mktestfs` up to its first `testfs_close_super_block`, on a device with any
content: the super block, the empty freemaps and the empty inode blocks. -/
def makeImage (dev : Disk) (max_fs_blocks : UInt64) : Disk :=
  let sb := testfs_make_super_block max_fs_blocks
  let dev := Function.update dev 0 (splice zero 0 sb.bytes)
  let dev := zero_blocks dev sb.inode_freemap_start.toNat INODE_FREEMAP_SIZE
  let dev := zero_blocks dev sb.block_freemap_start.toNat BLOCK_FREEMAP_SIZE
  let dev := zero_blocks dev sb.inode_blocks_start.toNat NR_INODE_BLOCKS
  Function.update dev 0 (splice zero 0 sb.bytes)

def testfs_init_super_block (dev : Disk) : SuperBlock :=
  let sb := DSuperBlock.ofMemory (dev 0)
  { sb
    dev
    inode_freemap :=
      { nbits := BLOCK_SIZE * INODE_FREEMAP_SIZE * BITS_PER_WORD
        v := read_blocks dev sb.inode_freemap_start.toNat }
    block_freemap :=
      { nbits := BLOCK_SIZE * BLOCK_FREEMAP_SIZE * BITS_PER_WORD
        v := read_blocks dev sb.block_freemap_start.toNat }
    allocFailed := false }

def testfs_close_super_block (s : SuperBlock) : Disk :=
  let dev := s.testfs_write_super_block.dev
  let dev := write_blocks dev s.inode_freemap.v s.sb.inode_freemap_start.toNat INODE_FREEMAP_SIZE
  write_blocks dev s.block_freemap.v s.sb.block_freemap_start.toNat BLOCK_FREEMAP_SIZE

end OperatingSystem.Fs
