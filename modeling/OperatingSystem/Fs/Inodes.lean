import OperatingSystem.Fs.ReadWrite

/-!
# The inodes in memory

The functions of `inode.c` that work on `inode_hash_table`, and those of `read_write.c` on an inode
of the table.  A `struct inode *` is the number of the inode it points to: the table holds one at most.
-/

namespace OperatingSystem.Fs

open InodeType

structure Testfs where
  sb : SuperBlock
  inode_hash_table : InodeTable

def SuperBlock.inode (s : SuperBlock) (i_nr : Nat) : DInode :=
  DInode.ofMemory (s.dev (s.sb.inode_blocks_start.toNat + i_nr / INODES_PER_BLOCK))
    (InodePtr.testfs_inode_to_block_offset i_nr)

namespace Testfs

variable (t : Testfs)

def inode (i_nr : Nat) : Except Fault Inode :=
  match t.inode_hash_table.find i_nr with
  | some i => .ok i
  | none => .error .useAfterFree

def update (i : Inode) : Testfs := { t with inode_hash_table := t.inode_hash_table.update i }

def testfs_get_inode (inode_nr : Nat) : Except Fault Testfs :=
  match absent : t.inode_hash_table.find inode_nr with
  | some i => .ok (t.update { i with i_count := i.i_count + 1 })
  | none => do
      let _ ← InodePtr.testfs_inode_to_block_nr inode_nr
      let i : Inode := { dinode := t.sb.inode inode_nr, dirty := false, i_nr := inode_nr, i_count := 1 }
      return { t with inode_hash_table := t.inode_hash_table.insert i absent }

def testfs_put_inode (i_nr : Nat) : Except Fault Testfs := do
  let i ← t.inode i_nr
  assert (i.dirty = false)
  if i.i_count = 1 then return { t with inode_hash_table := t.inode_hash_table.remove i_nr }
  return t.update { i with i_count := i.i_count - 1 }

def with_inode {α : Type} (i_nr : Nat) (f : InodePtr → Except Fault (α × InodePtr)) : Except Fault (α × Testfs) := do
  let i ← t.inode i_nr
  let (a, p) ← f { sb := t.sb, inode := i }
  return (a, { t with sb := p.sb }.update p.inode)

def testfs_sync_inode (i_nr : Nat) : Except Fault Testfs := do
  let (_, t) ← t.with_inode i_nr fun p => do
    let p ← p.testfs_sync_inode
    return ((), p)
  return t

def testfs_create_inode (type : InodeType) : Except Fault ((Int × Nat) × Testfs) := do
  let (inode_nr, sb) ← t.sb.testfs_get_inode_freemap
  let t := { t with sb }
  if inode_nr < 0 then return ((inode_nr, 0), t)
  let inode_nr := inode_nr.toNat
  if NR_INODE_BLOCKS ≤ inode_nr / INODES_PER_BLOCK then
    let sb ← t.sb.testfs_put_inode_freemap inode_nr
    return ((-ENOSPC, 0), { t with sb })
  let t ← t.testfs_get_inode inode_nr
  let (_, t) ← t.with_inode inode_nr fun p =>
    return ((), (p.setDInode { p.dinode with i_type := type.code }).setDirty)
  return ((0, inode_nr), t)

def testfs_remove_inode (i_nr : Nat) : Except Fault Testfs := do
  let (_, t) ← t.with_inode i_nr fun p => do
    let p ← p.testfs_free_blocks
    assert (p.dinode.block_count = 0)
    let p := (p.setDInode DInode.zero).setDirty
    let sb ← p.sb.testfs_put_inode_freemap p.inode.i_nr
    let p ← { p with sb }.testfs_sync_inode
    return ((), p)
  t.testfs_put_inode i_nr

def testfs_write_data (i_nr : Nat) (buf : List UInt8) (start : Int) : Except Fault (Int × Testfs) :=
  t.with_inode i_nr fun p => p.testfs_write_data buf start

def testfs_read_data (i_nr : Nat) (start : Int) (size : Nat) : Except Fault (Int × List UInt8) := do
  let i ← t.inode i_nr
  InodePtr.testfs_read_data { sb := t.sb, inode := i } start size

def testfs_inode_get_type (i_nr : Nat) : Except Fault Int32 := do
  let i ← t.inode i_nr
  return i.dinode.i_type

def testfs_inode_get_size (i_nr : Nat) : Except Fault Int := do
  let i ← t.inode i_nr
  return i.dinode.i_size.toInt

end Testfs

end OperatingSystem.Fs
