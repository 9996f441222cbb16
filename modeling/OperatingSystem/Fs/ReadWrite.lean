import OperatingSystem.Fs.Inode

namespace OperatingSystem.Fs

open Bytes

/-- The maximum file size: 10 + 2048 + 2048 * 2048 blocks. -/
abbrev MAX_FILE_SIZE : Nat := 34376597504
abbrev MAX_FILE_BLOCKS : Nat := 4196362

section Conversions

def wrap32 (n : Int) : Int := (Int32.ofInt n).toInt
def wrap64 (n : Int) : Int := (Int64.ofInt n).toInt
def sizeT (n : Int) : Nat := (n % 2 ^ 64).toNat

end Conversions

section IndexBlocks

/-- `((int *)block)[i]`. -/
def entry (block : Memory) (i : Nat) : Int := (load32 block (4 * i)).toInt32.toInt

def setEntry (block : Memory) (i : Nat) (phy_block_nr : Int) : Memory :=
  store32 block (4 * i) (Int32.ofInt phy_block_nr).toUInt32

/-- An index that comes from a block number, which may be past the table. -/
def lookupEntry (block : Memory) (i : Nat) : Except Fault Int :=
  if i < NR_INDIRECT_BLOCKS then .ok (entry block i) else .error .outOfTable

end IndexBlocks

namespace InodePtr

variable (p : InodePtr)

def lookup (log_block_nr : Nat) : Except Fault Int := do
  if direct : log_block_nr < NR_DIRECT_BLOCKS then
    return (p.dinode.i_block_nr ⟨log_block_nr, direct⟩).toInt
  let log_block_nr := log_block_nr - NR_DIRECT_BLOCKS
  if NR_INDIRECT_BLOCKS ≤ log_block_nr ∧ 0 < p.dinode.i_dindirect.toInt then
    let block2 ← read_block p.sb.dev p.dinode.i_dindirect.toInt
    let phy_block_nr ← lookupEntry block2 ((log_block_nr - NR_INDIRECT_BLOCKS) / NR_INDIRECT_BLOCKS)
    if 0 < phy_block_nr then
      let block ← read_block p.sb.dev phy_block_nr
      lookupEntry block ((log_block_nr - NR_INDIRECT_BLOCKS) % NR_INDIRECT_BLOCKS)
    else return phy_block_nr
  else if 0 < p.dinode.i_indirect.toInt then
    let block ← read_block p.sb.dev p.dinode.i_indirect.toInt
    lookupEntry block log_block_nr
  else return 0

/-- A block that is not on the disk reads as zeros. -/
def testfs_read_block (log_block_nr : Int) : Except Fault (Int × Memory) := do
  assert (0 ≤ log_block_nr)
  let phy_block_nr ← p.lookup log_block_nr.toNat
  if 0 < phy_block_nr then
    let block ← read_block p.sb.dev phy_block_nr
    return (phy_block_nr, block)
  return (phy_block_nr, zero)

section Reading

/-- `while (RemainSize > BLOCK_SIZE)`, which turns `whole` times.  The condition
`(ret = testfs_read_block(..) < 0)` sets `ret` to 1 on an error. -/
def readWhole (block_nr : Int) : Nat → Nat → List UInt8 → Except Fault (Bool × List UInt8)
  | 0, _, buf => return (false, buf)
  | whole + 1, i, buf => do
      let (ret, block) ← p.testfs_read_block (wrap32 (block_nr + (i + 1 : Nat)))
      if ret < 0 then return (true, buf)
      readWhole block_nr whole (i + 1) (buf ++ slice block 0 BLOCK_SIZE)

/-- The result and the bytes stored to `buf`, which start at its start.  When the last block is
whole nothing is stored for it. -/
def testfs_read_data (start : Int) (size : Nat) : Except Fault (Int × List UInt8) := do
  if start < 0 then throw .overrun
  let block_nr := start / BLOCK_SIZE
  let block_ix := (start % BLOCK_SIZE).toNat
  if sizeT (MAX_FILE_SIZE - start) < size then return (-EFBIG, [])
  let size := if p.dinode.i_size.toInt < wrap64 (start + wrap64 size)
    then sizeT (p.dinode.i_size.toInt - start) else size
  if BLOCK_SIZE < (block_ix + size) % 2 ^ 64 then
    if MAX_FILE_SIZE < size then return (-EFBIG, [])
    let (ret, block) ← p.testfs_read_block (wrap32 block_nr)
    if ret < 0 then return (ret, [])
    let remainSize := size - (BLOCK_SIZE - block_ix)
    let whole := (remainSize - 1) / BLOCK_SIZE
    let (failed, buf) ← p.readWhole block_nr whole 0 (slice block block_ix (BLOCK_SIZE - block_ix))
    if failed then return (1, buf)
    if remainSize % BLOCK_SIZE = 0 then return (wrap32 size, buf)
    let (ret, block) ← p.testfs_read_block (wrap32 (block_nr + (whole + 1 : Nat)))
    if ret < 0 then return (1, buf)
    return (wrap32 size, buf ++ slice block 0 (remainSize % BLOCK_SIZE))
  let (ret, block) ← p.testfs_read_block (wrap32 block_nr)
  if ret < 0 then return (ret, [])
  if BLOCK_SIZE - block_ix < size then throw .overrun
  return (wrap32 size, slice block block_ix size)

end Reading

section Allocation

def allocateDirect (n : Fin NR_DIRECT_BLOCKS) : Except Fault (Int × InodePtr) := do
  assert (p.dinode.i_block_nr n = 0)
  let (phy_block_nr, p) ← p.testfs_alloc_block_for_inode
  if 0 ≤ phy_block_nr then
    return (phy_block_nr, p.setDInode { p.dinode with
      i_block_nr := Function.update p.dinode.i_block_nr n (Int32.ofInt phy_block_nr) })
  return (phy_block_nr, p)

def allocateEntry (indirect_allocated : Bool) (indirect : Memory) (n : Nat) :
    Except Fault (Int × InodePtr) := do
  assert (entry indirect n = 0)
  let (phy_block_nr, p) ← p.testfs_alloc_block_for_inode
  if 0 ≤ phy_block_nr then
    let dev ← write_block p.sb.dev (setEntry indirect n phy_block_nr) p.dinode.i_indirect.toInt
    return (phy_block_nr, { p with sb.dev := dev })
  if indirect_allocated then
    let p ← p.testfs_free_block_from_inode p.dinode.i_indirect.toInt
    return (phy_block_nr, p.setDInode { p.dinode with i_indirect := 0 })
  return (phy_block_nr, p)

def allocateIndirect (n : Nat) : Except Fault (Int × InodePtr) := do
  if p.dinode.i_indirect = 0 then
    let (phy_block_nr, p) ← p.testfs_alloc_block_for_inode
    if phy_block_nr < 0 then return (phy_block_nr, p)
    (p.setDInode { p.dinode with i_indirect := Int32.ofInt phy_block_nr }).allocateEntry true zero n
  else
    let indirect ← read_block p.sb.dev p.dinode.i_indirect.toInt
    p.allocateEntry false indirect n

/-- The end of the double-indirect case.  When only the indirect block was allocated before the
failure, its entry in the block on the disk stays. -/
def allocateLeaf (dindirect_allocated indirect_allocated : Bool) (dindirect indirect : Memory)
    (n : Nat) : Except Fault (Int × InodePtr) := do
  let indirect_nr := entry dindirect (n / NR_INDIRECT_BLOCKS)
  let (phy_block_nr, p) ← p.testfs_alloc_block_for_inode
  if 0 ≤ phy_block_nr then
    let dev ← write_block p.sb.dev (setEntry indirect (n % NR_INDIRECT_BLOCKS) phy_block_nr) indirect_nr
    let dev ← write_block dev dindirect p.dinode.i_dindirect.toInt
    return (phy_block_nr, { p with sb.dev := dev })
  if indirect_allocated ∧ ¬ dindirect_allocated then
    let p ← p.testfs_free_block_from_inode indirect_nr
    return (phy_block_nr, p)
  if dindirect_allocated then
    let p ← p.testfs_free_block_from_inode indirect_nr
    let p ← p.testfs_free_block_from_inode p.dinode.i_dindirect.toInt
    return (phy_block_nr, p.setDInode { p.dinode with i_dindirect := 0 })
  return (phy_block_nr, p)

def allocateInTable (dindirect_allocated : Bool) (dindirect : Memory) (n : Nat) :
    Except Fault (Int × InodePtr) := do
  if entry dindirect (n / NR_INDIRECT_BLOCKS) = 0 then
    let (phy_block_nr, p) ← p.testfs_alloc_block_for_inode
    if 0 ≤ phy_block_nr then
      let dindirect := setEntry dindirect (n / NR_INDIRECT_BLOCKS) phy_block_nr
      let dev ← write_block p.sb.dev zero (entry dindirect (n / NR_INDIRECT_BLOCKS))
      let dev ← write_block dev dindirect p.dinode.i_dindirect.toInt
      { p with sb.dev := dev }.allocateLeaf dindirect_allocated true dindirect zero n
    else if dindirect_allocated then
      let p ← p.testfs_free_block_from_inode p.dinode.i_dindirect.toInt
      return (phy_block_nr, p.setDInode { p.dinode with i_dindirect := 0 })
    else return (phy_block_nr, p)
  else
    let indirect ← read_block p.sb.dev (entry dindirect (n / NR_INDIRECT_BLOCKS))
    p.allocateLeaf dindirect_allocated false dindirect indirect n

def allocateDouble (n : Nat) : Except Fault (Int × InodePtr) := do
  if p.dinode.i_dindirect = 0 then
    let (phy_block_nr, p) ← p.testfs_alloc_block_for_inode
    if phy_block_nr < 0 then return (phy_block_nr, p)
    (p.setDInode { p.dinode with i_dindirect := Int32.ofInt phy_block_nr }).allocateInTable true zero n
  else
    let dindirect ← read_block p.sb.dev p.dinode.i_dindirect.toInt
    p.allocateInTable false dindirect n

def allocateMissing (n : Nat) : Except Fault (Int × InodePtr) :=
  if direct : n < NR_DIRECT_BLOCKS then p.allocateDirect ⟨n, direct⟩
  else if NR_INDIRECT_BLOCKS ≤ n - NR_DIRECT_BLOCKS then
    p.allocateDouble (n - NR_DIRECT_BLOCKS - NR_INDIRECT_BLOCKS)
  else p.allocateIndirect (n - NR_DIRECT_BLOCKS)

def testfs_allocate_block (log_block_nr : Int) : Except Fault (Int × InodePtr × Memory) := do
  let (phy_block_nr, block) ← p.testfs_read_block log_block_nr
  if MAX_FILE_BLOCKS ≤ log_block_nr then return (-EFBIG, p, block)
  if phy_block_nr ≠ 0 then return (phy_block_nr, p, block)
  let (phy_block_nr, p) ← p.allocateMissing log_block_nr.toNat
  return (phy_block_nr, p, block)

end Allocation

section Writing

def storeBlock (log_block_nr : Int) (block_ix : Nat) (data : List UInt8) :
    Except Fault (Int × InodePtr) := do
  let (ret, p, block) ← p.testfs_allocate_block log_block_nr
  if ret < 0 then return (ret, p)
  let dev ← write_block p.sb.dev (splice block block_ix data) ret
  return (ret, { p with sb.dev := dev })

def writeWhole (block_nr : Int) : Nat → Nat → InodePtr → List UInt8 → Except Fault (Int × InodePtr)
  | 0, _, p, _ => return (0, p)
  | whole + 1, i, p, buf => do
      let (ret, p) ← p.storeBlock (wrap32 (block_nr + (i + 1 : Nat))) 0 (buf.take BLOCK_SIZE)
      if ret < 0 then return (ret, p)
      writeWhole block_nr whole (i + 1) p (buf.drop BLOCK_SIZE)

def writeOut (start : Int) (size : Nat) (check : Bool) : Int × InodePtr :=
  let p := if 0 < size
    then p.setDInode { p.dinode with
      i_size := Int64.ofInt (max p.dinode.i_size.toInt (wrap64 (start + size))) }
    else p
  (if check then -EFBIG else wrap32 size, p.setDirty)

def testfs_write_data (buf : List UInt8) (start : Int) : Except Fault (Int × InodePtr) := do
  if start < 0 then throw .overrun
  let block_nr := start / BLOCK_SIZE
  let block_ix := (start % BLOCK_SIZE).toNat
  let size := buf.length
  if BLOCK_SIZE < block_ix + size then
    let check : Bool := sizeT (MAX_FILE_SIZE - start) < size
    let size := if check then sizeT (MAX_FILE_SIZE - start) else size
    let (ret, p) ← p.storeBlock (wrap32 block_nr) block_ix (buf.take (BLOCK_SIZE - block_ix))
    if ret < 0 then return (ret, p)
    let buf := buf.drop (BLOCK_SIZE - block_ix)
    let tempSize := size - (BLOCK_SIZE - block_ix)
    let whole := (tempSize - 1) / BLOCK_SIZE
    let (ret, p) ← writeWhole block_nr whole 0 p buf
    if ret < 0 then return (ret, p)
    let (ret, p) ← p.storeBlock (wrap32 (block_nr + (whole + 1 : Nat))) 0
      ((buf.drop (whole * BLOCK_SIZE)).take (tempSize - whole * BLOCK_SIZE))
    -- with a whole block in between a failure returns here, without one it goes to `out`
    if whole ≠ 0 ∧ ret < 0 then return (ret, p)
    -- `i * BLOCK_SIZE` is an `int`
    if 2 ^ 31 ≤ whole * BLOCK_SIZE then throw .overflow
    return p.writeOut start size check
  let (ret, p) ← p.storeBlock (wrap32 block_nr) block_ix buf
  if ret < 0 then return (ret, p)
  return p.writeOut start size false

end Writing

section Release

/-- A loop over the first `n` entries of an index block that releases those `taken` selects. -/
def freeEntries (taken : Int → Bool) (block : Memory) (n : Nat) : Except Fault InodePtr :=
  (List.range n).foldlM
    (fun p i => if taken (entry block i) then p.testfs_free_block_from_inode (entry block i) else return p) p

def freeDirect (e_block_nr : Int) : Except Fault InodePtr :=
  (List.finRange NR_DIRECT_BLOCKS).foldlM (fun p (i : Fin NR_DIRECT_BLOCKS) => do
    if (i : Nat) < e_block_nr ∧ p.dinode.i_block_nr i ≠ 0 then
      let p ← p.testfs_free_block_from_inode (p.dinode.i_block_nr i).toInt
      return p.setDInode { p.dinode with i_block_nr := Function.update p.dinode.i_block_nr i 0 }
    return p) p

def freeIndirect (e_block_nr : Int) : Except Fault InodePtr := do
  if 0 < p.dinode.i_indirect.toInt then
    assert (0 < e_block_nr)
    let block ← read_block p.sb.dev p.dinode.i_indirect.toInt
    let p ← p.freeEntries (· ≠ 0) block (min e_block_nr.toNat NR_INDIRECT_BLOCKS)
    let p ← p.testfs_free_block_from_inode p.dinode.i_indirect.toInt
    return p.setDInode { p.dinode with i_indirect := 0 }
  return p

/-- One turn of the outer loop; `k` counts the entries visited in the tables that are there. -/
def freeTable (e_block_nr : Int) (blockinD : Memory) (kp : Nat × InodePtr) (i : Nat) :
    Except Fault (Nat × InodePtr) := do
  let (k, p) := kp
  if k < e_block_nr ∧ 0 < entry blockinD i then
    let blockin ← read_block p.sb.dev (entry blockinD i)
    let turns := min NR_INDIRECT_BLOCKS (e_block_nr - k).toNat
    let p ← p.freeEntries (0 < ·) blockin turns
    let p ← p.testfs_free_block_from_inode (entry blockinD i)
    return (k + turns, p)
  return (k, p)

def freeDouble (e_block_nr : Int) : Except Fault InodePtr := do
  if 0 < e_block_nr ∧ 0 < p.dinode.i_dindirect.toInt then
    let blockinD ← read_block p.sb.dev p.dinode.i_dindirect.toInt
    let (_, p) ← (List.range NR_INDIRECT_BLOCKS).foldlM (freeTable e_block_nr blockinD) (0, p)
    let p ← p.testfs_free_block_from_inode p.dinode.i_dindirect.toInt
    return p.setDInode { p.dinode with i_dindirect := 0 }
  return p

def testfs_free_blocks : Except Fault InodePtr := do
  let e_block_nr := wrap32 ((wrap64 (p.dinode.i_size.toInt + (BLOCK_SIZE - 1 : Nat))).tdiv BLOCK_SIZE)
  let p ← p.freeDirect e_block_nr
  let p ← p.freeIndirect (e_block_nr - NR_DIRECT_BLOCKS)
  let p ← p.freeDouble (e_block_nr - NR_DIRECT_BLOCKS - NR_INDIRECT_BLOCKS)
  return (p.setDInode { p.dinode with i_size := 0 }).setDirty

end Release

end InodePtr

end OperatingSystem.Fs
