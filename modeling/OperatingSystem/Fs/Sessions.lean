import OperatingSystem.Fs.Answers
import OperatingSystem.Fs.Represents

namespace OperatingSystem.Fs

def InodeTable.inode_hash_destroy (t : InodeTable) : Except Fault Unit :=
  assert (∀ h, (t.chain h).isEmpty)

namespace Testfs

def opened (dev : Disk) : Testfs := ⟨testfs_init_super_block dev, .empty⟩

def testfs_close_super_block (t : Testfs) : Except Fault Disk := do
  t.inode_hash_table.inode_hash_destroy
  return Fs.testfs_close_super_block t.sb

end Testfs

def fsBlocks (fs_size_mb : UInt64) : Except Fault UInt64 :=
  let max_fs_blocks := (BLOCK_FREEMAP_SIZE * BLOCK_SIZE * 8).toUInt64
  let max_fs_size_mb := (max_fs_blocks * BLOCK_SIZE.toUInt64) >>> 20
  if fs_size_mb < 1 then .error .exit
  else if max_fs_size_mb < fs_size_mb then .error .exit
  else .ok ((fs_size_mb <<< 20) / BLOCK_SIZE.toUInt64)

/-- `main` of `mktestfs`.  The result of `testfs_make_root_dir` is not looked at. -/
def mktestfs (dev : Disk) (fs_size_mb : UInt64) : Except Fault Disk := do
  let max_fs_blocks ← fsBlocks fs_size_mb
  let (_, t) ← Prog.run Testfs.handle testfs_make_root_dir (.opened (makeImage dev max_fs_blocks))
  t.testfs_close_super_block

namespace Session

def start (dev : Disk) : Except Fault Session := do
  let fs ← (Testfs.opened dev).testfs_get_inode 0
  return ⟨fs, 0⟩

def quit (c : Session) : Except Fault Disk := do
  let fs ← c.fs.testfs_put_inode c.cur_dir
  fs.testfs_close_super_block

def cmd_fsstat (c : Session) : List Name → Int × Option (UInt32 × UInt32)
  | [] => (0, some (c.fs.sb.sb.used_inode_count, c.fs.sb.sb.used_block_count))
  | _ => (-EINVAL, none)

end Session

inductive Action
  | command (issued : Issued)
  | fsstat (args : List Name)
  | restart

inductive Answer
  | command (ret : Int) (out : List Output)
  | fsstat (ret : Int) (counts : Option (UInt32 × UInt32))
  | restart
  deriving DecidableEq, Repr

namespace Session

def step (c : Session) : Action → Except Fault (Session × Answer)
  | .command issued => do
      let (c, ret, out) ← c.handle_command issued
      return (c, .command ret out)
  | .fsstat args => .ok (c, .fsstat (c.cmd_fsstat args).1 (c.cmd_fsstat args).2)
  | .restart => do
      let dev ← c.quit
      let c ← start dev
      return (c, .restart)

def fresh (dev : Disk) (fs_size_mb : UInt64) : Except Fault Session := do
  let dev ← mktestfs dev fs_size_mb
  start dev

end Session

namespace Namespace

def empty : Namespace := ⟨fun p => if p = [] then some .dir else none, []⟩

/-- What a user sees of an action: the number of entries is printed, the number of blocks does not show, and another run starts
in the root. -/
def Answers (v : Namespace) : Action × Answer → Namespace → Prop
  | (.command issued, .command ret out), v' => v.Does issued.env ret out v' issued.command issued.args
  | (.fsstat [], .fsstat ret counts), v' => v' = v ∧ ret = 0 ∧
      ∃ inodes blocks, counts = some (inodes, blocks) ∧ inodes.toNat = {p | v.tree p ≠ none}.ncard
  | (.fsstat _, .fsstat ret counts), v' => v' = v ∧ ret = -EINVAL ∧ counts = none
  | (.restart, .restart), v' => v' = { v with cwd := [] }
  | _, _ => False

end Namespace

end OperatingSystem.Fs
