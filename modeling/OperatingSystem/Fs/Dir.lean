import OperatingSystem.Library.Prog
import OperatingSystem.Fs.Inodes

/-!
# `dir.c`

The functions on directories are programs over the operations on inodes.  A `struct inode *` is the
number of the inode, and what they print is part of their result.
-/

namespace OperatingSystem.Fs

open InodeType

abbrev Name := List UInt8

inductive InodeOp
  | testfs_get_inode (inode_nr : Nat)
  | testfs_put_inode (i_nr : Nat)
  | testfs_inode_get_type (i_nr : Nat)
  | testfs_inode_get_size (i_nr : Nat)
  | testfs_inode_get_block_count (i_nr : Nat)
  | testfs_read_data (i_nr : Nat) (start : Int) (size : Nat)
  | testfs_write_data (i_nr : Nat) (buf : List UInt8) (start : Int)
  | testfs_create_inode (type : InodeType)
  | testfs_remove_inode (i_nr : Nat)
  | testfs_sync_inode (i_nr : Nat)

/-- What they return.  A read also returns the bytes it stored to the buffer. -/
abbrev InodeOp.Res : InodeOp → Type
  | testfs_get_inode _ => Unit
  | testfs_put_inode _ => Unit
  | testfs_inode_get_type _ => Int32
  | testfs_inode_get_size _ => Int
  | testfs_inode_get_block_count _ => Int32
  | testfs_read_data _ _ _ => Int × List UInt8
  | testfs_write_data _ _ _ => Int
  | testfs_create_inode _ => Int × Nat
  | testfs_remove_inode _ => Unit
  | testfs_sync_inode _ => Unit

abbrev DirProg := Prog InodeOp.Res Fault

def Testfs.handle : Prog.Handler InodeOp.Res Fault Testfs
  | .testfs_get_inode inode_nr, t => t.testfs_get_inode inode_nr >>= fun t => .ok ((), t)
  | .testfs_put_inode i_nr, t => t.testfs_put_inode i_nr >>= fun t => .ok ((), t)
  | .testfs_inode_get_type i_nr, t => t.testfs_inode_get_type i_nr >>= fun type => .ok (type, t)
  | .testfs_inode_get_size i_nr, t => t.testfs_inode_get_size i_nr >>= fun size => .ok (size, t)
  | .testfs_inode_get_block_count i_nr, t => t.inode i_nr >>= fun i => .ok (i.dinode.block_count, t)
  | .testfs_read_data i_nr start size, t => t.testfs_read_data i_nr start size >>= fun read => .ok (read, t)
  | .testfs_write_data i_nr buf start, t => t.testfs_write_data i_nr buf start
  | .testfs_create_inode type, t => t.testfs_create_inode type
  | .testfs_remove_inode i_nr, t => t.testfs_remove_inode i_nr >>= fun t => .ok ((), t)
  | .testfs_sync_inode i_nr, t => t.testfs_sync_inode i_nr >>= fun t => .ok ((), t)

section Strings

/-- The string in a buffer of which `stored` are the bytes that were stored: it ends with its first NUL. -/
def cstring : List UInt8 → Except Fault Name
  | [] => .error .uninitialised
  | c :: stored => if c = 0 then .ok [] else do
      let rest ← cstring stored
      return c :: rest

def strcmp : List UInt8 → Name → Except Fault Bool
  | [], _ => .error .uninitialised
  | c :: _, [] => .ok (c = 0)
  | c :: stored, d :: name => if c = d ∧ c ≠ 0 then strcmp stored name else .ok (c = 0 ∧ d = 0)

def dot : Name := [46]
def dotdot : Name := [46, 46]

end Strings

/-- `struct dirent`, with the bytes that were stored at `D_NAME`. -/
structure Dirent where
  d_name_len : Int32
  d_inode_nr : Int32
  name : List UInt8
  deriving DecidableEq, Repr

def Dirent.size : Nat := 8

def word (stored : List UInt8) : Int32 := (UInt32.ofNat (Bytes.toNat stored)).toInt32

def Dirent.header (stored : List UInt8) : Except Fault (Int32 × Int32) :=
  if stored.length < Dirent.size then .error .uninitialised
  else .ok (word (stored.take 4), word ((stored.drop 4).take 4))

section Scanning

open InodeOp
open Prog (call fault)

def testfs_next_dirent (dir : Nat) (offset : Int) : DirProg (Option Dirent × Int) := do
  let type ← call (testfs_inode_get_type dir)
  assert (type = I_DIR.code)
  let size ← call (testfs_inode_get_size dir)
  if size ≤ offset then return (none, offset)
  let (ret, stored) ← call (testfs_read_data dir offset Dirent.size)
  if ret < 0 then return (none, offset)
  let (d_name_len, d_inode_nr) ← Dirent.header stored
  assert (0 < d_name_len)
  let offset := offset + Dirent.size
  let (ret, name) ← call (testfs_read_data dir offset d_name_len.toInt.toNat)
  if ret < 0 then return (none, offset)
  return (some ⟨d_name_len, d_inode_nr, name⟩, offset + d_name_len.toInt)

/-- The turns of a loop over a directory: every turn moves the offset, an `off_t`, on. -/
def turns : Nat := 2 ^ 63

def findDirent (dir : Nat) (inode_nr : Int) : Nat → Int → DirProg (Option Dirent)
  | 0, _ => fault .endless
  | fuel + 1, offset => do
      let (d, offset) ← testfs_next_dirent dir offset
      match d with
      | none => return none
      | some d => if d.d_inode_nr.toInt = inode_nr then return some d else findDirent dir inode_nr fuel offset

def testfs_find_dirent (dir : Nat) (inode_nr : Int) : DirProg (Option Dirent) := do
  let type ← call (testfs_inode_get_type dir)
  assert (type = I_DIR.code)
  assert (0 ≤ inode_nr)
  findDirent dir inode_nr turns 0

def nameToInodeNr (dir : Nat) (name : Name) : Nat → Int → DirProg Int
  | 0, _ => fault .endless
  | fuel + 1, offset => do
      let (d, offset) ← testfs_next_dirent dir offset
      match d with
      | none => return -ENOENT
      | some d =>
          if d.d_inode_nr < 0 then nameToInodeNr dir name fuel offset
          else if ← strcmp d.name name then return d.d_inode_nr.toInt
          else nameToInodeNr dir name fuel offset

def testfs_dir_name_to_inode_nr (dir : Nat) (name : Name) : DirProg Int := do
  let type ← call (testfs_inode_get_type dir)
  assert (type = I_DIR.code)
  nameToInodeNr dir name turns 0

end Scanning

section Changing

open InodeOp
open Prog (call fault)

def Dirent.bytes (d : Dirent) : List UInt8 :=
  Bytes.bytes32 d.d_name_len.toUInt32 ++ (Bytes.bytes32 d.d_inode_nr.toUInt32 ++ d.name)

def testfs_write_dirent (dir : Nat) (name : Name) (len : Int32) (inode_nr : Int) (offset : Int) : DirProg Int := do
  assert (0 ≤ inode_nr)
  call (testfs_write_data dir (Dirent.bytes ⟨len, Int32.ofInt inode_nr, name ++ [0]⟩) offset)

def addDirent (dir : Nat) (name : Name) (len : Int32) : Nat → Int → DirProg (Int × Bool × Int)
  | 0, _ => fault .endless
  | fuel + 1, p_offset => do
      let (d, offset) ← testfs_next_dirent dir p_offset
      match d with
      | none => return (0, false, p_offset)
      | some d => do
          let taken ← if 0 ≤ d.d_inode_nr then strcmp d.name name else pure false
          if taken then return (-EEXIST, false, p_offset)
          else if 0 ≤ d.d_inode_nr ∨ d.d_name_len ≠ len then addDirent dir name len fuel offset
          else return (0, true, p_offset)

/-- `offset` is narrowed to an `int` on its way to `testfs_write_dirent`. -/
def testfs_add_dirent (dir : Nat) (name : Name) (inode_nr : Int) : DirProg Int := do
  if 2 ^ 31 ≤ name.length + 1 then fault .overflow
  let len := Int32.ofNat (name.length + 1)
  let type ← call (testfs_inode_get_type dir)
  assert (type = I_DIR.code)
  let (ret, found, p_offset) ← addDirent dir name len turns 0
  if ret < 0 then return ret
  let size ← call (testfs_inode_get_size dir)
  assert (found ∨ p_offset = size)
  testfs_write_dirent dir name len inode_nr (wrap32 p_offset)

def removeDirentAllowed (dir : Nat) : Nat → Int → DirProg Int
  | 0, _ => fault .endless
  | fuel + 1, offset => do
      let (d, offset) ← testfs_next_dirent dir offset
      match d with
      | none => return 0
      | some d =>
          if d.d_inode_nr < 0 then removeDirentAllowed dir fuel offset
          else do
            let own ← strcmp d.name dot
            let up ← if own then pure true else strcmp d.name dotdot
            if up then removeDirentAllowed dir fuel offset else return -ENOTEMPTY

def testfs_remove_dirent_allowed (inode_nr : Nat) : DirProg Int := do
  call (testfs_get_inode inode_nr)
  let type ← call (testfs_inode_get_type inode_nr)
  let ret ← if type ≠ I_DIR.code then pure 0 else removeDirentAllowed inode_nr turns 0
  call (testfs_put_inode inode_nr)
  return ret

def INVALID_INODE_NR : Int32 := -1

def removeDirent (dir : Nat) (name : Name) : Nat → Int → DirProg Int
  | 0, _ => fault .endless
  | fuel + 1, p_offset => do
      let (d, offset) ← testfs_next_dirent dir p_offset
      match d with
      | none => return -ENOENT
      | some d =>
          if d.d_inode_nr < 0 then removeDirent dir name fuel offset
          else if ← strcmp d.name name then do
            let inode_nr := d.d_inode_nr.toInt
            let ret ← testfs_remove_dirent_allowed inode_nr.toNat
            if ret < 0 then return ret
            if d.name.length < d.d_name_len.toInt.toNat then fault .uninitialised
            let ret ← call (testfs_write_data dir (Dirent.bytes { d with d_inode_nr := INVALID_INODE_NR }) p_offset)
            return if 0 ≤ ret then inode_nr else ret
          else removeDirent dir name fuel offset

def testfs_remove_dirent (dir : Nat) (name : Name) : DirProg Int :=
  if name = dot ∨ name = dotdot then return -EINVAL else removeDirent dir name turns 0

def testfs_create_empty_dir (p_inode_nr : Int) (cdir : Nat) : DirProg Int := do
  let type ← call (testfs_inode_get_type cdir)
  assert (type = I_DIR.code)
  let ret ← testfs_add_dirent cdir dot cdir
  if ret < 0 then return ret
  let ret ← testfs_add_dirent cdir dotdot p_inode_nr
  if ret < 0 then
    let _ ← testfs_remove_dirent cdir dot
    return ret
  return 0

def testfs_create_file_or_dir (dir : Option Nat) (type : InodeType) (name : Name) : DirProg Int := do
  if let some dir := dir then
    let inode_nr ← testfs_dir_name_to_inode_nr dir name
    if 0 ≤ inode_nr then return -EEXIST
  let (ret, i_nr) ← call (testfs_create_inode type)
  if ret < 0 then return ret
  let out (ret : Int) : DirProg Int := do
    call (testfs_remove_inode i_nr)
    return ret
  if type = I_DIR then
    let ret ← testfs_create_empty_dir (dir.getD i_nr) i_nr
    if ret < 0 then return ← out ret
  if let some dir := dir then
    let ret ← testfs_add_dirent dir name i_nr
    if ret < 0 then return ← out ret
    call (testfs_sync_inode dir)
  call (testfs_sync_inode i_nr)
  call (testfs_put_inode i_nr)
  return 0

def testfs_make_root_dir : DirProg Int := testfs_create_file_or_dir none I_DIR []

end Changing

inductive Printed
  | root
  | component (slash : Bool) (name : Name)
  | line (name : Name) (slash : Bool)
  deriving DecidableEq, Repr

def Printed.name : Printed → Option Name
  | root => none
  | component _ name => some name
  | line name _ => some name

section Recursion

open InodeOp
open Prog (call fault)

def testfs_pwd : Nat → Nat → DirProg (Int × List Printed)
  | 0, _ => fault .deep
  | depth + 1, i_nr => do
      let p_inode_nr ← testfs_dir_name_to_inode_nr i_nr dotdot
      assert (0 ≤ p_inode_nr)
      if p_inode_nr = i_nr then return (1, [.root])
      let p_in := p_inode_nr.toNat
      call (testfs_get_inode p_in)
      let d ← testfs_find_dirent p_in i_nr
      match d with
      | none => fault .assertion
      | some d => do
          let (ret, printed) ← testfs_pwd depth p_in
          call (testfs_put_inode p_in)
          let name ← cstring d.name
          return (0, printed ++ [.component (ret ≠ 1) name])

def lsEntry (ls : Nat → DirProg (List Printed)) (recursive : Bool) (d : Dirent) : DirProg (List Printed) := do
  let cin := d.d_inode_nr.toInt.toNat
  call (testfs_get_inode cin)
  let type ← call (testfs_inode_get_type cin)
  let name ← cstring d.name
  let printed ← if recursive ∧ type = I_DIR.code ∧ name ≠ dot ∧ name ≠ dotdot then ls cin else pure []
  call (testfs_put_inode cin)
  return .line name (type = I_DIR.code) :: printed

def lsLoop (ls : Nat → DirProg (List Printed)) (i_nr : Nat) (recursive : Bool) : Nat → Int → DirProg (List Printed)
  | 0, _ => fault .endless
  | fuel + 1, offset => do
      let (d, offset) ← testfs_next_dirent i_nr offset
      match d with
      | none => return []
      | some d =>
          if d.d_inode_nr < 0 then lsLoop ls i_nr recursive fuel offset
          else do
            let printed ← lsEntry ls recursive d
            let rest ← lsLoop ls i_nr recursive fuel offset
            return printed ++ rest

def testfs_ls (recursive : Bool) : Nat → Nat → DirProg (List Printed)
  | 0, _ => fault .deep
  | depth + 1, i_nr => lsLoop (testfs_ls recursive depth) i_nr recursive turns 0

end Recursion

end OperatingSystem.Fs
