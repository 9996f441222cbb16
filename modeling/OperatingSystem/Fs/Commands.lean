import OperatingSystem.Fs.Dir

namespace OperatingSystem.Fs

open Bytes InodeType

section Conversions

def isspace (c : UInt8) : Bool := c = 32 ∨ 9 ≤ c ∧ c ≤ 13
def isdigit (c : UInt8) : Bool := 48 ≤ c ∧ c ≤ 57

/-- What `strtoll` and `strtoull` read in base 10: the sign, the magnitude, and what `end` points to. -/
def scanNumber (str : Name) : Bool × Nat × Name :=
  let digits := str.dropWhile isspace
  let negative := digits.head? = some 45
  let digits := if negative ∨ digits.head? = some 43 then digits.tail else digits
  if digits.takeWhile isdigit = [] then (false, 0, str)
  else (negative, (digits.takeWhile isdigit).foldl (fun n c => 10 * n + (c.toNat - 48)) 0, digits.dropWhile isdigit)

/-- The value, which is `-EINVAL` when something is left behind the number. -/
def str_to_offset (str : Name) : Except Int Int :=
  let (negative, magnitude, rest) := scanNumber str
  if rest ≠ [] then .error (-EINVAL)
  else if negative then .ok (max (-magnitude) (-2 ^ 63)) else .ok (min magnitude (2 ^ 63 - 1))

def str_to_size (str : Name) : Except Int Nat :=
  let (negative, magnitude, rest) := scanNumber str
  if rest ≠ [] then .error (-EINVAL)
  else if 2 ^ 64 ≤ magnitude then .ok (2 ^ 64 - 1)
  else if negative then .ok ((2 ^ 64 - magnitude) % 2 ^ 64) else .ok magnitude

end Conversions

inductive Output
  | printed (p : Printed)
  | stat (name : Name) (i_nr : Nat) (i_type : Int32) (i_size : Int) (block_count : Int32)
  | text (string : Name)
  deriving DecidableEq, Repr

inductive Command
  | cd | pwd | ls | lsr | create | stat | rm | mkdir | read | write
  deriving DecidableEq, Repr

section Directories

open InodeOp
open Prog (call fault)

def cmd_cd (cur_dir : Nat) : List Name → DirProg (Int × Nat)
  | [name] => do
      let inode_nr ← testfs_dir_name_to_inode_nr cur_dir name
      if inode_nr < 0 then return (inode_nr, cur_dir)
      let dir_inode := inode_nr.toNat
      call (testfs_get_inode dir_inode)
      let type ← call (testfs_inode_get_type dir_inode)
      if type ≠ I_DIR.code then
        call (testfs_put_inode dir_inode)
        return (-ENOTDIR, cur_dir)
      call (testfs_put_inode cur_dir)
      return (0, dir_inode)
  | _ => return (-EINVAL, cur_dir)

def cmd_pwd (depth cur_dir : Nat) : List Name → DirProg (Int × List Printed)
  | [] => do
      let (_, printed) ← testfs_pwd depth cur_dir
      return (0, printed)
  | _ => return (-EINVAL, [])

/-- An inode that is not a directory is not put back. -/
def cmd_ls_internal (depth cur_dir : Nat) (recursive : Bool) : List Name → DirProg (Int × List Printed)
  | [cdir] => do
      let inode_nr ← testfs_dir_name_to_inode_nr cur_dir cdir
      if inode_nr < 0 then return (inode_nr, [])
      let i_nr := inode_nr.toNat
      call (testfs_get_inode i_nr)
      let type ← call (testfs_inode_get_type i_nr)
      if type = I_DIR.code then
        let printed ← testfs_ls recursive depth i_nr
        call (testfs_put_inode i_nr)
        return (0, printed)
      else return (-ENOTDIR, [])
  | _ => return (-EINVAL, [])

def cmd_ls (depth cur_dir : Nat) := cmd_ls_internal depth cur_dir false
def cmd_lsr (depth cur_dir : Nat) := cmd_ls_internal depth cur_dir true

def cmd_create (cur_dir : Nat) : List Name → DirProg Int
  | [name] => testfs_create_file_or_dir cur_dir I_FILE name
  | _ => return -EINVAL

def cmd_mkdir (cur_dir : Nat) : List Name → DirProg Int
  | [name] => testfs_create_file_or_dir cur_dir I_DIR name
  | _ => return -EINVAL

def cmd_rm (cur_dir : Nat) : List Name → DirProg Int
  | [name] => do
      let inode_nr ← testfs_remove_dirent cur_dir name
      if inode_nr < 0 then return inode_nr
      let i_nr := inode_nr.toNat
      call (testfs_get_inode i_nr)
      call (testfs_remove_inode i_nr)
      call (testfs_sync_inode cur_dir)
      return 0
  | _ => return -EINVAL

def cmd_stat (cur_dir : Nat) : List Name → DirProg (Int × List Output)
  | [name] => do
      let inode_nr ← testfs_dir_name_to_inode_nr cur_dir name
      if inode_nr < 0 then return (inode_nr, [])
      let i_nr := inode_nr.toNat
      call (testfs_get_inode i_nr)
      let type ← call (testfs_inode_get_type i_nr)
      let size ← call (testfs_inode_get_size i_nr)
      let block_count ← call (testfs_inode_get_block_count i_nr)
      call (testfs_put_inode i_nr)
      return (0, [.stat name i_nr type size block_count])
  | _ => return (-EINVAL, [])

end Directories

section Files

open InodeOp
open Prog (call fault)

def testfs_get_file_inode (dir : Nat) (name : Name) : DirProg (Int × Nat) := do
  let inode_nr ← testfs_dir_name_to_inode_nr dir name
  if inode_nr < 0 then return (inode_nr, 0)
  let i_nr := inode_nr.toNat
  call (testfs_get_inode i_nr)
  let type ← call (testfs_inode_get_type i_nr)
  if type = I_DIR.code then
    call (testfs_put_inode i_nr)
    return (-EISDIR, 0)
  return (0, i_nr)

/-- `malloc` gives a request the bytes of its buffer, or `NULL`.  The buffer is as long as the request. -/
def cmd_read (malloc : Nat → Option Memory) (cur_dir : Nat) : List Name → DirProg (Int × List Output)
  | [filename, offset, size] =>
      match str_to_offset offset, str_to_size size with
      | .error ret, _ => return (ret, [])
      | .ok offset, size =>
          if offset < 0 then return (-EINVAL, [])
          else match size with
          | .error ret => return (ret, [])
          | .ok size => do
              let (ret, i_nr) ← testfs_get_file_inode cur_dir filename
              if ret < 0 then return (ret, [])
              let file_size ← call (testfs_inode_get_size i_nr)
              if file_size < wrap64 (offset + wrap64 size) then
                call (testfs_put_inode i_nr)
                return (-EINVAL, [])
              match malloc (sizeT (size + 1)) with
              | none =>
                  call (testfs_put_inode i_nr)
                  return (-ENOMEM, [])
              | some buf =>
                  let (ret, stored) ← call (testfs_read_data i_nr offset size)
                  if sizeT (size + 1) < stored.length then fault .overrun
                  if ret < 0 then
                    call (testfs_put_inode i_nr)
                    return (ret, [])
                  if sizeT (size + 1) ≤ size then fault .overrun
                  let buf := splice (splice buf 0 stored) size [0]
                  call (testfs_put_inode i_nr)
                  return (ret, [.text ((slice buf 0 size).takeWhile (· ≠ 0))])
  | _ => return (-EINVAL, [])

def cmd_write (cur_dir : Nat) : List Name → DirProg Int
  | [filename, offset, buf] =>
      match str_to_offset offset with
      | .error ret => return ret
      | .ok offset =>
          if offset < 0 then return -EINVAL
          else do
            let (ret, i_nr) ← testfs_get_file_inode cur_dir filename
            if ret < 0 then return ret
            let ret ← call (testfs_write_data i_nr buf offset)
            call (testfs_sync_inode i_nr)
            call (testfs_put_inode i_nr)
            return ret
  | _ => return -EINVAL

end Files

/-- What a command is run with: `depth` bounds its recursion. -/
structure Environment where
  malloc : Nat → Option Memory
  depth : Nat

/-- The result, the current directory after it, and what is printed.  `args` are `c->cmd` behind the name of the
command; the `nargs` of the source counts that name too. -/
def Command.func (env : Environment) (cur_dir : Nat) (args : List Name) : Command → DirProg (Int × Nat × List Output)
  | cd => do
      let (ret, cur_dir) ← cmd_cd cur_dir args
      return (ret, cur_dir, [])
  | pwd => do
      let (ret, printed) ← cmd_pwd env.depth cur_dir args
      return (ret, cur_dir, printed.map .printed)
  | ls => do
      let (ret, printed) ← cmd_ls env.depth cur_dir args
      return (ret, cur_dir, printed.map .printed)
  | lsr => do
      let (ret, printed) ← cmd_lsr env.depth cur_dir args
      return (ret, cur_dir, printed.map .printed)
  | create => do
      let ret ← cmd_create cur_dir args
      return (ret, cur_dir, [])
  | stat => do
      let (ret, output) ← cmd_stat cur_dir args
      return (ret, cur_dir, output)
  | rm => do
      let ret ← cmd_rm cur_dir args
      return (ret, cur_dir, [])
  | mkdir => do
      let ret ← cmd_mkdir cur_dir args
      return (ret, cur_dir, [])
  | read => do
      let (ret, output) ← cmd_read env.malloc cur_dir args
      return (ret, cur_dir, output)
  | write => do
      let ret ← cmd_write cur_dir args
      return (ret, cur_dir, [])

structure Session where
  fs : Testfs
  cur_dir : Nat

structure Issued where
  env : Environment
  command : Command
  args : List Name
  strings : ∀ arg ∈ args, 0 ∉ arg

def Session.handle_command (c : Session) (issued : Issued) : Except Fault (Session × Int × List Output) :=
  Prog.run Testfs.handle (issued.command.func issued.env c.cur_dir issued.args) c.fs >>= fun r =>
    .ok (⟨r.2, r.1.2.1⟩, r.1.1, r.1.2.2)

end OperatingSystem.Fs
