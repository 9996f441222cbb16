import Mathlib.Data.Set.Card
import OperatingSystem.Fs.Commands
import OperatingSystem.Fs.Owned

/-!
# What a user sees of the files

A file system is a tree of names: a path leads to a directory, to a file with its contents, or nowhere.
The commands work on the paths; where their entries and contents are stored does not show.
-/

namespace OperatingSystem.Fs

inductive Entry
  | dir
  | file (content : List UInt8)
  deriving DecidableEq

structure Namespace where
  tree : List Name → Option Entry
  cwd : List Name

def overwrite (content : List UInt8) (start : Nat) (text : List UInt8) : List UInt8 :=
  content.takeD start 0 ++ text ++ content.drop (start + text.length)

def shown : List Name → List Printed
  | [] => [.root]
  | name :: names => .root :: .component false name :: names.map (.component true)

namespace Namespace

variable (v : Namespace)

def path (name : Name) : List Name :=
  if name = dot then v.cwd else if name = dotdot then v.cwd.dropLast else v.cwd ++ [name]

def find (name : Name) : Option Entry := v.tree (v.path name)

def Full : Prop := NR_INODES ≤ {p | v.tree p ≠ none}.ncard

open Classical in
noncomputable def make (entry : Entry) (name : Name) : Int × Namespace :=
  if v.find name ≠ none then (-EEXIST, v)
  else if v.Full then (-ENOSPC, v)
  else (0, { v with tree := Function.update v.tree (v.path name) (some entry) })

open Classical in
noncomputable def remove (name : Name) : Int × Namespace :=
  if name = dot ∨ name = dotdot then (-EINVAL, v)
  else if v.find name = none then (-ENOENT, v)
  else if ∃ below, v.tree (v.path name ++ [below]) ≠ none then (-ENOTEMPTY, v)
  else (0, { v with tree := Function.update v.tree (v.path name) none })

def enter (name : Name) : Int × Namespace :=
  match v.find name with
  | none => (-ENOENT, v)
  | some (.file _) => (-ENOTDIR, v)
  | some .dir => (0, { v with cwd := v.path name })

def write (name : Name) (start : Nat) (text : List UInt8) : Int × Namespace :=
  match v.find name with
  | none => (-ENOENT, v)
  | some .dir => (-EISDIR, v)
  | some (.file content) =>
      (wrap32 text.length, { v with tree := Function.update v.tree (v.path name) (some (.file (overwrite content start text))) })

def read (malloc : Nat → Option Bytes.Memory) (name : Name) (start size : Nat) : Int × List Output :=
  match v.find name with
  | none => (-ENOENT, [])
  | some .dir => (-EISDIR, [])
  | some (.file content) =>
      if content.length < start + size then (-EINVAL, [])
      else if malloc (size + 1) = none then (-ENOMEM, [])
      else (size, [.text (((content.drop start).take size).takeWhile (· ≠ 0))])

/-- `stat`: which inode an entry has and in how many blocks it is stored does not show, nor does the size of a directory. -/
def Described (name : Name) (entry : Entry) (out : List Output) : Prop :=
  ∃ i_nr i_size block_count, match entry with
    | .dir => out = [.stat name i_nr InodeType.I_DIR.code i_size block_count]
    | .file content => out = [.stat name i_nr InodeType.I_FILE.code content.length block_count]

/-- What is printed of a directory: its entries in any order, and with a directory below it what is printed of that when
the listing is recursive. -/
inductive Listing (recursive : Bool) : List Name → List Printed → Prop
  | directory {p : List Name} {names : List Name} {below : Name → List Printed} : names.Nodup →
      (∀ name, name ∈ names ↔ name = dot ∨ name = dotdot ∨ v.tree (p ++ [name]) ≠ none) →
      (∀ name, recursive = true → v.tree (p ++ [name]) = some .dir → Listing recursive (p ++ [name]) (below name)) →
      (∀ name, ¬ (recursive = true ∧ v.tree (p ++ [name]) = some .dir) → below name = []) →
      Listing recursive p (names.flatMap fun name =>
        .line name (name = dot ∨ name = dotdot ∨ v.tree (p ++ [name]) = some .dir) :: below name)

def Lists (recursive : Bool) (name : Name) (ret : Int) (out : List Output) : Prop :=
  match v.find name with
  | none => ret = -ENOENT ∧ out = []
  | some (.file _) => ret = -ENOTDIR ∧ out = []
  | some .dir => ret = 0 ∧ ∃ lines, out = lines.map .printed ∧ v.Listing recursive (v.path name) lines

def Does (env : Environment) (v : Namespace) (ret : Int) (out : List Output) (v' : Namespace) : Command → List Name → Prop
  | .create, [name] => (ret, v') = v.make (.file []) name ∧ out = []
  | .mkdir, [name] => (ret, v') = v.make .dir name ∧ out = []
  | .rm, [name] => (ret, v') = v.remove name ∧ out = []
  | .cd, [name] => (ret, v') = v.enter name ∧ out = []
  | .pwd, [] => ret = 0 ∧ out = (shown v.cwd).map .printed ∧ v' = v
  | .stat, [name] => v' = v ∧ match v.find name with
      | none => ret = -ENOENT ∧ out = []
      | some entry => ret = 0 ∧ Described name entry out
  | .ls, [name] => v' = v ∧ v.Lists false name ret out
  | .lsr, [name] => v' = v ∧ v.Lists true name ret out
  | .write, [name, offset, text] => out = [] ∧ match str_to_offset offset with
      | .error e => ret = e ∧ v' = v
      | .ok start => if start < 0 then ret = -EINVAL ∧ v' = v else (ret, v') = v.write name start.toNat text
  | .read, [name, offset, size] => v' = v ∧ match str_to_offset offset, str_to_size size with
      | .error e, _ => ret = e ∧ out = []
      | .ok start, len => if start < 0 then ret = -EINVAL ∧ out = [] else match len with
          | .error e => ret = e ∧ out = []
          | .ok len => (ret, out) = v.read env.malloc name start.toNat len
  | _, _ => ret = -EINVAL ∧ out = [] ∧ v' = v

end Namespace

end OperatingSystem.Fs
