import OperatingSystem.Fs.Files
import OperatingSystem.Fs.Paths

namespace OperatingSystem.Fs

open Bytes Prog InodeType

/-- From `offset` to its end the file is these records, which have no name longer than a block. -/
def Node.Lists (n : Node) (offset : Nat) (records : List Record) : Prop :=
  n.i_size = (offset + (records.flatMap Record.bytes).length : Nat) ∧
    slice n.content offset (records.flatMap Record.bytes).length = records.flatMap Record.bytes ∧
    ∀ r ∈ records, r.d_name.length ≤ BLOCK_SIZE

structure Node.Directory (n : Node) (records : List Record) : Prop where
  type : n.i_type = I_DIR.code
  lists : n.Lists 0 records
  small : n.i_size < NEAR_FILE_SIZE

namespace Record

variable (r : Record)

def entry : Dirent := ⟨r.d_name_len, r.d_inode_nr, r.d_name⟩

def buried : Record where
  d_inode_nr := INVALID_INODE_NR
  d_name := r.d_name
  named := r.named
  short := r.short
  terminated := fun live => absurd live (by decide)

variable {r}

theorem not_live_buried : ¬ r.buried.Live := by
  change ¬ (0 : Int32) ≤ -1
  decide

theorem size_buried : r.buried.size = r.size := rfl

theorem strcmp_name {name : Name} (live : r.Live) (proper : 0 ∉ name) :
    strcmp r.d_name name = .ok (decide (r.name = name)) := strcmp_eq (r.terminated live) proper

end Record

def lookup (records : List Record) (name : Name) : Option Nat :=
  (records.find? fun r => r.Live ∧ r.name = name).map Record.number

def reply : Option Nat → Int
  | none => -ENOENT
  | some nr => nr

theorem not_endsWhole {start : Int} {size : Nat} (brief : size ≤ BLOCK_SIZE) : ¬ EndsWhole start size := by
  simp only [EndsWhole, BLOCK_SIZE] at brief ⊢
  omega

section Listing

variable {n : Node} {offset : Nat} {r : Record} {records : List Record}

theorem Node.Lists.length (lists : n.Lists offset records) (small : n.i_size < NEAR_FILE_SIZE) : records.length < turns := by
  have some : records.length ≤ (records.flatMap Record.bytes).length := by
    clear lists
    induction records with
    | nil => simp
    | cons r records ih =>
        rw [List.flatMap_cons, List.length_append, Record.length_bytes, Record.size, Dirent.size, List.length_cons]
        omega
  have size := lists.1
  simp only [NEAR_FILE_SIZE] at small
  rw [turns]
  omega

theorem Node.Lists.cons (lists : n.Lists offset (r :: records)) :
    slice n.content offset Dirent.size = bytes32 r.d_name_len.toUInt32 ++ bytes32 r.d_inode_nr.toUInt32 ∧
      slice n.content (offset + Dirent.size) r.d_name.length = r.d_name ∧
      (offset + r.size : Nat) ≤ n.i_size ∧ n.Lists (offset + r.size) records := by
  obtain ⟨size, same, brief⟩ := lists
  have length : ((r :: records).flatMap Record.bytes).length =
      4 + (4 + (r.d_name.length + (records.flatMap Record.bytes).length)) := by
    rw [List.flatMap_cons, List.length_append, Record.length_bytes, Record.size, Dirent.size]
    omega
  rw [length] at same size
  rw [List.flatMap_cons, Record.bytes, List.append_assoc, List.append_assoc, slice_add, slice_add, slice_add] at same
  obtain ⟨len, same⟩ := List.append_inj same (by simp)
  obtain ⟨number, same⟩ := List.append_inj same (by simp)
  obtain ⟨name, rest⟩ := List.append_inj same (by simp)
  refine ⟨?_, name, ?_, ?_, ?_, fun r member => brief r (List.mem_cons_of_mem _ member)⟩
  · rw [← len, ← number]
    exact slice_add n.content offset 4 4
  · rw [size, Record.size, Dirent.size]
    omega
  · rw [size, Record.size, Dirent.size]
    omega
  · rw [Record.size, Dirent.size, ← Nat.add_assoc, show offset + 8 = offset + 4 + 4 from rfl]
    exact rest

end Listing

namespace Files

section Scanning

variable {l : Limit} {f : Files} {dir : Nat} {h : Nat × Bool} (held : f.held dir = some h) (type : f.IsDir dir)
  {offset fuel : Nat} {r : Record} {records : List Record} {name : Name}
include held type

theorem next_dirent_nil (lists : (f.node dir).Lists offset []) :
    run (handle l) (testfs_next_dirent dir offset) f = .ok ((none, (offset : Int)), f) := by
  have size := lists.1
  simp only [List.flatMap_nil, List.length_nil, Nat.add_zero] at size
  simp [testfs_next_dirent, handle_inode_type held, handle_inode_size held, (show (f.node dir).i_type = I_DIR.code from type),
    assert, size]

variable (small : (f.node dir).i_size < NEAR_FILE_SIZE)
include small

theorem next_dirent_cons (lists : (f.node dir).Lists offset (r :: records)) :
    run (handle l) (testfs_next_dirent dir offset) f = .ok ((some r.entry, ((offset + r.size : Nat) : Int)), f) := by
  obtain ⟨header, name, within, -⟩ := lists.cons
  have some := List.length_pos_of_ne_nil r.named
  rw [Record.size] at within
  have more : ¬ (f.node dir).i_size ≤ offset := by
    simp only [Dirent.size] at within
    omega
  have positive : 0 < r.d_name_len := by
    rw [Int32.lt_iff_toInt_lt, Record.d_name_len_toInt]
    simpa using some
  have behind : ((offset + Dirent.size : Nat) : Int) = (offset : Int) + (Dirent.size : Nat) := Int.natCast_add _ _
  have length : r.d_name_len.toInt.toNat = r.d_name.length := by rw [Record.d_name_len_toInt, Int.toNat_natCast]
  have read : handle l (.testfs_read_data dir offset Dirent.size) f =
      .ok ((((Dirent.size : Nat) : Int), slice (f.node dir).content offset Dirent.size), f) := handle_read_data held (by omega) small (not_endsWhole (by decide))
  have readName : handle l (.testfs_read_data dir ((offset : Int) + (Dirent.size : Nat)) r.d_name_len.toInt.toNat) f =
      .ok (((r.d_name.length : Int), slice (f.node dir).content (offset + Dirent.size) r.d_name.length), f) := by
    rw [← behind, length]
    exact handle_read_data held (by omega) small (not_endsWhole (lists.2.2 r List.mem_cons_self))
  rw [header] at read
  rw [name] at readName
  have good : ¬ ((Dirent.size : Nat) : Int) < 0 := by decide
  have good' : ¬ (r.d_name.length : Int) < 0 := by omega
  have last : (offset : Int) + (Dirent.size : Nat) + r.d_name.length = (offset + r.size : Nat) := by
    rw [Record.size]
    omega
  simp only [testfs_next_dirent, run_bind, run_call, run_lift, handle_inode_type held, handle_inode_size held,
    (show (f.node dir).i_type = I_DIR.code from type), assert, if_true, Result.ok_bind, more, if_false, read, good,
    header_eq rfl, positive, readName, good', Record.d_name_len_toInt, last]
  rfl

theorem nameToInodeNr_run (proper : 0 ∉ name) (lists : (f.node dir).Lists offset records) (enough : records.length < fuel) :
    run (handle l) (nameToInodeNr dir name fuel offset) f = .ok (reply (lookup records name), f) := by
  induction records generalizing offset fuel with
  | nil =>
      obtain _ | fuel := fuel
      · simp at enough
      rw [nameToInodeNr, run_bind, next_dirent_nil held type lists, Result.ok_bind]
      rfl
  | cons r records ih =>
      obtain _ | fuel := fuel
      · simp at enough
      have rest := ih lists.cons.2.2.2 (by simpa using enough)
      rw [nameToInodeNr, run_bind, next_dirent_cons held type small lists, Result.ok_bind]
      change run (handle l) (if r.d_inode_nr < 0 then _ else _) f = _
      by_cases live : r.Live
      · rw [if_neg (Record.live_iff.mpr live), run_bind, run_lift, Record.entry, Record.strcmp_name live proper,
          Result.ok_bind, Result.ok_bind]
        by_cases here : r.name = name
        · have found : lookup (r :: records) name = some r.number := by simp [lookup, live, here]
          simp [here, found, reply, Record.number_cast live]
        · have passed : lookup (r :: records) name = lookup records name := by simp [lookup, here]
          simp only [here, decide_false, Bool.false_eq_true, if_false, passed]
          exact rest
      · have dead : r.d_inode_nr < 0 := by
          by_contra alive
          exact live (Record.live_iff.mp alive)
        have passed : lookup (r :: records) name = lookup records name := by simp [lookup, live]
        rw [if_pos dead, passed]
        exact rest

theorem removeDirentAllowed_run (lists : (f.node dir).Lists offset records) (enough : records.length < fuel) :
    run (handle l) (removeDirentAllowed dir fuel offset) f =
      .ok (if ∃ r ∈ records, r.Child then -ENOTEMPTY else 0, f) := by
  induction records generalizing offset fuel with
  | nil =>
      obtain _ | fuel := fuel
      · simp at enough
      rw [removeDirentAllowed, run_bind, next_dirent_nil held type lists, Result.ok_bind]
      simp
  | cons r records ih =>
      obtain _ | fuel := fuel
      · simp at enough
      have rest := ih lists.cons.2.2.2 (by simpa using enough)
      rw [removeDirentAllowed, run_bind, next_dirent_cons held type small lists, Result.ok_bind]
      change run (handle l) (if r.d_inode_nr < 0 then _ else _) f = _
      simp only [List.mem_cons, exists_eq_or_imp]
      by_cases live : r.Live
      · rw [if_neg (Record.live_iff.mpr live)]
        simp only [run_bind, run_lift, Record.entry, Record.strcmp_name live (show 0 ∉ dot by decide), Result.ok_bind]
        by_cases own : r.name = dot
        · have passed : ¬ r.Child := fun child => child.2.1 own
          simp only [own, decide_true, if_true, passed, false_or]
          exact rest
        · simp only [own, decide_false, Bool.false_eq_true, if_false, Record.strcmp_name live (show 0 ∉ dotdot by decide)]
          by_cases up : r.name = dotdot
          · have passed : ¬ r.Child := fun child => child.2.2 up
            simp only [up, decide_true, passed, false_or]
            exact rest
          · have child : r.Child := ⟨live, own, up⟩
            simp [up, child]
      · have dead : r.d_inode_nr < 0 := by
          by_contra alive
          exact live (Record.live_iff.mp alive)
        have passed : ¬ r.Child := fun child => live child.1
        simp only [dead, if_true, passed, false_or]
        exact rest

end Scanning

end Files

end OperatingSystem.Fs
