import OperatingSystem.Fs.Pointers
import OperatingSystem.Fs.Records

namespace OperatingSystem.Fs

open Prog

namespace InodeTable

variable {t : InodeTable}

theorem ext_chain {t t' : InodeTable} (same : t'.chain = t.chain) : t' = t := by
  cases t
  cases t'
  simpa using same

theorem remove_insert {i : Inode} (absent : t.find i.i_nr = none) : (t.insert i absent).remove i.i_nr = t := by
  have others : ∀ h, (t.chain h).filter (·.i_nr ≠ i.i_nr) = t.chain h := by
    intro h
    rw [List.filter_eq_self]
    intro j member
    by_cases here : h = inode_hashfn i.i_nr
    · subst here
      simpa using find_eq_none.mp absent j member
    · have differ : j.i_nr ≠ i.i_nr := by
        intro same
        exact here (by rw [← same, t.placed h j member])
      simpa using differ
  apply ext_chain
  funext h
  change (Function.update t.chain _ _ h).filter _ = t.chain h
  by_cases here : h = inode_hashfn i.i_nr
  · subst here
    rw [Function.update_self, List.filter_cons_of_neg (by simp), others]
  · rw [Function.update_of_ne here, others]

theorem update_update {i j : Inode} (found : t.find i.i_nr = some i) (same : j.i_nr = i.i_nr) :
    (t.update j).update i = t := by
  apply ext_chain
  funext h
  simp only [update, List.map_map]
  refine (List.map_congr_left fun k member => ?_).trans (List.map_id _)
  have found' := find_of_mem member
  by_cases here : k.i_nr = i.i_nr
  · have one : k = i := by
      rw [here, found] at found'
      exact (Option.some.inj found').symm
    simp [one, same]
  · simp [same, here]

end InodeTable

namespace Testfs

/-- The inode as it is in memory, or else on the disk. -/
def dinode (t : Testfs) (nr : Nat) : DInode := ((t.inode_hash_table.find nr).map Inode.dinode).getD (t.sb.inode nr)

def view (t : Testfs) (nr : Nat) : InodePtr where
  sb := t.sb
  inode := { dinode := t.dinode nr, dirty := false, i_nr := nr, i_count := 1 }

def Clean (t : Testfs) (nr : Nat) : Prop := ∀ i, t.inode_hash_table.find nr = some i → i.dirty = false

def Holds (t : Testfs) (nr : Nat) : Prop := (t.inode_hash_table.find nr).isSome

def Counted (t : Testfs) : Prop := ∀ nr i, t.inode_hash_table.find nr = some i → 0 < i.i_count

structure Same (t t' : Testfs) : Prop where
  sb : t'.sb = t.sb
  dinode : ∀ nr, t'.dinode nr = t.dinode nr
  clean : ∀ nr, t'.Clean nr ↔ t.Clean nr
  counted : t'.Counted

variable {t t' : Testfs} {nr : Nat}

theorem Same.refl (counted : t.Counted) : Same t t := ⟨rfl, fun _ => rfl, fun _ => Iff.rfl, counted⟩

theorem Same.opens (same : Same t t') (holds : t'.Holds nr) : t'.Opens nr (t.view nr) := by
  obtain ⟨i, found⟩ := Option.isSome_iff_exists.mp holds
  refine ⟨i, found, same.sb, ?_⟩
  have here := same.dinode nr
  rw [Testfs.dinode, found] at here
  exact here

section Getting

theorem testfs_get_inode_held {i : Inode} (found : t.inode_hash_table.find nr = some i) :
    t.testfs_get_inode nr = .ok (t.update { i with i_count := i.i_count + 1 }) := by
  unfold testfs_get_inode
  split
  · rename_i j found'
    rw [found] at found'
    rw [Option.some.inj found']
  · rename_i absent
    rw [found] at absent
    cases absent

theorem testfs_put_inode_eq {i : Inode} (found : t.inode_hash_table.find nr = some i) :
    t.testfs_put_inode nr = if i.dirty = false then
        .ok (if i.i_count = 1 then { t with inode_hash_table := t.inode_hash_table.remove nr }
          else t.update { i with i_count := i.i_count - 1 })
      else .error .assertion := by
  simp only [testfs_put_inode, inode, found, Result.ok_bind, assert]
  split_ifs <;> rfl

def loaded (t : Testfs) (nr : Nat) : Inode where
  dinode := t.sb.inode nr
  dirty := false
  i_nr := nr
  i_count := 1

theorem testfs_get_inode_absent (absent : t.inode_hash_table.find nr = none) (low : nr < NR_INODES) :
    t.testfs_get_inode nr = .ok { t with inode_hash_table := t.inode_hash_table.insert (t.loaded nr) absent } := by
  have inside : nr / INODES_PER_BLOCK < NR_INODE_BLOCKS := by
    simp only [NR_INODES, INODES_PER_BLOCK, NR_INODE_BLOCKS] at low ⊢
    omega
  unfold testfs_get_inode
  split
  · rename_i j found
    rw [absent] at found
    cases found
  · simp only [InodePtr.testfs_inode_to_block_nr, assert, inside, if_true]
    rfl

structure Got (t t' : Testfs) (nr : Nat) (u : Testfs) : Prop where
  same : Same t u
  holds : u.Holds nr
  kept : ∀ d, t'.Holds d → u.Holds d
  put : t.Clean nr → u.testfs_put_inode nr = .ok t'
  fails : ¬ t.Clean nr → u.testfs_put_inode nr = .error .assertion

section

variable {u : Testfs} {j : Inode} (same : Same t t') (sb : u.sb = t'.sb)
  (look : ∀ d, u.inode_hash_table.find d = if d = nr then some j else t'.inode_hash_table.find d)
include look

theorem holds_of_find : u.Holds nr ∧ ∀ d, t'.Holds d → u.Holds d := by
  constructor
  · rw [Holds, look, if_pos rfl]
    rfl
  · intro d holds
    rw [Holds, look]
    split_ifs
    · rfl
    · exact holds

include same sb

theorem same_of_find (fields : j.dinode = t'.dinode nr) (clean : j.dirty = false ↔ t'.Clean nr) (used : 0 < j.i_count) :
    Same t u where
  sb := sb.trans same.sb
  dinode d := by
    rw [← same.dinode d]
    by_cases here : d = nr
    · subst here
      rw [dinode, look, if_pos rfl, ← fields]
      rfl
    · rw [dinode, look, if_neg here, sb, dinode]
  clean d := by
    rw [← same.clean d]
    by_cases here : d = nr
    · subst here
      rw [← clean, Clean, look, if_pos rfl]
      simp
    · rw [Clean, look, if_neg here, Clean]
  counted d i found := by
    rw [look] at found
    split_ifs at found
    · exact Option.some.inj found ▸ used
    · exact same.counted d i found

end

theorem get_inode_held {i : Inode} (same : Same t t') (found : t'.inode_hash_table.find nr = some i) :
    Got t t' nr (t'.update { i with i_count := i.i_count + 1 }) := by
  obtain rfl := InodeTable.find_i_nr found
  have look (d : Nat) : (t'.update { i with i_count := i.i_count + 1 }).inode_hash_table.find d =
      if d = i.i_nr then some { i with i_count := i.i_count + 1 } else t'.inode_hash_table.find d := by
    rw [update, InodeTable.find_update]
    by_cases here : d = i.i_nr
    · subst here
      simp [found]
    · simp [here]
  have clean : t.Clean i.i_nr ↔ i.dirty = false := by
    rw [← same.clean, Clean, found]
    simp
  have used := same.counted _ i found
  obtain ⟨holds, kept⟩ := holds_of_find look
  refine ⟨same_of_find same rfl look (by rw [dinode, found]; rfl) (by rw [← clean, same.clean]) (Nat.succ_pos _), holds,
    kept, fun tidy => ?_, fun untidy => ?_⟩
  · have several : i.i_count + 1 ≠ 1 := by omega
    have restored := InodeTable.update_update (j := { i with i_count := i.i_count + 1 }) found rfl
    rw [testfs_put_inode_eq ((look _).trans (if_pos rfl)), if_pos (clean.mp tidy), if_neg several]
    exact congrArg (fun table => Except.ok { t' with inode_hash_table := table }) restored
  · rw [testfs_put_inode_eq ((look _).trans (if_pos rfl)), if_neg (mt clean.mpr untidy)]

theorem get_inode_absent (same : Same t t') (absent : t'.inode_hash_table.find nr = none) :
    Got t t' nr { t' with inode_hash_table := t'.inode_hash_table.insert (t'.loaded nr) absent } := by
  have look (d : Nat) : (t'.inode_hash_table.insert (t'.loaded nr) absent).find d =
      if d = nr then some (t'.loaded nr) else t'.inode_hash_table.find d := InodeTable.find_insert d
  have clean : t'.Clean nr := by
    intro i found
    rw [absent] at found
    cases found
  obtain ⟨holds, kept⟩ := @holds_of_find t' nr { t' with inode_hash_table := _ } _ look
  refine ⟨same_of_find same rfl look (by rw [dinode, absent]; rfl) (by simpa [loaded] using clean) Nat.one_pos, holds,
    kept, fun tidy => ?_, fun untidy => ?_⟩
  · have restored : (t'.inode_hash_table.insert (t'.loaded nr) absent).remove nr = t'.inode_hash_table :=
      InodeTable.remove_insert (i := t'.loaded nr) absent
    rw [testfs_put_inode_eq ((look nr).trans (if_pos rfl))]
    change Except.ok { t' with inode_hash_table := (t'.inode_hash_table.insert (t'.loaded nr) absent).remove nr } = _
    rw [restored]
  · exact absurd ((same.clean nr).mp clean) untidy

theorem get_inode_got (same : Same t t') (low : nr < NR_INODES) : ∃ u, t'.testfs_get_inode nr = .ok u ∧ Got t t' nr u := by
  cases found : t'.inode_hash_table.find nr with
  | none => exact ⟨_, testfs_get_inode_absent found low, get_inode_absent same found⟩
  | some i => exact ⟨_, testfs_get_inode_held found, get_inode_held same found⟩

end Getting

end Testfs

end OperatingSystem.Fs
