import OperatingSystem.Fs.Failures
import OperatingSystem.Fs.Files

/-!
# Arrays of bytes for inodes

A consistent file system, its blocks and its inode table, represents arrays of bytes.  The functions on
inodes do on the file system what they do on the arrays, as long as no allocation fails.
-/

namespace OperatingSystem.Fs

open Bytes InodeType

structure Node.Shows (n : Node) (dev : Disk) (d : DInode) : Prop where
  i_type : n.i_type = d.i_type
  i_size : n.i_size = d.i_size.toInt
  content : ∀ i, i < MAX_FILE_SIZE → n.content i = byteAt dev d i

def Inode.reference (i : Inode) : Nat × Bool := (i.i_count, i.dirty)

structure Represents (t : Testfs) (f : Files) : Prop where
  consistent : Consistent t
  inode_freemap : f.inode_freemap = t.sb.inode_freemap
  held : ∀ nr, f.held nr = (t.inode_hash_table.find nr).map Inode.reference
  node : ∀ nr, nr < NR_INODES → (f.node nr).Shows t.sb.dev (t.dinode nr)

theorem byteAt_of_pointers {dev : Disk} {d d' : DInode} (same : pointer dev d' = pointer dev d) : byteAt dev d' = byteAt dev d := by
  funext i
  rw [byteAt, byteAt, content, content, same]

theorem byteAt_zero (dev : Disk) (i : Nat) : byteAt dev DInode.zero i = 0 := by
  rw [byteAt, content, pointer_zero]
  rfl

section Holding

variable {f : Files} {nr : Nat}

theorem created_held (type : InodeType) : (f.create nr type).held =
    Function.update f.held nr (some (((f.held nr).map fun h => h.1 + 1).getD 1, true)) := by
  simp only [Files.create, Files.setDirty, Files.get, Files.held_setHeld, Files.held_setNode, Files.held_mark,
    Function.update_self, Function.update_idem, Option.map_some]
  cases f.held nr with
  | none => rfl
  | some h => rfl

theorem removed_held {h : Nat × Bool} (held : f.held nr = some h) :
    (f.remove nr).held = Function.update f.held nr (if h.1 = 1 then none else some (h.1 - 1, false)) := by
  simp only [Files.remove, Files.setDirty, Files.put, Files.held_setHeld, Files.held_setNode, Files.held_unmark,
    Function.update_self, Function.update_idem, held, Option.map_some, Option.bind_some]

end Holding

namespace Represents

variable {l : Limit} {t u : Testfs} {f g : Files} {nr : Nat}

theorem alike (same : Represents t f) (consistent : Consistent u) (alike : Alike t u) (freemap : g.inode_freemap = f.inode_freemap)
    (node : g.node = f.node) (held : ∀ m, g.held m = (u.inode_hash_table.find m).map Inode.reference) : Represents u g where
  consistent := consistent
  inode_freemap := by rw [freemap, same.inode_freemap, alike.inode_freemap]
  held := held
  node m inside := by
    have shows := same.node m inside
    rw [node, alike.dinode m inside]
    exact ⟨shows.i_type, shows.i_size, fun i small => by rw [shows.content i small, alike.bytes m inside]⟩

theorem alters {d : DInode} {n : Node} (same : Represents t f) (consistent : Consistent u) (alters : Alters t nr d u)
    (freemap : g.inode_freemap = u.sb.inode_freemap) (node : g.node = Function.update f.node nr n) (shows : n.Shows u.sb.dev d)
    (held : ∀ m, g.held m = (u.inode_hash_table.find m).map Inode.reference) : Represents u g where
  consistent := consistent
  inode_freemap := freemap
  held := held
  node m inside := by
    rw [node, alters.dinode m inside]
    by_cases here : m = nr
    · rw [here, Function.update_self, Function.update_self]
      exact shows
    · have other := same.node m inside
      rw [Function.update_of_ne here, Function.update_of_ne here]
      exact ⟨other.i_type, other.i_size, fun i small => by rw [other.content i small, alters.bytes m inside here]⟩

section Operations

variable (same : Represents t f)
include same

theorem shows {i : Inode} (here : t.inode nr = .ok i) : (f.node nr).Shows t.sb.dev i.dinode := by
  have found := inode_found here
  have shows := same.node nr (same.consistent.low found)
  rwa [dinode_found found] at shows

theorem inode {i : Inode} (found : t.inode_hash_table.find nr = some i) : f.held nr = some i.reference := by
  rw [same.held, found, Option.map_some]

theorem get (ran : t.testfs_get_inode nr = .ok u) (other : f.testfs_get_inode nr = .ok g) : Represents u g := by
  obtain rfl : f.get nr = g := by
    unfold Files.testfs_get_inode at other
    split_ifs at other
    · obtain ⟨_, -, value⟩ := Result.bind_eq_ok.mp other
      exact Except.ok.inj value
    · exact Except.ok.inj other
  obtain ⟨consistent, alike⟩ := same.consistent.get ran
  obtain ⟨-, j, look, taken⟩ := get_inode_look ran
  refine same.alike consistent alike rfl rfl fun m => ?_
  rw [look, Files.get, Files.held_setHeld, Function.update_apply]
  split_ifs with here
  · rcases taken with ⟨i, found, rfl⟩ | ⟨absent, -, rfl⟩
    · rw [same.inode found]
      rfl
    · rw [same.held, absent]
      rfl
  · exact same.held m

theorem put (ran : t.testfs_put_inode nr = .ok u) (other : f.testfs_put_inode nr = .ok g) : Represents u g := by
  obtain ⟨_, -, rest⟩ := Result.bind_eq_ok.mp other
  obtain ⟨_, -, value⟩ := Result.bind_eq_ok.mp rest
  obtain rfl := Except.ok.inj value
  obtain ⟨consistent, alike⟩ := same.consistent.put ran
  obtain ⟨-, i, found, -, look⟩ := put_inode_look ran
  refine same.alike consistent alike rfl rfl fun m => ?_
  rw [look, Files.put, Files.held_setHeld, Function.update_apply, same.inode found]
  split_ifs with here one
  · rw [Option.bind_some, if_pos (by exact one)]
    rfl
  · rw [Option.bind_some, if_neg (by exact one)]
    rfl
  · exact same.held m

theorem sync (ran : t.testfs_sync_inode nr = .ok u) : Represents u (f.setDirty nr false) := by
  obtain ⟨consistent, alike, i, j, found, clean, references, look⟩ := same.consistent.sync ran
  refine same.alike consistent alike rfl rfl fun m => ?_
  rw [look, Files.setDirty, Files.held_setHeld, Function.update_apply, same.inode found]
  split_ifs
  · rw [Option.map_some, Option.map_some, Inode.reference, Inode.reference, clean, references]
  · exact same.held m

theorem write {buf : List UInt8} {start ret ret' : Int} (ran : t.testfs_write_data nr buf start = .ok (ret, u))
    (good : ¬ u.Failed) (other : f.testfs_write_data l nr buf start = .ok (ret', g)) : ret' = ret ∧ Represents u g := by
  obtain ⟨_, -, rest⟩ := Result.bind_eq_ok.mp other
  split_ifs at rest with outside
  · cases rest
  rw [not_or, not_or, not_lt, not_lt] at outside
  obtain ⟨low, some, inside⟩ := outside
  have fits : start + buf.length ≤ MAX_FILE_SIZE := le_trans inside (Int.ofNat_le.mpr l.high)
  obtain ⟨rfl, rfl⟩ := Prod.mk.inj (Except.ok.inj rest)
  obtain ⟨consistent, i, p, found, rfl, writes, alters⟩ :=
    same.consistent.write (List.length_pos_iff.mpr some) fits ran (Bool.eq_false_iff.mpr good)
  have before := same.node nr (same.consistent.low found)
  rw [dinode_found found] at before
  refine ⟨writes.result.1.symm, same.alters consistent alters ?_ rfl ⟨?_, ?_, fun k inside => ?_⟩ fun m => ?_⟩
  · rw [Files.freemap_write, same.inode_freemap]
    exact writes.extending.inode_freemap.symm
  · exact before.i_type.trans writes.extending.type.symm
  · have size := writes.size
    change max (f.node nr).i_size ((start.toNat + buf.length : Nat) : Int) = _
    rw [before.i_size, size]
    congr 1
    omega
  · have old : (f.node nr).content k = InodePtr.byteAt ⟨t.sb, i⟩ k := before.content k inside
    change splice (f.node nr).content start.toNat buf k = p.byteAt k
    rw [writes.bytes k inside, splice, splice, old]
  · rw [find_replace found (writes.extending.number.trans (InodeTable.find_i_nr found)), Files.write, Files.setDirty,
      Files.held_setHeld, Function.update_apply, Files.held_setNode, same.inode found]
    split_ifs
    · rw [Option.map_some, Option.map_some, Inode.reference, Inode.reference, writes.dirty, writes.extending.references]
    · exact same.held m

theorem create {type : InodeType} {r r' : Int × Nat} (ran : t.testfs_create_inode type = .ok (r, u))
    (other : f.testfs_create_inode type = .ok (r', g)) : r' = r ∧ Represents u g := by
  obtain ⟨ret, new⟩ := r
  obtain ⟨consistent, cases⟩ := same.consistent.create ran
  have used (m : Nat) : f.Used m ↔ m < NR_INODES ∧ t.sb.inode_freemap.bitmap_isset m = true := by
    rw [Files.Used, same.inode_freemap]
  rcases f.handle_create .near type with ⟨made, all⟩ | ⟨new', made, low', unused, least'⟩
  · obtain ⟨rfl, rfl⟩ := Prod.mk.inj (Except.ok.inj (other.symm.trans made))
    rcases cases with ⟨rfl, rfl, -, alike, table⟩ | ⟨-, low, clear, -⟩
    · exact ⟨rfl, same.alike consistent alike rfl rfl fun m => by rw [table, same.held]⟩
    · rw [((used new).mp (all new low)).2] at clear
      cases clear
  · obtain ⟨rfl, rfl⟩ := Prod.mk.inj (Except.ok.inj (other.symm.trans made))
    rcases cases with ⟨-, -, full, -⟩ | ⟨rfl, low, clear, least, freemap, -, bytes, alters, j, dirty, references, look⟩
    · exact absurd ((used new').mpr ⟨low', full new' low'⟩) unused
    · obtain rfl : new' = new := by
        rcases lt_trichotomy new' new with before | here | after
        · exact absurd ((used new').mpr ⟨low', least new' before⟩) unused
        · exact here
        · rw [((used new).mp (least' new after)).2] at clear
          cases clear
      have shows := same.node new' low
      refine ⟨rfl, same.alters consistent alters (by rw [Files.freemap_create, freemap, same.inode_freemap]) rfl
        ⟨rfl, shows.i_size, fun i inside => ?_⟩ fun m => ?_⟩
      · change (f.node new').content i = _
        rw [shows.content i inside, ← bytes]
        exact congrFun (byteAt_of_pointers (pointer_fields rfl rfl rfl)).symm i
      · rw [look, created_held, Function.update_apply]
        split_ifs
        · rw [Option.map_some, Inode.reference, dirty, references, same.held]
          cases t.inode_hash_table.find new' with
          | none => rfl
          | some i => rfl
        · exact same.held m

theorem remove (ran : t.testfs_remove_inode nr = .ok u) (other : f.testfs_remove_inode nr = .ok g) : Represents u g := by
  obtain ⟨_, -, rest⟩ := Result.bind_eq_ok.mp other
  obtain ⟨_, -, value⟩ := Result.bind_eq_ok.mp rest
  obtain rfl := Except.ok.inj value
  obtain ⟨consistent, freemap, -, alters, i, j, found, clean, references, look⟩ := same.consistent.remove ran
  refine same.alters consistent alters (by rw [Files.freemap_remove, freemap, same.inode_freemap]) rfl
    ⟨rfl, rfl, fun i _ => (byteAt_zero _ i).symm⟩ fun m => ?_
  rw [look, removed_held (same.inode found), Function.update_apply]
  by_cases here : m = nr
  · rw [if_pos here, if_pos here]
    by_cases one : i.i_count = 1
    · rw [if_pos one, if_pos (by exact one)]
      rfl
    · rw [if_neg one, if_neg (by exact one), Option.map_some, Inode.reference, clean, references]
      rfl
  · rw [if_neg here, if_neg here]
    exact same.held m

theorem read {start : Int} {size : Nat} {r r' : Int × List UInt8} (ran : t.testfs_read_data nr start size = .ok r)
    (other : f.testfs_read_data l nr start size = .ok r') : r' = r := by
  obtain ⟨_, -, rest⟩ := Result.bind_eq_ok.mp other
  obtain ⟨i, here, ran⟩ := Result.bind_eq_ok.mp ran
  unfold Node.read at rest
  split_ifs at rest with reads
  obtain ⟨low, within, short, inside, whole⟩ := reads
  have bound : start + (max size 1 : Nat) ≤ MAX_FILE_SIZE := le_trans inside (Int.ofNat_le.mpr l.high)
  have shows := same.shows here
  rw [shows.i_size] at within
  have nonneg := (same.consistent.holds (inode_found here)).nonneg
  by_cases fetches : InodePtr.Fetches ⟨t.sb, i⟩ start size
  · have length : readLength start size = size := if_neg whole
    have delivered := testfs_read_data_eq nonneg low short within bound fetches
    rw [length] at delivered
    rw [← Except.ok.inj rest, ← Except.ok.inj (delivered.symm.trans ran)]
    have bytes : slice (f.node nr).content start.toNat size = slice (InodePtr.byteAt ⟨t.sb, i⟩) start.toNat size := by
      apply List.map_congr_left
      intro j inside
      have inside := List.mem_range.mp inside
      exact shows.content _ (by omega)
    rw [bytes]
  · rw [testfs_read_data_strays nonneg low short within bound fetches] at ran
    cases ran

end Operations

end Represents

theorem void_eq_ok {σ : Type} {x : Except Fault σ} {s : σ} {r : Unit} :
    (x >>= fun t => .ok ((), t)) = .ok (r, s) ↔ x = .ok s := by
  cases x with
  | error e => simp
  | ok t => simp

/-- The functions on inodes do the same on both. -/
theorem handle_agrees (l : Limit) : Prog.Agree Testfs.handle (Files.handle l) Represents Testfs.Failed where
  lasts op _ failed := Testfs.handle_failed failed op
  step {op t u f g r r'} same ran good other := by
    cases op with
    | testfs_get_inode nr => exact ⟨rfl, same.get (void_eq_ok.mp ran) (void_eq_ok.mp other)⟩
    | testfs_put_inode nr => exact ⟨rfl, same.put (void_eq_ok.mp ran) (void_eq_ok.mp other)⟩
    | testfs_inode_get_type nr =>
        obtain ⟨type, took, last⟩ := Result.bind_eq_ok.mp ran
        obtain ⟨i, here, value⟩ := Result.bind_eq_ok.mp took
        obtain ⟨_, -, last'⟩ := Result.bind_eq_ok.mp other
        obtain ⟨rfl, rfl⟩ := Prod.mk.inj (Except.ok.inj last)
        obtain ⟨rfl, rfl⟩ := Prod.mk.inj (Except.ok.inj last')
        exact ⟨(same.shows here).i_type.trans (Except.ok.inj value), same⟩
    | testfs_inode_get_size nr =>
        obtain ⟨type, took, last⟩ := Result.bind_eq_ok.mp ran
        obtain ⟨i, here, value⟩ := Result.bind_eq_ok.mp took
        obtain ⟨_, -, last'⟩ := Result.bind_eq_ok.mp other
        obtain ⟨rfl, rfl⟩ := Prod.mk.inj (Except.ok.inj last)
        obtain ⟨rfl, rfl⟩ := Prod.mk.inj (Except.ok.inj last')
        exact ⟨(same.shows here).i_size.trans (Except.ok.inj value), same⟩
    | testfs_inode_get_block_count nr => cases other
    | testfs_read_data nr start size =>
        obtain ⟨read, took, last⟩ := Result.bind_eq_ok.mp ran
        obtain ⟨read', took', last'⟩ := Result.bind_eq_ok.mp other
        obtain ⟨rfl, rfl⟩ := Prod.mk.inj (Except.ok.inj last)
        obtain ⟨rfl, rfl⟩ := Prod.mk.inj (Except.ok.inj last')
        exact ⟨same.read took took', same⟩
    | testfs_write_data nr buf start => exact same.write ran good other
    | testfs_create_inode type => exact same.create ran other
    | testfs_remove_inode nr => exact ⟨rfl, same.remove (void_eq_ok.mp ran) (void_eq_ok.mp other)⟩
    | testfs_sync_inode nr =>
        obtain ⟨_, -, last⟩ := Result.bind_eq_ok.mp other
        obtain ⟨rfl, rfl⟩ := Prod.mk.inj (Except.ok.inj last)
        exact ⟨rfl, same.sync (void_eq_ok.mp ran)⟩

end OperatingSystem.Fs
