import OperatingSystem.Fs.Seen
import OperatingSystem.Fs.Started

namespace OperatingSystem.Fs

open InodeType
open Bytes (slice)
open Ownership (count count_eq_zero)

namespace Testfs

variable (t : Testfs) (nr : Nat)

def Used : Prop := nr < NR_INODES ∧ t.sb.inode_freemap.bitmap_isset nr = true

def Dir : Prop := t.Used nr ∧ (t.dinode nr).i_type = I_DIR.code

def block (k : Place) : Int := pointer t.sb.dev (t.dinode nr) k

def bytes : List UInt8 := slice (byteAt t.sb.dev (t.dinode nr)) 0 (t.dinode nr).i_size.toInt.toNat

/-- Each block in use is at one place of one inode, and is needed for the bytes of that inode. -/
structure Blocks : Prop where
  owner : ∀ b, t.sb.Marked b → ∃! place : Nat × Place, t.Used place.1 ∧ t.block place.1 place.2 = b
  marked : ∀ nr k, nr < NR_INODES → t.block nr k ≠ 0 → t.Used nr ∧ t.sb.Marked (t.block nr k)
  counted : ∀ nr, nr < NR_INODES → (t.dinode nr).block_count.toInt = {k | t.block nr k ≠ 0}.ncard
  needed : ∀ nr k, nr < NR_INODES → t.block nr k ≠ 0 → ∃ n, n < (t.dinode nr).blocks ∧ k ∈ path n
  total : t.sb.sb.used_block_count.toNat = {b | t.sb.Marked b}.ncard
  within : t.sb.sb.used_block_count.toNat ≤ t.sb.sb.max_fs_blocks.toNat

/-- The inodes in use are a tree of directories: `parent` leads up, and a directory is the bytes of its `records`. -/
structure Hangs (parent : Nat → Nat) (records : Nat → List Record) : Prop where
  zeroed : ∀ nr, nr < NR_INODES → ¬ t.Used nr → t.dinode nr = DInode.zero
  kinds : ∀ nr, t.Used nr → (t.dinode nr).i_type = I_DIR.code ∨ (t.dinode nr).i_type = I_FILE.code
  root : t.Dir 0 ∧ parent 0 = 0
  listed : ∀ d, t.Dir d → t.bytes d = (records d).flatMap Record.bytes
  distinct : ∀ d, t.Dir d → (names (records d)).Nodup
  self : ∀ d, t.Dir d → Named (records d) dot d
  up : ∀ d, t.Dir d → Named (records d) dotdot (parent d)
  live : ∀ d, t.Dir d → ∀ r ∈ records d, r.Live → t.Used r.number
  above : ∀ c, t.Used c → t.Dir (parent c)
  once : ∀ c, t.Used c → c ≠ 0 → ∀ d, t.Dir d → (inodes (records d)).count c = if d = parent c then 1 else 0
  reaches : ∀ c, t.Used c → ∃ n, parent^[n] c = 0

end Testfs

theorem DInode.eq_zero {dev : Disk} {d : DInode} (tight : Tight dev d) (type : d.i_type = 0) (size : d.i_size.toInt = 0)
    (counted : d.block_count.toInt = count (pointer dev d)) : d = zero := by
  have blocks : d.blocks = 0 := by
    rw [DInode.blocks, size]
    rfl
  have none (k : Place) : pointer dev d k = 0 := by
    by_contra taken
    obtain ⟨n, low, -⟩ := tight k taken
    exact absurd low (by rw [blocks]; exact Nat.not_lt_zero n)
  have empty : count (pointer dev d) = 0 := count_eq_zero.mpr none
  rw [empty] at counted
  have direct (i : Fin NR_DIRECT_BLOCKS) : d.i_block_nr i = 0 := Int32.toInt_inj.mp (none (.direct i))
  ext1
  · exact type
  · exact funext direct
  · exact Int32.toInt_inj.mp (none .indirect)
  · exact Int32.toInt_inj.mp (none .dindirect)
  · exact Int32.toInt_inj.mp counted
  · exact Int64.toInt_inj.mp size

namespace Represents

variable {t : Testfs} {f : Files} {parent : Nat → Nat} {records : Nat → List Record} {nr : Nat} (same : Represents t f)
include same

theorem used_iff : t.Used nr ↔ f.Used nr := by
  rw [Testfs.Used, Files.Used, same.inode_freemap]

theorem dir_iff : t.Dir nr ↔ f.Dir nr :=
  ⟨fun ⟨used, type⟩ => ⟨same.used_iff.mp used, (same.node nr used.1).i_type.trans type⟩,
    fun ⟨used, type⟩ => ⟨same.used_iff.mpr used, (same.node nr used.1).i_type.symm.trans type⟩⟩

section Tree

variable (sound : Sound f parent records)
include sound

theorem zeroed (low : nr < NR_INODES) (free : ¬ t.Used nr) : t.dinode nr = DInode.zero := by
  have zero := sound.zeroed nr low fun used => free (same.used_iff.mpr used)
  have shows := same.node nr low
  rw [zero] at shows
  have tidy := same.consistent.tidy nr low
  exact DInode.eq_zero tidy.tight shows.i_type.symm shows.i_size.symm (same.consistent.owned.counts ⟨nr, low⟩)

theorem blocks : t.Blocks where
  owner b marked := by
    have exact := same.consistent.owned.exact
    obtain ⟨real, i, k, holds⟩ := exact.found b marked
    have holds : t.block i k = b := holds
    have used : t.Used i := by
      by_contra free
      rw [Testfs.block, same.zeroed sound i.2 free, pointer_zero] at holds
      exact real holds.symm
    refine ⟨(i, k), ⟨used, holds⟩, ?_⟩
    rintro ⟨i', k'⟩ ⟨used', holds'⟩
    obtain ⟨number, place⟩ := exact.once ⟨i', used'.1⟩ k' i k (holds'.trans_ne real) (holds'.trans holds.symm)
    exact Prod.ext (congrArg Fin.val number) place
  marked nr k low taken := by
    refine ⟨?_, same.consistent.owned.exact.held ⟨nr, low⟩ k taken⟩
    by_contra free
    rw [Testfs.block, same.zeroed sound low free] at taken
    exact taken (pointer_zero _ k)
  counted nr low := same.consistent.owned.counts ⟨nr, low⟩
  needed nr k low taken := (same.consistent.tidy nr low).tight k taken
  total := by
    have accounts := same.consistent.accounts
    have marked : {b | t.sb.Marked b} =
        (fun k : Nat => ((146 + k : Nat) : Int)) '' {k | k < 1048576 ∧ t.sb.block_freemap.bitmap_isset k = true} := by
      ext b
      rw [Set.mem_ofPred_eq, SuperBlock.marked_iff accounts.layout]
      constructor
      · rintro ⟨k, inside, rfl, set⟩
        exact ⟨k, ⟨inside, set⟩, rfl⟩
      · rintro ⟨k, ⟨inside, set⟩, rfl⟩
        exact ⟨k, inside, rfl, set⟩
    have injective : Function.Injective fun k : Nat => ((146 + k : Nat) : Int) := fun k k' equal => by simpa using equal
    have counted : {k | k < 1048576 ∧ t.sb.block_freemap.bitmap_isset k = true} =
        (Finset.range 1048576).filter fun k => t.sb.block_freemap.bitmap_isset k = true := by
      ext k
      rw [Finset.mem_coe, Finset.mem_filter, Finset.mem_range]
      rfl
    rw [marked, Set.ncard_image_of_injective _ injective, counted, Set.ncard_coe_finset, accounts.used_blocks,
      Bitmap.bitmap_nr_allocated, accounts.layout.block_bits, Nat.count_eq_card_filter_range]
  within := same.consistent.accounts.within

theorem hangs : t.Hangs parent records where
  zeroed nr low free := same.zeroed sound low free
  kinds nr used := by
    have type := (same.node nr used.1).i_type
    by_cases dir : f.IsDir nr
    · exact Or.inl (type.symm.trans dir)
    · exact Or.inr (type.symm.trans (sound.file nr (same.used_iff.mp used) dir).type)
  root := ⟨same.dir_iff.mpr sound.root, sound.top⟩
  listed d dir := by
    have directory := sound.directory d (same.dir_iff.mp dir)
    obtain ⟨length, listed, -⟩ := directory.lists
    have shows := same.node d dir.1.1
    rw [shows.i_size, Nat.zero_add] at length
    have high := (same.consistent.tidy d dir.1.1).high
    rw [Testfs.bytes, length, Int.toNat_natCast]
    refine (List.map_congr_left fun i member => ?_).trans listed
    have inside := List.mem_range.mp member
    rw [length] at high
    exact (shows.content _ (by omega)).symm
  distinct d dir := sound.distinct d (same.dir_iff.mp dir)
  self d dir := sound.self d (same.dir_iff.mp dir)
  up d dir := sound.up d (same.dir_iff.mp dir)
  live d dir r member live := by
    have distinct := sound.distinct d (same.dir_iff.mp dir)
    have named : Named (records d) r.name r.number := ⟨r, member, live, rfl, rfl⟩
    exact same.used_iff.mpr (sound.lookup_used (same.dir_iff.mp dir) ((lookup_eq_some distinct).mpr named))
  above c used := same.dir_iff.mpr (sound.above c (same.used_iff.mp used))
  once c used other d dir := by
    have children := sound.children d (same.dir_iff.mp dir) c
    split_ifs with here
    · exact List.count_eq_one_of_mem (sound.once d (same.dir_iff.mp dir)) (children.mpr ⟨same.used_iff.mp used, other, here.symm⟩)
    · exact List.count_eq_zero.mpr fun member => here (children.mp member).2.2.symm
  reaches c used := sound.reaches c (same.used_iff.mp used)

end Tree

theorem dinode_stored {cur : Nat} (resting : Resting f cur) (nr : Nat) : t.dinode nr = t.sb.inode nr := by
  have held := (same.held nr).symm.trans (congrFun resting.held nr)
  cases found : t.inode_hash_table.find nr with
  | none =>
      rw [Testfs.dinode, found]
      rfl
  | some i =>
      rw [found] at held
      by_cases here : nr = cur
      · subst here
        rw [Function.update_self] at held
        have clean : i.dirty = false := (Prod.mk.inj (Option.some.inj held)).2
        rw [Testfs.dinode, found]
        exact same.consistent.clean nr i found clean
      · rw [Function.update_of_ne here] at held
        cases held

end Represents

end OperatingSystem.Fs
