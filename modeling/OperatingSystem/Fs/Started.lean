import OperatingSystem.Fs.Steps

namespace OperatingSystem.Fs

open Prog InodeType

theorem fsBlocks_eq (fs_size_mb : UInt64) : fsBlocks fs_size_mb = if fs_size_mb < 1 then .error .exit
    else if 8192 < fs_size_mb then .error .exit else .ok ((fs_size_mb <<< 20) / BLOCK_SIZE.toUInt64) := by
  have top : ((BLOCK_FREEMAP_SIZE * BLOCK_SIZE * 8).toUInt64 * BLOCK_SIZE.toUInt64) >>> 20 = 8192 := by decide
  simp only [fsBlocks, top]

theorem fsBlocks_iff (fs_size_mb : UInt64) :
    if 1 ≤ fs_size_mb.toNat ∧ fs_size_mb.toNat ≤ 8192 then ∃ max_fs_blocks, fsBlocks fs_size_mb = .ok max_fs_blocks
    else fsBlocks fs_size_mb = .error .exit := by
  rw [fsBlocks_eq]
  by_cases small : fs_size_mb < 1
  · have low : fs_size_mb.toNat < 1 := small
    rw [if_pos small, if_neg fun inside => not_le.mpr low inside.1]
  by_cases large : (8192 : UInt64) < fs_size_mb
  · have high : 8192 < fs_size_mb.toNat := large
    rw [if_neg small, if_pos large, if_neg fun inside => not_le.mpr high inside.2]
  · have low : 1 ≤ fs_size_mb.toNat := not_lt.mp small
    have high : fs_size_mb.toNat ≤ 8192 := not_lt.mp large
    rw [if_neg small, if_neg large, if_pos ⟨low, high⟩]
    exact ⟨_, rfl⟩

theorem fsBlocks_bounds {fs_size_mb max_fs_blocks : UInt64} (ran : fsBlocks fs_size_mb = .ok max_fs_blocks) :
    128 ≤ max_fs_blocks.toNat ∧ max_fs_blocks.toNat ≤ 1048576 := by
  rw [fsBlocks_eq] at ran
  split_ifs at ran with small large
  obtain rfl := Except.ok.inj ran
  rw [UInt64.not_lt, UInt64.le_iff_toNat_le] at small large
  have low : 1 ≤ fs_size_mb.toNat := small
  have high : fs_size_mb.toNat ≤ 8192 := large
  have shift : (fs_size_mb <<< 20).toNat = fs_size_mb.toNat * 1048576 := by
    rw [UInt64.toNat_shiftLeft, show (20 : UInt64).toNat % 64 = 20 from rfl, Nat.shiftLeft_eq]
    omega
  rw [UInt64.toNat_div, shift, show BLOCK_SIZE.toUInt64.toNat = 8192 from rfl]
  omega

section Root

variable (dev : Disk) {max_fs_blocks : UInt64}

def Files.blank (max_fs_blocks : UInt64) : Files where
  inode_freemap := (SuperBlock.made dev max_fs_blocks).inode_freemap
  bits := rfl
  node := fun _ => Node.zero
  held := fun _ => none

theorem blank_unused (nr : Nat) : ¬ (Files.blank dev max_fs_blocks).Used nr := by
  rintro ⟨low, set⟩
  simp only [NR_INODES] at low
  rw [Files.blank, made_inode_freemap dev max_fs_blocks nr (by omega)] at set
  cases set

theorem opened_dinode (nr : Nat) (low : nr < NR_INODES) : (Testfs.opened (makeImage dev max_fs_blocks)).dinode nr = DInode.zero := by
  have at18 : (testfs_make_super_block max_fs_blocks).inode_blocks_start.toNat = 18 := rfl
  simp only [NR_INODES] at low
  rw [dinode_absent rfl, SuperBlock.inode, Testfs.opened]
  simp only [testfs_init_super_block, makeImage_super_block, at18, INODES_PER_BLOCK]
  rw [makeImage_zero _ _ (by omega) (by omega)]
  exact DInode.ofMemory_zero _

theorem opened_represents (bounded : max_fs_blocks.toNat ≤ 1048576) :
    Represents (.opened (makeImage dev max_fs_blocks)) (.blank dev max_fs_blocks) where
  consistent := {
    accounts := made_accounts dev max_fs_blocks bounded
    owned := (made_owned dev max_fs_blocks bounded).congr (opened_dinode dev)
    numbers := fun nr there => by cases there
    clean := fun nr i found => by cases found
    tidy := fun nr low => by
      rw [opened_dinode dev nr low]
      exact tidy_zero _ }
  inode_freemap := rfl
  held _ := rfl
  node nr low := by
    rw [opened_dinode dev nr low]
    exact ⟨rfl, rfl, fun i _ => (byteAt_zero _ i).symm⟩

theorem make_root_dir_run (l : Limit) : ∃ g, run (Files.handle l) testfs_make_root_dir (.blank dev max_fs_blocks) = .ok (0, g) ∧
    g.held = (fun _ => none) ∧ g.inode_freemap = (Files.blank dev max_fs_blocks).inode_freemap.orMask 0 ∧
    (g.node 0).Directory [.made dot 0 (by decide), .made dotdot 0 (by decide)] ∧ ∀ nr, nr ≠ 0 → g.node nr = Node.zero := by
  obtain ⟨f, blank⟩ : ∃ f, Files.blank dev max_fs_blocks = f := ⟨_, rfl⟩
  have free (nr : Nat) : ¬ f.Used nr := by
    rw [← blank]
    exact blank_unused dev nr
  have absent (nr : Nat) : f.held nr = none := by
    rw [← blank]
    rfl
  have zeroed (nr : Nat) : f.node nr = Node.zero := by
    rw [← blank]
    rfl
  rw [blank]
  rcases f.handle_create l I_DIR with ⟨-, full⟩ | ⟨nr, created, low, -, least⟩
  · exact absurd (full 0 (by decide)) (free 0)
  obtain rfl : nr = 0 := by
    by_contra other
    exact free 0 (least 0 (Nat.pos_of_ne_zero other))
  have held : (f.create 0 I_DIR).held 0 = some (1, true) := by rw [Files.held_create (absent 0), Function.update_self]
  have empty : ((f.create 0 I_DIR).node 0).Directory [] := by
    rw [Files.node_create, Function.update_self, zeroed]
    exact ⟨rfl, ⟨rfl, rfl, by simp⟩, by decide⟩
  obtain ⟨n, filled, both⟩ := Files.create_empty_dir_run (l := l) 0 held empty (by decide)
  have held1 : (((f.create 0 I_DIR).setNode 0 n).setDirty 0 true).held 0 = some (1, true) := by simp [held]
  have held2 : ((((f.create 0 I_DIR).setNode 0 n).setDirty 0 true).setDirty 0 false).held 0 = some (1, false) := by
    rw [Files.held_setDirty, Function.update_self, held1]
    rfl
  have good : ¬ (0 : Int) < 0 := lt_irrefl 0
  refine ⟨((((f.create 0 I_DIR).setNode 0 n).setDirty 0 true).setDirty 0 false).put 0, ?_, ?_, rfl, ?_, fun nr other => ?_⟩
  · simp only [testfs_make_root_dir, testfs_create_file_or_dir, run_bind, run_call, created, Result.ok_bind, good, if_false, if_true,
      Option.getD_none, filled, Files.handle_sync held1, Files.handle_put held2 rfl, run_pure]
  · rw [Files.held_put_last held2]
    funext m
    by_cases root : m = 0
    · rw [root, Function.update_self]
    · simp [Files.held_create (absent 0), root, absent]
  · simpa using both
  · simp [other, zeroed]

def rootRecords : List Record := [.made dot 0 (by decide), .made dotdot 0 (by decide)]

variable {dev}

theorem root_sound {g : Files} (freemap : g.inode_freemap = (Files.blank dev max_fs_blocks).inode_freemap.orMask 0)
    (directory : (g.node 0).Directory rootRecords) (zeroed : ∀ nr, nr ≠ 0 → g.node nr = Node.zero) :
    Sound g (fun _ => 0) (fun _ => rootRecords) ∧ g.tree (fun _ => rootRecords) = Namespace.empty.tree := by
  have used (m : Nat) : g.Used m ↔ m = 0 := by
    rw [Files.used_congr (f := (Files.blank dev max_fs_blocks).mark 0) freemap, Files.used_mark (by decide)]
    exact or_iff_right (blank_unused dev m)
  have empty : Empty rootRecords 0 0 := empty_made (by decide) (by decide)
  have root : g.Dir 0 := ⟨(used 0).mpr rfl, directory.type⟩
  have only {d : Nat} (dir : g.Dir d) : d = 0 := (used d).mp dir.1
  constructor
  · exact {
      zeroed := fun nr _ free => zeroed nr fun same => free ((used nr).mpr same)
      file := fun nr there other => absurd ((used nr).mp there ▸ root.2) other
      root := root
      directory := fun d dir => (only dir).symm ▸ directory
      distinct := fun _ _ => empty.distinct
      self := fun d dir => (only dir).symm ▸ empty.self
      up := fun _ _ => empty.up
      once := fun _ _ => empty.none ▸ List.nodup_nil
      children := fun d _ c => by
        rw [empty.none]
        exact ⟨fun member => absurd member List.not_mem_nil, fun there => absurd ((used c).mp there.1) there.2.1⟩
      above := fun _ _ => root
      top := rfl
      reaches := fun _ _ => ⟨1, rfl⟩ }
  · have childless (name : Name) : g.child (fun _ => rootRecords) 0 name = none := by
      unfold Files.child
      split_ifs with proper
      · refine lookup_eq_none.mpr fun member => ?_
        have names : names rootRecords = [dot, dotdot] := by decide
        rw [names] at member
        simp only [List.mem_cons, List.not_mem_nil, or_false] at member
        exact member.elim proper.2.1 proper.2.2
      · rfl
    funext p
    cases p with
    | nil => exact congrArg some (Files.entry_eq_dir.mpr root.2)
    | cons name rest =>
        rw [Files.tree, Files.walk, List.foldlM_cons, childless]
        rfl

end Root

theorem Session.fresh_shows (dev : Disk) {fs_size_mb max_fs_blocks : UInt64} (size : fsBlocks fs_size_mb = .ok max_fs_blocks) :
    ∃ c, Session.fresh dev fs_size_mb = .ok c ∧ c.Shows .empty ∧ ¬ c.fs.Failed ∧ c.size = 21 ∧
      max_fs_blocks.toNat ≤ c.fs.sb.free + 18 := by
  obtain ⟨low, high⟩ := fsBlocks_bounds size
  have same := opened_represents dev high
  have good : ¬ (Testfs.opened (makeImage dev max_fs_blocks)).Failed := Bool.false_ne_true
  obtain ⟨g, ran, held, freemap, directory, zeroed⟩ := @make_root_dir_run dev max_fs_blocks .near
  have costs : Costs .near testfs_make_root_dir (.blank dev max_fs_blocks) (makeCost I_DIR []) :=
    create_file_or_dir_costs none I_DIR (fun _ none => by cases none) fun _ _ _ => ⟨rfl, rfl⟩
  have cost : makeCost I_DIR [] = 18 := by decide
  have whole : (Testfs.opened (makeImage dev max_fs_blocks)).sb.free = max_fs_blocks.toNat := made_free dev max_fs_blocks
  have room : makeCost I_DIR [] ≤ (Testfs.opened (makeImage dev max_fs_blocks)).sb.free := by omega
  have free := (handle_agrees .near).affords handle_affords _ same good ran (costs.mono room)
  rcases (handle_agrees .near).follow (handle_follows .near) _ same good ran with ⟨ended, -, last⟩ | meets | ⟨-, stray⟩
  · rename_i t
    have left := (handle_agrees .near).leaves handle_affords _ same good ended ran costs room
    have none : t.inode_hash_table = .empty := InodeTable.eq_empty fun nr => by
      have absent := last.held nr
      rw [held] at absent
      exact Option.map_eq_none_iff.mp absent.symm
    obtain ⟨s, table⟩ := t
    obtain rfl : table = .empty := none
    have within : g.Within := fun nr above below => by
      simp only [NR_INODES] at above
      rw [freemap, Bitmap.isset_orMask, Files.blank, made_inode_freemap dev max_fs_blocks nr below]
      simp only [Bool.false_or, decide_eq_false_iff_not]
      omega
    obtain ⟨sound, tree⟩ := root_sound freemap directory zeroed
    obtain ⟨c, started, shows, fine, length, sb⟩ := Session.starts (t := ⟨s, .empty⟩) (closed_stored last.consistent.accounts.layout) last within sound
    rw [tree] at shows
    have records : (rootRecords.flatMap Record.bytes).length = 21 := rfl
    refine ⟨c, ?_, shows, fine, ?_, ?_⟩
    · simp only [Session.fresh, mktestfs, size, Result.ok_bind, ended, Session.close_empty, started]
    · exact length.trans (directory.lists.1.trans (congrArg (fun n : Nat => ((0 + n : Nat) : Int)) records))
    · have same : c.fs.sb.free = s.free := by rw [SuperBlock.free, sb, SuperBlock.free]
      have left : (Testfs.opened (makeImage dev max_fs_blocks)).sb.free ≤ s.free + makeCost I_DIR [] := left
      omega
  · exact absurd meets free
  · exact absurd stray (not_stray_near _)

end OperatingSystem.Fs
