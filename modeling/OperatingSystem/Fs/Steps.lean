import OperatingSystem.Fs.Affords
import OperatingSystem.Fs.Reopened

namespace OperatingSystem.Fs

open Prog InodeType
open Result (Ends)

namespace Files

variable {l : Limit} {f : Files}

theorem handle_within (within : f.Within) (op : InodeOp) : Ends (fun r => r.2.Within) (handle l op f) := by
  have cleared {nr : Nat} : ∀ m, NR_INODES ≤ m → m < 65536 → (f.inode_freemap.andNotMask nr).bitmap_isset m = false := by
    intro m high low
    rw [Bitmap.isset_andNotMask, within m high low, Bool.false_and]
  cases op with
  | testfs_get_inode nr =>
      refine Ends.bind (P := Within) ?_ fun g there => Ends.ok there
      exact Ends.ite (Ends.skip fun _ => Ends.ok within) (Ends.ok within)
  | testfs_put_inode nr =>
      refine Ends.bind (P := Within) ?_ fun g there => Ends.ok there
      exact Ends.skip fun _ => Ends.skip fun _ => Ends.ok within
  | testfs_inode_get_type nr => exact Ends.skip fun _ => Ends.ok within
  | testfs_inode_get_size nr => exact Ends.skip fun _ => Ends.ok within
  | testfs_inode_get_block_count nr => exact Ends.error
  | testfs_read_data nr start size => exact Ends.skip fun _ => Ends.ok within
  | testfs_write_data nr buf start =>
      exact Ends.skip fun _ => Ends.ite Ends.error (Ends.ok within)
  | testfs_create_inode type =>
      rcases f.handle_create l type with ⟨ran, -⟩ | ⟨nr, ran, low, -, -⟩
      · rw [ran]
        exact Ends.ok within
      · rw [ran]
        refine Ends.ok fun m high small => ?_
        rw [freemap_create, Bitmap.isset_orMask, within m high small]
        simp only [Bool.false_or, decide_eq_false_iff_not]
        omega
  | testfs_remove_inode nr =>
      refine Ends.bind (P := Within) ?_ fun g there => Ends.ok there
      exact Ends.skip fun _ => Ends.skip fun _ => Ends.ok cleared
  | testfs_sync_inode nr => exact Ends.skip fun _ => Ends.ok within

end Files

section Describing

variable {t : Testfs} {f : Files} {parent : Nat → Nat} {records : Nat → List Record} {cur nr : Nat} {v : Namespace} {name : Name}

theorem search_returns (same : Represents t f) (good : ¬ t.Failed) (sound : Sound f parent records) (resting : Resting f cur)
    (proper : 0 ∉ name) : ∃ u, run Testfs.handle (testfs_dir_name_to_inode_nr cur name) t = .ok (reply (lookup (records cur) name), u) ∧
      ¬ u.Failed ∧ Represents u f := by
  have searched := Files.dir_name_to_inode_nr_run (l := .near) sound resting proper
  have free : ¬ Meets Testfs.handle Testfs.Failed (testfs_dir_name_to_inode_nr cur name) t :=
    (handle_agrees .near).affords handle_affords _ same good searched (dir_name_to_inode_nr_costs.mono (Nat.zero_le _))
  rcases (handle_agrees .near).follow (handle_follows .near) _ same good searched with ⟨ran, fine, again⟩ | meets | ⟨-, stray⟩
  · exact ⟨_, ran, fine, again⟩
  · exact absurd meets free
  · exact absurd stray (not_stray_near _)

variable (shows : f.Shows parent records cur v)
include shows

theorem described (used : f.Used nr) (block_count : Int32) : Namespace.Described name (f.entry nr)
    [.stat name nr (f.node nr).i_type (f.node nr).i_size block_count] := by
  by_cases dir : f.IsDir nr
  · rw [Files.entry_eq_dir.mpr dir]
    exact ⟨nr, (f.node nr).i_size, block_count, by rw [show (f.node nr).i_type = _ from dir]⟩
  · have file := shows.sound.file nr used dir
    refine ⟨nr, 0, block_count, ?_⟩
    rw [Files.entry, if_neg dir]
    simp only [Bytes.slice, List.length_map, List.length_range, Int.toNat_of_nonneg file.low, file.type]

theorem stat_inode (same : Represents t f) (used : f.Used nr) : ∃ block_count u,
    run Testfs.handle (do
      call (InodeOp.testfs_get_inode nr)
      let type ← call (InodeOp.testfs_inode_get_type nr)
      let size ← call (InodeOp.testfs_inode_get_size nr)
      let block_count ← call (InodeOp.testfs_inode_get_block_count nr)
      call (InodeOp.testfs_put_inode nr)
      return (0, [Output.stat name nr type size block_count]) : DirProg (Int × List Output)) t =
      .ok ((0, [.stat name nr (f.node nr).i_type (f.node nr).i_size block_count]), u) ∧ u.sb = t.sb ∧ Represents u f := by
  obtain ⟨count, held, back⟩ := Files.held_get shows.resting nr
  obtain ⟨u, got⟩ := Consistent.get_returns (t := t) (Or.inl used.1)
  have gotten := Files.handle_get (l := .near) (f := f) used.1
  have there : Represents u (f.get nr) := same.get got (void_eq_ok.mp gotten)
  obtain ⟨i, found, reference⟩ := there.found (Files.inode_eq held)
  obtain ⟨-, clean⟩ := Prod.mk.inj reference
  have put := (Testfs.testfs_put_inode_eq found).trans (if_pos clean)
  have returned := there.put put (void_eq_ok.mp (Files.handle_put (l := .near) held rfl))
  rw [back] at returned
  have look := there.node nr used.1
  rw [dinode_found found, Files.node_get] at look
  refine ⟨i.dinode.block_count, _, ?_, (put_inode_look put).1.trans (get_inode_look got).1, returned⟩
  simp only [run_bind, run_call, Testfs.handle, Testfs.testfs_inode_get_type, Testfs.testfs_inode_get_size, Testfs.inode, got, found,
    put, Result.ok_bind, Result.pure_eq_ok, run_pure, look.i_type, look.i_size]

end Describing

namespace Session

variable {l : Limit} {c : Session} {v : Namespace} {issued : Issued}

def size (c : Session) : Int := (c.fs.dinode c.cur_dir).i_size.toInt

def Shows (c : Session) (v : Namespace) : Prop := ∃ f, Represents c.fs f ∧ f.Within ∧ f.Shown c.cur_dir v

def FailsIn (c : Session) (issued : Issued) : Prop :=
  Meets Testfs.handle Testfs.Failed (issued.command.func issued.env c.cur_dir issued.args) c.fs

def Obeys (c : Session) (v : Namespace) (issued : Issued) : Prop := ∃ c' ret out v', c.handle_command issued = .ok (c', ret, out) ∧
  v.Does issued.env ret out v' issued.command issued.args ∧ c'.Shows v' ∧ ¬ c'.fs.Failed

/-- How a command can end. -/
inductive Handles (l : Limit) (c : Session) (v : Namespace) (issued : Issued) : Prop
  | obeys : c.Obeys v issued → Handles l c v issued
  | fails : c.FailsIn issued → Handles l c v issued
  | strays {e : Fault} : c.handle_command issued = .error e → Stray l e → Handles l c v issued

theorem stat_obeys (shows : c.Shows v) (good : ¬ c.fs.Failed) {env : Environment} {args : List Name} (strings : ∀ arg ∈ args, 0 ∉ arg) :
    c.Obeys v ⟨env, .stat, args, strings⟩ := by
  obtain ⟨f, same, within, parent, records, shown⟩ := shows
  have refused (ran : c.handle_command ⟨env, .stat, args, strings⟩ = .ok (c, -EINVAL, []))
      (does : v.Does env (-EINVAL) [] v .stat args) : c.Obeys v ⟨env, .stat, args, strings⟩ :=
    ⟨c, _, _, v, ran, does, ⟨f, same, within, parent, records, shown⟩, good⟩
  rcases args with _ | ⟨name, _ | ⟨second, rest⟩⟩
  · exact refused rfl ⟨rfl, rfl, rfl⟩
  · have found : v.find name = (lookup (records c.cur_dir) name).map f.entry := Files.find_eq shown
    have obeys (ret : Int) (out : List Output) {u : Testfs}
        (ran : run Testfs.handle (cmd_stat c.cur_dir [name]) c.fs = .ok ((ret, out), u))
        (again : Represents u f) (fine : ¬ u.Failed) (does : v.Does env ret out v .stat [name]) :
        c.Obeys v ⟨env, .stat, [name], strings⟩ := by
      refine ⟨⟨u, c.cur_dir⟩, ret, out, v, ?_, does, ⟨f, again, within, parent, records, shown⟩, fine⟩
      simp only [handle_command, Command.func, run_bind, ran, Result.ok_bind, run_pure]
    obtain ⟨t, ran, fine, again⟩ := search_returns same good shown.sound shown.resting (strings name (by simp))
    cases present : lookup (records c.cur_dir) name with
    | none =>
        rw [present] at ran found
        have negative : reply none < 0 := by decide
        refine obeys (-ENOENT) [] ?_ again fine ⟨rfl, ?_⟩
        · simp only [cmd_stat, run_bind, ran, Result.ok_bind, negative, if_true, run_pure]
          rfl
        · rw [found]
          exact ⟨rfl, rfl⟩
    | some nr =>
        rw [present] at ran found
        have used := shown.sound.lookup_used shown.resting.dir present
        have positive : ¬ reply (some nr) < 0 := not_lt.mpr (Int.natCast_nonneg nr)
        obtain ⟨block_count, u, printed, sb, last⟩ := @stat_inode _ _ _ _ _ nr _ name shown again used
        have described := @described _ _ _ _ nr _ name shown used block_count
        refine obeys 0 [.stat name nr (f.node nr).i_type (f.node nr).i_size block_count] ?_ last
          (by rw [Testfs.Failed, sb]; exact fine) ⟨rfl, ?_⟩
        · simp only [cmd_stat, run_bind (H := Testfs.handle) (p := testfs_dir_name_to_inode_nr _ _), ran, Result.ok_bind, positive,
            if_false]
          exact printed
        · rw [found]
          exact ⟨rfl, described⟩
  · exact refused rfl ⟨rfl, rfl, rfl⟩

section Commands

variable (shows : c.Shows v) (good : ¬ c.fs.Failed) (issued : Issued) (fits : v.Fits l issued.env c.size issued.command issued.args)
include shows good fits

theorem command_handles : c.Handles l v issued := by
  obtain ⟨env, command, args, strings⟩ := issued
  by_cases other : command = .stat
  · subst other
    exact .obeys (stat_obeys shows good strings)
  obtain ⟨f, same, within, shown⟩ := shows
  have size : (f.node c.cur_dir).i_size = c.size := by
    obtain ⟨parent, records, all⟩ := shown
    exact (same.node c.cur_dir all.resting.dir.1.1).i_size
  rw [← size] at fits
  obtain ⟨ret, cur', out, f', v', ran, does, shown'⟩ := Files.command_does shown env strings other fits
  have still : f'.Within := run_ends (P := Files.Within) (fun op _ there => Files.handle_within there op) _ within _ ran
  rcases (handle_agrees l).follow (handle_follows l) _ same good ran with ⟨ended, fine, last⟩ | meets | ⟨ended, stray⟩
  · refine .obeys ⟨⟨_, cur'⟩, ret, out, v', ?_, does, ⟨f', last, still, shown'⟩, fine⟩
    rw [handle_command, ended]
    rfl
  · exact .fails meets
  · refine .strays ?_ stray
    rw [handle_command, ended]
    rfl

theorem command_affords (room : issued.command.cost c.size issued.args ≤ c.fs.sb.free) (other : issued.command ≠ .stat) :
    ¬ c.FailsIn issued := by
  obtain ⟨f, same, within, parent, records, shown⟩ := shows
  have size : (f.node c.cur_dir).i_size = c.size := (same.node c.cur_dir shown.resting.dir.1.1).i_size
  rw [← size] at fits room
  obtain ⟨ret, cur', out, f', v', ran, -, -⟩ :=
    Files.command_does ⟨parent, records, shown⟩ issued.env issued.strings other fits
  have costs := @command_costs l f c.cur_dir parent records shown.sound shown.resting issued.env issued.command issued.args issued.strings
  exact (handle_agrees l).affords handle_affords _ same good ran (costs.mono room)

theorem command_returns (room : issued.command.cost c.size issued.args ≤ c.fs.sb.free) :
    c.Obeys v issued ∨ ∃ e, c.handle_command issued = .error e ∧ Stray l e := by
  by_cases other : issued.command = .stat
  · obtain ⟨env, command, args, strings⟩ := issued
    obtain rfl : command = .stat := other
    exact Or.inl (stat_obeys shows good strings)
  rcases command_handles shows good issued fits with obeys | fails | ⟨ended, stray⟩
  · exact Or.inl obeys
  · exact absurd fails (command_affords shows good issued fits room other)
  · exact Or.inr ⟨_, ended, stray⟩

end Commands

theorem inodes_counted (shows : c.Shows v) : c.fs.sb.sb.used_inode_count.toNat = {p | v.tree p ≠ none}.ncard := by
  obtain ⟨f, same, within, parent, records, shown⟩ := shows
  have accounts := same.consistent.accounts
  have used : {nr | f.Used nr} = (Finset.range 65536).filter fun nr => c.fs.sb.inode_freemap.bitmap_isset nr = true := by
    ext nr
    rw [← same.inode_freemap, Finset.mem_coe, Finset.mem_filter, Finset.mem_range]
    change nr < NR_INODES ∧ _ ↔ _
    refine and_congr_left fun set => ⟨fun low => by simp only [NR_INODES] at low; omega, fun low => ?_⟩
    by_contra high
    rw [within nr (not_lt.mp high) low] at set
    cases set
  rw [shown.tree, Files.ncard_tree shown.sound, used, Set.ncard_coe_finset, accounts.used_inodes, Bitmap.bitmap_nr_allocated,
    accounts.layout.inode_bits, Nat.count_eq_card_filter_range]

theorem starts {t : Testfs} {f : Files} {parent : Nat → Nat} {records : Nat → List Record} {dev : Disk} (stored : Reopens dev t.sb)
    (closed : Represents { t with inode_hash_table := .empty } f) (within : f.Within) (sound : Sound f parent records) :
    ∃ c', start dev = .ok c' ∧ c'.Shows ⟨f.tree records, []⟩ ∧ ¬ c'.fs.Failed ∧ c'.size = (f.node 0).i_size ∧ c'.fs.sb.sb = t.sb.sb := by
  have opened := closed.reopened stored
  have free (nr : Nat) : f.held nr = none := by
    rw [closed.held]
    rfl
  obtain ⟨u, got⟩ := @Consistent.get_returns (.opened dev) 0 (Or.inl (by decide))
  have again := opened.get got (void_eq_ok.mp (Files.handle_get (l := .near) (by decide)))
  have sb := (get_inode_look got).1
  refine ⟨⟨u, 0⟩, ?_, ⟨_, again, fun nr high low => ?_, ?_⟩, ?_, ?_, ?_⟩
  · rw [start, got]
    rfl
  · change (testfs_init_super_block dev).inode_freemap.bitmap_isset nr = false
    rw [stored.inode_bit nr low]
    have clear := within nr high low
    rwa [closed.inode_freemap] at clear
  · refine Files.shown_root sound rfl (Files.used_reopened closed.inode_freemap stored rfl) ?_
    funext nr
    rw [Files.get, Files.held_setHeld, free 0]
    by_cases root : nr = 0
    · subst root
      rw [Function.update_self, Function.update_self]
      rfl
    · rw [Function.update_of_ne root, Function.update_of_ne root]
      exact free nr
  · rw [Testfs.Failed, sb]
    exact Bool.false_ne_true
  · have size := (again.node 0 (by decide)).i_size
    rw [Files.node_get] at size
    exact size.symm
  · rw [sb]
    exact stored.sb

theorem close_empty (s : SuperBlock) : Testfs.testfs_close_super_block ⟨s, .empty⟩ = .ok (testfs_close_super_block s) := by
  have none : InodeTable.empty.inode_hash_destroy = .ok () := assert_eq_ok.mpr fun _ => List.isEmpty_nil
  simp only [Testfs.testfs_close_super_block, none, Result.ok_bind]
  rfl

theorem put_last (shows : c.Shows v) : ∃ f parent records,
    c.fs.testfs_put_inode c.cur_dir = .ok { c.fs with inode_hash_table := .empty } ∧
      Represents { c.fs with inode_hash_table := .empty } f ∧ f.Within ∧ Sound f parent records ∧ v.tree = f.tree records := by
  obtain ⟨f, same, within, parent, records, shown⟩ := shows
  obtain ⟨put, closed⟩ := same.last_put shown.resting
  have sound : Sound (f.put c.cur_dir) parent records := shown.sound.congr (fun _ => Iff.rfl) (fun _ _ => rfl) (fun _ => rfl) shown.sound.file
  exact ⟨_, parent, records, put, closed, within, sound, shown.tree⟩

theorem restarts (shows : c.Shows v) : ∃ dev c', c.quit = .ok dev ∧ start dev = .ok c' ∧ c'.Shows { v with cwd := [] } ∧ ¬ c'.fs.Failed := by
  obtain ⟨f, parent, records, put, closed, within, sound, tree⟩ := put_last shows
  have quit : c.quit = .ok (testfs_close_super_block c.fs.sb) := by
    rw [Session.quit, put, Result.ok_bind, close_empty]
  obtain ⟨c', started, shows, fine, -⟩ := starts (closed_stored closed.consistent.accounts.layout) closed within sound
  refine ⟨_, c', quit, started, ?_, fine⟩
  rw [tree]
  exact shows

theorem rereads (shows : c.Shows v) : ∃ c', start c.fs.sb.dev = .ok c' ∧ c'.Shows { v with cwd := [] } ∧ ¬ c'.fs.Failed := by
  obtain ⟨f, parent, records, put, closed, within, sound, tree⟩ := put_last shows
  obtain ⟨c', started, shows, fine, -⟩ := starts closed.consistent.accounts.onDisk.stored closed within sound
  refine ⟨c', started, ?_, fine⟩
  rw [tree]
  exact shows

end Session

end OperatingSystem.Fs
