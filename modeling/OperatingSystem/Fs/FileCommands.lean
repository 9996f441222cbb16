import OperatingSystem.Fs.Commands
import OperatingSystem.Fs.FileTree

namespace OperatingSystem.Fs

open Prog InodeType

/-- Between two commands only the current directory is in memory. -/
structure Resting (f : Files) (cur : Nat) : Prop where
  dir : f.Dir cur
  held : f.held = Function.update (fun _ => none) cur (some (1, false))

theorem empty_made {nr p_nr : Nat} (low : nr < 2 ^ 31) (lowP : p_nr < 2 ^ 31) :
    Empty [.made dot nr (by decide), .made dotdot p_nr (by decide)] nr p_nr := by
  have own : (Record.made dot nr (by decide)).Live := Record.live_made (by decide) low
  have above : (Record.made dotdot p_nr (by decide)).Live := Record.live_made (by decide) lowP
  have name : (Record.made dot nr (by decide)).name = dot := Record.name_made (by decide) (by decide)
  have nameP : (Record.made dotdot p_nr (by decide)).name = dotdot := Record.name_made (by decide) (by decide)
  refine ⟨?_, ⟨_, List.mem_cons_self, own, name, Record.number_made (by decide) low⟩,
    ⟨_, List.mem_cons_of_mem _ List.mem_cons_self, above, nameP, Record.number_made (by decide) lowP⟩, ?_⟩
  · rw [names_cons own, names_cons above, name, nameP]
    decide
  · rw [inodes_cons_other fun child => child.2.1 name, inodes_cons_other fun child => child.2.2 nameP]
    rfl

namespace Files

section Held

variable {l : Limit} {f : Files} {nr m cur : Nat} {type : InodeType}

@[simp] theorem held_setDirty (dirty : Bool) :
    (f.setDirty nr dirty).held = Function.update f.held nr ((f.held nr).map fun h => (h.1, dirty)) := rfl

theorem held_create (absent : f.held nr = none) : (f.create nr type).held = Function.update f.held nr (some (1, true)) := by
  funext m
  by_cases here : m = nr
  · subst here
    simp [create, get, absent]
  · simp [create, get, here]

theorem held_put_last {dirty : Bool} (one : f.held nr = some (1, dirty)) : (f.put nr).held = Function.update f.held nr none := by
  rw [put, held_setHeld, one]
  rfl

theorem held_remove_last {dirty : Bool} (one : f.held nr = some (1, dirty)) :
    (f.remove nr).held = Function.update f.held nr none := by
  have before : (((f.unmark nr).setNode nr Node.zero).setDirty nr false).held nr = some (1, false) := by simp [one]
  rw [remove, held_put_last before]
  simp

theorem used_mark (low : nr < NR_INODES) : (f.mark nr).Used m ↔ f.Used m ∨ m = nr := by
  simp only [Used, mark, Bitmap.isset_orMask, Bool.or_eq_true, decide_eq_true_eq]
  constructor
  · rintro ⟨small, set | rfl⟩
    · exact Or.inl ⟨small, set⟩
    · exact Or.inr rfl
  · rintro (⟨small, set⟩ | rfl)
    · exact ⟨small, Or.inl set⟩
    · exact ⟨low, Or.inr rfl⟩

theorem used_unmark : (f.unmark nr).Used m ↔ f.Used m ∧ m ≠ nr := by
  simp only [Used, unmark, Bitmap.isset_andNotMask, Bool.and_eq_true, Bool.not_eq_true', decide_eq_false_iff_not, and_assoc, ne_eq]

theorem used_congr {f' : Files} (same : f'.inode_freemap = f.inode_freemap) : f'.Used m ↔ f.Used m := by
  rw [Used, Used, same]

end Held

section Filling

variable {l : Limit} {f : Files} {nr cur : Nat} {h : Nat × Bool}

theorem setNode_twice {n n' : Node} {dirty : Bool} :
    (((f.setNode nr n).setDirty nr dirty).setNode nr n').setDirty nr dirty = (f.setNode nr n').setDirty nr dirty := by
  cases f
  simp [setNode, setDirty, setHeld, Function.comp_def]

theorem create_empty_dir_run (p_nr : Nat) (held : f.held nr = some h) (empty : (f.node nr).Directory [])
    (low : nr < 2 ^ 31) : ∃ n, run (handle l) (testfs_create_empty_dir p_nr nr) f =
      .ok (0, (f.setNode nr n).setDirty nr true) ∧ n.Directory [.made dot nr (by decide), .made dotdot p_nr (by decide)] := by
  have size : (f.node nr).i_size = 0 := empty.lists.1
  have brief : dot.length = 1 ∧ dotdot.length = 2 := by decide
  obtain ⟨n, len, ran, positive, first, grown⟩ := add_dirent_run (l := l) held empty.type empty dot nr (by decide) (by decide) (by decide)
    (by rw [size, Record.size_made, brief.1]; decide)
  rw [size, Record.size_made, brief.1] at grown
  have live : (Record.made dot nr (by decide)).Live := Record.live_made (by decide) low
  have named : names [Record.made dot nr (by decide)] = [dot] := by
    rw [names_cons live, Record.name_made _ (by decide)]
    rfl
  have filled : ((f.setNode nr n).setDirty nr true).node nr = n := by simp
  have held' : ((f.setNode nr n).setDirty nr true).held nr = some (h.1, true) := by simp [held]
  rw [show enter (.made dot nr (by decide)) [] = [.made dot nr (by decide)] from rfl, ← filled] at first
  obtain ⟨n', len', ran', positive', both, -⟩ := add_dirent_run (l := l) held' first.type first dotdot p_nr (by decide) (by decide)
    (by rw [named]; decide) (by rw [filled, Record.size_made, brief.2]; simp only [NEAR_FILE_SIZE]; omega)
  have entered : enter (.made dotdot p_nr (by decide)) [.made dot nr (by decide)] =
      [.made dot nr (by decide), .made dotdot p_nr (by decide)] := by
    rw [enter, if_neg fun fits => fits.1 live]
    rfl
  rw [entered] at both
  refine ⟨n', ?_, both⟩
  have good : ¬ len < 0 := not_lt.mpr positive
  have good' : ¬ len' < 0 := not_lt.mpr positive'
  simp only [testfs_create_empty_dir, run_bind, run_call, run_lift, handle_inode_type held, empty.type, assert, if_true,
    Result.ok_bind, ran, good, if_false, ran', good', run_pure, setNode_twice]

end Filling

section Creating

variable {l : Limit} {f : Files} {cur : Nat} {parent : Nat → Nat} {records : Nat → List Record} (sound : Sound f parent records)
  (resting : Resting f cur) {name : Name} (proper : 0 ∉ name)
include sound resting proper

theorem dir_name_to_inode_nr_run :
    run (handle l) (testfs_dir_name_to_inode_nr cur name) f = .ok (reply (lookup (records cur) name), f) := by
  have held : f.held cur = some (1, false) := by rw [resting.held, Function.update_self]
  have directory := sound.directory cur resting.dir
  have found : run (handle l) (nameToInodeNr cur name turns (0 : Nat)) f = .ok (reply (lookup (records cur) name), f) :=
    nameToInodeNr_run held resting.dir.2 directory.small proper directory.lists (directory.lists.length directory.small)
  simp only [testfs_dir_name_to_inode_nr, run_bind, run_call, run_lift, handle_inode_type held, directory.type, assert, if_true,
    Result.ok_bind]
  exact found

omit sound resting in
theorem link_run {g : Files} {nr : Nat} {entries : List Record} (apart : nr ≠ cur) (held : g.held cur = some (1, false))
    (heldN : g.held nr = some (1, true)) (directory : (g.node cur).Directory entries) (fresh : name ∉ names entries)
    (brief : name.length < BLOCK_SIZE) (room : (g.node cur).i_size + (9 + name.length : Nat) < NEAR_FILE_SIZE) :
    ∃ len g1 g2 g3 g4, run (handle l) (testfs_add_dirent cur name nr) g = .ok (len, g1) ∧ 0 ≤ len ∧
      handle l (.testfs_sync_inode cur) g1 = .ok ((), g2) ∧ handle l (.testfs_sync_inode nr) g2 = .ok ((), g3) ∧
      handle l (.testfs_put_inode nr) g3 = .ok ((), g4) ∧ g4.held = Function.update g.held nr none ∧
      g4.inode_freemap = g.inode_freemap ∧ (g4.node cur).Directory (enter (.made name nr brief) entries) ∧
      ∀ m, m ≠ cur → g4.node m = g.node m := by
  obtain ⟨n, len, ran, positive, both, -⟩ := add_dirent_run (l := l) held directory.type directory name nr brief proper fresh
    (by rwa [Record.size_made])
  have held1 : ((g.setNode cur n).setDirty cur true).held cur = some (1, true) := by simp [held]
  have held2 : (((g.setNode cur n).setDirty cur true).setDirty cur false).held nr = some (1, true) := by simp [apart, heldN]
  have held3 : ((((g.setNode cur n).setDirty cur true).setDirty cur false).setDirty nr false).held nr = some (1, false) := by
    rw [held_setDirty, Function.update_self, held2]
    rfl
  refine ⟨len, _, _, _, _, ran, positive, handle_sync held1, handle_sync held2, handle_put held3 rfl, ?_, rfl, ?_, fun m other => ?_⟩
  · rw [held_put_last held3]
    funext m
    by_cases new : m = nr
    · subst new
      simp
    · by_cases here : m = cur
      · subst here
        simp [new, held]
      · simp [new, here]
  · simpa using both
  · simp [other]

inductive Creates (f : Files) (cur : Nat) (entries : List Record) (name : Name) (brief : name.length < BLOCK_SIZE)
    (type : InodeType) : Int → Files → Prop
  | exists_already : name ∈ names entries → Creates f cur entries name brief type (-EEXIST) f
  | full : name ∉ names entries → (∀ nr, nr < NR_INODES → f.Used nr) → Creates f cur entries name brief type (-ENOSPC) f
  | made {nr : Nat} {f' : Files} {below : List Record} : name ∉ names entries → nr < NR_INODES → ¬ f.Used nr →
      (∀ m, m < nr → f.Used m) → Grows f f' cur nr (.made name nr brief) entries below → f'.held = f.held →
      (f'.node nr).i_type = type.code → Creates f cur entries name brief type 0 f'

theorem create_run (type : InodeType) (brief : name.length < BLOCK_SIZE) (kind : type = I_FILE ∨ type = I_DIR)
    (room : (f.node cur).i_size + (9 + name.length : Nat) < NEAR_FILE_SIZE) :
    ∃ ret f', run (handle l) (testfs_create_file_or_dir cur type name) f = .ok (ret, f') ∧
      Creates f cur (records cur) name brief type ret f' := by
  have held : f.held cur = some (1, false) := by rw [resting.held, Function.update_self]
  have search := dir_name_to_inode_nr_run (l := l) sound resting proper
  by_cases present : name ∈ names (records cur)
  · refine ⟨_, _, ?_, .exists_already present⟩
    cases found : lookup (records cur) name with
    | none => exact absurd present (lookup_eq_none.mp found)
    | some nr =>
        rw [found] at search
        have positive : (0 : Int) ≤ reply (some nr) := Int.natCast_nonneg nr
        simp only [testfs_create_file_or_dir, run_bind, search, Result.ok_bind, positive, if_true, run_pure]
  rw [lookup_eq_none.mpr present] at search
  have negative : ¬ 0 ≤ reply none := by decide
  rcases handle_create l f type with ⟨created, full⟩ | ⟨nr, created, low, unused, least⟩
  · refine ⟨_, _, ?_, .full present full⟩
    have failed : -ENOSPC < 0 := by decide
    simp only [testfs_create_file_or_dir, run_bind, search, Result.ok_bind, negative, if_false, run_call, created, failed, if_true,
      run_pure]
  have apart : nr ≠ cur := by
    rintro rfl
    exact unused resting.dir.1
  have good : ¬ (0 : Int) < 0 := by omega
  have absent : f.held nr = none := by rw [resting.held, Function.update_of_ne apart]
  have heldN : (f.create nr type).held nr = some (1, true) := by rw [held_create absent, Function.update_self]
  have heldC : (f.create nr type).held cur = some (1, false) := by
    rw [held_create absent, Function.update_of_ne (Ne.symm apart), held]
  have directory := sound.directory cur resting.dir
  have zeroed := sound.zeroed nr low unused
  have used (g : Files) (same : g.inode_freemap = (f.create nr type).inode_freemap) (m : Nat) : g.Used m ↔ f.Used m ∨ m = nr :=
    (used_congr same).trans (used_mark low)
  have back : Function.update (Function.update f.held nr (some (1, true))) nr none = f.held := by
    rw [Function.update_idem, ← absent, Function.update_eq_self]
  rcases kind with rfl | rfl
  · obtain ⟨len, g1, g2, g3, g4, added, positive, syncC, syncN, put, last, freemap, directory', others⟩ :=
      link_run (l := l) proper apart heldC heldN (by simpa [apart.symm] using directory) present brief (by simpa [apart.symm] using room)
    have fine : ¬ len < 0 := not_lt.mpr positive
    have made : g4.node nr = { Node.zero with i_type := I_FILE.code } := by simp [others nr apart, zeroed]
    have grows : Grows f g4 cur nr (.made name nr brief) (records cur) [] :=
      ⟨used g4 freemap, fun m here old => by simp [others m here, old], directory', Or.inl made⟩
    refine ⟨0, g4, ?_, .made present low unused least grows (by rw [last, held_create absent, back]) (by rw [made])⟩
    simp only [testfs_create_file_or_dir, run_bind, search, Result.ok_bind, negative, if_false, run_call, created, good,
      reduceCtorEq, added, fine, syncC, syncN, put, run_pure]
  · have empty : ((f.create nr I_DIR).node nr).Directory [] := by
      rw [node_create, Function.update_self, zeroed]
      exact ⟨rfl, ⟨rfl, rfl, by simp⟩, by decide⟩
    have lowN : nr < 2 ^ 31 := by
      simp only [NR_INODES] at low
      omega
    obtain ⟨n, filled, both⟩ := create_empty_dir_run (l := l) cur heldN empty lowN
    obtain ⟨len, g1, g2, g3, g4, added, positive, syncC, syncN, put, last, freemap, directory', others⟩ :=
      link_run (l := l) (g := ((f.create nr I_DIR).setNode nr n).setDirty nr true) proper apart (by simp [apart.symm, heldC])
        (by simp [heldN]) (by simpa [apart.symm] using directory) present brief (by simpa [apart.symm] using room)
    have fine : ¬ len < 0 := not_lt.mpr positive
    have made : g4.node nr = n := by simp [others nr apart]
    have lowC : cur < 2 ^ 31 := by
      have inside := resting.dir.1.1
      simp only [NR_INODES] at inside
      omega
    have grows : Grows f g4 cur nr (.made name nr brief) (records cur) [.made dot nr (by decide), .made dotdot cur (by decide)] :=
      ⟨used g4 freemap, fun m here old => by simp [others m here, old], directory', Or.inr ⟨by rwa [made], empty_made lowN lowC⟩⟩
    refine ⟨0, g4, ?_, .made present low unused least grows ?_ ?_⟩
    · simp only [testfs_create_file_or_dir, run_bind, search, Result.ok_bind, negative, if_false, run_call, created, good,
        if_true, Option.getD_some, filled, added, fine, syncC, syncN, put, run_pure]
    · rw [last, held_setDirty, held_setNode, held_create absent, Function.update_self, Function.update_idem, ← back]
      simp
    · rw [made]
      exact both.type

end Creating

section Removing

variable {l : Limit} {f : Files} {cur : Nat} {parent : Nat → Nat} {records : Nat → List Record} (sound : Sound f parent records)
  (resting : Resting f cur) {name : Name} (proper : 0 ∉ name)

inductive Removes (f : Files) (cur : Nat) (records : Nat → List Record) (name : Name) : Int → Files → Prop
  | special : name = dot ∨ name = dotdot → Removes f cur records name (-EINVAL) f
  | absent : name ≠ dot → name ≠ dotdot → name ∉ names (records cur) → Removes f cur records name (-ENOENT) f
  | occupied {nr : Nat} : name ≠ dot → name ≠ dotdot → lookup (records cur) name = some nr → f.IsDir nr → inodes (records nr) ≠ [] →
      Removes f cur records name (-ENOTEMPTY) f
  | removed {nr : Nat} {f' : Files} : name ≠ dot → name ≠ dotdot → lookup (records cur) name = some nr →
      (f.IsDir nr → inodes (records nr) = []) → Shrinks f f' cur nr name (records cur) → f'.held = f.held →
      Removes f cur records name 0 f'

theorem inodes_ne_nil {entries : List Record} : inodes entries ≠ [] ↔ ∃ r ∈ entries, r.Child := by
  simp [inodes, List.filter_eq_nil_iff]

include sound resting proper

theorem rm_run : ∃ ret f', run (handle l) (cmd_rm cur [name]) f = .ok (ret, f') ∧ Removes f cur records name ret f' := by
  have held : f.held cur = some (1, false) := by rw [resting.held, Function.update_self]
  have directory := sound.directory cur resting.dir
  by_cases special : name = dot ∨ name = dotdot
  · refine ⟨_, _, ?_, .special special⟩
    have negative : -EINVAL < 0 := by decide
    simp only [cmd_rm, run_bind, testfs_remove_dirent, special, if_true, run_pure, Result.ok_bind, negative]
  have own : name ≠ dot := fun same => special (Or.inl same)
  have up : name ≠ dotdot := fun same => special (Or.inr same)
  cases found : lookup (records cur) name with
  | none =>
      refine ⟨_, _, ?_, .absent own up (lookup_eq_none.mp found)⟩
      have negative : -ENOENT < 0 := by decide
      have searched : run (handle l) (removeDirent cur name turns (0 : Nat)) f = .ok (-ENOENT, f) :=
        removeDirent_absent held resting.dir.2 directory.small proper found directory.lists (directory.lists.length directory.small)
      rw [Int.natCast_zero] at searched
      simp only [cmd_rm, run_bind, testfs_remove_dirent, special, if_false, searched, Result.ok_bind, negative, if_true, run_pure]
  | some nr =>
      obtain ⟨member, used, positive, above⟩ := sound.named_child resting.dir found own up
      have apart : nr ≠ cur := by
        rintro rfl
        exact sound.parent_ne used positive above
      have absent : f.held nr = none := by rw [resting.held, Function.update_of_ne apart]
      have settled : f.Settled nr := fun h held => by
        rw [absent] at held
        cases held
      obtain ⟨front, q, back, split, buried, searched⟩ := removeDirent_present (l := l) held resting.dir.2 directory.small proper found used.1
        settled (fun dir => sound.directory nr ⟨used, dir⟩) directory.lists (directory.lists.length directory.small)
      rw [Int.natCast_zero] at searched
      by_cases occupied : f.IsDir nr ∧ ∃ r ∈ records nr, r.Child
      · refine ⟨_, _, ?_, .occupied own up found occupied.1 (inodes_ne_nil.mpr occupied.2)⟩
        have negative : -ENOTEMPTY < 0 := by decide
        rw [if_pos occupied] at searched
        simp only [cmd_rm, run_bind, testfs_remove_dirent, special, if_false, searched, Result.ok_bind, negative, if_true, run_pure]
      rw [if_neg occupied, Nat.zero_add] at searched
      have good : ¬ (nr : Int) < 0 := by omega
      have size : span [q] = q.buried.size := by
        rw [span_cons, Record.size_buried]
        rfl
      have directory' := @Node.Directory.write _ q.buried _ [q] _ _ directory split (Or.inl size) (Or.inl size)
        (directory.lists.2.2 q (by simp [split]))
      have heldN : ((f.write cur q.buried.bytes (span front)).get nr).held nr = some (1, false) := by
        simp [get, write, apart, absent]
      have usedN : ((f.write cur q.buried.bytes (span front)).get nr).Used nr := used
      have heldR : (((f.write cur q.buried.bytes (span front)).get nr).remove nr).held = Function.update f.held cur (some (1, true)) := by
        rw [held_remove_last heldN]
        funext m
        by_cases gone : m = nr
        · subst gone
          simp [apart, absent]
        · by_cases here : m = cur
          · subst here
            simp [gone, get, write, held]
          · simp [gone, here, get, write]
      have heldC : (((f.write cur q.buried.bytes (span front)).get nr).remove nr).held cur = some (1, true) := by
        rw [heldR, Function.update_self]
      have bare (dir : f.IsDir nr) : inodes (records nr) = [] := by
        by_contra some
        exact occupied ⟨dir, inodes_ne_nil.mp some⟩
      have shrinks : Shrinks f ((((f.write cur q.buried.bytes (span front)).get nr).remove nr).setDirty cur false) cur nr name
          (records cur) :=
        ⟨fun m => used_unmark, fun m here old => by simp [here, old], by simpa [Ne.symm apart, buried] using directory', by simp⟩
      refine ⟨_, _, ?_, .removed own up found bare shrinks ?_⟩
      · simp only [cmd_rm, run_bind, testfs_remove_dirent, special, if_false, searched, Result.ok_bind, good, run_call,
          Int.toNat_natCast, handle_get used.1, handle_remove heldN usedN, handle_sync heldC, run_pure]
      · rw [held_setDirty, heldR, Function.update_self, Function.update_idem, Option.map_some, ← held, Function.update_eq_self]

end Removing

section Moving

variable {l : Limit} {f : Files} {cur : Nat} {parent : Nat → Nat} {records : Nat → List Record} (sound : Sound f parent records)
  (resting : Resting f cur) {name : Name} (proper : 0 ∉ name)

inductive Moves (f : Files) (cur : Nat) (records : Nat → List Record) (name : Name) : Int → Nat → Files → Prop
  | absent : lookup (records cur) name = none → Moves f cur records name (-ENOENT) cur f
  | file {nr : Nat} : lookup (records cur) name = some nr → ¬ f.IsDir nr → Moves f cur records name (-ENOTDIR) cur f
  | moved {nr : Nat} {f' : Files} : lookup (records cur) name = some nr → f.IsDir nr → f'.node = f.node →
      f'.inode_freemap = f.inode_freemap → f'.held = Function.update (fun _ => none) nr (some (1, false)) →
      Moves f cur records name 0 nr f'

include resting in
theorem held_get (nr : Nat) : ∃ count, (f.get nr).held nr = some (count, false) ∧ (f.get nr).put nr = f := by
  have back : (f.get nr).put nr = f := put_get fun h held => by
    rw [resting.held] at held
    by_cases here : nr = cur
    · subst here
      rw [Function.update_self] at held
      exact Option.some.inj held ▸ Nat.one_pos
    · rw [Function.update_of_ne here] at held
      cases held
  by_cases here : nr = cur
  · subst here
    exact ⟨2, by simp [get, resting.held], back⟩
  · exact ⟨1, by simp [get, resting.held, here], back⟩

include sound resting proper

theorem cd_run : ∃ ret dir f', run (handle l) (cmd_cd cur [name]) f = .ok ((ret, dir), f') ∧ Moves f cur records name ret dir f' := by
  have search := dir_name_to_inode_nr_run (l := l) sound resting proper
  cases found : lookup (records cur) name with
  | none =>
      refine ⟨_, _, _, ?_, .absent found⟩
      have negative : reply none < 0 := by decide
      rw [found] at search
      simp only [cmd_cd, run_bind, search, Result.ok_bind, negative, if_true, run_pure]
      rfl
  | some nr =>
      have low := (sound.lookup_used resting.dir found).1
      have good : ¬ (nr : Int) < 0 := not_lt.mpr (Int.natCast_nonneg nr)
      obtain ⟨count, here, back⟩ := held_get resting nr
      rw [found, show reply (some nr) = (nr : Int) from rfl] at search
      by_cases dir : f.IsDir nr
      · have same : ((f.get nr).node nr).i_type = I_DIR.code := dir
        by_cases own : nr = cur
        · subst own
          refine ⟨_, _, f, ?_, .moved found dir rfl rfl resting.held⟩
          simp only [cmd_cd, run_bind, search, Result.ok_bind, good, if_false, Int.toNat_natCast, run_call, handle_get low,
            handle_inode_type here, same, ne_eq, not_true_eq_false, handle_put here rfl, back, run_pure]
        · have left : (f.get nr).held cur = some (1, false) := by simp [get, Ne.symm own, resting.held]
          refine ⟨_, _, (f.get nr).put cur, ?_, .moved found dir rfl rfl ?_⟩
          · simp only [cmd_cd, run_bind, search, Result.ok_bind, good, if_false, Int.toNat_natCast, run_call, handle_get low,
              handle_inode_type here, same, ne_eq, not_true_eq_false, handle_put left rfl, run_pure]
          · rw [held_put_last left, get, held_setHeld, resting.held]
            funext m
            by_cases old : m = cur
            · subst old
              simp [Ne.symm own]
            · by_cases new : m = nr
              · subst new
                simp [old]
              · simp [old, new]
      · have other : ((f.get nr).node nr).i_type ≠ I_DIR.code := dir
        refine ⟨_, _, _, ?_, .file found dir⟩
        simp only [cmd_cd, run_bind, search, Result.ok_bind, good, if_false, Int.toNat_natCast, run_call, handle_get low,
          handle_inode_type here, ne_eq, other, not_false_eq_true, if_true, handle_put here rfl, back, run_pure]

end Moving

section Contents

variable {l : Limit} {f : Files} {cur : Nat} {parent : Nat → Nat} {records : Nat → List Record} (sound : Sound f parent records)
  (resting : Resting f cur) {name : Name} (proper : 0 ∉ name)
include sound resting proper

theorem get_file_inode_run : run (handle l) (testfs_get_file_inode cur name) f = match lookup (records cur) name with
    | none => .ok ((-ENOENT, 0), f)
    | some nr => if f.IsDir nr then .ok ((-EISDIR, 0), f) else .ok ((0, nr), f.get nr) := by
  have search := dir_name_to_inode_nr_run (l := l) sound resting proper
  cases found : lookup (records cur) name with
  | none =>
      have negative : reply none < 0 := by decide
      rw [found] at search
      simp only [testfs_get_file_inode, run_bind, search, Result.ok_bind, negative, if_true, run_pure]
      rfl
  | some nr =>
      have low := (sound.lookup_used resting.dir found).1
      have good : ¬ (nr : Int) < 0 := not_lt.mpr (Int.natCast_nonneg nr)
      obtain ⟨count, here, back⟩ := held_get resting nr
      rw [found, show reply (some nr) = (nr : Int) from rfl] at search
      by_cases dir : f.IsDir nr
      · have same : ((f.get nr).node nr).i_type = I_DIR.code := dir
        simp only [testfs_get_file_inode, run_bind, search, Result.ok_bind, good, if_false, Int.toNat_natCast, run_call,
          handle_get low, handle_inode_type here, same, if_true, handle_put here rfl, back, run_pure, dir]
      · have other : ((f.get nr).node nr).i_type ≠ I_DIR.code := dir
        simp only [testfs_get_file_inode, run_bind, search, Result.ok_bind, good, if_false, Int.toNat_natCast, run_call,
          handle_get low, handle_inode_type here, other, run_pure, dir]

inductive Writes (f : Files) (cur : Nat) (records : Nat → List Record) (name : Name) (text : List UInt8) (start : Nat) :
    Int → Files → Prop
  | absent : lookup (records cur) name = none → Writes f cur records name text start (-ENOENT) f
  | directory {nr : Nat} : lookup (records cur) name = some nr → f.IsDir nr → Writes f cur records name text start (-EISDIR) f
  | wrote {nr : Nat} {f' : Files} : lookup (records cur) name = some nr → ¬ f.IsDir nr →
      f'.node = Function.update f.node nr ((f.node nr).write text start) → f'.inode_freemap = f.inode_freemap →
      f'.held = f.held → Writes f cur records name text start (wrap32 text.length) f'

theorem write_run {offset text : Name} {start : Nat} (number : str_to_offset offset = .ok (start : Int)) (some : text ≠ [])
    (fits : start + text.length ≤ l.bytes) :
    ∃ ret f', run (handle l) (cmd_write cur [name, offset, text]) f = .ok (ret, f') ∧ Writes f cur records name text start ret f' := by
  have file := get_file_inode_run (l := l) sound resting proper
  have low : ¬ (start : Int) < 0 := not_lt.mpr (Int.natCast_nonneg start)
  have good : ¬ (0 : Int) < 0 := by omega
  simp only [cmd_write, number, low, if_false]
  cases found : lookup (records cur) name with
  | none =>
      have negative : -ENOENT < 0 := by decide
      rw [found] at file
      exact ⟨_, _, by simp only [run_bind, file, Result.ok_bind, negative, if_true, run_pure], .absent found⟩
  | some nr =>
      rw [found] at file
      by_cases dir : f.IsDir nr
      · have negative : -EISDIR < 0 := by decide
        exact ⟨_, _, by simp only [run_bind, file, dir, if_true, Result.ok_bind, negative, run_pure], .directory found dir⟩
      obtain ⟨count, here, back⟩ := held_get resting nr
      have inside : ¬ ((start : Int) < 0 ∨ text = [] ∨ (l.bytes : Int) < start + text.length) := by
        rintro (below | none | high)
        · exact low below
        · exact some none
        · omega
      have written : handle l (.testfs_write_data nr text start) (f.get nr) = .ok (wrap32 text.length, (f.get nr).write nr text start) := by
        simp only [handle, testfs_write_data, inode_eq here, Result.ok_bind, inside, if_false, Int.toNat_natCast]
        rfl
      have held : ((f.get nr).write nr text start).held nr = .some (count, true) := by simp [write, here]
      have held' : (((f.get nr).write nr text start).setDirty nr false).held nr = .some (count, false) := by simp [held]
      refine ⟨_, ((((f.get nr).write nr text start).setDirty nr false).put nr), ?_, .wrote found dir rfl rfl ?_⟩
      · simp only [run_bind, file, dir, if_false, Result.ok_bind, good, run_call, written, handle_sync held, handle_put held' rfl,
          run_pure]
      · have same : (((f.get nr).write nr text start).setDirty nr false).held = (f.get nr).held := by
          rw [held_setDirty, held, write, held_setDirty, held_setNode, here, Option.map_some, Option.map_some,
            Function.update_idem, ← here, Function.update_eq_self]
        have puts : (((f.get nr).write nr text start).setDirty nr false).put nr =
            { ((f.get nr).put nr) with node := ((f.get nr).write nr text start).node } := by
          simp only [put, setHeld, same]
          rfl
        rw [puts, back]

omit sound resting proper in
def answer (malloc : Nat → Option Bytes.Memory) (n : Node) (start size : Nat) : Int × List Output :=
  if n.i_size < (start + size : Nat) then (-EINVAL, [])
  else if malloc (size + 1) = none then (-ENOMEM, [])
  else (size, [.text ((Bytes.slice n.content start size).takeWhile (· ≠ 0))])

theorem read_run (malloc : Nat → Option Bytes.Memory) {offset size : Name} {start len : Nat}
    (number : str_to_offset offset = .ok (start : Int)) (number' : str_to_size size = .ok len)
    (window : start + len < l.bytes) (short : len < 2 ^ 31) (whole : ¬ EndsWhole start len) :
    run (handle l) (cmd_read malloc cur [name, offset, size]) f = .ok (match lookup (records cur) name with
      | none => (-ENOENT, [])
      | some nr => if f.IsDir nr then (-EISDIR, []) else answer malloc (f.node nr) start len, f) := by
  have file := get_file_inode_run (l := l) sound resting proper
  have low : ¬ (start : Int) < 0 := not_lt.mpr (Int.natCast_nonneg start)
  have good : ¬ (0 : Int) < 0 := by omega
  simp only [cmd_read, number, number', low, if_false]
  cases found : lookup (records cur) name with
  | none =>
      have negative : -ENOENT < 0 := by decide
      rw [found] at file
      simp only [run_bind, file, Result.ok_bind, negative, if_true, run_pure]
  | some nr =>
      rw [found] at file
      by_cases dir : f.IsDir nr
      · have negative : -EISDIR < 0 := by decide
        simp only [run_bind, file, dir, if_true, Result.ok_bind, negative, run_pure]
      obtain ⟨count, here, back⟩ := held_get resting nr
      have high := l.high
      simp only [MAX_FILE_SIZE] at high
      have sum : wrap64 ((start : Int) + wrap64 len) = (start + len : Nat) := by
        rw [wrap64_eq (Int.natCast_nonneg len) (by omega), wrap64_eq (by omega) (by omega), Int.natCast_add]
      have room : sizeT ((len : Int) + 1) = len + 1 := by
        simp only [sizeT]
        omega
      have size : handle l (.testfs_inode_get_size nr) (f.get nr) = .ok ((f.node nr).i_size, f.get nr) := handle_inode_size here
      have put := handle_put (l := l) here rfl
      rw [back] at put
      by_cases short' : (f.node nr).i_size < (start + len : Nat)
      · simp only [run_bind, file, dir, if_false, Result.ok_bind, good, run_call, size, sum, short', if_true, put, run_pure, answer]
      by_cases none : malloc (len + 1) = none
      · simp only [run_bind, file, dir, if_false, Result.ok_bind, good, run_call, size, sum, short', room, none, put, run_pure,
          answer, if_true]
      obtain ⟨buf, some⟩ := Option.ne_none_iff_exists'.mp none
      have reads : ((f.get nr).node nr).Reads l start len := by
        refine ⟨Int.natCast_nonneg start, ?_, short, by omega, whole⟩
        change (start : Int) + len ≤ (f.node nr).i_size
        omega
      have read : handle l (.testfs_read_data nr start len) (f.get nr) =
          .ok ((len, Bytes.slice (f.node nr).content start len), f.get nr) := by
        rw [handle, testfs_read_data, inode_eq here, Result.ok_bind, Node.read, if_pos reads]
        rfl
      have fits : ¬ len + 1 < len ∧ ¬ len + 1 ≤ len ∧ ¬ (len : Int) < 0 := by omega
      have kept : Bytes.slice (Bytes.splice (Bytes.splice buf 0 (Bytes.slice (f.node nr).content start len)) len [0]) 0 len =
          Bytes.slice (f.node nr).content start len := by
        rw [Bytes.slice_splice_other (Or.inl (by omega))]
        have whole := Bytes.slice_splice_self buf 0 (Bytes.slice (f.node nr).content start len)
        rwa [Bytes.length_slice] at whole
      simp only [run_bind, file, dir, if_false, Result.ok_bind, good, run_call, size, sum, short', room, some, read,
        Bytes.length_slice, fits, put, run_pure, answer, reduceCtorEq, kept]

end Contents

end Files

end OperatingSystem.Fs
