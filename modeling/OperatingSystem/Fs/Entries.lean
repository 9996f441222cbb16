import OperatingSystem.Fs.Histories

namespace OperatingSystem.Fs

open Prog Transition InodeType
open Result (bind_eq_ok)

section Records

variable {r : Record} {records : List Record} {name other : Name} {nr : Nat}

theorem lookup_enter (live : r.Live) (distinct : (names records).Nodup) (fresh : r.name ∉ names records) :
    lookup (enter r records) = Function.update (lookup records) r.name (some r.number) := by
  have distinct' : (names (enter r records)).Nodup := (names_enter live).nodup_iff.mpr (List.nodup_cons.mpr ⟨fresh, distinct⟩)
  funext other
  apply Option.ext
  intro m
  rw [lookup_eq_some distinct', named_enter live]
  by_cases new : other = r.name
  · subst new
    have absent : ¬ Named records r.name m := fun named => fresh named.mem_names
    rw [Function.update_self, Option.some_inj, or_iff_left absent, and_iff_right rfl]
  · rw [Function.update_of_ne new, lookup_eq_some distinct]
    exact or_iff_right fun same => new same.1.symm

theorem lookup_bury (distinct : (names records).Nodup) (present : lookup records name = some nr) :
    lookup (bury name records) = Function.update (lookup records) name none := by
  have distinct' : (names (bury name records)).Nodup := (List.nodup_cons.mp ((names_bury present).nodup_iff.mpr distinct)).2
  funext other
  apply Option.ext
  intro m
  rw [lookup_eq_some distinct', named_bury distinct present]
  by_cases gone : other = name
  · subst gone
    rw [Function.update_self]
    exact iff_of_false (fun named => named.1 rfl) nofun
  · rw [Function.update_of_ne gone, lookup_eq_some distinct]
    exact and_iff_right gone

end Records

/-- What the commands that change a directory answer, and what they do to its map. -/
def Command.Maps (m : Name → Option Nat) (name : Name) (ret : Int) (m' : Name → Option Nat) : Command → Prop
  | .create | .mkdir =>
      if m name ≠ none then ret = -EEXIST ∧ m' = m
      else ret = -ENOSPC ∧ m' = m ∨ ret = 0 ∧ ∃ nr, (∀ other, m other ≠ some nr) ∧ m' = Function.update m name (some nr)
  | .rm =>
      if name = dot ∨ name = dotdot then ret = -EINVAL ∧ m' = m
      else if m name = none then ret = -ENOENT ∧ m' = m
      else ret = -ENOTEMPTY ∧ m' = m ∨ ret = 0 ∧ m' = Function.update m name none
  | _ => False

def Edits (m : Name → Option Nat) : Action × Answer → (Name → Option Nat) → Prop
  | (.command issued, .command ret out), m' => ∃ name, issued.args = [name] ∧ issued.command.Maps m name ret m' ∧ out = []
  | _, _ => False

def Action.Edits : Action → Prop
  | .command issued => (issued.command = .create ∨ issued.command = .mkdir ∨ issued.command = .rm) ∧ ∃ name, issued.args = [name]
  | _ => False

namespace Session

variable {l : Limit} {c c' : Session}

/-- What `testfs_dir_name_to_inode_nr` finds in the current directory; a name is a string. -/
def entries (c : Session) (name : Name) : Option Nat :=
  if 0 ∈ name then none else
    match run Testfs.handle (testfs_dir_name_to_inode_nr c.cur_dir name) c.fs with
    | .ok (nr, _) => if nr < 0 then none else some nr.toNat
    | .error _ => none

def listed (records : List Record) (name : Name) : Option Nat := if 0 ∈ name then none else lookup records name

section Looking

variable {f : Files} {parent : Nat → Nat} {records : Nat → List Record} (same : Represents c.fs f) (good : ¬ c.fs.Failed)
  (sound : Sound f parent records) (resting : Resting f c.cur_dir)
include same good sound resting

theorem entries_eq : c.entries = listed (records c.cur_dir) := by
  funext name
  unfold entries listed
  split_ifs with improper
  · rfl
  obtain ⟨u, ran, -⟩ := search_returns same good sound resting improper
  rw [ran]
  cases lookup (records c.cur_dir) name with
  | none => rfl
  | some nr =>
      have positive : ¬ reply (some nr) < 0 := not_lt.mpr (Int.natCast_nonneg nr)
      simp only [positive, if_false]
      rfl

end Looking

theorem listed_update {records records' : List Record} {name : Name} {value : Option Nat} (proper : 0 ∉ name)
    (changed : lookup records' = Function.update (lookup records) name value) :
    listed records' = Function.update (listed records) name value := by
  funext other
  rw [listed, changed]
  by_cases here : other = name
  · subst here
    rw [Function.update_self, Function.update_self, if_neg proper]
  · rw [Function.update_of_ne here, Function.update_of_ne here, listed]

section Step

variable {f : Files} {parent : Nat → Nat} {records : Nat → List Record} {cur nr : Nat} {name : Name} (sound : Sound f parent records)
  (resting : Resting f cur) (proper : 0 ∉ name)
include sound resting proper

omit sound resting in
theorem listed_ne_none : listed (records cur) name ≠ none ↔ name ∈ names (records cur) := by
  rw [listed, if_neg proper, ne_eq, lookup_eq_none, not_not]

omit proper in
theorem listed_used {other : Name} (found : listed (records cur) other = some nr) : f.Used nr := by
  unfold listed at found
  split_ifs at found
  exact sound.lookup_used resting.dir found

theorem creates_maps {brief : name.length < BLOCK_SIZE} {type : InodeType} {ret : Int} {f' : Files}
    (creates : Files.Creates f cur (records cur) name brief type ret f') : ∃ parent' records', Sound f' parent' records' ∧ Resting f' cur ∧
      if listed (records cur) name ≠ none then ret = -EEXIST ∧ listed (records' cur) = listed (records cur)
      else ret = -ENOSPC ∧ listed (records' cur) = listed (records cur) ∨ ret = 0 ∧ ∃ nr,
        (∀ other, listed (records cur) other ≠ some nr) ∧ listed (records' cur) = Function.update (listed (records cur)) name (some nr) := by
  have dir := resting.dir
  cases creates with
  | exists_already present =>
      refine ⟨parent, records, sound, resting, ?_⟩
      rw [if_pos ((listed_ne_none proper).mpr present)]
      exact ⟨rfl, rfl⟩
  | full fresh full =>
      refine ⟨parent, records, sound, resting, ?_⟩
      rw [if_neg fun there => fresh ((listed_ne_none proper).mp there)]
      exact Or.inl ⟨rfl, rfl⟩
  | @made nr _ below fresh low unused least grows held typed =>
      have small : nr < 2 ^ 31 := by
        simp only [NR_INODES] at low
        omega
      have named : (Record.made name nr brief).name = name := Record.name_made brief proper
      have live : (Record.made name nr brief).Live := Record.live_made brief small
      have number : (Record.made name nr brief).number = nr := Record.number_made brief small
      have fresh' : (Record.made name nr brief).name ∉ names (records cur) := by rwa [named]
      have dir' : f'.Dir cur := ⟨(grows.used cur).mpr (Or.inl dir.1), grows.directory.type⟩
      have apart : cur ≠ nr := by
        rintro rfl
        exact unused dir.1
      refine ⟨_, _, sound.grow dir unused fresh' live number grows, ⟨dir', held.trans resting.held⟩, ?_⟩
      rw [if_neg fun there => fresh ((listed_ne_none proper).mp there)]
      refine Or.inr ⟨rfl, nr, fun other found => unused (listed_used sound resting found), ?_⟩
      rw [Function.update_of_ne apart, Function.update_self]
      refine listed_update proper ?_
      rw [lookup_enter live (sound.distinct cur dir) fresh', named, number]

theorem removes_maps {ret : Int} {f' : Files} (removes : Files.Removes f cur records name ret f') :
    ∃ parent' records', Sound f' parent' records' ∧ Resting f' cur ∧
      if name = dot ∨ name = dotdot then ret = -EINVAL ∧ listed (records' cur) = listed (records cur)
      else if listed (records cur) name = none then ret = -ENOENT ∧ listed (records' cur) = listed (records cur)
      else ret = -ENOTEMPTY ∧ listed (records' cur) = listed (records cur) ∨
        ret = 0 ∧ listed (records' cur) = Function.update (listed (records cur)) name none := by
  have dir := resting.dir
  have absent_iff : listed (records cur) name = none ↔ lookup (records cur) name = none := by rw [listed, if_neg proper]
  cases removes with
  | special special =>
      refine ⟨parent, records, sound, resting, ?_⟩
      rw [if_pos special]
      exact ⟨rfl, rfl⟩
  | absent own up absent =>
      refine ⟨parent, records, sound, resting, ?_⟩
      rw [if_neg (not_or.mpr ⟨own, up⟩), if_pos (absent_iff.mpr (lookup_eq_none.mpr absent))]
      exact ⟨rfl, rfl⟩
  | occupied own up present type inside =>
      refine ⟨parent, records, sound, resting, ?_⟩
      rw [if_neg (not_or.mpr ⟨own, up⟩), if_neg fun none => by cases (absent_iff.mp none).symm.trans present]
      exact Or.inl ⟨rfl, rfl⟩
  | @removed nr _ own up present bare shrinks held =>
      have apart : cur ≠ nr := by
        rintro rfl
        obtain ⟨-, used, positive, above⟩ := sound.named_child dir present own up
        exact sound.parent_ne used positive above
      have dir' : f'.Dir cur := ⟨(shrinks.used cur).mpr ⟨dir.1, apart⟩, shrinks.directory.type⟩
      refine ⟨_, _, sound.shrink dir present own up bare shrinks, ⟨dir', held.trans resting.held⟩, ?_⟩
      rw [if_neg (not_or.mpr ⟨own, up⟩), if_neg fun none => by cases (absent_iff.mp none).symm.trans present]
      refine Or.inr ⟨rfl, ?_⟩
      rw [Function.update_self]
      exact listed_update proper (lookup_bury (sound.distinct cur dir) present)

end Step

theorem proceeds_as {f f' : Files} {issued : Issued} {ret ret' : Int} {out out' : List Output} {cur' : Nat} (same : Represents c.fs f)
    (good : ¬ c.fs.Failed) (next : c.Proceeds l (.command issued, .command ret out) c')
    (ran : run (Files.handle l) (issued.command.func issued.env c.cur_dir issued.args) f = .ok ((ret', cur', out'), f')) :
    ret = ret' ∧ out = out' ∧ c'.cur_dir = cur' ∧ Represents c'.fs f' := by
  obtain ⟨⟨u, r, o⟩, handled, rest⟩ := bind_eq_ok.mp next.taken
  cases rest
  obtain ⟨⟨⟨r, cur, o⟩, fs⟩, called, rest⟩ := bind_eq_ok.mp handled
  cases rest
  rcases (handle_agrees l).follow (handle_follows l) _ same good ran with ⟨ended, -, last⟩ | meets | ⟨ended, -⟩
  · cases called.symm.trans ended
    exact ⟨rfl, rfl, rfl, last⟩
  · exact absurd ((handle_agrees l).meets_last meets called) next.stored
  · cases called.symm.trans ended

theorem edits {v : Namespace} {label : Action × Answer} (shows : c.Shows v) (good : ¬ c.fs.Failed) (next : c.Proceeds l label c')
    (edit : label.1.Edits) : c'.cur_dir = c.cur_dir ∧ Edits c.entries label c'.entries := by
  obtain ⟨action, answer⟩ := label
  cases action with
  | fsstat | restart => cases edit
  | command issued =>
  obtain ⟨⟨u, ret, out⟩, -, rest⟩ := bind_eq_ok.mp next.taken
  cases rest
  have allows := next.allowed v shows
  obtain ⟨f, same, -, parent, records, shown⟩ := shows
  have sound := shown.sound
  have resting := shown.resting
  have size : (f.node c.cur_dir).i_size = c.size := (same.node c.cur_dir resting.dir.1.1).i_size
  have before := entries_eq same good sound resting
  obtain ⟨env, command, args, strings⟩ := issued
  obtain ⟨kind, name, rfl⟩ := edit
  have proper := strings name (by simp)
  -- what the command does to the bytes decides the entries afterwards
  have finish {ret' : Int} {f' : Files} (ran : run (Files.handle l) (command.func env c.cur_dir [name]) f = .ok ((ret', c.cur_dir, []), f'))
      (maps : ∃ parent' records', Sound f' parent' records' ∧ Resting f' c.cur_dir ∧
        command.Maps (listed (records c.cur_dir)) name ret' (listed (records' c.cur_dir))) :
      c'.cur_dir = c.cur_dir ∧ Edits c.entries (.command ⟨env, command, [name], strings⟩, .command ret out) c'.entries := by
    obtain ⟨rfl, rfl, stays, last⟩ := proceeds_as same good next ran
    obtain ⟨parent', records', sound', resting', maps⟩ := maps
    have after := entries_eq last next.stored sound' (stays ▸ resting')
    rw [stays] at after
    exact ⟨stays, name, rfl, by rw [before, after]; exact maps, rfl⟩
  rcases kind with rfl | rfl | rfl
  · rw [← size] at allows
    obtain ⟨ret', f', ran, creates⟩ := Files.create_run (l := l) sound resting proper I_FILE allows.1 (Or.inl rfl) allows.2
    refine @finish ret' f' ?_ (creates_maps sound resting proper creates)
    simp only [Command.func, cmd_create, run_bind, ran, Result.ok_bind, run_pure]
  · rw [← size] at allows
    obtain ⟨ret', f', ran, creates⟩ := Files.create_run (l := l) sound resting proper I_DIR allows.1 (Or.inr rfl) allows.2
    refine @finish ret' f' ?_ (creates_maps sound resting proper creates)
    simp only [Command.func, cmd_mkdir, run_bind, ran, Result.ok_bind, run_pure]
  · obtain ⟨ret', f', ran, removes⟩ := Files.rm_run (l := l) sound resting proper
    refine @finish ret' f' ?_ (removes_maps sound resting proper removes)
    simp only [Command.func, run_bind, ran, Result.ok_bind, run_pure]

/-- From any state a history reaches, commands that change the current directory go along with a map from names to inode numbers. -/
theorem history_entries {dev : Disk} {fs_size_mb : UInt64} {first : Session} {labels more : List (Action × Answer)}
    (made : fresh dev fs_size_mb = .ok first) (run : Run (Proceeds l) first labels c) (later : Run (Proceeds l) c more c')
    (edit : ∀ label ∈ more, label.1.Edits) : c'.cur_dir = c.cur_dir ∧ Run Edits c.entries more c'.entries := by
  obtain ⟨v, -, shows, fine⟩ := followed made run
  have followed := later.history (fun more t => (∃ v, t.Shows v) ∧ ¬ t.fs.Failed ∧
    ((∀ label ∈ more, label.1.Edits) → t.cur_dir = c.cur_dir ∧ Run Edits c.entries more t.entries))
    ⟨⟨v, shows⟩, fine, fun _ => ⟨rfl, .start⟩⟩ ?_
  · exact followed.2.2 edit
  rintro more t label u ⟨⟨v, shows⟩, fine, before⟩ next
  obtain ⟨v', -, shows'⟩ := answers shows fine next
  refine ⟨⟨v', shows'⟩, next.stored, fun edit => ?_⟩
  obtain ⟨stays, entered⟩ := before fun label member => edit label (List.mem_append_left _ member)
  obtain ⟨stays', edited⟩ := edits shows fine next (edit label (List.mem_append_right _ List.mem_cons_self))
  exact ⟨stays'.trans stays, .step entered edited⟩

theorem history_entries_mkdir : ∃ c c' ret out, fresh (fun _ => zero) 1 = .ok c ∧
    Run (Proceeds .near) c [(.command mkdirA, .command ret out)] c' ∧ c'.cur_dir = c.cur_dir ∧
    Run Edits c.entries [(.command mkdirA, .command ret out)] c'.entries := by
  obtain ⟨c, c', ret, out, made, -, -, next⟩ := mkdir_proceeds .near
  have later : Run (Proceeds .near) c [(.command mkdirA, .command ret out)] c' := .single next
  refine ⟨c, c', ret, out, made, later, history_entries made .start later fun label member => ?_⟩
  rw [List.mem_singleton.mp member]
  exact ⟨Or.inr (Or.inl rfl), [97], rfl⟩

end Session

end OperatingSystem.Fs
