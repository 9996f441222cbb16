import OperatingSystem.Fs.FileListing

namespace OperatingSystem.Fs

open Prog InodeType

/-- What the tree of names says nothing about: a directory that needs double-indirect blocks, a name as long as a block, a listing that is too
deep, `ls` of a file, and reads and writes past a limit.  `size` is that of the current directory. -/
def Namespace.Fits (l : Limit) (v : Namespace) (env : Environment) (size : Int) : Command → List Name → Prop
  | .create, [name] => name.length < BLOCK_SIZE ∧ size + (9 + name.length : Nat) < NEAR_FILE_SIZE
  | .mkdir, [name] => name.length < BLOCK_SIZE ∧ size + (9 + name.length : Nat) < NEAR_FILE_SIZE
  | .pwd, [] => v.cwd.length < env.depth
  | .ls, [name] => 0 < env.depth ∧ ∀ content, v.find name ≠ some (.file content)
  | .lsr, [name] => (∀ q, v.tree (v.path name ++ q) ≠ none → q.length < env.depth) ∧ ∀ content, v.find name ≠ some (.file content)
  | .write, [_, offset, text] => text ≠ [] ∧ ∀ start, str_to_offset offset = .ok start → start + text.length ≤ l.bytes
  | .read, [_, offset, size] => ∀ start len, str_to_offset offset = .ok start → str_to_size size = .ok len →
      start + len < l.bytes ∧ len < 2 ^ 31 ∧ ¬ EndsWhole start len
  | _, _ => True

namespace Files

/-- The files are seen as `v` from the directory `cur`. -/
structure Shows (f : Files) (parent : Nat → Nat) (records : Nat → List Record) (cur : Nat) (v : Namespace) : Prop where
  sound : Sound f parent records
  resting : Resting f cur
  tree : v.tree = f.tree records
  cwd : f.walk records v.cwd = some cur

def Shown (f : Files) (cur : Nat) (v : Namespace) : Prop := ∃ parent records, f.Shows parent records cur v

section Seeing

variable {l : Limit} {f f' : Files} {parent : Nat → Nat} {records : Nat → List Record} {cur nr : Nat} {v : Namespace} {name : Name}
  (shows : f.Shows parent records cur v)
include shows

theorem path_eq (present : lookup (records cur) name = some nr) : f.walk records (v.path name) = some nr := by
  have dir := shows.resting.dir
  have distinct := shows.sound.distinct cur dir
  have named := (lookup_eq_some distinct).mp present
  rw [Namespace.path]
  by_cases own : name = dot
  · subst own
    obtain rfl := named.unique distinct (shows.sound.self cur dir)
    rw [if_pos rfl, shows.cwd]
  by_cases up : name = dotdot
  · subst up
    obtain rfl := named.unique distinct (shows.sound.up cur dir)
    rw [if_neg own, if_pos rfl]
    have here := shows.cwd
    rcases List.eq_nil_or_concat v.cwd with root | ⟨p, last, snoc⟩
    · rw [root] at here ⊢
      obtain rfl := Option.some.inj here
      rw [shows.sound.top]
      rfl
    · rw [snoc, List.concat_eq_append] at here ⊢
      rw [walk_snoc] at here
      obtain ⟨d, above, found⟩ := Option.bind_eq_some_iff.mp here
      rw [List.dropLast_concat, above, (child_used shows.sound (walk_used shows.sound above) found).2.2]
  · rw [if_neg own, if_neg up, walk_snoc_eq shows.cwd, child, if_pos ⟨dir.2, own, up⟩, present]

theorem find_eq : v.find name = (lookup (records cur) name).map f.entry := by
  rw [Namespace.find, shows.tree]
  cases present : lookup (records cur) name with
  | some nr => rw [tree, path_eq shows present]
  | none =>
      have dir := shows.resting.dir
      have absent := lookup_eq_none.mp present
      have own : name ≠ dot := by
        rintro rfl
        exact absent (shows.sound.self cur dir).mem_names
      have up : name ≠ dotdot := by
        rintro rfl
        exact absent (shows.sound.up cur dir).mem_names
      rw [Namespace.path, if_neg own, if_neg up, tree, walk_snoc_eq shows.cwd, child, if_pos ⟨dir.2, own, up⟩, present]

theorem path_fresh (absent : name ∉ names (records cur)) : v.path name = v.cwd ++ [name] := by
  have dir := shows.resting.dir
  have own : name ≠ dot := by
    rintro rfl
    exact absent (shows.sound.self cur dir).mem_names
  have up : name ≠ dotdot := by
    rintro rfl
    exact absent (shows.sound.up cur dir).mem_names
  rw [Namespace.path, if_neg own, if_neg up]

theorem full_shows : v.Full ↔ ∀ nr, nr < NR_INODES → f.Used nr := by
  rw [Namespace.Full, shows.tree, full_iff shows.sound]

end Seeing

theorem entry_congr {f f' : Files} {e : Nat} (same : f'.node e = f.node e ∨ f'.IsDir e ∧ f.IsDir e) : f'.entry e = f.entry e := by
  rcases same with same | ⟨dir', dir⟩
  · have isDir : f'.IsDir e ↔ f.IsDir e := by rw [IsDir, same, IsDir]
    simp only [entry, isDir, same]
  · rw [entry_eq_dir.mpr dir', entry_eq_dir.mpr dir]

section Making

variable {l : Limit} {f f' : Files} {parent : Nat → Nat} {records : Nat → List Record} {cur : Nat} {v : Namespace} {name : Name}
  (shows : f.Shows parent records cur v) (proper : 0 ∉ name)
include shows

include proper

theorem creates_does {type : InodeType} {brief : name.length < BLOCK_SIZE} {ret : Int} {made : Entry}
    (kind : made = if type.code = I_DIR.code then .dir else .file []) (creates : Creates f cur (records cur) name brief type ret f') :
    ∃ v', (ret, v') = v.make made name ∧ f'.Shown cur v' := by
  have found : v.find name = (lookup (records cur) name).map f.entry := find_eq shows
  cases creates with
  | exists_already present =>
      have some : v.find name ≠ none := by
        rw [found, ne_eq, Option.map_eq_none_iff, lookup_eq_none]
        exact not_not_intro present
      exact ⟨v, by rw [Namespace.make, if_pos some], parent, records, shows⟩
  | full fresh full =>
      have none : ¬ v.find name ≠ none := by simp [found, lookup_eq_none.mpr fresh]
      exact ⟨v, by rw [Namespace.make, if_neg none, if_pos ((full_shows shows).mpr full)], parent, records, shows⟩
  | @made nr _ below fresh low unused least grows held typed =>
      have sound := shows.sound
      have dir := shows.resting.dir
      have none : ¬ v.find name ≠ none := by simp [found, lookup_eq_none.mpr fresh]
      have room : ¬ v.Full := fun full => unused ((full_shows shows).mp full nr low)
      have small : nr < 2 ^ 31 := by
        simp only [NR_INODES] at low
        omega
      have named : (Record.made name nr brief).name = name := Record.name_made brief proper
      have live : (Record.made name nr brief).Live := Record.live_made brief small
      have number : (Record.made name nr brief).number = nr := Record.number_made brief small
      have fresh' : (Record.made name nr brief).name ∉ names (records cur) := by rwa [named]
      have walked := walk_grow sound shows.cwd dir unused fresh' live number grows
      rw [named] at walked
      have dir' : f'.Dir cur := ⟨(grows.used cur).mpr (Or.inl dir.1), grows.directory.type⟩
      have newest : f'.entry nr = made := by
        rw [kind, entry, if_congr (show f'.IsDir nr ↔ type.code = I_DIR.code by rw [IsDir, typed]) rfl rfl]
        rcases grows.new with file | directory
        · rw [file]
          rfl
        · rw [if_pos (typed.symm.trans directory.1.type), if_pos (typed.symm.trans directory.1.type)]
      refine ⟨{ v with tree := Function.update v.tree (v.path name) (some made) }, by rw [Namespace.make, if_neg none, if_neg room],
        _, _, sound.grow dir unused fresh' live number grows, ⟨dir', held.trans shows.resting.held⟩, ?_, ?_⟩
      · funext p
        rw [path_fresh shows fresh, shows.tree, tree, walked]
        change Function.update (f.tree records) (v.cwd ++ [name]) (some made) p = _
        by_cases new : p = v.cwd ++ [name]
        · rw [new, Function.update_self, if_pos rfl, Option.map_some, newest]
        · rw [Function.update_of_ne new, if_neg new, tree]
          cases here : f.walk records p with
          | none => rfl
          | some e =>
              have used := walk_used sound here
              have old : e ≠ nr := by
                rintro rfl
                exact unused used
              have same : f'.node e = f.node e ∨ f'.IsDir e ∧ f.IsDir e := by
                by_cases grown : e = cur
                · exact Or.inr (grown ▸ ⟨dir'.2, dir.2⟩)
                · exact Or.inl (grows.others e grown old)
              rw [Option.map_some, Option.map_some, entry_congr same]
      · rw [walked, if_neg (by simp)]
        exact shows.cwd

theorem make_does {type : InodeType} {made : Entry} (brief : name.length < BLOCK_SIZE) (kind : type = I_FILE ∧ made = .file [] ∨ type = I_DIR ∧ made = .dir)
    (room : (f.node cur).i_size + (9 + name.length : Nat) < NEAR_FILE_SIZE) : ∃ ret f' v',
      run (handle l) (testfs_create_file_or_dir cur type name) f = .ok (ret, f') ∧ (ret, v') = v.make made name ∧ f'.Shown cur v' := by
  obtain ⟨ret, f', ran, creates⟩ := create_run (l := l) shows.sound shows.resting proper type brief (kind.imp And.left And.left) room
  have code : made = if type.code = I_DIR.code then .dir else .file [] := by
    rcases kind with ⟨rfl, rfl⟩ | ⟨rfl, rfl⟩
    · rfl
    · rfl
  obtain ⟨v', made, shown⟩ := creates_does shows proper code creates
  exact ⟨ret, f', v', ran, made, shown⟩

theorem remove_does : ∃ ret f' v', run (handle l) (cmd_rm cur [name]) f = .ok (ret, f') ∧ (ret, v') = v.remove name ∧ f'.Shown cur v' := by
  have sound := shows.sound
  have dir := shows.resting.dir
  have found : v.find name = (lookup (records cur) name).map f.entry := find_eq shows
  obtain ⟨ret, f', ran, removes⟩ := rm_run (l := l) sound shows.resting proper
  cases removes with
  | special special => exact ⟨_, _, v, ran, by rw [Namespace.remove, if_pos special], parent, records, shows⟩
  | absent own up absent =>
      have special : ¬ (name = dot ∨ name = dotdot) := not_or.mpr ⟨own, up⟩
      have none : v.find name = none := by simp [found, lookup_eq_none.mpr absent]
      exact ⟨_, _, v, ran, by rw [Namespace.remove, if_neg special, if_pos none], parent, records, shows⟩
  | @occupied nr own up present type inside =>
      have special : ¬ (name = dot ∨ name = dotdot) := not_or.mpr ⟨own, up⟩
      have some : ¬ v.find name = none := by simp [found, present]
      have below : ∃ below, v.tree (v.path name ++ [below]) ≠ none := by
        obtain ⟨r, member, child⟩ := inodes_ne_nil.mp inside
        have dirN : f.Dir nr := ⟨sound.lookup_used dir present, type⟩
        have there := (tree_snoc sound dirN (path_eq shows present)).1.mp (mem_names.mpr ⟨r, member, child.1, rfl⟩)
        exact ⟨r.name, by rw [shows.tree]; exact (there.resolve_left child.2.1).resolve_left child.2.2⟩
      exact ⟨_, _, v, ran, by rw [Namespace.remove, if_neg special, if_neg some, if_pos below], parent, records, shows⟩
  | @removed nr _ own up present bare shrinks held =>
      have special : ¬ (name = dot ∨ name = dotdot) := not_or.mpr ⟨own, up⟩
      have some : ¬ v.find name = none := by simp [found, present]
      have here := path_eq shows present
      have path : v.path name = v.cwd ++ [name] := by rw [Namespace.path, if_neg own, if_neg up]
      have none : ¬ ∃ below, v.tree (v.path name ++ [below]) ≠ none := by
        rintro ⟨below, there⟩
        rw [shows.tree, ne_eq, tree_eq_none, walk_snoc_eq here] at there
        obtain ⟨e, there⟩ := Option.ne_none_iff_exists'.mp there
        obtain ⟨type, own', up', inner⟩ := child_eq_some.mp there
        have inside := (sound.named_child ⟨sound.lookup_used dir present, type⟩ inner own' up').1
        rw [bare type] at inside
        cases inside
      have walked := walk_shrink sound shows.cwd dir present own up bare shrinks
      have apart : cur ≠ nr := by
        rintro rfl
        obtain ⟨-, used, positive, above⟩ := sound.named_child dir present own up
        exact sound.parent_ne used positive above
      have dir' : f'.Dir cur := ⟨(shrinks.used cur).mpr ⟨dir.1, apart⟩, shrinks.directory.type⟩
      refine ⟨_, _, { v with tree := Function.update v.tree (v.path name) Option.none }, ran,
        by rw [Namespace.remove, if_neg special, if_neg some, if_neg none], _, _, sound.shrink dir present own up bare shrinks,
        ⟨dir', held.trans shows.resting.held⟩, ?_, ?_⟩
      · funext p
        rw [path, shows.tree, tree, walked]
        change Function.update (f.tree records) (v.cwd ++ [name]) Option.none p = _
        by_cases gone : p = v.cwd ++ [name]
        · rw [gone, Function.update_self, if_pos rfl, Option.map_none]
        · rw [Function.update_of_ne gone, if_neg gone, tree]
          cases there : f.walk records p with
          | none => rfl
          | some e =>
              have other : e ≠ nr := by
                rintro rfl
                exact gone (walk_injective sound there (path ▸ here))
              have same : f'.node e = f.node e ∨ f'.IsDir e ∧ f.IsDir e := by
                by_cases shrunk : e = cur
                · exact Or.inr (shrunk ▸ ⟨dir'.2, dir.2⟩)
                · exact Or.inl (shrinks.others e shrunk other)
              rw [Option.map_some, Option.map_some, entry_congr same]
      · rw [walked, if_neg (by simp)]
        exact shows.cwd

theorem enter_does : ∃ ret cur' f' v', run (handle l) (cmd_cd cur [name]) f = .ok ((ret, cur'), f') ∧ (ret, v') = v.enter name ∧
    f'.Shown cur' v' := by
  have sound := shows.sound
  have found : v.find name = (lookup (records cur) name).map f.entry := find_eq shows
  obtain ⟨ret, cur', f', ran, moves⟩ := cd_run (l := l) sound shows.resting proper
  cases moves with
  | absent absent =>
      rw [absent] at found
      exact ⟨_, _, _, v, ran, by rw [Namespace.enter, found]; rfl, parent, records, shows⟩
  | file present other =>
      rw [present, Option.map_some, entry, if_neg other] at found
      exact ⟨_, _, _, v, ran, by rw [Namespace.enter, found], parent, records, shows⟩
  | @moved nr _ present type node freemap held =>
      rw [present, Option.map_some, entry_eq_dir.mpr type] at found
      have used (m : Nat) : f'.Used m ↔ f.Used m := used_congr freemap
      have isDir (m : Nat) : f'.IsDir m ↔ f.IsDir m := by rw [IsDir, node, IsDir]
      have sound' : Sound f' parent records := sound.congr used (fun m _ => by rw [node]) (fun m => by rw [node]) fun m there other => by
        rw [node]
        exact sound.file m there other
      refine ⟨_, _, _, { v with cwd := v.path name }, ran, by rw [Namespace.enter, found], parent, records, sound',
        ⟨⟨(used _).mpr (sound.lookup_used shows.resting.dir present), (isDir _).mpr type⟩, held⟩, ?_, ?_⟩
      · funext p
        rw [shows.tree, tree, tree, walk_congr isDir]
        congr 1
        funext e
        exact (entry_congr (Or.inl (by rw [node]))).symm
      · rw [walk_congr isDir]
        exact path_eq shows present

end Making

section Contents

variable {m : Bytes.Memory} {n : Node} {start size : Nat} {text : List UInt8}

theorem drop_slice (m : Bytes.Memory) (size start : Nat) : (Bytes.slice m 0 size).drop start = Bytes.slice m start (size - start) := by
  apply List.ext_getElem
  · simp
  · intro i h h'
    rw [List.getElem_drop, Bytes.getElem_slice, Bytes.getElem_slice, Nat.zero_add]

theorem takeD_slice (padded : ∀ i, size ≤ i → m i = 0) : (Bytes.slice m 0 size).takeD start 0 = Bytes.slice m 0 start := by
  rcases Nat.le_total start size with inside | past
  · obtain ⟨more, rfl⟩ := Nat.exists_eq_add_of_le inside
    rw [Bytes.slice_add]
    exact List.takeD_left' (Bytes.length_slice m 0 start)
  · obtain ⟨more, rfl⟩ := Nat.exists_eq_add_of_le past
    have longer (l : List UInt8) (k : Nat) : l.takeD (l.length + k) 0 = l ++ List.replicate k 0 := by
      induction l with
      | nil => simp
      | cons b l ih => simpa [Nat.succ_add] using ih
    have zeros : Bytes.slice m (0 + size) more = List.replicate more 0 := by
      apply List.ext_getElem
      · simp
      · intro i h h'
        rw [Bytes.getElem_slice, List.getElem_replicate]
        exact padded _ (by omega)
    rw [Bytes.slice_add, zeros, ← longer, Bytes.length_slice]

theorem overwrite_slice (file : n.File) :
    Bytes.slice (n.write text start).content 0 (n.write text start).i_size.toNat =
      overwrite (Bytes.slice n.content 0 n.i_size.toNat) start text := by
  have low := file.low
  have whole : (n.write text start).i_size.toNat = start + (text.length + (n.i_size.toNat - (start + text.length))) := by
    simp only [Node.write]
    omega
  rw [whole, overwrite, takeD_slice fun i past => file.padded i (by omega), drop_slice, List.append_assoc, Bytes.slice_add,
    Bytes.slice_add, Nat.zero_add]
  simp only [Node.write]
  rw [Bytes.slice_splice_self, Bytes.slice_splice_other (Or.inl (by omega)), Bytes.slice_splice_other (Or.inr (Nat.le_refl _))]

end Contents

section Using

variable {l : Limit} {f f' : Files} {parent : Nat → Nat} {records : Nat → List Record} {cur : Nat} {v : Namespace} {name : Name}
  (shows : f.Shows parent records cur v) (proper : 0 ∉ name)
include shows proper

theorem write_does {offset text : Name} {start : Nat} (number : str_to_offset offset = .ok (start : Int)) (some : text ≠ [])
    (fits : start + text.length ≤ l.bytes) : ∃ ret f' v', run (handle l) (cmd_write cur [name, offset, text]) f = .ok (ret, f') ∧
      (ret, v') = v.write name start text ∧ f'.Shown cur v' := by
  have sound := shows.sound
  have found : v.find name = (lookup (records cur) name).map f.entry := find_eq shows
  obtain ⟨ret, f', ran, writes⟩ := write_run (l := l) sound shows.resting proper number some fits
  cases writes with
  | absent absent =>
      rw [absent] at found
      exact ⟨_, _, v, ran, by rw [Namespace.write, found]; rfl, parent, records, shows⟩
  | directory present type =>
      rw [present, Option.map_some, entry_eq_dir.mpr type] at found
      exact ⟨_, _, v, ran, by rw [Namespace.write, found], parent, records, shows⟩
  | @wrote nr _ present other node freemap held =>
      have file := sound.file nr (sound.lookup_used shows.resting.dir present) other
      have used (m : Nat) : f'.Used m ↔ f.Used m := used_congr freemap
      have type (m : Nat) : (f'.node m).i_type = (f.node m).i_type := by
        rw [node]
        by_cases here : m = nr
        · rw [here, Function.update_self]
          rfl
        · rw [Function.update_of_ne here]
      have isDir (m : Nat) : f'.IsDir m ↔ f.IsDir m := by rw [IsDir, type, IsDir]
      have kept (m : Nat) (here : m ≠ nr) : f'.node m = f.node m := by rw [node, Function.update_of_ne here]
      have written : f'.node nr = (f.node nr).write text start := by rw [node, Function.update_self]
      have sound' : Sound f' parent records := by
        refine sound.congr used (fun m outside => kept m ?_) type fun m there otherM => ?_
        · rintro rfl
          exact outside ⟨sound.lookup_used shows.resting.dir present, other⟩
        · by_cases here : m = nr
          · rw [here, written]
            exact file.write
          · rw [kept m here]
            exact sound.file m there otherM
      rw [present, Option.map_some, entry, if_neg other] at found
      refine ⟨_, _, { v with tree := Function.update v.tree (v.path name) _ }, ran, by rw [Namespace.write, found], parent, records,
        sound', ⟨⟨(used _).mpr shows.resting.dir.1, (isDir _).mpr shows.resting.dir.2⟩, held.trans shows.resting.held⟩, ?_, ?_⟩
      · funext p
        rw [shows.tree, tree, walk_congr isDir]
        change Function.update (f.tree records) (v.path name) _ p = _
        have there := path_eq shows present
        by_cases here : p = v.path name
        · rw [here, Function.update_self, there, Option.map_some, entry, if_neg (mt (isDir nr).mp other), written, overwrite_slice file]
        · rw [Function.update_of_ne here, tree]
          cases away : f.walk records p with
          | none => rfl
          | some e =>
              have apart : e ≠ nr := by
                rintro rfl
                exact here (walk_injective sound away there)
              rw [Option.map_some, Option.map_some, entry_congr (Or.inl (kept e apart))]
      · rw [walk_congr isDir]
        exact shows.cwd

theorem read_does (malloc : Nat → Option Bytes.Memory) {offset size : Name} {start len : Nat}
    (number : str_to_offset offset = .ok (start : Int)) (number' : str_to_size size = .ok len)
    (window : start + len < l.bytes) (short : len < 2 ^ 31) (whole : ¬ EndsWhole start len) :
    run (handle l) (cmd_read malloc cur [name, offset, size]) f = .ok (v.read malloc name start len, f) := by
  have sound := shows.sound
  have found : v.find name = (lookup (records cur) name).map f.entry := find_eq shows
  rw [read_run sound shows.resting proper malloc number number' window short whole, Namespace.read, found]
  cases present : lookup (records cur) name with
  | none => rfl
  | some nr =>
      simp only [Option.map_some, entry]
      by_cases dir : f.IsDir nr
      · simp only [dir, if_true]
      · have file := sound.file nr (sound.lookup_used shows.resting.dir present) dir
        have low := file.low
        have size : (f.node nr).i_size < (start + len : Nat) ↔ (f.node nr).i_size.toNat < start + len := by omega
        simp only [dir, if_false, answer, Bytes.length_slice, size]
        by_cases past : (f.node nr).i_size.toNat < start + len
        · simp only [past, if_true]
        · have inside : min len ((f.node nr).i_size.toNat - start) = len := by omega
          rw [drop_slice, Bytes.take_slice, inside]

theorem lists_does {recursive : Bool} {depth : Nat} (other : ∀ content, v.find name ≠ some (.file content))
    (deep : v.find name ≠ none → 0 < depth ∧ (recursive = true → ∀ q, v.tree (v.path name ++ q) ≠ none → q.length < depth)) : ∃ ret lines,
      run (handle l) (cmd_ls_internal depth cur recursive [name]) f = .ok ((ret, lines), f) ∧
        v.Lists recursive name ret (lines.map .printed) := by
  have found : v.find name = (lookup (records cur) name).map f.entry := find_eq shows
  cases present : lookup (records cur) name with
  | none =>
      rw [present] at found
      refine ⟨_, _, cmd_ls_absent shows.sound shows.resting proper present, ?_⟩
      rw [Namespace.Lists, found]
      exact ⟨rfl, rfl⟩
  | some nr =>
      rw [present, Option.map_some, entry] at found
      by_cases type : f.IsDir nr
      · rw [if_pos type] at found
        have tree : v = ⟨f.tree records, v.cwd⟩ := by rw [← shows.tree]
        have deep := deep (by simp [found])
        obtain ⟨lines, ran, listing⟩ := @cmd_ls_run l f cur parent records shows.sound shows.resting name recursive depth nr
          (v.path name) v.cwd proper present type (path_eq shows present) ⟨deep.1, fun again q there => deep.2 again q fun none => there
            (tree_eq_none.mp (shows.tree ▸ none))⟩
        rw [← tree] at listing
        refine ⟨_, _, ran, ?_⟩
        rw [Namespace.Lists, found]
        exact ⟨rfl, lines, rfl, listing⟩
      · rw [if_neg type] at found
        exact absurd found (other _)

end Using

/-- What a command does to the files is what it does to the tree of names. -/
theorem command_does {l : Limit} {f : Files} {cur : Nat} {v : Namespace} (shown : f.Shown cur v) (env : Environment) {command : Command}
    {args : List Name} (strings : ∀ arg ∈ args, 0 ∉ arg) (other : command ≠ .stat)
    (fits : v.Fits l env (f.node cur).i_size command args) : ∃ ret cur' out f' v',
      run (handle l) (command.func env cur args) f = .ok ((ret, cur', out), f') ∧ v.Does env ret out v' command args ∧ f'.Shown cur' v' := by
  obtain ⟨parent, records, shows⟩ := shown
  have stays {command : Command} {args : List Name} {ret : Int} {out : List Output}
      (ran : run (handle l) (command.func env cur args) f = .ok ((ret, cur, out), f)) (does : v.Does env ret out v command args) :
      ∃ ret cur' out f' v', run (handle l) (command.func env cur args) f = .ok ((ret, cur', out), f') ∧
        v.Does env ret out v' command args ∧ f'.Shown cur' v' := ⟨ret, cur, out, f, v, ran, does, parent, records, shows⟩
  cases command with
  | cd =>
      rcases args with _ | ⟨name, _ | ⟨second, rest⟩⟩
      · exact stays rfl ⟨rfl, rfl, rfl⟩
      · obtain ⟨ret, cur', f', v', ran, does, shown⟩ := enter_does (l := l) shows (strings name (by simp))
        exact ⟨ret, cur', [], f', v', by simp only [Command.func, run_bind, ran, Result.ok_bind, run_pure], ⟨does, rfl⟩, shown⟩
      · exact stays rfl ⟨rfl, rfl, rfl⟩
  | pwd =>
      rcases args with _ | ⟨name, rest⟩
      · have ran := cmd_pwd_run (l := l) shows.sound shows.resting shows.cwd fits
        exact stays (by simp only [Command.func, run_bind, ran, Result.ok_bind, run_pure]) ⟨rfl, rfl, rfl⟩
      · exact stays rfl ⟨rfl, rfl, rfl⟩
  | ls =>
      rcases args with _ | ⟨name, _ | ⟨second, rest⟩⟩
      · exact stays rfl ⟨rfl, rfl, rfl⟩
      · obtain ⟨ret, lines, ran, does⟩ := @lists_does l f parent records cur v name shows (strings name (by simp)) false env.depth fits.2
          fun _ => ⟨fits.1, fun again => absurd again (by decide)⟩
        exact stays (by simp only [Command.func, cmd_ls, run_bind, ran, Result.ok_bind, run_pure]) ⟨rfl, does⟩
      · exact stays rfl ⟨rfl, rfl, rfl⟩
  | lsr =>
      rcases args with _ | ⟨name, _ | ⟨second, rest⟩⟩
      · exact stays rfl ⟨rfl, rfl, rfl⟩
      · obtain ⟨ret, lines, ran, does⟩ := @lists_does l f parent records cur v name shows (strings name (by simp)) true env.depth fits.2
          fun there => ⟨Nat.zero_lt_of_lt (fits.1 [] (by rwa [List.append_nil])), fun _ => fits.1⟩
        exact stays (by simp only [Command.func, cmd_lsr, run_bind, ran, Result.ok_bind, run_pure]) ⟨rfl, does⟩
      · exact stays rfl ⟨rfl, rfl, rfl⟩
  | create =>
      rcases args with _ | ⟨name, _ | ⟨second, rest⟩⟩
      · exact stays rfl ⟨rfl, rfl, rfl⟩
      · obtain ⟨ret, f', v', ran, does, shown⟩ := make_does (l := l) shows (strings name (by simp)) fits.1 (Or.inl ⟨rfl, rfl⟩) fits.2
        exact ⟨ret, cur, [], f', v', by simp only [Command.func, cmd_create, run_bind, ran, Result.ok_bind, run_pure], ⟨does, rfl⟩,
          shown⟩
      · exact stays rfl ⟨rfl, rfl, rfl⟩
  | stat => exact absurd rfl other
  | rm =>
      rcases args with _ | ⟨name, _ | ⟨second, rest⟩⟩
      · exact stays rfl ⟨rfl, rfl, rfl⟩
      · obtain ⟨ret, f', v', ran, does, shown⟩ := remove_does (l := l) shows (strings name (by simp))
        exact ⟨ret, cur, [], f', v', by simp only [Command.func, run_bind, ran, Result.ok_bind, run_pure], ⟨does, rfl⟩, shown⟩
      · exact stays rfl ⟨rfl, rfl, rfl⟩
  | mkdir =>
      rcases args with _ | ⟨name, _ | ⟨second, rest⟩⟩
      · exact stays rfl ⟨rfl, rfl, rfl⟩
      · obtain ⟨ret, f', v', ran, does, shown⟩ := make_does (l := l) shows (strings name (by simp)) fits.1 (Or.inr ⟨rfl, rfl⟩) fits.2
        exact ⟨ret, cur, [], f', v', by simp only [Command.func, cmd_mkdir, run_bind, ran, Result.ok_bind, run_pure], ⟨does, rfl⟩,
          shown⟩
      · exact stays rfl ⟨rfl, rfl, rfl⟩
  | read =>
      rcases args with _ | ⟨name, _ | ⟨offset, _ | ⟨size, _ | ⟨more, rest⟩⟩⟩⟩
      · exact stays rfl ⟨rfl, rfl, rfl⟩
      · exact stays rfl ⟨rfl, rfl, rfl⟩
      · exact stays rfl ⟨rfl, rfl, rfl⟩
      · cases number : str_to_offset offset with
        | error e => exact stays (by simp only [Command.func, cmd_read, number]; rfl) ⟨rfl, by simp only [number, and_self]⟩
        | ok start =>
            by_cases low : start < 0
            · exact stays (by simp only [Command.func, cmd_read, number, low, if_true]; rfl)
                ⟨rfl, by simp only [number, low, if_true, and_self]⟩
            obtain ⟨start, rfl⟩ := Int.eq_ofNat_of_zero_le (not_lt.mp low)
            cases number' : str_to_size size with
            | error e =>
                exact stays (by simp only [Command.func, cmd_read, number, number', low, if_false]; rfl)
                  ⟨rfl, by simp only [number, number', low, if_false, and_self]⟩
            | ok len =>
                obtain ⟨window, short, whole⟩ := fits start len number number'
                have ran := read_does (l := l) shows (strings name (by simp)) env.malloc number number' (by omega) short whole
                obtain ⟨⟨ret, out⟩, answer⟩ : ∃ answer, v.read env.malloc name start len = answer := ⟨_, rfl⟩
                rw [answer] at ran
                exact stays (by simp only [Command.func, run_bind, ran, Result.ok_bind, run_pure]; rfl)
                  ⟨rfl, by simp only [number, number', low, if_false, Int.toNat_natCast, answer]⟩
      · exact stays rfl ⟨rfl, rfl, rfl⟩
  | write =>
      rcases args with _ | ⟨name, _ | ⟨offset, _ | ⟨text, _ | ⟨more, rest⟩⟩⟩⟩
      · exact stays rfl ⟨rfl, rfl, rfl⟩
      · exact stays rfl ⟨rfl, rfl, rfl⟩
      · exact stays rfl ⟨rfl, rfl, rfl⟩
      · cases number : str_to_offset offset with
        | error e => exact stays (by simp only [Command.func, cmd_write, number]; rfl) ⟨rfl, by simp only [number, and_self]⟩
        | ok start =>
            by_cases low : start < 0
            · exact stays (by simp only [Command.func, cmd_write, number, low, if_true]; rfl)
                ⟨rfl, by simp only [number, low, if_true, and_self]⟩
            obtain ⟨start, rfl⟩ := Int.eq_ofNat_of_zero_le (not_lt.mp low)
            have bound := fits.2 start number
            obtain ⟨ret, f', v', ran, does, shown⟩ := write_does (l := l) shows (strings name (by simp)) number fits.1 (by omega)
            exact ⟨ret, cur, [], f', v', by simp only [Command.func, run_bind, ran, Result.ok_bind, run_pure],
              ⟨rfl, by simp only [number, low, if_false]; exact does⟩, shown⟩
      · exact stays rfl ⟨rfl, rfl, rfl⟩

end Files

end OperatingSystem.Fs
