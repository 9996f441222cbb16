import OperatingSystem.Fs.Walks

namespace OperatingSystem.Fs

open Prog InodeType

namespace Files

/-- Only who holds an inode is different, and every inode in memory is on the disk too. -/
structure Reading (f g : Files) : Prop where
  node : g.node = f.node
  settled : ∀ nr, g.Settled nr

section Reading

variable {l : Limit} {f g : Files} {nr : Nat} (reading : Reading f g)
include reading

theorem Reading.get (nr : Nat) : ∃ count, (g.get nr).held nr = some (count, false) ∧ Reading f (g.get nr) ∧ (g.get nr).put nr = g := by
  have back : (g.get nr).put nr = g := put_get fun h held => (reading.settled nr h held).1
  have here : ∃ count, 0 < count ∧ (g.get nr).held nr = some (count, false) := by
    cases held : g.held nr with
    | none => exact ⟨1, Nat.one_pos, by simp [Files.get, held]⟩
    | some h => exact ⟨h.1 + 1, Nat.succ_pos _, by simp [Files.get, held, (reading.settled nr h held).2]⟩
  obtain ⟨count, positive, here⟩ := here
  refine ⟨count, here, ⟨reading.node, fun m h held => ?_⟩, back⟩
  by_cases same : m = nr
  · subst same
    rw [here] at held
    exact Option.some.inj held ▸ ⟨positive, rfl⟩
  · rw [Files.get, held_setHeld, Function.update_of_ne same] at held
    exact reading.settled m h held

variable {parent : Nat → Nat} {records : Nat → List Record} (sound : Sound f parent records) {h : Nat × Bool}
  (held : g.held nr = some h) (dir : f.Dir nr)
include sound held dir

theorem name_run {name : Name} (proper : 0 ∉ name) :
    run (handle l) (testfs_dir_name_to_inode_nr nr name) g = .ok (reply (lookup (records nr) name), g) := by
  have directory := sound.directory nr dir
  rw [← reading.node] at directory
  have found : run (handle l) (nameToInodeNr nr name turns (0 : Nat)) g = .ok (reply (lookup (records nr) name), g) :=
    nameToInodeNr_run held directory.type directory.small proper directory.lists (directory.lists.length directory.small)
  simp only [testfs_dir_name_to_inode_nr, run_bind, run_call, run_lift, handle_inode_type held, directory.type, assert, if_true,
    Result.ok_bind]
  exact found

end Reading

section Finding

variable {l : Limit} {f : Files} {dir nr : Nat} {h : Nat × Bool} (held : f.held dir = some h) (type : f.IsDir dir)
  (small : (f.node dir).i_size < NEAR_FILE_SIZE) {offset fuel : Nat} {records : List Record}
include held type small

theorem findDirent_run (lists : (f.node dir).Lists offset records) (enough : records.length < fuel) :
    run (handle l) (findDirent dir nr fuel offset) f =
      .ok ((records.find? fun r : Record => r.d_inode_nr.toInt = (nr : Int)).map Record.entry, f) := by
  induction records generalizing offset fuel with
  | nil =>
      obtain _ | fuel := fuel
      · simp at enough
      rw [findDirent, run_bind, next_dirent_nil held type lists, Result.ok_bind]
      rfl
  | cons r records ih =>
      obtain _ | fuel := fuel
      · simp at enough
      rw [findDirent, run_bind, next_dirent_cons held type small lists, Result.ok_bind]
      change run (handle l) (if r.d_inode_nr.toInt = nr then _ else _) f = _
      by_cases here : r.d_inode_nr.toInt = nr
      · simp [here]
      · rw [if_neg here, ih lists.cons.2.2.2 (by simpa using enough), List.find?_cons_of_neg (by simpa using here)]

end Finding

section Pwd

variable {l : Limit} {f : Files} {parent : Nat → Nat} {records : Nat → List Record} (sound : Sound f parent records)
  {d nr : Nat} {p : List Name} {name : Name}

theorem shown_snoc : shown (p ++ [name]) = shown p ++ [.component (p ≠ []) name] := by
  cases p with
  | nil => rfl
  | cons first p => simp [shown]

include sound

theorem find_child (above : f.walk records p = some d) (found : f.child records d name = some nr) :
    ∃ r, ((records d).find? fun r : Record => r.d_inode_nr.toInt = (nr : Int)) = some r ∧ r.Live ∧ r.name = name := by
  obtain ⟨type, own, up, present⟩ := child_eq_some.mp found
  have dir : f.Dir d := ⟨walk_used sound above, type⟩
  have distinct := sound.distinct d dir
  obtain ⟨s, member, live, rfl, rfl⟩ := (lookup_eq_some distinct).mp present
  cases first : (records d).find? fun r : Record => r.d_inode_nr.toInt = (s.number : Int) with
  | none =>
      have none := List.find?_eq_none.mp first s member
      rw [← Record.number_cast live] at none
      simp at none
  | some r =>
      have number : r.d_inode_nr.toInt = s.number := by simpa using List.find?_some first
      have inside := List.mem_of_find?_eq_some first
      have alive : r.Live := by
        rw [Record.Live, Int32.le_iff_toInt_le, number]
        exact Int.natCast_nonneg _
      have same : r.number = s.number := by rw [Record.number, number, Int.toNat_natCast]
      have named : Named (records d) r.name s.number := ⟨r, inside, alive, rfl, same⟩
      have used := child_used sound dir.1 found
      have inner : r.name ≠ dot := by
        intro self
        exact sound.parent_ne used.1 used.2.1 (used.2.2.trans ((self ▸ named).unique distinct (sound.self d dir)).symm)
      have outer : r.name ≠ dotdot := by
        intro back
        have above' := (back ▸ named).unique distinct (sound.up d dir)
        by_cases root : d = 0
        · rw [root, sound.top] at above'
          exact used.2.1 above'
        · obtain ⟨m, again⟩ := child_of_parent sound dir.1 root
          rw [← above'] at again
          have longer : p = p ++ [s.name] ++ [m] := walk_injective sound above
            ((walk_snoc_eq ((walk_snoc_eq above).trans found)).trans again)
          have lengths := congrArg List.length longer
          simp at lengths
      have again : f.child records d r.name = some s.number :=
        child_eq_some.mpr ⟨type, inner, outer, (lookup_eq_some distinct).mpr named⟩
      exact ⟨r, rfl, alive, child_unique sound dir again found⟩

theorem pwd_run {depth count : Nat} {g : Files} (reading : Reading f g) (held : g.held nr = some (count, false)) (type : f.IsDir nr)
    (here : f.walk records p = some nr) (deep : p.length < depth) :
    run (handle l) (testfs_pwd depth nr) g = .ok ((if p = [] then 1 else 0, shown p), g) := by
  induction p using List.reverseRecOn generalizing nr depth g count with
  | nil =>
      obtain _ | depth := depth
      · simp at deep
      obtain rfl := Option.some.inj here
      have dir := sound.root
      have up : lookup (records 0) dotdot = some 0 := by
        have named := sound.up 0 dir
        rwa [sound.top, ← lookup_eq_some (sound.distinct 0 dir)] at named
      have search := name_run (l := l) reading sound held dir (show 0 ∉ dotdot by decide)
      rw [up, show reply (some 0) = (0 : Int) from rfl] at search
      simp only [testfs_pwd, run_bind, search, Result.ok_bind, assert, le_refl, if_true, run_lift, Int.natCast_zero, run_pure, shown]
  | append_singleton p name ih =>
      obtain _ | depth := depth
      · simp at deep
      rw [walk_snoc] at here
      obtain ⟨d, above, found⟩ := Option.bind_eq_some_iff.mp here
      have used := walk_used sound above
      have dirD : f.Dir d := ⟨used, (child_eq_some.mp found).1⟩
      have below := child_used sound used found
      have dir : f.Dir nr := ⟨below.1, type⟩
      have up : lookup (records nr) dotdot = some d := by
        rw [lookup_eq_some (sound.distinct nr dir)]
        exact below.2.2 ▸ sound.up nr dir
      have search := name_run (l := l) reading sound held dir (show 0 ∉ dotdot by decide)
      rw [up, show reply (some d) = (d : Int) from rfl] at search
      have other : ¬ (d : Int) = nr := by
        intro same
        exact sound.parent_ne below.1 below.2.1 (below.2.2.trans (Int.ofNat_inj.mp same))
      obtain ⟨count', heldD, reading', back⟩ := reading.get d
      have directory := sound.directory d dirD
      rw [← reading'.node] at directory
      obtain ⟨r, first, live, rfl⟩ := find_child sound above found
      have find := @findDirent_run l _ d nr _ heldD directory.type directory.small 0 turns _ directory.lists
        (directory.lists.length directory.small)
      rw [first, Int.natCast_zero] at find
      have rest := ih reading' heldD dirD.2 above (by simpa using deep)
      have string : cstring r.d_name = .ok r.name := cstring_eq (r.terminated live)
      have component : (decide ((if p = [] then (1 : Int) else 0) ≠ 1)) = decide (p ≠ []) := by
        by_cases top : p = []
        · simp [top]
        · simp [top]
      simp only [testfs_pwd, run_bind, search, Result.ok_bind, assert, Int.natCast_nonneg, if_true, run_lift, other, if_false,
        Int.toNat_natCast, run_call, handle_get used.1, testfs_find_dirent, handle_inode_type heldD, directory.type, find,
        Option.map_some, rest, handle_put heldD rfl, back, Record.entry, string, run_pure, shown_snoc, component,
        List.append_eq_nil_iff, List.cons_ne_self, and_false]

end Pwd

section Ls

variable {l : Limit} {f g : Files} (reading : Reading f g) {dir : Nat} {h : Nat × Bool} (held : g.held dir = some h) (type : g.IsDir dir)
  (small : (g.node dir).i_size < NEAR_FILE_SIZE) {offset fuel : Nat} {r : Record} {records : List Record} {ls : Nat → DirProg (List Printed)}
  {recursive : Bool} {below : Name → List Printed}

def ListsEntry (l : Limit) (f : Files) (ls : Nat → DirProg (List Printed)) (recursive : Bool) (below : Name → List Printed) (nr : Nat)
    (name : Name) : Prop :=
  nr < NR_INODES ∧ if recursive = true ∧ f.IsDir nr ∧ name ≠ dot ∧ name ≠ dotdot then
    ∀ g count, Reading f g → g.held nr = some (count, false) → run (handle l) (ls nr) g = .ok (below name, g)
  else below name = []

include reading

theorem lsEntry_run {d : Dirent} {name : Name} (string : cstring d.name = .ok name)
    (lists : ListsEntry l f ls recursive below d.d_inode_nr.toInt.toNat name) :
    run (handle l) (lsEntry ls recursive d) g = .ok (.line name (f.IsDir d.d_inode_nr.toInt.toNat) :: below name, g) := by
  obtain ⟨low, lists⟩ := lists
  obtain ⟨count, here, reading', back⟩ := reading.get d.d_inode_nr.toInt.toNat
  have type : (g.node d.d_inode_nr.toInt.toNat).i_type = I_DIR.code ↔ f.IsDir d.d_inode_nr.toInt.toNat := by
    rw [reading.node, IsDir]
  have put := handle_put (l := l) here rfl
  rw [back] at put
  simp only [lsEntry, run_bind, run_call, handle_get low, Result.ok_bind, handle_inode_type here, node_get, type, run_lift, string]
  split_ifs at lists ⊢ with inner
  · simp only [lists _ _ reading' here, Result.ok_bind, run_call, put, run_pure, run_bind]
  · simp only [run_bind, run_pure, Result.ok_bind, run_call, put, lists]

include held type small

theorem lsLoop_run (lists : (g.node dir).Lists offset records) (enough : records.length < fuel)
    (entries : ∀ r ∈ records, r.Live → ListsEntry l f ls recursive below r.number r.name) :
    run (handle l) (lsLoop ls dir recursive fuel offset) g = .ok (records.flatMap fun r =>
      if r.Live then .line r.name (f.IsDir r.number) :: below r.name else [], g) := by
  induction records generalizing offset fuel with
  | nil =>
      obtain _ | fuel := fuel
      · simp at enough
      rw [lsLoop, run_bind, next_dirent_nil held type lists, Result.ok_bind]
      rfl
  | cons r records ih =>
      obtain _ | fuel := fuel
      · simp at enough
      have rest := ih lists.cons.2.2.2 (by simpa using enough) fun q member => entries q (List.mem_cons_of_mem _ member)
      rw [lsLoop, run_bind, next_dirent_cons held type small lists, Result.ok_bind, List.flatMap_cons]
      change run (handle l) (if r.d_inode_nr < 0 then _ else _) g = _
      by_cases live : r.Live
      · have entry := @lsEntry_run l f g reading ls recursive below r.entry r.name (cstring_eq (r.terminated live))
          (entries r List.mem_cons_self live)
        rw [if_neg (Record.live_iff.mpr live), run_bind, entry, Result.ok_bind, run_bind, rest, if_pos live]
        rfl
      · have dead : r.d_inode_nr < 0 := by
          by_contra alive
          exact live (Record.live_iff.mp alive)
        rw [if_pos dead, if_neg live, rest]
        rfl

end Ls

section Listings

variable {l : Limit} {f : Files} {parent : Nat → Nat} {records : Nat → List Record} (sound : Sound f parent records) {cwd : List Name}
include sound

theorem tree_snoc {nr : Nat} {p : List Name} {name : Name} (dir : f.Dir nr) (here : f.walk records p = some nr) :
    (name ∈ names (records nr) ↔ name = dot ∨ name = dotdot ∨ f.tree records (p ++ [name]) ≠ none) ∧
      ∀ e, Named (records nr) name e → f.Used e ∧
        (f.IsDir e ↔ name = dot ∨ name = dotdot ∨ f.tree records (p ++ [name]) = some .dir) := by
  have distinct := sound.distinct nr dir
  have tree : f.tree records (p ++ [name]) = (f.child records nr name).map f.entry := by
    rw [tree, walk_snoc_eq here]
  have inner (own : name ≠ dot) (up : name ≠ dotdot) : f.child records nr name = lookup (records nr) name :=
    if_pos ⟨dir.2, own, up⟩
  constructor
  · by_cases own : name = dot
    · subst own
      simpa using (sound.self nr dir).mem_names
    by_cases up : name = dotdot
    · subst up
      simpa using (sound.up nr dir).mem_names
    rw [tree, inner own up, ne_eq, Option.map_eq_none_iff, lookup_eq_none]
    simp [own, up]
  · intro e named
    have present := (lookup_eq_some distinct).mpr named
    refine ⟨sound.lookup_used dir present, ?_⟩
    by_cases own : name = dot
    · subst own
      obtain rfl := named.unique distinct (sound.self nr dir)
      simp [dir.2]
    by_cases up : name = dotdot
    · subst up
      obtain rfl := named.unique distinct (sound.up nr dir)
      simp [(sound.above nr dir.1).2]
    rw [tree, inner own up, present, Option.map_some, Option.some_inj, entry_eq_dir]
    simp [own, up]

theorem ls_run {recursive : Bool} {depth nr : Nat} {p : List Name} (dir : f.Dir nr) (here : f.walk records p = some nr)
    (deep : 0 < depth ∧ (recursive = true → ∀ q, f.walk records (p ++ q) ≠ none → q.length < depth)) :
    ∃ lines, Namespace.Listing ⟨f.tree records, cwd⟩ recursive p lines ∧ ∀ g count, Reading f g → g.held nr = some (count, false) →
      run (handle l) (testfs_ls recursive depth nr) g = .ok (lines, g) := by
  induction depth generalizing nr p with
  | zero => exact absurd deep.1 (lt_irrefl 0)
  | succ depth ih =>
      have distinct := sound.distinct nr dir
      -- what is printed of each directory below
      have inner (name : Name) : ∃ lines : List Printed, (∀ e, f.child records nr name = some e → recursive = true → f.IsDir e →
          Namespace.Listing ⟨f.tree records, cwd⟩ recursive (p ++ [name]) lines ∧
            ∀ g count, Reading f g → g.held e = some (count, false) → run (handle l) (testfs_ls recursive depth e) g = .ok (lines, g)) ∧
          ((¬ ∃ e, f.child records nr name = some e ∧ recursive = true ∧ f.IsDir e) → lines = []) := by
        by_cases lower : ∃ e, f.child records nr name = some e ∧ recursive = true ∧ f.IsDir e
        · obtain ⟨e, found, again, type⟩ := lower
          have away := (walk_snoc_eq here).trans found
          have shallow (q : List Name) (some : f.walk records (p ++ [name] ++ q) ≠ none) : q.length < depth := by
            rw [List.append_assoc] at some
            simpa using deep.2 again _ some
          obtain ⟨lines, listing, runs⟩ := ih ⟨walk_used sound away, type⟩ away
            ⟨Nat.zero_lt_of_lt (shallow [] (by rw [List.append_nil, away]; simp)), fun _ => shallow⟩
          refine ⟨lines, fun e' found' _ _ => ?_, fun none => absurd ⟨e, found, again, type⟩ none⟩
          obtain rfl := Option.some.inj (found.symm.trans found')
          exact ⟨listing, runs⟩
        · exact ⟨[], fun e found again type => absurd ⟨e, found, again, type⟩ lower, fun _ => rfl⟩
      choose below listing none using inner
      refine ⟨(records nr).flatMap fun r => if r.Live then .line r.name (f.IsDir r.number) :: below r.name else [], ?_, ?_⟩
      · have lines : (records nr).flatMap (fun r => if r.Live then Printed.line r.name (f.IsDir r.number) :: below r.name else []) =
            (names (records nr)).flatMap fun name => .line name (name = dot ∨ name = dotdot ∨
              (⟨f.tree records, cwd⟩ : Namespace).tree (p ++ [name]) = some .dir) :: below name := by
          rw [names, List.flatMap_map, flatMap_filter_of]
          refine List.flatMap_congr fun r member => ?_
          by_cases live : r.Live
          · have isDir := ((tree_snoc sound dir here).2 r.number ⟨r, member, live, rfl, rfl⟩).2
            simp only [live, if_true, isDir]
          · simp [live]
        rw [lines]
        refine .directory distinct (fun name => (tree_snoc sound dir here).1) (fun name again type => ?_) fun name other => none name ?_
        · obtain ⟨e, found, type⟩ := Option.map_eq_some_iff.mp (show (f.walk records (p ++ [name])).map f.entry = some .dir from type)
          exact (listing name e ((walk_snoc_eq here).symm.trans found) again (entry_eq_dir.mp type)).1
        · rintro ⟨e, found, again, type⟩
          refine other ⟨again, ?_⟩
          change (f.walk records (p ++ [name])).map f.entry = some .dir
          rw [walk_snoc_eq here, found, Option.map_some, entry_eq_dir.mpr type]
      · intro g count reading held
        have directory := sound.directory nr dir
        rw [← reading.node] at directory
        have entries (r : Record) (member : r ∈ records nr) (live : r.Live) :
            ListsEntry l f (testfs_ls recursive depth) recursive below r.number r.name := by
          have named : Named (records nr) r.name r.number := ⟨r, member, live, rfl, rfl⟩
          have found (own : r.name ≠ dot) (up : r.name ≠ dotdot) : f.child records nr r.name = some r.number :=
            child_eq_some.mpr ⟨dir.2, own, up, (lookup_eq_some distinct).mpr named⟩
          refine ⟨((tree_snoc sound dir here).2 _ named).1.1, ?_⟩
          split_ifs with lower
          · exact (listing r.name r.number (found lower.2.2.1 lower.2.2.2) lower.1 lower.2.1).2
          · refine none r.name ?_
            rintro ⟨e, there, again, type⟩
            refine lower ?_
            obtain ⟨-, own, up, present⟩ := child_eq_some.mp there
            obtain rfl := Option.some.inj ((found own up).symm.trans there)
            exact ⟨again, type, own, up⟩
        exact lsLoop_run reading held directory.type directory.small directory.lists (directory.lists.length directory.small) entries

end Listings

section Commands

variable {l : Limit} {f : Files} {cur : Nat} {parent : Nat → Nat} {records : Nat → List Record} (sound : Sound f parent records)
  (resting : Resting f cur)
include resting

theorem reading_resting : Reading f f := by
  refine ⟨rfl, fun nr h held => ?_⟩
  rw [resting.held] at held
  by_cases here : nr = cur
  · subst here
    rw [Function.update_self] at held
    exact Option.some.inj held ▸ ⟨Nat.one_pos, rfl⟩
  · rw [Function.update_of_ne here] at held
    cases held

include sound

theorem cmd_pwd_run {p : List Name} {depth : Nat} (here : f.walk records p = some cur) (deep : p.length < depth) :
    run (handle l) (cmd_pwd depth cur []) f = .ok ((0, shown p), f) := by
  have held : f.held cur = some (1, false) := by rw [resting.held, Function.update_self]
  have ran := pwd_run (l := l) sound (reading_resting resting) held resting.dir.2 here deep
  simp only [cmd_pwd, run_bind, ran, Result.ok_bind, run_pure]

theorem cmd_ls_run {name : Name} {recursive : Bool} {depth nr : Nat} {p cwd : List Name} (proper : 0 ∉ name)
    (present : lookup (records cur) name = some nr) (type : f.IsDir nr) (here : f.walk records p = some nr)
    (deep : 0 < depth ∧ (recursive = true → ∀ q, f.walk records (p ++ q) ≠ none → q.length < depth)) :
    ∃ lines, run (handle l) (cmd_ls_internal depth cur recursive [name]) f = .ok ((0, lines), f) ∧
      Namespace.Listing ⟨f.tree records, cwd⟩ recursive p lines := by
  have used := sound.lookup_used resting.dir present
  have search := dir_name_to_inode_nr_run (l := l) sound resting proper
  obtain ⟨count, held, reading, back⟩ := (reading_resting resting).get nr
  obtain ⟨lines, listing, runs⟩ := @ls_run l f parent records sound cwd recursive depth nr p ⟨used, type⟩ here deep
  have good : ¬ (nr : Int) < 0 := not_lt.mpr (Int.natCast_nonneg nr)
  have same : ((f.get nr).node nr).i_type = I_DIR.code := type
  have put := handle_put (l := l) held rfl
  rw [back] at put
  rw [present, show reply (some nr) = (nr : Int) from rfl] at search
  refine ⟨lines, ?_, listing⟩
  simp only [cmd_ls_internal, run_bind, search, Result.ok_bind, good, if_false, Int.toNat_natCast, run_call, handle_get used.1,
    handle_inode_type held, same, if_true, runs _ _ reading held, put, run_pure]

theorem cmd_ls_absent {name : Name} {recursive : Bool} {depth : Nat} (proper : 0 ∉ name) (absent : lookup (records cur) name = none) :
    run (handle l) (cmd_ls_internal depth cur recursive [name]) f = .ok ((-ENOENT, []), f) := by
  have search := dir_name_to_inode_nr_run (l := l) sound resting proper
  have negative : reply none < 0 := by decide
  rw [absent] at search
  simp only [cmd_ls_internal, run_bind, search, Result.ok_bind, negative, if_true, run_pure]
  rfl

end Commands

end Files

end OperatingSystem.Fs
