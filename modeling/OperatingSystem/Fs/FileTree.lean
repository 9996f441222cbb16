import OperatingSystem.Fs.Changes

namespace OperatingSystem.Fs

section Entries

variable {r : Record} {name other : Name} {nr m : Nat} {records front back : List Record}

theorem names_append : names (front ++ back) = names front ++ names back := by
  rw [names, List.filter_append, List.map_append, names, names]

theorem inodes_append : inodes (front ++ back) = inodes front ++ inodes back := by
  rw [inodes, List.filter_append, List.map_append, inodes, inodes]

theorem names_cons (live : r.Live) : names (r :: records) = r.name :: names records := by
  simp [names, live]

theorem names_cons_dead (dead : ¬ r.Live) : names (r :: records) = names records := by
  simp [names, dead]

theorem inodes_cons (child : r.Child) : inodes (r :: records) = r.number :: inodes records := by
  simp [inodes, child]

theorem inodes_cons_other (idle : ¬ r.Child) : inodes (r :: records) = inodes records := by
  simp [inodes, idle]

theorem enter_perm (r : Record) (records : List Record) : ∃ front back,
    enter r records = front ++ r :: back ∧ names records = names (front ++ back) ∧ inodes records = inodes (front ++ back) ∧
      ∀ q : Record, q.Live → (q ∈ records ↔ q ∈ front ++ back) := by
  obtain ⟨front, old, back, rfl, entered, ⟨q, rfl, fits⟩ | none⟩ := enter_shape r records
  · have dead := fits.1
    have idle : ¬ q.Child := fun child => dead child.1
    refine ⟨front, back, entered, ?_, ?_, fun s live => ?_⟩
    · rw [List.singleton_append, names_append, names_cons_dead dead, names_append]
    · rw [List.singleton_append, inodes_append, inodes_cons_other idle, inodes_append]
    · have apart : s ≠ q := by
        rintro rfl
        exact dead live
      simp [apart]
  · obtain ⟨rfl, rfl⟩ := List.append_eq_nil_iff.mp none
    exact ⟨front, [], entered, rfl, rfl, fun _ _ => Iff.rfl⟩

theorem names_enter (live : r.Live) : (names (enter r records)).Perm (r.name :: names records) := by
  obtain ⟨front, back, entered, same, -⟩ := enter_perm r records
  rw [entered, same, names_append, names_append, names_cons live]
  exact List.perm_middle

theorem inodes_enter (child : r.Child) : (inodes (enter r records)).Perm (r.number :: inodes records) := by
  obtain ⟨front, back, entered, -, same, -⟩ := enter_perm r records
  rw [entered, same, inodes_append, inodes_append, inodes_cons child]
  exact List.perm_middle

theorem named_enter (live : r.Live) : Named (enter r records) name nr ↔ r.name = name ∧ r.number = nr ∨ Named records name nr := by
  obtain ⟨front, back, entered, -, -, same⟩ := enter_perm r records
  constructor
  · rintro ⟨q, member, alive, here⟩
    rw [entered, List.mem_append, List.mem_cons] at member
    rcases member with before | rfl | after
    · exact Or.inr ⟨q, (same q alive).mpr (List.mem_append_left _ before), alive, here⟩
    · exact Or.inl here
    · exact Or.inr ⟨q, (same q alive).mpr (List.mem_append_right _ after), alive, here⟩
  · rintro (here | ⟨q, member, alive, here⟩)
    · exact ⟨r, by rw [entered]; simp, live, here⟩
    · have inside := (same q alive).mp member
      refine ⟨q, ?_, alive, here⟩
      rw [entered, List.mem_append, List.mem_cons]
      rcases List.mem_append.mp inside with before | after
      · exact Or.inl before
      · exact Or.inr (Or.inr after)

theorem lookup_eq_some (distinct : (names records).Nodup) : lookup records name = some nr ↔ Named records name nr := by
  induction records with
  | nil => simp [lookup, Named]
  | cons q records ih =>
      by_cases live : q.Live
      · rw [names_cons live, List.nodup_cons] at distinct
        by_cases here : q.name = name
        · have found : lookup (q :: records) name = some q.number := by simp [lookup, live, here]
          rw [found, Option.some_inj]
          constructor
          · rintro rfl
            exact ⟨q, List.mem_cons_self, live, here, rfl⟩
          · rintro ⟨s, member, alive, same, rfl⟩
            rcases List.mem_cons.mp member with rfl | later
            · rfl
            · exact absurd (mem_names.mpr ⟨s, later, alive, same.trans here.symm⟩) distinct.1
        · have passed : lookup (q :: records) name = lookup records name := by simp [lookup, here]
          rw [passed, ih distinct.2]
          simp [Named, here]
      · have passed : lookup (q :: records) name = lookup records name := by simp [lookup, live]
        rw [names_cons_dead live] at distinct
        rw [passed, ih distinct]
        simp [Named, live]

theorem Named.mem_names (named : Named records name nr) : name ∈ names records := by
  obtain ⟨r, member, live, same, -⟩ := named
  exact Fs.mem_names.mpr ⟨r, member, live, same⟩

theorem Named.unique (distinct : (names records).Nodup) (first : Named records name nr) (second : Named records name m) : nr = m := by
  have found := (lookup_eq_some distinct).mpr first
  rw [(lookup_eq_some distinct).mpr second] at found
  exact (Option.some.inj found).symm

theorem bury_perm (present : lookup records name = some nr) : ∃ q, q.Live ∧ q.name = name ∧ q.number = nr ∧
    (q :: bury name records).Perm (q.buried :: records) := by
  obtain ⟨front, q, back, split, buried, live, named, number, -⟩ := bury_shape present
  refine ⟨q, live, named, number, ?_⟩
  rw [buried, split]
  exact (List.perm_middle.cons q).trans ((List.Perm.swap _ _ _).trans (List.perm_middle.symm.cons _))

theorem names_bury (present : lookup records name = some nr) : (name :: names (bury name records)).Perm (names records) := by
  obtain ⟨q, live, rfl, -, perm⟩ := bury_perm present
  have whole := (perm.filter (·.Live)).map Record.name
  simpa [names, live, Record.not_live_buried] using whole

theorem inodes_bury (present : lookup records name = some nr) (own : name ≠ dot) (up : name ≠ dotdot) :
    (nr :: inodes (bury name records)).Perm (inodes records) := by
  obtain ⟨q, live, rfl, rfl, perm⟩ := bury_perm present
  have child : q.Child := ⟨live, own, up⟩
  have idle : ¬ q.buried.Child := fun child => Record.not_live_buried child.1
  have whole := (perm.filter (·.Child)).map Record.number
  simpa [inodes, child, idle] using whole

theorem named_bury (distinct : (names records).Nodup) (present : lookup records name = some nr) :
    Named (bury name records) other m ↔ other ≠ name ∧ Named records other m := by
  obtain ⟨q, live, rfl, rfl, perm⟩ := bury_perm present
  have fresh : q.name ∉ names (bury q.name records) :=
    (List.nodup_cons.mp ((names_bury present).nodup_iff.mpr distinct)).1
  constructor
  · intro named
    refine ⟨fun same => fresh (same ▸ named.mem_names), ?_⟩
    obtain ⟨s, member, alive, here⟩ := named
    have inside := perm.subset (List.mem_cons_of_mem q member)
    rcases List.mem_cons.mp inside with rfl | inside
    · exact absurd alive Record.not_live_buried
    · exact ⟨s, inside, alive, here⟩
  · rintro ⟨apart, s, member, alive, same, number⟩
    have inside := perm.symm.subset (List.mem_cons_of_mem q.buried member)
    rcases List.mem_cons.mp inside with rfl | inside
    · exact absurd same.symm apart
    · exact ⟨s, inside, alive, same, number⟩

end Entries

structure Node.File (n : Node) : Prop where
  type : n.i_type = InodeType.I_FILE.code
  low : 0 ≤ n.i_size
  padded : ∀ i : Nat, n.i_size ≤ i → n.content i = 0

theorem Node.File.write {n : Node} {text : List UInt8} {start : Nat} (file : n.File) : (n.write text start).File where
  type := file.type
  low := by
    have low := file.low
    simp only [Node.write]
    omega
  padded i past := by
    simp only [Node.write] at past ⊢
    rw [Bytes.splice_after (by omega)]
    exact file.padded i (by omega)

def Files.Dir (f : Files) (d : Nat) : Prop := f.Used d ∧ f.IsDir d

/-- The inodes in use are a tree with these parents, and the directories hold these entries. -/
structure Sound (f : Files) (parent : Nat → Nat) (records : Nat → List Record) : Prop where
  zeroed : ∀ nr, nr < NR_INODES → ¬ f.Used nr → f.node nr = Node.zero
  file : ∀ nr, f.Used nr → ¬ f.IsDir nr → (f.node nr).File
  root : f.Dir 0
  directory : ∀ d, f.Dir d → (f.node d).Directory (records d)
  distinct : ∀ d, f.Dir d → (names (records d)).Nodup
  self : ∀ d, f.Dir d → Named (records d) dot d
  up : ∀ d, f.Dir d → Named (records d) dotdot (parent d)
  once : ∀ d, f.Dir d → (inodes (records d)).Nodup
  children : ∀ d, f.Dir d → ∀ c, c ∈ inodes (records d) ↔ f.Used c ∧ c ≠ 0 ∧ parent c = d
  above : ∀ c, f.Used c → f.Dir (parent c)
  top : parent 0 = 0
  reaches : ∀ d, f.Used d → ∃ n, parent^[n] d = 0

structure Empty (below : List Record) (nr p_nr : Nat) : Prop where
  distinct : (names below).Nodup
  self : Named below dot nr
  up : Named below dotdot p_nr
  none : inodes below = []

/-- What becomes of the file system when an entry for a new inode is stored in a directory. -/
structure Grows (f f' : Files) (d nr : Nat) (r : Record) (entries below : List Record) : Prop where
  used : ∀ m, f'.Used m ↔ f.Used m ∨ m = nr
  others : ∀ m, m ≠ d → m ≠ nr → f'.node m = f.node m
  directory : (f'.node d).Directory (enter r entries)
  new : f'.node nr = { Node.zero with i_type := InodeType.I_FILE.code } ∨ (f'.node nr).Directory below ∧ Empty below nr d

/-- What becomes of it when the entry of an inode that is not in use any more is buried. -/
structure Shrinks (f f' : Files) (d nr : Nat) (name : Name) (entries : List Record) : Prop where
  used : ∀ m, f'.Used m ↔ f.Used m ∧ m ≠ nr
  others : ∀ m, m ≠ d → m ≠ nr → f'.node m = f.node m
  directory : (f'.node d).Directory (bury name entries)
  gone : f'.node nr = Node.zero

theorem iterate_update {parent : Nat → Nat} {P : Nat → Prop} {nr d c n : Nat} (closed : ∀ c, P c → P (parent c)) (outside : ¬ P nr)
    (inside : P c) : (Function.update parent nr d)^[n] c = parent^[n] c := by
  induction n generalizing c with
  | zero => rfl
  | succ n ih =>
      have apart : c ≠ nr := by
        rintro rfl
        exact outside inside
      rw [Function.iterate_succ_apply, Function.iterate_succ_apply, Function.update_of_ne apart, ih (closed c inside)]

structure Files.Contains (f : Files) (d p_nr : Nat) (entries : List Record) : Prop where
  directory : (f.node d).Directory entries
  distinct : (names entries).Nodup
  self : Named entries dot d
  up : Named entries dotdot p_nr
  once : (inodes entries).Nodup

namespace Files.Contains

variable {f f' : Files} {d p_nr nr : Nat} {name : Name} {r : Record} {entries : List Record}

theorem of_empty (directory : (f.node nr).Directory entries) (empty : Empty entries nr d) : f.Contains nr d entries :=
  ⟨directory, empty.distinct, empty.self, empty.up, empty.none ▸ List.nodup_nil⟩

variable (contains : f.Contains d p_nr entries)
include contains

theorem enter (directory : (f'.node d).Directory (enter r entries)) (child : r.Child) (fresh : r.name ∉ names entries)
    (absent : r.number ∉ inodes entries) : f'.Contains d p_nr (Fs.enter r entries) where
  directory := directory
  distinct := (names_enter child.1).nodup_iff.mpr (List.nodup_cons.mpr ⟨fresh, contains.distinct⟩)
  self := (named_enter child.1).mpr (Or.inr contains.self)
  up := (named_enter child.1).mpr (Or.inr contains.up)
  once := (inodes_enter child).nodup_iff.mpr (List.nodup_cons.mpr ⟨absent, contains.once⟩)

theorem bury (directory : (f'.node d).Directory (bury name entries)) (present : lookup entries name = some nr) (own : name ≠ dot)
    (up : name ≠ dotdot) : f'.Contains d p_nr (Fs.bury name entries) where
  directory := directory
  distinct := (List.nodup_cons.mp ((names_bury present).nodup_iff.mpr contains.distinct)).2
  self := (named_bury contains.distinct present).mpr ⟨own.symm, contains.self⟩
  up := (named_bury contains.distinct present).mpr ⟨up.symm, contains.up⟩
  once := (List.nodup_cons.mp ((inodes_bury present own up).nodup_iff.mpr contains.once)).2

theorem of_node (same : f'.node d = f.node d) : f'.Contains d p_nr entries :=
  { contains with directory := same ▸ contains.directory }

end Files.Contains

section Trees

variable {f f' : Files} {parent : Nat → Nat} {records : Nat → List Record} {d nr c : Nat} {name : Name} {r : Record}
  {below : List Record} (sound : Sound f parent records)
include sound

theorem Sound.child_of_fresh (dir : f.Dir d) (fresh : r.name ∉ names (records d)) (live : r.Live) : r.Child := by
  refine ⟨live, fun own => fresh ?_, fun up => fresh ?_⟩
  · rw [own]
    exact (sound.self d dir).mem_names
  · rw [up]
    exact (sound.up d dir).mem_names

theorem Sound.contains (dir : f.Dir d) : f.Contains d (parent d) (records d) :=
  ⟨sound.directory d dir, sound.distinct d dir, sound.self d dir, sound.up d dir, sound.once d dir⟩

omit sound

theorem Sound.of_contains (zeroed : ∀ nr, nr < NR_INODES → ¬ f.Used nr → f.node nr = Node.zero)
    (file : ∀ nr, f.Used nr → ¬ f.IsDir nr → (f.node nr).File) (root : f.Dir 0)
    (contains : ∀ d, f.Dir d → f.Contains d (parent d) (records d))
    (children : ∀ d, f.Dir d → ∀ c, c ∈ inodes (records d) ↔ f.Used c ∧ c ≠ 0 ∧ parent c = d)
    (above : ∀ c, f.Used c → f.Dir (parent c)) (top : parent 0 = 0) (reaches : ∀ d, f.Used d → ∃ n, parent^[n] d = 0) :
    Sound f parent records where
  zeroed := zeroed
  file := file
  root := root
  directory d dir := (contains d dir).directory
  distinct d dir := (contains d dir).distinct
  self d dir := (contains d dir).self
  up d dir := (contains d dir).up
  once d dir := (contains d dir).once
  children := children
  above := above
  top := top
  reaches := reaches

section Growing

variable {entries : List Record} {m : Nat} (grows : Grows f f' d nr r entries below)
include grows

theorem Grows.dir (dir : f.Dir d) : f'.Dir d := ⟨(grows.used d).mpr (Or.inl dir.1), grows.directory.type⟩

theorem Grows.dir_iff (here : m ≠ d) (old : m ≠ nr) : f'.Dir m ↔ f.Dir m := by
  rw [Files.Dir, Files.Dir, grows.used, Files.IsDir, grows.others m here old, Files.IsDir]
  simp [old]

theorem Grows.dir_kept (dir : f.Dir d) (unused : ¬ f.Used nr) (there : f.Dir m) : f'.Dir m := by
  by_cases here : m = d
  · exact here ▸ grows.dir dir
  · exact (grows.dir_iff here fun same => unused (same ▸ there.1)).mpr there

theorem Grows.made (there : f'.Dir nr) : (f'.node nr).Directory below ∧ Empty below nr d := by
  rcases grows.new with file | made
  · have type := there.2
    rw [Files.IsDir, file] at type
    exact absurd type (by decide)
  · exact made

theorem Grows.forall_dir {P : Nat → Prop} (grown : P d) (made : f'.Dir nr → P nr) (rest : ∀ m, f.Dir m → m ≠ d → m ≠ nr → P m)
    (m : Nat) (there : f'.Dir m) : P m := by
  by_cases here : m = d
  · exact here ▸ grown
  by_cases newest : m = nr
  · subst newest
    exact made there
  · exact rest m ((grows.dir_iff here newest).mp there) here newest

theorem Grows.zeroed (dir : f.Dir d) (zeroed : ∀ m, m < NR_INODES → ¬ f.Used m → f.node m = Node.zero) (low : m < NR_INODES)
    (free : ¬ f'.Used m) : f'.node m = Node.zero := by
  rw [grows.used, not_or] at free
  have here : m ≠ d := by
    rintro rfl
    exact free.1 dir.1
  rw [grows.others m here free.2]
  exact zeroed m low free.1

theorem Grows.file (dir : f.Dir d) (files : ∀ m, f.Used m → ¬ f.IsDir m → (f.node m).File) (used : f'.Used m) (file : ¬ f'.IsDir m) :
    (f'.node m).File := by
  by_cases newest : m = nr
  · subst newest
    rcases grows.new with empty | made
    · rw [empty]
      exact ⟨rfl, le_refl 0, fun _ _ => rfl⟩
    · exact absurd made.1.type file
  · have here : m ≠ d := by
      rintro rfl
      exact file (grows.dir dir).2
    rw [Files.IsDir, grows.others m here newest] at file
    rw [grows.others m here newest]
    exact files m (((grows.used m).mp used).resolve_right newest) file

end Growing

include sound

theorem Sound.grow_children (dir : f.Dir d) (unused : ¬ f.Used nr) (fresh : r.name ∉ names (records d)) (live : r.Live)
    (number : r.number = nr) (grows : Grows f f' d nr r (records d) below) : ∀ m, f'.Dir m → ∀ c,
      c ∈ inodes (Function.update (Function.update records d (enter r (records d))) nr below m) ↔
        f'.Used c ∧ c ≠ 0 ∧ Function.update parent nr d c = m := by
  have apart : d ≠ nr := by
    rintro rfl
    exact unused dir.1
  have inodesD : (inodes (enter r (records d))).Perm (nr :: inodes (records d)) :=
    number ▸ inodes_enter (sound.child_of_fresh dir fresh live)
  refine grows.forall_dir (fun c => ?_) (fun made c => ?_) fun e there here old c => ?_
  · rw [Function.update_of_ne apart, Function.update_self, inodesD.mem_iff, List.mem_cons, grows.used]
    by_cases newest : c = nr
    · subst newest
      have positive : c ≠ 0 := by
        rintro rfl
        exact unused sound.root.1
      simpa using positive
    · rw [Function.update_of_ne newest, sound.children d dir]
      simp [newest]
  · rw [Function.update_self, (grows.made made).2.none, grows.used]
    by_cases newest : c = nr
    · subst newest
      simp [apart]
    · rw [Function.update_of_ne newest]
      simp only [List.not_mem_nil, newest, or_false, false_iff, not_and]
      intro used _ same
      exact unused (same ▸ (sound.above c used).1)
  · rw [Function.update_of_ne old, Function.update_of_ne here, grows.used]
    by_cases newest : c = nr
    · subst newest
      have absent : c ∉ inodes (records e) := fun member => unused ((sound.children e there c).mp member).1
      simpa [Ne.symm here] using absent
    · rw [Function.update_of_ne newest, sound.children e there]
      simp [newest]

theorem Sound.grow (dir : f.Dir d) (unused : ¬ f.Used nr) (fresh : r.name ∉ names (records d)) (live : r.Live)
    (number : r.number = nr) (grows : Grows f f' d nr r (records d) below) :
    Sound f' (Function.update parent nr d) (Function.update (Function.update records d (enter r (records d))) nr below) := by
  have other {m : Nat} (used : f.Used m) : m ≠ nr := by
    rintro rfl
    exact unused used
  have absent : r.number ∉ inodes (records d) := fun member => unused (number ▸ ((sound.children d dir _).mp member).1)
  have closed : ∀ c, f.Used c → f.Used (parent c) := fun c used => (sound.above c used).1
  refine .of_contains (fun m => grows.zeroed dir sound.zeroed) (fun m => grows.file dir sound.file) (grows.dir_kept dir unused sound.root)
    ?_ (sound.grow_children dir unused fresh live number grows) (fun m used => ?_) ?_ fun m used => ?_
  · refine grows.forall_dir ?_ (fun made => ?_) fun m there here old => ?_
    · rw [Function.update_of_ne (other dir.1), Function.update_of_ne (other dir.1), Function.update_self]
      exact (sound.contains dir).enter grows.directory (sound.child_of_fresh dir fresh live) fresh absent
    · rw [Function.update_self, Function.update_self]
      exact .of_empty (grows.made made).1 (grows.made made).2
    · rw [Function.update_of_ne old, Function.update_of_ne old, Function.update_of_ne here]
      exact (sound.contains there).of_node (grows.others m here old)
  · by_cases newest : m = nr
    · rw [newest, Function.update_self]
      exact grows.dir dir
    · rw [Function.update_of_ne newest]
      exact grows.dir_kept dir unused (sound.above m (((grows.used m).mp used).resolve_right newest))
  · rw [Function.update_of_ne (other sound.root.1), sound.top]
  · by_cases newest : m = nr
    · obtain ⟨n, reached⟩ := sound.reaches d dir.1
      refine ⟨n + 1, ?_⟩
      rw [newest, Function.iterate_succ_apply, Function.update_self, iterate_update closed unused dir.1, reached]
    · have before := ((grows.used m).mp used).resolve_right newest
      obtain ⟨n, reached⟩ := sound.reaches m before
      exact ⟨n, by rw [iterate_update closed unused before, reached]⟩

theorem Sound.lookup_used (dir : f.Dir d) (present : lookup (records d) name = some nr) : f.Used nr := by
  have distinct := sound.distinct d dir
  have named := (lookup_eq_some distinct).mp present
  by_cases own : name = dot
  · obtain rfl := named.unique distinct (own ▸ sound.self d dir)
    exact dir.1
  by_cases up : name = dotdot
  · obtain rfl := named.unique distinct (up ▸ sound.up d dir)
    exact (sound.above d dir.1).1
  obtain ⟨r, member, live, rfl, rfl⟩ := named
  have child : r.Child := ⟨live, own, up⟩
  have inside : r.number ∈ inodes (records d) := List.mem_map_of_mem (List.mem_filter.mpr ⟨member, by simpa using child⟩)
  exact ((sound.children d dir _).mp inside).1

theorem Sound.parent_ne (used : f.Used c) (other : c ≠ 0) : parent c ≠ c := by
  intro same
  obtain ⟨n, reached⟩ := sound.reaches c used
  rw [Function.iterate_fixed same n] at reached
  exact other reached

theorem Sound.named_child (dir : f.Dir d) (present : lookup (records d) name = some nr) (own : name ≠ dot) (up : name ≠ dotdot) :
    nr ∈ inodes (records d) ∧ f.Used nr ∧ nr ≠ 0 ∧ parent nr = d := by
  have member : nr ∈ inodes (records d) := (inodes_bury present own up).subset List.mem_cons_self
  exact ⟨member, (sound.children d dir nr).mp member⟩

omit sound

section Shrinking

variable {entries : List Record} {m : Nat} (shrinks : Shrinks f f' d nr name entries)
include shrinks

theorem Shrinks.dir (dir : f.Dir d) (apart : d ≠ nr) : f'.Dir d := ⟨(shrinks.used d).mpr ⟨dir.1, apart⟩, shrinks.directory.type⟩

theorem Shrinks.dir_iff (here : m ≠ d) (old : m ≠ nr) : f'.Dir m ↔ f.Dir m := by
  rw [Files.Dir, Files.Dir, shrinks.used, Files.IsDir, shrinks.others m here old, Files.IsDir]
  simp [old]

theorem Shrinks.dir_kept (dir : f.Dir d) (there : f.Dir m) (old : m ≠ nr) : f'.Dir m := by
  by_cases here : m = d
  · subst here
    exact shrinks.dir dir old
  · exact (shrinks.dir_iff here old).mpr there

theorem Shrinks.forall_dir {P : Nat → Prop} (shrunk : P d) (rest : ∀ m, f.Dir m → m ≠ d → m ≠ nr → P m) (m : Nat)
    (there : f'.Dir m) : P m := by
  have old : m ≠ nr := ((shrinks.used m).mp there.1).2
  by_cases here : m = d
  · exact here ▸ shrunk
  · exact rest m ((shrinks.dir_iff here old).mp there) here old

theorem Shrinks.zeroed (dir : f.Dir d) (zeroed : ∀ m, m < NR_INODES → ¬ f.Used m → f.node m = Node.zero) (low : m < NR_INODES)
    (free : ¬ f'.Used m) : f'.node m = Node.zero := by
  by_cases gone : m = nr
  · rw [gone, shrinks.gone]
  · have before : ¬ f.Used m := fun there => free ((shrinks.used m).mpr ⟨there, gone⟩)
    have here : m ≠ d := by
      rintro rfl
      exact before dir.1
    rw [shrinks.others m here gone]
    exact zeroed m low before

theorem Shrinks.file (dir : f.Dir d) (files : ∀ m, f.Used m → ¬ f.IsDir m → (f.node m).File) (there : f'.Used m)
    (file : ¬ f'.IsDir m) : (f'.node m).File := by
  obtain ⟨before, old⟩ := (shrinks.used m).mp there
  have here : m ≠ d := by
    rintro rfl
    exact file (shrinks.dir dir old).2
  rw [Files.IsDir, shrinks.others m here old] at file
  rw [shrinks.others m here old]
  exact files m before file

end Shrinking

include sound

theorem Sound.shrink_children (dir : f.Dir d) (present : lookup (records d) name = some nr) (own : name ≠ dot) (up : name ≠ dotdot)
    (shrinks : Shrinks f f' d nr name (records d)) : ∀ m, f'.Dir m → ∀ c,
      c ∈ inodes (Function.update records d (bury name (records d)) m) ↔ f'.Used c ∧ c ≠ 0 ∧ parent c = m := by
  have inodesD := inodes_bury present own up
  have once := inodesD.nodup_iff.mpr (sound.once d dir)
  obtain ⟨-, -, -, above⟩ := sound.named_child dir present own up
  refine shrinks.forall_dir (fun c => ?_) fun e there here old c => ?_
  · have listed := sound.children d dir c
    rw [← inodesD.mem_iff, List.mem_cons] at listed
    rw [Function.update_self, shrinks.used]
    by_cases gone : c = nr
    · subst gone
      simp [(List.nodup_cons.mp once).1]
    · simpa [gone] using listed
  · rw [Function.update_of_ne here, sound.children e there, shrinks.used]
    by_cases gone : c = nr
    · subst gone
      simp [above, Ne.symm here]
    · simp [gone]

theorem Sound.leaf (bare : f.IsDir nr → inodes (records nr) = []) (positive : nr ≠ 0) (used : f.Used c) : parent c ≠ nr := by
  intro same
  have other : c ≠ 0 := by
    rintro rfl
    exact positive (same.symm.trans sound.top)
  have dirN : f.Dir nr := same ▸ sound.above c used
  have inside := (sound.children nr dirN c).mpr ⟨used, other, same⟩
  rw [bare dirN.2] at inside
  cases inside

theorem Sound.shrink (dir : f.Dir d) (present : lookup (records d) name = some nr) (own : name ≠ dot) (up : name ≠ dotdot)
    (bare : f.IsDir nr → inodes (records nr) = []) (shrinks : Shrinks f f' d nr name (records d)) :
    Sound f' parent (Function.update records d (bury name (records d))) := by
  obtain ⟨-, -, positive, -⟩ := sound.named_child dir present own up
  refine .of_contains (fun m => shrinks.zeroed dir sound.zeroed) (fun m => shrinks.file dir sound.file)
    (shrinks.dir_kept dir sound.root positive.symm) ?_ (sound.shrink_children dir present own up shrinks) (fun m there => ?_) sound.top
    fun m there => sound.reaches m ((shrinks.used m).mp there).1
  · refine shrinks.forall_dir ?_ fun m there here old => ?_
    · rw [Function.update_self]
      exact (sound.contains dir).bury shrinks.directory present own up
    · rw [Function.update_of_ne here]
      exact (sound.contains there).of_node (shrinks.others m here old)
  · have before := ((shrinks.used m).mp there).1
    exact shrinks.dir_kept dir (sound.above m before) (sound.leaf bare positive before)

theorem Sound.congr (used : ∀ m, f'.Used m ↔ f.Used m) (kept : ∀ m, ¬ (f.Used m ∧ ¬ f.IsDir m) → f'.node m = f.node m)
    (type : ∀ m, (f'.node m).i_type = (f.node m).i_type) (file : ∀ m, f.Used m → ¬ f.IsDir m → (f'.node m).File) :
    Sound f' parent records := by
  have isDir (m : Nat) : f'.IsDir m ↔ f.IsDir m := by rw [Files.IsDir, type, Files.IsDir]
  have dir (m : Nat) : f'.Dir m ↔ f.Dir m := by rw [Files.Dir, used, isDir, Files.Dir]
  exact {
    zeroed := fun m low free => by
      have before : ¬ f.Used m := fun there => free ((used m).mpr there)
      rw [kept m fun file => before file.1]
      exact sound.zeroed m low before
    file := fun m there other => file m ((used m).mp there) fun same => other ((isDir m).mpr same)
    root := (dir 0).mpr sound.root
    directory := fun m there => by
      have before := (dir m).mp there
      rw [kept m fun file => file.2 before.2]
      exact sound.directory m before
    distinct := fun m there => sound.distinct m ((dir m).mp there)
    self := fun m there => sound.self m ((dir m).mp there)
    up := fun m there => sound.up m ((dir m).mp there)
    once := fun m there => sound.once m ((dir m).mp there)
    children := fun m there c => by rw [sound.children m ((dir m).mp there), used]
    above := fun m there => (dir _).mpr (sound.above m ((used m).mp there))
    top := sound.top
    reaches := fun m there => sound.reaches m ((used m).mp there) }

end Trees

end OperatingSystem.Fs
