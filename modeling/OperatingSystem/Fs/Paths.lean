import OperatingSystem.Fs.Listing

namespace OperatingSystem.Fs

open Bytes Prog InodeType Testfs Rooted

def Named (records : List Record) (name : Name) (nr : Nat) : Prop :=
  ∃ r ∈ records, r.Live ∧ r.name = name ∧ r.number = nr

def inodes (records : List Record) : List Nat := (records.filter (·.Child)).map Record.number

/-- The directories are a tree, and their contents are these records. -/
structure Hierarchy (t : Testfs) (root : Nat) (dirs : List Nat) (parent : Nat → Nat) (records : Nat → List Record) : Prop where
  tree : Tree dirs parent root
  directory : ∀ d ∈ dirs, Directory (t.view d)
  listed : ∀ d ∈ dirs, Listed (t.view d) 0 (records d)
  distinct : ∀ d ∈ dirs, (names (records d)).Nodup
  self : ∀ d ∈ dirs, Named (records d) dot d
  up : ∀ d ∈ dirs, Named (records d) dotdot (parent d)
  numbered : ∀ d ∈ dirs, ∀ r ∈ records d, r.Live → r.number < NR_INODES
  once : (dirs.flatMap fun d => inodes (records d)).Nodup
  below : ∀ d ∈ dirs, ∀ c ∈ inodes (records d), c ≠ root ∧ (t.IsDir c → c ∈ dirs ∧ parent c = d)
  named : ∀ d ∈ dirs, d ≠ root → d ∈ inodes (records (parent d))

def follow : List Name → Nat → DirProg Int
  | [], i_nr => return i_nr
  | name :: names, i_nr => do
      let inode_nr ← testfs_dir_name_to_inode_nr i_nr name
      if inode_nr < 0 then return inode_nr
      call (InodeOp.testfs_get_inode inode_nr.toNat)
      follow names inode_nr.toNat

def given {α : Type} (inode_nr : Nat) (p : DirProg α) : DirProg α := do
  call (InodeOp.testfs_get_inode inode_nr)
  p

def PwdRight (t : Testfs) (root d : Nat) : Prop :=
  ∃ depth ret printed t', run Testfs.handle (given d (testfs_pwd depth d)) t = .ok ((ret, printed), t') ∧
    ∃ t'', run Testfs.handle (given root (follow (printed.filterMap Printed.name) root)) t = .ok ((d : Int), t'')

def LsRight (t : Testfs) (root : Nat) (dirs : List Nat) (records : Nat → List Record) : Prop :=
  ∃ depth printed t', run Testfs.handle (given root (testfs_ls true depth root)) t = .ok (printed, t') ∧
    (proper (printed.filterMap Printed.name)).Perm (dirs.flatMap fun d => proper (names (records d)))

section Trees

variable {t : Testfs} {root : Nat} {dirs : List Nat} {parent : Nat → Nat} {records : Nat → List Record}
  (hierarchy : Hierarchy t root dirs parent records)
include hierarchy

theorem children_iff {d : Nat} (member : d ∈ dirs) : (children t records d).Nodup ∧
    ∀ c, c ∈ children t records d ↔ c ∈ dirs ∧ c ≠ root ∧ parent c = d := by
  have inside : children t records d = (inodes (records d)).filter (t.IsDir ·) := by
    rw [children, inodes, List.filter_map, List.filter_filter]
    congr 1
    apply List.filter_congr
    intro r _
    by_cases child : r.Child <;> simp [Record.Descends, child]
  rw [inside]
  constructor
  · exact (List.nodup_flatMap.mp hierarchy.once).1 d member |>.filter _
  · intro c
    rw [List.mem_filter, decide_eq_true_eq]
    constructor
    · rintro ⟨named, type⟩
      obtain ⟨other, there⟩ := hierarchy.below d member c named
      exact ⟨(there type).1, other, (there type).2⟩
    · rintro ⟨there, other, rfl⟩
      exact ⟨hierarchy.named c there other, (hierarchy.directory c there).type⟩

theorem root_low {d : Nat} (member : d ∈ dirs) : d < NR_INODES := by
  obtain ⟨r, inside, live, -, rfl⟩ := hierarchy.self d member
  exact hierarchy.numbered _ member r inside live

end Trees

section Walking

theorem run_given {α : Type} {p : DirProg α} {t u : Testfs} {nr : Nat} (get : t.testfs_get_inode nr = .ok u) :
    run Testfs.handle (given nr p) t = run Testfs.handle p u := by
  rw [given, run_bind, run_call, Testfs.handle, get]
  rfl

inductive Leads (dirs : List Nat) (records : Nat → List Record) : Nat → List Name → Nat → Prop
  | here {d : Nat} : Leads dirs records d [] d
  | step {d e : Nat} {r : Record} {names : List Name} : d ∈ dirs → r ∈ records d → r.Live →
      Leads dirs records r.number names e → Leads dirs records d (r.name :: names) e

variable {t t' : Testfs} {root : Nat} {dirs : List Nat} {parent : Nat → Nat} {records : Nat → List Record} {d e : Nat}
  {names : List Name}

theorem Leads.snoc {r : Record} (leads : Leads dirs records d names e) (member : e ∈ dirs) (inside : r ∈ records e)
    (live : r.Live) : Leads dirs records d (names ++ [r.name]) r.number := by
  induction leads with
  | here => exact .step member inside live .here
  | step member' inside' live' _ ih => exact .step member' inside' live' (ih member inside)

variable (hierarchy : Hierarchy t root dirs parent records) (fine : ∀ d ∈ dirs, Fine t (t.view d) 0 (records d))
include hierarchy fine

theorem follow_eq (leads : Leads dirs records d names e) (same : Same t t') (holds : t'.Holds d) :
    ∃ t'', run Testfs.handle (follow names d) t' = .ok ((e : Int), t'') := by
  induction leads generalizing t' with
  | here => exact ⟨t', rfl⟩
  | @step d e r names member inside live _ ih =>
      obtain ⟨u, get, got⟩ := get_inode_got same (hierarchy.numbered d member r inside live)
      obtain ⟨t'', rest⟩ := ih got.same got.holds
      have look := dir_name_to_inode_nr_eq (same.opens holds) (hierarchy.directory d member) (hierarchy.listed d member)
        (fine d member).1 (hierarchy.distinct d member) inside live
      have low : ¬ r.d_inode_nr.toInt < 0 := not_lt.mpr (Int32.le_iff_toInt_le.mp live)
      refine ⟨t'', ?_⟩
      rw [follow, run_bind, look, Result.ok_bind]
      simp only [low, if_false]
      change run Testfs.handle (given r.number (follow _ r.number)) t' = _
      rw [run_given get, rest]

omit fine in
theorem named_in (member : d ∈ dirs) (other : d ≠ root) : ∃ r ∈ records (parent d), r.d_inode_nr.toInt = d := by
  obtain ⟨r, kept, number⟩ := List.mem_map.mp (hierarchy.named d member other)
  obtain ⟨inside, child⟩ := List.mem_filter.mp kept
  have child := of_decide_eq_true child
  exact ⟨r, inside, by rw [← Record.number_cast child.1, number]⟩

theorem clean_of_fine (member : d ∈ dirs) : t.Clean d := by
  obtain ⟨r, inside, live, -, number⟩ := hierarchy.self d member
  exact number ▸ (fine d member).2 r inside live

theorem testfs_pwd_eq {n depth : Nat} (level : Level parent root d n) (member : d ∈ dirs) (enough : n < depth)
    (same : Same t t') (holds : t'.Holds d) : ∃ ret printed,
      run Testfs.handle (testfs_pwd depth d) t' = .ok ((ret, printed), t') ∧
        Leads dirs records root (printed.filterMap Printed.name) d := by
  have find_up {d : Nat} {t' : Testfs} (member : d ∈ dirs) (same : Same t t') (holds : t'.Holds d) :
      run Testfs.handle (testfs_dir_name_to_inode_nr d dotdot) t' = .ok ((parent d : Int), t') := by
    obtain ⟨r, inside, live, named, number⟩ := hierarchy.up d member
    rw [← named, ← number, Record.number_cast live]
    exact dir_name_to_inode_nr_eq (same.opens holds) (hierarchy.directory d member) (hierarchy.listed d member)
      (fine d member).1 (hierarchy.distinct d member) inside live
  induction level generalizing t' depth with
  | root =>
      obtain _ | depth := depth
      · simp at enough
      refine ⟨1, [.root], ?_, .here⟩
      have low : (0 : Int) ≤ (root : Int) := Int.natCast_nonneg root
      rw [testfs_pwd, run_bind, find_up member same holds, Result.ok_bind, hierarchy.tree.top]
      simp [assert, low]
  | @step d n other above ih =>
      obtain _ | depth := depth
      · simp at enough
      have there := hierarchy.tree.closed d member
      have apart : parent d ≠ d := by
        intro stays
        have := (Level.step other above).unique (stays ▸ above)
        omega
      obtain ⟨u, get, got⟩ := get_inode_got same (root_low hierarchy there)
      obtain ⟨r, inside, number, at', legible, find⟩ := find_dirent_eq (got.same.opens got.holds)
        (hierarchy.directory _ there) (hierarchy.listed _ there) (fine _ there).1 (named_in hierarchy member other)
        (Int.natCast_nonneg d)
      obtain ⟨ret, printed, ran, leads⟩ := ih there (by simpa using enough) got.same got.holds
      have getting : run Testfs.handle (call (InodeOp.testfs_get_inode (parent d))) t' = .ok ((), u) := by
        rw [run_call, Testfs.handle, get]
        rfl
      have putting : run Testfs.handle (call (InodeOp.testfs_put_inode (parent d))) u = .ok ((), t') := by
        rw [run_call, Testfs.handle, got.put (clean_of_fine hierarchy fine there)]
        rfl
      have live : r.Live := Int32.le_iff_toInt_le.mpr (number ▸ Int.natCast_nonneg d)
      have number' : r.number = d := by rw [Record.number, number, Int.toNat_natCast]
      refine ⟨0, printed ++ [.component (ret ≠ 1) r.name], ?_, ?_⟩
      · have low : (0 : Int) ≤ (parent d : Int) := Int.natCast_nonneg _
        have apart' : ¬ (parent d : Int) = d := by simpa using apart
        rw [testfs_pwd, run_bind, find_up member same holds, Result.ok_bind]
        simp only [run_bind, run_lift, assert, low, if_true, Result.ok_bind, apart', if_false]
        change run Testfs.handle (call (InodeOp.testfs_get_inode (parent d))) t' >>= _ = _
        rw [getting, Result.ok_bind]
        change run Testfs.handle (testfs_find_dirent (parent d) d) u >>= _ = _
        rw [find, Result.ok_bind]
        change run Testfs.handle (testfs_pwd depth (parent d) >>= _) u = _
        rw [run_bind, ran, Result.ok_bind]
        change run Testfs.handle (call (InodeOp.testfs_put_inode (parent d)) >>= _) u = _
        rw [run_bind, putting, Result.ok_bind, run_bind, run_lift]
        change cstring (r.stored at') >>= _ >>= _ = _
        rw [Record.cstring_stored legible]
        rfl
      · have path := leads.snoc there inside live
        rw [number'] at path
        simpa [Printed.name] using path

end Walking

section Results

variable {t : Testfs} {root : Nat} {dirs : List Nat} {parent : Nat → Nat} {records : Nat → List Record}
  (counted : t.Counted) (hierarchy : Hierarchy t root dirs parent records)
include counted hierarchy

theorem pwd_right (fine : ∀ d ∈ dirs, Fine t (t.view d) 0 (records d)) {d : Nat} (member : d ∈ dirs) : PwdRight t root d := by
  obtain ⟨n, level⟩ := hierarchy.tree.level member
  have same := Same.refl counted
  obtain ⟨u, get, got⟩ := get_inode_got same (root_low hierarchy member)
  obtain ⟨v, get', got'⟩ := get_inode_got same (root_low hierarchy hierarchy.tree.root_mem)
  obtain ⟨ret, printed, ran, leads⟩ := testfs_pwd_eq hierarchy fine level member (Nat.lt_succ_self n) got.same got.holds
  obtain ⟨w, followed⟩ := follow_eq hierarchy fine leads got'.same got'.holds
  exact ⟨n + 1, ret, printed, u, by rw [run_given get, ran], w, by rw [run_given get', followed]⟩

theorem ls_right_iff : LsRight t root dirs records ↔ ∀ d ∈ dirs, Fine t (t.view d) 0 (records d) := by
  have top := hierarchy.tree.root_mem
  obtain ⟨u, get, got⟩ := get_inode_got (Same.refl counted) (root_low hierarchy top)
  have closed : ∀ d ∈ dirs, ∀ r ∈ records d, r.Descends t → r.number ∈ dirs := by
    intro d member r inside descends
    have named : r.number ∈ inodes (records d) :=
      List.mem_map_of_mem (List.mem_filter.mpr ⟨inside, decide_eq_true descends.1⟩)
    exact ((hierarchy.below d member _ named).2 descends.2).1
  have ran (depth) (x) : run Testfs.handle (given root (testfs_ls true depth root)) t = .ok x ↔ _ :=
    run_given get ▸ testfs_ls_lists hierarchy.directory hierarchy.listed hierarchy.numbered closed depth top u x got.same got.holds
  have child := fun d member => @children_iff t root dirs parent records hierarchy d member
  constructor
  · rintro ⟨depth, printed, t', listed, -⟩ d member
    exact hierarchy.tree.walks_below child ((ran depth _).mp listed).1 top member (hierarchy.tree.below_root member)
  · intro fine
    have walks := hierarchy.tree.walks_of_level child fine .root top (le_refl dirs.length)
    refine ⟨dirs.length, _, u, (ran _ _).mpr ⟨walks, rfl⟩, ?_⟩
    exact (proper_listing _ _).trans ((hierarchy.tree.descend_perm child (le_refl _)).flatMap_right _)

/-- The paths and the listing are right exactly when every directory is fine. -/
theorem paths_and_listings_iff : ((∀ d ∈ dirs, PwdRight t root d) ∧ LsRight t root dirs records) ↔
    ∀ d ∈ dirs, Fine t (t.view d) 0 (records d) := by
  rw [ls_right_iff counted hierarchy]
  exact ⟨And.right, fun fine => ⟨fun d member => pwd_right counted hierarchy fine member, fine⟩⟩

end Results

section LongName

def files (n : Fin 16355) : List Record :=
  [⟨0, [46, 0], by simp, by simp, by simp⟩, ⟨0, [46, 46, 0], by simp, by simp, by simp⟩,
    ⟨1, List.replicate n 97 ++ [0], by simp, by rw [List.length_append, List.length_replicate, List.length_singleton]; omega, by simp⟩]

def rootInode (i_size : Int64) : DInode := { DInode.zero with
  i_type := I_DIR.code
  i_block_nr := fun i => if i.val = 0 then 146 else if i.val = 1 then 147 else 0
  block_count := 2
  i_size }

def fileInode : DInode := { DInode.zero with i_type := I_FILE.code }

def oneFile (n : Fin 16355) : Testfs where
  sb :=
    { sb := ⟨1, 2, 18, 146, 2, 2, 1000⟩
      dev := fun b =>
        if b = 0 then splice zero 0 (DSuperBlock.bytes ⟨1, 2, 18, 146, 2, 2, 1000⟩)
        else if b = 1 ∨ b = 2 then splice zero 0 [3]
        else if b = 18 then splice (splice zero 0 (rootInode (Int64.ofNat (30 + n))).bytes) DINODE_SIZE fileInode.bytes
        else if b = 146 ∨ b = 147 then
          fun k => splice zero 0 ((files n).flatMap Record.bytes) ((b - 146) * BLOCK_SIZE + k)
        else zero
      inode_freemap := { nbits := BLOCK_SIZE * INODE_FREEMAP_SIZE * BITS_PER_WORD, v := splice zero 0 [3] }
      block_freemap := { nbits := BLOCK_SIZE * BLOCK_FREEMAP_SIZE * BITS_PER_WORD, v := splice zero 0 [3] }
      allocFailed := false }
  inode_hash_table := .empty

variable {n : Fin 16355}

theorem oneFile_root : (oneFile n).dinode 0 = rootInode (Int64.ofNat (30 + n)) := by
  have front : DInode.ofMemory (splice (splice zero 0 (rootInode (Int64.ofNat (30 + n))).bytes) DINODE_SIZE fileInode.bytes) 0 =
      DInode.ofMemory (splice zero 0 (rootInode (Int64.ofNat (30 + n))).bytes) 0 :=
    DInode.ofMemory_congr fun i _ high => splice_before (by simpa using high)
  exact front.trans (DInode.ofMemory_splice zero 0 _)

theorem oneFile_file : (oneFile n).dinode 1 = fileInode := DInode.ofMemory_splice _ DINODE_SIZE fileInode

theorem oneFile_pointer (k : Place) : ((oneFile n).view 0).pointer k =
    if k = .direct 0 then 146 else if k = .direct 1 then 147 else 0 := by
  change pointer (oneFile n).sb.dev ((oneFile n).dinode 0) k = _
  rw [oneFile_root]
  cases k with
  | direct i =>
      simp only [pointer, rootInode, Place.direct.injEq, Fin.ext_iff]
      split_ifs <;> first | rfl | contradiction
  | leaf i j => rfl
  | _ => rfl

theorem oneFile_byteAt {i : Nat} (inside : i < 2 * BLOCK_SIZE) :
    ((oneFile n).view 0).byteAt i = splice zero 0 ((files n).flatMap Record.bytes) i := by
  change content (oneFile n).sb.dev ((oneFile n).dinode 0) (i / BLOCK_SIZE) (i % BLOCK_SIZE) = _
  have place := oneFile_pointer (n := n) (target (i / BLOCK_SIZE))
  change pointer (oneFile n).sb.dev ((oneFile n).dinode 0) _ = _ at place
  rw [content, place]
  have block : i / BLOCK_SIZE = 0 ∨ i / BLOCK_SIZE = 1 := by
    simp only [BLOCK_SIZE] at inside ⊢
    omega
  rcases block with first | second
  · have index : i % BLOCK_SIZE = i := by
      simp only [BLOCK_SIZE] at first ⊢
      omega
    rw [first, index, show target 0 = .direct 0 from rfl, if_pos rfl, if_pos (by decide)]
    change splice zero 0 ((files n).flatMap Record.bytes) ((146 - 146) * BLOCK_SIZE + i) = _
    simp
  · have index : (147 - 146) * BLOCK_SIZE + i % BLOCK_SIZE = i := by
      simp only [BLOCK_SIZE] at second ⊢
      omega
    have here : (if target 1 = .direct 0 then 146 else if target 1 = .direct 1 then 147 else 0 : Int) = 147 := rfl
    rw [second, here, if_pos (by decide)]
    change splice zero 0 ((files n).flatMap Record.bytes) ((147 - 146) * BLOCK_SIZE + i % BLOCK_SIZE) = _
    rw [index]

theorem length_files : ((files n).flatMap Record.bytes).length = 30 + n := by
  simp [files, Record.length_bytes, Record.size, Dirent.size]
  omega

theorem oneFile_size : ((oneFile n).view 0).dinode.i_size.toInt = 30 + n := by
  change ((oneFile n).dinode 0).i_size.toInt = _
  rw [oneFile_root]
  have := n.isLt
  change (Int64.ofNat (30 + n)).toInt = _
  rw [Int64.toInt_ofNat_of_lt (by omega)]
  omega

theorem oneFile_listed : Listed ((oneFile n).view 0) 0 (files n) := by
  have := n.isLt
  constructor
  · rw [oneFile_size, length_files]
    omega
  · have same : slice ((oneFile n).view 0).byteAt 0 ((files n).flatMap Record.bytes).length =
        slice (splice zero 0 ((files n).flatMap Record.bytes)) 0 ((files n).flatMap Record.bytes).length := by
      apply slice_congr
      intro i _ high
      rw [length_files] at high
      exact oneFile_byteAt (by rw [BLOCK_SIZE]; omega)
    rw [same, slice_splice_self]

theorem letters_other : List.replicate n.val 97 ≠ dot ∧ List.replicate n.val 97 ≠ dotdot := by
  constructor
  · intro same
    have : (46 : UInt8) ∈ List.replicate n.val 97 := same ▸ List.mem_cons_self
    exact absurd (List.eq_of_mem_replicate this) (by decide)
  · intro same
    have : (46 : UInt8) ∈ List.replicate n.val 97 := same ▸ List.mem_cons_self
    exact absurd (List.eq_of_mem_replicate this) (by decide)

theorem names_files : names (files n) = [dot, dotdot, List.replicate n.val 97] := by
  simp [names, files, Record.Live, Record.name, dot, dotdot]

theorem mem_files {r : Record} (member : r ∈ files n) : r.Live ∧
    (r.name = dot ∧ r.number = 0 ∨ r.name = dotdot ∧ r.number = 0 ∨ r.name = List.replicate n.val 97 ∧ r.number = 1) := by
  simp only [files, List.mem_cons, List.not_mem_nil, or_false] at member
  rcases member with rfl | rfl | rfl
  · exact ⟨by decide, Or.inl ⟨rfl, rfl⟩⟩
  · exact ⟨by decide, Or.inr (Or.inl ⟨rfl, rfl⟩)⟩
  · exact ⟨by simp [Record.Live], Or.inr (Or.inr ⟨by simp [Record.name], rfl⟩)⟩

theorem inodes_files : inodes (files n) = [1] := by
  obtain ⟨other, other'⟩ := @letters_other n
  simp only [dot, dotdot] at other other'
  simp [inodes, files, Record.Child, Record.Live, Record.name, Record.number, dot, dotdot, other, other']

theorem oneFile_hierarchy : Hierarchy (oneFile n) 0 [0] (fun _ => 0) (fun _ => files n) where
  tree :=
    { nodup := List.nodup_singleton 0
      root_mem := List.mem_singleton_self 0
      closed := fun _ _ => List.mem_singleton_self 0
      top := rfl
      reaches := fun d _ => ⟨1, rfl⟩ }
  directory := by
    intro d member
    obtain rfl := List.mem_singleton.mp member
    refine ⟨congrArg DInode.i_type oneFile_root, fun k => ?_, ?_⟩
    · rw [oneFile_pointer]
      split_ifs <;> decide
    · have := n.isLt
      rw [oneFile_size, MAX_FILE_SIZE]
      omega
  listed := by
    intro d member
    obtain rfl := List.mem_singleton.mp member
    exact oneFile_listed
  distinct := by
    intro d _
    obtain ⟨other, other'⟩ := @letters_other n
    have apart : dot ≠ dotdot := by decide
    simp [names_files, apart, other.symm, other'.symm]
  self := by
    intro d member
    obtain rfl := List.mem_singleton.mp member
    exact ⟨_, List.mem_cons_self, by decide, rfl, rfl⟩
  up := by
    intro d _
    exact ⟨_, List.mem_cons_of_mem _ List.mem_cons_self, by decide, rfl, rfl⟩
  numbered := by
    intro d _ r inside _
    have low : (0 : Nat) < NR_INODES ∧ 1 < NR_INODES := by decide
    rcases (mem_files inside).2 with ⟨-, number⟩ | ⟨-, number⟩ | ⟨-, number⟩
    · exact number ▸ low.1
    · exact number ▸ low.1
    · exact number ▸ low.2
  once := by
    simp [inodes_files]
  below := by
    intro d _ c inside
    rw [inodes_files] at inside
    obtain rfl := List.mem_singleton.mp inside
    refine ⟨Nat.one_ne_zero, fun type => ?_⟩
    rw [Testfs.IsDir, oneFile_file] at type
    exact absurd type (by decide)
  named := by
    intro d member other
    exact absurd (List.mem_singleton.mp member) other

theorem oneFile_counted : (oneFile n).Counted := fun nr i found => by cases found

theorem letters_read {len : Nat} : 0 ∈ (List.replicate n.val 97 ++ [(0 : UInt8)]).take len ↔ n.val < len := by
  rw [List.take_append, List.mem_append, List.take_replicate]
  have none : (0 : UInt8) ∉ List.replicate (min len n.val) 97 := by
    intro member
    exact absurd (List.eq_of_mem_replicate member) (by decide)
  rw [List.length_replicate]
  cases more : len - n.val with
  | zero =>
      have : ¬ n.val < len := by omega
      simp [this]
  | succ rest =>
      have : n.val < len := by omega
      simp [this]

theorem oneFile_fine_iff : Fine (oneFile n) ((oneFile n).view 0) 0 (files n) ↔ ¬ EndsWhole 29 (n + 1) := by
  have readable (r : Record) (offset : Nat) : r.Readable ((oneFile n).view 0) offset :=
    ⟨fun _ _ _ misled => misled.2.2 (oneFile_pointer .indirect), fun _ _ _ misled => misled.2.2 (oneFile_pointer .indirect)⟩
  have clean (nr : Nat) : (oneFile n).Clean nr := fun i found => by cases found
  have letters : 0 ∈ (List.replicate n.val 97 ++ [(0 : UInt8)]).take (readLength 29 (List.replicate n.val (97 : UInt8) ++ [0]).length) ↔
      ¬ EndsWhole 29 (n + 1) := by
    rw [letters_read, List.length_append, List.length_replicate, List.length_singleton, readLength]
    split_ifs with ends
    · simp only [ends, not_true_eq_false, iff_false, BLOCK_SIZE]
      omega
    · simp [ends]
  constructor
  · rintro ⟨⟨-, -, -, -, -, legible, -⟩, -⟩
    exact letters.mp (legible (by simp [Record.Live]))
  · intro short
    exact ⟨⟨readable _ _, fun _ => by decide, readable _ _, fun _ => by decide, readable _ _,
      fun _ => letters.mpr short, trivial⟩, fun r _ _ => clean r.number⟩

/-- The name ends with the second block of the directory, and nothing of that block is read. -/
theorem paths_and_listings_fail : (oneFile 16354).Counted ∧
    Hierarchy (oneFile 16354) 0 [0] (fun _ => 0) (fun _ => files 16354) ∧
    ¬ ((∀ d ∈ [0], PwdRight (oneFile 16354) 0 d) ∧ LsRight (oneFile 16354) 0 [0] fun _ => files 16354) := by
  refine ⟨oneFile_counted, oneFile_hierarchy, fun ⟨_, listed⟩ => ?_⟩
  have fine := (ls_right_iff oneFile_counted oneFile_hierarchy).mp listed 0 (List.mem_singleton_self 0)
  exact oneFile_fine_iff.mp fine (by decide)

end LongName

section Nested

def nestedRecords : Nat → List Record
  | 0 => [⟨0, [46, 0], by simp, by simp, by simp⟩, ⟨0, [46, 46, 0], by simp, by simp, by simp⟩, ⟨1, [97, 0], by simp, by simp, by simp⟩]
  | 1 => [⟨1, [46, 0], by simp, by simp, by simp⟩, ⟨0, [46, 46, 0], by simp, by simp, by simp⟩, ⟨2, [98, 0], by simp, by simp, by simp⟩,
      ⟨3, [99, 0], by simp, by simp, by simp⟩]
  | _ => [⟨2, [46, 0], by simp, by simp, by simp⟩, ⟨1, [46, 46, 0], by simp, by simp, by simp⟩]

def nestedInode (d : Nat) (i_size : Int64) : DInode := { DInode.zero with
  i_type := I_DIR.code
  i_block_nr := fun i => if i.val = 0 then Int32.ofNat (146 + d) else 0
  block_count := 1
  i_size }

def helloInode : DInode := { fileInode with
  i_block_nr := fun i => if i.val = 0 then 149 else 0
  block_count := 1
  i_size := 5 }

def nested : Testfs where
  sb :=
    { sb := ⟨1, 2, 18, 146, 4, 4, 1000⟩
      dev := fun b =>
        if b = 0 then splice zero 0 (DSuperBlock.bytes ⟨1, 2, 18, 146, 4, 4, 1000⟩)
        else if b = 1 ∨ b = 2 then splice zero 0 [15]
        else if b = 18 then
          splice (splice (splice (splice zero 0 (nestedInode 0 31).bytes) 64 (nestedInode 1 41).bytes) 128 (nestedInode 2 21).bytes) 192
            helloInode.bytes
        else if b = 146 ∨ b = 147 ∨ b = 148 then splice zero 0 ((nestedRecords (b - 146)).flatMap Record.bytes)
        else if b = 149 then splice zero 0 [104, 101, 108, 108, 111]
        else zero
      inode_freemap := { nbits := BLOCK_SIZE * INODE_FREEMAP_SIZE * BITS_PER_WORD, v := splice zero 0 [15] }
      block_freemap := { nbits := BLOCK_SIZE * BLOCK_FREEMAP_SIZE * BITS_PER_WORD, v := splice zero 0 [15] }
      allocFailed := false }
  inode_hash_table := .empty

theorem nested_dinode {d : Nat} (member : d ∈ [0, 1, 2]) : nested.dinode d = nestedInode d (if d = 0 then 31 else if d = 1 then 41 else 21) := by
  have behind {m : Memory} {off off' : Nat} {i : DInode} (apart : off + DINODE_SIZE ≤ off') :
      DInode.ofMemory (splice m off' i.bytes) off = DInode.ofMemory m off :=
    DInode.ofMemory_congr fun k _ high => splice_before (by omega)
  simp only [List.mem_cons, List.not_mem_nil, or_false] at member
  rcases member with rfl | rfl | rfl
  · exact (behind (by decide)).trans ((behind (by decide)).trans ((behind (by decide)).trans (DInode.ofMemory_splice _ 0 _)))
  · exact (behind (by decide)).trans ((behind (by decide)).trans (DInode.ofMemory_splice _ 64 _))
  · exact (behind (by decide)).trans (DInode.ofMemory_splice _ 128 _)

theorem nested_file : nested.dinode 3 = helloInode := DInode.ofMemory_splice _ 192 helloInode

variable {d : Nat} (member : d ∈ [0, 1, 2])
include member

theorem nested_pointer (k : Place) : (nested.view d).pointer k = if k = .direct 0 then 146 + (d : Int) else 0 := by
  change pointer nested.sb.dev (nested.dinode d) k = _
  rw [nested_dinode member]
  simp only [List.mem_cons, List.not_mem_nil, or_false] at member
  cases k with
  | direct i =>
      simp only [pointer, nestedInode, Place.direct.injEq, Fin.ext_iff]
      rcases member with rfl | rfl | rfl <;> split_ifs <;> first | rfl | contradiction
  | leaf i j => rfl
  | _ => rfl

theorem nested_byteAt {i : Nat} (inside : i < BLOCK_SIZE) :
    (nested.view d).byteAt i = splice zero 0 ((nestedRecords d).flatMap Record.bytes) i := by
  have place := nested_pointer member (target 0)
  rw [if_pos (show target 0 = .direct 0 from rfl)] at place
  change pointer nested.sb.dev (nested.dinode d) _ = _ at place
  change content nested.sb.dev (nested.dinode d) (i / BLOCK_SIZE) (i % BLOCK_SIZE) = _
  rw [Nat.div_eq_of_lt inside, Nat.mod_eq_of_lt inside, content, place, if_pos (by omega)]
  simp only [List.mem_cons, List.not_mem_nil, or_false] at member
  rcases member with rfl | rfl | rfl <;> rfl

theorem nested_length : ((nested.dinode d).i_size.toInt = ((nestedRecords d).flatMap Record.bytes).length) ∧
    ((nestedRecords d).flatMap Record.bytes).length < 50 := by
  rw [nested_dinode member]
  revert d
  decide

theorem nested_listed : Listed (nested.view d) 0 (nestedRecords d) := by
  obtain ⟨length, short⟩ := nested_length member
  refine ⟨by rw [Nat.zero_add]; exact length, ?_⟩
  have same : slice (nested.view d).byteAt 0 ((nestedRecords d).flatMap Record.bytes).length =
      slice (splice zero 0 ((nestedRecords d).flatMap Record.bytes)) 0 ((nestedRecords d).flatMap Record.bytes).length :=
    slice_congr fun i _ high => nested_byteAt member (by rw [BLOCK_SIZE]; omega)
  rw [same, slice_splice_self]

omit member

theorem nested_hierarchy : Hierarchy nested 0 [0, 1, 2] (fun d => d - 1) nestedRecords where
  tree :=
    { nodup := by decide
      root_mem := by decide
      closed := by decide
      top := rfl
      reaches := fun d member => ⟨2, by revert member; revert d; decide⟩ }
  directory := fun d member => by
    refine ⟨by rw [Testfs.view, nested_dinode member]; rfl, fun k => ?_, ?_⟩
    · rw [nested_pointer member]
      split_ifs <;> omega
    · obtain ⟨length, short⟩ := nested_length member
      change (nested.dinode d).i_size.toInt ≤ _
      rw [length, MAX_FILE_SIZE]
      omega
  listed := fun d member => nested_listed member
  distinct := by decide
  self := by
    simp only [Named]
    decide
  up := by
    simp only [Named]
    decide
  numbered := by decide
  once := by decide
  below := by
    intro d member c inside
    have found : c ≠ 0 ∧ (c = 3 ∨ c ∈ [0, 1, 2] ∧ c - 1 = d) := by
      revert c
      revert d
      decide
    refine ⟨found.1, fun type => ?_⟩
    rcases found.2 with rfl | there
    · rw [Testfs.IsDir, nested_file] at type
      exact absurd type (by decide)
    · exact there
  named := by decide

theorem nested_fine {d : Nat} (member : d ∈ [0, 1, 2]) : Fine nested (nested.view d) 0 (nestedRecords d) := by
  have readable (r : Record) (offset : Nat) : r.Readable (nested.view d) offset :=
    ⟨fun _ _ _ misled => misled.2.2 (nested_pointer member .indirect), fun _ _ _ misled => misled.2.2 (nested_pointer member .indirect)⟩
  have smooth : Smooth (nested.view d) 0 (nestedRecords d) := by
    simp only [List.mem_cons, List.not_mem_nil, or_false] at member
    rcases member with rfl | rfl | rfl <;> simp only [nestedRecords, Smooth, readable, true_and] <;> decide
  exact ⟨smooth, fun r _ _ i found => by cases found⟩

theorem nested_counted : nested.Counted := fun nr i found => by cases found

theorem paths_and_listings_nested :
    (∀ d ∈ [0, 1, 2], PwdRight nested 0 d) ∧ LsRight nested 0 [0, 1, 2] nestedRecords :=
  (paths_and_listings_iff nested_counted nested_hierarchy).mpr fun _ member => nested_fine member

end Nested

end OperatingSystem.Fs
