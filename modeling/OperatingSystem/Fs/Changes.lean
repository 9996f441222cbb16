import OperatingSystem.Fs.Scans

namespace OperatingSystem.Fs

open Bytes Prog InodeType

namespace Record

theorem length_terminated {name : Name} (brief : name.length < BLOCK_SIZE) : (name ++ [0]).length < 2 ^ 31 := by
  simp only [BLOCK_SIZE] at brief
  simp only [List.length_append, List.length_singleton]
  omega

def made (name : Name) (nr : Nat) (brief : name.length < BLOCK_SIZE) : Record where
  d_inode_nr := Int32.ofInt nr
  d_name := name ++ [0]
  named := List.append_ne_nil_of_right_ne_nil name (List.cons_ne_nil 0 [])
  short := length_terminated brief
  terminated := fun _ => List.mem_append_right name (List.mem_singleton_self 0)

/-- A tombstone the entry may be stored over. -/
def Fits (r q : Record) : Prop := ¬ q.Live ∧ q.d_name.length = r.d_name.length

instance (r q : Record) : Decidable (r.Fits q) := inferInstanceAs (Decidable (_ ∧ _))

end Record

def enter (r : Record) : List Record → List Record
  | [] => [r]
  | q :: records => if r.Fits q then r :: records else q :: enter r records

def bury (name : Name) : List Record → List Record
  | [] => []
  | q :: records => if q.Live ∧ q.name = name then q.buried :: records else q :: bury name records

def span (front : List Record) : Nat := (front.flatMap Record.bytes).length

section Shapes

variable {r q : Record} {name : Name} {nr : Nat} {records front back : List Record}

theorem Record.name_made (brief : name.length < BLOCK_SIZE) (proper : 0 ∉ name) : (made name nr brief).name = name := by
  have kept : ∀ c ∈ name, decide (c ≠ 0) = true := by
    intro c member
    simp only [ne_eq, decide_eq_true_eq]
    rintro rfl
    exact proper member
  rw [Record.name, made, List.takeWhile_append_of_pos kept]
  simp

theorem Record.size_made (brief : name.length < BLOCK_SIZE) : (made name nr brief).size = 9 + name.length := by
  simp only [Record.size, Dirent.size, made, List.length_append, List.length_singleton]
  omega

theorem Record.length_made (brief : name.length < BLOCK_SIZE) : (made name nr brief).d_name.length ≤ BLOCK_SIZE := by
  rw [made, List.length_append, List.length_singleton]
  exact brief

theorem Record.toInt_made (brief : name.length < BLOCK_SIZE) (low : nr < 2 ^ 31) :
    (made name nr brief).d_inode_nr.toInt = nr := Int32.toInt_ofInt_of_le (by omega) (by omega)

theorem Record.live_made (brief : name.length < BLOCK_SIZE) (low : nr < 2 ^ 31) : (made name nr brief).Live := by
  rw [Record.Live, Int32.le_iff_toInt_le, toInt_made brief low]
  exact Int.natCast_nonneg nr

theorem Record.number_made (brief : name.length < BLOCK_SIZE) (low : nr < 2 ^ 31) : (made name nr brief).number = nr := by
  rw [Record.number, toInt_made brief low, Int.toNat_natCast]

theorem span_cons : span (r :: records) = r.size + span records := by
  rw [span, List.flatMap_cons, List.length_append, Record.length_bytes, span]

theorem span_append : span (front ++ back) = span front + span back := by
  rw [span, List.flatMap_append, List.length_append, span, span]

theorem enter_shape (r : Record) (records : List Record) : ∃ front old back, records = front ++ (old ++ back) ∧
    enter r records = front ++ r :: back ∧ ((∃ q, old = [q] ∧ r.Fits q) ∨ old ++ back = []) := by
  induction records with
  | nil => exact ⟨[], [], [], rfl, rfl, Or.inr rfl⟩
  | cons q records ih =>
      by_cases fits : r.Fits q
      · exact ⟨[], [q], records, rfl, by rw [enter, if_pos fits]; rfl, Or.inl ⟨q, rfl, fits⟩⟩
      · obtain ⟨front, old, back, split, entered, there⟩ := ih
        exact ⟨q :: front, old, back, by rw [split]; rfl, by rw [enter, if_neg fits, entered]; rfl, there⟩

theorem bury_shape (present : lookup records name = some nr) : ∃ front q back, records = front ++ q :: back ∧
    bury name records = front ++ q.buried :: back ∧ q.Live ∧ q.name = name ∧ q.number = nr ∧
    ∀ r ∈ front, ¬ (r.Live ∧ r.name = name) := by
  induction records with
  | nil => simp [lookup] at present
  | cons q records ih =>
      by_cases here : q.Live ∧ q.name = name
      · have number : q.number = nr := by simpa [lookup, here.1, here.2] using present
        exact ⟨[], q, records, rfl, by rw [bury, if_pos here]; rfl, here.1, here.2, number, by simp⟩
      · have later : lookup records name = some nr := by
          rw [lookup, List.find?_cons_of_neg (by simpa using here)] at present
          exact present
        obtain ⟨front, r, back, split, buried, live, named, number, none⟩ := ih later
        refine ⟨q :: front, r, back, by rw [split]; rfl, by rw [bury, if_neg here, buried]; rfl, live, named, number, ?_⟩
        exact List.forall_mem_cons.mpr ⟨here, none⟩

end Shapes

section Storing

variable {n : Node} {r : Record} {front old back : List Record}

theorem Node.Lists.write (lists : n.Lists 0 (front ++ (old ++ back))) (fits : span old = r.size ∨ old ++ back = [])
    (brief : r.d_name.length ≤ BLOCK_SIZE) : (n.write r.bytes (span front)).Lists 0 (front ++ r :: back) := by
  obtain ⟨size, same, briefs⟩ := lists
  have whole : ((front ++ r :: back).flatMap Record.bytes).length = span front + (r.bytes.length + span back) := by
    rw [List.flatMap_append, List.length_append, List.flatMap_cons, List.length_append]
    rfl
  have before : ((front ++ (old ++ back)).flatMap Record.bytes).length = span front + (span old + span back) := by
    rw [List.flatMap_append, List.length_append, List.flatMap_append, List.length_append]
    rfl
  rw [before] at size same
  rw [List.flatMap_append, List.flatMap_append, slice_add, slice_add] at same
  obtain ⟨first, same⟩ := List.append_inj same (by simp [span])
  obtain ⟨-, last⟩ := List.append_inj same (by simp [span])
  have last' : slice n.content (0 + span front + r.bytes.length) (span back) = back.flatMap Record.bytes := by
    rcases fits with equal | none
    · rw [Record.length_bytes, ← equal]
      exact last
    · obtain ⟨-, rfl⟩ := List.append_eq_nil_iff.mp none
      rfl
  refine ⟨?_, ?_, fun q member => ?_⟩
  · rw [whole]
    simp only [Node.write, size]
    rcases fits with equal | none
    · rw [Record.length_bytes, ← equal]
      omega
    · obtain ⟨rfl, rfl⟩ := List.append_eq_nil_iff.mp none
      have none : span [] = 0 := rfl
      simp only [none]
      omega
  · rw [whole, slice_add, slice_add, List.flatMap_append, List.flatMap_cons, ← last', ← first]
    simp only [Node.write, Nat.zero_add]
    rw [slice_splice_self, slice_splice_other (Or.inl (by omega)), slice_splice_other (Or.inr (Nat.le_refl _))]
  · rcases List.mem_append.mp member with before | after
    · exact briefs q (List.mem_append_left _ before)
    · rcases List.mem_cons.mp after with rfl | after
      · exact brief
      · exact briefs q (List.mem_append_right _ (List.mem_append_right _ after))

theorem Node.Directory.write {records : List Record} (directory : n.Directory records) (split : records = front ++ (old ++ back))
    (fits : span old = r.size ∨ old ++ back = []) (room : span old = r.size ∨ n.i_size + r.size < NEAR_FILE_SIZE)
    (brief : r.d_name.length ≤ BLOCK_SIZE) : (n.write r.bytes (span front)).Directory (front ++ r :: back) := by
  subst split
  have lists := directory.lists.write fits brief
  have size : (n.write r.bytes (span front)).i_size = (0 + span (front ++ r :: back) : Nat) := lists.1
  have before : n.i_size = (0 + span (front ++ (old ++ back)) : Nat) := directory.lists.1
  have small := directory.small
  rw [span_append, span_cons] at size
  rw [span_append, span_append] at before
  refine ⟨directory.type, lists, ?_⟩
  rcases fits with equal | none
  · omega
  · obtain ⟨rfl, rfl⟩ := List.append_eq_nil_iff.mp none
    have none : span [] = 0 := rfl
    rcases room with equal | room
    · omega
    · omega

theorem Node.write_size_le (n : Node) (r : Record) (front : List Record) (inside : span front ≤ n.i_size) :
    (n.write r.bytes (span front)).i_size ≤ n.i_size + r.size := by
  simp only [Node.write, Record.length_bytes]
  omega

end Storing

theorem mem_names {name : Name} {records : List Record} : name ∈ names records ↔ ∃ r ∈ records, r.Live ∧ r.name = name := by
  simp [names, and_assoc]

theorem lookup_eq_none {name : Name} {records : List Record} : lookup records name = none ↔ name ∉ names records := by
  simp [lookup, mem_names]

namespace Files

section Adding

variable {l : Limit} {f : Files} {dir : Nat} {h : Nat × Bool} (held : f.held dir = some h) (type : f.IsDir dir)
  (small : (f.node dir).i_size < NEAR_FILE_SIZE) {offset fuel : Nat} {r : Record} {records : List Record}
include held type small

theorem addDirent_run (fresh : r.name ∉ names records) (lists : (f.node dir).Lists offset records)
    (enough : records.length < fuel) : ∃ front old back, records = front ++ (old ++ back) ∧
      enter r records = front ++ r :: back ∧ (span old = r.size ∨ old ++ back = []) ∧
      run (handle l) (addDirent dir r.name r.d_name_len fuel offset) f =
        .ok ((0, !old.isEmpty, ((offset + span front : Nat) : Int)), f) := by
  induction records generalizing offset fuel with
  | nil =>
      obtain _ | fuel := fuel
      · simp at enough
      refine ⟨[], [], [], rfl, rfl, Or.inr rfl, ?_⟩
      rw [addDirent, run_bind, next_dirent_nil held type lists, Result.ok_bind]
      rfl
  | cons q records ih =>
      obtain _ | fuel := fuel
      · simp at enough
      have fresh' : r.name ∉ names records := fun member => fresh (by
        obtain ⟨s, inside, there⟩ := mem_names.mp member
        exact mem_names.mpr ⟨s, List.mem_cons_of_mem _ inside, there⟩)
      have other (alive : q.Live) : q.name ≠ r.name := fun same =>
        fresh (mem_names.mpr ⟨q, List.mem_cons_self, alive, same⟩)
      have lengths : q.d_name_len = r.d_name_len ↔ q.d_name.length = r.d_name.length := by
        rw [← Int32.toInt_inj, Record.d_name_len_toInt, Record.d_name_len_toInt, Int.natCast_inj]
      rw [addDirent, run_bind, next_dirent_cons held type small lists, Result.ok_bind]
      by_cases fits : r.Fits q
      · refine ⟨[], [q], records, rfl, by rw [enter, if_pos fits]; rfl, Or.inl ?_, ?_⟩
        · rw [span_cons, Record.size, Record.size, fits.2]
          rfl
        · have dead : ¬ 0 ≤ q.d_inode_nr := fits.1
          simp only [Record.entry, run_bind, dead, if_false, run_pure, Result.ok_bind, Bool.false_eq_true, false_or,
            lengths.mpr fits.2, ne_eq, not_true_eq_false]
          rfl
      · obtain ⟨front, old, back, split, entered, there, ran⟩ := ih fresh' lists.cons.2.2.2 (by simpa using enough)
        refine ⟨q :: front, old, back, by rw [split]; rfl, by rw [enter, if_neg fits, entered]; rfl, there, ?_⟩
        rw [span_cons, ← Nat.add_assoc]
        by_cases alive : q.Live
        · have positive : 0 ≤ q.d_inode_nr := alive
          simp only [Record.entry, positive, if_true, run_bind, run_lift, Record.strcmp_name alive Record.zero_not_mem_name,
            Result.ok_bind, other alive, decide_false, Bool.false_eq_true, if_false, true_or]
          exact ran
        · have negative : ¬ 0 ≤ q.d_inode_nr := alive
          have longer : ¬ q.d_name_len = r.d_name_len := fun same => fits ⟨alive, lengths.mp same⟩
          simp only [Record.entry, negative, if_false, run_bind, run_pure, Result.ok_bind, Bool.false_eq_true, false_or, ne_eq,
            longer, not_false_eq_true, if_true]
          exact ran

omit small in
theorem add_dirent_run (directory : (f.node dir).Directory records) (name : Name) (nr : Nat) (brief : name.length < BLOCK_SIZE)
    (proper : 0 ∉ name) (fresh : name ∉ names records)
    (room : (f.node dir).i_size + (Record.made name nr brief).size < NEAR_FILE_SIZE) :
    ∃ n len, run (handle l) (testfs_add_dirent dir name nr) f = .ok (len, (f.setNode dir n).setDirty dir true) ∧ 0 ≤ len ∧
      n.Directory (enter (.made name nr brief) records) ∧ n.i_size ≤ (f.node dir).i_size + (Record.made name nr brief).size := by
  have small := directory.small
  have named : (Record.made name nr brief).name = name := Record.name_made brief proper
  have size := directory.lists.1
  have fresh' : (Record.made name nr brief).name ∉ names records := by rwa [named]
  obtain ⟨front, old, back, split, entered, fits, ran⟩ := addDirent_run (l := l) held type small fresh' directory.lists
    (directory.lists.length small)
  have inside : span front ≤ (records.flatMap Record.bytes).length := by
    rw [split, List.flatMap_append, List.length_append]
    exact Nat.le_add_right _ _
  have length : (Record.made name nr brief).d_name_len = Int32.ofNat (name.length + 1) := by
    simp [Record.d_name_len, Record.made]
  have found : (!old.isEmpty) = true ∨ ((0 + span front : Nat) : Int) = (f.node dir).i_size := by
    cases old with
    | cons q old => exact Or.inl rfl
    | nil =>
        rcases fits with equal | none
        · have some : span [] = 0 := rfl
          rw [some, Record.size, Dirent.size] at equal
          omega
        · obtain rfl : back = [] := none
          right
          rw [size, split, List.append_nil, List.append_nil]
          rfl
  have narrow : wrap32 ((0 + span front : Nat) : Int) = (span front : Nat) := by
    simp only [NEAR_FILE_SIZE] at small
    rw [Nat.zero_add, wrap32_eq (Int.natCast_nonneg _) (by omega)]
  have bytes : Dirent.bytes ⟨Int32.ofNat (name.length + 1), Int32.ofInt nr, name ++ [0]⟩ = (Record.made name nr brief).bytes := by
    rw [← length]
    rfl
  have length' : (Record.made name nr brief).bytes.length = (Record.made name nr brief).size := Record.length_bytes
  have some : (Record.made name nr brief).bytes ≠ [] := by simp [Record.bytes, Record.made]
  have directory' := directory.write split fits (Or.inr room) (Record.length_made brief)
  have grown := (f.node dir).write_size_le (.made name nr brief) front (by omega)
  refine ⟨_, (Record.made name nr brief).bytes.length, ?_, Int.natCast_nonneg _, by rwa [entered], grown⟩
  have tall : ¬ 2 ^ 31 ≤ name.length + 1 := by
    simp only [BLOCK_SIZE] at brief
    omega
  have zero : ¬ (0 : Int) < 0 := by omega
  have wrote : handle l (.testfs_write_data dir (Dirent.bytes ⟨Int32.ofNat (name.length + 1), Int32.ofInt nr, name ++ [0]⟩)
      (wrap32 ((0 + span front : Nat) : Int))) f = .ok (((Record.made name nr brief).bytes.length : Int),
        f.write dir (Record.made name nr brief).bytes (span front)) := by
    rw [narrow, bytes]
    exact handle_write_data held some (by omega)
  rw [named, length, Int.natCast_zero] at ran
  simp only [testfs_add_dirent, tall, if_false, run_bind, run_call, run_lift, handle_inode_type held,
    (show (f.node dir).i_type = I_DIR.code from type), assert, if_true, Result.ok_bind, ran, zero, handle_inode_size held, found,
    testfs_write_dirent, Int.natCast_nonneg, wrote]
  rfl

end Adding

/-- Not in use, or in use without changes that are not on the disk. -/
def Settled (f : Files) (nr : Nat) : Prop := ∀ h, f.held nr = some h → 0 < h.1 ∧ h.2 = false

theorem remove_dirent_allowed_run {f : Files} {nr : Nat} {records : List Record} (low : nr < NR_INODES) (settled : f.Settled nr)
    (directory : f.IsDir nr → (f.node nr).Directory records) :
    run (handle l) (testfs_remove_dirent_allowed nr) f = .ok (if f.IsDir nr ∧ ∃ r ∈ records, r.Child then -ENOTEMPTY else 0, f) := by
  obtain ⟨count, here⟩ : ∃ count, (f.get nr).held nr = some (count, false) := by
    cases held : f.held nr with
    | none => exact ⟨1, by simp [get, held]⟩
    | some h => exact ⟨h.1 + 1, by simp [get, held, (settled h held).2]⟩
  have back : (f.get nr).put nr = f := put_get fun h held => (settled h held).1
  have type : ((f.get nr).node nr).i_type = I_DIR.code ↔ f.IsDir nr := Iff.rfl
  simp only [testfs_remove_dirent_allowed, run_bind, run_call, handle_get low, Result.ok_bind, handle_inode_type here]
  by_cases dir : f.IsDir nr
  · have allowed : run (handle l) (removeDirentAllowed nr turns (0 : Nat)) (f.get nr) =
        .ok (if ∃ r ∈ records, r.Child then -ENOTEMPTY else 0, f.get nr) :=
      removeDirentAllowed_run here dir (directory dir).small (directory dir).lists
        ((directory dir).lists.length (directory dir).small)
    rw [Int.natCast_zero] at allowed
    simp only [type.mpr dir, ne_eq, not_true_eq_false, if_false, run_bind, run_call, run_pure, allowed, Result.ok_bind,
      handle_put here rfl, back, dir, true_and]
  · have other : ¬ ((f.get nr).node nr).i_type = I_DIR.code := mt type.mp dir
    simp only [other, ne_eq, not_false_eq_true, if_true, run_bind, run_call, run_pure, Result.ok_bind, handle_put here rfl, back,
      dir, false_and, if_false]

section Removing

variable {l : Limit} {f : Files} {dir : Nat} {h : Nat × Bool} (held : f.held dir = some h) (type : f.IsDir dir)
  (small : (f.node dir).i_size < NEAR_FILE_SIZE) {offset fuel nr : Nat} {records below : List Record} {name : Name}
include held type small

theorem removeDirent_absent (proper : 0 ∉ name) (absent : lookup records name = none) (lists : (f.node dir).Lists offset records)
    (enough : records.length < fuel) : run (handle l) (removeDirent dir name fuel offset) f = .ok (-ENOENT, f) := by
  induction records generalizing offset fuel with
  | nil =>
      obtain _ | fuel := fuel
      · simp at enough
      rw [removeDirent, run_bind, next_dirent_nil held type lists, Result.ok_bind]
      rfl
  | cons q records ih =>
      obtain _ | fuel := fuel
      · simp at enough
      rw [lookup_eq_none, mem_names] at absent
      push Not at absent
      have rest := ih (lookup_eq_none.mpr fun member => by
        obtain ⟨s, inside, live, same⟩ := mem_names.mp member
        exact absent s (List.mem_cons_of_mem _ inside) live same) lists.cons.2.2.2 (by simpa using enough)
      rw [removeDirent, run_bind, next_dirent_cons held type small lists, Result.ok_bind]
      change run (handle l) (if q.d_inode_nr < 0 then _ else _) f = _
      by_cases live : q.Live
      · rw [if_neg (Record.live_iff.mpr live), run_bind, run_lift, Record.entry, Record.strcmp_name live proper,
          Result.ok_bind, Result.ok_bind]
        simp only [absent q List.mem_cons_self live, decide_false, Bool.false_eq_true, if_false]
        exact rest
      · have dead : q.d_inode_nr < 0 := by
          by_contra alive
          exact live (Record.live_iff.mp alive)
        rw [if_pos dead]
        exact rest

theorem removeDirent_present (proper : 0 ∉ name) (present : lookup records name = some nr) (low : nr < NR_INODES)
    (settled : f.Settled nr) (directory : f.IsDir nr → (f.node nr).Directory below) (lists : (f.node dir).Lists offset records)
    (enough : records.length < fuel) : ∃ front q back, records = front ++ q :: back ∧ bury name records = front ++ q.buried :: back ∧
      run (handle l) (removeDirent dir name fuel offset) f = .ok (if f.IsDir nr ∧ ∃ r ∈ below, r.Child then (-ENOTEMPTY, f)
        else ((nr : Int), f.write dir q.buried.bytes (offset + span front))) := by
  induction records generalizing offset fuel with
  | nil => simp [lookup] at present
  | cons q records ih =>
      obtain _ | fuel := fuel
      · simp at enough
      rw [removeDirent, run_bind, next_dirent_cons held type small lists, Result.ok_bind]
      by_cases here : q.Live ∧ q.name = name
      · have number : q.number = nr := by simpa [lookup, here.1, here.2] using present
        refine ⟨[], q, records, rfl, by rw [bury, if_pos here]; rfl, ?_⟩
        have alive : ¬ q.d_inode_nr < 0 := Record.live_iff.mpr here.1
        have whole : ¬ q.d_name.length < q.d_name_len.toInt.toNat := by
          rw [Record.d_name_len_toInt, Int.toNat_natCast]
          exact lt_irrefl _
        have value : q.d_inode_nr.toInt = (nr : Int) := by rw [← Record.number_cast here.1, number]
        have allowed := remove_dirent_allowed_run (l := l) low settled directory
        have within := lists.cons.2.2.1
        have length : q.buried.bytes.length = q.size := Record.length_bytes
        have some : q.buried.bytes ≠ [] := by
          rw [← List.length_pos_iff, length, Record.size, Dirent.size]
          omega
        have positive : (0 : Int) ≤ q.buried.bytes.length := Int.natCast_nonneg _
        simp only [Record.entry, alive, if_false, run_bind, run_lift, Record.strcmp_name here.1 proper, here.2, decide_true,
          Result.ok_bind, if_true, value, Int.toNat_natCast, allowed]
        by_cases refused : f.IsDir nr ∧ ∃ r ∈ below, r.Child
        · have negative : -ENOTEMPTY < 0 := by decide
          simp only [refused, and_self, if_true, negative, run_pure]
        · have zero : ¬ (0 : Int) < 0 := by omega
          have written : handle l (.testfs_write_data dir
              (Dirent.bytes ⟨q.d_name_len, INVALID_INODE_NR, q.d_name⟩) (offset : Nat)) f =
                .ok ((q.buried.bytes.length : Int), f.write dir q.buried.bytes offset) :=
                  handle_write_data held some (show offset + q.buried.bytes.length ≤ NEAR_FILE_SIZE by omega)
          simp only [refused, if_false, zero, whole, run_bind, run_call, written, Result.ok_bind, positive, if_true, run_pure]
          rfl
      · have later : lookup records name = some nr := by
          rw [lookup, List.find?_cons_of_neg (by simpa using here)] at present
          exact present
        obtain ⟨front, r, back, split, buried, ran⟩ := ih later lists.cons.2.2.2 (by simpa using enough)
        refine ⟨q :: front, r, back, by rw [split]; rfl, by rw [bury, if_neg here, buried]; rfl, ?_⟩
        rw [span_cons, ← Nat.add_assoc]
        change run (handle l) (if q.d_inode_nr < 0 then _ else _) f = _
        by_cases live : q.Live
        · have other : q.name ≠ name := fun same => here ⟨live, same⟩
          rw [if_neg (Record.live_iff.mpr live), run_bind, run_lift, Record.entry, Record.strcmp_name live proper,
            Result.ok_bind, Result.ok_bind]
          simp only [other, decide_false, Bool.false_eq_true, if_false]
          exact ran
        · have dead : q.d_inode_nr < 0 := by
            by_contra alive
            exact live (Record.live_iff.mp alive)
          rw [if_pos dead]
          exact ran

end Removing

end Files

end OperatingSystem.Fs
