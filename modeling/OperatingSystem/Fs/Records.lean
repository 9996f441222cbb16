import Mathlib.Data.List.TakeWhile
import OperatingSystem.Fs.Dir
import OperatingSystem.Fs.ReadData

namespace OperatingSystem.Fs

open Bytes Prog InodeType

structure Record where
  d_inode_nr : Int32
  d_name : List UInt8
  named : d_name ≠ []
  short : d_name.length < 2 ^ 31
  terminated : 0 ≤ d_inode_nr → 0 ∈ d_name

namespace Record

variable (r : Record)

def Live : Prop := 0 ≤ r.d_inode_nr

instance : Decidable r.Live := inferInstanceAs (Decidable (_ ≤ _))

def number : Nat := r.d_inode_nr.toInt.toNat

def name : Name := r.d_name.takeWhile (· ≠ 0)

def d_name_len : Int32 := Int32.ofNat r.d_name.length

def size : Nat := Dirent.size + r.d_name.length

def bytes : List UInt8 := bytes32 r.d_name_len.toUInt32 ++ (bytes32 r.d_inode_nr.toUInt32 ++ r.d_name)

def stored (offset : Nat) : List UInt8 := r.d_name.take (readLength (offset + Dirent.size : Nat) r.d_name.length)

def dirent (offset : Nat) : Dirent := ⟨r.d_name_len, r.d_inode_nr, r.stored offset⟩

def Readable (p : InodePtr) (offset : Nat) : Prop :=
  p.Fetches offset Dirent.size ∧ p.Fetches (offset + Dirent.size : Nat) r.d_name.length

def Legible (offset : Nat) : Prop := 0 ∈ r.stored offset

instance (offset : Nat) : Decidable (r.Legible offset) := inferInstanceAs (Decidable (_ ∈ _))

variable {r}

theorem d_name_len_toInt : r.d_name_len.toInt = r.d_name.length := by
  have := r.short
  rw [d_name_len, Int32.toInt_ofNat_of_lt (by omega)]

theorem length_bytes : r.bytes.length = r.size := by
  simp only [bytes, size, Dirent.size, List.length_append, length_bytes32]
  omega

theorem number_cast (live : r.Live) : (r.number : Int) = r.d_inode_nr.toInt := by
  have low := Int32.le_iff_toInt_le.mp live
  exact Int.toNat_of_nonneg low

theorem live_iff : ¬ r.d_inode_nr < 0 ↔ r.Live := Int32.not_lt

theorem zero_not_mem_name : 0 ∉ r.name := by
  intro member
  have holds := List.mem_takeWhile_imp member
  simp at holds

end Record

section Strings

variable {stored : List UInt8} {name : Name}

theorem cstring_eq (terminated : 0 ∈ stored) : cstring stored = .ok (stored.takeWhile (· ≠ 0)) := by
  induction stored with
  | nil => simp at terminated
  | cons c stored ih =>
      rw [cstring]
      by_cases ends : c = 0
      · simp [ends]
      · have rest : 0 ∈ stored := by simpa [Ne.symm ends] using terminated
        rw [if_neg ends, ih rest]
        simp [ends]

theorem cstring_unterminated (runs : 0 ∉ stored) : cstring stored = .error .uninitialised := by
  induction stored with
  | nil => rfl
  | cons c stored ih =>
      have here : c ≠ 0 := by
        rintro rfl
        simp at runs
      rw [cstring, if_neg here, ih fun there => runs (List.mem_cons_of_mem _ there), Result.error_bind]

theorem strcmp_eq (terminated : 0 ∈ stored) (proper : 0 ∉ name) :
    strcmp stored name = .ok (decide (stored.takeWhile (· ≠ 0) = name)) := by
  induction stored generalizing name with
  | nil => simp at terminated
  | cons c stored ih =>
      by_cases ends : c = 0
      · subst ends
        cases name with
        | nil => simp [strcmp]
        | cons d name =>
            have other : d ≠ 0 := by
              rintro rfl
              simp at proper
            simp [strcmp, other]
      · have rest : 0 ∈ stored := by simpa [Ne.symm ends] using terminated
        cases name with
        | nil => simp [strcmp, ends]
        | cons d name =>
            by_cases same : c = d
            · subst same
              rw [strcmp, if_pos ⟨rfl, ends⟩, ih rest fun there => proper (List.mem_cons_of_mem _ there)]
              simp [ends]
            · simp [strcmp, same, ends]

theorem takeWhile_take {n : Nat} {bytes : List UInt8} (inside : 0 ∈ bytes.take n) :
    (bytes.take n).takeWhile (· ≠ 0) = bytes.takeWhile (· ≠ 0) := by
  induction bytes generalizing n with
  | nil => simp
  | cons c bytes ih =>
      cases n with
      | zero => simp at inside
      | succ n =>
          by_cases ends : c = 0
          · simp [ends]
          · have rest : 0 ∈ bytes.take n := by simpa [Ne.symm ends] using inside
            simpa [ends] using ih rest

end Strings

namespace Record

variable {r : Record} {offset : Nat}

theorem cstring_stored (legible : r.Legible offset) : cstring (r.stored offset) = .ok r.name := by
  rw [cstring_eq legible, stored, takeWhile_take legible, name]

theorem strcmp_stored {name : Name} (legible : r.Legible offset) (proper : 0 ∉ name) :
    strcmp (r.stored offset) name = .ok (decide (r.name = name)) := by
  rw [strcmp_eq legible proper, stored, takeWhile_take legible, Record.name]

end Record

def Listed (p : InodePtr) (offset : Nat) (records : List Record) : Prop :=
  p.dinode.i_size.toInt = (offset + (records.flatMap Record.bytes).length : Nat) ∧
    slice p.byteAt offset (records.flatMap Record.bytes).length = records.flatMap Record.bytes

/-- Every entry is read, and those that name an inode with their names. -/
def Smooth (p : InodePtr) : Nat → List Record → Prop
  | _, [] => True
  | offset, r :: records => r.Readable p offset ∧ (r.Live → r.Legible offset) ∧ Smooth p (offset + r.size) records

section Listing

variable {p : InodePtr} {offset : Nat} {r : Record} {records : List Record}

theorem Listed.cons (listed : Listed p offset (r :: records)) :
    slice p.byteAt offset 4 = bytes32 r.d_name_len.toUInt32 ∧
      slice p.byteAt (offset + 4) 4 = bytes32 r.d_inode_nr.toUInt32 ∧
      slice p.byteAt (offset + Dirent.size) r.d_name.length = r.d_name ∧ Listed p (offset + r.size) records := by
  obtain ⟨size, same⟩ := listed
  have length : ((r :: records).flatMap Record.bytes).length =
      4 + (4 + (r.d_name.length + (records.flatMap Record.bytes).length)) := by
    rw [List.flatMap_cons, List.length_append, Record.length_bytes, Record.size, Dirent.size]
    omega
  rw [length] at same size
  rw [List.flatMap_cons, Record.bytes, List.append_assoc, List.append_assoc, slice_add, slice_add, slice_add] at same
  obtain ⟨len, same⟩ := List.append_inj same (by simp)
  obtain ⟨number, same⟩ := List.append_inj same (by simp)
  obtain ⟨name, rest⟩ := List.append_inj same (by simp)
  refine ⟨len, number, name, ?_, ?_⟩
  · rw [size, Record.size, Dirent.size]
    omega
  · rw [Record.size, Dirent.size, ← Nat.add_assoc, show offset + 8 = offset + 4 + 4 from rfl]
    exact rest

theorem Listed.length (listed : Listed p offset records) : records.length < turns := by
  have some : records.length ≤ (records.flatMap Record.bytes).length := by
    clear listed
    induction records with
    | nil => simp
    | cons r records ih =>
        rw [List.flatMap_cons, List.length_append, Record.length_bytes, Record.size, Dirent.size, List.length_cons]
        omega
  have bound := p.dinode.i_size.toInt_lt
  have size := listed.1
  rw [turns]
  omega

theorem word_bytes32 (w : Int32) : word (bytes32 w.toUInt32) = w := by
  rw [word, bytes32, toNat_ofNat _ _ w.toUInt32.toNat_lt, UInt32.ofNat_toNat]
  rfl

theorem header_eq {r : Record} {stored : List UInt8}
    (same : stored = bytes32 r.d_name_len.toUInt32 ++ bytes32 r.d_inode_nr.toUInt32) :
    Dirent.header stored = .ok (r.d_name_len, r.d_inode_nr) := by
  subst same
  have back : (bytes32 r.d_inode_nr.toUInt32).take 4 = bytes32 r.d_inode_nr.toUInt32 := List.take_of_length_le (by simp)
  simp [Dirent.header, Dirent.size, word_bytes32, back]

end Listing

def Testfs.Opens (t : Testfs) (dir : Nat) (p : InodePtr) : Prop :=
  ∃ i, t.inode_hash_table.find dir = some i ∧ t.sb = p.sb ∧ i.dinode = p.dinode

structure Directory (p : InodePtr) : Prop where
  type : p.dinode.i_type = I_DIR.code
  nonneg : ∀ k, 0 ≤ p.pointer k
  small : p.dinode.i_size.toInt ≤ MAX_FILE_SIZE

theorem read_block_congr {p q : InodePtr} (sb : q.sb = p.sb) (same : q.dinode = p.dinode) (n : Int) :
    q.testfs_read_block n = p.testfs_read_block n := by
  simp only [InodePtr.testfs_read_block, InodePtr.lookup, sb, same]

theorem readWhole_congr {p q : InodePtr} (sb : q.sb = p.sb) (same : q.dinode = p.dinode) (b : Int) (whole i : Nat)
    (buf : List UInt8) : q.readWhole b whole i buf = p.readWhole b whole i buf := by
  induction whole generalizing i buf with
  | zero => rfl
  | succ whole ih => simp only [InodePtr.readWhole, read_block_congr sb same, ih]

theorem testfs_read_data_congr {p q : InodePtr} (sb : q.sb = p.sb) (same : q.dinode = p.dinode) (start : Int) (size : Nat) :
    q.testfs_read_data start size = p.testfs_read_data start size := by
  simp only [InodePtr.testfs_read_data, same, read_block_congr sb same, readWhole_congr sb same]

section Scanning

variable {t : Testfs} {dir : Nat} {p : InodePtr} (opens : t.Opens dir p)
include opens

theorem handle_type : Testfs.handle (.testfs_inode_get_type dir) t = .ok (p.dinode.i_type, t) := by
  obtain ⟨i, found, -, same⟩ := opens
  simp [Testfs.handle, Testfs.testfs_inode_get_type, Testfs.inode, found, same]

theorem handle_size : Testfs.handle (.testfs_inode_get_size dir) t = .ok (p.dinode.i_size.toInt, t) := by
  obtain ⟨i, found, -, same⟩ := opens
  simp [Testfs.handle, Testfs.testfs_inode_get_size, Testfs.inode, found, same]

theorem handle_read (start : Int) (size : Nat) : Testfs.handle (.testfs_read_data dir start size) t =
    p.testfs_read_data start size >>= fun read => .ok (read, t) := by
  obtain ⟨i, found, sb, same⟩ := opens
  simp only [Testfs.handle, Testfs.testfs_read_data, Testfs.inode, found, Result.ok_bind]
  rw [testfs_read_data_congr sb same]

variable (directory : Directory p) {offset : Nat} {r : Record} {records : List Record}
include directory

theorem next_dirent_end (listed : Listed p offset []) :
    run Testfs.handle (testfs_next_dirent dir offset) t = .ok ((none, (offset : Int)), t) := by
  have size := listed.1
  simp only [List.flatMap_nil, List.length_nil, Nat.add_zero] at size
  simp [testfs_next_dirent, handle_type opens, handle_size opens, directory.type, assert, size]

omit opens in
theorem read_fits (listed : Listed p offset (r :: records)) :
    (offset : Int) + (Dirent.size : Nat) ≤ p.dinode.i_size.toInt ∧
      (offset : Int) + (max Dirent.size 1 : Nat) ≤ MAX_FILE_SIZE ∧
      ((offset + Dirent.size : Nat) : Int) + (r.d_name.length : Nat) ≤ p.dinode.i_size.toInt ∧
      ((offset + Dirent.size : Nat) : Int) + (max r.d_name.length 1 : Nat) ≤ MAX_FILE_SIZE := by
  have some := List.length_pos_of_ne_nil r.named
  have size := listed.1
  have small := directory.small
  rw [List.flatMap_cons, List.length_append, Record.length_bytes, Record.size] at size
  simp only [Dirent.size] at size ⊢
  omega

omit directory opens in
theorem readLength_header : readLength offset Dirent.size = Dirent.size := by
  have inside : ¬ EndsWhole offset Dirent.size := by
    simp only [EndsWhole, BLOCK_SIZE, Dirent.size]
    omega
  rw [readLength, if_neg inside]

omit opens in
theorem read_header (listed : Listed p offset (r :: records)) (fetches : p.Fetches offset Dirent.size) :
    ∃ stored, p.testfs_read_data offset Dirent.size = .ok (8, stored) ∧
      Dirent.header stored = .ok (r.d_name_len, r.d_inode_nr) := by
  obtain ⟨within, bound, -⟩ := read_fits directory listed
  obtain ⟨len, number, -⟩ := listed.cons
  have read := testfs_read_data_eq directory.nonneg (Int.natCast_nonneg offset) (by decide) within bound fetches
  refine ⟨_, read, header_eq ?_⟩
  rw [readLength_header, ← len, ← number, Int.toNat_natCast]
  exact slice_add p.byteAt offset 4 4

omit opens in
theorem read_name (listed : Listed p offset (r :: records))
    (fetches : p.Fetches (offset + Dirent.size : Nat) r.d_name.length) :
    p.testfs_read_data (offset + Dirent.size : Nat) r.d_name.length = .ok ((r.d_name.length : Int), r.stored offset) := by
  obtain ⟨-, -, within, bound⟩ := read_fits directory listed
  obtain ⟨-, -, name, -⟩ := listed.cons
  have shorter := readLength_le (offset + Dirent.size : Nat) r.d_name.length
  have front := take_slice p.byteAt (offset + Dirent.size) r.d_name.length (readLength (offset + Dirent.size : Nat) r.d_name.length)
  rw [name, min_eq_left shorter] at front
  rw [testfs_read_data_eq directory.nonneg (Int.natCast_nonneg _) r.short within bound fetches, Int.toNat_natCast, ← front]
  rfl

omit directory in
theorem next_dirent_more (type : p.dinode.i_type = I_DIR.code) (more : (offset : Int) < p.dinode.i_size.toInt) :
    run Testfs.handle (testfs_next_dirent dir offset) t = p.testfs_read_data offset Dirent.size >>= fun read =>
      run Testfs.handle (if read.1 < 0 then return (none, (offset : Int)) else do
        let (d_name_len, d_inode_nr) ← Dirent.header read.2
        assert (0 < d_name_len)
        let (ret, name) ← call (InodeOp.testfs_read_data dir (offset + Dirent.size : Nat) d_name_len.toInt.toNat)
        if ret < 0 then return (none, ((offset + Dirent.size : Nat) : Int))
        return (some ⟨d_name_len, d_inode_nr, name⟩, (offset + Dirent.size : Nat) + d_name_len.toInt)) t := by
  have inside : ¬ p.dinode.i_size.toInt ≤ offset := not_le.mpr more
  simp only [testfs_next_dirent, run_bind, run_call, run_lift, handle_type opens, handle_size opens, handle_read opens,
    type, assert, if_true, Result.ok_bind, inside, if_false]
  cases p.testfs_read_data offset Dirent.size with
  | error e => rfl
  | ok read => rfl

theorem next_dirent_name (listed : Listed p offset (r :: records)) (fetches : p.Fetches offset Dirent.size) :
    run Testfs.handle (testfs_next_dirent dir offset) t =
      p.testfs_read_data (offset + Dirent.size : Nat) r.d_name.length >>= fun read =>
        if read.1 < 0 then .ok ((none, ((offset + Dirent.size : Nat) : Int)), t)
        else .ok ((some ⟨r.d_name_len, r.d_inode_nr, read.2⟩, ((offset + r.size : Nat) : Int)), t) := by
  obtain ⟨stored, read, header⟩ := read_header directory listed fetches
  have within := (read_fits directory listed).1
  have more : (offset : Int) < p.dinode.i_size.toInt := by
    simp only [Dirent.size] at within
    omega
  have positive : 0 < r.d_name_len := by
    have some := List.length_pos_of_ne_nil r.named
    rw [Int32.lt_iff_toInt_lt, Record.d_name_len_toInt]
    simpa using some
  have good : ¬ (8 : Int) < 0 := by decide
  have behind : ((offset + Dirent.size : Nat) : Int) + r.d_name.length = (offset + r.size : Nat) := by
    rw [Record.size]
    omega
  rw [next_dirent_more opens directory.type more, read, Result.ok_bind]
  simp only [good, if_false, run_bind, run_lift, header, Result.ok_bind, assert, positive, if_true, run_call,
    Record.d_name_len_toInt, Int.toNat_natCast, handle_read opens, behind]
  cases p.testfs_read_data (offset + Dirent.size : Nat) r.d_name.length with
  | error e => rfl
  | ok read =>
      simp only [Result.ok_bind]
      split_ifs <;> rfl

theorem next_dirent_cons (listed : Listed p offset (r :: records)) (readable : r.Readable p offset) :
    run Testfs.handle (testfs_next_dirent dir offset) t = .ok ((some (r.dirent offset), ((offset + r.size : Nat) : Int)), t) := by
  have good : ¬ (r.d_name.length : Int) < 0 := by omega
  rw [next_dirent_name opens directory listed readable.1, read_name directory listed readable.2, Result.ok_bind,
    if_neg good, Record.dirent]

theorem next_dirent_strays (listed : Listed p offset (r :: records)) (strays : ¬ r.Readable p offset) :
    run Testfs.handle (testfs_next_dirent dir offset) t = .error .outOfTable := by
  obtain ⟨within, bound, within', bound'⟩ := read_fits directory listed
  by_cases fetches : p.Fetches offset Dirent.size
  · have name := testfs_read_data_strays directory.nonneg (Int.natCast_nonneg _) r.short within' bound'
      fun fetches' => strays ⟨fetches, fetches'⟩
    rw [next_dirent_name opens directory listed fetches, name, Result.error_bind]
  · have header := testfs_read_data_strays directory.nonneg (Int.natCast_nonneg _) (by decide) within bound fetches
    have more : (offset : Int) < p.dinode.i_size.toInt := by
      simp only [Dirent.size] at within
      omega
    rw [next_dirent_more opens directory.type more, header, Result.error_bind]

theorem findDirent_eq {number : Int} {fuel : Nat} (listed : Listed p offset records) (smooth : Smooth p offset records)
    (enough : records.length < fuel) (there : ∃ r ∈ records, r.d_inode_nr.toInt = number) (live : 0 ≤ number) :
    ∃ r ∈ records, r.d_inode_nr.toInt = number ∧ ∃ at', r.Legible at' ∧
      run Testfs.handle (findDirent dir number fuel offset) t = .ok (some (r.dirent at'), t) := by
  induction records generalizing offset fuel with
  | nil => simp at there
  | cons r records ih =>
      obtain ⟨readable, legible, rest⟩ := smooth
      obtain ⟨-, -, -, listed'⟩ := listed.cons
      obtain _ | fuel := fuel
      · simp at enough
      have step : run Testfs.handle (findDirent dir number (fuel + 1) offset) t =
          if r.d_inode_nr.toInt = number then .ok (some (r.dirent offset), t)
          else run Testfs.handle (findDirent dir number fuel (offset + r.size : Nat)) t := by
        rw [findDirent, run_bind, next_dirent_cons opens directory listed readable, Result.ok_bind]
        change run Testfs.handle (if r.d_inode_nr.toInt = number then _ else _) t = _
        split_ifs <;> rfl
      by_cases here : r.d_inode_nr.toInt = number
      · have alive : r.Live := Int32.le_iff_toInt_le.mpr (here ▸ live)
        exact ⟨r, List.mem_cons_self, here, offset, legible alive, by rw [step, if_pos here]⟩
      · obtain ⟨r', member, same⟩ := there
        have later : r' ∈ records := by
          rcases List.mem_cons.mp member with rfl | later
          · exact absurd same here
          · exact later
        obtain ⟨found, inside, number', at', legible', ran⟩ := ih listed' rest (by simpa using enough) ⟨r', later, same⟩
        exact ⟨found, List.mem_cons_of_mem _ inside, number', at', legible', by rw [step, if_neg here, ran]⟩

end Scanning

def names (records : List Record) : List Name := (records.filter (·.Live)).map Record.name

section Names

variable {t : Testfs} {dir : Nat} {p : InodePtr} (opens : t.Opens dir p) (directory : Directory p) {offset : Nat} {r : Record}
  {records : List Record}
include opens directory

theorem nameToInodeNr_eq {fuel : Nat} (listed : Listed p offset records) (smooth : Smooth p offset records)
    (enough : records.length < fuel) (distinct : (names records).Nodup) (member : r ∈ records) (live : r.Live) :
    run Testfs.handle (nameToInodeNr dir r.name fuel offset) t = .ok (r.d_inode_nr.toInt, t) := by
  induction records generalizing offset fuel with
  | nil => simp at member
  | cons r' records ih =>
      obtain ⟨readable, legible, rest⟩ := smooth
      obtain ⟨-, -, -, listed'⟩ := listed.cons
      obtain _ | fuel := fuel
      · simp at enough
      rw [nameToInodeNr, run_bind, next_dirent_cons opens directory listed readable, Result.ok_bind]
      change run Testfs.handle (if r'.d_inode_nr < 0 then _ else _) t = _
      by_cases dead : r'.d_inode_nr < 0
      · have other : r ≠ r' := by
          rintro rfl
          exact Record.live_iff.mpr live dead
        have skipped : names (r' :: records) = names records := by
          have gone : ¬ r'.Live := fun alive => Record.live_iff.mpr alive dead
          rw [names, List.filter_cons_of_neg (by simpa using gone), names]
        rw [if_pos dead]
        exact ih listed' rest (by simpa using enough) (skipped ▸ distinct) (List.mem_of_ne_of_mem other member)
      · have alive := Record.live_iff.mp dead
        have split : names (r' :: records) = r'.name :: names records := by simp [names, alive]
        rw [split, List.nodup_cons] at distinct
        rw [if_neg dead, run_bind, run_lift, Record.dirent, Record.strcmp_stored (legible alive) Record.zero_not_mem_name,
          Result.ok_bind, Result.ok_bind]
        rcases List.mem_cons.mp member with rfl | later
        · simp
        · have other : r'.name ≠ r.name := by
            intro same
            exact distinct.1 (same ▸ List.mem_map_of_mem (List.mem_filter.mpr ⟨later, by simpa using live⟩))
          simp only [other, decide_false, Bool.false_eq_true, if_false]
          exact ih listed' rest (by simpa using enough) distinct.2 later

theorem find_dirent_eq {number : Int} (listed : Listed p 0 records) (smooth : Smooth p 0 records)
    (there : ∃ r ∈ records, r.d_inode_nr.toInt = number) (live : 0 ≤ number) :
    ∃ r ∈ records, r.d_inode_nr.toInt = number ∧ ∃ at', r.Legible at' ∧
      run Testfs.handle (testfs_find_dirent dir number) t = .ok (some (r.dirent at'), t) := by
  obtain ⟨r, member, same, at', legible, ran⟩ := findDirent_eq opens directory listed smooth listed.length there live
  refine ⟨r, member, same, at', legible, ?_⟩
  simp only [testfs_find_dirent, run_bind, run_call, run_lift, handle_type opens, directory.type, assert, if_true,
    Result.ok_bind, live]
  exact ran

theorem dir_name_to_inode_nr_eq (listed : Listed p 0 records) (smooth : Smooth p 0 records)
    (distinct : (names records).Nodup) (member : r ∈ records) (live : r.Live) :
    run Testfs.handle (testfs_dir_name_to_inode_nr dir r.name) t = .ok (r.d_inode_nr.toInt, t) := by
  simp only [testfs_dir_name_to_inode_nr, run_bind, run_call, run_lift, handle_type opens, directory.type, assert, if_true,
    Result.ok_bind]
  exact nameToInodeNr_eq opens directory listed smooth listed.length distinct member live

end Names

end OperatingSystem.Fs
