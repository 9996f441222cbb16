import OperatingSystem.Fs.WriteReport

namespace OperatingSystem.Fs

open Bytes Ownership

namespace InodePtr

variable (p : InodePtr) (buf : List UInt8) (start : Int)

def Reaches (n : Int) (piece : Piece) (p1 : InodePtr) : Prop :=
  ∃ done rest, writePieces buf start = done ++ piece :: rest ∧ Stores p done p1 ∧ n = start / BLOCK_SIZE + done.length

/-- The write keeps to the maximum file size, and a block number past it is neither cut to a smaller
one nor looked up in a table. -/
structure Enforces : Prop where
  size : ∀ ret p', p.testfs_write_data buf start = .ok (ret, p') → p'.dinode.i_size.toInt ≤ MAX_FILE_SIZE
  refused : MAX_FILE_SIZE < start + buf.length → ∃ ret p', p.testfs_write_data buf start = .ok (ret, p') ∧ ret < 0
  numbers : ∀ n piece p1, p.Reaches buf start n piece p1 → MAX_FILE_BLOCKS ≤ n →
    piece.log_block_nr = n ∧ ∃ found, p1.testfs_read_block piece.log_block_nr = .ok found

/-- A write from block `b` on comes to a lookup that takes the indirect block for the double-indirect one. -/
def Strays (b : Nat) : Prop :=
  p.pointer .dindirect = 0 ∧
    if 2058 ≤ b then p.pointer .indirect ≠ 0 else p.needs (List.range' b (2058 - b)) ≤ p.sb.free

def Enforceable (size : Nat) : Prop :=
  MAX_FILE_SIZE < start + size →
    (MAX_FILE_SIZE ≤ start →
      start / BLOCK_SIZE < 2 ^ 31 ∧ p.pointer .indirect = 0 ∧ p.pointer .dindirect = 0) ∧
    (start < MAX_FILE_SIZE →
      ¬ p.Strays (start / BLOCK_SIZE).toNat ∧
      (start / BLOCK_SIZE = 4196361 → p.sb.free < p.needs [4196361]) ∧
      (start / BLOCK_SIZE ≤ 3934216 →
        p.sb.free < p.needs (List.range' (start / BLOCK_SIZE).toNat (4196362 - (start / BLOCK_SIZE).toNat))))

end InodePtr

section Prefixes

variable {p p1 p2 : InodePtr} {ds : Nat → DInode} {pieces done front back rest : List Piece} {piece : Piece} {ret : Int}

theorem Stores.split (stores : Stores p (front ++ back) p2) : ∃ p1, Stores p front p1 ∧ Stores p1 back p2 := by
  induction front generalizing p with
  | nil => exact ⟨p, .none p, stores⟩
  | cons first front ih =>
      cases stores with
      | next _ stored positive stores =>
          obtain ⟨p1, before, after⟩ := ih stores
          exact ⟨p1, .next first stored positive before, after⟩

theorem numbers_split {b len : Nat} (run : numbers (done ++ piece :: rest) = List.range' b len) :
    numbers done = List.range' b done.length ∧ piece.log_block_nr.toNat = b + done.length ∧ done.length < len := by
  rw [numbers, List.map_append, List.map_cons] at run
  obtain ⟨k, short, front, back⟩ := List.range'_eq_append_iff.mp run.symm
  have count : k = done.length := by
    have lengths := congrArg List.length front
    rw [List.length_map, List.length_range'] at lengths
    exact lengths.symm
  subst count
  obtain ⟨number, positive, -⟩ := List.range'_eq_cons_iff.mp back.symm
  exact ⟨front, by omega, by omega⟩

theorem reached (holds : Holds p ds) (split : pieces = done ++ piece :: rest) (room : p.needs (numbers done) ≤ p.sb.free)
    (below : ∀ piece ∈ done, piece.log_block_nr < MAX_FILE_BLOCKS)
    (ends : (∃ p2, Stores p pieces p2) ∨ ∃ done' piece' p1 ret p2, StopsAt p pieces done' piece' p1 ret p2) :
    ∃ p1 result, Stores p done p1 ∧ p1.storeBlock piece.log_block_nr piece.block_ix piece.data = .ok result := by
  have past {p2 : InodePtr} {rest : List Piece} (stores : Stores p (done ++ piece :: rest) p2) :
      ∃ p1 result, Stores p done p1 ∧ p1.storeBlock piece.log_block_nr piece.block_ix piece.data = .ok result := by
    obtain ⟨p1, before, after⟩ := stores.split
    cases after with
    | next _ stored _ _ => exact ⟨p1, _, before, stored⟩
  rcases ends with ⟨p2, stores⟩ | ⟨done', piece', p1, ret, p2, stops⟩
  · rw [split] at stores
    exact past stores
  obtain ⟨rest', split'⟩ := stops.split
  rw [split] at split'
  rcases List.append_eq_append_iff.mp split' with ⟨more, later, tail⟩ | ⟨more, earlier, tail⟩
  · cases more with
    | nil =>
        rw [List.append_nil] at later
        obtain ⟨rfl, -⟩ := List.cons.inj tail
        exact ⟨p1, _, later ▸ stops.stores, stops.fails⟩
    | cons next more =>
        obtain ⟨rfl, -⟩ := List.cons.inj tail
        exact past (later ▸ stops.stores)
  · cases more with
    | nil =>
        rw [List.append_nil] at earlier
        obtain ⟨rfl, -⟩ := List.cons.inj tail
        exact ⟨p1, _, earlier ▸ stops.stores, stops.fails⟩
    | cons next more =>
        obtain ⟨rfl, -⟩ := List.cons.inj tail
        have short := stops.short holds (below piece' (by simp [earlier]))
        have part : p.needs (numbers (done' ++ [piece'])) ≤ p.needs (numbers done) := by
          apply needs_mono
          rw [earlier, numbers, numbers]
          exact List.map_subset _ (List.append_subset.mpr ⟨List.subset_append_left _ _, by simp⟩)
        omega

end Prefixes

section Limits

variable {p p' : InodePtr} {ds : Nat → DInode} {buf : List UInt8} {start ret : Int}

theorem writePieces_head : ∃ data rest,
    writePieces buf start = ⟨wrap32 (start / BLOCK_SIZE), (start % BLOCK_SIZE).toNat, data⟩ :: rest := by
  rw [writePieces]
  split_ifs
  · exact ⟨_, _, rfl⟩
  · exact ⟨_, _, List.cons_append⟩

theorem cut_at_limit (before : start < MAX_FILE_SIZE) (low : 0 ≤ start) (across : MAX_FILE_SIZE < start + buf.length) :
    ¬ Single buf start ∧ cutOff buf start = true ∧ start + writeSize buf start = MAX_FILE_SIZE := by
  have several : ¬ Single buf start := by
    simp only [Single, BLOCK_SIZE, MAX_FILE_SIZE] at before across ⊢
    omega
  have room : (sizeT (MAX_FILE_SIZE - start) : Int) = MAX_FILE_SIZE - start := by
    simp only [sizeT, MAX_FILE_SIZE] at before ⊢
    omega
  have cut : cutOff buf start = true := by
    simp only [cutOff, several, not_false_eq_true, true_and, decide_eq_true_eq]
    omega
  refine ⟨several, cut, ?_⟩
  rw [writeSize, if_pos cut, room]
  omega

theorem cut_numbers {b : Nat} (here : start / BLOCK_SIZE = b) (before : start < MAX_FILE_SIZE) (low : 0 ≤ start)
    (across : MAX_FILE_SIZE < start + buf.length) :
    numbers (writePieces buf start) = List.range' b (max (4196362 - b) 2) := by
  obtain ⟨several, -, size⟩ := cut_at_limit before low across
  rw [writePieces_numbers here several low (le_of_lt before)]
  congr 1
  simp only [BLOCK_SIZE, MAX_FILE_SIZE] at here before size ⊢
  omega

theorem write_size_limit (holds : Holds p ds) (limit : p.dinode.i_size.toInt ≤ MAX_FILE_SIZE) (some : 0 < writeSize buf start)
    (fits : start + writeSize buf start ≤ MAX_FILE_SIZE) (run : p.testfs_write_data buf start = .ok (ret, p')) :
    p'.dinode.i_size.toInt ≤ MAX_FILE_SIZE ∧ (cutOff buf start = true → ret < 0) := by
  obtain ⟨low, ⟨p1, stores, -, out⟩ | ⟨done, piece, p1, ret', p2, stops, out⟩⟩ := write_data_steps run
  · obtain ⟨value, -, -, size⟩ := writeOut_kept out low some fits
    rw [(stores.spec holds).size] at size
    refine ⟨by omega, fun cut => ?_⟩
    rw [value, if_pos cut]
    decide
  · have same : p2.dinode.i_size = p.dinode.i_size := (stops.failed holds).size.trans (stops.stores.spec holds).size
    rw [stopped] at out
    split_ifs at out with second
    · obtain ⟨value, -, -, size⟩ := writeOut_kept out low some fits
      rw [same] at size
      refine ⟨by omega, fun cut => ?_⟩
      rw [value, if_pos cut]
      decide
    · obtain ⟨rfl, rfl⟩ := Prod.mk.inj out
      rw [same]
      exact ⟨limit, fun _ => stops.negative⟩

end Limits

section Near

variable {p : InodePtr} {ds : Nat → DInode} {buf : List UInt8} {start : Int}

theorem near_enforces (holds : Holds p ds) (limit : p.dinode.i_size.toInt ≤ MAX_FILE_SIZE) (low : 0 ≤ start)
    (some : 0 < buf.length) (fits : start + buf.length ≤ MAX_FILE_SIZE) : p.Enforces buf start where
  size ret p' run := by
    have size := writeSize_eq low fits
    exact (write_size_limit holds limit (by omega) (by omega) run).1
  refused past := by omega
  numbers n piece p1 reaches past := by
    obtain ⟨done, rest, split, -, rfl⟩ := reaches
    have blocks := writePieces_blocks low some fits
    rw [split, blocksOf] at blocks
    obtain ⟨-, -, short⟩ := numbers_split blocks
    simp only [MAX_FILE_BLOCKS, MAX_FILE_SIZE, BLOCK_SIZE] at past fits short
    omega

end Near

section Far

variable {p : InodePtr} {ds : Nat → DInode} {buf : List UInt8} {start : Int}

theorem beyond_refused (holds : Holds p ds) {n : Int} {ix : Nat} {data : List UInt8} (large : MAX_FILE_BLOCKS ≤ n)
    (single : p.pointer .indirect = 0) (double : p.pointer .dindirect = 0) :
    p.testfs_read_block n = .ok (0, zero) ∧ p.storeBlock n ix data = .ok (-EFBIG, p) := by
  have low : 0 ≤ n := by
    simp only [MAX_FILE_BLOCKS] at large
    omega
  have look : p.lookup n.toNat = .ok 0 := by
    rw [lookup_beyond holds.nonneg (by omega), if_pos ⟨single, double⟩]
  have found : p.testfs_read_block n = .ok (0, zero) := by
    rw [InodePtr.testfs_read_block, assert, if_pos low, Result.ok_bind, look, Result.ok_bind, if_neg (lt_irrefl 0)]
    rfl
  refine ⟨found, ?_⟩
  rw [InodePtr.storeBlock, InodePtr.testfs_allocate_block, found, Result.ok_bind]
  simp only [large, if_true]
  rfl

theorem beyond_found (holds : Holds p ds) {n : Int} (large : MAX_FILE_BLOCKS ≤ n)
    (look : ∃ found, p.testfs_read_block n = .ok found) : p.pointer .indirect = 0 ∧ p.pointer .dindirect = 0 := by
  obtain ⟨found, run⟩ := look
  have low : 0 ≤ n := by
    simp only [MAX_FILE_BLOCKS] at large
    omega
  rw [InodePtr.testfs_read_block, assert, if_pos low, Result.ok_bind, lookup_beyond holds.nonneg (by omega)] at run
  by_contra table
  rw [if_neg table] at run
  cases run

theorem beyond_block (past : MAX_FILE_SIZE ≤ start) : (MAX_FILE_BLOCKS : Int) ≤ start / BLOCK_SIZE := by
  simp only [MAX_FILE_SIZE, MAX_FILE_BLOCKS, BLOCK_SIZE] at past ⊢
  omega

theorem far_refused (holds : Holds p ds) (past : MAX_FILE_SIZE ≤ start) (narrow : start / BLOCK_SIZE < 2 ^ 31)
    (single : p.pointer .indirect = 0) (double : p.pointer .dindirect = 0) :
    p.testfs_write_data buf start = .ok (-EFBIG, p) ∧
      ∀ n piece p1, p.Reaches buf start n piece p1 → piece.log_block_nr = n ∧ p1 = p := by
  have large := beyond_block past
  have low : 0 ≤ start := by
    simp only [MAX_FILE_SIZE] at past
    omega
  have number : wrap32 (start / BLOCK_SIZE) = start / BLOCK_SIZE :=
    wrap32_eq (by simp only [MAX_FILE_BLOCKS] at large; omega) narrow
  obtain ⟨data, rest, pieces⟩ := @writePieces_head buf start
  rw [number] at pieces
  have first := (@beyond_refused p ds holds _ (start % BLOCK_SIZE).toNat data large single double).2
  -- nothing behind the first piece is reached
  have front {done : List Piece} {piece : Piece} {p1 : InodePtr} (stores : Stores p done p1)
      (split : ∃ rest, writePieces buf start = done ++ piece :: rest) : done = [] ∧ p1 = p ∧
        piece = ⟨start / BLOCK_SIZE, (start % BLOCK_SIZE).toNat, data⟩ := by
    obtain ⟨rest', split⟩ := split
    rw [pieces] at split
    cases stores with
    | none p => exact ⟨rfl, rfl, (List.cons.inj split).1.symm⟩
    | next head stored positive _ =>
        rw [← (List.cons.inj split).1, first] at stored
        obtain ⟨rfl, -⟩ := Prod.mk.inj (Except.ok.inj stored)
        exact absurd positive (by decide)
  constructor
  · rcases @write_data_cases p buf start low with
      ⟨p1, stores, -⟩ | ⟨done, piece, p1, ret, p2, stops, run⟩ | ⟨done, piece, p1, fault, faults, -⟩
    · rw [pieces] at stores
      cases stores with
      | next head stored positive _ =>
          rw [first] at stored
          obtain ⟨rfl, -⟩ := Prod.mk.inj (Except.ok.inj stored)
          exact absurd positive (by decide)
    · obtain ⟨rfl, rfl, rfl⟩ := front stops.stores stops.split
      have fails := stops.fails
      rw [first] at fails
      obtain ⟨rfl, rfl⟩ := Prod.mk.inj (Except.ok.inj fails)
      rw [run, stopped, if_neg (by simp)]
    · obtain ⟨rfl, rfl, rfl⟩ := front faults.stores faults.split
      have run := faults.faults
      rw [first] at run
      cases run
  · rintro n piece p1 ⟨done, rest', split, stores, rfl⟩
    obtain ⟨rfl, rfl, rfl⟩ := front stores ⟨rest', split⟩
    exact ⟨by simp, rfl⟩

theorem far_enforces_iff (holds : Holds p ds) (limit : p.dinode.i_size.toInt ≤ MAX_FILE_SIZE) (past : MAX_FILE_SIZE ≤ start) :
    p.Enforces buf start ↔
      start / BLOCK_SIZE < 2 ^ 31 ∧ p.pointer .indirect = 0 ∧ p.pointer .dindirect = 0 := by
  have large := beyond_block past
  constructor
  · intro enforces
    obtain ⟨data, rest, pieces⟩ := @writePieces_head buf start
    obtain ⟨same, look⟩ := enforces.numbers (start / BLOCK_SIZE) _ p
      ⟨[], rest, pieces, .none p, (Int.add_zero _).symm⟩ large
    simp only at same look
    rw [same] at look
    exact ⟨by rw [← same]; exact Int32.toInt_lt _, beyond_found holds large look⟩
  · rintro ⟨narrow, single, double⟩
    obtain ⟨run, only⟩ := @far_refused p ds buf start holds past narrow single double
    refine ⟨fun ret p' run' => ?_, fun _ => ⟨-EFBIG, p, run, by decide⟩, fun n piece p1 reaches above => ?_⟩
    · rw [run] at run'
      obtain ⟨-, rfl⟩ := Prod.mk.inj (Except.ok.inj run')
      exact limit
    · obtain ⟨number, rfl⟩ := only n piece p1 reaches
      exact ⟨number, _, (@beyond_refused _ _ holds _ 0 [] (number ▸ above) single double).1⟩

end Far

section Across

variable {p p1 : InodePtr} {ds : Nat → DInode} (holds : Holds p ds) {buf : List UInt8} {start : Int} {b : Nat}
  {pieces done rest : List Piece} {piece : Piece}
include holds

theorem strays_of_misled (stores : Stores p done p1) (run : numbers done = List.range' b done.length) {m : Int}
    (number : m = b + done.length) (misled : p1.Misled m) : p.Strays b := by
  have spec := stores.spec holds
  obtain ⟨high, double, single⟩ := misled
  have absent : p.pointer .dindirect = 0 := by
    by_contra taken
    rw [spec.extending.keeps _ taken] at double
    exact taken double
  -- a stored block behind 2058 has a double-indirect block
  have before (n : Nat) (member : n ∈ List.range' b done.length) : n < 2058 := by
    by_contra behind
    rw [← run] at member
    obtain ⟨piece, inside, rfl⟩ := List.mem_map.mp member
    exact spec.present piece inside _ (mem_path_dindirect.mpr (by omega)) double
  refine ⟨absent, ?_⟩
  split_ifs with far
  · have none : done = [] := by
      by_contra some
      have positive := List.length_pos_iff.mpr some
      have := before b (List.mem_range'_1.mpr ⟨le_refl _, by omega⟩)
      omega
    subst none
    cases stores
    exact single
  · have count : done.length = 2058 - b := by
      by_contra other
      have := before (b + done.length - 1) (List.mem_range'_1.mpr ⟨by omega, by omega⟩)
      omega
    rw [← count, ← run]
    exact stores.fits holds

theorem misled_of_strays (strays : p.Strays b) (stores : Stores p done p1) (run : numbers done = List.range' b done.length)
    (count : done.length = 2058 - b) : p1.Misled (b + done.length) := by
  have spec := stores.spec holds
  obtain ⟨double, table⟩ := strays
  split_ifs at table with far
  · have none : done = [] := List.length_eq_zero_iff.mp (by omega)
    subst none
    cases stores
    exact ⟨by omega, double, table⟩
  · refine ⟨by omega, ?_, ?_⟩
    · by_contra taken
      rcases spec.only _ taken with before | ⟨piece, member, onPath⟩
      · exact before double
      · have number : piece.log_block_nr.toNat ∈ numbers done := List.mem_map_of_mem member
        rw [run, List.mem_range'_1] at number
        have := mem_path_dindirect.mp onPath
        omega
    · have last : 2057 ∈ numbers done := by
        rw [run, List.mem_range'_1]
        omega
      obtain ⟨piece, member, number⟩ := List.mem_map.mp last
      exact spec.present piece member _ (mem_path_indirect.mpr (by rw [number]; omega))

section Cut

variable (here : start / BLOCK_SIZE = b) (before : start < MAX_FILE_SIZE) (low : 0 ≤ start)
  (across : MAX_FILE_SIZE < start + buf.length)
include here before low across

omit holds in
theorem cut_length : (writePieces buf start).length = max (4196362 - b) 2 ∧ b ≤ 4196361 := by
  have count := congrArg List.length (cut_numbers here before low across)
  rw [numbers, List.length_map, List.length_range'] at count
  refine ⟨count, ?_⟩
  simp only [BLOCK_SIZE, MAX_FILE_SIZE] at here before
  omega

omit holds in
theorem cut_split (split : writePieces buf start = done ++ piece :: rest) :
    numbers done = List.range' b done.length ∧ piece.log_block_nr = b + done.length ∧
      (b + done.length < 4196362 ∨ b = 4196361 ∧ done.length = 1) := by
  have blocks := cut_numbers here before low across
  rw [split] at blocks
  obtain ⟨front, number, short⟩ := numbers_split blocks
  simp only [BLOCK_SIZE, MAX_FILE_SIZE] at here before
  have nonneg : 0 ≤ piece.log_block_nr := by
    cases done with
    | nil =>
        obtain ⟨data, rest', pieces⟩ := @writePieces_head buf start
        rw [pieces] at split
        rw [← (List.cons.inj split).1]
        simp only [BLOCK_SIZE, here]
        rw [wrap32_eq (by omega) (by omega)]
        omega
    | cons first done =>
        simp only [List.length_cons] at number
        omega
  exact ⟨front, by omega, by omega⟩

theorem last_reached (last : b = 4196361) (room : p.needs [4196361] ≤ p.sb.free)
    (ends : (∃ p2, Stores p (writePieces buf start) p2) ∨
      ∃ done' piece' p1 ret p2, StopsAt p (writePieces buf start) done' piece' p1 ret p2) : False := by
  subst last
  obtain ⟨first, behind, pieces⟩ := List.length_eq_two.mp (cut_length here before low across).1
  have nothing : writePieces buf start = [] ++ first :: [behind] := pieces
  have split : writePieces buf start = [first] ++ behind :: [] := pieces
  obtain ⟨-, first_number, -⟩ := cut_split here before low across nothing
  obtain ⟨front, number, -⟩ := cut_split here before low across split
  obtain ⟨p1, result, stores, stored⟩ := reached holds split (by rw [front]; exact room)
    (by simp [first_number, MAX_FILE_BLOCKS]) ends
  have spec := stores.spec holds
  have double : p1.pointer .dindirect ≠ 0 :=
    spec.present first (by simp) _ (mem_path_dindirect.mpr (by rw [first_number]; decide))
  have look : ∃ found, p1.testfs_read_block behind.log_block_nr = .ok found := by
    cases look : p1.testfs_read_block behind.log_block_nr with
    | ok found => exact ⟨found, rfl⟩
    | error fault =>
        rw [storeBlock_outside fault look] at stored
        cases stored
  exact double (beyond_found spec.holds (by rw [number, List.length_singleton]; decide) look).2

theorem strays_reached (strays : p.Strays b)
    (ends : (∃ p2, Stores p (writePieces buf start) p2) ∨
      ∃ done' piece' p1 ret p2, StopsAt p (writePieces buf start) done' piece' p1 ret p2) : False := by
  obtain ⟨count, bound⟩ := cut_length here before low across
  obtain ⟨done, piece, rest, split, length⟩ : ∃ done piece rest, writePieces buf start = done ++ piece :: rest ∧
      done.length = 2058 - b := by
    have inside : 2058 - b < (writePieces buf start).length := by omega
    refine ⟨(writePieces buf start).take (2058 - b), (writePieces buf start)[2058 - b],
      (writePieces buf start).drop (2058 - b + 1), ?_, ?_⟩
    · rw [List.getElem_cons_drop, List.take_append_drop]
    · rw [List.length_take]
      omega
  obtain ⟨front, number, -⟩ := cut_split here before low across split
  have room : p.needs (numbers done) ≤ p.sb.free := by
    rw [front, length]
    obtain ⟨-, table⟩ := strays
    split_ifs at table with far
    · rw [show 2058 - b = 0 by omega]
      exact Nat.zero_le _
    · exact table
  have below (other : Piece) (member : other ∈ done) : other.log_block_nr < MAX_FILE_BLOCKS := by
    have inside : other.log_block_nr.toNat ∈ numbers done := List.mem_map_of_mem member
    rw [front, List.mem_range'_1] at inside
    simp only [MAX_FILE_BLOCKS]
    omega
  obtain ⟨p1, result, stores, stored⟩ := reached holds split room below ends
  have misled := misled_of_strays holds strays stores front length
  rw [← number] at misled
  have look := testfs_read_block_misled (stores.spec holds).holds.nonneg (by omega) misled
  rw [storeBlock_outside _ look] at stored
  cases stored

theorem across_enforces_iff (limit : p.dinode.i_size.toInt ≤ MAX_FILE_SIZE) :
    p.Enforces buf start ↔ ¬ p.Strays b ∧ (b = 4196361 → p.sb.free < p.needs [4196361]) ∧
      (b ≤ 3934216 → p.sb.free < p.needs (List.range' b (4196362 - b))) := by
  have blocks := cut_numbers here before low across
  obtain ⟨count, bound⟩ := cut_length here before low across
  obtain ⟨-, cut, size⟩ := cut_at_limit before low across
  constructor
  · intro enforces
    obtain ⟨ret, p', run, -⟩ := enforces.refused across
    have ends : (∃ p2, Stores p (writePieces buf start) p2) ∨
        ∃ done' piece' p1 ret p2, StopsAt p (writePieces buf start) done' piece' p1 ret p2 := by
      obtain ⟨-, ⟨p1, stores, -⟩ | ⟨done, piece, p1, ret', p2, stops, -⟩⟩ := write_data_steps run
      · exact Or.inl ⟨p1, stores⟩
      · exact Or.inr ⟨done, piece, p1, ret', p2, stops⟩
    refine ⟨fun strays => ?_, fun last => ?_, fun early => ?_⟩
    · exact strays_reached holds here before low across strays ends
    · by_contra room
      exact last_reached holds here before low across last (by omega) ends
    · by_contra room
      have length : max (4196362 - b) 2 = 4196362 - b := by omega
      rw [length] at blocks
      rcases @write_data_cases p buf start low with
        ⟨p1, -, run'⟩ | ⟨done, piece, p1, ret, p2, stops, -⟩ | ⟨done, piece, p1, fault, faults, run'⟩
      · have large : Oversize (writePieces buf start) := by
          rw [Oversize, count]
          simp only [BLOCK_SIZE]
          omega
        rw [if_pos large, run] at run'
        cases run'
      · obtain ⟨rest, split⟩ := stops.split
        obtain ⟨-, number, inside⟩ := cut_split here before low across split
        have lacks := stops.lacks holds (by simp only [MAX_FILE_BLOCKS]; omega)
        rw [blocks] at lacks
        omega
      · rw [run] at run'
        cases run'
  · rintro ⟨straight, last, early⟩
    have tail {done : List Piece} {p1 : InodePtr} (stores : Stores p done p1) (run : numbers done = List.range' b done.length) :
        ¬ (b = 4196361 ∧ done.length = 1) := by
      rintro ⟨rfl, one⟩
      have room := stores.fits holds
      rw [run, one] at room
      have few := last rfl
      change p.sb.free < p.needs (List.range' 4196361 1) at few
      omega
    have positive : 0 < writeSize buf start := by omega
    refine ⟨fun ret p' run => (write_size_limit holds limit positive (by omega) run).1, fun _ => ?_,
      fun n piece p1 reaches past => ?_⟩
    · rcases @write_data_cases p buf start low with
        ⟨p1, stores, run⟩ | ⟨done, piece, p1, ret, p2, -, run⟩ | ⟨done, piece, p1, fault, faults, -⟩
      · have narrow : ¬ Oversize (writePieces buf start) := by
          intro large
          rw [Oversize, count] at large
          simp only [BLOCK_SIZE] at large
          have few := early (by omega)
          have room := stores.fits holds
          rw [blocks, show max (4196362 - b) 2 = 4196362 - b by omega] at room
          omega
        rw [if_neg narrow] at run
        exact ⟨_, _, run, (write_size_limit holds limit positive (by omega) run).2 cut⟩
      · exact ⟨_, _, run, (write_size_limit holds limit positive (by omega) run).2 cut⟩
      · obtain ⟨rest, split⟩ := faults.split
        obtain ⟨front, number, short | behind⟩ := cut_split here before low across split
        · have misled := (faults.misled holds (by omega) (by simp only [MAX_FILE_BLOCKS]; omega)).1
          exact absurd (strays_of_misled holds faults.stores front number misled) straight
        · exact absurd behind (tail faults.stores front)
    · obtain ⟨done, rest, split, stores, rfl⟩ := reaches
      obtain ⟨front, -, inside⟩ := cut_split here before low across split
      rw [here] at past
      simp only [MAX_FILE_BLOCKS] at past
      rcases inside with short | behind
      · omega
      · exact absurd behind (tail stores front)

end Cut

end Across

/-- The maximum file size is enforced exactly where a write past it is refused before a lookup strays, a
block number is cut, or the lengths of the whole blocks overflow. -/
theorem testfs_write_data_enforces_iff {p : InodePtr} {ds : Nat → DInode} (holds : Holds p ds) {buf : List UInt8} {start : Int}
    (limit : p.dinode.i_size.toInt ≤ MAX_FILE_SIZE) (low : 0 ≤ start) (some : 0 < buf.length) :
    p.Enforces buf start ↔ p.Enforceable start buf.length := by
  by_cases across : MAX_FILE_SIZE < start + buf.length
  · by_cases before : start < MAX_FILE_SIZE
    · obtain ⟨b, here⟩ : ∃ b : Nat, start / BLOCK_SIZE = b := ⟨(start / BLOCK_SIZE).toNat, by rw [BLOCK_SIZE]; omega⟩
      have last : (b : Int) = 4196361 ↔ b = 4196361 := by omega
      have early : (b : Int) ≤ 3934216 ↔ b ≤ 3934216 := by omega
      rw [across_enforces_iff holds here before low across limit, InodePtr.Enforceable, here, Int.toNat_natCast, last, early]
      exact ⟨fun within _ => ⟨fun past => absurd past (not_le.mpr before), fun _ => within⟩,
        fun enforceable => (enforceable across).2 before⟩
    · have past : MAX_FILE_SIZE ≤ start := by omega
      rw [far_enforces_iff holds limit past, InodePtr.Enforceable]
      exact ⟨fun far _ => ⟨fun _ => far, fun short => absurd short before⟩,
        fun enforceable => (enforceable across).1 past⟩
  · exact iff_of_true (near_enforces holds limit low some (by omega)) fun past => absurd past across

/-- A byte for offset 2^45 goes to block 0. -/
theorem testfs_write_data_enforces_fails :
    Holds oneFree (fun _ => DInode.zero) ∧
      (∃ p', oneFree.testfs_write_data [1] (2 ^ 45) = .ok (1, p') ∧ p'.dinode.i_size.toInt = 2 ^ 45 + 1 ∧
        p'.pointer (target 0) ≠ 0) ∧ ¬ oneFree.Enforces [1] (2 ^ 45) := by
  have number : wrap32 (2 ^ 45 / BLOCK_SIZE) = 0 := by decide
  have index : (2 ^ 45 % BLOCK_SIZE : Int).toNat = 0 := by decide
  refine ⟨oneFree_holds, ?_, fun enforces => ?_⟩
  · obtain ⟨ret, p1, stored, positive, first⟩ := @storeBlock_stores oneFree _ oneFree_holds 0 0 [1] (le_refl 0)
      ⟨by decide, fun misled => absurd misled.1 (by decide)⟩ (by
        rw [oneFree_free, ← needs_single, oneFree_needs]
        decide)
    have run : oneFree.testfs_write_data [1] (2 ^ 45) = .ok (p1.writeOut (2 ^ 45) 1 false) := by
      have short : ¬ BLOCK_SIZE < 0 + 1 := by decide
      have found : ¬ ret < 0 := by omega
      rw [InodePtr.testfs_write_data, if_neg (by decide)]
      simp only [number, index, stored, Result.ok_bind, List.length_singleton, short, found, if_false]
      rfl
    refine ⟨(p1.writeOut (2 ^ 45) 1 false).2, by rw [run]; rfl, ?_, first.present _ (target_mem_path 0)⟩
    have size : p1.dinode.i_size = 0 := first.size
    have written : (p1.writeOut (2 ^ 45) 1 false).2.dinode.i_size =
        Int64.ofInt (max p1.dinode.i_size.toInt (wrap64 (2 ^ 45 + (1 : Nat)))) := rfl
    rw [written, size]
    decide
  · obtain ⟨narrow, -⟩ := (far_enforces_iff oneFree_holds (by decide) (by decide)).mp enforces
    exact absurd narrow (by decide)

/-- The last byte of the largest file, a write across the end of it, and one behind the end. -/
theorem testfs_write_data_enforces_iff_end : oneFree.Enforces [1] 34376597503 ∧ oneFree.Enforces (List.replicate 8 1) 34376597500 ∧
    oneFree.Enforces [1] 34376597504 := by
  have empty (k : Place) : oneFree.pointer k = 0 := emptyFile_pointer 1 k
  refine ⟨(testfs_write_data_enforces_iff oneFree_holds (by decide) (by decide) (by decide)).mpr ?_,
    (testfs_write_data_enforces_iff oneFree_holds (by decide) (by decide) (by decide)).mpr fun _ => ⟨?_, fun _ => ⟨?_, ?_, ?_⟩⟩,
    (testfs_write_data_enforces_iff oneFree_holds (by decide) (by decide) (by decide)).mpr fun _ => ⟨fun _ => ?_, ?_⟩⟩
  · exact fun across => absurd across (by decide)
  · exact fun past => absurd past (by decide)
  · rintro ⟨-, strays⟩
    rw [if_pos (by decide)] at strays
    exact strays (empty _)
  · intro _
    rw [oneFree_free, oneFree_needs]
    decide
  · exact fun early => absurd early (by decide)
  · exact ⟨by decide, empty _, empty _⟩
  · exact fun before => absurd before (by decide)

end OperatingSystem.Fs
