import OperatingSystem.Fs.WriteData

namespace OperatingSystem.Fs

open Bytes Ownership

def byteAt (dev : Disk) (d : DInode) (i : Nat) : UInt8 := content dev d (i / BLOCK_SIZE) (i % BLOCK_SIZE)

abbrev InodePtr.byteAt (p : InodePtr) : Nat → UInt8 := Fs.byteAt p.sb.dev p.dinode

/-- The pieces store `buf` from `pos` on, without gaps. -/
def Tiles : List Piece → Nat → List UInt8 → Prop
  | [], _, buf => buf = []
  | piece :: rest, pos, buf =>
      0 ≤ piece.log_block_nr ∧ piece.log_block_nr.toNat * BLOCK_SIZE + piece.block_ix = pos ∧
      piece.block_ix + piece.data.length ≤ BLOCK_SIZE ∧ piece.data = buf.take piece.data.length ∧
      Tiles rest (pos + piece.data.length) (buf.drop piece.data.length)

section Tiling

variable {buf : List UInt8} {start : Int}

theorem wrap32_eq {n : Int} (low : 0 ≤ n) (high : n < 2 ^ 31) : wrap32 n = n := Int32.toInt_ofInt_of_le (by omega) (by omega)

theorem wrap32_add {m n : Nat} (small : m + n < 2 ^ 31) : wrap32 ((m : Int) + n) = (m + n : Nat) := by
  rw [← Int.natCast_add]
  exact wrap32_eq (Int.natCast_nonneg _) (by omega)

theorem wrap64_eq {n : Int} (low : 0 ≤ n) (high : n < 2 ^ 63) : wrap64 n = n := Int64.toInt_ofInt_of_le (by omega) (by omega)

theorem tiles_single {n : Int} {ix pos : Nat} (low : 0 ≤ n) (fits : ix + buf.length ≤ BLOCK_SIZE)
    (place : n.toNat * BLOCK_SIZE + ix = pos) : Tiles [⟨n, ix, buf⟩] pos buf :=
  ⟨low, place, fits, by rw [List.take_length], by rw [List.drop_length]; rfl⟩

theorem wholePieces_tiles {block_nr : Int} {whole i : Nat} {last : List Piece} (low : 0 ≤ block_nr)
    (high : block_nr + (i + whole : Nat) < 2 ^ 31) (long : whole * BLOCK_SIZE ≤ buf.length)
    (rest : Tiles last ((block_nr.toNat + (i + whole + 1)) * BLOCK_SIZE) (buf.drop (whole * BLOCK_SIZE))) :
    Tiles (wholePieces block_nr whole i buf ++ last) ((block_nr.toNat + (i + 1)) * BLOCK_SIZE) buf := by
  induction whole generalizing i buf with
  | zero =>
      rw [Nat.zero_mul, List.drop_zero] at rest
      exact rest
  | succ whole ih =>
      rw [Nat.succ_mul] at long
      have size : (buf.take BLOCK_SIZE).length = BLOCK_SIZE := by
        rw [List.length_take]
        omega
      have number : wrap32 (block_nr + (i + 1 : Nat)) = block_nr + (i + 1 : Nat) := wrap32_eq (by omega) (by omega)
      have index : (block_nr + (i + 1 : Nat)).toNat = block_nr.toNat + (i + 1) := by omega
      have next : (block_nr.toNat + (i + 1)) * BLOCK_SIZE + BLOCK_SIZE = (block_nr.toNat + (i + 1 + 1)) * BLOCK_SIZE := by ring
      simp only [wholePieces, List.cons_append, Tiles, number, size, index, next]
      refine ⟨by omega, Nat.add_zero _, Nat.le_of_eq (Nat.zero_add _), trivial, ?_⟩
      apply ih (by omega)
      · rw [List.length_drop]
        omega
      · rw [List.drop_drop, show BLOCK_SIZE + whole * BLOCK_SIZE = (whole + 1) * BLOCK_SIZE by ring,
          show i + 1 + whole + 1 = i + (whole + 1) + 1 by omega]
        exact rest

theorem remaining_tiles {block_nr : Int} {whole : Nat} (low : 0 ≤ block_nr) (some : 0 < buf.length)
    (turns : whole = (buf.length - 1) / BLOCK_SIZE) (bound : block_nr + (whole + 1 : Nat) < 2 ^ 31) :
    Tiles (wholePieces block_nr whole 0 buf ++ [⟨wrap32 (block_nr + (whole + 1 : Nat)), 0,
      (buf.drop (whole * BLOCK_SIZE)).take (buf.length - whole * BLOCK_SIZE)⟩])
      ((block_nr.toNat + 1) * BLOCK_SIZE) buf := by
  have count : whole * BLOCK_SIZE < buf.length ∧ buf.length ≤ whole * BLOCK_SIZE + BLOCK_SIZE := by
    simp only [BLOCK_SIZE] at turns ⊢
    omega
  have number : wrap32 (block_nr + (whole + 1 : Nat)) = block_nr + (whole + 1 : Nat) := wrap32_eq (by omega) bound
  have index : (block_nr + (whole + 1 : Nat)).toNat = block_nr.toNat + (0 + whole + 1) := by omega
  have last : (buf.drop (whole * BLOCK_SIZE)).take (buf.length - whole * BLOCK_SIZE) = buf.drop (whole * BLOCK_SIZE) := by
    rw [← List.length_drop, List.take_length]
  rw [last, number]
  apply wholePieces_tiles low (by omega) (by omega)
  refine tiles_single (by omega) ?_ (by rw [index, Nat.add_zero])
  rw [List.length_drop]
  omega

theorem cutOff_eq (low : 0 ≤ start) (fits : start + buf.length ≤ MAX_FILE_SIZE) : cutOff buf start = false := by
  have room : sizeT (MAX_FILE_SIZE - start) = (MAX_FILE_SIZE - start).toNat := by
    simp only [sizeT, MAX_FILE_SIZE] at fits ⊢
    omega
  simp only [cutOff, room, decide_eq_false_iff_not, not_and, not_lt]
  omega

theorem writeSize_eq (low : 0 ≤ start) (fits : start + buf.length ≤ MAX_FILE_SIZE) : writeSize buf start = buf.length := by
  simp only [writeSize, cutOff_eq low fits, Bool.false_eq_true, if_false]

theorem writePieces_tiles (low : 0 ≤ start) (fits : start + buf.length ≤ MAX_FILE_SIZE) :
    Tiles (writePieces buf start) start.toNat buf := by
  have size := writeSize_eq low fits
  simp only [MAX_FILE_SIZE] at fits
  have number : wrap32 (start / BLOCK_SIZE) = start / BLOCK_SIZE := wrap32_eq (by rw [BLOCK_SIZE]; omega) (by rw [BLOCK_SIZE]; omega)
  have place : (start / BLOCK_SIZE).toNat * BLOCK_SIZE + (start % BLOCK_SIZE).toNat = start.toNat := by
    rw [BLOCK_SIZE]
    omega
  have nonneg : 0 ≤ start / BLOCK_SIZE := by
    rw [BLOCK_SIZE]
    omega
  unfold writePieces
  simp only [size, number]
  by_cases single : Single buf start
  · rw [if_pos single]
    exact tiles_single nonneg single place
  · rw [if_neg single]
    have large : BLOCK_SIZE < (start % BLOCK_SIZE).toNat + buf.length := Nat.lt_of_not_le single
    have small : (start % BLOCK_SIZE).toNat < BLOCK_SIZE := by
      rw [BLOCK_SIZE]
      omega
    generalize (start % BLOCK_SIZE).toNat = ix at large small place
    have firstLength : (buf.take (BLOCK_SIZE - ix)).length = BLOCK_SIZE - ix := by
      rw [List.length_take]
      omega
    have restLength : (buf.drop (BLOCK_SIZE - ix)).length = buf.length - (BLOCK_SIZE - ix) := List.length_drop
    have next : start.toNat + (BLOCK_SIZE - ix) = ((start / BLOCK_SIZE).toNat + 1) * BLOCK_SIZE := by
      rw [← place, Nat.add_mul]
      omega
    refine ⟨nonneg, place, ?_, by rw [firstLength], ?_⟩
    · simp only [firstLength]
      omega
    · simp only [firstLength, next, ← restLength]
      apply remaining_tiles nonneg (by omega) rfl
      simp only [BLOCK_SIZE] at place restLength large ⊢
      omega

theorem Tiles.front {front back : List Piece} {pos : Nat} (tiles : Tiles (front ++ back) pos buf) :
    ∃ size, size ≤ buf.length ∧ Tiles front pos (buf.take size) := by
  induction front generalizing pos buf with
  | nil => exact ⟨0, Nat.zero_le _, rfl⟩
  | cons first front ih =>
      obtain ⟨low, place, fits, data, rest⟩ := tiles
      obtain ⟨size, short, tiles⟩ := ih rest
      have length := congrArg List.length data
      rw [List.length_take] at length
      rw [List.length_drop] at short
      refine ⟨first.data.length + size, by omega, low, place, fits, ?_, ?_⟩
      · rw [List.take_take, Nat.min_eq_left (Nat.le_add_right _ _), ← data]
      · rwa [List.drop_take, Nat.add_sub_cancel_left]

theorem Tiles.nonneg {pieces : List Piece} {pos : Nat} (tiles : Tiles pieces pos buf) :
    ∀ piece ∈ pieces, 0 ≤ piece.log_block_nr := by
  induction pieces generalizing pos buf with
  | nil => simp
  | cons first rest ih =>
      obtain ⟨low, -, -, -, tiles⟩ := tiles
      intro piece member
      rcases List.mem_cons.mp member with rfl | later
      · exact low
      · exact ih tiles piece later

end Tiling

def numbers (pieces : List Piece) : List Nat := pieces.map fun piece => piece.log_block_nr.toNat

def blocksOf (start : Int) (size : Nat) : List Nat :=
  List.range' (start / BLOCK_SIZE).toNat ((start + size - 1) / BLOCK_SIZE - start / BLOCK_SIZE + 1).toNat

section Numbers

variable {buf : List UInt8} {start : Int}

theorem wholePieces_numbers {block_nr : Nat} {whole i : Nat} (high : block_nr + i + whole < 2 ^ 31) :
    numbers (wholePieces block_nr whole i buf) = List.range' (block_nr + i + 1) whole := by
  induction whole generalizing i buf with
  | zero => rfl
  | succ whole ih =>
      have number : (wrap32 ((block_nr : Int) + (i + 1 : Nat))).toNat = block_nr + i + 1 := by
        rw [wrap32_eq (by omega) (by omega)]
        omega
      have rest := @ih (buf.drop BLOCK_SIZE) (i + 1) (by omega)
      rw [numbers] at rest ⊢
      rw [wholePieces, List.map_cons, number, rest, List.range'_succ]
      rfl

theorem writeSize_le (several : ¬ Single buf start) (low : 0 ≤ start) (high : start ≤ MAX_FILE_SIZE) :
    (writeSize buf start : Int) ≤ MAX_FILE_SIZE - start := by
  have room : (sizeT (MAX_FILE_SIZE - start) : Int) = MAX_FILE_SIZE - start := by
    simp only [sizeT, MAX_FILE_SIZE] at high ⊢
    omega
  unfold writeSize
  split_ifs with cut
  · omega
  · simp only [cutOff, several, not_false_eq_true, true_and, decide_eq_true_eq, not_lt] at cut
    omega

theorem writePieces_numbers {b : Nat} (here : start / BLOCK_SIZE = b)
    (several : ¬ Single buf start) (low : 0 ≤ start) (high : start ≤ MAX_FILE_SIZE) :
    numbers (writePieces buf start) = List.range' b
      ((writeSize buf start - (BLOCK_SIZE - (start % BLOCK_SIZE).toNat) - 1) / BLOCK_SIZE + 2) := by
  have bound := writeSize_le several low high
  simp only [writePieces, if_neg several, here]
  generalize (start % BLOCK_SIZE).toNat = block_ix
  generalize hwhole : (writeSize buf start - (BLOCK_SIZE - block_ix) - 1) / BLOCK_SIZE = whole
  have small : b + whole + 1 < 2 ^ 31 := by
    simp only [BLOCK_SIZE, MAX_FILE_SIZE] at hwhole here bound high
    omega
  have first : (wrap32 (b : Int)).toNat = b := by
    rw [wrap32_eq (by omega) (by omega)]
    omega
  have last : (wrap32 ((b : Int) + (whole + 1 : Nat))).toNat = b + 1 + whole := by
    rw [wrap32_eq (by omega) (by omega)]
    omega
  have middle := @wholePieces_numbers (buf.drop (BLOCK_SIZE - block_ix)) b whole 0 (by omega)
  rw [numbers] at middle ⊢
  rw [List.cons_append, List.map_cons, List.map_append, List.map_cons, List.map_nil, middle, first, last,
    List.range'_succ, List.range'_concat, Nat.one_mul]

theorem writePieces_blocks (low : 0 ≤ start) (some : 0 < buf.length) (fits : start + buf.length ≤ MAX_FILE_SIZE) :
    numbers (writePieces buf start) = blocksOf start buf.length := by
  obtain ⟨b, here⟩ : ∃ b : Nat, start / BLOCK_SIZE = b := ⟨(start / BLOCK_SIZE).toNat, by rw [BLOCK_SIZE]; omega⟩
  have size := writeSize_eq low fits
  simp only [MAX_FILE_SIZE] at fits
  rw [blocksOf, here, Int.toNat_natCast]
  by_cases single : Single buf start
  · have number : wrap32 (b : Int) = b := by
      simp only [BLOCK_SIZE] at here
      exact wrap32_eq (by omega) (by omega)
    have one : ((start + buf.length - 1) / BLOCK_SIZE - b + 1).toNat = 1 := by
      simp only [Single, BLOCK_SIZE] at single here ⊢
      omega
    rw [one, writePieces, if_pos single, here, number]
    rfl
  · have count : ((start + buf.length - 1) / BLOCK_SIZE - b + 1).toNat =
        (buf.length - (BLOCK_SIZE - (start % BLOCK_SIZE).toNat) - 1) / BLOCK_SIZE + 2 := by
      simp only [Single, BLOCK_SIZE] at single here ⊢
      omega
    rw [count, writePieces_numbers here single low (by simp only [MAX_FILE_SIZE]; omega), size]

theorem writePieces_inside (low : 0 ≤ start) (some : 0 < buf.length) (fits : start + buf.length ≤ MAX_FILE_SIZE) :
    ∀ piece ∈ writePieces buf start, 0 ≤ piece.log_block_nr ∧ piece.log_block_nr < MAX_FILE_BLOCKS := by
  intro piece member
  have nonneg := (writePieces_tiles low fits).nonneg piece member
  have number : piece.log_block_nr.toNat ∈ numbers (writePieces buf start) := List.mem_map_of_mem member
  rw [writePieces_blocks low some fits, blocksOf, List.mem_range'_1] at number
  simp only [BLOCK_SIZE, MAX_FILE_SIZE, MAX_FILE_BLOCKS] at number fits ⊢
  omega

theorem oversize_iff (low : 0 ≤ start) (some : 0 < buf.length) (fits : start + buf.length ≤ MAX_FILE_SIZE) :
    Oversize (writePieces buf start) ↔ 2 ^ 31 ≤ ((blocksOf start buf.length).length - 2) * BLOCK_SIZE := by
  rw [← writePieces_blocks low some fits, numbers, List.length_map]
  rfl

end Numbers

structure StoredAll (p p' : InodePtr) (ds : Nat → DInode) (pieces : List Piece) : Prop where
  holds : Holds p' ds
  extending : Extends p p'
  size : p'.dinode.i_size = p.dinode.i_size
  allocFailed : p'.sb.allocFailed = p.sb.allocFailed
  blocks : ∀ piece ∈ pieces, 0 ≤ piece.log_block_nr ∧ piece.log_block_nr < MAX_FILE_BLOCKS
  present : ∀ piece ∈ pieces, ∀ k ∈ path piece.log_block_nr.toNat, p'.pointer k ≠ 0
  only : ∀ k, p'.pointer k ≠ 0 → p.pointer k ≠ 0 ∨ ∃ piece ∈ pieces, k ∈ path piece.log_block_nr.toNat

section Bytes

variable {p p' : InodePtr} {ds : Nat → DInode} {pieces : List Piece}

theorem Stored.bytes {n ix : Nat} {data : List UInt8} (stored : Stored p p' ds n ix data) (fits : ix + data.length ≤ BLOCK_SIZE)
    {i : Nat} (inside : i < MAX_FILE_SIZE) : p'.byteAt i = splice p.byteAt (n * BLOCK_SIZE + ix) data i := by
  have small := stored.small
  simp only [BLOCK_SIZE, MAX_FILE_SIZE, MAX_FILE_BLOCKS] at *
  by_cases here : i / 8192 = n
  · subst here
    have value : p'.byteAt i = splice (p.content (i / 8192)) ix data (i % 8192) := congrFun stored.content (i % 8192)
    have index : i - (i / 8192 * 8192 + ix) = i % 8192 - ix := by omega
    have reached : (i / 8192 * 8192 + ix ≤ i) = (ix ≤ i % 8192) := propext (by omega)
    simp only [value, splice, index, reached]
    rfl
  · have same : p'.byteAt i = p.byteAt i := congrFun (stored.contents (i / 8192) (show i / 8192 < 4196362 by omega) here) (i % 8192)
    rw [same]
    by_cases before : i < n * 8192 + ix
    · rw [splice_before before]
    · rw [splice_after (by omega)]

theorem Stores.spec (stores : Stores p pieces p') (holds : Holds p ds) : StoredAll p p' ds pieces := by
  induction stores with
  | none p => exact ⟨holds, .refl p, rfl, rfl, by simp, by simp, fun _ => Or.inl⟩
  | @next p p1 p2 ret piece rest stored positive _ ih =>
      rcases storeBlock_spec holds stored with ⟨negative, -⟩ | ⟨low, -, first⟩
      · omega
      have after := ih first.holds
      refine ⟨after.holds, first.extending.trans after.extending, after.size.trans first.size,
        after.allocFailed.trans first.allocFailed, fun other member => ?_, fun other member k onPath => ?_, fun k taken => ?_⟩
      · rcases List.mem_cons.mp member with rfl | later
        · have := first.small
          omega
        · exact after.blocks other later
      · rcases List.mem_cons.mp member with rfl | later
        · rw [after.extending.keeps k (first.present k onPath)]
          exact first.present k onPath
        · exact after.present other later k onPath
      · rcases after.only k taken with before | ⟨other, member, onPath⟩
        · exact (first.only k before).imp_right fun onPath => ⟨piece, List.mem_cons_self, onPath⟩
        · exact Or.inr ⟨other, List.mem_cons_of_mem _ member, onPath⟩

theorem Stores.bytes (stores : Stores p pieces p') (holds : Holds p ds) {pos : Nat} {buf : List UInt8} (tiles : Tiles pieces pos buf)
    {i : Nat} (inside : i < MAX_FILE_SIZE) : p'.byteAt i = splice p.byteAt pos buf i := by
  induction stores generalizing pos buf with
  | none p =>
      obtain rfl : buf = [] := tiles
      rw [splice_nil]
  | @next p p1 p2 ret piece rest stored positive _ ih =>
      obtain ⟨-, place, fits, data, rest⟩ := tiles
      rcases storeBlock_spec holds stored with ⟨negative, -⟩ | ⟨low, -, first⟩
      · omega
      have split : buf = piece.data ++ buf.drop piece.data.length := by
        conv_lhs => rw [← List.take_append_drop piece.data.length buf, ← data]
      rw [ih first.holds rest, split, splice_append, ← split, ← place]
      by_cases later : piece.log_block_nr.toNat * BLOCK_SIZE + piece.block_ix + piece.data.length ≤ i
      · simp only [splice, later, if_true]
        rw [first.bytes fits inside]
        simp only [splice]
      · rw [splice_before (by omega), splice_before (by omega), first.bytes fits inside]

end Bytes

section Holding

variable {p p' : InodePtr} {ds : Nat → DInode}

theorem byteAt_congr (pointers : p'.pointer = p.pointer) (sb : p'.sb = p.sb) : p'.byteAt = p.byteAt := by
  funext i
  have value (q : InodePtr) : q.byteAt i =
      (if 0 < q.pointer (target (i / BLOCK_SIZE)) then q.sb.dev (q.pointer (target (i / BLOCK_SIZE))).toNat else zero)
        (i % BLOCK_SIZE) := rfl
  rw [value, value, pointers, sb]

theorem Extends.resize (sb : p'.sb = p.sb) (number : p'.inode.i_nr = p.inode.i_nr) (references : p'.inode.i_count = p.inode.i_count)
    (dinode : p'.dinode = { p.dinode with i_size := p'.dinode.i_size }) : Extends p p' ∧ p'.pointer = p.pointer := by
  have same : p'.pointer = p.pointer := by
    rw [InodePtr.pointer, dinode, sb]
    exact pointer_fields rfl rfl rfl
  refine ⟨⟨number, references, by rw [dinode], by rw [sb], fun k _ => by rw [same], fun b inUse => by rwa [sb],
    fun k now before => ?_, fun b _ _ => by rw [sb]⟩, same⟩
  rw [same] at now
  exact absurd before now

theorem Holds.resize (holds : Holds p ds) (sb : p'.sb = p.sb) (number : p'.inode.i_nr = p.inode.i_nr)
    (references : p'.inode.i_count = p.inode.i_count) (dinode : p'.dinode = { p.dinode with i_size := p'.dinode.i_size }) :
    Holds p' ds := by
  obtain ⟨extending, same⟩ := Extends.resize sb number references dinode
  apply extending.holds holds
  · rw [sb]
    exact holds.accounts
  · rw [same, sb, ← holds.pointers_self, Function.update_eq_self]
    exact holds.owned.exact
  · rw [same, ← holds.block_count, dinode]

theorem writeOut_kept {start ret : Int} {size : Nat} {check : Bool} (out : (ret, p') = p.writeOut start size check)
    (low : 0 ≤ start) (some : 0 < size) (fits : start + size ≤ MAX_FILE_SIZE) :
    ret = (if check then -EFBIG else wrap32 size) ∧ p'.pointer = p.pointer ∧ p'.byteAt = p.byteAt ∧
      p'.dinode.i_size.toInt = max p.dinode.i_size.toInt (start + size) := by
  simp only [MAX_FILE_SIZE] at fits
  have sum : wrap64 (start + size) = start + size := wrap64_eq (by omega) (by omega)
  have below := p.dinode.i_size.toInt_lt
  have size : (Int64.ofInt (max p.dinode.i_size.toInt (start + size))).toInt =
      max p.dinode.i_size.toInt (start + size) := Int64.toInt_ofInt_of_le (by omega) (by omega)
  rw [InodePtr.writeOut, if_pos some, sum] at out
  obtain ⟨rfl, shape⟩ := Prod.mk.inj out
  have sb : p'.sb = p.sb := by rw [shape]; rfl
  have pointers := (@Extends.resize p p' sb (by rw [shape]; rfl) (by rw [shape]; rfl) (by rw [shape]; rfl)).2
  exact ⟨rfl, pointers, byteAt_congr pointers sb, by rw [shape]; exact size⟩

end Holding

end OperatingSystem.Fs
