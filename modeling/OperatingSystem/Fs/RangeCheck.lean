import OperatingSystem.Fs.Commands
import OperatingSystem.Fs.Paths

namespace OperatingSystem.Fs

open Bytes Prog

theorem wrap64_cases (n : Int) :
    wrap64 n = n % 2 ^ 64 ∧ n % 2 ^ 64 < 2 ^ 63 ∨ wrap64 n = n % 2 ^ 64 - 2 ^ 64 ∧ 2 ^ 63 ≤ n % 2 ^ 64 := by
  rw [wrap64, Int64.toInt_ofInt, Int.bmod_def, show (Int64.size : Int) = 2 ^ 64 from rfl]
  split_ifs <;> omega

theorem wrap32_cases (n : Int) :
    wrap32 n = n % 2 ^ 32 ∧ n % 2 ^ 32 < 2 ^ 31 ∨ wrap32 n = n % 2 ^ 32 - 2 ^ 32 ∧ 2 ^ 31 ≤ n % 2 ^ 32 := by
  rw [wrap32, Int32.toInt_ofInt, Int.bmod_def, show (Int32.size : Int) = 2 ^ 32 from rfl]
  split_ifs <;> omega

/-- The block number, as an `int`, is one that `testfs_read_block` accepts and looks up inside its tables. -/
def InodePtr.Passes (p : InodePtr) (n : Nat) : Prop :=
  0 ≤ wrap32 n ∧ ¬ p.Misled (wrap32 n) ∧ (MAX_FILE_BLOCKS ≤ wrap32 n → p.pointer .dindirect = 0)

def InodePtr.PassesAll (p : InodePtr) (start : Int) (size : Nat) : Prop :=
  ∀ n : Nat, start / BLOCK_SIZE ≤ n → n * BLOCK_SIZE < start + (max (readLength start size) 1 : Nat) → p.Passes n

def TooLarge (start : Int) (size : Nat) : Prop :=
  sizeT (MAX_FILE_SIZE - start) < size ∨
    BLOCK_SIZE < ((start % BLOCK_SIZE).toNat + size) % 2 ^ 64 ∧ MAX_FILE_SIZE < size

instance (start : Int) (size : Nat) : Decidable (TooLarge start size) := inferInstanceAs (Decidable (_ ∨ _))

section Blocks

variable {p : InodePtr} (nonneg : ∀ k, 0 ≤ p.pointer k) {n b : Nat}
include nonneg

theorem lookup_past (high : MAX_FILE_BLOCKS ≤ n) : p.lookup n =
    if p.pointer .dindirect = 0 ∧ p.pointer .indirect = 0 then .ok 0 else .error .outOfTable := by
  have double : p.pointer .dindirect = p.dinode.i_dindirect.toInt := rfl
  have single : p.pointer .indirect = p.dinode.i_indirect.toInt := rfl
  have doubleLow := nonneg .dindirect
  have singleLow := nonneg .indirect
  simp only [MAX_FILE_BLOCKS] at high
  have direct : ¬ n < 10 := by omega
  have far : 2048 ≤ n - 10 := by omega
  have outside : ¬ (n - 10 - 2048) / 2048 < 2048 := by omega
  have past : ¬ n - 10 < 2048 := by omega
  simp only [InodePtr.lookup, NR_DIRECT_BLOCKS, NR_INDIRECT_BLOCKS, dif_neg direct, far, true_and]
  by_cases real : 0 < p.dinode.i_dindirect.toInt
  · rw [if_pos real, read_block_eq real, if_neg (by omega)]
    simp only [Result.ok_bind, lookupEntry, NR_INDIRECT_BLOCKS, if_neg outside, Result.error_bind]
  · rw [if_neg real]
    by_cases present : 0 < p.dinode.i_indirect.toInt
    · rw [if_pos present, read_block_eq present, if_neg (by omega)]
      simp only [Result.ok_bind, lookupEntry, NR_INDIRECT_BLOCKS, if_neg past]
    · rw [if_neg present, if_pos (by omega)]
      rfl

theorem read_block_passes (passes : p.Passes n) :
    ∃ v block, p.testfs_read_block (wrap32 n) = .ok (v, block) ∧ 0 ≤ v := by
  obtain ⟨low, fine, absent⟩ := passes
  rcases lt_or_ge (wrap32 n) MAX_FILE_BLOCKS with small | large
  · exact ⟨_, _, testfs_read_block_found nonneg low small fine, nonneg _⟩
  · have double := absent large
    have single : p.pointer .indirect = 0 := by
      by_contra present
      exact fine ⟨by simp only [MAX_FILE_BLOCKS] at large; omega, double, present⟩
    have look := lookup_past nonneg (n := (wrap32 n).toNat) (by simp only [MAX_FILE_BLOCKS] at large ⊢; omega)
    rw [if_pos ⟨double, single⟩] at look
    refine ⟨0, zero, ?_, le_refl 0⟩
    simp only [InodePtr.testfs_read_block, assert, if_pos low, Result.ok_bind, look]
    rfl

theorem read_block_stuck (stuck : ¬ p.Passes n) :
    ∃ e, p.testfs_read_block (wrap32 n) = .error e ∧ e ≠ .overrun := by
  by_cases low : 0 ≤ wrap32 n
  · by_cases misled : p.Misled (wrap32 n)
    · exact ⟨_, testfs_read_block_misled nonneg low misled, by simp⟩
    · have large : MAX_FILE_BLOCKS ≤ wrap32 n ∧ p.pointer .dindirect ≠ 0 := by
        by_contra small
        exact stuck ⟨low, misled, fun large => by_contra fun present => small ⟨large, present⟩⟩
      have look := lookup_past nonneg (n := (wrap32 n).toNat) (by have := large.1; simp only [MAX_FILE_BLOCKS] at this ⊢; omega)
      rw [if_neg fun both => large.2 both.1] at look
      refine ⟨.outOfTable, ?_, by simp⟩
      simp only [InodePtr.testfs_read_block, assert, if_pos low, Result.ok_bind, look, Result.error_bind]
  · exact ⟨.assertion, by simp only [InodePtr.testfs_read_block, assert, if_neg low, Result.error_bind], by simp⟩

theorem readWhole_passes {whole i : Nat} {buf : List UInt8} (passes : ∀ n, b + i < n → n ≤ b + i + whole → p.Passes n) :
    ∃ more, p.readWhole b whole i buf = .ok (false, buf ++ more) ∧ more.length = whole * BLOCK_SIZE := by
  induction whole generalizing i buf with
  | zero => exact ⟨[], by simp [InodePtr.readWhole], by simp⟩
  | succ whole ih =>
      obtain ⟨v, block, read, low⟩ := read_block_passes nonneg (passes (b + (i + 1)) (by omega) (by omega))
      obtain ⟨more, rest, length⟩ := @ih (i + 1) (buf ++ slice block 0 BLOCK_SIZE) fun n above below =>
        passes n (by omega) (by omega)
      refine ⟨slice block 0 BLOCK_SIZE ++ more, ?_, ?_⟩
      · rw [Nat.cast_add] at read
        simp only [InodePtr.readWhole, read, Result.ok_bind, not_lt.mpr low, if_false, rest, List.append_assoc]
      · rw [List.length_append, length_slice, length]
        ring

theorem readWhole_stuck {whole i : Nat} {buf : List UInt8} (stuck : ∃ n, b + i < n ∧ n ≤ b + i + whole ∧ ¬ p.Passes n) :
    ∃ e, p.readWhole b whole i buf = .error e ∧ e ≠ .overrun := by
  induction whole generalizing i buf with
  | zero =>
      obtain ⟨n, above, below, -⟩ := stuck
      omega
  | succ whole ih =>
      by_cases passes : p.Passes (b + (i + 1))
      · obtain ⟨v, block, read, low⟩ := read_block_passes nonneg passes
        obtain ⟨n, above, below, there⟩ := stuck
        have other : n ≠ b + (i + 1) := by
          rintro rfl
          exact there passes
        obtain ⟨e, failed, kind⟩ := @ih (i + 1) (buf ++ slice block 0 BLOCK_SIZE) ⟨n, by omega, by omega, there⟩
        refine ⟨e, ?_, kind⟩
        rw [Nat.cast_add] at read
        simp only [InodePtr.readWhole, read, Result.ok_bind, not_lt.mpr low, if_false, failed]
      · obtain ⟨e, failed, kind⟩ := read_block_stuck nonneg passes
        refine ⟨e, ?_, kind⟩
        rw [Nat.cast_add] at failed
        simp only [InodePtr.readWhole, failed, Result.error_bind]

end Blocks

structure Spans (start : Int) (size b ix : Nat) : Prop where
  block_nr : start / BLOCK_SIZE = b
  block_ix : (start % BLOCK_SIZE).toNat = ix
  place : start = (b * BLOCK_SIZE + ix : Nat)
  inside : ix < BLOCK_SIZE

theorem spans {start : Int} {size : Nat} (low : 0 ≤ start) : ∃ b ix, Spans start size b ix := by
  refine ⟨(start / BLOCK_SIZE).toNat, (start % BLOCK_SIZE).toNat, ?_, rfl, ?_, ?_⟩ <;> simp only [BLOCK_SIZE] <;> omega

theorem Spans.last {start : Int} {size b ix n : Nat} (spans : Spans start size b ix) (from_first : b ≤ n) :
    n * BLOCK_SIZE < start + (max (readLength start size) 1 : Nat) ↔
      n ≤ if BLOCK_SIZE < ix + size then
        b + (size - (BLOCK_SIZE - ix) - 1) / BLOCK_SIZE + (if (size - (BLOCK_SIZE - ix)) % BLOCK_SIZE = 0 then 0 else 1)
      else b := by
  obtain ⟨-, index, place, inside⟩ := spans
  have ends : EndsWhole start size ↔ BLOCK_SIZE < ix + size ∧ (size - (BLOCK_SIZE - ix)) % BLOCK_SIZE = 0 := by
    simp only [EndsWhole, index]
    simp only [BLOCK_SIZE] at place inside ⊢
    omega
  rw [readLength]
  simp only [ends]
  by_cases several : BLOCK_SIZE < ix + size
  · by_cases whole_end : (size - (BLOCK_SIZE - ix)) % BLOCK_SIZE = 0
    · simp only [several, whole_end, and_self, if_true]
      simp only [BLOCK_SIZE] at *
      omega
    · simp only [several, whole_end, and_false, if_true, if_false]
      simp only [BLOCK_SIZE] at *
      omega
  · simp only [several, false_and, if_false]
    simp only [BLOCK_SIZE] at *
    omega

section Reading

variable {p : InodePtr} (nonneg : ∀ k, 0 ≤ p.pointer k) {start : Int} {size : Nat} (low : 0 ≤ start)
  (kept : ¬ p.dinode.i_size.toInt < wrap64 (start + wrap64 size))
include low kept

theorem read_data_tooLarge (large : TooLarge start size) : p.testfs_read_data start size = .ok (-EFBIG, []) := by
  have positive : ¬ start < 0 := not_lt.mpr low
  simp only [InodePtr.testfs_read_data, positive, kept, if_false]
  rcases large with exceeds | ⟨several, exceeds⟩
  · rw [if_pos exceeds]
    rfl
  · split_ifs
    · rfl
    · rfl

variable (fits : ¬ TooLarge start size)
include nonneg fits

theorem read_data_wraps (wraps : 2 ^ 64 ≤ (start % BLOCK_SIZE).toNat + size) (below : size < 2 ^ 64) :
    ∃ e, p.testfs_read_data start size = .error e := by
  have positive : ¬ start < 0 := not_lt.mpr low
  have room : ¬ sizeT (MAX_FILE_SIZE - start) < size := fun exceeds => fits (Or.inl exceeds)
  obtain ⟨ix, index⟩ : ∃ ix : Nat, (start % BLOCK_SIZE).toNat = ix := ⟨_, rfl⟩
  obtain ⟨b, block⟩ : ∃ b : Nat, start / BLOCK_SIZE = b := ⟨(start / BLOCK_SIZE).toNat, by rw [BLOCK_SIZE]; omega⟩
  have inside : ix < BLOCK_SIZE := by
    simp only [BLOCK_SIZE] at index ⊢
    omega
  rw [index] at wraps
  have single : ¬ BLOCK_SIZE < (ix + size) % 2 ^ 64 := by
    simp only [BLOCK_SIZE] at inside ⊢
    omega
  have past : BLOCK_SIZE - ix < size := by
    simp only [BLOCK_SIZE] at inside ⊢
    omega
  simp only [InodePtr.testfs_read_data, positive, kept, room, index, single, block, if_false]
  by_cases passes : p.Passes b
  · obtain ⟨v, block, read, low⟩ := read_block_passes nonneg passes
    exact ⟨.overrun, by simp only [read, Result.ok_bind, not_lt.mpr low, past, if_false, if_true]; rfl⟩
  · obtain ⟨e, failed, -⟩ := read_block_stuck nonneg passes
    exact ⟨e, by simp only [failed, Result.error_bind]⟩

variable (exact : (start % BLOCK_SIZE).toNat + size < 2 ^ 64)
include exact

omit nonneg in
theorem read_data_blocks {b ix : Nat} (spans : Spans start size b ix) : p.testfs_read_data start size =
    if BLOCK_SIZE < ix + size then do
      let (ret, block) ← p.testfs_read_block (wrap32 b)
      if ret < 0 then return (ret, [])
      let (failed, buf) ← p.readWhole b ((size - (BLOCK_SIZE - ix) - 1) / BLOCK_SIZE) 0 (slice block ix (BLOCK_SIZE - ix))
      if failed then return (1, buf)
      if (size - (BLOCK_SIZE - ix)) % BLOCK_SIZE = 0 then return (wrap32 size, buf)
      let (ret, block) ← p.testfs_read_block (wrap32 (b + ((size - (BLOCK_SIZE - ix) - 1) / BLOCK_SIZE + 1 : Nat)))
      if ret < 0 then return (1, buf)
      return (wrap32 size, buf ++ slice block 0 ((size - (BLOCK_SIZE - ix)) % BLOCK_SIZE))
    else do
      let (ret, block) ← p.testfs_read_block (wrap32 b)
      if ret < 0 then return (ret, [])
      return (wrap32 size, slice block ix size) := by
  have positive : ¬ start < 0 := not_lt.mpr low
  have room : ¬ sizeT (MAX_FILE_SIZE - start) < size := fun exceeds => fits (Or.inl exceeds)
  rw [spans.block_ix] at exact
  have total : (ix + size) % 2 ^ 64 = ix + size := Nat.mod_eq_of_lt exact
  simp only [InodePtr.testfs_read_data, positive, kept, room, spans.block_nr, spans.block_ix, if_false]
  rw [total]
  by_cases several : BLOCK_SIZE < ix + size
  · have exceeds : ¬ MAX_FILE_SIZE < size := fun exceeds => fits (Or.inr ⟨by rwa [spans.block_ix, total], exceeds⟩)
    simp only [several, exceeds, if_true, if_false]
  · have past : ¬ BLOCK_SIZE - ix < size := by
      simp only [BLOCK_SIZE] at several ⊢
      omega
    simp only [several, past, if_false]

theorem read_data_passes (passes : p.PassesAll start size) :
    ∃ buf, p.testfs_read_data start size = .ok (wrap32 size, buf) ∧ buf.length ≤ size := by
  obtain ⟨b, ix, spans⟩ := @spans start size low
  have here (n : Nat) (first : b ≤ n) (last : n ≤ _) : p.Passes n :=
    passes n (by rw [spans.block_nr]; exact_mod_cast first) ((spans.last first).mpr last)
  have inside := spans.inside
  rw [read_data_blocks low kept fits exact spans]
  obtain ⟨whole, hwhole⟩ : ∃ whole, (size - (BLOCK_SIZE - ix) - 1) / BLOCK_SIZE = whole := ⟨_, rfl⟩
  by_cases several : BLOCK_SIZE < ix + size
  · rw [if_pos several, hwhole] at here ⊢
    obtain ⟨v, block, read, sound⟩ := read_block_passes nonneg (here b (le_refl b) (by omega))
    obtain ⟨more, middle, length⟩ := @readWhole_passes p nonneg b whole 0 (slice block ix (BLOCK_SIZE - ix))
      fun n above below => here n (by omega) (by omega)
    simp only [read, Result.ok_bind, not_lt.mpr sound, if_false, middle, Bool.false_eq_true]
    by_cases whole_end : (size - (BLOCK_SIZE - ix)) % BLOCK_SIZE = 0
    · rw [if_pos whole_end]
      refine ⟨_, rfl, ?_⟩
      rw [List.length_append, length_slice, length]
      simp only [BLOCK_SIZE] at *
      omega
    · rw [if_neg whole_end] at here ⊢
      obtain ⟨v', block', read', sound'⟩ := read_block_passes nonneg (here (b + (whole + 1)) (by omega) (by omega))
      rw [Nat.cast_add] at read'
      simp only [read', Result.ok_bind, not_lt.mpr sound', if_false]
      refine ⟨_, rfl, ?_⟩
      rw [List.length_append, List.length_append, length_slice, length_slice, length]
      simp only [BLOCK_SIZE] at *
      omega
  · rw [if_neg several] at here ⊢
    obtain ⟨v, block, read, sound⟩ := read_block_passes nonneg (here b (le_refl b) (le_refl b))
    simp only [read, Result.ok_bind, not_lt.mpr sound, if_false]
    exact ⟨_, rfl, le_of_eq (length_slice _ _ _)⟩

theorem read_data_stuck (stuck : ¬ p.PassesAll start size) :
    ∃ e, p.testfs_read_data start size = .error e ∧ e ≠ .overrun := by
  obtain ⟨b, ix, spans⟩ := @spans start size low
  rw [read_data_blocks low kept fits exact spans]
  by_cases first : p.Passes b
  · obtain ⟨v, block, read, sound⟩ := read_block_passes nonneg first
    obtain ⟨n, above, last, there⟩ : ∃ n, b < n ∧ n ≤ (if BLOCK_SIZE < ix + size then
        b + (size - (BLOCK_SIZE - ix) - 1) / BLOCK_SIZE + (if (size - (BLOCK_SIZE - ix)) % BLOCK_SIZE = 0 then 0 else 1)
      else b) ∧ ¬ p.Passes n := by
      by_contra none
      refine stuck fun n above below => by_contra fun there => none ⟨n, ?_, ?_, there⟩
      · have other : n ≠ b := by
          rintro rfl
          exact there first
        rw [spans.block_nr] at above
        omega
      · rw [spans.block_nr] at above
        exact (spans.last (by omega)).mp below
    obtain ⟨whole, hwhole⟩ : ∃ whole, (size - (BLOCK_SIZE - ix) - 1) / BLOCK_SIZE = whole := ⟨_, rfl⟩
    by_cases several : BLOCK_SIZE < ix + size
    · rw [if_pos several, hwhole] at last ⊢
      simp only [read, Result.ok_bind, not_lt.mpr sound, if_false]
      by_cases early : ∃ n, b + 0 < n ∧ n ≤ b + 0 + whole ∧ ¬ p.Passes n
      · obtain ⟨e, failed, kind⟩ := readWhole_stuck nonneg early
        exact ⟨e, by rw [failed]; rfl, kind⟩
      -- what is left is the last block, of which a part is read
      obtain ⟨more, middle, -⟩ := @readWhole_passes p nonneg b whole 0 (slice block ix (BLOCK_SIZE - ix))
        fun n above below => by_contra fun there => early ⟨n, above, below, there⟩
      have late : b + whole < n := by
        by_contra before
        exact early ⟨n, by omega, by omega, there⟩
      have part : ¬ (size - (BLOCK_SIZE - ix)) % BLOCK_SIZE = 0 := by
        intro whole_end
        rw [if_pos whole_end] at last
        omega
      rw [if_neg part] at last
      obtain rfl : n = b + (whole + 1) := by omega
      obtain ⟨e, failed, kind⟩ := read_block_stuck nonneg there
      rw [Nat.cast_add] at failed
      refine ⟨e, ?_, kind⟩
      simp only [middle, Result.ok_bind, Bool.false_eq_true, if_false, part, failed, Result.error_bind]
    · rw [if_neg several] at last
      omega
  · obtain ⟨e, failed, kind⟩ := read_block_stuck nonneg first
    refine ⟨e, ?_, kind⟩
    simp only [failed, Result.error_bind, ite_self]

end Reading

section Sums

variable {start : Int} {size : Nat} (low : 0 ≤ start) (high : start < 2 ^ 63) (below : size < 2 ^ 64)
include low high below

theorem sum_wraps : wrap64 (start + wrap64 size) = if start + size < 2 ^ 63 then start + size else start + size - 2 ^ 64 := by
  have inner := wrap64_cases size
  have outer := wrap64_cases (start + wrap64 size)
  split_ifs <;> omega

theorem tooLarge_inside (short : size < 2 ^ 31) (sum : start + size < 2 ^ 63) :
    TooLarge start size ↔ start ≤ MAX_FILE_SIZE ∧ MAX_FILE_SIZE < start + size := by
  simp only [TooLarge, sizeT, MAX_FILE_SIZE, BLOCK_SIZE]
  omega

theorem tooLarge_negative (exceeds : 2 ^ 63 ≤ start + size) (sum : start + size < 2 ^ 64) :
    TooLarge start size ↔ MAX_FILE_SIZE < size := by
  simp only [TooLarge, sizeT, MAX_FILE_SIZE, BLOCK_SIZE]
  omega

theorem tooLarge_wrapped (exceeds : 2 ^ 64 ≤ start + size) :
    TooLarge start size ↔ ¬ (start + size = 2 ^ 64 + MAX_FILE_SIZE ∧ MAX_FILE_SIZE < start ∧ start < MAX_FILE_SIZE + BLOCK_SIZE) := by
  simp only [TooLarge, sizeT, MAX_FILE_SIZE, BLOCK_SIZE]
  omega

end Sums

theorem str_to_offset_lt {str : Name} {offset : Int} (read : str_to_offset str = .ok offset) : offset < 2 ^ 63 := by
  simp only [str_to_offset] at read
  split_ifs at read <;> obtain rfl := Except.ok.inj read <;> omega

theorem str_to_size_lt {str : Name} {size : Nat} (read : str_to_size str = .ok size) : size < 2 ^ 64 := by
  simp only [str_to_size] at read
  split_ifs at read <;> obtain rfl := Except.ok.inj read <;> omega

structure Opened (t : Testfs) (cur_dir : Nat) (filename : Name) (u : Testfs) (nr : Nat) (i : Inode) : Prop where
  found : run Testfs.handle (testfs_get_file_inode cur_dir filename) t = .ok ((0, nr), u)
  inode : u.inode_hash_table.find nr = some i
  clean : i.dirty = false
  nonneg : ∀ k, 0 ≤ (InodePtr.mk u.sb i).pointer k
  size : 0 ≤ i.dinode.i_size.toInt

structure RangeChecked (malloc : Nat → Option Memory) (i_size start : Int) (size : Nat)
    (outcome : Except Fault ((Int × List Output) × Testfs)) : Prop where
  beyond : i_size < start + size → ∃ ret t, outcome = .ok ((ret, []), t) ∧ ret < 0
  inside : start + size ≤ i_size → size < 2 ^ 31 → (malloc (sizeT (size + 1))).isSome →
    ∃ string t, outcome = .ok (((size : Int), [.text string]), t)
  stored : outcome ≠ .error .overrun

/-- The sum of offset and size is not taken for a smaller one, and the file's own blocks can be read. -/
structure InRange (p : InodePtr) (start : Int) (size : Nat) : Prop where
  negative : 2 ^ 63 ≤ start + size → start + size < 2 ^ 64 → MAX_FILE_SIZE < size
  wrapped : start + size = 2 ^ 64 + MAX_FILE_SIZE → MAX_FILE_SIZE < start → start < MAX_FILE_SIZE + BLOCK_SIZE →
    p.dinode.i_size.toInt < MAX_FILE_SIZE
  inside : start + size ≤ p.dinode.i_size.toInt → size < 2 ^ 31 →
    (start ≤ MAX_FILE_SIZE → start + size ≤ MAX_FILE_SIZE) ∧ p.PassesAll start size

def readOut (v : Testfs) (buf : Memory) (size : Nat) (read : Int × List UInt8) : Except Fault ((Int × List Output) × Testfs) :=
  if sizeT (size + 1) < read.2.length then .error .overrun
  else if read.1 < 0 then .ok ((read.1, []), v)
  else if sizeT (size + 1) ≤ size then .error .overrun
  else .ok ((read.1, [.text ((slice (splice (splice buf 0 read.2) size [0]) 0 size).takeWhile (· ≠ 0))]), v)

section Outcomes

variable {p : InodePtr} {v : Testfs} {buf : Memory} {malloc : Nat → Option Memory} {start : Int} {size : Nat}

theorem rangeChecked_error {e : Fault} (stopped : start + size ≤ p.dinode.i_size.toInt) (memory : (malloc (sizeT (size + 1))).isSome)
    (kind : e ≠ .overrun) : RangeChecked malloc p.dinode.i_size.toInt start size (.error e) ↔ ¬ size < 2 ^ 31 := by
  refine ⟨fun checked short => ?_, fun long => ⟨fun exceeds => absurd stopped (not_le.mpr exceeds), fun _ short => absurd short long, ?_⟩⟩
  · obtain ⟨_, _, impossible⟩ := checked.inside stopped short memory
    cases impossible
  · simpa using kind

theorem not_rangeChecked {e : Fault} (exceeds : p.dinode.i_size.toInt < start + size) :
    ¬ RangeChecked malloc p.dinode.i_size.toInt start size (.error e) := by
  intro checked
  obtain ⟨_, _, impossible, -⟩ := checked.beyond exceeds
  cases impossible

theorem rangeChecked_refused : RangeChecked malloc p.dinode.i_size.toInt start size (.ok ((-EFBIG, []), v)) ↔
    ¬ (start + size ≤ p.dinode.i_size.toInt ∧ size < 2 ^ 31 ∧ (malloc (sizeT (size + 1))).isSome) := by
  constructor
  · rintro checked ⟨within, short, memory⟩
    obtain ⟨_, _, answer⟩ := checked.inside within short memory
    simp at answer
  · intro none
    exact ⟨fun _ => ⟨-EFBIG, v, rfl, by decide⟩, fun within short memory => absurd ⟨within, short, memory⟩ none, by simp⟩

theorem readOut_delivered {stored : List UInt8} (fits : stored.length ≤ size) (below : size + 1 < 2 ^ 64)
    (within : start + size ≤ p.dinode.i_size.toInt) :
    RangeChecked malloc p.dinode.i_size.toInt start size (readOut v buf size (wrap32 size, stored)) := by
  have request : sizeT (size + 1) = size + 1 := by
    rw [sizeT]
    omega
  have short : ¬ size + 1 < stored.length := by omega
  have inside : ¬ size + 1 ≤ size := by omega
  simp only [readOut, request, short, inside, if_false]
  refine ⟨fun exceeds => absurd within (not_le.mpr exceeds), fun _ small _ => ?_, ?_⟩
  · have result : wrap32 (size : Int) = size := wrap32_eq (by omega) (by omega)
    rw [result, if_neg (by omega)]
    exact ⟨_, v, rfl⟩
  · split_ifs <;> simp

variable (nonneg : ∀ k, 0 ≤ p.pointer k) (low : 0 ≤ start) (high : start < 2 ^ 63) (below : size < 2 ^ 64)
  (some : 0 ≤ p.dinode.i_size.toInt) (memory : (malloc (sizeT (size + 1))).isSome)
  (kept : ¬ p.dinode.i_size.toInt < wrap64 (start + wrap64 size))
include nonneg low high below some memory kept

theorem rangeChecked_iff : RangeChecked malloc p.dinode.i_size.toInt start size
    (p.testfs_read_data start size >>= readOut v buf size) ↔ InRange p start size := by
  have file : p.dinode.i_size.toInt < 2 ^ 63 := Int64.toInt_lt _
  have sum := sum_wraps low high below
  by_cases large : TooLarge start size
  · rw [read_data_tooLarge low kept large]
    change RangeChecked _ _ _ _ (readOut v buf size (-EFBIG, [])) ↔ _
    have out : readOut v buf size (-EFBIG, []) = .ok ((-EFBIG, []), v) := by simp [readOut, EFBIG]
    rw [out, rangeChecked_refused]
    constructor
    · intro refused
      refine ⟨fun exceeds under => (tooLarge_negative low high below exceeds under).mp large, fun same above near => ?_,
        fun within short => absurd ⟨within, short, memory⟩ refused⟩
      have wrapped := tooLarge_wrapped low high below (by simp only [MAX_FILE_SIZE] at same; omega)
      exact absurd ⟨same, above, near⟩ (wrapped.mp large)
    · rintro inRange ⟨within, short, -⟩
      obtain ⟨below', exceeds⟩ := (tooLarge_inside low high below short (by omega)).mp large
      exact absurd ((inRange.inside within short).1 below') (not_le.mpr exceeds)
  rcases lt_or_ge (start + size) (2 ^ 63) with exactSum | wrapped
  · have within : start + size ≤ p.dinode.i_size.toInt := by
      rw [sum, if_pos exactSum] at kept
      omega
    have exact : (start % BLOCK_SIZE).toNat + size < 2 ^ 64 := by
      simp only [BLOCK_SIZE]
      omega
    by_cases passes : p.PassesAll start size
    · obtain ⟨stored, read, fits⟩ := read_data_passes nonneg low kept large exact passes
      rw [read]
      refine iff_of_true (readOut_delivered fits (by omega) within) ⟨fun exceeds => absurd exceeds (by omega), fun same => ?_,
        fun _ short => ⟨fun before => ?_, passes⟩⟩
      · simp only [MAX_FILE_SIZE] at same
        omega
      · by_contra exceeds
        exact large ((tooLarge_inside low high below short exactSum).mpr ⟨before, not_le.mp exceeds⟩)
    · obtain ⟨e, failed, kind⟩ := read_data_stuck nonneg low kept large exact passes
      rw [failed]
      change RangeChecked _ _ _ _ (.error e) ↔ _
      rw [rangeChecked_error within memory kind]
      refine ⟨fun long => ⟨fun exceeds => absurd exceeds (by omega), fun same => ?_, fun _ short => absurd short long⟩,
        fun inRange short => passes (inRange.inside within short).2⟩
      simp only [MAX_FILE_SIZE] at same
      omega
  · have exceeds : p.dinode.i_size.toInt < start + size := by omega
    have outside : ¬ InRange p start size := by
      intro inRange
      rcases lt_or_ge (start + size) (2 ^ 64) with negative | positive
      · exact large ((tooLarge_negative low high below wrapped negative).mpr (inRange.negative wrapped negative))
      · have corner := not_not.mp (mt (tooLarge_wrapped low high below positive).mpr large)
        have short := inRange.wrapped corner.1 corner.2.1 corner.2.2
        rw [sum, if_neg (by omega)] at kept
        simp only [MAX_FILE_SIZE] at corner short
        omega
    refine iff_of_false ?_ outside
    by_cases exact : (start % BLOCK_SIZE).toNat + size < 2 ^ 64
    · have stuck : ¬ p.PassesAll start size := by
        intro passes
        rcases lt_or_ge (start + size) (2 ^ 64) with negative | positive
        · -- the number of the first block is negative as an `int`
          have short := mt (tooLarge_negative low high below wrapped negative).mpr large
          have first := (passes (start / BLOCK_SIZE).toNat (by rw [BLOCK_SIZE]; omega) (by rw [BLOCK_SIZE]; omega)).1
          have number := wrap32_cases (start / BLOCK_SIZE).toNat
          simp only [MAX_FILE_SIZE, BLOCK_SIZE] at short first number
          omega
        · have corner := not_not.mp (mt (tooLarge_wrapped low high below positive).mpr large)
          simp only [MAX_FILE_SIZE, BLOCK_SIZE] at corner exact
          omega
      obtain ⟨e, failed, -⟩ := read_data_stuck nonneg low kept large exact stuck
      rw [failed]
      exact not_rangeChecked exceeds
    · obtain ⟨e, failed⟩ := read_data_wraps nonneg low kept large (not_lt.mp exact) below
      rw [failed]
      exact not_rangeChecked exceeds

end Outcomes

section Command

variable {t u v : Testfs} {cur_dir nr : Nat} {filename offset length : Name} {i : Inode} {start : Int} {size : Nat}
  {malloc : Nat → Option Memory}

theorem Opened.put (opened : Opened t cur_dir filename u nr i) : ∃ v, u.testfs_put_inode nr = .ok v := by
  rw [Testfs.testfs_put_inode_eq opened.inode, if_pos opened.clean]
  exact ⟨_, rfl⟩

variable (opened : Opened t cur_dir filename u nr i) (put : u.testfs_put_inode nr = .ok v)
  (offset_eq : str_to_offset offset = .ok start) (low : 0 ≤ start) (length_eq : str_to_size length = .ok size)
include opened put offset_eq low length_eq

theorem cmd_read_past (past : i.dinode.i_size.toInt < wrap64 (start + wrap64 size)) :
    run Testfs.handle (cmd_read malloc cur_dir [filename, offset, length]) t = .ok ((-EINVAL, []), v) := by
  have positive : ¬ start < 0 := not_lt.mpr low
  simp only [cmd_read, offset_eq, length_eq, positive, if_false, run_bind, opened.found, Result.ok_bind, lt_irrefl,
    run_call, Testfs.handle, Testfs.testfs_inode_get_size, Testfs.inode, opened.inode]
  change run Testfs.handle (if i.dinode.i_size.toInt < wrap64 (start + wrap64 size) then _ else _) u = _
  rw [if_pos past, run_bind, run_call, Testfs.handle, put]
  rfl

theorem cmd_read_kept (kept : ¬ i.dinode.i_size.toInt < wrap64 (start + wrap64 size)) :
    run Testfs.handle (cmd_read malloc cur_dir [filename, offset, length]) t =
      (malloc (sizeT (size + 1))).elim (.ok ((-ENOMEM, []), v)) fun buf =>
        (InodePtr.mk u.sb i).testfs_read_data start size >>= readOut v buf size := by
  have positive : ¬ start < 0 := not_lt.mpr low
  simp only [cmd_read, offset_eq, length_eq, positive, if_false, run_bind, opened.found, Result.ok_bind, lt_irrefl,
    run_call, Testfs.handle, Testfs.testfs_inode_get_size, Testfs.inode, opened.inode]
  change run Testfs.handle (if i.dinode.i_size.toInt < wrap64 (start + wrap64 size) then _ else _) u = _
  rw [if_neg kept]
  cases malloc (sizeT (size + 1)) with
  | none =>
      simp only [run_bind, run_call, Testfs.handle, put]
      rfl
  | some buf =>
      have read : Testfs.handle (.testfs_read_data nr start size) u =
          (InodePtr.mk u.sb i).testfs_read_data start size >>= fun read => .ok (read, u) := by
        simp only [Testfs.handle, Testfs.testfs_read_data, Testfs.inode, opened.inode, Result.ok_bind]
      simp only [run_bind, run_call, read, Option.elim_some]
      cases (InodePtr.mk u.sb i).testfs_read_data start size with
      | error e => rfl
      | ok read =>
          simp only [Result.ok_bind, readOut]
          split_ifs <;> simp only [run_bind, run_call, run_fault, Testfs.handle, put] <;> rfl

theorem cmd_read_checked :
    RangeChecked malloc i.dinode.i_size.toInt start size
        (run Testfs.handle (cmd_read malloc cur_dir [filename, offset, length]) t) ↔
      ((malloc (sizeT (size + 1))).isSome → InRange ⟨u.sb, i⟩ start size) := by
  have high := str_to_offset_lt offset_eq
  have below := str_to_size_lt length_eq
  have sum := sum_wraps low high below
  have file : i.dinode.i_size.toInt < 2 ^ 63 := Int64.toInt_lt _
  have some := opened.size
  by_cases past : i.dinode.i_size.toInt < wrap64 (start + wrap64 size)
  · -- the check sees that the range is too long
    rw [cmd_read_past opened put offset_eq low length_eq past]
    rw [sum] at past
    have exceeds : ¬ start + size ≤ i.dinode.i_size.toInt := by
      split_ifs at past <;> omega
    refine iff_of_true ⟨fun _ => ⟨-EINVAL, v, rfl, by decide⟩, fun within => absurd within exceeds, by simp⟩
      fun _ => ⟨fun _ _ => ?_, fun wrapped _ _ => ?_, fun within => absurd within exceeds⟩
    · split_ifs at past <;> omega
    · change i.dinode.i_size.toInt < _
      simp only [MAX_FILE_SIZE] at wrapped ⊢
      split_ifs at past <;> omega
  rw [cmd_read_kept opened put offset_eq low length_eq past]
  cases memory : malloc (sizeT (size + 1)) with
  | none =>
      refine iff_of_true ⟨fun _ => ⟨-ENOMEM, v, rfl, by decide⟩, fun _ _ given => ?_, by simp⟩ fun given => nomatch given
      rw [memory] at given
      cases given
  | some buf =>
      simp only [Option.elim_some, Option.isSome_some, forall_const]
      exact rangeChecked_iff opened.nonneg low high below some (by rw [memory]; rfl) past

end Command

/-- The range check is right exactly where `InRange` says so, or nothing can be read for want of memory. -/
theorem cmd_read_range_iff {t u : Testfs} {cur_dir nr : Nat} {filename offset length : Name} {i : Inode}
    (opened : Opened t cur_dir filename u nr i) {start : Int} (offset_eq : str_to_offset offset = .ok start) (low : 0 ≤ start)
    {size : Nat} (length_eq : str_to_size length = .ok size) (malloc : Nat → Option Memory) :
    RangeChecked malloc i.dinode.i_size.toInt start size
        (run Testfs.handle (cmd_read malloc cur_dir [filename, offset, length]) t) ↔
      ((malloc (sizeT (size + 1))).isSome → InRange ⟨u.sb, i⟩ start size) := by
  obtain ⟨v, put⟩ := opened.put
  exact cmd_read_checked opened put offset_eq low length_eq

section LastByte

theorem Hierarchy.opened {t₀ : Testfs} {root d : Nat} {dirs : List Nat} {parent : Nat → Nat} {records : Nat → List Record} {r : Record}
    (counted : t₀.Counted) (hierarchy : Hierarchy t₀ root dirs parent records) (member : d ∈ dirs) (there : d < NR_INODES)
    (fine : Fine t₀ (t₀.view d) 0 (records d)) (inside : r ∈ records d) (live : r.Live)
    (file : (t₀.dinode r.number).i_type = InodeType.I_FILE.code) (nonneg : ∀ k, 0 ≤ (t₀.view r.number).pointer k)
    (size : 0 ≤ (t₀.dinode r.number).i_size.toInt) :
    ∃ t u i, t₀.testfs_get_inode d = .ok t ∧ Opened t d r.name u r.number i ∧ u.sb = t₀.sb ∧ i.dinode = t₀.dinode r.number := by
  obtain ⟨t, get, got⟩ := Testfs.get_inode_got (Testfs.Same.refl counted) there
  obtain ⟨u, get', got'⟩ := Testfs.get_inode_got got.same (hierarchy.numbered d member r inside live)
  obtain ⟨i, found, sb, dinode⟩ := got'.same.opens got'.holds
  have look := dir_name_to_inode_nr_eq (got.same.opens got.holds) (hierarchy.directory d member) (hierarchy.listed d member) fine.1
    (hierarchy.distinct d member) inside live
  rw [← Record.number_cast live] at look
  have clean : i.dirty = false := (got'.same.clean r.number).mpr (fine.2 r inside live) i found
  have type : i.dinode.i_type = InodeType.I_FILE.code := (congrArg DInode.i_type dinode).trans file
  have other : ¬ InodeType.I_FILE.code = InodeType.I_DIR.code := by decide
  refine ⟨t, u, i, get, ⟨?_, found, clean, fun k => ?_, ?_⟩, sb, dinode⟩
  · have positive : ¬ (r.number : Int) < 0 := not_lt.mpr (Int.natCast_nonneg _)
    simp only [testfs_get_file_inode, run_bind, look, Result.ok_bind, if_neg positive, run_call, Testfs.handle, Int.toNat_natCast, get',
      Result.pure_eq_ok, Testfs.testfs_inode_get_type, Testfs.inode, found]
    rw [if_neg (type ▸ other)]
    rfl
  · change 0 ≤ pointer u.sb.dev i.dinode k
    rw [sb, dinode]
    exact nonneg k
  · rw [dinode]
    exact size

theorem oneFile_opened : ∃ t u i, (oneFile 1).testfs_get_inode 0 = .ok t ∧ Opened t 0 [97] u 1 i ∧ i.dinode = fileInode := by
  have inside : ⟨1, List.replicate 1 97 ++ [0], by simp, by simp, by simp⟩ ∈ files 1 := by simp [files]
  have nonneg (k : Place) : 0 ≤ pointer (oneFile 1).sb.dev ((oneFile 1).dinode 1) k := by
    rw [oneFile_file]
    cases k <;> exact le_refl 0
  have size : 0 ≤ ((oneFile 1).dinode 1).i_size.toInt := by
    rw [oneFile_file]
    decide
  obtain ⟨t, u, i, get, opened, -, file⟩ := oneFile_hierarchy.opened oneFile_counted (List.mem_singleton_self 0) (by decide)
    (oneFile_fine_iff.mpr (by decide)) inside (by decide) (congrArg DInode.i_type oneFile_file) nonneg size
  exact ⟨t, u, i, get, opened, file.trans oneFile_file⟩

theorem hello_pointer (dev : Disk) (k : Place) : pointer dev helloInode k = if k = .direct 0 then 149 else 0 := by
  cases k with
  | direct i =>
      simp only [pointer, helloInode, Place.direct.injEq, Fin.ext_iff]
      split_ifs <;> first | rfl | contradiction
  | leaf i j => rfl
  | _ => rfl

theorem nested_opened : ∃ t u i, nested.testfs_get_inode 1 = .ok t ∧ Opened t 1 [99] u 3 i ∧ u.sb = nested.sb ∧ i.dinode = helloInode := by
  have inside : ⟨3, [99, 0], by simp, by simp, by simp⟩ ∈ nestedRecords 1 := by simp [nestedRecords]
  have nonneg (k : Place) : 0 ≤ pointer nested.sb.dev (nested.dinode 3) k := by
    rw [nested_file, hello_pointer]
    split_ifs <;> decide
  have size : 0 ≤ (nested.dinode 3).i_size.toInt := by
    rw [nested_file]
    decide
  obtain ⟨t, u, i, get, opened, sb, file⟩ := nested_hierarchy.opened nested_counted (show 1 ∈ [0, 1, 2] by decide) (by decide)
    (nested_fine (by decide)) inside (by decide) (congrArg DInode.i_type nested_file) nonneg size
  exact ⟨t, u, i, get, opened, sb, file.trans nested_file⟩

/-- The offset 2 ^ 63 - 1 and the size 1. -/
def lastOffset : Name := [57, 50, 50, 51, 51, 55, 50, 48, 51, 54, 56, 53, 52, 55, 55, 53, 56, 48, 55]
def oneByte : Name := [49]

theorem read_last (p : InodePtr) (some : 0 ≤ p.dinode.i_size.toInt) :
    p.testfs_read_data (2 ^ 63 - 1) 1 = .error .assertion := by
  have kept : ¬ p.dinode.i_size.toInt < wrap64 (2 ^ 63 - 1 + wrap64 (1 : Nat)) := by
    rw [sum_wraps (by decide) (by decide) (by decide), if_neg (by decide)]
    omega
  have large : ¬ TooLarge (2 ^ 63 - 1) 1 := by decide
  have spans : Spans (2 ^ 63 - 1) 1 (2 ^ 50 - 1) 8191 := ⟨by decide, by decide, by decide, by decide⟩
  rw [read_data_blocks (by decide) kept large (by decide) spans, if_neg (by decide)]
  rfl

/-- The sum is negative, so that the check lets the read through. -/
theorem cmd_read_range_fails : ∃ t u i, (oneFile 1).testfs_get_inode 0 = .ok t ∧ Opened t 0 [97] u 1 i ∧
    str_to_offset lastOffset = .ok (2 ^ 63 - 1) ∧ str_to_size oneByte = .ok 1 ∧ i.dinode.i_size.toInt < (2 ^ 63 - 1) + 1 ∧
      run Testfs.handle (cmd_read (fun _ => some zero) 0 [[97], lastOffset, oneByte]) t = .error .assertion ∧
        ¬ RangeChecked (fun _ => some zero) i.dinode.i_size.toInt (2 ^ 63 - 1) 1
          (run Testfs.handle (cmd_read (fun _ => some zero) 0 [[97], lastOffset, oneByte]) t) := by
  obtain ⟨t, u, i, get, opened, file⟩ := oneFile_opened
  obtain ⟨v, put⟩ := opened.put
  have exceeds : i.dinode.i_size.toInt < (2 ^ 63 - 1) + (1 : Nat) := by
    rw [file]
    decide
  have kept : ¬ i.dinode.i_size.toInt < wrap64 (2 ^ 63 - 1 + wrap64 (1 : Nat)) := by
    rw [file]
    decide
  have offset : str_to_offset lastOffset = .ok (2 ^ 63 - 1) := by decide
  have length : str_to_size oneByte = .ok 1 := by decide
  have ran : run Testfs.handle (cmd_read (fun _ => some zero) 0 [[97], lastOffset, oneByte]) t = .error .assertion := by
    rw [cmd_read_kept opened put offset (by decide) length kept, Option.elim_some, read_last ⟨u.sb, i⟩ opened.size]
    rfl
  exact ⟨t, u, i, get, opened, offset, length, exceeds, ran, ran ▸ not_rangeChecked (p := ⟨u.sb, i⟩) exceeds⟩

/-- Three bytes of `hello`. -/
theorem cmd_read_range_iff_hello : ∃ t u v i, nested.testfs_get_inode 1 = .ok t ∧ Opened t 1 [99] u 3 i ∧
    (RangeChecked (fun _ => some zero) i.dinode.i_size.toInt 1 3
        (run Testfs.handle (cmd_read (fun _ => some zero) 1 [[99], [49], [51]]) t) ↔
      ((some zero).isSome → InRange ⟨u.sb, i⟩ 1 3)) ∧
    run Testfs.handle (cmd_read (fun _ => some zero) 1 [[99], [49], [51]]) t = .ok ((3, [.text [101, 108, 108]]), v) := by
  obtain ⟨t, u, i, get, opened, sb, file⟩ := nested_opened
  obtain ⟨v, put⟩ := opened.put
  refine ⟨t, u, v, i, get, opened, cmd_read_range_iff opened (by decide) (by decide) (by decide) fun _ => some zero, ?_⟩
  have kept : ¬ i.dinode.i_size.toInt < wrap64 (1 + wrap64 (3 : Nat)) := by
    rw [file]
    decide
  have read : (InodePtr.mk u.sb i).testfs_read_data 1 3 = .ok (3, [101, 108, 108]) := by
    have fetches : (InodePtr.mk u.sb i).Fetches 1 3 := by
      intro n _ below misled
      have := misled.1
      change ((n * BLOCK_SIZE : Nat) : Int) < 1 + 3 at below
      rw [BLOCK_SIZE] at below
      omega
    have held := testfs_read_data_eq opened.nonneg (by decide) (by decide) (by rw [InodePtr.dinode, file]; decide) (by decide) fetches
    have bytes : slice (byteAt u.sb.dev i.dinode) 1 3 = [101, 108, 108] := by
      rw [sb, file]
      rfl
    exact held.trans (congrArg (fun bytes => Except.ok ((3 : Int), bytes)) bytes)
  rw [cmd_read_kept opened put (by decide) (by decide) (by decide) kept, Option.elim_some, read]
  rfl

end LastByte

end OperatingSystem.Fs
