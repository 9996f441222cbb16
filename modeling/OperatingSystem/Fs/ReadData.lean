import OperatingSystem.Fs.Fresh
import OperatingSystem.Fs.Lookup
import OperatingSystem.Fs.Written

namespace OperatingSystem.Fs

open Bytes

/-- A read of several blocks that ends with the end of one. -/
def EndsWhole (start : Int) (size : Nat) : Prop :=
  BLOCK_SIZE < (start % BLOCK_SIZE).toNat + size ∧ (start + size) % BLOCK_SIZE = 0

instance (start : Int) (size : Nat) : Decidable (EndsWhole start size) :=
  inferInstanceAs (Decidable (_ ∧ _))

def readLength (start : Int) (size : Nat) : Nat := if EndsWhole start size then size - BLOCK_SIZE else size

theorem readLength_le (start : Int) (size : Nat) : readLength start size ≤ size := by
  rw [readLength]
  split_ifs <;> omega

def InodePtr.Fetches (p : InodePtr) (start : Int) (size : Nat) : Prop :=
  ∀ n : Nat, start / BLOCK_SIZE ≤ n → n * BLOCK_SIZE < start + (max (readLength start size) 1 : Nat) → ¬ p.Misled n

section Reading

variable {p : InodePtr} (nonneg : ∀ k, 0 ≤ p.pointer k)

theorem slice_content {n ix len pos : Nat} (fits : ix + len ≤ BLOCK_SIZE) (place : n * BLOCK_SIZE + ix = pos) :
    slice (p.content n) ix len = slice p.byteAt pos len := by
  subst place
  apply List.ext_getElem
  · simp
  · intro i h h'
    rw [length_slice] at h
    have block : (n * BLOCK_SIZE + ix + i) / BLOCK_SIZE = n := by
      simp only [BLOCK_SIZE] at fits ⊢
      omega
    have index : (n * BLOCK_SIZE + ix + i) % BLOCK_SIZE = ix + i := by
      simp only [BLOCK_SIZE] at fits ⊢
      omega
    rw [getElem_slice, getElem_slice, InodePtr.byteAt, byteAt, block, index]

include nonneg

theorem read_block_inside {n : Nat} (inside : p.Inside n) :
    p.testfs_read_block n = .ok (p.pointer (target n), p.content n) :=
  testfs_read_block_found nonneg (Int.natCast_nonneg n) inside.1 inside.2

theorem readWhole_eq {b whole i : Nat} {buf : List UInt8}
    (inside : ∀ n : Nat, b + i < n → n ≤ b + i + whole → p.Inside n) :
    p.readWhole b whole i buf =
      .ok (false, buf ++ slice p.byteAt ((b + i + 1) * BLOCK_SIZE) (whole * BLOCK_SIZE)) := by
  induction whole generalizing i buf with
  | zero => simp [InodePtr.readWhole, slice]
  | succ whole ih =>
      have here := inside (b + i + 1) (by omega) (by omega)
      have small := here.1
      simp only [MAX_FILE_BLOCKS] at small
      have number : wrap32 ((b : Int) + (i + 1 : Nat)) = (b + i + 1 : Nat) := wrap32_add (by omega)
      have positive : ¬ p.pointer (target (b + i + 1)) < 0 := not_lt.mpr (nonneg _)
      have first : slice (p.content (b + i + 1)) 0 BLOCK_SIZE =
          slice p.byteAt ((b + i + 1) * BLOCK_SIZE) BLOCK_SIZE :=
        slice_content (by rw [Nat.zero_add]) (by rw [Nat.add_zero])
      have next : (b + i + 1) * BLOCK_SIZE + BLOCK_SIZE = (b + (i + 1) + 1) * BLOCK_SIZE := by ring
      rw [InodePtr.readWhole, number, read_block_inside nonneg here, Result.ok_bind]
      simp only [positive, if_false]
      have length : (whole + 1) * BLOCK_SIZE = BLOCK_SIZE + whole * BLOCK_SIZE := by ring
      rw [ih fun n above below => inside n (by omega) (by omega), first, List.append_assoc, ← next,
        ← slice_add, length]

theorem readWhole_strays {b whole i : Nat} {buf : List UInt8} (small : b + i + whole < MAX_FILE_BLOCKS)
    (strays : ∃ n : Nat, b + i < n ∧ n ≤ b + i + whole ∧ p.Misled n) : p.readWhole b whole i buf = .error .outOfTable := by
  induction whole generalizing i buf with
  | zero =>
      obtain ⟨n, above, below, -⟩ := strays
      omega
  | succ whole ih =>
      have bound := small
      simp only [MAX_FILE_BLOCKS] at bound
      have number : wrap32 ((b : Int) + (i + 1 : Nat)) = (b + i + 1 : Nat) := wrap32_add (by omega)
      rw [InodePtr.readWhole, number]
      by_cases misled : p.Misled (b + i + 1 : Nat)
      · rw [testfs_read_block_misled nonneg (Int.natCast_nonneg _) misled, Result.error_bind]
      · have here : p.Inside (b + i + 1 : Nat) := ⟨by omega, misled⟩
        have positive : ¬ p.pointer (target (b + i + 1)) < 0 := not_lt.mpr (nonneg _)
        rw [read_block_inside nonneg here, Result.ok_bind]
        simp only [positive, if_false]
        refine ih (by omega) ?_
        obtain ⟨n, above, below, there⟩ := strays
        have other : n ≠ b + i + 1 := by
          rintro rfl
          exact misled there
        exact ⟨n, by omega, by omega, there⟩

structure Begins (p : InodePtr) (start : Int) (size b ix : Nat) : Prop where
  block_nr : start / BLOCK_SIZE = b
  block_ix : start % BLOCK_SIZE = ix
  place : start.toNat = b * BLOCK_SIZE + ix
  inside : ix < BLOCK_SIZE
  bound : b * BLOCK_SIZE + ix + max size 1 ≤ MAX_FILE_SIZE
  number : wrap32 (b : Int) = b
  room : ¬ sizeT (MAX_FILE_SIZE - start) < size
  kept : ¬ p.dinode.i_size.toInt < wrap64 (start + wrap64 size)
  total : (ix + size) % 2 ^ 64 = ix + size
  ends : EndsWhole start size ↔ BLOCK_SIZE < ix + size ∧ (size - (BLOCK_SIZE - ix)) % BLOCK_SIZE = 0

omit nonneg in
theorem begins {start : Int} {size : Nat} (low : 0 ≤ start) (short : size < 2 ^ 31)
    (within : start + size ≤ p.dinode.i_size.toInt) (bound : start + (max size 1 : Nat) ≤ MAX_FILE_SIZE) :
    ∃ b ix, Begins p start size b ix := by
  obtain ⟨b, block_nr⟩ : ∃ b : Nat, start / BLOCK_SIZE = b := ⟨(start / BLOCK_SIZE).toNat, by rw [BLOCK_SIZE]; omega⟩
  obtain ⟨ix, block_ix⟩ : ∃ ix : Nat, start % BLOCK_SIZE = ix := ⟨(start % BLOCK_SIZE).toNat, by rw [BLOCK_SIZE]; omega⟩
  have here : start.toNat = b * BLOCK_SIZE + ix ∧ ix < BLOCK_SIZE := by
    simp only [BLOCK_SIZE] at block_nr block_ix ⊢
    omega
  simp only [MAX_FILE_SIZE] at bound
  have small : b < 4196362 := by
    simp only [BLOCK_SIZE] at here
    omega
  have length : wrap64 (start + wrap64 size) = start + size := by
    have length : wrap64 (size : Int) = size := wrap64_eq (by omega) (by omega)
    rw [length, wrap64_eq (by omega) (by omega)]
  refine ⟨b, ix, block_nr, block_ix, here.1, here.2, ?_, wrap32_eq (by omega) (by omega), ?_, by omega, ?_, ?_⟩
  · simp only [MAX_FILE_SIZE]
    omega
  · simp only [sizeT, MAX_FILE_SIZE]
    omega
  · simp only [BLOCK_SIZE] at here
    omega
  · simp only [EndsWhole, block_ix, Int.toNat_natCast]
    simp only [BLOCK_SIZE] at here block_ix ⊢
    omega

omit nonneg in
theorem whole_blocks {ix size : Nat} (inside : ix < BLOCK_SIZE) (several : BLOCK_SIZE < ix + size) :
    ∃ remain whole, size - (BLOCK_SIZE - ix) = remain ∧ (remain - 1) / BLOCK_SIZE = whole ∧
      whole * BLOCK_SIZE < remain ∧ remain ≤ whole * BLOCK_SIZE + BLOCK_SIZE := by
  refine ⟨_, _, rfl, rfl, ?_⟩
  simp only [BLOCK_SIZE] at inside several ⊢
  omega

variable {start : Int} {size : Nat} (low : 0 ≤ start) (short : size < 2 ^ 31)
  (within : start + size ≤ p.dinode.i_size.toInt) (bound : start + (max size 1 : Nat) ≤ MAX_FILE_SIZE)
include low short within bound

theorem testfs_read_data_eq (fetches : p.Fetches start size) : p.testfs_read_data start size =
    .ok ((size : Int), slice p.byteAt start.toNat (readLength start size)) := by
  obtain ⟨b, ix, block_nr, block_ix, place, inside, bound, number, room, kept, total, ends⟩ := begins low short within bound
  have here : start.toNat = b * BLOCK_SIZE + ix ∧ ix < BLOCK_SIZE := ⟨place, inside⟩
  have result : wrap32 (size : Int) = size := wrap32_eq (by omega) (by omega)
  have look {n : Nat} (low : b ≤ n) (high : n * BLOCK_SIZE < b * BLOCK_SIZE + ix + max (readLength start size) 1) :
      p.Inside n := by
    refine ⟨?_, fetches n (by omega) (by omega)⟩
    have shorter := readLength_le start size
    simp only [MAX_FILE_SIZE, MAX_FILE_BLOCKS, BLOCK_SIZE] at *
    omega
  have first := read_block_inside nonneg (look (le_refl b) (by simp only [BLOCK_SIZE] at here ⊢; omega))
  have positive : ¬ p.pointer (target b) < 0 := not_lt.mpr (nonneg _)
  simp only [InodePtr.testfs_read_data, not_lt.mpr low, if_false, room, kept, block_nr, block_ix,
    Int.toNat_natCast, number, first, Result.ok_bind, positive, result]
  rw [total, place]
  simp only [MAX_FILE_SIZE] at bound
  by_cases several : BLOCK_SIZE < ix + size
  · have limit : ¬ MAX_FILE_SIZE < size := by
      simp only [MAX_FILE_SIZE]
      omega
    obtain ⟨remain, whole, hremain, hwhole, count⟩ := whole_blocks inside several
    have length : readLength start size =
        BLOCK_SIZE - ix + whole * BLOCK_SIZE + if remain % BLOCK_SIZE = 0 then 0 else remain % BLOCK_SIZE := by
      rw [readLength]
      simp only [ends, several, true_and, hremain]
      split_ifs with whole_end <;> simp only [BLOCK_SIZE] at * <;> omega
    have middle := @readWhole_eq p nonneg b whole 0 (slice (p.content b) ix (BLOCK_SIZE - ix))
      fun n above below => look (by omega) (by rw [length]; simp only [BLOCK_SIZE] at *; omega)
    have front : slice (p.content b) ix (BLOCK_SIZE - ix) =
        slice p.byteAt (b * BLOCK_SIZE + ix) (BLOCK_SIZE - ix) := slice_content (by omega) rfl
    have next : (b + 0 + 1) * BLOCK_SIZE = b * BLOCK_SIZE + ix + (BLOCK_SIZE - ix) := by
      simp only [BLOCK_SIZE] at here ⊢
      omega
    rw [if_pos several, if_neg limit, hremain, hwhole, middle, front, next, ← slice_add, Result.ok_bind]
    simp only [Bool.false_eq_true, if_false]
    by_cases whole_end : remain % BLOCK_SIZE = 0
    · rw [if_pos whole_end, length, if_pos whole_end, Nat.add_zero]
      rfl
    · have last : p.Inside (b + (whole + 1) : Nat) := look (by omega) (by
        rw [length, if_neg whole_end]
        simp only [BLOCK_SIZE] at *
        omega)
      have lastSmall := last.1
      simp only [MAX_FILE_BLOCKS] at lastSmall
      have lastNumber : wrap32 ((b : Int) + (whole + 1 : Nat)) = (b + (whole + 1) : Nat) := wrap32_add (by omega)
      have lastPositive : ¬ p.pointer (target (b + (whole + 1))) < 0 := not_lt.mpr (nonneg _)
      have back : slice (p.content (b + (whole + 1))) 0 (remain % BLOCK_SIZE) =
          slice p.byteAt (b * BLOCK_SIZE + ix + (BLOCK_SIZE - ix + whole * BLOCK_SIZE)) (remain % BLOCK_SIZE) :=
        slice_content (by simp only [BLOCK_SIZE]; omega) (by simp only [BLOCK_SIZE] at here ⊢; omega)
      rw [if_neg whole_end, lastNumber, read_block_inside nonneg last, Result.ok_bind]
      simp only [lastPositive, if_false]
      rw [back, ← slice_add, length, if_neg whole_end]
      rfl
  · have fits : ¬ BLOCK_SIZE - ix < size := by omega
    have length : readLength start size = size := if_neg fun both => several (ends.mp both).1
    rw [if_neg several, if_neg fits, length, slice_content (by omega) rfl]
    rfl

omit low short within bound

omit nonneg in
theorem whole_end_covers {n b ix size remain whole : Nat} (below : n * BLOCK_SIZE < b * BLOCK_SIZE + ix + max (size - BLOCK_SIZE) 1)
    (rest : size - (BLOCK_SIZE - ix) = remain) (count : (remain - 1) / BLOCK_SIZE = whole) (whole_end : remain % BLOCK_SIZE = 0)
    (late : b + whole < n) (inside : ix < BLOCK_SIZE) (several : BLOCK_SIZE < ix + size) : False := by
  simp only [BLOCK_SIZE] at *
  omega

theorem testfs_read_data_strays (low : 0 ≤ start) (short : size < 2 ^ 31) (within : start + size ≤ p.dinode.i_size.toInt)
    (bound : start + (max size 1 : Nat) ≤ MAX_FILE_SIZE) (strays : ¬ p.Fetches start size) :
    p.testfs_read_data start size = .error .outOfTable := by
  obtain ⟨b, ix, block_nr, block_ix, place, inside, bound, number, room, kept, total, ends⟩ := begins low short within bound
  have here : start.toNat = b * BLOCK_SIZE + ix ∧ ix < BLOCK_SIZE := ⟨place, inside⟩
  simp only [MAX_FILE_SIZE] at bound
  have limit : ¬ MAX_FILE_SIZE < size := by
    simp only [MAX_FILE_SIZE]
    omega
  simp only [InodePtr.testfs_read_data, not_lt.mpr low, if_false, room, kept, block_nr, block_ix, Int.toNat_natCast,
    number, limit]
  rw [total]
  by_cases misled : p.Misled b
  · rw [testfs_read_block_misled nonneg (Int.natCast_nonneg b) misled, Result.error_bind, Result.error_bind, ite_self]
  have small : (b : Int) < MAX_FILE_BLOCKS := by
    simp only [MAX_FILE_BLOCKS, BLOCK_SIZE] at here ⊢
    omega
  have positive : ¬ p.pointer (target b) < 0 := not_lt.mpr (nonneg _)
  rw [read_block_inside nonneg ⟨small, misled⟩, Result.ok_bind, Result.ok_bind]
  simp only [positive, if_false]
  obtain ⟨n, above, below, there⟩ : ∃ n : Nat, b < n ∧ n * BLOCK_SIZE < b * BLOCK_SIZE + ix + max (readLength start size) 1 ∧
      p.Misled n := by
    by_contra none
    refine strays fun n above below there => none ⟨n, ?_, by omega, there⟩
    have other : n ≠ b := by
      rintro rfl
      exact misled there
    omega
  have several : BLOCK_SIZE < ix + size := by
    have shorter := readLength_le start size
    simp only [BLOCK_SIZE] at *
    omega
  obtain ⟨remain, whole, hremain, hwhole, count⟩ := whole_blocks inside several
  have fit : b + 0 + whole < MAX_FILE_BLOCKS ∧ b + (whole + 1) < 2 ^ 31 := by
    simp only [MAX_FILE_BLOCKS, BLOCK_SIZE] at *
    omega
  rw [if_pos several, hremain, hwhole]
  by_cases early : ∃ n : Nat, b + 0 < n ∧ n ≤ b + 0 + whole ∧ p.Misled n
  · rw [readWhole_strays nonneg fit.1 early, Result.error_bind]
  rw [readWhole_eq nonneg fun m low high => ⟨by omega, fun misled => early ⟨m, low, high, misled⟩⟩, Result.ok_bind]
  -- what is left is the last block, of which a part is read
  have late : b + 0 + whole < n := by
    by_contra before
    exact early ⟨n, by omega, by omega, there⟩
  have part : remain % BLOCK_SIZE ≠ 0 := by
    intro whole_end
    rw [readLength, if_pos (ends.mpr ⟨several, hremain ▸ whole_end⟩)] at below
    exact whole_end_covers below hremain hwhole whole_end (by omega) inside several
  have last : n = b + (whole + 1) := by
    have shorter := readLength_le start size
    simp only [BLOCK_SIZE] at *
    omega
  have lastNumber : wrap32 ((b : Int) + (whole + 1 : Nat)) = (b + (whole + 1) : Nat) := wrap32_add (by omega)
  simp only [Bool.false_eq_true, if_false, part]
  rw [lastNumber, testfs_read_block_misled nonneg (Int.natCast_nonneg _) (last ▸ there), Result.error_bind]

section Delivery

variable (low : 0 ≤ start) (short : size < 2 ^ 31) (within : start + size ≤ p.dinode.i_size.toInt)
  (inside : ∀ n : Nat, start / BLOCK_SIZE ≤ n → n * BLOCK_SIZE < start + (max size 1 : Nat) → p.Inside n)
include low short within inside

omit nonneg short within in
theorem fetches_inside : start + (max size 1 : Nat) ≤ MAX_FILE_SIZE ∧ p.Fetches start size := by
  have large := inside ((start + (max size 1 : Nat) - 1) / BLOCK_SIZE).toNat
  have last := (large (by rw [BLOCK_SIZE]; omega) (by rw [BLOCK_SIZE]; omega)).1
  constructor
  · simp only [BLOCK_SIZE, MAX_FILE_BLOCKS, MAX_FILE_SIZE] at last ⊢
    omega
  · intro n above below
    have shorter := readLength_le start size
    exact (inside n above (by omega)).2

/-- A read delivers the bytes of the file unless it ends with the end of its second or a later block. -/
theorem testfs_read_data_iff :
    p.testfs_read_data start size = .ok ((size : Int), slice p.byteAt start.toNat size) ↔ ¬ EndsWhole start size := by
  obtain ⟨bound, fetches⟩ := fetches_inside low inside
  rw [testfs_read_data_eq nonneg low short within bound fetches, readLength]
  split_ifs with ends
  · have several := ends.1
    have some : 0 < size := by
      simp only [BLOCK_SIZE] at several
      omega
    simp only [ends, not_true_eq_false, iff_false]
    intro same
    have lengths := congrArg List.length (Prod.mk.inj (Except.ok.inj same)).2
    simp only [length_slice, BLOCK_SIZE] at lengths
    omega
  · simp [ends]

end Delivery

end Reading

def twoHoles : InodePtr := .made (fun _ => zero) 2 16384

theorem twoHoles_pointer (k : Place) : twoHoles.pointer k = 0 := made_pointer _ _ _ k

theorem twoHoles_inside {start : Int} {size : Nat} (fits : start + (max size 1 : Nat) ≤ 16384) (n : Nat)
    (_ : start / BLOCK_SIZE ≤ n) (below : n * BLOCK_SIZE < start + (max size 1 : Nat)) : twoHoles.Inside n := by
  have small : (n : Int) < 4196362 := by
    simp only [BLOCK_SIZE] at below
    omega
  exact ⟨small, fun misled => misled.2.2 (twoHoles_pointer _)⟩

/-- Both blocks are read, and the second is not copied. -/
theorem testfs_read_data_fails :
    (∀ k, 0 ≤ twoHoles.pointer k) ∧
      (∀ n : Nat, (0 : Int) / BLOCK_SIZE ≤ n → n * BLOCK_SIZE < (0 : Int) + (max 16384 1 : Nat) → twoHoles.Inside n) ∧
      (0 : Int) + (16384 : Nat) ≤ twoHoles.dinode.i_size.toInt ∧
      twoHoles.testfs_read_data 0 16384 = .ok (16384, slice twoHoles.byteAt 0 8192) ∧
      twoHoles.testfs_read_data 0 16384 ≠ .ok (16384, slice twoHoles.byteAt 0 16384) := by
  have nonneg : ∀ k, 0 ≤ twoHoles.pointer k := fun k => le_of_eq (twoHoles_pointer k).symm
  have inside := @twoHoles_inside 0 16384 (by decide)
  obtain ⟨bound, fetches⟩ := @fetches_inside twoHoles 0 16384 (le_refl 0) inside
  have read := testfs_read_data_eq nonneg (le_refl 0) (by decide : 16384 < 2 ^ 31) (by decide) bound fetches
  refine ⟨nonneg, inside, by decide, read, fun whole => ?_⟩
  rw [read] at whole
  have lengths := congrArg List.length (Prod.mk.inj (Except.ok.inj whole)).2
  rw [length_slice, length_slice] at lengths
  exact absurd lengths (by decide)

theorem testfs_read_data_iff_short :
    twoHoles.testfs_read_data 0 16383 = .ok ((16383 : Nat), slice twoHoles.byteAt 0 16383) ↔ ¬ EndsWhole 0 16383 :=
  testfs_read_data_iff (fun k => le_of_eq (twoHoles_pointer k).symm) (le_refl 0) (by decide) (by decide)
    (twoHoles_inside (by decide))

end OperatingSystem.Fs
