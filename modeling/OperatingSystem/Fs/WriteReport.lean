import OperatingSystem.Fs.Room

namespace OperatingSystem.Fs

open Bytes Ownership

namespace InodePtr

variable (p : InodePtr) (buf : List UInt8) (start : Int)

structure Wrote : Prop where
  present : ∀ n ∈ blocksOf start buf.length, p.pointer (target n) ≠ 0
  bytes : ∀ k (h : k < buf.length), p.byteAt (start.toNat + k) = buf[k]

def Reports : Prop :=
  ∃ ret p', p.testfs_write_data buf start = .ok (ret, p') ∧
    (0 ≤ ret → ret = buf.length ∧ p'.Wrote buf start ∧
      p'.dinode.i_size.toInt = max p.dinode.i_size.toInt (start + buf.length)) ∧
    (¬ p'.Wrote buf start → ret < 0 ∧ p'.dinode.i_size = p.dinode.i_size)

/-- The range lies in two blocks; there is room for the first of them, and too little for both. -/
def HalfFits (size : Nat) : Prop :=
  (blocksOf start size).length = 2 ∧ p.needs ((blocksOf start size).take 1) ≤ p.sb.free ∧
    p.sb.free < p.needs (blocksOf start size)

/-- There is room for the range, and the length of its whole blocks does not fit an `int`. -/
def Overflows (size : Nat) : Prop :=
  2 ^ 31 ≤ ((blocksOf start size).length - 2) * BLOCK_SIZE ∧ p.needs (blocksOf start size) ≤ p.sb.free

end InodePtr

theorem wrap32_nonneg {n : Nat} (high : n < 2 ^ 32) (positive : 0 ≤ wrap32 n) : wrap32 n = n := by
  by_cases small : n < 2 ^ 31
  · exact wrap32_eq (by omega) (by omega)
  · have wrapped : wrap32 n = (n : Int) - 2 ^ 32 := by
      rw [wrap32, Int32.toInt_ofInt, Int.bmod_def, Int32.size]
      omega
    omega

section Ends

variable {p p1 p' : InodePtr} {ds : Nat → DInode} {buf : List UInt8} {start : Int}

theorem Stores.wrote (holds : Holds p ds) (stores : Stores p (writePieces buf start) p1) (low : 0 ≤ start)
    (some : 0 < buf.length) (fits : start + buf.length ≤ MAX_FILE_SIZE) : p1.Wrote buf start where
  present n member := by
    rw [← writePieces_blocks low some fits] at member
    obtain ⟨piece, inside, rfl⟩ := List.mem_map.mp member
    exact (stores.spec holds).present piece inside _ (target_mem_path _)
  bytes k h := by
    rw [stores.bytes holds (writePieces_tiles low fits) (by simp only [MAX_FILE_SIZE] at fits ⊢; omega), splice_inside h]

theorem InodePtr.Wrote.congr (wrote : p.Wrote buf start) (pointers : p'.pointer = p.pointer) (bytes : p'.byteAt = p.byteAt) :
    p'.Wrote buf start := ⟨by rw [pointers]; exact wrote.present, by rw [bytes]; exact wrote.bytes⟩

end Ends

section Reporting

variable {p : InodePtr} {ds : Nat → DInode} (holds : Holds p ds) {buf : List UInt8} {start : Int}
  (low : 0 ≤ start) (some : 0 < buf.length) (fits : start + buf.length ≤ MAX_FILE_SIZE)
  (inside : p.testfs_write_data buf start ≠ .error .outOfTable)
include holds low some fits inside

theorem write_data_ends :
    (∃ p1, Stores p (writePieces buf start) p1 ∧ p.testfs_write_data buf start =
      if Oversize (writePieces buf start) then .error .overflow else .ok (p1.writeOut start buf.length false)) ∨
    ∃ done piece p1 ret p2, StopsAt p (writePieces buf start) done piece p1 ret p2 ∧
      piece.log_block_nr < MAX_FILE_BLOCKS ∧ p.testfs_write_data buf start =
        .ok (if (writePieces buf start).length = 2 ∧ done.length = 1 then p2.writeOut start buf.length false else (ret, p2)) := by
  have cut := cutOff_eq low fits
  have size := writeSize_eq low fits
  rcases @write_data_cases p buf start low with
    ⟨p1, stores, run⟩ | ⟨done, piece, p1, ret, p2, stops, run⟩ | ⟨done, piece, p1, fault, faults, run⟩
  · rw [cut, size] at run
    exact Or.inl ⟨p1, stores, run⟩
  · obtain ⟨rest, split⟩ := stops.split
    rw [stopped, cut, size] at run
    exact Or.inr ⟨done, piece, p1, ret, p2, stops, (writePieces_inside low some fits piece (by simp [split])).2, run⟩
  · obtain ⟨rest, split⟩ := faults.split
    obtain ⟨nonneg, small⟩ := writePieces_inside low some fits piece (by simp [split])
    rw [run, (faults.misled holds nonneg small).2] at inside
    exact absurd rfl inside

theorem half_fits_writes (half : p.HalfFits start buf.length) :
    ∃ p', p.testfs_write_data buf start = .ok ((buf.length : Int), p') ∧ ¬ p'.Wrote buf start := by
  obtain ⟨two, first, few⟩ := half
  have blocks := writePieces_blocks low some fits
  rcases write_data_ends holds low some fits inside with
    ⟨p1, stores, -⟩ | ⟨done, piece, p1, ret, p2, stops, small, run⟩
  · have room := stores.fits holds
    rw [blocks] at room
    omega
  obtain ⟨rest, split⟩ := stops.split
  have count : (writePieces buf start).length = 2 := by
    rw [← two, ← blocks, numbers, List.length_map]
  have lengths := congrArg List.length split
  rw [count, List.length_append, List.length_cons] at lengths
  rcases done with _ | ⟨one, _ | ⟨more, done⟩⟩
  · have short := stops.short holds small
    have head : numbers ([] ++ [piece]) = (blocksOf start buf.length).take 1 := by
      rw [← blocks, split]
      rfl
    rw [head] at short
    omega
  · rw [count, if_pos ⟨rfl, rfl⟩] at run
    cases result : p2.writeOut start buf.length false with
    | mk ret' p' =>
        rw [result] at run
        obtain ⟨rfl, pointers, -, -⟩ := writeOut_kept result.symm low some fits
        have value : wrap32 (buf.length : Int) = buf.length := by
          apply wrap32_eq (by omega)
          simp only [blocksOf, List.length_range', BLOCK_SIZE] at two
          omega
        simp only [Bool.false_eq_true, if_false, value] at run
        refine ⟨p', run, fun wrote => ?_⟩
        have unmapped := (stops.failed holds).unmapped (stops.stores.spec holds).holds small
        have member : piece.log_block_nr.toNat ∈ blocksOf start buf.length := by
          rw [← blocks]
          exact List.mem_map_of_mem (by simp [split])
        have present := wrote.present _ member
        rw [pointers, unmapped] at present
        exact present rfl
  · simp only [List.length_cons] at lengths
    omega

theorem overflows_writes (much : p.Overflows start buf.length) : p.testfs_write_data buf start = .error .overflow := by
  obtain ⟨large, room⟩ := much
  rcases write_data_ends holds low some fits inside with ⟨p1, -, run⟩ | ⟨done, piece, p1, ret, p2, stops, small, -⟩
  · rw [run, if_pos ((oversize_iff low some fits).mpr large)]
  · have few := stops.lacks holds small
    rw [writePieces_blocks low some fits] at few
    omega

/-- A write tells what it stored, unless only the second of two blocks does not fit, or the lengths of the
whole blocks overflow. -/
theorem testfs_write_data_reports_iff :
    p.Reports buf start ↔ ¬ p.HalfFits start buf.length ∧ ¬ p.Overflows start buf.length := by
  have blocks := writePieces_blocks low some fits
  constructor
  · rintro ⟨ret, p', run, success, -⟩
    refine ⟨fun half => ?_, fun much => ?_⟩
    · obtain ⟨p2, run', lost⟩ := half_fits_writes holds low some fits inside half
      obtain ⟨rfl, rfl⟩ := Prod.mk.inj (Except.ok.inj (run.symm.trans run'))
      exact lost (success (by omega)).2.1
    · rw [overflows_writes holds low some fits inside much] at run
      cases run
  · rintro ⟨whole, narrow⟩
    rcases write_data_ends holds low some fits inside with
      ⟨p1, stores, run⟩ | ⟨done, piece, p1, ret, p2, stops, small, run⟩
    · have room := stores.fits holds
      rw [blocks] at room
      have short : ¬ Oversize (writePieces buf start) := fun large =>
        narrow ⟨(oversize_iff low some fits).mp large, room⟩
      rw [if_neg short] at run
      cases result : p1.writeOut start buf.length false with
      | mk ret p' =>
          rw [result] at run
          obtain ⟨value, pointers, bytes, size⟩ := writeOut_kept result.symm low some fits
          have wrote := (stores.wrote holds low some fits).congr pointers bytes
          rw [(stores.spec holds).size] at size
          simp only [Bool.false_eq_true, if_false] at value
          refine ⟨ret, p', run, fun positive => ⟨?_, wrote, size⟩, fun lost => absurd wrote lost⟩
          rw [oversize_iff low some fits, blocksOf, List.length_range'] at short
          simp only [BLOCK_SIZE] at short
          have narrow : buf.length < 2 ^ 32 := by omega
          rw [value] at positive ⊢
          exact wrap32_nonneg narrow positive
    · have negative := stops.negative
      have other : ¬ ((writePieces buf start).length = 2 ∧ done.length = 1) := by
        rintro ⟨two, one⟩
        obtain ⟨rest, split⟩ := stops.split
        have last : rest = [] := by
          have lengths := congrArg List.length split
          rw [two, List.length_append, List.length_cons, one] at lengths
          exact List.length_eq_zero_iff.mp (by omega)
        have few := stops.lacks holds small
        have first := stops.stores.fits holds
        have head : numbers done = (blocksOf start buf.length).take 1 := by
          rw [← blocks, split, numbers, numbers, List.map_append, List.take_left' (by rw [List.length_map, one])]
        refine whole ⟨?_, by rwa [← head], by rwa [← blocks]⟩
        rw [← blocks, numbers, List.length_map, two]
      rw [if_neg other] at run
      refine ⟨ret, p2, run, fun positive => by omega, fun _ => ⟨negative, ?_⟩⟩
      rw [(stops.failed holds).size, (stops.stores.spec holds).size]

end Reporting

section Example

def oneFree : InodePtr := emptyFile 1

theorem oneFree_holds : Holds oneFree fun _ => DInode.zero := emptyFile_holds (by decide)

theorem oneFree_free : oneFree.sb.free = 1 := emptyFile_free 1

theorem oneFree_needs (ns : List Nat) : oneFree.needs ns = (ns.flatMap path).toFinset.card := by
  have empty (k : Place) : oneFree.pointer k = 0 := emptyFile_pointer 1 k
  rw [InodePtr.needs, Finset.filter_true_of_mem fun k _ => empty k]

theorem emptyFile_inside {blocks : UInt64} (bounded : blocks.toNat ≤ 1048576) {buf : List UInt8} {start : Int} (low : 0 ≤ start)
    (some : 0 < buf.length) (near : start + buf.length ≤ (2058 * BLOCK_SIZE : Nat)) :
    (emptyFile blocks).testfs_write_data buf start ≠ .error .outOfTable := by
  obtain ⟨ret, p', run⟩ := write_near_returns (emptyFile_holds bounded) low some near
  rw [run]
  exact fun same => nomatch same

theorem blocksOf_two : blocksOf 0 8193 = [0, 1] := by decide

/-- Of two blocks only the first fits, and the write returns the number of all bytes. -/
theorem testfs_write_data_reports_fails :
    Holds oneFree (fun _ => DInode.zero) ∧ oneFree.testfs_write_data (List.replicate 8193 1) 0 ≠ .error .outOfTable ∧
      (∃ p', oneFree.testfs_write_data (List.replicate 8193 1) 0 = .ok (8193, p') ∧
        ¬ p'.Wrote (List.replicate 8193 1) 0) ∧ ¬ oneFree.Reports (List.replicate 8193 1) 0 := by
  have length : (List.replicate 8193 (1 : UInt8)).length = 8193 := List.length_replicate
  have some : 0 < (List.replicate 8193 (1 : UInt8)).length := by
    rw [length]
    decide
  have inside : oneFree.testfs_write_data _ 0 ≠ _ := emptyFile_inside (by decide) (le_refl 0) some (by rw [length]; decide)
  have half : oneFree.HalfFits 0 (List.replicate 8193 (1 : UInt8)).length := by
    rw [length, InodePtr.HalfFits, blocksOf_two, oneFree_free, oneFree_needs, oneFree_needs]
    decide
  obtain ⟨p', run, lost⟩ := half_fits_writes oneFree_holds (le_refl 0) some (by rw [length]; decide) inside half
  rw [length] at run
  refine ⟨oneFree_holds, inside, ⟨p', run, lost⟩, ?_⟩
  rintro ⟨ret, p2, run', success, -⟩
  obtain ⟨rfl, rfl⟩ := Prod.mk.inj (Except.ok.inj (run.symm.trans run'))
  exact lost (success (by decide)).2.1

/-- The last two bytes of one block, a whole block and six bytes of a third, with room for all three. -/
theorem testfs_write_data_reports_iff_three : (emptyFile 3).Reports (List.replicate 8200 1) 8190 := by
  have length : (List.replicate 8200 (1 : UInt8)).length = 8200 := List.length_replicate
  have blocks : blocksOf 8190 8200 = [0, 1, 2] := by decide
  refine (testfs_write_data_reports_iff (emptyFile_holds (by decide)) (by decide) (by rw [length]; decide) (by rw [length]; decide)
    (emptyFile_inside (by decide) (by decide) (by rw [length]; decide) (by rw [length]; decide))).mpr ?_
  rw [length, InodePtr.HalfFits, InodePtr.Overflows, blocks]
  exact ⟨fun half => absurd half.1 (by decide), fun much => absurd much.1 (by decide)⟩

end Example

end OperatingSystem.Fs
