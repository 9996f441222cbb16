import OperatingSystem.Fs.Store

namespace OperatingSystem.Fs

open Bytes Ownership

structure Piece where
  log_block_nr : Int
  block_ix : Nat
  data : List UInt8

section Plan

def wholePieces (block_nr : Int) : Nat → Nat → List UInt8 → List Piece
  | 0, _, _ => []
  | whole + 1, i, buf =>
      ⟨wrap32 (block_nr + (i + 1 : Nat)), 0, buf.take BLOCK_SIZE⟩ ::
        wholePieces block_nr whole (i + 1) (buf.drop BLOCK_SIZE)

def Single (buf : List UInt8) (start : Int) : Prop := (start % BLOCK_SIZE).toNat + buf.length ≤ BLOCK_SIZE

instance (buf : List UInt8) (start : Int) : Decidable (Single buf start) :=
  inferInstanceAs (Decidable (_ ≤ _))

/-- `check`: the write is cut off at the maximum file size. -/
def cutOff (buf : List UInt8) (start : Int) : Bool :=
  ¬ Single buf start ∧ sizeT (MAX_FILE_SIZE - start) < buf.length

def writeSize (buf : List UInt8) (start : Int) : Nat :=
  if cutOff buf start then sizeT (MAX_FILE_SIZE - start) else buf.length

def writePieces (buf : List UInt8) (start : Int) : List Piece :=
  let block_nr := start / BLOCK_SIZE
  let block_ix := (start % BLOCK_SIZE).toNat
  if Single buf start then [⟨wrap32 block_nr, block_ix, buf⟩]
  else
    let tempSize := writeSize buf start - (BLOCK_SIZE - block_ix)
    let whole := (tempSize - 1) / BLOCK_SIZE
    let rest := buf.drop (BLOCK_SIZE - block_ix)
    ⟨wrap32 block_nr, block_ix, buf.take (BLOCK_SIZE - block_ix)⟩ :: wholePieces block_nr whole 0 rest ++
      [⟨wrap32 (block_nr + (whole + 1 : Nat)), 0,
        (rest.drop (whole * BLOCK_SIZE)).take (tempSize - whole * BLOCK_SIZE)⟩]

end Plan

inductive Stores : InodePtr → List Piece → InodePtr → Prop
  | none (p : InodePtr) : Stores p [] p
  | next {p p1 p2 : InodePtr} {ret : Int} (piece : Piece) {rest : List Piece} :
      p.storeBlock piece.log_block_nr piece.block_ix piece.data = .ok (ret, p1) → 0 ≤ ret →
      Stores p1 rest p2 → Stores p (piece :: rest) p2

/-- The pieces `done` were stored, and the next one failed. -/
structure StopsAt (p : InodePtr) (pieces done : List Piece) (piece : Piece) (p1 : InodePtr) (ret : Int)
    (p2 : InodePtr) : Prop where
  split : ∃ rest, pieces = done ++ piece :: rest
  stores : Stores p done p1
  fails : p1.storeBlock piece.log_block_nr piece.block_ix piece.data = .ok (ret, p2)
  negative : ret < 0

structure FaultsAt (p : InodePtr) (pieces done : List Piece) (piece : Piece) (p1 : InodePtr) (fault : Fault) : Prop where
  split : ∃ rest, pieces = done ++ piece :: rest
  stores : Stores p done p1
  faults : p1.storeBlock piece.log_block_nr piece.block_ix piece.data = .error fault

theorem StopsAt.append {p p1 p2 : InodePtr} {pieces done : List Piece} {piece : Piece} {ret : Int}
    (stops : StopsAt p pieces done piece p1 ret p2) (more : List Piece) : StopsAt p (pieces ++ more) done piece p1 ret p2 :=
  { stops with
    split := by
      obtain ⟨rest, rfl⟩ := stops.split
      exact ⟨rest ++ more, List.append_assoc _ _ _⟩ }

theorem FaultsAt.append {p p1 : InodePtr} {pieces done : List Piece} {piece : Piece} {fault : Fault}
    (faults : FaultsAt p pieces done piece p1 fault) (more : List Piece) : FaultsAt p (pieces ++ more) done piece p1 fault :=
  { faults with
    split := by
      obtain ⟨rest, rfl⟩ := faults.split
      exact ⟨rest ++ more, List.append_assoc _ _ _⟩ }

namespace Stores

variable {p p1 p2 : InodePtr} {front back : List Piece}

theorem append (first : Stores p front p1) (second : Stores p1 back p2) : Stores p (front ++ back) p2 := by
  induction first with
  | none p => exact second
  | next piece stored positive _ ih => exact .next piece stored positive (ih second)

theorem stops_behind {done : List Piece} {piece : Piece} {p3 : InodePtr} {ret : Int} (first : Stores p front p1)
    (stops : StopsAt p1 back done piece p2 ret p3) : StopsAt p (front ++ back) (front ++ done) piece p2 ret p3 where
  split := by
    obtain ⟨rest, rfl⟩ := stops.split
    exact ⟨rest, (List.append_assoc _ _ _).symm⟩
  stores := first.append stops.stores
  fails := stops.fails
  negative := stops.negative

theorem faults_behind {done : List Piece} {piece : Piece} {fault : Fault} (first : Stores p front p1)
    (faults : FaultsAt p1 back done piece p2 fault) : FaultsAt p (front ++ back) (front ++ done) piece p2 fault where
  split := by
    obtain ⟨rest, rfl⟩ := faults.split
    exact ⟨rest, (List.append_assoc _ _ _).symm⟩
  stores := first.append faults.stores
  faults := faults.faults

end Stores

section Decomposition

variable {p p' : InodePtr} {ret : Int} {buf : List UInt8} {start : Int}

theorem storeBlock_cases (n : Int) (ix : Nat) (data : List UInt8) (rest : List Piece) :
    (∃ ret p1, p.storeBlock n ix data = .ok (ret, p1) ∧ ¬ ret < 0 ∧ Stores p [⟨n, ix, data⟩] p1) ∨
    (∃ ret p1, p.storeBlock n ix data = .ok (ret, p1) ∧ ret < 0 ∧
      StopsAt p (⟨n, ix, data⟩ :: rest) [] ⟨n, ix, data⟩ p ret p1) ∨
    ∃ fault, p.storeBlock n ix data = .error fault ∧ FaultsAt p (⟨n, ix, data⟩ :: rest) [] ⟨n, ix, data⟩ p fault := by
  cases stored : p.storeBlock n ix data with
  | error fault => exact Or.inr (Or.inr ⟨fault, rfl, ⟨rest, rfl⟩, .none p, stored⟩)
  | ok result =>
      obtain ⟨ret, p1⟩ := result
      by_cases negative : ret < 0
      · exact Or.inr (Or.inl ⟨ret, p1, rfl, negative, ⟨rest, rfl⟩, .none p, stored, negative⟩)
      · exact Or.inl ⟨ret, p1, rfl, negative, .next _ stored (by omega) (.none p1)⟩

theorem writeWhole_cases {block_nr : Int} {whole i : Nat} :
    (∃ p1, InodePtr.writeWhole block_nr whole i p buf = .ok (0, p1) ∧ Stores p (wholePieces block_nr whole i buf) p1) ∨
    (∃ done piece p1 ret p2, InodePtr.writeWhole block_nr whole i p buf = .ok (ret, p2) ∧
      StopsAt p (wholePieces block_nr whole i buf) done piece p1 ret p2) ∨
    ∃ done piece p1 fault, InodePtr.writeWhole block_nr whole i p buf = .error fault ∧
      FaultsAt p (wholePieces block_nr whole i buf) done piece p1 fault := by
  induction whole generalizing i p buf with
  | zero => exact Or.inl ⟨p, rfl, .none p⟩
  | succ whole ih =>
      rw [InodePtr.writeWhole, wholePieces]
      rcases storeBlock_cases (p := p) (wrap32 (block_nr + (i + 1 : Nat))) 0 (buf.take BLOCK_SIZE)
          (wholePieces block_nr whole (i + 1) (buf.drop BLOCK_SIZE)) with
        ⟨ret, p1, stored, positive, here⟩ | ⟨ret, p1, stored, negative, stops⟩ | ⟨fault, stored, faults⟩
      · simp only [stored, Result.ok_bind, positive, if_false]
        rcases @ih p1 (buf.drop BLOCK_SIZE) (i + 1) with
          ⟨p2, run, stores⟩ | ⟨done, piece, p2, ret', p3, run, stops⟩ | ⟨done, piece, p2, fault, run, faults⟩
        · exact Or.inl ⟨p2, run, here.append stores⟩
        · exact Or.inr (Or.inl ⟨_, piece, p2, ret', p3, run, here.stops_behind stops⟩)
        · exact Or.inr (Or.inr ⟨_, piece, p2, fault, run, here.faults_behind faults⟩)
      · refine Or.inr (Or.inl ⟨[], _, p, ret, p1, ?_, stops⟩)
        simp only [stored, Result.ok_bind, negative, if_true]
        rfl
      · refine Or.inr (Or.inr ⟨[], _, p, fault, ?_, faults⟩)
        rw [stored, Result.error_bind]

theorem wholePieces_length {block_nr : Int} {whole i : Nat} :
    (wholePieces block_nr whole i buf).length = whole := by
  induction whole generalizing i buf with
  | zero => rfl
  | succ whole ih => simp [wholePieces, ih]

def Oversize (pieces : List Piece) : Prop := 2 ^ 31 ≤ (pieces.length - 2) * BLOCK_SIZE

instance (pieces : List Piece) : Decidable (Oversize pieces) := inferInstanceAs (Decidable (_ ≤ _))

/-- What a write returns when it stopped at a piece: of two pieces the second may fail, and the write goes
on as if it had been stored. -/
def stopped (pieces done : List Piece) (ret : Int) (p : InodePtr) (buf : List UInt8) (start : Int) : Int × InodePtr :=
  if pieces.length = 2 ∧ done.length = 1 then p.writeOut start (writeSize buf start) (cutOff buf start) else (ret, p)

/-- A write stores its pieces, stops at one of them, or runs into a fault there. -/
def WriteEnds (p : InodePtr) (buf : List UInt8) (start : Int) : Prop :=
  (∃ p1, Stores p (writePieces buf start) p1 ∧ p.testfs_write_data buf start =
    if Oversize (writePieces buf start) then .error .overflow
    else .ok (p1.writeOut start (writeSize buf start) (cutOff buf start))) ∨
  (∃ done piece p1 ret p2, StopsAt p (writePieces buf start) done piece p1 ret p2 ∧
    p.testfs_write_data buf start = .ok (stopped (writePieces buf start) done ret p2 buf start)) ∨
  ∃ done piece p1 fault, FaultsAt p (writePieces buf start) done piece p1 fault ∧
    p.testfs_write_data buf start = .error fault

theorem single_write_ends (positive : ¬ start < 0) (single : Single buf start) : WriteEnds p buf start := by
  unfold WriteEnds
  have small : ¬ BLOCK_SIZE < (start % BLOCK_SIZE).toNat + buf.length := Nat.not_lt.mpr single
  have cut : cutOff buf start = false := by simp [cutOff, single]
  have size : writeSize buf start = buf.length := by simp [writeSize, cut]
  have pieces : writePieces buf start = [⟨wrap32 (start / BLOCK_SIZE), (start % BLOCK_SIZE).toNat, buf⟩] := by
    simp only [writePieces, if_pos single]
  simp only [InodePtr.testfs_write_data, positive, if_false, small]
  rw [pieces, size, cut]
  rcases storeBlock_cases (p := p) (wrap32 (start / BLOCK_SIZE)) (start % BLOCK_SIZE).toNat buf [] with
    ⟨ret, p1, stored, positive, here⟩ | ⟨ret, p1, stored, negative, stops⟩ | ⟨fault, stored, faults⟩
  · refine Or.inl ⟨p1, here, ?_⟩
    rw [if_neg (by simp [Oversize])]
    simp only [stored, Result.ok_bind, positive, if_false]
    rfl
  · refine Or.inr (Or.inl ⟨[], _, p, ret, p1, stops, ?_⟩)
    simp only [stored, Result.ok_bind, negative, if_true, stopped, List.length_nil, Nat.zero_ne_one, and_false, if_false]
    rfl
  · refine Or.inr (Or.inr ⟨[], _, p, fault, faults, ?_⟩)
    rw [stored, Result.error_bind]

theorem split_write_ends (positive : ¬ start < 0) (single : ¬ Single buf start) : WriteEnds p buf start := by
  unfold WriteEnds
  have large : BLOCK_SIZE < (start % BLOCK_SIZE).toNat + buf.length := Nat.lt_of_not_le single
  have cut : cutOff buf start = decide (sizeT (MAX_FILE_SIZE - start) < buf.length) := by
    simp [cutOff, single]
  have size : (if decide (sizeT (MAX_FILE_SIZE - start) < buf.length) = true
      then sizeT (MAX_FILE_SIZE - start) else buf.length) = writeSize buf start := by
    rw [writeSize, cut]
  have pieces : writePieces buf start = _ := if_neg single
  simp only [InodePtr.testfs_write_data, positive, if_false, large, if_true, size]
  rw [pieces, cut, List.cons_append]
  set block_ix := (start % BLOCK_SIZE).toNat
  set tempSize := writeSize buf start - (BLOCK_SIZE - block_ix)
  set whole := (tempSize - 1) / BLOCK_SIZE
  generalize hmiddle : wholePieces (start / BLOCK_SIZE) whole 0 (buf.drop (BLOCK_SIZE - block_ix)) = middle
  generalize hlast : ((buf.drop (BLOCK_SIZE - block_ix)).drop (whole * BLOCK_SIZE)).take (tempSize - whole * BLOCK_SIZE) = data
  have count : middle.length = whole := by
    rw [← hmiddle]
    exact wholePieces_length
  generalize hpieces : middle ++ [⟨wrap32 (start / BLOCK_SIZE + (whole + 1 : Nat)), 0, data⟩] = rest
  have length (first : Piece) : (first :: rest).length = whole + 2 := by
    rw [← hpieces, List.length_cons, List.length_append, count]
    rfl
  have oversize (first : Piece) : Oversize (first :: rest) ↔ 2 ^ 31 ≤ whole * BLOCK_SIZE := by
    rw [Oversize, length, Nat.add_sub_cancel]
  rcases storeBlock_cases (p := p) (wrap32 (start / BLOCK_SIZE)) block_ix (buf.take (BLOCK_SIZE - block_ix)) rest with
    ⟨ret1, p1, stored1, positive1, stores1⟩ | ⟨ret, p1, stored, negative, stops⟩ | ⟨fault, stored, faults⟩
  · rw [stored1, Result.ok_bind]
    simp only [positive1, if_false]
    rcases @writeWhole_cases p1 (buf.drop (BLOCK_SIZE - block_ix)) (start / BLOCK_SIZE) whole 0 with
      ⟨p2, run2, stores2⟩ | ⟨done, piece, p2, ret, p3, run2, stops⟩ | ⟨done, piece, p2, fault, run2, faults⟩
    · have before := stores1.append stores2
      rw [hmiddle] at before
      rw [run2, Result.ok_bind]
      simp only [lt_irrefl, if_false]
      rcases storeBlock_cases (p := p2) (wrap32 (start / BLOCK_SIZE + (whole + 1 : Nat))) 0 data [] with
        ⟨ret3, p3, stored3, positive3, stores3⟩ | ⟨ret3, p3, stored3, negative3, stops⟩ | ⟨fault, stored3, faults⟩
      · refine Or.inl ⟨p3, hpieces ▸ before.append stores3, ?_⟩
        simp only [stored3, Result.ok_bind, positive3, and_false, if_false, oversize]
        split_ifs <;> rfl
      · have behind := before.stops_behind stops
        rw [List.append_assoc, hpieces] at behind
        refine Or.inr (Or.inl ⟨_, _, p2, ret3, p3, behind, ?_⟩)
        simp only [stored3, Result.ok_bind, negative3, and_true, stopped, length, List.length_append,
          List.length_singleton, count, List.length_nil]
        by_cases none : whole = 0
        · have fits : ¬ 2 ^ 31 ≤ whole * BLOCK_SIZE := by simp [none]
          have both : whole + 2 = 2 ∧ 1 + whole + 0 = 1 := by omega
          rw [if_neg (not_not.mpr none), if_neg fits, if_pos both, cut]
          rfl
        · have other : ¬ (whole + 2 = 2 ∧ 1 + whole + 0 = 1) := by omega
          rw [if_pos none, if_neg other]
          rfl
      · have behind := before.faults_behind faults
        rw [List.append_assoc, hpieces] at behind
        refine Or.inr (Or.inr ⟨_, _, p2, fault, behind, ?_⟩)
        rw [stored3, Result.error_bind]
    · have some : ¬ whole + 2 = 2 := by
        obtain ⟨tail, split⟩ := stops.split
        have lengths := congrArg List.length split
        rw [wholePieces_length] at lengths
        simp only [List.length_append, List.length_cons] at lengths
        omega
      have behind := (stores1.stops_behind stops).append [⟨wrap32 (start / BLOCK_SIZE + (whole + 1 : Nat)), 0, data⟩]
      rw [hmiddle, List.append_assoc, hpieces] at behind
      refine Or.inr (Or.inl ⟨_, _, p2, ret, p3, behind, ?_⟩)
      simp only [run2, Result.ok_bind, stops.negative, if_true, stopped, length, some, false_and, if_false]
      rfl
    · have behind := (stores1.faults_behind faults).append [⟨wrap32 (start / BLOCK_SIZE + (whole + 1 : Nat)), 0, data⟩]
      rw [hmiddle, List.append_assoc, hpieces] at behind
      exact Or.inr (Or.inr ⟨_, _, p2, fault, behind, by rw [run2, Result.error_bind]⟩)
  · refine Or.inr (Or.inl ⟨[], _, p, ret, p1, stops, ?_⟩)
    rw [stored, Result.ok_bind]
    simp only [negative, if_true, stopped, List.length_nil, Nat.zero_ne_one, and_false, if_false]
    rfl
  · refine Or.inr (Or.inr ⟨[], _, p, fault, faults, ?_⟩)
    rw [stored, Result.error_bind]

theorem write_data_cases (low : 0 ≤ start) : WriteEnds p buf start := by
  have positive : ¬ start < 0 := Int.not_lt.mpr low
  by_cases single : Single buf start
  · exact single_write_ends positive single
  · exact split_write_ends positive single

theorem write_data_steps (run : p.testfs_write_data buf start = .ok (ret, p')) :
    0 ≤ start ∧
    ((∃ p1, Stores p (writePieces buf start) p1 ∧ ¬ Oversize (writePieces buf start) ∧
      (ret, p') = p1.writeOut start (writeSize buf start) (cutOff buf start)) ∨
    ∃ done piece p1 ret' p2, StopsAt p (writePieces buf start) done piece p1 ret' p2 ∧
      (ret, p') = stopped (writePieces buf start) done ret' p2 buf start) := by
  have low : 0 ≤ start := by
    by_contra negative
    rw [InodePtr.testfs_write_data, if_pos (by omega)] at run
    cases run
  refine ⟨low, ?_⟩
  rcases @write_data_cases p buf start low with
    ⟨p1, stores, run'⟩ | ⟨done, piece, p1, ret', p2, stops, run'⟩ | ⟨done, piece, p1, fault, faults, run'⟩
  · rw [run'] at run
    split_ifs at run with oversize
    exact Or.inl ⟨p1, stores, oversize, (Except.ok.inj run).symm⟩
  · rw [run'] at run
    exact Or.inr ⟨done, piece, p1, ret', p2, stops, (Except.ok.inj run).symm⟩
  · rw [run'] at run
    cases run

end Decomposition

end OperatingSystem.Fs
