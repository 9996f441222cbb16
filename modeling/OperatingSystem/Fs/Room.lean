import OperatingSystem.Fs.Mapping
import OperatingSystem.Fs.Written

namespace OperatingSystem.Fs

open Bytes Ownership

namespace InodePtr

variable (p : InodePtr)

/-- How many blocks are missing on the ways to the logical blocks `ns`. -/
def needs (ns : List Nat) : Nat := ((ns.flatMap path).toFinset.filter fun k => p.pointer k = 0).card

end InodePtr

section Needs

variable {p p' : InodePtr} {ds : Nat → DInode} {n : Nat} {ns ms : List Nat}

theorem needs_nil : p.needs [] = 0 := rfl

theorem needs_mono (sub : ns ⊆ ms) : p.needs ns ≤ p.needs ms := by
  apply Finset.card_le_card
  intro k member
  simp only [Finset.mem_filter, List.mem_toFinset, List.mem_flatMap] at member ⊢
  obtain ⟨⟨n, inside, onPath⟩, empty⟩ := member
  exact ⟨⟨n, sub inside, onPath⟩, empty⟩

theorem needs_single : p.needs [n] = (p.missing n).length := by
  have nodup : (p.missing n).Nodup := (path_nodup n).filter _
  rw [← List.toFinset_card_of_nodup nodup, InodePtr.needs]
  congr 1
  ext k
  simp [InodePtr.missing]

theorem Mapped.needs (mapped : Mapped p p' ds n) : p.needs (n :: ns) = (p.missing n).length + p'.needs ns := by
  have empty (k : Place) : p'.pointer k = 0 ↔ p.pointer k = 0 ∧ k ∉ path n := by
    constructor
    · intro zero
      refine ⟨?_, fun onPath => mapped.present k onPath zero⟩
      by_contra taken
      rw [mapped.extending.keeps k taken] at zero
      exact taken zero
    · rintro ⟨zero, other⟩
      by_contra taken
      rcases mapped.only k taken with before | onPath
      · exact before zero
      · exact other onPath
  rw [← needs_single, InodePtr.needs, InodePtr.needs, InodePtr.needs, ← Finset.card_union_of_disjoint]
  · congr 1
    ext k
    simp only [List.flatMap_cons, List.flatMap_nil, List.append_nil, Finset.mem_filter, Finset.mem_union,
      List.mem_toFinset, List.mem_append, empty]
    tauto
  · rw [Finset.disjoint_left]
    intro k here there
    simp only [List.flatMap_cons, List.flatMap_nil, List.append_nil, Finset.mem_filter, List.mem_toFinset,
      empty] at here there
    exact there.2.2 here.1

end Needs

section Storing

variable {p p1 p2 : InodePtr} {ds : Nat → DInode} (holds : Holds p ds) {pieces done : List Piece} {piece : Piece}
  {ret : Int} {fault : Fault}
include holds

theorem storeBlock_total {n : Int} {ix : Nat} {data : List UInt8} (low : 0 ≤ n) (inside : p.Inside n) :
    ∃ ret p', p.storeBlock n ix data = .ok (ret, p') := by
  obtain ⟨ret, p', block, run⟩ := testfs_allocate_block_total holds low inside.1 inside.2
  rw [InodePtr.storeBlock, run, Result.ok_bind]
  simp only
  by_cases negative : ret < 0
  · rw [if_pos negative]
    exact ⟨_, _, rfl⟩
  · rw [if_neg negative, write_block_eq (by omega)]
    exact ⟨_, _, rfl⟩

theorem storeBlock_stores {n : Int} {ix : Nat} {data : List UInt8} (low : 0 ≤ n) (inside : p.Inside n)
    (room : (p.missing n.toNat).length ≤ p.sb.free) :
    ∃ ret p', p.storeBlock n ix data = .ok (ret, p') ∧ 0 < ret ∧ Stored p p' ds n.toNat ix data := by
  obtain ⟨ret, p', run⟩ := @storeBlock_total p ds holds n ix data low inside
  rcases storeBlock_spec holds run with ⟨-, ⟨beyond, -, -⟩ | ⟨-, -, few, -⟩⟩ | ⟨-, positive, stored⟩
  · exact absurd inside.1 (not_lt.mpr beyond)
  · omega
  · exact ⟨ret, p', run, positive, stored⟩

omit holds in
theorem storeBlock_outside {n : Int} {ix : Nat} {data : List UInt8} (fault : Fault)
    (look : p.testfs_read_block n = .error fault) : p.storeBlock n ix data = .error fault := by
  rw [InodePtr.storeBlock, InodePtr.testfs_allocate_block, look, Result.error_bind, Result.error_bind]

theorem Stores.needs (stores : Stores p done p1) (ns : List Nat) :
    p.needs (numbers done ++ ns) + p1.sb.free = p.sb.free + p1.needs ns := by
  induction stores with
  | none p => exact Nat.add_comm _ _
  | @next p p1 p2 ret piece rest stored positive _ ih =>
      rcases storeBlock_spec holds stored with ⟨negative, -⟩ | ⟨-, -, first⟩
      · omega
      have mapped := first.toMapped
      have rest := ih mapped.holds
      have free := mapped.free
      rw [numbers, List.map_cons, List.cons_append, mapped.needs]
      unfold numbers at rest
      omega

theorem Stores.fits (stores : Stores p done p1) : p.needs (numbers done) ≤ p.sb.free := by
  have room := stores.needs holds []
  rw [List.append_nil, needs_nil] at room
  omega

theorem StopsAt.failed (stops : StopsAt p pieces done piece p1 ret p2) : Fails p1 p2 piece.log_block_nr ret := by
  rcases storeBlock_spec (stops.stores.spec holds).holds stops.fails with ⟨-, failed⟩ | ⟨-, positive, -⟩
  · exact failed
  · have := stops.negative
    omega

theorem StopsAt.short (stops : StopsAt p pieces done piece p1 ret p2) (small : piece.log_block_nr < MAX_FILE_BLOCKS) :
    p.sb.free < p.needs (numbers (done ++ [piece])) := by
  have room := stops.stores.needs holds [piece.log_block_nr.toNat]
  rcases stops.failed holds with ⟨beyond, -, -⟩ | ⟨-, -, few, -⟩
  · omega
  · rw [needs_single] at room
    rw [numbers, List.map_append]
    unfold numbers at room
    change p.sb.free < p.needs (List.map _ done ++ [piece.log_block_nr.toNat])
    omega

theorem StopsAt.lacks (stops : StopsAt p pieces done piece p1 ret p2) (small : piece.log_block_nr < MAX_FILE_BLOCKS) :
    p.sb.free < p.needs (numbers pieces) := by
  obtain ⟨rest, split⟩ := stops.split
  refine Nat.lt_of_lt_of_le (stops.short holds small) (needs_mono ?_)
  intro n member
  rw [split, numbers, List.map_append, List.map_cons]
  rw [numbers, List.map_append, List.map_cons, List.map_nil] at member
  simp only [List.mem_append, List.mem_cons, List.not_mem_nil, or_false] at member ⊢
  tauto

theorem Fails.unmapped {n : Int} (failed : Fails p p1 n ret) (small : n < MAX_FILE_BLOCKS) :
    p1.pointer (target n.toNat) = 0 := by
  rcases failed with ⟨beyond, -, -⟩ | ⟨-, -, few, -, -, outcome⟩
  · omega
  have unmapped : p.pointer (target n.toNat) = 0 := by
    by_contra taken
    rw [missing_eq_nil.mpr (path_present taken)] at few
    exact Nat.not_lt_zero _ few
  rcases outcome with ⟨-, stranded⟩ | ⟨-, unchanged⟩
  · obtain ⟨i, b, -, -, -, pointers⟩ := stranded.stale
    rw [pointers, attachAll_other, unmapped]
    intro member
    have data := target_not_table n.toNat
    rw [List.mem_singleton.mp member] at data
    cases data
  · rw [unchanged.pointer_eq holds, unmapped]

omit holds in
theorem Fails.size {n : Int} (failed : Fails p p1 n ret) : p1.dinode.i_size = p.dinode.i_size := by
  rcases failed with ⟨-, -, rfl⟩ | ⟨-, -, -, -, -, ⟨-, stranded⟩ | ⟨-, unchanged⟩⟩
  · rfl
  · exact stranded.same.size
  · exact unchanged.same.size

theorem FaultsAt.misled (faults : FaultsAt p pieces done piece p1 fault) (low : 0 ≤ piece.log_block_nr)
    (small : piece.log_block_nr < MAX_FILE_BLOCKS) : p1.Misled piece.log_block_nr ∧ fault = .outOfTable := by
  have holds1 := (faults.stores.spec holds).holds
  have misled : p1.Misled piece.log_block_nr := by
    by_contra fine
    obtain ⟨ret, p', run⟩ := storeBlock_total holds1 low ⟨small, fine⟩
    have := faults.faults
    rw [run] at this
    cases this
  have look := testfs_read_block_misled holds1.nonneg low misled
  have := faults.faults
  rw [storeBlock_outside _ look] at this
  exact ⟨misled, (Except.error.inj this).symm⟩

end Storing

theorem write_near_returns {p : InodePtr} {ds : Nat → DInode} (holds : Holds p ds) {buf : List UInt8} {start : Int}
    (low : 0 ≤ start) (some : 0 < buf.length) (near : start + buf.length ≤ (2058 * BLOCK_SIZE : Nat)) :
    ∃ ret p', p.testfs_write_data buf start = .ok (ret, p') := by
  have fits : start + buf.length ≤ MAX_FILE_SIZE := by
    simp only [BLOCK_SIZE, MAX_FILE_SIZE] at near ⊢
    omega
  rcases @write_data_cases p buf start low with
    ⟨p1, -, run⟩ | ⟨done, piece, p1, ret, p2, -, run⟩ | ⟨done, piece, p1, fault, faults, -⟩
  · have narrow : ¬ Oversize (writePieces buf start) := by
      rw [oversize_iff low some fits, blocksOf, List.length_range']
      simp only [BLOCK_SIZE] at near ⊢
      omega
    rw [if_neg narrow] at run
    exact ⟨_, _, run⟩
  · exact ⟨_, _, run⟩
  · obtain ⟨rest, split⟩ := faults.split
    obtain ⟨nonneg, small⟩ := writePieces_inside low some fits piece (by simp [split])
    have behind := (faults.misled holds nonneg small).1.1
    have number : piece.log_block_nr.toNat ∈ numbers (writePieces buf start) := List.mem_map_of_mem (by simp [split])
    rw [writePieces_blocks low some fits, blocksOf, List.mem_range'_1] at number
    simp only [BLOCK_SIZE] at number near
    omega

end OperatingSystem.Fs
