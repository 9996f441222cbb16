import OperatingSystem.Fs.Room
import OperatingSystem.Fs.Inodes

namespace OperatingSystem.Fs

open Bytes Ownership

/-- The step spares the bytes of the inode's own file that `own` selects, and the other inodes. -/
structure Spares (p p' : InodePtr) (own : Nat → Prop) : Prop where
  extending : Extends p p'
  accounts : Accounts p'.sb
  bytes : ∀ i, i < MAX_FILE_SIZE → own i → p'.byteAt i = p.byteAt i

namespace Spares

variable {p p1 p' : InodePtr} {ds : Nat → DInode} {own : Nat → Prop}

theorem trans (first : Spares p p1 own) (second : Spares p1 p' own) : Spares p p' own where
  extending := first.extending.trans second.extending
  accounts := second.accounts
  bytes i inside spared := (second.bytes i inside spared).trans (first.bytes i inside spared)

theorem stores {front back : List Piece} {pos : Nat} {buf : List UInt8} (holds : Holds p ds) (stored : Stores p front p')
    (tiles : Tiles (front ++ back) pos buf) : Spares p p' fun i => i < pos ∨ pos + buf.length ≤ i := by
  obtain ⟨size, short, tiles⟩ := tiles.front
  have all := stored.spec holds
  refine ⟨all.extending, all.holds.accounts, fun i inside outside => ?_⟩
  rw [stored.bytes holds tiles inside]
  rcases outside with before | after
  · exact splice_before before
  · apply splice_after
    rw [List.length_take]
    omega

theorem fails {n ret : Int} (holds : Holds p ds) (fails : Fails p p' n ret) : Spares p p' own := by
  rcases fails with ⟨-, -, rfl⟩ | ⟨-, -, -, -, -, ⟨-, stranded⟩ | ⟨-, unchanged⟩⟩
  · exact ⟨.refl p', holds.accounts, fun _ _ _ => rfl⟩
  · exact ⟨stranded.extends, stranded.took.accounts, fun i _ _ =>
      congrFun (content_stranded holds stranded (i / BLOCK_SIZE)) (i % BLOCK_SIZE)⟩
  · exact ⟨unchanged.extends holds, unchanged.borrowed.accounts, fun i _ _ =>
      congrFun (content_unchanged holds unchanged (i / BLOCK_SIZE)) (i % BLOCK_SIZE)⟩

theorem resize (accounts : Accounts p.sb) (sb : p'.sb = p.sb) (number : p'.inode.i_nr = p.inode.i_nr)
    (references : p'.inode.i_count = p.inode.i_count) (dinode : p'.dinode = { p.dinode with i_size := p'.dinode.i_size }) :
    Spares p p' own := by
  obtain ⟨extending, same⟩ := Extends.resize sb number references dinode
  exact ⟨extending, by rwa [sb], fun i _ _ => congrFun (byteAt_congr same sb) i⟩

theorem writeOut {start : Int} {size : Nat} {check : Bool} {ret : Int} (accounts : Accounts p.sb)
    (out : (ret, p') = p.writeOut start size check) : Spares p p' own := by
  obtain ⟨-, rfl⟩ := Prod.mk.inj out
  split_ifs <;> exact .resize accounts rfl rfl rfl rfl

end Spares

structure LeavesOthers (p p' : InodePtr) (ds : Nat → DInode) (start : Int) (size : Nat) : Prop where
  own : ∀ i : Nat, i < MAX_FILE_SIZE → (i < start ∨ start + size ≤ i) → p'.byteAt i = p.byteAt i
  pointers : ∀ nr : Fin NR_INODES, nr.val ≠ p.inode.i_nr → pointer p'.sb.dev (ds nr) = pointer p.sb.dev (ds nr)
  bytes : ∀ nr : Fin NR_INODES, nr.val ≠ p.inode.i_nr → ∀ i, byteAt p'.sb.dev (ds nr) i = byteAt p.sb.dev (ds nr) i
  inodes : ∀ nr, nr < NR_INODES → p'.sb.inode nr = p.sb.inode nr

section Frame

variable {p p' : InodePtr} {ds : Nat → DInode} (holds : Holds p ds)
include holds

theorem Extends.byteAt_other (step : Extends p p') {nr : Fin NR_INODES} (other : nr.val ≠ p.inode.i_nr) (i : Nat) :
    byteAt p'.sb.dev (ds nr) i = byteAt p.sb.dev (ds nr) i := by
  unfold byteAt content
  rw [step.pointer_other holds other]
  split_ifs with real
  · have foreign := holds.foreign other (ne_of_gt real)
    have low := (holds.range foreign.1).1
    rw [step.others _ (by omega)]
    refine Or.inr ⟨?_, fun k' same => foreign.2 k' ?_⟩
    · rw [Int.toNat_of_nonneg (by omega)]
      exact foreign.1
    · rw [same, Int.toNat_of_nonneg (by omega)]
  · rfl

theorem Extends.inode (step : Extends p p') (accounts : Accounts p'.sb) {nr : Nat} (inside : nr < NR_INODES) :
    p'.sb.inode nr = p.sb.inode nr := by
  have block : nr / INODES_PER_BLOCK < 128 := by
    simp only [NR_INODES, INODES_PER_BLOCK] at inside ⊢
    omega
  rw [SuperBlock.inode, SuperBlock.inode, accounts.layout.inode_blocks_at, holds.accounts.layout.inode_blocks_at,
    step.others _ (Nat.le_add_right 18 _) (Or.inl (by omega))]

theorem Spares.leavesOthers {start : Int} {size : Nat} (low : 0 ≤ start)
    (spares : Spares p p' fun i => i < start.toNat ∨ start.toNat + size ≤ i) : LeavesOthers p p' ds start size where
  own i inside outside := spares.bytes i inside (by omega)
  pointers _ other := spares.extending.pointer_other holds other
  bytes _ other := spares.extending.byteAt_other holds other
  inodes _ inside := spares.extending.inode holds spares.accounts inside

/-- However a write that stays inside the maximum file size ends, it touches nothing else. -/
theorem testfs_write_data_leaves_others {buf : List UInt8} {start ret : Int}
    (fits : start + buf.length ≤ MAX_FILE_SIZE) (run : p.testfs_write_data buf start = .ok (ret, p')) :
    LeavesOthers p p' ds start buf.length := by
  obtain ⟨low, ends⟩ := write_data_steps run
  have tiles := writePieces_tiles low fits
  apply Spares.leavesOthers holds low
  rcases ends with ⟨p1, stored, -, out⟩ | ⟨done, piece, p1, ret', p2, stops, ends⟩
  · rw [← List.append_nil (writePieces buf start)] at tiles
    have before := Spares.stores holds stored tiles
    exact before.trans (.writeOut before.accounts out)
  · obtain ⟨rest, split⟩ := stops.split
    rw [split] at tiles
    have before := Spares.stores holds stops.stores tiles
    have holds1 := (stops.stores.spec holds).holds
    have failed : Fails p1 p2 piece.log_block_nr ret' := by
      rcases storeBlock_spec holds1 stops.fails with ⟨-, failed⟩ | ⟨-, positive, -⟩
      · exact failed
      · have := stops.negative
        omega
    have between := before.trans (.fails holds1 failed)
    unfold stopped at ends
    split_ifs at ends with second
    · exact between.trans (.writeOut between.accounts ends)
    · rw [(Prod.mk.inj ends).2]
      exact between

end Frame

theorem Holds.focus {p q : InodePtr} {ds ds' : Nat → DInode} (holds : Holds p ds) (sb : q.sb = p.sb)
    (number : q.inode.i_nr < NR_INODES) (view : q.view ds' = p.view ds) : Holds q ds' where
  accounts := sb ▸ holds.accounts
  number := number
  owned := by
    rw [sb, view]
    exact holds.owned

/-- Inode 1 owns a block with bytes in it when the write to inode 2 goes over two block boundaries. -/
theorem testfs_write_data_leaves_others_second : ∃ q ds ret p', Holds q ds ∧ q.inode.i_nr = 2 ∧
    pointer q.sb.dev (ds 1) (.direct 0) ≠ 0 ∧ byteAt q.sb.dev (ds 1) 8191 = 7 ∧
      q.testfs_write_data (List.replicate 8200 1) 8190 = .ok (ret, p') ∧ LeavesOthers q p' ds 8190 8200 := by
  obtain ⟨_, p, -, -, stored⟩ := @storeBlock_stores (emptyFile 8) _ (emptyFile_holds (by decide)) 0 8191 [7] (le_refl 0)
    ⟨by decide, fun misled => absurd misled.1 (by decide)⟩ (by
      rw [emptyFile_free, emptyFile_missing]
      decide)
  have number : p.inode.i_nr = 1 := stored.extending.number
  let q : InodePtr := ⟨p.sb, { dinode := DInode.zero, dirty := false, i_nr := 2, i_count := 1 }⟩
  let ds := p.view fun _ => DInode.zero
  have first : ds 1 = p.dinode := by
    change Function.update _ p.inode.i_nr _ 1 = _
    rw [number, Function.update_self]
  have holds : Holds q ds := by
    have small : 2 < NR_INODES := by decide
    have second : ds 2 = DInode.zero := Function.update_of_ne (by rw [number]; decide) _ _
    refine stored.holds.focus rfl small ?_
    change Function.update ds 2 DInode.zero = ds
    rw [← second, Function.update_eq_self]
  have length : (List.replicate 8200 (1 : UInt8)).length = 8200 := List.length_replicate
  obtain ⟨ret, p', run⟩ := @write_near_returns q ds holds _ 8190 (by decide) (by rw [length]; decide) (by rw [length]; decide)
  have others := testfs_write_data_leaves_others holds (by rw [length]; decide) run
  rw [length] at others
  refine ⟨q, ds, ret, p', holds, rfl, ?_, ?_, run, others⟩
  · rw [first]
    exact stored.present (.direct 0) (by decide)
  · rw [first]
    exact (congrFun stored.content 8191).trans (@splice_inside _ 8191 0 [7] (by decide))

end OperatingSystem.Fs
