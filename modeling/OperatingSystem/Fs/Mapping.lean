import OperatingSystem.Fs.Fresh
import OperatingSystem.Fs.Lookup

namespace OperatingSystem.Fs

open Bytes Ownership

structure Untouched (p p' : InodePtr) : Prop where
  pointers : p'.pointer = p.pointer
  block_count : p'.dinode.block_count = p.dinode.block_count
  marked : ∀ b, p'.sb.Marked b ↔ p.sb.Marked b
  used_block_count : p'.sb.sb.used_block_count = p.sb.sb.used_block_count

/-- Block `n` is mapped to the data block `ret`, an old one or a free one that is marked now, and no other
logical block is mapped anew. -/
structure Maps (p p' : InodePtr) (n : Nat) (ret : Int) : Prop where
  mapped : ret = p'.pointer (target n)
  inside : 146 ≤ ret ∧ ret < 146 + 1048576
  marked : p'.sb.Marked ret
  old : p.pointer (target n) ≠ 0 → ret = p.pointer (target n)
  unused : p.pointer (target n) = 0 → ¬ p.sb.Marked ret
  others : ∀ m, m < MAX_FILE_BLOCKS → m ≠ n → p'.pointer (target m) = p.pointer (target m)
  counts : ∃ bs : List Int, bs.Nodup ∧ bs.length ≤ 3 ∧ (∀ b ∈ bs, ¬ p.sb.Marked b) ∧
    (∀ b, p'.sb.Marked b ↔ p.sb.Marked b ∨ b ∈ bs) ∧
    p'.dinode.block_count.toInt = p.dinode.block_count.toInt + bs.length

theorem Accounts.used_block_count_eq {s s' : SuperBlock} (acc : Accounts s) (acc' : Accounts s')
    (marked : ∀ b, s'.Marked b ↔ s.Marked b) : s'.sb.used_block_count = s.sb.used_block_count := by
  have isset : ∀ k, k < 1048576 → (s'.block_freemap.bitmap_isset k = true ↔ s.block_freemap.bitmap_isset k = true) := by
    intro k inside
    have same := marked (blockOf k)
    rw [SuperBlock.marked_iff acc.layout, SuperBlock.marked_iff acc'.layout] at same
    constructor
    · intro set
      obtain ⟨j, -, here, set⟩ := same.mp ⟨k, inside, rfl, set⟩
      rwa [blockOf_injective here]
    · intro set
      obtain ⟨j, -, here, set⟩ := same.mpr ⟨k, inside, rfl, set⟩
      rwa [blockOf_injective here]
  apply UInt32.toNat_inj.mp
  rw [acc.used_blocks, acc'.used_blocks, Bitmap.bitmap_nr_allocated, Bitmap.bitmap_nr_allocated,
    acc.layout.block_bits, acc'.layout.block_bits, Nat.count_eq_card_filter_range, Nat.count_eq_card_filter_range]
  rw [Finset.filter_congr fun k inside => isset k (Finset.mem_range.mp inside)]

section Outcomes

variable {p p' : InodePtr} {ds : Nat → DInode} (holds : Holds p ds) {n : Nat}
include holds

theorem Unchanged.untouched (unchanged : Unchanged p p') : Untouched p p' where
  pointers := unchanged.pointer_eq holds
  block_count := by rw [unchanged.dinode]
  marked b := by simp [unchanged.borrowed.marked]
  used_block_count := holds.accounts.used_block_count_eq unchanged.borrowed.accounts fun b => by
    simp [unchanged.borrowed.marked]

omit holds in
theorem Stranded.touched (stranded : Stranded p p') : ¬ Untouched p p' := by
  intro untouched
  obtain ⟨i, b, empty, -, real, pointers⟩ := stranded.stale
  have value : p'.pointer (.dindirectEntry i) = b := by
    rw [pointers]
    exact Function.update_self _ _ _
  rw [untouched.pointers, empty] at value
  omega

omit holds in
theorem InodePtr.Strands.fails (strands : p.Strands n) :
    p.pointer (target n) = 0 ∧ p.sb.free < (p.missing n).length := by
  obtain ⟨high, present, table, one⟩ := strands
  have direct : ¬ n < 10 := by omega
  have single : ¬ n - 10 < 2048 := by omega
  have leaf : p.pointer (.leaf (outer n) (inner n)) = 0 := by
    simp only [InodePtr.pointer, Fs.pointer] at table ⊢
    rw [table, child_zero]
  refine ⟨by rw [target, dif_neg direct, dif_neg single, leaf], ?_⟩
  simp [InodePtr.missing, path, direct, single, present, table, leaf, one]

theorem Grown.maps {new : List (Place × Int)} (grown : Grown p p' new) (small : n < MAX_FILE_BLOCKS)
    (empty : p.pointer (target n) = 0) (places : new.map Prod.fst = p.missing n)
    (real : 0 < p'.pointer (target n)) : Maps p p' n (p'.pointer (target n)) where
  mapped := rfl
  inside := (grown.preserves holds).range ((grown.preserves holds).marked (ne_of_gt real))
  marked := (grown.preserves holds).marked (ne_of_gt real)
  old taken := absurd empty taken
  unused _ := grown.extends.fresh _ (ne_of_gt real) empty
  others m hm differ := by
    rw [grown.pointers]
    apply attachAll_other
    rw [places]
    intro member
    exact differ (target_injective hm small (eq_target_of_mem_path (List.mem_of_mem_filter member) (target_not_table m)))
  counts := by
    refine ⟨new.map Prod.snd, grown.took.nodup, ?_, fun b member => (grown.took.unused b member).1,
      grown.took.marked, by rw [List.length_map]; exact grown.counted⟩
    rw [List.length_map, ← List.length_map (f := Prod.fst), places]
    refine (List.length_filter_le _ _).trans ?_
    unfold path
    split_ifs <;> simp

theorem Maps.refl (taken : p.pointer (target n) ≠ 0) : Maps p p n (p.pointer (target n)) where
  mapped := rfl
  inside := holds.range (holds.marked taken)
  marked := holds.marked taken
  old _ := rfl
  unused empty := absurd empty taken
  others _ _ _ := rfl
  counts := ⟨[], by simp⟩

end Outcomes

section Allocating

variable {p : InodePtr} {ds : Nat → DInode} (holds : Holds p ds) {n : Int} (low : 0 ≤ n) (small : n < MAX_FILE_BLOCKS)
include holds low small

omit low in
theorem testfs_allocate_block_answers {ret : Int} {p' : InodePtr} {block : Memory}
    (run : p.testfs_allocate_block n = .ok (ret, p', block)) (unmapped : p.pointer (target n.toNat) = 0) :
    Allocates p (p.missing n.toNat) (target n.toNat) (p.Strands n.toNat) ret p' ∧
      (0 ≤ ret ↔ (p.missing n.toNat).length ≤ p.sb.free) := by
  rcases testfs_allocate_block_spec holds run with
    ⟨beyond, -, -⟩ | ⟨-, -, taken, -⟩ | ⟨-, -, -, -, allocates⟩
  · omega
  · exact absurd unmapped taken
  · refine ⟨allocates, ?_⟩
    rcases allocates with ⟨new, places, grown, -, real⟩ | ⟨few, rfl, -, -⟩
    · have free := grown.took.free
      rw [List.length_map, ← List.length_map (f := Prod.fst), places] at free
      exact iff_of_true (le_of_lt real) (by omega)
    · exact iff_of_false (by decide) (by omega)

variable (fine : ¬ p.Misled n)
include fine

theorem testfs_allocate_block_total : ∃ ret p' block, p.testfs_allocate_block n = .ok (ret, p', block) := by
  have look := testfs_read_block_found holds.nonneg low small fine
  have below : ¬ (MAX_FILE_BLOCKS : Int) ≤ n := by omega
  rw [InodePtr.testfs_allocate_block, look, Result.ok_bind]
  simp only [below, if_false]
  by_cases taken : p.pointer (target n.toNat) ≠ 0
  · rw [if_pos taken]
    exact ⟨_, _, _, rfl⟩
  · obtain ⟨ret, p', run, -⟩ := allocateMissing_spec holds (n := n.toNat) (by omega) (not_not.mp taken)
    rw [if_neg taken, run]
    exact ⟨_, _, _, rfl⟩

theorem testfs_allocate_block_strands (strands : p.Strands n.toNat) :
    ∃ ret p' block, p.testfs_allocate_block n = .ok (ret, p', block) ∧ ret < 0 ∧ Stranded p p' := by
  obtain ⟨ret, p', block, run⟩ := testfs_allocate_block_total holds low small fine
  obtain ⟨unmapped, few⟩ := strands.fails
  obtain ⟨allocates, answer⟩ := testfs_allocate_block_answers holds small run unmapped
  have negative : ret < 0 := by omega
  refine ⟨ret, p', block, run, negative, ?_⟩
  rcases allocates with ⟨new, -, -, -, real⟩ | ⟨-, -, -, ⟨-, stranded⟩ | ⟨other, -⟩⟩
  · omega
  · exact stranded
  · exact absurd strands other

/-- Every failed allocation is undone, but for the one that strands an entry. -/
theorem testfs_allocate_block_undone_iff : ∃ ret p' block, p.testfs_allocate_block n = .ok (ret, p', block) ∧
    ((ret < 0 → Untouched p p') ↔ ¬ p.Strands n.toNat) := by
  by_cases strands : p.Strands n.toNat
  · obtain ⟨ret, p', block, run, negative, stranded⟩ := testfs_allocate_block_strands holds low small fine strands
    exact ⟨ret, p', block, run, iff_of_false (fun undone => stranded.touched (undone negative)) (not_not.mpr strands)⟩
  obtain ⟨ret, p', block, run⟩ := testfs_allocate_block_total holds low small fine
  refine ⟨ret, p', block, run, iff_of_true (fun negative => ?_) strands⟩
  rcases testfs_allocate_block_spec holds run with
    ⟨beyond, -, -⟩ | ⟨-, -, taken, rfl, -⟩ | ⟨-, -, -, -, ⟨new, -, -, -, real⟩ | ⟨-, -, -, ⟨left, -⟩ | ⟨-, unchanged⟩⟩⟩
  · omega
  · have positive := holds.positive taken
    omega
  · omega
  · exact absurd left strands
  · exact unchanged.untouched holds

/-- A successful allocation maps one block, and the state stays consistent. -/
theorem testfs_allocate_block_maps : ∃ ret p' block, p.testfs_allocate_block n = .ok (ret, p', block) ∧
    (0 ≤ ret → Maps p p' n.toNat ret ∧ Holds p' ds) := by
  obtain ⟨ret, p', block, run⟩ := testfs_allocate_block_total holds low small fine
  refine ⟨ret, p', block, run, fun success => ?_⟩
  rcases testfs_allocate_block_spec holds run with
    ⟨beyond, -, -⟩ | ⟨-, -, taken, rfl, rfl, -⟩ | ⟨-, -, empty, -, allocates⟩
  · omega
  · exact ⟨.refl holds taken, holds⟩
  · rcases allocates with ⟨new, places, grown, rfl, real⟩ | ⟨-, rfl, -, -⟩
    · exact ⟨grown.maps holds (by omega) empty places real, grown.preserves holds⟩
    · exact absurd success (by decide)

end Allocating

section Example

def doubleOnly (i_size : Int64) : InodePtr :=
  let p := (InodePtr.made (fun _ => zero) 2 i_size).taken 0
  p.setDInode { p.dinode with i_dindirect := 146 }

variable (i_size : Int64)

theorem doubleOnly_grown : Grown (InodePtr.made (fun _ => zero) 2 i_size) (doubleOnly i_size) [(.dindirect, 146)] := by
  have acc := made_accounts (fun _ => zero) 2 (by decide)
  have clear : Clear (SuperBlock.made (fun _ => zero) 2) 0 :=
    ⟨by decide, made_block_freemap (fun _ => zero) 2 0 (by decide)⟩
  have free := made_free (fun _ => zero) 2
  have took := (Took.refl acc).take clear (by rw [free]; decide)
  have image : makeImage (fun _ => zero) 2 146 = zero := makeImage_other _ _ (le_refl 146)
  have block : (doubleOnly i_size).sb.dev 146 = zero := (takeBlock_dev acc clear (by decide)).trans image
  have table (i : Nat) : child (doubleOnly i_size).sb.dev 146 i = 0 := by
    have number : (146 : Int).toNat = 146 := rfl
    rw [child, if_pos (by decide), number, block, entry_zero]
  refine ⟨⟨rfl, rfl, rfl, rfl⟩, took, rfl, funext fun k => ?_, by simp, ?_, rfl, fun b high _ => takeBlock_dev acc clear high⟩
  · cases k with
    | dindirectEntry i => exact table i
    | leaf i j =>
        have leaf : (doubleOnly i_size).pointer (.leaf i j) = child (doubleOnly i_size).sb.dev (child (doubleOnly i_size).sb.dev 146 i) j := rfl
        rw [leaf, table]
        rfl
    | _ => rfl
  · intro kb member
    exact made_pointer _ _ _ _

theorem doubleOnly_holds : Holds (doubleOnly i_size) fun _ => DInode.zero :=
  (doubleOnly_grown i_size).preserves (made_holds _ 2 (by decide) i_size)

theorem doubleOnly_pointer (k : Place) : (doubleOnly i_size).pointer k = if k = .dindirect then 146 else 0 := by
  rw [(doubleOnly_grown i_size).pointers]
  simp only [attachAll, List.foldl_cons, List.foldl_nil, Function.update_apply, made_pointer]

theorem doubleOnly_fine (n : Int) : ¬ (doubleOnly i_size).Misled n := by
  rintro ⟨-, absent, -⟩
  rw [doubleOnly_pointer, if_pos rfl] at absent
  cases absent

theorem doubleOnly_strands : (doubleOnly i_size).Strands 2058 := by
  have free := (doubleOnly_grown i_size).took.free
  have before : (InodePtr.made (fun _ => zero) 2 i_size).sb.free = 2 := made_free _ 2
  refine ⟨by decide, by rw [doubleOnly_pointer]; decide, by rw [doubleOnly_pointer, if_neg (by simp)], ?_⟩
  simp only [List.map_cons, List.map_nil, List.length_cons, List.length_nil] at free
  omega

/-- The entry of the new indirect block stays although the block is given back. -/
theorem testfs_allocate_block_undone_fails :
    Holds (doubleOnly 0) (fun _ => DInode.zero) ∧ ¬ (doubleOnly 0).Misled 2058 ∧
      ∃ ret p' block, (doubleOnly 0).testfs_allocate_block 2058 = .ok (ret, p', block) ∧ ret < 0 ∧ ¬ Untouched (doubleOnly 0) p' := by
  obtain ⟨ret, p', block, run, negative, stranded⟩ := testfs_allocate_block_strands (doubleOnly_holds 0) (n := 2058)
    (by decide) (by decide) (doubleOnly_fine 0 _) (doubleOnly_strands 0)
  exact ⟨doubleOnly_holds 0, doubleOnly_fine 0 _, ret, p', block, run, negative, stranded.touched⟩

def emptyFile (blocks : UInt64) : InodePtr := .made (fun _ => zero) blocks 0

theorem emptyFile_pointer (blocks : UInt64) (k : Place) : (emptyFile blocks).pointer k = 0 := made_pointer _ _ _ k

theorem emptyFile_free (blocks : UInt64) : (emptyFile blocks).sb.free = blocks.toNat := made_free _ _

theorem emptyFile_holds {blocks : UInt64} (bounded : blocks.toNat ≤ 1048576) : Holds (emptyFile blocks) fun _ => DInode.zero :=
  made_holds _ blocks bounded 0

theorem emptyFile_missing (blocks : UInt64) (n : Nat) : (emptyFile blocks).missing n = path n :=
  List.filter_eq_self.mpr fun k _ => decide_eq_true (emptyFile_pointer blocks k)

theorem emptyFile_fine (blocks : UInt64) : ¬ (emptyFile blocks).Misled 2058 :=
  fun misled => misled.2.2 (emptyFile_pointer _ _)

theorem emptyFile_answers {blocks : UInt64} (bounded : blocks.toNat ≤ 1048576) {ret : Int} {p' : InodePtr} {block : Memory}
    (run : (emptyFile blocks).testfs_allocate_block 2058 = .ok (ret, p', block)) : 0 ≤ ret ↔ 3 ≤ blocks.toNat := by
  have answer := (testfs_allocate_block_answers (emptyFile_holds bounded) (by decide) run (emptyFile_pointer _ _)).2
  rw [emptyFile_free, emptyFile_missing] at answer
  exact answer

/-- The third of the three blocks is not there, and the two others are given back. -/
theorem testfs_allocate_block_undone_iff_deep : ∃ ret p' block,
    (emptyFile 2).testfs_allocate_block 2058 = .ok (ret, p', block) ∧ ret < 0 ∧ ¬ (emptyFile 2).Strands 2058 ∧
      Untouched (emptyFile 2) p' := by
  obtain ⟨ret, p', block, run, undone⟩ := @testfs_allocate_block_undone_iff (emptyFile 2) _ (emptyFile_holds (by decide)) 2058
    (by decide) (by decide) (emptyFile_fine 2)
  have failed : ¬ 0 ≤ ret := fun success => absurd ((emptyFile_answers (by decide) run).mp success) (by decide)
  have negative : ret < 0 := by omega
  have spared : ¬ (emptyFile 2).Strands 2058 := fun strands => strands.2.1 (emptyFile_pointer _ _)
  exact ⟨ret, p', block, run, negative, spared, undone.mpr spared negative⟩

theorem testfs_allocate_block_maps_deep : ∃ ret p' block,
    (emptyFile 3).testfs_allocate_block 2058 = .ok (ret, p', block) ∧ 0 ≤ ret ∧
      Maps (emptyFile 3) p' 2058 ret ∧ Holds p' fun _ => DInode.zero := by
  obtain ⟨ret, p', block, run, maps⟩ := @testfs_allocate_block_maps (emptyFile 3) _ (emptyFile_holds (by decide)) 2058
    (by decide) (by decide) (emptyFile_fine 3)
  have success : 0 ≤ ret := (emptyFile_answers (by decide) run).mpr (by decide)
  exact ⟨ret, p', block, run, success, maps success⟩

end Example

end OperatingSystem.Fs
