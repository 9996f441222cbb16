import OperatingSystem.Fs.Owned

namespace OperatingSystem.Fs

open Bytes Ownership Place

section Attaching

variable {o w : Disk} {d : DInode} {b c q : Int}

theorem pointer_fields {d' : DInode} (direct : d'.i_block_nr = d.i_block_nr)
    (single : d'.i_indirect = d.i_indirect) (double : d'.i_dindirect = d.i_dindirect) :
    pointer o d' = pointer o d := by
  funext k
  cases k <;> simp only [pointer, direct, single, double]

theorem child_real {table : Int} (real : 0 < table) (i : Nat) :
    child o table i = entry (o table.toNat) i := if_pos real

theorem child_zero (i : Nat) : child o 0 i = 0 := rfl

theorem pointer_setDirect (n : Fin 10) (low : 0 ≤ q) (high : q < 2 ^ 31) :
    pointer o { d with i_block_nr := Function.update d.i_block_nr n (Int32.ofInt q) } =
      attachAll [(.direct n, q)] (pointer o d) := by
  funext k
  cases k with
  | direct i =>
      by_cases same : i = n
      · subst same
        simp [attachAll, pointer, toInt_ofInt low high]
      · simp [attachAll, pointer, same]
  | _ => simp [attachAll, pointer]

theorem pointer_setEntry (present : 0 < d.i_indirect.toInt) (n : Fin 2048) (low : 0 ≤ q) (high : q < 2 ^ 31)
    (table : w d.i_indirect.toInt.toNat = setEntry (o d.i_indirect.toInt.toNat) n q)
    (others : ∀ k, k.isTable = true → k ≠ .indirect → 0 < pointer o d k →
      w (pointer o d k).toNat = o (pointer o d k).toNat) :
    pointer w d = attachAll [(.indirectEntry n, q)] (pointer o d) := by
  have double : ∀ i, child w d.i_dindirect.toInt i = child o d.i_dindirect.toInt i :=
    child_congr fun real => others .dindirect rfl (by simp) real
  funext k
  cases k with
  | direct i => simp [attachAll, pointer]
  | indirect => simp [attachAll, pointer]
  | dindirect => simp [attachAll, pointer]
  | indirectEntry i =>
      by_cases same : i = n
      · subst same
        simp [attachAll, pointer, child_real present, -Int32.toNat_toInt, table, entry_setEntry low high]
      · have other : (i : Nat) ≠ n := fun h => same (Fin.ext h)
        simp [attachAll, pointer, child_real present, -Int32.toNat_toInt, table, entry_setEntry low high, same, other]
  | dindirectEntry i => simp [attachAll, pointer, double]
  | leaf i j =>
      simp only [attachAll, pointer, List.foldl_cons, List.foldl_nil]
      rw [Function.update_of_ne (by simp), double]
      exact child_congr (fun real => others (.dindirectEntry i) rfl (by simp) real) j

theorem pointer_setIndirect (absent : d.i_indirect = 0) (n : Fin 2048) (lowB : 0 < b) (highB : b < 2 ^ 31)
    (low : 0 ≤ q) (high : q < 2 ^ 31) (table : w b.toNat = setEntry zero n q)
    (others : ∀ k, k.isTable = true → 0 < pointer o d k →
      w (pointer o d k).toNat = o (pointer o d k).toNat) :
    pointer w { d with i_indirect := Int32.ofInt b } =
      attachAll [(.indirect, b), (.indirectEntry n, q)] (pointer o d) := by
  have double : ∀ i, child w d.i_dindirect.toInt i = child o d.i_dindirect.toInt i :=
    child_congr fun real => others .dindirect rfl real
  have number := toInt_ofInt (by omega) highB
  funext k
  cases k with
  | direct i => simp [attachAll, pointer]
  | indirect => simp [attachAll, pointer, number]
  | dindirect => simp [attachAll, pointer]
  | indirectEntry i =>
      by_cases same : i = n
      · subst same
        simp [attachAll, pointer, number, child_real lowB, table, entry_setEntry low high]
      · have other : (i : Nat) ≠ n := fun h => same (Fin.ext h)
        simp [attachAll, pointer, number, child_real lowB, table, entry_setEntry low high, same, other,
          entry_zero, absent, child_zero]
  | dindirectEntry i => simp [attachAll, pointer, double]
  | leaf i j =>
      simp only [attachAll, pointer, List.foldl_cons, List.foldl_nil]
      rw [Function.update_of_ne (by simp), Function.update_of_ne (by simp), double]
      exact child_congr (fun real => others (.dindirectEntry i) rfl real) j

theorem pointer_setLeaf {i : Fin 2048} (present : 0 < pointer o d (.dindirectEntry i)) (j : Fin 2048)
    (low : 0 ≤ q) (high : q < 2 ^ 31)
    (table : w (pointer o d (.dindirectEntry i)).toNat =
      setEntry (o (pointer o d (.dindirectEntry i)).toNat) j q)
    (others : ∀ k, k.isTable = true → k ≠ .dindirectEntry i → 0 < pointer o d k →
      w (pointer o d k).toNat = o (pointer o d k).toNat) :
    pointer w d = attachAll [(.leaf i j, q)] (pointer o d) := by
  have double : ∀ l, child w d.i_dindirect.toInt l = child o d.i_dindirect.toInt l :=
    child_congr fun real => others .dindirect rfl (by simp) real
  funext k
  cases k with
  | direct l => simp [attachAll, pointer]
  | indirect => simp [attachAll, pointer]
  | dindirect => simp [attachAll, pointer]
  | indirectEntry l =>
      simp only [attachAll, pointer, List.foldl_cons, List.foldl_nil]
      rw [Function.update_of_ne (by simp)]
      exact child_congr (fun real => others .indirect rfl (by simp) real) l
  | dindirectEntry l => simp [attachAll, pointer, double]
  | leaf l m =>
      simp only [attachAll, List.foldl_cons, List.foldl_nil]
      by_cases outer : l = i
      · subst outer
        simp only [pointer] at present table
        by_cases same : m = j
        · subst same
          simp [pointer, double, child_real present, table, entry_setEntry low high]
        · have other : (m : Nat) ≠ j := fun h => same (Fin.ext h)
          simp [pointer, double, child_real present, table, entry_setEntry low high, same, other]
      · rw [Function.update_of_ne (by simp [outer])]
        simp only [pointer, double]
        exact child_congr (fun real => others (.dindirectEntry l) rfl (by simp [outer]) real) m

theorem pointer_setTable (present : 0 < d.i_dindirect.toInt) {i : Fin 2048}
    (absent : pointer o d (.dindirectEntry i) = 0) (j : Fin 2048) (lowB : 0 < b) (highB : b < 2 ^ 31)
    (low : 0 ≤ q) (high : q < 2 ^ 31) (table : w b.toNat = setEntry zero j q)
    (tables : w d.i_dindirect.toInt.toNat = setEntry (o d.i_dindirect.toInt.toNat) i b)
    (others : ∀ k, k.isTable = true → k ≠ .dindirect → 0 < pointer o d k →
      w (pointer o d k).toNat = o (pointer o d k).toNat) :
    pointer w d = attachAll [(.dindirectEntry i, b), (.leaf i j, q)] (pointer o d) := by
  have double : ∀ l : Fin 2048, child w d.i_dindirect.toInt l =
      if l = i then b else child o d.i_dindirect.toInt l := by
    intro l
    simp [child_real present, -Int32.toNat_toInt, tables, entry_setEntry (by omega : 0 ≤ b) highB, Fin.ext_iff]
  funext k
  cases k with
  | direct l => simp [attachAll, pointer]
  | indirect => simp [attachAll, pointer]
  | dindirect => simp [attachAll, pointer]
  | indirectEntry l =>
      simp only [attachAll, pointer, List.foldl_cons, List.foldl_nil]
      rw [Function.update_of_ne (by simp), Function.update_of_ne (by simp)]
      exact child_congr (fun real => others .indirect rfl (by simp) real) l
  | dindirectEntry l =>
      by_cases outer : l = i
      · subst outer
        simp [attachAll, pointer, double]
      · simp [attachAll, pointer, double, outer]
  | leaf l m =>
      simp only [attachAll, List.foldl_cons, List.foldl_nil]
      by_cases outer : l = i
      · subst outer
        simp only [pointer] at absent
        by_cases same : m = j
        · subst same
          simp [pointer, double, child_real lowB, table, entry_setEntry low high]
        · have other : (m : Nat) ≠ j := fun h => same (Fin.ext h)
          simp [pointer, double, child_real lowB, table, entry_setEntry low high, same, other, entry_zero,
            absent, child_zero]
      · rw [Function.update_of_ne (by simp [outer]), Function.update_of_ne (by simp)]
        simp only [pointer, double, outer, if_false]
        exact child_congr (fun real => others (.dindirectEntry l) rfl (by simp) real) m

theorem setEntry_zero (i : Nat) : setEntry zero i 0 = zero := by
  have bytes : bytes32 (Int32.ofInt 0).toUInt32 = [0, 0, 0, 0] := by decide
  funext b
  simp only [setEntry, store32, splice, bytes, zero]
  split_ifs with reached
  · rcases b - 4 * i with _ | _ | _ | _ | k <;> rfl
  · rfl

theorem pointer_setStale (present : 0 < d.i_dindirect.toInt) {i : Fin 2048}
    (absent : pointer o d (.dindirectEntry i) = 0) (lowB : 0 < b) (highB : b < 2 ^ 31) (table : w b.toNat = zero)
    (tables : w d.i_dindirect.toInt.toNat = setEntry (o d.i_dindirect.toInt.toNat) i b)
    (others : ∀ k, k.isTable = true → k ≠ .dindirect → 0 < pointer o d k →
      w (pointer o d k).toNat = o (pointer o d k).toNat) :
    pointer w d = attachAll [(.dindirectEntry i, b)] (pointer o d) := by
  have leaf : pointer o d (.leaf i 0) = 0 := by
    simp only [pointer] at absent ⊢
    rw [absent, child_zero]
  have pointers := pointer_setTable present absent 0 lowB highB (le_refl 0) (by decide)
    (by rw [setEntry_zero, table]) tables others
  rw [pointers, attachAll, List.foldl_cons, List.foldl_cons, List.foldl_nil]
  exact Function.update_eq_self_iff.mpr (by rw [Function.update_of_ne (by simp), leaf])

theorem pointer_setDouble (absent : d.i_dindirect = 0) (i j : Fin 2048) (lowC : 0 < c) (highC : c < 2 ^ 31)
    (lowB : 0 < b) (highB : b < 2 ^ 31) (low : 0 ≤ q) (high : q < 2 ^ 31)
    (table : w b.toNat = setEntry zero j q) (tables : w c.toNat = setEntry zero i b)
    (others : ∀ k, k.isTable = true → 0 < pointer o d k →
      w (pointer o d k).toNat = o (pointer o d k).toNat) :
    pointer w { d with i_dindirect := Int32.ofInt c } =
      attachAll [(.dindirect, c), (.dindirectEntry i, b), (.leaf i j, q)] (pointer o d) := by
  have number := toInt_ofInt (by omega) highC
  have double : ∀ l : Fin 2048, child w c l = if l = i then b else 0 := by
    intro l
    simp [child_real lowC, tables, entry_setEntry (by omega : 0 ≤ b) highB, Fin.ext_iff, entry_zero]
  funext k
  cases k with
  | direct l => simp [attachAll, pointer]
  | indirect => simp [attachAll, pointer]
  | dindirect => simp [attachAll, pointer, number]
  | indirectEntry l =>
      simp only [attachAll, pointer, List.foldl_cons, List.foldl_nil]
      rw [Function.update_of_ne (by simp), Function.update_of_ne (by simp), Function.update_of_ne (by simp)]
      exact child_congr (fun real => others .indirect rfl real) l
  | dindirectEntry l =>
      by_cases outer : l = i
      · subst outer
        simp [attachAll, pointer, number, double]
      · simp [attachAll, pointer, number, double, outer, absent, child_zero]
  | leaf l m =>
      simp only [attachAll, List.foldl_cons, List.foldl_nil]
      by_cases outer : l = i
      · subst outer
        by_cases same : m = j
        · subst same
          simp [pointer, number, double, child_real lowB, table, entry_setEntry low high]
        · have other : (m : Nat) ≠ j := fun h => same (Fin.ext h)
          simp [pointer, number, double, child_real lowB, table, entry_setEntry low high, same, other,
            entry_zero, absent, child_zero]
      · simp [pointer, number, double, outer, absent, child_zero]

end Attaching

namespace InodePtr

/-- The inode after it was given the block of bit `k`, and after it gave it back. -/
def taken (p : InodePtr) (k : Nat) : InodePtr :=
  ({ p with sb := p.sb.takeBlock k }.setDInode
    { p.dinode with block_count := p.dinode.block_count + 1 }).setDirty

def dropped (p : InodePtr) (k : Nat) : InodePtr :=
  ({ p with sb := p.sb.dropBlock (146 + k) k }.setDInode
    { p.dinode with block_count := p.dinode.block_count - 1 }).setDirty

def failed (p : InodePtr) : InodePtr := { p with sb.allocFailed := true }

end InodePtr

def blockOf (k : Nat) : Int := (146 + k : Nat)

theorem blockOf_toNat (k : Nat) : (blockOf k).toNat = 146 + k := Int.toNat_natCast _

theorem blockOf_low (k : Nat) : 146 ≤ blockOf k := by
  unfold blockOf
  omega

theorem blockOf_high {k : Nat} (inside : k < 1048576) : blockOf k < 146 + 1048576 := by
  unfold blockOf
  omega

theorem blockOf_injective {j k : Nat} (same : blockOf j = blockOf k) : j = k := by
  unfold blockOf at same
  omega

def Clear (s : SuperBlock) (k : Nat) : Prop := k < 1048576 ∧ s.block_freemap.bitmap_isset k = false

section Primitives

variable {p : InodePtr} (acc : Accounts p.sb) {k : Nat}
include acc

theorem alloc_block_for_inode :
    (p.sb.free = 0 ∧ p.testfs_alloc_block_for_inode = .ok (-ENOSPC, p.failed)) ∨
    ∃ k, Clear p.sb k ∧ 0 < p.sb.free ∧ p.testfs_alloc_block_for_inode = .ok (blockOf k, p.taken k) := by
  rcases acc.alloc_block with ⟨full, run⟩ | ⟨k, inside, clear, room, run⟩
  · refine Or.inl ⟨full, ?_⟩
    simp [InodePtr.testfs_alloc_block_for_inode, run, ENOSPC, InodePtr.failed]
  · refine Or.inr ⟨k, ⟨inside, clear⟩, room, ?_⟩
    have positive : (0 : Int) ≤ (146 + k : Nat) := by omega
    simp only [blockOf, InodePtr.testfs_alloc_block_for_inode, run, Result.ok_bind, positive, if_true,
      Result.pure_eq_ok, InodePtr.taken]

theorem free_block_from_inode (inside : k < 1048576) (set : p.sb.block_freemap.bitmap_isset k = true) :
    p.testfs_free_block_from_inode (blockOf k) = .ok (p.dropped k) := by
  have nonzero : ((146 + k : Nat) : Int) ≠ 0 := by omega
  simp only [blockOf, InodePtr.testfs_free_block_from_inode, nonzero, if_false, acc.free_block inside set,
    Result.ok_bind, Result.pure_eq_ok, InodePtr.dropped]

end Primitives

section Dropping

variable {s : SuperBlock} (acc : Accounts s) {k : Nat} (inside : k < 1048576) (set : s.block_freemap.bitmap_isset k = true)
include acc inside set

theorem Accounts.marked_dropBlock (b : Int) : (s.dropBlock (146 + k) k).Marked b ↔ s.Marked b ∧ b ≠ blockOf k := by
  have after := (acc.dropBlock (b := 146 + k) inside set (by omega)).2
  rw [SuperBlock.marked_iff after.layout, SuperBlock.marked_iff acc.layout]
  simp only [SuperBlock.dropBlock, SuperBlock.withBlockFreemap, Bitmap.isset_andNotMask, Bool.and_eq_true,
    Bool.not_eq_true', decide_eq_false_iff_not]
  constructor
  · rintro ⟨j, below, rfl, taken, other⟩
    exact ⟨⟨j, below, rfl, taken⟩, fun same => other (blockOf_injective same)⟩
  · rintro ⟨⟨j, below, rfl, taken⟩, other⟩
    exact ⟨j, below, rfl, taken, fun same => other (congrArg blockOf same)⟩

theorem Accounts.free_dropBlock : (s.dropBlock (146 + k) k).free = s.free + 1 := by
  have positive := (acc.dropBlock (b := 146 + k) inside set (by omega)).1
  have before : (s.sb.used_block_count - 1).toNat = s.sb.used_block_count.toNat - 1 := by
    have := s.sb.used_block_count.toNat_lt
    rw [UInt32.toNat_sub, UInt32.toNat_one]
    omega
  have within := acc.within
  simp only [SuperBlock.free]
  change s.sb.max_fs_blocks.toNat - (s.sb.used_block_count - 1).toNat = _
  omega

end Dropping

/-- `s'` comes from `s` by allocating the blocks `bs`. -/
structure Took (s s' : SuperBlock) (bs : List Int) : Prop where
  accounts : Accounts s'
  marked : ∀ b, s'.Marked b ↔ s.Marked b ∨ b ∈ bs
  free : s'.free + bs.length = s.free
  nodup : bs.Nodup
  unused : ∀ b ∈ bs, ¬ s.Marked b ∧ 146 ≤ b ∧ b < 146 + 1048576
  inode_freemap : s'.inode_freemap = s.inode_freemap

namespace Took

variable {s s' : SuperBlock} {l : List Int} {k : Nat}

theorem refl (acc : Accounts s) : Took s s [] := ⟨acc, by simp, rfl, List.nodup_nil, by simp, rfl⟩

theorem not_marked (took : Took s s' l) (clear : Clear s' k) : ¬ s'.Marked (blockOf k) := by
  rw [SuperBlock.marked_iff took.accounts.layout]
  rintro ⟨j, -, same, set⟩
  obtain rfl := blockOf_injective same
  rw [clear.2] at set
  cases set

theorem take (took : Took s s' l) (clear : Clear s' k) (room : 0 < s'.free) :
    Took s (s'.takeBlock k) (l ++ [blockOf k]) := by
  have accounts := took.accounts.takeBlock clear.1 clear.2 room
  have fresh := took.not_marked clear
  rw [took.marked, not_or] at fresh
  refine ⟨accounts, fun b => ?_, ?_, ?_, ?_, took.inode_freemap⟩
  · have step : (s'.takeBlock k).Marked b ↔ s'.Marked b ∨ b = blockOf k := by
      rw [SuperBlock.marked_iff accounts.layout, SuperBlock.marked_iff took.accounts.layout]
      simp only [SuperBlock.takeBlock, SuperBlock.withBlockFreemap, Bitmap.isset_orMask, Bool.or_eq_true,
        decide_eq_true_eq]
      constructor
      · rintro ⟨j, inside, rfl, set | rfl⟩
        · exact Or.inl ⟨j, inside, rfl, set⟩
        · exact Or.inr rfl
      · rintro (⟨j, inside, rfl, set⟩ | rfl)
        · exact ⟨j, inside, rfl, Or.inl set⟩
        · exact ⟨k, clear.1, rfl, Or.inr rfl⟩
    rw [step, took.marked]
    simp [or_assoc]
  · have count : (s'.takeBlock k).free + 1 = s'.free := by
      have small := Bitmap.nr_allocated_lt (b := s'.block_freemap)
        (by rw [took.accounts.layout.block_bits]; exact clear.1) clear.2
      rw [← took.accounts.used_blocks, took.accounts.layout.block_bits] at small
      have next : (s'.sb.used_block_count + 1).toNat = s'.sb.used_block_count.toNat + 1 := by
        rw [UInt32.toNat_add, UInt32.toNat_one]
        omega
      simp only [SuperBlock.free] at room ⊢
      change s'.sb.max_fs_blocks.toNat - (s'.sb.used_block_count + 1).toNat + 1 = _
      omega
    have := took.free
    simp only [List.length_append, List.length_singleton]
    omega
  · exact took.nodup.append (List.nodup_singleton _) (by simpa using fresh.2)
  · intro b member
    rcases List.mem_append.mp member with old | new
    · exact took.unused b old
    · obtain rfl := List.mem_singleton.mp new
      exact ⟨fresh.1, blockOf_low k, blockOf_high clear.1⟩

theorem drop (took : Took s s' (l ++ [blockOf k])) :
    k < 1048576 ∧ s'.block_freemap.bitmap_isset k = true ∧ Took s (s'.dropBlock (146 + k) k) l := by
  have member : blockOf k ∈ l ++ [blockOf k] := by simp
  have inUse := (took.marked _).mpr (Or.inr member)
  obtain ⟨j, inside, same, set⟩ := (SuperBlock.marked_iff took.accounts.layout).mp inUse
  obtain rfl := blockOf_injective same
  have nodup := took.nodup
  rw [List.nodup_append] at nodup
  refine ⟨inside, set, (took.accounts.dropBlock inside set (by omega)).2, fun b => ?_, ?_, nodup.1,
    fun b old => took.unused b (List.mem_append_left _ old), took.inode_freemap⟩
  · rw [took.accounts.marked_dropBlock inside set, took.marked, List.mem_append, List.mem_singleton]
    constructor
    · rintro ⟨old | old | same, other⟩
      · exact Or.inl old
      · exact Or.inr old
      · exact absurd same other
    · rintro (old | old)
      · exact ⟨Or.inl old, fun same => (took.unused _ member).1 (same ▸ old)⟩
      · exact ⟨Or.inr (Or.inl old), fun same => nodup.2.2 b old _ (by simp) same⟩
  · have count := took.accounts.free_dropBlock inside set
    have := took.free
    simp only [List.length_append, List.length_singleton] at this
    omega

theorem write (took : Took s s' l) {b : Nat} (high : 18 ≤ b) (m : Memory) :
    Took s { s' with dev := Function.update s'.dev b m } l :=
  { took with
    accounts := took.accounts.congr s'.allocFailed fun c low => Function.update_of_ne (by omega) _ _ }

theorem fail (took : Took s s' l) : Took s { s' with allocFailed := true } l :=
  { took with accounts := took.accounts.congr true fun _ _ => rfl }

end Took

theorem takeBlock_dev {s : SuperBlock} {k b : Nat} (acc : Accounts s) (clear : Clear s k) (high : 18 ≤ b) :
    (s.takeBlock k).dev b = s.dev b :=
  SuperBlock.withBlockFreemap_dev acc.layout clear.1 high

theorem dropBlock_dev {s : SuperBlock} {k b : Nat} (acc : Accounts s) (inside : k < 1048576) (high : 18 ≤ b)
    (other : b ≠ 146 + k) : (s.dropBlock (146 + k) k).dev b = s.dev b := by
  rw [SuperBlock.dropBlock, SuperBlock.withBlockFreemap_dev acc.layout inside high,
    Function.update_of_ne other]

/-- As long as only the new blocks are written the others keep their content. -/
structure Borrowed (s s' : SuperBlock) (l : List Int) : Prop extends Took s s' l where
  kept : ∀ b : Nat, 18 ≤ b → b < 146 ∨ s.Marked b → s'.dev b = s.dev b

namespace Borrowed

variable {s s' : SuperBlock} {l : List Int} {k : Nat}

theorem refl (acc : Accounts s) : Borrowed s s [] := ⟨Took.refl acc, fun _ _ _ => rfl⟩

theorem take (borrowed : Borrowed s s' l) (clear : Clear s' k) (room : 0 < s'.free) :
    Borrowed s (s'.takeBlock k) (l ++ [blockOf k]) where
  toTook := borrowed.toTook.take clear room
  kept b high side := (takeBlock_dev borrowed.accounts clear high).trans (borrowed.kept b high side)

theorem mem_ne (borrowed : Borrowed s s' l) (member : blockOf k ∈ l) {b : Nat}
    (side : b < 146 ∨ s.Marked b) : b ≠ 146 + k := by
  rintro rfl
  rcases side with low | inUse
  · omega
  · exact (borrowed.unused _ member).1 inUse

theorem drop (borrowed : Borrowed s s' (l ++ [blockOf k])) :
    k < 1048576 ∧ s'.block_freemap.bitmap_isset k = true ∧ Borrowed s (s'.dropBlock (146 + k) k) l := by
  obtain ⟨inside, set, took⟩ := borrowed.toTook.drop
  refine ⟨inside, set, took, fun b high side => ?_⟩
  have other := borrowed.mem_ne (k := k) (by simp) side
  rw [dropBlock_dev borrowed.accounts inside high other, borrowed.kept b high side]

theorem write (borrowed : Borrowed s s' l) (member : blockOf k ∈ l) (m : Memory) :
    Borrowed s { s' with dev := Function.update s'.dev (146 + k) m } l where
  toTook := borrowed.toTook.write (by omega) m
  kept b high side := by
    simp only
    rw [Function.update_of_ne (borrowed.mem_ne member side), borrowed.kept b high side]

theorem fail (borrowed : Borrowed s s' l) : Borrowed s { s' with allocFailed := true } l where
  toTook := borrowed.toTook.fail
  kept := borrowed.kept

end Borrowed

structure SameInode (p p' : InodePtr) : Prop where
  number : p'.inode.i_nr = p.inode.i_nr
  references : p'.inode.i_count = p.inode.i_count
  type : p'.dinode.i_type = p.dinode.i_type
  size : p'.dinode.i_size = p.dinode.i_size

structure Grown (p p' : InodePtr) (new : List (Place × Int)) : Prop where
  same : SameInode p p'
  took : Took p.sb p'.sb (new.map Prod.snd)
  allocFailed : p'.sb.allocFailed = p.sb.allocFailed
  pointers : p'.pointer = attachAll new p.pointer
  places : (new.map Prod.fst).Nodup
  empty : ∀ kb ∈ new, p.pointer kb.1 = 0
  counted : p'.dinode.block_count.toInt = p.dinode.block_count.toInt + new.length
  kept : ∀ b : Nat, 18 ≤ b → b < 146 ∨ (p.sb.Marked b ∧ ∀ k, k.isTable = true → p.pointer k ≠ b) →
    p'.sb.dev b = p.sb.dev b

structure Unchanged (p p' : InodePtr) : Prop where
  same : SameInode p p'
  borrowed : Borrowed p.sb p'.sb []
  allocFailed : p'.sb.allocFailed = true
  dinode : p'.dinode = p.dinode
  dirty : p.sb.free = 0 → p'.inode.dirty = p.inode.dirty

section Consequences

variable {p p' : InodePtr} {ds : Nat → DInode} (holds : Holds p ds) {new : List (Place × Int)}
include holds

omit holds in
theorem Grown.fresh (grown : Grown p p' new) : Fresh new p.pointer p.sb.Marked where
  places := grown.places
  blocks := grown.took.nodup
  empty := grown.empty
  real kb member := by
    have := (grown.took.unused kb.2 (List.mem_map_of_mem member)).2.1
    omega
  unused kb member := (grown.took.unused kb.2 (List.mem_map_of_mem member)).1

omit holds in
theorem Grown.extends (grown : Grown p p' new) : Extends p p' where
  number := grown.same.number
  references := grown.same.references
  type := grown.same.type
  inode_freemap := grown.took.inode_freemap
  keeps k taken := by
    rw [grown.pointers]
    apply attachAll_other
    rintro member
    obtain ⟨kb, inside, rfl⟩ := List.mem_map.mp member
    exact taken (grown.empty kb inside)
  marked b inUse := (grown.took.marked b).mpr (Or.inl inUse)
  fresh k taken empty := by
    rw [grown.pointers] at taken ⊢
    rcases attachAll_cases new p.pointer k with old | ⟨kb, member, -, value⟩
    · exact absurd (old.trans empty) taken
    · rw [value]
      exact (grown.took.unused kb.2 (List.mem_map_of_mem member)).1
  others b high side := by
    apply grown.kept b high
    rcases side with low | ⟨inUse, other⟩
    · exact Or.inl low
    · exact Or.inr ⟨inUse, fun k _ => other k⟩

theorem Grown.preserves (grown : Grown p p' new) : Holds p' ds := by
  apply grown.extends.holds holds grown.took.accounts
  · have exact := holds.owned.exact.attachAll (i := ⟨p.inode.i_nr, holds.number⟩) (l := new) (by
      rw [holds.pointers_self]
      exact grown.fresh)
    rw [holds.pointers_self, ← grown.pointers] at exact
    exact exact.congr grown.took.marked
  · rw [grown.counted, grown.pointers, count_attachAll grown.fresh, holds.block_count]
    push_cast
    rfl

theorem Unchanged.pointer_eq (unchanged : Unchanged p p') : p'.pointer = p.pointer := by
  rw [InodePtr.pointer, unchanged.dinode]
  apply pointer_congr
  intro k _ real
  have inUse : p.sb.Marked (pointer p.sb.dev p.dinode k) := holds.marked (ne_of_gt real)
  have high := (holds.range inUse).1
  apply unchanged.borrowed.kept
  · omega
  · exact Or.inr (by rwa [Int.toNat_of_nonneg (by omega)])

theorem Unchanged.extends (unchanged : Unchanged p p') : Extends p p' where
  number := unchanged.same.number
  references := unchanged.same.references
  type := unchanged.same.type
  inode_freemap := unchanged.borrowed.inode_freemap
  keeps k _ := by rw [unchanged.pointer_eq holds]
  marked b inUse := (unchanged.borrowed.marked b).mpr (Or.inl inUse)
  fresh k taken empty := by
    rw [unchanged.pointer_eq holds] at taken
    exact absurd empty taken
  others b high side := unchanged.borrowed.kept b high (side.imp_right And.left)

end Consequences

/-- The entry a failing allocation left behind: it names a block that was given back. -/
structure Stranded (p p' : InodePtr) : Prop where
  same : SameInode p p'
  took : Took p.sb p'.sb []
  dinode : p'.dinode = p.dinode
  stale : ∃ i b, p.pointer (.dindirectEntry i) = 0 ∧ ¬ p.sb.Marked b ∧ 146 ≤ b ∧
    p'.pointer = attachAll [(.dindirectEntry i, b)] p.pointer
  kept : ∀ b : Nat, 18 ≤ b → b < 146 ∨ (p.sb.Marked b ∧ ∀ k, k.isTable = true → p.pointer k ≠ b) →
    p'.sb.dev b = p.sb.dev b

theorem Stranded.extends {p p' : InodePtr} (stranded : Stranded p p') : Extends p p' where
  number := stranded.same.number
  references := stranded.same.references
  type := stranded.same.type
  inode_freemap := stranded.took.inode_freemap
  keeps k taken := by
    obtain ⟨i, b, empty, -, -, pointers⟩ := stranded.stale
    rw [pointers]
    apply attachAll_other
    intro member
    exact taken (List.mem_singleton.mp member ▸ empty)
  marked b inUse := (stranded.took.marked b).mpr (Or.inl inUse)
  fresh k taken empty := by
    obtain ⟨i, b, -, unused, -, pointers⟩ := stranded.stale
    rw [pointers] at taken ⊢
    rcases attachAll_cases [(.dindirectEntry i, b)] p.pointer k with old | ⟨kb, member, -, value⟩
    · exact absurd (old.trans empty) taken
    · rw [value, List.mem_singleton.mp member]
      exact unused
  others b high side := stranded.kept b high (side.imp_right fun both => ⟨both.1, fun k _ => both.2 k⟩)

/-- How an allocation that misses the places `places` can end. -/
def Allocates (p : InodePtr) (places : List Place) (last : Place) (stranded : Prop) (ret : Int)
    (p' : InodePtr) : Prop :=
  (∃ new, new.map Prod.fst = places ∧ Grown p p' new ∧ ret = p'.pointer last ∧ 0 < ret) ∨
  (p.sb.free < places.length ∧ ret = -ENOSPC ∧ p'.sb.allocFailed = true ∧
    ((stranded ∧ Stranded p p') ∨ (¬ stranded ∧ Unchanged p p')))

theorem toInt_add_one {x : Int32} (low : 0 ≤ x.toInt) (high : x.toInt < 2 ^ 31 - 1) :
    (x + 1).toInt = x.toInt + 1 := by
  rw [Int32.toInt_add, show (1 : Int32).toInt = 1 from rfl, Int.bmod_def]
  omega

theorem failed_unchanged {p : InodePtr} (acc : Accounts p.sb) : Unchanged p p.failed where
  same := ⟨rfl, rfl, rfl, rfl⟩
  borrowed := (Borrowed.refl acc).fail
  allocFailed := rfl
  dinode := rfl
  dirty _ := rfl

def InodePtr.tabled (p : InodePtr) (i k : Nat) : InodePtr :=
  { p.taken k with
    sb.dev := Function.update (Function.update (p.taken k).sb.dev (146 + k) zero) p.dinode.i_dindirect.toInt.toNat
      (setEntry (p.sb.dev p.dinode.i_dindirect.toInt.toNat) i (blockOf k)) }

def InodePtr.KeepsBut (p : InodePtr) (t : Place) (dev : Disk) : Prop :=
  ∀ b : Nat, 18 ≤ b → b < 146 ∨ p.sb.Marked b → b ≠ (p.pointer t).toNat → dev b = p.sb.dev b

theorem Allocates.failed {p : InodePtr} (acc : Accounts p.sb) (full : p.sb.free = 0) {places : List Place} (some : places ≠ [])
    {last : Place} {stranded : Prop} (whole : ¬ stranded) : Allocates p places last stranded (-ENOSPC) p.failed :=
  Or.inr ⟨by rw [full]; exact List.length_pos_of_ne_nil some, rfl, rfl, Or.inr ⟨whole, failed_unchanged acc⟩⟩

section Cases

variable {p p' : InodePtr} {ds : Nat → DInode} (holds : Holds p ds) {ret : Int}
include holds

theorem count_more : (p.dinode.block_count + 1).toInt = p.dinode.block_count.toInt + 1 ∧
    (p.dinode.block_count + 1 + 1).toInt = p.dinode.block_count.toInt + 2 ∧
    (p.dinode.block_count + 1 + 1 + 1).toInt = p.dinode.block_count.toInt + 3 := by
  have range := count_lt p.pointer
  have count := holds.block_count
  have once := toInt_add_one (x := p.dinode.block_count) (by omega) (by omega)
  have twice := toInt_add_one (x := p.dinode.block_count + 1) (by omega) (by omega)
  have thrice := toInt_add_one (x := p.dinode.block_count + 1 + 1) (by omega) (by omega)
  omega

theorem allocateDirect_spec {n : Fin 10} (empty : p.pointer (.direct n) = 0) :
    ∃ ret p', p.allocateDirect n = .ok (ret, p') ∧ Allocates p [.direct n] (.direct n) False ret p' := by
  have acc := holds.accounts
  have unmapped : p.dinode.i_block_nr n = 0 := toInt_eq_zero.mp empty
  generalize run : p.allocateDirect n = r
  simp only [InodePtr.allocateDirect, assert, unmapped, if_true, Result.ok_bind] at run
  rcases alloc_block_for_inode acc with ⟨full, step⟩ | ⟨k, clear, room, step⟩
  · rw [step] at run
    obtain ⟨_, _, rfl, rfl, rfl⟩ := Result.pair_eq run
    exact ⟨_, _, rfl, .failed acc full (List.cons_ne_nil _ _) id⟩
  · have low := blockOf_low k
    have high := blockOf_high clear.1
    have positive : 0 ≤ blockOf k := by omega
    simp only [step, Result.ok_bind, positive, if_true] at run
    obtain ⟨_, p', rfl, rfl, shape⟩ := Result.pair_eq run
    have sameTables : pointer (p.sb.takeBlock k).dev p.dinode = p.pointer := by
      apply pointer_congr
      intro t _ real
      have : 146 ≤ pointer p.sb.dev p.dinode t := holds.positive (ne_of_gt real)
      exact takeBlock_dev acc clear (by omega)
    have pointers := pointer_setDirect (o := (p.sb.takeBlock k).dev) (d := p.dinode) n positive (by omega)
    rw [sameTables] at pointers
    have grown : Grown p p' [(.direct n, blockOf k)] := by
      subst shape
      exact {
        same := ⟨rfl, rfl, rfl, rfl⟩
        took := (Took.refl acc).take clear room
        allocFailed := rfl
        pointers := (pointer_fields rfl rfl rfl).trans pointers
        places := List.nodup_singleton _
        empty := by simpa using empty
        counted := (count_more holds).1
        kept := fun b high _ => takeBlock_dev acc clear high }
    exact ⟨_, _, rfl, Or.inl ⟨_, rfl, grown, by rw [grown.pointers]; simp [attachAll], by omega⟩⟩

omit holds in
theorem write_block_eq {dev : Disk} {m : Memory} {b : Int} (low : 0 ≤ b) :
    write_block dev m b = .ok (Function.update dev b.toNat m) := by
  rw [write_block, if_neg (by omega)]

theorem tables_kept {s : SuperBlock} {bs : List Int} (borrowed : Borrowed p.sb s bs) (k : Place)
    (real : 0 < p.pointer k) : s.dev (p.pointer k).toNat = p.sb.dev (p.pointer k).toNat := by
  have low := holds.positive (ne_of_gt real)
  apply borrowed.kept _ (by omega)
  rw [Int.toNat_of_nonneg (by omega)]
  exact Or.inr (holds.marked (ne_of_gt real))

theorem allocateIndirect_absent {n : Fin 2048} (absent : p.dinode.i_indirect = 0) :
    ∃ ret p', p.allocateIndirect n = .ok (ret, p') ∧
      Allocates p [.indirect, .indirectEntry n] (.indirectEntry n) False ret p' := by
  have acc := holds.accounts
  have refl := Borrowed.refl acc
  generalize run : p.allocateIndirect n = r
  rw [InodePtr.allocateIndirect, if_pos absent] at run
  rcases alloc_block_for_inode acc with ⟨full, step⟩ | ⟨k, clear, room, step⟩
  · rw [step] at run
    obtain ⟨_, _, rfl, rfl, rfl⟩ := Result.pair_eq run
    exact ⟨_, _, rfl, .failed acc full (List.cons_ne_nil _ _) id⟩
  have low := blockOf_low k
  have high := blockOf_high clear.1
  have notNegative : ¬ blockOf k < 0 := by omega
  have number : (Int32.ofInt (blockOf k)).toInt = blockOf k := toInt_ofInt (by omega) (by omega)
  simp only [step, Result.ok_bind, notNegative, if_false, InodePtr.allocateEntry, assert, entry_zero, if_true] at run
  generalize first : (p.taken k).setDInode { (p.taken k).dinode with i_indirect := Int32.ofInt (blockOf k) } = p1 at run
  have ind1 : p1.dinode.i_indirect.toInt = blockOf k := by
    subst first
    exact number
  have borrowed1 : Borrowed p.sb p1.sb [blockOf k] := by
    subst first
    exact refl.take clear room
  rcases alloc_block_for_inode borrowed1.accounts with ⟨full, step'⟩ | ⟨k', clear', room', step'⟩
  · have drop := borrowed1.fail.drop (l := []) (k := k)
    have free := free_block_from_inode (p := p1.failed) borrowed1.fail.accounts drop.1 drop.2.1
    have ind1' : p1.failed.dinode.i_indirect.toInt = blockOf k := ind1
    have negative : ¬ (0 : Int) ≤ -ENOSPC := by decide
    simp only [step', Result.ok_bind, negative, if_false, ind1', free] at run
    obtain ⟨_, p', rfl, rfl, shape⟩ := Result.pair_eq run
    have free1 := borrowed1.free
    simp only [List.length_singleton] at free1
    have unchanged : Unchanged p p' := by
      subst shape first
      exact {
        same := ⟨rfl, rfl, rfl, rfl⟩
        borrowed := drop.2.2
        allocFailed := rfl
        dinode := by
          ext <;> simp [InodePtr.setDInode, InodePtr.dropped, InodePtr.failed, InodePtr.taken,
            InodePtr.setDirty, absent]
        dirty := fun none => by omega }
    exact ⟨_, _, rfl, Or.inr ⟨by simp; omega, rfl, unchanged.allocFailed, Or.inr ⟨id, unchanged⟩⟩⟩
  · have low' := blockOf_low k'
    have high' := blockOf_high clear'.1
    have positive : 0 ≤ blockOf k' := by omega
    have ind2 : (p1.taken k').dinode.i_indirect.toInt = blockOf k := ind1
    have borrowed2 : Borrowed p.sb (p1.taken k').sb [blockOf k, blockOf k'] := borrowed1.take clear' room'
    simp only [step', Result.ok_bind, positive, if_true, ind2, write_block_eq (by omega : 0 ≤ blockOf k),
      blockOf_toNat] at run
    obtain ⟨_, p', rfl, rfl, shape⟩ := Result.pair_eq run
    have borrowed3 := borrowed2.write (k := k) (by simp) (setEntry zero n (blockOf k'))
    have pointers := pointer_setIndirect (o := p.sb.dev) absent n (by omega : 0 < blockOf k) (by omega)
      (by omega : 0 ≤ blockOf k') (by omega) (w := Function.update (p1.taken k').sb.dev (146 + k)
        (setEntry zero n (blockOf k'))) (by simp [blockOf_toNat])
      fun t _ real => tables_kept holds borrowed3 t real
    have grown : Grown p p' [(.indirect, blockOf k), (.indirectEntry n, blockOf k')] := by
      subst shape first
      exact {
        same := ⟨rfl, rfl, rfl, rfl⟩
        took := borrowed3.toTook
        allocFailed := rfl
        pointers := (pointer_fields rfl rfl rfl).trans pointers
        places := by simp
        empty := by
          simp [pointer, absent, child_zero]
        counted := (count_more holds).2.1
        kept := fun b high side => borrowed3.kept b high (side.imp_right And.left) }
    exact ⟨_, _, rfl, Or.inl ⟨_, rfl, grown, by rw [grown.pointers]; simp [attachAll], by omega⟩⟩

theorem table_ne {t : Place} (table : t.isTable = true) (taken : p.pointer t ≠ 0) {b : Nat}
    (side : b < 146 ∨ (p.sb.Marked b ∧ ∀ k, k.isTable = true → p.pointer k ≠ b)) :
    b ≠ (p.pointer t).toNat := by
  have low := holds.positive taken
  rintro rfl
  rcases side with below | ⟨-, other⟩
  · omega
  · exact other t table (by rw [Int.toNat_of_nonneg (by omega)])

theorem toNat_ne {k t : Place} (differ : k ≠ t) (real : 0 < p.pointer k) :
    (p.pointer k).toNat ≠ (p.pointer t).toNat := by
  intro same
  exact differ (holds.injective (ne_of_gt real) (by omega))

section Keeping

variable {t : Place} {dev : Disk} (keeps : p.KeepsBut t dev)
include keeps

theorem keeps_tables {k : Place} (differ : k ≠ t) (real : 0 < p.pointer k) :
    dev (p.pointer k).toNat = p.sb.dev (p.pointer k).toNat := by
  have low := holds.positive (ne_of_gt real)
  have inUse := holds.marked (ne_of_gt real)
  apply keeps _ (by omega) _ (toNat_ne holds differ real)
  rw [Int.toNat_of_nonneg (by omega)]
  exact Or.inr inUse

theorem keeps_contents (table : t.isTable = true) (taken : p.pointer t ≠ 0) (b : Nat) (high : 18 ≤ b)
    (side : b < 146 ∨ (p.sb.Marked b ∧ ∀ k, k.isTable = true → p.pointer k ≠ b)) : dev b = p.sb.dev b :=
  keeps b high (side.imp_right And.left) (table_ne holds table taken side)

end Keeping

theorem allocateIndirect_present {n : Fin 2048} (present : p.dinode.i_indirect ≠ 0)
    (empty : p.pointer (.indirectEntry n) = 0) :
    ∃ ret p', p.allocateIndirect n = .ok (ret, p') ∧
      Allocates p [.indirectEntry n] (.indirectEntry n) False ret p' := by
  have acc := holds.accounts
  generalize run : p.allocateIndirect n = r
  have taken : p.pointer .indirect ≠ 0 := fun zero => present (toInt_eq_zero.mp zero)
  have real : 146 ≤ p.dinode.i_indirect.toInt := holds.positive taken
  rw [InodePtr.allocateIndirect, if_neg present, read_block_eq (by omega), Result.ok_bind] at run
  have unmapped : entry (p.sb.dev p.dinode.i_indirect.toInt.toNat) n = 0 :=
    (child_real (by omega : 0 < p.dinode.i_indirect.toInt) n).symm.trans empty
  simp only [InodePtr.allocateEntry, assert, unmapped, if_true, Result.ok_bind] at run
  rcases alloc_block_for_inode acc with ⟨full, step⟩ | ⟨k, clear, room, step⟩
  · have negative : ¬ (0 : Int) ≤ -ENOSPC := by decide
    simp only [step, Result.ok_bind, negative, if_false] at run
    obtain ⟨_, _, rfl, rfl, rfl⟩ := Result.pair_eq run
    exact ⟨_, _, rfl, .failed acc full (List.cons_ne_nil _ _) id⟩
  · have low := blockOf_low k
    have high := blockOf_high clear.1
    have positive : 0 ≤ blockOf k := by omega
    have borrowed : Borrowed p.sb (p.taken k).sb [blockOf k] := (Borrowed.refl acc).take clear room
    have ind : (p.taken k).dinode.i_indirect.toInt = p.dinode.i_indirect.toInt := rfl
    simp only [step, Result.ok_bind, positive, if_true, ind,
      write_block_eq (by omega : 0 ≤ p.dinode.i_indirect.toInt)] at run
    obtain ⟨_, p', rfl, rfl, shape⟩ := Result.pair_eq run
    have dev : p'.sb.dev = Function.update (p.taken k).sb.dev p.dinode.i_indirect.toInt.toNat
        (setEntry (p.sb.dev p.dinode.i_indirect.toInt.toNat) n (blockOf k)) := by
      subst shape
      rfl
    have keeps : p.KeepsBut .indirect p'.sb.dev := by
      intro b high side other
      rw [dev]
      exact (Function.update_of_ne other _ _).trans (borrowed.kept b high side)
    have pointers := pointer_setEntry (o := p.sb.dev) (w := p'.sb.dev) (d := p.dinode) (by omega) n
      positive (by omega) (by rw [dev, Function.update_self]) fun t _ differ real => keeps_tables holds keeps differ real
    have grown : Grown p p' [(.indirectEntry n, blockOf k)] := by
      subst shape
      exact {
        same := ⟨rfl, rfl, rfl, rfl⟩
        took := borrowed.toTook.write (by omega) _
        allocFailed := rfl
        pointers := (pointer_fields rfl rfl rfl).trans pointers
        places := List.nodup_singleton _
        empty := by simpa using empty
        counted := (count_more holds).1
        kept := keeps_contents holds keeps rfl taken }
    exact ⟨_, _, rfl, Or.inl ⟨_, rfl, grown, by rw [grown.pointers]; simp [attachAll], by omega⟩⟩

section Tables

variable {i j : Fin 2048} {k k' : Nat} (taken : p.pointer .dindirect ≠ 0) (empty : p.pointer (.dindirectEntry i) = 0)
  (clear : Clear p.sb k) (room : 0 < p.sb.free)
include taken clear room

theorem tabled_took : Took p.sb (p.tabled i k).sb [blockOf k] := by
  have real : 146 ≤ p.dinode.i_dindirect.toInt := holds.positive taken
  exact (((Borrowed.refl holds.accounts).take clear room).toTook.write (by omega) _).write (by omega) _

omit taken in
theorem new_ne {b : Nat} (side : b < 146 ∨ p.sb.Marked b) : b ≠ 146 + k :=
  ((Borrowed.refl holds.accounts).take clear room).mem_ne (by simp) side

omit taken in
theorem tabled_keeps : p.KeepsBut .dindirect (p.tabled i k).sb.dev := by
  intro b high side other
  have fresh := new_ne holds clear room side
  have between : (p.tabled i k).sb.dev b = (p.taken k).sb.dev b :=
    (Function.update_of_ne other _ _).trans (Function.update_of_ne fresh _ _)
  exact between.trans (((Borrowed.refl holds.accounts).take clear room).kept b high side)

theorem double_ne : p.dinode.i_dindirect.toInt.toNat ≠ 146 + k := by
  have real : 146 ≤ p.dinode.i_dindirect.toInt := holds.positive taken
  apply new_ne holds clear room
  rw [Int.toNat_of_nonneg (by omega)]
  exact Or.inr (holds.marked taken)

include empty

/-- No block is free for the leaf: the index block is given back, and its entry stays behind. -/
theorem tabled_strands : (p.tabled i k).failed.testfs_free_block_from_inode (blockOf k) = .ok ((p.tabled i k).failed.dropped k) ∧
    Stranded p ((p.tabled i k).failed.dropped k) := by
  have took := (tabled_took holds taken clear room (i := i)).fail
  have drop := took.drop (l := []) (k := k)
  have real : 146 ≤ p.dinode.i_dindirect.toInt := holds.positive taken
  have high := blockOf_high clear.1
  have low := blockOf_low k
  generalize shape : (p.tabled i k).failed.dropped k = p'
  have dropped (b : Nat) (high : 18 ≤ b) (other : b ≠ 146 + k) : p'.sb.dev b = (p.tabled i k).sb.dev b := by
    subst shape
    exact dropBlock_dev took.accounts drop.1 high other
  have emptied : p'.sb.dev (146 + k) = zero := by
    subst shape
    exact (SuperBlock.withBlockFreemap_dev took.accounts.layout drop.1 (by omega)).trans (Function.update_self _ _ _)
  have keeps : p.KeepsBut .dindirect p'.sb.dev := fun b high side other =>
    (dropped b high (new_ne holds clear room side)).trans (tabled_keeps holds clear room b high side other)
  have double : p'.sb.dev p.dinode.i_dindirect.toInt.toNat = setEntry (p.sb.dev p.dinode.i_dindirect.toInt.toNat) i (blockOf k) :=
    (dropped _ (by omega) (double_ne holds taken clear room)).trans (Function.update_self _ _ _)
  have pointers := pointer_setStale (o := p.sb.dev) (w := p'.sb.dev) (d := p.dinode) (by omega) empty
    (by omega : 0 < blockOf k) (by omega) (by rw [blockOf_toNat, emptied]) double
    fun t _ differ real => keeps_tables holds keeps differ real
  have dinode : p'.dinode = p.dinode := by
    subst shape
    ext <;> simp [InodePtr.setDInode, InodePtr.dropped, InodePtr.failed, InodePtr.tabled, InodePtr.taken, InodePtr.setDirty]
  refine ⟨shape ▸ free_block_from_inode (p := (p.tabled i k).failed) took.accounts drop.1 drop.2.1, {
    same := by
      subst shape
      exact ⟨rfl, rfl, rfl, rfl⟩
    took := by
      subst shape
      exact drop.2.2
    dinode
    stale := ⟨i, blockOf k, empty, ?_, low, by rw [InodePtr.pointer, dinode]; exact pointers⟩
    kept := keeps_contents holds keeps rfl taken }⟩
  exact (took.unused _ (List.mem_singleton_self _)).1

theorem tabled_grows (clear' : Clear (p.tabled i k).sb k') (room' : 0 < (p.tabled i k).sb.free) {p' : InodePtr}
    (shape : p' = { (p.tabled i k).taken k' with
      sb.dev := Function.update (Function.update ((p.tabled i k).taken k').sb.dev (146 + k) (setEntry zero j (blockOf k')))
        p.dinode.i_dindirect.toInt.toNat (setEntry (p.sb.dev p.dinode.i_dindirect.toInt.toNat) i (blockOf k)) }) :
    Grown p p' [(.dindirectEntry i, blockOf k), (.leaf i j, blockOf k')] := by
  have took := tabled_took holds taken clear room (i := i)
  have real : 146 ≤ p.dinode.i_dindirect.toInt := holds.positive taken
  have low := blockOf_low k
  have high := blockOf_high clear.1
  have low' := blockOf_low k'
  have high' := blockOf_high clear'.1
  have dev : p'.sb.dev = Function.update (Function.update ((p.tabled i k).taken k').sb.dev (146 + k) (setEntry zero j (blockOf k')))
      p.dinode.i_dindirect.toInt.toNat (setEntry (p.sb.dev p.dinode.i_dindirect.toInt.toNat) i (blockOf k)) := by
    rw [shape]
  have keeps : p.KeepsBut .dindirect p'.sb.dev := by
    intro b high side other
    have before : ((p.tabled i k).taken k').sb.dev b = (p.tabled i k).sb.dev b := takeBlock_dev took.accounts clear' high
    have fresh := new_ne holds clear room side
    rw [dev]
    exact (Function.update_of_ne other _ _).trans ((Function.update_of_ne fresh _ _).trans
      (before.trans (tabled_keeps holds clear room b high side other)))
  have pointers := pointer_setTable (o := p.sb.dev) (w := p'.sb.dev) (d := p.dinode) (by omega)
    empty j (by omega : 0 < blockOf k) (by omega) (by omega : 0 ≤ blockOf k') (by omega)
    (by rw [dev, blockOf_toNat, Function.update_of_ne (double_ne holds taken clear room).symm, Function.update_self])
    (by rw [dev, Function.update_self]) fun t _ differ real => keeps_tables holds keeps differ real
  have leaf : p.pointer (.leaf i j) = 0 := by
    have := empty
    simp only [InodePtr.pointer, pointer] at this ⊢
    rw [this, child_zero]
  exact {
    same := by
      subst shape
      exact ⟨rfl, rfl, rfl, rfl⟩
    took := by
      subst shape
      exact ((took.take clear' room').write (by omega) _).write (by omega) _
    allocFailed := by
      subst shape
      rfl
    pointers := by
      subst shape
      exact (pointer_fields rfl rfl rfl).trans pointers
    places := by simp
    empty := by simpa using ⟨empty, leaf⟩
    counted := by
      subst shape
      exact (count_more holds).2.1
    kept := keeps_contents holds keeps rfl taken }

end Tables

variable {n : Nat} {i j : Fin 2048} (outer : n / 2048 = i) (inner : n % 2048 = j)
include outer inner

theorem allocateDouble_present (present : p.dinode.i_dindirect ≠ 0) (taken : p.pointer (.dindirectEntry i) ≠ 0)
    (empty : p.pointer (.leaf i j) = 0) :
    ∃ ret p', p.allocateDouble n = .ok (ret, p') ∧ Allocates p [.leaf i j] (.leaf i j) False ret p' := by
  have acc := holds.accounts
  generalize run : p.allocateDouble n = r
  have takenDouble : p.pointer .dindirect ≠ 0 := fun zero => present (toInt_eq_zero.mp zero)
  have realDouble : 146 ≤ p.dinode.i_dindirect.toInt := holds.positive takenDouble
  have table : p.pointer (.dindirectEntry i) = entry (p.sb.dev p.dinode.i_dindirect.toInt.toNat) i :=
    child_real (by omega) i
  have real := holds.positive taken
  rw [InodePtr.allocateDouble, if_neg present, read_block_eq (by omega), Result.ok_bind,
    InodePtr.allocateInTable] at run
  simp only [outer, ← table, taken, if_false, read_block_eq (by omega : 0 < p.pointer (.dindirectEntry i)),
    Result.ok_bind, InodePtr.allocateLeaf, inner] at run
  rcases alloc_block_for_inode acc with ⟨full, step⟩ | ⟨k, clear, room, step⟩
  · have negative : ¬ (0 : Int) ≤ -ENOSPC := by decide
    simp only [step, Result.ok_bind, negative, Bool.false_eq_true, false_and, if_false] at run
    obtain ⟨_, _, rfl, rfl, rfl⟩ := Result.pair_eq run
    exact ⟨_, _, rfl, .failed acc full (List.cons_ne_nil _ _) id⟩
  · have low := blockOf_low k
    have high := blockOf_high clear.1
    have positive : 0 ≤ blockOf k := by omega
    have borrowed : Borrowed p.sb (p.taken k).sb [blockOf k] := (Borrowed.refl acc).take clear room
    have ind : (p.taken k).dinode.i_dindirect.toInt = p.dinode.i_dindirect.toInt := rfl
    simp only [step, Result.ok_bind, positive, if_true, ind,
      write_block_eq (by omega : 0 ≤ p.dinode.i_dindirect.toInt),
      write_block_eq (by omega : 0 ≤ p.pointer (.dindirectEntry i))] at run
    obtain ⟨_, p', rfl, rfl, shape⟩ := Result.pair_eq run
    have dev : p'.sb.dev = Function.update (Function.update (p.taken k).sb.dev
        (p.pointer (.dindirectEntry i)).toNat
        (setEntry (p.sb.dev (p.pointer (.dindirectEntry i)).toNat) j (blockOf k)))
        p.dinode.i_dindirect.toInt.toNat (p.sb.dev p.dinode.i_dindirect.toInt.toNat) := by
      subst shape
      rfl
    have notDouble : (p.pointer (.dindirectEntry i)).toNat ≠ p.dinode.i_dindirect.toInt.toNat :=
      toNat_ne holds (t := .dindirect) (by simp) (by omega)
    have keeps : p.KeepsBut (.dindirectEntry i) p'.sb.dev := by
      intro b high side other
      rw [dev]
      by_cases double : b = p.dinode.i_dindirect.toInt.toNat
      · rw [double, Function.update_self]
      · rw [Function.update_of_ne double, Function.update_of_ne other, borrowed.kept b high side]
    have pointers := pointer_setLeaf (o := p.sb.dev) (w := p'.sb.dev) (d := p.dinode) (i := i)
      (by change 0 < p.pointer (.dindirectEntry i); omega) j positive (by omega)
      (by rw [dev, Function.update_of_ne notDouble, Function.update_self]) fun t _ differ real => keeps_tables holds keeps differ real
    have grown : Grown p p' [(.leaf i j, blockOf k)] := by
      subst shape
      exact {
        same := ⟨rfl, rfl, rfl, rfl⟩
        took := (borrowed.toTook.write (by omega) _).write (by omega) _
        allocFailed := rfl
        pointers := (pointer_fields rfl rfl rfl).trans pointers
        places := List.nodup_singleton _
        empty := by simpa using empty
        counted := (count_more holds).1
        kept := keeps_contents holds keeps rfl taken }
    exact ⟨_, _, rfl, Or.inl ⟨_, rfl, grown, by rw [grown.pointers]; simp [attachAll], by omega⟩⟩

theorem allocateDouble_table (present : p.dinode.i_dindirect ≠ 0) (empty : p.pointer (.dindirectEntry i) = 0) :
    ∃ ret p', p.allocateDouble n = .ok (ret, p') ∧
      Allocates p [.dindirectEntry i, .leaf i j] (.leaf i j) (p.sb.free = 1) ret p' := by
  have acc := holds.accounts
  generalize run : p.allocateDouble n = r
  have taken : p.pointer .dindirect ≠ 0 := fun zero => present (toInt_eq_zero.mp zero)
  have real : 146 ≤ p.dinode.i_dindirect.toInt := holds.positive taken
  have table : p.pointer (.dindirectEntry i) = entry (p.sb.dev p.dinode.i_dindirect.toInt.toNat) i :=
    child_real (by omega) i
  rw [InodePtr.allocateDouble, if_neg present, read_block_eq (by omega), Result.ok_bind,
    InodePtr.allocateInTable, outer, ← table, if_pos empty] at run
  have negative : ¬ (0 : Int) ≤ -ENOSPC := by decide
  rcases alloc_block_for_inode acc with ⟨full, step⟩ | ⟨k, clear, room, step⟩
  · simp only [step, Result.ok_bind, negative, Bool.false_eq_true, if_false] at run
    obtain ⟨_, _, rfl, rfl, rfl⟩ := Result.pair_eq run
    exact ⟨_, _, rfl, .failed acc full (List.cons_ne_nil _ _) (by omega)⟩
  have low := blockOf_low k
  have high := blockOf_high clear.1
  have positive : 0 ≤ blockOf k := by omega
  have ind : (p.taken k).dinode.i_dindirect.toInt = p.dinode.i_dindirect.toInt := rfl
  have new : entry (setEntry (p.sb.dev p.dinode.i_dindirect.toInt.toNat) i (blockOf k)) i = blockOf k := by
    rw [entry_setEntry positive (by omega), if_pos rfl]
  simp only [step, Result.ok_bind, positive, if_true, ind, new, write_block_eq positive, blockOf_toNat,
    write_block_eq (by omega : 0 ≤ p.dinode.i_dindirect.toInt), InodePtr.allocateLeaf, outer, inner] at run
  have took := tabled_took holds taken clear room (i := i)
  rw [← InodePtr.tabled] at run
  rcases alloc_block_for_inode took.accounts with ⟨full, step'⟩ | ⟨k', clear', room', step'⟩
  · obtain ⟨freed, stranded⟩ := tabled_strands holds taken empty clear room
    simp only [step', Result.ok_bind, negative, Bool.false_eq_true, not_false_eq_true, and_self, if_false,
      if_true, freed] at run
    obtain ⟨_, _, rfl, rfl, rfl⟩ := Result.pair_eq run
    have one := took.free
    rw [full, List.length_singleton] at one
    exact ⟨_, _, rfl, Or.inr ⟨by simp; omega, rfl, rfl, Or.inl ⟨by omega, stranded⟩⟩⟩
  · have low' := blockOf_low k'
    have positive' : 0 ≤ blockOf k' := by omega
    have ind' : ((p.tabled i k).taken k').dinode.i_dindirect.toInt = p.dinode.i_dindirect.toInt := rfl
    simp only [step', Result.ok_bind, positive', if_true, ind', write_block_eq (by omega : 0 ≤ p.dinode.i_dindirect.toInt)] at run
    obtain ⟨_, p', rfl, rfl, shape⟩ := Result.pair_eq run
    have grown := tabled_grows holds taken empty clear room clear' room' shape.symm
    exact ⟨_, _, rfl, Or.inl ⟨_, rfl, grown, by rw [grown.pointers]; simp [attachAll], by omega⟩⟩

omit holds inner in
theorem allocateLeaf_new {s : SuperBlock} {p2 : InodePtr} {k k' : Nat} {dindirect : Memory}
    (borrowed : Borrowed s p2.sb [blockOf k, blockOf k']) (ind : p2.dinode.i_dindirect.toInt = blockOf k)
    (new : entry dindirect i = blockOf k') :
    ∃ ret p', p2.allocateLeaf true true dindirect zero n = .ok (ret, p') ∧
    ((p2.sb.free = 0 ∧ ret = -ENOSPC ∧ Borrowed s p'.sb [] ∧ p'.sb.allocFailed = true ∧
      p'.inode = { p2.inode with
        dirty := true
        dinode.block_count := p2.dinode.block_count - 1 - 1
        dinode.i_dindirect := 0 }) ∨
    ∃ k'', Clear p2.sb k'' ∧ ret = blockOf k'' ∧ Borrowed s p'.sb [blockOf k, blockOf k', blockOf k''] ∧
      p'.sb.allocFailed = p2.sb.allocFailed ∧
      p'.sb.dev (146 + k') = (if k' = k then dindirect else setEntry zero (n % 2048) (blockOf k'')) ∧
      p'.sb.dev (146 + k) = dindirect ∧
      p'.inode = { p2.inode with
        dirty := true
        dinode.block_count := p2.dinode.block_count + 1 }) := by
  generalize run : p2.allocateLeaf true true dindirect zero n = r
  have low := blockOf_low k
  have low' := blockOf_low k'
  simp only [InodePtr.allocateLeaf, outer, new] at run
  rcases alloc_block_for_inode borrowed.accounts with ⟨full, step⟩ | ⟨k'', clear, room, step⟩
  · have drop := borrowed.fail.drop (l := [blockOf k]) (k := k')
    have free := free_block_from_inode (p := p2.failed) borrowed.fail.accounts drop.1 drop.2.1
    have drop' := drop.2.2.drop (l := []) (k := k)
    have free' := free_block_from_inode (p := p2.failed.dropped k') drop.2.2.accounts drop'.1 drop'.2.1
    have ind' : (p2.failed.dropped k').dinode.i_dindirect.toInt = blockOf k := ind
    have negative : ¬ (0 : Int) ≤ -ENOSPC := by decide
    simp only [step, Result.ok_bind, negative, not_true_eq_false, and_false, if_false, if_true, free, ind',
      free'] at run
    obtain ⟨_, _, rfl, rfl, rfl⟩ := Result.pair_eq run
    exact ⟨_, _, rfl, Or.inl ⟨full, rfl, drop'.2.2, rfl, rfl⟩⟩
  · have positive : 0 ≤ blockOf k'' := by have := blockOf_low k''; omega
    have ind' : (p2.taken k'').dinode.i_dindirect.toInt = blockOf k := ind
    have taken : Borrowed s (p2.taken k'').sb [blockOf k, blockOf k', blockOf k''] := borrowed.take clear room
    simp only [step, Result.ok_bind, positive, if_true, ind', write_block_eq (by omega : 0 ≤ blockOf k),
      write_block_eq (by omega : 0 ≤ blockOf k'), blockOf_toNat] at run
    obtain ⟨_, _, rfl, rfl, rfl⟩ := Result.pair_eq run
    refine ⟨_, _, rfl, Or.inr ⟨k'', clear, rfl, (taken.write (k := k') (by simp) _).write (k := k) (by simp) _, rfl,
      ?_, Function.update_self _ _ _, rfl⟩⟩
    simp only [Function.update_apply, Nat.add_left_cancel_iff, if_true]

omit holds in
theorem allocateInTable_new {s : SuperBlock} {p1 : InodePtr} {k : Nat} (borrowed : Borrowed s p1.sb [blockOf k])
    (ind : p1.dinode.i_dindirect.toInt = blockOf k) :
    ∃ ret p', p1.allocateInTable true zero n = .ok (ret, p') ∧
    ((p1.sb.free < 2 ∧ ret = -ENOSPC ∧ Borrowed s p'.sb [] ∧ p'.sb.allocFailed = true ∧
      p'.inode = { p1.inode with
        dirty := true
        dinode.block_count := p1.dinode.block_count - 1
        dinode.i_dindirect := 0 }) ∨
    ∃ k' k'', k' < 1048576 ∧ k'' < 1048576 ∧ ret = blockOf k'' ∧ Borrowed s p'.sb [blockOf k, blockOf k', blockOf k''] ∧
      p'.sb.allocFailed = p1.sb.allocFailed ∧
      p'.sb.dev (146 + k') = setEntry zero j (blockOf k'') ∧ p'.sb.dev (146 + k) = setEntry zero i (blockOf k') ∧
      p'.inode = { p1.inode with
        dirty := true
        dinode.block_count := p1.dinode.block_count + 1 + 1 }) := by
  have low := blockOf_low k
  have negative : ¬ (0 : Int) ≤ -ENOSPC := by decide
  generalize run : p1.allocateInTable true zero n = r
  simp only [InodePtr.allocateInTable, outer, entry_zero, if_true] at run
  rcases alloc_block_for_inode borrowed.accounts with ⟨full, step⟩ | ⟨k', clear, room, step⟩
  · have drop := borrowed.fail.drop (l := []) (k := k)
    have free := free_block_from_inode (p := p1.failed) borrowed.fail.accounts drop.1 drop.2.1
    have ind' : p1.failed.dinode.i_dindirect.toInt = blockOf k := ind
    simp only [step, Result.ok_bind, negative, if_false, ind', free] at run
    obtain ⟨_, _, rfl, rfl, rfl⟩ := Result.pair_eq run
    exact ⟨_, _, rfl, Or.inl ⟨by omega, rfl, drop.2.2, rfl, rfl⟩⟩
  have low' := blockOf_low k'
  have high' := blockOf_high clear.1
  have positive : 0 ≤ blockOf k' := by omega
  have ind' : (p1.taken k').dinode.i_dindirect.toInt = blockOf k := ind
  have new : entry (setEntry zero i (blockOf k')) i = blockOf k' := by
    rw [entry_setEntry positive (by omega), if_pos rfl]
  have stored := (((borrowed.take clear room).write (k := k') (by simp) zero).write (k := k) (by simp) (setEntry zero i (blockOf k')))
  simp only [step, Result.ok_bind, positive, if_true, new, ind', write_block_eq positive, blockOf_toNat,
    write_block_eq (by omega : 0 ≤ blockOf k)] at run
  generalize second : ({ p1.taken k' with
    sb.dev := Function.update (Function.update (p1.taken k').sb.dev (146 + k') zero) (146 + k)
      (setEntry zero i (blockOf k')) } : InodePtr) = p2 at run
  have inode : p2.inode = { p1.inode with
      dirty := true
      dinode.block_count := p1.dinode.block_count + 1 } := by
    subst second
    rfl
  have failed : p2.sb.allocFailed = p1.sb.allocFailed := by
    subst second
    rfl
  have ind2 : p2.dinode.i_dindirect.toInt = blockOf k := by
    subst second
    exact ind
  replace stored : Borrowed s p2.sb [blockOf k, blockOf k'] := by
    subst second
    exact stored
  clear second
  have free : p1.sb.free = p2.sb.free + 1 := by
    have before := borrowed.free
    have after := stored.free
    simp only [List.length_cons, List.length_nil] at before after
    omega
  obtain ⟨ret, p', leaf, outcome⟩ := allocateLeaf_new outer stored ind2 new
  refine ⟨ret, p', run.symm.trans leaf, ?_⟩
  rcases outcome with ⟨full, rfl, given, failed', inode'⟩ | ⟨k'', clear', rfl, given, failed', table, tables, inode'⟩
  · exact Or.inl ⟨by omega, rfl, given, failed', by rw [inode', inode]; simp [InodePtr.dinode, inode]⟩
  · have apart : k' ≠ k := by
      rintro rfl
      have := stored.nodup
      simp at this
    rw [if_neg apart, inner] at table
    exact Or.inr ⟨k', k'', clear.1, clear'.1, rfl, given, failed'.trans failed, table, tables,
      by rw [inode', inode]; simp [InodePtr.dinode, inode]⟩

theorem allocateDouble_absent (absent : p.dinode.i_dindirect = 0) :
    ∃ ret p', p.allocateDouble n = .ok (ret, p') ∧
      Allocates p [.dindirect, .dindirectEntry i, .leaf i j] (.leaf i j) False ret p' := by
  have acc := holds.accounts
  generalize run : p.allocateDouble n = r
  rw [InodePtr.allocateDouble, if_pos absent] at run
  rcases alloc_block_for_inode acc with ⟨full, step⟩ | ⟨k, clear, room, step⟩
  · rw [step] at run
    obtain ⟨_, _, rfl, rfl, rfl⟩ := Result.pair_eq run
    exact ⟨_, _, rfl, .failed acc full (List.cons_ne_nil _ _) id⟩
  have low := blockOf_low k
  have high := blockOf_high clear.1
  have notNegative : ¬ blockOf k < 0 := by omega
  have number : (Int32.ofInt (blockOf k)).toInt = blockOf k := toInt_ofInt (by omega) (by omega)
  simp only [step, Result.ok_bind, notNegative, if_false] at run
  have borrowed : Borrowed p.sb (p.taken k).sb [blockOf k] := (Borrowed.refl acc).take clear room
  obtain ⟨ret, p', attached, outcome⟩ := @allocateInTable_new n i j outer inner p.sb
    ((p.taken k).setDInode { (p.taken k).dinode with i_dindirect := Int32.ofInt (blockOf k) }) k borrowed number
  refine ⟨ret, p', run.symm.trans attached, ?_⟩
  rcases outcome with ⟨full, rfl, given, failed, inode⟩ | ⟨k', k'', small, small', rfl, given, failed, table, tables, inode⟩
  · have free := borrowed.free
    rw [List.length_singleton] at free
    change (p.taken k).sb.free < 2 at full
    have unchanged : Unchanged p p' := {
      same := by constructor <;> simp [inode, InodePtr.dinode, InodePtr.setDInode, InodePtr.taken, InodePtr.setDirty]
      borrowed := given
      allocFailed := failed
      dinode := by
        rw [InodePtr.dinode, inode, ← absent]
        ext <;> simp [InodePtr.setDInode, InodePtr.taken, InodePtr.setDirty]
      dirty := fun none => by omega }
    have few : p.sb.free < [Place.dindirect, .dindirectEntry i, .leaf i j].length := by
      simp only [List.length_cons, List.length_nil]
      omega
    exact Or.inr ⟨few, rfl, failed, Or.inr ⟨id, unchanged⟩⟩
  · have low' := blockOf_low k'
    have high' := blockOf_high small
    have low'' := blockOf_low k''
    have high'' := blockOf_high small'
    have pointers := pointer_setDouble (o := p.sb.dev) (w := p'.sb.dev) absent i j
      (by omega : 0 < blockOf k) (by omega) (by omega : 0 < blockOf k') (by omega)
      (by omega : 0 ≤ blockOf k'') (by omega) (by rw [blockOf_toNat, table]) (by rw [blockOf_toNat, tables])
      fun t _ real => tables_kept holds given t real
    have grown : Grown p p' [(.dindirect, blockOf k), (.dindirectEntry i, blockOf k'), (.leaf i j, blockOf k'')] := {
      same := by constructor <;> simp [inode, InodePtr.dinode, InodePtr.setDInode, InodePtr.taken, InodePtr.setDirty]
      took := given.toTook
      allocFailed := failed
      pointers := by
        rw [← pointers]
        apply pointer_fields <;> rw [InodePtr.dinode, inode] <;> rfl
      places := by simp
      empty := by simp [pointer, absent, child_zero]
      counted := by
        rw [InodePtr.dinode, inode]
        exact (count_more holds).2.2
      kept := fun b high side => given.kept b high (side.imp_right And.left) }
    exact Or.inl ⟨_, rfl, grown, by rw [grown.pointers]; simp [attachAll], by omega⟩

end Cases

namespace InodePtr

/-- The allocation of block `n` fails half way and leaves the entry of a released block behind. -/
def Strands (p : InodePtr) (n : Nat) : Prop :=
  2058 ≤ n ∧ p.pointer .dindirect ≠ 0 ∧ p.pointer (.dindirectEntry (outer n)) = 0 ∧ p.sb.free = 1

end InodePtr

section Blocks

variable {p p' : InodePtr} {ds : Nat → DInode} (holds : Holds p ds) {ret : Int}
include holds

theorem allocateMissing_spec {n : Nat} (small : n < MAX_FILE_BLOCKS) (empty : p.pointer (target n) = 0) :
    ∃ ret p', p.allocateMissing n = .ok (ret, p') ∧
      Allocates p (p.missing n) (target n) (p.Strands n) ret p' := by
  simp only [MAX_FILE_BLOCKS] at small
  simp only [InodePtr.allocateMissing, NR_DIRECT_BLOCKS, NR_INDIRECT_BLOCKS]
  simp only [InodePtr.missing, path]
  unfold target at empty ⊢
  have never {places last ret p'} (other : ¬ p.Strands n) (allocates : Allocates p places last False ret p') :
      Allocates p places last (p.Strands n) ret p' :=
    allocates.imp_right fun stuck => ⟨stuck.1, stuck.2.1, stuck.2.2.1,
      stuck.2.2.2.imp (fun both => both.1.elim) fun both => ⟨other, both.2⟩⟩
  by_cases direct : n < 10
  · simp only [dif_pos direct] at empty ⊢
    simp only [List.filter_cons, empty, decide_true, if_true, List.filter_nil]
    obtain ⟨ret, p', run, allocates⟩ := allocateDirect_spec holds empty
    exact ⟨ret, p', run, never (fun strands => by have := strands.1; omega) allocates⟩
  simp only [dif_neg direct] at empty ⊢
  by_cases single : n - 10 < 2048
  · have near : ¬ 2048 ≤ n - 10 := by omega
    have other : ¬ p.Strands n := fun strands => by have := strands.1; omega
    simp only [dif_pos single, if_neg near] at empty ⊢
    by_cases absent : p.dinode.i_indirect = 0
    · have zero : p.pointer .indirect = 0 := toInt_eq_zero.mpr absent
      simp only [List.filter_cons, zero, empty, decide_true, if_true, List.filter_nil]
      obtain ⟨ret, p', run, allocates⟩ := @allocateIndirect_absent p ds holds ⟨n - 10, single⟩ absent
      exact ⟨ret, p', run, never other allocates⟩
    · have taken : ¬ p.pointer .indirect = 0 := fun zero => absent (toInt_eq_zero.mp zero)
      simp only [List.filter_cons, taken, empty, decide_true, decide_false, Bool.false_eq_true, if_false,
        if_true, List.filter_nil]
      obtain ⟨ret, p', run, allocates⟩ := @allocateIndirect_present p ds holds ⟨n - 10, single⟩ absent empty
      exact ⟨ret, p', run, never other allocates⟩
  have far : 2048 ≤ n - 10 := by omega
  simp only [dif_neg single, if_pos far] at empty ⊢
  have index : (n - 10 - 2048) / 2048 = outer n := by
    simp only [outer]
    omega
  have last : (n - 10 - 2048) % 2048 = inner n := by
    simp only [inner]
    omega
  by_cases absent : p.dinode.i_dindirect = 0
  · have zero : p.pointer .dindirect = 0 := toInt_eq_zero.mpr absent
    have zero' : p.pointer (.dindirectEntry (outer n)) = 0 := by
      simp [pointer, absent, child_zero]
    simp only [List.filter_cons, zero, zero', empty, decide_true, if_true, List.filter_nil]
    obtain ⟨ret, p', run, allocates⟩ := allocateDouble_absent holds index last absent
    exact ⟨ret, p', run, never (fun strands => strands.2.1 zero) allocates⟩
  · have taken : ¬ p.pointer .dindirect = 0 := fun zero => absent (toInt_eq_zero.mp zero)
    by_cases table : p.pointer (.dindirectEntry (outer n)) = 0
    · simp only [List.filter_cons, taken, table, empty, decide_true, decide_false, Bool.false_eq_true, if_false,
        if_true, List.filter_nil]
      obtain ⟨ret, p', run, allocates⟩ := allocateDouble_table holds index last absent table
      refine ⟨ret, p', run, allocates.imp_right fun stuck => ⟨stuck.1, stuck.2.1, stuck.2.2.1, ?_⟩⟩
      exact stuck.2.2.2.imp (And.imp_left fun one => ⟨by omega, taken, table, one⟩)
        (And.imp_left fun more strands => more strands.2.2.2)
    · simp only [List.filter_cons, taken, table, empty, decide_true, decide_false, Bool.false_eq_true, if_false,
        if_true, List.filter_nil]
      obtain ⟨ret, p', run, allocates⟩ := allocateDouble_present holds index last absent table empty
      exact ⟨ret, p', run, never (fun strands => table strands.2.2.1) allocates⟩

theorem testfs_read_block_eq {n : Int} {phy : Int} {block : Memory} (run : p.testfs_read_block n = .ok (phy, block))
    (small : n < MAX_FILE_BLOCKS) :
    0 ≤ n ∧ phy = p.pointer (target n.toNat) ∧ block = if 0 < phy then p.sb.dev phy.toNat else zero := by
  rw [InodePtr.testfs_read_block, assert_bind_eq_ok] at run
  obtain ⟨low, run⟩ := run
  obtain ⟨found, look, rest⟩ := Result.bind_eq_ok.mp run
  have value := lookup_eq holds.nonneg look (by omega)
  split_ifs at rest with real
  · rw [read_block_eq real] at rest
    obtain ⟨rfl, rfl⟩ := Prod.mk.inj (Except.ok.inj rest)
    exact ⟨low, value, by rw [if_pos real]⟩
  · obtain ⟨rfl, rfl⟩ := Prod.mk.inj (Except.ok.inj rest)
    exact ⟨low, value, by rw [if_neg real]⟩

/-- `testfs_allocate_block` refuses a block past the maximum, finds it, or allocates what its path misses. -/
theorem testfs_allocate_block_spec {n : Int} {block : Memory}
    (run : p.testfs_allocate_block n = .ok (ret, p', block)) :
    (MAX_FILE_BLOCKS ≤ n ∧ ret = -EFBIG ∧ p' = p) ∨
    (0 ≤ n ∧ n < MAX_FILE_BLOCKS ∧ p.pointer (target n.toNat) ≠ 0 ∧ ret = p.pointer (target n.toNat) ∧
      p' = p ∧ block = p.sb.dev ret.toNat) ∨
    (0 ≤ n ∧ n < MAX_FILE_BLOCKS ∧ p.pointer (target n.toNat) = 0 ∧ block = zero ∧
      Allocates p (p.missing n.toNat) (target n.toNat) (p.Strands n.toNat) ret p') := by
  obtain ⟨⟨phy, found⟩, look, rest⟩ := Result.bind_eq_ok.mp run
  simp only at rest
  split_ifs at rest with beyond present
  · simp only [Result.pure_eq_ok, Except.ok.injEq, Prod.mk.injEq] at rest
    obtain ⟨rfl, rfl, rfl⟩ := rest
    exact Or.inl ⟨beyond, rfl, rfl⟩
  · obtain ⟨low, rfl, rfl⟩ := testfs_read_block_eq holds look (by omega)
    simp only [Result.pure_eq_ok, Except.ok.injEq, Prod.mk.injEq] at rest
    obtain ⟨rfl, rfl, rfl⟩ := rest
    have := holds.positive present
    exact Or.inr (Or.inl ⟨low, by omega, present, rfl, rfl, by rw [if_pos (by omega)]⟩)
  · obtain ⟨low, rfl, rfl⟩ := testfs_read_block_eq holds look (by omega)
    rw [not_not] at present
    obtain ⟨ret', p'', attach, allocates⟩ := allocateMissing_spec holds (n := n.toNat) (by omega) present
    simp only [attach, Result.ok_bind, Result.pure_eq_ok, Except.ok.injEq, Prod.mk.injEq] at rest
    obtain ⟨rfl, rfl, rfl⟩ := rest
    exact Or.inr (Or.inr ⟨low, by omega, present, by rw [if_neg (by omega)], allocates⟩)

end Blocks

end OperatingSystem.Fs
