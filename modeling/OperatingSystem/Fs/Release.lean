import OperatingSystem.Fs.Mapping

namespace OperatingSystem.Fs

open Bytes Ownership Place

/-- `s'` comes from `s` by giving back the blocks `bs`. -/
structure Gave (s s' : SuperBlock) (bs : List Int) : Prop where
  accounts : Accounts s'
  marked : ∀ b, s'.Marked b ↔ s.Marked b ∧ b ∉ bs
  free : s'.free = s.free + bs.length
  max_fs_blocks : s'.sb.max_fs_blocks = s.sb.max_fs_blocks
  inode_freemap : s'.inode_freemap = s.inode_freemap
  allocFailed : s'.allocFailed = s.allocFailed
  kept : ∀ b : Nat, 18 ≤ b → (b : Int) ∉ bs → s'.dev b = s.dev b

namespace Gave

variable {s s' : SuperBlock} {bs : List Int} {k : Nat}

theorem refl (acc : Accounts s) : Gave s s [] := ⟨acc, by simp, rfl, rfl, rfl, rfl, fun _ _ _ => rfl⟩

theorem drop (gave : Gave s s' bs) (inside : k < 1048576) (set : s'.block_freemap.bitmap_isset k = true) :
    Gave s (s'.dropBlock (146 + k) k) (bs ++ [blockOf k]) where
  accounts := (gave.accounts.dropBlock (b := 146 + k) inside set (by omega)).2
  marked b := by
    rw [gave.accounts.marked_dropBlock inside set, gave.marked, List.mem_append, List.mem_singleton, not_or, and_assoc]
  free := by
    rw [gave.accounts.free_dropBlock inside set, gave.free, List.length_append, List.length_singleton, Nat.add_assoc]
  max_fs_blocks := gave.max_fs_blocks
  inode_freemap := gave.inode_freemap
  allocFailed := gave.allocFailed
  kept b high other := by
    rw [List.mem_append, List.mem_singleton, not_or] at other
    rw [dropBlock_dev gave.accounts inside high (fun same => other.2 (by rw [same, blockOf])), gave.kept b high other.1]

end Gave

/-- `p'` comes from `p` by giving back the blocks at the places `ks`. -/
structure Released (p p' : InodePtr) (ks : List Place) : Prop where
  gave : Gave p.sb p'.sb (ks.map p.pointer)
  number : p'.inode.i_nr = p.inode.i_nr
  references : p'.inode.i_count = p.inode.i_count
  type : p'.dinode.i_type = p.dinode.i_type
  size : p'.dinode.i_size = p.dinode.i_size
  counted : p'.dinode.block_count.toInt + ks.length = p.dinode.block_count.toInt
  places : ks.Nodup
  taken : ∀ k ∈ ks, p.pointer k ≠ 0

theorem toInt_sub_one {x : Int32} (low : 0 < x.toInt) : (x - 1).toInt = x.toInt - 1 := by
  have high := x.toInt_lt
  rw [Int32.toInt_sub, show (1 : Int32).toInt = 1 from rfl, Int.bmod_def]
  omega

section Places

variable {p : InodePtr} {ds : Nat → DInode} (holds : Holds p ds) {ks : List Place} (places : ks.Nodup)
include holds places

theorem Holds.length_le (taken : ∀ k ∈ ks, p.pointer k ≠ 0) : (ks.length : Int) ≤ p.dinode.block_count.toInt := by
  have card := Set.ncard_le_ncard (show {k | k ∈ ks} ⊆ {k | p.pointer k ≠ 0} from taken) (Set.toFinite _)
  rw [← List.coe_toFinset, Set.ncard_coe_finset, List.toFinset_card_of_nodup places] at card
  rw [holds.block_count, count]
  omega

theorem Holds.length_eq (taken : ∀ k, k ∈ ks ↔ p.pointer k ≠ 0) : (ks.length : Int) = p.dinode.block_count.toInt := by
  have same : {k | p.pointer k ≠ 0} = ↑ks.toFinset := by
    ext k
    simp [taken]
  rw [holds.block_count, count, same, Set.ncard_coe_finset, List.toFinset_card_of_nodup places]

end Places

namespace Released

variable {p p1 p2 : InodePtr} {ds : Nat → DInode} {ks : List Place}

theorem refl (acc : Accounts p.sb) : Released p p [] :=
  ⟨.refl acc, rfl, rfl, rfl, rfl, by simp, List.nodup_nil, by simp⟩

theorem congr (released : Released p p1 ks) (sb : p2.sb = p1.sb) (number : p2.inode.i_nr = p1.inode.i_nr)
    (references : p2.inode.i_count = p1.inode.i_count) (type : p2.dinode.i_type = p1.dinode.i_type)
    (size : p2.dinode.i_size = p1.dinode.i_size) (count : p2.dinode.block_count = p1.dinode.block_count) :
    Released p p2 ks where
  gave := sb ▸ released.gave
  number := number.trans released.number
  references := references.trans released.references
  type := type.trans released.type
  size := size.trans released.size
  counted := by rw [count, released.counted]
  places := released.places
  taken := released.taken

theorem free {k : Place} (released : Released p p1 ks) (holds : Holds p ds) (taken : p.pointer k ≠ 0) (new : k ∉ ks) :
    ∃ p2, p1.testfs_free_block_from_inode (p.pointer k) = .ok p2 ∧ Released p p2 (ks ++ [k]) ∧
      p2.dinode = { p1.dinode with block_count := p2.dinode.block_count } := by
  have other : p.pointer k ∉ ks.map p.pointer := by
    intro member
    obtain ⟨k', inside, same⟩ := List.mem_map.mp member
    exact new (holds.injective taken same.symm ▸ inside)
  have inUse := (released.gave.marked _).mpr ⟨holds.marked taken, other⟩
  obtain ⟨j, inside, block, set⟩ := (SuperBlock.marked_iff released.gave.accounts.layout).mp inUse
  have run := free_block_from_inode released.gave.accounts inside set
  rw [blockOf, ← block] at run
  have gave := released.gave.drop inside set
  rw [blockOf, ← block] at gave
  have places : (ks ++ [k]).Nodup := released.places.append (List.nodup_singleton k) (by simpa using new)
  have all : ∀ l ∈ ks ++ [k], p.pointer l ≠ 0 := by
    intro l member
    rcases List.mem_append.mp member with old | same
    · exact released.taken l old
    · rw [List.mem_singleton.mp same]
      exact taken
  have counted : (p1.dinode.block_count - 1).toInt + (ks ++ [k]).length = p.dinode.block_count.toInt := by
    have before := released.counted
    have shorter := holds.length_le places all
    rw [List.length_append, List.length_singleton] at shorter ⊢
    rw [toInt_sub_one (by omega)]
    omega
  rw [← List.map_singleton, ← List.map_append] at gave
  exact ⟨_, run, ⟨gave, released.number, released.references, released.type, released.size, counted,
    places, all⟩, rfl⟩

end Released

theorem val_ofNat {i : Nat} (inside : i < 2048) : (Fin.ofNat 2048 i).val = i := Nat.mod_eq_of_lt inside

theorem ofNat_inj {i j : Nat} (hi : i < 2048) (hj : j < 2048) (same : Fin.ofNat 2048 i = Fin.ofNat 2048 j) : i = j := by
  rw [← val_ofNat hi, same, val_ofNat hj]

section Loops

variable {p p1 : InodePtr} {ds : Nat → DInode} (holds : Holds p ds) {ks : List Place}
include holds

theorem freeEntries_spec (released : Released p p1 ks) {place : Nat → Place} (selects : Int → Bool) {block : Memory} {n : Nat}
    (entries : ∀ i, i < n → entry block i = p.pointer (place i))
    (selected : ∀ i, i < n → (selects (p.pointer (place i)) = true ↔ p.pointer (place i) ≠ 0))
    (apart : ∀ i j, i < n → j < n → place i = place j → i = j) (new : ∀ i, i < n → place i ∉ ks) :
    ∃ p2 more, p1.freeEntries selects block n = .ok p2 ∧ Released p p2 (ks ++ more) ∧
      (∀ k, k ∈ more ↔ p.pointer k ≠ 0 ∧ ∃ i, i < n ∧ place i = k) ∧
      p2.dinode = { p1.dinode with block_count := p2.dinode.block_count } := by
  induction n with
  | zero => exact ⟨p1, [], rfl, by rwa [List.append_nil], by simp, rfl⟩
  | succ n ih =>
      obtain ⟨p2, more, run, released2, members, fields⟩ := ih (fun i below => entries i (by omega))
        (fun i below => selected i (by omega)) (fun i j hi hj => apart i j (by omega) (by omega))
        fun i below => new i (by omega)
      have split : p1.freeEntries selects block (n + 1) = p1.freeEntries selects block n >>= fun p2 =>
          if selects (entry block n) then p2.testfs_free_block_from_inode (entry block n) else return p2 := by
        simp only [InodePtr.freeEntries, List.range_succ, List.foldlM_append, List.foldlM_cons, List.foldlM_nil, bind_pure]
      rw [split, run, Result.ok_bind, entries n (Nat.lt_succ_self n)]
      by_cases taken : p.pointer (place n) = 0
      · have skipped : ¬ selects (p.pointer (place n)) = true := by
          rw [selected n (Nat.lt_succ_self n), not_not]
          exact taken
        refine ⟨p2, more, if_neg skipped, released2, fun k => ?_, fields⟩
        rw [members]
        refine and_congr_right fun real => ⟨fun ⟨i, below, here⟩ => ⟨i, by omega, here⟩, fun ⟨i, below, here⟩ => ⟨i, ?_, here⟩⟩
        rcases Nat.lt_succ_iff_lt_or_eq.mp below with less | rfl
        · exact less
        · exact absurd (here ▸ taken) real
      · have fresh : place n ∉ ks ++ more := by
          rw [List.mem_append, members]
          rintro (old | ⟨-, i, below, same⟩)
          · exact new n (Nat.lt_succ_self n) old
          · have := apart i n (by omega) (Nat.lt_succ_self n) same
            omega
        obtain ⟨p3, freed, released3, fields3⟩ := released2.free holds taken fresh
        refine ⟨p3, more ++ [place n], ?_, by rwa [← List.append_assoc], fun k => ?_, ?_⟩
        · rw [if_pos ((selected n (Nat.lt_succ_self n)).mpr taken), freed]
        · rw [List.mem_append, members, List.mem_singleton]
          constructor
          · rintro (⟨real, i, below, here⟩ | rfl)
            · exact ⟨real, i, by omega, here⟩
            · exact ⟨taken, n, Nat.lt_succ_self n, rfl⟩
          · rintro ⟨real, i, below, here⟩
            rcases Nat.lt_succ_iff_lt_or_eq.mp below with less | rfl
            · exact Or.inl ⟨real, i, less, here⟩
            · exact Or.inr here.symm
        · rw [fields3, fields]

theorem freeDirect_turn {e : Int} {i : Fin 10} (released : Released p p1 ks) (below : p.pointer (.direct i) ≠ 0 → (i : Nat) < e)
    (still : p1.dinode.i_block_nr i = p.dinode.i_block_nr i) (new : .direct i ∉ ks) :
    ∃ p2 more, (do
        if (i : Nat) < e ∧ p1.dinode.i_block_nr i ≠ 0 then
          let p ← p1.testfs_free_block_from_inode (p1.dinode.i_block_nr i).toInt
          return p.setDInode { p.dinode with i_block_nr := Function.update p.dinode.i_block_nr i 0 }
        return p1) = .ok p2 ∧ Released p p2 (ks ++ more) ∧ (∀ k, k ∈ more ↔ p.pointer k ≠ 0 ∧ k = .direct i) ∧
      p2.dinode = { p1.dinode with
        i_block_nr := Function.update p1.dinode.i_block_nr i 0, block_count := p2.dinode.block_count } := by
  rw [still]
  by_cases taken : p.pointer (.direct i) = 0
  · have absent : p.dinode.i_block_nr i = 0 := toInt_eq_zero.mp taken
    refine ⟨p1, [], if_neg fun both => both.2 absent, by rwa [List.append_nil], fun k => ?_, ?_⟩
    · simp only [List.not_mem_nil, false_iff, not_and]
      rintro real rfl
      exact real taken
    · rw [← absent, ← still, Function.update_eq_self]
  · have present : p.dinode.i_block_nr i ≠ 0 := fun zero => taken (toInt_eq_zero.mpr zero)
    obtain ⟨p2, freed, released2, fields⟩ := released.free holds taken new
    have freed : p1.testfs_free_block_from_inode (p.dinode.i_block_nr i).toInt = .ok p2 := freed
    refine ⟨p2.setDInode { p2.dinode with i_block_nr := Function.update p2.dinode.i_block_nr i 0 }, [.direct i], ?_,
      released2.congr rfl rfl rfl rfl rfl rfl, fun k => ?_, ?_⟩
    · rw [if_pos ⟨below taken, present⟩, freed]
      rfl
    · rw [List.mem_singleton]
      exact ⟨fun here => ⟨here ▸ taken, here⟩, fun both => both.2⟩
    · simp only [InodePtr.dinode, InodePtr.setDInode] at fields ⊢
      rw [fields]

theorem freeDirect_spec {e : Int} (below : ∀ i : Fin 10, p.pointer (.direct i) ≠ 0 → (i : Nat) < e) :
    ∃ p1 ks, p.freeDirect e = .ok p1 ∧ Released p p1 ks ∧ (∀ k, k ∈ ks ↔ p.pointer k ≠ 0 ∧ ∃ i, Place.direct i = k) ∧
      p1.dinode = { p.dinode with i_block_nr := fun _ => 0, block_count := p1.dinode.block_count } := by
  unfold InodePtr.freeDirect
  suffices loop : ∀ l : List (Fin 10), l.Nodup → ∃ p1 ks, l.foldlM _ p = Except.ok (ε := Fault) p1 ∧ Released p p1 ks ∧
      (∀ k, k ∈ ks ↔ p.pointer k ≠ 0 ∧ ∃ i ∈ l, Place.direct i = k) ∧
      p1.dinode = { p.dinode with
        i_block_nr := fun i => if i ∈ l then 0 else p.dinode.i_block_nr i, block_count := p1.dinode.block_count } by
    obtain ⟨p1, ks, run, released, members, fields⟩ := loop _ (List.nodup_finRange 10)
    exact ⟨p1, ks, run, released, by simpa using members, by simpa using fields⟩
  intro l
  induction l using List.reverseRecOn with
  | nil => exact fun _ => ⟨p, [], rfl, .refl holds.accounts, by simp, by simp⟩
  | append_singleton l i ih =>
      intro nodup
      rw [List.nodup_append] at nodup
      have new : i ∉ l := fun member => nodup.2.2 i member i (by simp) rfl
      obtain ⟨p1, ks, run, released, members, fields⟩ := ih nodup.1
      have still : p1.dinode.i_block_nr i = p.dinode.i_block_nr i := by
        rw [fields]
        exact if_neg new
      have fresh : .direct i ∉ ks := by
        rw [members]
        rintro ⟨-, j, member, same⟩
        exact new (Place.direct.inj same ▸ member)
      obtain ⟨p2, more, turn, released2, members2, fields2⟩ := freeDirect_turn holds released (below i) still fresh
      refine ⟨p2, ks ++ more, ?_, released2, fun k => ?_, ?_⟩
      · rw [List.foldlM_append, run, Result.ok_bind, List.foldlM_cons, turn]
        rfl
      · rw [List.mem_append, members, members2]
        constructor
        · rintro (⟨real, j, member, here⟩ | ⟨real, rfl⟩)
          · exact ⟨real, j, List.mem_append_left _ member, here⟩
          · exact ⟨real, i, by simp, rfl⟩
        · rintro ⟨real, j, member, rfl⟩
          rcases List.mem_append.mp member with old | last
          · exact Or.inl ⟨real, j, old, rfl⟩
          · exact Or.inr ⟨real, by rw [List.mem_singleton.mp last]⟩
      · rw [fields2, fields]
        simp only [List.mem_append, List.mem_singleton]
        congr 1
        funext j
        by_cases same : j = i
        · simp [same]
        · simp [same]

theorem Released.table (released : Released p p1 ks) {k : Place} (taken : p.pointer k ≠ 0) (new : k ∉ ks) :
    p1.sb.dev (p.pointer k).toNat = p.sb.dev (p.pointer k).toNat := by
  have low := holds.positive taken
  apply released.gave.kept
  · omega
  · rw [Int.toNat_of_nonneg (by omega)]
    intro member
    obtain ⟨k', inside, same⟩ := List.mem_map.mp member
    exact new (holds.injective taken same.symm ▸ inside)

theorem freeIndirect_spec {e : Int} (released : Released p p1 ks) (still : p1.dinode.i_indirect = p.dinode.i_indirect)
    (some : p.pointer .indirect ≠ 0 → 0 < e) (below : ∀ i : Fin 2048, p.pointer (.indirectEntry i) ≠ 0 → (i : Nat) < e)
    (new : ∀ k ∈ ks, ∃ i, Place.direct i = k) :
    ∃ p2 more, p1.freeIndirect e = .ok p2 ∧ Released p p2 (ks ++ more) ∧
      (∀ k, k ∈ more ↔ p.pointer k ≠ 0 ∧ (k = .indirect ∨ ∃ i, Place.indirectEntry i = k)) ∧
      p2.dinode = { p1.dinode with i_indirect := 0, block_count := p2.dinode.block_count } := by
  unfold InodePtr.freeIndirect
  rw [still]
  have nonneg := holds.nonneg .indirect
  by_cases present : 0 < p.dinode.i_indirect.toInt
  · have taken : p.pointer .indirect ≠ 0 := ne_of_gt present
    have apart : Place.indirect ∉ ks := by
      intro member
      obtain ⟨i, same⟩ := new _ member
      cases same
    have table := released.table holds taken apart
    have entries : ∀ i, i < min e.toNat 2048 → entry (p1.sb.dev p.dinode.i_indirect.toInt.toNat) i =
        p.pointer (.indirectEntry (Fin.ofNat 2048 i)) := by
      intro i inside
      have value := val_ofNat (show i < 2048 by omega)
      change entry (p1.sb.dev (p.pointer .indirect).toNat) i = _
      rw [table]
      simp only [InodePtr.pointer, pointer, child, if_pos present, value]
    have distinct : ∀ i j, i < min e.toNat 2048 → j < min e.toNat 2048 →
        Place.indirectEntry (Fin.ofNat 2048 i) = .indirectEntry (Fin.ofNat 2048 j) → i = j := by
      intro i j hi hj same
      exact ofNat_inj (by omega) (by omega) (Place.indirectEntry.inj same)
    have unreleased : ∀ i, i < min e.toNat 2048 → Place.indirectEntry (Fin.ofNat 2048 i) ∉ ks := by
      intro i _ member
      obtain ⟨j, same⟩ := new _ member
      cases same
    obtain ⟨p2, more, run, released2, members, fields⟩ := freeEntries_spec holds released (· ≠ 0) entries
      (fun i _ => by simp) distinct unreleased
    have fresh : Place.indirect ∉ ks ++ more := by
      rw [List.mem_append, members]
      rintro (old | ⟨-, i, -, same⟩)
      · exact apart old
      · cases same
    obtain ⟨p3, freed, released3, fields3⟩ := released2.free holds taken fresh
    have kept : p2.dinode.i_indirect.toInt = p.pointer .indirect := by
      rw [fields]
      exact congrArg Int32.toInt still
    refine ⟨p3.setDInode { p3.dinode with i_indirect := 0 }, more ++ [.indirect], ?_,
      List.append_assoc .. ▸ released3.congr rfl rfl rfl rfl rfl rfl, fun k => ?_, ?_⟩
    · rw [if_pos present, assert, if_pos (some taken), Result.ok_bind, read_block_eq present, Result.ok_bind, run,
        Result.ok_bind, kept, freed]
      rfl
    · rw [List.mem_append, members, List.mem_singleton]
      constructor
      · rintro (⟨real, i, -, here⟩ | rfl)
        · exact ⟨real, Or.inr ⟨_, here⟩⟩
        · exact ⟨taken, Or.inl rfl⟩
      · rintro ⟨real, rfl | ⟨i, rfl⟩⟩
        · exact Or.inr rfl
        · have := below i real
          refine Or.inl ⟨real, i, by omega, ?_⟩
          congr 1
          exact Fin.ext (Nat.mod_eq_of_lt i.isLt)
    · simp only [InodePtr.dinode, InodePtr.setDInode] at fields fields3 ⊢
      rw [fields3, fields]
  · have absent : p.dinode.i_indirect.toInt = 0 := Int.le_antisymm (Int.not_lt.mp present) nonneg
    refine ⟨p1, [], if_neg present, by rwa [List.append_nil], fun k => ?_, ?_⟩
    · simp only [List.not_mem_nil, false_iff, not_and]
      rintro real (rfl | ⟨i, rfl⟩)
      · exact real absent
      · refine real ?_
        simp only [InodePtr.pointer, pointer, absent]
        rfl
    · rw [← toInt_eq_zero.mp absent, ← still]

theorem freeTable_turn {e : Int} {i k : Nat} (inside : i < 2048) (released : Released p p1 ks) (present : 0 < p.dinode.i_dindirect.toInt)
    (below : ∀ i : Fin 2048, p.pointer (.dindirectEntry i) ≠ 0 → 2048 * (i : Nat) < e)
    (belowLeaf : ∀ i j : Fin 2048, p.pointer (.leaf i j) ≠ 0 → 2048 * (i : Nat) + (j : Nat) < e)
    (visited : k ≤ 2048 * i) (newTable : .dindirectEntry (Fin.ofNat 2048 i) ∉ ks)
    (new : ∀ j, .leaf (Fin.ofNat 2048 i) j ∉ ks) :
    ∃ p2 more k', InodePtr.freeTable e (p.sb.dev p.dinode.i_dindirect.toInt.toNat) (k, p1) i = .ok (k', p2) ∧
      k' ≤ 2048 * (i + 1) ∧ Released p p2 (ks ++ more) ∧
      (∀ l, l ∈ more ↔ p.pointer l ≠ 0 ∧
        (l = .dindirectEntry (Fin.ofNat 2048 i) ∨ ∃ j, Place.leaf (Fin.ofNat 2048 i) j = l)) ∧
      p2.dinode = { p1.dinode with block_count := p2.dinode.block_count } := by
  set n := Fin.ofNat 2048 i with hn
  have value : (n : Nat) = i := val_ofNat inside
  have slot : entry (p.sb.dev p.dinode.i_dindirect.toInt.toNat) i = p.pointer (.dindirectEntry n) := by
    simp only [InodePtr.pointer, pointer, child, if_pos present, value]
  have nonneg := holds.nonneg (.dindirectEntry n)
  unfold InodePtr.freeTable
  simp only [slot]
  by_cases real : 0 < p.pointer (.dindirectEntry n)
  · have taken : p.pointer (.dindirectEntry n) ≠ 0 := ne_of_gt real
    have reached := below n taken
    rw [value] at reached
    have table := released.table holds taken newTable
    have entries : ∀ j, j < min 2048 (e - k).toNat → entry (p1.sb.dev (p.pointer (.dindirectEntry n)).toNat) j =
        p.pointer (.leaf n (Fin.ofNat 2048 j)) := by
      intro j small
      have index := val_ofNat (show j < 2048 by omega)
      rw [table]
      simp only [InodePtr.pointer, pointer] at real ⊢
      simp only [child_real real, index]
    obtain ⟨p2, more, run, released2, members, fields⟩ := freeEntries_spec holds released (0 < ·) entries
      (fun j _ => by
        have := holds.nonneg (.leaf n (Fin.ofNat 2048 j))
        simp only [decide_eq_true_eq]
        omega)
      (fun j j' hj hj' same => ofNat_inj (by omega) (by omega) (Place.leaf.inj same).2) fun j _ => new _
    have fresh : Place.dindirectEntry n ∉ ks ++ more := by
      rw [List.mem_append, members]
      rintro (old | ⟨-, j, -, same⟩)
      · exact newTable old
      · cases same
    obtain ⟨p3, freed, released3, fields3⟩ := released2.free holds taken fresh
    refine ⟨p3, more ++ [.dindirectEntry n], k + min 2048 (e - k).toNat, ?_, by omega, List.append_assoc .. ▸ released3,
      fun l => ?_, by rw [fields3, fields]⟩
    · rw [if_pos ⟨by omega, real⟩, read_block_eq real, Result.ok_bind, run, Result.ok_bind, freed]
      rfl
    · rw [List.mem_append, members, List.mem_singleton]
      constructor
      · rintro (⟨nonzero, j, -, here⟩ | rfl)
        · exact ⟨nonzero, Or.inr ⟨_, here⟩⟩
        · exact ⟨taken, Or.inl rfl⟩
      · rintro ⟨nonzero, rfl | ⟨j, rfl⟩⟩
        · exact Or.inr rfl
        · have := belowLeaf n j nonzero
          refine Or.inl ⟨nonzero, j, by omega, ?_⟩
          congr 1
          exact Fin.ext (val_ofNat j.isLt)
  · have absent : p.pointer (.dindirectEntry n) = 0 := Int.le_antisymm (Int.not_lt.mp real) nonneg
    refine ⟨p1, [], k, if_neg fun both => real both.2, by omega, by rwa [List.append_nil], fun l => ?_, rfl⟩
    simp only [List.not_mem_nil, false_iff, not_and]
    rintro nonzero (rfl | ⟨j, rfl⟩)
    · exact nonzero absent
    · refine nonzero ?_
      simp only [InodePtr.pointer, pointer] at absent ⊢
      rw [absent, child_zero]

theorem freeTables_spec {e : Int} (released : Released p p1 ks) (present : 0 < p.dinode.i_dindirect.toInt)
    (below : ∀ i : Fin 2048, p.pointer (.dindirectEntry i) ≠ 0 → 2048 * (i : Nat) < e)
    (belowLeaf : ∀ i j : Fin 2048, p.pointer (.leaf i j) ≠ 0 → 2048 * (i : Nat) + (j : Nat) < e)
    (newTable : ∀ i, .dindirectEntry i ∉ ks) (new : ∀ i j, .leaf i j ∉ ks) {n : Nat} (inside : n ≤ 2048) :
    ∃ p2 more k, (List.range n).foldlM (InodePtr.freeTable e (p.sb.dev p.dinode.i_dindirect.toInt.toNat)) (0, p1) =
        .ok (k, p2) ∧ k ≤ 2048 * n ∧ Released p p2 (ks ++ more) ∧
      (∀ l, l ∈ more ↔ p.pointer l ≠ 0 ∧ ∃ i : Fin 2048, (i : Nat) < n ∧
        (l = .dindirectEntry i ∨ ∃ j, Place.leaf i j = l)) ∧
      p2.dinode = { p1.dinode with block_count := p2.dinode.block_count } := by
  induction n with
  | zero => exact ⟨p1, [], 0, rfl, Nat.le_refl 0, by rwa [List.append_nil], by simp, rfl⟩
  | succ n ih =>
      obtain ⟨p2, more, k, run, visited, released2, members, fields⟩ := ih (by omega)
      have value := val_ofNat (show n < 2048 by omega)
      have newTable' : .dindirectEntry (Fin.ofNat 2048 n) ∉ ks ++ more := by
        rw [List.mem_append, members]
        rintro (old | ⟨-, i, less, same | ⟨j, same⟩⟩)
        · exact newTable _ old
        · have := congrArg Fin.val (Place.dindirectEntry.inj same)
          omega
        · cases same
      have new' : ∀ j, .leaf (Fin.ofNat 2048 n) j ∉ ks ++ more := by
        intro j
        rw [List.mem_append, members]
        rintro (old | ⟨-, i, less, same | ⟨j', same⟩⟩)
        · exact new _ _ old
        · cases same
        · have := congrArg Fin.val (Place.leaf.inj same).1
          omega
      obtain ⟨p3, more', k', turn, visited', released3, members', fields'⟩ :=
        freeTable_turn holds (by omega) released2 present below belowLeaf visited newTable' new'
      refine ⟨p3, more ++ more', k', ?_, visited', List.append_assoc .. ▸ released3, fun l => ?_, by rw [fields', fields]⟩
      · rw [List.range_succ, List.foldlM_append, run, Result.ok_bind, List.foldlM_cons, turn]
        rfl
      · rw [List.mem_append, members, members']
        constructor
        · rintro (⟨real, i, less, here⟩ | ⟨real, here⟩)
          · exact ⟨real, i, by omega, here⟩
          · exact ⟨real, _, by omega, here⟩
        · rintro ⟨real, i, less, here⟩
          rcases Nat.lt_succ_iff_lt_or_eq.mp less with earlier | last
          · exact Or.inl ⟨real, i, earlier, here⟩
          · obtain rfl : i = Fin.ofNat 2048 n := Fin.ext (last.trans value.symm)
            exact Or.inr ⟨real, here⟩

theorem freeDouble_spec {e : Int} (released : Released p p1 ks) (still : p1.dinode.i_dindirect = p.dinode.i_dindirect)
    (some : p.pointer .dindirect ≠ 0 → 0 < e)
    (below : ∀ i : Fin 2048, p.pointer (.dindirectEntry i) ≠ 0 → 2048 * (i : Nat) < e)
    (belowLeaf : ∀ i j : Fin 2048, p.pointer (.leaf i j) ≠ 0 → 2048 * (i : Nat) + (j : Nat) < e)
    (newDouble : .dindirect ∉ ks) (newTable : ∀ i, .dindirectEntry i ∉ ks) (new : ∀ i j, .leaf i j ∉ ks) :
    ∃ p2 more, p1.freeDouble e = .ok p2 ∧ Released p p2 (ks ++ more) ∧
      (∀ k, k ∈ more ↔ p.pointer k ≠ 0 ∧ (k = .dindirect ∨ ∃ i, k = .dindirectEntry i ∨ ∃ j, Place.leaf i j = k)) ∧
      p2.dinode = { p1.dinode with i_dindirect := 0, block_count := p2.dinode.block_count } := by
  unfold InodePtr.freeDouble
  rw [still]
  have nonneg := holds.nonneg .dindirect
  by_cases present : 0 < p.dinode.i_dindirect.toInt
  · have taken : p.pointer .dindirect ≠ 0 := ne_of_gt present
    have table : p1.sb.dev p.dinode.i_dindirect.toInt.toNat = p.sb.dev p.dinode.i_dindirect.toInt.toNat :=
      released.table holds taken newDouble
    obtain ⟨p2, more, k, run, -, released2, members, fields⟩ :=
      freeTables_spec holds released present below belowLeaf newTable new (Nat.le_refl 2048)
    have fresh : Place.dindirect ∉ ks ++ more := by
      rw [List.mem_append, members]
      rintro (old | ⟨-, i, -, same | ⟨j, same⟩⟩)
      · exact newDouble old
      · cases same
      · cases same
    obtain ⟨p3, freed, released3, fields3⟩ := released2.free holds taken fresh
    have kept : p2.dinode.i_dindirect.toInt = p.pointer .dindirect := by
      rw [fields]
      exact congrArg Int32.toInt still
    refine ⟨p3.setDInode { p3.dinode with i_dindirect := 0 }, more ++ [.dindirect], ?_,
      List.append_assoc .. ▸ released3.congr rfl rfl rfl rfl rfl rfl, fun l => ?_, ?_⟩
    · rw [if_pos ⟨some taken, present⟩, read_block_eq present, Result.ok_bind, table, run, Result.ok_bind]
      simp only [kept, freed, Result.ok_bind]
      rfl
    · rw [List.mem_append, members, List.mem_singleton]
      constructor
      · rintro (⟨real, i, -, here⟩ | rfl)
        · exact ⟨real, Or.inr ⟨i, here⟩⟩
        · exact ⟨taken, Or.inl rfl⟩
      · rintro ⟨real, rfl | ⟨i, here⟩⟩
        · exact Or.inr rfl
        · exact Or.inl ⟨real, i, i.isLt, here⟩
    · simp only [InodePtr.dinode, InodePtr.setDInode] at fields fields3 ⊢
      rw [fields3, fields]
  · have absent : p.dinode.i_dindirect.toInt = 0 := Int.le_antisymm (Int.not_lt.mp present) nonneg
    refine ⟨p1, [], if_neg fun both => present both.2, by rwa [List.append_nil], fun k => ?_, ?_⟩
    · simp only [List.not_mem_nil, false_iff, not_and]
      rintro real (rfl | ⟨i, rfl | ⟨j, rfl⟩⟩)
      · exact real absent
      · refine real ?_
        simp only [InodePtr.pointer, pointer, absent]
        rfl
      · refine real ?_
        simp only [InodePtr.pointer, pointer, absent, child_zero]
    · rw [← toInt_eq_zero.mp absent, ← still]

end Loops

def Place.first : Place → Nat
  | direct i => i
  | indirect => 10
  | indirectEntry i => 10 + i
  | dindirect => 2058
  | dindirectEntry i => 2058 + 2048 * i
  | leaf i j => 2058 + 2048 * i + j

def DInode.blocks (d : DInode) : Nat := (d.i_size.toInt.toNat + (BLOCK_SIZE - 1)) / BLOCK_SIZE

/-- Each block of the inode is needed by a logical block below `i_size`. -/
def Tight (dev : Disk) (d : DInode) : Prop := ∀ k, pointer dev d k ≠ 0 → ∃ n, n < d.blocks ∧ k ∈ path n

theorem first_le {n : Nat} {k : Place} (small : n < MAX_FILE_BLOCKS) (onPath : k ∈ path n) : k.first ≤ n := by
  simp only [MAX_FILE_BLOCKS] at small
  unfold path at onPath
  split_ifs at onPath with direct single
  · rw [List.mem_singleton.mp onPath]
    exact Nat.le_refl n
  · rcases List.mem_pair.mp onPath with rfl | rfl <;> simp only [Place.first] <;> omega
  · simp only [List.mem_cons, List.not_mem_nil, or_false] at onPath
    rcases onPath with rfl | rfl | rfl <;> simp only [Place.first, outer, inner] <;> omega

section Sizes

variable {d : DInode} (high : d.i_size.toInt ≤ MAX_FILE_SIZE)
include high

theorem blocks_le : d.blocks ≤ MAX_FILE_BLOCKS := by
  simp only [DInode.blocks, BLOCK_SIZE, MAX_FILE_BLOCKS, MAX_FILE_SIZE] at high ⊢
  omega

theorem e_block_nr_eq (low : 0 ≤ d.i_size.toInt) :
    wrap32 ((wrap64 (d.i_size.toInt + (BLOCK_SIZE - 1 : Nat))).tdiv BLOCK_SIZE) = d.blocks := by
  have bound := blocks_le high
  simp only [DInode.blocks, BLOCK_SIZE, MAX_FILE_BLOCKS, MAX_FILE_SIZE] at high bound ⊢
  have sum : wrap64 (d.i_size.toInt + (8192 - 1 : Nat)) = d.i_size.toInt + (8192 - 1 : Nat) :=
    Int64.toInt_ofInt_of_le (by omega) (by omega)
  rw [sum, Int.tdiv_eq_ediv_of_nonneg (by omega)]
  rw [wrap32, Int32.toInt_ofInt_of_le (by omega) (by omega)]
  omega

theorem Tight.first_lt {dev : Disk} (tight : Tight dev d) {k : Place} (taken : pointer dev d k ≠ 0) : k.first < d.blocks := by
  obtain ⟨n, less, onPath⟩ := tight k taken
  have := first_le (by have := blocks_le high; omega) onPath
  omega

end Sizes

/-- `testfs_free_blocks` gives back the inode's blocks, each of them once, and leaves the inode empty. -/
theorem testfs_free_blocks_spec {p : InodePtr} {ds : Nat → DInode} (holds : Holds p ds) (tight : Tight p.sb.dev p.dinode)
    (high : p.dinode.i_size.toInt ≤ MAX_FILE_SIZE) :
    ∃ (p' : InodePtr) (ks : List Place), p.testfs_free_blocks = .ok p' ∧ p'.dinode = { DInode.zero with i_type := p.dinode.i_type } ∧
      p'.inode.i_nr = p.inode.i_nr ∧ p'.inode.i_count = p.inode.i_count ∧ p'.inode.dirty = true ∧
      ks.Nodup ∧ (∀ k, k ∈ ks ↔ p.pointer k ≠ 0) ∧ Gave p.sb p'.sb (ks.map p.pointer) ∧
      p.dinode.block_count.toInt = ks.length := by
  generalize last : wrap32 ((wrap64 (p.dinode.i_size.toInt + (BLOCK_SIZE - 1 : Nat))).tdiv BLOCK_SIZE) = e
  have before : ∀ {k}, p.pointer k ≠ 0 → (k.first : Int) < e := by
    intro k taken
    have below := tight.first_lt high taken
    have low : 0 ≤ p.dinode.i_size.toInt := by
      simp only [DInode.blocks, BLOCK_SIZE] at below
      omega
    rw [e_block_nr_eq high low] at last
    omega
  obtain ⟨p1, ks1, run1, released1, members1, fields1⟩ := freeDirect_spec holds (e := e) fun i taken => by
    have := before taken
    simp only [Place.first] at this
    omega
  have onlyDirect : ∀ k ∈ ks1, ∃ i, Place.direct i = k := fun k member => ((members1 k).mp member).2
  obtain ⟨p2, ks2, run2, released2, members2, fields2⟩ := freeIndirect_spec holds (e := e - (10 : Nat)) released1
    (by rw [fields1]) (fun taken => by have := before taken; simp only [Place.first] at this; omega)
    (fun i taken => by have := before taken; simp only [Place.first] at this; omega) onlyDirect
  have single : ∀ k ∈ ks1 ++ ks2, (∃ i, Place.direct i = k) ∨ k = .indirect ∨ ∃ i, Place.indirectEntry i = k := by
    intro k member
    rcases List.mem_append.mp member with first | second
    · exact Or.inl (onlyDirect k first)
    · exact Or.inr ((members2 k).mp second).2
  obtain ⟨p3, ks3, run3, released3, members3, fields3⟩ := freeDouble_spec holds (e := e - (10 : Nat) - (2048 : Nat)) released2
    (by rw [fields2, fields1]) (fun taken => by have := before taken; simp only [Place.first] at this; omega)
    (fun i taken => by have := before taken; simp only [Place.first] at this; omega)
    (fun i j taken => by have := before taken; simp only [Place.first] at this; omega)
    (fun member => by simpa using single _ member) (fun i member => by simpa using single _ member)
    fun i j member => by simpa using single _ member
  have all : ∀ k, k ∈ ks1 ++ ks2 ++ ks3 ↔ p.pointer k ≠ 0 := by
    intro k
    rw [List.mem_append, List.mem_append, members1, members2, members3]
    constructor
    · rintro ((⟨real, -⟩ | ⟨real, -⟩) | ⟨real, -⟩) <;> exact real
    · intro real
      cases k with
      | direct i => exact Or.inl (Or.inl ⟨real, i, rfl⟩)
      | indirect => exact Or.inl (Or.inr ⟨real, Or.inl rfl⟩)
      | indirectEntry i => exact Or.inl (Or.inr ⟨real, Or.inr ⟨i, rfl⟩⟩)
      | dindirect => exact Or.inr ⟨real, Or.inl rfl⟩
      | dindirectEntry i => exact Or.inr ⟨real, Or.inr ⟨i, Or.inl rfl⟩⟩
      | leaf i j => exact Or.inr ⟨real, Or.inr ⟨i, Or.inr ⟨j, rfl⟩⟩⟩
  have counted := holds.length_eq released3.places all
  have none : p3.dinode.block_count = 0 := toInt_eq_zero.mp (by have := released3.counted; omega)
  refine ⟨(p3.setDInode { p3.dinode with i_size := 0 }).setDirty, ks1 ++ ks2 ++ ks3, ?_, ?_, released3.number,
    released3.references, rfl, released3.places, all, released3.gave, counted.symm⟩
  · simp only [InodePtr.testfs_free_blocks, last, run1, Result.ok_bind, NR_DIRECT_BLOCKS, NR_INDIRECT_BLOCKS]
    rw [run2, Result.ok_bind, run3]
    rfl
  · simp only [InodePtr.dinode, InodePtr.setDInode, InodePtr.setDirty] at fields1 fields2 fields3 none ⊢
    rw [fields3, fields2, fields1] at *
    simp only [DInode.zero] at none ⊢
    rw [none]

/-- The bit of each block of the inode is cleared, and no other bit is: the counter, which goes down
with every bit that is cleared, has lost `block_count`. -/
theorem testfs_free_blocks_clears {p : InodePtr} {ds : Nat → DInode} (holds : Holds p ds) (tight : Tight p.sb.dev p.dinode)
    (high : p.dinode.i_size.toInt ≤ MAX_FILE_SIZE) :
    ∃ p', p.testfs_free_blocks = .ok p' ∧ (∀ b, p'.sb.Marked b ↔ p.sb.Marked b ∧ ∀ k, p.pointer k ≠ b) ∧
      (∀ k, p'.pointer k = 0) ∧ p'.dinode.i_size = 0 ∧ p'.dinode.block_count = 0 ∧
      p'.sb.sb.used_block_count.toNat + p.dinode.block_count.toInt = p.sb.sb.used_block_count.toNat := by
  obtain ⟨p', ks, run, dinode, -, -, -, -, members, gave, counted⟩ := testfs_free_blocks_spec holds tight high
  have before := holds.accounts.within
  have after := gave.accounts.within
  have free := gave.free
  simp only [SuperBlock.free, gave.max_fs_blocks, List.length_map] at free after
  refine ⟨p', run, fun b => ?_, fun k => ?_, by rw [dinode]; rfl, by rw [dinode]; rfl, by omega⟩
  · rw [gave.marked]
    refine and_congr_right fun inUse => ?_
    rw [List.mem_map]
    constructor
    · intro outside k same
      have low := holds.range inUse
      exact outside ⟨k, (members k).mpr (by omega), same⟩
    · rintro other ⟨k, -, same⟩
      exact other k same
  · rw [InodePtr.pointer, dinode]
    exact (congrFun (pointer_fields rfl rfl rfl) k).trans (pointer_zero _ k)

theorem testfs_free_blocks_clears_double :
    ∃ p', (doubleOnly 16867328).testfs_free_blocks = .ok p' ∧
      (∀ b, p'.sb.Marked b ↔ (doubleOnly 16867328).sb.Marked b ∧ ∀ k, (doubleOnly 16867328).pointer k ≠ b) ∧
      (∀ k, p'.pointer k = 0) ∧ p'.dinode.i_size = 0 ∧ p'.dinode.block_count = 0 ∧
      p'.sb.sb.used_block_count.toNat + (doubleOnly 16867328).dinode.block_count.toInt =
        (doubleOnly 16867328).sb.sb.used_block_count.toNat := by
  refine testfs_free_blocks_clears (doubleOnly_holds 16867328) (fun k taken => ⟨2058, by decide, ?_⟩) (by decide)
  have value := doubleOnly_pointer 16867328 k
  change (doubleOnly 16867328).pointer k ≠ 0 at taken
  rw [value] at taken
  split_ifs at taken with double
  · rw [double]
    simp [path]
  · exact absurd rfl taken

end OperatingSystem.Fs
