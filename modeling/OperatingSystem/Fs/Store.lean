import OperatingSystem.Fs.Allocate

namespace OperatingSystem.Fs

open Bytes Ownership

/-- The bytes of logical block `n`, zeros when it is not on the disk. -/
def content (dev : Disk) (d : DInode) (n : Nat) : Memory :=
  if 0 < pointer dev d (target n) then dev (pointer dev d (target n)).toNat else zero

abbrev InodePtr.content (p : InodePtr) : Nat → Memory := Fs.content p.sb.dev p.dinode

section DataBlocks

variable {p p' : InodePtr} {ds : Nat → DInode} (holds : Holds p ds)
include holds

theorem data_ne {k t : Place} (taken : p.pointer k ≠ 0) (differ : k ≠ t) :
    (p.pointer t).toNat ≠ (p.pointer k).toNat := by
  have low := holds.positive taken
  have nonneg := holds.nonneg t
  intro same
  exact differ (holds.injective taken (by omega))

section Writing

variable {k : Place} (data : k.isTable = false) (taken : p.pointer k ≠ 0) (m : Memory)
  (shape : p' = { p with sb.dev := Function.update p.sb.dev (p.pointer k).toNat m })
include data taken shape

theorem pointer_write : p'.pointer = p.pointer := by
  subst shape
  apply pointer_congr
  intro t table _
  simp only
  rw [Function.update_of_ne]
  apply data_ne holds taken
  rintro rfl
  simp [data] at table

theorem extends_write : Extends p p' where
  number := by rw [shape]
  references := by rw [shape]
  type := by rw [shape]
  inode_freemap := by rw [shape]
  keeps t _ := by rw [pointer_write holds data taken m shape]
  marked b inUse := by rw [shape]; exact inUse
  fresh t now before := by
    rw [pointer_write holds data taken m shape] at now
    exact absurd before now
  others b high side := by
    have low := holds.positive taken
    subst shape
    simp only
    rw [Function.update_of_ne]
    rintro rfl
    rcases side with below | ⟨-, other⟩
    · omega
    · exact other k (by rw [Int.toNat_of_nonneg (by omega)])

theorem holds_write : Holds p' ds := by
  have same := pointer_write holds data taken m shape
  have low := holds.positive taken
  apply (extends_write holds data taken m shape).holds holds
  · subst shape
    exact holds.accounts.congr p.sb.allocFailed fun b below => Function.update_of_ne (by omega) _ _
  · rw [same, ← holds.pointers_self, Function.update_eq_self]
    exact holds.owned.exact.congr fun b => by rw [shape]; rfl
  · rw [same, ← holds.block_count, shape]

end Writing

theorem content_kept {m : Nat} (same : p'.pointer (target m) = p.pointer (target m))
    (kept : ∀ b : Nat, 18 ≤ b → b < 146 ∨ (p.sb.Marked b ∧ ∀ k, k.isTable = true → p.pointer k ≠ b) →
      p'.sb.dev b = p.sb.dev b) : p'.content m = p.content m := by
  have data := target_not_table m
  unfold InodePtr.content content
  change (if 0 < p'.pointer (target m) then p'.sb.dev (p'.pointer (target m)).toNat else zero) =
    if 0 < p.pointer (target m) then p.sb.dev (p.pointer (target m)).toNat else zero
  rw [same]
  split_ifs with real
  · have taken : p.pointer (target m) ≠ 0 := ne_of_gt real
    have low := holds.positive taken
    apply kept _ (by omega)
    rw [Int.toNat_of_nonneg (by omega)]
    refine Or.inr ⟨holds.marked taken, fun t table sameBlock => ?_⟩
    have := holds.injective (k := target m) taken sameBlock.symm
    rw [← this, data] at table
    cases table
  · rfl

theorem content_grown {n : Nat} {new : List (Place × Int)} (grown : Grown p p' new)
    (places : ∀ kb ∈ new, kb.1 ∈ path n) {m : Nat} (hm : m < MAX_FILE_BLOCKS) (hn : n < MAX_FILE_BLOCKS)
    (differ : m ≠ n) : p'.content m = p.content m := by
  apply content_kept holds _ grown.kept
  rw [grown.pointers]
  apply attachAll_other
  intro member
  obtain ⟨kb, inside, here⟩ := List.mem_map.mp member
  have onPath := places kb inside
  rw [here] at onPath
  exact differ (target_injective hm hn (eq_target_of_mem_path onPath (target_not_table m)))

theorem content_stranded (stranded : Stranded p p') (m : Nat) : p'.content m = p.content m := by
  obtain ⟨i, b, -, -, -, pointers⟩ := stranded.stale
  apply content_kept holds _ stranded.kept
  rw [pointers]
  apply attachAll_other
  intro member
  have data := target_not_table m
  rw [List.mem_singleton.mp member] at data
  cases data

theorem content_unchanged (unchanged : Unchanged p p') (m : Nat) : p'.content m = p.content m :=
  content_kept holds (by rw [unchanged.pointer_eq holds]) fun b high side =>
    unchanged.borrowed.kept b high (side.imp_right And.left)

end DataBlocks

/-- Block `n` is there now, and the other blocks are as they were. -/
structure Mapped (p p' : InodePtr) (ds : Nat → DInode) (n : Nat) : Prop where
  small : n < MAX_FILE_BLOCKS
  holds : Holds p' ds
  extending : Extends p p'
  size : p'.dinode.i_size = p.dinode.i_size
  present : ∀ k ∈ path n, p'.pointer k ≠ 0
  only : ∀ k, p'.pointer k ≠ 0 → p.pointer k ≠ 0 ∨ k ∈ path n
  free : p'.sb.free + (p.missing n).length = p.sb.free
  allocFailed : p'.sb.allocFailed = p.sb.allocFailed
  dirty : p.missing n = [] → p'.inode.dirty = p.inode.dirty
  contents : ∀ m, m < MAX_FILE_BLOCKS → m ≠ n → p'.content m = p.content m

structure Stored (p p' : InodePtr) (ds : Nat → DInode) (n ix : Nat) (data : List UInt8) : Prop
    extends Mapped p p' ds n where
  content : p'.content n = splice (p.content n) ix data

def Fails (p p' : InodePtr) (n : Int) (ret : Int) : Prop :=
  (MAX_FILE_BLOCKS ≤ n ∧ ret = -EFBIG ∧ p' = p) ∨
  (0 ≤ n ∧ n < MAX_FILE_BLOCKS ∧ p.sb.free < (p.missing n.toNat).length ∧ ret = -ENOSPC ∧
    p'.sb.allocFailed = true ∧
    ((p.Strands n.toNat ∧ Stranded p p') ∨ (¬ p.Strands n.toNat ∧ Unchanged p p')))

section Presence

variable {p : InodePtr} {n : Nat}

theorem missing_eq_nil : p.missing n = [] ↔ ∀ k ∈ path n, p.pointer k ≠ 0 := by
  simp [InodePtr.missing, List.filter_eq_nil_iff]

theorem path_present (taken : p.pointer (target n) ≠ 0) : ∀ k ∈ path n, p.pointer k ≠ 0 := by
  have real : ∀ {table : Int} {i : Nat}, child p.sb.dev table i ≠ 0 → table ≠ 0 := by
    rintro table i nonzero rfl
    exact nonzero (child_zero i)
  unfold target at taken
  unfold path
  split_ifs at taken ⊢ with direct single
  · simpa using taken
  · simpa using ⟨real taken, taken⟩
  · simpa using ⟨real (real taken), real taken, taken⟩

end Presence

section Step

variable {p p' : InodePtr} {ds : Nat → DInode} (holds : Holds p ds) {n ret : Int} {ix : Nat} {data : List UInt8}
include holds

theorem mapped_refl {n : Nat} (small : n < MAX_FILE_BLOCKS) (taken : p.pointer (target n) ≠ 0) :
    Mapped p p ds n where
  small := small
  holds := holds
  extending := Extends.refl p
  size := rfl
  present := path_present taken
  only _ := Or.inl
  free := by simp [missing_eq_nil.mpr (path_present taken)]
  allocFailed := rfl
  dirty _ := rfl
  contents _ _ _ := rfl

theorem mapped_grown {n : Nat} (small : n < MAX_FILE_BLOCKS) (empty : p.pointer (target n) = 0) {new : List (Place × Int)}
    (grown : Grown p p' new) (places : new.map Prod.fst = p.missing n) (real : 0 < p'.pointer (target n)) :
    Mapped p p' ds n where
  small := small
  holds := grown.preserves holds
  extending := grown.extends
  size := grown.same.size
  present := path_present (ne_of_gt real)
  only k taken := by
    by_cases before : p.pointer k = 0
    · refine Or.inr ?_
      have member : k ∈ new.map Prod.fst := by
        by_contra other
        rw [grown.pointers, attachAll_other other] at taken
        exact taken before
      rw [places] at member
      exact List.mem_of_mem_filter member
    · exact Or.inl before
  free := by
    have := grown.took.free
    rwa [List.length_map, ← List.length_map (f := Prod.fst), places] at this
  allocFailed := grown.allocFailed
  dirty none := by
    have missing : target n ∈ p.missing n := List.mem_filter.mpr ⟨target_mem_path n, by simpa using empty⟩
    simp [none] at missing
  contents m hm differ := by
    apply content_grown holds grown _ hm small differ
    intro kb member
    have inside : kb.1 ∈ new.map Prod.fst := List.mem_map_of_mem member
    rw [places] at inside
    exact List.mem_of_mem_filter inside

omit holds in
theorem Mapped.store {p1 : InodePtr} {n : Nat} (mapped : Mapped p p1 ds n)
    (shape : p' = { p1 with
      sb.dev := Function.update p1.sb.dev (p1.pointer (target n)).toNat (splice (p.content n) ix data) }) :
    Stored p p' ds n ix data := by
  have isData := target_not_table n
  have taken := mapped.present _ (target_mem_path n)
  have same := pointer_write mapped.holds isData taken _ shape
  have positive := mapped.holds.positive taken
  have value : ∀ m, p'.content m =
      if 0 < p1.pointer (target m) then p'.sb.dev (p1.pointer (target m)).toNat else zero := by
    intro m
    rw [← same]
    rfl
  refine ⟨⟨mapped.small, holds_write mapped.holds isData taken _ shape,
    mapped.extending.trans (extends_write mapped.holds isData taken _ shape), ?_, ?_, ?_, ?_, ?_, ?_, ?_⟩, ?_⟩
  · rw [← mapped.size, shape]
  · rw [same]
    exact mapped.present
  · rw [same]
    exact mapped.only
  · rw [← mapped.free, shape]
    rfl
  · rw [← mapped.allocFailed, shape]
  · intro none
    rw [← mapped.dirty none, shape]
  · intro m hm differ
    rw [← mapped.contents m hm differ, value]
    change _ = if 0 < p1.pointer (target m) then p1.sb.dev (p1.pointer (target m)).toNat else zero
    split_ifs with real
    · have apart : (p1.pointer (target m)).toNat ≠ (p1.pointer (target n)).toNat :=
        data_ne mapped.holds taken fun here => differ (target_injective hm mapped.small here.symm)
      subst shape
      simp only
      rw [Function.update_of_ne apart]
    · rfl
  · rw [value, if_pos (by omega)]
    subst shape
    exact Function.update_self _ _ _

theorem storeBlock_spec (run : p.storeBlock n ix data = .ok (ret, p')) :
    (ret < 0 ∧ Fails p p' n ret) ∨ (0 ≤ n ∧ 0 < ret ∧ Stored p p' ds n.toNat ix data) := by
  obtain ⟨⟨ret', p1, block⟩, allocated, rest⟩ := Result.bind_eq_ok.mp run
  simp only at rest
  rcases testfs_allocate_block_spec holds allocated with
    ⟨beyond, rfl, rfl⟩ | ⟨low, small, taken, rfl, rfl, rfl⟩ | ⟨low, small, empty, rfl, allocates⟩
  · rw [if_pos (by decide)] at rest
    obtain ⟨rfl, rfl⟩ := Prod.mk.inj (Except.ok.inj rest)
    exact Or.inl ⟨by decide, Or.inl ⟨beyond, rfl, rfl⟩⟩
  · have positive := holds.positive taken
    rw [if_neg (by omega), write_block_eq (by omega), Result.ok_bind] at rest
    obtain ⟨rfl, shape⟩ := Prod.mk.inj (Except.ok.inj rest)
    have before : p1.content n.toNat = p1.sb.dev (p1.pointer (target n.toNat)).toNat := if_pos (by
      change 0 < p1.pointer (target n.toNat)
      omega)
    refine Or.inr ⟨low, by omega, (mapped_refl holds (by omega) taken).store ?_⟩
    rw [before]
    exact shape.symm
  · rcases allocates with ⟨new, places, grown, rfl, real⟩ | ⟨full, rfl, failed, outcome⟩
    · rw [if_neg (by omega), write_block_eq (by omega), Result.ok_bind] at rest
      obtain ⟨rfl, shape⟩ := Prod.mk.inj (Except.ok.inj rest)
      have before : p.content n.toNat = zero := if_neg (by
        change ¬ 0 < p.pointer (target n.toNat)
        omega)
      refine Or.inr ⟨low, by omega, (mapped_grown holds (by omega) empty grown places real).store ?_⟩
      rw [before]
      exact shape.symm
    · rw [if_pos (by decide)] at rest
      obtain ⟨rfl, rfl⟩ := Prod.mk.inj (Except.ok.inj rest)
      exact Or.inl ⟨by decide, Or.inr ⟨low, small, full, rfl, failed, outcome⟩⟩

end Step

end OperatingSystem.Fs
