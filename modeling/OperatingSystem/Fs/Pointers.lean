import OperatingSystem.Library.Ownership
import OperatingSystem.Fs.ReadWrite
import OperatingSystem.Fs.Accounting

namespace OperatingSystem.Fs

open Bytes Ownership

abbrev NR_INODES : Nat := 16384

inductive Place
  | direct (i : Fin 10)
  | indirect
  | dindirect
  | indirectEntry (i : Fin 2048)
  | dindirectEntry (i : Fin 2048)
  | leaf (i j : Fin 2048)
  deriving DecidableEq

namespace Place

def isTable : Place → Bool
  | indirect | dindirect | dindirectEntry _ => true
  | _ => false

def number : Place → Fin 4198412
  | direct i => ⟨i, by omega⟩
  | indirect => ⟨10, by omega⟩
  | dindirect => ⟨11, by omega⟩
  | indirectEntry i => ⟨12 + i, by omega⟩
  | dindirectEntry i => ⟨2060 + i, by omega⟩
  | leaf i j => ⟨4108 + 2048 * i + j, by omega⟩

theorem number_injective : Function.Injective number := by
  intro a b same
  cases a <;> cases b <;> simp only [number, Fin.mk.injEq] at same <;>
    first
    | rfl
    | omega
    | (simp [Fin.ext_iff]; omega)

instance : Finite Place := Finite.of_injective number number_injective

end Place

open Place

def child (dev : Disk) (table : Int) (i : Nat) : Int := if 0 < table then entry (dev table.toNat) i else 0

def pointer (dev : Disk) (d : DInode) : Place → Int
  | direct i => (d.i_block_nr i).toInt
  | indirect => d.i_indirect.toInt
  | dindirect => d.i_dindirect.toInt
  | indirectEntry i => child dev d.i_indirect.toInt i
  | dindirectEntry i => child dev d.i_dindirect.toInt i
  | leaf i j => child dev (child dev d.i_dindirect.toInt i) j

def outer (n : Nat) : Fin 2048 := ⟨(n - 2058) / 2048 % 2048, Nat.mod_lt _ (by decide)⟩
def inner (n : Nat) : Fin 2048 := ⟨(n - 2058) % 2048, Nat.mod_lt _ (by decide)⟩

/-- The places passed on the way to logical block `n`, the block's own place last. -/
def path (n : Nat) : List Place :=
  if direct : n < 10 then [.direct ⟨n, direct⟩]
  else if single : n - 10 < 2048 then [.indirect, .indirectEntry ⟨n - 10, single⟩]
  else [.dindirect, .dindirectEntry (outer n), .leaf (outer n) (inner n)]

def target (n : Nat) : Place :=
  if direct : n < 10 then .direct ⟨n, direct⟩
  else if single : n - 10 < 2048 then .indirectEntry ⟨n - 10, single⟩
  else .leaf (outer n) (inner n)

section Paths

variable {n m : Nat}

theorem mem_path_dindirect : Place.dindirect ∈ path n ↔ 2058 ≤ n := by
  rw [path]
  split_ifs <;> simp <;> omega

theorem mem_path_indirect : Place.indirect ∈ path n ↔ 10 ≤ n ∧ n < 2058 := by
  rw [path]
  split_ifs <;> simp <;> omega

theorem target_mem_path (n : Nat) : target n ∈ path n := by
  unfold target path
  split_ifs <;> simp

theorem target_not_table (n : Nat) : (target n).isTable = false := by
  unfold target
  split_ifs <;> rfl

theorem eq_target_of_mem_path {k : Place} (onPath : k ∈ path n) (data : k.isTable = false) : k = target n := by
  unfold path at onPath
  unfold target
  split_ifs at onPath ⊢ with direct single
  · exact List.mem_singleton.mp onPath
  · rcases List.mem_pair.mp onPath with rfl | rfl
    · simp [isTable] at data
    · rfl
  · simp only [List.mem_cons, List.not_mem_nil, or_false] at onPath
    rcases onPath with rfl | rfl | rfl
    · simp [isTable] at data
    · simp [isTable] at data
    · rfl

theorem target_injective (hn : n < MAX_FILE_BLOCKS) (hm : m < MAX_FILE_BLOCKS) (same : target n = target m) :
    n = m := by
  simp only [MAX_FILE_BLOCKS] at hn hm
  unfold target at same
  split_ifs at same
  · simpa using same
  · simp only [Place.indirectEntry.injEq, Fin.mk.injEq] at same
    omega
  · simp only [Place.leaf.injEq, outer, inner, Fin.mk.injEq] at same
    omega

theorem path_nodup (n : Nat) : (path n).Nodup := by
  unfold path
  split_ifs <;> simp

end Paths

section Tables

variable {dev dev' : Disk} {d : DInode}

theorem child_congr {table : Int} (same : 0 < table → dev' table.toNat = dev table.toNat) (i : Nat) :
    child dev' table i = child dev table i := by
  unfold child
  split_ifs with real
  · rw [same real]
  · rfl

theorem pointer_congr (same : ∀ k, k.isTable = true → 0 < pointer dev d k →
    dev' (pointer dev d k).toNat = dev (pointer dev d k).toNat) : pointer dev' d = pointer dev d := by
  have table : ∀ i, child dev' d.i_dindirect.toInt i = child dev d.i_dindirect.toInt i :=
    child_congr fun real => same .dindirect rfl real
  funext k
  cases k with
  | direct i => rfl
  | indirect => rfl
  | dindirect => rfl
  | indirectEntry i => exact child_congr (fun real => same .indirect rfl real) i
  | dindirectEntry i => exact table i
  | leaf i j =>
      simp only [pointer, table]
      exact child_congr (fun real => same (.dindirectEntry i) rfl real) j

theorem entry_zero (i : Nat) : entry zero i = 0 := by
  have : load32 zero (4 * i) = 0 := load32_zero (4 * i)
  rw [entry, this]
  rfl

theorem toInt_ofInt {v : Int} (low : 0 ≤ v) (high : v < 2 ^ 31) : (Int32.ofInt v).toInt = v :=
  Int32.toInt_ofInt_of_le (by omega) (by omega)

theorem entry_setEntry {block : Memory} {v : Int} (low : 0 ≤ v) (high : v < 2 ^ 31) (i j : Nat) :
    entry (setEntry block i v) j = if j = i then v else entry block j := by
  unfold entry setEntry
  split_ifs with same
  · subst same
    rw [load32_store32]
    exact toInt_ofInt low high
  · rw [load32_store32_other (by omega)]

theorem toInt_eq_zero {x : Int32} : x.toInt = 0 ↔ x = 0 := by
  rw [← Int32.toInt_inj]
  rfl

theorem read_block_eq {start : Int} (real : 0 < start) : read_block dev start = .ok (dev start.toNat) := by
  rw [read_block, if_neg (by omega)]

theorem lookupEntry_eq_ok {block : Memory} {i : Nat} {v : Int} :
    lookupEntry block i = .ok v ↔ i < 2048 ∧ v = entry block i := by
  unfold lookupEntry
  split_ifs with inside
  · simp [inside, eq_comm]
  · simp [inside]

/-- What the lookup finds, when it finds something, is the pointer at the block's place. -/
theorem lookup_eq {p : InodePtr} {n : Nat} {v : Int} (nonneg : ∀ k, 0 ≤ pointer p.sb.dev p.dinode k)
    (run : p.lookup n = .ok v) (small : n < MAX_FILE_BLOCKS) : v = pointer p.sb.dev p.dinode (target n) := by
  simp only [MAX_FILE_BLOCKS] at small
  simp only [InodePtr.lookup, NR_DIRECT_BLOCKS, NR_INDIRECT_BLOCKS] at run
  unfold target
  by_cases direct : n < 10
  · rw [dif_pos direct] at run ⊢
    exact (Except.ok.inj run).symm
  rw [dif_neg direct] at run ⊢
  by_cases single : n - 10 < 2048
  · rw [if_neg (by omega)] at run
    rw [dif_pos single]
    simp only [pointer, child]
    by_cases present : 0 < p.dinode.i_indirect.toInt
    · rw [if_pos present, read_block_eq present, Result.ok_bind, lookupEntry_eq_ok] at run
      rw [if_pos present]
      exact run.2
    · rw [if_neg present] at run ⊢
      exact (Except.ok.inj run).symm
  rw [dif_neg single]
  simp only [pointer, child]
  by_cases present : 0 < p.dinode.i_dindirect.toInt
  · have index : (n - 10 - 2048) / 2048 = outer n := by
      simp only [outer]
      omega
    have last : (n - 10 - 2048) % 2048 = inner n := by
      simp only [inner]
      omega
    have entryNonneg := nonneg (.dindirectEntry (outer n))
    simp only [pointer, child, if_pos present] at entryNonneg
    rw [if_pos ⟨by omega, present⟩, read_block_eq present, Result.ok_bind, index, last] at run
    obtain ⟨phy, found, rest⟩ := Result.bind_eq_ok.mp run
    obtain ⟨-, rfl⟩ := lookupEntry_eq_ok.mp found
    simp only [if_pos present]
    by_cases real : 0 < entry (p.sb.dev p.dinode.i_dindirect.toInt.toNat) (outer n)
    · rw [if_pos real, read_block_eq real, Result.ok_bind, lookupEntry_eq_ok] at rest
      rw [if_pos real]
      exact rest.2
    · rw [if_neg real] at rest ⊢
      have := Except.ok.inj rest
      omega
  · rw [if_neg (fun both => present both.2)] at run
    simp only [if_neg present, lt_irrefl, if_false]
    by_cases single : 0 < p.dinode.i_indirect.toInt
    · rw [if_pos single, read_block_eq single, Result.ok_bind, lookupEntry_eq_ok] at run
      omega
    · rw [if_neg single] at run
      exact (Except.ok.inj run).symm

end Tables

end OperatingSystem.Fs
