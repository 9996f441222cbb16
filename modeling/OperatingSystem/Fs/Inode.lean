import Mathlib.Data.List.Pairwise
import OperatingSystem.Fs.Super

namespace OperatingSystem.Fs

open Bytes

abbrev NR_DIRECT_BLOCKS : Nat := 10
abbrev NR_INDIRECT_BLOCKS : Nat := 2048
abbrev DINODE_SIZE : Nat := 64
abbrev INODES_PER_BLOCK : Nat := 128

inductive InodeType
  | I_NONE | I_FILE | I_DIR
  deriving DecidableEq, Repr

open InodeType

def InodeType.code : InodeType → Int32
  | I_NONE => 0
  | I_FILE => 1
  | I_DIR => 2

@[ext] structure DInode where
  i_type : Int32
  i_block_nr : Fin NR_DIRECT_BLOCKS → Int32
  i_indirect : Int32
  i_dindirect : Int32
  block_count : Int32
  i_size : Int64

namespace DInode

def zero : DInode where
  i_type := 0
  i_block_nr := fun _ => 0
  i_indirect := 0
  i_dindirect := 0
  block_count := 0
  i_size := 0

def words (d : DInode) : List UInt32 :=
  [d.i_type, d.i_block_nr 0, d.i_block_nr 1, d.i_block_nr 2, d.i_block_nr 3, d.i_block_nr 4,
    d.i_block_nr 5, d.i_block_nr 6, d.i_block_nr 7, d.i_block_nr 8, d.i_block_nr 9,
    d.i_indirect, d.i_dindirect, d.block_count].map Int32.toUInt32

def bytes (d : DInode) : List UInt8 := wordBytes d.words ++ bytes64 d.i_size.toUInt64

def word (m : Memory) (off k : Nat) : Int32 := (load32 m (off + 4 * k)).toInt32

def ofMemory (m : Memory) (off : Nat) : DInode where
  i_type := word m off 0
  i_block_nr := fun i => word m off (1 + i)
  i_indirect := word m off 11
  i_dindirect := word m off 12
  block_count := word m off 13
  i_size := (load64 m (off + 56)).toInt64

@[simp] theorem length_bytes (d : DInode) : d.bytes.length = DINODE_SIZE := by
  simp [bytes, words, DINODE_SIZE]

theorem word_splice (m : Memory) (off k : Nat) (d : DInode) (h : k < 14) :
    word (splice m off d.bytes) off k = (d.words.get ⟨k, h⟩).toInt32 := by
  rw [word, bytes, load32_wordBytes m off d.words _ k h]
  rfl

theorem ofMemory_splice (m : Memory) (off : Nat) (d : DInode) : ofMemory (splice m off d.bytes) off = d := by
  have size := load64_wordBytes m off d.words d.i_size.toUInt64
  ext i
  · exact word_splice m off 0 d (by decide)
  · match i with
    | 0 => exact word_splice m off 1 d (by decide)
    | 1 => exact word_splice m off 2 d (by decide)
    | 2 => exact word_splice m off 3 d (by decide)
    | 3 => exact word_splice m off 4 d (by decide)
    | 4 => exact word_splice m off 5 d (by decide)
    | 5 => exact word_splice m off 6 d (by decide)
    | 6 => exact word_splice m off 7 d (by decide)
    | 7 => exact word_splice m off 8 d (by decide)
    | 8 => exact word_splice m off 9 d (by decide)
    | 9 => exact word_splice m off 10 d (by decide)
  · exact word_splice m off 11 d (by decide)
  · exact word_splice m off 12 d (by decide)
  · exact word_splice m off 13 d (by decide)
  · exact congrArg UInt64.toInt64 size

theorem ofMemory_congr {m m' : Memory} {off : Nat}
    (same : ∀ i, off ≤ i → i < off + DINODE_SIZE → m i = m' i) : ofMemory m off = ofMemory m' off := by
  have load (k : Nat) (h : k < 14) : word m off k = word m' off k := by
    rw [word, load32_congr fun i low high => same i (by omega) (by rw [DINODE_SIZE]; omega), word]
  have size : load64 m (off + 56) = load64 m' (off + 56) := by
    rw [load64, slice_congr fun i low high => same i (by omega) (by rw [DINODE_SIZE]; omega), load64]
  simp only [ofMemory, load 0 (by decide), load 11 (by decide), load 12 (by decide),
    load 13 (by decide), size]
  congr 1
  funext i
  exact load (1 + i) (by have : i.val < 10 := i.isLt; omega)

theorem ofMemory_zero (off : Nat) : ofMemory Fs.zero off = zero := by
  have load (k : Nat) : word Fs.zero off k = 0 := by
    rw [word, show Fs.zero = fun _ => 0 from rfl, load32_zero]
    rfl
  have size : load64 Fs.zero (off + 56) = 0 := by
    simp [load64, slice, Bytes.toNat, List.range_succ, Fs.zero]
  simp only [ofMemory, load, size]
  rfl

end DInode

/-- `struct inode`.  The pointer to the super block is kept by whoever holds the inode. -/
structure Inode where
  dinode : DInode
  dirty : Bool
  i_nr : Nat
  i_count : Nat

abbrev inode_hash_size : Nat := 256

def hash_int (val bits : Nat) : Nat := val * 0x9e370001 % 2 ^ 32 / 2 ^ (32 - bits)

def inode_hashfn (nr : Nat) : Fin inode_hash_size :=
  ⟨hash_int nr 8, by
    rw [hash_int, inode_hash_size]
    have := Nat.mod_lt (nr * 0x9e370001) (show 0 < 2 ^ 32 by decide)
    omega⟩

/-- `inode_hash_table`: the inodes in memory, each number at most once and in its own chain. -/
structure InodeTable where
  chain : Fin inode_hash_size → List Inode
  placed : ∀ h, ∀ i ∈ chain h, inode_hashfn i.i_nr = h
  distinct : ∀ h, (chain h).Pairwise fun i j => i.i_nr ≠ j.i_nr

namespace InodeTable

variable (t : InodeTable)

def empty : InodeTable where
  chain := fun _ => []
  placed := by simp
  distinct := by simp

def find (nr : Nat) : Option Inode := (t.chain (inode_hashfn nr)).find? (·.i_nr = nr)

theorem find_i_nr {t : InodeTable} {nr : Nat} {i : Inode} (found : t.find nr = some i) : i.i_nr = nr := by
  simpa using List.find?_some found

theorem find_eq_none {t : InodeTable} {nr : Nat} :
    t.find nr = none ↔ ∀ i ∈ t.chain (inode_hashfn nr), i.i_nr ≠ nr := by
  simp [find]

def insert (i : Inode) (absent : t.find i.i_nr = none) : InodeTable where
  chain := Function.update t.chain (inode_hashfn i.i_nr) (i :: t.chain (inode_hashfn i.i_nr))
  placed := by
    intro h j member
    by_cases here : h = inode_hashfn i.i_nr
    · subst here
      simp only [Function.update_self, List.mem_cons] at member
      rcases member with rfl | member
      · rfl
      · exact t.placed _ j member
    · rw [Function.update_of_ne here] at member
      exact t.placed h j member
  distinct := by
    intro h
    by_cases here : h = inode_hashfn i.i_nr
    · subst here
      rw [Function.update_self, List.pairwise_cons]
      exact ⟨fun j member => (find_eq_none.mp absent j member).symm, t.distinct _⟩
    · rw [Function.update_of_ne here]
      exact t.distinct h

/-- The fields of the inode with `i`'s number are overwritten in place. -/
def update (i : Inode) : InodeTable where
  chain := fun h => (t.chain h).map fun j => if j.i_nr = i.i_nr then i else j
  placed := by
    intro h j member
    obtain ⟨k, inside, rfl⟩ := List.mem_map.mp member
    have := t.placed h k inside
    split_ifs with same
    · rwa [← same]
    · exact this
  distinct := by
    intro h
    rw [List.pairwise_map]
    apply (t.distinct h).imp
    intro j k differ
    split_ifs <;> simp_all

def remove (nr : Nat) : InodeTable where
  chain := fun h => (t.chain h).filter (·.i_nr ≠ nr)
  placed := fun h i member => t.placed h i (List.mem_of_mem_filter member)
  distinct := fun h => (t.distinct h).filter _

variable {t : InodeTable}

theorem find_insert {i : Inode} {absent : t.find i.i_nr = none} (nr : Nat) :
    (t.insert i absent).find nr = if nr = i.i_nr then some i else t.find nr := by
  by_cases same : nr = i.i_nr
  · subst same
    simp [find, insert]
  · by_cases chain : inode_hashfn nr = inode_hashfn i.i_nr
    · have differ : ¬ i.i_nr = nr := fun h => same h.symm
      simp [find, insert, chain, differ, same]
    · simp [find, insert, Function.update_of_ne chain, same]

theorem find_update_map (i : Inode) (nr : Nat) :
    (t.update i).find nr = (t.find nr).map fun j => if j.i_nr = i.i_nr then i else j := by
  have keeps : ((fun j : Inode => decide (j.i_nr = nr)) ∘ fun j => if j.i_nr = i.i_nr then i else j) =
      fun j => decide (j.i_nr = nr) := by
    funext j
    by_cases h : j.i_nr = i.i_nr <;> simp [h]
  rw [find, update, List.find?_map, keeps]
  rfl

theorem find_update (i : Inode) (nr : Nat) :
    (t.update i).find nr = if nr = i.i_nr ∧ (t.find nr).isSome then some i else t.find nr := by
  rw [find_update_map]
  cases found : t.find nr with
  | none => simp
  | some j =>
      have number := find_i_nr found
      simp only [Option.map_some, Option.isSome_some, and_true, number]
      split_ifs <;> rfl

theorem find_remove (nr nr' : Nat) : (t.remove nr).find nr' = if nr' = nr then none else t.find nr' := by
  simp only [find, remove, List.find?_filter]
  by_cases same : nr' = nr
  · subst same
    simp
  · have keeps : (fun i : Inode => decide (decide (i.i_nr ≠ nr) = true ∧ decide (i.i_nr = nr') = true)) =
        fun i => decide (i.i_nr = nr') := by
      funext i
      by_cases h : i.i_nr = nr' <;> simp [h, same]
    simp only [same, if_false]
    rw [← keeps]

theorem find_of_mem {h : Fin inode_hash_size} {i : Inode} (member : i ∈ t.chain h) :
    t.find i.i_nr = some i := by
  obtain rfl := t.placed h i member
  have unique : ∀ j ∈ t.chain (inode_hashfn i.i_nr), j.i_nr = i.i_nr → j = i := by
    intro j inside number
    by_contra differ
    have symmetric : Std.Symm fun i j : Inode => i.i_nr ≠ j.i_nr := ⟨fun _ _ => Ne.symm⟩
    exact (t.distinct _).forall inside member differ number
  cases found : t.find i.i_nr with
  | none => exact absurd rfl (find_eq_none.mp found i member)
  | some j => rw [unique j (List.mem_of_find?_eq_some found) (find_i_nr found)]

end InodeTable

/-- A `struct inode *`: the inode and the super block its `sb` field points to. -/
structure InodePtr where
  sb : SuperBlock
  inode : Inode

namespace InodePtr

variable (p : InodePtr)

abbrev dinode : DInode := p.inode.dinode

def setDInode (d : DInode) : InodePtr := { p with inode.dinode := d }

def setDirty : InodePtr := { p with inode.dirty := true }

/-- The number is not negative here, so only the upper bound is left of the two asserts. -/
def testfs_inode_to_block_nr (i_nr : Nat) : Except Fault Nat := do
  assert (i_nr / INODES_PER_BLOCK < NR_INODE_BLOCKS)
  return i_nr / INODES_PER_BLOCK

def testfs_inode_to_block_offset (i_nr : Nat) : Nat := i_nr % INODES_PER_BLOCK * DINODE_SIZE

def testfs_sync_inode : Except Fault InodePtr := do
  if p.inode.dirty = false then return p
  let block_nr ← testfs_inode_to_block_nr p.inode.i_nr
  let start := p.sb.sb.inode_blocks_start.toNat + block_nr
  let block := splice (p.sb.dev start) (testfs_inode_to_block_offset p.inode.i_nr) p.dinode.bytes
  return { p with
    sb.dev := Function.update p.sb.dev start block
    inode.dirty := false }

def testfs_alloc_block_for_inode : Except Fault (Int × InodePtr) := do
  let (phy_block_nr, sb) ← p.sb.testfs_alloc_block
  let p := { p with sb }
  if 0 ≤ phy_block_nr then
    return (phy_block_nr, (p.setDInode { p.dinode with block_count := p.dinode.block_count + 1 }).setDirty)
  return (phy_block_nr, p)

def testfs_free_block_from_inode (phy_block_nr : Int) : Except Fault InodePtr := do
  if phy_block_nr = 0 then return p
  let sb ← p.sb.testfs_free_block phy_block_nr
  let p := { p with sb }
  return (p.setDInode { p.dinode with block_count := p.dinode.block_count - 1 }).setDirty

end InodePtr

end OperatingSystem.Fs
