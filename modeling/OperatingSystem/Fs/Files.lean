import OperatingSystem.Fs.Listing

/-!
# Files as arrays of bytes

The inodes as `dir.c` works on them when what an inode holds is an array of bytes: a read copies from
the array, a write copies to it, and there is room for every write.  What is not about arrays of bytes
faults here: the number of blocks, a read that the array does not answer, an access past a limit.
-/

namespace OperatingSystem.Fs

open Bytes InodeType

/-- What the direct blocks and the indirect block of an inode can hold. -/
abbrev NEAR_FILE_SIZE : Nat := 16859136

/-- Up to where the bytes of an inode are accessed. -/
structure Limit where
  bytes : Nat
  low : NEAR_FILE_SIZE ≤ bytes
  high : bytes ≤ MAX_FILE_SIZE

namespace Limit

def near : Limit := ⟨NEAR_FILE_SIZE, le_refl _, by decide⟩

def far : Limit := ⟨MAX_FILE_SIZE, by decide, le_refl _⟩

end Limit

structure Node where
  i_type : Int32
  i_size : Int
  content : Memory

namespace Node

def zero : Node := ⟨0, 0, Fs.zero⟩

def write (n : Node) (buf : List UInt8) (start : Nat) : Node :=
  { n with
    content := splice n.content start buf
    i_size := max n.i_size (start + buf.length : Nat) }

/-- The read lies within the file and the limit, and all its bytes are copied. -/
def Reads (n : Node) (l : Limit) (start : Int) (size : Nat) : Prop :=
  0 ≤ start ∧ start + size ≤ n.i_size ∧ size < 2 ^ 31 ∧ start + (max size 1 : Nat) ≤ l.bytes ∧ ¬ EndsWhole start size

instance (n : Node) (l : Limit) (start : Int) (size : Nat) : Decidable (n.Reads l start size) := inferInstanceAs (Decidable (_ ∧ _))

def read (n : Node) (l : Limit) (start : Int) (size : Nat) : Except Fault (Int × List UInt8) :=
  if n.Reads l start size then .ok (size, slice n.content start.toNat size) else .error .overrun

end Node

/-- `held` are the inodes in memory: how often each is held, and whether it is dirty. -/
structure Files where
  inode_freemap : Bitmap
  bits : inode_freemap.nbits = BLOCK_SIZE * INODE_FREEMAP_SIZE * BITS_PER_WORD
  node : Nat → Node
  held : Nat → Option (Nat × Bool)

namespace Files

variable (f : Files)

def Used (nr : Nat) : Prop := nr < NR_INODES ∧ f.inode_freemap.bitmap_isset nr = true

def IsDir (nr : Nat) : Prop := (f.node nr).i_type = I_DIR.code

instance (nr : Nat) : Decidable (f.Used nr) := inferInstanceAs (Decidable (_ ∧ _))
instance (nr : Nat) : Decidable (f.IsDir nr) := inferInstanceAs (Decidable (_ = _))

def setHeld (nr : Nat) (h : Option (Nat × Bool)) : Files := { f with held := Function.update f.held nr h }

def setNode (nr : Nat) (n : Node) : Files := { f with node := Function.update f.node nr n }

def setDirty (nr : Nat) (dirty : Bool) : Files := f.setHeld nr ((f.held nr).map fun h => (h.1, dirty))

def get (nr : Nat) : Files := f.setHeld nr (some (((f.held nr).map fun h => (h.1 + 1, h.2)).getD (1, false)))

def put (nr : Nat) : Files :=
  f.setHeld nr ((f.held nr).bind fun h => if h.1 = 1 then none else some (h.1 - 1, h.2))

def write (nr : Nat) (buf : List UInt8) (start : Nat) : Files :=
  (f.setNode nr ((f.node nr).write buf start)).setDirty nr true

def mark (nr : Nat) : Files := { f with inode_freemap := f.inode_freemap.orMask nr, bits := f.bits }

def unmark (nr : Nat) : Files := { f with inode_freemap := f.inode_freemap.andNotMask nr, bits := f.bits }

def create (nr : Nat) (type : InodeType) : Files :=
  (((f.mark nr).get nr).setNode nr { f.node nr with i_type := type.code }).setDirty nr true

def remove (nr : Nat) : Files := (((f.unmark nr).setNode nr Node.zero).setDirty nr false).put nr

def inode (nr : Nat) : Except Fault (Nat × Bool) :=
  match f.held nr with
  | some h => .ok h
  | none => .error .useAfterFree

def testfs_get_inode (nr : Nat) : Except Fault Files := do
  if f.held nr = none then assert (nr / INODES_PER_BLOCK < NR_INODE_BLOCKS)
  return f.get nr

def testfs_put_inode (nr : Nat) : Except Fault Files := do
  let (_, dirty) ← f.inode nr
  assert (dirty = false)
  return f.put nr

def testfs_create_inode (type : InodeType) : Except Fault ((Int × Nat) × Files) := do
  match ← f.inode_freemap.bitmap_alloc with
  | none => return ((-ENOSPC, 0), f)
  | some (nr, _) =>
      -- past the last inode block the bit is cleared again
      if NR_INODE_BLOCKS ≤ nr / INODES_PER_BLOCK then return ((-ENOSPC, 0), f)
      return ((0, nr), f.create nr type)

def testfs_remove_inode (nr : Nat) : Except Fault Files := do
  let _ ← f.inode nr
  let _ ← f.inode_freemap.bitmap_unmark nr
  return f.remove nr

def testfs_write_data (l : Limit) (nr : Nat) (buf : List UInt8) (start : Int) : Except Fault (Int × Files) := do
  let _ ← f.inode nr
  if start < 0 ∨ buf = [] ∨ l.bytes < start + buf.length then throw .overrun
  return (wrap32 buf.length, f.write nr buf start.toNat)

def testfs_read_data (l : Limit) (nr : Nat) (start : Int) (size : Nat) : Except Fault (Int × List UInt8) := do
  let _ ← f.inode nr
  (f.node nr).read l start size

def handle (l : Limit) : Prog.Handler InodeOp.Res Fault Files
  | .testfs_get_inode nr, f => f.testfs_get_inode nr >>= fun f => .ok ((), f)
  | .testfs_put_inode nr, f => f.testfs_put_inode nr >>= fun f => .ok ((), f)
  | .testfs_inode_get_type nr, f => f.inode nr >>= fun _ => .ok ((f.node nr).i_type, f)
  | .testfs_inode_get_size nr, f => f.inode nr >>= fun _ => .ok ((f.node nr).i_size, f)
  | .testfs_inode_get_block_count _, _ => .error .outOfTable
  | .testfs_read_data nr start size, f => f.testfs_read_data l nr start size >>= fun read => .ok (read, f)
  | .testfs_write_data nr buf start, f => f.testfs_write_data l nr buf start
  | .testfs_create_inode type, f => f.testfs_create_inode type
  | .testfs_remove_inode nr, f => f.testfs_remove_inode nr >>= fun f => .ok ((), f)
  | .testfs_sync_inode nr, f => f.inode nr >>= fun _ => .ok ((), f.setDirty nr false)

section Updates

variable {f : Files} {nr m : Nat} {buf : List UInt8} {start : Nat}

@[simp] theorem node_setHeld (h : Option (Nat × Bool)) : (f.setHeld nr h).node = f.node := rfl
@[simp] theorem node_setDirty (dirty : Bool) : (f.setDirty nr dirty).node = f.node := rfl
@[simp] theorem node_get : (f.get nr).node = f.node := rfl
@[simp] theorem node_put : (f.put nr).node = f.node := rfl
@[simp] theorem node_setNode (n : Node) : (f.setNode nr n).node = Function.update f.node nr n := rfl
@[simp] theorem node_write : (f.write nr buf start).node = Function.update f.node nr ((f.node nr).write buf start) := rfl
@[simp] theorem node_create (type : InodeType) :
    (f.create nr type).node = Function.update f.node nr { f.node nr with i_type := type.code } := rfl
@[simp] theorem node_remove : (f.remove nr).node = Function.update f.node nr Node.zero := rfl

@[simp] theorem freemap_setHeld (h : Option (Nat × Bool)) : (f.setHeld nr h).inode_freemap = f.inode_freemap := rfl
@[simp] theorem freemap_setDirty (dirty : Bool) : (f.setDirty nr dirty).inode_freemap = f.inode_freemap := rfl
@[simp] theorem freemap_get : (f.get nr).inode_freemap = f.inode_freemap := rfl
@[simp] theorem freemap_put : (f.put nr).inode_freemap = f.inode_freemap := rfl
@[simp] theorem freemap_write : (f.write nr buf start).inode_freemap = f.inode_freemap := rfl
@[simp] theorem freemap_create (type : InodeType) : (f.create nr type).inode_freemap = f.inode_freemap.orMask nr := rfl
@[simp] theorem freemap_remove : (f.remove nr).inode_freemap = f.inode_freemap.andNotMask nr := rfl

@[simp] theorem held_setHeld (h : Option (Nat × Bool)) : (f.setHeld nr h).held = Function.update f.held nr h := rfl
@[simp] theorem held_setNode (n : Node) : (f.setNode nr n).held = f.held := rfl
@[simp] theorem held_mark : (f.mark nr).held = f.held := rfl
@[simp] theorem held_unmark : (f.unmark nr).held = f.held := rfl

theorem setHeld_self : f.setHeld nr (f.held nr) = f := by
  rw [setHeld, Function.update_eq_self]

theorem setHeld_setHeld (h h' : Option (Nat × Bool)) : (f.setHeld nr h).setHeld nr h' = f.setHeld nr h' := by
  simp [setHeld]

theorem put_get (counted : ∀ h, f.held nr = some h → 0 < h.1) : (f.get nr).put nr = f := by
  have same : (f.get nr).held nr = some (((f.held nr).map fun h => (h.1 + 1, h.2)).getD (1, false)) := by
    simp [get]
  rw [put, same, get, setHeld_setHeld]
  cases held : f.held nr with
  | none => simpa [held] using @setHeld_self f nr
  | some h =>
      have several : h.1 ≠ 0 := ne_of_gt (counted h held)
      simpa [held, several] using @setHeld_self f nr

end Updates

section Calls

variable {l : Limit} {f : Files} {nr : Nat} {h : Nat × Bool} (held : f.held nr = some h)

theorem handle_get (low : nr < NR_INODES) : handle l (.testfs_get_inode nr) f = .ok ((), f.get nr) := by
  have inside : nr / INODES_PER_BLOCK < NR_INODE_BLOCKS := by
    simp only [NR_INODES, INODES_PER_BLOCK, NR_INODE_BLOCKS] at low ⊢
    omega
  simp only [handle, testfs_get_inode, assert, inside, if_true]
  split_ifs <;> rfl

include held

theorem inode_eq : f.inode nr = .ok h := by
  rw [inode, held]

theorem handle_put (clean : h.2 = false) : handle l (.testfs_put_inode nr) f = .ok ((), f.put nr) := by
  obtain ⟨count, dirty⟩ := h
  obtain rfl : dirty = false := clean
  simp only [handle, testfs_put_inode, inode_eq held, Result.ok_bind, assert, if_true]
  rfl

theorem handle_inode_type : handle l (.testfs_inode_get_type nr) f = .ok ((f.node nr).i_type, f) := by
  rw [handle, inode_eq held, Result.ok_bind]

theorem handle_inode_size : handle l (.testfs_inode_get_size nr) f = .ok ((f.node nr).i_size, f) := by
  rw [handle, inode_eq held, Result.ok_bind]

theorem handle_sync : handle l (.testfs_sync_inode nr) f = .ok ((), f.setDirty nr false) := by
  rw [handle, inode_eq held, Result.ok_bind]

theorem handle_read_data {start size : Nat} (within : (start + size : Nat) ≤ (f.node nr).i_size)
    (small : (f.node nr).i_size < NEAR_FILE_SIZE) (whole : ¬ EndsWhole start size) :
    handle l (.testfs_read_data nr start size) f = .ok (((size : Int), slice (f.node nr).content start size), f) := by
  have near := l.low
  simp only [NEAR_FILE_SIZE] at near small
  have reads : (f.node nr).Reads l start size := ⟨Int.natCast_nonneg start, by omega, by omega, by omega, whole⟩
  rw [handle, testfs_read_data, inode_eq held, Result.ok_bind, Node.read, if_pos reads]
  rfl

theorem handle_write_data {buf : List UInt8} {start : Nat} (some : buf ≠ []) (fits : start + buf.length ≤ NEAR_FILE_SIZE) :
    handle l (.testfs_write_data nr buf start) f = .ok ((buf.length : Int), f.write nr buf start) := by
  have near := l.low
  simp only [NEAR_FILE_SIZE] at near fits
  have inside : ¬ ((start : Int) < 0 ∨ buf = [] ∨ (l.bytes : Int) < start + buf.length) := by
    rintro (low | none | high)
    · omega
    · exact some none
    · omega
  simp only [handle, testfs_write_data, inode_eq held, Result.ok_bind, inside, if_false, Int.toNat_natCast,
    wrap32_eq (Int.natCast_nonneg buf.length) (by omega : (buf.length : Int) < 2 ^ 31)]
  rfl

theorem handle_remove (used : f.Used nr) : handle l (.testfs_remove_inode nr) f = .ok ((), f.remove nr) := by
  have bits := f.bits
  have low := used.1
  simp only [BLOCK_SIZE, INODE_FREEMAP_SIZE, BITS_PER_WORD, NR_INODES] at bits low
  have unmark := Bitmap.bitmap_unmark_eq_ok.mpr ⟨(by omega : nr < f.inode_freemap.nbits), used.2, rfl⟩
  simp only [handle, testfs_remove_inode, inode_eq held, Result.ok_bind, unmark]
  rfl

end Calls

theorem handle_create (l : Limit) (f : Files) (type : InodeType) :
    (handle l (.testfs_create_inode type) f = .ok ((-ENOSPC, 0), f) ∧ ∀ nr, nr < NR_INODES → f.Used nr) ∨
      ∃ nr, handle l (.testfs_create_inode type) f = .ok ((0, nr), f.create nr type) ∧
        nr < NR_INODES ∧ ¬ f.Used nr ∧ ∀ m, m < nr → f.Used m := by
  have bits := f.bits
  have whole : f.inode_freemap.Padded := Bitmap.padded_of_whole (by rw [bits]; rfl)
  simp only [BLOCK_SIZE, INODE_FREEMAP_SIZE, BITS_PER_WORD] at bits
  simp only [handle, testfs_create_inode]
  rcases Bitmap.bitmap_alloc_spec whole with ⟨k, inside, clear, least, found⟩ | ⟨full, found⟩
  · rw [found, Result.ok_bind]
    by_cases past : NR_INODE_BLOCKS ≤ k / INODES_PER_BLOCK
    · simp only [past, if_true]
      refine Or.inl ⟨rfl, fun nr low => ⟨low, least nr ?_⟩⟩
      simp only [NR_INODES, INODES_PER_BLOCK, NR_INODE_BLOCKS] at past low
      omega
    · simp only [past, if_false]
      have low : k < NR_INODES := by
        simp only [NR_INODES, INODES_PER_BLOCK, NR_INODE_BLOCKS] at past ⊢
        omega
      refine Or.inr ⟨k, rfl, low, fun used => ?_, fun m before => ⟨by omega, least m before⟩⟩
      rw [used.2] at clear
      cases clear
  · rw [found, Result.ok_bind]
    refine Or.inl ⟨rfl, fun nr low => ⟨low, full nr ?_⟩⟩
    simp only [NR_INODES] at low
    omega

end Files

end OperatingSystem.Fs
