import OperatingSystem.Fs.Consistent
import OperatingSystem.Fs.Dir

namespace OperatingSystem.Fs

open Result

def SuperBlock.Failed (s : SuperBlock) : Prop := s.allocFailed = true

abbrev InodePtr.Failed (p : InodePtr) : Prop := p.sb.Failed

namespace SuperBlock

variable {s : SuperBlock} (failed : s.Failed)
include failed

theorem get_block_freemap_failed : Ends (fun r => r.2.Failed) s.testfs_get_block_freemap := by
  refine Ends.skip fun found => ?_
  cases found with
  | none => exact Ends.ok failed
  | some taken => exact Ends.ok failed

theorem alloc_block_failed : Ends (fun r => r.2.Failed) s.testfs_alloc_block :=
  Ends.ite (Ends.ok rfl) ((get_block_freemap_failed failed).bind fun _ there => Ends.ite (Ends.ok rfl) (Ends.ok there))

theorem free_block_failed (b : Int) : Ends Failed (s.testfs_free_block b) := by
  refine Ends.skip fun dev => Ends.skip fun _ => Ends.bind (P := Failed) (Ends.skip fun freemap => Ends.ok failed) fun s there => ?_
  exact Ends.skip fun _ => Ends.ok there

end SuperBlock

namespace InodePtr

variable {p : InodePtr} (failed : p.Failed)
include failed

theorem alloc_block_for_inode_failed : Ends (fun r => r.2.Failed) p.testfs_alloc_block_for_inode :=
  (p.sb.alloc_block_failed failed).bind fun _ there => Ends.ite (Ends.ok there) (Ends.ok there)

theorem free_block_from_inode_failed (b : Int) : Ends Failed (p.testfs_free_block_from_inode b) :=
  Ends.ite (Ends.ok failed) ((p.sb.free_block_failed failed b).bind fun _ there => Ends.ok there)

section Allocation

theorem allocateDirect_failed (n : Fin NR_DIRECT_BLOCKS) : Ends (fun r => r.2.Failed) (p.allocateDirect n) :=
  Ends.skip fun _ => (alloc_block_for_inode_failed failed).bind fun _ there => Ends.ite (Ends.ok there) (Ends.ok there)

theorem allocateEntry_failed (allocated : Bool) (indirect : Bytes.Memory) (n : Nat) :
    Ends (fun r => r.2.Failed) (p.allocateEntry allocated indirect n) := by
  refine Ends.skip fun _ => (alloc_block_for_inode_failed failed).bind fun r there => ?_
  refine Ends.ite (Ends.skip fun dev => Ends.ok there) (Ends.ite ?_ (Ends.ok there))
  exact (free_block_from_inode_failed there _).bind fun _ last => Ends.ok last

theorem allocateIndirect_failed (n : Nat) : Ends (fun r => r.2.Failed) (p.allocateIndirect n) := by
  refine Ends.ite ((alloc_block_for_inode_failed failed).bind fun r there => ?_)
    (Ends.skip fun _ => allocateEntry_failed failed _ _ n)
  exact Ends.ite (Ends.ok there) (by apply allocateEntry_failed; exact there)

theorem allocateLeaf_failed (double single : Bool) (dindirect indirect : Bytes.Memory) (n : Nat) :
    Ends (fun r => r.2.Failed) (p.allocateLeaf double single dindirect indirect n) := by
  refine (alloc_block_for_inode_failed failed).bind fun r there => ?_
  refine Ends.ite (Ends.skip fun _ => Ends.skip fun _ => Ends.ok there) ?_
  refine Ends.ite ((free_block_from_inode_failed there _).bind fun _ last => Ends.ok last) ?_
  refine Ends.ite ((free_block_from_inode_failed there _).bind fun _ more => ?_) (Ends.ok there)
  exact (free_block_from_inode_failed more _).bind fun _ last => Ends.ok last

theorem allocateInTable_failed (double : Bool) (dindirect : Bytes.Memory) (n : Nat) :
    Ends (fun r => r.2.Failed) (p.allocateInTable double dindirect n) := by
  refine Ends.ite ((alloc_block_for_inode_failed failed).bind fun r there => ?_)
    (Ends.skip fun _ => allocateLeaf_failed failed _ _ _ _ n)
  refine Ends.ite (Ends.skip fun _ => Ends.skip fun _ => by apply allocateLeaf_failed; exact there) (Ends.ite ?_ (Ends.ok there))
  exact (free_block_from_inode_failed there _).bind fun _ last => Ends.ok last

theorem allocateDouble_failed (n : Nat) : Ends (fun r => r.2.Failed) (p.allocateDouble n) := by
  refine Ends.ite ((alloc_block_for_inode_failed failed).bind fun r there => ?_)
    (Ends.skip fun _ => allocateInTable_failed failed _ _ n)
  exact Ends.ite (Ends.ok there) (by apply allocateInTable_failed; exact there)

theorem allocateMissing_failed (n : Nat) : Ends (fun r => r.2.Failed) (p.allocateMissing n) := by
  unfold allocateMissing
  split_ifs
  · exact allocateDirect_failed failed _
  · exact allocateDouble_failed failed _
  · exact allocateIndirect_failed failed _

theorem allocate_block_failed (n : Int) : Ends (fun r => r.2.1.Failed) (p.testfs_allocate_block n) :=
  Ends.skip fun _ => Ends.ite (Ends.ok failed) (Ends.ite (Ends.ok failed)
    ((allocateMissing_failed failed _).bind fun _ there => Ends.ok there))

end Allocation

section Writing

theorem storeBlock_failed (n : Int) (ix : Nat) (data : List UInt8) : Ends (fun r => r.2.Failed) (p.storeBlock n ix data) :=
  (allocate_block_failed failed n).bind fun _ there => Ends.ite (Ends.ok there) (Ends.skip fun _ => Ends.ok there)

omit failed in
theorem writeWhole_failed (b : Int) (whole i : Nat) (buf : List UInt8) (failed : p.Failed) :
    Ends (fun r => r.2.Failed) (writeWhole b whole i p buf) := by
  induction whole generalizing p i buf with
  | zero => exact Ends.ok failed
  | succ whole ih =>
      exact (storeBlock_failed failed _ _ _).bind fun r there => Ends.ite (Ends.ok there) (ih _ _ there)

theorem writeOut_failed (start : Int) (size : Nat) (check : Bool) : (p.writeOut start size check).2.Failed := by
  unfold writeOut
  split_ifs <;> exact failed

theorem write_data_failed (buf : List UInt8) (start : Int) : Ends (fun r => r.2.Failed) (p.testfs_write_data buf start) := by
  refine Ends.ite (Ends.error) (Ends.ite ?_ ?_)
  · refine (storeBlock_failed failed _ _ _).bind fun r there => Ends.ite (Ends.ok there) ?_
    refine (writeWhole_failed _ _ _ _ there).bind fun r there => Ends.ite (Ends.ok there) ?_
    refine (storeBlock_failed there _ _ _).bind fun r there => Ends.ite (Ends.ok there) ?_
    exact Ends.ite Ends.error (Ends.ok (writeOut_failed there _ _ _))
  · refine (storeBlock_failed failed _ _ _).bind fun r there => Ends.ite (Ends.ok there) ?_
    exact Ends.ok (writeOut_failed there _ _ _)

end Writing

section Release

theorem freeEntries_failed (taken : Int → Bool) (block : Bytes.Memory) (n : Nat) : Ends Failed (p.freeEntries taken block n) :=
  Ends.foldlM (fun _ _ here => Ends.ite (free_block_from_inode_failed here _) (Ends.ok here)) failed

theorem freeDirect_failed (e : Int) : Ends Failed (p.freeDirect e) :=
  Ends.foldlM (fun _ _ here => Ends.ite ((free_block_from_inode_failed here _).bind fun _ there => Ends.ok there) (Ends.ok here))
    failed

theorem freeIndirect_failed (e : Int) : Ends Failed (p.freeIndirect e) := by
  refine Ends.ite (Ends.skip fun _ => Ends.skip fun block => ?_) (Ends.ok failed)
  refine (freeEntries_failed failed _ block _).bind fun q there => ?_
  exact (free_block_from_inode_failed there _).bind fun _ last => Ends.ok last

omit failed in
theorem freeTable_failed (e : Int) (blockinD : Bytes.Memory) (kp : Nat × InodePtr) (i : Nat) (failed : kp.2.Failed) :
    Ends (fun r => r.2.Failed) (freeTable e blockinD kp i) := by
  refine Ends.ite (Ends.skip fun blockin => ?_) (Ends.ok failed)
  refine (freeEntries_failed failed _ blockin _).bind fun q there => ?_
  exact (free_block_from_inode_failed there _).bind fun _ last => Ends.ok last

theorem freeDouble_failed (e : Int) : Ends Failed (p.freeDouble e) := by
  refine Ends.ite (Ends.skip fun blockinD => ?_) (Ends.ok failed)
  refine Ends.bind (Ends.foldlM (fun kp i here => freeTable_failed e blockinD kp i here) failed) fun kp there => ?_
  exact (free_block_from_inode_failed there _).bind fun _ last => Ends.ok last

theorem free_blocks_failed : Ends Failed p.testfs_free_blocks :=
  (freeDirect_failed failed _).bind fun _ there => (freeIndirect_failed there _).bind fun _ more =>
    (freeDouble_failed more _).bind fun _ last => Ends.ok last

end Release

theorem sync_inode_failed : Ends Failed p.testfs_sync_inode :=
  Ends.ite (Ends.ok failed) (Ends.skip fun _ => Ends.ok failed)

end InodePtr

namespace SuperBlock

variable {s : SuperBlock} (failed : s.Failed)
include failed

theorem get_inode_freemap_failed : Ends (fun r => r.2.Failed) s.testfs_get_inode_freemap := by
  refine Ends.skip fun found => ?_
  cases found with
  | none => exact Ends.ok failed
  | some taken => exact Ends.ok failed

theorem put_inode_freemap_failed (nr : Nat) : Ends Failed (s.testfs_put_inode_freemap nr) :=
  Ends.skip fun _ => Ends.skip fun _ => Ends.ok failed

end SuperBlock

namespace Testfs

def Failed (t : Testfs) : Prop := t.sb.Failed

variable {t : Testfs} (failed : t.Failed)
include failed

theorem with_inode_failed {α : Type} {nr : Nat} {f : InodePtr → Except Fault (α × InodePtr)}
    (each : ∀ p : InodePtr, p.Failed → Ends (fun r => r.2.Failed) (f p)) : Ends (fun r => r.2.Failed) (t.with_inode nr f) :=
  Ends.skip fun i => (each ⟨t.sb, i⟩ failed).bind fun _ there => Ends.ok there

theorem get_inode_failed (nr : Nat) : Ends Failed (t.testfs_get_inode nr) := fun u ran => by
  rw [Failed, (get_inode_look ran).1]
  exact failed

theorem put_inode_failed (nr : Nat) : Ends Failed (t.testfs_put_inode nr) := fun u ran => by
  rw [Failed, (put_inode_look ran).1]
  exact failed

theorem create_inode_failed (type : InodeType) : Ends (fun r => r.2.Failed) (t.testfs_create_inode type) := by
  refine (t.sb.get_inode_freemap_failed failed).bind fun r there => Ends.ite (Ends.ok there) (Ends.ite ?_ ?_)
  · exact (SuperBlock.put_inode_freemap_failed there _).bind fun _ last => Ends.ok last
  · refine (get_inode_failed (by exact there) _).bind fun u here => ?_
    exact (with_inode_failed here fun p given => Ends.ok given).bind fun _ last => Ends.ok last

theorem remove_inode_failed (nr : Nat) : Ends Failed (t.testfs_remove_inode nr) := by
  refine (with_inode_failed failed fun p given => ?_).bind fun _ there => put_inode_failed there nr
  refine (InodePtr.free_blocks_failed given).bind fun q there => Ends.skip fun _ => ?_
  refine (SuperBlock.put_inode_freemap_failed (by exact there) _).bind fun sb more => ?_
  exact (InodePtr.sync_inode_failed (by exact more)).bind fun _ last => Ends.ok last

theorem handle_failed (op : InodeOp) : Ends (fun r => r.2.Failed) (handle op t) := by
  cases op with
  | testfs_get_inode nr => exact (get_inode_failed failed nr).bind fun _ there => Ends.ok there
  | testfs_put_inode nr => exact (put_inode_failed failed nr).bind fun _ there => Ends.ok there
  | testfs_inode_get_type nr => exact Ends.skip fun _ => Ends.ok failed
  | testfs_inode_get_size nr => exact Ends.skip fun _ => Ends.ok failed
  | testfs_inode_get_block_count nr => exact Ends.skip fun _ => Ends.ok failed
  | testfs_read_data nr start size => exact Ends.skip fun _ => Ends.ok failed
  | testfs_write_data nr buf start =>
      exact with_inode_failed failed fun _ given => InodePtr.write_data_failed given buf start
  | testfs_create_inode type => exact create_inode_failed failed type
  | testfs_remove_inode nr => exact (remove_inode_failed failed nr).bind fun _ there => Ends.ok there
  | testfs_sync_inode nr =>
      refine Ends.bind (P := Failed) ?_ fun _ there => Ends.ok there
      refine (with_inode_failed failed fun p given => ?_).bind fun _ there => Ends.ok there
      exact (InodePtr.sync_inode_failed given).bind fun _ last => Ends.ok last

end Testfs

end OperatingSystem.Fs
