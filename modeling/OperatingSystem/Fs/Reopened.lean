import OperatingSystem.Fs.Sessions

namespace OperatingSystem.Fs

open Bytes

theorem Bitmap.nr_allocated_congr {b b' : Bitmap} (nbits : b'.nbits = b.nbits)
    (same : ∀ i, i < b.nbits → b'.bitmap_isset i = b.bitmap_isset i) : b'.bitmap_nr_allocated = b.bitmap_nr_allocated := by
  rw [bitmap_nr_allocated, bitmap_nr_allocated, nbits, Nat.count_eq_card_filter_range, Nat.count_eq_card_filter_range]
  refine congrArg _ (Finset.filter_congr fun i inside => ?_)
  rw [same i (Finset.mem_range.mp inside)]

/-- Opening `dev` gives `s` again, in everything that counts. -/
structure Reopens (dev : Disk) (s : SuperBlock) : Prop where
  sb : (testfs_init_super_block dev).sb = s.sb
  blocks : ∀ b, 18 ≤ b → dev b = s.dev b
  inode_bit : ∀ i, i < 65536 → (testfs_init_super_block dev).inode_freemap.bitmap_isset i = s.inode_freemap.bitmap_isset i
  block_bit : ∀ i, i < 1048576 → (testfs_init_super_block dev).block_freemap.bitmap_isset i = s.block_freemap.bitmap_isset i

section Storing

variable {s : SuperBlock} {dev : Disk}

theorem Reopens.of_bytes (sb : DSuperBlock.ofMemory (dev 0) = s.sb) (blocks : ∀ b, 18 ≤ b → dev b = s.dev b)
    (inodes : ∀ i, i < BLOCK_SIZE * INODE_FREEMAP_SIZE → read_blocks dev s.sb.inode_freemap_start.toNat i = s.inode_freemap.v i)
    (data : ∀ i, i < BLOCK_SIZE * BLOCK_FREEMAP_SIZE → read_blocks dev s.sb.block_freemap_start.toNat i = s.block_freemap.v i) :
    Reopens dev s where
  sb := sb
  blocks := blocks
  inode_bit i inside := by
    rw [Bitmap.bitmap_isset_eq, Bitmap.bitmap_isset_eq]
    simp only [testfs_init_super_block, sb]
    rw [inodes (i / 8) (by simp only [BLOCK_SIZE, INODE_FREEMAP_SIZE]; omega)]
  block_bit i inside := by
    rw [Bitmap.bitmap_isset_eq, Bitmap.bitmap_isset_eq]
    simp only [testfs_init_super_block, sb]
    rw [data (i / 8) (by simp only [BLOCK_SIZE, BLOCK_FREEMAP_SIZE]; omega)]

theorem OnDisk.stored (onDisk : OnDisk s) : Reopens s.dev s :=
  .of_bytes onDisk.super_block (fun _ _ => rfl) onDisk.inode_freemap onDisk.block_freemap

theorem closed_eq (layout : Layout s) (b : Nat) : testfs_close_super_block s b =
    if 2 ≤ b ∧ b < 18 then fun k => s.block_freemap.v ((b - 2) * BLOCK_SIZE + k)
    else if b = 1 then s.inode_freemap.v
    else s.testfs_write_super_block.dev b := by
  simp only [testfs_close_super_block, write_blocks, layout.inode_freemap_at, layout.block_freemap_at, INODE_FREEMAP_SIZE,
    BLOCK_FREEMAP_SIZE]
  split_ifs with many one other other
  · rfl
  · obtain rfl : b = 1 := by omega
    simp
  · omega
  · omega
  · rfl

theorem closed_stored (layout : Layout s) : Reopens (testfs_close_super_block s) s := by
  refine .of_bytes ?_ (fun b high => ?_) (fun i inside => ?_) fun i inside => ?_
  · rw [closed_eq layout, if_neg (by omega), if_neg (by omega), SuperBlock.ofMemory_write_super_block]
  · rw [closed_eq layout, if_neg (by omega), if_neg (by omega), SuperBlock.write_super_block_other (by omega)]
  · simp only [BLOCK_SIZE, INODE_FREEMAP_SIZE] at inside
    have first : i / BLOCK_SIZE = 0 := Nat.div_eq_of_lt (by simp only [BLOCK_SIZE]; omega)
    have rest : i % BLOCK_SIZE = i := Nat.mod_eq_of_lt (by simp only [BLOCK_SIZE]; omega)
    rw [layout.inode_freemap_at, read_blocks, first, rest, closed_eq layout, if_neg (by omega), if_pos rfl]
  · simp only [BLOCK_SIZE, BLOCK_FREEMAP_SIZE] at inside
    have block : 2 ≤ 2 + i / BLOCK_SIZE ∧ 2 + i / BLOCK_SIZE < 18 := by simp only [BLOCK_SIZE]; omega
    rw [layout.block_freemap_at, read_blocks, closed_eq layout, if_pos block, Nat.add_sub_cancel_left, Nat.div_add_mod']

namespace Reopens

variable (stored : Reopens dev s)
include stored

theorem layout (layout : Layout s) : Layout (testfs_init_super_block dev) where
  inode_freemap_start := by rw [stored.sb, layout.inode_freemap_start]
  block_freemap_start := by rw [stored.sb, layout.block_freemap_start]
  inode_blocks_start := by rw [stored.sb, layout.inode_blocks_start]
  data_blocks_start := by rw [stored.sb, layout.data_blocks_start]
  inode_bits := rfl
  block_bits := rfl

theorem marked (layout : Layout s) (b : Int) : (testfs_init_super_block dev).Marked b ↔ s.Marked b := by
  rw [SuperBlock.marked_iff (stored.layout layout), SuperBlock.marked_iff layout]
  constructor
  · rintro ⟨k, inside, block, set⟩
    exact ⟨k, inside, block, by rwa [← stored.block_bit k inside]⟩
  · rintro ⟨k, inside, block, set⟩
    exact ⟨k, inside, block, by rwa [stored.block_bit k inside]⟩

theorem accounts (accounts : Accounts s) : Accounts (testfs_init_super_block dev) where
  layout := stored.layout accounts.layout
  used_inodes := by
    rw [stored.sb, accounts.used_inodes]
    refine (Bitmap.nr_allocated_congr ?_ fun i inside => stored.inode_bit i (accounts.layout.inode_bits ▸ inside)).symm
    rw [accounts.layout.inode_bits, (stored.layout accounts.layout).inode_bits]
  used_blocks := by
    rw [stored.sb, accounts.used_blocks]
    refine (Bitmap.nr_allocated_congr ?_ fun i inside => stored.block_bit i (accounts.layout.block_bits ▸ inside)).symm
    rw [accounts.layout.block_bits, (stored.layout accounts.layout).block_bits]
  within := by rw [stored.sb]; exact accounts.within
  bounded := by rw [stored.sb]; exact accounts.bounded
  onDisk := ⟨rfl, fun _ _ => rfl, fun _ _ => rfl⟩

end Reopens

end Storing

theorem InodeTable.eq_empty {t : InodeTable} (absent : ∀ nr, t.find nr = none) : t = .empty := by
  apply ext_chain
  funext h
  refine List.eq_nil_iff_forall_not_mem.mpr fun i member => ?_
  have chain : inode_hashfn i.i_nr = h := t.placed h i member
  exact find_eq_none.mp (absent i.i_nr) i (chain ▸ member) rfl

namespace Represents

variable {t : Testfs} {f : Files} {cur : Nat}

theorem last_put (same : Represents t f) (resting : Resting f cur) :
    t.testfs_put_inode cur = .ok { t with inode_hash_table := .empty } ∧
      Represents { t with inode_hash_table := .empty } (f.put cur) := by
  have held (m : Nat) := (same.held m).symm.trans (congrFun resting.held m)
  obtain ⟨i, found, reference⟩ := Option.map_eq_some_iff.mp ((held cur).trans (Function.update_self ..))
  obtain ⟨one, clean⟩ := Prod.mk.inj reference
  have none : t.inode_hash_table.remove cur = .empty := by
    refine InodeTable.eq_empty fun m => ?_
    rw [InodeTable.find_remove]
    split_ifs with here
    · rfl
    · exact Option.map_eq_none_iff.mp ((held m).trans (Function.update_of_ne here ..))
  have ran := Testfs.testfs_put_inode_eq found
  rw [if_pos clean, if_pos one, none] at ran
  refine ⟨ran, same.put ran ?_⟩
  simp only [Files.testfs_put_inode, Files.inode_eq (show f.held cur = some (1, false) by rw [resting.held, Function.update_self]),
    Result.ok_bind, assert, if_true]
  rfl

theorem reopened (same : Represents { t with inode_hash_table := .empty } f) {dev : Disk} (stored : Reopens dev t.sb) :
    Represents (.opened dev) { f with inode_freemap := (testfs_init_super_block dev).inode_freemap, bits := rfl } := by
  have layout := same.consistent.accounts.layout
  obtain ⟨consistent, -, dinode, -, bytes⟩ :=
    same.consistent.recount (stored.accounts same.consistent.accounts) stored.blocks (stored.marked layout)
  refine ⟨consistent, rfl, same.held, fun nr inside => ?_⟩
  have shows := same.node nr inside
  have stays : (Testfs.opened dev).dinode nr = _ := dinode nr inside
  rw [stays]
  exact ⟨shows.i_type, shows.i_size, fun i small => by
    rw [shows.content i small]
    exact (congrFun (bytes nr inside) i).symm⟩

end Represents

namespace Files

def Within (f : Files) : Prop := ∀ nr, NR_INODES ≤ nr → nr < 65536 → f.inode_freemap.bitmap_isset nr = false

theorem used_reopened {s : SuperBlock} {dev : Disk} {f g : Files} (same : f.inode_freemap = s.inode_freemap) (stored : Reopens dev s)
    (again : g.inode_freemap = (testfs_init_super_block dev).inode_freemap) (nr : Nat) : g.Used nr ↔ f.Used nr := by
  refine and_congr_right fun low => ?_
  simp only [NR_INODES] at low
  rw [again, same, stored.inode_bit nr (by omega)]

theorem shown_root {f g : Files} {parent : Nat → Nat} {records : Nat → List Record} (sound : Sound f parent records) (node : g.node = f.node)
    (used : ∀ nr, g.Used nr ↔ f.Used nr) (held : g.held = Function.update (fun _ : Nat => none) 0 (some (1, false))) :
    g.Shown 0 ⟨f.tree records, []⟩ := by
  have isDir (m : Nat) : g.IsDir m ↔ f.IsDir m := by rw [IsDir, node, IsDir]
  have kept : Sound g parent records := sound.congr used (fun m _ => congrFun node m) (fun m => by rw [node])
    fun m there other => by rw [node]; exact sound.file m there other
  refine ⟨parent, records, kept, ⟨kept.root, held⟩, ?_, walk_nil⟩
  have entry : g.entry = f.entry := by
    funext m
    simp only [Files.entry, isDir, node]
  funext p
  simp only [tree, walk_congr isDir, entry]

end Files

end OperatingSystem.Fs
