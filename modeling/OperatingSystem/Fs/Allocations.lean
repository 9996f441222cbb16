import OperatingSystem.Library.Run
import OperatingSystem.Fs.Allocate
import OperatingSystem.Fs.Fresh
import OperatingSystem.Fs.Held

namespace OperatingSystem.Fs

open Transition

inductive AllocationCall
  | testfs_create_inode (type : InodeType)
  | testfs_put_inode_freemap (inode_nr : Nat)
  | testfs_alloc_block
  | testfs_free_block (block_nr : Int)

def Testfs.allocation (t : Testfs) : AllocationCall → Except Fault (Testfs × Int × Nat)
  | .testfs_create_inode type => do
      let (r, t) ← t.testfs_create_inode type
      return (t, r)
  | .testfs_put_inode_freemap inode_nr => do
      let sb ← t.sb.testfs_put_inode_freemap inode_nr
      return ({ t with sb }, 0, 0)
  | .testfs_alloc_block => do
      let (ret, sb) ← t.sb.testfs_alloc_block
      return ({ t with sb }, ret, 0)
  | .testfs_free_block block_nr => do
      let sb ← t.sb.testfs_free_block block_nr
      return ({ t with sb }, 0, 0)

structure HandedOut where
  inodes : Finset Nat
  blocks : Finset Nat

namespace HandedOut

def enter (l : HandedOut) : AllocationCall × Int × Nat → HandedOut
  | (.testfs_create_inode _, ret, nr) => if ret < 0 then l else { l with inodes := insert nr l.inodes }
  | (.testfs_put_inode_freemap nr, _) => { l with inodes := l.inodes.erase nr }
  | (.testfs_alloc_block, ret, _) => if ret < 0 then l else { l with blocks := insert ret.toNat l.blocks }
  | (.testfs_free_block block_nr, _) => { l with blocks := l.blocks.erase block_nr.toNat }

def of (labels : List (AllocationCall × Int × Nat)) : HandedOut := labels.foldl enter ⟨∅, ∅⟩

def Legal (l : HandedOut) : AllocationCall → Prop
  | .testfs_create_inode _ => True
  | .testfs_put_inode_freemap nr => nr ∈ l.inodes
  | .testfs_alloc_block => True
  | .testfs_free_block block_nr => ∃ b ∈ l.blocks, block_nr = (b : Nat)

end HandedOut

/-- The super block agrees with what is handed out, in memory and on the disk. -/
structure Books (max_fs_blocks : UInt64) (l : HandedOut) (s : SuperBlock) : Prop where
  accounts : Accounts s
  max_fs_blocks : s.sb.max_fs_blocks = max_fs_blocks
  inodes : ∀ nr, nr ∈ l.inodes ↔ nr < 65536 ∧ s.inode_freemap.bitmap_isset nr = true
  blocks : ∀ b : Nat, b ∈ l.blocks ↔ s.Marked b
  inode_count : s.sb.used_inode_count.toNat = l.inodes.card
  block_count : s.sb.used_block_count.toNat = l.blocks.card

structure Outcome (max_fs_blocks : UInt64) (l : HandedOut) (t : Testfs) : Prop where
  returns : ∀ call, (∃ r, t.allocation call = .ok r) ↔ l.Legal call
  alloc : ∀ u ret nr, t.allocation .testfs_alloc_block = .ok (u, ret, nr) →
    (ret = -ENOSPC ∧ l.blocks.card = max_fs_blocks.toNat) ∨
      (l.blocks.card < max_fs_blocks.toNat ∧ ∃ b : Nat, ret = b ∧ t.sb.sb.data_blocks_start.toNat ≤ b ∧ b ∉ l.blocks)
  create : ∀ type u ret nr, t.allocation (.testfs_create_inode type) = .ok (u, ret, nr) →
    (ret = -ENOSPC ∧ (∀ m, m < NR_INODES → m ∈ l.inodes) ∧ u.sb.sb = t.sb.sb ∧
      u.sb.inode_freemap = t.sb.inode_freemap ∧ u.sb.block_freemap = t.sb.block_freemap) ∨
      (ret = 0 ∧ nr < NR_INODES ∧ nr ∉ l.inodes ∧ ∀ m, m < nr → m ∈ l.inodes)

section Bits

variable {b : Bitmap} {k : Nat}

theorem Bitmap.andNotMask_orMask (clear : b.bitmap_isset k = false) : (b.orMask k).andNotMask k = b := by
  have word : (b.v (k / 8) ||| Bitmap.mask (k % 8)) &&& ~~~Bitmap.mask (k % 8) = b.v (k / 8) := by
    rw [Bitmap.bitmap_isset_eq] at clear
    rw [← UInt8.toBitVec_inj, UInt8.toBitVec_and, UInt8.toBitVec_or, UInt8.toBitVec_not,
      Bitmap.mask_toBitVec (Nat.mod_lt k (by decide))]
    apply BitVec.eq_of_getLsbD_eq
    intro i inside
    by_cases here : i = k % 8
    · subst here
      simp [clear]
    · simp [here, inside]
  simp only [Bitmap.andNotMask, Bitmap.orMask, Bitmap.setWord, BITS_PER_WORD, Function.update_self, Function.update_idem,
    word, Function.update_eq_self]

end Bits

namespace Books

variable {max_fs_blocks : UInt64} {l : HandedOut} {s : SuperBlock} (books : Books max_fs_blocks l s) {k nr : Nat}
include books

theorem free : s.free = max_fs_blocks.toNat - l.blocks.card := by
  rw [SuperBlock.free, books.max_fs_blocks, books.block_count]

theorem within : l.blocks.card ≤ max_fs_blocks.toNat := by
  rw [← books.block_count, ← books.max_fs_blocks]
  exact books.accounts.within

theorem mem_blocks (inside : k < 1048576) : 146 + k ∈ l.blocks ↔ s.block_freemap.bitmap_isset k = true := by
  rw [books.blocks, SuperBlock.marked_iff books.accounts.layout]
  constructor
  · rintro ⟨j, -, same, set⟩
    obtain rfl : k = j := by omega
    exact set
  · exact fun set => ⟨k, inside, rfl, set⟩

theorem mem_inodes (inside : nr < 65536) : nr ∈ l.inodes ↔ s.inode_freemap.bitmap_isset nr = true := by
  rw [books.inodes]
  exact and_iff_right inside

theorem fail : Books max_fs_blocks l { s with allocFailed := true } where
  accounts := books.accounts.congr true fun _ _ => rfl
  max_fs_blocks := books.max_fs_blocks
  inodes := books.inodes
  blocks := books.blocks
  inode_count := books.inode_count
  block_count := books.block_count

theorem takeBlock (inside : k < 1048576) (fresh : 146 + k ∉ l.blocks) (room : l.blocks.card < max_fs_blocks.toNat) :
    Books max_fs_blocks { l with blocks := insert (146 + k) l.blocks } (s.takeBlock k) := by
  have clear : s.block_freemap.bitmap_isset k = false := by
    rw [books.mem_blocks inside] at fresh
    simpa using fresh
  have took := (Took.refl books.accounts).take ⟨inside, clear⟩ (by rw [books.free]; omega)
  refine ⟨took.accounts, books.max_fs_blocks, books.inodes, fun b => ?_, books.inode_count, ?_⟩
  · rw [Finset.mem_insert, books.blocks, took.marked, List.nil_append, List.mem_singleton, blockOf, Int.natCast_inj]
    exact or_comm
  · have bits := books.accounts.layout.block_bits
    have counted := took.accounts.used_blocks
    rw [Finset.card_insert_of_notMem fresh, ← books.block_count, books.accounts.used_blocks, counted]
    exact Bitmap.nr_allocated_orMask (by omega) clear

theorem dropBlock (inside : k < 1048576) (member : 146 + k ∈ l.blocks) :
    Books max_fs_blocks { l with blocks := l.blocks.erase (146 + k) } (s.dropBlock (146 + k) k) := by
  have set := (books.mem_blocks inside).mp member
  have accounts := (books.accounts.dropBlock (b := 146 + k) inside set (by omega)).2
  refine ⟨accounts, books.max_fs_blocks, books.inodes, fun b => ?_, books.inode_count, ?_⟩
  · rw [Finset.mem_erase, books.blocks, books.accounts.marked_dropBlock inside set, blockOf, and_comm]
    simp only [ne_eq, Int.natCast_inj]
  · have bits := books.accounts.layout.block_bits
    have counted := accounts.used_blocks
    have dropped := Bitmap.nr_allocated_andNotMask (b := s.block_freemap) (by omega) set
    have before := books.accounts.used_blocks
    have now : (s.dropBlock (146 + k) k).block_freemap = s.block_freemap.andNotMask k := rfl
    rw [now] at counted
    rw [Finset.card_erase_of_mem member, ← books.block_count]
    omega

theorem takeInode (inside : nr < 65536) (fresh : nr ∉ l.inodes) :
    Books max_fs_blocks { l with inodes := insert nr l.inodes } (s.takeInode nr) := by
  have clear : s.inode_freemap.bitmap_isset nr = false := by
    rw [books.mem_inodes inside] at fresh
    simpa using fresh
  have accounts := books.accounts.takeInode inside clear
  refine ⟨accounts, books.max_fs_blocks, fun m => ?_, books.blocks, ?_, books.block_count⟩
  · rw [Finset.mem_insert, books.inodes]
    simp only [SuperBlock.takeInode, SuperBlock.withInodeFreemap, Bitmap.isset_orMask, Bool.or_eq_true, decide_eq_true_eq]
    constructor
    · rintro (rfl | ⟨low, set⟩)
      · exact ⟨inside, Or.inr rfl⟩
      · exact ⟨low, Or.inl set⟩
    · rintro ⟨low, set | rfl⟩
      · exact Or.inr ⟨low, set⟩
      · exact Or.inl rfl
  · have bits := books.accounts.layout.inode_bits
    have counted := accounts.used_inodes
    rw [Finset.card_insert_of_notMem fresh, ← books.inode_count, books.accounts.used_inodes, counted]
    exact Bitmap.nr_allocated_orMask (by omega) clear

theorem dropInode (inside : nr < 65536) (member : nr ∈ l.inodes) :
    Books max_fs_blocks { l with inodes := l.inodes.erase nr } (s.dropInode nr) := by
  have set := (books.mem_inodes inside).mp member
  have accounts := (books.accounts.dropInode inside set).2
  refine ⟨accounts, books.max_fs_blocks, fun m => ?_, books.blocks, ?_, books.block_count⟩
  · rw [Finset.mem_erase, books.inodes]
    simp only [SuperBlock.dropInode, SuperBlock.withInodeFreemap, Bitmap.isset_andNotMask, Bool.and_eq_true,
      Bool.not_eq_true', decide_eq_false_iff_not]
    constructor
    · rintro ⟨other, low, set⟩
      exact ⟨low, set, other⟩
    · rintro ⟨low, set, other⟩
      exact ⟨other, low, set⟩
  · have bits := books.accounts.layout.inode_bits
    have counted := accounts.used_inodes
    have dropped := Bitmap.nr_allocated_andNotMask (b := s.inode_freemap) (by omega) set
    have before := books.accounts.used_inodes
    have now : (s.dropInode nr).inode_freemap = s.inode_freemap.andNotMask nr := rfl
    rw [now] at counted
    rw [Finset.card_erase_of_mem member, ← books.inode_count]
    omega

theorem restored (inside : nr < 65536) (fresh : nr ∉ l.inodes) :
    (s.takeInode nr).testfs_put_inode_freemap nr = .ok ((s.takeInode nr).dropInode nr) ∧
      Books max_fs_blocks l ((s.takeInode nr).dropInode nr) ∧ ((s.takeInode nr).dropInode nr).sb = s.sb ∧
      ((s.takeInode nr).dropInode nr).inode_freemap = s.inode_freemap := by
  have took := books.takeInode inside fresh
  have member : nr ∈ insert nr l.inodes := Finset.mem_insert_self nr _
  have set := (took.mem_inodes inside).mp member
  have dropped := took.dropInode inside member
  rw [Finset.erase_insert fresh] at dropped
  refine ⟨took.accounts.put_inode_freemap inside set, dropped, ?_, ?_⟩
  · simp [SuperBlock.dropInode, SuperBlock.takeInode, SuperBlock.withInodeFreemap]
  · rw [books.mem_inodes inside] at fresh
    exact Bitmap.andNotMask_orMask (by simpa using fresh)

end Books

theorem get_inode_finds {t : Testfs} {nr : Nat} (low : nr < NR_INODES) :
    ∃ u i, t.testfs_get_inode nr = .ok u ∧ u.sb = t.sb ∧ u.inode_hash_table.find nr = some i := by
  cases found : t.inode_hash_table.find nr with
  | none =>
      refine ⟨_, t.loaded nr, Testfs.testfs_get_inode_absent found low, rfl, ?_⟩
      have inserted := @InodeTable.find_insert t.inode_hash_table (t.loaded nr) found nr
      exact inserted.trans (if_pos rfl)
  | some i =>
      refine ⟨_, { i with i_count := i.i_count + 1 }, Testfs.testfs_get_inode_held found, rfl, ?_⟩
      have number := InodeTable.find_i_nr found
      rw [Testfs.update, InodeTable.find_update, if_pos ⟨number.symm, by rw [found]; rfl⟩]

section Calls

variable {max_fs_blocks : UInt64} {l : HandedOut} {t : Testfs} (books : Books max_fs_blocks l t.sb)
include books

theorem allocation_alloc : ∃ u ret, t.allocation .testfs_alloc_block = .ok (u, ret, 0) ∧
    Books max_fs_blocks (l.enter (.testfs_alloc_block, ret, 0)) u.sb ∧
    ((ret = -ENOSPC ∧ l.blocks.card = max_fs_blocks.toNat) ∨
      (l.blocks.card < max_fs_blocks.toNat ∧
        ∃ b : Nat, ret = b ∧ t.sb.sb.data_blocks_start.toNat ≤ b ∧ b ∉ l.blocks)) := by
  have room := books.free
  have within := books.within
  rcases books.accounts.alloc_block with ⟨full, ran⟩ | ⟨k, inside, clear, some, ran⟩
  · refine ⟨{ t with sb := { t.sb with allocFailed := true } }, -ENOSPC, ?_, books.fail, Or.inl ⟨rfl, by omega⟩⟩
    simp only [Testfs.allocation, ran, Result.ok_bind, Result.pure_eq_ok]
  · have fresh : 146 + k ∉ l.blocks := by
      rw [books.mem_blocks inside, clear]
      decide
    have took := books.takeBlock inside fresh (by omega)
    have positive : ¬ ((146 + k : Nat) : Int) < 0 := by omega
    refine ⟨{ t with sb := t.sb.takeBlock k }, (146 + k : Nat), ?_, ?_, Or.inr ⟨by omega, 146 + k, rfl, ?_, fresh⟩⟩
    · simp only [Testfs.allocation, ran, Result.ok_bind, Result.pure_eq_ok]
    · rwa [HandedOut.enter, if_neg positive, Int.toNat_natCast]
    · rw [books.accounts.layout.data_blocks_at]
      omega

theorem allocation_free {block_nr : Int} (legal : l.Legal (.testfs_free_block block_nr)) :
    ∃ u, t.allocation (.testfs_free_block block_nr) = .ok (u, 0, 0) ∧
      Books max_fs_blocks (l.enter (.testfs_free_block block_nr, 0, 0)) u.sb := by
  obtain ⟨b, member, rfl⟩ := legal
  obtain ⟨k, inside, same, set⟩ := (SuperBlock.marked_iff books.accounts.layout).mp ((books.blocks b).mp member)
  obtain rfl : b = 146 + k := Int.ofNat_inj.mp same
  refine ⟨{ t with sb := t.sb.dropBlock (146 + k) k }, ?_, books.dropBlock inside member⟩
  simp only [Testfs.allocation, books.accounts.free_block inside set, Result.ok_bind, Result.pure_eq_ok]

theorem allocation_free_legal {block_nr : Int} {r} (ran : t.allocation (.testfs_free_block block_nr) = .ok r) :
    l.Legal (.testfs_free_block block_nr) := by
  obtain ⟨sb, freed, -⟩ := Result.bind_eq_ok.mp ran
  obtain ⟨dev, -, freed⟩ := Result.bind_eq_ok.mp freed
  obtain ⟨_, high, freed⟩ := Result.bind_eq_ok.mp freed
  obtain ⟨s, dropped, -⟩ := Result.bind_eq_ok.mp freed
  obtain ⟨freemap, unmarked, -⟩ := Result.bind_eq_ok.mp dropped
  obtain ⟨inside, set, -⟩ := Bitmap.bitmap_unmark_eq_ok.mp unmarked
  have high := assert_eq_ok.mp high
  simp only [books.accounts.layout.data_blocks_at, books.accounts.layout.block_bits] at high inside set
  refine ⟨block_nr.toNat, (books.blocks _).mpr ?_, by omega⟩
  rw [SuperBlock.marked_iff books.accounts.layout]
  refine ⟨(block_nr - 146).toNat, inside, by omega, set⟩

theorem allocation_put {nr : Nat} (legal : l.Legal (.testfs_put_inode_freemap nr)) :
    ∃ u, t.allocation (.testfs_put_inode_freemap nr) = .ok (u, 0, 0) ∧
      Books max_fs_blocks (l.enter (.testfs_put_inode_freemap nr, 0, 0)) u.sb := by
  have ⟨inside, set⟩ := (books.inodes nr).mp legal
  refine ⟨{ t with sb := t.sb.dropInode nr }, ?_, books.dropInode inside legal⟩
  simp only [Testfs.allocation, books.accounts.put_inode_freemap inside set, Result.ok_bind, Result.pure_eq_ok]

theorem allocation_put_legal {nr : Nat} {r} (ran : t.allocation (.testfs_put_inode_freemap nr) = .ok r) :
    l.Legal (.testfs_put_inode_freemap nr) := by
  obtain ⟨sb, dropped, -⟩ := Result.bind_eq_ok.mp ran
  obtain ⟨freemap, unmarked, -⟩ := Result.bind_eq_ok.mp dropped
  obtain ⟨inside, set, -⟩ := Bitmap.bitmap_unmark_eq_ok.mp unmarked
  rw [books.accounts.layout.inode_bits] at inside
  exact (books.inodes nr).mpr ⟨inside, set⟩

theorem allocation_create (type : InodeType) : ∃ u ret nr, t.allocation (.testfs_create_inode type) = .ok (u, ret, nr) ∧
    Books max_fs_blocks (l.enter (.testfs_create_inode type, ret, nr)) u.sb ∧
    ((ret = -ENOSPC ∧ (∀ m, m < NR_INODES → m ∈ l.inodes) ∧ u.sb.sb = t.sb.sb ∧
      u.sb.inode_freemap = t.sb.inode_freemap ∧ u.sb.block_freemap = t.sb.block_freemap) ∨
      (ret = 0 ∧ nr < NR_INODES ∧ nr ∉ l.inodes ∧ ∀ m, m < nr → m ∈ l.inodes)) := by
  rcases books.accounts.get_inode_freemap with ⟨full, ran⟩ | ⟨nr, inside, clear, least, ran⟩
  · refine ⟨t, -ENOSPC, 0, ?_, books, Or.inl ⟨rfl, fun m low => ?_, rfl, rfl, rfl⟩⟩
    · have negative : -ENOSPC < 0 := by decide
      simp only [Testfs.allocation, Testfs.testfs_create_inode, ran, Result.ok_bind, Result.pure_eq_ok, negative, if_true]
    · simp only [NR_INODES] at low
      exact (books.mem_inodes (by omega)).mpr (full m (by omega))
  · have fresh : nr ∉ l.inodes := by
      rw [books.mem_inodes inside, clear]
      decide
    have before : ∀ m, m < nr → m ∈ l.inodes := fun m low => (books.mem_inodes (by omega)).mpr (least m low)
    have positive : ¬ (nr : Int) < 0 := by omega
    by_cases past : NR_INODE_BLOCKS ≤ nr / INODES_PER_BLOCK
    · obtain ⟨put, kept, sb, freemap⟩ := books.restored inside fresh
      refine ⟨{ t with sb := (t.sb.takeInode nr).dropInode nr }, -ENOSPC, 0, ?_, kept,
        Or.inl ⟨rfl, fun m low => before m ?_, sb, freemap, rfl⟩⟩
      · simp only [Testfs.allocation, Testfs.testfs_create_inode, ran, Result.ok_bind, Result.pure_eq_ok, positive,
          if_false, Int.toNat_natCast, past, if_true, put]
      · simp only [NR_INODES, INODES_PER_BLOCK, NR_INODE_BLOCKS] at past low
        omega
    · have low : nr < NR_INODES := by
        simp only [NR_INODES, INODES_PER_BLOCK, NR_INODE_BLOCKS] at past ⊢
        omega
      obtain ⟨u, i, got, sb, found⟩ := @get_inode_finds { t with sb := t.sb.takeInode nr } nr low
      have took := books.takeInode inside fresh
      have zero : ¬ (0 : Int) < 0 := by omega
      refine ⟨u.update { i with dinode := { i.dinode with i_type := type.code }, dirty := true }, 0, nr, ?_, ?_,
        Or.inr ⟨rfl, low, fresh, before⟩⟩
      · simp only [Testfs.allocation, Testfs.testfs_create_inode, ran, Result.ok_bind, Result.pure_eq_ok, positive,
          if_false, Int.toNat_natCast, past, got, Testfs.with_inode, Testfs.inode, found]
        rfl
      · rw [HandedOut.enter, if_neg zero]
        change Books max_fs_blocks _ u.sb
        rwa [sb]

theorem Books.outcome : Outcome max_fs_blocks l t where
  returns call := by
    cases call with
    | testfs_create_inode type =>
        obtain ⟨u, ret, nr, ran, -⟩ := allocation_create books type
        exact ⟨fun _ => trivial, fun _ => ⟨_, ran⟩⟩
    | testfs_put_inode_freemap nr =>
        refine ⟨fun ⟨_, ran⟩ => allocation_put_legal books ran, fun legal => ?_⟩
        obtain ⟨u, ran, -⟩ := allocation_put books legal
        exact ⟨_, ran⟩
    | testfs_alloc_block =>
        obtain ⟨u, ret, ran, -⟩ := allocation_alloc books
        exact ⟨fun _ => trivial, fun _ => ⟨_, ran⟩⟩
    | testfs_free_block block_nr =>
        refine ⟨fun ⟨_, ran⟩ => allocation_free_legal books ran, fun legal => ?_⟩
        obtain ⟨u, ran, -⟩ := allocation_free books legal
        exact ⟨_, ran⟩
  alloc u ret nr ran := by
    obtain ⟨v, ret', ran', -, outcome⟩ := allocation_alloc books
    obtain ⟨-, same⟩ := Prod.mk.inj (Except.ok.inj (ran'.symm.trans ran))
    obtain ⟨rfl, -⟩ := Prod.mk.inj same
    exact outcome
  create type u ret nr ran := by
    obtain ⟨v, ret', nr', ran', -, outcome⟩ := allocation_create books type
    obtain ⟨rfl, same⟩ := Prod.mk.inj (Except.ok.inj (ran'.symm.trans ran))
    obtain ⟨rfl, rfl⟩ := Prod.mk.inj same
    exact outcome

theorem Books.step {u : Testfs} {label : AllocationCall × Int × Nat} (taken : Takes Testfs.allocation t label u) :
    Books max_fs_blocks (l.enter label) u.sb := by
  obtain ⟨call, r⟩ := label
  have agrees {v : Testfs} {r' : Int × Nat} (ran : t.allocation call = .ok (v, r'))
      (kept : Books max_fs_blocks (l.enter (call, r')) v.sb) : Books max_fs_blocks (l.enter (call, r)) u.sb := by
    obtain ⟨rfl, rfl⟩ := Prod.mk.inj (Except.ok.inj (ran.symm.trans taken))
    exact kept
  cases call with
  | testfs_create_inode type =>
      obtain ⟨v, ret, nr, ran, kept, -⟩ := allocation_create books type
      exact agrees ran kept
  | testfs_put_inode_freemap nr =>
      obtain ⟨v, ran, kept⟩ := allocation_put books (allocation_put_legal books taken)
      exact agrees ran kept
  | testfs_alloc_block =>
      obtain ⟨v, ret, ran, kept, -⟩ := allocation_alloc books
      exact agrees ran kept
  | testfs_free_block block_nr =>
      obtain ⟨v, ran, kept⟩ := allocation_free books (allocation_free_legal books taken)
      exact agrees ran kept

end Calls

section Histories

variable (dev : Disk) {max_fs_blocks : UInt64}

theorem made_books (bounded : max_fs_blocks.toNat ≤ 1048576) : Books max_fs_blocks (.of []) (.made dev max_fs_blocks) := by
  have accounts := made_accounts dev max_fs_blocks bounded
  have sb : (SuperBlock.made dev max_fs_blocks).sb = testfs_make_super_block max_fs_blocks :=
    makeImage_super_block dev max_fs_blocks
  refine ⟨accounts, by rw [sb]; rfl, fun nr => ?_, fun b => ?_, by rw [sb]; rfl, by rw [sb]; rfl⟩
  · constructor
    · intro member
      exact absurd member (Finset.notMem_empty nr)
    · rintro ⟨inside, set⟩
      rw [made_inode_freemap dev max_fs_blocks nr inside] at set
      cases set
  · rw [SuperBlock.marked_iff accounts.layout]
    constructor
    · intro member
      exact absurd member (Finset.notMem_empty b)
    · rintro ⟨k, inside, -, set⟩
      rw [made_block_freemap dev max_fs_blocks k inside] at set
      cases set

theorem books_of_run (bounded : max_fs_blocks.toNat ≤ 1048576) {labels : List (AllocationCall × Int × Nat)} {t : Testfs}
    (run : Run (Takes Testfs.allocation) ⟨.made dev max_fs_blocks, .empty⟩ labels t) : Books max_fs_blocks (.of labels) t.sb :=
  run.history (fun labels t => Books max_fs_blocks (.of labels) t.sb) (made_books dev bounded)
    fun labels t label u books taken => by
      have step := books.step taken
      rwa [HandedOut.of, List.foldl_append]

/-- After every history the super block agrees with what is handed out, and so does the next call. -/
theorem allocation_histories (bounded : max_fs_blocks.toNat ≤ 1048576) {labels : List (AllocationCall × Int × Nat)} {t : Testfs}
    (run : Run (Takes Testfs.allocation) ⟨.made dev max_fs_blocks, .empty⟩ labels t) :
    Books max_fs_blocks (.of labels) t.sb ∧ Outcome max_fs_blocks (.of labels) t := by
  have books := books_of_run dev bounded run
  exact ⟨books, books.outcome⟩

def spentLabels (b : Nat) : List (AllocationCall × Int × Nat) :=
  [(.testfs_create_inode .I_FILE, 0, 0), (.testfs_alloc_block, b, 0), (.testfs_alloc_block, -ENOSPC, 0), (.testfs_free_block b, 0, 0),
    (.testfs_put_inode_freemap 0, 0, 0)]

theorem spent_run : ∃ t b, Run (Takes Testfs.allocation) ⟨.made (fun _ => zero) 1, .empty⟩ (spentLabels b) t := by
  have made : Books 1 ⟨∅, ∅⟩ (.made (fun _ => zero) 1) := made_books _ (by decide)
  obtain ⟨t₁, ret, nr, ran₁, books₁, none | ⟨rfl, -, -, least⟩⟩ := @allocation_create 1 _ ⟨.made (fun _ => zero) 1, .empty⟩ made .I_FILE
  · exact absurd (none.2.1 0 (by decide)) (Finset.notMem_empty 0)
  obtain rfl : nr = 0 := by
    by_contra positive
    exact absurd (least 0 (Nat.pos_of_ne_zero positive)) (Finset.notMem_empty 0)
  obtain ⟨t₂, ret, ran₂, books₂, full | ⟨-, b, rfl, -, -⟩⟩ := allocation_alloc books₁
  · cases full.2
  have positive : ¬ (b : Int) < 0 := not_lt.mpr (Int.natCast_nonneg b)
  have spent : Books 1 ⟨{0}, {b}⟩ t₂.sb := by simpa [HandedOut.enter, positive] using books₂
  obtain ⟨t₃, ret, ran₃, books₃, ⟨rfl, -⟩ | room⟩ := allocation_alloc spent
  · have refused : Books 1 ⟨{0}, {b}⟩ t₃.sb := by simpa [HandedOut.enter, ENOSPC] using books₃
    obtain ⟨t₄, ran₄, books₄⟩ := @allocation_free 1 _ t₃ refused b ⟨b, Finset.mem_singleton_self b, rfl⟩
    obtain ⟨t₅, ran₅, -⟩ := @allocation_put 1 _ t₄ books₄ 0 (Finset.mem_singleton_self 0)
    exact ⟨t₅, b, ((((Run.single ran₁).step ran₂).step ran₃).step ran₄).step ran₅⟩
  · exact absurd room.1 (lt_irrefl 1)

theorem allocation_histories_spent : ∃ t b, Run (Takes Testfs.allocation) ⟨.made (fun _ => zero) 1, .empty⟩ (spentLabels b) t ∧
    Books 1 (.of (spentLabels b)) t.sb ∧ Outcome 1 (.of (spentLabels b)) t := by
  obtain ⟨t, b, run⟩ := spent_run
  exact ⟨t, b, run, allocation_histories _ (by decide) run⟩

end Histories

end OperatingSystem.Fs
