import OperatingSystem.Fs.Represents

namespace OperatingSystem.Fs

open Bytes InodeType

/-- How a call within the limit `l` can end instead. -/
def Stray (l : Limit) (e : Fault) : Prop := NEAR_FILE_SIZE < l.bytes ∧ (e = .outOfTable ∨ e = .overflow)

theorem not_stray_near (e : Fault) : ¬ Stray .near e := fun stray => lt_irrefl _ stray.1

theorem sync_inode_returns {p : InodePtr} (low : p.inode.i_nr < NR_INODES) : ∃ q, p.testfs_sync_inode = .ok q := by
  have inside : p.inode.i_nr / INODES_PER_BLOCK < NR_INODE_BLOCKS := by
    simp only [NR_INODES, INODES_PER_BLOCK, NR_INODE_BLOCKS] at low ⊢
    omega
  unfold InodePtr.testfs_sync_inode
  split_ifs with clean
  · exact ⟨_, rfl⟩
  · simp only [InodePtr.testfs_inode_to_block_nr, assert, inside, if_true]
    exact ⟨_, rfl⟩

namespace Consistent

variable {t : Testfs} {nr : Nat} {i : Inode} (con : Consistent t)

omit con in
theorem get_returns (low : nr < NR_INODES ∨ t.inode_hash_table.find nr ≠ none) : ∃ u, t.testfs_get_inode nr = .ok u := by
  cases found : t.inode_hash_table.find nr with
  | some i => exact ⟨_, Testfs.testfs_get_inode_held found⟩
  | none => exact ⟨_, Testfs.testfs_get_inode_absent found (low.resolve_right fun there => there found)⟩

include con

theorem sync_returns (found : t.inode_hash_table.find nr = some i) : ∃ u, t.testfs_sync_inode nr = .ok u := by
  have low : i.i_nr < NR_INODES := InodeTable.find_i_nr found ▸ con.low found
  obtain ⟨q, synced⟩ := @sync_inode_returns ⟨t.sb, i⟩ low
  simp only [Testfs.testfs_sync_inode, Testfs.with_inode, Testfs.inode, found, Result.ok_bind, synced]
  exact ⟨_, rfl⟩

theorem create_returns (type : InodeType) : ∃ r, t.testfs_create_inode type = .ok r := by
  unfold Testfs.testfs_create_inode
  rcases con.accounts.get_inode_freemap with ⟨full, found⟩ | ⟨k, inside, clear, least, found⟩
  · have failed : -ENOSPC < 0 := by decide
    simp only [found, Result.ok_bind, failed, if_true]
    exact ⟨_, rfl⟩
  have positive : ¬ (k : Int) < 0 := by omega
  rw [found, Result.ok_bind]
  simp only [positive, if_false, Int.toNat_natCast]
  by_cases past : NR_INODE_BLOCKS ≤ k / INODES_PER_BLOCK
  · have set : (t.sb.takeInode k).inode_freemap.bitmap_isset k = true := by
      simp [SuperBlock.takeInode, SuperBlock.withInodeFreemap, Bitmap.isset_orMask]
    rw [if_pos past, (con.accounts.takeInode inside clear).put_inode_freemap inside set]
    exact ⟨_, rfl⟩
  · have low : k < NR_INODES := by
      simp only [NR_INODES, INODES_PER_BLOCK, NR_INODE_BLOCKS] at past ⊢
      omega
    obtain ⟨u, i, got, -, found⟩ := @get_inode_finds { t with sb := t.sb.takeInode k } k low
    rw [if_neg past, got]
    simp only [Result.ok_bind, Testfs.with_inode, Testfs.inode, found]
    exact ⟨_, rfl⟩

theorem remove_returns (found : t.inode_hash_table.find nr = some i) (set : t.sb.inode_freemap.bitmap_isset nr = true) :
    ∃ u, t.testfs_remove_inode nr = .ok u := by
  have number := InodeTable.find_i_nr found
  have low := con.low found
  have tidy := con.tidy nr low
  rw [dinode_found found] at tidy
  obtain ⟨p, ks, freed, dinode, number1, references1, -, -, -, gave, -⟩ :=
    testfs_free_blocks_spec (con.holds found) tidy.tight tidy.high
  have inside : nr < 65536 := by
    simp only [NR_INODES] at low
    omega
  have number1 : p.inode.i_nr = nr := number1.trans number
  have empty : p.dinode.block_count = 0 := by rw [dinode]; rfl
  have set1 : p.sb.inode_freemap.bitmap_isset nr = true := by rw [gave.inode_freemap, set]
  have unmarked := gave.accounts.put_inode_freemap inside set1
  obtain ⟨q, synced⟩ := @sync_inode_returns
    { (p.setDInode DInode.zero).setDirty with sb := p.sb.dropInode nr } (number1.symm ▸ low)
  have stored := sync_stores (gave.accounts.dropInode inside set1).2.layout synced
  have here : q.inode.i_nr = nr := by rw [stored.inode]; exact number1
  have cleared : t.with_inode nr (fun p => do
      let p ← p.testfs_free_blocks
      assert (p.dinode.block_count = 0)
      let p := (p.setDInode DInode.zero).setDirty
      let sb ← p.sb.testfs_put_inode_freemap p.inode.i_nr
      let p ← { p with sb }.testfs_sync_inode
      return ((), p)) = .ok ((), { t with sb := q.sb }.update q.inode) := by
    simp only [Testfs.with_inode, Testfs.inode, found, Result.ok_bind, freed, assert, empty, if_true]
    change (p.sb.testfs_put_inode_freemap p.inode.i_nr >>= _) >>= _ = _
    rw [number1, unmarked, Result.ok_bind, synced]
    rfl
  simp only [Testfs.testfs_remove_inode, cleared, Result.ok_bind]
  have look := (find_replace (t := t) (p := q) found here nr).trans (if_pos rfl)
  have clean : q.inode.dirty = false := by rw [stored.inode]
  rw [Testfs.testfs_put_inode_eq look, if_pos clean]
  exact ⟨_, rfl⟩

theorem write_returns {l : Limit} {buf : List UInt8} {start : Int} (found : t.inode_hash_table.find nr = some i) (low : 0 ≤ start)
    (some : buf ≠ []) (fits : start + buf.length ≤ l.bytes) :
    (∃ r, t.testfs_write_data nr buf start = .ok r) ∨ ∃ e, t.testfs_write_data nr buf start = .error e ∧ Stray l e := by
  have holds := con.holds found
  have more := List.length_pos_iff.mpr some
  have bound : start + buf.length ≤ MAX_FILE_SIZE := le_trans fits (Int.ofNat_le.mpr l.high)
  have whole : t.testfs_write_data nr buf start =
      InodePtr.testfs_write_data ⟨t.sb, i⟩ buf start >>= fun r => .ok (r.1, { t with sb := r.2.sb }.update r.2.inode) := by
    simp only [Testfs.testfs_write_data, Testfs.with_inode, Testfs.inode, found, Result.ok_bind]
    rfl
  rw [whole]
  rcases @write_data_cases ⟨t.sb, i⟩ buf start low with
    ⟨p1, -, run⟩ | ⟨done, piece, p1, ret, p2, -, run⟩ | ⟨done, piece, p1, fault, faults, run⟩
  · rw [run]
    split_ifs with large
    · refine Or.inr ⟨_, rfl, ?_, Or.inr rfl⟩
      rw [oversize_iff low more bound, blocksOf, List.length_range'] at large
      simp only [BLOCK_SIZE, NEAR_FILE_SIZE] at large ⊢
      omega
    · exact Or.inl ⟨_, rfl⟩
  · rw [run]
    exact Or.inl ⟨_, rfl⟩
  · obtain ⟨rest, split⟩ := faults.split
    obtain ⟨nonneg, small⟩ := writePieces_inside low more bound piece (by simp [split])
    obtain ⟨misled, rfl⟩ := faults.misled holds nonneg small
    have number : piece.log_block_nr.toNat ∈ Fs.numbers (writePieces buf start) := List.mem_map_of_mem (by simp [split])
    rw [writePieces_blocks low more bound, blocksOf, List.mem_range'_1] at number
    have behind := misled.1
    rw [run]
    refine Or.inr ⟨_, rfl, ?_, Or.inl rfl⟩
    simp only [BLOCK_SIZE, NEAR_FILE_SIZE] at number ⊢
    omega

theorem read_returns {l : Limit} {start : Int} {size : Nat} (found : t.inode_hash_table.find nr = some i) (low : 0 ≤ start)
    (within : start + size ≤ (t.dinode nr).i_size.toInt) (short : size < 2 ^ 31) (inside : start + (max size 1 : Nat) ≤ l.bytes) :
    (∃ r, t.testfs_read_data nr start size = .ok r) ∨ ∃ e, t.testfs_read_data nr start size = .error e ∧ Stray l e := by
  have bound : start + (max size 1 : Nat) ≤ MAX_FILE_SIZE := le_trans inside (Int.ofNat_le.mpr l.high)
  have nonneg := (con.holds found).nonneg
  rw [dinode_found found] at within
  have whole : t.testfs_read_data nr start size = InodePtr.testfs_read_data ⟨t.sb, i⟩ start size := by
    simp only [Testfs.testfs_read_data, Testfs.inode, found, Result.ok_bind]
  rw [whole]
  by_cases fetches : InodePtr.Fetches ⟨t.sb, i⟩ start size
  · exact Or.inl ⟨_, testfs_read_data_eq nonneg low short within bound fetches⟩
  · refine Or.inr ⟨_, testfs_read_data_strays nonneg low short within bound fetches, ?_, Or.inl rfl⟩
    simp only [InodePtr.Fetches, not_forall, not_not] at fetches
    obtain ⟨n, -, before, misled⟩ := fetches
    have behind := misled.1
    have shorter := readLength_le start size
    simp only [BLOCK_SIZE, NEAR_FILE_SIZE] at before ⊢
    omega

end Consistent

theorem void_returns {σ : Type} {x : Except Fault σ} (returns : ∃ s, x = .ok s) : ∃ r, (x >>= fun s => .ok ((), s)) = .ok r := by
  obtain ⟨s, ran⟩ := returns
  exact ⟨((), s), void_eq_ok.mpr ran⟩

theorem Represents.found {t : Testfs} {f : Files} {nr : Nat} {h : Nat × Bool} (same : Represents t f) (here : f.inode nr = .ok h) :
    ∃ i, t.inode_hash_table.find nr = some i ∧ i.reference = h := by
  unfold Files.inode at here
  split at here
  · rename_i h' held
    rw [same.held] at held
    rw [← Except.ok.inj here]
    exact Option.map_eq_some_iff.mp held
  · cases here

/-- Where a function on inodes returns on the arrays, it returns on the file system. -/
theorem handle_follows (l : Limit) : Prog.Follows Testfs.handle (Files.handle l) Represents (Stray l) := by
  intro op t f r same other
  have con := same.consistent
  cases op with
  | testfs_get_inode nr =>
      refine Or.inl (void_returns (Consistent.get_returns ?_))
      obtain ⟨g, got, -⟩ := Result.bind_eq_ok.mp other
      unfold Files.testfs_get_inode at got
      split_ifs at got with absent
      · obtain ⟨_, inside, -⟩ := Result.bind_eq_ok.mp got
        have inside := assert_eq_ok.mp inside
        simp only [INODES_PER_BLOCK, NR_INODE_BLOCKS] at inside
        simp only [NR_INODES]
        exact Or.inl (by omega)
      · rw [same.held, Option.map_eq_none_iff] at absent
        exact Or.inr absent
  | testfs_put_inode nr =>
      refine Or.inl (void_returns ?_)
      obtain ⟨g, put, -⟩ := Result.bind_eq_ok.mp other
      obtain ⟨⟨count, dirty⟩, here, rest⟩ := Result.bind_eq_ok.mp put
      obtain ⟨_, clean, -⟩ := Result.bind_eq_ok.mp rest
      obtain ⟨i, found, reference⟩ := same.found here
      have clean : i.dirty = false := (Prod.mk.inj reference).2.trans (assert_eq_ok.mp clean)
      exact ⟨_, (Testfs.testfs_put_inode_eq found).trans (if_pos clean)⟩
  | testfs_inode_get_type nr =>
      obtain ⟨h, here, -⟩ := Result.bind_eq_ok.mp other
      obtain ⟨i, found, -⟩ := same.found here
      refine Or.inl ⟨(i.dinode.i_type, t), ?_⟩
      simp only [Testfs.handle, Testfs.testfs_inode_get_type, Testfs.inode, found, Result.ok_bind]
      rfl
  | testfs_inode_get_size nr =>
      obtain ⟨h, here, -⟩ := Result.bind_eq_ok.mp other
      obtain ⟨i, found, -⟩ := same.found here
      refine Or.inl ⟨(i.dinode.i_size.toInt, t), ?_⟩
      simp only [Testfs.handle, Testfs.testfs_inode_get_size, Testfs.inode, found, Result.ok_bind]
      rfl
  | testfs_inode_get_block_count nr => cases other
  | testfs_read_data nr start size =>
      obtain ⟨read, took, -⟩ := Result.bind_eq_ok.mp other
      obtain ⟨h, here, rest⟩ := Result.bind_eq_ok.mp took
      obtain ⟨i, found, -⟩ := same.found here
      unfold Node.read at rest
      split_ifs at rest with reads
      obtain ⟨low, within, short, inside, -⟩ := reads
      rw [(same.node nr (con.low found)).i_size] at within
      rcases con.read_returns found low within short inside with ⟨r, ran⟩ | ⟨e, ran, stray⟩
      · exact Or.inl ⟨(r, t), by rw [Testfs.handle, ran]; rfl⟩
      · exact Or.inr ⟨e, by rw [Testfs.handle, ran]; rfl, stray⟩
  | testfs_write_data nr buf start =>
      obtain ⟨h, here, rest⟩ := Result.bind_eq_ok.mp other
      obtain ⟨i, found, -⟩ := same.found here
      split_ifs at rest with outside
      · cases rest
      rw [not_or, not_or, not_lt, not_lt] at outside
      exact con.write_returns found outside.1 outside.2.1 outside.2.2
  | testfs_create_inode type => exact Or.inl (con.create_returns type)
  | testfs_remove_inode nr =>
      refine Or.inl (void_returns ?_)
      obtain ⟨g, removed, -⟩ := Result.bind_eq_ok.mp other
      obtain ⟨h, here, rest⟩ := Result.bind_eq_ok.mp removed
      obtain ⟨freemap, unmarked, -⟩ := Result.bind_eq_ok.mp rest
      obtain ⟨i, found, -⟩ := same.found here
      exact con.remove_returns found (same.inode_freemap ▸ (Bitmap.bitmap_unmark_eq_ok.mp unmarked).2.1)
  | testfs_sync_inode nr =>
      refine Or.inl (void_returns ?_)
      obtain ⟨h, here, -⟩ := Result.bind_eq_ok.mp other
      obtain ⟨i, found, -⟩ := same.found here
      exact con.sync_returns found

end OperatingSystem.Fs
