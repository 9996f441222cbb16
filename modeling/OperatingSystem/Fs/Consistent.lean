import OperatingSystem.Fs.Allocations
import OperatingSystem.Fs.Held
import OperatingSystem.Fs.Release
import OperatingSystem.Fs.WriteFrame

namespace OperatingSystem.Fs

open Bytes Ownership

/-- The size of an inode is one a file can have, and covers its blocks. -/
structure Tidy (dev : Disk) (d : DInode) : Prop where
  low : 0 ≤ d.i_size.toInt
  high : d.i_size.toInt ≤ MAX_FILE_SIZE
  tight : Tight dev d

structure Consistent (t : Testfs) : Prop where
  accounts : Accounts t.sb
  owned : Owned t.sb t.dinode
  numbers : ∀ nr, t.Holds nr → nr < NR_INODES
  clean : ∀ nr i, t.inode_hash_table.find nr = some i → i.dirty = false → i.dinode = t.sb.inode nr
  tidy : ∀ nr, nr < NR_INODES → Tidy t.sb.dev (t.dinode nr)

theorem tidy_zero (dev : Disk) : Tidy dev DInode.zero where
  low := le_refl 0
  high := by decide
  tight k taken := absurd (pointer_zero dev k) taken

theorem Tidy.congr {dev dev' : Disk} {d d' : DInode} (tidy : Tidy dev d) (size : d'.i_size = d.i_size)
    (pointers : pointer dev' d' = pointer dev d) : Tidy dev' d' where
  low := size ▸ tidy.low
  high := size ▸ tidy.high
  tight k taken := by
    rw [pointers] at taken
    rw [DInode.blocks, size]
    exact tidy.tight k taken

/-- In `u` the inode `nr` is `d`, and the other inodes and what they hold are as in `t`. -/
structure Alters (t : Testfs) (nr : Nat) (d : DInode) (u : Testfs) : Prop where
  dinode : ∀ m, m < NR_INODES → u.dinode m = Function.update t.dinode nr d m
  pointers : ∀ m, m < NR_INODES → m ≠ nr → pointer u.sb.dev (t.dinode m) = pointer t.sb.dev (t.dinode m)
  bytes : ∀ m, m < NR_INODES → m ≠ nr → byteAt u.sb.dev (t.dinode m) = byteAt t.sb.dev (t.dinode m)

structure Alike (t u : Testfs) : Prop where
  inode_freemap : u.sb.inode_freemap = t.sb.inode_freemap
  allocFailed : u.sb.allocFailed = t.sb.allocFailed
  dinode : ∀ m, m < NR_INODES → u.dinode m = t.dinode m
  pointers : ∀ m, m < NR_INODES → pointer u.sb.dev (t.dinode m) = pointer t.sb.dev (t.dinode m)
  bytes : ∀ m, m < NR_INODES → byteAt u.sb.dev (t.dinode m) = byteAt t.sb.dev (t.dinode m)

section Views

variable {t u : Testfs} {nr : Nat} {i : Inode}

theorem dinode_found (found : t.inode_hash_table.find nr = some i) : t.dinode nr = i.dinode := by
  rw [Testfs.dinode, found]
  rfl

theorem dinode_absent (absent : t.inode_hash_table.find nr = none) : t.dinode nr = t.sb.inode nr := by
  rw [Testfs.dinode, absent]
  rfl

theorem pointers_congr {dev : Disk} {ds ds' : Nat → DInode} (same : ∀ m, m < NR_INODES → ds' m = ds m) :
    pointers dev ds' = pointers dev ds := by
  funext m
  rw [pointers, pointers, same m m.isLt]

theorem Owned.congr {s : SuperBlock} {ds ds' : Nat → DInode} (owned : Owned s ds)
    (same : ∀ m, m < NR_INODES → ds' m = ds m) : Owned s ds' where
  exact := by
    rw [pointers_congr same]
    exact owned.exact
  counts m := by
    rw [same m m.isLt]
    exact owned.counts m

theorem Consistent.low (con : Consistent t) (found : t.inode_hash_table.find nr = some i) : nr < NR_INODES :=
  con.numbers nr (by rw [Testfs.Holds, found]; rfl)

theorem Consistent.holds (con : Consistent t) (found : t.inode_hash_table.find nr = some i) :
    Holds ⟨t.sb, i⟩ t.dinode where
  accounts := con.accounts
  number := InodeTable.find_i_nr found ▸ con.low found
  owned := by
    have same : InodePtr.view ⟨t.sb, i⟩ t.dinode = t.dinode := by
      rw [InodePtr.view, InodePtr.dinode, InodeTable.find_i_nr found, ← dinode_found found, Function.update_eq_self]
    rw [same]
    exact con.owned

section Blocks

variable {s s' : SuperBlock} {ds : Nat → DInode} {dev : Disk} (accounts : Accounts s) (owned : Owned s ds)
  (same : ∀ b, 146 ≤ b → dev b = s.dev b)
include accounts owned same

theorem Owned.pointer_moved (m : Fin NR_INODES) : pointer dev (ds m) = pointer s.dev (ds m) := by
  apply pointer_congr
  intro k _ real
  have inUse := owned.exact.held m k (ne_of_gt real)
  obtain ⟨j, -, block, -⟩ := (SuperBlock.marked_iff accounts.layout).mp inUse
  exact same _ (by rw [show pointer s.dev (ds m) k = _ from block]; omega)

theorem Owned.byteAt_moved (m : Fin NR_INODES) : byteAt dev (ds m) = byteAt s.dev (ds m) := by
  funext i
  unfold byteAt content
  rw [owned.pointer_moved accounts same m]
  split_ifs with real
  · have inUse := owned.exact.held m (target (i / BLOCK_SIZE)) (ne_of_gt real)
    obtain ⟨j, -, block, -⟩ := (SuperBlock.marked_iff accounts.layout).mp inUse
    rw [same _ (by rw [show pointer s.dev (ds m) _ = _ from block]; omega)]
  · rfl

theorem Owned.moved (marked : ∀ b, s'.Marked b ↔ s.Marked b) (moved : s'.dev = dev) : Owned s' ds where
  exact := by
    have pointers : pointers s'.dev ds = pointers s.dev ds := by
      funext m
      rw [pointers, pointers, moved, owned.pointer_moved accounts same m]
    rw [pointers]
    exact owned.exact.congr marked
  counts m := by
    rw [moved, owned.pointer_moved accounts same m]
    exact owned.counts m

end Blocks

theorem Consistent.regroup (con : Consistent t) (sb : u.sb = t.sb) {o : Option Inode}
    (look : ∀ m, u.inode_hash_table.find m = if m = nr then o else t.inode_hash_table.find m)
    (same : (o.map Inode.dinode).getD (t.sb.inode nr) = t.dinode nr)
    (held : ∀ j, o = some j → nr < NR_INODES ∧ (j.dirty = false → j.dinode = t.sb.inode nr)) :
    Consistent u ∧ Alike t u := by
  have dinode : ∀ m, u.dinode m = t.dinode m := by
    intro m
    rw [Testfs.dinode, look, sb]
    by_cases here : m = nr
    · rw [if_pos here, here, same]
    · rw [if_neg here, Testfs.dinode]
  refine ⟨⟨sb ▸ con.accounts, ?_, fun m member => ?_, fun m j found tidy => ?_, fun m inside => ?_⟩, by rw [sb], by rw [sb],
    fun m _ => dinode m, fun m _ => by rw [sb], fun m _ => by rw [sb]⟩
  · rw [sb]
    exact con.owned.congr fun m _ => dinode m
  · obtain ⟨j, found⟩ := Option.isSome_iff_exists.mp member
    rw [look] at found
    split_ifs at found with here
    · exact here ▸ (held j found).1
    · exact con.low found
  · rw [look] at found
    rw [sb]
    split_ifs at found with here
    · exact here ▸ (held j found).2 tidy
    · exact con.clean m j found tidy
  · rw [sb, dinode]
    exact con.tidy m inside

end Views

section Replacing

variable {t : Testfs} {nr : Nat} {i : Inode} {p : InodePtr} (con : Consistent t)
  (found : t.inode_hash_table.find nr = some i) (number : p.inode.i_nr = nr)
include found number

theorem find_replace (m : Nat) : ({ t with sb := p.sb }.update p.inode).inode_hash_table.find m =
    if m = nr then some p.inode else t.inode_hash_table.find m := by
  rw [Testfs.update, InodeTable.find_update, number]
  by_cases here : m = nr
  · subst here
    simp [found]
  · simp [here]

include con

/-- One inode is replaced, and the others stay as they were. -/
theorem Consistent.replace (holds : Holds p t.dinode) (tidy : Tidy p.sb.dev p.dinode)
    (clean : p.inode.dirty = false → p.dinode = p.sb.inode nr)
    (inodes : ∀ m, m < NR_INODES → m ≠ nr → p.sb.inode m = t.sb.inode m)
    (pointers : ∀ m, m < NR_INODES → m ≠ nr → pointer p.sb.dev (t.dinode m) = pointer t.sb.dev (t.dinode m))
    (bytes : ∀ m, m < NR_INODES → m ≠ nr → byteAt p.sb.dev (t.dinode m) = byteAt t.sb.dev (t.dinode m)) :
    Consistent ({ t with sb := p.sb }.update p.inode) ∧ Alters t nr p.dinode ({ t with sb := p.sb }.update p.inode) := by
  have look := find_replace (t := t) (p := p) found number
  have dinode : ∀ m, m < NR_INODES →
      ({ t with sb := p.sb }.update p.inode).dinode m = Function.update t.dinode nr p.dinode m := by
    intro m inside
    by_cases here : m = nr
    · subst here
      rw [dinode_found ((look m).trans (if_pos rfl)), Function.update_self]
    · rw [Function.update_of_ne here, Testfs.dinode, look, if_neg here, Testfs.dinode]
      cases t.inode_hash_table.find m with
      | some j => rfl
      | none => exact inodes m inside here
  refine ⟨⟨holds.accounts, ?_, fun m member => ?_, fun m j found' tidy' => ?_, fun m inside => ?_⟩, dinode, pointers, bytes⟩
  · exact holds.owned.congr fun m inside => by rw [dinode m inside, InodePtr.view, number]
  · rw [Testfs.Holds, look] at member
    split_ifs at member with here
    · exact here ▸ con.low found
    · exact con.numbers m member
  · rw [look] at found'
    split_ifs at found' with here
    · obtain rfl := Option.some.inj found'
      exact here ▸ clean tidy'
    · rw [con.clean m j found' tidy']
      exact (inodes m (con.low found') here).symm
  · rw [dinode m inside]
    by_cases here : m = nr
    · rw [here, Function.update_self]
      exact tidy
    · rw [Function.update_of_ne here]
      exact (con.tidy m inside).congr rfl (pointers m inside here)

end Replacing

section Table

variable {t u : Testfs} {nr : Nat}

theorem get_inode_look (ran : t.testfs_get_inode nr = .ok u) : u.sb = t.sb ∧ ∃ j,
    (∀ m, u.inode_hash_table.find m = if m = nr then some j else t.inode_hash_table.find m) ∧
      ((∃ i, t.inode_hash_table.find nr = some i ∧ j = { i with i_count := i.i_count + 1 }) ∨
        t.inode_hash_table.find nr = none ∧ nr < NR_INODES ∧ j = t.loaded nr) := by
  cases found : t.inode_hash_table.find nr with
  | some i =>
      rw [Testfs.testfs_get_inode_held found] at ran
      obtain rfl := Except.ok.inj ran
      exact ⟨rfl, _, find_replace (p := ⟨t.sb, { i with i_count := i.i_count + 1 }⟩) found (InodeTable.find_i_nr found : i.i_nr = nr),
        Or.inl ⟨i, rfl, rfl⟩⟩
  | none =>
      have low : nr < NR_INODES := by
        unfold Testfs.testfs_get_inode at ran
        split at ran
        · rename_i i found'
          rw [found] at found'
          cases found'
        · obtain ⟨block, asserted, -⟩ := Result.bind_eq_ok.mp ran
          obtain ⟨_, inside, -⟩ := Result.bind_eq_ok.mp asserted
          have block := assert_eq_ok.mp inside
          simp only [INODES_PER_BLOCK, NR_INODE_BLOCKS] at block
          simp only [NR_INODES]
          omega
      rw [Testfs.testfs_get_inode_absent found low] at ran
      obtain rfl := Except.ok.inj ran
      exact ⟨rfl, _, @InodeTable.find_insert _ (t.loaded nr) found, Or.inr ⟨rfl, low, rfl⟩⟩

theorem Consistent.get (con : Consistent t) (ran : t.testfs_get_inode nr = .ok u) :
    Consistent u ∧ Alike t u := by
  obtain ⟨sb, j, look, taken⟩ := get_inode_look ran
  rcases taken with ⟨i, found, rfl⟩ | ⟨absent, low, rfl⟩
  · refine con.regroup sb look (dinode_found found).symm fun j same => ?_
    obtain rfl := Option.some.inj same
    exact ⟨con.low found, con.clean nr i found⟩
  · refine con.regroup sb look (dinode_absent absent).symm fun j same => ?_
    obtain rfl := Option.some.inj same
    exact ⟨low, fun _ => rfl⟩

theorem put_inode_look (ran : t.testfs_put_inode nr = .ok u) : u.sb = t.sb ∧ ∃ i, t.inode_hash_table.find nr = some i ∧
    i.dirty = false ∧ ∀ m, u.inode_hash_table.find m =
      if m = nr then (if i.i_count = 1 then none else some { i with i_count := i.i_count - 1 }) else t.inode_hash_table.find m := by
  obtain ⟨i, here, rest⟩ := Result.bind_eq_ok.mp ran
  have found : t.inode_hash_table.find nr = some i := by
    unfold Testfs.inode at here
    split at here
    · rename_i j found
      rw [found, Except.ok.inj here]
    · cases here
  rw [Testfs.testfs_put_inode_eq found] at ran
  split_ifs at ran with clean one
  · obtain rfl := Except.ok.inj ran
    refine ⟨rfl, i, found, clean, fun m => ?_⟩
    rw [if_pos one]
    exact InodeTable.find_remove nr m
  · obtain rfl := Except.ok.inj ran
    refine ⟨rfl, i, found, clean, fun m => ?_⟩
    rw [if_neg one]
    exact find_replace (p := ⟨t.sb, { i with i_count := i.i_count - 1 }⟩) found (InodeTable.find_i_nr found : i.i_nr = nr) m

theorem Consistent.put (con : Consistent t) (ran : t.testfs_put_inode nr = .ok u) :
    Consistent u ∧ Alike t u := by
  obtain ⟨sb, i, found, tidy, look⟩ := put_inode_look ran
  have stored := con.clean nr i found tidy
  refine con.regroup sb look ?_ fun j same => ?_
  · rw [dinode_found found]
    split_ifs
    · exact stored.symm
    · rfl
  · split_ifs at same
    obtain rfl := Option.some.inj same
    exact ⟨con.low found, fun _ => stored⟩

end Table

section Syncing

variable {t u : Testfs} {nr m : Nat} {p p' : InodePtr} {ds : Nat → DInode}

theorem inode_found {i : Inode} (here : t.inode nr = .ok i) : t.inode_hash_table.find nr = some i := by
  unfold Testfs.inode at here
  split at here
  · rename_i j found
    rw [found, Except.ok.inj here]
  · cases here

theorem with_inode_eq {α : Type} {f : InodePtr → Except Fault (α × InodePtr)} {a : α}
    (ran : t.with_inode nr f = .ok (a, u)) : ∃ i p, t.inode_hash_table.find nr = some i ∧
      f ⟨t.sb, i⟩ = .ok (a, p) ∧ u = { t with sb := p.sb }.update p.inode := by
  obtain ⟨i, here, rest⟩ := Result.bind_eq_ok.mp ran
  obtain ⟨⟨b, p⟩, applied, rest⟩ := Result.bind_eq_ok.mp rest
  obtain ⟨rfl, rfl⟩ := Prod.mk.inj (Except.ok.inj rest)
  exact ⟨i, p, inode_found here, applied, rfl⟩

structure Synced (p p' : InodePtr) : Prop where
  inode : p'.inode = { p.inode with dirty := false }
  sb : ∃ dev, p'.sb = { p.sb with dev }
  low : ∀ b, b < 18 → p'.sb.dev b = p.sb.dev b
  data : ∀ b, 146 ≤ b → p'.sb.dev b = p.sb.dev b
  own : p.inode.dirty = true → p'.sb.inode p.inode.i_nr = p.dinode
  clean : p.inode.dirty = false → p' = p
  others : ∀ m, m ≠ p.inode.i_nr → m < NR_INODES → p'.sb.inode m = p.sb.inode m

theorem sync_stores (layout : Layout p.sb) (ran : p.testfs_sync_inode = .ok p') : Synced p p' := by
  unfold InodePtr.testfs_sync_inode at ran
  have slot : p.sb.sb.inode_blocks_start.toNat = 18 := layout.inode_blocks_at
  split_ifs at ran with clean
  · obtain rfl := Except.ok.inj ran
    have same : p.inode = { p.inode with dirty := false } := by rw [← clean]
    have never : ¬ p.inode.dirty = true := by simp [clean]
    exact ⟨same, ⟨_, rfl⟩, fun _ _ => rfl, fun _ _ => rfl, fun dirty => absurd dirty never, fun _ => rfl, fun _ _ _ => rfl⟩
  · obtain ⟨block, numbered, rest⟩ := Result.bind_eq_ok.mp ran
    obtain ⟨_, inside, value⟩ := Result.bind_eq_ok.mp numbered
    have inside := assert_eq_ok.mp inside
    obtain rfl := Except.ok.inj value
    obtain rfl := Except.ok.inj rest
    simp only [INODES_PER_BLOCK, NR_INODE_BLOCKS] at inside
    refine ⟨rfl, ⟨_, rfl⟩, fun b below => ?_, fun b above => ?_, fun _ => ?_, fun tidy => absurd tidy clean, fun m other small => ?_⟩
    · simp only [slot, INODES_PER_BLOCK]
      exact Function.update_of_ne (by omega) _ _
    · simp only [slot, INODES_PER_BLOCK]
      exact Function.update_of_ne (by omega) _ _
    · rw [SuperBlock.inode]
      simp only [Function.update_self]
      exact DInode.ofMemory_splice _ _ _
    · simp only [SuperBlock.inode, slot, INODES_PER_BLOCK]
      by_cases block : m / 128 = p.inode.i_nr / 128
      · rw [block, Function.update_self]
        apply DInode.ofMemory_congr
        intro k low high
        simp only [InodePtr.testfs_inode_to_block_offset, INODES_PER_BLOCK, DINODE_SIZE] at low high ⊢
        by_cases before : k < p.inode.i_nr % 128 * 64
        · exact splice_before before
        · apply splice_after
          rw [DInode.length_bytes, DINODE_SIZE]
          omega
      · rw [Function.update_of_ne (by omega)]

end Syncing

section Writing

variable {p p' : InodePtr} {ds : Nat → DInode} {buf : List UInt8} {start ret : Int}

theorem write_data_stores (holds : Holds p ds) (some : 0 < buf.length) (fits : start + buf.length ≤ MAX_FILE_SIZE)
    (ran : p.testfs_write_data buf start = .ok (ret, p')) (fit : p'.sb.allocFailed = false) : 0 ≤ start ∧
    ∃ p1, Stores p (writePieces buf start) p1 ∧ ¬ Oversize (writePieces buf start) ∧ (ret, p') = p1.writeOut start buf.length false := by
  obtain ⟨low, ends⟩ := write_data_steps ran
  refine ⟨low, ?_⟩
  rcases ends with ⟨p1, stores, narrow, out⟩ | ⟨done, piece, p1, ret', p2, stops, out⟩
  · rw [writeSize_eq low fits, cutOff_eq low fits] at out
    exact ⟨p1, stores, narrow, out⟩
  · obtain ⟨rest, split⟩ := stops.split
    have small := (writePieces_inside low some fits piece (by simp [split])).2
    have failed : p2.sb.allocFailed = true := by
      rcases stops.failed holds with ⟨beyond, -, -⟩ | ⟨-, -, -, -, failed, -⟩
      · omega
      · exact failed
    have kept : p'.sb = p2.sb := by
      unfold stopped InodePtr.writeOut at out
      split_ifs at out <;> exact congrArg (fun r : Int × InodePtr => r.2.sb) out
    rw [kept, failed] at fit
    cases fit

structure Writes (p p' : InodePtr) (ds : Nat → DInode) (buf : List UInt8) (start ret : Int) : Prop where
  low : 0 ≤ start
  holds : Holds p' ds
  extending : Extends p p'
  stores : ∃ p1, Stores p (writePieces buf start) p1 ∧ p'.pointer = p1.pointer
  result : ret = wrap32 buf.length ∧ buf.length < 2 ^ 32
  size : p'.dinode.i_size.toInt = max p.dinode.i_size.toInt (start + buf.length)
  bytes : ∀ i, i < MAX_FILE_SIZE → p'.byteAt i = splice p.byteAt start.toNat buf i
  dirty : p'.inode.dirty = true
  allocFailed : p'.sb.allocFailed = p.sb.allocFailed
  tidy : Tidy p.sb.dev p.dinode → Tidy p'.sb.dev p'.dinode

theorem write_data_wrote (holds : Holds p ds) (some : 0 < buf.length) (fits : start + buf.length ≤ MAX_FILE_SIZE)
    (ran : p.testfs_write_data buf start = .ok (ret, p')) (fit : p'.sb.allocFailed = false) : Writes p p' ds buf start ret := by
  obtain ⟨low, p1, stores, narrow, out⟩ := write_data_stores holds some fits ran fit
  have all := stores.spec holds
  obtain ⟨value, pointers, bytes, size⟩ := writeOut_kept out low some fits
  rw [all.size] at size
  rw [oversize_iff low some fits, blocksOf, List.length_range'] at narrow
  simp only [BLOCK_SIZE] at narrow
  obtain ⟨-, shape⟩ := Prod.mk.inj out
  have sb : p'.sb = p1.sb := by
    rw [shape]
    split_ifs
    rfl
  have number : p'.inode.i_nr = p1.inode.i_nr := by
    rw [shape]
    split_ifs
    rfl
  have references : p'.inode.i_count = p1.inode.i_count := by
    rw [shape]
    split_ifs
    rfl
  have dinode : p'.dinode = { p1.dinode with i_size := p'.dinode.i_size } := by
    rw [shape]
    split_ifs
    rfl
  have dirty : p'.inode.dirty = true := by rw [shape]; rfl
  refine ⟨low, all.holds.resize sb number references dinode,
    all.extending.trans (Extends.resize sb number references dinode).1, ⟨p1, stores, pointers⟩, ⟨by simpa using value, by omega⟩,
    size, fun i inside => ?_, dirty, by rw [sb, all.allocFailed], fun tidy => ⟨?_, ?_, fun k taken => ?_⟩⟩
  · rw [bytes, stores.bytes holds (writePieces_tiles low fits) inside]
  · have := tidy.low
    omega
  · have := tidy.high
    omega
  · change p'.pointer k ≠ 0 at taken
    rw [pointers] at taken
    have more : p.dinode.blocks ≤ p'.dinode.blocks := by
      simp only [DInode.blocks]
      apply Nat.div_le_div_right
      omega
    rcases all.only k taken with before | ⟨piece, member, onPath⟩
    · obtain ⟨n, inside, onPath⟩ := tidy.tight k before
      exact ⟨n, by omega, onPath⟩
    · have number : piece.log_block_nr.toNat ∈ numbers (writePieces buf start) := List.mem_map_of_mem member
      rw [writePieces_blocks low some fits, blocksOf, List.mem_range'_1] at number
      refine ⟨piece.log_block_nr.toNat, ?_, onPath⟩
      simp only [DInode.blocks, BLOCK_SIZE] at number ⊢
      omega

end Writing

theorem Extends.spared {p p' : InodePtr} {ds : Nat → DInode} {nr : Nat} (step : Extends p p') (holds : Holds p ds)
    (number : p.inode.i_nr = nr) (m : Nat) (inside : m < NR_INODES) (other : m ≠ nr) :
    pointer p'.sb.dev (ds m) = pointer p.sb.dev (ds m) ∧ byteAt p'.sb.dev (ds m) = byteAt p.sb.dev (ds m) := by
  subst number
  have pointers := @Extends.pointer_other p p' step ds holds ⟨m, inside⟩ other
  exact ⟨pointers, funext (@Extends.byteAt_other p p' ds holds step ⟨m, inside⟩ other)⟩

theorem Holds.spared {p : InodePtr} {ds : Nat → DInode} (holds : Holds p ds) {dev : Disk}
    (same : ∀ b : Nat, p.sb.Marked b → (∀ k, p.pointer k ≠ b) → dev b = p.sb.dev b) {m : Fin NR_INODES}
    (other : m.val ≠ p.inode.i_nr) :
    pointer dev (ds m) = pointer p.sb.dev (ds m) ∧ byteAt dev (ds m) = byteAt p.sb.dev (ds m) := by
  have kept : ∀ k, pointer p.sb.dev (ds m) k > 0 → dev (pointer p.sb.dev (ds m) k).toNat = p.sb.dev (pointer p.sb.dev (ds m) k).toNat := by
    intro k real
    have foreign := holds.foreign other (ne_of_gt real)
    apply same
    · rw [Int.toNat_of_nonneg (le_of_lt real)]
      exact foreign.1
    · rw [Int.toNat_of_nonneg (le_of_lt real)]
      exact foreign.2
  have pointers : pointer dev (ds m) = pointer p.sb.dev (ds m) := pointer_congr fun k _ real => kept k real
  refine ⟨pointers, funext fun i => ?_⟩
  unfold byteAt content
  rw [pointers]
  split_ifs with real
  · rw [kept _ real]
  · rfl

theorem Holds.relabel {p p' : InodePtr} {ds : Nat → DInode} (holds : Holds p ds) (sb : p'.sb = p.sb)
    (number : p'.inode.i_nr = p.inode.i_nr) (pointers : p'.pointer = p.pointer)
    (counted : p'.dinode.block_count = p.dinode.block_count) : Holds p' ds := by
  have same (m : Nat) : pointer p.sb.dev (p'.view ds m) = pointer p.sb.dev (p.view ds m) := by
    rw [InodePtr.view, InodePtr.view, number]
    by_cases here : m = p.inode.i_nr
    · rw [here, Function.update_self, Function.update_self, ← sb]
      rw [InodePtr.pointer, InodePtr.pointer] at pointers
      rw [pointers, sb]
    · rw [Function.update_of_ne here, Function.update_of_ne here]
  refine ⟨sb ▸ holds.accounts, number ▸ holds.number, ?_, fun m => ?_⟩
  · have whole : Fs.pointers p.sb.dev (p'.view ds) = Fs.pointers p.sb.dev (p.view ds) := funext fun m => same m
    rw [sb, whole]
    exact holds.owned.exact
  · rw [sb, same, ← holds.owned.counts m, InodePtr.view, InodePtr.view, number]
    by_cases here : m = p.inode.i_nr
    · rw [here, Function.update_self, Function.update_self, counted]
    · rw [Function.update_of_ne here, Function.update_of_ne here]

section Changing

variable {t u : Testfs} {nr : Nat} (con : Consistent t)
include con

theorem Consistent.sync (ran : t.testfs_sync_inode nr = .ok u) : Consistent u ∧ Alike t u ∧
    ∃ i j : Inode, t.inode_hash_table.find nr = some i ∧ j.dirty = false ∧ j.i_count = i.i_count ∧
      ∀ m, u.inode_hash_table.find m = if m = nr then some j else t.inode_hash_table.find m := by
  obtain ⟨⟨_, u'⟩, synced, same⟩ := Result.bind_eq_ok.mp ran
  obtain rfl := Except.ok.inj same
  obtain ⟨i, p, found, applied, rfl⟩ := with_inode_eq synced
  obtain ⟨p', stored, last⟩ := Result.bind_eq_ok.mp applied
  obtain rfl := (Prod.mk.inj (Except.ok.inj last)).2
  have number := InodeTable.find_i_nr found
  have holds := con.holds found
  have all := sync_stores holds.accounts.layout stored
  obtain ⟨dev, sb⟩ := all.sb
  have here : p'.inode.i_nr = nr := by rw [all.inode]; exact number
  have moved : ∀ b, 146 ≤ b → p'.sb.dev b = t.sb.dev b := all.data
  have dinode : p'.dinode = t.dinode nr := by
    rw [InodePtr.dinode, all.inode, dinode_found found]
  have view : p'.view t.dinode = t.dinode := by
    rw [InodePtr.view, here, dinode, Function.update_eq_self]
  have owned : Owned p'.sb (p'.view t.dinode) := by
    rw [view]
    exact con.owned.moved con.accounts moved (fun b => by rw [sb]; rfl) rfl
  have accounts : Accounts p'.sb := by
    have := con.accounts.congr t.sb.allocFailed all.low
    rw [sb] at this ⊢
    exact this
  have pointers : ∀ m, m < NR_INODES → pointer p'.sb.dev (t.dinode m) = pointer t.sb.dev (t.dinode m) :=
    fun m inside => con.owned.pointer_moved con.accounts moved ⟨m, inside⟩
  have bytes : ∀ m, m < NR_INODES → byteAt p'.sb.dev (t.dinode m) = byteAt t.sb.dev (t.dinode m) :=
    fun m inside => con.owned.byteAt_moved con.accounts moved ⟨m, inside⟩
  obtain ⟨con', alters⟩ := con.replace found here ⟨accounts, here ▸ con.low found, owned⟩
    (by rw [dinode]; exact (con.tidy nr (con.low found)).congr rfl (pointers nr (con.low found)))
    (fun _ => by
      cases dirty : i.dirty with
      | true => rw [InodePtr.dinode, all.inode, ← number]; exact (all.own dirty).symm
      | false =>
          have same := all.clean dirty
          rw [same]
          exact con.clean nr i found dirty)
    (fun m inside other => all.others m (by rw [number]; exact other) inside)
    (fun m inside _ => pointers m inside) fun m inside _ => bytes m inside
  refine ⟨con', ⟨by rw [sb]; rfl, by rw [sb]; rfl, fun m inside => ?_, pointers, bytes⟩, i, p'.inode, found, by rw [all.inode],
    by rw [all.inode], find_replace found here⟩
  rw [alters.dinode m inside, dinode, Function.update_eq_self]

theorem Consistent.write {buf : List UInt8} {start ret : Int} (some : 0 < buf.length) (fits : start + buf.length ≤ MAX_FILE_SIZE)
    (ran : t.testfs_write_data nr buf start = .ok (ret, u)) (fit : u.sb.allocFailed = false) :
    Consistent u ∧ ∃ i p, t.inode_hash_table.find nr = .some i ∧ u = { t with sb := p.sb }.update p.inode ∧
      Writes ⟨t.sb, i⟩ p t.dinode buf start ret ∧ Alters t nr p.dinode u := by
  obtain ⟨i, p, found, wrote, rfl⟩ := with_inode_eq ran
  have number := InodeTable.find_i_nr found
  have holds := con.holds found
  have writes := write_data_wrote holds some fits wrote fit
  have here : p.inode.i_nr = nr := writes.extending.number.trans number
  have tidy : Tidy p.sb.dev p.dinode := by
    have before := con.tidy nr (con.low found)
    rw [dinode_found found] at before
    exact writes.tidy before
  have inodes (m : Nat) (inside : m < NR_INODES) : p.sb.inode m = t.sb.inode m :=
    writes.extending.inode holds writes.holds.accounts inside
  have spared := writes.extending.spared holds number
  obtain ⟨con', alters⟩ := con.replace found here writes.holds tidy
    (fun clean => by rw [writes.dirty] at clean; cases clean) (fun m inside _ => inodes m inside)
    (fun m inside other => (spared m inside other).1) fun m inside other => (spared m inside other).2
  exact ⟨con', i, p, found, rfl, writes, alters⟩

theorem Consistent.recount {s : SuperBlock} (accounts : Accounts s) (same : ∀ b, 18 ≤ b → s.dev b = t.sb.dev b)
    (marked : ∀ b, s.Marked b ↔ t.sb.Marked b) : Consistent { t with sb := s } ∧
      (∀ m, m < NR_INODES → s.inode m = t.sb.inode m) ∧ (∀ m, m < NR_INODES → ({ t with sb := s } : Testfs).dinode m = t.dinode m) ∧
      (∀ m, m < NR_INODES → pointer s.dev (t.dinode m) = pointer t.sb.dev (t.dinode m)) ∧
      ∀ m, m < NR_INODES → byteAt s.dev (t.dinode m) = byteAt t.sb.dev (t.dinode m) := by
  have inodes : ∀ m, m < NR_INODES → s.inode m = t.sb.inode m := by
    intro m _
    rw [SuperBlock.inode, SuperBlock.inode, accounts.layout.inode_blocks_at, con.accounts.layout.inode_blocks_at,
      same _ (Nat.le_add_right 18 _)]
  have dinode : ∀ m, m < NR_INODES → ({ t with sb := s } : Testfs).dinode m = t.dinode m := by
    intro m inside
    simp only [Testfs.dinode, inodes m inside]
  have moved : ∀ b, 146 ≤ b → s.dev b = t.sb.dev b := fun b high => same b (by omega)
  have pointers : ∀ m, m < NR_INODES → pointer s.dev (t.dinode m) = pointer t.sb.dev (t.dinode m) :=
    fun m inside => con.owned.pointer_moved con.accounts moved ⟨m, inside⟩
  refine ⟨⟨accounts, (con.owned.moved con.accounts moved marked rfl).congr dinode, con.numbers, fun m i found tidy => ?_,
    fun m inside => ?_⟩, inodes, dinode, pointers, fun m inside => con.owned.byteAt_moved con.accounts moved ⟨m, inside⟩⟩
  · rw [con.clean m i found tidy]
    exact (inodes m (con.low found)).symm
  · rw [dinode m inside]
    exact (con.tidy m inside).congr rfl (pointers m inside)

theorem Consistent.typed {v : Testfs} {type : InodeType} (low : nr < NR_INODES) (got : t.testfs_get_inode nr = .ok v)
    (changed : (v.with_inode nr fun p => return ((), (p.setDInode { p.dinode with i_type := type.code }).setDirty)) = .ok ((), u)) :
    Consistent u ∧ u.sb = t.sb ∧ Alters t nr { t.dinode nr with i_type := type.code } u ∧
      ∃ j, j.dirty = true ∧
        j.i_count = ((t.inode_hash_table.find nr).map fun i => i.i_count + 1).getD 1 ∧
        ∀ m, u.inode_hash_table.find m = if m = nr then some j else t.inode_hash_table.find m := by
  obtain ⟨con', alike⟩ := con.get got
  obtain ⟨sb, j, look, taken⟩ := get_inode_look got
  obtain ⟨i, p, found, applied, rfl⟩ := with_inode_eq changed
  obtain ⟨-, shape⟩ := Prod.mk.inj (Except.ok.inj applied)
  obtain rfl : j = i := by
    rw [look, if_pos rfl] at found
    exact Option.some.inj found
  have here : p.sb = v.sb := by rw [← shape]; rfl
  have number : p.inode.i_nr = nr := by rw [← InodeTable.find_i_nr found, ← shape]; rfl
  have before : j.dinode = t.dinode nr := by rw [← dinode_found found, alike.dinode nr low]
  have after : p.dinode = { j.dinode with i_type := type.code } := by rw [← shape]; rfl
  have dirty : p.inode.dirty = true := by rw [← shape]; rfl
  have references : p.inode.i_count = j.i_count := by rw [← shape]; rfl
  have same : pointer p.sb.dev p.dinode = pointer v.sb.dev j.dinode := by
    rw [here, after]
    exact pointer_fields rfl rfl rfl
  have tidy := con'.tidy nr low
  rw [dinode_found found] at tidy
  obtain ⟨con'', alters⟩ := con'.replace found number
    ((con'.holds found).relabel here (number.trans (InodeTable.find_i_nr found).symm) same (by rw [after]))
    (tidy.congr (by rw [after]) same) (fun clean => by rw [dirty] at clean; cases clean) (fun _ _ _ => by rw [here])
    (fun _ _ _ => by rw [here]) fun _ _ _ => by rw [here]
  have disk : p.sb.dev = t.sb.dev := by rw [here, sb]
  refine ⟨con'', here.trans sb, ⟨fun m small => ?_, fun m _ _ => congrArg (pointer · (t.dinode m)) disk,
    fun m _ _ => congrArg (byteAt · (t.dinode m)) disk⟩, p.inode, dirty, ?_, fun m => ?_⟩
  · rw [alters.dinode m small, after, before]
    by_cases here : m = nr
    · rw [here, Function.update_self, Function.update_self]
    · rw [Function.update_of_ne here, Function.update_of_ne here, alike.dinode m small]
  · rw [references]
    rcases taken with ⟨i, held, rfl⟩ | ⟨absent, -, rfl⟩
    · rw [held]
      rfl
    · rw [absent]
      rfl
  · refine (find_replace (t := v) found number m).trans ?_
    by_cases here : m = nr
    · rw [if_pos here, if_pos here]
    · rw [if_neg here, if_neg here, look, if_neg here]

/-- What `testfs_create_inode` can do: find every number in use, or set the type of the first that is not. -/
theorem Consistent.create {type : InodeType} {ret : Int} (ran : t.testfs_create_inode type = .ok ((ret, nr), u)) :
    Consistent u ∧ ((ret = -ENOSPC ∧ nr = 0 ∧ (∀ m, m < NR_INODES → t.sb.inode_freemap.bitmap_isset m = true) ∧ Alike t u ∧
        u.inode_hash_table = t.inode_hash_table) ∨
      (ret = 0 ∧ nr < NR_INODES ∧ t.sb.inode_freemap.bitmap_isset nr = false ∧
        (∀ m, m < nr → t.sb.inode_freemap.bitmap_isset m = true) ∧
        u.sb.inode_freemap = t.sb.inode_freemap.orMask nr ∧ u.sb.allocFailed = t.sb.allocFailed ∧
        byteAt u.sb.dev (t.dinode nr) = byteAt t.sb.dev (t.dinode nr) ∧ Alters t nr { t.dinode nr with i_type := type.code } u ∧
        ∃ j, j.dirty = true ∧
          j.i_count = ((t.inode_hash_table.find nr).map fun i => i.i_count + 1).getD 1 ∧
          ∀ m, u.inode_hash_table.find m = if m = nr then some j else t.inode_hash_table.find m)) := by
  obtain ⟨⟨number, s⟩, taken, rest⟩ := Result.bind_eq_ok.mp ran
  simp only at rest
  rcases con.accounts.get_inode_freemap with ⟨full, found⟩ | ⟨k, inside, clear, least, found⟩
  · obtain ⟨rfl, rfl⟩ := Prod.mk.inj (Except.ok.inj (found.symm.trans taken))
    rw [if_pos (by decide)] at rest
    obtain ⟨same, rfl⟩ := Prod.mk.inj (Except.ok.inj rest)
    obtain ⟨rfl, rfl⟩ := Prod.mk.inj same
    have all (m : Nat) (small : m < NR_INODES) : t.sb.inode_freemap.bitmap_isset m = true := by
      simp only [NR_INODES] at small
      exact full m (by omega)
    exact ⟨con, Or.inl ⟨rfl, rfl, all, ⟨rfl, rfl, fun _ _ => rfl, fun _ _ => rfl, fun _ _ => rfl⟩, rfl⟩⟩
  obtain ⟨rfl, rfl⟩ := Prod.mk.inj (Except.ok.inj (found.symm.trans taken))
  have positive : ¬ (k : Int) < 0 := by omega
  have accounts := con.accounts.takeInode inside clear
  have dev (b : Nat) (high : 18 ≤ b) : (t.sb.takeInode k).dev b = t.sb.dev b :=
    SuperBlock.withInodeFreemap_dev con.accounts.layout inside high
  rw [if_neg positive, Int.toNat_natCast] at rest
  by_cases past : NR_INODE_BLOCKS ≤ k / INODES_PER_BLOCK
  · have set : (t.sb.takeInode k).inode_freemap.bitmap_isset k = true := by
      simp [SuperBlock.takeInode, SuperBlock.withInodeFreemap, Bitmap.isset_orMask]
    rw [if_pos past, accounts.put_inode_freemap inside set, Result.ok_bind] at rest
    obtain ⟨same, rfl⟩ := Prod.mk.inj (Except.ok.inj rest)
    obtain ⟨rfl, rfl⟩ := Prod.mk.inj same
    have back (b : Nat) (high : 18 ≤ b) : ((t.sb.takeInode k).dropInode k).dev b = t.sb.dev b :=
      (SuperBlock.withInodeFreemap_dev accounts.layout inside high).trans (dev b high)
    obtain ⟨con', -, dinode, pointers, bytes⟩ := con.recount (accounts.dropInode inside set).2 back fun _ => Iff.rfl
    refine ⟨con', Or.inl ⟨rfl, rfl, fun m small => least m ?_, ⟨?_, rfl, dinode, pointers, bytes⟩, rfl⟩⟩
    · simp only [NR_INODES, INODES_PER_BLOCK, NR_INODE_BLOCKS] at past small
      omega
    · exact Bitmap.andNotMask_orMask clear
  · have low : k < NR_INODES := by
      simp only [NR_INODES, INODES_PER_BLOCK, NR_INODE_BLOCKS] at past ⊢
      omega
    rw [if_neg past] at rest
    obtain ⟨con1, -, dinode1, pointers1, bytes1⟩ := con.recount accounts dev fun _ => Iff.rfl
    obtain ⟨v, got, rest⟩ := Result.bind_eq_ok.mp rest
    obtain ⟨⟨_, w⟩, changed, rest⟩ := Result.bind_eq_ok.mp rest
    obtain ⟨same, rfl⟩ := Prod.mk.inj (Except.ok.inj rest)
    obtain ⟨rfl, rfl⟩ := Prod.mk.inj same
    obtain ⟨con2, sb, alters, typed⟩ := con1.typed low got changed
    refine ⟨con2, Or.inr ⟨rfl, low, clear, least, ?_, ?_, ?_, ⟨fun m small => ?_, fun m small _ => ?_, fun m small _ => ?_⟩, typed⟩⟩
    · rw [sb]
      rfl
    · rw [sb]
      rfl
    · rw [sb]
      exact bytes1 k low
    · rw [alters.dinode m small, dinode1 k low]
      by_cases here : m = k
      · rw [here, Function.update_self, Function.update_self]
      · rw [Function.update_of_ne here, Function.update_of_ne here, dinode1 m small]
    · rw [sb]
      exact pointers1 m small
    · rw [sb]
      exact bytes1 m small

/-- `i` is inode `nr` of `t`; in `p` its blocks are free, and it is zeros, stored and clean. -/
structure Cleared (t : Testfs) (nr : Nat) (i : Inode) (p : InodePtr) : Prop where
  number : p.inode.i_nr = nr
  references : p.inode.i_count = i.i_count
  clean : p.inode.dirty = false
  dinode : p.dinode = DInode.zero
  accounts : Accounts p.sb
  inode_freemap : p.sb.inode_freemap = t.sb.inode_freemap.andNotMask nr
  allocFailed : p.sb.allocFailed = t.sb.allocFailed
  marked : ∀ b, p.sb.Marked b ↔ t.sb.Marked b ∧ ∀ k, InodePtr.pointer ⟨t.sb, i⟩ k ≠ b
  data : ∀ b : Nat, 146 ≤ b → (∀ k, InodePtr.pointer ⟨t.sb, i⟩ k ≠ b) → p.sb.dev b = t.sb.dev b
  stored : p.sb.inode nr = DInode.zero
  inodes : ∀ m, m < NR_INODES → m ≠ nr → p.sb.inode m = t.sb.inode m

section Clearing

variable {i : Inode} (found : t.inode_hash_table.find nr = some i)
include found

theorem Consistent.cleared {p p' : InodePtr} {sb : SuperBlock} (freed : InodePtr.testfs_free_blocks ⟨t.sb, i⟩ = .ok p)
    (unmarked : p.sb.testfs_put_inode_freemap p.inode.i_nr = .ok sb)
    (stored : InodePtr.testfs_sync_inode { (p.setDInode DInode.zero).setDirty with sb } = .ok p') : Cleared t nr i p' := by
  have holds := con.holds found
  have low := con.low found
  have tidy := con.tidy nr low
  rw [dinode_found found] at tidy
  obtain ⟨p1, ks, freed', -, number, references, -, -, members, gave, -⟩ := testfs_free_blocks_spec holds tidy.tight tidy.high
  obtain rfl := Except.ok.inj (freed.symm.trans freed')
  have inside : nr < 65536 := by
    simp only [NR_INODES] at low
    omega
  have number : p.inode.i_nr = nr := number.trans (InodeTable.find_i_nr found)
  rw [number] at unmarked
  have set : p.sb.inode_freemap.bitmap_isset nr = true := by
    obtain ⟨freemap, taken, -⟩ := Result.bind_eq_ok.mp unmarked
    exact (Bitmap.bitmap_unmark_eq_ok.mp taken).2.1
  have accounts := (gave.accounts.dropInode inside set).2
  obtain rfl := Except.ok.inj ((gave.accounts.put_inode_freemap inside set).symm.trans unmarked)
  have all := sync_stores accounts.layout stored
  obtain ⟨dev, sb⟩ := all.sb
  -- the blocks given back are the ones the inode points at
  have gone (b : Int) (inUse : t.sb.Marked b) : b ∉ ks.map (InodePtr.pointer ⟨t.sb, i⟩) ↔ ∀ k, InodePtr.pointer ⟨t.sb, i⟩ k ≠ b := by
    have high := (holds.range inUse).1
    constructor
    · intro outside k same
      exact outside (List.mem_map.mpr ⟨k, (members k).mpr (by omega), same⟩)
    · intro other member
      obtain ⟨k, -, same⟩ := List.mem_map.mp member
      exact other k same
  refine ⟨?_, ?_, ?_, ?_, ?_, ?_, ?_, fun b => ?_, fun b high other => ?_, ?_, fun m small other => ?_⟩
  · rw [all.inode]
    exact number
  · rw [all.inode]
    exact references
  · rw [all.inode]
  · rw [InodePtr.dinode, all.inode]
    rfl
  · rw [sb]
    exact accounts.congr _ fun b below => (congrArg (SuperBlock.dev · b) sb).symm.trans (all.low b below)
  · exact (congrArg SuperBlock.inode_freemap sb).trans (congrArg (Bitmap.andNotMask · nr) gave.inode_freemap)
  · exact (congrArg SuperBlock.allocFailed sb).trans gave.allocFailed
  · rw [← and_congr_right (gone b), ← gave.marked, sb]
    rfl
  · rw [all.data b high]
    refine (SuperBlock.withInodeFreemap_dev gave.accounts.layout inside (by omega)).trans (gave.kept b (by omega) fun member => ?_)
    obtain ⟨k, -, same⟩ := List.mem_map.mp member
    exact other k same
  · exact (congrArg p'.sb.inode number).symm.trans (all.own rfl)
  · refine (all.others m (number.symm ▸ other) small).trans ?_
    rw [SuperBlock.inode, SuperBlock.inode, accounts.layout.inode_blocks_at, con.accounts.layout.inode_blocks_at]
    have block : (p.sb.dropInode nr).dev (18 + m / INODES_PER_BLOCK) = t.sb.dev (18 + m / INODES_PER_BLOCK) := by
      refine (SuperBlock.withInodeFreemap_dev gave.accounts.layout inside (Nat.le_add_right 18 _)).trans
        (gave.kept _ (Nat.le_add_right 18 _) fun member => ?_)
      obtain ⟨k, real, same⟩ := List.mem_map.mp member
      have high := holds.positive ((members k).mp real)
      simp only [NR_INODES, INODES_PER_BLOCK] at small same
      omega
    exact congrArg (fun block => DInode.ofMemory block (m % INODES_PER_BLOCK * DINODE_SIZE)) block

variable {p : InodePtr}

theorem Consistent.spared_cleared (cleared : Cleared t nr i p) (m : Fin NR_INODES) (other : m.val ≠ nr) :
    pointer p.sb.dev (t.dinode m) = pointer t.sb.dev (t.dinode m) ∧ byteAt p.sb.dev (t.dinode m) = byteAt t.sb.dev (t.dinode m) := by
  have holds := con.holds found
  rw [← InodeTable.find_i_nr found] at other
  exact holds.spared (fun b inUse => cleared.data b (by have := (holds.range inUse).1; omega)) other

theorem Consistent.holds_cleared (cleared : Cleared t nr i p) : Holds p t.dinode := by
  have low := con.low found
  have view (m : Nat) : p.view t.dinode m = if m = nr then DInode.zero else t.dinode m := by
    rw [InodePtr.view, cleared.number, cleared.dinode, Function.update_apply]
  have own : pointers t.sb.dev t.dinode ⟨nr, low⟩ = InodePtr.pointer ⟨t.sb, i⟩ := by
    rw [pointers, dinode_found found]
  refine ⟨cleared.accounts, cleared.number ▸ low, ?_, fun m => ?_⟩
  · have whole : pointers p.sb.dev (p.view t.dinode) = Function.update (pointers t.sb.dev t.dinode) ⟨nr, low⟩ fun _ => 0 := by
      funext m
      rw [pointers, view]
      by_cases same : m.val = nr
      · rw [if_pos same, show m = ⟨nr, low⟩ from Fin.ext same, Function.update_self]
        exact funext (pointer_zero _)
      · rw [if_neg same, Function.update_of_ne (fun equal => same (Fin.ext_iff.mp equal)),
          (con.spared_cleared found cleared m same).1, pointers]
    rw [whole]
    refine (con.owned.exact.clear).congr fun b => ?_
    rw [cleared.marked, own]
  · rw [view]
    split_ifs with same
    · have none : count (pointer p.sb.dev DInode.zero) = 0 := count_eq_zero.mpr (pointer_zero _)
      rw [none]
      rfl
    · rw [(con.spared_cleared found cleared m same).1]
      exact con.owned.counts m

end Clearing

theorem Consistent.remove (ran : t.testfs_remove_inode nr = .ok u) : Consistent u ∧
    u.sb.inode_freemap = t.sb.inode_freemap.andNotMask nr ∧ u.sb.allocFailed = t.sb.allocFailed ∧ Alters t nr DInode.zero u ∧
      ∃ i j : Inode, t.inode_hash_table.find nr = some i ∧ j.dirty = false ∧ j.i_count = i.i_count ∧
        ∀ m, u.inode_hash_table.find m =
          if m = nr then (if i.i_count = 1 then none else some { j with i_count := j.i_count - 1 }) else t.inode_hash_table.find m := by
  obtain ⟨⟨_, v⟩, changed, put⟩ := Result.bind_eq_ok.mp ran
  obtain ⟨i, p, found, applied, rfl⟩ := with_inode_eq changed
  obtain ⟨p1, freed, rest⟩ := Result.bind_eq_ok.mp applied
  obtain ⟨_, -, rest⟩ := Result.bind_eq_ok.mp rest
  obtain ⟨sb, unmarked, rest⟩ := Result.bind_eq_ok.mp rest
  obtain ⟨p3, stored, last⟩ := Result.bind_eq_ok.mp rest
  obtain rfl := (Prod.mk.inj (Except.ok.inj last)).2
  have cleared := con.cleared found freed unmarked stored
  have spared := con.spared_cleared found cleared
  obtain ⟨con', alters⟩ := con.replace found cleared.number (con.holds_cleared found cleared) (cleared.dinode ▸ tidy_zero _)
    (fun _ => cleared.dinode.trans cleared.stored.symm) cleared.inodes (fun m small other => (spared ⟨m, small⟩ other).1)
    fun m small other => (spared ⟨m, small⟩ other).2
  obtain ⟨con'', alike⟩ := con'.put put
  obtain ⟨same, j, found', -, look⟩ := put_inode_look put
  have replaced := find_replace (t := t) (p := p3) found cleared.number
  obtain rfl : p3.inode = j := by
    rw [replaced, if_pos rfl] at found'
    exact Option.some.inj found'
  refine ⟨con'', ?_, ?_, ⟨fun m small => ?_, fun m small other => ?_, fun m small other => ?_⟩, i, p3.inode, found,
    cleared.clean, cleared.references, fun m => ?_⟩
  · exact (congrArg SuperBlock.inode_freemap same).trans cleared.inode_freemap
  · exact (congrArg SuperBlock.allocFailed same).trans cleared.allocFailed
  · rw [alike.dinode m small, alters.dinode m small, cleared.dinode]
  · rw [same]
    exact (spared ⟨m, small⟩ other).1
  · rw [same]
    exact (spared ⟨m, small⟩ other).2
  · rw [look, cleared.references, replaced]
    by_cases other : m = nr
    · rw [if_pos other, if_pos other]
    · rw [if_neg other, if_neg other, if_neg other]

end Changing

end OperatingSystem.Fs
