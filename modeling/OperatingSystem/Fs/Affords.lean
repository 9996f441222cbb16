import OperatingSystem.Fs.FileCommands
import OperatingSystem.Fs.Returns

namespace OperatingSystem.Fs

open Prog InodeType

def InodeOp.cost : InodeOp → Nat
  | .testfs_write_data _ buf _ => 3 * (buf.length / BLOCK_SIZE + 2)
  | _ => 0

theorem needs_le {p : InodePtr} (ns : List Nat) : p.needs ns ≤ 3 * ns.length := by
  have short (n : Nat) : (path n).length ≤ 3 := by
    unfold path
    split_ifs <;> simp
  refine le_trans (Finset.card_filter_le _ _) (le_trans (List.toFinset_card_le _) ?_)
  induction ns with
  | nil => exact Nat.le_refl _
  | cons n ns ih =>
      have first := short n
      rw [List.flatMap_cons, List.length_append, List.length_cons]
      omega

theorem blocksOf_length_le {start : Int} {size : Nat} : (blocksOf start size).length ≤ size / BLOCK_SIZE + 2 := by
  rw [blocksOf, List.length_range']
  simp only [BLOCK_SIZE]
  omega

section Room

variable {t u : Testfs} {nr : Nat}

/-- The counters of blocks stay, and no allocation fails. -/
def Unspent (t u : Testfs) : Prop := u.sb.free = t.sb.free ∧ u.sb.allocFailed = t.sb.allocFailed

theorem Unspent.of_sb (sb : u.sb = t.sb) : Unspent t u := by rw [Unspent, sb]; exact ⟨rfl, rfl⟩

theorem Consistent.sync_unspent (con : Consistent t) (ran : t.testfs_sync_inode nr = .ok u) : Unspent t u := by
  obtain ⟨⟨_, u'⟩, synced, same⟩ := Result.bind_eq_ok.mp ran
  obtain rfl := Except.ok.inj same
  obtain ⟨i, p, found, applied, rfl⟩ := with_inode_eq synced
  obtain ⟨q, stored, last⟩ := Result.bind_eq_ok.mp applied
  obtain rfl := (Prod.mk.inj (Except.ok.inj last)).2
  obtain ⟨dev, sb⟩ := (sync_stores con.accounts.layout stored).sb
  change q.sb.free = _ ∧ q.sb.allocFailed = _
  rw [sb]
  exact ⟨rfl, rfl⟩

theorem Consistent.create_unspent (con : Consistent t) {type : InodeType} {r : Int × Nat} (ran : t.testfs_create_inode type = .ok (r, u)) :
    Unspent t u := by
  obtain ⟨⟨number, s⟩, taken, rest⟩ := Result.bind_eq_ok.mp ran
  simp only at rest
  rcases con.accounts.get_inode_freemap with ⟨full, found⟩ | ⟨k, inside, clear, least, found⟩
  · obtain ⟨rfl, rfl⟩ := Prod.mk.inj (Except.ok.inj (found.symm.trans taken))
    rw [if_pos (by decide)] at rest
    obtain ⟨-, rfl⟩ := Prod.mk.inj (Except.ok.inj rest)
    exact ⟨rfl, rfl⟩
  obtain ⟨rfl, rfl⟩ := Prod.mk.inj (Except.ok.inj (found.symm.trans taken))
  have positive : ¬ (k : Int) < 0 := by omega
  rw [if_neg positive, Int.toNat_natCast] at rest
  by_cases past : NR_INODE_BLOCKS ≤ k / INODES_PER_BLOCK
  · rw [if_pos past] at rest
    have set : (t.sb.takeInode k).inode_freemap.bitmap_isset k = true := by
      simp [SuperBlock.takeInode, SuperBlock.withInodeFreemap, Bitmap.isset_orMask]
    rw [(con.accounts.takeInode inside clear).put_inode_freemap inside set, Result.ok_bind] at rest
    obtain ⟨-, rfl⟩ := Prod.mk.inj (Except.ok.inj rest)
    exact ⟨rfl, rfl⟩
  · rw [if_neg past] at rest
    obtain ⟨v, got, rest⟩ := Result.bind_eq_ok.mp rest
    obtain ⟨⟨_, w⟩, changed, rest⟩ := Result.bind_eq_ok.mp rest
    obtain ⟨-, rfl⟩ := Prod.mk.inj (Except.ok.inj rest)
    obtain ⟨i, p, -, applied, rfl⟩ := with_inode_eq changed
    obtain ⟨-, shape⟩ := Prod.mk.inj (Except.ok.inj applied)
    have sb : p.sb = t.sb.takeInode k := by rw [← shape]; exact (get_inode_look got).1
    change p.sb.free = _ ∧ p.sb.allocFailed = _
    rw [sb]
    exact ⟨rfl, rfl⟩

theorem Consistent.remove_room (con : Consistent t) (ran : t.testfs_remove_inode nr = .ok u) :
    t.sb.free ≤ u.sb.free ∧ u.sb.allocFailed = t.sb.allocFailed := by
  obtain ⟨⟨_, v⟩, cleared, put⟩ := Result.bind_eq_ok.mp ran
  obtain ⟨i, p, found, applied, rfl⟩ := with_inode_eq cleared
  obtain ⟨p1, freed, rest⟩ := Result.bind_eq_ok.mp applied
  obtain ⟨_, -, rest⟩ := Result.bind_eq_ok.mp rest
  obtain ⟨sb2, unmarked, rest⟩ := Result.bind_eq_ok.mp rest
  obtain ⟨p3, stored, last⟩ := Result.bind_eq_ok.mp rest
  obtain rfl := (Prod.mk.inj (Except.ok.inj last)).2
  have low := con.low found
  have tidy := con.tidy nr low
  rw [dinode_found found] at tidy
  obtain ⟨p1', ks, freed', -, number1, -, -, -, -, gave, -⟩ := testfs_free_blocks_spec (con.holds found) tidy.tight tidy.high
  obtain rfl := Except.ok.inj (freed.symm.trans freed')
  have inside : nr < 65536 := by
    simp only [NR_INODES] at low
    omega
  have number1 : p1.inode.i_nr = nr := number1.trans (InodeTable.find_i_nr found)
  change p1.sb.testfs_put_inode_freemap p1.inode.i_nr = .ok sb2 at unmarked
  rw [number1] at unmarked
  have set : p1.sb.inode_freemap.bitmap_isset nr = true := by
    obtain ⟨freemap, taken, -⟩ := Result.bind_eq_ok.mp unmarked
    exact (Bitmap.bitmap_unmark_eq_ok.mp taken).2.1
  obtain rfl := Except.ok.inj ((gave.accounts.put_inode_freemap inside set).symm.trans unmarked)
  obtain ⟨dev, sb⟩ := (sync_stores (gave.accounts.dropInode inside set).2.layout stored).sb
  have more : p1.sb.free = t.sb.free + _ := gave.free
  rw [(put_inode_look put).1]
  change t.sb.free ≤ p3.sb.free ∧ p3.sb.allocFailed = _
  rw [sb]
  exact ⟨more ▸ Nat.le_add_right _ _, gave.allocFailed⟩

theorem Consistent.write_room (con : Consistent t) {buf : List UInt8} {start ret : Int} (low : 0 ≤ start) (some : buf ≠ [])
    (fits : start + buf.length ≤ MAX_FILE_SIZE) (room : 3 * (buf.length / BLOCK_SIZE + 2) ≤ t.sb.free)
    (ran : t.testfs_write_data nr buf start = .ok (ret, u)) :
    u.sb.allocFailed = t.sb.allocFailed ∧ t.sb.free ≤ u.sb.free + 3 * (buf.length / BLOCK_SIZE + 2) := by
  obtain ⟨i, p, found, wrote, rfl⟩ := with_inode_eq ran
  have holds := con.holds found
  have more := List.length_pos_iff.mpr some
  have few : InodePtr.needs ⟨t.sb, i⟩ (blocksOf start buf.length) ≤ 3 * (buf.length / BLOCK_SIZE + 2) :=
    le_trans (needs_le _) (Nat.mul_le_mul_left 3 blocksOf_length_le)
  rw [← writePieces_blocks low more fits] at few
  obtain ⟨-, ⟨p1, stores, -, out⟩ | ⟨done, piece, p1, ret', p2, stops, -⟩⟩ := write_data_steps wrote
  · have taken := stores.needs holds []
    rw [List.append_nil, needs_nil] at taken
    change _ = t.sb.free + 0 at taken
    have sb : p.sb = p1.sb := by
      rw [writeSize_eq low fits, cutOff_eq low fits] at out
      rw [(Prod.mk.inj out).2]
      split_ifs
      rfl
    change p.sb.allocFailed = _ ∧ t.sb.free ≤ p.sb.free + _
    rw [sb]
    exact ⟨(stores.spec holds).allocFailed, by omega⟩
  · obtain ⟨rest, split⟩ := stops.split
    have short := stops.lacks holds (writePieces_inside low more fits piece (by simp [split])).2
    change t.sb.free < _ at short
    omega

/-- A call with room for what it costs does not fail to allocate. -/
theorem handle_affords {l : Limit} {op : InodeOp} {f : Files} {r : InodeOp.Res op} {r' : InodeOp.Res op × Files} (same : Represents t f)
    (other : Files.handle l op f = .ok r') (ran : Testfs.handle op t = .ok (r, u)) (room : op.cost ≤ t.sb.free) (good : ¬ t.Failed) :
    ¬ u.Failed ∧ t.sb.free ≤ u.sb.free + op.cost := by
  have con := same.consistent
  have enough (left : t.sb.free ≤ u.sb.free + op.cost) (kept : u.sb.allocFailed = t.sb.allocFailed) :
      ¬ u.Failed ∧ t.sb.free ≤ u.sb.free + op.cost := ⟨by rw [Testfs.Failed, SuperBlock.Failed, kept]; exact good, left⟩
  have unspent (kept : Unspent t u) : ¬ u.Failed ∧ t.sb.free ≤ u.sb.free + op.cost := enough (by rw [kept.1]; omega) kept.2
  cases op with
  | testfs_get_inode nr => exact unspent (.of_sb (get_inode_look (void_eq_ok.mp ran)).1)
  | testfs_put_inode nr => exact unspent (.of_sb (put_inode_look (void_eq_ok.mp ran)).1)
  | testfs_inode_get_type nr =>
      obtain ⟨type, -, last⟩ := Result.bind_eq_ok.mp ran
      exact unspent (.of_sb (by rw [(Prod.mk.inj (Except.ok.inj last)).2]))
  | testfs_inode_get_size nr =>
      obtain ⟨size, -, last⟩ := Result.bind_eq_ok.mp ran
      exact unspent (.of_sb (by rw [(Prod.mk.inj (Except.ok.inj last)).2]))
  | testfs_inode_get_block_count nr => cases other
  | testfs_read_data nr start size =>
      obtain ⟨read, -, last⟩ := Result.bind_eq_ok.mp ran
      exact unspent (.of_sb (by rw [(Prod.mk.inj (Except.ok.inj last)).2]))
  | testfs_write_data nr buf start =>
      obtain ⟨_, -, rest⟩ := Result.bind_eq_ok.mp other
      split_ifs at rest with outside
      · cases rest
      rw [not_or, not_or, not_lt, not_lt] at outside
      obtain ⟨low, some, inside⟩ := outside
      obtain ⟨kept, left⟩ := con.write_room low some (le_trans inside (Int.ofNat_le.mpr l.high)) room ran
      exact enough left kept
  | testfs_create_inode type => exact unspent (con.create_unspent ran)
  | testfs_remove_inode nr =>
      obtain ⟨more, kept⟩ := con.remove_room (void_eq_ok.mp ran)
      exact enough (le_trans more (Nat.le_add_right _ _)) kept
  | testfs_sync_inode nr => exact unspent (con.sync_unspent (void_eq_ok.mp ran))

end Room

section Costs

variable {l : Limit} {f : Files} {dir nr : Nat} {name : Name}

abbrev Costs (l : Limit) (p : DirProg α) (f : Files) (n : Nat) : Prop := Spends (Files.handle l) InodeOp.cost p f n

theorem next_dirent_costs (offset : Int) : Costs l (testfs_next_dirent dir offset) f 0 := by
  refine Spends.skip (.free rfl) fun type f _ => Spends.skip .lift fun _ f _ => Spends.skip (.free rfl) fun size f _ => ?_
  refine Spends.ite (fun _ => .ok _) fun _ => Spends.skip (.free rfl) fun read f _ => ?_
  refine Spends.ite (fun _ => .ok _) fun _ => Spends.skip .lift fun fields f _ => Spends.skip .lift fun _ f _ => ?_
  exact Spends.skip (.free rfl) fun read f _ => Spends.ite (fun _ => .ok _) fun _ => .ok _

theorem nameToInodeNr_costs (fuel : Nat) (offset : Int) : Costs l (nameToInodeNr dir name fuel offset) f 0 := by
  induction fuel generalizing f offset with
  | zero => trivial
  | succ fuel ih =>
      refine Spends.skip (next_dirent_costs offset) fun r f _ => ?_
      obtain ⟨d, offset⟩ := r
      cases d with
      | none => exact .ok _
      | some d =>
          refine Spends.ite (fun _ => ih offset) fun _ => Spends.skip .lift fun same f _ => ?_
          exact Spends.ite (fun _ => .ok _) fun _ => ih offset

theorem dir_name_to_inode_nr_costs : Costs l (testfs_dir_name_to_inode_nr dir name) f 0 :=
  Spends.skip (.free rfl) fun _ _ _ => Spends.skip .lift fun _ _ _ => nameToInodeNr_costs _ _

theorem findDirent_costs (inode_nr : Int) (fuel : Nat) (offset : Int) : Costs l (findDirent dir inode_nr fuel offset) f 0 := by
  induction fuel generalizing f offset with
  | zero => trivial
  | succ fuel ih =>
      refine Spends.skip (next_dirent_costs offset) fun r f _ => ?_
      obtain ⟨d, offset⟩ := r
      cases d with
      | none => exact .ok _
      | some d => exact Spends.ite (fun _ => .ok _) fun _ => ih offset

theorem addDirent_costs (len : Int32) (fuel : Nat) (offset : Int) : Costs l (addDirent dir name len fuel offset) f 0 := by
  induction fuel generalizing f offset with
  | zero => trivial
  | succ fuel ih =>
      refine Spends.skip (next_dirent_costs offset) fun r f _ => ?_
      obtain ⟨d, next⟩ := r
      cases d with
      | none => exact .ok _
      | some d =>
          have decided (taken : Bool) (f : Files) : Costs l (if taken then return (-EEXIST, false, offset)
              else if 0 ≤ d.d_inode_nr ∨ d.d_name_len ≠ len then addDirent dir name len fuel next
              else return (0, true, offset)) f 0 :=
            Spends.ite (fun _ => .ok _) fun _ => Spends.ite (fun _ => ih next) fun _ => .ok _
          exact Spends.ite (fun _ => Spends.skip .lift fun taken f _ => decided taken f) fun _ => decided false f

def entryCost (name : Name) : Nat := 3 * ((9 + name.length) / BLOCK_SIZE + 2)

theorem add_dirent_costs (inode_nr : Int) : Costs l (testfs_add_dirent dir name inode_nr) f (entryCost name) := by
  refine Spends.ite (fun _ => trivial) fun _ => Spends.skip (.free rfl) fun _ f _ => Spends.skip .lift fun _ f _ => ?_
  refine Spends.skip (addDirent_costs _ _ _) fun found f _ => Spends.ite (fun _ => .ok _) fun _ => ?_
  refine Spends.skip (.free rfl) fun size f _ => Spends.skip .lift fun _ f _ => Spends.skip .lift fun _ f _ => ?_
  have length : (Dirent.bytes ⟨Int32.ofNat (name.length + 1), Int32.ofInt inode_nr, name ++ [0]⟩).length = 9 + name.length := by
    simp only [Dirent.bytes, List.length_append, Bytes.length_bytes32, List.length_singleton]
    omega
  refine Spends.call.mono ?_
  rw [InodeOp.cost, length]
  exact Nat.le_refl _

theorem removeDirentAllowed_costs (fuel : Nat) (offset : Int) : Costs l (removeDirentAllowed dir fuel offset) f 0 := by
  induction fuel generalizing f offset with
  | zero => trivial
  | succ fuel ih =>
      refine Spends.skip (next_dirent_costs offset) fun r f _ => ?_
      obtain ⟨d, next⟩ := r
      cases d with
      | none => exact .ok _
      | some d =>
          have decided (up : Bool) (f : Files) : Costs l (if up then removeDirentAllowed dir fuel next else return -ENOTEMPTY) f 0 :=
            Spends.ite (fun _ => ih next) fun _ => .ok _
          refine Spends.ite (fun _ => ih next) fun _ => Spends.skip .lift fun own f _ => ?_
          exact Spends.ite (fun _ => decided true f) fun _ => Spends.skip .lift fun up f _ => decided up f

theorem remove_dirent_allowed_costs : Costs l (testfs_remove_dirent_allowed nr) f 0 := by
  have back (ret : Int) (f : Files) : Costs l (do call (InodeOp.testfs_put_inode nr); return ret) f 0 :=
    Spends.skip (.free rfl) fun _ f _ => .ok _
  refine Spends.skip (.free rfl) fun _ f _ => Spends.skip (.free rfl) fun type f _ => ?_
  exact Spends.ite (fun _ => back 0 f) fun _ => Spends.skip (removeDirentAllowed_costs _ _) fun ret f _ => back ret f

theorem read_data_reads {start : Int} {size : Nat} {r : Int × List UInt8} {g : Files}
    (ran : Files.handle l (.testfs_read_data nr start size) f = .ok (r, g)) :
    f = g ∧ r.2.length = size ∧ 0 ≤ start ∧ start + size ≤ (f.node nr).i_size := by
  obtain ⟨read, took, last⟩ := Result.bind_eq_ok.mp ran
  obtain ⟨rfl, rfl⟩ := Prod.mk.inj (Except.ok.inj last)
  obtain ⟨_, -, took⟩ := Result.bind_eq_ok.mp took
  unfold Node.read at took
  split_ifs at took with reads
  rw [← Except.ok.inj took]
  exact ⟨rfl, Bytes.length_slice _ _ _, reads.1, reads.2.1⟩

theorem looked {x : Except Fault β} {look : β → α} {r : α} {g : Files}
    (ran : (x >>= fun b => .ok (look b, f)) = .ok (r, g)) : f = g := by
  obtain ⟨_, -, last⟩ := Result.bind_eq_ok.mp ran
  exact (Prod.mk.inj (Except.ok.inj last)).2

theorem next_dirent_reads {offset : Int} {r : Option Dirent × Int} {g : Files}
    (ran : run (Files.handle l) (testfs_next_dirent dir offset) f = .ok (r, g)) :
    f = g ∧ ∀ d, r.1 = some d → 8 + d.name.length ≤ (f.node dir).i_size.toNat := by
  have ends {s : Option Dirent × Int} (none : s.1 = none) (ran : Except.ok (s, f) = Except.ok (ε := Fault) (r, g)) :
      f = g ∧ ∀ d, r.1 = some d → 8 + d.name.length ≤ (f.node dir).i_size.toNat := by
    obtain ⟨rfl, rfl⟩ := Prod.mk.inj (Except.ok.inj ran)
    exact ⟨rfl, fun d some => by rw [none] at some; cases some⟩
  simp only [testfs_next_dirent, run_bind, run_call, run_lift] at ran
  obtain ⟨⟨type, f1⟩, typed, ran⟩ := Result.bind_eq_ok.mp ran
  obtain rfl := looked (x := f.inode dir) typed
  obtain ⟨⟨_, f2⟩, asserted, ran⟩ := Result.bind_eq_ok.mp ran
  obtain rfl := looked asserted
  obtain ⟨⟨size, f3⟩, sized, ran⟩ := Result.bind_eq_ok.mp ran
  obtain rfl := looked (x := f.inode dir) sized
  split_ifs at ran
  · exact ends rfl ran
  rw [run_bind, run_call] at ran
  obtain ⟨⟨⟨ret, stored⟩, f4⟩, read, ran⟩ := Result.bind_eq_ok.mp ran
  obtain ⟨rfl, -, low, -⟩ := read_data_reads read
  simp only at ran
  split_ifs at ran
  · exact ends rfl ran
  simp only [run_bind, run_call, run_lift] at ran
  obtain ⟨⟨⟨len, number⟩, f5⟩, header, ran⟩ := Result.bind_eq_ok.mp ran
  obtain rfl := looked header
  obtain ⟨⟨_, f6⟩, positive, ran⟩ := Result.bind_eq_ok.mp ran
  obtain rfl := looked positive
  obtain ⟨⟨⟨ret', name⟩, f7⟩, read', ran⟩ := Result.bind_eq_ok.mp ran
  obtain ⟨rfl, length, -, within⟩ := read_data_reads read'
  simp only at ran
  split_ifs at ran
  · exact ends rfl ran
  obtain ⟨rfl, rfl⟩ := Prod.mk.inj (Except.ok.inj ran)
  refine ⟨rfl, fun d some => ?_⟩
  rw [← Option.some.inj some]
  simp only [Dirent.size] at within length ⊢
  omega

def buryCost (size : Int) : Nat := 3 * (size.toNat / BLOCK_SIZE + 2)

theorem removeDirent_costs (fuel : Nat) (offset : Int) :
    Costs l (removeDirent dir name fuel offset) f (buryCost (f.node dir).i_size) := by
  induction fuel generalizing offset with
  | zero => trivial
  | succ fuel ih =>
      refine Spends.skip (next_dirent_costs offset) fun r g ran => ?_
      obtain ⟨rfl, reads⟩ := next_dirent_reads ran
      obtain ⟨d, next⟩ := r
      cases d with
      | none => exact .ok _
      | some d =>
          have inside := reads d rfl
          refine Spends.ite (fun _ => ih next) fun _ => Spends.skip .lift fun same g compared => ?_
          obtain rfl : f = g := looked (x := strcmp d.name name) (by rwa [run_lift] at compared)
          refine Spends.ite (fun _ => ?_) fun _ => ih next
          refine Spends.skip remove_dirent_allowed_costs fun ret g _ => Spends.ite (fun _ => .ok _) fun _ => ?_
          have buried (g : Files) : Costs l (do
              let ret ← call (InodeOp.testfs_write_data dir (Dirent.bytes { d with d_inode_nr := INVALID_INODE_NR }) offset)
              return if 0 ≤ ret then d.d_inode_nr.toInt else ret) g (buryCost (f.node dir).i_size) := by
            refine (Spends.call.bind (n := 0) fun ret g _ => .ok _).mono ?_
            simp only [InodeOp.cost, buryCost, Dirent.bytes, List.length_append, Bytes.length_bytes32, Nat.add_zero]
            exact Nat.mul_le_mul_left 3 (Nat.add_le_add_right (Nat.div_le_div_right (by omega)) 2)
          exact Spends.ite (fun _ => trivial) fun _ => buried g

theorem remove_dirent_costs : Costs l (testfs_remove_dirent dir name) f (buryCost (f.node dir).i_size) :=
  Spends.ite (fun _ => .ok _) fun _ => removeDirent_costs _ _

theorem create_empty_dir_costs (p_nr : Nat) {h : Nat × Bool} (held : f.held nr = some h) (empty : (f.node nr).Directory [])
    (low : nr < 2 ^ 31) : Costs l (testfs_create_empty_dir p_nr nr) f (entryCost dot + entryCost dotdot) := by
  obtain ⟨n, ran, -⟩ := Files.create_empty_dir_run (l := l) p_nr held empty low
  simp only [testfs_create_empty_dir] at ran ⊢
  rw [run_bind] at ran
  obtain ⟨⟨type, f1⟩, typed, ran⟩ := Result.bind_eq_ok.mp ran
  refine Spends.skip (.free rfl) fun type' g typed' => ?_
  obtain ⟨rfl, rfl⟩ := Prod.mk.inj (Except.ok.inj (typed.symm.trans typed'))
  rw [run_bind] at ran
  obtain ⟨⟨_, f2⟩, asserted, ran⟩ := Result.bind_eq_ok.mp ran
  refine Spends.skip .lift fun _ g asserted' => ?_
  obtain ⟨-, rfl⟩ := Prod.mk.inj (Except.ok.inj (asserted.symm.trans asserted'))
  rw [run_bind] at ran
  obtain ⟨⟨ret, f3⟩, first, ran⟩ := Result.bind_eq_ok.mp ran
  refine (add_dirent_costs _).bind fun ret' g first' => ?_
  obtain ⟨rfl, rfl⟩ := Prod.mk.inj (Except.ok.inj (first.symm.trans first'))
  refine Spends.ite (fun _ => .ok _) fun positive => ?_
  simp only [positive, if_false, run_bind] at ran
  obtain ⟨⟨ret, f4⟩, second, ran⟩ := Result.bind_eq_ok.mp ran
  refine (add_dirent_costs _).bind (n := 0) fun ret' g second' => ?_
  obtain ⟨rfl, rfl⟩ := Prod.mk.inj (Except.ok.inj (second.symm.trans second'))
  -- an entry that could not be added would be the result
  refine Spends.ite (fun negative => ?_) fun _ => .ok _
  simp only [negative, if_true, run_bind] at ran
  obtain ⟨removed, -, ran⟩ := Result.bind_eq_ok.mp ran
  obtain ⟨rfl, -⟩ := Prod.mk.inj (Except.ok.inj ran)
  exact absurd negative (lt_irrefl 0)

def makeCost (type : InodeType) (name : Name) : Nat :=
  (if type = I_DIR then entryCost dot + entryCost dotdot else 0) + entryCost name

theorem creating_costs {type : InodeType} (p_nr : Nat → Nat) (link : Nat → DirProg Int)
    (linked : ∀ nr f, Costs l (link nr) f (entryCost name))
    (unused : ∀ nr, nr < NR_INODES → ¬ f.Used nr → f.held nr = none ∧ f.node nr = Node.zero) : Costs l (do
      let (ret, nr) ← call (InodeOp.testfs_create_inode type)
      if ret < 0 then return ret
      else if type = I_DIR then do
        let ret ← testfs_create_empty_dir (p_nr nr) nr
        if ret < 0 then do
          call (InodeOp.testfs_remove_inode nr)
          return ret
        else link nr
      else link nr) f (makeCost type name) := by
  refine Spends.skip (.free rfl) fun made g ran => ?_
  rw [run_call] at ran
  rcases Files.handle_create l f type with ⟨full, -⟩ | ⟨nr, created, low, free, -⟩
  · obtain ⟨rfl, -⟩ := Prod.mk.inj (Except.ok.inj (full.symm.trans ran))
    exact .ok _
  obtain ⟨rfl, rfl⟩ := Prod.mk.inj (Except.ok.inj (created.symm.trans ran))
  refine Spends.ite (fun _ => .ok _) fun _ => ?_
  unfold makeCost
  split_ifs with dir
  · subst dir
    obtain ⟨absent, zeroed⟩ := unused nr low free
    have held : (f.create nr I_DIR).held nr = some (1, true) := by rw [Files.held_create absent, Function.update_self]
    have empty : ((f.create nr I_DIR).node nr).Directory [] := by
      rw [Files.node_create, Function.update_self, zeroed]
      exact ⟨rfl, ⟨rfl, rfl, by simp⟩, by decide⟩
    have small : nr < 2 ^ 31 := by
      simp only [NR_INODES] at low
      omega
    refine (create_empty_dir_costs (p_nr nr) held empty small).bind fun ret g _ => ?_
    exact Spends.ite (fun _ => Spends.skip (.free rfl) fun _ g _ => .ok _) fun _ => linked nr g
  · rw [Nat.zero_add]
    exact linked nr _

theorem create_file_or_dir_costs (cur : Option Nat) (type : InodeType)
    (search : ∀ dir, cur = some dir → ∃ r, run (Files.handle l) (testfs_dir_name_to_inode_nr dir name) f = .ok (r, f))
    (unused : ∀ nr, nr < NR_INODES → ¬ f.Used nr → f.held nr = none ∧ f.node nr = Node.zero) :
    Costs l (testfs_create_file_or_dir cur type name) f (makeCost type name) := by
  have last (nr : Nat) (f : Files) : Costs l (do
      call (InodeOp.testfs_sync_inode nr)
      call (InodeOp.testfs_put_inode nr)
      return (0 : Int)) f 0 := Spends.skip (.free rfl) fun _ f _ => Spends.skip (.free rfl) fun _ f _ => .ok _
  cases cur with
  | none => exact creating_costs id _ (fun nr f => (last nr f).mono (Nat.zero_le _)) unused
  | some dir =>
      obtain ⟨r, searched⟩ := search dir rfl
      refine Spends.skip dir_name_to_inode_nr_costs fun found g ran => Spends.ite (fun _ => .ok _) fun _ => ?_
      obtain ⟨-, rfl⟩ := Prod.mk.inj (Except.ok.inj (searched.symm.trans ran))
      have linked (nr : Nat) (f : Files) : Costs l (do
          let ret ← testfs_add_dirent dir name nr
          if ret < 0 then do
            call (InodeOp.testfs_remove_inode nr)
            return ret
          else do
            call (InodeOp.testfs_sync_inode dir)
            call (InodeOp.testfs_sync_inode nr)
            call (InodeOp.testfs_put_inode nr)
            return (0 : Int)) f (entryCost name) := by
        refine (add_dirent_costs _).bind (n := 0) fun ret f _ => ?_
        refine Spends.ite (fun _ => Spends.skip (.free rfl) fun _ f _ => .ok _) fun _ => ?_
        exact Spends.skip (.free rfl) fun _ f _ => last nr f
      exact creating_costs (fun _ => dir) _ linked unused

theorem pwd_costs (depth : Nat) : Costs l (testfs_pwd depth dir) f 0 := by
  induction depth generalizing f dir with
  | zero => trivial
  | succ depth ih =>
      refine Spends.skip dir_name_to_inode_nr_costs fun p_nr f _ => Spends.skip .lift fun _ f _ => Spends.ite (fun _ => .ok _) fun _ => ?_
      refine Spends.skip (.free rfl) fun _ f _ => ?_
      have found (inode_nr : Int) (f : Files) : Costs l (testfs_find_dirent p_nr.toNat inode_nr) f 0 :=
        Spends.skip (.free rfl) fun _ f _ => Spends.skip .lift fun _ f _ => Spends.skip .lift fun _ f _ => findDirent_costs _ _ _
      refine Spends.skip (found _ _) fun d f _ => ?_
      cases d with
      | none => trivial
      | some d =>
          refine Spends.skip ih fun above f _ => Spends.skip (.free rfl) fun _ f _ => ?_
          exact Spends.skip .lift fun name f _ => .ok _

theorem lsLoop_costs {ls : Nat → DirProg (List Printed)} {recursive : Bool} (below : ∀ nr f, Costs l (ls nr) f 0) (fuel : Nat)
    (offset : Int) : Costs l (lsLoop ls dir recursive fuel offset) f 0 := by
  have entry (d : Dirent) (f : Files) : Costs l (lsEntry ls recursive d) f 0 := by
    have back (type : Int32) (name : Name) (printed : List Printed) (f : Files) : Costs l (do
        call (InodeOp.testfs_put_inode d.d_inode_nr.toInt.toNat)
        return Printed.line name (type = I_DIR.code) :: printed) f 0 := Spends.skip (.free rfl) fun _ f _ => .ok _
    refine Spends.skip (.free rfl) fun _ f _ => Spends.skip (.free rfl) fun type f _ => Spends.skip .lift fun name f _ => ?_
    exact Spends.ite (fun _ => Spends.skip (below _ _) fun printed f _ => back type name printed f) fun _ => back type name [] f
  induction fuel generalizing f offset with
  | zero => trivial
  | succ fuel ih =>
      refine Spends.skip (next_dirent_costs offset) fun r f _ => ?_
      obtain ⟨d, next⟩ := r
      cases d with
      | none => exact .ok _
      | some d =>
          refine Spends.ite (fun _ => ih next) fun _ => Spends.skip (entry d _) fun printed f _ => ?_
          exact Spends.skip (ih next) fun rest f _ => .ok _

theorem ls_costs (recursive : Bool) (depth : Nat) : Costs l (testfs_ls recursive depth dir) f 0 := by
  induction depth generalizing f dir with
  | zero => trivial
  | succ depth ih => exact lsLoop_costs (fun _ _ => ih) _ _

theorem get_file_inode_costs : Costs l (testfs_get_file_inode dir name) f 0 := by
  refine Spends.skip dir_name_to_inode_nr_costs fun inode_nr f _ => Spends.ite (fun _ => .ok _) fun _ => ?_
  refine Spends.skip (.free rfl) fun _ f _ => Spends.skip (.free rfl) fun type f _ => ?_
  exact Spends.ite (fun _ => Spends.skip (.free rfl) fun _ f _ => .ok _) fun _ => .ok _

theorem read_costs (malloc : Nat → Option Bytes.Memory) {cur : Nat} {offset size : Name} :
    Costs l (cmd_read malloc cur [name, offset, size]) f 0 := by
  simp only [cmd_read]
  cases str_to_offset offset with
  | error e => trivial
  | ok start =>
      refine Spends.ite (fun _ => .ok _) fun _ => ?_
      cases str_to_size size with
      | error e => trivial
      | ok len =>
          have back {α : Type} (nr : Nat) (a : α) (f : Files) : Costs l (do call (InodeOp.testfs_put_inode nr); return a) f 0 :=
            Spends.skip (.free rfl) fun _ f _ => .ok _
          refine Spends.skip get_file_inode_costs fun r f _ => Spends.ite (fun _ => .ok _) fun _ => ?_
          refine Spends.skip (.free rfl) fun file_size f _ => Spends.ite (fun _ => back _ _ f) fun _ => ?_
          cases malloc (sizeT (len + 1)) with
          | none => exact back _ _ f
          | some buf =>
              refine Spends.skip (.free rfl) fun read f _ => Spends.ite (fun _ => trivial) fun _ => ?_
              exact Spends.ite (fun _ => back _ _ f) fun _ => Spends.ite (fun _ => trivial) fun _ => back _ _ f

theorem write_costs {cur : Nat} {offset text : Name} :
    Costs l (cmd_write cur [name, offset, text]) f (3 * (text.length / BLOCK_SIZE + 2)) := by
  simp only [cmd_write]
  cases str_to_offset offset with
  | error e => trivial
  | ok start =>
      refine Spends.ite (fun _ => .ok _) fun _ => Spends.skip get_file_inode_costs fun r f _ => ?_
      refine Spends.ite (fun _ => .ok _) fun _ => Spends.call.bind (n := 0) fun ret f _ => ?_
      exact Spends.skip (.free rfl) fun _ f _ => Spends.skip (.free rfl) fun _ f _ => .ok _

end Costs

def Command.cost (size : Int) : Command → List Name → Nat
  | .create, [name] => makeCost I_FILE name
  | .mkdir, [name] => makeCost I_DIR name
  | .rm, [_] => buryCost size
  | .write, [_, _, text] => 3 * (text.length / BLOCK_SIZE + 2)
  | _, _ => 0

section Commands

variable {l : Limit} {f : Files} {cur : Nat} {parent : Nat → Nat} {records : Nat → List Record} (sound : Sound f parent records)
  (resting : Resting f cur)

include sound resting

theorem make_costs (type : InodeType) {name : Name} (proper : 0 ∉ name) :
    Costs l (testfs_create_file_or_dir cur type name) f (makeCost type name) := by
  refine create_file_or_dir_costs _ type (fun dir here => ?_) fun nr low free => ⟨?_, sound.zeroed nr low free⟩
  · obtain rfl := Option.some.inj here
    exact ⟨_, Files.dir_name_to_inode_nr_run sound resting proper⟩
  · have apart : nr ≠ cur := by
      rintro rfl
      exact free resting.dir.1
    rw [resting.held, Function.update_of_ne apart]

theorem command_costs (env : Environment) {command : Command} {args : List Name} (strings : ∀ arg ∈ args, 0 ∉ arg) :
    Costs l (command.func env cur args) f (command.cost (f.node cur).i_size args) := by
  have answer {β : Type} (p : DirProg β) (g : β → Int × Nat × List Output) {n : Nat} (costs : Costs l p f n) :
      Costs l (p >>= fun b => return g b) f n := (costs.bind (n := 0) fun b f _ => .ok _).mono (Nat.le_refl _)
  have lists (recursive : Bool) : Costs l (cmd_ls_internal env.depth cur recursive args) f 0 := by
    rcases args with _ | ⟨name, _ | ⟨second, rest⟩⟩
    · trivial
    · refine Spends.skip dir_name_to_inode_nr_costs fun inode_nr f _ => Spends.ite (fun _ => .ok _) fun _ => ?_
      refine Spends.skip (.free rfl) fun _ f _ => Spends.skip (.free rfl) fun type f _ => Spends.ite (fun _ => ?_) fun _ => .ok _
      exact Spends.skip (ls_costs _ _) fun printed f _ => Spends.skip (.free rfl) fun _ f _ => .ok _
    · trivial
  cases command with
  | cd =>
      refine answer _ _ ?_
      rcases args with _ | ⟨name, _ | ⟨second, rest⟩⟩
      · trivial
      · refine Spends.skip dir_name_to_inode_nr_costs fun inode_nr f _ => Spends.ite (fun _ => .ok _) fun _ => ?_
        refine Spends.skip (.free rfl) fun _ f _ => Spends.skip (.free rfl) fun type f _ => ?_
        exact Spends.ite (fun _ => Spends.skip (.free rfl) fun _ f _ => .ok _) fun _ => Spends.skip (.free rfl) fun _ f _ => .ok _
      · trivial
  | pwd =>
      refine answer _ _ ?_
      rcases args with _ | ⟨name, rest⟩
      · exact Spends.skip (pwd_costs _) fun _ f _ => .ok _
      · trivial
  | ls => exact answer _ _ (lists false)
  | lsr => exact answer _ _ (lists true)
  | create =>
      refine answer _ _ ?_
      rcases args with _ | ⟨name, _ | ⟨second, rest⟩⟩
      · trivial
      · exact make_costs sound resting I_FILE (strings name (by simp))
      · trivial
  | stat =>
      refine answer _ _ ?_
      rcases args with _ | ⟨name, _ | ⟨second, rest⟩⟩
      · trivial
      · refine Spends.skip dir_name_to_inode_nr_costs fun inode_nr f _ => Spends.ite (fun _ => .ok _) fun _ => ?_
        refine Spends.skip (.free rfl) fun _ f _ => Spends.skip (.free rfl) fun type f _ => Spends.skip (.free rfl) fun size f _ => ?_
        exact Spends.skip (.free rfl) fun count f _ => Spends.skip (.free rfl) fun _ f _ => .ok _
      · trivial
  | rm =>
      refine answer _ _ ?_
      rcases args with _ | ⟨name, _ | ⟨second, rest⟩⟩
      · trivial
      · refine remove_dirent_costs.bind (n := 0) fun inode_nr f _ => Spends.ite (fun _ => .ok _) fun _ => ?_
        refine Spends.skip (.free rfl) fun _ f _ => Spends.skip (.free rfl) fun _ f _ => ?_
        exact Spends.skip (.free rfl) fun _ f _ => .ok _
      · trivial
  | mkdir =>
      refine answer _ _ ?_
      rcases args with _ | ⟨name, _ | ⟨second, rest⟩⟩
      · trivial
      · exact make_costs sound resting I_DIR (strings name (by simp))
      · trivial
  | read =>
      refine answer _ _ ?_
      rcases args with _ | ⟨name, _ | ⟨offset, _ | ⟨size, _ | ⟨more, rest⟩⟩⟩⟩
      · trivial
      · trivial
      · trivial
      · exact read_costs env.malloc
      · trivial
  | write =>
      refine answer _ _ ?_
      rcases args with _ | ⟨name, _ | ⟨offset, _ | ⟨text, _ | ⟨more, rest⟩⟩⟩⟩
      · trivial
      · trivial
      · trivial
      · exact write_costs
      · trivial

end Commands

end OperatingSystem.Fs
