import OperatingSystem.Fs.Held

namespace OperatingSystem.Fs

open Bytes

namespace InodeTable

variable {t : InodeTable} {nr : Nat}

end InodeTable

inductive CacheCall
  | get (nr : Nat)
  | store (nr : Nat) (d : DInode)
  | sync (nr : Nat)
  | put (nr : Nat)

def CacheCall.nr : CacheCall → Nat
  | get nr => nr
  | store nr _ => nr
  | sync nr => nr
  | put nr => nr

namespace Testfs

/-- `store` writes to the `in` of an inode in memory and sets `I_FLAGS_DIRTY`. -/
def perform (t : Testfs) : CacheCall → Except Fault Testfs
  | .get nr => t.testfs_get_inode nr
  | .store nr d => do
      let (_, t) ← t.with_inode nr fun p => return ((), (p.setDInode d).setDirty)
      return t
  | .sync nr => t.testfs_sync_inode nr
  | .put nr => t.testfs_put_inode nr

end Testfs

/-- What calls amount to: the inodes last stored and last synced, those stored since, and the calls counted. -/
structure Ledger where
  stored : Nat → DInode
  synced : Nat → DInode
  unsynced : Nat → Bool
  gets : Nat → Nat
  puts : Nat → Nat

namespace Ledger

variable (l : Ledger) (nr : Nat)

def enter : CacheCall → Ledger
  | .get nr => { l with gets := Function.update l.gets nr (l.gets nr + 1) }
  | .store nr d => { l with stored := Function.update l.stored nr d, unsynced := Function.update l.unsynced nr true }
  | .sync nr => { l with
      synced := Function.update l.synced nr (l.stored nr), unsynced := Function.update l.unsynced nr false }
  | .put nr => { l with puts := Function.update l.puts nr (l.puts nr + 1) }

def Held : Prop := l.puts nr < l.gets nr

instance : Decidable (l.Held nr) := inferInstanceAs (Decidable (_ < _))

/-- Only what is held is used, and only what is clean is put back. -/
def Allows : CacheCall → Prop
  | .get nr => nr < NR_INODES
  | .store nr _ => l.Held nr
  | .sync nr => l.Held nr
  | .put nr => l.Held nr ∧ l.unsynced nr = false

def Allowed (l : Ledger) : List CacheCall → Prop
  | [] => True
  | call :: calls => l.Allows call ∧ (l.enter call).Allowed calls

def after (l : Ledger) (calls : List CacheCall) : Ledger := calls.foldl enter l

def inMemory (l : Ledger) (nr : Nat) : Inode where
  dinode := l.stored nr
  dirty := l.unsynced nr
  i_nr := nr
  i_count := l.gets nr - l.puts nr

end Ledger

structure Mirrored (l : Ledger) (t : Testfs) (nr : Nat) : Prop where
  held : l.Held nr → t.inode_hash_table.find nr = some (l.inMemory nr)
  free : ¬ l.Held nr → t.inode_hash_table.find nr = none
  disk : t.sb.inode nr = l.synced nr
  balance : l.puts nr ≤ l.gets nr
  clean : l.unsynced nr = false → l.stored nr = l.synced nr
  settled : ¬ l.Held nr → l.unsynced nr = false
  low : l.Held nr → nr < NR_INODES

abbrev Mirrors (l : Ledger) (t : Testfs) : Prop := ∀ nr, Mirrored l t nr

namespace InodePtr

theorem testfs_sync_inode_stores {p : InodePtr} (low : p.inode.i_nr < NR_INODES) :
    ∃ p', p.testfs_sync_inode = .ok p' ∧ p'.inode = { p.inode with dirty := false } ∧
      (p.inode.dirty = false → p'.sb = p.sb) ∧ (p.inode.dirty = true → p'.sb.inode p.inode.i_nr = p.dinode) ∧
      ∀ m, m ≠ p.inode.i_nr → p'.sb.inode m = p.sb.inode m := by
  unfold testfs_sync_inode
  split_ifs with clean
  · have same : p.inode = { p.inode with dirty := false } := by rw [← clean]
    exact ⟨p, rfl, same, fun _ => rfl, fun dirty => by simp [clean] at dirty, fun _ _ => rfl⟩
  · have inside : p.inode.i_nr / INODES_PER_BLOCK < NR_INODE_BLOCKS := by
      simp only [NR_INODES, INODES_PER_BLOCK, NR_INODE_BLOCKS] at low ⊢
      omega
    simp only [testfs_inode_to_block_nr, assert, inside, if_true]
    refine ⟨_, rfl, rfl, fun tidy => absurd tidy clean, fun _ => ?_, fun m other => ?_⟩
    · simp only [SuperBlock.inode, Function.update_self]
      exact DInode.ofMemory_splice _ _ _
    · simp only [SuperBlock.inode]
      by_cases block : m / INODES_PER_BLOCK = p.inode.i_nr / INODES_PER_BLOCK
      · rw [block, Function.update_self]
        apply DInode.ofMemory_congr
        intro k first last
        simp only [testfs_inode_to_block_offset, INODES_PER_BLOCK, DINODE_SIZE] at block first last ⊢
        by_cases before : k < p.inode.i_nr % 128 * 64
        · exact splice_before before
        · apply splice_after
          rw [DInode.length_bytes, DINODE_SIZE]
          omega
      · rw [Function.update_of_ne (by omega)]

end InodePtr

namespace Mirrors

variable {l : Ledger} {t : Testfs} {nr : Nat} (mirrors : Mirrors l t)
include mirrors

theorem enter {call : CacheCall} {u : Testfs} (here : Mirrored (l.enter call) u call.nr)
    (look : ∀ m, m ≠ call.nr → u.inode_hash_table.find m = t.inode_hash_table.find m)
    (inodes : ∀ m, m ≠ call.nr → u.sb.inode m = t.sb.inode m) : Mirrors (l.enter call) u := by
  intro m
  by_cases same : m = call.nr
  · exact same ▸ here
  · have before := mirrors m
    have others : (l.enter call).stored m = l.stored m ∧ (l.enter call).synced m = l.synced m ∧
        (l.enter call).unsynced m = l.unsynced m ∧ (l.enter call).gets m = l.gets m ∧ (l.enter call).puts m = l.puts m := by
      cases call <;> simp_all [Ledger.enter, CacheCall.nr]
    obtain ⟨stored, synced, unsynced, gets, puts⟩ := others
    have holds : (l.enter call).Held m ↔ l.Held m := by rw [Ledger.Held, Ledger.Held, gets, puts]
    have kept : (l.enter call).inMemory m = l.inMemory m := by
      simp only [Ledger.inMemory, stored, unsynced, gets, puts]
    constructor
    · rw [holds, look m same, kept]
      exact before.held
    · rw [holds, look m same]
      exact before.free
    · rw [inodes m same, synced]
      exact before.disk
    · rw [gets, puts]
      exact before.balance
    · rw [unsynced, stored, synced]
      exact before.clean
    · rw [holds, unsynced]
      exact before.settled
    · rw [holds]
      exact before.low

theorem find_update (held : l.Held nr) (sb : SuperBlock) {i : Inode} (number : i.i_nr = nr) (m : Nat) :
    ({ t with sb }.update i).inode_hash_table.find m = if m = nr then some i else t.inode_hash_table.find m := by
  rw [Testfs.update, InodeTable.find_update, number]
  by_cases here : m = nr
  · subst here
    simp [(mirrors m).held held]
  · simp [here]

theorem get (low : nr < NR_INODES) : ∃ u, t.perform (.get nr) = .ok u ∧ Mirrors (l.enter (.get nr)) u := by
  have before := mirrors nr
  have balance := before.balance
  have now : (l.enter (.get nr)).Held nr := by
    simp only [Ledger.Held, Ledger.enter, Function.update_self]
    omega
  -- both ways the inode is found with what was last stored, and one more holder
  have grown {u : Testfs} (sb : u.sb = t.sb) (look : ∀ m, u.inode_hash_table.find m =
      if m = nr then some ((l.enter (.get nr)).inMemory nr) else t.inode_hash_table.find m) :
      Mirrors (l.enter (.get nr)) u := by
    refine mirrors.enter ⟨fun _ => ?_, fun free => absurd now free, ?_, ?_, before.clean, fun free => absurd now free,
      fun _ => low⟩ (fun m other => (look m).trans (if_neg other)) fun m _ => by rw [sb]
    · exact (look nr).trans (if_pos rfl)
    · exact sb ▸ before.disk
    · exact le_of_lt now
  by_cases held : l.Held nr
  · refine ⟨_, Testfs.testfs_get_inode_held (before.held held), grown rfl fun m => ?_⟩
    have more : l.gets nr - l.puts nr + 1 = l.gets nr + 1 - l.puts nr := by omega
    refine (mirrors.find_update held t.sb rfl m).trans ?_
    simp [Ledger.inMemory, Ledger.enter, more]
  · have absent := before.free held
    refine ⟨_, Testfs.testfs_get_inode_absent absent low, grown rfl fun m => ?_⟩
    have even : l.gets nr = l.puts nr := by
      simp only [Ledger.Held] at held
      omega
    have fresh : t.loaded nr = (l.enter (.get nr)).inMemory nr := by
      have clean := before.settled held
      simp [Testfs.loaded, Ledger.inMemory, Ledger.enter, before.disk, clean, before.clean clean, even]
    refine (@InodeTable.find_insert _ (t.loaded nr) absent m).trans ?_
    rw [fresh]
    rfl

theorem put (held : l.Held nr) (clean : l.unsynced nr = false) :
    ∃ u, t.perform (.put nr) = .ok u ∧ Mirrors (l.enter (.put nr)) u := by
  have before := mirrors nr
  have count : l.puts nr < l.gets nr := held
  have puts : (l.enter (.put nr)).Held nr ↔ l.puts nr + 1 < l.gets nr := by simp [Ledger.Held, Ledger.enter]
  have balance : (l.enter (.put nr)).puts nr ≤ (l.enter (.put nr)).gets nr := by
    simpa [Ledger.enter] using count
  have ran := Testfs.testfs_put_inode_eq (before.held held)
  rw [if_pos (show (l.inMemory nr).dirty = false from clean)] at ran
  refine ⟨_, ran, ?_⟩
  split_ifs with last
  · have gone : ¬ (l.enter (.put nr)).Held nr := by
      rw [puts]
      simp only [Ledger.inMemory] at last
      omega
    refine mirrors.enter ⟨fun held => absurd held gone, fun _ => ?_, before.disk, balance, before.clean, fun _ => clean,
      fun held => absurd held gone⟩ (fun m other => ?_) fun _ _ => rfl
    · exact (InodeTable.find_remove nr nr).trans (if_pos rfl)
    · exact (InodeTable.find_remove nr m).trans (if_neg other)
  · have still : (l.enter (.put nr)).Held nr := by
      rw [puts]
      simp only [Ledger.inMemory] at last
      omega
    have look := mirrors.find_update (i := { l.inMemory nr with i_count := (l.inMemory nr).i_count - 1 }) held t.sb rfl
    have fewer : l.gets nr - l.puts nr - 1 = l.gets nr - (l.puts nr + 1) := by omega
    refine mirrors.enter ⟨fun _ => ?_, fun free => absurd still free, before.disk, balance, before.clean, fun _ => clean,
      fun _ => before.low held⟩ (fun m other => (look m).trans (if_neg other)) fun _ _ => rfl
    refine (look nr).trans ?_
    simp [Ledger.inMemory, Ledger.enter, CacheCall.nr, fewer]

theorem with_inode {α : Type} {f : InodePtr → Except Fault (α × InodePtr)} {a : α} {p : InodePtr} (held : l.Held nr)
    (ran : f ⟨t.sb, l.inMemory nr⟩ = .ok (a, p)) :
    t.with_inode nr f = .ok (a, { t with sb := p.sb }.update p.inode) := by
  simp only [Testfs.with_inode, Testfs.inode, (mirrors nr).held held, Result.ok_bind, ran]
  rfl

theorem store (held : l.Held nr) (d : DInode) :
    ∃ u, t.perform (.store nr d) = .ok u ∧ Mirrors (l.enter (.store nr d)) u := by
  have before := mirrors nr
  have still : (l.enter (.store nr d)).Held nr := held
  have look := mirrors.find_update (i := { l.inMemory nr with dinode := d, dirty := true }) held t.sb rfl
  refine ⟨t.update { l.inMemory nr with dinode := d, dirty := true }, ?_, mirrors.enter ⟨fun _ => ?_,
    fun free => absurd still free, before.disk, before.balance, fun tidy => ?_, fun free => absurd still free,
    fun _ => before.low held⟩ (fun m other => (look m).trans (if_neg other)) fun _ _ => rfl⟩
  · rw [Testfs.perform, mirrors.with_inode held rfl]
    rfl
  · refine (look nr).trans ?_
    simp [Ledger.inMemory, Ledger.enter, CacheCall.nr]
  · simp [Ledger.enter, CacheCall.nr] at tidy

theorem sync (held : l.Held nr) : ∃ u, t.perform (.sync nr) = .ok u ∧ Mirrors (l.enter (.sync nr)) u := by
  have before := mirrors nr
  have still : (l.enter (.sync nr)).Held nr := held
  obtain ⟨p, ran, inode, unchanged, own, others⟩ :=
    InodePtr.testfs_sync_inode_stores (p := ⟨t.sb, l.inMemory nr⟩) (before.low held)
  have look := mirrors.find_update (i := p.inode) held p.sb (by rw [inode]; rfl)
  have disk : p.sb.inode nr = l.stored nr := by
    cases flag : l.unsynced nr with
    | true => exact own flag
    | false => rw [unchanged flag, before.disk, before.clean flag]
  refine ⟨{ t with sb := p.sb }.update p.inode, ?_, mirrors.enter ⟨fun _ => ?_, fun free => absurd still free, ?_,
    before.balance, fun _ => ?_, fun free => absurd still free, fun _ => before.low held⟩ ?_ ?_⟩
  · rw [Testfs.perform, Testfs.testfs_sync_inode, mirrors.with_inode held (by rw [ran]; rfl)]
    rfl
  · refine (look nr).trans ?_
    rw [if_pos rfl, inode]
    simp [Ledger.inMemory, Ledger.enter, CacheCall.nr]
  · refine disk.trans ?_
    simp [Ledger.enter, CacheCall.nr]
  · simp [Ledger.enter, CacheCall.nr]
  · exact fun m other => (look m).trans (if_neg other)
  · exact others

theorem perform {call : CacheCall} (allowed : l.Allows call) : ∃ u, t.perform call = .ok u ∧ Mirrors (l.enter call) u := by
  cases call with
  | get nr => exact mirrors.get allowed
  | store nr d => exact mirrors.store allowed d
  | sync nr => exact mirrors.sync allowed
  | put nr => exact mirrors.put allowed.1 allowed.2

end Mirrors

theorem Mirrors.run {l : Ledger} {t : Testfs} {calls : List CacheCall} (mirrors : Mirrors l t) (allowed : l.Allowed calls) :
    ∃ u, calls.foldlM Testfs.perform t = .ok u ∧ Mirrors (l.after calls) u := by
  induction calls generalizing l t with
  | nil => exact ⟨t, rfl, mirrors⟩
  | cons call calls ih =>
      obtain ⟨u, performed, after⟩ := mirrors.perform allowed.1
      obtain ⟨v, ran, last⟩ := ih after allowed.2
      refine ⟨v, ?_, last⟩
      rw [List.foldlM_cons, performed]
      exact ran

end OperatingSystem.Fs
