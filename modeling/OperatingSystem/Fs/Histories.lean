import OperatingSystem.Fs.Settled
import OperatingSystem.Library.Run

namespace OperatingSystem.Fs

open Prog Transition
open Result (bind_eq_ok)

def Namespace.Allows (l : Limit) (v : Namespace) (size : Int) : Action → Prop
  | .command issued => v.Fits l issued.env size issued.command issued.args
  | .fsstat _ | .restart => True

namespace Session

variable {l : Limit} {c c' : Session} {v : Namespace} {label : Action × Answer} {labels : List (Action × Answer)}

/-- An action that keeps to what the tree of names asks is taken, and no allocation has failed. -/
structure Proceeds (l : Limit) (c : Session) (label : Action × Answer) (c' : Session) : Prop where
  taken : Takes step c label c'
  stored : ¬ c'.fs.Failed
  allowed : ∀ v, c.Shows v → v.Allows l c.size label.1

theorem handle_command_eq_ok {issued : Issued} {ret : Int} {out : List Output} (ran : c.handle_command issued = .ok (c', ret, out)) :
    ∃ r, run Testfs.handle (issued.command.func issued.env c.cur_dir issued.args) c.fs = .ok (r, c'.fs) := by
  obtain ⟨⟨r, fs⟩, called, rest⟩ := bind_eq_ok.mp ran
  obtain ⟨rfl, -⟩ := Prod.mk.inj (Except.ok.inj rest)
  exact ⟨r, called⟩

theorem answers (shows : c.Shows v) (good : ¬ c.fs.Failed) (next : c.Proceeds l label c') : ∃ v', v.Answers label v' ∧ c'.Shows v' := by
  obtain ⟨action, answer⟩ := label
  obtain ⟨taken, stored, allowed⟩ := next
  have allows := allowed v shows
  cases action with
  | command issued =>
      obtain ⟨⟨last, ret, out⟩, ran, rest⟩ := bind_eq_ok.mp taken
      obtain ⟨rfl, rfl⟩ := Prod.mk.inj (Except.ok.inj rest)
      cases command_handles shows good issued allows with
      | obeys obeys =>
          obtain ⟨u, ret', out', v', ran', does, shows', -⟩ := obeys
          obtain ⟨rfl, same⟩ := Prod.mk.inj (Except.ok.inj (ran'.symm.trans ran))
          obtain ⟨rfl, rfl⟩ := Prod.mk.inj same
          exact ⟨v', does, shows'⟩
      | fails fails =>
          obtain ⟨r, called⟩ := handle_command_eq_ok ran
          exact absurd ((handle_agrees l).meets_last fails called) stored
      | strays ended => cases ended.symm.trans ran
  | fsstat args =>
      obtain ⟨rfl, rfl⟩ := Prod.mk.inj (Except.ok.inj taken)
      refine ⟨v, ?_, shows⟩
      cases args with
      | nil => exact ⟨rfl, rfl, _, _, rfl, inodes_counted shows⟩
      | cons => exact ⟨rfl, rfl, rfl⟩
  | restart =>
      obtain ⟨dev, u, quits, started, shows', -⟩ := restarts shows
      obtain ⟨dev', quits', rest⟩ := bind_eq_ok.mp taken
      obtain rfl := Except.ok.inj (quits.symm.trans quits')
      obtain ⟨u', started', rest⟩ := bind_eq_ok.mp rest
      obtain rfl := Except.ok.inj (started.symm.trans started')
      obtain ⟨rfl, rfl⟩ := Prod.mk.inj (Except.ok.inj rest)
      exact ⟨_, rfl, shows'⟩

theorem restart_proceeds (shows : c.Shows v) : ∃ u, c.Proceeds l (.restart, .restart) u := by
  obtain ⟨dev, u, quits, started, -, fine⟩ := restarts shows
  refine ⟨u, ?_, fine, fun _ _ => trivial⟩
  rw [Takes, step, quits, Result.ok_bind, started]
  rfl

theorem obeys_proceeds {issued : Issued} (obeys : c.Obeys v issued)
    (fits : ∀ v, c.Shows v → v.Fits l issued.env c.size issued.command issued.args) :
    ∃ ret out u, c.Proceeds l (.command issued, .command ret out) u := by
  obtain ⟨u, ret, out, v', ran, -, -, stored⟩ := obeys
  refine ⟨ret, out, u, ?_, stored, fits⟩
  rw [Takes, step, ran]
  rfl

theorem command_leaves {issued : Issued} {ret : Int} {out : List Output} (shows : c.Shows v) (good : ¬ c.fs.Failed)
    (other : issued.command ≠ .stat) (fits : v.Fits l issued.env c.size issued.command issued.args)
    (taken : Takes step c (.command issued, .command ret out) c') (room : issued.command.cost c.size issued.args ≤ c.fs.sb.free) :
    c.fs.sb.free ≤ c'.fs.sb.free + issued.command.cost c.size issued.args := by
  obtain ⟨f, same, within, parent, records, shown⟩ := shows
  have size : (f.node c.cur_dir).i_size = c.size := (same.node c.cur_dir shown.resting.dir.1.1).i_size
  rw [← size] at fits room ⊢
  obtain ⟨ret', cur', out', f', v', ran, -, -⟩ :=
    Files.command_does ⟨parent, records, shown⟩ issued.env issued.strings other fits
  have costs := @command_costs l f c.cur_dir parent records shown.sound shown.resting issued.env issued.command issued.args issued.strings
  obtain ⟨⟨u, r, o⟩, handled, rest⟩ := bind_eq_ok.mp taken
  cases rest
  obtain ⟨r, called⟩ := handle_command_eq_ok handled
  exact (handle_agrees l).leaves handle_affords _ same good called ran costs room

section Made

variable {dev : Disk} {fs_size_mb : UInt64} (made : fresh dev fs_size_mb = .ok c)
include made

theorem made_shows : c.Shows .empty ∧ ¬ c.fs.Failed := by
  obtain ⟨image, made', -⟩ := bind_eq_ok.mp made
  obtain ⟨max_fs_blocks, size, -⟩ := bind_eq_ok.mp made'
  obtain ⟨u, fresh, shows, fine, -⟩ := fresh_shows dev size
  obtain rfl := Except.ok.inj (fresh.symm.trans made)
  exact ⟨shows, fine⟩

/-- A tree of names goes along with every history. -/
theorem followed (run : Run (Proceeds l) c labels c') :
    ∃ v, Run Namespace.Answers .empty labels v ∧ c'.Shows v ∧ ¬ c'.fs.Failed := by
  refine run.history (fun labels c' => ∃ v, Run Namespace.Answers .empty labels v ∧ c'.Shows v ∧ ¬ c'.fs.Failed) ?_ ?_
  · exact ⟨_, .start, (made_shows made).1, (made_shows made).2⟩
  · rintro labels t label u ⟨v, names, shows, fine⟩ next
    obtain ⟨v', answered, shows'⟩ := answers shows fine next
    exact ⟨v', .step names answered, shows', next.stored⟩

end Made

def mkdirA : Issued := ⟨⟨fun _ => none, 0⟩, .mkdir, [[97]], by decide⟩

theorem mkdir_proceeds (l : Limit) : ∃ c c' ret out, fresh (fun _ => zero) 1 = .ok c ∧
    (∀ v : Namespace, v.Fits l mkdirA.env c.size mkdirA.command mkdirA.args) ∧
    mkdirA.command.cost c.size mkdirA.args ≤ c.fs.sb.free ∧ c.Proceeds l (.command mkdirA, .command ret out) c' := by
  obtain ⟨c, made, shows, fine, size, free⟩ := fresh_shows (fun _ => zero) (show fsBlocks 1 = .ok 128 from rfl)
  have cost : mkdirA.command.cost c.size mkdirA.args = 18 := rfl
  have whole : (128 : UInt64).toNat = 128 := rfl
  have room : mkdirA.command.cost c.size mkdirA.args ≤ c.fs.sb.free := by omega
  have fits (l : Limit) (v : Namespace) : v.Fits l mkdirA.env c.size mkdirA.command mkdirA.args := by
    rw [size]
    exact ⟨by decide, by decide⟩
  rcases command_returns shows fine mkdirA (fits .near .empty) room with obeys | ⟨e, -, stray⟩
  · obtain ⟨ret, out, c', next⟩ := obeys_proceeds obeys fun v _ => fits l v
    exact ⟨c, c', ret, out, made, fits l, room, next⟩
  · exact absurd stray (not_stray_near e)

def mkdirLabels (ret : Int) (out : List Output) (counts : Option (UInt32 × UInt32)) : List (Action × Answer) :=
  [(.command mkdirA, .command ret out), (.fsstat [], .fsstat 0 counts), (.restart, .restart)]

theorem mkdir_run (l : Limit) : ∃ c c' ret out counts, fresh (fun _ => zero) 1 = .ok c ∧
    Run (Proceeds l) c (mkdirLabels ret out counts) c' := by
  obtain ⟨c, t, ret, out, made, -, -, first⟩ := mkdir_proceeds l
  obtain ⟨v, -, shows⟩ := answers (made_shows made).1 (made_shows made).2 first
  obtain ⟨u, again⟩ := restart_proceeds (l := l) shows
  have second : t.Proceeds l (.fsstat [], .fsstat 0 _) t := ⟨rfl, first.stored, fun _ _ => trivial⟩
  exact ⟨c, u, ret, out, _, made, ((Run.single first).step second).step again⟩

variable {dev : Disk} {fs_size_mb : UInt64}

/-- The answers of any number of runs of the program are those of one tree of names, and it is all that shows. -/
theorem history_refines (made : fresh dev fs_size_mb = .ok c) (run : Run (Proceeds .far) c labels c') :
    ∃ v, Run Namespace.Answers .empty labels v ∧ c'.Shows v ∧ ∀ v', c'.Shows v' → v' = v := by
  obtain ⟨v, names, shows, -⟩ := followed made run
  exact ⟨v, names, shows, fun _ => shows.unique⟩

theorem history_refines_mkdir : ∃ c c' ret out counts, fresh (fun _ => zero) 1 = .ok c ∧
    Run (Proceeds .far) c (mkdirLabels ret out counts) c' ∧
    ∃ v, Run Namespace.Answers .empty (mkdirLabels ret out counts) v ∧ c'.Shows v ∧ ∀ v', c'.Shows v' → v' = v := by
  obtain ⟨c, c', ret, out, counts, made, run⟩ := mkdir_run .far
  exact ⟨c, c', ret, out, counts, made, run, history_refines made run⟩

theorem history_blocks (made : fresh dev fs_size_mb = .ok c) (run : Run (Proceeds .far) c labels c') : c'.fs.Blocks := by
  obtain ⟨v, -, ⟨f, same, -, parent, records, shown⟩, -⟩ := followed made run
  exact same.blocks shown.sound

theorem history_blocks_mkdir : ∃ c c' ret out counts, fresh (fun _ => zero) 1 = .ok c ∧
    Run (Proceeds .far) c (mkdirLabels ret out counts) c' ∧
    c'.fs.Blocks := by
  obtain ⟨c, c', ret, out, counts, made, run⟩ := mkdir_run .far
  exact ⟨c, c', ret, out, counts, made, run, history_blocks made run⟩

theorem history_tree (made : fresh dev fs_size_mb = .ok c) (run : Run (Proceeds .far) c labels c') :
    ∃ parent records, c'.fs.Hangs parent records ∧ c'.fs.Dir c'.cur_dir ∧
      c'.fs.sb.sb.used_inode_count.toNat = {nr | c'.fs.Used nr}.ncard := by
  obtain ⟨v, -, shows, -⟩ := followed made run
  have counted := inodes_counted shows
  obtain ⟨f, same, -, parent, records, shown⟩ := shows
  refine ⟨parent, records, same.hangs shown.sound, same.dir_iff.mpr shown.resting.dir, ?_⟩
  have used : {nr | c'.fs.Used nr} = {nr | f.Used nr} := Set.ext fun nr => same.used_iff
  rw [counted, shown.tree, Files.ncard_tree shown.sound, used]

theorem history_tree_mkdir : ∃ c c' ret out counts, fresh (fun _ => zero) 1 = .ok c ∧
    Run (Proceeds .far) c (mkdirLabels ret out counts) c' ∧
    ∃ parent records, c'.fs.Hangs parent records ∧ c'.fs.Dir c'.cur_dir ∧
      c'.fs.sb.sb.used_inode_count.toNat = {nr | c'.fs.Used nr}.ncard := by
  obtain ⟨c, c', ret, out, counts, made, run⟩ := mkdir_run .far
  exact ⟨c, c', ret, out, counts, made, run, history_tree made run⟩

/-- What is in memory is on the disk, and a run that finds the disk as it is shows the same tree. -/
theorem history_stored (made : fresh dev fs_size_mb = .ok c) (run : Run (Proceeds .far) c labels c') :
    Reopens c'.fs.sb.dev c'.fs.sb ∧ (∀ nr, (Testfs.opened c'.fs.sb.dev).dinode nr = c'.fs.dinode nr) ∧
      (∀ nr, (Testfs.opened c'.fs.sb.dev).bytes nr = c'.fs.bytes nr) ∧
      ∃ v u, c'.Shows v ∧ start c'.fs.sb.dev = .ok u ∧ u.Shows { v with cwd := [] } := by
  obtain ⟨v, -, shows, -⟩ := followed made run
  obtain ⟨u, started, again, -⟩ := rereads shows
  obtain ⟨f, same, -, parent, records, shown⟩ := id shows
  have stored := same.consistent.accounts.onDisk.stored
  have dinode (nr : Nat) : (Testfs.opened c'.fs.sb.dev).dinode nr = c'.fs.dinode nr := by
    rw [same.dinode_stored shown.resting, SuperBlock.inode, ← stored.sb]
    rfl
  refine ⟨stored, dinode, fun nr => ?_, v, u, shows, started, again⟩
  rw [Testfs.bytes, Testfs.bytes, dinode]
  rfl

theorem history_stored_mkdir : ∃ c c' ret out counts, fresh (fun _ => zero) 1 = .ok c ∧
    Run (Proceeds .far) c (mkdirLabels ret out counts) c' ∧
    Reopens c'.fs.sb.dev c'.fs.sb ∧ (∀ nr, (Testfs.opened c'.fs.sb.dev).dinode nr = c'.fs.dinode nr) ∧
      (∀ nr, (Testfs.opened c'.fs.sb.dev).bytes nr = c'.fs.bytes nr) ∧
      ∃ v u, c'.Shows v ∧ start c'.fs.sb.dev = .ok u ∧ u.Shows { v with cwd := [] } := by
  obtain ⟨c, c', ret, out, counts, made, run⟩ := mkdir_run .far
  exact ⟨c, c', ret, out, counts, made, run, history_stored made run⟩

/-- The current directory is held once and has no changes to store; nothing else is held, and the program can end. -/
theorem history_references (made : fresh dev fs_size_mb = .ok c) (run : Run (Proceeds .far) c labels c') :
    (∀ nr, (c'.fs.inode_hash_table.find nr).map Inode.reference = if nr = c'.cur_dir then some (1, false) else none) ∧
      ∃ image, c'.quit = .ok image ∧ Reopens image c'.fs.sb := by
  obtain ⟨v, -, shows, -⟩ := followed made run
  obtain ⟨-, -, -, put, -⟩ := put_last shows
  obtain ⟨f, same, -, parent, records, shown⟩ := shows
  refine ⟨fun nr => ?_, testfs_close_super_block c'.fs.sb, ?_, closed_stored same.consistent.accounts.layout⟩
  · rw [← same.held, shown.resting.held, Function.update_apply]
  · rw [Session.quit, put, Result.ok_bind, close_empty]

theorem history_references_mkdir : ∃ c c' ret out counts, fresh (fun _ => zero) 1 = .ok c ∧
    Run (Proceeds .far) c (mkdirLabels ret out counts) c' ∧
    (∀ nr, (c'.fs.inode_hash_table.find nr).map Inode.reference = if nr = c'.cur_dir then some (1, false) else none) ∧
      ∃ image, c'.quit = .ok image ∧ Reopens image c'.fs.sb := by
  obtain ⟨c, c', ret, out, counts, made, run⟩ := mkdir_run .far
  exact ⟨c, c', ret, out, counts, made, run, history_references made run⟩

/-- A command that keeps to what the tree asks returns, unless an allocation fails or a lookup strays past the indirect block; with room for
what it costs no allocation fails. -/
theorem history_progress (made : fresh dev fs_size_mb = .ok c) (run : Run (Proceeds l) c labels c') (issued : Issued)
    (fits : ∀ v, c'.Shows v → v.Fits l issued.env c'.size issued.command issued.args) :
    (∃ ret out u, c'.Proceeds l (.command issued, .command ret out) u) ∨
      (c'.FailsIn issued ∧ c'.fs.sb.free < issued.command.cost c'.size issued.args) ∨
        ∃ e, c'.handle_command issued = .error e ∧ Stray l e := by
  obtain ⟨v, -, shows, fine⟩ := followed made run
  have allowed := fits v shows
  by_cases room : issued.command.cost c'.size issued.args ≤ c'.fs.sb.free
  · rcases command_returns shows fine issued allowed room with obeys | stray
    · exact Or.inl (obeys_proceeds obeys fits)
    · exact Or.inr (Or.inr stray)
  · cases command_handles shows fine issued allowed with
    | obeys obeys => exact Or.inl (obeys_proceeds obeys fits)
    | fails fails => exact Or.inr (Or.inl ⟨fails, not_le.mp room⟩)
    | strays ended stray => exact Or.inr (Or.inr ⟨_, ended, stray⟩)

theorem history_progress_mkdir : ∃ c, fresh (fun _ => zero) 1 = .ok c ∧
    ((∃ ret out u, c.Proceeds .near (.command mkdirA, .command ret out) u) ∨
      (c.FailsIn mkdirA ∧ c.fs.sb.free < mkdirA.command.cost c.size mkdirA.args) ∨
        ∃ e, c.handle_command mkdirA = .error e ∧ Stray .near e) := by
  obtain ⟨c, -, -, -, made, fits, -⟩ := mkdir_proceeds .near
  exact ⟨c, made, history_progress made .start mkdirA fun v _ => fits v⟩

/-- With room for what a command costs, it leaves all the free blocks but these. -/
theorem history_costs (made : fresh dev fs_size_mb = .ok c) (run : Run (Proceeds l) c labels c') {issued : Issued} {ret : Int}
    {out : List Output} {u : Session} (next : c'.Proceeds l (.command issued, .command ret out) u)
    (other : issued.command ≠ .stat) (room : issued.command.cost c'.size issued.args ≤ c'.fs.sb.free) :
    c'.fs.sb.free ≤ u.fs.sb.free + issued.command.cost c'.size issued.args := by
  obtain ⟨v, -, shows, fine⟩ := followed made run
  exact command_leaves shows fine other (next.allowed v shows) next.taken room

theorem history_costs_mkdir : ∃ c u ret out, fresh (fun _ => zero) 1 = .ok c ∧ c.Proceeds .near (.command mkdirA, .command ret out) u ∧
    c.fs.sb.free ≤ u.fs.sb.free + mkdirA.command.cost c.size mkdirA.args := by
  obtain ⟨c, u, ret, out, made, -, room, next⟩ := mkdir_proceeds .near
  exact ⟨c, u, ret, out, made, next, history_costs made .start next (by decide) room⟩

/-- `mktestfs` accepts 1 to 8192 megabytes and then always makes a file system, on which `testfs` starts with one inode, the root. -/
theorem mktestfs_makes (dev : Disk) (fs_size_mb : UInt64) :
    if 1 ≤ fs_size_mb.toNat ∧ fs_size_mb.toNat ≤ 8192 then
      ∃ c, fresh dev fs_size_mb = .ok c ∧ c.Shows .empty ∧ ¬ c.fs.Failed ∧ c.fs.sb.sb.used_inode_count.toNat = 1
    else fresh dev fs_size_mb = .error .exit := by
  have accepts := fsBlocks_iff fs_size_mb
  split_ifs at accepts ⊢
  · obtain ⟨max_fs_blocks, size⟩ := accepts
    obtain ⟨c, fresh, shows, fine, -⟩ := fresh_shows dev size
    have only : {p | Namespace.empty.tree p ≠ none} = {[]} := by
      ext p
      by_cases root : p = []
      · simp [Namespace.empty, root]
      · simp [Namespace.empty, root]
    refine ⟨c, fresh, shows, fine, ?_⟩
    rw [inodes_counted shows, only, Set.ncard_singleton]
  · rw [fresh, mktestfs, accepts]
    rfl

end Session

end OperatingSystem.Fs
