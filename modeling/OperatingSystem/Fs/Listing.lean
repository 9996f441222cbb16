import OperatingSystem.Fs.Held
import OperatingSystem.Library.Tree

namespace OperatingSystem.Fs

open Prog InodeType Testfs

def Record.Child (r : Record) : Prop := r.Live ∧ r.name ≠ dot ∧ r.name ≠ dotdot

instance (r : Record) : Decidable r.Child := inferInstanceAs (Decidable (_ ∧ _))

def Testfs.IsDir (t : Testfs) (nr : Nat) : Prop := (t.dinode nr).i_type = I_DIR.code

instance (t : Testfs) (nr : Nat) : Decidable (t.IsDir nr) := inferInstanceAs (Decidable (_ = _))

def Record.Descends (t : Testfs) (r : Record) : Prop := r.Child ∧ t.IsDir r.number

instance (t : Testfs) (r : Record) : Decidable (r.Descends t) := inferInstanceAs (Decidable (_ ∧ _))

def entryLines (t : Testfs) (below : Nat → List Printed) (r : Record) : List Printed :=
  if r.Live then
    .line r.name (t.IsDir r.number) :: if r.Descends t then below r.number else []
  else []

/-- Every entry is read, and every inode that is named is clean. -/
def Fine (t : Testfs) (p : InodePtr) (offset : Nat) (records : List Record) : Prop :=
  Smooth p offset records ∧ ∀ r ∈ records, r.Live → t.Clean r.number

def Lists (t : Testfs) (ls : Nat → DirProg (List Printed)) (good : Nat → Prop) (below : Nat → List Printed) (nr : Nat) : Prop :=
  ∀ u x, Same t u → u.Holds nr → (run Testfs.handle (ls nr) u = .ok x ↔ good nr ∧ x = (below nr, u))

section Loop

variable {t t' : Testfs} {ls : Nat → DirProg (List Printed)} {good : Nat → Prop} {below : Nat → List Printed}
  (same : Same t t') {offset fuel : Nat} {r : Record} {records : List Record}
include same

omit same in
theorem lsEntry_eq {u : Testfs} {d : Dirent} (get : t'.testfs_get_inode d.d_inode_nr.toInt.toNat = .ok u)
    (got : Got t t' d.d_inode_nr.toInt.toNat u) : run Testfs.handle (lsEntry ls true d) t' =
      cstring d.name >>= fun name =>
        (if t.IsDir d.d_inode_nr.toInt.toNat ∧ name ≠ dot ∧ name ≠ dotdot then run Testfs.handle (ls d.d_inode_nr.toInt.toNat) u
          else .ok ([], u)) >>= fun x => x.2.testfs_put_inode d.d_inode_nr.toInt.toNat >>= fun v =>
            .ok (.line name (t.IsDir d.d_inode_nr.toInt.toNat) :: x.1, v) := by
  have inside := got.same.opens got.holds
  have getting : Testfs.handle (.testfs_get_inode d.d_inode_nr.toInt.toNat) t' = .ok ((), u) := by
    rw [Testfs.handle, get]
    rfl
  simp only [lsEntry, run_bind, run_call, getting, Result.ok_bind, handle_type inside, run_lift]
  cases cstring d.name with
  | error e => rfl
  | ok name =>
      simp only [Result.ok_bind, true_and]
      change run Testfs.handle (if t.IsDir d.d_inode_nr.toInt.toNat ∧ name ≠ dot ∧ name ≠ dotdot then _ else _) u = _
      have finish (x : List Printed × Testfs) : run Testfs.handle (call (InodeOp.testfs_put_inode d.d_inode_nr.toInt.toNat) >>=
            fun _ => return .line name (t.IsDir d.d_inode_nr.toInt.toNat) :: x.1) x.2 =
          x.2.testfs_put_inode d.d_inode_nr.toInt.toNat >>= fun v =>
            .ok (.line name (t.IsDir d.d_inode_nr.toInt.toNat) :: x.1, v) := by
        rw [run_bind, run_call, Testfs.handle]
        cases x.2.testfs_put_inode d.d_inode_nr.toInt.toNat with
        | error e => rfl
        | ok v => rfl
      split_ifs with descends
      · rw [run_bind]
        exact congrArg _ (funext finish)
      · exact finish ([], u)

omit same in
theorem put_eq_ok {nr : Nat} {u : Testfs} (got : Got t t' nr u) {α : Type} (a : α) (x) :
    (u.testfs_put_inode nr >>= fun v => .ok (a, v)) = (.ok x : Except Fault (α × Testfs)) ↔ t.Clean nr ∧ x = (a, t') := by
  by_cases tidy : t.Clean nr
  · rw [got.put tidy, Result.ok_bind, Except.ok.injEq]
    exact ⟨fun shape => ⟨tidy, shape.symm⟩, fun both => both.2.symm⟩
  · rw [got.fails tidy, Result.error_bind]
    simp [tidy]

theorem lsEntry_eq_ok (live : r.Live) (low : r.number < NR_INODES) (lists : r.Descends t → Lists t ls good below r.number)
    (x) : run Testfs.handle (lsEntry ls true (r.dirent offset)) t' = .ok x ↔
      r.Legible offset ∧ t.Clean r.number ∧ (r.Descends t → good r.number) ∧ x = (entryLines t below r, t') := by
  obtain ⟨u, get, got⟩ := get_inode_got same low
  have entry := @lsEntry_eq t t' ls u (r.dirent offset) get got
  rw [entry]
  change cstring (r.stored offset) >>= _ = _ ↔ _
  by_cases legible : r.Legible offset
  · have descends : t.IsDir r.number ∧ r.name ≠ dot ∧ r.name ≠ dotdot ↔ r.Descends t :=
      ⟨fun ⟨type, names⟩ => ⟨⟨live, names⟩, type⟩, fun ⟨⟨_, names⟩, type⟩ => ⟨type, names⟩⟩
    rw [Record.cstring_stored legible, Result.ok_bind]
    change (if t.IsDir r.number ∧ r.name ≠ dot ∧ r.name ≠ dotdot then run Testfs.handle (ls r.number) u else .ok ([], u)) >>=
      (fun x => x.2.testfs_put_inode r.number >>= fun v => .ok (.line r.name (t.IsDir r.number) :: x.1, v)) = _ ↔ _
    rw [if_congr descends rfl rfl, entryLines, if_pos live]
    by_cases here : r.Descends t
    · have answer := fun y => lists here u y got.same got.holds
      simp only [here, if_true, forall_const, legible, true_and]
      by_cases well : good r.number
      · rw [(answer _).mpr ⟨well, rfl⟩, Result.ok_bind, put_eq_ok got]
        simp [well]
      · have stuck (y) : run Testfs.handle (ls r.number) u ≠ .ok y := fun ran => well ((answer y).mp ran).1
        simp [well, stuck]
    · simp only [here, if_false, false_implies, legible, true_and, Result.ok_bind]
      exact put_eq_ok got _ x
  · have runs : cstring (r.stored offset) = .error .uninitialised := cstring_unterminated legible
    rw [runs, Result.error_bind]
    simp [legible]

variable {dir : Nat} (directory : Directory (t.view dir)) (holds : t'.Holds dir)
include directory holds

theorem lsLoop_end (listed : Listed (t.view dir) offset []) (x) :
    run Testfs.handle (lsLoop ls dir true (fuel + 1) offset) t' = .ok x ↔ x = ([], t') := by
  rw [lsLoop, run_bind, next_dirent_end (same.opens holds) directory listed, Result.ok_bind]
  exact ⟨fun ran => (Except.ok.inj ran).symm, fun shape => shape ▸ rfl⟩

theorem lsLoop_strays (listed : Listed (t.view dir) offset (r :: records)) (strays : ¬ r.Readable (t.view dir) offset) :
    run Testfs.handle (lsLoop ls dir true (fuel + 1) offset) t' = .error .outOfTable := by
  rw [lsLoop, run_bind, next_dirent_strays (same.opens holds) directory listed strays, Result.error_bind]

theorem lsLoop_cons (listed : Listed (t.view dir) offset (r :: records)) (readable : r.Readable (t.view dir) offset) :
    run Testfs.handle (lsLoop ls dir true (fuel + 1) offset) t' =
      if r.Live then run Testfs.handle (lsEntry ls true (r.dirent offset)) t' >>= fun x =>
          run Testfs.handle (lsLoop ls dir true fuel (offset + r.size : Nat)) x.2 >>= fun y => .ok (x.1 ++ y.1, y.2)
      else run Testfs.handle (lsLoop ls dir true fuel (offset + r.size : Nat)) t' := by
  rw [lsLoop, run_bind, next_dirent_cons (same.opens holds) directory listed readable, Result.ok_bind]
  change run Testfs.handle (if r.d_inode_nr < 0 then _ else _) t' = _
  by_cases live : r.Live
  · rw [if_neg (Record.live_iff.mpr live), if_pos live]
    simp only [run_bind]
    rfl
  · have gone : r.d_inode_nr < 0 := by
      by_contra alive
      exact live (Record.live_iff.mp alive)
    rw [if_pos gone, if_neg live]

theorem lsLoop_eq_ok (listed : Listed (t.view dir) offset records) (enough : records.length < fuel)
    (low : ∀ r ∈ records, r.Live → r.number < NR_INODES)
    (lists : ∀ r ∈ records, r.Descends t → Lists t ls good below r.number) (x) :
    run Testfs.handle (lsLoop ls dir true fuel offset) t' = .ok x ↔
      Fine t (t.view dir) offset records ∧ (∀ r ∈ records, r.Descends t → good r.number) ∧
        x = (records.flatMap (entryLines t below), t') := by
  induction records generalizing offset fuel x with
  | nil =>
      obtain _ | fuel := fuel
      · simp at enough
      rw [lsLoop_end same directory holds listed]
      simp [Fine, Smooth]
  | cons r records ih =>
      obtain _ | fuel := fuel
      · simp at enough
      obtain ⟨-, -, -, listed'⟩ := listed.cons
      by_cases readable : r.Readable (t.view dir) offset
      · rw [lsLoop_cons same directory holds listed readable]
        have rest := ih listed' (by simpa using enough) (fun r' inside => low r' (List.mem_cons_of_mem _ inside))
          fun r' inside => lists r' (List.mem_cons_of_mem _ inside)
        by_cases live : r.Live
        · have entry := @lsEntry_eq_ok t t' ls good below same offset r live (low r List.mem_cons_self live)
            (lists r List.mem_cons_self)
          rw [if_pos live, Result.bind_eq_ok]
          constructor
          · rintro ⟨a, ran, more⟩
            obtain ⟨legible, clean, well, rfl⟩ := (entry a).mp ran
            obtain ⟨y, ran', shape⟩ := Result.bind_eq_ok.mp more
            obtain ⟨⟨smooth, tidy⟩, wells, rfl⟩ := (rest y).mp ran'
            exact ⟨⟨⟨readable, fun _ => legible, smooth⟩, List.forall_mem_cons.mpr ⟨fun _ => clean, tidy⟩⟩,
              List.forall_mem_cons.mpr ⟨well, wells⟩, (Except.ok.inj shape).symm⟩
          · rintro ⟨⟨⟨-, legible, smooth⟩, tidy⟩, wells, rfl⟩
            obtain ⟨clean, tidy⟩ := List.forall_mem_cons.mp tidy
            obtain ⟨well, wells⟩ := List.forall_mem_cons.mp wells
            have ran := (entry _).mpr ⟨legible live, clean live, well, rfl⟩
            have ran' := (rest _).mpr ⟨⟨smooth, tidy⟩, wells, rfl⟩
            refine ⟨_, ran, ?_⟩
            rw [ran', Result.ok_bind, List.flatMap_cons]
        · have quiet : entryLines t below r = [] := if_neg live
          have idle : ¬ r.Descends t := fun descends => live descends.1.1
          rw [if_neg live, rest]
          simp [Fine, Smooth, readable, live, idle, quiet]
      · rw [lsLoop_strays same directory holds listed readable]
        simp [Fine, Smooth, readable]

end Loop

section Recursion

open Rooted

def children (t : Testfs) (records : Nat → List Record) (d : Nat) : List Nat :=
  ((records d).filter (·.Descends t)).map Record.number

def listing (t : Testfs) (records : Nat → List Record) : Nat → Nat → List Printed
  | 0, _ => []
  | depth + 1, d => (records d).flatMap (entryLines t (listing t records depth))

variable {t : Testfs} {dirs : List Nat} {records : Nat → List Record} (directory : ∀ d ∈ dirs, Directory (t.view d))
  (listed : ∀ d ∈ dirs, Listed (t.view d) 0 (records d)) (low : ∀ d ∈ dirs, ∀ r ∈ records d, r.Live → r.number < NR_INODES)
  (closed : ∀ d ∈ dirs, ∀ r ∈ records d, r.Descends t → r.number ∈ dirs)
include directory listed low closed

theorem testfs_ls_lists (depth : Nat) {d : Nat} (member : d ∈ dirs) : Lists t (testfs_ls true depth)
    (Walks (children t records) (fun d => Fine t (t.view d) 0 (records d)) depth) (listing t records depth) d := by
  induction depth generalizing d with
  | zero =>
      intro u x _ _
      constructor
      · intro ran
        cases ran
      · exact fun both => both.1.elim
  | succ depth ih =>
      intro u x same holds
      have loop := lsLoop_eq_ok same (directory d member) holds (listed d member) (listed d member).length (low d member)
        (fun r inside descends => ih (closed d member r inside descends)) x
      have below : (∀ c ∈ children t records d, Walks (children t records) (fun d => Fine t (t.view d) 0 (records d)) depth c) ↔
          ∀ r ∈ records d, r.Descends t →
            Walks (children t records) (fun d => Fine t (t.view d) 0 (records d)) depth r.number := by
        simp only [children, List.forall_mem_map, List.mem_filter, decide_eq_true_eq, and_imp]
      rw [Walks, below, and_assoc]
      exact loop

omit directory listed low closed

def proper (names : List Name) : List Name := names.filter fun name => name ≠ dot ∧ name ≠ dotdot

theorem flatMap_filter_of {α β : Type} (p : α → Prop) [DecidablePred p] (f : α → List β) (l : List α) :
    (l.filter (p ·)).flatMap f = l.flatMap fun a => if p a then f a else [] := by
  induction l with
  | nil => rfl
  | cons a l ih =>
      by_cases here : p a <;> simp [here, ih]

theorem proper_names (records : List Record) :
    proper (names records) = records.flatMap fun r => if r.Child then [r.name] else [] := by
  rw [← flatMap_filter_of Record.Child, proper, names, List.filter_map, List.filter_filter, ← List.map_eq_flatMap]
  congr 1
  apply List.filter_congr
  intro r _
  by_cases live : r.Live <;> simp [Record.Child, live]

theorem proper_entryLines (below : Nat → List Printed) (r : Record) :
    proper ((entryLines t below r).filterMap Printed.name) =
      (if r.Child then [r.name] else []) ++
        if r.Descends t then proper ((below r.number).filterMap Printed.name) else [] := by
  by_cases live : r.Live
  · by_cases child : r.Child
    · have kept := child.2
      by_cases descends : r.Descends t
      · simp [entryLines, live, child, descends, proper, Printed.name, kept]
      · simp [entryLines, live, child, descends, proper, Printed.name, kept]
    · have idle : ¬ r.Descends t := fun descends => child descends.1
      have hidden : ¬ (r.name ≠ dot ∧ r.name ≠ dotdot) := fun kept => child ⟨live, kept⟩
      simp [entryLines, live, child, idle, proper, Printed.name, hidden]
  · have child : ¬ r.Child := fun child => live child.1
    have idle : ¬ r.Descends t := fun descends => child descends.1
    simp [entryLines, live, child, idle, proper]

theorem proper_listing (depth d : Nat) : (proper ((listing t records depth d).filterMap Printed.name)).Perm
    ((descend (children t records) depth d).flatMap fun e => proper (names (records e))) := by
  induction depth generalizing d with
  | zero => simp [listing, descend, proper]
  | succ depth ih =>
      have entries : proper ((listing t records (depth + 1) d).filterMap Printed.name) = (records d).flatMap fun r =>
          (if r.Child then [r.name] else []) ++
            if r.Descends t then proper ((listing t records depth r.number).filterMap Printed.name) else [] := by
        rw [listing, List.filterMap_flatMap, proper, List.filter_flatMap]
        exact List.flatMap_congr fun r _ => proper_entryLines _ r
      have deeper : ((children t records d).flatMap fun c => proper ((listing t records depth c).filterMap Printed.name)).Perm
          ((children t records d).flatMap fun c => (descend (children t records) depth c).flatMap fun e =>
            proper (names (records e))) := List.Perm.flatMap_left _ fun c _ => ih c
      rw [entries, descend, List.flatMap_cons, List.flatMap_assoc, proper_names]
      refine (List.flatMap_append_perm _ _ _).symm.trans (List.Perm.append_left _ ?_)
      rw [← flatMap_filter_of (Record.Descends t)]
      simpa only [children, List.flatMap_map] using deeper

end Recursion

end OperatingSystem.Fs
