import OperatingSystem.Threads.PlacedRun

namespace OperatingSystem.Threads

open State

namespace Call

def obtains : Call → Option Nat
  | .lockAcquire l => some l
  | .cvWait _ l => some l
  | _ => none

def releases : Call → Option Nat
  | .lockRelease l => some l
  | .cvWait _ l => some l
  | _ => none

end Call

def Frame.neutral : Frame → Bool
  | .user _ => false
  | .acquireLoop _ _ => false
  | .cvReacquire _ _ => false
  | _ => true

/-- The lock that the call in progress obtains. -/
def wanted : List Frame → Option Nat
  | [] => none
  | .user call :: _ => call.obtains
  | _ :: frames => wanted frames

def holding (l : Nat) : List Frame → Bool
  | [] => false
  | .user call :: _ => call.obtains = some l
  | .acquireLoop _ _ :: _ => false
  | .cvReacquire _ _ :: _ => false
  | _ :: frames => holding l frames

/-- The lock of a suspended loop is the lock its call obtains, and a call comes from user code. -/
def formed : List Frame → Prop
  | [] => True
  | .user _ :: frames => frames = []
  | .acquireLoop l _ :: frames => wanted frames = some l ∧ formed frames
  | .cvReacquire l _ :: frames => wanted frames = some l ∧ formed frames
  | _ :: frames => formed frames

section Stacks

variable {l : Nat} {f : Frame} {frames fs : List Frame}

theorem holding_neutral (neutral : f.neutral = true) : holding l (f :: frames) = holding l frames := by
  cases f <;> simp_all [holding, Frame.neutral]

theorem formed_neutral (neutral : f.neutral = true) : formed (f :: frames) ↔ formed frames := by
  cases f <;> simp_all [formed, Frame.neutral]

theorem holding_append (neutral : ∀ f ∈ fs, f.neutral = true) :
    holding l (fs ++ frames) = holding l frames := by
  induction fs with
  | nil => rfl
  | cons f fs ih =>
      rw [List.cons_append, holding_neutral (neutral f (by simp))]
      exact ih fun g hg => neutral g (by simp [hg])

theorem formed_append (neutral : ∀ f ∈ fs, f.neutral = true) :
    formed (fs ++ frames) ↔ formed frames := by
  induction fs with
  | nil => rfl
  | cons f fs ih =>
      rw [List.cons_append, formed_neutral (neutral f (by simp))]
      exact ih fun g hg => neutral g (by simp [hg])

theorem wanted_of_holding (held : holding l frames = true) : wanted frames = some l := by
  induction frames with
  | nil => simp [holding] at held
  | cons f frames ih =>
      cases f with
      | user call => simpa [holding, wanted] using held
      | acquireLoop | cvReacquire => simp [holding] at held
      | _ => exact ih held

end Stacks

def stackOf (s : State) (i : Nat) : List Frame :=
  if i = s.currentThread then s.callStack else (s.totalList i).threadInfo

/-- From `s` to `t` no lock changed, and each thread's stack only grew by neutral frames. -/
structure Extends (s t : State) : Prop where
  locks : t.locks = s.locks
  nextLock : t.nextLock = s.nextLock
  growth : ∀ i, ∃ fs, (∀ f ∈ fs, f.neutral = true) ∧ stackOf t i = fs ++ stackOf s i

namespace Extends

variable {lost : Nat → Prop} {s t u : State}

theorem of_eq (locks : t.locks = s.locks) (nextLock : t.nextLock = s.nextLock)
    (growth : ∀ i, stackOf t i = stackOf s i) : Extends s t :=
  ⟨locks, nextLock, fun i => ⟨[], by simp, growth i⟩⟩

theorem refl (s : State) : Extends s s := of_eq rfl rfl fun _ => rfl

theorem trans (first : Extends s t) (second : Extends t u) : Extends s u where
  locks := second.locks.trans first.locks
  nextLock := second.nextLock.trans first.nextLock
  growth i := by
    obtain ⟨fs, neutral, eq⟩ := first.growth i
    obtain ⟨gs, neutral', eq'⟩ := second.growth i
    refine ⟨gs ++ fs, fun f hf => ?_, by rw [eq', eq, List.append_assoc]⟩
    rcases List.mem_append.mp hf with h | h
    · exact neutral' f h
    · exact neutral f h

theorem result (s : State) (v : Tid) : Extends s (s.result v) := of_eq rfl rfl fun _ => rfl

theorem interruptsSet (s : State) (enabled : Bool) : Extends s (s.interruptsSet enabled) :=
  of_eq rfl rfl fun _ => rfl

theorem stackOf_push (s : State) (f : Frame) (i : Nat) :
    stackOf (s.push f) i = if i = s.currentThread then f :: stackOf s i else stackOf s i := by
  by_cases h : i = s.currentThread <;> simp [stackOf, State.push, h]

theorem push (s : State) {f : Frame} (neutral : f.neutral = true) : Extends s (s.push f) := by
  refine ⟨rfl, rfl, fun i => ?_⟩
  rw [stackOf_push]
  split_ifs
  · exact ⟨[f], by simpa using neutral, rfl⟩
  · exact ⟨[], by simp, rfl⟩

theorem of_switched {parked : Status} {frame : Frame} {next : Nat}
    (sw : Switched parked frame next s t) (neutral : frame.neutral = true) : Extends s t := by
  refine ⟨sw.locks, sw.nextLock, fun i => ?_⟩
  have resumed : stackOf t i = (t.totalList i).threadInfo := by
    by_cases h : i = next
    · simp [stackOf, sw.current, h, sw.callStack]
    · simp [stackOf, sw.current, h]
  rw [resumed]
  by_cases h : i = s.currentThread
  · subst h
    exact ⟨[frame], by simpa using neutral, by simp [sw.saved, stackOf]⟩
  · exact ⟨[], by simp, by simp [sw.contexts i h, stackOf, h]⟩

theorem of_woken (woken : Woken s t) : Extends s t := by
  refine of_eq woken.locks woken.nextLock fun i => ?_
  simp only [stackOf, woken.current, woken.callStack]
  rw [woken.threads i]

theorem threadYield {want : Tid} (p : Seated lost s) (run : threadYield want s = .ok t) :
    Extends s t := by
  rcases threadYield_cases p.yieldable run with rfl | rfl | ⟨next, iter, -, switched, -, -⟩
  · exact result s _
  · exact result s _
  · exact of_switched switched rfl

theorem threadSleep {queue : Option Nat} (p : Seated lost s) (run : threadSleep queue s = .ok t) :
    Extends s t := by
  cases queue with
  | none =>
      rw [← Except.ok.inj run]
      exact of_eq rfl rfl fun _ => rfl
  | some q =>
      rcases threadSleep_cases p.yieldable run with ⟨-, rfl⟩ |
        ⟨next, rest, nodes, -, -, switched, -, -⟩
      · exact result s _
      · exact of_switched switched rfl

theorem setWqt (s : State) (i : Nat) (wqt : Option Nat) :
    Extends s (s.modifyThread i fun t => { t with wqt }) := by
  refine of_eq rfl rfl fun j => ?_
  simp only [stackOf, thread_modifyThread, modifyThread_currentThread]
  split_ifs with h h' <;> simp_all

theorem cvDestroy {c : Nat} (run : cvDestroy c s = .ok t) : Extends s t := by
  simp only [Threads.cvDestroy, Result.bind_eq_ok, Result.pure_eq_ok, Except.ok.injEq] at run
  obtain ⟨wqC, -, nodes, -, rfl⟩ := run
  split_ifs <;> exact of_eq rfl rfl fun _ => rfl

theorem cvWake {all : Int} {c l : Nat} (run : cvWake all c l s = .ok t) : Extends s t := by
  simp only [Threads.cvWake, Result.bind_eq_ok] at run
  obtain ⟨wqC, -, lock, -, run⟩ := run
  split_ifs at run
  · exact of_woken (threadWakeup_woken run)
  · exact Except.ok.inj run ▸ refl s

theorem releaseWaiters (run : releaseWaiters s = .ok t) : Extends s t := by
  unfold Threads.releaseWaiters at run
  split at run
  · exact Except.ok.inj run ▸ refl s
  · simp only [Result.bind_eq_ok, Result.pure_eq_ok, Except.ok.injEq] at run
    obtain ⟨u, woken, rfl⟩ := run
    have freed (q : Nat) : Extends u (u.setQueue q none) := of_eq rfl rfl fun _ => rfl
    exact ((of_woken (threadWakeup_woken woken)).trans (freed _)).trans (setWqt _ _ _)

theorem threadWait {tid : Tid} (p : Seated lost s) (run : threadWait tid s = .ok t) : Extends s t := by
  simp only [Threads.threadWait] at run
  split_ifs at run
  · rw [← Except.ok.inj run]
    exact of_eq rfl rfl fun _ => rfl
  · rw [← Except.ok.inj run]
    exact of_eq rfl rfl fun _ => rfl
  · have waits : Seated lost ((s.interruptsSet false).push (.waitReturn s.interrupts tid)) :=
      (p.interruptsSet false).push rfl
    have grown : Extends s ((s.interruptsSet false).push (.waitReturn s.interrupts tid)) :=
      (interruptsSet s false).trans (push _ rfl)
    split at run
    · exact grown.trans (threadSleep waits run)
    · have created (u : State) : Extends u (waitQueueCreate u).1 := of_eq rfl rfl fun _ => rfl
      exact ((grown.trans (created _)).trans (setWqt _ _ _)).trans
        (threadSleep (waits.queueCreate.setWqt _ _) run)

theorem threadExit (p : Seated lost s) (run : threadExit s = .ok t) : Extends s t := by
  obtain ⟨u, released, -, rfl | ⟨next, rest, -, switched, -, -⟩⟩ := p.threadExit_cases run
  all_goals have before : Extends s u := (interruptsSet s false).trans (releaseWaiters released)
  · exact before.trans (of_eq rfl rfl fun _ => rfl)
  · have marked : Extends u (u.modifyThread u.currentThread fun t =>
        { t with exist := false, status := .exited }) := by
      refine of_eq rfl rfl fun j => ?_
      simp only [stackOf, thread_modifyThread, modifyThread_currentThread]
      split_ifs <;> simp_all
    exact ((before.trans marked).trans (push _ rfl)).trans (of_switched switched rfl)

end Extends

def Owns (s : State) (l i : Nat) : Prop :=
  ∃ lock, s.locks l = some lock ∧ lock.avaliable = false ∧ lock.acquiredID = i

theorem Owns.unique {s : State} {l i j : Nat} (h : Owns s l i) (h' : Owns s l j) : i = j := by
  obtain ⟨lock, found, -, owner⟩ := h
  obtain ⟨lock', found', -, owner'⟩ := h'
  obtain rfl := Option.some.inj (found.symm.trans found')
  exact_mod_cast owner.symm.trans owner'

structure Guarded (s : State) : Prop where
  formed : ∀ i, formed (stackOf s i)
  held : ∀ i l, holding l (stackOf s i) = true → Owns s l i
  fresh : ∀ l, s.nextLock ≤ l → s.locks l = none

namespace Guarded

variable {s t : State}

theorem extend (g : Guarded s) (grown : Extends s t) : Guarded t where
  formed i := by
    obtain ⟨fs, neutral, eq⟩ := grown.growth i
    rw [eq, formed_append neutral]
    exact g.formed i
  held i l held := by
    obtain ⟨fs, neutral, eq⟩ := grown.growth i
    rw [eq, holding_append neutral] at held
    obtain ⟨lock, found, rest⟩ := g.held i l held
    exact ⟨lock, grown.locks ▸ found, rest⟩
  fresh l hl := by
    rw [grown.locks]
    exact g.fresh l (grown.nextLock ▸ hl)

theorem restack (g : Guarded s) (locks : t.locks = s.locks) (nextLock : t.nextLock = s.nextLock)
    (others : ∀ i, i ≠ s.currentThread → stackOf t i = stackOf s i)
    (form : Threads.formed (stackOf t s.currentThread))
    (none : ∀ l, holding l (stackOf t s.currentThread) = true → Owns s l s.currentThread) :
    Guarded t where
  formed i := by
    by_cases h : i = s.currentThread
    · exact h ▸ form
    · exact others i h ▸ g.formed i
  held i l held := by
    have owns : Owns s l i := by
      by_cases h : i = s.currentThread
      · subst h
        exact none l held
      · exact g.held i l (others i h ▸ held)
    obtain ⟨lock, found, rest⟩ := owns
    exact ⟨lock, locks ▸ found, rest⟩
  fresh l hl := by
    rw [locks]
    exact g.fresh l (nextLock ▸ hl)

theorem setLock (g : Guarded s) {l : Nat} {lock : Option Lock} (below : l < s.nextLock)
    (free : ∀ i, holding l (stackOf s i) = true → Owns (s.setLock l lock) l i) :
    Guarded (s.setLock l lock) where
  formed := g.formed
  held i l' held := by
    by_cases h : l' = l
    · subst h
      exact free i held
    · obtain ⟨lock', found, rest⟩ := g.held i l' held
      exact ⟨lock', by simpa [State.setLock, h] using found, rest⟩
  fresh l' hl := by
    have hl : s.nextLock ≤ l' := hl
    have : l' ≠ l := by omega
    simpa [State.setLock, this] using g.fresh l' hl

theorem below (g : Guarded s) {l : Nat} {lock : Lock} (found : s.locks l = some lock) :
    l < s.nextLock := by
  by_contra h
  simp [g.fresh l (by omega)] at found

end Guarded

def Releases (l i : Nat) (label : Label) : Prop :=
  ∃ call, label.2 = some (.called i call) ∧ call.releases = some l

structure Progress (s : State) (label : Label) (t : State) : Prop where
  guarded : Guarded t
  owns : ∀ l i, Owns s l i → ¬ Releases l i label → Owns t l i

def ReleasesOwn (s : State) : Action → Prop
  | .call call => ∀ l ∈ call.releases, ∀ lock ∈ s.locks l,
      lock.avaliable = true ∨ lock.acquiredID = s.currentThread
  | _ => True

instance (s : State) : DecidablePred (ReleasesOwn s)
  | .call call => inferInstanceAs (Decidable (∀ l ∈ call.releases, ∀ lock ∈ s.locks l,
      lock.avaliable = true ∨ lock.acquiredID = s.currentThread))
  | .resume | .interrupt => .isTrue trivial

theorem Progress.after {s u t : State} {label : Label} (first : Progress s label u)
    (grown : Extends u t) : Progress s label t where
  guarded := first.guarded.extend grown
  owns l i owns kept := by
    obtain ⟨lock, found, rest⟩ := first.owns l i owns kept
    exact ⟨lock, grown.locks ▸ found, rest⟩

theorem Progress.trans {s u t : State} {label : Label} (first : Progress s label u)
    (second : Progress u label t) : Progress s label t where
  guarded := second.guarded
  owns l i owns kept := second.owns l i (first.owns l i owns kept) kept

def unlock (l : Nat) (lock : Lock) (s : State) : State :=
  if lock.avaliable then s else s.setLock l (some { lock with avaliable := true })

theorem lockRelease_cases {l : Nat} {s t : State} (run : lockRelease l s = .ok t) :
    ∃ lock, s.locks l = some lock ∧ Woken (unlock l lock s) t := by
  simp only [lockRelease, Result.bind_eq_ok, lockAt_eq_ok] at run
  obtain ⟨lock, found, run⟩ := run
  refine ⟨lock, found, ?_⟩
  unfold unlock
  split_ifs at run ⊢
  · exact Except.ok.inj run ▸ .refl s
  · exact threadWakeup_woken run

namespace Guarded

variable {lost : Nat → Prop} {s t : State} {l : Nat} {label : Label}

theorem progress (g : Guarded s) (grown : Extends s t) : Progress s label t where
  guarded := g.extend grown
  owns l i := by
    rintro ⟨lock, found, rest⟩ -
    exact ⟨lock, grown.locks ▸ found, rest⟩

theorem progress_restack (g : Guarded s) (locks : t.locks = s.locks)
    (nextLock : t.nextLock = s.nextLock)
    (others : ∀ i, i ≠ s.currentThread → stackOf t i = stackOf s i)
    (form : Threads.formed (stackOf t s.currentThread))
    (held : ∀ l, holding l (stackOf t s.currentThread) = true → Owns s l s.currentThread) :
    Progress s label t where
  guarded := g.restack locks nextLock others form held
  owns l i := by
    rintro ⟨lock, found, rest⟩ -
    exact ⟨lock, locks ▸ found, rest⟩

theorem unlock {call : Call} {lock : Lock} (g : Guarded s) (user : s.callStack = [])
    (found : s.locks l = some lock)
    (own : lock.avaliable = true ∨ lock.acquiredID = s.currentThread)
    (releases : call.releases = some l) (event : label.2 = some (.called s.currentThread call)) :
    Progress s label (unlock l lock s) := by
  unfold Threads.unlock
  split_ifs with free
  · exact g.progress (.refl s)
  · have owner : lock.acquiredID = s.currentThread := own.resolve_left free
    have holder (i : Nat) (owns : Owns s l i) : i = s.currentThread :=
      owns.unique ⟨lock, found, by simpa using free, owner⟩
    refine ⟨g.setLock (g.below found) fun i held => ?_, fun l' i owns kept => ?_⟩
    · have := holder i (g.held i l held)
      simp [this, stackOf, user, holding] at held
    · have other : l' ≠ l := by
        rintro rfl
        obtain rfl := holder i owns
        exact kept ⟨call, event, releases⟩
      obtain ⟨lock', found', rest⟩ := owns
      exact ⟨lock', by simpa [State.setLock, other] using found', rest⟩

theorem threadCreate (p : Seated lost s) (g : Guarded s) (stackOk : Bool) :
    Progress s label (threadCreate stackOk s) := by
  rcases threadCreate_started stackOk s with eq | ⟨id, stack, nextStack, interrupts, rax, free, -, eq⟩
  · rw [eq]
    exact g.progress (.of_eq rfl rfl fun _ => rfl)
  · have dead : id ≠ s.currentThread := (p.partition.not_live (i := id) (by simp [free])).1
    have stackAt (i : Nat) : stackOf (Threads.threadCreate stackOk s) i =
        if i = id then [.stub] else stackOf s i := by
      rw [eq]
      by_cases h : i = id <;> by_cases h' : i = s.currentThread <;>
        simp_all [stackOf, Thread.started]
    refine ⟨⟨fun i => ?_, fun i l held => ?_, ?_⟩, ?_⟩
    · rw [stackAt]
      split_ifs
      · simp [Threads.formed]
      · exact g.formed i
    · rw [stackAt] at held
      split_ifs at held
      · simp [holding] at held
      · rw [eq]
        exact g.held i l held
    · rw [eq]
      exact g.fresh
    · rw [eq]
      exact fun l i owns _ => owns

theorem lockCreate (g : Guarded s) : Progress s label (lockCreate s) where
  guarded :=
    { formed := g.formed
      held := fun i l held => by
        obtain ⟨lock, found, rest⟩ := g.held i l held
        have other : l ≠ s.nextLock := Nat.ne_of_lt (g.below found)
        exact ⟨lock, by simpa [Threads.lockCreate, State.setLock, State.result, waitQueueCreate,
          State.setQueue, other] using found, rest⟩
      fresh := fun l hl => by
        have hl : s.nextLock + 1 ≤ l := hl
        have other : l ≠ s.nextLock := by omega
        simpa [Threads.lockCreate, State.setLock, State.result, waitQueueCreate, State.setQueue,
          other] using g.fresh l (by omega) }
  owns l i := by
    rintro ⟨lock, found, rest⟩ -
    have other : l ≠ s.nextLock := Nat.ne_of_lt (g.below found)
    exact ⟨lock, by simpa [Threads.lockCreate, State.setLock, State.result, waitQueueCreate,
      State.setQueue, other] using found, rest⟩

theorem lockDestroy (g : Guarded s) (run : lockDestroy l s = .ok t) : Progress s label t := by
  simp only [Threads.lockDestroy, Result.bind_eq_ok, lockAt_eq_ok] at run
  obtain ⟨lock, found, run⟩ := run
  split_ifs at run with free
  · have other (l' i : Nat) (owns : Owns s l' i) : l' ≠ l := by
      rintro rfl
      obtain ⟨lock', found', taken, -⟩ := owns
      obtain rfl := Option.some.inj (found.symm.trans found')
      simp [free] at taken
    have kept (l' i : Nat) (owns : Owns s l' i) : Owns (s.setLock l none) l' i := by
      have := other l' i owns
      obtain ⟨lock', found', rest⟩ := owns
      exact ⟨lock', by simpa [State.setLock, this] using found', rest⟩
    have destroyed : Progress s label (s.setLock l none) :=
      ⟨g.setLock (g.below found) fun i held => kept l i (g.held i l held),
        fun l' i owns _ => kept l' i owns⟩
    rw [← Except.ok.inj run]
    exact destroyed.after (.of_eq rfl rfl fun _ => rfl)
  · exact Except.ok.inj run ▸ g.progress (.refl s)

theorem release {call : Call} {lock : Lock} {u : State} (g : Guarded s) (frames : List Frame)
    (user : s.callStack = []) (found : s.locks l = some lock)
    (own : lock.avaliable = true ∨ lock.acquiredID = s.currentThread)
    (releases : call.releases = some l) (event : label.2 = some (.called s.currentThread call))
    (form : Threads.formed frames) (none : ∀ l, holding l frames = false)
    (eq : u = { Threads.unlock l lock s with callStack := frames, interrupts := u.interrupts }) :
    Progress s label u := by
  have first : Progress s label (Threads.unlock l lock s) := g.unlock user found own releases event
  have current : (Threads.unlock l lock s).currentThread = s.currentThread := by
    unfold Threads.unlock
    split_ifs <;> rfl
  have stackAt (i : Nat) : stackOf u i =
      if i = s.currentThread then frames else stackOf (Threads.unlock l lock s) i := by
    rw [eq]
    simp only [stackOf, current]
    split_ifs <;> rfl
  have next : Progress (Threads.unlock l lock s) label u := by
    refine first.guarded.progress_restack (by rw [eq]) (by rw [eq]) (fun i other => ?_) ?_ fun l' => ?_
    · rw [stackAt, if_neg (current ▸ other)]
    · rw [stackAt, current, if_pos rfl]
      exact form
    · rw [stackAt, current, if_pos rfl, none]
      simp
  exact first.trans next

theorem lockRelease (g : Guarded s) (user : s.callStack = [])
    (own : ReleasesOwn s (.call (.lockRelease l)))
    (event : label.2 = some (.called s.currentThread (.lockRelease l)))
    (run : lockRelease l (s.push (.user (.lockRelease l))) = .ok t) : Progress s label t := by
  obtain ⟨lock, found, woken⟩ := lockRelease_cases run
  refine (g.release [.user (.lockRelease l)] user found (own l rfl lock found) rfl event
    ?_ ?_ ?_).after (.of_woken woken)
  · simp [Threads.formed]
  · simp [holding, Call.obtains]
  · unfold Threads.unlock
    split_ifs <;> simp [State.push, State.setLock, user]

theorem cvWait {c : Nat} (p : Seated lost s) (g : Guarded s) (user : s.callStack = [])
    (own : ReleasesOwn s (.call (.cvWait c l)))
    (event : label.2 = some (.called s.currentThread (.cvWait c l)))
    (run : cvWait c l (s.push (.user (.cvWait c l))) = .ok t) : Progress s label t := by
  simp only [Threads.cvWait, Result.bind_eq_ok] at run
  obtain ⟨wqC, -, u, released, lock', -, run⟩ := run
  obtain ⟨lock, found, woken⟩ := lockRelease_cases released
  set enabled := (s.push (.user (.cvWait c l))).interrupts
  have placed : Seated lost (u.push (.cvReacquire l enabled)) :=
    (((p.push rfl).interruptsSet false).lockRelease released).push rfl
  have slept : Extends (u.push (.cvReacquire l enabled)) t := by
    split_ifs at run
    · exact .threadSleep placed run
    · exact Except.ok.inj run ▸ .refl _
  refine ((g.release [.cvReacquire l enabled, .user (.cvWait c l)] user found (own l rfl lock found)
    rfl event ?_ ?_ ?_).after
      (.of_woken (woken.push _))).after slept
  · simp [Threads.formed, wanted, Call.obtains]
  · simp [holding]
  · unfold Threads.unlock
    split_ifs <;> simp [State.push, State.setLock, State.interruptsSet, user]

theorem lockAcquire (g : Guarded s) (user : s.callStack = [])
    (run : lockAcquire l (s.push (.user (.lockAcquire l))) = .ok t) : Progress s label t := by
  simp only [Threads.lockAcquire, Result.bind_eq_ok, Result.pure_eq_ok, Except.ok.injEq] at run
  obtain ⟨lock, -, rfl⟩ := run
  refine g.progress_restack rfl rfl (fun i other => ?_) ?_ fun l' => ?_
  · simp [stackOf, State.push, State.interruptsSet, other]
  · simp [stackOf, State.push, State.interruptsSet, user, Threads.formed, wanted, Call.obtains]
  · simp [stackOf, State.push, State.interruptsSet, holding]

theorem pushUser {call : Call} (g : Guarded s) (user : s.callStack = [])
    (obtains : call.obtains = none) : Progress s label (s.push (.user call)) := by
  refine g.progress_restack rfl rfl (fun i other => ?_) ?_ fun l' => ?_
  · rw [Extends.stackOf_push, if_neg other]
  · simp [stackOf, State.push, user, Threads.formed]
  · simp [stackOf, State.push, holding, obtains]

theorem enter {call : Call} (p : Seated lost s) (g : Guarded s) (user : s.callStack = [])
    (killFree : KillFree (.call call)) (own : ReleasesOwn s (.call call))
    (event : label.2 = some (.called s.currentThread call))
    (run : enter call (s.push (.user call)) = .ok t) : Progress s label t := by
  have placed : Seated lost (s.push (.user call)) := p.push rfl
  have pushed (h : call.obtains = none) : Progress s label (s.push (.user call)) :=
    g.pushUser user h
  cases call with
  | create stackOk =>
      rw [← Except.ok.inj run]
      exact (pushed rfl).trans ((pushed rfl).guarded.threadCreate placed stackOk)
  | yield tid => exact (pushed rfl).after (.threadYield placed run)
  | exit => exact (pushed rfl).after (.threadExit placed run)
  | kill tid => exact killFree.elim
  | queueCreate =>
      rw [← Except.ok.inj run]
      exact (pushed rfl).after (.of_eq rfl rfl fun _ => rfl)
  | queueDestroy q =>
      simp only [Threads.enter, waitQueueDestroy, Result.bind_eq_ok, Result.pure_eq_ok,
        Except.ok.injEq] at run
      obtain ⟨nodes, -, rfl⟩ := run
      exact (pushed rfl).after (.of_eq rfl rfl fun _ => rfl)
  | sleep queue => exact (pushed rfl).after (.threadSleep placed run)
  | wakeup queue all => exact (pushed rfl).after (.of_woken (threadWakeup_woken run))
  | wait tid => exact (pushed rfl).after (.threadWait placed run)
  | lockCreate =>
      rw [← Except.ok.inj run]
      exact (pushed rfl).trans (pushed rfl).guarded.lockCreate
  | lockDestroy l => exact (pushed rfl).trans ((pushed rfl).guarded.lockDestroy run)
  | lockAcquire l => exact g.lockAcquire user run
  | lockRelease l => exact g.lockRelease user own event run
  | cvCreate =>
      rw [← Except.ok.inj run]
      exact (pushed rfl).after (.of_eq rfl rfl fun _ => rfl)
  | cvDestroy c => exact (pushed rfl).after (.cvDestroy run)
  | cvWait c l => exact g.cvWait p user own event run
  | cvSignal c l => exact (pushed rfl).after (.cvWake run)
  | cvBroadcast c l => exact (pushed rfl).after (.cvWake run)
  | interruptsSet enabled =>
      rw [← Except.ok.inj run]
      exact (pushed rfl).after (.interruptsSet _ _)

theorem pop {frame : Frame} {frames : List Frame} (g : Guarded s) (stack : s.callStack = frame :: frames)
    (neutral : frame.neutral = true) : Progress s label { s with callStack := frames } := by
  have top : stackOf s s.currentThread = frame :: frames := by simp [stackOf, stack]
  have rest : stackOf { s with callStack := frames } s.currentThread = frames := by simp [stackOf]
  refine g.progress_restack rfl rfl (fun i other => ?_) ?_ fun l' held => ?_
  · simp [stackOf, other]
  · have := g.formed s.currentThread
    rw [top, formed_neutral neutral] at this
    rwa [rest]
  · rw [rest] at held
    refine g.held _ l' ?_
    rwa [top, holding_neutral neutral]

/-- The loop of `lock_acquire`: either the lock was free, so nobody owned it, and the running thread
takes it, or the thread sleeps with the loop still on its stack. -/
theorem acquireLoop {enabled : Bool} {frames : List Frame} (p : Seated lost s) (g : Guarded s)
    (stack : s.callStack = .acquireLoop l enabled :: frames)
    (run : acquireLoop l enabled { s with callStack := frames } = .ok t) : Progress s label t := by
  have top : stackOf s s.currentThread = .acquireLoop l enabled :: frames := by simp [stackOf, stack]
  have form := g.formed s.currentThread
  rw [top, Threads.formed] at form
  simp only [Threads.acquireLoop, Result.bind_eq_ok, lockAt_eq_ok] at run
  obtain ⟨lock, found, run⟩ := run
  have found : s.locks l = some lock := found
  split_ifs at run with free
  · have unowned (i : Nat) : ¬ Owns s l i := by
      rintro ⟨lock', found', taken, -⟩
      obtain rfl := Option.some.inj (found.symm.trans found')
      simp [free] at taken
    rw [← Except.ok.inj run]
    have owned (l' i : Nat) (owns : Owns s l' i) : Function.update s.locks l
        (some { lock with avaliable := false, acquiredID := s.currentThread }) l' = s.locks l' := by
      have : l' ≠ l := by
        rintro rfl
        exact unowned i owns
      simp [this]
    refine ⟨⟨fun i => ?_, fun i l' held => ?_, fun l' hl => ?_⟩, fun l' i owns _ => ?_⟩
    · by_cases h : i = s.currentThread
      · simpa [h, stackOf, State.interruptsSet, State.setLock] using form.2
      · simpa [h, stackOf, State.interruptsSet, State.setLock] using g.formed i
    · by_cases h : i = s.currentThread
      · subst h
        have held : holding l' frames = true := by
          simpa [stackOf, State.interruptsSet, State.setLock] using held
        obtain rfl : l = l' := Option.some.inj (form.1.symm.trans (wanted_of_holding held))
        exact ⟨{ lock with avaliable := false, acquiredID := s.currentThread },
          by simp [State.interruptsSet, State.setLock], rfl, rfl⟩
      · have held : holding l' (stackOf s i) = true := by
          simpa [h, stackOf, State.interruptsSet, State.setLock] using held
        have owns := g.held i l' held
        obtain ⟨lock', found', rest⟩ := owns
        exact ⟨lock', (owned l' i (g.held i l' held)).trans found', rest⟩
    · have hl : s.nextLock ≤ l' := hl
      have below := g.below found
      have : l' ≠ l := by omega
      simpa [State.interruptsSet, State.setLock, this] using g.fresh l' hl
    · obtain ⟨lock', found', rest⟩ := owns
      exact ⟨lock', (owned l' i ⟨lock', found', rest⟩).trans found', rest⟩
  · have same : State.push { s with callStack := frames } (.acquireLoop l enabled) = s := by
      simp [State.push, ← stack]
    rw [same] at run
    exact g.progress (.threadSleep p run)

theorem continueFrame {frame : Frame} {frames : List Frame} (p : Seated lost s) (g : Guarded s)
    (stack : s.callStack = frame :: frames)
    (run : continueFrame frame { s with callStack := frames } = .ok t) : Progress s label t := by
  have settled : frame.settled = true := p.stack frame (by simp [stack])
  cases frame with
  | exitCall => simp [Frame.settled] at settled
  | afterExit caller next => simp [Frame.settled] at settled
  | afterYield enabled called next iter =>
      obtain rfl : called = true := settled
      rw [← Except.ok.inj run]
      exact (g.pop stack rfl).after ((Extends.interruptsSet _ _).trans (.push _ rfl))
  | acquireLoop l enabled => exact g.acquireLoop p stack run
  | cvReacquire l enabled =>
      simp only [Threads.continueFrame, Threads.lockAcquire, Result.bind_eq_ok, Result.pure_eq_ok,
        Except.ok.injEq] at run
      obtain ⟨lock, -, rfl⟩ := run
      have form := g.formed s.currentThread
      simp only [stackOf, stack, if_true, Threads.formed] at form
      refine g.progress_restack rfl rfl (fun i other => ?_) ?_ fun l' => ?_
      · simp [stackOf, State.push, State.interruptsSet, other]
      · simpa [stackOf, State.push, State.interruptsSet, Threads.formed, wanted] using form
      · simp [stackOf, State.push, State.interruptsSet, holding]
  | user call =>
      rw [← Except.ok.inj run]
      have form := g.formed s.currentThread
      simp only [stackOf, stack, if_true, Threads.formed] at form
      refine g.progress_restack rfl rfl (fun i other => ?_) ?_ fun l' => ?_
      · simp [stackOf, other]
      · simp [stackOf, form, Threads.formed]
      · simp [stackOf, form, holding]
  | yieldResult | stub | handler _ | cvReturn enabled | exitReturn enabled | afterSleep enabled next
    | waitReturn enabled tid =>
      rw [← Except.ok.inj run]
      exact (g.pop stack rfl).after (.of_eq rfl rfl fun _ => rfl)

theorem step {action : Action} {event : Option Event} (p : Seated lost s) (g : Guarded s)
    (killFree : KillFree action) (own : ReleasesOwn s action)
    (run : step s action = .ok (t, event)) : Progress s (action, event) t := by
  rcases step_cases run with ⟨call, rfl, stack, entered, rfl⟩ | ⟨frame, frames, rfl, stack, continued, rfl⟩ |
    ⟨rfl, -, yielded, rfl⟩
  · exact g.enter p stack killFree own rfl entered
  · exact g.continueFrame p stack continued
  · have placed : Seated lost ((s.interruptsSet false).push (.handler s.rax)) := (p.interruptsSet false).push rfl
    exact g.progress (((Extends.interruptsSet s false).trans (.push _ rfl)).trans
      (.threadYield placed yielded))

theorem init : Guarded threadInit where
  formed i := by by_cases h : i = 0 <;> simp [stackOf, threadInit, h, Threads.formed, Thread.zero]
  held i l := by by_cases h : i = 0 <;> simp [stackOf, threadInit, h, holding, Thread.zero]
  fresh _ _ := rfl

end Guarded

def Obtained (l i : Nat) (label : Label) : Prop :=
  ∃ call v, label.2 = some (.returned i call v) ∧ call.obtains = some l

def Acquired (l i : Nat) (label : Label) : Prop :=
  ∃ v, label.2 = some (.returned i (.lockAcquire l) v)

/-- After `i` returns from `lock_acquire` nobody else returns from `lock_acquire` or `cv_wait` with
the same lock before `i` calls `lock_release` or `cv_wait` on it. -/
def MutualExclusion (labels : List Label) : Prop :=
  ∀ xs a ys b zs l i j, labels = xs ++ a :: ys ++ b :: zs → Acquired l i a → Obtained l j b →
    j ≠ i → ∃ e ∈ ys, Releases l i e

def Held (labels : List Label) (l i : Nat) : Prop :=
  ∃ xs a ys, labels = xs ++ a :: ys ∧ Acquired l i a ∧ ∀ e ∈ ys, ¬ Releases l i e

theorem Held.of_snoc {labels : List Label} {label : Label} {l i : Nat}
    (held : Held (labels ++ [label]) l i) :
    Acquired l i label ∨ Held labels l i ∧ ¬ Releases l i label := by
  obtain ⟨xs, a, ys, split, acquired, kept⟩ := held
  rcases ys.eq_nil_or_concat with rfl | ⟨ys, last, rfl⟩
  · obtain ⟨-, same⟩ := List.append_inj' split rfl
    obtain rfl := List.singleton_inj.mp same
    exact Or.inl acquired
  · have split : labels ++ [label] = (xs ++ a :: ys) ++ [last] := by simpa using split
    obtain ⟨rfl, same⟩ := List.append_inj' split rfl
    obtain rfl := List.singleton_inj.mp same
    exact Or.inr ⟨⟨xs, a, ys, rfl, acquired, fun e he => kept e (by simp [he])⟩, kept label (by simp)⟩

/-- The thread that returns from a call that obtains a lock owns the lock. -/
theorem Guarded.obtained {s t : State} {action : Action} {event : Option Event} {l i : Nat}
    (g : Guarded s) (run : Threads.step s action = .ok (t, event))
    (obtained : Obtained l i (action, event)) : Owns s l i := by
  obtain ⟨call, v, returned, obtains⟩ := obtained
  obtain rfl : event = _ := returned
  rcases step_cases run with ⟨_, -, -, -, shown⟩ | ⟨frame, frames, -, stack, -, shown⟩ | ⟨-, -, -, shown⟩
  · cases shown
  · cases frame with
    | user call' =>
        simp only [frameEvent, Option.some.injEq, Event.returned.injEq] at shown
        obtain ⟨rfl, rfl, -⟩ := shown
        exact g.held s.currentThread l (by simp [stackOf, stack, holding, obtains])
    | _ => cases shown
  · cases shown

structure Exclusive (labels : List Label) (s : State) : Prop where
  placed : Placed s
  guarded : Guarded s
  owns : ∀ l i, Held labels l i → Owns s l i
  past : MutualExclusion labels

theorem Acquired.obtained {l i : Nat} {label : Label} (acquired : Acquired l i label) :
    Obtained l i label := by
  obtain ⟨v, returned⟩ := acquired
  exact ⟨_, v, returned, rfl⟩

theorem Exclusive.step {labels : List Label} {s t : State} {label : Label} (ex : Exclusive labels s)
    (allowed : Admissible s label.1) (own : ReleasesOwn s label.1)
    (run : Threads.step s label.1 = .ok (t, label.2)) : Exclusive (labels ++ [label]) t := by
  have progress : Progress s label t := ex.guarded.step ex.placed.seated allowed.killFree own run
  refine ⟨ex.placed.step allowed run, progress.guarded, fun l i held => ?_, ?_⟩
  · rcases held.of_snoc with acquired | ⟨before, kept⟩
    · -- the step is the return itself, so it calls nothing
      refine progress.owns l i (ex.guarded.obtained run acquired.obtained) ?_
      obtain ⟨v, returned⟩ := acquired
      rintro ⟨call, called, -⟩
      simp [returned] at called
    · exact progress.owns l i (ex.owns l i before) kept
  · intro xs a ys b zs l i j split acquired obtained other
    rcases zs.eq_nil_or_concat with rfl | ⟨zs, last, rfl⟩
    · obtain ⟨rfl, same⟩ := List.append_inj' split rfl
      obtain rfl := List.singleton_inj.mp same
      by_contra unreleased
      have held : Held (xs ++ a :: ys) l i :=
        ⟨xs, a, ys, rfl, acquired, fun e he releases => unreleased ⟨e, he, releases⟩⟩
      exact other ((ex.guarded.obtained run obtained).unique (ex.owns l i held))
    · have split : labels ++ [label] = (xs ++ a :: ys ++ b :: zs) ++ [last] := by simpa using split
      obtain ⟨rfl, -⟩ := List.append_inj' split rfl
      exact ex.past xs a ys b zs l i j rfl acquired obtained other

theorem Exclusive.init : Exclusive [] threadInit where
  placed := .init
  guarded := .init
  owns l i := by
    rintro ⟨xs, a, ys, split, -⟩
    simp at split
  past xs a ys b zs l i j split := by simp at split

/-- Mutual exclusion, in every run in which nobody releases another thread's lock. -/
theorem mutual_exclusion {labels : List Label} {s : State}
    (run : Runs (fun s action => Admissible s action ∧ ReleasesOwn s action) labels s) :
    MutualExclusion labels :=
  (run.history Exclusive .init fun _ _ _ _ ex taken => ex.step taken.1.1 taken.1.2 taken.2).past

def lockAndYield : List Action :=
  [.call (.create true), .resume, .call .lockCreate, .resume, .call (.lockAcquire 0), .resume, .resume,
    .call (.yield 1), .resume]

theorem mutual_exclusion_waiting : ∃ labels s,
    Runs (fun s action => Admissible s action ∧ ReleasesOwn s action) labels s ∧
      Held labels 0 0 ∧ s.queues 0 = some [1] ∧ MutualExclusion labels := by
  have run := @Runs.of_exec (fun s action => Admissible s action ∧ ReleasesOwn s action) _
    (lockAndYield ++ [.call (.lockAcquire 0), .resume]) (by decide)
  refine ⟨_, _, run, ⟨_, (.resume, some (.returned 0 (.lockAcquire 0) 0)),
    [(.call (.yield 1), some (.called 0 (.yield 1))), (.resume, none),
      (.call (.lockAcquire 0), some (.called 1 (.lockAcquire 0))), (.resume, none)],
    (List.take_append_drop 6 _).symm.trans (congrArg _ rfl), ⟨0, rfl⟩, ?_⟩, rfl, mutual_exclusion run⟩
  simp [Releases, Call.releases]

theorem mutual_exclusion_fails : ¬ ∀ labels s, Runs Admissible labels s → MutualExclusion labels := by
  intro exclusive
  have run := @Runs.of_exec Admissible _
    (lockAndYield ++ [.call (.lockRelease 0), .resume, .call (.lockAcquire 0), .resume, .resume])
    (by decide)
  obtain ⟨e, member, releases⟩ := exclusive _ _ run
    ((exec Admissible threadInit (lockAndYield.take 6)).get (by decide)).2
    (.resume, some (.returned 0 (.lockAcquire 0) 0))
    [(.call (.yield 1), some (.called 0 (.yield 1))), (.resume, none),
      (.call (.lockRelease 0), some (.called 1 (.lockRelease 0))),
      (.resume, some (.returned 1 (.lockRelease 0) 0)),
      (.call (.lockAcquire 0), some (.called 1 (.lockAcquire 0))), (.resume, none)]
    (.resume, some (.returned 1 (.lockAcquire 0) 0)) [] 0 0 1 rfl ⟨0, rfl⟩ ⟨_, 0, rfl, rfl⟩ (by decide)
  revert releases
  revert e
  simp [Releases, Call.releases]

end OperatingSystem.Threads
