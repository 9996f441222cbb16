import OperatingSystem.Threads.Untouched

namespace OperatingSystem.Threads

open State Transition

/-- What the thread with this context waits for besides the processor: nothing, or the queue of an owner. -/
def site : List Frame → Option (Option Owner)
  | .afterYield _ _ _ _ :: _ => some none
  | .afterSleep _ _ :: .acquireLoop l _ :: _ => some (some (.lock l))
  | .afterSleep _ _ :: .cvReacquire _ _ :: .user (.cvWait c _) :: _ => some (some (.cv c))
  | _ => none

def Queued (s : State) (owner : Owner) (i : Nat) : Prop :=
  ∃ q nodes, queueOf s owner = some q ∧ s.queues q = some nodes ∧ i ∈ nodes

/-- The threads that wait for `place` are there, or on the ready list.  A thread that yielded may have ended. -/
def Parked (place : Option Owner) (s : State) : Prop :=
  ∀ i, i ≠ s.currentThread → (place = none → (s.totalList i).exist = true) →
    site (s.totalList i).threadInfo = some place →
      i ∈ s.readyList ∨ ∃ owner, place = some owner ∧ Queued s owner i

structure Retains (place : Option Owner) (s t : State) : Prop where
  current : t.currentThread = s.currentThread
  contexts : ∀ i, (place = none → (t.totalList i).exist = true) → site (t.totalList i).threadInfo = some place →
    (place = none → (s.totalList i).exist = true) ∧ site (s.totalList i).threadInfo = some place
  ready : ∀ i ∈ s.readyList, i ∈ t.readyList
  queued : ∀ owner i, place = some owner → Queued s owner i → i ∈ t.readyList ∨ Queued t owner i

namespace Retains

variable {place : Option Owner} {s t u : State}

theorem trans (first : Retains place s t) (second : Retains place t u) : Retains place s u where
  current := second.current.trans first.current
  contexts i alive here := by
    obtain ⟨alive', here'⟩ := second.contexts i alive here
    exact first.contexts i alive' here'
  ready i member := second.ready i (first.ready i member)
  queued owner i same queued := by
    rcases first.queued owner i same queued with woken | stays
    · exact Or.inl (second.ready i woken)
    · exact second.queued owner i same stays

theorem of_eq (current : t.currentThread = s.currentThread)
    (exist : ∀ i, (t.totalList i).exist = (s.totalList i).exist)
    (contexts : ∀ i, (t.totalList i).threadInfo = (s.totalList i).threadInfo) (ready : t.readyList = s.readyList)
    (queued : ∀ owner i, place = some owner → Queued s owner i → Queued t owner i) : Retains place s t where
  current := current
  contexts i alive here := by
    rw [exist] at alive
    rw [contexts] at here
    exact ⟨alive, here⟩
  ready i member := ready ▸ member
  queued owner i same here := Or.inr (queued owner i same here)

theorem leaves {owner : Owner} {i : Nat} (leaves : Leaves owner s t) (queued : Queued s owner i) : Queued t owner i := by
  obtain ⟨q, nodes, own, queue, member⟩ := queued
  exact ⟨q, nodes, leaves.queue.trans own, (leaves.nodes q own).trans queue, member⟩

theorem of_same (table : t.totalList = s.totalList) (current : t.currentThread = s.currentThread)
    (ready : t.readyList = s.readyList) (queues : t.queues = s.queues) (locks : t.locks = s.locks) (cvs : t.cvs = s.cvs) :
    Retains place s t := by
  refine of_eq current (fun i => by rw [table]) (fun i => by rw [table]) ready fun owner i _ => ?_
  rintro ⟨q, nodes, own, queue, member⟩
  refine ⟨q, nodes, ?_, by rw [queues, queue], member⟩
  rw [← own]
  cases owner <;> simp only [queueOf, table, locks, cvs]

theorem wake {q : Nat} (woken rest : List Nat) (current : t.currentThread = s.currentThread)
    (exist : ∀ i, (t.totalList i).exist = (s.totalList i).exist)
    (contexts : ∀ i, (t.totalList i).threadInfo = (s.totalList i).threadInfo)
    (owner : ∀ owner, queueOf t owner = queueOf s owner) (queue : s.queues q = some (woken ++ rest))
    (ready : t.readyList = s.readyList ++ woken) (queues : t.queues = Function.update s.queues q (some rest)) :
    Retains place s t where
  current := current
  contexts i alive here := by
    rw [exist] at alive
    rw [contexts] at here
    exact ⟨alive, here⟩
  ready i member := by
    rw [ready]
    exact List.mem_append_left woken member
  queued o i _ := by
    rintro ⟨r, nodes, own, found, member⟩
    by_cases same : r = q
    · subst same
      obtain rfl := Option.some.inj (queue.symm.trans found)
      rcases List.mem_append.mp member with first | last
      · exact Or.inl (ready ▸ List.mem_append_right s.readyList first)
      · exact Or.inr ⟨r, rest, (owner o).trans own, by rw [queues, Function.update_self], last⟩
    · exact Or.inr ⟨r, nodes, (owner o).trans own, by rw [queues, Function.update_of_ne same, found], member⟩

theorem threadWakeup {queue : Option Nat} {all : Int} (n : Named s) (run : threadWakeup queue all s = .ok t) :
    Retains place s t := by
  have woken := threadWakeup_woken run
  have exist (i : Nat) : (t.totalList i).exist = (s.totalList i).exist := by rw [woken.threads]
  have contexts (i : Nat) : (t.totalList i).threadInfo = (s.totalList i).threadInfo := by rw [woken.threads]
  rcases threadWakeup_cases run with ⟨v, rfl⟩ | ⟨q, head, rest, -, found, rfl | rfl⟩
  · exact of_same rfl rfl rfl rfl rfl rfl
  · have named : (s.totalList head).threadID = head := n.waiting q _ found head List.mem_cons_self
    refine wake [head] rest woken.current exist contexts woken.owner found ?_ rfl
    change s.readyList ++ [(s.totalList head).threadID] = _
    rw [named]
  · have ids : Identified (s.setQueue q (some [])) (head :: rest) := n.waiting q _ found
    refine wake (head :: rest) [] woken.current exist contexts woken.owner (by rw [found, List.append_nil]) ?_ ?_
    · exact wakeAll_readyList ids
    · exact wakeAll_queues (head :: rest) (s.setQueue q (some []))

theorem releaseWaiters (n : Named s) (run : releaseWaiters s = .ok t) : Retains place s t := by
  have contexts := releaseWaiters_threadInfo run
  rcases releaseWaiters_cases n run with ⟨-, rfl⟩ | ⟨q, nodes, own, queue, released⟩
  · exact of_same rfl rfl rfl rfl rfl rfl
  refine ⟨released.current, fun i alive here => ?_, fun i member => ?_, fun owner i _ => ?_⟩
  · rw [released.exist] at alive
    rw [contexts] at here
    exact ⟨alive, here⟩
  · rw [released.readyList]
    exact List.mem_append_left nodes member
  · rintro ⟨r, waiters, found, here, member⟩
    by_cases same : r = q
    · subst same
      obtain rfl := Option.some.inj (queue.symm.trans here)
      exact Or.inl (released.readyList ▸ List.mem_append_right s.readyList member)
    · refine Or.inr ⟨r, waiters, ?_, by rw [released.queues, Function.update_of_ne same, here], member⟩
      rw [released.owner]
      split_ifs with caller
      · have shared : queueOf s (.thread s.currentThread) = some r := caller ▸ found
        exact (same (Option.some.inj (shared.symm.trans own))).elim
      · exact found

theorem threadCreate (shared : ∀ owner, place = some owner → owner.Shared) (stackOk : Bool) :
    Retains place s (threadCreate stackOk s) := by
  have untouched (owner : Owner) (i : Nat) (here : place = some owner) (queued : Queued s owner i) :
      Queued (Threads.threadCreate stackOk s) owner i := leaves (.threadCreate (shared owner here) stackOk) queued
  rcases threadCreate_started stackOk s with refused | ⟨id, stack, nextStack, interrupts, rax, -, -, started⟩
  · rw [refused]
    exact of_same rfl rfl rfl rfl rfl rfl
  refine ⟨by rw [started], fun i alive here => ?_, fun i member => ?_, fun owner i same queued => ?_⟩
  · rw [started] at alive here
    by_cases new : i = id
    · simp only [new, Function.update_self, Thread.started, site] at here
      cases here
    · simp only [Function.update_of_ne new] at alive here
      exact ⟨alive, here⟩
  · rw [started]
    cases stackOk
    · exact member
    · exact List.mem_append_left [id] member
  · exact Or.inr (untouched owner i same queued)

theorem lockRelease {l : Nat} (n : Named s) (run : lockRelease l s = .ok t) : Retains place s t := by
  obtain ⟨lock, found, run⟩ := Result.bind_eq_ok.mp run
  split_ifs at run
  · exact Except.ok.inj run ▸ of_same rfl rfl rfl rfl rfl rfl
  · have steady : Steady s (s.setLock l (some { lock with avaliable := true })) := .setLock (lockAt_eq_ok.mp found) rfl
    have unlocked : Retains place s (s.setLock l (some { lock with avaliable := true })) := by
      refine of_eq rfl (fun _ => rfl) (fun _ => rfl) rfl fun o i _ => ?_
      rintro ⟨q, nodes, own, queue, member⟩
      exact ⟨q, nodes, (steady.owner o).trans own, queue, member⟩
    exact unlocked.trans (threadWakeup (n.setLock l _) run)

theorem cvWake {all : Int} {c l : Nat} (n : Named s) (run : cvWake all c l s = .ok t) : Retains place s t := by
  obtain ⟨q, -, run⟩ := Result.bind_eq_ok.mp run
  obtain ⟨lock, -, run⟩ := Result.bind_eq_ok.mp run
  split_ifs at run
  · exact threadWakeup n run
  · exact Except.ok.inj run ▸ of_same rfl rfl rfl rfl rfl rfl

end Retains

namespace Parked

variable {lost : Nat → Prop} {place : Option Owner} {s t u : State}

theorem retain (k : Parked place s) (retains : Retains place s t) : Parked place t := by
  intro i other alive here
  obtain ⟨alive, here⟩ := retains.contexts i alive here
  rcases k i (retains.current ▸ other) alive here with ready | ⟨owner, same, queued⟩
  · exact Or.inl (retains.ready i ready)
  · rcases retains.queued owner i same queued with woken | stays
    · exact Or.inl woken
    · exact Or.inr ⟨owner, same, stays⟩

theorem yield {frame : Frame} {next : Nat} (k : Parked place s) (sw : Switched .ready frame next s t)
    (ready : t.readyList = (s.readyList ++ [s.currentThread]).erase next) (queues : t.queues = s.queues) :
    Parked place t := by
  intro i other alive here
  have other : i ≠ next := sw.current ▸ other
  have listed (member : i ∈ s.readyList ++ [s.currentThread]) : i ∈ t.readyList := by
    rw [ready]
    exact (List.mem_erase_of_ne other).mpr member
  by_cases caller : i = s.currentThread
  · exact Or.inl (listed (List.mem_append_right _ (caller ▸ List.mem_singleton_self _)))
  · rw [sw.exist] at alive
    rw [sw.contexts i caller] at here
    rcases k i caller alive here with before | ⟨owner, same, q, nodes, own, queue, member⟩
    · exact Or.inl (listed (List.mem_append_left _ before))
    · exact Or.inr ⟨owner, same, q, nodes, (sw.owner owner).trans own, queues ▸ queue, member⟩

theorem threadYield {want : Tid} (p : Seated lost s) (k : Parked place s) (run : threadYield want s = .ok t) :
    Parked place t := by
  rcases threadYield_cases p.yieldable run with rfl | rfl | ⟨next, iter, -, switched, ready, queues, -⟩
  · exact k.retain (.of_same rfl rfl rfl rfl rfl rfl)
  · exact k.retain (.of_same rfl rfl rfl rfl rfl rfl)
  · exact k.yield switched ready queues

theorem threadSleep {queue : Option Nat} (p : Seated lost s) (k : Parked place s)
    (there : ∀ next q, queue = some q → site (.afterSleep s.interrupts next :: s.callStack) = some place →
      ∃ owner, place = some owner ∧ queueOf s owner = some q)
    (run : threadSleep queue s = .ok t) : Parked place t := by
  cases queue with
  | none => exact Except.ok.inj run ▸ k.retain (.of_same rfl rfl rfl rfl rfl rfl)
  | some q =>
      rcases threadSleep_cases p.yieldable run with ⟨-, rfl⟩ | ⟨next, rest, nodes, head, queue, sw, ready, queues, -⟩
      · exact k.retain (.of_same rfl rfl rfl rfl rfl rfl)
      intro i other alive here
      have other : i ≠ next := sw.current ▸ other
      by_cases caller : i = s.currentThread
      · subst caller
        rw [sw.saved] at here
        obtain ⟨owner, same, own⟩ := there next q rfl here
        refine Or.inr ⟨owner, same, q, nodes ++ [s.currentThread], (sw.owner owner).trans own, ?_, by simp⟩
        rw [queues, Function.update_self]
      · rw [sw.exist] at alive
        rw [sw.contexts i caller] at here
        rcases k i caller alive here with before | ⟨owner, same, r, waiters, own, found, member⟩
        · rw [head] at before
          exact Or.inl (ready ▸ (List.mem_cons.mp before).resolve_left other)
        · refine Or.inr ⟨owner, same, r, ?_⟩
          by_cases this : r = q
          · subst this
            obtain rfl := Option.some.inj (queue.symm.trans found)
            refine ⟨nodes ++ [s.currentThread], (sw.owner owner).trans own, ?_, List.mem_append_left _ member⟩
            rw [queues, Function.update_self]
          · refine ⟨waiters, (sw.owner owner).trans own, ?_, member⟩
            rw [queues, Function.update_of_ne this, found]

theorem threadExit (p : Seated lost s) (n : Named s) (k : Parked place s) (run : threadExit s = .ok t) :
    Parked place t := by
  have masked : Retains place s (s.interruptsSet false) := .of_same rfl rfl rfl rfl rfl rfl
  obtain ⟨u, released, -, rfl | ⟨next, rest, head, sw, ready, queues, -⟩⟩ := p.threadExit_cases run
  all_goals have before := k.retain (masked.trans (.releaseWaiters (n.interruptsSet false) released))
  · exact before.retain (.of_same rfl rfl rfl rfl rfl rfl)
  intro i other alive here
  have other : i ≠ next := sw.current ▸ other
  by_cases caller : i = u.currentThread
  · -- its context says `thread_yield`, but it is no longer alive
    subst caller
    rw [sw.exist, markExited_exist, if_pos rfl] at alive
    have saved : (t.totalList u.currentThread).threadInfo = _ := sw.saved
    rw [saved] at here
    exact absurd (alive (Option.some.inj here).symm) (by simp)
  · rw [sw.exist, markExited_exist, if_neg caller] at alive
    have same : (t.totalList i).threadInfo = (u.totalList i).threadInfo := by
      refine (sw.contexts i caller).trans ?_
      simp only [Seated.markExited, State.push, thread_modifyThread, if_neg caller]
    rw [same] at here
    rcases before i caller alive here with listed | ⟨owner, same, q, nodes, own, queue, member⟩
    · rw [head] at listed
      exact Or.inl (ready ▸ (List.mem_cons.mp listed).resolve_left other)
    · refine Or.inr ⟨owner, same, q, nodes, ?_, queues ▸ queue, member⟩
      exact (sw.owner owner).trans (((Keeps.exit u s.interrupts).owner owner).trans own)

theorem threadWait {tid : Tid} (p : Seated lost s) (owned : Private s) (k : Parked place s)
    (shared : ∀ owner, place = some owner → owner.Shared) (run : threadWait tid s = .ok t) : Parked place t := by
  simp only [Threads.threadWait] at run
  split_ifs at run
  · exact Except.ok.inj run ▸ k.retain (.of_same rfl rfl rfl rfl rfl rfl)
  · exact Except.ok.inj run ▸ k.retain (.of_same rfl rfl rfl rfl rfl rfl)
  let u := (s.interruptsSet false).push (.waitReturn s.interrupts tid)
  have seated : Seated lost u := (p.interruptsSet false).push rfl
  have called : Parked place u := k.retain (.of_same rfl rfl rfl rfl rfl rfl)
  have ownedU : Private u := owned.steady (.of_eq rfl rfl rfl rfl rfl rfl rfl)
  split at run
  · refine called.threadSleep seated (fun next q _ here => ?_) run
    cases here
  · have attached (q : Nat) : Retains place u ((waitQueueCreate u).1.modifyThread tid.toNat fun t => { t with wqt := some q }) := by
      refine .of_eq rfl (fun i => ?_) (fun i => ?_) rfl fun owner i same queued => ?_
      · rw [thread_modifyThread]
        split_ifs with target
        · exact target ▸ rfl
        · rfl
      · rw [thread_modifyThread]
        split_ifs with target
        · exact target ▸ rfl
        · rfl
      · exact Retains.leaves ((Leaves.queueCreate ownedU).trans (.of_eq (shared owner same) rfl rfl rfl)) queued
    refine (called.retain (attached _)).threadSleep (seated.queueCreate.setWqt _ _) (fun next q _ here => ?_) run
    cases here

theorem acquireLoop {l : Nat} {enabled : Bool} (p : Seated lost s) (k : Parked place s)
    (run : acquireLoop l enabled s = .ok t) : Parked place t := by
  obtain ⟨lock, found, run⟩ := Result.bind_eq_ok.mp run
  have found : s.locks l = some lock := lockAt_eq_ok.mp found
  split_ifs at run
  · have steady : Steady s (s.setLock l (some { lock with avaliable := false, acquiredID := s.currentThread })) :=
      .setLock found rfl
    rw [← Except.ok.inj run]
    refine k.retain (.of_eq rfl (fun _ => rfl) (fun _ => rfl) rfl fun o i _ => ?_)
    rintro ⟨q, nodes, own, queue, member⟩
    exact ⟨q, nodes, (steady.owner o).trans own, queue, member⟩
  · have called : Parked place (s.push (.acquireLoop l enabled)) := k.retain (.of_same rfl rfl rfl rfl rfl rfl)
    refine called.threadSleep (p.push rfl) (fun next q same here => ⟨.lock l, (Option.some.inj here).symm, ?_⟩) run
    change (s.locks l).map Lock.wqL = some q
    rw [found, Option.map_some, Option.some.inj same]

theorem cvWait {c l : Nat} (p : Seated lost s) (n : Named s) (owned : Private s) (k : Parked place s)
    (stack : s.callStack = [.user (.cvWait c l)]) (run : cvWait c l s = .ok t) : Parked place t := by
  obtain ⟨q, found, run⟩ := Result.bind_eq_ok.mp run
  obtain ⟨u, released, run⟩ := Result.bind_eq_ok.mp run
  obtain ⟨lock, -, run⟩ := Result.bind_eq_ok.mp run
  have masked : Retains place s (s.interruptsSet false) := .of_same rfl rfl rfl rfl rfl rfl
  have before := k.retain (masked.trans (.lockRelease (n.interruptsSet false) released))
  have called : Parked place (u.push (.cvReacquire l s.interrupts)) := before.retain (.of_same rfl rfl rfl rfl rfl rfl)
  split_ifs at run
  · refine called.threadSleep (((p.interruptsSet false).lockRelease released).push rfl) (fun next r same here => ?_) run
    have frames : u.callStack = [.user (.cvWait c l)] := (lockRelease_callStack released).trans stack
    simp only [State.push, frames, site, Option.some.injEq] at here
    refine ⟨.cv c, here.symm, ?_⟩
    have kept : Leaves (.cv c) (s.interruptsSet false) u :=
      .lockRelease (owned.steady (.interruptsSet s false)) (by simp) released
    exact (kept.queue.trans (cvAt_eq_ok.mp found)).trans same
  · exact Except.ok.inj run ▸ called

end Parked

def Free (s : State) : Prop :=
  ∀ l lock, s.locks l = some lock → lock.avaliable = true → s.queues lock.wqL = some []

def Spares (place : Option Owner) (s : State) : Action → Prop
  | .call (.cvDestroy c) => place = some (.cv c) → ∀ q, s.cvs c = some q → s.queues q = some []
  | _ => True

theorem not_queued {s : State} {owner : Owner} {q i : Nat} (own : queueOf s owner = some q) (empty : s.queues q = some []) :
    ¬ Queued s owner i := by
  rintro ⟨r, nodes, own', queue, member⟩
  obtain rfl := Option.some.inj (own.symm.trans own')
  obtain rfl := Option.some.inj (empty.symm.trans queue)
  cases member

namespace Retains

variable {place : Option Owner} {s t : State}

theorem of_leaves (table : t.totalList = s.totalList) (current : t.currentThread = s.currentThread)
    (ready : t.readyList = s.readyList)
    (untouched : ∀ owner i, place = some owner → Queued s owner i → Leaves owner s t) : Retains place s t :=
  of_eq current (fun i => by rw [table]) (fun i => by rw [table]) ready
    fun owner i same queued => leaves (untouched owner i same queued) queued

theorem lockCreate (p : Private s) (m : Numbered s) (shared : ∀ owner, place = some owner → owner.Shared) :
    Retains place s (lockCreate s) := by
  refine of_leaves rfl rfl rfl fun owner i same queued => .lockCreate p (shared owner same) ?_
  rintro rfl
  obtain ⟨q, -, own, -⟩ := queued
  simp [queueOf, m.locks] at own

theorem cvCreate (p : Private s) (m : Numbered s) (shared : ∀ owner, place = some owner → owner.Shared) :
    Retains place s (cvCreate s) := by
  refine of_leaves rfl rfl rfl fun owner i same queued => .cvCreate p (shared owner same) ?_
  rintro rfl
  obtain ⟨q, -, own, -⟩ := queued
  simp [queueOf, m.cvs] at own

theorem lockDestroy {l : Nat} (p : Private s) (free : Free s) (run : lockDestroy l s = .ok t) : Retains place s t := by
  have whole := run
  obtain ⟨lock, found, run⟩ := Result.bind_eq_ok.mp run
  have found : s.locks l = some lock := lockAt_eq_ok.mp found
  split_ifs at run with available
  · have kept (owner : Owner) (i : Nat) (queued : Queued s owner i) : Leaves owner s t := by
      refine .lockDestroy p ?_ whole
      rintro rfl
      exact not_queued (by rw [queueOf, found, Option.map_some]) (free l lock found available) queued
    rw [← Except.ok.inj run] at kept ⊢
    exact of_leaves rfl rfl rfl fun owner i _ queued => kept owner i queued
  · exact Except.ok.inj run ▸ of_same rfl rfl rfl rfl rfl rfl

theorem cvDestroy {c : Nat} (p : Private s) (shared : ∀ owner, place = some owner → owner.Shared)
    (spares : Spares place s (.call (.cvDestroy c))) (run : cvDestroy c s = .ok t) : Retains place s t := by
  have kept (owner : Owner) (i : Nat) (same : place = some owner) (queued : Queued s owner i) : Leaves owner s t := by
    refine .cvDestroy p (shared owner same) ?_ run
    rintro rfl
    obtain ⟨q, -, own, -⟩ := id queued
    exact not_queued own (spares same q own) queued
  obtain ⟨q, -, run⟩ := Result.bind_eq_ok.mp run
  obtain ⟨nodes, -, run⟩ := Result.bind_eq_ok.mp run
  rw [← Except.ok.inj run] at kept ⊢
  split_ifs at kept ⊢
  · exact of_leaves rfl rfl rfl kept
  · exact of_leaves rfl rfl rfl kept

end Retains

namespace Parked

variable {lost : Nat → Prop} {place : Option Owner} {s t : State}

theorem enter {call : Call} (seated : Seated lost s) (n : Named s) (p : Private s) (m : Numbered s) (free : Free s)
    (shared : ∀ owner, place = some owner → owner.Shared)
    (k : Parked place s) (peaceful : Peaceful s (.call call)) (spares : Spares place s (.call call))
    (stack : s.callStack = [.user call]) (run : enter call s = .ok t) : Parked place t := by
  cases call with
  | create stackOk => exact Except.ok.inj run ▸ k.retain (.threadCreate shared stackOk)
  | yield tid => exact k.threadYield seated run
  | exit => exact k.threadExit seated n run
  | kill tid => exact peaceful.2.elim
  | queueCreate =>
      rw [← Except.ok.inj run]
      refine k.retain (.of_leaves rfl rfl rfl fun owner i same queued => ?_)
      exact (Leaves.queueCreate p).trans (.of_eq (shared owner same) rfl rfl rfl)
  | queueDestroy q =>
      have kept (owner : Owner) : Leaves owner s t := .queueDestroy peaceful.1 run
      obtain ⟨nodes, -, run⟩ := Result.bind_eq_ok.mp run
      rw [← Except.ok.inj run] at kept ⊢
      exact k.retain (.of_leaves rfl rfl rfl fun owner _ _ _ => kept owner)
  | sleep queue =>
      refine k.threadSleep seated (fun next q _ here => ?_) run
      rw [stack] at here
      cases here
  | wakeup queue all => exact k.retain (.threadWakeup n run)
  | wait tid => exact k.threadWait seated p shared run
  | lockCreate => exact Except.ok.inj run ▸ k.retain (.lockCreate p m shared)
  | lockDestroy l => exact k.retain (.lockDestroy p free run)
  | lockAcquire l =>
      obtain ⟨lock, -, run⟩ := Result.bind_eq_ok.mp run
      exact Except.ok.inj run ▸ k.retain (.of_same rfl rfl rfl rfl rfl rfl)
  | lockRelease l => exact k.retain (.lockRelease n run)
  | cvCreate => exact Except.ok.inj run ▸ k.retain (.cvCreate p m shared)
  | cvDestroy c => exact k.retain (.cvDestroy p shared spares run)
  | cvWait c l => exact k.cvWait seated n p stack run
  | cvSignal c l | cvBroadcast c l => exact k.retain (.cvWake n run)
  | interruptsSet enabled => exact Except.ok.inj run ▸ k.retain (.of_same rfl rfl rfl rfl rfl rfl)

theorem continueFrame {frame : Frame} (p : Seated lost s) (settled : frame.settled = true) (k : Parked place s)
    (run : continueFrame frame s = .ok t) : Parked place t := by
  cases frame with
  | acquireLoop l enabled => exact k.acquireLoop p run
  | exitCall => cases settled
  | afterExit caller next => cases settled
  | afterYield enabled called next iter =>
      obtain rfl : called = true := settled
      exact Except.ok.inj run ▸ k.retain (.of_same rfl rfl rfl rfl rfl rfl)
  | cvReacquire l enabled =>
      obtain ⟨lock, -, run⟩ := Result.bind_eq_ok.mp run
      exact Except.ok.inj run ▸ k.retain (.of_same rfl rfl rfl rfl rfl rfl)
  | user _ | stub | handler _ | yieldResult | exitReturn _ | afterSleep _ _ | waitReturn _ _ | cvReturn _ =>
      exact Except.ok.inj run ▸ k.retain (.of_same rfl rfl rfl rfl rfl rfl)

theorem step {action : Action} {event : Option Event} (sound : Sound s) (free : Free s)
    (shared : ∀ owner, place = some owner → owner.Shared) (k : Parked place s) (peaceful : Peaceful s action)
    (spares : Spares place s action) (run : step s action = .ok (t, event)) : Parked place t := by
  obtain ⟨lost, seated⟩ := sound.seated
  rcases step_cases run with ⟨call, rfl, stack, entered, -⟩ | ⟨frame, frames, -, stack, continued, -⟩ |
    ⟨-, -, yielded, -⟩
  · have called : Parked place (s.push (.user call)) := k.retain (.of_same rfl rfl rfl rfl rfl rfl)
    refine called.enter (seated.push rfl) (sound.named.push _) (sound.owned.steady (.push s _))
      (sound.numbered.of_eq rfl rfl rfl rfl) free shared ?_ ?_ (by rw [State.push, stack]) entered
    · cases call <;> exact peaceful
    · cases call <;> exact spares
  · have popped : Parked place { s with callStack := frames } := k.retain (.of_same rfl rfl rfl rfl rfl rfl)
    obtain ⟨settled, below⟩ := seated.pop stack
    exact popped.continueFrame below settled continued
  · have interrupted : Parked place ((s.interruptsSet false).push (.handler s.rax)) := k.retain (.of_same rfl rfl rfl rfl rfl rfl)
    exact interrupted.threadYield ((seated.interruptsSet false).push rfl) yielded

theorem init : Parked place threadInit := by
  intro i other _ here
  have other : i ≠ 0 := other
  simp [threadInit, other, Thread.zero, site] at here

end Parked

theorem lockRelease_empty {l : Nat} {s t : State} (free : Free s) (run : lockRelease l s = .ok t) :
    ∃ lock, t.locks l = some lock ∧ t.queues lock.wqL = some [] := by
  obtain ⟨lock, found, run⟩ := Result.bind_eq_ok.mp run
  have found : s.locks l = some lock := lockAt_eq_ok.mp found
  split_ifs at run with available
  · exact Except.ok.inj run ▸ ⟨lock, found, free l lock found available⟩
  · refine ⟨{ lock with avaliable := true }, ?_, threadWakeup_all run⟩
    rw [(threadWakeup_woken run).locks]
    exact Function.update_self _ _ _

namespace Free

variable {s t : State}

theorem touched {l : Nat} {lock : Lock} {call : Call} (p : Private s) (free : Free s) (touches : call.touches s (.lock l))
    (run : enter call s = .ok t) (found : t.locks l = some lock) (available : lock.avaliable = true) :
    t.queues lock.wqL = some [] := by
  cases call with
  | lockCreate =>
      obtain rfl : l = s.nextLock := touches
      obtain rfl := Except.ok.inj run
      have fresh : (lockCreate s).locks s.nextLock = some ⟨s.nextQueue, true, -1⟩ := Function.update_self _ _ _
      obtain rfl := Option.some.inj (fresh.symm.trans found)
      exact Function.update_self _ _ _
  | lockDestroy l' =>
      obtain rfl : l = l' := touches
      obtain ⟨old, here, run⟩ := Result.bind_eq_ok.mp run
      split_ifs at run
      · rw [← Except.ok.inj run] at found
        have gone : (State.setLock (s.setQueue old.wqL none) l none).locks l = none := Function.update_self _ _ _
        rw [gone] at found
        cases found
      · rw [← Except.ok.inj run] at found ⊢
        exact free l lock found available
  | lockRelease l' =>
      obtain rfl : l = l' := touches
      obtain ⟨lock', found', empty⟩ := lockRelease_empty free run
      obtain rfl := Option.some.inj (found.symm.trans found')
      exact empty
  | cvWait c l' =>
      obtain rfl : l = l' := touches
      obtain ⟨q, here, run⟩ := Result.bind_eq_ok.mp run
      obtain ⟨u, released, run⟩ := Result.bind_eq_ok.mp run
      obtain ⟨_, -, run⟩ := Result.bind_eq_ok.mp run
      have masked := Steady.interruptsSet s false
      have steady := masked.trans (.lockRelease (p.steady masked) released)
      obtain ⟨lock', found', empty⟩ := lockRelease_empty (s := s.interruptsSet false) free released
      have kept : Leaves (.lock l) u t := by
        have pushed : Leaves (.lock l) u (u.push (.cvReacquire l s.interrupts)) := .of_queues rfl rfl rfl
        split_ifs at run
        · refine pushed.trans (.threadSleep (fun r same own => ?_) run)
          have cv : queueOf u (.cv c) = some r := ((steady.owner (.cv c)).trans (cvAt_eq_ok.mp here)).trans same
          cases (p.steady steady).inj (.lock l) (.cv c) r own cv
        · exact Except.ok.inj run ▸ pushed
      obtain rfl := Option.some.inj (((kept.lock l rfl).trans found').symm.trans found)
      exact (kept.nodes _ (by rw [queueOf, found', Option.map_some])).trans empty
  | _ => exact touches.elim

theorem step {label : Label} (sound : Sound s) (free : Free s) (taken : Steps Peaceful s label t) : Free t := by
  intro l lock found available
  have shared : (Owner.lock l).Shared := fun i same => by cases same
  obtain ⟨lost, seated⟩ := sound.seated
  by_cases touches : Touches s (.lock l) label.1
  · rcases step_cases taken.2 with ⟨call, action, -, entered, -⟩ | ⟨frame, frames, action, stack, continued, -⟩ | ⟨action, -⟩
    all_goals rw [action] at touches
    · refine touched (s := s.push (.user call)) (sound.owned.steady (.push s _)) free ?_ entered found available
      cases call <;> exact touches
    · obtain ⟨l', enabled, rest, top, same⟩ := touches
      obtain rfl := Owner.lock.inj same
      obtain rfl := (List.cons.inj (stack.symm.trans top)).1
      obtain ⟨old, here, run⟩ := Result.bind_eq_ok.mp continued
      have here : s.locks l = some old := lockAt_eq_ok.mp here
      -- the loop ends with the lock taken, and sleeps only on a lock that is taken
      have taken : ∃ lock', t.locks l = some lock' ∧ lock'.avaliable = false := by
        split_ifs at run with open'
        · exact Except.ok.inj run ▸ ⟨_, Function.update_self _ _ _, rfl⟩
        · refine ⟨old, ?_, by simpa using open'⟩
          rcases threadSleep_slept run with ⟨-, rfl⟩ | ⟨next, rest, nodes, slept⟩
          · exact here
          · exact (congrFun slept.locks l).trans here
      obtain ⟨lock', found', closed⟩ := taken
      obtain rfl := Option.some.inj (found.symm.trans found')
      rw [available] at closed
      cases closed
    · exact touches.elim
  · have kept : Leaves (.lock l) s t :=
      .step shared seated sound.named sound.owned taken.1 touches taken.2
    have before : s.locks l = some lock := (kept.lock l rfl).symm.trans found
    exact (kept.nodes _ (by rw [queueOf, before, Option.map_some])).trans (free l lock before available)

theorem init : Free threadInit := by
  intro l lock found
  cases found

end Free

def Acquiring (l : Nat) (frames : List Frame) : Prop := ∃ enabled, Frame.acquireLoop l enabled ∈ frames

def Blocked (s : State) (l i : Nat) : Prop := i ≠ s.currentThread ∧ Acquiring l (s.totalList i).threadInfo

theorem Calling.user {owns : Nat → Prop} {enabled : Bool} {call : Call} {frames : List Frame}
    (calling : Calling owns enabled (.user call :: frames)) : frames = [] := by
  cases calling with
  | interruptible _ interruptible =>
      cases interruptible
      rfl
  | resumed saved => cases saved
  | sleeping sleeping => cases sleeping

theorem Open.not_acquiring {l : Nat} {frames : List Frame} (interruptible : Open frames) : ¬ Acquiring l frames := by
  rintro ⟨enabled, member⟩
  cases interruptible <;> simp at member

theorem Saved.site_acquiring {l : Nat} {frames : List Frame} (saved : Saved frames) (acquiring : Acquiring l frames) :
    site frames = some (some (.lock l)) := by
  obtain ⟨enabled, member⟩ := acquiring
  cases saved with
  | preempted next iter interruptible =>
      have outside : ¬ Acquiring l _ := interruptible.not_acquiring
      refine (outside ⟨enabled, ?_⟩).elim
      simpa using member
  | sleeping next sleeping =>
      cases sleeping with
      | acquire l' enabled' =>
          obtain ⟨rfl, -⟩ : l = l' ∧ enabled = enabled' := by simpa using member
          rfl
      | reacquire c l' enabled' =>
          obtain ⟨rfl, -⟩ : l = l' ∧ enabled = false := by simpa using member
          rfl
      | wait | cv => simp at member
  | _ => simp at member

theorem Blocked.ready_or_queued {s : State} {l i : Nat} (sound : Sound s) (k : Parked (some (.lock l)) s)
    (blocked : Blocked s l i) : i ∈ s.readyList ∨ Queued s (.lock l) i := by
  rcases k i blocked.1 (fun same => by cases same) ((sound.stacked.saved i).site_acquiring blocked.2) with
    ready | ⟨owner, same, queued⟩
  · exact Or.inl ready
  · exact Or.inr (Option.some.inj same ▸ queued)

theorem alive_of_acquiring {lost : Nat → Prop} {s : State} {l i : Nat} (seated : Seated lost s) (stacked : Stacked s)
    (k : Parked (some (.lock l)) s) (acquiring : Acquiring l (stackOf s i)) : (s.totalList i).exist = true := by
  by_cases running : i = s.currentThread
  · exact running ▸ seated.partition.running_live.1
  · rw [stackOf, if_neg running] at acquiring
    rcases k i running (fun same => by cases same) ((stacked.saved i).site_acquiring acquiring) with
      ready | ⟨owner, -, q, nodes, -, queue, member⟩
    · exact (seated.partition.ready_live i ready).1
    · exact (seated.partition.waiting_live q i (by simpa [scheduler, queue] using member)).1

section Stacks

variable {lost : Nat → Prop} {s t : State} {i : Nat}

theorem Extends.suffix (grown : Extends s t) (i : Nat) : stackOf s i <:+ stackOf t i := by
  obtain ⟨fs, -, eq⟩ := grown.growth i
  exact ⟨fs, eq.symm⟩

theorem push_suffix (s : State) (f : Frame) (i : Nat) : stackOf s i <:+ stackOf (s.push f) i := by
  rw [Extends.stackOf_push]
  split_ifs
  · exact List.suffix_cons f _
  · exact List.suffix_refl _

theorem enter_suffix {call : Call} (p : Seated lost s) (killFree : KillFree (.call call))
    (alive : (s.totalList i).exist = true) (run : enter call s = .ok t) : stackOf s i <:+ stackOf t i := by
  have released {l : Nat} {s u : State} (run : lockRelease l s = .ok u) : stackOf s i <:+ stackOf u i := by
    obtain ⟨lock, -, woken⟩ := lockRelease_cases run
    refine List.IsSuffix.trans ?_ ((Extends.of_woken woken).suffix i)
    unfold unlock
    split_ifs <;> exact List.suffix_refl _
  cases call with
  | create stackOk =>
      rcases threadCreate_started stackOk s with refused | ⟨id, stack, nextStack, interrupts, rax, free, -, started⟩
      · rw [← Except.ok.inj run, refused]
        exact List.suffix_refl _
      · have other : i ≠ id := by
          rintro rfl
          rw [free] at alive
          cases alive
        rw [← Except.ok.inj run, started]
        simp only [stackOf, Function.update_of_ne other]
        exact List.suffix_refl _
  | yield tid => exact (Extends.threadYield p run).suffix i
  | exit => exact (Extends.threadExit p run).suffix i
  | kill tid => exact killFree.elim
  | sleep queue => exact (Extends.threadSleep p run).suffix i
  | wakeup queue all => exact (Extends.of_woken (threadWakeup_woken run)).suffix i
  | wait tid => exact (Extends.threadWait p run).suffix i
  | lockAcquire l =>
      obtain ⟨lock, -, run⟩ := Result.bind_eq_ok.mp run
      exact Except.ok.inj run ▸ push_suffix (s.interruptsSet false) _ i
  | lockRelease l => exact released run
  | lockDestroy l =>
      obtain ⟨lock, -, run⟩ := Result.bind_eq_ok.mp run
      split_ifs at run
      all_goals
        exact Except.ok.inj run ▸ List.suffix_refl _
  | cvDestroy c => exact (Extends.cvDestroy run).suffix i
  | cvWait c l =>
      obtain ⟨q, -, run⟩ := Result.bind_eq_ok.mp run
      obtain ⟨u, unlocked, run⟩ := Result.bind_eq_ok.mp run
      obtain ⟨lock, -, run⟩ := Result.bind_eq_ok.mp run
      have seated : Seated lost (u.push (.cvReacquire l s.interrupts)) :=
        ((p.interruptsSet false).lockRelease unlocked).push rfl
      have before := (released (s := s.interruptsSet false) unlocked).trans (push_suffix u (.cvReacquire l s.interrupts) i)
      split_ifs at run
      · exact before.trans ((Extends.threadSleep seated run).suffix i)
      · exact Except.ok.inj run ▸ before
  | cvSignal c l | cvBroadcast c l => exact (Extends.cvWake run).suffix i
  | queueDestroy q =>
      obtain ⟨nodes, -, run⟩ := Result.bind_eq_ok.mp run
      exact Except.ok.inj run ▸ List.suffix_refl _
  | queueCreate | lockCreate | cvCreate | interruptsSet _ =>
      exact Except.ok.inj run ▸ List.suffix_refl _

theorem continueFrame_suffix {frame : Frame} (p : Seated lost s) (settled : frame.settled = true)
    (run : continueFrame frame s = .ok t) : stackOf s i <:+ stackOf t i := by
  cases frame with
  | acquireLoop l enabled =>
      obtain ⟨lock, -, run⟩ := Result.bind_eq_ok.mp run
      split_ifs at run
      · exact Except.ok.inj run ▸ List.suffix_refl _
      · exact (push_suffix s _ i).trans ((Extends.threadSleep (p.push rfl) run).suffix i)
  | exitCall => cases settled
  | afterExit caller next => cases settled
  | afterYield enabled called next iter =>
      obtain rfl : called = true := settled
      exact Except.ok.inj run ▸ push_suffix (s.interruptsSet enabled) _ i
  | cvReacquire l enabled =>
      obtain ⟨lock, -, run⟩ := Result.bind_eq_ok.mp run
      rw [← Except.ok.inj run]
      exact (push_suffix s _ i).trans (push_suffix ((s.push (.cvReturn enabled)).interruptsSet false) _ i)
  | user _ | stub | handler _ | yieldResult | exitReturn _ | afterSleep _ _ | waitReturn _ _ | cvReturn _ =>
      exact Except.ok.inj run ▸ List.suffix_refl _

end Stacks

def Takes (l i : Nat) (s t : State) : Prop :=
  s.currentThread = i ∧ (∃ enabled frames, s.callStack = .acquireLoop l enabled :: frames) ∧
    (∃ lock, s.locks l = some lock ∧ lock.avaliable = true) ∧ Owns t l i

theorem Acquiring.mono {l : Nat} {frames more : List Frame} (acquiring : Acquiring l frames) (grown : frames <:+ more) :
    Acquiring l more := by
  obtain ⟨enabled, member⟩ := acquiring
  exact ⟨enabled, grown.mem member⟩

theorem acquiring_step {lost : Nat → Prop} {s t : State} {label : Label} {l i : Nat} (p : Seated lost s)
    (acquiring : Acquiring l (stackOf s i)) (alive : (s.totalList i).exist = true) (taken : Steps Peaceful s label t) :
    Acquiring l (stackOf t i) ∨ Takes l i s t := by
  rcases step_cases taken.2 with ⟨call, action, -, entered, -⟩ | ⟨frame, frames, -, stack, continued, -⟩ | ⟨-, -, yielded, -⟩
  · have killFree : KillFree (.call call) := action ▸ taken.1.2
    have called := acquiring.mono (push_suffix s (.user call) i)
    exact Or.inl (called.mono (enter_suffix (p.push rfl) killFree alive entered))
  · obtain ⟨settled, popped⟩ := p.pop stack
    have grown : stackOf { s with callStack := frames } i <:+ stackOf t i :=
      continueFrame_suffix popped settled continued
    by_cases running : i = s.currentThread
    · subst running
      rw [stackOf, if_pos rfl, stack] at acquiring
      obtain ⟨enabled, member⟩ := acquiring
      rcases List.mem_cons.mp member with rfl | below
      · obtain ⟨lock, found, run⟩ := Result.bind_eq_ok.mp continued
        have found : s.locks l = some lock := lockAt_eq_ok.mp found
        split_ifs at run with available
        · refine Or.inr ⟨rfl, ⟨enabled, frames, stack⟩, ⟨lock, found, available⟩, ?_⟩
          exact Except.ok.inj run ▸ ⟨_, Function.update_self _ _ _, rfl, rfl⟩
        · -- it goes to sleep with the loop still on its stack
          refine Or.inl (Acquiring.mono ⟨enabled, ?_⟩ ((Extends.threadSleep (popped.push rfl) run).suffix s.currentThread))
          simp [stackOf, State.push]
      · refine Or.inl (Acquiring.mono ⟨enabled, ?_⟩ grown)
        simpa [stackOf] using below
    · refine Or.inl (Acquiring.mono ?_ grown)
      simpa only [stackOf, if_neg running] using acquiring
  · have interrupted := acquiring.mono (push_suffix (s.interruptsSet false) (.handler s.rax) i)
    have seated : Seated lost ((s.interruptsSet false).push (.handler s.rax)) := (p.interruptsSet false).push rfl
    exact Or.inl (interrupted.mono ((Extends.threadYield seated yielded).suffix i))

def Retested (l i : Nat) (s : State) (labels : List Label) (t : State) : Prop :=
  ∃ xs label ys u v, labels = xs ++ label :: ys ∧ Run (Steps Peaceful) s xs u ∧ Steps Peaceful u label v ∧
    Run (Steps Peaceful) v ys t ∧ Takes l i u v

structure NoneLeftBehind (s : State) : Prop where
  free : ∀ l lock, s.locks l = some lock → lock.avaliable = true → s.queues lock.wqL = some []
  blocked : ∀ l i, Blocked s l i → i ∈ s.readyList ∨
    ∃ lock nodes, s.locks l = some lock ∧ s.queues lock.wqL = some nodes ∧ i ∈ nodes
  tested : ∀ l i labels t label u call value, Blocked s l i → Run (Steps Peaceful) s labels t →
    Steps Peaceful t label u → label.2 = some (.returned i call value) → Retested l i s labels t

structure Contended (s : State) : Prop where
  sound : Sound s
  free : Free s
  parked : ∀ l, Parked (some (.lock l)) s

theorem Contended.step {s t : State} {label : Label} (c : Contended s) (taken : Steps Peaceful s label t) : Contended t where
  sound := c.sound.step taken
  free := c.free.step c.sound taken
  parked l := by
    refine (c.parked l).step c.sound c.free (fun owner same => ?_) taken.1 ?_ taken.2
    · obtain rfl := Option.some.inj same
      exact fun i same => by cases same
    · unfold Spares
      split
      · exact fun same => by cases same
      · trivial

theorem Contended.of_run {labels : List Label} {s : State} (run : Runs Peaceful labels s) : Contended s :=
  run.invariant Contended ⟨.init, .init, fun _ => .init⟩ fun _ _ _ taken c => c.step taken

theorem acquiring_or_retested {l i : Nat} {s t : State} {labels : List Label} (c : Contended s)
    (acquiring : Acquiring l (stackOf s i)) (run : Run (Steps Peaceful) s labels t) :
    Acquiring l (stackOf t i) ∨ Retested l i s labels t := by
  refine (run.history (fun labels t => Run (Steps Peaceful) s labels t ∧ Contended t ∧
    (Acquiring l (stackOf t i) ∨ Retested l i s labels t)) ⟨.start, c, Or.inl acquiring⟩ ?_).2.2
  rintro labels t label u ⟨before, c, inside⟩ taken
  refine ⟨.step before taken, c.step taken, ?_⟩
  rcases inside with acquiring | ⟨xs, label', ys, v, w, rfl, first, takes, rest, found⟩
  · obtain ⟨lost, seated⟩ := c.sound.seated
    have alive := alive_of_acquiring seated c.sound.stacked (c.parked l) acquiring
    rcases acquiring_step seated acquiring alive taken with stays | takes
    · exact Or.inl stays
    · exact Or.inr ⟨labels, label, [], t, u, rfl, before, taken, .start, takes⟩
  · refine Or.inr ⟨xs, label', ys ++ [label], v, w, ?_, first, takes, .step rest taken, found⟩
    rw [List.append_assoc, List.cons_append]

theorem no_waiter_left_behind {labels : List Label} {s : State} (run : Runs Peaceful labels s) : NoneLeftBehind s := by
  have c := Contended.of_run run
  refine ⟨c.free, fun l i blocked => ?_, fun l i more t label u call value blocked after last returned => ?_⟩
  · rcases blocked.ready_or_queued c.sound (c.parked l) with ready | ⟨q, nodes, own, queue, member⟩
    · exact Or.inl ready
    · obtain ⟨lock, found, rfl⟩ := Option.map_eq_some_iff.mp own
      exact Or.inr ⟨lock, nodes, found, queue, member⟩
  · have acquiring : Acquiring l (stackOf s i) := by
      rw [stackOf, if_neg blocked.1]
      exact blocked.2
    rcases acquiring_or_retested c acquiring after with inside | retested
    · -- a thread that returns to its own code is in no loop
      have took := last.2
      rw [returned] at took
      obtain ⟨caller, frames, stack⟩ := returned_to_user took
      have alone := (Contended.of_run (run.trans after)).sound.stacked.running
      rw [stack] at alone
      rw [caller, stackOf, if_pos rfl, stack, alone.user] at inside
      obtain ⟨enabled, member⟩ := inside
      simp at member
    · exact retested

theorem no_waiter_left_behind_waiting : ∃ labels s, Runs Peaceful labels s ∧ Blocked s 0 1 ∧ s.queues 0 = some [1] ∧
    NoneLeftBehind s := by
  have run := Peaceful.of_exec (lockAndYield ++ [.call (.lockAcquire 0), .resume]) (by decide)
  refine ⟨_, _, run, ⟨Nat.one_ne_zero, true, ?_⟩, rfl, no_waiter_left_behind run⟩
  exact List.mem_cons_of_mem _ List.mem_cons_self

end OperatingSystem.Threads
