import OperatingSystem.Threads.Stacks
import OperatingSystem.Threads.Waiting

namespace OperatingSystem.Threads

open State

structure Leaves (owner : Owner) (s t : State) : Prop where
  queue : queueOf t owner = queueOf s owner
  nodes : ∀ q, queueOf s owner = some q → t.queues q = s.queues q
  lock : ∀ l, owner = .lock l → t.locks l = s.locks l

def Owner.Shared (owner : Owner) : Prop := ∀ i, owner ≠ .thread i

theorem Switched.owner {parked : Status} {frame : Frame} {next : Nat} {s t : State}
    (sw : Switched parked frame next s t) (owner : Owner) : queueOf t owner = queueOf s owner := by
  cases owner with
  | lock l => simp only [queueOf, sw.locks]
  | cv c => simp only [queueOf, sw.cvs]
  | thread i => exact sw.wqt i

theorem Woken.owner {s t : State} (woken : Woken s t) (owner : Owner) : queueOf t owner = queueOf s owner := by
  cases owner with
  | lock l => simp only [queueOf, woken.locks]
  | cv c => simp only [queueOf, woken.cvs]
  | thread i =>
      simp only [queueOf]
      rw [woken.threads]

namespace Leaves

variable {lost : Nat → Prop} {owner : Owner} {s t u : State}

theorem refl (owner : Owner) (s : State) : Leaves owner s s := ⟨rfl, fun _ _ => rfl, fun _ _ => rfl⟩

theorem trans (first : Leaves owner s t) (second : Leaves owner t u) : Leaves owner s u where
  queue := second.queue.trans first.queue
  nodes q own := (second.nodes q (first.queue.trans own)).trans (first.nodes q own)
  lock l same := (second.lock l same).trans (first.lock l same)

theorem of_queues (queue : queueOf t owner = queueOf s owner) (queues : t.queues = s.queues) (locks : t.locks = s.locks) :
    Leaves owner s t :=
  ⟨queue, fun _ _ => by rw [queues], fun _ _ => by rw [locks]⟩

theorem of_eq (shared : owner.Shared) (queues : t.queues = s.queues) (locks : t.locks = s.locks) (cvs : t.cvs = s.cvs) :
    Leaves owner s t := by
  refine of_queues ?_ queues locks
  cases owner with
  | lock l => simp only [queueOf, locks]
  | cv c => simp only [queueOf, cvs]
  | thread i => exact (shared i rfl).elim

theorem of_update {q : Nat} {nodes : Option (List Nat)} (queue : queueOf t owner = queueOf s owner)
    (queues : t.queues = Function.update s.queues q nodes) (locks : t.locks = s.locks) (other : queueOf s owner ≠ some q) :
    Leaves owner s t := by
  refine ⟨queue, fun r own => ?_, fun l _ => by rw [locks]⟩
  have different : r ≠ q := by
    rintro rfl
    exact other own
  rw [queues, Function.update_of_ne different]

theorem threadYield {want : Tid} (p : Seated lost s) (run : threadYield want s = .ok t) : Leaves owner s t := by
  rcases threadYield_cases p.yieldable run with rfl | rfl | ⟨next, iter, -, switched, -, queues, -⟩
  · exact of_queues (by cases owner <;> rfl) rfl rfl
  · exact of_queues (by cases owner <;> rfl) rfl rfl
  · exact of_queues (switched.owner owner) queues switched.locks

theorem threadSleep {queue : Option Nat} (other : ∀ q, queue = some q → queueOf s owner ≠ some q)
    (run : threadSleep queue s = .ok t) : Leaves owner s t := by
  cases queue with
  | none => exact Except.ok.inj run ▸ of_queues (by cases owner <;> rfl) rfl rfl
  | some q =>
      rcases threadSleep_slept run with ⟨-, rfl⟩ | ⟨next, rest, nodes, slept⟩
      · exact of_queues (by cases owner <;> rfl) rfl rfl
      · exact of_update (slept.keeps.owner owner) slept.queues slept.locks (other q rfl)

theorem threadWakeup {queue : Option Nat} {all : Int} (other : ∀ q, queue = some q → queueOf s owner ≠ some q)
    (run : threadWakeup queue all s = .ok t) : Leaves owner s t := by
  have woken := threadWakeup_woken run
  rcases threadWakeup_cases run with ⟨v, rfl⟩ | ⟨q, head, rest, rfl, -, rfl | rfl⟩
  · exact of_queues (by cases owner <;> rfl) rfl rfl
  · exact of_update (woken.owner owner) rfl woken.locks (other q rfl)
  · have emptied : (((head :: rest).foldl wakeThread (s.setQueue q (some []))).result (rest.length + 1)).queues =
        Function.update s.queues q (some []) := wakeAll_queues (head :: rest) (s.setQueue q (some []))
    exact of_update (woken.owner owner) emptied woken.locks (other q rfl)

theorem releaseWaiters (shared : owner.Shared) (n : Named s) (p : Private s) (run : releaseWaiters s = .ok t) :
    Leaves owner s t := by
  rcases releaseWaiters_cases n run with ⟨-, rfl⟩ | ⟨q, nodes, own, -, released⟩
  · exact refl owner t
  · refine of_update ?_ released.queues released.locks fun same => ?_
    · rw [released.owner, if_neg (shared s.currentThread)]
    · exact shared s.currentThread (p.inj owner (.thread s.currentThread) q same own)

theorem threadExit (shared : owner.Shared) (seated : Seated lost s) (n : Named s) (p : Private s)
    (run : threadExit s = .ok t) : Leaves owner s t := by
  have masked : Leaves owner s (s.interruptsSet false) := of_eq shared rfl rfl rfl
  obtain ⟨u, released, -, rfl | ⟨next, rest, -, switched, -, queues, -⟩⟩ := seated.threadExit_cases run
  all_goals
    have before := masked.trans (releaseWaiters shared (n.interruptsSet false) (p.steady (.interruptsSet s false)) released)
  · exact before.trans (of_eq shared rfl rfl rfl)
  · have marked : Leaves owner u (Seated.markExited s.interrupts u) := of_eq shared rfl rfl rfl
    exact (before.trans marked).trans (of_queues (switched.owner owner) queues switched.locks)

theorem threadWait {tid : Tid} (shared : owner.Shared) (p : Private s) (run : threadWait tid s = .ok t) :
    Leaves owner s t := by
  rcases threadWait_cases run with ⟨rfl, -⟩ | ⟨k, q, u, -, -, -, run, ⟨own, rfl⟩ | ⟨-, rfl, attached⟩⟩
  · exact of_eq shared rfl rfl rfl
  · have called : Leaves owner s ((s.interruptsSet false).push (.waitReturn s.interrupts tid)) := of_eq shared rfl rfl rfl
    refine called.trans (threadSleep (fun r same found => ?_) run)
    obtain rfl := Option.some.inj same
    exact shared k (p.inj owner (.thread k) q (called.queue.symm.trans found) own)
  · have queue : queueOf u owner = queueOf s owner := by
      cases owner with
      | lock l => simp only [queueOf, attached.locks]
      | cv c => simp only [queueOf, attached.cvs]
      | thread i => exact (shared i rfl).elim
    have old : queueOf s owner ≠ some s.nextQueue := fun own => absurd (p.below own) (Nat.lt_irrefl _)
    refine (of_update queue attached.queues attached.locks old).trans (threadSleep (fun r same found => ?_) run)
    exact old (queue.symm.trans (Option.some.inj same ▸ found))

theorem threadCreate (shared : owner.Shared) (stackOk : Bool) : Leaves owner s (threadCreate stackOk s) := by
  rcases threadCreate_started stackOk s with refused | ⟨id, stack, nextStack, interrupts, rax, -, -, started⟩
  · rw [refused]
    exact of_eq shared rfl rfl rfl
  · rw [started]
    exact of_eq shared rfl rfl rfl

theorem setLock {l : Nat} (lock : Option Lock) (other : owner ≠ .lock l) : Leaves owner s (s.setLock l lock) := by
  have same (l' : Nat) (named : owner = .lock l') : Function.update s.locks l lock l' = s.locks l' := by
    refine Function.update_of_ne ?_ _ _
    rintro rfl
    exact other named
  refine ⟨?_, fun _ _ => rfl, same⟩
  cases owner with
  | lock l' => simp only [queueOf, State.setLock, same l' rfl]
  | cv c => rfl
  | thread i => rfl

theorem foreign {l q : Nat} {lock : Lock} (p : Private s) (found : s.locks l = some lock) (other : owner ≠ .lock l)
    (same : some lock.wqL = some q) : queueOf s owner ≠ some q := by
  intro own
  have owned : queueOf s (.lock l) = some q := by rw [queueOf, found, Option.map_some, same]
  exact other (p.inj owner (.lock l) q own owned)

theorem acquireLoop {l : Nat} {enabled : Bool} (p : Private s) (other : owner ≠ .lock l) (shared : owner.Shared)
    (run : acquireLoop l enabled s = .ok t) : Leaves owner s t := by
  obtain ⟨lock, found, run⟩ := Result.bind_eq_ok.mp run
  have found : s.locks l = some lock := lockAt_eq_ok.mp found
  split_ifs at run
  · rw [← Except.ok.inj run]
    exact (setLock _ other).trans (of_eq shared rfl rfl rfl)
  · have pushed : Leaves owner s (s.push (.acquireLoop l enabled)) := of_eq shared rfl rfl rfl
    refine pushed.trans (threadSleep (fun q same => ?_) run)
    rw [pushed.queue]
    exact foreign p found other same

theorem lockRelease {l : Nat} (p : Private s) (other : owner ≠ .lock l) (run : lockRelease l s = .ok t) :
    Leaves owner s t := by
  obtain ⟨lock, found, run⟩ := Result.bind_eq_ok.mp run
  have found : s.locks l = some lock := lockAt_eq_ok.mp found
  split_ifs at run
  · exact Except.ok.inj run ▸ refl owner s
  · have unlocked := setLock (s := s) (some { lock with avaliable := true }) other
    refine unlocked.trans (threadWakeup (fun q same => ?_) run)
    rw [unlocked.queue]
    exact foreign p found other same

theorem cvWait {c l : Nat} (p : Private s) (otherLock : owner ≠ .lock l) (otherCv : owner ≠ .cv c) (shared : owner.Shared)
    (run : cvWait c l s = .ok t) : Leaves owner s t := by
  obtain ⟨q, found, run⟩ := Result.bind_eq_ok.mp run
  obtain ⟨u, released, run⟩ := Result.bind_eq_ok.mp run
  obtain ⟨lock, -, run⟩ := Result.bind_eq_ok.mp run
  have masked : Leaves owner s (s.interruptsSet false) := of_eq shared rfl rfl rfl
  have before := masked.trans (lockRelease (p.steady (.interruptsSet s false)) otherLock released)
  have pushed : Leaves owner u (u.push (.cvReacquire l s.interrupts)) := of_eq shared rfl rfl rfl
  split_ifs at run
  · refine (before.trans pushed).trans (threadSleep (fun r same own => ?_) run)
    obtain rfl := Option.some.inj same
    exact otherCv (p.inj owner (.cv c) q ((before.trans pushed).queue.symm.trans own) (cvAt_eq_ok.mp found))
  · exact Except.ok.inj run ▸ before.trans pushed

theorem cvWake {all : Int} {c l : Nat} (p : Private s) (other : owner ≠ .cv c) (run : cvWake all c l s = .ok t) :
    Leaves owner s t := by
  obtain ⟨q, found, run⟩ := Result.bind_eq_ok.mp run
  obtain ⟨lock, -, run⟩ := Result.bind_eq_ok.mp run
  split_ifs at run
  · refine threadWakeup (fun r same own => ?_) run
    obtain rfl := Option.some.inj same
    exact other (p.inj owner (.cv c) q own (cvAt_eq_ok.mp found))
  · exact Except.ok.inj run ▸ refl owner s

theorem queueCreate (p : Private s) : Leaves owner s (waitQueueCreate s).1 :=
  of_update (by cases owner <;> rfl) rfl rfl fun own => absurd (p.below own) (Nat.lt_irrefl _)

theorem lockCreate (p : Private s) (shared : owner.Shared) (other : owner ≠ .lock s.nextLock) : Leaves owner s (lockCreate s) :=
  (queueCreate p).trans ((setLock (s := (waitQueueCreate s).1) _ other).trans (of_eq shared rfl rfl rfl))

theorem cvCreate (p : Private s) (shared : owner.Shared) (other : owner ≠ .cv s.nextCv) : Leaves owner s (cvCreate s) := by
  have queue : queueOf (Threads.cvCreate s) owner = queueOf s owner := by
    cases owner with
    | lock l => rfl
    | cv c =>
        have different : c ≠ s.nextCv := fun same => other (congrArg Owner.cv same)
        exact Function.update_of_ne different _ _
    | thread i => exact (shared i rfl).elim
  exact of_update queue rfl rfl fun own => absurd (p.below own) (Nat.lt_irrefl _)

theorem lockDestroy {l : Nat} (p : Private s) (other : owner ≠ .lock l) (run : lockDestroy l s = .ok t) :
    Leaves owner s t := by
  obtain ⟨lock, found, run⟩ := Result.bind_eq_ok.mp run
  have found : s.locks l = some lock := lockAt_eq_ok.mp found
  split_ifs at run
  · have freed : Leaves owner s (s.setQueue lock.wqL none) :=
      of_update (by cases owner <;> rfl) rfl rfl (foreign p found other rfl)
    exact Except.ok.inj run ▸ freed.trans (setLock none other)
  · exact Except.ok.inj run ▸ refl owner s

theorem cvDestroy {c : Nat} (p : Private s) (shared : owner.Shared) (other : owner ≠ .cv c) (run : cvDestroy c s = .ok t) :
    Leaves owner s t := by
  obtain ⟨q, found, run⟩ := Result.bind_eq_ok.mp run
  obtain ⟨nodes, -, run⟩ := Result.bind_eq_ok.mp run
  have queue (u : State) (locks : u.locks = s.locks) (cvs : u.cvs = Function.update s.cvs c none) :
      queueOf u owner = queueOf s owner := by
    cases owner with
    | lock l => simp only [queueOf, locks]
    | cv c' =>
        have different : c' ≠ c := fun same => other (congrArg Owner.cv same)
        simp only [queueOf, cvs, Function.update_of_ne different]
    | thread i => exact (shared i rfl).elim
  rw [← Except.ok.inj run]
  split_ifs
  · exact of_update (queue _ rfl rfl) rfl rfl fun own => other (p.inj owner (.cv c) q own (cvAt_eq_ok.mp found))
  · exact of_queues (queue _ rfl rfl) rfl rfl

theorem queueDestroy {q : Nat} (external : ¬ Internal s q) (run : waitQueueDestroy q s = .ok t) : Leaves owner s t := by
  obtain ⟨nodes, -, run⟩ := Result.bind_eq_ok.mp run
  rw [← Except.ok.inj run]
  exact of_update (by cases owner <;> rfl) rfl rfl fun own => external ⟨owner, own⟩

end Leaves

def Call.touches (s : State) : Call → Owner → Prop
  | .lockCreate, .lock l => l = s.nextLock
  | .lockDestroy l, .lock l' | .lockRelease l, .lock l' | .cvWait _ l, .lock l' => l' = l
  | .cvCreate, .cv c => c = s.nextCv
  | .cvDestroy c, .cv c' | .cvWait c _, .cv c' | .cvSignal c _, .cv c' | .cvBroadcast c _, .cv c' => c' = c
  | _, _ => False

def Touches (s : State) (owner : Owner) : Action → Prop
  | .call call => call.touches s owner
  | .resume => ∃ l enabled frames, s.callStack = .acquireLoop l enabled :: frames ∧ owner = .lock l
  | .interrupt => False

namespace Leaves

variable {lost : Nat → Prop} {owner : Owner} {s t u : State}

theorem enter {call : Call} (shared : owner.Shared) (seated : Seated lost s) (n : Named s) (p : Private s)
    (peaceful : Peaceful s (.call call)) (other : ¬ call.touches s owner) (run : enter call s = .ok t) : Leaves owner s t := by
  have lock {l : Nat} (touches : owner = .lock l → call.touches s owner) : owner ≠ .lock l := fun same => other (touches same)
  have cv {c : Nat} (touches : owner = .cv c → call.touches s owner) : owner ≠ .cv c := fun same => other (touches same)
  cases call with
  | create stackOk => exact Except.ok.inj run ▸ threadCreate shared stackOk
  | yield tid => exact threadYield seated run
  | exit => exact threadExit shared seated n p run
  | kill tid => exact peaceful.2.elim
  | queueCreate => exact Except.ok.inj run ▸ (queueCreate p).trans (of_eq shared rfl rfl rfl)
  | queueDestroy q => exact queueDestroy peaceful.1 run
  | sleep queue =>
      refine threadSleep (fun q same own => ?_) run
      subst same
      exact peaceful.1 ⟨owner, own⟩
  | wakeup queue all =>
      refine threadWakeup (fun q same own => ?_) run
      subst same
      exact peaceful.1 ⟨owner, own⟩
  | wait tid => exact threadWait shared p run
  | lockCreate => exact Except.ok.inj run ▸ lockCreate p shared (lock fun same => same ▸ rfl)
  | lockDestroy l => exact lockDestroy p (lock fun same => same ▸ rfl) run
  | lockAcquire l =>
      obtain ⟨found, -, run⟩ := Result.bind_eq_ok.mp run
      exact Except.ok.inj run ▸ of_eq shared rfl rfl rfl
  | lockRelease l => exact lockRelease p (lock fun same => same ▸ rfl) run
  | cvCreate => exact Except.ok.inj run ▸ cvCreate p shared (cv fun same => same ▸ rfl)
  | cvDestroy c => exact cvDestroy p shared (cv fun same => same ▸ rfl) run
  | cvWait c l => exact cvWait p (lock fun same => same ▸ rfl) (cv fun same => same ▸ rfl) shared run
  | cvSignal c l | cvBroadcast c l => exact cvWake p (cv fun same => same ▸ rfl) run
  | interruptsSet enabled => exact Except.ok.inj run ▸ of_eq shared rfl rfl rfl

theorem continueFrame {frame : Frame} (shared : owner.Shared) (p : Private s) (settled : frame.settled = true)
    (other : ∀ l enabled, frame = .acquireLoop l enabled → owner ≠ .lock l) (run : continueFrame frame s = .ok t) :
    Leaves owner s t := by
  cases frame with
  | acquireLoop l enabled => exact acquireLoop p (other l enabled rfl) shared run
  | exitCall => cases settled
  | afterExit caller next => cases settled
  | afterYield enabled called next iter =>
      obtain rfl : called = true := settled
      exact Except.ok.inj run ▸ of_eq shared rfl rfl rfl
  | cvReacquire l enabled =>
      obtain ⟨lock, -, run⟩ := Result.bind_eq_ok.mp run
      exact Except.ok.inj run ▸ of_eq shared rfl rfl rfl
  | user _ | stub | handler _ | yieldResult | exitReturn _ | afterSleep _ _ | waitReturn _ _ | cvReturn _ =>
      exact Except.ok.inj run ▸ of_eq shared rfl rfl rfl

theorem step {action : Action} {event : Option Event} (shared : owner.Shared) (seated : Seated lost s) (n : Named s)
    (p : Private s) (peaceful : Peaceful s action) (other : ¬ Touches s owner action) (run : step s action = .ok (t, event)) :
    Leaves owner s t := by
  rcases step_cases run with ⟨call, rfl, -, entered, -⟩ | ⟨frame, frames, rfl, stack, continued, -⟩ |
    ⟨rfl, -, yielded, -⟩
  · have pushed : Leaves owner s (s.push (.user call)) := of_eq shared rfl rfl rfl
    refine pushed.trans (enter shared (seated.push rfl) (n.push _) (p.steady (.push s _)) ?_ ?_ entered)
    · cases call <;> exact peaceful
    · intro touches
      refine other ?_
      cases call <;> exact touches
  · have popped : Leaves owner s { s with callStack := frames } := of_eq shared rfl rfl rfl
    refine popped.trans (continueFrame shared (p.steady (.of_eq rfl rfl rfl rfl rfl rfl rfl)) ?_ (fun l enabled same named => ?_)
      continued)
    · exact seated.stack frame (by rw [stack]; exact List.mem_cons_self)
    · exact other ⟨l, enabled, frames, same ▸ stack, named⟩
  · have interrupted : Leaves owner s ((s.interruptsSet false).push (.handler s.rax)) := of_eq shared rfl rfl rfl
    exact interrupted.trans (threadYield ((seated.interruptsSet false).push rfl) yielded)

end Leaves

structure Numbered (s : State) : Prop where
  locks : ∀ l, s.nextLock ≤ l → s.locks l = none
  cvs : ∀ c, s.nextCv ≤ c → s.cvs c = none

namespace Numbered

variable {s t : State}

theorem keep (m : Numbered s) (fewer : ∀ owner : Owner, owner.Shared → queueOf s owner = none → queueOf t owner = none)
    (nextLock : t.nextLock = s.nextLock) (nextCv : t.nextCv = s.nextCv) : Numbered t where
  locks l above := by
    have before : queueOf s (.lock l) = none := by
      simp only [queueOf, m.locks l (nextLock ▸ above), Option.map_none]
    have shared : (Owner.lock l).Shared := fun i same => by cases same
    exact Option.map_eq_none_iff.mp (fewer (.lock l) shared before)
  cvs c above := fewer (.cv c) (fun i same => by cases same) (m.cvs c (nextCv ▸ above))

theorem steady (m : Numbered s) (steady : Steady s t) : Numbered t :=
  m.keep (fun owner _ none => (steady.owner owner).trans none) steady.nextLock steady.nextCv

theorem of_eq (m : Numbered s) (locks : t.locks = s.locks) (cvs : t.cvs = s.cvs) (nextLock : t.nextLock = s.nextLock)
    (nextCv : t.nextCv = s.nextCv) : Numbered t where
  locks l above := locks ▸ m.locks l (nextLock ▸ above)
  cvs c above := cvs ▸ m.cvs c (nextCv ▸ above)

theorem threadExit (n : Named s) (m : Numbered s) (run : threadExit s = .ok t) : Numbered t := by
  obtain ⟨u, released, run⟩ := Result.bind_eq_ok.mp run
  have before : Numbered u := by
    have nextCv := (releaseWaiters_interrupts released).2
    have nextLock := (Extends.releaseWaiters released).nextLock
    refine (m.of_eq rfl rfl rfl rfl : Numbered (s.interruptsSet false)).keep (fun owner shared none => ?_) nextLock nextCv
    rcases releaseWaiters_cases (n.interruptsSet false) released with ⟨-, same⟩ | ⟨q, nodes, -, -, same⟩
    · exact same ▸ none
    · rw [same.owner, if_neg (shared _)]
      exact none
  split at run
  · exact Except.ok.inj run ▸ before.of_eq rfl rfl rfl rfl
  · exact (before.of_eq rfl rfl rfl rfl : Numbered (Seated.markExited s.interrupts u)).steady (.threadYield run)

theorem threadWait {tid : Tid} (m : Numbered s) (run : threadWait tid s = .ok t) : Numbered t := by
  have slept {u : State} {q : Nat} (m : Numbered u) (run : Threads.threadSleep (some q) u = .ok t) : Numbered t := by
    rcases threadSleep_slept run with ⟨-, rfl⟩ | ⟨next, rest, nodes, slept⟩
    · exact m.of_eq rfl rfl rfl rfl
    · exact m.of_eq slept.locks slept.cvs slept.nextLock slept.nextCv
  simp only [Threads.threadWait] at run
  split_ifs at run
  · exact Except.ok.inj run ▸ m.of_eq rfl rfl rfl rfl
  · exact Except.ok.inj run ▸ m.of_eq rfl rfl rfl rfl
  · split at run
    · refine slept ?_ run
      exact m.of_eq rfl rfl rfl rfl
    · refine slept ?_ run
      exact m.of_eq rfl rfl rfl rfl

theorem lockCreate (m : Numbered s) : Numbered (lockCreate s) where
  locks l above := by
    have above : s.nextLock + 1 ≤ l := above
    have other : l ≠ s.nextLock := by omega
    change Function.update s.locks s.nextLock _ l = none
    rw [Function.update_of_ne other]
    exact m.locks l (by omega)
  cvs := m.cvs

theorem cvCreate (m : Numbered s) : Numbered (cvCreate s) where
  locks := m.locks
  cvs c above := by
    have above : s.nextCv + 1 ≤ c := above
    have other : c ≠ s.nextCv := by omega
    change Function.update s.cvs s.nextCv _ c = none
    rw [Function.update_of_ne other]
    exact m.cvs c (by omega)

theorem lockDestroy {l : Nat} (m : Numbered s) (run : lockDestroy l s = .ok t) : Numbered t := by
  obtain ⟨lock, -, run⟩ := Result.bind_eq_ok.mp run
  split_ifs at run
  · rw [← Except.ok.inj run]
    refine ⟨fun l' above => ?_, m.cvs⟩
    simp only [State.setLock, Function.update_apply]
    split_ifs
    · rfl
    · exact m.locks l' above
  · exact Except.ok.inj run ▸ m

theorem cvDestroy {c : Nat} (m : Numbered s) (run : cvDestroy c s = .ok t) : Numbered t := by
  obtain ⟨q, -, run⟩ := Result.bind_eq_ok.mp run
  obtain ⟨nodes, -, run⟩ := Result.bind_eq_ok.mp run
  have forgotten (u : State) (m : Numbered u) : Numbered { u with cvs := Function.update u.cvs c none } := by
    refine ⟨m.locks, fun c' above => ?_⟩
    simp only [Function.update_apply]
    split_ifs
    · rfl
    · exact m.cvs c' above
  rw [← Except.ok.inj run]
  split_ifs
  · exact forgotten _ (m.of_eq rfl rfl rfl rfl)
  · exact forgotten _ m

theorem enter {call : Call} (n : Named s) (p : Private s) (m : Numbered s) (peaceful : Peaceful s (.call call))
    (own : ∀ e tid, s.callStack.head? ≠ some (.waitReturn e tid)) (run : enter call s = .ok t) : Numbered t := by
  cases call with
  | create stackOk =>
      rcases threadCreate_started stackOk s with refused | ⟨id, stack, nextStack, interrupts, rax, -, -, started⟩
      · exact Except.ok.inj run ▸ refused ▸ m.of_eq rfl rfl rfl rfl
      · exact Except.ok.inj run ▸ started ▸ m.of_eq rfl rfl rfl rfl
  | exit => exact m.threadExit n run
  | kill tid => exact peaceful.2.elim
  | queueCreate => exact Except.ok.inj run ▸ m.of_eq rfl rfl rfl rfl
  | queueDestroy q =>
      obtain ⟨nodes, -, run⟩ := Result.bind_eq_ok.mp run
      exact Except.ok.inj run ▸ m.of_eq rfl rfl rfl rfl
  | wait tid => exact m.threadWait run
  | lockCreate => exact Except.ok.inj run ▸ m.lockCreate
  | lockDestroy l => exact m.lockDestroy run
  | cvCreate => exact Except.ok.inj run ▸ m.cvCreate
  | cvDestroy c => exact m.cvDestroy run
  | yield _ | sleep _ | wakeup _ _ | lockAcquire _ | lockRelease _ | cvWait _ _ | cvSignal _ _ | cvBroadcast _ _
  | interruptsSet _ => exact m.steady (.enter p peaceful.1 rfl own run)

theorem step {action : Action} {event : Option Event} (n : Named s) (p : Private s) (m : Numbered s)
    (peaceful : Peaceful s action) (run : step s action = .ok (t, event)) : Numbered t := by
  rcases step_cases run with ⟨call, rfl, -, entered, -⟩ | ⟨frame, frames, -, -, continued, -⟩ | ⟨-, -, yielded, -⟩
  · refine enter (n.push _) (p.steady (.push s (.user call))) (m.of_eq rfl rfl rfl rfl) ?_ (fun e tid top => ?_) entered
    · cases call <;> exact peaceful
    · cases top
  · have popped : Steady s { s with callStack := frames } := .pop s frames
    by_cases exits : frame = .exitCall
    · subst exits
      exact (m.steady popped).threadExit (n.pop frames) continued
    · exact m.steady (popped.trans (.continueFrame (p.steady popped) exits continued))
  · exact m.steady (((Steady.interruptsSet s false).trans (.push _ (.handler s.rax))).trans (.threadYield yielded))

end Numbered

structure Sound (s : State) : Prop where
  named : Named s
  owned : Private s
  seated : ∃ lost, Seated lost s
  stacked : Stacked s
  numbered : Numbered s

theorem Sound.step {s t : State} {label : Label} (sound : Sound s) (taken : Steps Peaceful s label t) : Sound t := by
  obtain ⟨lost, seated⟩ := sound.seated
  obtain ⟨lost', -, seated'⟩ := seated.step taken.1.2 taken.2
  exact ⟨sound.named.step taken.2, sound.owned.step sound.named taken.1.1 taken.2, ⟨lost', seated'⟩,
    sound.stacked.step seated taken.1.2 taken.2, sound.numbered.step sound.named sound.owned taken.1 taken.2⟩

theorem Sound.init : Sound threadInit :=
  ⟨.init, .init, ⟨_, Placed.init.seated⟩, .init, fun _ _ => rfl, fun _ _ => rfl⟩

end OperatingSystem.Threads
