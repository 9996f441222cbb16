import OperatingSystem.Threads.Handover

namespace OperatingSystem.Threads

open State

/-- `thread_kill(tid)` looks for its thread in the ready list and among the waiters of its caller. -/
def Found (s : State) (tid : Tid) (i : Nat) : Prop :=
  (i : Tid) = tid ∧ (i ∈ s.readyList ∨
    ∃ q nodes, s.current.wqt = some q ∧ s.queues q = some nodes ∧ i ∈ nodes)

def SparesWaiters (s : State) : Action → Prop
  | .call (.kill tid) => ∀ i q, Found s tid i → (s.totalList i).wqt = some q → s.queues q = some []
  | _ => True

theorem KillFree.sparesWaiters {s : State} {action : Action} (killFree : KillFree action) : SparesWaiters s action := by
  cases action with
  | call call => cases call <;> trivial
  | resume | interrupt => trivial

structure Felled (gone : Nat → Prop) (s t : State) : Prop where
  queues : t.queues = s.queues
  nextQueue : t.nextQueue = s.nextQueue
  locks : t.locks = s.locks
  cvs : t.cvs = s.cvs
  threads : ∀ i, t.totalList i =
    { s.totalList i with exist := (t.totalList i).exist, stack := (t.totalList i).stack }
  exist : ∀ i, (t.totalList i).exist = (s.totalList i).exist ∨ gone i ∧ (t.totalList i).exist = false

variable {s t u : State} {gone : Nat → Prop}

namespace Felled

theorem of_eq (table : t.totalList = s.totalList) (queues : t.queues = s.queues) (nextQueue : t.nextQueue = s.nextQueue)
    (locks : t.locks = s.locks) (cvs : t.cvs = s.cvs) : Felled gone s t :=
  ⟨queues, nextQueue, locks, cvs, fun i => by rw [table], fun i => Or.inl (by rw [table])⟩

theorem trans (first : Felled gone s t) (second : Felled gone t u) : Felled gone s u where
  queues := second.queues.trans first.queues
  nextQueue := second.nextQueue.trans first.nextQueue
  locks := second.locks.trans first.locks
  cvs := second.cvs.trans first.cvs
  threads i := by rw [second.threads, first.threads]
  exist i := by
    rcases second.exist i with same | ended
    · rw [same]
      exact first.exist i
    · exact Or.inr ended

theorem kill {i : Nat} (found : gone i) (s : State) :
    Felled gone s (s.modifyThread i fun t => { t with exist := false }) := by
  refine ⟨rfl, rfl, rfl, rfl, fun j => ?_, fun j => ?_⟩
  all_goals
    rw [thread_modifyThread]
    split_ifs with same
  · exact same ▸ rfl
  · rfl
  · exact Or.inr ⟨same ▸ found, rfl⟩
  · exact Or.inl rfl

theorem unstack (s : State) (i : Nat) (freed : List Nat) :
    Felled gone s ({ s with freed }.modifyThread i fun t => { t with stack := none }) := by
  refine ⟨rfl, rfl, rfl, rfl, fun j => ?_, fun j => Or.inl ?_⟩
  all_goals
    rw [thread_modifyThread]
    split_ifs with same
  · exact same ▸ rfl
  · rfl
  · exact same ▸ rfl
  · rfl

theorem owner (f : Felled gone s t) (owner : Owner) : queueOf t owner = queueOf s owner := by
  cases owner with
  | lock l => simp only [queueOf, f.locks]
  | cv c => simp only [queueOf, f.cvs]
  | thread i =>
      simp only [queueOf]
      rw [f.threads]

theorem wqt (f : Felled gone s t) (i : Nat) : (t.totalList i).wqt = (s.totalList i).wqt := f.owner (.thread i)

theorem deleteNode {target : Nat} {node : Option Nat} (run : deleteNode s target node = .ok t) : Felled gone s t := by
  unfold Threads.deleteNode at run
  split at run
  · cases run
  · split_ifs at run
    · exact Except.ok.inj run ▸ of_eq rfl rfl rfl rfl rfl
    · exact Except.ok.inj run ▸ of_eq rfl rfl rfl rfl rfl
    · split at run
      · cases run
      · split_ifs at run
        exact Except.ok.inj run ▸ of_eq rfl rfl rfl rfl rfl

theorem keeps (f : Felled gone s t) : Keeps s t := ⟨f.owner, f.nextQueue, fun _ => by rw [f.queues]⟩

theorem tends (f : Felled gone s t) (a : Attended s)
    (spared : ∀ i q, gone i → (s.totalList i).wqt = some q → s.queues q = some []) : Tends s t := by
  have alive {k q : Nat} {nodes : List Nat} (own : (s.totalList k).wqt = some q) (queue : s.queues q = some nodes)
      (waited : nodes ≠ []) : (t.totalList k).exist = true := by
    rcases f.exist k with same | ⟨ended, -⟩
    · exact same.trans (a.alive own queue waited)
    · rw [spared k q ended own] at queue
      exact (waited (Option.some.inj queue).symm).elim
  refine ⟨⟨fun i tid waiting => ?_, fun k q dead own => ?_⟩, fun k q nodes own queue waited => ?_⟩
  · rw [f.threads] at waiting
    obtain ⟨k, named, -, q, nodes, own, queue, member⟩ := a.waiting i tid waiting
    exact ⟨k, named, alive own queue (List.ne_nil_of_mem member), q, nodes, (f.wqt k).trans own, f.queues ▸ queue, member⟩
  · rw [f.wqt] at own
    rw [f.queues]
    rcases f.exist k with same | ⟨ended, -⟩
    · exact a.vacant k q (same.symm.trans dead) own
    · exact spared k q ended own
  · refine Or.inl ⟨(f.wqt k).trans own, alive own queue waited, [], ?_, Nat.zero_le 1⟩
    rw [f.queues, queue, List.append_nil]

end Felled

theorem threadKill_felled {tid : Tid} (n : Named s) (run : threadKill tid s = .ok t) : Felled (Found s tid) s t := by
  have masked : Felled (Found s tid) s (s.interruptsSet false) := .of_eq rfl rfl rfl rfl rfl
  have returned (u : State) (v : Tid) : Felled (Found s tid) u ((u.interruptsSet s.interrupts).result v) :=
    .of_eq rfl rfl rfl rfl rfl
  obtain ⟨itr, walked, run⟩ := Result.bind_eq_ok.mp run
  have marked : Felled (Found s tid) s (markKilled itr (s.interruptsSet false)) := by
    rcases @killWalk_cases s tid n with ⟨-, none⟩ | ⟨i, member, named, some⟩ | ⟨-, -, fault⟩
    · obtain rfl := Except.ok.inj (none.symm.trans walked)
      exact masked
    · obtain rfl := Except.ok.inj (some.symm.trans walked)
      exact masked.trans (.kill ⟨named, Or.inl member⟩ _)
    · cases fault.symm.trans walked
  cases own : (markKilled itr (s.interruptsSet false)).current.wqt with
  | none =>
      simp only [own] at run
      cases itr with
      | none => exact Except.ok.inj run ▸ masked.trans (returned _ _)
      | some node =>
          obtain ⟨u, unlinked, run⟩ := Result.bind_eq_ok.mp run
          rw [← Except.ok.inj run]
          exact ((marked.trans (.unstack _ _ _)).trans (.deleteNode unlinked)).trans (returned _ _)
  | some q =>
      simp only [own] at run
      obtain ⟨nodes, queue, run⟩ := Result.bind_eq_ok.mp run
      have queue : s.queues q = some nodes :=
        (congrFun (markKilled_queues (s := s.interruptsSet false) itr) q).symm.trans (queueNodes_eq_ok.mp queue)
      have own : s.current.wqt = some q := by
        rw [State.current, markKilled_thread, markKilled_currentThread] at own
        exact own
      have ids : Identified (markKilled itr (s.interruptsSet false)) nodes := fun i member => by
        rw [markKilled_thread]
        exact n.waiting q nodes queue i member
      split at run
      · exact Except.ok.inj run ▸ marked.trans (returned _ _)
      · rename_i node found
        obtain ⟨member, named⟩ := findNode_some ids found
        rw [← Except.ok.inj run]
        exact (marked.trans (.kill ⟨named, Or.inr ⟨q, nodes, own, queue, member⟩⟩ _)).trans (returned _ _)

namespace Private

theorem claim (p : Private s) (new : Owner)
    (owner : ∀ o q, queueOf t o = some q → queueOf s o = some q ∨ o = new ∧ q = s.nextQueue)
    (queues : t.queues = Function.update s.queues s.nextQueue (some [])) (nextQueue : t.nextQueue = s.nextQueue + 1) :
    Private t := by
  refine p.change new (fun o q found => ?_) fun q above => ?_
  · rcases owner o q found with before | ⟨rfl, rfl⟩
    · exact Or.inl ⟨before, by rw [queues, Function.update_of_ne (Nat.ne_of_lt (p.below before))]⟩
    · exact Or.inr ⟨rfl, rfl, by rw [queues, Function.update_self]⟩
  · rw [nextQueue] at above
    rw [queues, Function.update_of_ne (by omega)]
    exact p.fresh q (by omega)

theorem discard (p : Private s) {q : Nat}
    (owner : ∀ o r, queueOf t o = some r → queueOf s o = some r ∧ (t.queues = s.queues ∨ r ≠ q))
    (queues : t.queues = s.queues ∨ t.queues = Function.update s.queues q none) (nextQueue : t.nextQueue = s.nextQueue) :
    Private t := by
  refine p.change (.lock 0) (fun o r found => ?_) fun r above => ?_
  · obtain ⟨before, same | different⟩ := owner o r found
    · exact Or.inl ⟨before, by rw [same]⟩
    · refine Or.inl ⟨before, ?_⟩
      rcases queues with same | dropped
      · rw [same]
      · rw [dropped, Function.update_of_ne different]
  · rcases queues with same | dropped
    · exact same ▸ p.fresh r (nextQueue ▸ above)
    · rw [dropped]
      by_cases here : r = q
      · rw [here, Function.update_self]
      · rw [Function.update_of_ne here]
        exact p.fresh r (nextQueue ▸ above)

theorem lockCreate (p : Private s) : Private (lockCreate s) := by
  refine p.claim (.lock s.nextLock) (fun o q found => ?_) rfl rfl
  cases o with
  | lock l =>
      by_cases same : l = s.nextLock
      · simp [queueOf, Threads.lockCreate, waitQueueCreate, setLock, setQueue, State.result, same] at found
        exact Or.inr ⟨by rw [same], found.symm⟩
      · refine Or.inl ?_
        simpa [queueOf, Threads.lockCreate, waitQueueCreate, setLock, setQueue, State.result, same] using found
  | cv c => exact Or.inl found
  | thread i => exact Or.inl found

theorem cvCreate (p : Private s) : Private (cvCreate s) := by
  refine p.claim (.cv s.nextCv) (fun o q found => ?_) rfl rfl
  cases o with
  | lock l => exact Or.inl found
  | cv c =>
      by_cases same : c = s.nextCv
      · simp [queueOf, Threads.cvCreate, waitQueueCreate, setQueue, State.result, same] at found
        exact Or.inr ⟨by rw [same], found.symm⟩
      · refine Or.inl ?_
        simpa [queueOf, Threads.cvCreate, waitQueueCreate, setQueue, State.result, same] using found
  | thread i => exact Or.inl found

theorem lockDestroy {l : Nat} (p : Private s) (run : lockDestroy l s = .ok t) : Private t := by
  obtain ⟨lock, found, run⟩ := Result.bind_eq_ok.mp run
  have found : s.locks l = some lock := lockAt_eq_ok.mp found
  split_ifs at run
  · rw [← Except.ok.inj run]
    have own : queueOf s (.lock l) = some lock.wqL := by rw [queueOf, found, Option.map_some]
    refine p.discard (q := lock.wqL) (fun o r here => ?_) (Or.inr rfl) rfl
    have before : queueOf s o = some r ∧ o ≠ .lock l := by
      cases o with
      | lock j =>
          by_cases same : j = l
          · simp [queueOf, setLock, setQueue, same] at here
          · exact ⟨by simpa [queueOf, setLock, setQueue, same] using here, by simpa using same⟩
      | cv c => exact ⟨here, by simp⟩
      | thread i => exact ⟨here, by simp⟩
    refine ⟨before.1, Or.inr ?_⟩
    rintro rfl
    exact before.2 (p.inj _ _ _ before.1 own)
  · exact Except.ok.inj run ▸ p

theorem cvDestroy {c : Nat} (p : Private s) (run : cvDestroy c s = .ok t) : Private t := by
  obtain ⟨q, found, run⟩ := Result.bind_eq_ok.mp run
  have found : s.cvs c = some q := cvAt_eq_ok.mp found
  obtain ⟨nodes, -, run⟩ := Result.bind_eq_ok.mp run
  have others {o : Owner} {r : Nat} {u : State} (table : u.totalList = s.totalList) (locks : u.locks = s.locks)
      (cvs : u.cvs = Function.update s.cvs c none) (here : queueOf u o = some r) : queueOf s o = some r ∧ o ≠ .cv c := by
    cases o with
    | lock l => exact ⟨by simpa [queueOf, locks] using here, by simp⟩
    | cv j =>
        by_cases same : j = c
        · simp [queueOf, cvs, same] at here
        · exact ⟨by simpa [queueOf, cvs, same] using here, by simpa using same⟩
    | thread i => exact ⟨by simpa [queueOf, table] using here, by simp⟩
  rw [← Except.ok.inj run]
  split_ifs
  · refine p.discard (q := q) (fun o r here => ?_) (Or.inr rfl) rfl
    obtain ⟨before, other⟩ := others (u := { s.setQueue q none with cvs := Function.update s.cvs c none }) rfl rfl rfl here
    refine ⟨before, Or.inr ?_⟩
    rintro rfl
    exact other (p.inj _ _ _ before found)
  · refine p.discard (q := q) (fun o r here => ?_) (Or.inl rfl) rfl
    exact ⟨(others (u := { s with cvs := Function.update s.cvs c none }) rfl rfl rfl here).1, Or.inl rfl⟩

theorem queueDestroy {q : Nat} (p : Private s) (external : ¬ Internal s q) (run : waitQueueDestroy q s = .ok t) :
    Private t := by
  obtain ⟨nodes, -, run⟩ := Result.bind_eq_ok.mp run
  rw [← Except.ok.inj run]
  refine p.discard (q := q) (fun o r found => ?_) (Or.inr rfl) rfl
  have found : queueOf s o = some r := by cases o <;> exact found
  refine ⟨found, Or.inr ?_⟩
  rintro rfl
  exact external ⟨o, found⟩

end Private

def Call.routine : Call → Bool
  | .yield _ | .sleep _ | .wakeup _ _ | .lockAcquire _ | .lockRelease _ | .cvWait _ _ | .cvSignal _ _
  | .cvBroadcast _ _ | .interruptsSet _ => true
  | _ => false

theorem Steady.enter {call : Call} (p : Private s) (disciplined : Disciplined s (.call call)) (routine : call.routine = true)
    (own : ∀ e tid, s.callStack.head? ≠ some (.waitReturn e tid)) (run : enter call s = .ok t) : Steady s t := by
  cases call with
  | yield tid => exact .threadYield run
  | sleep queue =>
      refine .threadSleep (fun q same => ?_) own run
      subst same
      exact .of_external disciplined
  | wakeup queue all =>
      cases queue with
      | none => exact Except.ok.inj run ▸ .result s 0
      | some q => exact .threadWakeup (.of_external disciplined) run
  | lockAcquire l => exact .lockAcquire run
  | lockRelease l => exact .lockRelease p run
  | cvWait c l => exact .cvWait p run
  | cvSignal c l | cvBroadcast c l => exact .cvWake p run
  | interruptsSet enabled => exact Except.ok.inj run ▸ .interruptsSet s enabled
  | _ => cases routine

theorem Steady.continueFrame {frame : Frame} (p : Private s) (other : frame ≠ .exitCall)
    (run : continueFrame frame s = .ok t) : Steady s t := by
  cases frame with
  | exitCall => exact (other rfl).elim
  | afterExit caller next => exact Except.ok.inj run ▸ .switchTo _ _ s
  | afterYield enabled called next iter =>
      cases called with
      | true => exact Except.ok.inj run ▸ .of_eq rfl rfl rfl rfl rfl rfl rfl
      | false => exact .yieldBlock run
  | acquireLoop l enabled => exact .acquireLoop p run
  | cvReacquire l enabled => exact (Steady.push s (.cvReturn enabled)).trans (.lockAcquire run)
  | user _ | stub | handler _ | yieldResult | exitReturn _ | afterSleep _ _ | waitReturn _ _ | cvReturn _ =>
      exact Except.ok.inj run ▸ .of_eq rfl rfl rfl rfl rfl rfl rfl

namespace Private

theorem enter {call : Call} (n : Named s) (p : Private s) (disciplined : Disciplined s (.call call))
    (own : ∀ e tid, s.callStack.head? ≠ some (.waitReturn e tid)) (run : enter call s = .ok t) : Private t := by
  cases call with
  | create stackOk => exact Except.ok.inj run ▸ p.threadCreate stackOk
  | exit => exact p.threadExit n run
  | kill tid => exact p.keep (threadKill_felled n run).keeps
  | queueCreate => exact Except.ok.inj run ▸ p.claim (.lock 0) (fun o q found => Or.inl (by cases o <;> exact found)) rfl rfl
  | queueDestroy q => exact p.queueDestroy disciplined run
  | wait tid => exact p.threadWait run
  | lockCreate => exact Except.ok.inj run ▸ p.lockCreate
  | lockDestroy l => exact p.lockDestroy run
  | cvCreate => exact Except.ok.inj run ▸ p.cvCreate
  | cvDestroy c => exact p.cvDestroy run
  | yield _ | sleep _ | wakeup _ _ | lockAcquire _ | lockRelease _ | cvWait _ _ | cvSignal _ _ | cvBroadcast _ _
  | interruptsSet _ => exact p.steady (.enter p disciplined rfl own run)

theorem step {action : Action} {event : Option Event} (n : Named s) (p : Private s) (disciplined : Disciplined s action)
    (run : step s action = .ok (t, event)) : Private t := by
  rcases step_cases run with ⟨call, rfl, -, entered, -⟩ | ⟨frame, frames, -, -, continued, -⟩ | ⟨-, -, yielded, -⟩
  · refine enter (n.push _) (p.steady (.push s (.user call))) ?_ (fun e tid top => ?_) entered
    · cases call <;> exact disciplined
    · cases top
  · have popped : Steady s { s with callStack := frames } := .pop s frames
    by_cases exits : frame = .exitCall
    · subst exits
      exact threadExit (n.pop frames) (p.steady popped) continued
    · exact (p.steady popped).steady (.continueFrame (p.steady popped) exits continued)
  · exact p.steady (((Steady.interruptsSet s false).trans (.push _ (.handler s.rax))).trans (.threadYield yielded))

theorem init : Private threadInit := by
  have none (owner : Owner) : queueOf threadInit owner = none := by
    cases owner with
    | lock l => rfl
    | cv c => rfl
    | thread i => by_cases h : i = 0 <;> simp [queueOf, threadInit, h, Thread.zero]
  refine ⟨fun owner _ q found => ?_, fun owner q found => ?_, fun _ _ => rfl⟩
  all_goals
    rw [none] at found
    cases found

theorem of_run {allowed : State → Action → Prop} {labels : List Label}
    (disciplined : ∀ s action, allowed s action → Disciplined s action) (run : Runs allowed labels s) :
    Private s ∧ Named s :=
  run.invariant (fun s => Private s ∧ Named s) ⟨init, .init⟩ fun t label _ taken ⟨owned, named⟩ =>
    ⟨owned.step named (disciplined t label.1 taken.1) taken.2, named.step taken.2⟩

end Private

namespace Tends

theorem claim (p : Private s) (a : Attended s) (table : t.totalList = s.totalList)
    (queues : t.queues = Function.update s.queues s.nextQueue (some [])) : Tends s t := by
  refine .of_table a table fun k q own => ?_
  rw [queues, Function.update_of_ne (Nat.ne_of_lt (p.below (show queueOf s (.thread k) = some q from own)))]

theorem discard (a : Attended s) {q : Nat} (foreign : Foreign s q) (table : t.totalList = s.totalList)
    (queues : t.queues = s.queues ∨ t.queues = Function.update s.queues q none) : Tends s t := by
  refine .of_table a table fun k r own => ?_
  have other : r ≠ q := by
    rintro rfl
    exact foreign k own
  rcases queues with same | dropped
  · rw [same]
  · rw [dropped, Function.update_of_ne other]

theorem lockDestroy {l : Nat} (p : Private s) (a : Attended s) (run : lockDestroy l s = .ok t) : Tends s t := by
  obtain ⟨lock, found, run⟩ := Result.bind_eq_ok.mp run
  split_ifs at run
  · exact Except.ok.inj run ▸ .discard a (p.foreign_lock (lockAt_eq_ok.mp found)) rfl (Or.inr rfl)
  · exact .steady a (Except.ok.inj run ▸ .refl s)

theorem cvDestroy {c : Nat} (p : Private s) (a : Attended s) (run : cvDestroy c s = .ok t) : Tends s t := by
  obtain ⟨q, found, run⟩ := Result.bind_eq_ok.mp run
  obtain ⟨nodes, -, run⟩ := Result.bind_eq_ok.mp run
  have foreign := p.foreign_cv (cvAt_eq_ok.mp found)
  rw [← Except.ok.inj run]
  split_ifs
  · exact .discard a foreign rfl (Or.inr rfl)
  · exact .discard a foreign rfl (Or.inl rfl)

theorem enter {call : Call} (n : Named s) (p : Private s) (a : Attended s) (disciplined : Disciplined s (.call call))
    (spares : SparesWaiters s (.call call)) (own : ∀ e tid, s.callStack.head? ≠ some (.waitReturn e tid))
    (run : enter call s = .ok t) : Tends s t := by
  cases call with
  | create stackOk => exact Except.ok.inj run ▸ .threadCreate a stackOk
  | exit => exact .threadExit n p a run
  | kill tid => exact (threadKill_felled n run).tends a spares
  | queueCreate | lockCreate | cvCreate => exact Except.ok.inj run ▸ .claim p a rfl rfl
  | queueDestroy q =>
      obtain ⟨nodes, -, run⟩ := Result.bind_eq_ok.mp run
      exact Except.ok.inj run ▸ .discard a (.of_external disciplined) rfl (Or.inr rfl)
  | wait tid => exact .threadWait p a run
  | lockDestroy l => exact .lockDestroy p a run
  | cvDestroy c => exact .cvDestroy p a run
  | yield _ | sleep _ | wakeup _ _ | lockAcquire _ | lockRelease _ | cvWait _ _ | cvSignal _ _ | cvBroadcast _ _
  | interruptsSet _ => exact .steady a (.enter p disciplined rfl own run)

theorem step {action : Action} {event : Option Event} (n : Named s) (p : Private s) (a : Attended s)
    (disciplined : Disciplined s action) (spares : SparesWaiters s action)
    (run : step s action = .ok (t, event)) : Tends s t := by
  rcases step_cases run with ⟨call, rfl, -, entered, -⟩ | ⟨frame, frames, -, -, continued, -⟩ | ⟨-, -, yielded, -⟩
  · have pushed := Steady.push s (.user call)
    refine .after pushed (enter (n.push _) (p.steady pushed) (a.steady pushed) ?_ ?_ (fun e tid top => ?_) entered)
    · cases call <;> exact disciplined
    · cases call <;> exact spares
    · cases top
  · have popped : Steady s { s with callStack := frames } := .pop s frames
    by_cases exits : frame = .exitCall
    · subst exits
      exact .after popped (threadExit (n.pop frames) (p.steady popped) (a.steady popped) continued)
    · exact .steady a (popped.trans (.continueFrame (p.steady popped) exits continued))
  · have interrupted := (Steady.interruptsSet s false).trans (.push _ (.handler s.rax))
    exact .steady a (interrupted.trans (.threadYield yielded))

end Tends

theorem Attended.init : Attended threadInit := by
  refine ⟨fun i tid waiting => ?_, fun _ _ _ own => ?_⟩
  · obtain ⟨suspended, -⟩ := waiting
    by_cases h : i = 0 <;> simp [threadInit, h, Thread.zero] at suspended
  · obtain ⟨nodes, found⟩ := Private.init.allocated (.thread _) _ own
    cases found

/-- In the runs that spare the threads that are waited for, no waiter is stranded, and no step from
the state they reach strands one. -/
theorem none_stranded {labels : List Label}
    (run : Runs (fun s action => Disciplined s action ∧ SparesWaiters s action) labels s) :
    Attended s ∧ ∀ label t, Steps (fun s action => Disciplined s action ∧ SparesWaiters s action) s label t → Tended s t := by
  have kept : Private s ∧ Attended s ∧ Named s :=
    run.invariant (fun s => Private s ∧ Attended s ∧ Named s) ⟨.init, .init, .init⟩
      fun t label u taken ⟨owned, attended, named⟩ =>
        ⟨owned.step named taken.1.1 taken.2, (Tends.step named owned attended taken.1.1 taken.1.2 taken.2).attended,
          named.step taken.2⟩
  obtain ⟨owned, attended, named⟩ := kept
  exact ⟨attended, fun label t taken => (Tends.step named owned attended taken.1.1 taken.1.2 taken.2).tended⟩

def Queueless : Action → Prop
  | .call (.sleep (some _)) => False
  | .call (.wakeup (some _) _) => False
  | .call (.queueDestroy _) => False
  | _ => True

instance : DecidablePred Queueless := fun action => by
  unfold Queueless
  split <;> infer_instance

theorem Queueless.disciplined {action : Action} (queueless : Queueless action) : Disciplined s action := by
  unfold Disciplined
  split
  all_goals first | exact queueless.elim | trivial

theorem Runs.of_queueless (actions : List Action) (ran : (exec (fun _ action => Queueless action) threadInit actions).isSome) :
    Runs Disciplined ((exec (fun _ action => Queueless action) threadInit actions).get ran).2
      ((exec (fun _ action => Queueless action) threadInit actions).get ran).1 :=
  (Runs.of_exec actions ran).weaken fun _ _ queueless => queueless.disciplined

def createTwoAndWait : List Action :=
  [.call (.create true), .resume, .call (.create true), .resume, .call (.wait 2)]

theorem none_stranded_waiting : ∃ labels s,
    Runs (fun s action => Disciplined s action ∧ SparesWaiters s action) labels s ∧ (s.totalList 0).WaitsOn 2 ∧
      Attended s ∧ ∀ label t, Steps (fun s action => Disciplined s action ∧ SparesWaiters s action) s label t →
        Tended s t := by
  have run := @Runs.of_exec (fun s action => Queueless action ∧ Admissible s action) _ createTwoAndWait (by decide)
  have spared := run.weaken fun s action ⟨queueless, admissible⟩ =>
    And.intro (queueless.disciplined (s := s)) (admissible.killFree.sparesWaiters (s := s))
  exact ⟨_, _, spared, ⟨rfl, false, 1, true, [.user (.wait 2)], rfl⟩, none_stranded spared⟩

theorem none_stranded_fails : ¬ ∀ labels s, Runs Disciplined labels s →
    Attended s ∧ ∀ label t, Steps Disciplined s label t → Tended s t := by
  intro all
  have stranded := all _ _ (Runs.of_queueless (createTwoAndWait ++ [.resume, .call (.kill 2)]) (by decide))
  obtain ⟨k, named, alive, -⟩ := stranded.1.waiting 0 2 ⟨rfl, false, 1, true, [.user (.wait 2)], rfl⟩
  obtain rfl : k = 2 := by exact_mod_cast named
  cases alive

end OperatingSystem.Threads
