import OperatingSystem.Threads.Switch

namespace OperatingSystem.Threads

open State

structure Named (s : State) : Prop where
  slots : ∀ i, (s.totalList i).threadID = i ∨ (s.totalList i).threadID = 0
  current : (s.totalList s.currentThread).threadID = s.currentThread
  ready : Identified s s.readyList
  waiting : ∀ q nodes, s.queues q = some nodes → Identified s nodes

namespace Named

variable {s t : State}

theorem threadID (n : Named s) (i : Nat) :
    (s.totalList (s.totalList i).threadID).threadID = (s.totalList i).threadID := by
  rcases n.slots i with h | h
  · rw [h, h]
  · rcases n.slots 0 with h' | h' <;> rw [h, h']

theorem of_same (n : Named s) (ids : ∀ i, (t.totalList i).threadID = (s.totalList i).threadID)
    (current : (s.totalList t.currentThread).threadID = t.currentThread)
    (ready : Identified s t.readyList)
    (waiting : ∀ q nodes, t.queues q = some nodes → Identified s nodes) : Named t where
  slots i := by simpa only [ids] using n.slots i
  current := (ids _).trans current
  ready i hi := (ids i).trans (ready i hi)
  waiting q nodes found i hi := (ids i).trans (waiting q nodes found i hi)

theorem pop (n : Named s) (frames : List Frame) : Named { s with callStack := frames } :=
  n.of_same (fun _ => rfl) n.current n.ready n.waiting

theorem threadID_modifyThread (s : State) (i j : Nat) (f : Thread → Thread)
    (keeps : ∀ t, (f t).threadID = t.threadID) :
    ((s.modifyThread i f).totalList j).threadID = (s.totalList j).threadID := by
  rw [thread_modifyThread]
  split_ifs with h
  · rw [keeps, h]
  · rfl

theorem modifyThread (n : Named s) (i : Nat) (f : Thread → Thread)
    (keeps : ∀ t, (f t).threadID = t.threadID) : Named (s.modifyThread i f) :=
  n.of_same (fun j => threadID_modifyThread s i j f keeps) n.current n.ready n.waiting

theorem setQueue (n : Named s) (q : Nat) (nodes : Option (List Nat))
    (named : ∀ l, nodes = some l → Identified s l) : Named (s.setQueue q nodes) := by
  refine n.of_same (fun _ => rfl) n.current n.ready fun r l found => ?_
  by_cases rq : r = q
  · subst rq
    exact named l (by simpa [State.setQueue] using found)
  · exact n.waiting r l (by simpa [State.setQueue, rq] using found)

theorem pushbackRL (n : Named s) {i : Nat} (named : (s.totalList i).threadID = i) :
    Named (s.pushbackRL i) := by
  refine n.of_same (fun _ => rfl) n.current (fun j hj => ?_) n.waiting
  rcases List.mem_append.mp hj with h | h
  · exact n.ready j h
  · rw [List.mem_singleton.mp h, named]

theorem setReady (n : Named s) {nodes : List Nat} (fewer : nodes ⊆ s.readyList) :
    Named { s with readyList := nodes } :=
  n.of_same (fun _ => rfl) n.current (fun i hi => n.ready i (fewer hi)) n.waiting

theorem setCurrent (n : Named s) (i : Nat) : Named { s with currentThread := (s.totalList i).threadID } :=
  n.of_same (fun _ => rfl) (n.threadID i) n.ready n.waiting

theorem interruptsSet (n : Named s) (enabled : Bool) : Named (s.interruptsSet enabled) :=
  n.of_same (fun _ => rfl) n.current n.ready n.waiting

theorem result (n : Named s) (v : Tid) : Named (s.result v) :=
  n.of_same (fun _ => rfl) n.current n.ready n.waiting

theorem push (n : Named s) (f : Frame) : Named (s.push f) :=
  n.of_same (fun _ => rfl) n.current n.ready n.waiting

theorem setLock (n : Named s) (l : Nat) (lock : Option Lock) : Named (s.setLock l lock) :=
  n.of_same (fun _ => rfl) n.current n.ready n.waiting

theorem queueCreate (n : Named s) : Named (waitQueueCreate s).1 :=
  (n.setQueue s.nextQueue (some []) (by simp [Identified])).of_same (fun _ => rfl) n.current n.ready
    (n.setQueue s.nextQueue (some []) (by simp [Identified])).waiting

theorem threadCreate (n : Named s) (stackOk : Bool) : Named (threadCreate stackOk s) := by
  have created (t : State) (id : Nat)
      (ids : ∀ j, (t.totalList j).threadID = if j = id then id else (s.totalList j).threadID)
      (current : t.currentThread = s.currentThread)
      (ready : ∀ j ∈ t.readyList, j ∈ s.readyList ∨ j = id) (queues : t.queues = s.queues) :
      Named t := by
    have known (j : Nat) (h : (s.totalList j).threadID = j ∨ j = id) :
        (t.totalList j).threadID = j := by
      rw [ids]
      split_ifs with eq
      · exact eq.symm
      · exact h.resolve_right eq
    refine ⟨fun j => ?_, current ▸ known _ (Or.inl n.current), fun j hj => known j ?_,
      fun q nodes found j hj => known j (Or.inl (n.waiting q nodes (queues ▸ found) j hj))⟩
    · rw [ids]
      split_ifs with eq
      · exact Or.inl eq.symm
      · exact n.slots j
    · exact (ready j hj).imp_left (n.ready j)
  cases found : freeSlot (s.interruptsSet false) (THREAD_MAX_THREADS - 1) 1 with
  | none =>
      simp only [Threads.threadCreate, found]
      exact (n.interruptsSet false).result _
  | some id =>
      simp only [Threads.threadCreate, found]
      split_ifs
      · refine created _ id (fun j => ?_) rfl (fun j hj => ?_) rfl
        · simp only [State.result, State.interruptsSet, State.pushbackRL, thread_modifyThread]
          split_ifs <;> rfl
        · simpa [State.result, State.interruptsSet, State.pushbackRL] using hj
      · refine created _ id (fun j => ?_) rfl (fun j hj => Or.inl hj) rfl
        simp only [State.result, thread_modifyThread]
        split_ifs <;> rfl

theorem deleteNode {target : Nat} {node : Option Nat} (n : Named s)
    (run : deleteNode s target node = .ok t) : Named t := by
  unfold Threads.deleteNode at run
  split at run
  · simp at run
  · rename_i head rest ready
    split_ifs at run
    · rw [← Except.ok.inj run]
      exact n.setReady (by simp [ready])
    · rw [← Except.ok.inj run]
      exact n.setReady (ready ▸ List.dropLast_subset _)
    · split at run
      · simp at run
      · split_ifs at run
        rw [← Except.ok.inj run]
        exact n.setReady List.erase_subset

theorem switchTo (n : Named s) (caller next : Nat) : Named (switchTo caller next s) := by
  have switched := ((n.setCurrent next).modifyThread (s.totalList next).threadID
    (fun t => { t with status := .running }) fun _ => rfl).modifyThread caller
    (fun t => { t with threadInfo := markCalled t.threadInfo }) fun _ => rfl
  exact switched.of_same (fun _ => rfl) switched.current switched.ready switched.waiting

theorem requeueCaller (n : Named s) (next : Nat) : Named (requeueCaller next s) := by
  unfold Threads.requeueCaller
  have marked := n.modifyThread s.currentThread (fun t => { t with status := .ready }) fun _ => rfl
  simp only
  split_ifs
  · refine ((marked.modifyThread _ _ (by intro; rfl)).modifyThread _ _ (by intro; rfl)).pushbackRL ?_
    rw [threadID_modifyThread, threadID_modifyThread, threadID_modifyThread]
    · exact n.current
    all_goals intro; rfl
  · exact marked
  · exact n

theorem sweepStacks (n : Named s) : Named (sweepStacks s) :=
  n.of_same (fun _ => sweepStacks_threadID s _) n.current n.ready n.waiting

theorem yieldBlock {enabled : Bool} {next : Nat} {iter : Option Nat} (n : Named s)
    (run : yieldBlock enabled next iter s = .ok t) : Named t := by
  have saved := (n.modifyThread s.currentThread
    (fun t => { t with threadInfo := .afterYield enabled false next iter :: s.callStack })
    fun _ => rfl).requeueCaller next
  unfold Threads.yieldBlock at run
  simp only at run
  split_ifs at run
  · rw [← Except.ok.inj run]
    exact ((saved.setCurrent next).push _).push _
  · rw [← Except.ok.inj run]
    exact saved.switchTo _ _
  · simp only [Result.bind_eq_ok, Result.pure_eq_ok, Except.ok.injEq] at run
    obtain ⟨u, unlinked, rfl⟩ := run
    exact (saved.deleteNode unlinked).switchTo _ _

theorem threadYield {want : Tid} (n : Named s) (run : threadYield want s = .ok t) : Named t := by
  have swept := (n.interruptsSet false).sweepStacks
  simp only [Threads.threadYield] at run
  split_ifs at run
  · split at run
    · rw [← Except.ok.inj run]
      exact ((n.interruptsSet _).interruptsSet _).result _
    · exact swept.yieldBlock run
  · exact swept.yieldBlock run
  · split at run
    · rw [← Except.ok.inj run]
      exact ((n.interruptsSet _).interruptsSet _).result _
    · exact swept.yieldBlock run

theorem wakeThread (n : Named s) (node : Nat) : Named (wakeThread s node) := by
  refine (n.modifyThread (s.totalList node).threadID (fun t => { t with status := .ready })
    fun _ => rfl).pushbackRL ?_
  simpa using n.threadID node

theorem threadWakeup {queue : Option Nat} {all : Int} (n : Named s)
    (run : threadWakeup queue all s = .ok t) : Named t := by
  have wakeAll (nodes : List Nat) (u : State) (n : Named u) :
      Named (nodes.foldl Threads.wakeThread u) := by
    induction nodes generalizing u with
    | nil => exact n
    | cons head rest ih => exact ih _ (n.wakeThread head)
  rcases threadWakeup_cases run with ⟨v, rfl⟩ | ⟨q, head, rest, -, found, rfl | rfl⟩
  · exact n.result v
  · refine ((n.setQueue q (some rest) fun l hl i hi => ?_).wakeThread head).result _
    obtain rfl := Option.some.inj hl
    exact n.waiting q _ found i (by simp [hi])
  · exact (wakeAll (head :: rest) _ (n.setQueue q (some []) (by simp [Identified]))).result _

theorem releaseWaiters (n : Named s) (run : releaseWaiters s = .ok t) : Named t := by
  unfold Threads.releaseWaiters at run
  split at run
  · exact Except.ok.inj run ▸ n
  · simp only [Result.bind_eq_ok, Result.pure_eq_ok, Except.ok.injEq] at run
    obtain ⟨u, woken, rfl⟩ := run
    exact ((n.threadWakeup woken).setQueue _ none (by simp)).modifyThread _ _ (by intro; rfl)

theorem threadExit (n : Named s) (run : threadExit s = .ok t) : Named t := by
  simp only [Threads.threadExit, Result.bind_eq_ok] at run
  obtain ⟨u, released, run⟩ := run
  have named := (n.interruptsSet false).releaseWaiters released
  split at run
  · rw [← Except.ok.inj run]
    exact (named.interruptsSet _).result _
  · exact ((named.modifyThread _ _ (by intro; rfl)).push _).threadYield run

theorem threadSleep {queue : Option Nat} (n : Named s) (run : threadSleep queue s = .ok t) :
    Named t := by
  unfold Threads.threadSleep at run
  simp only at run
  split at run
  · rw [← Except.ok.inj run]
    exact ((n.interruptsSet _).interruptsSet _).result _
  · rw [← Except.ok.inj run]
    exact ((n.interruptsSet _).interruptsSet _).result _
  · rename_i q next rest ready
    simp only [Result.bind_eq_ok, Result.pure_eq_ok, Except.ok.injEq] at run
    obtain ⟨nodes, found, rfl⟩ := run
    have suspended := (n.interruptsSet false).modifyThread s.currentThread (fun t => { t with
      status := .suspended, threadInfo := .afterSleep s.interrupts next :: s.callStack }) fun _ => rfl
    have found : s.queues q = some nodes := by
      rw [queueNodes] at found
      split at found
      · rename_i h
        exact h.trans (by simpa using found)
      · simp at found
    have queued := suspended.setQueue q (some (nodes ++ [s.currentThread])) fun l hl i hi => by
      obtain rfl := Option.some.inj hl
      rcases List.mem_append.mp hi with h | h
      · exact suspended.waiting q nodes found i h
      · rw [List.mem_singleton.mp h]
        exact suspended.current
    have fewer : rest ⊆ s.readyList := by simp [show s.readyList = next :: rest from ready]
    have popped := (queued.setReady fewer).modifyThread next (fun t => { t with status := .running }) fun _ => rfl
    have switched := popped.setCurrent next
    exact switched.of_same (fun _ => rfl) switched.current switched.ready switched.waiting

theorem threadKill {tid : Tid} (n : Named s) (run : threadKill tid s = .ok t) : Named t := by
  simp only [Threads.threadKill, Result.bind_eq_ok] at run
  obtain ⟨itr, -, run⟩ := run
  have marked : Named (markKilled itr (s.interruptsSet false)) := by
    cases itr with
    | none => exact n.interruptsSet false
    | some node => exact (n.interruptsSet false).modifyThread node (fun t => { t with exist := false }) fun _ => rfl
  split at run
  · rw [← Except.ok.inj run]
    exact (marked.interruptsSet _).result _
  · rename_i node _
    simp only [Result.bind_eq_ok, Result.pure_eq_ok, Except.ok.injEq] at run
    obtain ⟨u, unlinked, rfl⟩ := run
    refine ((Named.deleteNode ?_ unlinked).interruptsSet _).result _
    have unstacked := marked.modifyThread node (fun t => { t with stack := none }) fun _ => rfl
    exact unstacked.of_same (fun _ => rfl) unstacked.current unstacked.ready unstacked.waiting
  · simp only [Result.bind_eq_ok] at run
    obtain ⟨nodes, -, run⟩ := run
    split at run
    · rw [← Except.ok.inj run]
      exact (marked.interruptsSet _).result _
    · rw [← Except.ok.inj run]
      exact ((marked.modifyThread _ _ (by intro; rfl)).interruptsSet _).result _

theorem threadWait {tid : Tid} (n : Named s) (run : threadWait tid s = .ok t) : Named t := by
  simp only [Threads.threadWait] at run
  split_ifs at run
  · rw [← Except.ok.inj run]
    exact ((n.interruptsSet _).interruptsSet _).result _
  · rw [← Except.ok.inj run]
    exact ((n.interruptsSet _).interruptsSet _).result _
  · have waits := (n.interruptsSet false).push (.waitReturn s.interrupts tid)
    split at run
    · exact waits.threadSleep run
    · exact (waits.queueCreate.modifyThread _ _ (by intro; rfl)).threadSleep run

theorem acquireLoop {l : Nat} {enabled : Bool} (n : Named s)
    (run : acquireLoop l enabled s = .ok t) : Named t := by
  simp only [Threads.acquireLoop, Result.bind_eq_ok] at run
  obtain ⟨lock, -, run⟩ := run
  split_ifs at run
  · rw [← Except.ok.inj run]
    exact (n.setLock _ _).interruptsSet _
  · exact (n.push _).threadSleep run

theorem lockAcquire {l : Nat} (n : Named s) (run : lockAcquire l s = .ok t) : Named t := by
  simp only [Threads.lockAcquire, Result.bind_eq_ok, Result.pure_eq_ok, Except.ok.injEq] at run
  obtain ⟨lock, -, rfl⟩ := run
  exact (n.interruptsSet false).push _

theorem lockRelease {l : Nat} (n : Named s) (run : lockRelease l s = .ok t) : Named t := by
  simp only [Threads.lockRelease, Result.bind_eq_ok] at run
  obtain ⟨lock, -, run⟩ := run
  split_ifs at run
  · exact Except.ok.inj run ▸ n
  · exact (n.setLock _ _).threadWakeup run

theorem cvWait {c l : Nat} (n : Named s) (run : cvWait c l s = .ok t) : Named t := by
  simp only [Threads.cvWait, Result.bind_eq_ok] at run
  obtain ⟨wqC, -, u, released, lock, -, run⟩ := run
  have named : Named (u.push (.cvReacquire l s.interrupts)) :=
    ((n.interruptsSet false).lockRelease released).push _
  split_ifs at run
  · exact named.threadSleep run
  · exact Except.ok.inj run ▸ named

theorem cvWake {all : Int} {c l : Nat} (n : Named s) (run : cvWake all c l s = .ok t) :
    Named t := by
  simp only [Threads.cvWake, Result.bind_eq_ok] at run
  obtain ⟨wqC, -, lock, -, run⟩ := run
  split_ifs at run
  · exact n.threadWakeup run
  · exact Except.ok.inj run ▸ n

theorem lockDestroy {l : Nat} (n : Named s) (run : lockDestroy l s = .ok t) : Named t := by
  simp only [Threads.lockDestroy, Result.bind_eq_ok] at run
  obtain ⟨lock, -, run⟩ := run
  split_ifs at run
  · rw [← Except.ok.inj run]
    exact (n.setQueue _ none (by simp)).setLock _ _
  · exact Except.ok.inj run ▸ n

theorem cvDestroy {c : Nat} (n : Named s) (run : cvDestroy c s = .ok t) : Named t := by
  simp only [Threads.cvDestroy, Result.bind_eq_ok, Result.pure_eq_ok, Except.ok.injEq] at run
  obtain ⟨wqC, -, nodes, -, rfl⟩ := run
  split_ifs
  · have freed := n.setQueue wqC none (by simp)
    exact freed.of_same (fun _ => rfl) freed.current freed.ready freed.waiting
  · exact n.of_same (fun _ => rfl) n.current n.ready n.waiting

theorem enter {call : Call} (n : Named s) (run : enter call s = .ok t) : Named t := by
  have created := n.queueCreate
  cases call with
  | create stackOk => exact Except.ok.inj run ▸ n.threadCreate stackOk
  | yield tid => exact n.threadYield run
  | exit => exact n.threadExit run
  | kill tid => exact n.threadKill run
  | queueCreate => exact Except.ok.inj run ▸ created.result _
  | queueDestroy q =>
      simp only [Threads.enter, waitQueueDestroy, Result.bind_eq_ok, Result.pure_eq_ok,
        Except.ok.injEq] at run
      obtain ⟨nodes, -, rfl⟩ := run
      exact n.setQueue q none (by simp)
  | sleep queue => exact n.threadSleep run
  | wakeup queue all => exact n.threadWakeup run
  | wait tid => exact n.threadWait run
  | lockDestroy l => exact n.lockDestroy run
  | lockAcquire l => exact n.lockAcquire run
  | lockRelease l => exact n.lockRelease run
  | cvDestroy c => exact n.cvDestroy run
  | cvWait c l => exact n.cvWait run
  | cvSignal c l => exact n.cvWake run
  | cvBroadcast c l => exact n.cvWake run
  | lockCreate | cvCreate =>
      rw [← Except.ok.inj run]
      exact created.of_same (fun _ => rfl) created.current created.ready created.waiting
  | interruptsSet enabled => exact Except.ok.inj run ▸ n.interruptsSet _

theorem continueFrame {frame : Frame} (n : Named s) (run : continueFrame frame s = .ok t) :
    Named t := by
  cases frame with
  | exitCall => exact n.threadExit run
  | afterExit caller next => exact Except.ok.inj run ▸ n.switchTo _ _
  | afterYield enabled called next iter =>
      cases called with
      | true => exact Except.ok.inj run ▸ (n.interruptsSet _).push _
      | false => exact n.yieldBlock run
  | acquireLoop l enabled => exact n.acquireLoop run
  | cvReacquire l enabled => exact (n.push _).lockAcquire run
  | user call => exact Except.ok.inj run ▸ n
  | yieldResult => exact Except.ok.inj run ▸ n.result _
  | stub | cvReturn enabled => exact Except.ok.inj run ▸ n.interruptsSet _
  | handler _ | exitReturn enabled | afterSleep enabled next | waitReturn enabled tid =>
      exact Except.ok.inj run ▸ (n.interruptsSet _).result _

theorem step {action : Action} {event : Option Event} (n : Named s)
    (run : step s action = .ok (t, event)) : Named t := by
  rcases step_cases run with ⟨call, -, -, entered, -⟩ | ⟨frame, frames, -, -, continued, -⟩ | ⟨-, -, yielded, -⟩
  · exact (n.push _).enter entered
  · exact (n.pop frames).continueFrame continued
  · exact ((n.interruptsSet false).push _).threadYield yielded

theorem init : Named threadInit := by
  refine ⟨fun i => Or.inr ?_, rfl, by simp [Identified, threadInit], by simp [threadInit]⟩
  by_cases h : i = 0 <;> simp [threadInit, h, Thread.zero]

theorem of_run {allowed : State → Action → Prop} {labels : List Label}
    (run : Runs allowed labels s) : Named s :=
  run.invariant Named init fun _ _ _ taken n => n.step taken.2

end Named

theorem findNode_some {s : State} {nodes : List Nat} {tid : Tid} {i : Nat}
    (ids : Identified s nodes) (found : s.findNode nodes tid = some i) : i ∈ nodes ∧ (i : Tid) = tid := by
  have member := List.mem_of_find?_eq_some found
  have named : s.threadIDOf i = tid := by simpa using List.find?_some found
  rw [threadIDOf, ids i member] at named
  exact ⟨member, named⟩

theorem findNode_none {s : State} {nodes : List Nat} {tid : Tid} (ids : Identified s nodes)
    (found : s.findNode nodes tid = none) : ∀ i ∈ nodes, (i : Tid) ≠ tid := by
  intro i hi same
  have := List.find?_eq_none.mp found i hi
  rw [threadIDOf, ids i hi] at this
  simp [same] at this

theorem deleteNode_perm {s : State} {i : Nat} (ids : Identified s s.readyList)
    (member : i ∈ s.readyList) :
    ∃ nodes, deleteNode s i (some i) = .ok { s with readyList := nodes } ∧
      nodes.Perm (s.readyList.erase i) := by
  unfold deleteNode
  cases ready : s.readyList with
  | nil => simp [ready] at member
  | cons head rest =>
      have headMem : head ∈ s.readyList := by simp [ready]
      have lastMem : (head :: rest).getLast (by simp) ∈ s.readyList := by
        rw [ready]
        exact List.getLast_mem _
      simp only [ids.inj member headMem, ids.inj member lastMem]
      rw [ready] at member
      split_ifs with atHead atTail
      · exact ⟨rest, rfl, by simp [atHead]⟩
      · refine ⟨_, rfl, ?_⟩
        have split := List.dropLast_append_getLast (l := head :: rest) (by simp)
        have moved : (head :: rest).Perm (i :: (head :: rest).dropLast) := by
          rw [atTail]
          calc (head :: rest)
              = (head :: rest).dropLast ++ [(head :: rest).getLast (by simp)] := split.symm
            _ |>.Perm _ := List.perm_append_singleton _ _
        simpa using (moved.erase i).symm
      · exact ⟨_, rfl, .refl _⟩

section Contract

variable {s s' : State} {tid : Tid} {t : Nat}

def Target (s : State) (tid : Tid) (t : Nat) : Prop :=
  (t : Tid) = tid ∧ (s.totalList t).exist = true ∧ t ≠ s.currentThread

def WaitsFor (s : State) (i t : Nat) : Prop :=
  ∃ q nodes, (s.totalList t).wqt = some q ∧ s.queues q = some nodes ∧ i ∈ nodes

structure Killed (s : State) (t : Nat) (s' : State) : Prop where
  returned : s'.rax = t
  notReady : t ∉ s'.readyList
  notWaiting : ∀ q nodes, s'.queues q = some nodes → t ∉ nodes
  caller : s'.currentThread = s.currentThread
  othersReady : ∀ i, i ≠ t → ¬ WaitsFor s i t → s'.readyList.count i = s.readyList.count i
  othersWaiting : ∀ i, i ≠ t → ¬ WaitsFor s i t →
    ∀ q, ((s'.queues q).getD []).count i = ((s.queues q).getD []).count i

structure Refused (s s' : State) : Prop where
  returned : s'.rax = THREAD_INVALID
  ready : s'.readyList = s.readyList
  queues : s'.queues = s.queues
  exist : ∀ i, (s'.totalList i).exist = (s.totalList i).exist
  status : ∀ i, (s'.totalList i).status = (s.totalList i).status

def KillContract (s : State) (tid : Tid) : Prop :=
  (∀ t, Target s tid t → ∃ s', threadKill tid s = .ok s' ∧ Killed s t s') ∧
  ((¬ ∃ t, Target s tid t) → ∃ s', threadKill tid s = .ok s' ∧ Refused s s')

/-- When the contract is met.  A live target must be ready, in one node, asleep on no queue, and its
killer must never have been waited for.  Anything else is refused correctly if the ready list is
empty, or if its walk meets a thread already dead and the caller has a queue of waiters; and no
waiter of the caller may have the identifier. -/
def KillMeets (s : State) (tid : Tid) : Prop :=
  (∃ t, Target s tid t ∧ s.current.wqt = none ∧ s.readyList.count t = 1 ∧
    ∀ q nodes, s.queues q = some nodes → t ∉ nodes) ∨
  ((¬ ∃ t, Target s tid t) ∧
    (s.readyList = [] ∨ s.current.wqt ≠ none ∧
      ∃ i ∈ s.readyList, (i : Tid) = tid ∧ (s.totalList i).exist = false) ∧
    ∀ q, s.current.wqt = some q → ∃ nodes, s.queues q = some nodes ∧ ∀ i ∈ nodes, (i : Tid) ≠ tid)

theorem ne_invalid (i : Nat) : (i : Tid) ≠ THREAD_INVALID := by
  change (i : Int) ≠ -3
  omega

theorem Target.unique {u : Nat} (h : Target s tid t) (h' : Target s tid u) : t = u := by
  exact_mod_cast h.1.trans h'.1.symm

theorem killContract_ok (run : threadKill tid s = .ok s') :
    KillContract s tid ↔ (∀ t, Target s tid t → Killed s t s') ∧
      ((¬ ∃ t, Target s tid t) → Refused s s') := by
  simp [KillContract, run]

theorem killContract_error {fault : Fault} (run : threadKill tid s = .error fault) :
    ¬ KillContract s tid := by
  rintro ⟨live, dead⟩
  by_cases h : ∃ t, Target s tid t
  · obtain ⟨t, target⟩ := h
    obtain ⟨s', ok, -⟩ := live t target
    simp [run] at ok
  · obtain ⟨s', ok, -⟩ := dead h
    simp [run] at ok

@[simp] theorem markKilled_readyList (itr : Option Nat) : (markKilled itr s).readyList = s.readyList := by
  cases itr <;> rfl

@[simp] theorem markKilled_queues (itr : Option Nat) : (markKilled itr s).queues = s.queues := by
  cases itr <;> rfl

@[simp] theorem markKilled_currentThread (itr : Option Nat) :
    (markKilled itr s).currentThread = s.currentThread := by
  cases itr <;> rfl

theorem markKilled_thread (itr : Option Nat) (i : Nat) :
    (markKilled itr s).totalList i = { s.totalList i with
      exist := if itr = some i then false else (s.totalList i).exist } := by
  cases itr with
  | none => simp [markKilled]
  | some t =>
      simp only [markKilled, thread_modifyThread, Option.some.injEq, eq_comm (a := t)]
      split_ifs with h <;> simp [h]

theorem threadKill_direct (n : Named s) (unwaited : s.current.wqt = none)
    (walked : killWalk tid s = .ok (some t)) (member : t ∈ s.readyList) :
    ∃ s', threadKill tid s = .ok s' ∧ s'.rax = t ∧ s'.readyList.Perm (s.readyList.erase t) ∧
      s'.queues = s.queues ∧ s'.currentThread = s.currentThread := by
  have wqt : (markKilled (some t) (s.interruptsSet false)).current.wqt = none := by
    rw [current, markKilled_thread]
    exact unwaited
  have id : (markKilled (some t) (s.interruptsSet false)).threadIDOf t = t := by
    rw [threadIDOf, markKilled_thread]
    exact_mod_cast n.ready t member
  simp only [threadKill, walked, Result.ok_bind, wqt, id]
  set u := State.modifyThread _ t _ with hu
  have ids : Identified u u.readyList := fun i hi => by
    rw [hu, Named.threadID_modifyThread]
    · exact (congrArg Thread.threadID (markKilled_thread (some t) i)).trans (n.ready i hi)
    · intro; rfl
  obtain ⟨nodes, unlinked, perm⟩ := deleteNode_perm ids member
  rw [unlinked, Result.ok_bind]
  exact ⟨_, rfl, rfl, perm, rfl, rfl⟩

theorem threadKill_waiters {itr : Option Nat} {q : Nat} (waited : s.current.wqt = some q)
    (walked : killWalk tid s = .ok itr) :
    threadKill tid s = do
      let nodes ← s.queueNodes q
      let marked := markKilled itr (s.interruptsSet false)
      match marked.findNode nodes tid with
      | none => return (marked.interruptsSet s.interrupts).result THREAD_INVALID
      | some node =>
          return ((marked.modifyThread node fun t => { t with exist := false }).interruptsSet
            s.interrupts).result tid := by
  have wqt : (markKilled itr (s.interruptsSet false)).current.wqt = some q := by
    rw [current, markKilled_thread, markKilled_currentThread]
    exact waited
  have queues : (markKilled itr (s.interruptsSet false)).queueNodes q = s.queueNodes q := by
    simp [queueNodes, interruptsSet]
  unfold threadKill
  rw [walked, Result.ok_bind]
  simp only [wqt]
  exact congrArg (· >>= _) queues

theorem killWalk_cases (n : Named s) :
    (s.readyList = [] ∧ killWalk tid s = .ok none) ∨
    (∃ i ∈ s.readyList, (i : Tid) = tid ∧ killWalk tid s = .ok (some i)) ∨
    (s.readyList ≠ [] ∧ (∀ i ∈ s.readyList, (i : Tid) ≠ tid) ∧
      killWalk tid s = .error .nullDereference) := by
  unfold killWalk
  cases ready : s.readyList with
  | nil => exact Or.inl ⟨rfl, rfl⟩
  | cons head rest =>
      cases found : s.findNode (head :: rest) tid with
      | none =>
          exact Or.inr (Or.inr ⟨by simp, findNode_none (ready ▸ n.ready) found, rfl⟩)
      | some i =>
          obtain ⟨member, named⟩ := findNode_some (ready ▸ n.ready) found
          exact Or.inr (Or.inl ⟨i, member, named, rfl⟩)

theorem killContract_direct (n : Named s) (unwaited : s.current.wqt = none)
    (walked : killWalk tid s = .ok (some t)) (member : t ∈ s.readyList) (named : (t : Tid) = tid) :
    KillContract s tid ↔ KillMeets s tid := by
  obtain ⟨s', run, rax, perm, queues, caller⟩ := threadKill_direct n unwaited walked member
  have count (i : Nat) : s'.readyList.count i = (s.readyList.erase t).count i := perm.count_eq i
  rw [killContract_ok run]
  constructor
  · rintro ⟨live, dead⟩
    by_cases h : ∃ u, Target s tid u
    · obtain ⟨u, target⟩ := h
      obtain rfl : u = t := by exact_mod_cast target.1.trans named.symm
      have killed := live u target
      refine Or.inl ⟨u, target, unwaited, ?_, fun q nodes found => ?_⟩
      · have gone := List.count_eq_zero.mpr killed.notReady
        rw [count, List.count_erase_self] at gone
        have := List.count_pos_iff.mpr member
        omega
      · exact killed.notWaiting q nodes (queues ▸ found)
    · have returned := (dead h).returned
      rw [rax] at returned
      exact absurd returned (ne_invalid t)
  · rintro (⟨u, target, -, once, unqueued⟩ | ⟨none, empty | ⟨waited, -⟩, -⟩)
    · obtain rfl : u = t := by exact_mod_cast target.1.trans named.symm
      refine ⟨fun v target' => ?_, fun none => absurd ⟨u, target⟩ none⟩
      obtain rfl := target.unique target'
      refine ⟨rax, ?_, fun q nodes found => unqueued q nodes (queues ▸ found), caller,
        fun i other _ => ?_, fun i _ _ q => by rw [queues]⟩
      · rw [← List.count_eq_zero, count, List.count_erase_self, once]
      · rw [count, List.count_erase_of_ne other]
    · simp [empty] at member
    · exact absurd unwaited waited

theorem killContract_waiters (n : Named s) {q : Nat} {itr : Option Nat}
    (waited : s.current.wqt = some q) (walked : killWalk tid s = .ok itr)
    (itrCases : (s.readyList = [] ∧ itr = none) ∨ ∃ i ∈ s.readyList, (i : Tid) = tid ∧ itr = some i) :
    KillContract s tid ↔ KillMeets s tid := by
  have run := threadKill_waiters waited walked
  have meets : KillMeets s tid ↔ (¬ ∃ t, Target s tid t) ∧
      (s.readyList = [] ∨ ∃ i ∈ s.readyList, (i : Tid) = tid ∧ (s.totalList i).exist = false) ∧
      ∃ nodes, s.queues q = some nodes ∧ ∀ i ∈ nodes, (i : Tid) ≠ tid := by
    simp [KillMeets, waited]
  rw [meets]
  cases queue : s.queues q with
  | none =>
      have failed : threadKill tid s = .error .useAfterFree := by
        simp [run, queueNodes, queue]
      simp [killContract_error failed]
  | some nodes =>
      have ids : Identified (markKilled itr (s.interruptsSet false)) nodes := fun i hi => by
        rw [markKilled_thread]
        exact n.waiting q nodes queue i hi
      simp only [queueNodes, queue, Result.ok_bind] at run
      cases found : (markKilled itr (s.interruptsSet false)).findNode nodes tid with
      | some node =>
          simp only [found, Result.pure_eq_ok] at run
          obtain ⟨member, named⟩ := findNode_some ids found
          rw [killContract_ok run]
          constructor
          · rintro ⟨live, dead⟩
            by_cases h : ∃ u, Target s tid u
            · obtain ⟨u, target⟩ := h
              obtain rfl : u = node := by exact_mod_cast target.1.trans named.symm
              refine absurd member ((live u target).notWaiting q nodes ?_)
              exact (congrFun (markKilled_queues itr) q).trans queue
            · have returned : tid = THREAD_INVALID := (dead h).returned
              rw [← named] at returned
              exact absurd returned (ne_invalid node)
          · rintro ⟨-, -, nodes', same, absent⟩
            obtain rfl := Option.some.inj same
            exact absurd named (absent node member)
      | none =>
          simp only [found, Result.pure_eq_ok] at run
          have absent := findNode_none ids found
          rw [killContract_ok run]
          constructor
          · rintro ⟨live, dead⟩
            have none : ¬ ∃ t, Target s tid t := by
              rintro ⟨u, target⟩
              have returned : THREAD_INVALID = (u : Tid) := (live u target).returned
              exact absurd returned.symm (ne_invalid u)
            refine ⟨none, ?_, nodes, rfl, absent⟩
            rcases itrCases with ⟨empty, -⟩ | ⟨i, member, named, rfl⟩
            · exact Or.inl empty
            · have kept := (dead none).exist i
              simp only [State.result, State.interruptsSet, markKilled_thread, if_true] at kept
              exact Or.inr ⟨i, member, named, kept.symm⟩
          · rintro ⟨none, ready, -⟩
            refine ⟨fun u target => absurd ⟨u, target⟩ none, fun _ => ⟨rfl, ?_, ?_, fun i => ?_,
              fun i => ?_⟩⟩
            · exact markKilled_readyList itr
            · exact markKilled_queues itr
            · change ((markKilled itr (s.interruptsSet false)).totalList i).exist = _
              rw [markKilled_thread]
              change (if itr = some i then false else (s.totalList i).exist) = _
              split_ifs with marked
              · rcases itrCases with ⟨-, h⟩ | ⟨j, member, named, h⟩
                · simp [h] at marked
                · obtain rfl : j = i := by simpa [h] using marked
                  rcases ready with empty | ⟨k, -, named', dead⟩
                  · simp [empty] at member
                  · obtain rfl : k = j := by exact_mod_cast named'.trans named.symm
                    exact dead.symm
              · rfl
            · change ((markKilled itr (s.interruptsSet false)).totalList i).status = _
              rw [markKilled_thread]
              rfl

/-- Exactly when `thread_kill` honours its contract, in every state any sequence of calls reaches. -/
theorem thread_kill_contract_iff {labels : List Label} (run : Runs (fun _ _ => True) labels s)
    (tid : Tid) : KillContract s tid ↔ KillMeets s tid := by
  have n := Named.of_run run
  rcases @killWalk_cases s tid n with ⟨empty, walked⟩ | ⟨i, member, named, walked⟩ |
    ⟨nonempty, absent, walked⟩
  · cases wqt : s.current.wqt with
    | some q => exact killContract_waiters n wqt walked (Or.inl ⟨empty, rfl⟩)
    | none =>
        have invalid : threadKill tid s =
            .ok (((s.interruptsSet false).interruptsSet s.interrupts).result THREAD_INVALID) := by
          have : (markKilled none (s.interruptsSet false)).current.wqt = none := wqt
          simp only [threadKill, walked, Result.ok_bind, this]
          rfl
        rw [killContract_ok invalid]
        constructor
        · rintro ⟨live, -⟩
          refine Or.inr ⟨?_, Or.inl empty, by simp [wqt]⟩
          rintro ⟨u, target⟩
          have returned : THREAD_INVALID = (u : Tid) := (live u target).returned
          exact absurd returned.symm (ne_invalid u)
        · rintro (⟨u, -, -, once, -⟩ | ⟨none, -, -⟩)
          · simp [empty] at once
          · exact ⟨fun u target => absurd ⟨u, target⟩ none,
              fun _ => ⟨rfl, rfl, rfl, fun _ => rfl, fun _ => rfl⟩⟩
  · cases wqt : s.current.wqt with
    | some q => exact killContract_waiters n wqt walked (Or.inr ⟨i, member, named, rfl⟩)
    | none => exact killContract_direct n wqt walked member named
  · have failed : threadKill tid s = .error .nullDereference := by simp [threadKill, walked]
    refine iff_of_false (killContract_error failed) ?_
    rintro (⟨u, target, -, once, -⟩ | ⟨-, empty | ⟨-, i, member, named, -⟩, -⟩)
    · exact absent u (List.count_pos_iff.mp (by omega)) target.1
    · exact nonempty empty
    · exact absent i member named

end Contract

def createOne : List Action := [.call (.create true), .resume]

theorem thread_kill_contract_ready :
    ∃ labels s, Runs (fun _ _ => True) labels s ∧ s.callStack = [] ∧ KillContract s 1 := by
  have run := @Runs.of_exec (fun _ _ => True) _ createOne rfl
  refine ⟨_, _, run, rfl, (thread_kill_contract_iff run 1).mpr (Or.inl ⟨1, ⟨rfl, rfl, ?_⟩, rfl, rfl, ?_⟩)⟩
  · exact Nat.one_ne_zero
  · intro q nodes found
    have none : (none : Option (List Nat)) = some nodes := found
    simp at none

theorem thread_kill_contract_fails :
    ¬ ∀ labels s tid, Runs (fun _ _ => True) labels s → s.callStack = [] → KillContract s tid := by
  intro contract
  have run := @Runs.of_exec (fun _ _ => True) _ createOne rfl
  exact @killContract_error _ _ .nullDereference rfl (contract _ _ 42 run rfl)

end OperatingSystem.Threads
