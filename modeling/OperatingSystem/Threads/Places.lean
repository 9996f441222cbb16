import OperatingSystem.Library.Scheduler
import OperatingSystem.Threads.Switch

/-!
# Every thread is in exactly one place

`Placed` reads the package's state as a scheduler and says that its lists partition the live
threads, with the `status` fields in agreement.  Each function of the package makes one of the moves
of `Scheduler.Partition`; together they preserve `Placed` along every run that kills no thread and
destroys no queue that still holds one.
-/

namespace OperatingSystem.Threads

open State

def State.scheduler (s : State) : Scheduler Nat Nat where
  running := s.currentThread
  ready := s.readyList
  waiting q := (s.queues q).getD []

def Frame.settled : Frame → Bool
  | .exitCall => false
  | .afterExit _ _ => false
  | .afterYield _ called _ _ => called
  | _ => true

structure Placed (s : State) : Prop where
  partition : s.scheduler.Partition fun i => (s.totalList i).exist = true
  running : s.current.status = .running
  ready : ∀ i ∈ s.readyList, (s.totalList i).status = .ready
  waiting : ∀ q, ∀ i ∈ s.scheduler.waiting q, (s.totalList i).status = .suspended
  identified : ∀ i, (s.totalList i).exist = true → (s.totalList i).threadID = i
  fresh : ∀ q, s.nextQueue ≤ q → s.queues q = none
  contexts : ∀ i, ∀ f ∈ (s.totalList i).threadInfo, f.settled = true
  stack : ∀ f ∈ s.callStack, f.settled = true

/-- `Placed` when any calls but `thread_kill` are made: the live threads `lost` are in no list, because no
stack was found for them or the queue they slept on was destroyed. -/
structure Seated (lost : Nat → Prop) (s : State) : Prop where
  partition : s.scheduler.Partition fun i => (s.totalList i).exist = true ∧ ¬ lost i
  running : s.current.status = .running
  ready : ∀ i ∈ s.readyList, (s.totalList i).status = .ready
  waiting : ∀ q, ∀ i ∈ s.scheduler.waiting q, (s.totalList i).status = .suspended
  identified : ∀ i, (s.totalList i).exist = true → (s.totalList i).threadID = i
  fresh : ∀ q, s.nextQueue ≤ q → s.queues q = none
  contexts : ∀ i, ∀ f ∈ (s.totalList i).threadInfo, f.settled = true
  stack : ∀ f ∈ s.callStack, f.settled = true
  astray : ∀ i, lost i → (s.totalList i).exist = true

structure SamePlaces (s t : State) : Prop where
  current : t.currentThread = s.currentThread
  ready : t.readyList = s.readyList
  queues : t.queues = s.queues
  nextQueue : t.nextQueue = s.nextQueue
  exist : ∀ i, (t.totalList i).exist = (s.totalList i).exist
  status : ∀ i, (t.totalList i).status = (s.totalList i).status
  threadID : ∀ i, (t.totalList i).threadID = (s.totalList i).threadID
  threadInfo : ∀ i, (t.totalList i).threadInfo = (s.totalList i).threadInfo

namespace Seated

variable {lost : Nat → Prop} {s t : State}

theorem congr (p : Seated lost s) (same : SamePlaces s t) (stack : ∀ f ∈ t.callStack, f.settled = true) :
    Seated lost t where
  partition := by
    have view : t.scheduler = s.scheduler := by
      simp only [scheduler, same.current, same.ready, same.queues]
    simpa only [view, same.exist] using p.partition
  running := by simpa only [State.current, same.current, same.status] using p.running
  ready i hi := by simpa only [same.status] using p.ready i (same.ready ▸ hi)
  waiting q i hi := by
    simp only [scheduler, same.queues] at hi
    simpa only [same.status] using p.waiting q i hi
  identified i hi := by
    rw [same.exist] at hi
    simpa only [same.threadID] using p.identified i hi
  fresh q hq := by
    rw [same.nextQueue] at hq
    simpa only [same.queues] using p.fresh q hq
  contexts i := by simpa only [same.threadInfo] using p.contexts i
  stack := stack
  astray i astray := (same.exist i).trans (p.astray i astray)

theorem yieldable (p : Seated lost s) : Yieldable s where
  identified i hi := by
    refine p.identified i ?_
    rcases List.mem_append.mp hi with h | h
    · exact (p.partition.ready_live i h).1
    · exact List.mem_singleton.mp h ▸ p.partition.running_live.1
  nodup := by
    rw [List.nodup_append_comm]
    exact List.nodup_cons.mpr ⟨p.partition.running_not_ready, p.partition.ready_nodup⟩
  running := p.running
  alive i hi := by
    rcases List.mem_append.mp hi with h | h
    · exact (p.partition.ready_live i h).1
    · exact List.mem_singleton.mp h ▸ p.partition.running_live.1
  ready := p.ready

/-- The contexts after a switch: the suspended thread's is new, the others were settled before. -/
theorem switched_contexts {parked : Status} {frame : Frame} {next : Nat} (p : Seated lost s)
    (sw : Switched parked frame next s t) (settled : frame.settled = true) (i : Nat) :
    ∀ f ∈ (t.totalList i).threadInfo, f.settled = true := by
  by_cases h : i = s.currentThread
  · subst h
    rw [sw.saved]
    simpa [settled] using p.stack
  · rw [sw.contexts i h]
    exact p.contexts i

theorem yield {frame : Frame} {next : Nat} (p : Seated lost s) (sw : Switched .ready frame next s t)
    (settled : frame.settled = true) (member : next ∈ s.readyList ++ [s.currentThread])
    (ready : t.readyList = (s.readyList ++ [s.currentThread]).erase next)
    (queues : t.queues = s.queues) : Seated lost t := by
  have view : t.scheduler = { s.scheduler with
      running := next
      ready := (s.scheduler.ready ++ [s.scheduler.running]).erase next } := by
    simp only [scheduler, sw.current, ready, queues]
  have part := p.partition.yield member
  have contexts := p.switched_contexts sw settled
  refine ⟨?_, ?_, fun i hi => ?_, fun q i hi => ?_, fun i hi => ?_, fun q hq => ?_, contexts, ?_,
    fun i astray => (sw.exist i).trans (p.astray i astray)⟩
  · simpa only [view, sw.exist] using part
  · simp [State.current, sw.current, sw.status]
  · have other : i ≠ next := part.ne_running_of_ready (ready ▸ hi)
    rw [sw.status, if_neg other]
    split_ifs with h
    · rfl
    · have := List.mem_of_mem_erase (ready ▸ hi)
      exact p.ready i (by simpa [h] using this)
  · have hi : i ∈ s.scheduler.waiting q := by simpa only [scheduler, queues] using hi
    have other : i ≠ next := part.ne_running_of_waiting hi
    have parked : i ≠ s.currentThread := p.partition.ne_running_of_waiting hi
    rw [sw.status, if_neg other, if_neg parked]
    exact p.waiting q i hi
  · rw [sw.exist] at hi
    rw [sw.threadID]
    exact p.identified i hi
  · rw [sw.nextQueue] at hq
    rw [queues]
    exact p.fresh q hq
  · rw [sw.callStack]
    exact contexts next

theorem sleep {frame : Frame} {q next : Nat} {rest nodes : List Nat} (p : Seated lost s)
    (sw : Switched .suspended frame next s t) (settled : frame.settled = true)
    (head : s.readyList = next :: rest) (queue : s.queues q = some nodes)
    (ready : t.readyList = rest)
    (queues : t.queues = Function.update s.queues q (some (nodes ++ [s.currentThread]))) :
    Seated lost t := by
  have waiting : t.scheduler.waiting = Function.update s.scheduler.waiting q
      (s.scheduler.waiting q ++ [s.scheduler.running]) := by
    funext r
    simp only [scheduler, queues, Function.update_apply]
    split_ifs <;> simp [queue]
  have view : t.scheduler = ⟨next, rest, Function.update s.scheduler.waiting q
      (s.scheduler.waiting q ++ [s.scheduler.running])⟩ := by
    rw [← waiting]
    simp only [scheduler, sw.current, ready]
  have part := p.partition.block (q := q) head
  have contexts := p.switched_contexts sw settled
  have alloc : q < s.nextQueue := by
    by_contra h
    simp [p.fresh q (by omega)] at queue
  refine ⟨?_, ?_, fun i hi => ?_, fun r i hi => ?_, fun i hi => ?_, fun r hr => ?_, contexts, ?_,
    fun i astray => (sw.exist i).trans (p.astray i astray)⟩
  · simpa only [view, sw.exist] using part
  · simp [State.current, sw.current, sw.status]
  · have other : i ≠ next := part.ne_running_of_ready (ready ▸ hi)
    have was : i ∈ s.readyList := by simp [head, ← ready, hi]
    have parked : i ≠ s.currentThread := p.partition.ne_running_of_ready was
    rw [sw.status, if_neg other, if_neg parked]
    exact p.ready i was
  · rw [waiting] at hi
    have other : i ≠ next := part.ne_running_of_waiting hi
    rw [sw.status, if_neg other]
    split_ifs with h
    · rfl
    · refine p.waiting r i ?_
      by_cases rq : r = q
      · subst rq
        simpa [scheduler, h] using hi
      · simpa [rq] using hi
  · rw [sw.exist] at hi
    rw [sw.threadID]
    exact p.identified i hi
  · rw [sw.nextQueue] at hr
    rw [queues, Function.update_of_ne (by omega)]
    exact p.fresh r hr
  · rw [sw.callStack]
    exact contexts next

theorem free {q : Nat} (p : Seated lost s) (empty : s.scheduler.waiting q = []) :
    Seated lost (s.setQueue q none) where
  partition := by
    have view : (s.setQueue q none).scheduler = s.scheduler := by
      have : (s.setQueue q none).scheduler.waiting = s.scheduler.waiting := by
        funext r
        by_cases rq : r = q
        · subst rq
          rw [empty]
          simp [scheduler, setQueue]
        · simp [scheduler, setQueue, rq]
      simp only [scheduler] at this ⊢
      rw [this]
      rfl
    rw [view]
    exact p.partition
  running := p.running
  ready := p.ready
  waiting r i hi := by
    refine p.waiting r i ?_
    by_cases rq : r = q
    · subst rq
      simp [scheduler, setQueue] at hi
    · simpa [scheduler, setQueue, rq] using hi
  identified := p.identified
  fresh r hr := by
    simp only [setQueue, Function.update_apply]
    split_ifs
    · rfl
    · exact p.fresh r hr
  contexts := p.contexts
  stack := p.stack
  astray := p.astray

theorem queueCreate (p : Seated lost s) : Seated lost (waitQueueCreate s).1 where
  partition := by
    have view : (waitQueueCreate s).1.scheduler = s.scheduler := by
      have : (waitQueueCreate s).1.scheduler.waiting = s.scheduler.waiting := by
        funext r
        by_cases rq : r = s.nextQueue
        · subst rq
          simp [scheduler, waitQueueCreate, setQueue, p.fresh]
        · simp [scheduler, waitQueueCreate, setQueue, rq]
      simp only [scheduler] at this ⊢
      rw [this]
      rfl
    rw [view]
    exact p.partition
  running := p.running
  ready := p.ready
  waiting r i hi := by
    refine p.waiting r i ?_
    by_cases rq : r = s.nextQueue
    · subst rq
      simp [scheduler, waitQueueCreate, setQueue] at hi
    · simpa [scheduler, waitQueueCreate, setQueue, rq] using hi
  identified := p.identified
  fresh r hr := by
    simp only [waitQueueCreate, setQueue] at hr ⊢
    rw [Function.update_of_ne (by omega)]
    exact p.fresh r (by omega)
  contexts := p.contexts
  stack := p.stack
  astray := p.astray

theorem wake {q head : Nat} {rest : List Nat} (p : Seated lost s) (queue : s.queues q = some (head :: rest)) :
    Seated lost (wakeThread (s.setQueue q (some rest)) head) := by
  have waits : s.scheduler.waiting q = head :: rest := by simp [scheduler, queue]
  have headWaits : head ∈ s.scheduler.waiting q := by simp [waits]
  have headID := p.identified head (p.partition.waiting_live q head headWaits).1
  have waiting : (wakeThread (s.setQueue q (some rest)) head).scheduler.waiting =
      Function.update s.scheduler.waiting q rest := by
    funext r
    simp only [scheduler, wakeThread, pushbackRL, modifyThread_queues, setQueue,
      Function.update_apply]
    split_ifs <;> simp
  have view : (wakeThread (s.setQueue q (some rest)) head).scheduler = { s.scheduler with
      ready := s.scheduler.ready ++ [head]
      waiting := Function.update s.scheduler.waiting q rest } := by
    rw [← waiting]
    simp only [scheduler, wakeThread, pushbackRL, setQueue, headID]
    rfl
  have part := p.partition.wake waits
  have thread (i : Nat) : (wakeThread (s.setQueue q (some rest)) head).totalList i =
      { s.totalList i with status := if i = head then .ready else (s.totalList i).status } := by
    have : ((s.setQueue q (some rest)).totalList head).threadID = head := headID
    simp only [wakeThread, pushbackRL, this, thread_modifyThread]
    split_ifs with h
    · simp [h, setQueue, headID]
    · rfl
  refine ⟨?_, ?_, fun i hi => ?_, fun r i hi => ?_, fun i hi => ?_, fun r hr => ?_, fun i => ?_,
    p.stack, fun i astray => ?_⟩
  · simpa only [view, thread] using part
  · have other : s.currentThread ≠ head := (p.partition.ne_running_of_waiting headWaits).symm
    change ((wakeThread (s.setQueue q (some rest)) head).totalList s.currentThread).status = _
    rw [thread, if_neg other]
    exact p.running
  · have hi : i ∈ s.readyList ++ [head] := by
      have : i ∈ (wakeThread (s.setQueue q (some rest)) head).scheduler.ready := hi
      rw [view] at this
      exact this
    rw [thread]
    split_ifs with h
    · rfl
    · exact p.ready i (by simpa [h] using hi)
  · rw [waiting] at hi
    have was : i ∈ s.scheduler.waiting r := by
      by_cases rq : r = q
      · subst rq
        rw [waits]
        exact List.mem_cons_of_mem _ (by simpa using hi)
      · simpa [rq] using hi
    have other : i ≠ head := by
      rintro rfl
      refine part.ready_not_waiting i ?_ r hi
      simp
    rw [thread, if_neg other]
    exact p.waiting r i was
  · rw [thread] at hi ⊢
    exact p.identified i hi
  · have alloc : q < s.nextQueue := by
      by_contra h
      simp [p.fresh q (by omega)] at queue
    have hr : s.nextQueue ≤ r := hr
    change Function.update s.queues q (some rest) r = none
    rw [Function.update_of_ne (by omega)]
    exact p.fresh r hr
  · rw [thread]
    exact p.contexts i
  · rw [thread]
    exact p.astray i astray

theorem wakeAll {q : Nat} {nodes : List Nat} (p : Seated lost s) (queue : s.queues q = some nodes) :
    Seated lost (nodes.foldl wakeThread (s.setQueue q (some []))) := by
  induction nodes generalizing s with
  | nil =>
      have same : s.setQueue q (some []) = s := by
        simp only [setQueue, ← queue, Function.update_eq_self]
      rw [List.foldl_nil, same]
      exact p
  | cons head rest ih =>
      -- waking the first of them and emptying the queue commute
      have moved : wakeThread (s.setQueue q (some [])) head =
          (wakeThread (s.setQueue q (some rest)) head).setQueue q (some []) := by
        simp [wakeThread, setQueue, pushbackRL, modifyThread]
      rw [List.foldl_cons, moved]
      refine ih (p.wake queue) ?_
      simp [wakeThread, setQueue, pushbackRL]

theorem result (p : Seated lost s) (v : Tid) : Seated lost (s.result v) :=
  p.congr ⟨rfl, rfl, rfl, rfl, fun _ => rfl, fun _ => rfl, fun _ => rfl, fun _ => rfl⟩ p.stack

theorem interruptsSet (p : Seated lost s) (enabled : Bool) : Seated lost (s.interruptsSet enabled) :=
  p.congr ⟨rfl, rfl, rfl, rfl, fun _ => rfl, fun _ => rfl, fun _ => rfl, fun _ => rfl⟩ p.stack

theorem push {f : Frame} (p : Seated lost s) (settled : f.settled = true) : Seated lost (s.push f) :=
  p.congr ⟨rfl, rfl, rfl, rfl, fun _ => rfl, fun _ => rfl, fun _ => rfl, fun _ => rfl⟩ (by
    simpa [State.push, settled] using p.stack)

theorem setLock (p : Seated lost s) (l : Nat) (lock : Option Lock) : Seated lost (s.setLock l lock) :=
  p.congr ⟨rfl, rfl, rfl, rfl, fun _ => rfl, fun _ => rfl, fun _ => rfl, fun _ => rfl⟩ p.stack

theorem setWqt (p : Seated lost s) (i : Nat) (wqt : Option Nat) :
    Seated lost (s.modifyThread i fun t => { t with wqt }) := by
  have field (j : Nat) : (s.modifyThread i fun t => { t with wqt }).totalList j =
      { s.totalList j with wqt := if j = i then wqt else (s.totalList j).wqt } := by
    rw [thread_modifyThread]
    split_ifs with h <;> simp [h]
  refine p.congr ⟨rfl, rfl, rfl, rfl, fun j => ?_, fun j => ?_, fun j => ?_, fun j => ?_⟩ p.stack
  all_goals rw [field]

theorem threadYield {want : Tid} (p : Seated lost s) (run : threadYield want s = .ok t) : Seated lost t := by
  rcases threadYield_cases p.yieldable run with rfl | rfl |
    ⟨next, iter, chosen, switched, ready, queues, -⟩
  · exact p.result _
  · exact p.result _
  · exact p.yield switched rfl chosen.mem ready queues

theorem threadSleep {queue : Option Nat} (p : Seated lost s) (run : threadSleep queue s = .ok t) :
    Seated lost t := by
  cases queue with
  | none =>
      rw [← Except.ok.inj run]
      exact (p.interruptsSet _).result _
  | some q =>
      rcases threadSleep_cases p.yieldable run with ⟨-, rfl⟩ |
        ⟨next, rest, nodes, head, found, switched, ready, queues, -⟩
      · exact p.result _
      · exact p.sleep switched rfl head found ready queues

theorem threadWakeup {queue : Option Nat} {all : Int} (p : Seated lost s)
    (run : threadWakeup queue all s = .ok t) : Seated lost t := by
  rcases threadWakeup_cases run with ⟨v, rfl⟩ | ⟨q, head, rest, -, found, rfl | rfl⟩
  · exact p.result v
  · exact (p.wake found).result _
  · exact (p.wakeAll found).result _

theorem releaseWaiters (p : Seated lost s) (run : releaseWaiters s = .ok t) : Seated lost t := by
  cases h : s.current.wqt with
  | none =>
      simp only [Threads.releaseWaiters, h, Except.ok.injEq] at run
      exact run ▸ p
  | some q =>
      simp only [Threads.releaseWaiters, h, Result.bind_eq_ok, Result.pure_eq_ok, Except.ok.injEq] at run
      obtain ⟨u, woken, rfl⟩ := run
      have empty : u.scheduler.waiting q = [] := by
        simp [scheduler, threadWakeup_all woken]
      exact ((p.threadWakeup woken).free empty).setWqt _ _

end Seated

end OperatingSystem.Threads
