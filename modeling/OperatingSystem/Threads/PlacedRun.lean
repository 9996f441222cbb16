import OperatingSystem.Threads.Places

namespace OperatingSystem.Threads

open State

theorem freeSlot_spec {s : State} {fuel first id : Nat} (found : freeSlot s fuel first = some id) :
    first ≤ id ∧ id < first + fuel ∧ (s.totalList id).exist = false := by
  induction fuel generalizing first with
  | zero => simp [freeSlot] at found
  | succ fuel ih =>
      unfold freeSlot at found
      split_ifs at found with taken
      · obtain ⟨above, below, free⟩ := ih found
        exact ⟨by omega, by omega, free⟩
      · obtain rfl := Option.some.inj found
        exact ⟨by omega, by omega, by simpa using taken⟩

def Thread.started (t : Thread) (id : Nat) (stack : Option Nat) : Thread :=
  { t with
    threadID := id, exist := true, status := .ready, nextThreadID := -1, preThreadID := -1
    wqt := none, threadInfo := [.stub], stack }

theorem freeSlot_congr {s t : State} (exist : ∀ i, (t.totalList i).exist = (s.totalList i).exist) (fuel first : Nat) :
    freeSlot t fuel first = freeSlot s fuel first := by
  induction fuel generalizing first with
  | zero => rfl
  | succ fuel ih => simp only [freeSlot, exist, ih]

theorem threadCreate_eq (stackOk : Bool) (s : State) :
    (freeSlot s (THREAD_MAX_THREADS - 1) 1 = none ∧ threadCreate stackOk s = (s.interruptsSet false).result THREAD_NOMORE) ∨
    ∃ id, freeSlot s (THREAD_MAX_THREADS - 1) 1 = some id ∧
      threadCreate stackOk s = { s with
        totalList := Function.update s.totalList id
          ((s.totalList id).started id (if stackOk then some s.nextStack else none))
        readyList := if stackOk then s.readyList ++ [id] else s.readyList
        nextStack := if stackOk then s.nextStack + 1 else s.nextStack
        interrupts := if stackOk then s.interrupts else false
        rax := if stackOk then id else THREAD_NOMEMORY } := by
  have same := freeSlot_congr (s := s) (t := s.interruptsSet false) (fun _ => rfl) (THREAD_MAX_THREADS - 1) 1
  cases found : freeSlot s (THREAD_MAX_THREADS - 1) 1 with
  | none => exact Or.inl ⟨rfl, by simp only [threadCreate, same, found]⟩
  | some id =>
      refine Or.inr ⟨id, rfl, ?_⟩
      simp only [threadCreate, same, found]
      cases stackOk <;> simp [modifyThread, pushbackRL, State.result, interruptsSet, Thread.started]

theorem threadCreate_started (stackOk : Bool) (s : State) :
    threadCreate stackOk s = (s.interruptsSet false).result THREAD_NOMORE ∨
    ∃ id stack nextStack interrupts rax, (s.totalList id).exist = false ∧ id < THREAD_MAX_THREADS ∧
      threadCreate stackOk s = { s with
        totalList := Function.update s.totalList id ((s.totalList id).started id stack)
        readyList := if stackOk then s.readyList ++ [id] else s.readyList
        nextStack, interrupts, rax } := by
  rcases threadCreate_eq stackOk s with ⟨-, refused⟩ | ⟨id, found, started⟩
  · exact Or.inl refused
  · obtain ⟨-, below, free⟩ := freeSlot_spec found
    exact Or.inr ⟨id, _, _, _, _, free, below, started⟩

namespace Seated

variable {lost : Nat → Prop} {s t : State}

theorem start {id : Nat} {stack : Option Nat} {lost' : Nat → Prop} {nodes : List Nat} (p : Seated lost s)
    (free : (s.totalList id).exist = false)
    (table : t.totalList = Function.update s.totalList id ((s.totalList id).started id stack))
    (lists : t.scheduler = { s.scheduler with ready := nodes }) (fewer : ∀ i ∈ nodes, i ∈ s.readyList ∨ i = id)
    (fresh : ∀ q, t.nextQueue ≤ q → t.queues q = none) (callStack : t.callStack = s.callStack)
    (astray : ∀ i, lost' i → lost i ∨ i = id)
    (part : t.scheduler.Partition fun i => (t.totalList i).exist = true ∧ ¬ lost' i) : Seated lost' t := by
  obtain ⟨notRunning, -, notWaiting⟩ := p.partition.not_live (i := id) (by simp [free])
  have current : t.currentThread = s.currentThread := congrArg Scheduler.running lists
  have ready : t.readyList = nodes := congrArg Scheduler.ready lists
  have waiting (q : Nat) : t.scheduler.waiting q = s.scheduler.waiting q := by rw [lists]
  have old {i : Nat} (other : i ≠ id) : t.totalList i = s.totalList i := by
    rw [table, Function.update_of_ne other]
  have new : t.totalList id = (s.totalList id).started id stack := by rw [table, Function.update_self]
  refine ⟨part, ?_, fun i hi => ?_, fun q i hi => ?_, fun i hi => ?_, fresh, fun i => ?_, callStack ▸ p.stack,
    fun i lost => ?_⟩
  · have other : s.currentThread ≠ id := Ne.symm notRunning
    rw [State.current, current, old other]
    exact p.running
  · by_cases same : i = id
    · rw [same, new]
      rfl
    · rw [old same]
      exact p.ready i ((fewer i (ready ▸ hi)).resolve_right same)
  · rw [waiting] at hi
    have other : i ≠ id := fun same => notWaiting q (same ▸ hi)
    rw [old other]
    exact p.waiting q i hi
  · by_cases same : i = id
    · rw [same, new]
      rfl
    · rw [old same] at hi ⊢
      exact p.identified i hi
  · by_cases same : i = id
    · rw [same, new]
      simp [Thread.started, Frame.settled]
    · rw [old same]
      exact p.contexts i
  · by_cases same : i = id
    · rw [same, new]
      rfl
    · rw [old same]
      exact p.astray i ((astray i lost).resolve_right same)

theorem threadCreate (p : Seated lost s) (stackOk : Bool) :
    ∃ lost', (stackOk = true → lost' = lost) ∧ Seated lost' (threadCreate stackOk s) := by
  rcases threadCreate_started stackOk s with eq | ⟨id, stack, nextStack, interrupts, rax, free, -, eq⟩
  · rw [eq]
    exact ⟨lost, fun _ => rfl, (p.interruptsSet false).result THREAD_NOMORE⟩
  rw [eq]
  have kept : ¬ lost id := fun astray => by simp [p.astray id astray] at free
  have exist (i : Nat) : (Function.update s.totalList id ((s.totalList id).started id stack) i).exist = true ↔
      (s.totalList i).exist = true ∨ i = id := by
    rw [Function.update_apply]
    split_ifs with same <;> simp [same, Thread.started]
  cases stackOk with
  | true =>
      refine ⟨lost, fun _ => rfl, p.start free rfl rfl (fun i hi => by simpa using hi) p.fresh rfl
        (fun i => Or.inl) ?_⟩
      have part := p.partition.spawn (i := id) (by simp [free])
      refine (Scheduler.Partition.congr ?_).mp part
      intro i
      change _ ↔ (Function.update s.totalList id ((s.totalList id).started id stack) i).exist = true ∧ ¬ lost i
      rw [exist]
      by_cases same : i = id <;> simp [same, kept]
  | false =>
      refine ⟨fun i => lost i ∨ i = id, by simp, p.start free rfl rfl (fun i hi => Or.inl hi) p.fresh rfl
        (fun _ astray => astray) ?_⟩
      refine (Scheduler.Partition.congr ?_).mp p.partition
      intro i
      change _ ↔ (Function.update s.totalList id ((s.totalList id).started id stack) i).exist = true ∧ ¬ (lost i ∨ i = id)
      rw [exist]
      by_cases same : i = id <;> simp [same, free]

theorem exit {frame : Frame} {next : Nat} {rest : List Nat} (p : Seated lost s) (u : State)
    (marked : u.totalList = (s.modifyThread s.currentThread fun t =>
      { t with exist := false, status := .exited }).totalList)
    (current : u.currentThread = s.currentThread) (queue : u.nextQueue = s.nextQueue)
    (stack : ∀ f ∈ u.callStack, f.settled = true)
    (sw : Switched .exited frame next u t) (settled : frame.settled = true)
    (head : s.readyList = next :: rest) (ready : t.readyList = rest)
    (queues : t.queues = s.queues) : Seated lost t := by
  have thread (i : Nat) : u.totalList i = if i = s.currentThread then
      { s.totalList i with exist := false, status := .exited } else s.totalList i := by
    rw [marked, thread_modifyThread]
    split_ifs with h <;> simp [h]
  have exist (i : Nat) : (t.totalList i).exist = true ↔
      (s.totalList i).exist = true ∧ i ≠ s.scheduler.running := by
    change _ ↔ _ ∧ i ≠ s.currentThread
    rw [sw.exist, thread]
    split_ifs with h <;> simp [h]
  have view : t.scheduler = { s.scheduler with running := next, ready := rest } := by
    simp only [scheduler, sw.current, ready, queues]
  have part := p.partition.exit head
  have status (i : Nat) (h : i ≠ next) (h' : i ≠ s.currentThread) :
      (t.totalList i).status = (s.totalList i).status := by
    rw [sw.status, if_neg h, current, if_neg h', thread, if_neg h']
  have contexts (i : Nat) : ∀ f ∈ (t.totalList i).threadInfo, f.settled = true := by
    by_cases h : i = s.currentThread
    · rw [h, ← current, sw.saved]
      simpa [settled] using stack
    · rw [sw.contexts i (current ▸ h), thread, if_neg h]
      exact p.contexts i
  refine ⟨?_, ?_, fun i hi => ?_, fun q i hi => ?_, fun i hi => ?_, fun q hq => ?_, contexts, ?_, fun i astray => ?_⟩
  · simp only [exist, view]
    refine (Scheduler.Partition.congr fun i => ?_).mp part
    rw [and_right_comm]
  · simp [State.current, sw.current, sw.status]
  · have other : i ≠ next := part.ne_running_of_ready (ready ▸ hi)
    have was : i ∈ s.readyList := by simp [head, ← ready, hi]
    rw [status i other (p.partition.ne_running_of_ready was)]
    exact p.ready i was
  · have hi : i ∈ s.scheduler.waiting q := by simpa only [scheduler, queues] using hi
    have other : i ≠ next := part.ne_running_of_waiting hi
    rw [status i other (p.partition.ne_running_of_waiting hi)]
    exact p.waiting q i hi
  · have other : i ≠ s.currentThread := ((exist i).mp hi).2
    rw [sw.threadID, thread, if_neg other]
    exact p.identified i ((exist i).mp hi).1
  · rw [sw.nextQueue, queue] at hq
    rw [queues]
    exact p.fresh q hq
  · rw [sw.callStack]
    exact contexts next
  · refine (exist i).mpr ⟨p.astray i astray, ?_⟩
    rintro rfl
    exact p.partition.running_live.2 astray

def markExited (enabled : Bool) (u : State) : State :=
  (u.modifyThread u.currentThread fun t => { t with exist := false, status := .exited }).push
    (.exitReturn enabled)

theorem threadExit_cases (p : Seated lost s) (run : threadExit s = .ok t) :
    ∃ u, Threads.releaseWaiters (s.interruptsSet false) = .ok u ∧ Seated lost u ∧
      (t = (u.interruptsSet s.interrupts).result THREAD_NONE ∨
      ∃ next rest, u.readyList = next :: rest ∧
        Switched .exited (.afterYield u.interrupts true next none) next (markExited s.interrupts u) t ∧
        t.readyList = rest ∧ t.queues = u.queues ∧ t.interrupts = false) := by
  simp only [Threads.threadExit, Result.bind_eq_ok] at run
  obtain ⟨u, released, run⟩ := run
  have placed := (p.interruptsSet false).releaseWaiters released
  refine ⟨u, released, placed, ?_⟩
  cases head : u.readyList with
  | nil =>
      simp only [head, Result.pure_eq_ok, Except.ok.injEq] at run
      exact Or.inl run.symm
  | cons next rest =>
      simp only [head] at run
      have nextReady : next ∈ u.readyList := by simp [head]
      have other : next ≠ u.currentThread := placed.partition.ne_running_of_ready nextReady
      have same : (markExited s.interrupts u).totalList next = u.totalList next := by
        simp [markExited, State.push, other]
      have gone : (markExited s.interrupts u).current.status = .exited := by
        simp [markExited, State.push, State.current]
      have alive := (placed.partition.ready_live next nextReady).1
      obtain ⟨switched, ready, queues, interrupts⟩ := threadYield_exited (s := markExited s.interrupts u) gone head
        ((congrArg _ same).trans (placed.identified next alive))
        ((congrArg _ same).trans (placed.ready next nextReady)) ((congrArg _ same).trans alive) run
      exact Or.inr ⟨next, rest, rfl, switched, ready, queues, interrupts⟩

theorem threadExit (p : Seated lost s) (run : threadExit s = .ok t) : Seated lost t := by
  obtain ⟨u, -, placed, rfl | ⟨next, rest, head, switched, ready, queues, -⟩⟩ :=
    p.threadExit_cases run
  · exact (placed.interruptsSet _).result _
  · refine placed.exit (markExited s.interrupts u) rfl rfl rfl ?_ switched rfl head ready queues
    simpa [markExited, State.push, Frame.settled] using placed.stack

theorem acquireLoop {l : Nat} {enabled : Bool} (p : Seated lost s)
    (run : acquireLoop l enabled s = .ok t) : Seated lost t := by
  simp only [Threads.acquireLoop, Result.bind_eq_ok] at run
  obtain ⟨lock, -, run⟩ := run
  split_ifs at run
  · rw [← Except.ok.inj run]
    exact (p.setLock _ _).interruptsSet _
  · exact (p.push rfl).threadSleep run

theorem lockAcquire {l : Nat} (p : Seated lost s) (run : lockAcquire l s = .ok t) : Seated lost t := by
  simp only [Threads.lockAcquire, Result.bind_eq_ok, Result.pure_eq_ok, Except.ok.injEq] at run
  obtain ⟨lock, -, rfl⟩ := run
  exact (p.interruptsSet false).push rfl

theorem lockRelease {l : Nat} (p : Seated lost s) (run : lockRelease l s = .ok t) : Seated lost t := by
  simp only [Threads.lockRelease, Result.bind_eq_ok] at run
  obtain ⟨lock, -, run⟩ := run
  split_ifs at run
  · rw [← Except.ok.inj run]
    exact p
  · exact (p.setLock _ _).threadWakeup run

theorem cvWait {c l : Nat} (p : Seated lost s) (run : cvWait c l s = .ok t) : Seated lost t := by
  simp only [Threads.cvWait, Result.bind_eq_ok] at run
  obtain ⟨wqC, -, u, released, lock, -, run⟩ := run
  have placed : Seated lost (u.push (.cvReacquire l s.interrupts)) :=
    ((p.interruptsSet false).lockRelease released).push rfl
  split_ifs at run
  · exact placed.threadSleep run
  · rw [← Except.ok.inj run]
    exact placed

theorem cvWake {all : Int} {c l : Nat} (p : Seated lost s) (run : cvWake all c l s = .ok t) :
    Seated lost t := by
  simp only [Threads.cvWake, Result.bind_eq_ok] at run
  obtain ⟨wqC, -, lock, -, run⟩ := run
  split_ifs at run
  · exact p.threadWakeup run
  · rw [← Except.ok.inj run]
    exact p

theorem lockCreate (p : Seated lost s) : Seated lost (lockCreate s) :=
  p.queueCreate.congr
    ⟨rfl, rfl, rfl, rfl, fun _ => rfl, fun _ => rfl, fun _ => rfl, fun _ => rfl⟩ p.stack

theorem cvCreate (p : Seated lost s) : Seated lost (cvCreate s) :=
  p.queueCreate.congr
    ⟨rfl, rfl, rfl, rfl, fun _ => rfl, fun _ => rfl, fun _ => rfl, fun _ => rfl⟩ p.stack

theorem threadWait {tid : Tid} (p : Seated lost s) (run : threadWait tid s = .ok t) : Seated lost t := by
  simp only [Threads.threadWait] at run
  split_ifs at run
  · rw [← Except.ok.inj run]
    exact (p.interruptsSet _).result _
  · rw [← Except.ok.inj run]
    exact (p.interruptsSet _).result _
  · have waits : Seated lost ((s.interruptsSet false).push (.waitReturn s.interrupts tid)) :=
      (p.interruptsSet false).push rfl
    split at run
    · exact waits.threadSleep run
    · exact (waits.queueCreate.setWqt _ _).threadSleep run

end Seated

/-- The runs of the invariant: no thread is killed, no queue that holds a thread is destroyed,
stacks are found and `thread_wait` stays inside the table. -/
def Admissible (s : State) : Action → Prop
  | .call (.kill _) => False
  | .call (.create stackOk) => stackOk = true
  | .call (.wait tid) => tid < THREAD_MAX_THREADS
  | .call (.queueDestroy q) => s.scheduler.waiting q = []
  | .call (.lockDestroy l) =>
      ∀ lock ∈ s.locks l, lock.avaliable = true → s.scheduler.waiting lock.wqL = []
  | _ => True

instance (s : State) : DecidablePred (Admissible s)
  | .call (.kill _) => .isFalse id
  | .call (.create stackOk) => inferInstanceAs (Decidable (stackOk = true))
  | .call (.wait tid) => inferInstanceAs (Decidable (tid < THREAD_MAX_THREADS))
  | .call (.queueDestroy q) => inferInstanceAs (Decidable (s.scheduler.waiting q = []))
  | .call (.lockDestroy l) => inferInstanceAs (Decidable
      (∀ lock ∈ s.locks l, lock.avaliable = true → s.scheduler.waiting lock.wqL = []))
  | .call (.yield _) | .call .exit | .call .queueCreate | .call (.sleep _) | .call (.wakeup _ _)
  | .call .lockCreate | .call (.lockAcquire _) | .call (.lockRelease _) | .call .cvCreate
  | .call (.cvDestroy _) | .call (.cvWait _ _) | .call (.cvSignal _ _) | .call (.cvBroadcast _ _)
  | .call (.interruptsSet _) | .resume | .interrupt => .isTrue trivial

def KillFree : Action → Prop
  | .call (.kill _) => False
  | _ => True

theorem Admissible.killFree {s : State} {action : Action} (admissible : Admissible s action) : KillFree action := by
  cases action with
  | call call => cases call <;> trivial
  | resume | interrupt => trivial

namespace Seated

variable {lost : Nat → Prop} {s t : State}

theorem cvDestroy {c : Nat} (p : Seated lost s) (run : cvDestroy c s = .ok t) : Seated lost t := by
  simp only [Threads.cvDestroy, Result.bind_eq_ok, Result.pure_eq_ok, Except.ok.injEq] at run
  obtain ⟨wqC, -, nodes, found, rfl⟩ := run
  have forget (u : State) (p : Seated lost u) :
      Seated lost { u with cvs := Function.update u.cvs c none } :=
    p.congr ⟨rfl, rfl, rfl, rfl, fun _ => rfl, fun _ => rfl, fun _ => rfl, fun _ => rfl⟩ p.stack
  have found : s.queues wqC = some nodes := queueNodes_eq_ok.mp found
  split_ifs with empty
  · exact forget _ (p.free (by simp [scheduler, found, empty]))
  · exact forget _ p

theorem drop (p : Seated lost s) (q : Nat) :
    ∃ lost', (s.scheduler.waiting q = [] → lost' = lost) ∧ Seated lost' (s.setQueue q none) := by
  refine ⟨fun i => lost i ∨ i ∈ s.scheduler.waiting q, fun empty => by simp [empty], ?_⟩
  have waiting : (s.setQueue q none).scheduler.waiting = Function.update s.scheduler.waiting q [] := by
    funext r
    simp only [scheduler, setQueue, Function.update_apply]
    split_ifs <;> rfl
  have member {r i : Nat} (hi : i ∈ (s.setQueue q none).scheduler.waiting r) : i ∈ s.scheduler.waiting r := by
    rw [waiting] at hi
    by_cases rq : r = q
    · simp [rq] at hi
    · simpa [rq] using hi
  refine ⟨?_, p.running, p.ready, fun r i hi => p.waiting r i (member hi), p.identified, fun r hr => ?_, p.contexts,
    p.stack, fun i astray => ?_⟩
  · have view : (s.setQueue q none).scheduler =
        { s.scheduler with waiting := Function.update s.scheduler.waiting q [] } := by
      rw [← waiting]
      rfl
    rw [view]
    convert p.partition.discard q using 2 with i
    rw [not_or, and_assoc]
    rfl
  · simp only [setQueue, Function.update_apply]
    split_ifs
    · rfl
    · exact p.fresh r hr
  · rcases astray with astray | waits
    · exact p.astray i astray
    · exact (p.partition.waiting_live q i waits).1

theorem lockDestroy {l : Nat} (p : Seated lost s) (run : lockDestroy l s = .ok t) :
    ∃ lost', (Admissible s (.call (.lockDestroy l)) → lost' = lost) ∧ Seated lost' t := by
  obtain ⟨lock, found, run⟩ := Result.bind_eq_ok.mp run
  have found : s.locks l = some lock := lockAt_eq_ok.mp found
  split_ifs at run with free
  · obtain ⟨lost', same, seated⟩ := p.drop lock.wqL
    exact ⟨lost', fun empty => same (empty lock found free), Except.ok.inj run ▸ seated.setLock _ _⟩
  · exact ⟨lost, fun _ => rfl, Except.ok.inj run ▸ p⟩

theorem enter {call : Call} (p : Seated lost s) (killFree : KillFree (.call call)) (run : enter call s = .ok t) :
    ∃ lost', (Admissible s (.call call) → lost' = lost) ∧ Seated lost' t := by
  have same (seated : Seated lost t) : ∃ lost', (Admissible s (.call call) → lost' = lost) ∧ Seated lost' t :=
    ⟨lost, fun _ => rfl, seated⟩
  cases call with
  | create stackOk => exact Except.ok.inj run ▸ p.threadCreate stackOk
  | yield tid => exact same (p.threadYield run)
  | exit => exact same (p.threadExit run)
  | kill tid => exact killFree.elim
  | queueCreate => exact same (Except.ok.inj run ▸ p.queueCreate.result _)
  | queueDestroy q =>
      obtain ⟨nodes, -, run⟩ := Result.bind_eq_ok.mp run
      exact Except.ok.inj run ▸ p.drop q
  | sleep queue => exact same (p.threadSleep run)
  | wakeup queue all => exact same (p.threadWakeup run)
  | wait tid => exact same (p.threadWait run)
  | lockCreate => exact same (Except.ok.inj run ▸ p.lockCreate)
  | lockDestroy l => exact p.lockDestroy run
  | lockAcquire l => exact same (p.lockAcquire run)
  | lockRelease l => exact same (p.lockRelease run)
  | cvCreate => exact same (Except.ok.inj run ▸ p.cvCreate)
  | cvDestroy c => exact same (p.cvDestroy run)
  | cvWait c l => exact same (p.cvWait run)
  | cvSignal c l => exact same (p.cvWake run)
  | cvBroadcast c l => exact same (p.cvWake run)
  | interruptsSet enabled => exact same (Except.ok.inj run ▸ p.interruptsSet _)

theorem continueFrame {frame : Frame} (p : Seated lost s) (settled : frame.settled = true)
    (run : continueFrame frame s = .ok t) : Seated lost t := by
  cases frame with
  | exitCall => simp [Frame.settled] at settled
  | afterExit caller next => simp [Frame.settled] at settled
  | afterYield enabled called next iter =>
      obtain rfl : called = true := settled
      rw [← Except.ok.inj run]
      exact (p.interruptsSet _).push rfl
  | acquireLoop l enabled => exact p.acquireLoop run
  | cvReacquire l enabled => exact (p.push rfl).lockAcquire run
  | user call =>
      rw [← Except.ok.inj run]
      exact p
  | yieldResult =>
      rw [← Except.ok.inj run]
      exact p.result _
  | stub | cvReturn enabled =>
      rw [← Except.ok.inj run]
      exact p.interruptsSet _
  | handler _ | exitReturn enabled | afterSleep enabled next | waitReturn enabled tid =>
      rw [← Except.ok.inj run]
      exact (p.interruptsSet _).result _

theorem pop {frame : Frame} {frames : List Frame} (p : Seated lost s) (stack : s.callStack = frame :: frames) :
    frame.settled = true ∧ Seated lost { s with callStack := frames } := by
  have settled := p.stack
  rw [stack] at settled
  refine ⟨settled frame List.mem_cons_self, p.congr ?_ fun f member => settled f (List.mem_cons_of_mem frame member)⟩
  exact ⟨rfl, rfl, rfl, rfl, fun _ => rfl, fun _ => rfl, fun _ => rfl, fun _ => rfl⟩

theorem step {action : Action} {event : Option Event} (p : Seated lost s) (killFree : KillFree action)
    (run : step s action = .ok (t, event)) : ∃ lost', (Admissible s action → lost' = lost) ∧ Seated lost' t := by
  rcases step_cases run with ⟨call, rfl, -, entered, -⟩ | ⟨frame, frames, -, stack, continued, -⟩ | ⟨-, -, yielded, -⟩
  · obtain ⟨lost', same, seated⟩ := (p.push rfl).enter killFree entered
    refine ⟨lost', fun admissible => same ?_, seated⟩
    cases call <;> exact admissible
  · obtain ⟨settled, popped⟩ := p.pop stack
    exact ⟨lost, fun _ => rfl, popped.continueFrame settled continued⟩
  · exact ⟨lost, fun _ => rfl, ((p.interruptsSet false).push rfl).threadYield yielded⟩

theorem placed (p : Seated (fun _ => False) s) : Placed s :=
  ⟨by simpa using p.partition, p.running, p.ready, p.waiting, p.identified, p.fresh, p.contexts, p.stack⟩

end Seated

namespace Placed

variable {s t : State}

theorem seated (p : Placed s) : Seated (fun _ => False) s :=
  ⟨by simpa using p.partition, p.running, p.ready, p.waiting, p.identified, p.fresh, p.contexts, p.stack,
    fun _ => False.elim⟩

theorem step {action : Action} {event : Option Event} (p : Placed s) (allowed : Admissible s action)
    (run : step s action = .ok (t, event)) : Placed t := by
  obtain ⟨lost', same, seated⟩ := p.seated.step allowed.killFree run
  obtain rfl := same allowed
  exact seated.placed

theorem init : Placed threadInit := by
  have live (i : Nat) : (threadInit.totalList i).exist = true ↔ i = 0 := by
    by_cases h : i = 0 <;> simp [threadInit, h, Thread.zero]
  refine ⟨?_, rfl, by simp [threadInit], by simp [scheduler, threadInit], fun i hi => ?_,
    fun _ _ => rfl, fun i => ?_, by simp [threadInit]⟩
  · simp only [live]
    constructor <;> simp [scheduler, threadInit]
  · rw [(live i).mp hi]
    rfl
  · by_cases h : i = 0 <;> simp [threadInit, h, Thread.zero]

theorem of_run {allowed : State → Action → Prop} {labels : List Label}
    (admissible : ∀ s action, allowed s action → Admissible s action)
    (run : Runs allowed labels s) : Placed s :=
  run.invariant Placed init fun s label _ taken p => p.step (admissible s label.1 taken.1) taken.2

end Placed

theorem Seated.of_run {allowed : State → Action → Prop} {labels : List Label} {s : State}
    (killFree : ∀ s action, allowed s action → KillFree action) (run : Runs allowed labels s) :
    ∃ lost, Seated lost s := by
  refine run.invariant (fun s => ∃ lost, Seated lost s) ⟨_, Placed.init.seated⟩ ?_
  rintro s label t taken ⟨lost, seated⟩
  obtain ⟨lost', -, seated'⟩ := seated.step (killFree s label.1 taken.1) taken.2
  exact ⟨lost', seated'⟩

structure OnePlaceEach (s : State) : Prop where
  live : ∀ i, (s.totalList i).exist = true →
    (i = s.currentThread ∧ (s.totalList i).status = .running ∧
      s.readyList.count i = 0 ∧ ∀ q, (s.scheduler.waiting q).count i = 0) ∨
    (i ≠ s.currentThread ∧ (s.totalList i).status = .ready ∧
      s.readyList.count i = 1 ∧ ∀ q, (s.scheduler.waiting q).count i = 0) ∨
    (i ≠ s.currentThread ∧ (s.totalList i).status = .suspended ∧ s.readyList.count i = 0 ∧
      ∃ q, (s.scheduler.waiting q).count i = 1 ∧ ∀ r, r ≠ q → (s.scheduler.waiting r).count i = 0)
  gone : ∀ i, (s.totalList i).exist = false →
    i ≠ s.currentThread ∧ i ∉ s.readyList ∧ ∀ q, i ∉ s.scheduler.waiting q
  distinct : ∀ i j, (s.totalList i).exist = true → (s.totalList j).exist = true →
    (s.totalList i).threadID = (s.totalList j).threadID → i = j

theorem Placed.onePlaceEach {s : State} (p : Placed s) : OnePlaceEach s where
  live i hi := by
    rcases p.partition.once hi with ⟨rfl, ready, waiting⟩ | ⟨other, ready, waiting⟩ |
      ⟨other, ready, q, once, rest⟩
    · exact Or.inl ⟨rfl, p.running, ready, waiting⟩
    · have member : i ∈ s.readyList := List.count_pos_iff.mp (by
        change 0 < s.scheduler.ready.count i
        omega)
      exact Or.inr (Or.inl ⟨other, p.ready i member, ready, waiting⟩)
    · have member : i ∈ s.scheduler.waiting q := List.count_pos_iff.mp (by omega)
      exact Or.inr (Or.inr ⟨other, p.waiting q i member, ready, q, once, rest⟩)
  gone i hi := p.partition.not_live (by simp [hi])
  distinct i j hi hj same := by
    rwa [p.identified i hi, p.identified j hj] at same

/-- Each live thread is in exactly one place, after every step of every run. -/
theorem one_place_each {labels : List Label} {s : State} (run : Runs Admissible labels s) :
    OnePlaceEach s :=
  (Placed.of_run (fun _ _ allowed => allowed) run).onePlaceEach

theorem one_place_each_created :
    ∃ labels s, Runs Admissible labels s ∧ s.readyList = [1] ∧ OnePlaceEach s := by
  have created : Runs Admissible [(.call (.create true), some (.called 0 (.create true)))]
      (threadCreate true (threadInit.push (.user (.create true)))) := .single ⟨rfl, rfl⟩
  exact ⟨_, _, created, rfl, one_place_each created⟩

end OperatingSystem.Threads
