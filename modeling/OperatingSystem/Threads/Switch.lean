import OperatingSystem.Library.Result
import OperatingSystem.Threads.Machine

namespace OperatingSystem.Threads

open State

structure Switched (parked : Status) (frame : Frame) (next : Nat) (s t : State) : Prop where
  current : t.currentThread = next
  callStack : t.callStack = (t.totalList next).threadInfo
  saved : (t.totalList s.currentThread).threadInfo = frame :: s.callStack
  contexts : ∀ i, i ≠ s.currentThread → (t.totalList i).threadInfo = (s.totalList i).threadInfo
  status : ∀ i, (t.totalList i).status =
    if i = next then .running else if i = s.currentThread then parked else (s.totalList i).status
  exist : ∀ i, (t.totalList i).exist = (s.totalList i).exist
  threadID : ∀ i, (t.totalList i).threadID = (s.totalList i).threadID
  wqt : ∀ i, (t.totalList i).wqt = (s.totalList i).wqt
  nextQueue : t.nextQueue = s.nextQueue
  locks : t.locks = s.locks
  nextLock : t.nextLock = s.nextLock
  cvs : t.cvs = s.cvs

/-- The identifiers the code compares are the indices of the nodes it compares them on. -/
def Identified (s : State) (nodes : List Nat) : Prop :=
  ∀ i ∈ nodes, (s.totalList i).threadID = i

theorem Identified.inj {s : State} {nodes : List Nat} (ids : Identified s nodes) {i j : Nat}
    (hi : i ∈ nodes) (hj : j ∈ nodes) : s.threadIDOf i = s.threadIDOf j ↔ i = j := by
  rw [threadIDOf, threadIDOf, ids i hi, ids j hj, Int.natCast_inj]

theorem erase_getLast {nodes : List Nat} (nodup : nodes.Nodup) (nonempty : nodes ≠ []) :
    nodes.erase (nodes.getLast nonempty) = nodes.dropLast := by
  have last : nodes.getLast nonempty ∉ nodes.dropLast := by
    have split := List.dropLast_append_getLast nonempty
    rw [← split, List.nodup_append] at nodup
    exact fun h => nodup.2.2 _ h _ (by simp) rfl
  calc nodes.erase (nodes.getLast nonempty)
      = (nodes.dropLast ++ [nodes.getLast nonempty]).erase (nodes.getLast nonempty) := by
        rw [List.dropLast_append_getLast]
    _ = nodes.dropLast := by rw [List.erase_append_right _ last]; simp

/-- On distinct identifiers the three cases of `deleteNode` all delete the node asked for. -/
theorem deleteNode_eq {s : State} {target : Nat} {node : Option Nat}
    (ids : Identified s s.readyList) (nodup : s.readyList.Nodup) (member : target ∈ s.readyList)
    (located : node = some target ∨ s.readyList.head? = some target ∨
      s.readyList.getLast? = some target) :
    deleteNode s target node = .ok { s with readyList := s.readyList.erase target } := by
  unfold deleteNode
  cases h : s.readyList with
  | nil => simp [h] at member
  | cons head rest =>
      have headMem : head ∈ s.readyList := by simp [h]
      have lastMem : (head :: rest).getLast (by simp) ∈ s.readyList := by rw [h]; exact List.getLast_mem _
      simp only [ids.inj member headMem, ids.inj member lastMem]
      by_cases atHead : target = head
      · simp [atHead]
      · by_cases atTail : target = (head :: rest).getLast (by simp)
        · have nodup' : (head :: rest).Nodup := h ▸ nodup
          rw [if_neg atHead, if_pos atTail, atTail, erase_getLast nodup' (by simp)]
        · have isNode : node = some target := by
            rcases located with eq | eq | eq
            · exact eq
            · simp [h, Ne.symm atHead] at eq
            · rw [h, List.getLast?_eq_some_getLast (by simp), Option.some.injEq] at eq
              exact absurd eq.symm atTail
          rw [h] at member
          simp [atHead, atTail, isNode, member]

theorem sweepStacks_thread (s : State) (i : Nat) :
    ∃ stack, (sweepStacks s).totalList i = { s.totalList i with stack } := by
  simp only [sweepStacks]
  split
  · exact ⟨none, rfl⟩
  · exact ⟨(s.totalList i).stack, rfl⟩

@[simp] theorem sweepStacks_exist (s : State) (i : Nat) :
    ((sweepStacks s).totalList i).exist = (s.totalList i).exist := by
  obtain ⟨stack, eq⟩ := sweepStacks_thread s i
  rw [eq]

@[simp] theorem sweepStacks_status (s : State) (i : Nat) :
    ((sweepStacks s).totalList i).status = (s.totalList i).status := by
  obtain ⟨stack, eq⟩ := sweepStacks_thread s i
  rw [eq]

@[simp] theorem sweepStacks_threadID (s : State) (i : Nat) :
    ((sweepStacks s).totalList i).threadID = (s.totalList i).threadID := by
  obtain ⟨stack, eq⟩ := sweepStacks_thread s i
  rw [eq]

@[simp] theorem sweepStacks_threadInfo (s : State) (i : Nat) :
    ((sweepStacks s).totalList i).threadInfo = (s.totalList i).threadInfo := by
  obtain ⟨stack, eq⟩ := sweepStacks_thread s i
  rw [eq]

@[simp] theorem sweepStacks_wqt (s : State) (i : Nat) :
    ((sweepStacks s).totalList i).wqt = (s.totalList i).wqt := by
  obtain ⟨stack, eq⟩ := sweepStacks_thread s i
  rw [eq]

structure Yieldable (s : State) : Prop where
  identified : Identified s (s.readyList ++ [s.currentThread])
  nodup : (s.readyList ++ [s.currentThread]).Nodup
  running : s.current.status = .running
  alive : ∀ i ∈ s.readyList ++ [s.currentThread], (s.totalList i).exist = true
  ready : ∀ i ∈ s.readyList, (s.totalList i).status = .ready

theorem requeueCaller_eq {s : State} (next : Nat) (running : s.current.status = .running)
    (alive : s.current.exist = true) :
    ∃ table, requeueCaller next s =
        { s with totalList := table, readyList := s.readyList ++ [s.currentThread] } ∧
      ∀ i, ∃ nextThreadID preThreadID, table i = { s.totalList i with
        status := if i = s.currentThread then .ready else (s.totalList i).status
        nextThreadID, preThreadID } := by
  simp only [current] at running alive
  refine ⟨(requeueCaller next s).totalList, ?_, fun i => ?_⟩
  · simp [requeueCaller, current, running, alive, pushbackRL, modifyThread]
  · simp only [requeueCaller, current, running, alive, modifyThread_currentThread,
      thread_modifyThread, if_true, pushbackRL]
    split_ifs <;> first | exact ⟨_, _, rfl⟩ | (subst_vars; simp_all)

theorem switchTo_thread (caller next : Nat) (s : State)
    (id : (s.totalList next).threadID = next) (i : Nat) :
    (switchTo caller next s).totalList i = { s.totalList i with
      status := if i = next then .running else (s.totalList i).status
      threadInfo := if i = caller then markCalled (s.totalList i).threadInfo
        else (s.totalList i).threadInfo } := by
  simp only [switchTo, id, thread_modifyThread]
  split_ifs <;> simp_all

theorem yieldBlock_switched {s : State} {next : Nat} {iter : Option Nat} (enabled : Bool)
    (y : Yieldable s) (member : next ∈ s.readyList ++ [s.currentThread])
    (located : iter = some next ∨ s.readyList.head? = some next ∨ next = s.currentThread) :
    ∃ t, yieldBlock enabled next iter s = .ok t ∧
      Switched .ready (.afterYield enabled true next iter) next s t ∧
      t.readyList = (s.readyList ++ [s.currentThread]).erase next ∧ t.queues = s.queues ∧
      t.interrupts = s.interrupts := by
  obtain ⟨ids, nodup, running, alive, ready⟩ := y
  let saved := s.modifyThread s.currentThread fun t =>
    { t with threadInfo := .afterYield enabled false next iter :: s.callStack }
  have savedThread (i : Nat) : saved.totalList i = { s.totalList i with
      threadInfo := if i = s.currentThread then .afterYield enabled false next iter :: s.callStack
        else (s.totalList i).threadInfo } := by
    simp only [saved, thread_modifyThread]
    split_ifs with h <;> simp [h]
  obtain ⟨table, requeued, fields⟩ := requeueCaller_eq (s := saved) next
    (by simpa [current, savedThread, saved] using running)
    (by simpa [current, savedThread, saved] using alive s.currentThread (by simp))
  have exist (i : Nat) : (table i).exist = (s.totalList i).exist := by
    obtain ⟨n, p, eq⟩ := fields i
    rw [eq, savedThread]
  have threadID (i : Nat) : (table i).threadID = (s.totalList i).threadID := by
    obtain ⟨n, p, eq⟩ := fields i
    rw [eq, savedThread]
  have nextReady : (table next).status = .ready := by
    obtain ⟨n, p, eq⟩ := fields next
    rw [eq, savedThread]
    rcases List.mem_append.mp member with h | h
    · simpa using fun _ => ready next h
    · simp [saved, List.mem_singleton.mp h]
  let requeue : State := { saved with
    totalList := table
    readyList := s.readyList ++ [s.currentThread] }
  have unlinked : deleteNode requeue next iter =
      .ok { requeue with readyList := (s.readyList ++ [s.currentThread]).erase next } := by
    refine deleteNode_eq (fun i hi => (threadID i).trans (ids i hi)) nodup member ?_
    rcases located with h | h | h
    · exact Or.inl h
    · exact Or.inr (Or.inl (by simp [requeue, List.head?_append, h]))
    · exact Or.inr (Or.inr (by simp [requeue, h]))
  have nextID : (table next).threadID = next := (threadID next).trans (ids next member)
  refine ⟨switchTo s.currentThread next { requeue with
    readyList := (s.readyList ++ [s.currentThread]).erase next }, ?_, ?_, rfl, rfl, rfl⟩
  · have block : requeueCaller next saved = requeue := requeued
    have nextAlive : (requeue.totalList next).exist = true := (exist next).trans (alive next member)
    simp only [yieldBlock]
    rw [show s.modifyThread s.currentThread _ = saved from rfl, block]
    simp [nextAlive, show (requeue.totalList next).status = .ready from nextReady, unlinked]
  · have final := switchTo_thread s.currentThread next
      { requeue with readyList := (s.readyList ++ [s.currentThread]).erase next } nextID
    refine ⟨nextID, rfl, ?_, fun i other => ?_, fun i => ?_, fun i => ?_, fun i => ?_, fun i => ?_,
      rfl, rfl, rfl, rfl⟩
    · obtain ⟨n, p, eq⟩ := fields s.currentThread
      rw [final]
      simp [requeue, eq, savedThread, markCalled]
    · obtain ⟨n, p, eq⟩ := fields i
      rw [final]
      simp [requeue, eq, savedThread, other]
    · obtain ⟨n, p, eq⟩ := fields i
      rw [final]
      simp only [requeue, eq, savedThread]
      rfl
    · rw [final]
      exact exist i
    · rw [final]
      exact threadID i
    · obtain ⟨n, p, eq⟩ := fields i
      rw [final]
      simp only [requeue, eq, savedThread]

theorem Switched.of_swept {parked : Status} {frame : Frame} {next : Nat} {s t : State}
    (switched : Switched parked frame next (sweepStacks (s.interruptsSet false)) t) :
    Switched parked frame next s t where
  current := switched.current
  callStack := switched.callStack
  saved := switched.saved
  contexts i other := (switched.contexts i other).trans (by simp [interruptsSet])
  status i := (switched.status i).trans (by rw [sweepStacks_status]; rfl)
  exist i := (switched.exist i).trans (by simp [interruptsSet])
  threadID i := (switched.threadID i).trans (by simp [interruptsSet])
  wqt i := (switched.wqt i).trans (by simp [interruptsSet])
  nextQueue := switched.nextQueue
  locks := switched.locks
  nextLock := switched.nextLock
  cvs := switched.cvs

theorem Yieldable.swept {s : State} (y : Yieldable s) :
    Yieldable (sweepStacks (s.interruptsSet false)) where
  identified i hi := by simpa [interruptsSet] using y.identified i hi
  nodup := y.nodup
  running := by rw [current, sweepStacks_status]; exact y.running
  alive i hi := by simpa [interruptsSet] using y.alive i hi
  ready i hi := by simpa [interruptsSet] using y.ready i hi

def Chosen (want : Tid) (s : State) (next : Nat) : Prop :=
  (want = THREAD_ANY ∧ s.readyList.head? = some next) ∨
  ((want = THREAD_SELF ∨ want = s.currentThread) ∧ next = s.currentThread) ∨
  (want = s.threadIDOf next ∧ next ∈ s.readyList)

theorem Chosen.mem {want : Tid} {s : State} {next : Nat} (chosen : Chosen want s next) :
    next ∈ s.readyList ++ [s.currentThread] := by
  rcases chosen with ⟨-, h⟩ | ⟨-, h⟩ | ⟨-, h⟩
  · exact List.mem_append_left _ (List.mem_of_mem_head? h)
  · simp [h]
  · exact List.mem_append_left _ h

/-- `thread_yield` either returns at once with an error and changes nothing else, or switches. -/
theorem threadYield_cases {want : Tid} {s t : State} (y : Yieldable s)
    (run : threadYield want s = .ok t) :
    t = s.result THREAD_NONE ∨ t = s.result THREAD_INVALID ∨
    ∃ next iter, Chosen want s next ∧
      Switched .ready (.afterYield s.interrupts true next iter) next s t ∧
      t.readyList = (s.readyList ++ [s.currentThread]).erase next ∧ t.queues = s.queues ∧ t.interrupts = false := by
  have switches (next : Nat) (iter : Option Nat) (chosen : Chosen want s next)
      (located : iter = some next ∨ s.readyList.head? = some next ∨ next = s.currentThread)
      (run : yieldBlock s.interrupts next iter (sweepStacks (s.interruptsSet false)) = .ok t) :
      ∃ next iter, Chosen want s next ∧
        Switched .ready (.afterYield s.interrupts true next iter) next s t ∧
        t.readyList = (s.readyList ++ [s.currentThread]).erase next ∧ t.queues = s.queues ∧ t.interrupts = false := by
    obtain ⟨u, block, switched, ready, queues, interrupts⟩ :=
      yieldBlock_switched s.interrupts y.swept chosen.mem located
    obtain rfl : u = t := Except.ok.inj (block.symm.trans run)
    exact ⟨next, iter, chosen, switched.of_swept, ready, queues, interrupts⟩
  simp only [threadYield] at run
  split_ifs at run with any self
  · cases ready : s.readyList with
    | nil =>
        simp only [show (s.interruptsSet false).readyList = [] from ready, Except.ok.injEq] at run
        exact Or.inl run.symm
    | cons head rest =>
        simp only [show (s.interruptsSet false).readyList = head :: rest from ready] at run
        rw [← ready]
        exact Or.inr (Or.inr (switches head none (Or.inl ⟨any, by simp [ready]⟩)
          (Or.inr (Or.inl (by simp [ready]))) run))
  · exact Or.inr (Or.inr (switches s.currentThread none (Or.inr (Or.inl ⟨self, rfl⟩))
      (Or.inr (Or.inr rfl)) run))
  · cases found : (s.interruptsSet false).findNode (s.interruptsSet false).readyList want with
    | none =>
        simp only [found, Except.ok.injEq] at run
        exact Or.inr (Or.inl run.symm)
    | some node =>
        simp only [found] at run
        have named : (s.interruptsSet false).threadIDOf node = want := by
          simpa using List.find?_some found
        exact Or.inr (Or.inr (switches node (some node)
          (Or.inr (Or.inr ⟨named.symm, List.mem_of_find?_eq_some found⟩)) (Or.inl rfl) run))

/-- `thread_sleep` on a queue either finds nobody to switch to and changes nothing else, or
queues the caller and resumes the first ready thread. -/
theorem threadSleep_cases {q : Nat} {s t : State} (y : Yieldable s)
    (run : threadSleep (some q) s = .ok t) :
    (s.readyList = [] ∧ t = s.result THREAD_NONE) ∨
    ∃ next rest nodes, s.readyList = next :: rest ∧ s.queues q = some nodes ∧
      Switched .suspended (.afterSleep s.interrupts next) next s t ∧ t.readyList = rest ∧
      t.queues = Function.update s.queues q (some (nodes ++ [s.currentThread])) ∧ t.interrupts = false := by
  obtain ⟨ids, nodup, -, -, -⟩ := y
  cases ready : s.readyList with
  | nil =>
      simp only [threadSleep, show (s.interruptsSet false).readyList = [] from ready,
        Except.ok.injEq] at run
      exact Or.inl ⟨rfl, run.symm⟩
  | cons next rest =>
      have other : next ≠ s.currentThread := by
        rw [ready] at nodup
        rintro rfl
        simp at nodup
      have nextID : (s.totalList next).threadID = next := ids next (by simp [ready])
      simp only [threadSleep, show (s.interruptsSet false).readyList = next :: rest from ready,
        Result.bind_eq_ok, Result.pure_eq_ok, Except.ok.injEq] at run
      obtain ⟨nodes, queue, rfl⟩ := run
      have queue : s.queues q = some nodes := by
        simp only [queueNodes, interruptsSet, modifyThread_queues] at queue
        cases h : s.queues q with
        | none => simp [h] at queue
        | some _ => simpa [h] using queue
      refine Or.inr ⟨next, rest, nodes, rfl, queue, ?_, rfl, rfl, rfl⟩
      refine ⟨?_, rfl, ?_, fun i h => ?_, fun i => ?_, fun i => ?_, fun i => ?_, fun i => ?_,
        rfl, rfl, rfl, rfl⟩
      · simp [nextID, other, interruptsSet, setQueue]
      all_goals simp only [interruptsSet, setQueue, thread_modifyThread]
      · simp [other.symm]
      all_goals (split_ifs <;> simp_all)

theorem yieldBlock_exited {s : State} {next : Nat} {rest : List Nat} (enabled : Bool)
    (exited : s.current.status = .exited) (head : s.readyList = next :: rest)
    (nextID : (s.totalList next).threadID = next)
    (ready : (s.totalList next).status = .ready) (alive : (s.totalList next).exist = true) :
    ∃ t, yieldBlock enabled next none s = .ok t ∧
      Switched .exited (.afterYield enabled true next none) next s t ∧
      t.readyList = rest ∧ t.queues = s.queues ∧ t.interrupts = s.interrupts := by
  let saved := s.modifyThread s.currentThread fun t =>
    { t with threadInfo := .afterYield enabled false next none :: s.callStack }
  have savedThread (i : Nat) : saved.totalList i = { s.totalList i with
      threadInfo := if i = s.currentThread then .afterYield enabled false next none :: s.callStack
        else (s.totalList i).threadInfo } := by
    simp only [saved, thread_modifyThread]
    split_ifs with h <;> simp [h]
  have block : requeueCaller next saved = saved := by
    have : saved.current.status = .exited := by simpa [current, saved, savedThread] using exited
    simp [requeueCaller, this]
  have unlinked : deleteNode saved next none = .ok { saved with readyList := rest } := by
    have : saved.readyList = next :: rest := head
    simp [deleteNode, this]
  refine ⟨switchTo s.currentThread next { saved with readyList := rest }, ?_, ?_, rfl, rfl, rfl⟩
  · simp only [yieldBlock]
    rw [show s.modifyThread s.currentThread _ = saved from rfl, block]
    simp [savedThread, alive, ready, unlinked]
  · have final := switchTo_thread s.currentThread next { saved with readyList := rest }
      (by simpa [savedThread] using nextID)
    refine ⟨by simpa [switchTo, savedThread] using nextID, rfl, ?_, fun i h => ?_, fun i => ?_,
      fun i => ?_, fun i => ?_, fun i => ?_, rfl, rfl, rfl, rfl⟩
    all_goals rw [final]
    all_goals simp only [savedThread]
    · simp [markCalled]
    · simp [h]
    · split_ifs with h h' <;> simp_all [current]

theorem threadYield_exited {s t : State} {next : Nat} {rest : List Nat}
    (exited : s.current.status = .exited) (head : s.readyList = next :: rest)
    (nextID : (s.totalList next).threadID = next) (ready : (s.totalList next).status = .ready)
    (alive : (s.totalList next).exist = true) (run : threadYield THREAD_ANY s = .ok t) :
    Switched .exited (.afterYield s.interrupts true next none) next s t ∧
      t.readyList = rest ∧ t.queues = s.queues ∧ t.interrupts = false := by
  let swept := sweepStacks (s.interruptsSet false)
  have same : swept.current.status = s.current.status := sweepStacks_status _ _
  obtain ⟨u, block, switched, readyList, queues, interrupts⟩ :=
    yieldBlock_exited (s := swept) s.interrupts (same.trans exited) head
      ((sweepStacks_threadID _ _).trans nextID) ((sweepStacks_status _ _).trans ready)
      ((sweepStacks_exist _ _).trans alive)
  simp only [threadYield, if_true, show (s.interruptsSet false).readyList = next :: rest from head]
    at run
  obtain rfl : u = t := Except.ok.inj (block.symm.trans run)
  exact ⟨switched.of_swept, readyList, queues, interrupts⟩

structure Woken (s t : State) : Prop where
  current : t.currentThread = s.currentThread
  callStack : t.callStack = s.callStack
  threads : ∀ i, t.totalList i = { s.totalList i with status := (t.totalList i).status }
  nextQueue : t.nextQueue = s.nextQueue
  locks : t.locks = s.locks
  nextLock : t.nextLock = s.nextLock
  cvs : t.cvs = s.cvs

theorem Woken.refl (s : State) : Woken s s := ⟨rfl, rfl, fun _ => rfl, rfl, rfl, rfl, rfl⟩

theorem Woken.trans {s t u : State} (first : Woken s t) (second : Woken t u) : Woken s u where
  current := second.current.trans first.current
  callStack := second.callStack.trans first.callStack
  threads i := by
    rw [second.threads, first.threads]
  nextQueue := second.nextQueue.trans first.nextQueue
  locks := second.locks.trans first.locks
  nextLock := second.nextLock.trans first.nextLock
  cvs := second.cvs.trans first.cvs

theorem Woken.push {s t : State} (woken : Woken s t) (f : Frame) : Woken (s.push f) (t.push f) where
  current := woken.current
  callStack := congrArg (f :: ·) woken.callStack
  threads := woken.threads
  nextQueue := woken.nextQueue
  locks := woken.locks
  nextLock := woken.nextLock
  cvs := woken.cvs

theorem Woken.wakeThread (s : State) (node : Nat) : Woken s (wakeThread s node) := by
  refine ⟨rfl, rfl, fun i => ?_, rfl, rfl, rfl, rfl⟩
  simp only [Threads.wakeThread, pushbackRL, thread_modifyThread]
  split_ifs with h <;> simp [h]

theorem Woken.wakeAll (s : State) (nodes : List Nat) : Woken s (nodes.foldl Threads.wakeThread s) := by
  induction nodes generalizing s with
  | nil => exact .refl s
  | cons head rest ih => exact (Woken.wakeThread s head).trans (ih _)

theorem threadWakeup_cases {queue : Option Nat} {all : Int} {s t : State}
    (run : threadWakeup queue all s = .ok t) :
    (∃ v, t = s.result v) ∨
    ∃ q head rest, queue = some q ∧ s.queues q = some (head :: rest) ∧
      (t = (wakeThread (s.setQueue q (some rest)) head).result 1 ∨
        t = ((head :: rest).foldl wakeThread (s.setQueue q (some []))).result (rest.length + 1)) := by
  cases queue with
  | none => exact Or.inl ⟨0, (Except.ok.inj run).symm⟩
  | some q =>
      cases h : s.queues q with
      | none => simp [threadWakeup, queueNodes, h, bind, Except.bind] at run
      | some nodes =>
          cases nodes with
          | nil =>
              simp only [threadWakeup, queueNodes, h] at run
              exact Or.inl ⟨0, (Except.ok.inj run).symm⟩
          | cons head rest =>
              simp only [threadWakeup, queueNodes, h] at run
              change (if _ then _ else _) = _ at run
              split_ifs at run
              · exact Or.inr ⟨q, head, rest, rfl, h, Or.inl (Except.ok.inj run).symm⟩
              · exact Or.inr ⟨q, head, rest, rfl, h, Or.inr (Except.ok.inj run).symm⟩
              · exact Or.inl ⟨0, (Except.ok.inj run).symm⟩

theorem threadWakeup_woken {queue : Option Nat} {all : Int} {s t : State}
    (run : threadWakeup queue all s = .ok t) : Woken s t := by
  have result (u : State) (v : Tid) : Woken u (u.result v) :=
    ⟨rfl, rfl, fun _ => rfl, rfl, rfl, rfl, rfl⟩
  have unlink (q : Nat) (nodes : List Nat) : Woken s (s.setQueue q (some nodes)) :=
    ⟨rfl, rfl, fun _ => rfl, rfl, rfl, rfl, rfl⟩
  rcases threadWakeup_cases run with ⟨v, rfl⟩ | ⟨q, head, rest, -, -, rfl | rfl⟩
  · exact result s v
  · exact ((unlink q rest).trans (.wakeThread _ head)).trans (result _ _)
  · exact ((unlink q []).trans (.wakeAll _ (head :: rest))).trans (result _ _)

theorem threadWakeup_all {q : Nat} {s t : State} (run : threadWakeup (some q) 1 s = .ok t) :
    t.queues q = some [] := by
  have folded (nodes : List Nat) (u : State) : (nodes.foldl wakeThread u).queues = u.queues := by
    induction nodes generalizing u with
    | nil => rfl
    | cons head rest ih => exact ih _
  cases h : s.queues q with
  | none => simp [threadWakeup, queueNodes, h, bind, Except.bind] at run
  | some nodes =>
      cases nodes with
      | nil =>
          simp only [threadWakeup, queueNodes, h] at run
          rw [← Except.ok.inj run]
          exact h
      | cons head rest =>
          simp only [threadWakeup, queueNodes, h] at run
          rw [← Except.ok.inj run]
          change ((head :: rest).foldl wakeThread (s.setQueue q (some []))).queues q = _
          rw [folded]
          simp [setQueue]

end OperatingSystem.Threads
