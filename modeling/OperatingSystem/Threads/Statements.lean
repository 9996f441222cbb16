import OperatingSystem.Library.Prog
import OperatingSystem.Threads.Contexts

/-!
# `thread.c` statement by statement

The functions of the package as programs over the statements they are made of, with every `interrupts_set` they call.
Run on the memory of the package they are the functions the machine steps with; what is new is that every state in
between is visible.
-/

namespace OperatingSystem.Threads

open State

structure Quiet (s t : State) : Prop where
  readyList : t.readyList = s.readyList
  queues : t.queues = s.queues
  interrupts : t.interrupts = s.interrupts

structure Store where
  apply : State → State
  quiet : ∀ s, Quiet s (apply s)

inductive Statement
  | interruptsSet (enabled : Bool)
  | read
  | store (f : Store)
  | newQueue
  | freeQueue (queue : Nat)
  | pushbackRL (thread : Nat)
  | deleteNode (target : Nat) (node : Option Nat)
  | pushbackWQ (queue thread : Nat)
  | deleteNodewq (queue : Nat)

namespace Statement

/-- `interrupts_set` returns the old flag, `deleteNodewq` the identifier in the node it frees. -/
def Result : Statement → Type
  | interruptsSet _ => Bool
  | read => State
  | newQueue | deleteNodewq _ => Nat
  | store _ | freeQueue _ | pushbackRL _ | deleteNode _ _ | pushbackWQ _ _ => Unit

/-- `deleteNodewq` is only called for the head of its queue. -/
def exec : Prog.Handler Result Fault State
  | interruptsSet enabled, s => .ok (s.interrupts, s.interruptsSet enabled)
  | read, s => .ok (s, s)
  | store f, s => .ok ((), f.apply s)
  | newQueue, s => let (s, q) := waitQueueCreate s; .ok (q, s)
  | freeQueue q, s => .ok ((), s.setQueue q none)
  | pushbackRL i, s => .ok ((), s.pushbackRL i)
  | deleteNode target node, s => Threads.deleteNode s target node >>= fun t => .ok ((), t)
  | pushbackWQ q i, s => s.queueNodes q >>= fun nodes => .ok ((), s.setQueue q (some (nodes ++ [i])))
  | deleteNodewq q, s => s.queueNodes q >>= fun nodes =>
      match nodes with
      | [] => .error .nullDereference
      | head :: rest => .ok ((s.totalList head).threadID, s.setQueue q (some rest))

/-- The statements that change the ready list or a wait queue that others may use. -/
def edits : Statement → Bool
  | freeQueue _ | pushbackRL _ | deleteNode _ _ | pushbackWQ _ _ | deleteNodewq _ => true
  | interruptsSet _ | read | store _ | newQueue => false

theorem exec_lists {statement : Statement} {s t : State} {r : statement.Result} (reads : statement.edits = false)
    (run : exec statement s = .ok (r, t)) :
    t.readyList = s.readyList ∧ ∀ q, q ≠ s.nextQueue → t.queues q = s.queues q := by
  cases statement with
  | store f =>
      obtain ⟨-, rfl⟩ := Prod.mk.inj (Except.ok.inj run)
      exact ⟨(f.quiet s).readyList, fun q _ => congrFun (f.quiet s).queues q⟩
  | newQueue =>
      obtain ⟨-, rfl⟩ := Prod.mk.inj (Except.ok.inj run)
      exact ⟨rfl, fun q other => Function.update_of_ne other _ _⟩
  | interruptsSet enabled =>
      obtain ⟨-, rfl⟩ := Prod.mk.inj (Except.ok.inj run)
      exact ⟨rfl, fun _ _ => rfl⟩
  | read =>
      obtain ⟨-, rfl⟩ := Prod.mk.inj (Except.ok.inj run)
      exact ⟨rfl, fun _ _ => rfl⟩
  | freeQueue _ | pushbackRL _ | deleteNode _ _ | pushbackWQ _ _ | deleteNodewq _ => cases reads

def Masked (statement : Statement) (s : State) : Prop := statement.edits = true → s.interrupts = false

end Statement

abbrev Program := Prog Statement.Result Fault

namespace Source

def run (statement : Statement) : Program statement.Result := Prog.call statement

def interruptsSet (enabled : Bool) : Program Bool := run (.interruptsSet enabled)
def read : Program State := run .read
def store (f : State → State) (quiet : ∀ s, Quiet s (f s) := by exact fun _ => ⟨rfl, rfl, rfl⟩) : Program Unit :=
  run (.store ⟨f, quiet⟩)
def newQueue : Program Nat := run .newQueue
def freeQueue (queue : Nat) : Program Unit := run (.freeQueue queue)
def pushbackRL (thread : Nat) : Program Unit := run (.pushbackRL thread)
def deleteNode (target : Nat) (node : Option Nat) : Program Unit := run (.deleteNode target node)
def pushbackWQ (queue thread : Nat) : Program Unit := run (.pushbackWQ queue thread)
def deleteNodewq (queue : Nat) : Program Nat := run (.deleteNodewq queue)
def result (v : Tid) : Program Unit := store (·.result v)
def modifyThread (i : Nat) (f : Thread → Thread) : Program Unit := store (·.modifyThread i f)
def push (frame : Frame) : Program Unit := store (·.push frame)

def fn2 : Program Unit := do
  let enabled ← interruptsSet false
  let _ ← interruptsSet enabled
  pure ()

def leave (enabled : Bool) (v : Tid) : Program Unit := do
  let _ ← interruptsSet enabled
  result v

def threadCreate (stackOk : Bool) : Program Unit := do
  let enabled ← interruptsSet false
  fn2
  let s ← read
  match freeSlot s (THREAD_MAX_THREADS - 1) 1 with
  | none => result THREAD_NOMORE
  | some id => do
      modifyThread id fun t => { t with
        threadID := id, exist := true, status := .ready, nextThreadID := -1, preThreadID := -1,
        wqt := none, threadInfo := [.stub] }
      if stackOk then do
        store fun s => { s.modifyThread id (fun t => { t with stack := some s.nextStack }) with
          nextStack := s.nextStack + 1 }
        pushbackRL id
        leave enabled id
      else do
        modifyThread id fun t => { t with stack := none }
        result THREAD_NOMEMORY

def requeueCaller (next : Nat) : Program Unit := do
  let s ← read
  let caller := s.currentThread
  if s.current.status = .running then do
    modifyThread caller fun t => { t with status := .ready }
    let s ← read
    if s.current.exist then do
      let id := (s.totalList next).threadID
      modifyThread caller fun t => { t with nextThreadID := id }
      modifyThread id fun t => { t with preThreadID := caller }
      pushbackRL caller
    else pure ()
  else pure ()

def unlinkNext (next : Nat) (iter : Option Nat) : Program Unit := do
  let s ← read
  if (s.totalList next).threadID = 0 ∧ (s.totalList next).status = .exited then pure ()
  else deleteNode next iter

def switchTo (caller next : Nat) : Program Unit := do
  let s ← read
  let id := (s.totalList next).threadID
  store ({ · with currentThread := id })
  modifyThread id fun t => { t with status := .running }
  modifyThread caller fun t => { t with threadInfo := markCalled t.threadInfo }
  store fun s => { s with callStack := (s.totalList next).threadInfo }

def yieldBlock (enabled : Bool) (next : Nat) (iter : Option Nat) : Program Unit := do
  let s ← read
  let caller := s.currentThread
  modifyThread caller fun t => { t with threadInfo := .afterYield enabled false next iter :: s.callStack }
  requeueCaller next
  let s ← read
  if !(s.totalList next).exist then do
    store ({ · with currentThread := (s.totalList next).threadID })
    push (.afterExit caller next)
    push .exitCall
  else do
    unlinkNext next iter
    switchTo caller next

def threadYield (want : Tid) : Program Unit := do
  let enabled ← interruptsSet false
  fn2
  let s ← read
  if want = THREAD_ANY then
    match s.readyList with
    | [] => leave enabled THREAD_NONE
    | head :: _ => do
        store sweepStacks
        yieldBlock enabled head none
  else if want = THREAD_SELF ∨ want = s.currentThread then do
    store sweepStacks
    yieldBlock enabled s.currentThread none
  else
    match s.findNode s.readyList want with
    | none => leave enabled THREAD_INVALID
    | some node => do
        store sweepStacks
        yieldBlock enabled node (some node)

def wakeHead (queue : Nat) : Program Unit := do
  let wakeID ← deleteNodewq queue
  modifyThread wakeID fun t => { t with status := .ready }
  pushbackRL wakeID

def wakeLoop (queue : Nat) : List Nat → Program Unit
  | [] => pure ()
  | _ :: nodes => do
      wakeHead queue
      wakeLoop queue nodes

def threadWakeup (queue : Option Nat) (all : Int) : Program Unit := do
  let enabled ← interruptsSet false
  fn2
  match queue with
  | none => leave enabled 0
  | some q => do
      let s ← read
      let nodes ← liftM (s.queueNodes q)
      match nodes with
      | [] => leave enabled 0
      | head :: rest =>
          if all = 0 then do
            wakeHead q
            leave enabled 1
          else if all = 1 then do
            wakeLoop q (head :: rest)
            leave enabled (rest.length + 1)
          else leave enabled 0

def releaseWaiters : Program Unit := do
  let s ← read
  match s.current.wqt with
  | none => pure ()
  | some q => do
      threadWakeup (some q) 1
      freeQueue q
      store fun s => s.modifyThread s.currentThread fun t => { t with wqt := none }

def threadExit : Program Unit := do
  let enabled ← interruptsSet false
  fn2
  releaseWaiters
  let s ← read
  match s.readyList with
  | [] => leave enabled THREAD_NONE
  | _ :: _ => do
      modifyThread s.currentThread fun t => { t with exist := false, status := .exited }
      push (.exitReturn enabled)
      threadYield THREAD_ANY

def markKilled : Option Nat → Program Unit
  | some node => modifyThread node fun t => { t with exist := false }
  | none => pure ()

def threadKill (tid : Tid) : Program Unit := do
  let enabled ← interruptsSet false
  fn2
  let s ← read
  let itr ← liftM (killWalk tid s)
  markKilled itr
  let s ← read
  match s.current.wqt with
  | none =>
      match itr with
      | none => leave enabled THREAD_INVALID
      | some node => do
          store fun s => { s with freed := s.freed ++ (s.totalList node).stack.toList }
          modifyThread node fun t => { t with stack := none }
          deleteNode node (some node)
          leave enabled (s.threadIDOf node)
  | some q => do
      let nodes ← liftM (s.queueNodes q)
      match s.findNode nodes tid with
      | none => leave enabled THREAD_INVALID
      | some node => do
          modifyThread node fun t => { t with exist := false }
          leave enabled tid

def threadSleep (queue : Option Nat) : Program Unit := do
  let enabled ← interruptsSet false
  fn2
  match queue with
  | none => leave enabled THREAD_INVALID
  | some q => do
      let s ← read
      match s.readyList with
      | [] => leave enabled THREAD_NONE
      | next :: _ => do
          modifyThread s.currentThread fun t => { t with
            status := .suspended, threadInfo := .afterSleep enabled next :: s.callStack }
          pushbackWQ q s.currentThread
          deleteNode next none
          modifyThread next fun t => { t with status := .running }
          store fun s => { s with currentThread := (s.totalList next).threadID }
          store fun s => { s with callStack := (s.totalList next).threadInfo }

def threadWait (tid : Tid) : Program Unit := do
  let enabled ← interruptsSet false
  fn2
  let s ← read
  if tid < 0 ∨ tid = s.currentThread ∨ tid > THREAD_MAX_THREADS then leave enabled THREAD_INVALID
  else if (s.totalList tid.toNat).exist = false then leave enabled THREAD_INVALID
  else do
    push (.waitReturn enabled tid)
    match (s.totalList tid.toNat).wqt with
    | some q => threadSleep (some q)
    | none => do
        let q ← newQueue
        modifyThread tid.toNat fun t => { t with wqt := some q }
        threadSleep (some q)

def lockCreate : Program Unit := do
  let enabled ← interruptsSet false
  fn2
  let wqL ← newQueue
  let s ← read
  store fun s => { s.setLock s.nextLock (some { wqL, avaliable := true, acquiredID := -1 }) with nextLock := s.nextLock + 1 }
  leave enabled s.nextLock

def restore (enabled : Bool) : Program Unit := do
  let _ ← interruptsSet enabled
  pure ()

def lockDestroy (l : Nat) : Program Unit := do
  let enabled ← interruptsSet false
  fn2
  let s ← read
  let lock ← liftM (s.lockAt l)
  if lock.avaliable then do
    freeQueue lock.wqL
    store (·.setLock l none)
    restore enabled
  else restore enabled

def acquireLoop (l : Nat) (enabled : Bool) : Program Unit := do
  let s ← read
  let lock ← liftM (s.lockAt l)
  if lock.avaliable then do
    store (·.setLock l (some { lock with avaliable := false, acquiredID := s.currentThread }))
    restore enabled
  else do
    push (.acquireLoop l enabled)
    threadSleep (some lock.wqL)

def lockAcquire (l : Nat) : Program Unit := do
  let enabled ← interruptsSet false
  fn2
  let s ← read
  let _ ← liftM (s.lockAt l)
  push (.acquireLoop l enabled)

def lockRelease (l : Nat) : Program Unit := do
  let enabled ← interruptsSet false
  fn2
  let s ← read
  let lock ← liftM (s.lockAt l)
  if lock.avaliable then restore enabled
  else do
    store (·.setLock l (some { lock with avaliable := true }))
    threadWakeup (some lock.wqL) 1
    restore enabled

def cvCreate : Program Unit := do
  let wqC ← newQueue
  let s ← read
  store fun s => { s with cvs := Function.update s.cvs s.nextCv (some wqC), nextCv := s.nextCv + 1 }
  result s.nextCv

def cvDestroy (c : Nat) : Program Unit := do
  let s ← read
  let wqC ← liftM (s.cvAt c)
  let nodes ← liftM (s.queueNodes wqC)
  if nodes = [] then do
    freeQueue wqC
    store fun s => { s with cvs := Function.update s.cvs c none }
  else store fun s => { s with cvs := Function.update s.cvs c none }

def cvWait (c l : Nat) : Program Unit := do
  let enabled ← interruptsSet false
  fn2
  let s ← read
  let wqC ← liftM (s.cvAt c)
  lockRelease l
  push (.cvReacquire l enabled)
  let s ← read
  let lock ← liftM (s.lockAt l)
  if lock.acquiredID = s.currentThread then threadSleep (some wqC) else pure ()

def cvWake (all : Int) (c l : Nat) : Program Unit := do
  let enabled ← interruptsSet false
  fn2
  let s ← read
  let wqC ← liftM (s.cvAt c)
  let lock ← liftM (s.lockAt l)
  if lock.acquiredID = s.currentThread then do
    threadWakeup (some wqC) all
    restore enabled
  else restore enabled

def enter : Call → Program Unit
  | .create stackOk => threadCreate stackOk
  | .yield tid => threadYield tid
  | .exit => threadExit
  | .kill tid => threadKill tid
  | .queueCreate => do
      let q ← newQueue
      result q
  | .queueDestroy q => do
      let s ← read
      let _ ← liftM (s.queueNodes q)
      freeQueue q
  | .sleep queue => threadSleep queue
  | .wakeup queue all => threadWakeup queue all
  | .wait tid => threadWait tid
  | .lockCreate => lockCreate
  | .lockDestroy l => lockDestroy l
  | .lockAcquire l => lockAcquire l
  | .lockRelease l => lockRelease l
  | .cvCreate => cvCreate
  | .cvDestroy c => cvDestroy c
  | .cvWait c l => cvWait c l
  | .cvSignal c l => cvWake 0 c l
  | .cvBroadcast c l => cvWake 1 c l
  | .interruptsSet enabled => restore enabled

def continueFrame : Frame → Program Unit
  | .user _ => pure ()
  | .stub => restore true
  | .handler rax => leave true rax
  | .afterYield enabled true _ _ => do
      let _ ← interruptsSet enabled
      push .yieldResult
  | .afterYield enabled false next iter => yieldBlock enabled next iter
  | .yieldResult => do
      let s ← read
      result s.current.nextThreadID
  | .exitCall => threadExit
  | .afterExit caller next => switchTo caller next
  | .exitReturn enabled => leave enabled THREAD_NONE
  | .afterSleep enabled next => do
      let _ ← interruptsSet enabled
      let s ← read
      result (s.threadIDOf next)
  | .waitReturn enabled tid => leave enabled tid
  | .acquireLoop l enabled => acquireLoop l enabled
  | .cvReacquire l enabled => do
      push (.cvReturn enabled)
      lockAcquire l
  | .cvReturn enabled => restore enabled

/-- A step of the machine; the kernel blocks the signal and saves the context before it enters the handler. -/
def step (s : State) : Action → Program Unit
  | .call call => do
      push (.user call)
      enter call
  | .resume =>
      match s.callStack with
      | [] => pure ()
      | frame :: frames => do
          store ({ · with callStack := frames })
          continueFrame frame
  | .interrupt => do
      let _ ← interruptsSet false
      push (.handler s.rax)
      threadYield THREAD_ANY

end Source

end OperatingSystem.Threads
