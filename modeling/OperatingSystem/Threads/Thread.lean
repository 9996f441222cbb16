import OperatingSystem.Threads.State

/-!
# `thread.c`: creating, switching, sleeping and killing threads

Every function runs from its entry, or from the point a frame records, up to where it returns,
calls `thread_exit` from inside `thread_yield`, or hands the processor to another thread with
`setcontext`.  Dereferencing a null node is a `Fault`.
-/

namespace OperatingSystem.Threads

namespace State

/-- The nodes of a wait queue; a freed queue has none to read. -/
def queueNodes (s : State) (q : Nat) : Except Fault (List Nat) :=
  match s.queues q with
  | some nodes => .ok nodes
  | none => .error .useAfterFree

theorem queueNodes_eq_ok {s : State} {q : Nat} {nodes : List Nat} : s.queueNodes q = .ok nodes ↔ s.queues q = some nodes := by
  unfold queueNodes
  cases s.queues q <;> simp

def threadIDOf (s : State) (i : Nat) : Tid := ((s.totalList i).threadID : Tid)

def findNode (s : State) (nodes : List Nat) (tid : Tid) : Option Nat :=
  nodes.find? fun i => s.threadIDOf i = tid

end State

open State

def threadInit : State where
  totalList := Function.update (fun _ => Thread.zero) 0
    { Thread.zero with status := .running, exist := true, preThreadID := -3, nextThreadID := -3 }
  currentThread := 0
  readyList := []
  queues := fun _ => none
  nextQueue := 0
  locks := fun _ => none
  nextLock := 0
  cvs := fun _ => none
  nextCv := 0
  nextStack := 0
  freed := []
  interrupts := true
  callStack := []
  rax := 0

def waitQueueCreate (s : State) : State × Nat :=
  ({ s.setQueue s.nextQueue (some []) with nextQueue := s.nextQueue + 1 }, s.nextQueue)

def waitQueueDestroy (q : Nat) (s : State) : Except Fault State := do
  let _ ← s.queueNodes q
  return s.setQueue q none

def freeSlot (s : State) : Nat → Nat → Option Nat
  | 0, _ => none
  | fuel + 1, id => if (s.totalList id).exist then freeSlot s fuel (id + 1) else some id

/-- Both error returns leave interrupts off, as in the source. -/
def threadCreate (stackOk : Bool) (s : State) : State :=
  let enabled := s.interrupts
  let s := s.interruptsSet false
  match freeSlot s (THREAD_MAX_THREADS - 1) 1 with
  | none => s.result THREAD_NOMORE
  | some id =>
      let s := s.modifyThread id fun t => { t with
        threadID := id, exist := true, status := .ready, nextThreadID := -1, preThreadID := -1,
        wqt := none, threadInfo := [.stub] }
      if stackOk then
        let s := s.modifyThread id fun t => { t with stack := some s.nextStack }
        let s := { s with nextStack := s.nextStack + 1 }
        ((s.pushbackRL id).interruptsSet enabled).result id
      else
        (s.modifyThread id fun t => { t with stack := none }).result THREAD_NOMEMORY

/-- The loop of `thread_yield` that frees the stacks of exited threads.  It runs to
`i <= 1024`; the memory behind the table counts as a slot nothing was stored to. -/
def sweepStacks (s : State) : State :=
  let swept (t : Thread) : Bool := t.status = .exited && !t.exist
  { s with
    totalList := fun i =>
      if i ≤ THREAD_MAX_THREADS && swept (s.totalList i) then
        { s.totalList i with stack := none }
      else s.totalList i
    freed := s.freed ++ (List.range (THREAD_MAX_THREADS + 1)).filterMap fun i =>
      if swept (s.totalList i) then (s.totalList i).stack else none }

/-- `deleteNode`, which `thread_yield` repeats inline: head and tail are recognised by
identifier, any other node is unlinked through its own neighbours. -/
def deleteNode (s : State) (target : Nat) (node : Option Nat) : Except Fault State :=
  match s.readyList with
  | [] => .error .nullDereference
  | head :: rest =>
      if s.threadIDOf target = s.threadIDOf head then
        .ok { s with readyList := rest }
      else if s.threadIDOf target = s.threadIDOf ((head :: rest).getLast (by simp)) then
        .ok { s with readyList := (head :: rest).dropLast }
      else
        match node with
        | none => .error .nullDereference
        | some node =>
            if node ∈ s.readyList then .ok { s with readyList := s.readyList.erase node }
            else .error .useAfterFree

def markCalled : List Frame → List Frame
  | .afterYield enabled _ next iter :: frames => .afterYield enabled true next iter :: frames
  | frames => frames

def switchTo (caller next : Nat) (s : State) : State :=
  let id := (s.totalList next).threadID
  let s := { s with currentThread := id }
  let s := s.modifyThread id fun t => { t with status := .running }
  let s := s.modifyThread caller fun t => { t with threadInfo := markCalled t.threadInfo }
  { s with callStack := (s.totalList next).threadInfo }

def requeueCaller (next : Nat) (s : State) : State :=
  let caller := s.currentThread
  if s.current.status = .running then
    let s := s.modifyThread caller fun t => { t with status := .ready }
    if s.current.exist then
      let id := (s.totalList next).threadID
      let s := s.modifyThread caller fun t => { t with nextThreadID := id }
      let s := s.modifyThread id fun t => { t with preThreadID := caller }
      s.pushbackRL caller
    else s
  else s

def yieldBlock (enabled : Bool) (next : Nat) (iter : Option Nat) (s : State) :
    Except Fault State := do
  let caller := s.currentThread
  let s := s.modifyThread caller fun t =>
    { t with threadInfo := .afterYield enabled false next iter :: s.callStack }
  let s := requeueCaller next s
  if !(s.totalList next).exist then
    return ({ s with currentThread := (s.totalList next).threadID }.push
      (.afterExit caller next)).push .exitCall
  else
    let s ← if (s.totalList next).threadID = 0 ∧ (s.totalList next).status = .exited then
        pure s else deleteNode s next iter
    return switchTo caller next s

def threadYield (want : Tid) (s : State) : Except Fault State :=
  let enabled := s.interrupts
  let s := s.interruptsSet false
  if want = THREAD_ANY then
    match s.readyList with
    | [] => .ok ((s.interruptsSet enabled).result THREAD_NONE)
    | head :: _ => yieldBlock enabled head none (sweepStacks s)
  else if want = THREAD_SELF ∨ want = s.currentThread then
    yieldBlock enabled s.currentThread none (sweepStacks s)
  else
    match s.findNode s.readyList want with
    | none => .ok ((s.interruptsSet enabled).result THREAD_INVALID)
    | some node => yieldBlock enabled node (some node) (sweepStacks s)

def wakeThread (s : State) (node : Nat) : State :=
  let wakeID := (s.totalList node).threadID
  (s.modifyThread wakeID fun t => { t with status := .ready }).pushbackRL wakeID

def threadWakeup (queue : Option Nat) (all : Int) (s : State) : Except Fault State :=
  match queue with
  | none => .ok (s.result 0)
  | some q => do
      match ← s.queueNodes q with
      | [] => return s.result 0
      | head :: rest =>
          if all = 0 then return (wakeThread (s.setQueue q (some rest)) head).result 1
          else if all = 1 then
            return ((head :: rest).foldl wakeThread (s.setQueue q (some []))).result (rest.length + 1)
          else return s.result 0

def releaseWaiters (s : State) : Except Fault State :=
  match s.current.wqt with
  | none => .ok s
  | some q => do
      let s ← threadWakeup (some q) 1 s
      return (s.setQueue q none).modifyThread s.currentThread fun t => { t with wqt := none }

def threadExit (s : State) : Except Fault State := do
  let enabled := s.interrupts
  let s ← releaseWaiters (s.interruptsSet false)
  match s.readyList with
  | [] => return (s.interruptsSet enabled).result THREAD_NONE
  | _ :: _ =>
      let s := s.modifyThread s.currentThread fun t => { t with exist := false, status := .exited }
      threadYield THREAD_ANY (s.push (.exitReturn enabled))

/-- The walk of `thread_kill` tests `ReadyList`, not its cursor: on a list without the
identifier it runs off the end. -/
def killWalk (tid : Tid) (s : State) : Except Fault (Option Nat) :=
  match s.readyList with
  | [] => .ok none
  | _ :: _ =>
      match s.findNode s.readyList tid with
      | some node => .ok (some node)
      | none => .error .nullDereference

def markKilled (itr : Option Nat) (s : State) : State :=
  match itr with
  | some node => s.modifyThread node fun t => { t with exist := false }
  | none => s

def threadKill (tid : Tid) (s : State) : Except Fault State := do
  let enabled := s.interrupts
  let itr ← killWalk tid s
  let s := markKilled itr (s.interruptsSet false)
  match s.current.wqt, itr with
  | none, none => return (s.interruptsSet enabled).result THREAD_INVALID
  | none, some node =>
      let id := s.threadIDOf node
      let s := { s with freed := s.freed ++ (s.totalList node).stack.toList }
      let s := s.modifyThread node fun t => { t with stack := none }
      let s ← deleteNode s node (some node)
      return (s.interruptsSet enabled).result id
  | some q, _ =>
      match s.findNode (← s.queueNodes q) tid with
      | none => return (s.interruptsSet enabled).result THREAD_INVALID
      | some node =>
          return ((s.modifyThread node fun t => { t with exist := false }).interruptsSet
            enabled).result tid

def threadSleep (queue : Option Nat) (s : State) : Except Fault State :=
  let enabled := s.interrupts
  let s := s.interruptsSet false
  match queue, s.readyList with
  | none, _ => .ok ((s.interruptsSet enabled).result THREAD_INVALID)
  | some _, [] => .ok ((s.interruptsSet enabled).result THREAD_NONE)
  | some q, next :: rest => do
      let caller := s.currentThread
      let s := s.modifyThread caller fun t => { t with
        status := .suspended, threadInfo := .afterSleep enabled next :: s.callStack }
      let nodes ← s.queueNodes q
      let s := { s.setQueue q (some (nodes ++ [caller])) with readyList := rest }
      let s := s.modifyThread next fun t => { t with status := .running }
      return { s with
        currentThread := (s.totalList next).threadID
        callStack := (s.totalList next).threadInfo }

def threadWait (tid : Tid) (s : State) : Except Fault State :=
  let enabled := s.interrupts
  let s := s.interruptsSet false
  if tid < 0 ∨ tid = s.currentThread ∨ tid > THREAD_MAX_THREADS then
    .ok ((s.interruptsSet enabled).result THREAD_INVALID)
  else if (s.totalList tid.toNat).exist = false then
    .ok ((s.interruptsSet enabled).result THREAD_INVALID)
  else
    let s := s.push (.waitReturn enabled tid)
    match (s.totalList tid.toNat).wqt with
    | some q => threadSleep (some q) s
    | none =>
        let (s, q) := waitQueueCreate s
        threadSleep (some q) (s.modifyThread tid.toNat fun t => { t with wqt := some q })

end OperatingSystem.Threads
