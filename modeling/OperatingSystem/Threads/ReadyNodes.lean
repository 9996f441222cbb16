import OperatingSystem.Threads.Nodes

namespace OperatingSystem.Threads

open Heap

namespace Memory

variable (m : Memory)

/-- The node of `thread_create`, appended.  `prv` is what `malloc` left in it. -/
def pushNew (i : Nat) (prv : Option Nat) : Except Trap Memory :=
  { m with readyNodes := m.readyNodes.alloc ⟨i, prv, none⟩ }.pushbackRL m.readyNodes.next

def searchRL (want_tid : Tid) : Nat → Option Nat → Except Trap (Option Nat)
  | 0, _ => .error .endless
  | _ + 1, none => .ok none
  | fuel + 1, some iter => do
      let here ← m.readyNodes.read iter
      if ((m.totalList here.data).threadID : Tid) = want_tid then return some iter
      else searchRL want_tid fuel here.next

/-- The walk of `thread_kill` on a list that is not empty: it tests `ReadyList` and not `itr`. -/
def killWalk (tid : Tid) : Nat → Option Nat → Except Trap Nat
  | 0, _ => .error .endless
  | fuel + 1, itr => do
      let node ← pointer itr
      let here ← m.readyNodes.read node
      if ((m.totalList here.data).threadID : Tid) = tid then return node
      else killWalk tid fuel here.next

/-- The second copy of `deleteNode`, in `thread_yield`. -/
def unlink (nextThread : Nat) (iter : Option Nat) : Except Trap Memory := do
  let head ← pointer m.readyList
  let first ← m.readyNodes.read head
  if (m.totalList nextThread).threadID = (m.totalList first.data).threadID then
    match first.next with
    | some second =>
        let nodes ← m.readyNodes.store second fun n => { n with prv := none }
        return { m with readyNodes := nodes.free head, readyList := some second }
    | none => return { m with readyNodes := m.readyNodes.free head, readyList := none, endOfReady := none }
  else
    let tail ← pointer m.endOfReady
    let last ← m.readyNodes.read tail
    if (m.totalList nextThread).threadID = (m.totalList last.data).threadID then
      let before ← pointer last.prv
      let nodes ← m.readyNodes.store before fun n => { n with next := none }
      return { m with readyNodes := nodes.free tail, endOfReady := some before }
    else
      let node ← pointer iter
      let here ← m.readyNodes.read node
      let before ← pointer here.prv
      let nodes ← m.readyNodes.store before fun n => { n with next := here.next }
      let after ← pointer here.next
      let nodes ← nodes.store after fun n => { n with prv := some before }
      return { m with readyNodes := nodes.free node }

def chosen (want_tid : Tid) : Except Trap (Option (Nat × Option Nat)) :=
  if want_tid = THREAD_ANY then
    match m.readyList with
    | none => .ok none
    | some head => do
        let first ← m.readyNodes.read head
        return some (first.data, none)
  else if want_tid = THREAD_SELF ∨ want_tid = m.currentThread then .ok (some (m.currentThread, none))
  else do
    match ← m.searchRL want_tid (m.readyNodes.next + 1) m.readyList with
    | none => return none
    | some iter => do
        let here ← m.readyNodes.read iter
        return some (here.data, some iter)

def sweepStacks : Memory :=
  { m with
    totalList := fun i =>
      if i ≤ THREAD_MAX_THREADS && ((m.totalList i).status = .exited && !(m.totalList i).exist) then
        { m.totalList i with stack := none }
      else m.totalList i }

def requeueCaller (nextThread : Nat) : Except Trap Memory :=
  let caller := m.currentThread
  if (m.totalList caller).status = .running then
    let waits := m.modifyThread caller fun t => { t with status := .ready }
    if (waits.totalList caller).exist then
      let id := (waits.totalList nextThread).threadID
      let saved := waits.modifyThread caller fun t => { t with nextThreadID := id }
      let marked := saved.modifyThread id fun t => { t with preThreadID := caller }
      let (built, node) := marked.buildNodeRL caller
      match m.readyList with
      | none => .ok { built with readyList := some node, endOfReady := some node }
      | some _ => built.pushbackRL node
    else .ok waits
  else .ok m

def switchTo (caller nextThread : Nat) : Memory :=
  let id := (m.totalList nextThread).threadID
  let m := { m with currentThread := id }
  let m := m.modifyThread id fun t => { t with status := .running }
  let m := m.modifyThread caller fun t => { t with threadInfo := markCalled t.threadInfo }
  { m with callStack := (m.totalList nextThread).threadInfo }

/-- The saved frame keeps of `iter` the thread it points to. -/
def yieldBlock (enabled : Bool) (nextThread : Nat) (iter : Option Nat) : Except Trap Memory := do
  let caller := m.currentThread
  let m := m.modifyThread caller fun t =>
    { t with threadInfo := .afterYield enabled false nextThread (iter.map fun _ => nextThread) :: m.callStack }
  let m ← m.requeueCaller nextThread
  if !(m.totalList nextThread).exist then
    return { m with
      currentThread := (m.totalList nextThread).threadID
      callStack := .exitCall :: .afterExit caller nextThread :: m.callStack }
  else
    let m ← if (m.totalList nextThread).threadID = 0 ∧ (m.totalList nextThread).status = .exited then
      pure m else m.unlink nextThread iter
    return m.switchTo caller nextThread

def threadYield (want_tid : Tid) : Except Trap Memory := do
  let enabled := m.interrupts
  let masked := { m with interrupts := false }
  match ← masked.chosen want_tid with
  | none => return { masked with
      interrupts := enabled
      rax := if want_tid = THREAD_ANY then THREAD_NONE else THREAD_INVALID }
  | some (nextThread, iter) => masked.sweepStacks.yieldBlock enabled nextThread iter

end Memory

end OperatingSystem.Threads
