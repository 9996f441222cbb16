import OperatingSystem.Library.Chain
import OperatingSystem.Threads.Thread

/-!
# `thread.c`: the two lists as the code keeps them

A `ready_node` or `wait_node` is a cell in a heap, and its `node` is the index of the thread it points
to.  The functions are those of `Thread.lean` for `thread_sleep` and `thread_wakeup`, with every pointer
they follow and set.
-/

namespace OperatingSystem.Threads

open Heap

structure WaitQueue where
  head : Option Nat
  tail : Option Nat
  deriving DecidableEq, Repr

structure Memory where
  totalList : Nat → Thread
  currentThread : Nat
  readyList : Option Nat
  endOfReady : Option Nat
  readyNodes : Heap (Node Nat)
  waitNodes : Heap (Node Nat)
  queues : Nat → Option WaitQueue
  interrupts : Bool
  callStack : List Frame
  rax : Tid

namespace Memory

variable (m : Memory)

def modifyThread (i : Nat) (f : Thread → Thread) : Memory :=
  { m with totalList := Function.update m.totalList i (f (m.totalList i)) }

def queueAt (q : Nat) : Except Trap WaitQueue :=
  match m.queues q with
  | some wq => .ok wq
  | none => .error .freed

def setQueue (q : Nat) (wq : WaitQueue) : Memory := { m with queues := Function.update m.queues q (some wq) }

def buildNodeRL (ids : Nat) : Memory × Nat :=
  ({ m with readyNodes := m.readyNodes.alloc ⟨ids, none, none⟩ }, m.readyNodes.next)

def buildNodeWQ (ids : Nat) : Memory × Nat :=
  ({ m with waitNodes := m.waitNodes.alloc ⟨ids, none, none⟩ }, m.waitNodes.next)

def pushbackRL (pt : Nat) : Except Trap Memory :=
  match m.readyList with
  | none => do
      let nodes ← m.readyNodes.store pt fun n => { n with prv := none }
      let nodes ← nodes.store pt fun n => { n with next := none }
      return { m with readyNodes := nodes, readyList := some pt, endOfReady := some pt }
  | some _ => do
      let last ← pointer m.endOfReady
      let nodes ← m.readyNodes.store last fun n => { n with next := some pt }
      let nodes ← nodes.store pt fun n => { n with prv := some last }
      let nodes ← nodes.store pt fun n => { n with next := none }
      return { m with readyNodes := nodes, endOfReady := some pt }

def deleteNode (node : Nat) : Except Trap Memory := do
  let here ← m.readyNodes.read node
  let head ← pointer m.readyList
  let first ← m.readyNodes.read head
  if (m.totalList here.data).threadID = (m.totalList first.data).threadID then
    match first.next with
    | some second =>
        let nodes ← m.readyNodes.store second fun n => { n with prv := none }
        return { m with readyNodes := nodes.free head, readyList := some second }
    | none => return { m with readyNodes := m.readyNodes.free head, readyList := none, endOfReady := none }
  else
    let tail ← pointer m.endOfReady
    let last ← m.readyNodes.read tail
    if (m.totalList here.data).threadID = (m.totalList last.data).threadID then
      let before ← pointer last.prv
      let nodes ← m.readyNodes.store before fun n => { n with next := none }
      return { m with readyNodes := nodes.free tail, endOfReady := some before }
    else
      let before ← pointer here.prv
      let nodes ← m.readyNodes.store before fun n => { n with next := here.next }
      let after ← pointer here.next
      let nodes ← nodes.store after fun n => { n with prv := some before }
      return { m with readyNodes := nodes.free node }

def lastNode (nodes : Heap (Node Nat)) : Nat → Nat → Except Trap Nat
  | 0, _ => .error .endless
  | fuel + 1, iter => do
      let here ← nodes.read iter
      match here.next with
      | some next => lastNode nodes fuel next
      | none => return iter

def pushbackWQ (q newNode : Nat) : Except Trap Memory := do
  let pt ← m.queueAt q
  match pt.head with
  | none =>
      let nodes ← m.waitNodes.store newNode fun n => { n with prv := none }
      let nodes ← nodes.store newNode fun n => { n with next := none }
      return { m with waitNodes := nodes }.setQueue q ⟨some newNode, some newNode⟩
  | some head =>
      let iter ← lastNode m.waitNodes (m.waitNodes.next + 1) head
      let nodes ← m.waitNodes.store iter fun n => { n with next := some newNode }
      let nodes ← nodes.store newNode fun n => { n with prv := some iter }
      let nodes ← nodes.store newNode fun n => { n with next := none }
      return { m with waitNodes := nodes }.setQueue q ⟨some head, some newNode⟩

/-- The identifier of the thread it took off the queue; `none` is the `-1` for an empty queue. -/
def deleteNodewq (q node : Nat) : Except Trap (Option Nat × Memory) := do
  let wq ← m.queueAt q
  match wq.head with
  | none => return (none, m)
  | some head =>
      let here ← m.waitNodes.read node
      let first ← m.waitNodes.read head
      if (m.totalList here.data).threadID = (m.totalList first.data).threadID then
        let returnTid := (m.totalList first.data).threadID
        match first.next with
        | some second =>
            let nodes ← m.waitNodes.store second fun n => { n with prv := none }
            return (some returnTid, { m with waitNodes := nodes.free head }.setQueue q { wq with head := some second })
        | none => return (some returnTid, { m with waitNodes := m.waitNodes.free head }.setQueue q ⟨none, none⟩)
      else
        let before ← pointer here.prv
        let nodes ← m.waitNodes.store before fun n => { n with next := here.next }
        let after ← pointer here.next
        let nodes ← nodes.store after fun n => { n with prv := some before }
        return (some (m.totalList here.data).threadID, { m with waitNodes := nodes.free node })

def suspendOn (q head : Nat) (enabled : Bool) : Except Trap Memory := do
  let first ← m.readyNodes.read head
  let next := first.data
  let caller := m.currentThread
  let m := m.modifyThread caller fun t => { t with
    status := .suspended, threadInfo := .afterSleep enabled next :: m.callStack }
  let (m, newNode) := m.buildNodeWQ caller
  let m ← m.pushbackWQ q newNode
  let m ← m.deleteNode head
  let m := m.modifyThread next fun t => { t with status := .running }
  return { m with
    currentThread := (m.totalList next).threadID
    callStack := (m.totalList next).threadInfo }

def threadSleep (queue : Option Nat) (m : Memory) : Except Trap Memory :=
  let enabled := m.interrupts
  let masked := { m with interrupts := false }
  match queue with
  | none => .ok { masked with interrupts := enabled, rax := THREAD_INVALID }
  | some q =>
      match m.readyList with
      | none => .ok { masked with interrupts := enabled, rax := THREAD_NONE }
      | some head => masked.suspendOn q head enabled

def makeReady (wakeID : Nat) : Except Trap Memory :=
  let (m, newNode) := m.buildNodeRL wakeID
  (m.modifyThread wakeID fun t => { t with status := .ready }).pushbackRL newNode

def wakeLoop (q : Nat) : Nat → Tid → Memory → Except Trap (Tid × Memory)
  | 0, _, _ => .error .endless
  | fuel + 1, counter, m => do
      let queue ← m.queueAt q
      match queue.head with
      | none => return (counter, m)
      | some node =>
          let (deleted, m) ← m.deleteNodewq q node
          let wakeID ← pointer deleted
          let m ← m.makeReady wakeID
          wakeLoop q fuel (counter + 1) m

def threadWakeup (queue : Option Nat) (all : Int) (m : Memory) : Except Trap Memory :=
  let enabled := m.interrupts
  let masked := { m with interrupts := false }
  match queue with
  | none => .ok { masked with interrupts := enabled, rax := 0 }
  | some q => do
      let queue ← m.queueAt q
      match queue.head with
      | none => return { masked with interrupts := enabled, rax := 0 }
      | some head =>
          if all = 0 then
            let (deleted, m) ← masked.deleteNodewq q head
            let m ← match deleted with
              | none => pure m
              | some wakeID => m.makeReady wakeID
            return { m with interrupts := enabled, rax := 1 }
          else if all = 1 then
            let (counter, m) ← wakeLoop q (m.waitNodes.next + 1) 0 masked
            return { m with interrupts := enabled, rax := counter }
          else return { masked with interrupts := enabled, rax := 0 }

end Memory

end OperatingSystem.Threads
