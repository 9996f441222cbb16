import Mathlib.Logic.Function.Basic
import Mathlib.Data.List.Basic

/-!
# The thread table, the ready list and the wait queues

The data of `threads/thread.c`.  A thread control block is named by its index in `TotalList`, so a
ready node or a wait node is the index it points to, and the ready list and each wait queue are the
sequences that following `next` from their heads gives.  `callStack` is the C stack the machine
runs on: the frames of the library calls in progress, innermost first.
-/

namespace OperatingSystem.Threads

abbrev Tid := Int

def THREAD_MAX_THREADS : Nat := 1024
def THREAD_ANY : Tid := -1
def THREAD_SELF : Tid := -2
def THREAD_INVALID : Tid := -3
def THREAD_NONE : Tid := -4
def THREAD_NOMORE : Tid := -5
def THREAD_NOMEMORY : Tid := -6

inductive Status
  | ready | running | exited | suspended
  deriving DecidableEq, Repr

/-- The calls a thread can make from its own code.  `create` carries whether `malloc` finds room
for the stack, `interruptsSet` is `interrupts_set` of `interrupt.c`. -/
inductive Call
  | create (stackOk : Bool)
  | yield (tid : Tid)
  | exit
  | kill (tid : Tid)
  | queueCreate
  | queueDestroy (queue : Nat)
  | sleep (queue : Option Nat)
  | wakeup (queue : Option Nat) (all : Int)
  | wait (tid : Tid)
  | lockCreate
  | lockDestroy (lock : Nat)
  | lockAcquire (lock : Nat)
  | lockRelease (lock : Nat)
  | cvCreate
  | cvDestroy (cv : Nat)
  | cvWait (cv lock : Nat)
  | cvSignal (cv lock : Nat)
  | cvBroadcast (cv lock : Nat)
  | interruptsSet (enabled : Bool)
  deriving DecidableEq, Repr

/-- One activation record: which function is suspended where, with the locals it still needs.

* `user`: the thread's own code, waiting for the library call.
* `stub`: a new thread about to run `thread_stub`.
* `handler`: `interrupt_handler`, waiting for its `thread_yield`; `rax` is what the signal saved.
* `afterYield`: `thread_yield` at its `getcontext`; `called` is `setcontext_called`.
* `yieldResult`: `thread_yield` between `interrupts_set` and the read of its result.
* `exitCall`: `thread_exit` about to be entered from `thread_yield`'s branch for a killed thread.
* `afterExit`: `thread_yield` after that call; `caller` is the thread whose context it saved.
* `exitReturn`: `thread_exit` after its `thread_yield`.
* `afterSleep`: `thread_sleep` at its `getcontext`.
* `waitReturn`: `thread_wait` after its `thread_sleep`.
* `acquireLoop`: `lock_acquire` before the test of its loop.
* `cvReacquire`, `cvReturn`: `cv_wait` after its `thread_sleep`, and after its `lock_acquire`. -/
inductive Frame
  | user (call : Call)
  | stub
  | handler (rax : Tid)
  | afterYield (enabled called : Bool) (next : Nat) (iter : Option Nat)
  | yieldResult
  | exitCall
  | afterExit (caller next : Nat)
  | exitReturn (enabled : Bool)
  | afterSleep (enabled : Bool) (next : Nat)
  | waitReturn (enabled : Bool) (tid : Tid)
  | acquireLoop (lock : Nat) (enabled : Bool)
  | cvReacquire (lock : Nat) (enabled : Bool)
  | cvReturn (enabled : Bool)
  deriving DecidableEq, Repr

/-- `struct thread`.  `threadInfo` is the saved context: the frames it resumes with. -/
structure Thread where
  threadID : Nat
  threadInfo : List Frame
  wqt : Option Nat
  status : Status
  nextThreadID : Tid
  preThreadID : Tid
  stack : Option Nat
  exist : Bool

def Thread.zero : Thread where
  threadID := 0
  threadInfo := []
  wqt := none
  status := .ready
  nextThreadID := 0
  preThreadID := 0
  stack := none
  exist := false

structure Lock where
  wqL : Nat
  avaliable : Bool
  acquiredID : Tid
  deriving DecidableEq, Repr

/-- The memory of the package.  Queues, locks and condition variables live in heaps whose freed
cells are `none`; the `next…` counters name fresh cells.  `freed` lists the stacks given back to
`free`, `interrupts` is the signal mask and `rax` the result register of the running C code. -/
structure State where
  totalList : Nat → Thread
  currentThread : Nat
  readyList : List Nat
  queues : Nat → Option (List Nat)
  nextQueue : Nat
  locks : Nat → Option Lock
  nextLock : Nat
  cvs : Nat → Option Nat
  nextCv : Nat
  nextStack : Nat
  freed : List Nat
  interrupts : Bool
  callStack : List Frame
  rax : Tid

/-- What ends the process outside the C semantics. -/
inductive Fault
  | nullDereference
  | useAfterFree
  | notInCall
  deriving DecidableEq, Repr

namespace State

variable (s : State)

def current : Thread := s.totalList s.currentThread

def modifyThread (i : Nat) (f : Thread → Thread) : State :=
  { s with totalList := Function.update s.totalList i (f (s.totalList i)) }

def setQueue (q : Nat) (nodes : Option (List Nat)) : State :=
  { s with queues := Function.update s.queues q nodes }

def setLock (l : Nat) (lock : Option Lock) : State :=
  { s with locks := Function.update s.locks l lock }

def pushbackRL (i : Nat) : State := { s with readyList := s.readyList ++ [i] }

def interruptsSet (enabled : Bool) : State := { s with interrupts := enabled }

def result (v : Tid) : State := { s with rax := v }

def push (f : Frame) : State := { s with callStack := f :: s.callStack }

@[simp] theorem thread_modifyThread (i j : Nat) (f : Thread → Thread) :
    (s.modifyThread i f).totalList j = if j = i then f (s.totalList i) else s.totalList j := by
  simp [modifyThread, Function.update_apply]

@[simp] theorem modifyThread_currentThread (i : Nat) (f : Thread → Thread) :
    (s.modifyThread i f).currentThread = s.currentThread := rfl

@[simp] theorem modifyThread_readyList (i : Nat) (f : Thread → Thread) :
    (s.modifyThread i f).readyList = s.readyList := rfl

@[simp] theorem modifyThread_queues (i : Nat) (f : Thread → Thread) :
    (s.modifyThread i f).queues = s.queues := rfl

@[simp] theorem modifyThread_locks (i : Nat) (f : Thread → Thread) :
    (s.modifyThread i f).locks = s.locks := rfl

@[simp] theorem modifyThread_callStack (i : Nat) (f : Thread → Thread) :
    (s.modifyThread i f).callStack = s.callStack := rfl

end State

end OperatingSystem.Threads
