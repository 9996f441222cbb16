import OperatingSystem.Threads.Thread

namespace OperatingSystem.Threads

open State

namespace State

def lockAt (s : State) (l : Nat) : Except Fault Lock :=
  match s.locks l with
  | some lock => .ok lock
  | none => .error .useAfterFree

def cvAt (s : State) (c : Nat) : Except Fault Nat :=
  match s.cvs c with
  | some wqC => .ok wqC
  | none => .error .useAfterFree

variable {s : State}

theorem lockAt_eq_ok {l : Nat} {lock : Lock} : s.lockAt l = .ok lock ↔ s.locks l = some lock := by
  unfold lockAt
  cases s.locks l <;> simp

theorem cvAt_eq_ok {c q : Nat} : s.cvAt c = .ok q ↔ s.cvs c = some q := by
  unfold cvAt
  cases s.cvs c <;> simp

end State

def lockCreate (s : State) : State :=
  let (s, wqL) := waitQueueCreate s
  let s := s.setLock s.nextLock (some { wqL, avaliable := true, acquiredID := -1 })
  { s with nextLock := s.nextLock + 1 }.result s.nextLock

def lockDestroy (l : Nat) (s : State) : Except Fault State := do
  let lock ← s.lockAt l
  if lock.avaliable then return (s.setQueue lock.wqL none).setLock l none
  else return s

def acquireLoop (l : Nat) (enabled : Bool) (s : State) : Except Fault State := do
  let lock ← s.lockAt l
  if lock.avaliable then
    let s := s.setLock l (some { lock with avaliable := false, acquiredID := s.currentThread })
    return s.interruptsSet enabled
  else
    threadSleep (some lock.wqL) (s.push (.acquireLoop l enabled))

def lockAcquire (l : Nat) (s : State) : Except Fault State := do
  let _ ← s.lockAt l
  return (s.interruptsSet false).push (.acquireLoop l s.interrupts)

def lockRelease (l : Nat) (s : State) : Except Fault State := do
  let lock ← s.lockAt l
  if lock.avaliable then return s
  else threadWakeup (some lock.wqL) 1 (s.setLock l (some { lock with avaliable := true }))

def cvCreate (s : State) : State :=
  let (s, wqC) := waitQueueCreate s
  { s with cvs := Function.update s.cvs s.nextCv (some wqC), nextCv := s.nextCv + 1 }.result s.nextCv

/-- A queue that still holds threads is not freed, only forgotten. -/
def cvDestroy (c : Nat) (s : State) : Except Fault State := do
  let wqC ← s.cvAt c
  let nodes ← s.queueNodes wqC
  let s := if nodes = [] then s.setQueue wqC none else s
  return { s with cvs := Function.update s.cvs c none }

def cvWait (c l : Nat) (s : State) : Except Fault State := do
  let wqC ← s.cvAt c
  let enabled := s.interrupts
  let s ← lockRelease l (s.interruptsSet false)
  let s := s.push (.cvReacquire l enabled)
  let lock ← s.lockAt l
  if lock.acquiredID = s.currentThread then threadSleep (some wqC) s
  else return s

/-- `cv_signal` and `cv_broadcast` differ in what they pass to `thread_wakeup`. -/
def cvWake (all : Int) (c l : Nat) (s : State) : Except Fault State := do
  let wqC ← s.cvAt c
  let lock ← s.lockAt l
  if lock.acquiredID = s.currentThread then threadWakeup (some wqC) all s
  else return s

def cvSignal (c l : Nat) (s : State) : Except Fault State := cvWake 0 c l s

def cvBroadcast (c l : Nat) (s : State) : Except Fault State := cvWake 1 c l s

end OperatingSystem.Threads
