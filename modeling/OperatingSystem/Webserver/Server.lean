import OperatingSystem.Library.Run
import OperatingSystem.Library.Ring

/-!
# The request buffer of `server_thread.c`

Workers run `start_thread`, any number of callers run `server_request` and one thread runs
`server_exit`.  A step is what one of them does between taking the mutex, in `pthread_mutex_lock` or
on its way out of `pthread_cond_wait`, and letting go of it again.  A waiting thread may wake up
without having been notified.
-/

namespace OperatingSystem.Webserver

abbrev Fd := Int

/-- A thread in `start_thread`: before its lock, in the wait for `empty` before and after it was
notified, in `do_server_request`, or gone. -/
inductive Worker
  | outside
  | waiting
  | notified
  | serving (connfn : Fd)
  | returned
  deriving DecidableEq, Repr

/-- A thread in `server_request`; `serving` is for a server without workers. -/
inductive Caller
  | outside
  | entering (connfd : Fd)
  | waiting (connfd : Fd)
  | notified (connfd : Fd)
  | serving (connfd : Fd)
  deriving DecidableEq, Repr

/-- `server_exit`: after the broadcast it joins the workers in order and then frees the server. -/
inductive Exit
  | notCalled
  | joining (i : Nat)
  | returned
  deriving DecidableEq, Repr

structure Server where
  nrThreads : Nat
  maxRequests : Int
  exiting : Bool
  rq : Int → Fd
  rqStart : Int
  rqEnd : Int
  requestCounter : Int
  worker : Nat → Worker
  caller : Nat → Caller
  exit : Exit

def serverInit (nrThreads : Nat) (maxRequests : Int) : Server where
  nrThreads := nrThreads
  maxRequests := maxRequests
  exiting := false
  rq := fun _ => 0
  rqStart := 0
  rqEnd := 0
  requestCounter := 0
  worker := fun _ => .outside
  caller := fun _ => .outside
  exit := .notCalled

/-- `endless` is a loop that does not end, `notEnabled` a step the thread cannot take. -/
inductive Fault
  | nullDereference
  | useAfterFree
  | endless
  | notEnabled
  deriving DecidableEq, Repr

inductive Action
  | call (caller : Nat) (connfd : Fd)
  | caller (caller : Nat)
  | worker (worker : Nat)
  | wakeCaller (caller : Nat)
  | wakeWorker (worker : Nat)
  | exit
  | join
  deriving DecidableEq, Repr

inductive Event
  | put (connfd : Fd)
  | took (worker : Nat) (connfn : Fd)
  | dropped (connfd : Fd)
  deriving DecidableEq, Repr

namespace Server

variable (s : Server)

def setWorker (w : Nat) (pc : Worker) : Server := { s with worker := Function.update s.worker w pc }

def setCaller (c : Nat) (pc : Caller) : Server := { s with caller := Function.update s.caller c pc }

def broadcastEmpty : Server :=
  { s with worker := fun w => if s.worker w = .waiting then .notified else s.worker w }

def broadcastFull : Server :=
  { s with caller := fun c => match s.caller c with
      | .waiting connfd => .notified connfd
      | pc => pc }

def takeRequest (w : Nat) : Server × Option Event :=
  if s.requestCounter = 0 then (s.setWorker w .waiting, none)
  else
    let connfn := s.rq s.rqEnd
    let s := if s.requestCounter = s.maxRequests then s.broadcastFull else s
    ({ s.setWorker w (.serving connfn) with
      rqEnd := (s.rqEnd + 1) % s.maxRequests
      requestCounter := s.requestCounter - 1 }, some (.took w connfn))

def startThread (w : Nat) : Except Fault (Server × Option Event) :=
  match s.worker w with
  | .outside => .ok (s.takeRequest w)
  | .notified => if s.exiting then .ok (s.setWorker w .returned, none) else .ok (s.takeRequest w)
  | .serving _ => .ok (s.setWorker w .outside, none)
  | .waiting | .returned => .error .notEnabled

def putRequest (c : Nat) (connfd : Fd) : Server × Option Event :=
  if s.requestCounter = s.maxRequests then (s.setCaller c (.waiting connfd), none)
  else
    let s := { s with rq := Function.update s.rq s.rqStart connfd }
    let s := if s.requestCounter = 0 then s.broadcastEmpty else s
    ({ s.setCaller c .outside with
      rqStart := (s.rqStart + 1) % s.maxRequests
      requestCounter := s.requestCounter + 1 }, some (.put connfd))

def serverRequest (c : Nat) : Except Fault (Server × Option Event) :=
  match s.caller c with
  | .entering connfd =>
      if s.nrThreads = 0 then .ok (s.setCaller c (.serving connfd), none)
      else .ok (s.putRequest c connfd)
  | .notified connfd =>
      if s.exiting then .ok (s.setCaller c .outside, some (.dropped connfd))
      else .ok (s.putRequest c connfd)
  | .serving _ => .ok (s.setCaller c .outside, none)
  | .outside | .waiting _ => .error .notEnabled

def serverExit : Except Fault (Server × Option Event) :=
  match s.exit with
  | .notCalled => .ok ({ s with exiting := true, exit := .joining 0 }.broadcastEmpty, none)
  | _ => .error .notEnabled

def serverJoin : Except Fault (Server × Option Event) :=
  match s.exit with
  | .joining i =>
      if i < s.nrThreads then
        if s.worker i = .returned then .ok ({ s with exit := .joining (i + 1) }, none)
        else .error .notEnabled
      else .ok ({ s with exit := .returned }, none)
  | _ => .error .notEnabled

end Server

def step (s : Server) (action : Action) : Except Fault (Server × Option Event) :=
  if s.exit = .returned then .error .useAfterFree
  else match action with
  | .call c connfd =>
      if s.caller c = .outside then .ok (s.setCaller c (.entering connfd), none)
      else .error .notEnabled
  | .caller c => s.serverRequest c
  | .worker w => if w < s.nrThreads then s.startThread w else .error .notEnabled
  | .wakeCaller c =>
      match s.caller c with
      | .waiting connfd => .ok (s.setCaller c (.notified connfd), none)
      | _ => .error .notEnabled
  | .wakeWorker w =>
      if s.worker w = .waiting then .ok (s.setWorker w .notified, none) else .error .notEnabled
  | .exit => s.serverExit
  | .join => s.serverJoin

abbrev Label := Action × Option Event

abbrev Runs (nrThreads : Nat) (maxRequests : Int) (labels : List Label) (s : Server) : Prop :=
  Transition.Run (Transition.Takes step) (serverInit nrThreads maxRequests) labels s

end OperatingSystem.Webserver
