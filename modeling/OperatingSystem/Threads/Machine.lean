import OperatingSystem.Library.Result
import OperatingSystem.Library.Run
import OperatingSystem.Threads.Sync

/-!
# The machine the package runs on

One processor executes the frames on `callStack`.  A thread whose stack is empty runs its own code
and may make any call; otherwise the innermost frame goes on.  A timer interrupt may arrive
whenever interrupts are enabled.  A step ends where a function returns, calls `thread_exit` or
switches context, so no step runs code of two threads.
-/

namespace OperatingSystem.Threads

open State

inductive Action
  | call (call : Call)
  | resume
  | interrupt
  deriving DecidableEq, Repr

inductive Event
  | called (thread : Nat) (call : Call)
  | returned (thread : Nat) (call : Call) (value : Tid)
  deriving DecidableEq, Repr

def enter (call : Call) (s : State) : Except Fault State :=
  match call with
  | .create stackOk => .ok (threadCreate stackOk s)
  | .yield tid => threadYield tid s
  | .exit => threadExit s
  | .kill tid => threadKill tid s
  | .queueCreate => let (s, q) := waitQueueCreate s; .ok (s.result q)
  | .queueDestroy q => waitQueueDestroy q s
  | .sleep queue => threadSleep queue s
  | .wakeup queue all => threadWakeup queue all s
  | .wait tid => threadWait tid s
  | .lockCreate => .ok (lockCreate s)
  | .lockDestroy l => lockDestroy l s
  | .lockAcquire l => lockAcquire l s
  | .lockRelease l => lockRelease l s
  | .cvCreate => .ok (cvCreate s)
  | .cvDestroy c => cvDestroy c s
  | .cvWait c l => cvWait c l s
  | .cvSignal c l => cvSignal c l s
  | .cvBroadcast c l => cvBroadcast c l s
  | .interruptsSet enabled => .ok (s.interruptsSet enabled)

def continueFrame (frame : Frame) (s : State) : Except Fault State :=
  match frame with
  | .user _ => .ok s
  | .stub => .ok (s.interruptsSet true)
  | .handler rax => .ok ((s.interruptsSet true).result rax)
  | .afterYield enabled true _ _ => .ok ((s.interruptsSet enabled).push .yieldResult)
  | .afterYield enabled false next iter => yieldBlock enabled next iter s
  | .yieldResult => .ok (s.result s.current.nextThreadID)
  | .exitCall => threadExit s
  | .afterExit caller next => .ok (switchTo caller next s)
  | .exitReturn enabled => .ok ((s.interruptsSet enabled).result THREAD_NONE)
  | .afterSleep enabled next => .ok ((s.interruptsSet enabled).result (s.threadIDOf next))
  | .waitReturn enabled tid => .ok ((s.interruptsSet enabled).result tid)
  | .acquireLoop l enabled => acquireLoop l enabled s
  | .cvReacquire l enabled => lockAcquire l (s.push (.cvReturn enabled))
  | .cvReturn enabled => .ok (s.interruptsSet enabled)

def frameEvent (s : State) : Frame → Option Event
  | .user call => some (.returned s.currentThread call s.rax)
  | _ => none

def step (s : State) : Action → Except Fault (State × Option Event)
  | .call call =>
      match s.callStack with
      | [] => do
          let t ← enter call (s.push (.user call))
          return (t, some (.called s.currentThread call))
      | _ :: _ => .error .notInCall
  | .resume =>
      match s.callStack with
      | [] => .error .notInCall
      | frame :: frames => do
          let t ← continueFrame frame { s with callStack := frames }
          return (t, frameEvent s frame)
  | .interrupt =>
      if s.interrupts then do
        let t ← threadYield THREAD_ANY ((s.interruptsSet false).push (.handler s.rax))
        return (t, none)
      else .error .notInCall

theorem step_cases {s t : State} {action : Action} {event : Option Event} (run : step s action = .ok (t, event)) :
    (∃ call, action = .call call ∧ s.callStack = [] ∧ enter call (s.push (.user call)) = .ok t ∧
      event = some (.called s.currentThread call)) ∨
    (∃ frame frames, action = .resume ∧ s.callStack = frame :: frames ∧
      continueFrame frame { s with callStack := frames } = .ok t ∧ event = frameEvent s frame) ∨
    (action = .interrupt ∧ s.interrupts = true ∧
      threadYield THREAD_ANY ((s.interruptsSet false).push (.handler s.rax)) = .ok t ∧ event = none) := by
  cases action with
  | call call =>
      cases stack : s.callStack with
      | nil =>
          simp only [step, stack] at run
          obtain ⟨u, entered, run⟩ := Result.bind_eq_ok.mp run
          obtain ⟨rfl, rfl⟩ := Prod.mk.inj (Except.ok.inj run)
          exact Or.inl ⟨call, rfl, rfl, entered, rfl⟩
      | cons frame frames => simp [step, stack] at run
  | resume =>
      cases stack : s.callStack with
      | nil => simp [step, stack] at run
      | cons frame frames =>
          simp only [step, stack] at run
          obtain ⟨u, continued, run⟩ := Result.bind_eq_ok.mp run
          obtain ⟨rfl, rfl⟩ := Prod.mk.inj (Except.ok.inj run)
          exact Or.inr (Or.inl ⟨frame, frames, rfl, rfl, continued, rfl⟩)
  | interrupt =>
      simp only [step] at run
      split_ifs at run with enabled
      obtain ⟨u, yielded, run⟩ := Result.bind_eq_ok.mp run
      obtain ⟨rfl, rfl⟩ := Prod.mk.inj (Except.ok.inj run)
      exact Or.inr (Or.inr ⟨rfl, enabled, yielded, rfl⟩)

abbrev Label := Action × Option Event

def Steps (allowed : State → Action → Prop) (s : State) (label : Label) (t : State) : Prop :=
  allowed s label.1 ∧ step s label.1 = .ok (t, label.2)

/-- The runs of the package from `thread_init`, every call and every schedule included. -/
abbrev Runs (allowed : State → Action → Prop) (labels : List Label) (s : State) : Prop :=
  Transition.Run (Steps allowed) threadInit labels s

def exec (allowed : State → Action → Prop) [∀ s action, Decidable (allowed s action)] :
    State → List Action → Option (State × List Label)
  | s, [] => some (s, [])
  | s, action :: actions =>
      if allowed s action then
        match step s action with
        | .ok (t, event) => (exec allowed t actions).map fun r => (r.1, (action, event) :: r.2)
        | .error _ => none
      else none

theorem exec_run {allowed : State → Action → Prop} [∀ s action, Decidable (allowed s action)]
    {s : State} {actions : List Action} {r : State × List Label}
    (ran : exec allowed s actions = some r) : Transition.Run (Steps allowed) s r.2 r.1 := by
  induction actions generalizing s r with
  | nil =>
      obtain rfl := Option.some.inj ran
      exact .start
  | cons action actions ih =>
      unfold exec at ran
      split_ifs at ran with ok
      split at ran
      · rename_i t event taken
        obtain ⟨rest, more, rfl⟩ := Option.map_eq_some_iff.mp ran
        have first : Transition.Run (Steps allowed) s [(action, event)] t := .single ⟨ok, taken⟩
        exact first.trans (ih more)
      · simp at ran

theorem Runs.weaken {allowed allowed' : State → Action → Prop} {labels : List Label} {s : State} (run : Runs allowed labels s)
    (weaker : ∀ s action, allowed s action → allowed' s action) : Runs allowed' labels s :=
  run.mono fun s label _ taken => ⟨weaker s label.1 taken.1, taken.2⟩

theorem Runs.of_exec {allowed : State → Action → Prop} [∀ s action, Decidable (allowed s action)]
    (actions : List Action) (ran : (exec allowed threadInit actions).isSome) :
    Runs allowed ((exec allowed threadInit actions).get ran).2
      ((exec allowed threadInit actions).get ran).1 :=
  exec_run (Option.some_get ran).symm

end OperatingSystem.Threads
