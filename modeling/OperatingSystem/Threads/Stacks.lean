import OperatingSystem.Threads.Mutex

namespace OperatingSystem.Threads

open State

/-- The stacks that run with interrupts on: user code, a library call about to return to it, and
`thread_yield` about to return to that call. -/
inductive Open : List Frame → Prop
  | code : Open []
  | user (call : Call) : Open [.user call]
  | result (call : Call) : Open [.yieldResult, .user call]

inductive Sleeping : List Frame → Prop
  | wait (enabled : Bool) (tid : Tid) : Sleeping [.waitReturn enabled tid, .user (.wait tid)]
  | acquire (l : Nat) (enabled : Bool) : Sleeping [.acquireLoop l enabled, .user (.lockAcquire l)]
  | reacquire (c l : Nat) (enabled : Bool) :
      Sleeping [.acquireLoop l false, .cvReturn enabled, .user (.cvWait c l)]
  | cv (c l : Nat) (enabled : Bool) : Sleeping [.cvReacquire l enabled, .user (.cvWait c l)]

inductive Saved : List Frame → Prop
  | none : Saved []
  | stub : Saved [.stub]
  | yielded (enabled : Bool) (next : Nat) (iter : Option Nat) (call : Call) :
      Saved [.afterYield enabled true next iter, .user call]
  | preempted (next : Nat) (iter : Option Nat) {rax : Tid} {frames : List Frame} (interruptible : Open frames) :
      Saved (.afterYield false true next iter :: .handler rax :: frames)
  | exited (next : Nat) (iter : Option Nat) (enabled : Bool) :
      Saved [.afterYield false true next iter, .exitReturn enabled, .user .exit]
  | slept (enabled : Bool) (next : Nat) (queue : Option Nat) : Saved [.afterSleep enabled next, .user (.sleep queue)]
  | sleeping (next : Nat) {frames : List Frame} (sleeping : Sleeping frames) : Saved (.afterSleep false next :: frames)

/-- The stacks the machine runs on, with interrupts on or off; `cv_wait` only returns with the lock. -/
inductive Calling (owns : Nat → Prop) : Bool → List Frame → Prop
  | interruptible (enabled : Bool) {frames : List Frame} (interruptible : Open frames) : Calling owns enabled frames
  | resumed {frames : List Frame} (saved : Saved frames) : Calling owns false frames
  | handler {rax : Tid} {frames : List Frame} (interruptible : Open frames) : Calling owns false (.handler rax :: frames)
  | handled {rax : Tid} {frames : List Frame} (interruptible : Open frames) :
      Calling owns false (.yieldResult :: .handler rax :: frames)
  | survived (enabled : Bool) : Calling owns false [.yieldResult, .exitReturn enabled, .user .exit]
  | exiting (enabled : Bool) : Calling owns false [.exitReturn enabled, .user .exit]
  | sleeping {frames : List Frame} (sleeping : Sleeping frames) : Calling owns false frames
  | cvReturn (c l : Nat) (enabled : Bool) (holds : owns l) : Calling owns false [.cvReturn enabled, .user (.cvWait c l)]

variable {owns : Nat → Prop}

theorem Calling.off {enabled : Bool} {frames : List Frame} (calling : Calling owns enabled frames) :
    Calling owns false frames := by
  cases calling with
  | interruptible _ interruptible => exact .interruptible false interruptible
  | resumed saved => exact .resumed saved
  | handler interruptible => exact .handler interruptible
  | handled interruptible => exact .handled interruptible
  | survived enabled => exact .survived enabled
  | exiting enabled => exact .exiting enabled
  | sleeping sleeping => exact .sleeping sleeping
  | cvReturn c l enabled holds => exact .cvReturn c l enabled holds

theorem Calling.of_enabled {frames : List Frame} (calling : Calling owns true frames) : Open frames := by
  cases calling with
  | interruptible _ interruptible => exact interruptible

section Masks

variable {s t : State}

theorem wakeAll_interrupts (nodes : List Nat) (s : State) :
    (nodes.foldl wakeThread s).interrupts = s.interrupts ∧ (nodes.foldl wakeThread s).nextCv = s.nextCv := by
  induction nodes generalizing s with
  | nil => exact ⟨rfl, rfl⟩
  | cons head rest ih => exact ih _

theorem threadWakeup_interrupts {queue : Option Nat} {all : Int} (run : threadWakeup queue all s = .ok t) :
    t.interrupts = s.interrupts ∧ t.nextCv = s.nextCv := by
  rcases threadWakeup_cases run with ⟨v, rfl⟩ | ⟨q, head, rest, -, -, rfl | rfl⟩
  · exact ⟨rfl, rfl⟩
  · exact ⟨rfl, rfl⟩
  · exact wakeAll_interrupts (head :: rest) (s.setQueue q (some []))

theorem lockRelease_interrupts {l : Nat} (run : lockRelease l s = .ok t) : t.interrupts = s.interrupts := by
  obtain ⟨lock, -, run⟩ := Result.bind_eq_ok.mp run
  split_ifs at run
  · exact Except.ok.inj run ▸ rfl
  · exact (threadWakeup_interrupts run).1.trans rfl

theorem lockRelease_callStack {l : Nat} (run : lockRelease l s = .ok t) : t.callStack = s.callStack := by
  obtain ⟨lock, -, woken⟩ := lockRelease_cases run
  refine woken.callStack.trans ?_
  unfold unlock
  split_ifs <;> rfl

theorem releaseWaiters_interrupts (run : releaseWaiters s = .ok t) :
    t.interrupts = s.interrupts ∧ t.nextCv = s.nextCv := by
  unfold releaseWaiters at run
  split at run
  · exact Except.ok.inj run ▸ ⟨rfl, rfl⟩
  · obtain ⟨u, woken, run⟩ := Result.bind_eq_ok.mp run
    have same := threadWakeup_interrupts woken
    exact Except.ok.inj run ▸ same

theorem releaseWaiters_callStack (run : releaseWaiters s = .ok t) : t.callStack = s.callStack := by
  unfold releaseWaiters at run
  split at run
  · exact Except.ok.inj run ▸ rfl
  · obtain ⟨u, woken, run⟩ := Result.bind_eq_ok.mp run
    rw [← Except.ok.inj run]
    exact (threadWakeup_woken woken).callStack

theorem releaseWaiters_threadInfo (run : releaseWaiters s = .ok t) (i : Nat) :
    (t.totalList i).threadInfo = (s.totalList i).threadInfo := by
  unfold releaseWaiters at run
  split at run
  · exact Except.ok.inj run ▸ rfl
  · obtain ⟨u, woken, run⟩ := Result.bind_eq_ok.mp run
    rw [← Except.ok.inj run, thread_modifyThread]
    have same : (u.totalList i).threadInfo = (s.totalList i).threadInfo := by
      rw [(threadWakeup_woken woken).threads]
    split_ifs with caller
    · exact caller ▸ same
    · exact same

end Masks

structure Stacked (s : State) : Prop where
  running : Calling (fun l => Owns s l s.currentThread) s.interrupts s.callStack
  saved : ∀ i, Saved (s.totalList i).threadInfo

namespace Stacked

variable {lost : Nat → Prop} {s t : State} {call : Call}

theorem returning (k : Stacked s) (contexts : ∀ i, (t.totalList i).threadInfo = (s.totalList i).threadInfo)
    (stack : t.callStack = [.user call]) : Stacked t where
  running := by
    rw [stack]
    exact .interruptible _ (.user call)
  saved i := contexts i ▸ k.saved i

theorem goingOn (k : Stacked s) (contexts : ∀ i, (t.totalList i).threadInfo = (s.totalList i).threadInfo)
    (calling : Calling (fun l => Owns t l t.currentThread) t.interrupts t.callStack) : Stacked t :=
  ⟨calling, fun i => contexts i ▸ k.saved i⟩

theorem switched {parked : Status} {frame : Frame} {next : Nat} (saved : ∀ i, Saved (s.totalList i).threadInfo)
    (sw : Switched parked frame next s t) (off : t.interrupts = false) (new : Saved (frame :: s.callStack)) : Stacked t := by
  have contexts (i : Nat) : Saved (t.totalList i).threadInfo := by
    by_cases caller : i = s.currentThread
    · rw [caller, sw.saved]
      exact new
    · rw [sw.contexts i caller]
      exact saved i
  refine ⟨?_, contexts⟩
  rw [off, sw.callStack]
  exact .resumed (contexts next)

theorem threadYield {want : Tid} (p : Seated lost s) (k : Stacked s)
    (saved : ∀ next iter, Saved (.afterYield s.interrupts true next iter :: s.callStack))
    (run : threadYield want s = .ok t) : Stacked t := by
  rcases threadYield_cases p.yieldable run with rfl | rfl | ⟨next, iter, -, switched, -, -, off⟩
  · exact k.goingOn (fun _ => rfl) k.running
  · exact k.goingOn (fun _ => rfl) k.running
  · exact .switched k.saved switched off (saved next iter)

theorem threadSleep {queue : Option Nat} (p : Seated lost s) (k : Stacked s)
    (saved : ∀ next, Saved (.afterSleep s.interrupts next :: s.callStack)) (run : threadSleep queue s = .ok t) :
    Stacked t := by
  cases queue with
  | none => exact Except.ok.inj run ▸ k.goingOn (fun _ => rfl) k.running
  | some q =>
      rcases threadSleep_cases p.yieldable run with ⟨-, rfl⟩ | ⟨next, rest, nodes, -, -, switched, -, -, off⟩
      · exact k.goingOn (fun _ => rfl) k.running
      · exact .switched k.saved switched off (saved next)

theorem threadWakeup {queue : Option Nat} {all : Int} (k : Stacked s) (stack : s.callStack = [.user call])
    (run : threadWakeup queue all s = .ok t) : Stacked t := by
  have woken := threadWakeup_woken run
  refine k.returning (fun i => ?_) (woken.callStack.trans stack)
  rw [woken.threads]

theorem sleepOn {q : Nat} (p : Seated lost s) (k : Stacked s) (off : s.interrupts = false) (sleeping : Sleeping s.callStack)
    (run : Threads.threadSleep (some q) s = .ok t) : Stacked t := by
  refine k.threadSleep p (fun next => ?_) run
  rw [off]
  exact .sleeping next sleeping

theorem threadCreate (k : Stacked s) (stack : s.callStack = [.user call]) (stackOk : Bool) :
    Stacked (threadCreate stackOk s) := by
  rcases threadCreate_started stackOk s with refused | ⟨id, area, nextStack, interrupts, rax, -, -, started⟩
  · rw [refused]
    exact k.returning (fun _ => rfl) stack
  · rw [started]
    refine ⟨?_, fun i => ?_⟩
    · change Calling _ interrupts s.callStack
      rw [stack]
      exact .interruptible _ (.user call)
    · by_cases new : i = id
      · rw [new]
        change Saved (Function.update s.totalList id ((s.totalList id).started id area) id).threadInfo
        rw [Function.update_self]
        exact .stub
      · change Saved (Function.update s.totalList id ((s.totalList id).started id area) i).threadInfo
        rw [Function.update_of_ne new]
        exact k.saved i

theorem threadExit (p : Seated lost s) (k : Stacked s) (stack : s.callStack = [.user .exit])
    (run : threadExit s = .ok t) : Stacked t := by
  obtain ⟨u, released, -, rfl | ⟨next, rest, -, switched, -, -, off⟩⟩ := p.threadExit_cases run
  all_goals
    have contexts (i : Nat) : (u.totalList i).threadInfo = (s.totalList i).threadInfo := releaseWaiters_threadInfo released i
    have kept : u.callStack = [.user .exit] := (releaseWaiters_callStack released).trans stack
  · exact k.returning contexts kept
  · refine .switched (fun i => ?_) switched off ?_
    · simp only [Seated.markExited, State.push, thread_modifyThread]
      split_ifs with caller
      · rw [← caller, contexts]
        exact k.saved i
      · rw [contexts]
        exact k.saved i
    · have masked : u.interrupts = false := (releaseWaiters_interrupts released).1
      simp only [Seated.markExited, State.push, masked]
      change Saved (_ :: _ :: u.callStack)
      rw [kept]
      exact .exited next none s.interrupts

theorem acquireLoop {l : Nat} {enabled : Bool} {frames : List Frame} (p : Seated lost s) (k : Stacked s)
    (off : s.interrupts = false) (sleeping : Sleeping (.acquireLoop l enabled :: frames))
    (stack : s.callStack = .acquireLoop l enabled :: frames)
    (run : acquireLoop l enabled { s with callStack := frames } = .ok t) : Stacked t := by
  obtain ⟨lock, -, run⟩ := Result.bind_eq_ok.mp run
  split_ifs at run
  · rw [← Except.ok.inj run]
    refine k.goingOn (fun _ => rfl) ?_
    cases sleeping with
    | acquire => exact .interruptible _ (.user _)
    | reacquire c _ enabled => exact .cvReturn c l enabled ⟨_, Function.update_self _ _ _, rfl, rfl⟩
  · have same : State.push { s with callStack := frames } (.acquireLoop l enabled) = s := by
      rw [State.push, ← stack]
    rw [same] at run
    exact sleepOn p k off (stack ▸ sleeping) run

theorem lockRelease {l : Nat} (k : Stacked s) (stack : s.callStack = [.user call]) (run : lockRelease l s = .ok t) :
    Stacked t := by
  obtain ⟨lock, -, woken⟩ := lockRelease_cases run
  have same : (unlock l lock s).callStack = s.callStack ∧ (unlock l lock s).totalList = s.totalList := by
    unfold unlock
    split_ifs <;> exact ⟨rfl, rfl⟩
  refine k.returning (fun i => ?_) ((woken.callStack.trans same.1).trans stack)
  rw [woken.threads, same.2]

theorem cvWait {c l : Nat} (p : Seated lost s) (k : Stacked s) (stack : s.callStack = [.user (.cvWait c l)])
    (run : cvWait c l s = .ok t) : Stacked t := by
  obtain ⟨wqC, -, run⟩ := Result.bind_eq_ok.mp run
  obtain ⟨u, released, run⟩ := Result.bind_eq_ok.mp run
  obtain ⟨lock, -, run⟩ := Result.bind_eq_ok.mp run
  have masked : Stacked (s.interruptsSet false) := k.goingOn (fun _ => rfl) k.running.off
  have after : Stacked u := masked.lockRelease stack released
  obtain ⟨lock', -, woken⟩ := lockRelease_cases released
  have off : u.interrupts = false := lockRelease_interrupts released
  have asleep : Sleeping (u.push (.cvReacquire l s.interrupts)).callStack := by
    change Sleeping (_ :: u.callStack)
    rw [lockRelease_callStack released]
    change Sleeping (_ :: s.callStack)
    rw [stack]
    exact .cv c l s.interrupts
  have waiting : Stacked (u.push (.cvReacquire l s.interrupts)) := by
    refine after.goingOn (fun _ => rfl) ?_
    exact off ▸ .sleeping asleep
  split_ifs at run
  · exact sleepOn (((p.interruptsSet false).lockRelease released).push rfl) waiting off asleep run
  · exact Except.ok.inj run ▸ waiting

theorem cvWake {all : Int} {c l : Nat} (k : Stacked s) (stack : s.callStack = [.user call])
    (run : cvWake all c l s = .ok t) : Stacked t := by
  obtain ⟨wqC, -, run⟩ := Result.bind_eq_ok.mp run
  obtain ⟨lock, -, run⟩ := Result.bind_eq_ok.mp run
  split_ifs at run
  · exact k.threadWakeup stack run
  · exact Except.ok.inj run ▸ k

theorem threadWait {tid : Tid} (p : Seated lost s) (k : Stacked s) (stack : s.callStack = [.user (.wait tid)])
    (run : threadWait tid s = .ok t) : Stacked t := by
  simp only [Threads.threadWait] at run
  split_ifs at run
  · exact Except.ok.inj run ▸ k.returning (fun _ => rfl) stack
  · exact Except.ok.inj run ▸ k.returning (fun _ => rfl) stack
  have asleep : Sleeping (.waitReturn s.interrupts tid :: s.callStack) := by
    rw [stack]
    exact .wait s.interrupts tid
  have waits : Stacked ((s.interruptsSet false).push (.waitReturn s.interrupts tid)) :=
    k.goingOn (fun _ => rfl) (.sleeping asleep)
  have seated : Seated lost ((s.interruptsSet false).push (.waitReturn s.interrupts tid)) := (p.interruptsSet false).push rfl
  split at run
  · exact sleepOn seated waits rfl asleep run
  · refine sleepOn (seated.queueCreate.setWqt _ _) (waits.goingOn (fun i => ?_) (.sleeping asleep)) rfl asleep run
    rw [thread_modifyThread]
    split_ifs with same
    · exact same ▸ rfl
    · rfl

theorem cvDestroy {c : Nat} (k : Stacked s) (stack : s.callStack = [.user call]) (run : cvDestroy c s = .ok t) :
    Stacked t := by
  obtain ⟨q, -, run⟩ := Result.bind_eq_ok.mp run
  obtain ⟨nodes, -, run⟩ := Result.bind_eq_ok.mp run
  rw [← Except.ok.inj run]
  split_ifs
  · exact k.returning (fun _ => rfl) stack
  · exact k.returning (fun _ => rfl) stack

theorem enter (p : Seated lost s) (k : Stacked s) (killFree : KillFree (.call call)) (stack : s.callStack = [.user call])
    (run : enter call s = .ok t) : Stacked t := by
  cases call with
  | create stackOk => exact Except.ok.inj run ▸ k.threadCreate stack stackOk
  | yield tid =>
      refine k.threadYield p (fun next iter => ?_) run
      rw [stack]
      exact .yielded s.interrupts next iter _
  | exit => exact k.threadExit p stack run
  | kill tid => exact killFree.elim
  | sleep queue =>
      refine k.threadSleep p (fun next => ?_) run
      rw [stack]
      exact .slept s.interrupts next queue
  | wakeup queue all => exact k.threadWakeup stack run
  | wait tid => exact k.threadWait p stack run
  | lockAcquire l =>
      obtain ⟨lock, -, run⟩ := Result.bind_eq_ok.mp run
      rw [← Except.ok.inj run]
      refine k.goingOn (fun _ => rfl) ?_
      change Calling _ false (_ :: s.callStack)
      rw [stack]
      exact .sleeping (.acquire l s.interrupts)
  | lockRelease l => exact k.lockRelease stack run
  | cvWait c l => exact k.cvWait p stack run
  | cvSignal c l | cvBroadcast c l => exact k.cvWake stack run
  | lockDestroy l =>
      obtain ⟨lock, -, run⟩ := Result.bind_eq_ok.mp run
      split_ifs at run
      · exact Except.ok.inj run ▸ k.returning (fun _ => rfl) stack
      · exact Except.ok.inj run ▸ k
  | cvDestroy c => exact k.cvDestroy stack run
  | queueDestroy q =>
      obtain ⟨nodes, -, run⟩ := Result.bind_eq_ok.mp run
      exact Except.ok.inj run ▸ k.returning (fun _ => rfl) stack
  | queueCreate | lockCreate | cvCreate | interruptsSet enabled =>
      exact Except.ok.inj run ▸ k.returning (fun _ => rfl) stack

theorem continueFrame {frame : Frame} {frames : List Frame} (p : Seated lost s) (k : Stacked s)
    (stack : s.callStack = frame :: frames) (run : continueFrame frame { s with callStack := frames } = .ok t) :
    Stacked t := by
  have calling := k.running
  rw [stack] at calling
  generalize off : s.interrupts = enabled at calling
  have goes (calling : Calling (fun l => Owns t l t.currentThread) t.interrupts t.callStack) (table : t.totalList = s.totalList) : Stacked t :=
    k.goingOn (fun i => by rw [table]) calling
  cases calling with
  | interruptible _ interruptible =>
      cases interruptible with
      | user call => exact goes (Except.ok.inj run ▸ .interruptible _ .code) (Except.ok.inj run ▸ rfl)
      | result call => exact goes (Except.ok.inj run ▸ .interruptible _ (.user call)) (Except.ok.inj run ▸ rfl)
  | resumed saved =>
      cases saved with
      | stub => exact goes (Except.ok.inj run ▸ .interruptible _ .code) (Except.ok.inj run ▸ rfl)
      | yielded enabled next iter call =>
          exact goes (Except.ok.inj run ▸ .interruptible _ (.result call)) (Except.ok.inj run ▸ rfl)
      | preempted next iter interruptible => exact goes (Except.ok.inj run ▸ .handled interruptible) (Except.ok.inj run ▸ rfl)
      | exited next iter enabled => exact goes (Except.ok.inj run ▸ .survived enabled) (Except.ok.inj run ▸ rfl)
      | slept enabled next queue => exact goes (Except.ok.inj run ▸ .interruptible _ (.user _)) (Except.ok.inj run ▸ rfl)
      | sleeping next sleeping => exact goes (Except.ok.inj run ▸ .sleeping sleeping) (Except.ok.inj run ▸ rfl)
  | handler interruptible => exact goes (Except.ok.inj run ▸ .interruptible _ interruptible) (Except.ok.inj run ▸ rfl)
  | handled interruptible =>
      refine goes ?_ (Except.ok.inj run ▸ rfl)
      rw [← Except.ok.inj run]
      exact off ▸ .handler interruptible
  | survived enabled =>
      refine goes ?_ (Except.ok.inj run ▸ rfl)
      rw [← Except.ok.inj run]
      exact off ▸ .exiting enabled
  | exiting enabled => exact goes (Except.ok.inj run ▸ .interruptible _ (.user _)) (Except.ok.inj run ▸ rfl)
  | cvReturn c l enabled holds => exact goes (Except.ok.inj run ▸ .interruptible _ (.user _)) (Except.ok.inj run ▸ rfl)
  | sleeping sleeping =>
      cases sleeping with
      | wait enabled tid => exact goes (Except.ok.inj run ▸ .interruptible _ (.user _)) (Except.ok.inj run ▸ rfl)
      | acquire l enabled => exact k.acquireLoop p off (.acquire l enabled) stack run
      | reacquire c l enabled => exact k.acquireLoop p off (.reacquire c l enabled) stack run
      | cv c l enabled =>
          obtain ⟨lock, -, run⟩ := Result.bind_eq_ok.mp run
          refine goes ?_ (Except.ok.inj run ▸ rfl)
          rw [← Except.ok.inj run]
          change Calling _ false [.acquireLoop l s.interrupts, .cvReturn enabled, .user (.cvWait c l)]
          rw [off]
          exact .sleeping (.reacquire c l enabled)

theorem step {action : Action} {event : Option Event} (p : Seated lost s) (k : Stacked s) (killFree : KillFree action)
    (run : step s action = .ok (t, event)) : Stacked t := by
  rcases step_cases run with ⟨call, rfl, stack, entered, -⟩ | ⟨frame, frames, -, stack, continued, -⟩ |
    ⟨-, enabled, yielded, -⟩
  · have called : Stacked (s.push (.user call)) := by
      refine k.goingOn (fun _ => rfl) ?_
      change Calling _ s.interrupts (_ :: s.callStack)
      rw [stack]
      exact .interruptible _ (.user call)
    refine enter (p.push rfl) called killFree ?_ entered
    rw [State.push, stack]
  · exact k.continueFrame p stack continued
  · have interruptible : Open s.callStack := Calling.of_enabled (enabled ▸ k.running)
    have interrupted : Stacked ((s.interruptsSet false).push (.handler s.rax)) := k.goingOn (fun _ => rfl) (.handler interruptible)
    exact interrupted.threadYield ((p.interruptsSet false).push rfl)
      (fun next iter => .preempted next iter interruptible) yielded

theorem init : Stacked threadInit where
  running := .interruptible true .code
  saved i := by
    by_cases first : i = 0 <;> simp [threadInit, first, Thread.zero, Saved.none]

end Stacked

end OperatingSystem.Threads
