import OperatingSystem.Threads.Stranded

namespace OperatingSystem.Threads

open State

/-- Inside a call `caller` has entered with the stack `frames`: after finitely many nested calls it
returns, or the processor is with the saved context of a thread that is alive. -/
inductive Settles (caller : Nat) (frames : List Frame) : State → Prop
  | returned {s : State} (same : s.currentThread = caller) (back : s.callStack = frames) : Settles caller frames s
  | switched {s : State} (alive : s.current.exist = true) (resumed : s.callStack = s.current.threadInfo) :
      Settles caller frames s
  | nested {s t : State} {event : Option Event} {fs : List Frame} (enters : s.callStack = .exitCall :: fs)
      (taken : step s .resume = .ok (t, event)) (rest : Settles caller frames t) : Settles caller frames s

def entered (s : State) : Action → List Frame
  | .call call => [.user call]
  | _ => .handler s.rax :: s.callStack

def Terminates (s : State) (action : Action) : Prop :=
  ∃ t event, step s action = .ok (t, event) ∧ Settles s.currentThread (entered s action) t

def Schedules (s : State) : Action → Prop
  | .call (.yield tid) => tid = THREAD_ANY ∧ s.callStack = []
  | .call .exit => s.callStack = []
  | .interrupt => s.interrupts = true
  | _ => False

def waiters (s : State) : List Nat :=
  match s.current.wqt with
  | some q => (s.queues q).getD []
  | none => []

def NextLives (s : State) : Action → Prop
  | .call .exit => ∀ next, (s.readyList ++ waiters s).head? = some next →
      next ≠ s.currentThread ∧ (s.totalList next).exist = true
  | _ => ∀ next, s.readyList.head? = some next → (s.totalList next).exist = true

variable {s t u : State} {next : Nat} {rest : List Nat}

theorem parked_exist (enabled : Bool) (next : Nat) (iter : Option Nat) (s : State) (i : Nat) :
    ((parked enabled next iter s).totalList i).exist = (s.totalList i).exist := by
  have saved : Steady s (s.modifyThread s.currentThread fun t =>
      { t with threadInfo := .afterYield enabled false next iter :: s.callStack }) :=
    .saveContext s s.currentThread s.callStack (by simp)
  exact (saved.trans (.requeueCaller next _)).exist i

theorem parked_head (enabled : Bool) (iter : Option Nat) (head : s.readyList = next :: rest) :
    ∃ more, (parked enabled next iter s).readyList = next :: more := by
  unfold parked requeueCaller
  dsimp only
  split_ifs
  · exact ⟨rest ++ [s.currentThread], by simp [pushbackRL, head]⟩
  · exact ⟨rest, head⟩
  · exact ⟨rest, head⟩

theorem threadYield_live (head : s.readyList = next :: rest) (id : (s.totalList next).threadID = next)
    (alive : (s.totalList next).exist = true) :
    ∃ t, threadYield THREAD_ANY s = .ok t ∧ t.current.exist = true ∧ t.callStack = t.current.threadInfo := by
  have block : threadYield THREAD_ANY s =
      yieldBlock s.interrupts next none (sweepStacks (s.interruptsSet false)) := by
    simp only [threadYield, if_true, show (s.interruptsSet false).readyList = next :: rest from head]
  obtain ⟨more, list⟩ := parked_head (s := sweepStacks (s.interruptsSet false)) s.interrupts none head
  have exist := parked_exist s.interrupts next none (sweepStacks (s.interruptsSet false)) next
  have id' := parked_threadID s.interrupts next none (sweepStacks (s.interruptsSet false)) next
  rw [sweepStacks_exist] at exist
  rw [sweepStacks_threadID] at id'
  rw [block, yieldBlock_eq]
  generalize parked s.interrupts next none (sweepStacks (s.interruptsSet false)) = saved at list exist id'
  have living : (saved.totalList next).exist = true := exist.trans alive
  have identified : (saved.totalList next).threadID = next := id'.trans id
  have popped : deleteNode saved next none = .ok { saved with readyList := more } := by simp [deleteNode, list]
  have switched (v : State) (table : v.totalList = saved.totalList) (caller : Nat) :
      (switchTo caller next v).current.exist = true ∧
        (switchTo caller next v).callStack = (switchTo caller next v).current.threadInfo := by
    have current : (switchTo caller next v).currentThread = next :=
      (congrArg Thread.threadID (congrFun table next)).trans identified
    refine ⟨?_, ?_⟩
    · rw [State.current, current, (Steady.switchTo caller next v).exist, table]
      exact living
    · rw [State.current, current]
      rfl
  rw [if_neg (by simp [living])]
  split_ifs
  · exact ⟨_, rfl, switched saved rfl _⟩
  · rw [popped]
    exact ⟨_, rfl, switched _ rfl _⟩

/-- The machine is about to enter `thread_exit` in the name of the dead head of the ready list. -/
def Stuck (s : State) : Prop :=
  ∃ next rest fs, s.readyList = next :: rest ∧ (s.totalList next).exist = false ∧ s.currentThread = next ∧
    s.callStack = .exitCall :: fs

theorem threadYield_dead (head : s.readyList = next :: rest) (id : (s.totalList next).threadID = next)
    (dead : (s.totalList next).exist = false) : ∃ t, threadYield THREAD_ANY s = .ok t ∧ Stuck t := by
  have block : threadYield THREAD_ANY s =
      yieldBlock s.interrupts next none (sweepStacks (s.interruptsSet false)) := by
    simp only [threadYield, if_true, show (s.interruptsSet false).readyList = next :: rest from head]
  obtain ⟨more, list⟩ := parked_head (s := sweepStacks (s.interruptsSet false)) s.interrupts none head
  have exist := parked_exist s.interrupts next none (sweepStacks (s.interruptsSet false)) next
  have id' := parked_threadID s.interrupts next none (sweepStacks (s.interruptsSet false)) next
  rw [sweepStacks_exist] at exist
  rw [sweepStacks_threadID] at id'
  rw [block, yieldBlock_eq, if_pos (exist.trans dead)]
  exact ⟨_, rfl, next, more, _, list, exist.trans dead, id'.trans id, rfl⟩

theorem releaseWaiters_list (n : Named s) (run : releaseWaiters s = .ok u) :
    u.readyList = s.readyList ++ waiters s ∧ (∀ i, (u.totalList i).exist = (s.totalList i).exist) ∧
      u.currentThread = s.currentThread ∧ u.callStack = s.callStack := by
  rcases releaseWaiters_cases n run with ⟨none, rfl⟩ | ⟨q, nodes, own, queue, released⟩
  · simp [waiters, none]
  · refine ⟨?_, released.exist, released.current, released.callStack⟩
    simp [released.readyList, waiters, own, queue]

theorem releaseWaiters_ok (p : Private s) : ∃ u, releaseWaiters s = .ok u := by
  cases own : s.current.wqt with
  | none => exact ⟨s, by simp [releaseWaiters, own]⟩
  | some q =>
      obtain ⟨nodes, queue⟩ := p.allocated (.thread s.currentThread) q own
      cases nodes with
      | nil => exact ⟨_, by simp [releaseWaiters, own, threadWakeup, queueNodes, queue]; rfl⟩
      | cons head rest => exact ⟨_, by simp [releaseWaiters, own, threadWakeup, queueNodes, queue]; rfl⟩

theorem threadExit_of_released (released : releaseWaiters (s.interruptsSet false) = .ok u) :
    (u.readyList = [] → threadExit s = .ok ((u.interruptsSet s.interrupts).result THREAD_NONE)) ∧
    (u.readyList ≠ [] → threadExit s = threadYield THREAD_ANY (Seated.markExited s.interrupts u)) := by
  unfold threadExit
  rw [released, Result.ok_bind]
  cases ready : u.readyList with
  | nil => exact ⟨fun _ => rfl, fun nonempty => (nonempty rfl).elim⟩
  | cons head rest => exact ⟨fun empty => (List.cons_ne_nil _ _ empty).elim, fun _ => rfl⟩

theorem markExited_exist (enabled : Bool) (s : State) (i : Nat) :
    ((Seated.markExited enabled s).totalList i).exist =
      if i = s.currentThread then false else (s.totalList i).exist := by
  simp only [Seated.markExited, State.push, thread_modifyThread]
  split_ifs <;> rfl

theorem markExited_threadID (enabled : Bool) (s : State) (i : Nat) :
    ((Seated.markExited enabled s).totalList i).threadID = (s.totalList i).threadID := by
  simp only [Seated.markExited, State.push, thread_modifyThread]
  split_ifs with same
  · rw [same]
  · rfl

namespace Stuck

theorem step {event : Option Event} (n : Named s) (stuck : Stuck s) (taken : step s .resume = .ok (t, event)) :
    Stuck t := by
  obtain ⟨next, rest, fs, list, dead, -, stack⟩ := stuck
  rcases step_cases taken with ⟨_, called, -⟩ | ⟨frame, frames, -, stack', continued, -⟩ | ⟨interrupted, -⟩
  · cases called
  · obtain ⟨rfl, rfl⟩ := List.cons.inj (stack.symm.trans stack')
    have named : Named ({ s with callStack := fs }.interruptsSet false) :=
      n.of_same (fun _ => rfl) n.current n.ready n.waiting
    obtain ⟨u, released, -⟩ := Result.bind_eq_ok.mp continued
    obtain ⟨ready, exist, -, -⟩ := releaseWaiters_list named released
    have list : u.readyList = next :: (rest ++ waiters ({ s with callStack := fs }.interruptsSet false)) := by
      rw [ready, ← List.cons_append, ← list]
      rfl
    have id := (named.releaseWaiters released).ready next (by rw [list]; exact List.mem_cons_self)
    have run := (threadExit_of_released released).2 (by rw [list]; exact List.cons_ne_nil _ _)
    obtain ⟨t', yielded, stuck⟩ := threadYield_dead (s := Seated.markExited s.interrupts u) list
      ((markExited_threadID _ u next).trans id) (by
        rw [markExited_exist, exist]
        split_ifs
        · rfl
        · exact dead)
    obtain rfl := Except.ok.inj ((run.trans yielded).symm.trans continued)
    exact stuck
  · cases interrupted

theorem not_settles {caller : Nat} {frames : List Frame} (n : Named s) (stuck : Stuck s)
    (outside : frames.head? ≠ some .exitCall) : ¬ Settles caller frames s := by
  intro settles
  induction settles with
  | returned same back =>
      obtain ⟨_, _, fs, -, -, -, stack⟩ := stuck
      rw [← back, stack] at outside
      exact outside rfl
  | switched alive resumed =>
      obtain ⟨next, _, _, -, dead, current, -⟩ := stuck
      rw [State.current, current, dead] at alive
      cases alive
  | nested enters taken rest ih => exact ih (n.step taken) (stuck.step n taken)

end Stuck

theorem threadYield_settles_iff {caller : Nat} (n : Named s) (same : s.currentThread = caller)
    (outside : s.callStack.head? ≠ some .exitCall) :
    (∃ t, threadYield THREAD_ANY s = .ok t ∧ Settles caller s.callStack t) ↔
      ∀ next, s.readyList.head? = some next → (s.totalList next).exist = true := by
  cases list : s.readyList with
  | nil =>
      refine ⟨fun _ next head => (by cases head), fun _ => ⟨s.result THREAD_NONE, ?_, .returned same rfl⟩⟩
      simp only [threadYield, if_true, show (s.interruptsSet false).readyList = [] from list]
      rfl
  | cons next rest =>
      have id := n.ready next (by rw [list]; exact List.mem_cons_self)
      constructor
      · rintro ⟨t, yielded, settles⟩ next' head
        obtain rfl := Option.some.inj head
        by_contra dead
        obtain ⟨t', yielded', stuck⟩ := threadYield_dead list id (by simpa using dead)
        obtain rfl := Except.ok.inj (yielded.symm.trans yielded')
        exact stuck.not_settles (n.threadYield yielded) outside settles
      · intro lives
        obtain ⟨t, yielded, alive, resumed⟩ := threadYield_live list id (lives next rfl)
        exact ⟨t, yielded, .switched alive resumed⟩

theorem threadExit_settles_iff {caller : Nat} (n : Named s) (p : Private s) (same : s.currentThread = caller)
    (outside : s.callStack.head? ≠ some .exitCall) :
    (∃ t, threadExit s = .ok t ∧ Settles caller s.callStack t) ↔
      ∀ next, (s.readyList ++ waiters s).head? = some next → next ≠ caller ∧ (s.totalList next).exist = true := by
  obtain ⟨u, released⟩ := releaseWaiters_ok (p.steady (.interruptsSet s false))
  obtain ⟨ready, exist, current, stack⟩ := releaseWaiters_list (n.interruptsSet false) released
  have ready : u.readyList = s.readyList ++ waiters s := ready
  have named : Named u := (n.interruptsSet false).releaseWaiters released
  obtain ⟨alone, yields⟩ := threadExit_of_released released
  rw [← ready]
  cases list : u.readyList with
  | nil =>
      refine ⟨fun _ next head => (by cases head), fun _ => ⟨_, alone list, .returned (current.trans same) stack⟩⟩
  | cons next rest =>
      let v := Seated.markExited s.interrupts u
      have yields := yields (by rw [list]; exact List.cons_ne_nil _ _)
      have id : (v.totalList next).threadID = next :=
        (markExited_threadID _ u next).trans (named.ready next (by rw [list]; exact List.mem_cons_self))
      have lives : (v.totalList next).exist = true ↔ next ≠ caller ∧ (s.totalList next).exist = true := by
        rw [markExited_exist, exist, current]
        change (if next = s.currentThread then false else (s.totalList next).exist) = true ↔ _
        rw [same]
        split_ifs with here <;> simp [here]
      constructor
      · rintro ⟨t, exited, settles⟩ next' head
        obtain rfl := Option.some.inj head
        refine lives.mp ?_
        by_contra dead
        obtain ⟨t', yielded, stuck⟩ := threadYield_dead (s := v) list id (by simpa using dead)
        obtain rfl := Except.ok.inj ((yields.trans yielded).symm.trans exited)
        exact stuck.not_settles (n.threadExit exited) outside settles
      · intro found
        obtain ⟨t, yielded, alive, resumed⟩ := threadYield_live (s := v) list id (lives.mpr (found next rfl))
        exact ⟨t, yields.trans yielded, .switched alive resumed⟩

theorem terminates_call {call : Call} (user : s.callStack = []) :
    Terminates s (.call call) ↔
      ∃ t, enter call (s.push (.user call)) = .ok t ∧ Settles s.currentThread (s.push (.user call)).callStack t := by
  have stack : (s.push (.user call)).callStack = [.user call] := by rw [State.push, user]
  rw [stack]
  constructor
  · rintro ⟨t, event, taken, settles⟩
    rcases step_cases taken with ⟨_, called, -, ran, -⟩ | ⟨_, _, resumed, -⟩ | ⟨interrupted, -⟩
    · obtain rfl := Action.call.inj called
      exact ⟨t, ran, settles⟩
    · cases resumed
    · cases interrupted
  · rintro ⟨t, ran, settles⟩
    exact ⟨t, _, by simp only [step, user, ran]; rfl, settles⟩

theorem terminates_interrupt (enabled : s.interrupts = true) :
    Terminates s .interrupt ↔ ∃ t, threadYield THREAD_ANY ((s.interruptsSet false).push (.handler s.rax)) = .ok t ∧
      Settles s.currentThread ((s.interruptsSet false).push (.handler s.rax)).callStack t := by
  constructor
  · rintro ⟨t, event, taken, settles⟩
    rcases step_cases taken with ⟨_, called, -⟩ | ⟨_, _, resumed, -⟩ | ⟨-, -, ran, -⟩
    · cases called
    · cases resumed
    · exact ⟨t, ran, settles⟩
  · rintro ⟨t, ran, settles⟩
    exact ⟨t, _, by simp only [step, enabled, if_true, ran]; rfl, settles⟩

/-- Exactly when a call of `thread_yield(THREAD_ANY)` or `thread_exit` comes to an end. -/
theorem scheduling_terminates_iff {labels : List Label} {action : Action} (run : Runs Disciplined labels s)
    (schedules : Schedules s action) : Terminates s action ↔ NextLives s action := by
  obtain ⟨p, n⟩ := Private.of_run (fun _ _ disciplined => disciplined) run
  cases action with
  | call call =>
      cases call with
      | yield tid =>
          obtain ⟨rfl, user⟩ := schedules
          rw [terminates_call user]
          exact threadYield_settles_iff (n.push _) rfl (by simp [State.push])
      | exit =>
          rw [terminates_call schedules]
          exact threadExit_settles_iff (n.push _) (p.steady (.push s _)) rfl (by simp [State.push])
      | _ => exact schedules.elim
  | resume => exact schedules.elim
  | interrupt =>
      rw [terminates_interrupt schedules]
      exact threadYield_settles_iff ((n.interruptsSet false).push _) rfl (by simp [State.push])

theorem scheduling_terminates_created : ∃ labels s, Runs Disciplined labels s ∧ s.readyList = [1] ∧
    Terminates s (.call (.yield THREAD_ANY)) := by
  have run := Runs.of_queueless createOne (by decide)
  have terminates := @scheduling_terminates_iff _ _ (.call (.yield THREAD_ANY)) run ⟨rfl, rfl⟩
  refine ⟨_, _, run, rfl, terminates.mpr fun next head => ?_⟩
  obtain rfl := Option.some.inj head
  rfl

def killWhileWaitedFor : List Action :=
  [.call (.create true), .resume, .call (.yield 1), .resume, .call (.wait 0), .resume, .resume, .resume,
    .call (.create true), .resume, .call (.kill 2), .resume]

theorem scheduling_terminates_fails : ¬ ∀ labels s action, Runs Disciplined labels s → Schedules s action →
    Terminates s action := by
  intro all
  have run := Runs.of_queueless killWhileWaitedFor (by decide)
  have terminates := all _ _ (.call (.yield THREAD_ANY)) run ⟨rfl, rfl⟩
  rw [terminates_call rfl] at terminates
  have named := (Named.of_run run).push (.user (.yield THREAD_ANY))
  have alive := (threadYield_settles_iff named rfl (by simp [State.push])).mp terminates 2 rfl
  cases alive

end OperatingSystem.Threads
