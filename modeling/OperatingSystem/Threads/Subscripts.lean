import OperatingSystem.Threads.Contexts

namespace OperatingSystem.Threads

open State

section Subscripts

def searched (s : State) : Nat → Nat → List Tid
  | 0, _ => []
  | fuel + 1, id => (id : Tid) :: if (s.totalList id).exist then searched s fuel (id + 1) else []

def createSubscripts (s : State) : List Tid :=
  searched s (THREAD_MAX_THREADS - 1) 1 ++ ((freeSlot s (THREAD_MAX_THREADS - 1) 1).map fun id : Nat => (id : Tid)).toList

/-- `for(int i =0; i<=1024; i++)` in `thread_yield`. -/
def sweepSubscripts : List Tid := (List.range (THREAD_MAX_THREADS + 1)).map fun i : Nat => (i : Tid)

def blockSubscripts (next : Nat) (s : State) : List Tid :=
  (s.currentThread : Tid) ::
    (if s.current.status = .running ∧ s.current.exist then [s.threadIDOf next] else []) ++
    if (s.totalList next).exist then [s.threadIDOf next] else []

def yieldSubscripts (want : Tid) (s : State) : List Tid :=
  if want = THREAD_ANY then
    match s.readyList with
    | [] => []
    | head :: _ => sweepSubscripts ++ blockSubscripts head s
  else if want = THREAD_SELF ∨ want = s.currentThread then
    (s.currentThread : Tid) :: sweepSubscripts ++ blockSubscripts s.currentThread s
  else
    match s.findNode s.readyList want with
    | none => []
    | some node => sweepSubscripts ++ blockSubscripts node s

def wakeupSubscripts (queue : Option Nat) (all : Int) (s : State) : List Tid :=
  match queue with
  | none => []
  | some q =>
      match s.queues q with
      | none | some [] => []
      | some (head :: rest) =>
          if all = 0 then [s.threadIDOf head] else if all = 1 then (head :: rest).map s.threadIDOf else []

def leaveSubscripts (s : State) : List Tid :=
  match s.readyList with
  | [] => []
  | _ :: _ => yieldSubscripts THREAD_ANY (s.modifyThread s.currentThread fun t => { t with exist := false, status := .exited })

def exitSubscripts (s : State) : List Tid :=
  (s.currentThread : Tid) :: wakeupSubscripts s.current.wqt 1 s ++
    match releaseWaiters (s.interruptsSet false) with
    | .ok u => leaveSubscripts u
    | .error _ => []

def killSubscripts (tid : Tid) (s : State) : List Tid :=
  match killWalk tid s with
  | .ok _ => [(s.currentThread : Tid)]
  | .error _ => []

def sleepSubscripts (queue : Option Nat) (s : State) : List Tid :=
  match queue, s.readyList with
  | some _, _ :: _ => [(s.currentThread : Tid)]
  | _, _ => []

def waitSubscripts (tid : Tid) (s : State) : List Tid :=
  if tid < 0 ∨ tid = s.currentThread ∨ tid > THREAD_MAX_THREADS then []
  else if (s.totalList tid.toNat).exist = false then [tid]
  else tid :: sleepSubscripts (some ((s.totalList tid.toNat).wqt.getD s.nextQueue)) s

def releaseSubscripts (l : Nat) (s : State) : List Tid :=
  match s.locks l with
  | some lock => if lock.avaliable then [] else wakeupSubscripts (some lock.wqL) 1 s
  | none => []

def acquireSubscripts (l : Nat) (s : State) : List Tid :=
  match s.locks l with
  | some lock => if lock.avaliable then [] else sleepSubscripts (some lock.wqL) s
  | none => []

def cvWaitSubscripts (c l : Nat) (s : State) : List Tid :=
  releaseSubscripts l s ++
    match lockRelease l (s.interruptsSet false) with
    | .ok u => sleepSubscripts (s.cvs c) u
    | .error _ => []

/-- The elements of `TotalList` that a call uses up to where it hands the processor over, each once. -/
def callSubscripts (s : State) : Call → List Tid
  | .create _ => createSubscripts s
  | .yield tid => yieldSubscripts tid s
  | .exit => exitSubscripts s
  | .kill tid => killSubscripts tid s
  | .sleep queue => sleepSubscripts queue s
  | .wakeup queue all => wakeupSubscripts queue all s
  | .wait tid => waitSubscripts tid s
  | .lockRelease l => releaseSubscripts l s
  | .cvWait c l => cvWaitSubscripts c l s
  | .cvSignal c _ => wakeupSubscripts (s.cvs c) 0 s
  | .cvBroadcast c _ => wakeupSubscripts (s.cvs c) 1 s
  | .queueCreate | .queueDestroy _ | .lockCreate | .lockDestroy _ | .lockAcquire _ | .cvCreate | .cvDestroy _ | .interruptsSet _ => []

def frameSubscripts (s : State) : Frame → List Tid
  | .afterYield _ false next _ => blockSubscripts next s
  | .yieldResult => [(s.currentThread : Tid)]
  | .exitCall => exitSubscripts s
  | .afterExit _ next => [s.threadIDOf next]
  | .acquireLoop l _ => acquireSubscripts l s
  | .afterYield _ true _ _ | .user _ | .stub | .handler _ | .exitReturn _ | .afterSleep _ _ | .waitReturn _ _ | .cvReacquire _ _
  | .cvReturn _ => []

end Subscripts

section Identifiers

variable {s t u : State}

def SameIds (s t : State) : Prop := ∀ i, (t.totalList i).threadID = (s.totalList i).threadID

namespace SameIds

theorem trans (first : SameIds s t) (second : SameIds t u) : SameIds s u := fun i => (second i).trans (first i)

theorem of_table (table : t.totalList = s.totalList) : SameIds s t := fun _ => by rw [table]

theorem modifyThread (s : State) (i : Nat) (f : Thread → Thread) (keeps : ∀ t, (f t).threadID = t.threadID) :
    SameIds s (s.modifyThread i f) := fun j => Named.threadID_modifyThread s i j f keeps

theorem switchTo (caller next : Nat) (s : State) : SameIds s (switchTo caller next s) := by
  have moved : SameIds s { s with currentThread := (s.totalList next).threadID } := of_table rfl
  exact ((moved.trans (modifyThread _ (s.totalList next).threadID (fun t => { t with status := .running }) fun _ => rfl)).trans
    (modifyThread _ caller (fun t => { t with threadInfo := markCalled t.threadInfo }) fun _ => rfl)).trans (of_table rfl)

theorem yieldBlock {enabled : Bool} {next : Nat} {iter : Option Nat} (run : yieldBlock enabled next iter s = .ok t) : SameIds s t := by
  have waits : SameIds s (parked enabled next iter s) := parked_threadID enabled next iter s
  rcases yieldBlock_cases run with rfl | ⟨nodes, rfl⟩
  · exact waits.trans (of_table rfl)
  · have unlinked : SameIds s { parked enabled next iter s with readyList := nodes } := waits.trans (of_table rfl)
    exact unlinked.trans (switchTo _ _ _)

theorem threadYield {want : Tid} (n : Named s) (run : threadYield want s = .ok t) : SameIds s t := by
  rcases threadYield_block n run with ⟨rfl | rfl, -⟩ | ⟨next, iter, -, -, block⟩
  · exact of_table rfl
  · exact of_table rfl
  · have swept : SameIds s (sweepStacks (s.interruptsSet false)) := sweepStacks_threadID (s.interruptsSet false)
    exact swept.trans (yieldBlock block)

theorem of_woken (woken : Woken s t) : SameIds s t := fun i => by rw [woken.threads i]

theorem threadExit (n : Named s) (run : threadExit s = .ok t) : SameIds s t := by
  obtain ⟨u, released, -⟩ := Result.bind_eq_ok.mp run
  have left : SameIds s u := fun _ => (Kept.releaseWaiters released).threadID
  obtain ⟨alone, yields⟩ := threadExit_of_released released
  by_cases empty : u.readyList = []
  · obtain rfl := Except.ok.inj ((alone empty).symm.trans run)
    exact left.trans (of_table rfl)
  · have marked : SameIds u (Seated.markExited s.interrupts u) := markExited_threadID s.interrupts u
    have named : Named (Seated.markExited s.interrupts u) := (((n.interruptsSet false).releaseWaiters released).modifyThread _ _ (by intro; rfl)).push _
    exact (left.trans marked).trans (threadYield named ((yields empty).symm.trans run))

theorem threadSleep {queue : Option Nat} (run : threadSleep queue s = .ok t) : SameIds s t := by
  cases queue with
  | none => exact Except.ok.inj run ▸ of_table rfl
  | some q =>
      rcases threadSleep_slept run with ⟨-, rfl⟩ | ⟨next, rest, nodes, slept⟩
      · exact of_table rfl
      · exact ((modifyThread s _ _ (by intro; rfl)).trans (modifyThread _ next _ (by intro; rfl))).trans (of_table slept.table)

theorem threadWait {tid : Tid} (run : threadWait tid s = .ok t) : SameIds s t := by
  simp only [Threads.threadWait] at run
  split_ifs at run
  · exact Except.ok.inj run ▸ of_table rfl
  · exact Except.ok.inj run ▸ of_table rfl
  · have waits : SameIds s ((s.interruptsSet false).push (.waitReturn s.interrupts tid)) := of_table rfl
    split at run
    · exact waits.trans (threadSleep run)
    · have created : SameIds s (waitQueueCreate ((s.interruptsSet false).push (.waitReturn s.interrupts tid))).1 := of_table rfl
      exact (created.trans (modifyThread _ _ _ (by intro; rfl))).trans (threadSleep run)

theorem lockRelease {l : Nat} (run : lockRelease l s = .ok t) : SameIds s t := fun _ => (Kept.lockRelease run).threadID

theorem acquireLoop {l : Nat} {enabled : Bool} (run : acquireLoop l enabled s = .ok t) : SameIds s t := by
  obtain ⟨lock, -, run⟩ := Result.bind_eq_ok.mp run
  split_ifs at run
  · exact Except.ok.inj run ▸ of_table rfl
  · have pushed : SameIds s (s.push (.acquireLoop l enabled)) := of_table rfl
    exact pushed.trans (threadSleep run)

theorem cvWait {c l : Nat} (run : cvWait c l s = .ok t) : SameIds s t := by
  obtain ⟨wqC, -, run⟩ := Result.bind_eq_ok.mp run
  obtain ⟨u, released, run⟩ := Result.bind_eq_ok.mp run
  obtain ⟨lock, -, run⟩ := Result.bind_eq_ok.mp run
  have masked : SameIds s (s.interruptsSet false) := of_table rfl
  have pushed : SameIds u (u.push (.cvReacquire l s.interrupts)) := of_table rfl
  have before := (masked.trans (lockRelease released)).trans pushed
  split_ifs at run
  · exact before.trans (threadSleep run)
  · exact Except.ok.inj run ▸ before

theorem cvWake {all : Int} {c l : Nat} (run : cvWake all c l s = .ok t) : SameIds s t := by
  obtain ⟨wqC, -, run⟩ := Result.bind_eq_ok.mp run
  obtain ⟨lock, -, run⟩ := Result.bind_eq_ok.mp run
  split_ifs at run
  · exact of_woken (threadWakeup_woken run)
  · exact Except.ok.inj run ▸ of_table rfl

theorem enter {call : Call} (n : Named s) (other : ∀ stackOk, call ≠ .create stackOk) (run : enter call s = .ok t) : SameIds s t := by
  cases call with
  | create stackOk => exact (other stackOk rfl).elim
  | yield tid => exact threadYield n run
  | exit => exact threadExit n run
  | kill tid => exact fun _ => by rw [(threadKill_felled n run).threads]
  | sleep queue => exact threadSleep run
  | wakeup queue all => exact of_woken (threadWakeup_woken run)
  | wait tid => exact threadWait run
  | lockRelease l => exact lockRelease run
  | cvWait c l => exact cvWait run
  | cvSignal c l | cvBroadcast c l => exact cvWake run
  | queueCreate | lockCreate | cvCreate | interruptsSet _ => exact Except.ok.inj run ▸ of_table rfl
  | queueDestroy q =>
      obtain ⟨nodes, -, run⟩ := Result.bind_eq_ok.mp run
      exact Except.ok.inj run ▸ of_table rfl
  | lockDestroy l =>
      obtain ⟨lock, -, run⟩ := Result.bind_eq_ok.mp run
      split_ifs at run <;> exact Except.ok.inj run ▸ of_table rfl
  | lockAcquire l =>
      obtain ⟨lock, -, run⟩ := Result.bind_eq_ok.mp run
      exact Except.ok.inj run ▸ of_table rfl
  | cvDestroy c =>
      obtain ⟨q, -, run⟩ := Result.bind_eq_ok.mp run
      obtain ⟨nodes, -, run⟩ := Result.bind_eq_ok.mp run
      split_ifs at run <;> exact Except.ok.inj run ▸ of_table rfl

theorem continueFrame {frame : Frame} (n : Named s) (run : continueFrame frame s = .ok t) : SameIds s t := by
  cases frame with
  | user _ | stub | handler _ | yieldResult | exitReturn _ | afterSleep _ _ | waitReturn _ _ | cvReturn _ =>
      exact Except.ok.inj run ▸ of_table rfl
  | afterYield enabled called next iter =>
      cases called with
      | true => exact Except.ok.inj run ▸ of_table rfl
      | false => exact yieldBlock run
  | exitCall => exact threadExit n run
  | afterExit caller next => exact Except.ok.inj run ▸ switchTo caller next s
  | acquireLoop l enabled => exact acquireLoop run
  | cvReacquire l enabled =>
      obtain ⟨lock, -, run⟩ := Result.bind_eq_ok.mp run
      exact Except.ok.inj run ▸ of_table rfl

end SameIds

def Tabled (s : State) : Prop := ∀ i, (s.totalList i).threadID < THREAD_MAX_THREADS

namespace Tabled

theorem same (d : Tabled s) (ids : SameIds s t) : Tabled t := fun i => ids i ▸ d i

theorem current (d : Tabled s) (n : Named s) : s.currentThread < THREAD_MAX_THREADS := by
  have here := d s.currentThread
  rwa [n.current] at here

theorem threadCreate (d : Tabled s) (stackOk : Bool) : Tabled (threadCreate stackOk s) := by
  rcases threadCreate_eq stackOk s with ⟨-, refused⟩ | ⟨id, found, started⟩
  · rw [refused]
    exact d
  · have below : id < THREAD_MAX_THREADS := by
      have := (freeSlot_spec found).2.1
      simp only [THREAD_MAX_THREADS] at this ⊢
      omega
    rw [started]
    intro i
    by_cases new : i = id
    · simpa [new, Thread.started] using below
    · simpa [new] using d i

theorem step {action : Action} {event : Option Event} (d : Tabled s) (n : Named s) (run : step s action = .ok (t, event)) : Tabled t := by
  rcases step_cases run with ⟨call, -, -, entered, -⟩ | ⟨frame, frames, -, -, continued, -⟩ | ⟨-, -, yielded, -⟩
  · have pushed : Tabled (s.push (.user call)) := d
    by_cases create : ∃ stackOk, call = .create stackOk
    · obtain ⟨stackOk, rfl⟩ := create
      exact Except.ok.inj entered ▸ pushed.threadCreate stackOk
    · exact pushed.same (.enter (n.push _) (fun stackOk same => create ⟨stackOk, same⟩) entered)
  · have popped : Tabled { s with callStack := frames } := d
    exact popped.same (.continueFrame (n.pop frames) continued)
  · have pushed : Tabled ((s.interruptsSet false).push (.handler s.rax)) := d
    exact pushed.same (.threadYield ((n.interruptsSet false).push _) yielded)

theorem init : Tabled threadInit := by
  intro i
  by_cases first : i = 0 <;> simp [threadInit, first, Thread.zero, THREAD_MAX_THREADS]

theorem of_run {allowed : State → Action → Prop} {labels : List Label} (run : Runs allowed labels s) : Tabled s := by
  refine (run.invariant (fun s => Named s ∧ Tabled s) ⟨.init, init⟩ ?_).2
  rintro t label u taken ⟨n, d⟩
  exact ⟨n.step taken.2, d.step n taken.2⟩

end Tabled

end Identifiers

section Bounds

def Fits (subscripts : List Tid) : Prop := ∀ i ∈ subscripts, 0 ≤ i ∧ i < THREAD_MAX_THREADS

theorem fits_nil : Fits [] := fun _ member => absurd member List.not_mem_nil

theorem fits_cons {i : Tid} {l : List Tid} : Fits (i :: l) ↔ (0 ≤ i ∧ i < THREAD_MAX_THREADS) ∧ Fits l := List.forall_mem_cons

theorem fits_append {l l' : List Tid} : Fits (l ++ l') ↔ Fits l ∧ Fits l' := List.forall_mem_append

theorem fits_nat {i : Nat} (below : i < THREAD_MAX_THREADS) : Fits [(i : Tid)] :=
  fits_cons.mpr ⟨⟨Int.natCast_nonneg i, Int.ofNat_lt.mpr below⟩, fits_nil⟩

theorem not_fits_sweep : ¬ Fits sweepSubscripts := by
  intro fits
  have last (n : Nat) : (n : Tid) ∈ (List.range (n + 1)).map fun i : Nat => (i : Tid) :=
    List.mem_map.mpr ⟨n, List.mem_range.mpr (Nat.lt_succ_self n), rfl⟩
  exact Int.lt_irrefl _ (fits _ (last THREAD_MAX_THREADS)).2

variable {s : State}

theorem searched_fits {fuel first : Nat} (below : first + fuel ≤ THREAD_MAX_THREADS) : Fits (searched s fuel first) := by
  induction fuel generalizing first with
  | zero => exact fits_nil
  | succ fuel ih =>
      rw [searched]
      refine fits_cons.mpr ⟨⟨Int.natCast_nonneg first, Int.ofNat_lt.mpr (by omega)⟩, ?_⟩
      split_ifs
      · exact ih (by omega)
      · exact fits_nil

theorem create_fits : Fits (createSubscripts s) := by
  refine fits_append.mpr ⟨searched_fits (by simp only [THREAD_MAX_THREADS]; omega), ?_⟩
  cases found : freeSlot s (THREAD_MAX_THREADS - 1) 1 with
  | none => exact fits_nil
  | some id =>
      refine fits_nat ?_
      have := (freeSlot_spec found).2.1
      simp only [THREAD_MAX_THREADS] at this ⊢
      omega

theorem block_fits (d : Tabled s) (n : Named s) (next : Nat) : Fits (blockSubscripts next s) := by
  have id : Fits [s.threadIDOf next] := fits_nat (d next)
  refine fits_append.mpr ⟨fits_cons.mpr ⟨(fits_cons.mp (fits_nat (d.current n))).1, ?_⟩, ?_⟩
  · split_ifs
    · exact id
    · exact fits_nil
  · split_ifs
    · exact id
    · exact fits_nil

theorem wakeup_fits (d : Tabled s) (queue : Option Nat) (all : Int) : Fits (wakeupSubscripts queue all s) := by
  unfold wakeupSubscripts
  split
  · exact fits_nil
  · split
    · exact fits_nil
    · exact fits_nil
    · rename_i head rest _
      split_ifs
      · exact fits_nat (d head)
      · intro i member
        obtain ⟨node, -, rfl⟩ := List.mem_map.mp member
        exact (fits_cons.mp (fits_nat (d node))).1
      · exact fits_nil

theorem sleep_fits (d : Tabled s) (n : Named s) (queue : Option Nat) : Fits (sleepSubscripts queue s) := by
  unfold sleepSubscripts
  split
  · exact fits_nat (d.current n)
  · exact fits_nil

theorem release_fits (d : Tabled s) (l : Nat) : Fits (releaseSubscripts l s) := by
  unfold releaseSubscripts
  split
  · split_ifs
    · exact fits_nil
    · exact wakeup_fits d _ _
  · exact fits_nil

theorem acquire_fits (d : Tabled s) (n : Named s) (l : Nat) : Fits (acquireSubscripts l s) := by
  unfold acquireSubscripts
  split
  · split_ifs
    · exact fits_nil
    · exact sleep_fits d n _
  · exact fits_nil

theorem cvWait_fits (d : Tabled s) (n : Named s) (c l : Nat) : Fits (cvWaitSubscripts c l s) := by
  refine fits_append.mpr ⟨release_fits d l, ?_⟩
  cases released : lockRelease l (s.interruptsSet false) with
  | error e => exact fits_nil
  | ok u =>
      have masked : Tabled (s.interruptsSet false) := d
      exact sleep_fits (masked.same (.lockRelease released)) ((n.interruptsSet false).lockRelease released) _

/-- The loop over the table is not reached: `thread_yield` finds no thread to go to, and `thread_exit` nobody to leave the
processor to. -/
def ReturnsAtOnce (s : State) (want : Tid) : Prop :=
  if want = THREAD_ANY then s.readyList = []
  else want ≠ THREAD_SELF ∧ want ≠ s.currentThread ∧ ∀ i ∈ s.readyList, s.threadIDOf i ≠ want

def ExitsLast (s : State) : Prop :=
  match s.current.wqt with
  | none => s.readyList = []
  | some q => ∀ nodes, s.queues q = some nodes → s.readyList ++ nodes = []

def KeepsToTable (s : State) : Call → Prop
  | .yield tid => ReturnsAtOnce s tid
  | .exit => ExitsLast s
  | .wait tid => tid ≠ THREAD_MAX_THREADS
  | _ => True

theorem yield_fits_iff (want : Tid) : Fits (yieldSubscripts want s) ↔ ReturnsAtOnce s want := by
  have sweeps (l : List Tid) : ¬ Fits (sweepSubscripts ++ l) := fun fits => not_fits_sweep (fits_append.mp fits).1
  unfold yieldSubscripts ReturnsAtOnce
  by_cases any : want = THREAD_ANY
  · rw [if_pos any, if_pos any]
    cases s.readyList with
    | nil => exact iff_of_true fits_nil rfl
    | cons head rest => exact iff_of_false (sweeps _) (List.cons_ne_nil head rest)
  · rw [if_neg any, if_neg any]
    by_cases self : want = THREAD_SELF ∨ want = s.currentThread
    · rw [if_pos self]
      exact iff_of_false (fun fits => sweeps _ (fits_cons.mp fits).2) fun other => self.elim other.1 other.2.1
    · rw [if_neg self]
      obtain ⟨notSelf, notCurrent⟩ := not_or.mp self
      cases found : s.findNode s.readyList want with
      | none =>
          refine iff_of_true fits_nil ⟨notSelf, notCurrent, fun i member => ?_⟩
          simpa using List.find?_eq_none.mp found i member
      | some node =>
          have named : s.threadIDOf node = want := by simpa using List.find?_some found
          exact iff_of_false (sweeps _) fun absent => absent.2.2 node (List.mem_of_find?_eq_some found) named

theorem leave_fits_iff : Fits (leaveSubscripts s) ↔ s.readyList = [] := by
  unfold leaveSubscripts
  cases list : s.readyList with
  | nil => exact iff_of_true fits_nil rfl
  | cons head rest =>
      refine iff_of_false (fun fits => ?_) (List.cons_ne_nil head rest)
      have returns := (yield_fits_iff THREAD_ANY).mp fits
      rw [ReturnsAtOnce, if_pos rfl] at returns
      exact List.cons_ne_nil head rest (list.symm.trans returns)

theorem exit_fits_iff (d : Tabled s) (n : Named s) : Fits (exitSubscripts s) ↔ ExitsLast s := by
  have current := fits_nat (d.current n)
  have wakes := wakeup_fits d s.current.wqt 1
  have before : Fits ((s.currentThread : Tid) :: wakeupSubscripts s.current.wqt 1 s) := fits_cons.mpr ⟨(fits_cons.mp current).1, wakes⟩
  unfold exitSubscripts
  rw [fits_append, and_iff_right before]
  cases own : s.current.wqt with
  | none =>
      have released : releaseWaiters (s.interruptsSet false) = .ok (s.interruptsSet false) := by
        rw [releaseWaiters, show (s.interruptsSet false).current.wqt = none from own]
      rw [released, ExitsLast, own]
      exact leave_fits_iff
  | some q =>
      cases queue : s.queues q with
      | none =>
          have stops : releaseWaiters (s.interruptsSet false) = .error .useAfterFree := by
            simp [releaseWaiters, show (s.interruptsSet false).current.wqt = some q from own, threadWakeup, queueNodes,
              show (s.interruptsSet false).queues q = none from queue, bind, Except.bind]
          rw [stops, ExitsLast, own]
          refine iff_of_true fits_nil fun nodes found => ?_
          rw [queue] at found
          cases found
      | some nodes =>
          obtain ⟨u, released⟩ : ∃ u, releaseWaiters (s.interruptsSet false) = .ok u := by
            have look : (s.interruptsSet false).queueNodes q = .ok nodes := queueNodes_eq_ok.mpr queue
            rw [releaseWaiters, show (s.interruptsSet false).current.wqt = some q from own]
            cases nodes with
            | nil => exact ⟨_, by simp [threadWakeup, look]; rfl⟩
            | cons head rest => exact ⟨_, by simp [threadWakeup, look]; rfl⟩
          have list : u.readyList = s.readyList ++ nodes := by
            obtain ⟨list, -⟩ := releaseWaiters_list (n.interruptsSet false) released
            rw [list, waiters, show (s.interruptsSet false).current.wqt = some q from own]
            simp only [show (s.interruptsSet false).queues q = some nodes from queue, Option.getD_some]
            rfl
          rw [released, ExitsLast, own]
          dsimp only
          rw [leave_fits_iff, list]
          refine ⟨fun empty nodes' found => ?_, fun none => none nodes queue⟩
          rw [← Option.some.inj (queue.symm.trans found)]
          exact empty

theorem wait_fits_iff (d : Tabled s) (n : Named s) (tid : Tid) : Fits (waitSubscripts tid s) ↔ tid ≠ THREAD_MAX_THREADS := by
  unfold waitSubscripts
  by_cases outside : tid < 0 ∨ tid = s.currentThread ∨ tid > THREAD_MAX_THREADS
  · rw [if_pos outside]
    refine iff_of_true fits_nil fun same => ?_
    rcases outside with negative | own | above
    · exact Int.not_lt.mpr (Int.natCast_nonneg THREAD_MAX_THREADS) (same ▸ negative)
    · exact Int.ne_of_gt (Int.ofNat_lt.mpr (d.current n)) (same.symm.trans own)
    · exact Int.ne_of_gt above same
  · rw [if_neg outside]
    obtain ⟨positive, -, below⟩ : ¬ tid < 0 ∧ ¬ tid = s.currentThread ∧ ¬ tid > THREAD_MAX_THREADS := by
      simpa only [not_or] using outside
    have first (l : List Tid) (fits : Fits l) : Fits (tid :: l) ↔ tid ≠ THREAD_MAX_THREADS := by
      rw [fits_cons, and_iff_left fits]
      exact ⟨fun inside => Int.ne_of_lt inside.2, fun other => ⟨Int.not_lt.mp positive, Int.lt_iff_le_and_ne.mpr ⟨Int.not_lt.mp below, other⟩⟩⟩
    split_ifs
    · exact first [] fits_nil
    · exact first _ (sleep_fits d n _)

/-- A function uses only elements of the table exactly when `thread_yield` is not brought to its loop over it, and `thread_wait`
is not asked for thread 1024. -/
theorem table_subscripts_iff {allowed : State → Action → Prop} {labels : List Label} (run : Runs allowed labels s) :
    (∀ call : Call, Fits (callSubscripts s call) ↔ KeepsToTable s call) ∧
      ∀ frame : Frame, Fits (frameSubscripts s frame) ↔ (frame = .exitCall → ExitsLast s) := by
  have d := Tabled.of_run run
  have n := Named.of_run run
  have current := fits_nat (d.current n)
  refine ⟨fun call => ?_, fun frame => ?_⟩
  · cases call with
    | create _ => exact iff_of_true create_fits trivial
    | yield tid => exact yield_fits_iff tid
    | exit => exact exit_fits_iff d n
    | kill tid =>
        refine iff_of_true ?_ trivial
        change Fits (killSubscripts tid s)
        unfold killSubscripts
        split
        · exact current
        · exact fits_nil
    | sleep queue => exact iff_of_true (sleep_fits d n queue) trivial
    | wakeup queue all => exact iff_of_true (wakeup_fits d queue all) trivial
    | wait tid => exact wait_fits_iff d n tid
    | lockRelease l => exact iff_of_true (release_fits d l) trivial
    | cvWait c l => exact iff_of_true (cvWait_fits d n c l) trivial
    | cvSignal c l | cvBroadcast c l => exact iff_of_true (wakeup_fits d _ _) trivial
    | _ => exact iff_of_true fits_nil trivial
  · cases frame with
    | exitCall => exact (exit_fits_iff d n).trans ⟨fun last _ => last, fun last => last rfl⟩
    | yieldResult => exact iff_of_true current nofun
    | afterExit caller next => exact iff_of_true (fits_nat (d next)) nofun
    | acquireLoop l enabled => exact iff_of_true (acquire_fits d n l) nofun
    | afterYield enabled called next iter =>
        cases called with
        | true => exact iff_of_true fits_nil nofun
        | false => exact iff_of_true (block_fits d n next) nofun
    | _ => exact iff_of_true fits_nil nofun

theorem table_subscripts_iff_created : ∃ labels s, Runs (fun _ _ => True) labels s ∧ s.readyList = [1] ∧
    (∀ call : Call, Fits (callSubscripts s call) ↔ KeepsToTable s call) ∧
      ∀ frame : Frame, Fits (frameSubscripts s frame) ↔ (frame = .exitCall → ExitsLast s) := by
  have run := @Runs.of_exec (fun _ _ => True) _ createOne rfl
  exact ⟨_, _, run, rfl, table_subscripts_iff run⟩

/-- The first thread yields to itself. -/
theorem table_subscripts_fail : ¬ ∀ labels s call, Runs (fun _ _ => True) labels s → Fits (callSubscripts s call) := by
  intro claim
  have returns := (yield_fits_iff THREAD_SELF).mp (claim [] threadInit (.yield THREAD_SELF) .start)
  rw [ReturnsAtOnce, if_neg (by decide)] at returns
  exact returns.1 rfl

end Bounds

end OperatingSystem.Threads
