import OperatingSystem.Threads.Created
import OperatingSystem.Threads.Stacks

/-!
# What a step does to the contexts

Seen from the stacks, a function of the package ends in one of three ways: control stays with the
running thread, the saved context of another thread is taken up, or the thread it chose is dead and
`thread_exit` is entered for it on the caller's stack.  Nothing is assumed about kills.
-/

namespace OperatingSystem.Threads

open State

def Frame.next? : Frame → Option Nat
  | .afterYield _ _ next _ | .afterSleep _ next | .afterExit _ next => some next
  | _ => none

def Frame.isYield : Frame → Bool
  | .afterYield _ _ _ _ => true
  | _ => false

def Frame.plain : Frame → Bool
  | .user _ | .afterYield _ _ _ _ | .afterSleep _ _ | .afterExit _ _ => false
  | _ => true

theorem Frame.plain.next? {frame : Frame} (plain : frame.plain = true) : frame.next? = none := by
  cases frame <;> first | rfl | cases plain

theorem Frame.plain.isYield {frame : Frame} (plain : frame.plain = true) : frame.isYield = false := by
  cases frame <;> first | rfl | cases plain

def Based : List Frame → Prop
  | [] => True
  | .user _ :: frames => frames = []
  | _ :: frames => Based frames

theorem Based.cons {frame : Frame} {frames : List Frame} (based : Based frames) (inner : ∀ call, frame ≠ .user call) :
    Based (frame :: frames) := by
  cases frame with
  | user call => exact (inner call rfl).elim
  | _ => exact based

theorem Based.tail {frame : Frame} {frames : List Frame} (based : Based (frame :: frames)) : Based frames := by
  cases frame with
  | user call =>
      obtain rfl : frames = [] := based
      trivial
  | _ => exact based

theorem Based.append {above base : List Frame} (based : Based base) (plain : ∀ frame ∈ above, frame.plain = true) :
    Based (above ++ base) := by
  induction above with
  | nil => exact based
  | cons frame above ih =>
      refine (ih fun f member => plain f (List.mem_cons_of_mem _ member)).cons ?_
      rintro call rfl
      cases plain (.user call) List.mem_cons_self

/-- Where the innermost frames return to, and with which interrupt flag: the thread's own code, or the point in
`thread_yield` after the exit of a killed thread, which jumps to a saved context. -/
inductive Landing
  | user (enabled : Bool)
  | afterExit (enabled : Bool)
  deriving DecidableEq, Repr

def lands : Bool → List Frame → Option Landing
  | _, [] => none
  | enabled, .user _ :: _ => some (.user enabled)
  | _, .stub :: frames | _, .handler _ :: frames => lands true frames
  | _, .afterYield enabled _ _ _ :: frames | _, .exitReturn enabled :: frames | _, .afterSleep enabled _ :: frames
  | _, .waitReturn enabled _ :: frames | _, .acquireLoop _ enabled :: frames | _, .cvReacquire _ enabled :: frames
  | _, .cvReturn enabled :: frames => lands enabled frames
  | enabled, .yieldResult :: frames | enabled, .exitCall :: frames => lands enabled frames
  | enabled, .afterExit _ _ :: _ => some (.afterExit enabled)

theorem lands_markCalled (enabled : Bool) (frames : List Frame) : lands enabled (markCalled frames) = lands enabled frames := by
  unfold markCalled
  split <;> rfl

theorem modifyThread_same {α : Type} (get : Thread → α) (s : State) (i j : Nat) (f : Thread → Thread)
    (same : ∀ x, get (f x) = get x) : get ((s.modifyThread j f).totalList i) = get (s.totalList i) := by
  rw [thread_modifyThread]
  split_ifs with here
  · rw [same, here]
  · rfl

structure Kept (i : Nat) (s t : State) : Prop where
  threadInfo : (t.totalList i).threadInfo = (s.totalList i).threadInfo
  nextThreadID : (t.totalList i).nextThreadID = (s.totalList i).nextThreadID
  threadID : (t.totalList i).threadID = (s.totalList i).threadID
  exist : (t.totalList i).exist = true → (s.totalList i).exist = true

namespace Kept

variable {i : Nat} {s t u : State}

theorem trans (first : Kept i s t) (second : Kept i t u) : Kept i s u where
  threadInfo := second.threadInfo.trans first.threadInfo
  nextThreadID := second.nextThreadID.trans first.nextThreadID
  threadID := second.threadID.trans first.threadID
  exist alive := first.exist (second.exist alive)

theorem of_eq (same : t.totalList i = s.totalList i) : Kept i s t := by
  refine ⟨?_, ?_, ?_, fun alive => ?_⟩
  · rw [same]
  · rw [same]
  · rw [same]
  · rwa [same] at alive

theorem of_table (table : t.totalList = s.totalList) : Kept i s t := of_eq (congrFun table i)

theorem modifyThread (s : State) (i j : Nat) {f : Thread → Thread} (threadInfo : ∀ x, (f x).threadInfo = x.threadInfo)
    (nextThreadID : ∀ x, (f x).nextThreadID = x.nextThreadID) (threadID : ∀ x, (f x).threadID = x.threadID)
    (exist : ∀ x, (f x).exist = true → x.exist = true) : Kept i s (s.modifyThread j f) where
  threadInfo := modifyThread_same Thread.threadInfo s i j f threadInfo
  nextThreadID := modifyThread_same Thread.nextThreadID s i j f nextThreadID
  threadID := modifyThread_same Thread.threadID s i j f threadID
  exist alive := by
    rw [thread_modifyThread] at alive
    split_ifs at alive with same
    · rw [same]
      exact exist _ alive
    · exact alive

theorem unstack (s : State) (i node : Nat) (freed : List Nat) :
    Kept i s ({ s with freed }.modifyThread node fun t => { t with stack := none }) := by
  have listed : Kept i s { s with freed } := of_table rfl
  exact listed.trans (modifyThread _ i node (fun _ => rfl) (fun _ => rfl) (fun _ => rfl) fun _ alive => alive)

theorem of_woken (woken : Woken s t) : Kept i s t := by
  refine ⟨?_, ?_, ?_, fun alive => ?_⟩
  · rw [woken.threads]
  · rw [woken.threads]
  · rw [woken.threads]
  · rw [woken.threads] at alive
    exact alive

theorem sweepStacks (s : State) (i : Nat) : Kept i s (sweepStacks s) := by
  obtain ⟨stack, eq⟩ := sweepStacks_thread s i
  refine ⟨?_, ?_, ?_, fun alive => ?_⟩
  · rw [eq]
  · rw [eq]
  · rw [eq]
  · rwa [eq] at alive

theorem releaseWaiters (run : releaseWaiters s = .ok t) : Kept i s t := by
  unfold Threads.releaseWaiters at run
  split at run
  · exact of_table (Except.ok.inj run ▸ rfl)
  · rename_i q own
    obtain ⟨u, woken, run⟩ := Result.bind_eq_ok.mp run
    rw [← Except.ok.inj run]
    have freed : Kept i u (u.setQueue q none) := of_table rfl
    refine (of_woken (threadWakeup_woken woken)).trans (freed.trans ?_)
    exact modifyThread _ i u.currentThread (fun _ => rfl) (fun _ => rfl) (fun _ => rfl) fun _ alive => alive

theorem lockRelease {l : Nat} (run : lockRelease l s = .ok t) : Kept i s t := by
  obtain ⟨lock, -, woken⟩ := lockRelease_cases run
  have same : Kept i s (unlock l lock s) := by
    unfold unlock
    split_ifs <;> exact of_table rfl
  exact same.trans (of_woken woken)

end Kept

/-- The running thread gives up the processor to `next`, its own context saved as `frame` over `frames`. -/
structure Parks (s : State) (frame : Frame) (next : Nat) (frames : List Frame) (t : State) : Prop where
  named : (t.totalList next).threadID = next
  current : t.currentThread = next
  off : t.interrupts = false
  saved : (t.totalList s.currentThread).threadInfo = frame :: frames
  result : (t.totalList s.currentThread).nextThreadID = (s.totalList s.currentThread).nextThreadID ∨
    (s.totalList s.currentThread).exist = true ∧ (t.totalList s.currentThread).nextThreadID = next
  threadID : (t.totalList s.currentThread).threadID = (s.totalList s.currentThread).threadID
  exist : (t.totalList s.currentThread).exist = true → (s.totalList s.currentThread).exist = true
  others : ∀ i, i ≠ s.currentThread → Kept i s t

/-- How a function that runs on the stack `frames`, entered with the flag `enabled`, leaves the contexts. -/
inductive Control (s : State) (enabled : Bool) (frames : List Frame) (t : State) : Prop
  | stays (current : t.currentThread = s.currentThread) (stack : t.callStack = frames) (flag : t.interrupts = enabled)
      (others : ∀ i, Kept i s t ∨ (t.totalList i).threadInfo = [.stub] ∧ (t.totalList i).threadID = i)
  | switches (frame : Frame) (next : Nat) (parks : Parks s frame next frames t)
      (resumes : (∃ iter, frame = .afterYield enabled true next iter) ∨ frame = .afterSleep enabled next)
      (stack : t.callStack = (t.totalList next).threadInfo)
  | dies (next : Nat) (iter : Option Nat) (parks : Parks s (.afterYield enabled false next iter) next frames t)
      (stack : t.callStack = .exitCall :: .afterExit s.currentThread next :: frames)

theorem Parks.since {s t u : State} {frame : Frame} {next : Nat} {frames : List Frame} (parks : Parks u frame next frames t)
    (current : u.currentThread = s.currentThread) (kept : ∀ i, Kept i s u) : Parks s frame next frames t := by
  have own := kept s.currentThread
  obtain ⟨named, running, off, saved, result, threadID, exist, others⟩ := parks
  rw [current] at saved result threadID exist others
  refine ⟨named, running, off, saved, ?_, threadID.trans own.threadID, fun alive => own.exist (exist alive),
    fun i other => (kept i).trans (others i other)⟩
  rcases result with same | ⟨alive, set⟩
  · exact Or.inl (same.trans own.nextThreadID)
  · exact Or.inr ⟨own.exist alive, set⟩

theorem Control.since {s t u : State} {enabled : Bool} {frames : List Frame} (control : Control u enabled frames t)
    (current : u.currentThread = s.currentThread) (kept : ∀ i, Kept i s u) : Control s enabled frames t := by
  cases control with
  | stays current' stack flag others =>
      exact .stays (current'.trans current) stack flag fun i => (others i).imp_left (kept i).trans
  | switches frame next parks resumes stack => exact .switches frame next (parks.since current kept) resumes stack
  | dies next iter parks stack => exact .dies next iter (parks.since current kept) (current ▸ stack)

section Yields

variable {s t : State} {enabled : Bool} {next : Nat} {iter : Option Nat}

theorem parked_fields (enabled : Bool) (next : Nat) (iter : Option Nat) (s : State) :
    (parked enabled next iter s).currentThread = s.currentThread ∧ (parked enabled next iter s).callStack = s.callStack ∧
      (parked enabled next iter s).interrupts = s.interrupts := by
  unfold parked requeueCaller
  dsimp only
  split_ifs <;> exact ⟨rfl, rfl, rfl⟩

theorem requeueCaller_threadInfo (next : Nat) (s : State) (i : Nat) :
    ((requeueCaller next s).totalList i).threadInfo = (s.totalList i).threadInfo := by
  unfold requeueCaller
  dsimp only [pushbackRL]
  split_ifs
  · rw [modifyThread_same Thread.threadInfo, modifyThread_same Thread.threadInfo, modifyThread_same Thread.threadInfo]
    all_goals intro; rfl
  · rw [modifyThread_same Thread.threadInfo]
    intro; rfl
  · rfl

theorem requeueCaller_nextThreadID (next : Nat) (s : State) (i : Nat) :
    ((requeueCaller next s).totalList i).nextThreadID =
      if i = s.currentThread ∧ s.current.status = .running ∧ s.current.exist = true then ((s.totalList next).threadID : Tid)
      else (s.totalList i).nextThreadID := by
  have marked (j : Nat) : ((s.modifyThread s.currentThread fun t => { t with status := .ready }).totalList j) =
      { s.totalList j with status := if j = s.currentThread then .ready else (s.totalList j).status } := by
    rw [thread_modifyThread]
    split_ifs with here
    · rw [here]
    · rfl
  unfold requeueCaller
  dsimp only [pushbackRL]
  by_cases running : s.current.status = .running
  · rw [if_pos running]
    by_cases alive : s.current.exist = true
    · rw [if_pos (by rw [State.current, modifyThread_currentThread, marked]; exact alive), modifyThread_same Thread.nextThreadID,
        thread_modifyThread]
      · by_cases own : i = s.currentThread
        · rw [if_pos own, if_pos ⟨own, running, alive⟩]
          simp only [marked]
        · rw [if_neg own, if_neg fun set => own set.1, marked]
      · intro; rfl
    · rw [if_neg (by rw [State.current, modifyThread_currentThread, marked]; exact alive), if_neg fun set => alive set.2.2, marked]
  · rw [if_neg running, if_neg fun set => running set.2.1]

theorem saved_thread (enabled : Bool) (next : Nat) (iter : Option Nat) (s : State) (i : Nat) :
    (s.modifyThread s.currentThread fun t => { t with threadInfo := .afterYield enabled false next iter :: s.callStack }).totalList i =
      { s.totalList i with threadInfo :=
          if i = s.currentThread then .afterYield enabled false next iter :: s.callStack else (s.totalList i).threadInfo } := by
  rw [thread_modifyThread]
  split_ifs with own
  · rw [own]
  · rfl

theorem parked_threadInfo (enabled : Bool) (next : Nat) (iter : Option Nat) (s : State) (i : Nat) :
    ((parked enabled next iter s).totalList i).threadInfo =
      if i = s.currentThread then .afterYield enabled false next iter :: s.callStack else (s.totalList i).threadInfo := by
  rw [parked, requeueCaller_threadInfo, saved_thread]

theorem parked_nextThreadID (enabled : Bool) (next : Nat) (iter : Option Nat) (s : State) (i : Nat) :
    ((parked enabled next iter s).totalList i).nextThreadID =
      if i = s.currentThread ∧ s.current.status = .running ∧ s.current.exist = true then ((s.totalList next).threadID : Tid)
      else (s.totalList i).nextThreadID := by
  rw [parked, requeueCaller_nextThreadID]
  simp only [State.current, saved_thread, modifyThread_currentThread]
  congr

theorem deleteNode_frame {target : Nat} {node : Option Nat} (run : deleteNode s target node = .ok t) :
    ∃ nodes, t = { s with readyList := nodes } := by
  unfold deleteNode at run
  split at run
  · cases run
  · split_ifs at run
    · exact ⟨_, (Except.ok.inj run).symm⟩
    · exact ⟨_, (Except.ok.inj run).symm⟩
    · split at run
      · cases run
      · split_ifs at run
        exact ⟨_, (Except.ok.inj run).symm⟩

theorem parked_kept (enabled : Bool) (next : Nat) (iter : Option Nat) (s : State) {i : Nat} (other : i ≠ s.currentThread) :
    Kept i s (parked enabled next iter s) where
  threadInfo := by rw [parked_threadInfo, if_neg other]
  nextThreadID := by rw [parked_nextThreadID, if_neg fun set => other set.1]
  threadID := parked_threadID enabled next iter s i
  exist alive := (parked_exist enabled next iter s i).symm.trans alive

theorem Parks.of_parked (named : (s.totalList next).threadID = next) (current : t.currentThread = next)
    (off : t.interrupts = false) {called : Bool}
    (saved : (t.totalList s.currentThread).threadInfo = .afterYield enabled called next iter :: s.callStack)
    (nextThreadID : ∀ i, (t.totalList i).nextThreadID = ((parked enabled next iter s).totalList i).nextThreadID)
    (threadID : ∀ i, (t.totalList i).threadID = ((parked enabled next iter s).totalList i).threadID)
    (exist : ∀ i, (t.totalList i).exist = ((parked enabled next iter s).totalList i).exist)
    (threadInfo : ∀ i, i ≠ s.currentThread → (t.totalList i).threadInfo = ((parked enabled next iter s).totalList i).threadInfo) :
    Parks s (.afterYield enabled called next iter) next s.callStack t where
  named := (threadID next).trans ((parked_threadID enabled next iter s next).trans named)
  current := current
  off := off
  saved := saved
  result := by
    rw [nextThreadID, parked_nextThreadID, named]
    split_ifs with set
    · exact Or.inr ⟨set.2.2, rfl⟩
    · exact Or.inl rfl
  threadID := (threadID _).trans (parked_threadID enabled next iter s _)
  exist alive := (parked_exist enabled next iter s _).symm.trans ((exist _).symm.trans alive)
  others i other := by
    have kept := parked_kept enabled next iter s other
    exact ⟨(threadInfo i other).trans kept.threadInfo, (nextThreadID i).trans kept.nextThreadID,
      (threadID i).trans kept.threadID, fun alive => kept.exist ((exist i).symm.trans alive)⟩

theorem yieldBlock_cases (run : yieldBlock enabled next iter s = .ok t) :
    (t = ({ parked enabled next iter s with
      currentThread := ((parked enabled next iter s).totalList next).threadID }.push (.afterExit s.currentThread next)).push .exitCall) ∨
    ∃ nodes, t = switchTo s.currentThread next { parked enabled next iter s with readyList := nodes } := by
  rw [yieldBlock_eq] at run
  by_cases dead : ((parked enabled next iter s).totalList next).exist = false
  · rw [if_pos dead] at run
    exact Or.inl (Except.ok.inj run).symm
  · rw [if_neg dead] at run
    obtain ⟨u, unlinked, run⟩ := Result.bind_eq_ok.mp run
    obtain ⟨nodes, rfl⟩ : ∃ nodes, u = { parked enabled next iter s with readyList := nodes } := by
      split_ifs at unlinked
      · exact ⟨_, (Except.ok.inj unlinked).symm⟩
      · exact deleteNode_frame unlinked
    exact Or.inr ⟨nodes, (Except.ok.inj run).symm⟩

theorem Parks.yieldBlock (named : (s.totalList next).threadID = next) (off : s.interrupts = false)
    (run : yieldBlock enabled next iter s = .ok t) :
    ∃ called, Parks s (.afterYield enabled called next iter) next s.callStack t ∧
      (called = true ∧ t.callStack = (t.totalList next).threadInfo ∨
        called = false ∧ t.callStack = .exitCall :: .afterExit s.currentThread next :: s.callStack) := by
  obtain ⟨-, sameStack, sameFlag⟩ := parked_fields enabled next iter s
  have id : ((parked enabled next iter s).totalList next).threadID = next := (parked_threadID _ _ _ _ _).trans named
  rcases yieldBlock_cases run with rfl | ⟨nodes, rfl⟩
  · refine ⟨false, .of_parked named id ?_ ?_ (fun _ => rfl) (fun _ => rfl) (fun _ => rfl) fun _ _ => rfl, Or.inr ⟨rfl, ?_⟩⟩
    · exact sameFlag.trans off
    · exact (parked_threadInfo enabled next iter s s.currentThread).trans (if_pos rfl)
    · exact congrArg (fun frames => Frame.exitCall :: Frame.afterExit s.currentThread next :: frames) sameStack
  · have final := switchTo_thread s.currentThread next { parked enabled next iter s with readyList := nodes } id
    refine ⟨true, .of_parked named id ?_ ?_ (fun i => ?_) (fun i => ?_) (fun i => ?_) fun i other => ?_, Or.inl ⟨rfl, rfl⟩⟩
    · exact sameFlag.trans off
    · rw [final, if_pos rfl]
      dsimp only
      rw [parked_threadInfo, if_pos rfl]
      rfl
    · rw [final]
    · rw [final]
    · rw [final]
    · rw [final, if_neg other]

theorem Control.yieldBlock (named : (s.totalList next).threadID = next) (off : s.interrupts = false)
    (run : yieldBlock enabled next iter s = .ok t) : Control s enabled s.callStack t := by
  obtain ⟨called, parks, ⟨rfl, stack⟩ | ⟨rfl, stack⟩⟩ := Parks.yieldBlock named off run
  · exact .switches _ next parks (Or.inl ⟨iter, rfl⟩) stack
  · exact .dies next iter parks stack

theorem yieldBlock_nextThreadID (named : (s.totalList next).threadID = next) (run : yieldBlock enabled next iter s = .ok t) (i : Nat) :
    (t.totalList i).nextThreadID = ((parked enabled next iter s).totalList i).nextThreadID := by
  have id : ((parked enabled next iter s).totalList next).threadID = next := (parked_threadID _ _ _ _ _).trans named
  rcases yieldBlock_cases run with rfl | ⟨nodes, rfl⟩
  · rfl
  · rw [switchTo_thread s.currentThread next { parked enabled next iter s with readyList := nodes } id]

theorem natCast_ne {v : Int} (negative : v < 0) (i : Nat) : (i : Int) ≠ v := by
  omega

theorem Chosen.unique {want : Tid} (n : Named s) (chosen : Chosen want s next) {next' : Nat} (chosen' : Chosen want s next') :
    next = next' := by
  have positive (i : Nat) : (i : Tid) ≠ THREAD_ANY ∧ (i : Tid) ≠ THREAD_SELF :=
    ⟨natCast_ne (by decide) i, natCast_ne (by decide) i⟩
  have listed {i : Nat} (named : want = s.threadIDOf i) (member : i ∈ s.readyList) : want = (i : Tid) := by
    rw [named, threadIDOf, n.ready i member]
  rcases chosen with ⟨any, head⟩ | ⟨self, rfl⟩ | ⟨named, member⟩ <;>
    rcases chosen' with ⟨any', head'⟩ | ⟨self', same'⟩ | ⟨named', member'⟩
  · exact Option.some.inj (head.symm.trans head')
  · rcases self' with self' | self'
    · cases any.symm.trans self'
    · exact ((positive _).1 (self'.symm.trans any)).elim
  · exact ((positive _).1 ((listed named' member').symm.trans any)).elim
  · rcases self with self | self
    · cases any'.symm.trans self
    · exact ((positive _).1 (self.symm.trans any')).elim
  · exact same'.symm
  · rcases self with self | self
    · exact ((positive _).2 ((listed named' member').symm.trans self)).elim
    · exact_mod_cast self.symm.trans (listed named' member')
  · exact ((positive _).1 ((listed named member).symm.trans any')).elim
  · rcases self' with self' | self'
    · exact ((positive _).2 ((listed named member).symm.trans self')).elim
    · rw [same']
      exact_mod_cast (listed named member).symm.trans self'
  · exact_mod_cast (listed named member).symm.trans (listed named' member')

theorem Chosen.any (chosen : Chosen THREAD_ANY s next) : s.readyList.head? = some next := by
  rcases chosen with ⟨-, head⟩ | ⟨self | self, -⟩ | ⟨named, -⟩
  · exact head
  · cases self
  · exact (natCast_ne (by decide) s.currentThread self.symm).elim
  · exact (natCast_ne (by decide) (s.totalList next).threadID named.symm).elim

theorem threadYield_block {want : Tid} (n : Named s) (run : threadYield want s = .ok t) :
    ((t = s.result THREAD_NONE ∨ t = s.result THREAD_INVALID) ∧ ∀ next, ¬ Chosen want s next) ∨
    ∃ next iter, Chosen want s next ∧ (s.totalList next).threadID = next ∧
      yieldBlock s.interrupts next iter (sweepStacks (s.interruptsSet false)) = .ok t := by
  have nobody (node : Nat) : s.threadIDOf node ≠ THREAD_ANY := natCast_ne (by decide) _
  have caller : (s.currentThread : Tid) ≠ THREAD_ANY := natCast_ne (by decide) _
  simp only [threadYield] at run
  split_ifs at run with any self
  · cases ready : s.readyList with
    | nil =>
        simp only [show (s.interruptsSet false).readyList = [] from ready, Except.ok.injEq] at run
        refine Or.inl ⟨Or.inl run.symm, fun next chosen => ?_⟩
        rcases chosen with ⟨-, head⟩ | ⟨self | self, -⟩ | ⟨named, -⟩
        · rw [ready] at head
          cases head
        · cases any.symm.trans self
        · exact caller (self.symm.trans any)
        · exact nobody next (named.symm.trans any)
    | cons head rest =>
        simp only [show (s.interruptsSet false).readyList = head :: rest from ready] at run
        exact Or.inr ⟨head, none, Or.inl ⟨any, by rw [ready]; rfl⟩, n.ready head (by rw [ready]; exact List.mem_cons_self), run⟩
  · exact Or.inr ⟨s.currentThread, none, Or.inr (Or.inl ⟨self, rfl⟩), n.current, run⟩
  · cases found : (s.interruptsSet false).findNode (s.interruptsSet false).readyList want with
    | none =>
        simp only [found, Except.ok.injEq] at run
        refine Or.inl ⟨Or.inr run.symm, fun next chosen => ?_⟩
        rcases chosen with ⟨any', -⟩ | ⟨self', -⟩ | ⟨named, member⟩
        · exact any any'
        · exact self self'
        · have none := List.find?_eq_none.mp found next member
          simp only [decide_eq_true_eq] at none
          exact none named.symm
    | some node =>
        simp only [found] at run
        have named : (s.interruptsSet false).threadIDOf node = want := by simpa using List.find?_some found
        have member : node ∈ s.readyList := List.mem_of_find?_eq_some found
        exact Or.inr ⟨node, some node, Or.inr (Or.inr ⟨named.symm, member⟩), n.ready node member, run⟩

theorem Parks.threadYield {want : Tid} (n : Named s) (chosen : Chosen want s next) (run : threadYield want s = .ok t) :
    ∃ called iter, Parks s (.afterYield s.interrupts called next iter) next s.callStack t ∧
      (called = true ∧ t.callStack = (t.totalList next).threadInfo ∨
        called = false ∧ t.callStack = .exitCall :: .afterExit s.currentThread next :: s.callStack) ∧
      (s.current.status = .running → s.current.exist = true → (t.totalList s.currentThread).nextThreadID = next) := by
  rcases threadYield_block n run with ⟨-, none⟩ | ⟨next', iter, chosen', named, block⟩
  · exact (none next chosen).elim
  · obtain rfl := chosen.unique n chosen'
    have masked (i : Nat) : Kept i s (s.interruptsSet false) := .of_table rfl
    have named : ((Threads.sweepStacks (s.interruptsSet false)).totalList next).threadID = next :=
      (sweepStacks_threadID _ _).trans named
    obtain ⟨called, parks, stack⟩ := Parks.yieldBlock named rfl block
    refine ⟨called, iter, parks.since rfl fun i => (masked i).trans (.sweepStacks _ i), stack, fun running alive => ?_⟩
    rw [yieldBlock_nextThreadID named block, parked_nextThreadID, if_pos, named]
    refine ⟨rfl, ?_, ?_⟩
    · rw [State.current, sweepStacks_status]
      exact running
    · rw [State.current, sweepStacks_exist]
      exact alive

theorem Control.threadYield {want : Tid} (n : Named s) (run : threadYield want s = .ok t) :
    Control s s.interrupts s.callStack t := by
  rcases threadYield_block n run with ⟨rfl | rfl, -⟩ | ⟨next, iter, -, named, block⟩
  · exact .stays rfl rfl rfl fun _ => Or.inl (.of_table rfl)
  · exact .stays rfl rfl rfl fun _ => Or.inl (.of_table rfl)
  · have masked (i : Nat) : Kept i s (s.interruptsSet false) := .of_table rfl
    have named : ((Threads.sweepStacks (s.interruptsSet false)).totalList next).threadID = next :=
      (sweepStacks_threadID _ _).trans named
    exact (Control.yieldBlock named rfl block).since rfl fun i => (masked i).trans (.sweepStacks _ i)

theorem Control.threadSleep {queue : Option Nat} (n : Named s) (run : threadSleep queue s = .ok t) :
    Control s s.interrupts s.callStack t := by
  cases queue with
  | none => exact Except.ok.inj run ▸ .stays rfl rfl rfl fun _ => Or.inl (.of_table rfl)
  | some q =>
      cases ready : s.readyList with
      | nil =>
          simp only [Threads.threadSleep, show (s.interruptsSet false).readyList = [] from ready] at run
          exact Except.ok.inj run ▸ .stays rfl rfl rfl fun _ => Or.inl (.of_table rfl)
      | cons next rest =>
          simp only [Threads.threadSleep, show (s.interruptsSet false).readyList = next :: rest from ready] at run
          obtain ⟨nodes, -, run⟩ := Result.bind_eq_ok.mp run
          let asleep := s.modifyThread s.currentThread fun t =>
            { t with status := .suspended, threadInfo := .afterSleep s.interrupts next :: s.callStack }
          let running := asleep.modifyThread next fun t => { t with status := .running }
          have awake (i : Nat) : Kept i asleep running :=
            .modifyThread asleep i next (fun _ => rfl) (fun _ => rfl) (fun _ => rfl) fun _ alive => alive
          have table : t.totalList = running.totalList := Except.ok.inj run ▸ rfl
          have kept (i : Nat) : Kept i asleep t := (awake i).trans (.of_table table)
          have named : (asleep.totalList next).threadID = next := by
            rw [modifyThread_same Thread.threadID]
            · exact n.ready next (by rw [ready]; exact List.mem_cons_self)
            · intro; rfl
          have own : asleep.totalList s.currentThread = { s.totalList s.currentThread with
              status := .suspended, threadInfo := .afterSleep s.interrupts next :: s.callStack } := by
            rw [thread_modifyThread, if_pos rfl]
          have current : t.currentThread = next := by
            rw [← Except.ok.inj run]
            exact (awake next).threadID.trans named
          refine .switches (.afterSleep s.interrupts next) next
            ⟨(kept next).threadID.trans named, current, Except.ok.inj run ▸ rfl, ?_, Or.inl ?_, ?_, fun alive => ?_, fun i other => ?_⟩
            (Or.inr rfl) (Except.ok.inj run ▸ rfl)
          · rw [(kept _).threadInfo, own]
          · rw [(kept _).nextThreadID, own]
          · rw [(kept _).threadID, own]
          · have := (kept _).exist alive
            rwa [own] at this
          · refine Kept.trans (.of_eq ?_) (kept i)
            rw [thread_modifyThread, if_neg other]

end Yields

def Settling (s : State) (landing : Option Landing) (base : List Frame) (t : State) : Prop :=
  ∃ enabled above, lands enabled (above ++ base) = landing ∧ (∀ frame ∈ above, frame.plain = true) ∧
    Control s enabled (above ++ base) t

namespace Settling

variable {s t u : State} {enabled : Bool} {frames : List Frame} {landing : Option Landing}

theorem of_control (control : Control s enabled frames t) : Settling s (lands enabled frames) frames t :=
  ⟨enabled, [], rfl, by simp, control⟩

theorem stays (current : t.currentThread = s.currentThread) (stack : t.callStack = frames) (flag : t.interrupts = enabled)
    (kept : ∀ i, Kept i s t) : Settling s (lands enabled frames) frames t :=
  of_control (.stays current stack flag fun i => Or.inl (kept i))

theorem since (settling : Settling u landing frames t) (current : u.currentThread = s.currentThread)
    (kept : ∀ i, Kept i s u) : Settling s landing frames t := by
  obtain ⟨e, above, same, plain, control⟩ := settling
  exact ⟨e, above, same, plain, control.since current kept⟩

theorem unframed {frame : Frame} (settling : Settling s landing (frame :: frames) t) (plain : frame.plain = true) :
    Settling s landing frames t := by
  obtain ⟨e, above, same, plains, control⟩ := settling
  have moved : above ++ frame :: frames = above ++ [frame] ++ frames := by simp
  rw [moved] at same control
  refine ⟨e, above ++ [frame], same, fun f member => ?_, control⟩
  rcases List.mem_append.mp member with inside | last
  · exact plains f inside
  · exact List.mem_singleton.mp last ▸ plain

theorem threadExit (n : Named s) (run : threadExit s = .ok t) : Settling s (lands s.interrupts s.callStack) s.callStack t := by
  obtain ⟨u, released, -⟩ := Result.bind_eq_ok.mp run
  obtain ⟨-, -, current, stack⟩ := releaseWaiters_list (n.interruptsSet false) released
  have flag : u.interrupts = false := (releaseWaiters_interrupts released).1
  have masked (i : Nat) : Kept i s (s.interruptsSet false) := .of_table rfl
  have kept (i : Nat) : Kept i s u := (masked i).trans (.releaseWaiters released)
  obtain ⟨alone, yields⟩ := threadExit_of_released released
  by_cases empty : u.readyList = []
  · obtain rfl := Except.ok.inj ((alone empty).symm.trans run)
    exact stays current stack rfl fun i => (kept i).trans (.of_table rfl)
  · have named : Named (Seated.markExited s.interrupts u) :=
      (((n.interruptsSet false).releaseWaiters released).modifyThread _ _ (by intro; rfl)).push _
    have exits := Control.threadYield named ((yields empty).symm.trans run)
    have frames : (Seated.markExited s.interrupts u).callStack = .exitReturn s.interrupts :: s.callStack :=
      congrArg (Frame.exitReturn s.interrupts :: ·) stack
    rw [show (Seated.markExited s.interrupts u).interrupts = false from flag, frames] at exits
    have marked (i : Nat) : Kept i u (u.modifyThread u.currentThread fun t => { t with exist := false, status := .exited }) :=
      .modifyThread u i u.currentThread (fun _ => rfl) (fun _ => rfl) (fun _ => rfl) fun _ alive => (Bool.false_ne_true alive).elim
    exact ((of_control exits).unframed rfl).since current fun i => ((kept i).trans (marked i)).trans (.of_table rfl)

theorem threadKill {tid : Tid} (run : threadKill tid s = .ok t) : Settling s (lands s.interrupts s.callStack) s.callStack t := by
  have killed (u : State) (i node : Nat) : Kept i u (u.modifyThread node fun t => { t with exist := false }) :=
    .modifyThread u i node (fun _ => rfl) (fun _ => rfl) (fun _ => rfl) fun _ alive => (Bool.false_ne_true alive).elim
  obtain ⟨itr, -, run⟩ := Result.bind_eq_ok.mp run
  have masked (i : Nat) : Kept i s (s.interruptsSet false) := .of_table rfl
  have marked (i : Nat) : Kept i s (markKilled itr (s.interruptsSet false)) := by
    cases itr with
    | none => exact masked i
    | some node => exact (masked i).trans (killed _ i node)
  have same : (markKilled itr (s.interruptsSet false)).currentThread = s.currentThread ∧
      (markKilled itr (s.interruptsSet false)).callStack = s.callStack := by
    cases itr <;> exact ⟨rfl, rfl⟩
  cases own : (markKilled itr (s.interruptsSet false)).current.wqt with
  | none =>
      simp only [own] at run
      cases itr with
      | none => exact Except.ok.inj run ▸ stays rfl rfl rfl fun _ => .of_table rfl
      | some node =>
          obtain ⟨u, unlinked, run⟩ := Result.bind_eq_ok.mp run
          obtain ⟨nodes, rfl⟩ := deleteNode_frame unlinked
          rw [← Except.ok.inj run]
          exact stays rfl rfl rfl fun i => ((marked i).trans (.unstack _ i node _)).trans (.of_table rfl)
  | some q =>
      simp only [own] at run
      obtain ⟨nodes, -, run⟩ := Result.bind_eq_ok.mp run
      split at run
      · exact Except.ok.inj run ▸ stays same.1 same.2 rfl fun i => (marked i).trans (.of_table rfl)
      · rename_i node found
        rw [← Except.ok.inj run]
        exact stays same.1 same.2 rfl fun i => ((marked i).trans (killed _ i node)).trans (.of_table rfl)

theorem threadWakeup {queue : Option Nat} {all : Int} (run : threadWakeup queue all s = .ok t) :
    Settling s (lands s.interrupts s.callStack) s.callStack t := by
  have woken := threadWakeup_woken run
  exact stays woken.current woken.callStack (threadWakeup_interrupts run).1 fun _ => .of_woken woken

theorem threadSleep {queue : Option Nat} (n : Named s) (run : threadSleep queue s = .ok t) :
    Settling s (lands s.interrupts s.callStack) s.callStack t :=
  of_control (.threadSleep n run)

theorem threadWait {tid : Tid} (n : Named s) (run : threadWait tid s = .ok t) : Settling s (lands s.interrupts s.callStack) s.callStack t := by
  simp only [Threads.threadWait] at run
  split_ifs at run
  · exact Except.ok.inj run ▸ stays rfl rfl rfl fun _ => .of_table rfl
  · exact Except.ok.inj run ▸ stays rfl rfl rfl fun _ => .of_table rfl
  have masked : Named ((s.interruptsSet false).push (.waitReturn s.interrupts tid)) := (n.interruptsSet false).push _
  split at run
  · have control := Control.threadSleep masked run
    exact ((of_control control).unframed rfl).since rfl fun _ => .of_table rfl
  · have control := Control.threadSleep (masked.queueCreate.modifyThread _ _ (by intro; rfl)) run
    have created (i : Nat) : Kept i s (waitQueueCreate ((s.interruptsSet false).push (.waitReturn s.interrupts tid))).1 :=
      .of_table rfl
    exact ((of_control control).unframed rfl).since rfl fun i =>
      (created i).trans (.modifyThread _ i _ (fun _ => rfl) (fun _ => rfl) (fun _ => rfl) fun _ alive => alive)

theorem acquireLoop {l : Nat} (n : Named s) (run : acquireLoop l enabled s = .ok t) :
    Settling s (lands enabled s.callStack) s.callStack t := by
  obtain ⟨lock, -, run⟩ := Result.bind_eq_ok.mp run
  split_ifs at run
  · exact Except.ok.inj run ▸ stays rfl rfl rfl fun _ => .of_table rfl
  · have control := Control.threadSleep (n.push _) run
    exact ((of_control control).unframed rfl).since rfl fun _ => .of_table rfl

theorem lockAcquire {l : Nat} (run : lockAcquire l s = .ok t) : Settling s (lands s.interrupts s.callStack) s.callStack t := by
  obtain ⟨lock, -, run⟩ := Result.bind_eq_ok.mp run
  obtain rfl := Except.ok.inj run
  have looping := stays (s := s) (t := (s.interruptsSet false).push (.acquireLoop l s.interrupts)) rfl rfl rfl fun _ => .of_table rfl
  exact looping.unframed rfl

theorem lockRelease_current {l : Nat} (run : Threads.lockRelease l s = .ok t) : t.currentThread = s.currentThread := by
  obtain ⟨lock, -, woken⟩ := lockRelease_cases run
  refine woken.current.trans ?_
  unfold unlock
  split_ifs <;> rfl

theorem lockRelease {l : Nat} (run : lockRelease l s = .ok t) : Settling s (lands s.interrupts s.callStack) s.callStack t :=
  stays (lockRelease_current run) (lockRelease_callStack run) (lockRelease_interrupts run) fun _ => .lockRelease run

theorem cvWait {c l : Nat} (n : Named s) (run : cvWait c l s = .ok t) : Settling s (lands s.interrupts s.callStack) s.callStack t := by
  obtain ⟨wqC, -, run⟩ := Result.bind_eq_ok.mp run
  obtain ⟨u, released, run⟩ := Result.bind_eq_ok.mp run
  obtain ⟨lock, -, run⟩ := Result.bind_eq_ok.mp run
  have named : Named (u.push (.cvReacquire l s.interrupts)) := ((n.interruptsSet false).lockRelease released).push _
  have current : u.currentThread = s.currentThread := (lockRelease_current released).trans rfl
  have flag : u.interrupts = false := (lockRelease_interrupts released).trans rfl
  have stack : u.callStack = s.callStack := (lockRelease_callStack released).trans rfl
  have masked (i : Nat) : Kept i s (s.interruptsSet false) := .of_table rfl
  have kept (i : Nat) : Kept i s (u.push (.cvReacquire l s.interrupts)) :=
    ((masked i).trans (.lockRelease released)).trans (.of_table rfl)
  have waits : Control (u.push (.cvReacquire l s.interrupts)) false (.cvReacquire l s.interrupts :: s.callStack) t := by
    rw [← flag, ← stack]
    split_ifs at run
    · exact .threadSleep named run
    · exact Except.ok.inj run ▸ .stays rfl rfl rfl fun _ => Or.inl (.of_table rfl)
  exact ((of_control waits).unframed rfl).since current kept

theorem cvWake {all : Int} {c l : Nat} (run : cvWake all c l s = .ok t) : Settling s (lands s.interrupts s.callStack) s.callStack t := by
  obtain ⟨wqC, -, run⟩ := Result.bind_eq_ok.mp run
  obtain ⟨lock, -, run⟩ := Result.bind_eq_ok.mp run
  split_ifs at run
  · exact threadWakeup run
  · exact Except.ok.inj run ▸ stays rfl rfl rfl fun _ => .of_table rfl

end Settling

def CreateFails (s : State) : Call → Prop
  | .create stackOk => s.interrupts = true ∧ (freeSlot s (THREAD_MAX_THREADS - 1) 1 = none ∨ stackOk = false)
  | _ => False

theorem CreateFails.of_push {s : State} {frame : Frame} {call : Call} (fails : CreateFails (s.push frame) call) : CreateFails s call := by
  cases call with
  | create stackOk =>
      have same := freeSlot_congr (s := s) (t := s.push frame) (fun _ => rfl) (THREAD_MAX_THREADS - 1) 1
      exact ⟨fails.1, fails.2.imp_left same.symm.trans⟩
  | _ => exact fails.elim

section Steps

variable {s t : State}

theorem Settling.enter {call : Call} (n : Named s) (run : enter call s = .ok t) :
    ∃ enabled, Settling s (lands enabled s.callStack) s.callStack t ∧
      (enabled = s.interrupts ∨ CreateFails s call ∨ ∃ e, call = .interruptsSet e) := by
  have restores (settling : Settling s (lands s.interrupts s.callStack) s.callStack t) : ∃ enabled, Settling s (lands enabled s.callStack) s.callStack t ∧
      (enabled = s.interrupts ∨ CreateFails s call ∨ ∃ e, call = .interruptsSet e) :=
    ⟨s.interrupts, settling, Or.inl rfl⟩
  cases call with
  | create stackOk =>
      rcases threadCreate_eq stackOk s with ⟨full, refused⟩ | ⟨id, found, started⟩
      · refine ⟨false, ?_, ?_⟩
        · rw [← Except.ok.inj run, refused]
          exact .stays rfl rfl rfl fun _ => .of_table rfl
        · cases flag : s.interrupts with
          | true => exact Or.inr (Or.inl ⟨flag, Or.inl full⟩)
          | false => exact Or.inl rfl
      · have run : threadCreate stackOk s = t := Except.ok.inj run
        rw [started] at run
        refine ⟨if stackOk then s.interrupts else false, .of_control ?_, ?_⟩
        · subst run
          refine .stays rfl rfl rfl fun i => ?_
          by_cases new : i = id
          · subst new
            exact Or.inr (by simp [Thread.started])
          · exact Or.inl (.of_eq (Function.update_of_ne new _ _))
        · cases stackOk with
          | true => exact Or.inl rfl
          | false =>
              cases flag : s.interrupts with
              | true => exact Or.inr (Or.inl ⟨flag, Or.inr rfl⟩)
              | false => exact Or.inl rfl
  | interruptsSet enabled =>
      exact ⟨enabled, Except.ok.inj run ▸ .stays rfl rfl rfl fun _ => .of_table rfl, Or.inr (Or.inr ⟨enabled, rfl⟩)⟩
  | yield tid => exact restores (.of_control (.threadYield n run))
  | exit => exact restores (.threadExit n run)
  | kill tid => exact restores (.threadKill run)
  | sleep queue => exact restores (.threadSleep n run)
  | wakeup queue all => exact restores (.threadWakeup run)
  | wait tid => exact restores (.threadWait n run)
  | lockAcquire l => exact restores (.lockAcquire run)
  | lockRelease l => exact restores (.lockRelease run)
  | cvWait c l => exact restores (.cvWait n run)
  | cvSignal c l | cvBroadcast c l => exact restores (.cvWake run)
  | queueCreate | lockCreate | cvCreate =>
      obtain rfl := Except.ok.inj run
      exact restores (.stays rfl rfl rfl fun _ => .of_table rfl)
  | queueDestroy q =>
      obtain ⟨nodes, -, run⟩ := Result.bind_eq_ok.mp run
      obtain rfl := Except.ok.inj run
      exact restores (.stays rfl rfl rfl fun _ => .of_table rfl)
  | lockDestroy l =>
      obtain ⟨lock, -, run⟩ := Result.bind_eq_ok.mp run
      split_ifs at run
      all_goals
        obtain rfl := Except.ok.inj run
        exact restores (.stays rfl rfl rfl fun _ => .of_table rfl)
  | cvDestroy c =>
      obtain ⟨q, -, run⟩ := Result.bind_eq_ok.mp run
      obtain ⟨nodes, -, run⟩ := Result.bind_eq_ok.mp run
      split_ifs at run
      all_goals
        obtain rfl := Except.ok.inj run
        exact restores (.stays rfl rfl rfl fun _ => .of_table rfl)

theorem Control.threadID {enabled : Bool} {frames : List Frame} (control : Control s enabled frames t) {i : Nat}
    (named : (s.totalList i).threadID = i) : (t.totalList i).threadID = i := by
  cases control with
  | stays _ _ _ others =>
      rcases others i with kept | ⟨-, id⟩
      · exact kept.threadID.trans named
      · exact id
  | switches frame next parks _ _ | dies next iter parks _ =>
      by_cases own : i = s.currentThread
      · rw [own] at named ⊢
        exact parks.threadID.trans named
      · exact (parks.others i own).threadID.trans named

def Names (s : State) (frames : List Frame) : Prop :=
  ∀ frame ∈ frames, ∀ next, frame.next? = some next → (s.totalList next).threadID = next

/-- Only the innermost frame can be `thread_yield` at its `getcontext`, and a killed thread's exit is left with
interrupts off. -/
structure Resumable (s : State) (frames : List Frame) : Prop where
  based : Based frames
  names : Names s frames
  yields : ∀ frame ∈ frames.tail, frame.isYield = false
  quiet : ∀ enabled, lands enabled frames ≠ some (.afterExit true)

theorem Resumable.markCalled {frames : List Frame} (r : Resumable s frames) : Resumable s (markCalled frames) := by
  obtain ⟨based, names, yields, quiet⟩ := r
  refine ⟨?_, ?_, ?_, fun enabled => lands_markCalled enabled frames ▸ quiet enabled⟩
  all_goals
    unfold Threads.markCalled
    split
  · exact based
  · exact based
  · rintro frame member next successor
    rcases List.mem_cons.mp member with rfl | below
    · exact names _ List.mem_cons_self next successor
    · exact names _ (List.mem_cons_of_mem _ below) next successor
  · exact names
  · exact yields
  · exact yields

structure Framed (s : State) : Prop where
  named : Named s
  saved : ∀ i, Resumable s (s.totalList i).threadInfo
  based : Based s.callStack
  names : Names s s.callStack
  yields : ∀ frame ∈ s.callStack.tail, frame.isYield = false
  masked : ∀ frame, s.callStack.head? = some frame → frame.isYield = true → s.interrupts = false
  quiet : lands s.interrupts s.callStack ≠ some (.afterExit true)

namespace Framed

variable {enabled : Bool} {frames : List Frame}

theorem of_control (f : Framed s) (named : Named t) (based : Based frames) (names : Names s frames) (yields : ∀ frame ∈ frames, frame.isYield = false)
    (quiet : lands enabled frames ≠ some (.afterExit true)) (control : Control s enabled frames t) : Framed t := by
  have still {fs : List Frame} (names : Names s fs) : Names t fs := fun frame member next successor =>
    control.threadID (names frame member next successor)
  have resumes {i : Nat} (kept : Kept i s t) : Resumable t (t.totalList i).threadInfo := by
    rw [kept.threadInfo]
    exact ⟨(f.saved i).based, still (f.saved i).names, (f.saved i).yields, (f.saved i).quiet⟩
  have parked {frame : Frame} {next : Nat} (id : (t.totalList next).threadID = next) (successor : frame.next? = some next)
      (flag : ∀ e, lands e (frame :: frames) = lands enabled frames) : Resumable t (frame :: frames) := by
    refine ⟨based.cons ?_, fun g member m given => ?_, yields, fun e => ?_⟩
    · rintro call rfl
      cases successor
    · rcases List.mem_cons.mp member with rfl | below
      · rw [successor] at given
        exact Option.some.inj given ▸ id
      · exact still names g below m given
    · rw [flag]
      exact quiet
  cases control with
  | stays current stack flag others =>
      refine ⟨named, fun i => ?_, stack ▸ based, stack ▸ still names, ?_, ?_, ?_⟩
      · rcases others i with kept | ⟨stub, -⟩
        · exact resumes kept
        · rw [stub]
          refine ⟨trivial, fun g member m given => ?_, by simp, by simp [lands]⟩
          obtain rfl := List.mem_singleton.mp member
          cases given
      · rw [stack]
        exact fun g member => yields g (List.mem_of_mem_tail member)
      · rw [stack]
        intro g first yielded
        rw [yields g (List.mem_of_mem_head? first)] at yielded
        cases yielded
      · rw [stack, flag]
        exact quiet
  | switches frame next parks resumed stack =>
      have saved (i : Nat) : Resumable t (t.totalList i).threadInfo := by
        by_cases own : i = s.currentThread
        · rw [own, parks.saved]
          rcases resumed with ⟨iter, rfl⟩ | rfl
          · exact parked parks.named rfl fun _ => rfl
          · exact parked parks.named rfl fun _ => rfl
        · exact resumes (parks.others i own)
      refine ⟨named, saved, ?_, ?_, ?_, fun _ _ _ => parks.off, ?_⟩
      · exact stack ▸ (saved next).based
      · exact stack ▸ (saved next).names
      · exact stack ▸ (saved next).yields
      · exact stack ▸ (saved next).quiet _
  | dies next iter parks stack =>
      refine ⟨named, fun i => ?_, stack ▸ based, ?_, ?_, fun _ _ _ => parks.off, ?_⟩
      · by_cases own : i = s.currentThread
        · rw [own, parks.saved]
          exact parked parks.named rfl fun _ => rfl
        · exact resumes (parks.others i own)
      · rw [stack]
        intro g member m given
        rcases List.mem_cons.mp member with rfl | member
        · cases given
        · rcases List.mem_cons.mp member with rfl | below
          · exact Option.some.inj given ▸ parks.named
          · exact still names g below m given
      · rw [stack]
        intro g member
        rcases List.mem_cons.mp member with rfl | below
        · rfl
        · exact yields g below
      · rw [stack, parks.off]
        simp [lands]

end Framed

def Frame.goesOn : Frame → Bool
  | .user _ | .afterExit _ _ => false
  | _ => true

theorem Settling.continueFrame {frame : Frame} {frames : List Frame} (f : Framed s) (stack : s.callStack = frame :: frames)
    (goesOn : frame.goesOn = true) (run : continueFrame frame { s with callStack := frames } = .ok t) :
    Settling s (lands s.interrupts s.callStack) frames t := by
  have n : Named { s with callStack := frames } := f.named.pop frames
  have within {landing : Option Landing} (settling : Settling { s with callStack := frames } landing frames t) :
      Settling s landing frames t := settling.since rfl fun _ => .of_table rfl
  have pops (enabled : Bool) (current : t.currentThread = s.currentThread) (popped : t.callStack = frames)
      (flag : t.interrupts = enabled) (table : t.totalList = s.totalList) : Settling s (lands enabled frames) frames t :=
    stays current popped flag fun _ => .of_table table
  rw [stack]
  cases frame with
  | user _ | afterExit _ _ => cases goesOn
  | stub | handler _ =>
      obtain rfl := Except.ok.inj run
      exact pops true rfl rfl rfl rfl
  | exitReturn enabled | afterSleep enabled _ | waitReturn enabled _ | cvReturn enabled =>
      obtain rfl := Except.ok.inj run
      exact pops enabled rfl rfl rfl rfl
  | yieldResult =>
      obtain rfl := Except.ok.inj run
      exact pops s.interrupts rfl rfl rfl rfl
  | exitCall => exact within (.threadExit n run)
  | afterYield enabled called next iter =>
      cases called with
      | true =>
          obtain rfl := Except.ok.inj run
          have resumed := stays (s := s) (t := (State.interruptsSet { s with callStack := frames } enabled).push .yieldResult)
            rfl rfl rfl fun _ => .of_table rfl
          exact resumed.unframed rfl
      | false =>
          have id := f.names _ (stack ▸ List.mem_cons_self) next rfl
          have off : s.interrupts = false := f.masked _ (by rw [stack]; rfl) rfl
          exact within (.of_control (.yieldBlock (s := { s with callStack := frames }) id off run))
  | acquireLoop l enabled => exact within (.acquireLoop n run)
  | cvReacquire l enabled => exact within ((Settling.lockAcquire run).unframed rfl |>.since rfl fun _ => .of_table rfl)

theorem call_control {call : Call} {event : Option Event} (f : Framed s) (run : step s (.call call) = .ok (t, event)) :
    s.callStack = [] ∧ event = some (.called s.currentThread call) ∧
      ∃ enabled, Settling s (some (.user enabled)) [.user call] t ∧
        (enabled = s.interrupts ∨ CreateFails s call ∨ ∃ e, call = .interruptsSet e) := by
  rcases step_cases run with ⟨made, same, stack, entered, shown⟩ | ⟨_, _, resumed, -⟩ | ⟨interrupted, -⟩
  · obtain rfl := Action.call.inj same
    obtain ⟨enabled, settling, changes⟩ := Settling.enter (f.named.push _) entered
    have user : (s.push (.user call)).callStack = [.user call] := by rw [State.push, stack]
    rw [user] at settling
    refine ⟨stack, shown, enabled, settling.since rfl fun _ => .of_table rfl, ?_⟩
    exact changes.imp_right (Or.imp_left CreateFails.of_push)
  · cases resumed
  · cases interrupted

/-- What a step does to the contexts: a call entered, a call returned, the jump after a killed thread's exit, or
anything else. -/
theorem step_control {action : Action} {event : Option Event} (f : Framed s) (run : step s action = .ok (t, event)) :
    (∃ call enabled, event = some (.called s.currentThread call) ∧ Settling s (some (.user enabled)) [.user call] t) ∨
    (∃ call frames, s.callStack = .user call :: frames ∧ event = some (.returned s.currentThread call s.rax) ∧
      t = { s with callStack := frames }) ∨
    (∃ caller next frames, s.callStack = .afterExit caller next :: frames ∧ event = none ∧
      t = switchTo caller next { s with callStack := frames }) ∨
    (event = none ∧ ∃ base, Settling s (lands s.interrupts s.callStack) base t ∧ Based base ∧ Names s base ∧
      ∀ frame ∈ base, frame.isYield = false) := by
  rcases step_cases run with ⟨call, rfl, stack, entered, shown⟩ | ⟨frame, frames, rfl, stack, continued, shown⟩ |
    ⟨rfl, enabled, yielded, shown⟩
  · obtain ⟨-, shown, flag, settling, -⟩ := call_control f run
    exact Or.inl ⟨call, flag, shown, settling⟩
  · by_cases goesOn : frame.goesOn = true
    · have none : event = none := by
        cases frame with
        | user _ => cases goesOn
        | _ => exact shown
      have based := f.based
      rw [stack] at based
      refine Or.inr (Or.inr (Or.inr ⟨none, frames, .continueFrame f stack goesOn continued, based.tail, ?_, ?_⟩))
      · exact fun g member => f.names g (stack ▸ List.mem_cons_of_mem _ member)
      · exact fun g member => f.yields g (by rw [stack]; exact member)
    · cases frame with
      | user call => exact Or.inr (Or.inl ⟨call, frames, stack, shown, (Except.ok.inj continued).symm⟩)
      | afterExit caller next =>
          exact Or.inr (Or.inr (Or.inl ⟨caller, next, frames, stack, shown, (Except.ok.inj continued).symm⟩))
      | _ => exact (goesOn rfl).elim
  · have control := Control.threadYield ((f.named.interruptsSet false).push (.handler s.rax)) yielded
    refine Or.inr (Or.inr (Or.inr ⟨shown, s.callStack, ?_, f.based, f.names, ?_⟩))
    · rw [enabled]
      exact ((Settling.of_control control).unframed rfl).since rfl fun _ => .of_table rfl
    · intro g member
      cases top : s.callStack with
      | nil => rw [top] at member; cases member
      | cons frame frames =>
          rw [top] at member
          rcases List.mem_cons.mp member with rfl | below
          · cases yielded : g.isYield with
            | false => rfl
            | true =>
                have off := f.masked g (by rw [top]; rfl) yielded
                rw [enabled] at off
                cases off
          · exact f.yields g (by rw [top]; exact below)

namespace Framed

theorem of_settling {landing : Option Landing} {base : List Frame} (f : Framed s) (named : Named t) (based : Based base)
    (names : Names s base) (yields : ∀ frame ∈ base, frame.isYield = false) (quiet : landing ≠ some (.afterExit true))
    (settling : Settling s landing base t) : Framed t := by
  obtain ⟨enabled, above, same, plains, control⟩ := settling
  refine f.of_control named (based.append plains) (fun g member next successor => ?_) (fun g member => ?_) (same ▸ quiet) control
  all_goals rcases List.mem_append.mp member with inside | below
  · rw [Frame.plain.next? (plains g inside)] at successor
    cases successor
  · exact names g below next successor
  · exact Frame.plain.isYield (plains g inside)
  · exact yields g below

theorem off_of_afterExit {caller next : Nat} {frames : List Frame} (f : Framed s) (stack : s.callStack = .afterExit caller next :: frames) :
    s.interrupts = false := by
  cases flag : s.interrupts with
  | false => rfl
  | true =>
      have quiet := f.quiet
      rw [stack, flag] at quiet
      exact (quiet rfl).elim

theorem switchTo {caller next : Nat} {frames : List Frame} (f : Framed s) (stack : s.callStack = .afterExit caller next :: frames) :
    Framed (switchTo caller next { s with callStack := frames }) := by
  have id := f.names _ (stack ▸ List.mem_cons_self) next rfl
  have off := f.off_of_afterExit stack
  have final := switchTo_thread caller next { s with callStack := frames } id
  have saved (i : Nat) : Resumable (Threads.switchTo caller next { s with callStack := frames })
      ((Threads.switchTo caller next { s with callStack := frames }).totalList i).threadInfo := by
    have still {fs : List Frame} (names : Names s fs) : Names (Threads.switchTo caller next { s with callStack := frames }) fs := by
      intro g member m successor
      rw [final]
      exact names g member m successor
    obtain ⟨based, names, yields, quiet⟩ := f.saved i
    rw [final]
    dsimp only
    split_ifs
    · exact Resumable.markCalled ⟨based, still names, yields, quiet⟩
    · exact ⟨based, still names, yields, quiet⟩
  have current : (Threads.switchTo caller next { s with callStack := frames }).callStack =
      ((Threads.switchTo caller next { s with callStack := frames }).totalList next).threadInfo := rfl
  refine ⟨(f.named.pop frames).switchTo caller next, saved, ?_, ?_, ?_, fun _ _ _ => off, ?_⟩
  · exact current ▸ (saved next).based
  · exact current ▸ (saved next).names
  · exact current ▸ (saved next).yields
  · exact current ▸ (saved next).quiet _

theorem step {action : Action} {event : Option Event} (f : Framed s) (run : step s action = .ok (t, event)) : Framed t := by
  have named := f.named.step run
  rcases step_control f run with ⟨call, enabled, -, settling⟩ | ⟨call, frames, stack, -, rfl⟩ |
    ⟨caller, next, frames, stack, -, rfl⟩ | ⟨-, base, settling, based, names, yields⟩
  · refine f.of_settling named (show Based [.user call] from rfl) (fun g member m given => ?_) (fun g member => ?_) (by simp) settling
    all_goals obtain rfl := List.mem_singleton.mp member
    · cases given
    · rfl
  · have based := f.based
    rw [stack] at based
    obtain rfl : frames = [] := based
    exact f.of_control named (show Based [] from trivial) (by simp [Names]) (by simp) (by simp [lands])
      (show Control s s.interrupts [] _ from .stays rfl rfl rfl fun _ => Or.inl (.of_table rfl))
  · exact f.switchTo stack
  · exact f.of_settling named based names yields f.quiet settling

theorem init : Framed threadInit where
  named := .init
  saved i := by
    have empty : (threadInit.totalList i).threadInfo = [] := by
      by_cases first : i = 0 <;> simp [threadInit, first, Thread.zero]
    rw [empty]
    exact ⟨trivial, by simp [Names], by simp, by simp [lands]⟩
  based := trivial
  names := by simp [Names, threadInit]
  yields := by simp [threadInit]
  masked := by simp [threadInit]
  quiet := by simp [threadInit, lands]

theorem of_run {allowed : State → Action → Prop} {labels : List Label} (run : Runs allowed labels s) : Framed s :=
  run.invariant Framed init fun _ _ _ taken f => f.step taken.2

end Framed

end Steps

end OperatingSystem.Threads
