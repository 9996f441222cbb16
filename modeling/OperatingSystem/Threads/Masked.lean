import OperatingSystem.Threads.Statements

namespace OperatingSystem.Threads

open State

def Does (p : Program Unit) (s : State) (r : Except Fault State) : Prop :=
  Prog.Performs Statement.exec Statement.Masked p s (r >>= fun t => .ok ((), t))

namespace Does

variable {α : Type} {s : State} {r : Except Fault State} {g : α → Except Fault State} {h : State → Except Fault State}

theorem pure : Does (Pure.pure ()) s (.ok s) := Prog.Performs.pure ()

theorem reads {statement : Statement} {f : statement.Result → Program Unit} {a : statement.Result} {t : State}
    (quiet : statement.edits = false) (called : statement.exec s = .ok (a, t)) (rest : Does (f a) t r) :
    Does (Source.run statement >>= f) s r :=
  Prog.Performs.next (fun edits => by rw [quiet] at edits; cases edits) called rest

theorem read {f : State → Program Unit} (rest : Does (f s) s r) : Does (Source.read >>= f) s r := reads rfl rfl rest

theorem interruptsSet {enabled : Bool} {f : Bool → Program Unit} (rest : Does (f s.interrupts) (s.interruptsSet enabled) r) :
    Does (Source.interruptsSet enabled >>= f) s r := reads rfl rfl rest

theorem store {f : Unit → Program Unit} {m : State → State} {quiet : ∀ s, Quiet s (m s)} (rest : Does (f ()) (m s) r) :
    Does (Source.store m quiet >>= f) s r := reads rfl rfl rest

theorem stored {m : State → State} {quiet : ∀ s, Quiet s (m s)} : Does (Source.store m quiet) s (.ok (m s)) :=
  Prog.Performs.call fun edits => by cases edits

theorem newQueue {f : Nat → Program Unit} (rest : Does (f (waitQueueCreate s).2) (waitQueueCreate s).1 r) :
    Does (Source.newQueue >>= f) s r := reads rfl rfl rest

theorem edit {statement : Statement} {f : statement.Result → Program Unit} {a : statement.Result} {t : State}
    (off : s.interrupts = false) (called : statement.exec s = .ok (a, t)) (rest : Does (f a) t r) :
    Does (Source.run statement >>= f) s r :=
  Prog.Performs.next (fun _ => off) called rest

theorem pushbackRL {i : Nat} {f : Unit → Program Unit} (off : s.interrupts = false) (rest : Does (f ()) (s.pushbackRL i) r) :
    Does (Source.pushbackRL i >>= f) s r := edit off rfl rest

theorem pushedRL {i : Nat} (off : s.interrupts = false) : Does (Source.pushbackRL i) s (.ok (s.pushbackRL i)) :=
  Prog.Performs.call fun _ => off

theorem freeQueue {q : Nat} {f : Unit → Program Unit} (off : s.interrupts = false) (rest : Does (f ()) (s.setQueue q none) r) :
    Does (Source.freeQueue q >>= f) s r := edit off rfl rest

theorem bind {p : Program Unit} {f : Unit → Program Unit} {q : Except Fault State} (first : Does p s q)
    (rest : ∀ t, q = .ok t → Does (f ()) t (h t)) : Does (p >>= f) s (q >>= h) := by
  have whole := Prog.Performs.bind (g := fun as => h as.2 >>= fun t => .ok ((), t)) first fun a t ran => by
    obtain ⟨u, same, again⟩ := Result.bind_eq_ok.mp ran
    obtain ⟨-, rfl⟩ := Prod.mk.inj (Except.ok.inj again)
    exact rest u same
  unfold Does
  cases q with
  | error e => exact whole
  | ok t => exact whole

theorem after {p : Program Unit} {f : Unit → Program Unit} {t : State} (first : Does p s (.ok t)) (rest : Does (f ()) t r) :
    Does (p >>= f) s r :=
  bind (h := fun _ => r) first fun u same => by
    obtain rfl := Except.ok.inj same
    exact rest

theorem lift {x : Except Fault α} {f : α → Program Unit} (rest : ∀ a, x = .ok a → Does (f a) s (g a)) :
    Does (liftM x >>= f) s (x >>= g) := by
  have whole := Prog.Performs.lift (g := fun a => g a >>= fun t => .ok ((), t)) rest
  unfold Does
  cases x with
  | error e => exact whole
  | ok a => exact whole

theorem deleteNode {target : Nat} {node : Option Nat} {f : Unit → Program Unit} (off : s.interrupts = false)
    (rest : ∀ t, Threads.deleteNode s target node = .ok t → Does (f ()) t (h t)) :
    Does (Source.deleteNode target node >>= f) s (Threads.deleteNode s target node >>= h) :=
  bind (Prog.Performs.call fun _ => off) rest

theorem deletedNode {target : Nat} {node : Option Nat} (off : s.interrupts = false) :
    Does (Source.deleteNode target node) s (Threads.deleteNode s target node) :=
  Prog.Performs.call fun _ => off

theorem fn2 {f : Unit → Program Unit} (rest : Does (f ()) s r) : Does (Source.fn2 >>= f) s r :=
  interruptsSet (interruptsSet rest)

theorem leave {enabled : Bool} {v : Tid} : Does (Source.leave enabled v) s (.ok ((s.interruptsSet enabled).result v)) :=
  interruptsSet stored

theorem restore {enabled : Bool} : Does (Source.restore enabled) s (.ok (s.interruptsSet enabled)) := interruptsSet pure

theorem requeueCaller_interrupts (next : Nat) (s : State) : (Threads.requeueCaller next s).interrupts = s.interrupts := by
  unfold Threads.requeueCaller
  dsimp only
  split
  · split <;> rfl
  · rfl

theorem enters {f : Bool → Unit → Program Unit} (rest : Does (f s.interrupts ()) (s.interruptsSet false) r) :
    Does (Source.interruptsSet false >>= fun enabled => Source.fn2 >>= f enabled) s r := interruptsSet (fn2 rest)

theorem ite {c : Prop} [Decidable c] {p p' : Program Unit} {r' : Except Fault State} (yes : c → Does p s r) (no : ¬ c → Does p' s r') :
    Does (if c then p else p') s (if c then r else r') := by
  split
  · exact yes ‹_›
  · exact no ‹_›

theorem threadCreate (stackOk : Bool) : Does (Source.threadCreate stackOk) s (.ok (threadCreate stackOk s)) := by
  refine enters (read ?_)
  unfold Threads.threadCreate
  dsimp only
  cases freeSlot (s.interruptsSet false) (THREAD_MAX_THREADS - 1) 1 with
  | none => exact stored
  | some id =>
      refine store ?_
      cases stackOk with
      | false =>
          rw [if_neg Bool.false_ne_true]
          exact store stored
      | true =>
          rw [if_pos rfl]
          exact store (pushbackRL rfl leave)

theorem requeueCaller {next : Nat} (off : s.interrupts = false) :
    Does (Source.requeueCaller next) s (.ok (requeueCaller next s)) := by
  refine read ?_
  unfold Threads.requeueCaller
  dsimp only
  by_cases running : s.current.status = .running
  · rw [if_pos running, if_pos running]
    refine store (read ?_)
    by_cases alive : (s.modifyThread s.currentThread fun t => { t with status := .ready }).current.exist
    · rw [if_pos alive, if_pos alive]
      exact store (store (pushedRL off))
    · rw [if_neg alive, if_neg alive]
      exact pure
  · rw [if_neg running, if_neg running]
    exact pure

theorem switchTo {caller next : Nat} : Does (Source.switchTo caller next) s (.ok (switchTo caller next s)) :=
  read (store (store (store stored)))

theorem unlinkNext_kept {next : Nat} {iter : Option Nat} (gone : (s.totalList next).threadID = 0 ∧ (s.totalList next).status = .exited) :
    Does (Source.unlinkNext next iter) s (.ok s) := by
  refine read ?_
  rw [if_pos gone]
  exact pure

theorem unlinkNext {next : Nat} {iter : Option Nat} (off : s.interrupts = false)
    (listed : ¬ ((s.totalList next).threadID = 0 ∧ (s.totalList next).status = .exited)) :
    Does (Source.unlinkNext next iter) s (Threads.deleteNode s next iter) := by
  refine read ?_
  rw [if_neg listed]
  exact deletedNode off

theorem yieldBlock {enabled : Bool} {next : Nat} {iter : Option Nat} (off : s.interrupts = false) :
    Does (Source.yieldBlock enabled next iter) s (yieldBlock enabled next iter s) := by
  unfold Threads.yieldBlock
  refine read (store (after (requeueCaller off) (read ?_)))
  have off' : (Threads.requeueCaller next (s.modifyThread s.currentThread fun t =>
      { t with threadInfo := .afterYield enabled false next iter :: s.callStack })).interrupts = false := by
    rw [requeueCaller_interrupts]
    exact off
  refine ite (fun _ => store (store stored)) fun _ => ?_
  dsimp only
  split
  · rename_i gone
    exact after (unlinkNext_kept gone) switchTo
  · rename_i listed
    exact bind (unlinkNext off' listed) fun _ _ => switchTo

theorem threadYield (want : Tid) : Does (Source.threadYield want) s (threadYield want s) := by
  unfold Threads.threadYield
  refine enters (read (ite (fun _ => ?_) fun _ => ite (fun _ => store (yieldBlock rfl)) fun _ => ?_))
  · cases ready : (s.interruptsSet false).readyList with
    | nil => exact leave
    | cons head rest => exact store (yieldBlock rfl)
  · cases found : (s.interruptsSet false).findNode (s.interruptsSet false).readyList want with
    | none => exact leave
    | some node => exact store (yieldBlock rfl)

theorem wakeHead {q head : Nat} {rest : List Nat} (off : s.interrupts = false) (nodes : s.queues q = some (head :: rest)) :
    Does (Source.wakeHead q) s (.ok (wakeThread (s.setQueue q (some rest)) head)) := by
  have called : Statement.exec (.deleteNodewq q) s = .ok ((s.totalList head).threadID, s.setQueue q (some rest)) :=
    Result.bind_eq_ok.mpr ⟨head :: rest, State.queueNodes_eq_ok.mpr nodes, rfl⟩
  exact edit off called (store (pushedRL off))

theorem wakeLoop {q : Nat} {nodes : List Nat} (off : s.interrupts = false) (queued : s.queues q = some nodes) :
    Does (Source.wakeLoop q nodes) s (.ok (nodes.foldl wakeThread (s.setQueue q (some [])))) := by
  induction nodes generalizing s with
  | nil =>
      have same : s.setQueue q (some []) = s := by
        unfold setQueue
        rw [← queued, Function.update_eq_self]
      rw [List.foldl_nil, same]
      exact pure
  | cons head rest ih =>
      have again : (wakeThread (s.setQueue q (some rest)) head).setQueue q (some []) =
          wakeThread (s.setQueue q (some [])) head := by
        unfold wakeThread setQueue modifyThread State.pushbackRL
        simp only [Function.update_idem]
      have last := ih (s := wakeThread (s.setQueue q (some rest)) head) off (Function.update_self q _ _)
      rw [again] at last
      exact after (wakeHead off queued) last

theorem wakeThreads_interruptsSet (nodes : List Nat) (s : State) (enabled : Bool) :
    nodes.foldl wakeThread (s.interruptsSet enabled) = (nodes.foldl wakeThread s).interruptsSet enabled :=
  List.foldl_hom (fun t : State => t.interruptsSet enabled) fun _ _ => rfl

theorem threadWakeup (queue : Option Nat) (all : Int) : Does (Source.threadWakeup queue all) s (threadWakeup queue all s) := by
  refine enters ?_
  cases queue with
  | none => exact leave
  | some q =>
      refine read (lift fun nodes read => ?_)
      have queued := State.queueNodes_eq_ok.mp read
      cases nodes with
      | nil => exact leave
      | cons head rest =>
          refine ite (fun _ => ?_) fun _ => ite (fun _ => ?_) fun _ => leave
          · exact after (wakeHead rfl queued) leave
          · refine after (wakeLoop rfl queued) ?_
            have restored := wakeThreads_interruptsSet (head :: rest) ((s.interruptsSet false).setQueue q (some [])) s.interrupts
            exact Eq.mpr (congrArg (fun t : State => Does _ _ (.ok (t.result (rest.length + 1)))) restored) leave

theorem releaseWaiters (off : s.interrupts = false) : Does Source.releaseWaiters s (releaseWaiters s) := by
  unfold Threads.releaseWaiters
  refine read ?_
  cases waited : s.current.wqt with
  | none => exact pure
  | some q =>
      refine bind (threadWakeup (some q) 1) fun t woken => freeQueue ?_ stored
      exact (threadWakeup_interrupts woken).1.trans off

theorem threadExit : Does Source.threadExit s (threadExit s) := by
  refine enters (bind (releaseWaiters rfl) fun t released => read ?_)
  cases ready : t.readyList with
  | nil => exact leave
  | cons head rest => exact store (store (threadYield THREAD_ANY))

theorem markKilled {itr : Option Nat} : Does (Source.markKilled itr) s (.ok (markKilled itr s)) := by
  cases itr with
  | none => exact pure
  | some node => exact stored

theorem threadKill (tid : Tid) : Does (Source.threadKill tid) s (threadKill tid s) := by
  refine enters (read (lift fun itr _ => after markKilled (read ?_)))
  have off : (Threads.markKilled itr (s.interruptsSet false)).interrupts = false := by cases itr <;> rfl
  generalize Threads.markKilled itr (s.interruptsSet false) = t at off ⊢
  dsimp only
  cases t.current.wqt with
  | none =>
      cases itr with
      | none => exact leave
      | some node => exact store (store (deleteNode off fun _ _ => leave))
  | some q =>
      refine lift fun nodes _ => ?_
      cases t.findNode nodes tid with
      | none => exact leave
      | some node => exact store leave

theorem pushbackWQ {q i : Nat} {f : Unit → Program Unit} {g : List Nat → Except Fault State} (off : s.interrupts = false)
    (rest : ∀ nodes, s.queueNodes q = .ok nodes → Does (f ()) (s.setQueue q (some (nodes ++ [i]))) (g nodes)) :
    Does (Source.pushbackWQ q i >>= f) s (s.queueNodes q >>= g) := by
  cases queued : s.queueNodes q with
  | error e => exact Prog.Performs.stop (fun _ => off) (by rw [Statement.exec, queued]; rfl)
  | ok nodes => exact edit off (Result.bind_eq_ok.mpr ⟨nodes, queued, rfl⟩) (rest nodes queued)

theorem deleteHead {next : Nat} {nodes : List Nat} {f : Unit → Program Unit} (off : s.interrupts = false)
    (ready : s.readyList = next :: nodes) (rest : Does (f ()) { s with readyList := nodes } r) :
    Does (Source.deleteNode next none >>= f) s r := by
  have deleted : Threads.deleteNode s next none = .ok { s with readyList := nodes } := by
    simp only [Threads.deleteNode, ready, if_true]
  exact edit off (Result.bind_eq_ok.mpr ⟨_, deleted, rfl⟩) rest

theorem threadSleep (queue : Option Nat) : Does (Source.threadSleep queue) s (threadSleep queue s) := by
  refine enters ?_
  cases queue with
  | none => exact leave
  | some q =>
      refine read ?_
      cases ready : (s.interruptsSet false).readyList with
      | nil =>
          simp only [Threads.threadSleep, ready]
          exact leave
      | cons next rest =>
          simp only [Threads.threadSleep, ready]
          refine store (pushbackWQ rfl fun nodes _ => ?_)
          exact deleteHead rfl ready (store (store stored))

theorem threadWait (tid : Tid) : Does (Source.threadWait tid) s (threadWait tid s) := by
  unfold Threads.threadWait
  refine enters (read (ite (fun _ => leave) fun _ => ite (fun _ => leave) fun _ => store ?_))
  cases own : ((s.interruptsSet false).totalList tid.toNat).wqt with
  | none =>
      have pushed : (((s.interruptsSet false).push (.waitReturn s.interrupts tid)).totalList tid.toNat).wqt = none := own
      simp only [pushed]
      exact newQueue (store (threadSleep _))
  | some q =>
      have pushed : (((s.interruptsSet false).push (.waitReturn s.interrupts tid)).totalList tid.toNat).wqt = some q := own
      simp only [pushed]
      exact threadSleep (some q)

theorem lockCreate : Does Source.lockCreate s (.ok (lockCreate s)) := enters (newQueue (read (store leave)))

theorem lockDestroy (l : Nat) : Does (Source.lockDestroy l) s (lockDestroy l s) := by
  refine enters (read (lift fun lock _ => ite (fun _ => freeQueue rfl (store restore)) fun _ => restore))

theorem acquireLoop (l : Nat) (enabled : Bool) : Does (Source.acquireLoop l enabled) s (acquireLoop l enabled s) :=
  read (lift fun _ _ => ite (fun _ => store restore) fun _ => store (threadSleep _))

theorem lockAcquire (l : Nat) : Does (Source.lockAcquire l) s (lockAcquire l s) := enters (read (lift fun _ _ => stored))

theorem threadWakeup_interruptsSet (queue : Option Nat) (all : Int) (s : State) (enabled : Bool) :
    Threads.threadWakeup queue all (s.interruptsSet enabled) =
      Threads.threadWakeup queue all s >>= fun t => .ok (t.interruptsSet enabled) := by
  cases queue with
  | none => rfl
  | some q =>
      unfold Threads.threadWakeup
      dsimp only
      rw [show (s.interruptsSet enabled).queueNodes q = s.queueNodes q from rfl]
      cases s.queueNodes q with
      | error e => rfl
      | ok nodes =>
          cases nodes with
          | nil => rfl
          | cons head rest =>
              simp only [Result.ok_bind]
              split
              · rfl
              · split
                · exact congrArg (fun t : State => Except.ok (t.result (rest.length + 1)))
                    (wakeThreads_interruptsSet (head :: rest) (s.setQueue q (some [])) enabled)
                · rfl

theorem threadWakeup_masked (queue : Option Nat) (all : Int) (s : State) :
    (Threads.threadWakeup queue all (s.interruptsSet false) >>= fun t => .ok (t.interruptsSet s.interrupts)) =
      Threads.threadWakeup queue all s :=
  (threadWakeup_interruptsSet queue all (s.interruptsSet false) s.interrupts).symm

theorem lockRelease (l : Nat) : Does (Source.lockRelease l) s (lockRelease l s) := by
  refine enters (read (lift fun lock _ => ite (fun _ => restore) fun _ => store ?_))
  rw [← threadWakeup_masked]
  exact bind (threadWakeup _ 1) fun _ _ => restore

theorem cvCreate : Does Source.cvCreate s (.ok (cvCreate s)) := newQueue (read (store stored))

theorem cvWait (c l : Nat) : Does (Source.cvWait c l) s (cvWait c l s) := by
  refine enters (read (lift fun wqC _ => bind (lockRelease l) fun t _ => store (read (lift fun lock _ => ?_))))
  exact ite (fun _ => threadSleep _) fun _ => pure

theorem cvWake (all : Int) (c l : Nat) : Does (Source.cvWake all c l) s (cvWake all c l s) := by
  refine enters (read (lift fun wqC _ => lift fun lock _ => ite (fun _ => ?_) fun _ => restore))
  rw [← threadWakeup_masked]
  exact bind (threadWakeup _ all) fun _ _ => restore

theorem cvDestroy {c : Nat} (off : s.interrupts = false ∨ ∀ q, s.cvs c = some q → s.queues q ≠ some []) :
    Does (Source.cvDestroy c) s (cvDestroy c s) := by
  refine read (lift fun wqC held => lift fun nodes queued => ?_)
  by_cases empty : nodes = []
  · subst empty
    have masked : s.interrupts = false := off.resolve_right fun full =>
      full wqC (State.cvAt_eq_ok.mp held) (State.queueNodes_eq_ok.mp queued)
    rw [if_pos rfl]
    exact freeQueue masked stored
  · rw [if_neg empty]
    simp only [if_neg empty]
    exact stored

theorem queueDestroy {q : Nat} (off : s.interrupts = false ∨ s.queues q = none) :
    Does (Source.enter (.queueDestroy q)) s (waitQueueDestroy q s) := by
  refine read (lift fun nodes queued => Prog.Performs.call fun _ => off.resolve_right fun freed => ?_)
  rw [State.queueNodes_eq_ok.mp queued] at freed
  cases freed

end Does

/-- The two calls that free a wait queue without turning interrupts off themselves. -/
def FreesUnmasked (s : State) : Call → Prop
  | .cvDestroy c => s.interrupts = true ∧ ∃ q, s.cvs c = some q ∧ s.queues q = some []
  | .queueDestroy q => s.interrupts = true ∧ s.queues q ≠ none
  | _ => False

namespace Does

variable {s : State}

theorem enter {call : Call} (masked : ¬ FreesUnmasked s call) : Does (Source.enter call) s (enter call s) := by
  cases call with
  | create stackOk => exact threadCreate stackOk
  | yield tid => exact threadYield tid
  | exit => exact threadExit
  | kill tid => exact threadKill tid
  | queueCreate => exact newQueue stored
  | queueDestroy q =>
      refine queueDestroy ?_
      by_contra held
      rw [not_or, Bool.not_eq_false] at held
      exact masked held
  | sleep queue => exact threadSleep queue
  | wakeup queue all => exact threadWakeup queue all
  | wait tid => exact threadWait tid
  | lockCreate => exact lockCreate
  | lockDestroy l => exact lockDestroy l
  | lockAcquire l => exact lockAcquire l
  | lockRelease l => exact lockRelease l
  | cvCreate => exact cvCreate
  | cvDestroy c =>
      refine cvDestroy ?_
      by_contra held
      push Not at held
      exact masked ⟨by simpa using held.1, held.2⟩
  | cvWait c l => exact cvWait c l
  | cvSignal c l => exact cvWake 0 c l
  | cvBroadcast c l => exact cvWake 1 c l
  | interruptsSet enabled => exact restore

theorem continueFrame {frame : Frame} (masked : frame.isYield = true → s.interrupts = false) :
    Does (Source.continueFrame frame) s (continueFrame frame s) := by
  cases frame with
  | user call => exact pure
  | stub => exact restore
  | handler rax => exact leave
  | afterYield enabled called next iter =>
      cases called with
      | true => exact interruptsSet stored
      | false => exact yieldBlock (masked rfl)
  | yieldResult => exact read stored
  | exitCall => exact threadExit
  | afterExit caller next => exact switchTo
  | exitReturn enabled => exact leave
  | afterSleep enabled next => exact interruptsSet (read stored)
  | waitReturn enabled tid => exact leave
  | acquireLoop l enabled => exact acquireLoop l enabled
  | cvReacquire l enabled => exact store (lockAcquire l)
  | cvReturn enabled => exact restore

end Does

def Offers (s : State) : Action → Prop
  | .call _ => s.callStack = []
  | .resume => s.callStack ≠ []
  | .interrupt => s.interrupts = true

section Steps

variable {s : State}

theorem stepped_call {call : Call} (stack : s.callStack = []) :
    (step s (.call call) >>= fun r => .ok r.1) = enter call (s.push (.user call)) := by
  rw [step, stack]
  cases enter call (s.push (.user call)) <;> rfl

theorem stepped_resume {frame : Frame} {frames : List Frame} (stack : s.callStack = frame :: frames) :
    (step s .resume >>= fun r => .ok r.1) = continueFrame frame { s with callStack := frames } := by
  simp only [step, stack]
  cases continueFrame frame { s with callStack := frames } <;> rfl

theorem stepped_interrupt (on : s.interrupts = true) :
    (step s .interrupt >>= fun r => .ok r.1) = threadYield THREAD_ANY ((s.interruptsSet false).push (.handler s.rax)) := by
  rw [step, if_pos on]
  cases threadYield THREAD_ANY ((s.interruptsSet false).push (.handler s.rax)) <;> rfl

/-- The statements of a step compute what the step does, and edit the lists only with interrupts off. -/
theorem step_does {action : Action} (f : Framed s) (offers : Offers s action)
    (masked : ∀ call, action = .call call → ¬ FreesUnmasked s call) :
    Does (Source.step s action) s (step s action >>= fun r => .ok r.1) := by
  cases action with
  | call call =>
      have same : FreesUnmasked (s.push (.user call)) call → FreesUnmasked s call := by cases call <;> exact id
      rw [stepped_call offers]
      exact .store (.enter fun frees => masked call rfl (same frees))
  | resume =>
      cases stack : s.callStack with
      | nil => exact (offers stack).elim
      | cons frame frames =>
          rw [stepped_resume stack]
          unfold Source.step
          rw [stack]
          exact .store (.continueFrame (f.masked frame (by rw [stack]; rfl)))
  | interrupt =>
      rw [stepped_interrupt offers]
      exact .interruptsSet (.store (.threadYield THREAD_ANY))

theorem cvDestroy_run (c : Nat) (s : State) :
    Prog.run Statement.exec (Source.cvDestroy c) s = cvDestroy c s >>= fun t => .ok ((), t) := by
  unfold cvDestroy
  change Prog.run Statement.exec (liftM (s.cvAt c) >>= _) s = _
  cases s.cvAt c with
  | error e => rfl
  | ok q =>
      change Prog.run Statement.exec (liftM (s.queueNodes q) >>= _) s = (s.queueNodes q >>= _) >>= _
      cases s.queueNodes q with
      | error e => rfl
      | ok nodes => cases nodes <;> rfl

theorem queueDestroy_run (q : Nat) (s : State) :
    Prog.run Statement.exec (Source.enter (.queueDestroy q)) s = waitQueueDestroy q s >>= fun t => .ok ((), t) := by
  unfold waitQueueDestroy
  change Prog.run Statement.exec (liftM (s.queueNodes q) >>= _) s = _
  cases s.queueNodes q <;> rfl

theorem source_step_run {action : Action} (f : Framed s) (offers : Offers s action) :
    Prog.run Statement.exec (Source.step s action) s = step s action >>= fun r => .ok ((), r.1) := by
  by_cases masked : ∀ call, action = .call call → ¬ FreesUnmasked s call
  · have does := (step_does f offers masked).run
    cases ran : step s action <;> simpa [ran] using does
  · push Not at masked
    obtain ⟨call, rfl, frees⟩ := masked
    have entered : Prog.run Statement.exec (Source.enter call) (s.push (.user call)) =
        enter call (s.push (.user call)) >>= fun t => .ok ((), t) := by
      cases call with
      | cvDestroy c => exact cvDestroy_run c _
      | queueDestroy q => exact queueDestroy_run q _
      | _ => exact frees.elim
    calc Prog.run Statement.exec (Source.step s (.call call)) s
        = enter call (s.push (.user call)) >>= fun t => .ok ((), t) := entered
      _ = (step s (.call call) >>= fun r => .ok r.1) >>= fun t => .ok ((), t) := by rw [stepped_call offers]
      _ = step s (.call call) >>= fun r => .ok ((), r.1) := by cases step s (.call call) <;> rfl

theorem not_masked {call : Call} (frees : FreesUnmasked s call) :
    ¬ Prog.Along Statement.exec Statement.Masked (Source.step s (.call call)) s := by
  intro along
  have entered := (Prog.along_bind.mp along).2 () (s.push (.user call)) rfl
  cases call with
  | cvDestroy c =>
      obtain ⟨on, q, held, queued⟩ := frees
      have read := (Prog.along_bind.mp entered).2 (s.push (.user (.cvDestroy c))) _ rfl
      rw [show (s.push (.user (.cvDestroy c))).cvAt c = .ok q from State.cvAt_eq_ok.mpr held] at read
      have found := (Prog.along_bind.mp read).2 q _ rfl
      rw [show (s.push (.user (.cvDestroy c))).queueNodes q = .ok [] from State.queueNodes_eq_ok.mpr queued] at found
      have empty := (Prog.along_bind.mp found).2 [] _ rfl
      rw [if_pos rfl] at empty
      exact absurd (on.symm.trans ((Prog.along_bind.mp empty).1.1 rfl)) (by decide)
  | queueDestroy q =>
      obtain ⟨on, held⟩ := frees
      obtain ⟨nodes, queued⟩ := Option.ne_none_iff_exists'.mp held
      have read := (Prog.along_bind.mp entered).2 (s.push (.user (.queueDestroy q))) _ rfl
      rw [show (s.push (.user (.queueDestroy q))).queueNodes q = .ok nodes from State.queueNodes_eq_ok.mpr queued] at read
      have found := (Prog.along_bind.mp read).2 nodes _ rfl
      exact absurd (on.symm.trans (found.1 rfl)) (by decide)
  | _ => exact frees

end Steps

end OperatingSystem.Threads
