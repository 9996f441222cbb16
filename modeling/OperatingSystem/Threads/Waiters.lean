import OperatingSystem.Threads.Kill

namespace OperatingSystem.Threads

open State

/-- What the package keeps a queue for. -/
inductive Owner
  | lock (l : Nat)
  | cv (c : Nat)
  | thread (i : Nat)
  deriving DecidableEq

def queueOf (s : State) : Owner → Option Nat
  | .lock l => (s.locks l).map Lock.wqL
  | .cv c => s.cvs c
  | .thread i => (s.totalList i).wqt

def Internal (s : State) (q : Nat) : Prop := ∃ owner, queueOf s owner = some q

/-- A thread only passes queues it got from `wait_queue_create`: the others are not to be had. -/
def Disciplined (s : State) : Action → Prop
  | .call (.sleep (some q)) => ¬ Internal s q
  | .call (.wakeup (some q) _) => ¬ Internal s q
  | .call (.queueDestroy q) => ¬ Internal s q
  | _ => True

structure Private (s : State) : Prop where
  inj : ∀ owner owner' q, queueOf s owner = some q → queueOf s owner' = some q → owner = owner'
  allocated : ∀ owner q, queueOf s owner = some q → ∃ nodes, s.queues q = some nodes
  fresh : ∀ q, s.nextQueue ≤ q → s.queues q = none

def Thread.WaitsOn (t : Thread) (tid : Tid) : Prop :=
  t.status = .suspended ∧ ∃ e n e' fs, t.threadInfo = .afterSleep e n :: .waitReturn e' tid :: fs

structure Keeps (s t : State) : Prop where
  owner : ∀ owner, queueOf t owner = queueOf s owner
  nextQueue : t.nextQueue = s.nextQueue
  allocated : ∀ q, (t.queues q).isSome = (s.queues q).isSome

structure Steady (s t : State) : Prop extends Keeps s t where
  nextLock : t.nextLock = s.nextLock
  nextCv : t.nextCv = s.nextCv
  exist : ∀ i, (t.totalList i).exist = (s.totalList i).exist
  waits : ∀ i tid, (t.totalList i).WaitsOn tid → (s.totalList i).WaitsOn tid
  contents : ∀ k q, queueOf s (.thread k) = some q → t.queues q = s.queues q

def Foreign (s : State) (q : Nat) : Prop := ∀ k, queueOf s (.thread k) ≠ some q

namespace Private

variable {s t : State}

theorem keep (p : Private s) (keeps : Keeps s t) : Private t where
  inj owner owner' q found found' := by
    rw [keeps.owner] at found found'
    exact p.inj owner owner' q found found'
  allocated owner q found := by
    rw [keeps.owner] at found
    obtain ⟨nodes, here⟩ := p.allocated owner q found
    have there := keeps.allocated q
    rw [here, Option.isSome_some] at there
    exact Option.isSome_iff_exists.mp there
  fresh q above := by
    have gone := keeps.allocated q
    rw [p.fresh q (keeps.nextQueue ▸ above), Option.isSome_none] at gone
    exact Option.isNone_iff_eq_none.mp (by simpa using gone)

theorem steady (p : Private s) (steady : Steady s t) : Private t := p.keep steady.toKeeps

theorem below (p : Private s) {owner : Owner} {q : Nat} (found : queueOf s owner = some q) : q < s.nextQueue := by
  by_contra above
  obtain ⟨nodes, here⟩ := p.allocated owner q found
  rw [p.fresh q (by omega)] at here
  cases here

theorem change (p : Private s) (new : Owner)
    (kept : ∀ owner q, queueOf t owner = some q →
      (queueOf s owner = some q ∧ (t.queues q).isSome = (s.queues q).isSome) ∨
      (owner = new ∧ q = s.nextQueue ∧ t.queues q = some []))
    (fresh : ∀ q, t.nextQueue ≤ q → t.queues q = none) : Private t where
  inj owner owner' q found found' := by
    rcases kept owner q found with ⟨before, -⟩ | ⟨rfl, rfl, -⟩
    · rcases kept owner' q found' with ⟨before', -⟩ | ⟨-, rfl, -⟩
      · exact p.inj owner owner' q before before'
      · exact absurd (p.below before) (Nat.lt_irrefl _)
    · rcases kept owner' _ found' with ⟨before', -⟩ | ⟨rfl, -, -⟩
      · exact absurd (p.below before') (Nat.lt_irrefl _)
      · rfl
  allocated owner q found := by
    rcases kept owner q found with ⟨before, same⟩ | ⟨-, -, empty⟩
    · obtain ⟨nodes, here⟩ := p.allocated owner q before
      rw [here, Option.isSome_some] at same
      exact Option.isSome_iff_exists.mp same
    · exact ⟨[], empty⟩
  fresh := fresh

theorem foreign_lock (p : Private s) {l : Nat} {lock : Lock} (found : s.locks l = some lock) : Foreign s lock.wqL := by
  intro k shared
  have own : queueOf s (.lock l) = some lock.wqL := by rw [queueOf, found, Option.map_some]
  cases p.inj _ _ _ own shared

theorem foreign_cv (p : Private s) {c q : Nat} (found : s.cvs c = some q) : Foreign s q := by
  intro k shared
  have own : queueOf s (.cv c) = some q := found
  cases p.inj _ _ _ own shared

end Private

theorem Foreign.of_external {s : State} {q : Nat} (external : ¬ Internal s q) : Foreign s q :=
  fun k found => external ⟨.thread k, found⟩

structure Slept (q next : Nat) (rest nodes : List Nat) (s t : State) : Prop where
  ready : s.readyList = next :: rest
  queue : s.queues q = some nodes
  table : t.totalList = ((s.modifyThread s.currentThread fun t => { t with
    status := .suspended, threadInfo := .afterSleep s.interrupts next :: s.callStack }).modifyThread next fun t =>
      { t with status := .running }).totalList
  queues : t.queues = Function.update s.queues q (some (nodes ++ [s.currentThread]))
  nextQueue : t.nextQueue = s.nextQueue
  locks : t.locks = s.locks
  cvs : t.cvs = s.cvs
  nextLock : t.nextLock = s.nextLock
  nextCv : t.nextCv = s.nextCv

theorem threadSleep_slept {q : Nat} {s t : State} (run : threadSleep (some q) s = .ok t) :
    (s.readyList = [] ∧ t = s.result THREAD_NONE) ∨ ∃ next rest nodes, Slept q next rest nodes s t := by
  cases ready : s.readyList with
  | nil =>
      simp only [threadSleep, show (s.interruptsSet false).readyList = [] from ready] at run
      exact Or.inl ⟨rfl, (Except.ok.inj run).symm⟩
  | cons next rest =>
      simp only [threadSleep, show (s.interruptsSet false).readyList = next :: rest from ready] at run
      obtain ⟨nodes, queue, run⟩ := Result.bind_eq_ok.mp run
      obtain rfl := Except.ok.inj run
      exact Or.inr ⟨next, rest, nodes, ready, queueNodes_eq_ok.mp queue, rfl, rfl, rfl, rfl, rfl, rfl, rfl⟩

namespace Slept

variable {s t : State} {q next : Nat} {rest nodes : List Nat}

theorem wqt (slept : Slept q next rest nodes s t) (i : Nat) : (t.totalList i).wqt = (s.totalList i).wqt := by
  rw [slept.table]
  simp only [thread_modifyThread]
  split_ifs <;> simp_all

theorem exist (slept : Slept q next rest nodes s t) (i : Nat) : (t.totalList i).exist = (s.totalList i).exist := by
  rw [slept.table]
  simp only [thread_modifyThread]
  split_ifs <;> simp_all

theorem keeps (slept : Slept q next rest nodes s t) : Keeps s t where
  owner owner := by
    cases owner with
    | lock l => simp only [queueOf, slept.locks]
    | cv c => simp only [queueOf, slept.cvs]
    | thread i => exact slept.wqt i
  nextQueue := slept.nextQueue
  allocated r := by
    rw [slept.queues]
    by_cases same : r = q
    · rw [same, Function.update_self, slept.queue]
      rfl
    · rw [Function.update_of_ne same]

theorem waits (slept : Slept q next rest nodes s t) {i : Nat} {tid : Tid} (waiting : (t.totalList i).WaitsOn tid) :
    (i = s.currentThread ∧ ∃ e fs, s.callStack = .waitReturn e tid :: fs) ∨ (s.totalList i).WaitsOn tid := by
  rw [slept.table] at waiting
  simp only [thread_modifyThread] at waiting
  split_ifs at waiting with resumed _ caller
  · cases waiting.1
  · cases waiting.1
  · obtain ⟨-, e, n, e', fs, shape⟩ := waiting
    exact Or.inl ⟨caller, e', fs, (List.cons.inj shape).2⟩
  · exact Or.inr waiting

end Slept

namespace Steady

variable {s t u : State}

theorem trans (first : Steady s t) (second : Steady t u) : Steady s u where
  owner owner := (second.owner owner).trans (first.owner owner)
  nextQueue := second.nextQueue.trans first.nextQueue
  allocated q := (second.allocated q).trans (first.allocated q)
  nextLock := second.nextLock.trans first.nextLock
  nextCv := second.nextCv.trans first.nextCv
  exist i := (second.exist i).trans (first.exist i)
  waits i tid waiting := first.waits i tid (second.waits i tid waiting)
  contents k q found := (second.contents k q ((first.owner _).trans found)).trans (first.contents k q found)

theorem foreign (steady : Steady s t) {q : Nat} (foreign : Foreign s q) : Foreign t q := by
  intro k found
  rw [steady.owner] at found
  exact foreign k found

theorem of_eq (table : t.totalList = s.totalList) (queues : t.queues = s.queues) (nextQueue : t.nextQueue = s.nextQueue)
    (locks : t.locks = s.locks) (cvs : t.cvs = s.cvs) (nextLock : t.nextLock = s.nextLock) (nextCv : t.nextCv = s.nextCv) :
    Steady s t where
  owner owner := by cases owner <;> simp only [queueOf, table, locks, cvs]
  nextQueue := nextQueue
  allocated q := by rw [queues]
  nextLock := nextLock
  nextCv := nextCv
  exist i := by rw [table]
  waits i tid waiting := by rwa [table] at waiting
  contents _ _ _ := by rw [queues]

theorem refl (s : State) : Steady s s := of_eq rfl rfl rfl rfl rfl rfl rfl

theorem result (s : State) (v : Tid) : Steady s (s.result v) := of_eq rfl rfl rfl rfl rfl rfl rfl

theorem interruptsSet (s : State) (enabled : Bool) : Steady s (s.interruptsSet enabled) := of_eq rfl rfl rfl rfl rfl rfl rfl

theorem push (s : State) (f : Frame) : Steady s (s.push f) := of_eq rfl rfl rfl rfl rfl rfl rfl

theorem pop (s : State) (frames : List Frame) : Steady s { s with callStack := frames } :=
  of_eq rfl rfl rfl rfl rfl rfl rfl

theorem modifyThread (s : State) (i : Nat) (f : Thread → Thread) (wqt : ∀ x, (f x).wqt = x.wqt)
    (exist : ∀ x, (f x).exist = x.exist) (waits : ∀ x tid, (f x).WaitsOn tid → x.WaitsOn tid) :
    Steady s (s.modifyThread i f) where
  owner owner := by
    cases owner with
    | lock l => rfl
    | cv c => rfl
    | thread j =>
        simp only [queueOf, thread_modifyThread]
        split_ifs with same
        · rw [wqt, same]
        · rfl
  nextQueue := rfl
  nextLock := rfl
  nextCv := rfl
  allocated _ := rfl
  exist j := by
    rw [thread_modifyThread]
    split_ifs with same
    · rw [exist, same]
    · rfl
  waits j tid waiting := by
    rw [thread_modifyThread] at waiting
    split_ifs at waiting with same
    · rw [same]
      exact waits _ tid waiting
    · exact waiting
  contents _ _ _ := rfl

theorem status (s : State) (i : Nat) {status : Status} (awake : status ≠ .suspended) :
    Steady s (s.modifyThread i fun t => { t with status }) := by
  refine modifyThread s i _ (fun _ => rfl) (fun _ => rfl) fun x tid waiting => ?_
  exact (awake waiting.1).elim

theorem setQueue {q : Nat} {nodes nodes' : List Nat} (foreign : Foreign s q) (found : s.queues q = some nodes) :
    Steady s (s.setQueue q (some nodes')) where
  owner owner := by cases owner <;> rfl
  nextQueue := rfl
  nextLock := rfl
  nextCv := rfl
  allocated r := by
    by_cases same : r = q
    · subst same
      simp [State.setQueue, found]
    · simp [State.setQueue, same]
  exist _ := rfl
  waits _ _ waiting := waiting
  contents k r own := by
    have other : r ≠ q := by
      rintro rfl
      exact foreign k own
    simp [State.setQueue, other]

theorem setLock {l : Nat} {lock lock' : Lock} (found : s.locks l = some lock) (same : lock'.wqL = lock.wqL) :
    Steady s (s.setLock l (some lock')) where
  owner owner := by
    cases owner with
    | lock j =>
        by_cases here : j = l
        · subst here
          simp [queueOf, State.setLock, found, same]
        · simp [queueOf, State.setLock, here]
    | cv c => rfl
    | thread i => rfl
  nextQueue := rfl
  nextLock := rfl
  nextCv := rfl
  allocated _ := rfl
  exist _ := rfl
  waits _ _ waiting := waiting
  contents _ _ _ := rfl

theorem sweepStacks (s : State) : Steady s (sweepStacks s) where
  owner owner := by
    cases owner with
    | lock l => rfl
    | cv c => rfl
    | thread i => exact sweepStacks_wqt s i
  nextQueue := rfl
  nextLock := rfl
  nextCv := rfl
  allocated _ := rfl
  exist i := sweepStacks_exist s i
  waits i tid waiting := by
    obtain ⟨stack, eq⟩ := sweepStacks_thread s i
    rw [eq] at waiting
    exact waiting
  contents _ _ _ := rfl

theorem deleteNode {target : Nat} {node : Option Nat} (run : deleteNode s target node = .ok t) : Steady s t := by
  unfold Threads.deleteNode at run
  split at run
  · cases run
  · split_ifs at run
    · exact Except.ok.inj run ▸ of_eq rfl rfl rfl rfl rfl rfl rfl
    · exact Except.ok.inj run ▸ of_eq rfl rfl rfl rfl rfl rfl rfl
    · split at run
      · cases run
      · split_ifs at run
        exact Except.ok.inj run ▸ of_eq rfl rfl rfl rfl rfl rfl rfl

theorem switchTo (caller next : Nat) (s : State) : Steady s (switchTo caller next s) := by
  have moved : Steady s { s with currentThread := (s.totalList next).threadID } := of_eq rfl rfl rfl rfl rfl rfl rfl
  have marked (u : State) : Steady u (u.modifyThread caller fun t => { t with threadInfo := markCalled t.threadInfo }) := by
    refine modifyThread u caller _ (fun _ => rfl) (fun _ => rfl) fun x tid => ?_
    rintro ⟨suspended, e, n, e', fs, shape⟩
    refine ⟨suspended, e, n, e', fs, ?_⟩
    change markCalled x.threadInfo = _ at shape
    unfold markCalled at shape
    split at shape
    · cases shape
    · exact shape
  have running : Status.running ≠ .suspended := by simp
  exact ((moved.trans (status _ _ running)).trans (marked _)).trans (of_eq rfl rfl rfl rfl rfl rfl rfl)

theorem requeueCaller (next : Nat) (s : State) : Steady s (requeueCaller next s) := by
  unfold Threads.requeueCaller
  have ready : Status.ready ≠ .suspended := by simp
  have marked := status s s.currentThread ready
  have named (u : State) (i : Nat) (id : Tid) : Steady u (u.modifyThread i fun t => { t with nextThreadID := id }) :=
    modifyThread u i _ (fun _ => rfl) (fun _ => rfl) fun _ _ waiting => waiting
  have named' (u : State) (i : Nat) (id : Tid) : Steady u (u.modifyThread i fun t => { t with preThreadID := id }) :=
    modifyThread u i _ (fun _ => rfl) (fun _ => rfl) fun _ _ waiting => waiting
  dsimp only
  split_ifs
  · exact ((marked.trans (named _ _ _)).trans (named' _ _ _)).trans (of_eq rfl rfl rfl rfl rfl rfl rfl)
  · exact marked
  · exact refl s

theorem saveContext (s : State) (i : Nat) {frame : Frame} (frames : List Frame) (other : ∀ e n, frame ≠ .afterSleep e n) :
    Steady s (s.modifyThread i fun t => { t with threadInfo := frame :: frames }) := by
  refine modifyThread s i _ (fun _ => rfl) (fun _ => rfl) fun x tid => ?_
  rintro ⟨-, e, n, e', fs, shape⟩
  exact (other e n (List.cons.inj shape).1).elim

theorem yieldBlock {enabled : Bool} {next : Nat} {iter : Option Nat} (run : yieldBlock enabled next iter s = .ok t) :
    Steady s t := by
  have saved : Steady s (s.modifyThread s.currentThread fun t =>
      { t with threadInfo := .afterYield enabled false next iter :: s.callStack }) :=
    saveContext s s.currentThread s.callStack (by simp)
  have requeued := saved.trans (requeueCaller next _)
  unfold Threads.yieldBlock at run
  dsimp only at run
  split_ifs at run
  · exact Except.ok.inj run ▸ requeued.trans (of_eq rfl rfl rfl rfl rfl rfl rfl)
  · exact Except.ok.inj run ▸ requeued.trans (switchTo _ _ _)
  · obtain ⟨u, unlinked, run⟩ := Result.bind_eq_ok.mp run
    exact Except.ok.inj run ▸ (requeued.trans (deleteNode unlinked)).trans (switchTo _ _ _)

theorem threadYield {want : Tid} (run : threadYield want s = .ok t) : Steady s t := by
  have swept := (interruptsSet s false).trans (sweepStacks _)
  simp only [Threads.threadYield] at run
  split_ifs at run
  · split at run
    · exact Except.ok.inj run ▸ of_eq rfl rfl rfl rfl rfl rfl rfl
    · exact swept.trans (yieldBlock run)
  · exact swept.trans (yieldBlock run)
  · split at run
    · exact Except.ok.inj run ▸ of_eq rfl rfl rfl rfl rfl rfl rfl
    · exact swept.trans (yieldBlock run)

theorem wakeThread (s : State) (node : Nat) : Steady s (wakeThread s node) := by
  have ready : Status.ready ≠ .suspended := by simp
  exact (status s _ ready).trans (of_eq rfl rfl rfl rfl rfl rfl rfl)

theorem wakeAll (s : State) (nodes : List Nat) : Steady s (nodes.foldl Threads.wakeThread s) := by
  induction nodes generalizing s with
  | nil => exact refl s
  | cons head rest ih => exact (wakeThread s head).trans (ih _)

theorem threadWakeup {q : Nat} {all : Int} (foreign : Foreign s q) (run : threadWakeup (some q) all s = .ok t) :
    Steady s t := by
  rcases threadWakeup_cases run with ⟨v, rfl⟩ | ⟨r, head, rest, same, found, rfl | rfl⟩
  · exact result s v
  all_goals obtain rfl := Option.some.inj same
  · exact ((setQueue foreign found).trans (wakeThread _ head)).trans (result _ _)
  · exact ((setQueue foreign found).trans (wakeAll _ (head :: rest))).trans (result _ _)

theorem threadSleep {queue : Option Nat} (foreign : ∀ q, queue = some q → Foreign s q)
    (elsewhere : ∀ e tid, s.callStack.head? ≠ some (.waitReturn e tid)) (run : threadSleep queue s = .ok t) :
    Steady s t := by
  cases queue with
  | none => exact Except.ok.inj run ▸ of_eq rfl rfl rfl rfl rfl rfl rfl
  | some q =>
      rcases threadSleep_slept run with ⟨-, rfl⟩ | ⟨next, rest, nodes, slept⟩
      · exact result s _
      refine { slept.keeps with
        nextLock := slept.nextLock, nextCv := slept.nextCv, exist := slept.exist, waits := fun i tid waiting => ?_, contents := fun k r own => ?_ }
      · rcases slept.waits waiting with ⟨-, e, fs, stack⟩ | before
        · exact (elsewhere e tid (by rw [stack, List.head?_cons])).elim
        · exact before
      · have other : r ≠ q := by
          rintro rfl
          exact foreign r rfl k own
        rw [slept.queues, Function.update_of_ne other]

theorem acquireLoop {l : Nat} {enabled : Bool} (p : Private s) (run : acquireLoop l enabled s = .ok t) : Steady s t := by
  obtain ⟨lock, found, run⟩ := Result.bind_eq_ok.mp run
  have found : s.locks l = some lock := lockAt_eq_ok.mp found
  split_ifs at run
  · have taken : Steady s (s.setLock l (some { lock with avaliable := false, acquiredID := s.currentThread })) :=
      setLock found rfl
    exact Except.ok.inj run ▸ taken.trans (interruptsSet _ _)
  · have pushed := push s (.acquireLoop l enabled)
    refine pushed.trans (threadSleep (fun q same => ?_) (fun e tid => ?_) run)
    · exact Option.some.inj same ▸ pushed.foreign (p.foreign_lock found)
    · intro top
      cases top

theorem lockAcquire {l : Nat} (run : lockAcquire l s = .ok t) : Steady s t := by
  obtain ⟨lock, -, run⟩ := Result.bind_eq_ok.mp run
  exact Except.ok.inj run ▸ of_eq rfl rfl rfl rfl rfl rfl rfl

theorem lockRelease {l : Nat} (p : Private s) (run : lockRelease l s = .ok t) : Steady s t := by
  obtain ⟨lock, found, run⟩ := Result.bind_eq_ok.mp run
  have found : s.locks l = some lock := lockAt_eq_ok.mp found
  split_ifs at run
  · exact Except.ok.inj run ▸ refl s
  · have unlocked : Steady s (s.setLock l (some { lock with avaliable := true })) := setLock found rfl
    exact unlocked.trans (threadWakeup (unlocked.foreign (p.foreign_lock found)) run)

theorem cvWait {c l : Nat} (p : Private s) (run : cvWait c l s = .ok t) : Steady s t := by
  obtain ⟨wqC, found, run⟩ := Result.bind_eq_ok.mp run
  obtain ⟨u, released, run⟩ := Result.bind_eq_ok.mp run
  obtain ⟨lock, -, run⟩ := Result.bind_eq_ok.mp run
  have masked := interruptsSet s false
  have before := (masked.trans (lockRelease (p.steady masked) released)).trans (push u (.cvReacquire l s.interrupts))
  split_ifs at run
  · refine before.trans (threadSleep (fun q same => ?_) (fun e tid => ?_) run)
    · exact Option.some.inj same ▸ before.foreign (p.foreign_cv (cvAt_eq_ok.mp found))
    · intro top
      cases top
  · exact Except.ok.inj run ▸ before

theorem cvWake {all : Int} {c l : Nat} (p : Private s) (run : cvWake all c l s = .ok t) : Steady s t := by
  obtain ⟨wqC, found, run⟩ := Result.bind_eq_ok.mp run
  obtain ⟨lock, -, run⟩ := Result.bind_eq_ok.mp run
  split_ifs at run
  · exact threadWakeup (p.foreign_cv (cvAt_eq_ok.mp found)) run
  · exact Except.ok.inj run ▸ refl s

end Steady

/-- Every thread suspended by `thread_wait` is in the queue of a thread that is alive. -/
structure Attended (s : State) : Prop where
  waiting : ∀ i tid, (s.totalList i).WaitsOn tid → ∃ k : Nat, (k : Tid) = tid ∧ (s.totalList k).exist = true ∧
    ∃ q nodes, (s.totalList k).wqt = some q ∧ s.queues q = some nodes ∧ i ∈ nodes
  vacant : ∀ k q, (s.totalList k).exist = false → (s.totalList k).wqt = some q → s.queues q = some []

/-- A thread that is waited for keeps its queue, which only grows at the end; or it ends, and its
waiters are the last of the ready list, in order, the first of them possibly running already. -/
def Tended (s t : State) : Prop :=
  ∀ k q nodes, (s.totalList k).wqt = some q → s.queues q = some nodes → nodes ≠ [] →
    (t.totalList k).wqt = some q ∧ (t.totalList k).exist = true ∧
      (∃ more, t.queues q = some (nodes ++ more) ∧ more.length ≤ 1) ∨
    (t.totalList k).wqt = none ∧ (t.totalList k).exist = false ∧
      (nodes <:+ t.readyList ∨ nodes <:+ t.currentThread :: t.readyList)

structure Tends (s t : State) : Prop where
  attended : Attended t
  tended : Tended s t

namespace Attended

variable {s t : State}

theorem alive (a : Attended s) {k q : Nat} {nodes : List Nat} (found : (s.totalList k).wqt = some q)
    (queue : s.queues q = some nodes) (waited : nodes ≠ []) : (s.totalList k).exist = true := by
  by_contra dead
  have empty := a.vacant k q (by simpa using dead) found
  rw [queue] at empty
  exact waited (Option.some.inj empty)

theorem steady (a : Attended s) (steady : Steady s t) : Attended t where
  waiting i tid waiting := by
    obtain ⟨k, named, alive, q, nodes, own, queue, member⟩ := a.waiting i tid (steady.waits i tid waiting)
    refine ⟨k, named, (steady.exist k).trans alive, q, nodes, ?_, ?_, member⟩
    · exact (steady.owner (.thread k)).trans own
    · exact (steady.contents k q own).trans queue
  vacant k q dead own := by
    have own : (s.totalList k).wqt = some q := (steady.owner (.thread k)).symm.trans own
    exact (steady.contents k q own).trans (a.vacant k q ((steady.exist k).symm.trans dead) own)

end Attended

namespace Tends

variable {s t u : State}

theorem steady (a : Attended s) (steady : Steady s t) : Tends s t where
  attended := a.steady steady
  tended k q nodes own queue waited := by
    refine Or.inl ⟨(steady.owner (.thread k)).trans own, (steady.exist k).trans (a.alive own queue waited), [], ?_,
      Nat.zero_le 1⟩
    rw [steady.contents k q own, queue, List.append_nil]

theorem since (same : ∀ k q nodes, (s.totalList k).wqt = some q → s.queues q = some nodes →
      (u.totalList k).wqt = some q ∧ u.queues q = some nodes) (tends : Tends u t) : Tends s t where
  attended := tends.attended
  tended k q nodes own queue waited := by
    obtain ⟨own', queue'⟩ := same k q nodes own queue
    exact tends.tended k q nodes own' queue' waited

theorem after (steady : Steady s u) (tends : Tends u t) : Tends s t :=
  tends.since fun k q _ own queue => ⟨(steady.owner (.thread k)).trans own, (steady.contents k q own).trans queue⟩

theorem of_table (a : Attended s) (table : t.totalList = s.totalList)
    (contents : ∀ k q, (s.totalList k).wqt = some q → t.queues q = s.queues q) : Tends s t where
  attended := by
    refine ⟨fun i tid waiting => ?_, fun k q dead own => ?_⟩
    · rw [table] at waiting
      obtain ⟨k, named, alive, q, nodes, own, queue, member⟩ := a.waiting i tid waiting
      exact ⟨k, named, table ▸ alive, q, nodes, table ▸ own, (contents k q own).trans queue, member⟩
    · rw [table] at dead own
      exact (contents k q own).trans (a.vacant k q dead own)
  tended k q nodes own queue waited := by
    refine Or.inl ⟨table ▸ own, table ▸ a.alive own queue waited, [], ?_, Nat.zero_le 1⟩
    rw [contents k q own, queue, List.append_nil]

end Tends

end OperatingSystem.Threads
