import OperatingSystem.Threads.PlacedRun
import OperatingSystem.Threads.Waiters

namespace OperatingSystem.Threads

open State

variable {s t u : State}

theorem wakeThread_status (s : State) (node : Nat) (i : Nat) :
    ((wakeThread s node).totalList i).status = .ready ∨
      ((wakeThread s node).totalList i).status = (s.totalList i).status := by
  simp only [wakeThread, pushbackRL, thread_modifyThread]
  split_ifs
  · exact Or.inl rfl
  · exact Or.inr rfl

theorem wakeThread_threadID (s : State) (node i : Nat) :
    ((wakeThread s node).totalList i).threadID = (s.totalList i).threadID := by
  rw [(Woken.wakeThread s node).threads i]

theorem identified_wakeThread {nodes : List Nat} (ids : Identified s nodes) (node : Nat) :
    Identified (wakeThread s node) nodes :=
  fun i member => (wakeThread_threadID s node i).trans (ids i member)

theorem wakeAll_readyList {nodes : List Nat} (ids : Identified s nodes) :
    (nodes.foldl wakeThread s).readyList = s.readyList ++ nodes := by
  induction nodes generalizing s with
  | nil => simp
  | cons head rest ih =>
      have first : (wakeThread s head).readyList = s.readyList ++ [head] := by
        simp [wakeThread, pushbackRL, ids head List.mem_cons_self]
      have others : Identified (wakeThread s head) rest :=
        identified_wakeThread (fun i member => ids i (List.mem_cons_of_mem head member)) head
      rw [List.foldl_cons, ih others, first, List.append_assoc, List.singleton_append]

theorem wakeAll_status {nodes : List Nat} (ids : Identified s nodes) {i : Nat} (member : i ∈ nodes) :
    ((nodes.foldl wakeThread s).totalList i).status = .ready := by
  have stays : ∀ (nodes : List Nat) (s : State), (s.totalList i).status = .ready →
      ((nodes.foldl wakeThread s).totalList i).status = .ready := by
    intro nodes
    induction nodes with
    | nil => exact fun _ ready => ready
    | cons head rest ih =>
        intro s ready
        refine ih _ ?_
        rcases wakeThread_status s head i with now | same
        · exact now
        · exact same.trans ready
  induction nodes generalizing s with
  | nil => cases member
  | cons head rest ih =>
      rw [List.foldl_cons]
      rcases List.mem_cons.mp member with rfl | later
      · refine stays rest _ ?_
        simp [wakeThread, pushbackRL, ids i List.mem_cons_self]
      · exact ih (identified_wakeThread (fun j there => ids j (List.mem_cons_of_mem head there)) head) later

theorem wakeAll_queues (nodes : List Nat) (s : State) : (nodes.foldl wakeThread s).queues = s.queues := by
  induction nodes generalizing s with
  | nil => rfl
  | cons head rest ih => exact ih _

structure Released (s t : State) (q : Nat) (nodes : List Nat) : Prop where
  readyList : t.readyList = s.readyList ++ nodes
  queues : t.queues = Function.update s.queues q none
  awake : ∀ i ∈ nodes, (t.totalList i).status = .ready
  waits : ∀ i tid, (t.totalList i).WaitsOn tid → (s.totalList i).WaitsOn tid
  wqt : ∀ i, (t.totalList i).wqt = if i = s.currentThread then none else (s.totalList i).wqt
  exist : ∀ i, (t.totalList i).exist = (s.totalList i).exist
  current : t.currentThread = s.currentThread
  callStack : t.callStack = s.callStack
  nextQueue : t.nextQueue = s.nextQueue
  locks : t.locks = s.locks
  cvs : t.cvs = s.cvs

theorem releaseWaiters_cases (n : Named s) (run : releaseWaiters s = .ok t) :
    s.current.wqt = none ∧ t = s ∨
    ∃ q nodes, s.current.wqt = some q ∧ s.queues q = some nodes ∧ Released s t q nodes := by
  cases own : s.current.wqt with
  | none =>
      simp only [releaseWaiters, own, Except.ok.injEq] at run
      exact Or.inl ⟨rfl, run.symm⟩
  | some q =>
      simp only [releaseWaiters, own] at run
      obtain ⟨u, woken, run⟩ := Result.bind_eq_ok.mp run
      have empty := threadWakeup_all woken
      have table (v : State) (i : Nat) : ((v.setQueue q none).modifyThread v.currentThread fun t =>
          { t with wqt := none }).totalList i = { v.totalList i with
            wqt := if i = v.currentThread then none else (v.totalList i).wqt } := by
        rw [thread_modifyThread]
        split_ifs with same <;> simp [same, setQueue]
      obtain ⟨nodes, queue⟩ : ∃ nodes, s.queues q = some nodes := by
        cases queue : s.queues q with
        | none => simp [threadWakeup, queueNodes, queue, bind, Except.bind] at woken
        | some nodes => exact ⟨nodes, rfl⟩
      have ids : Identified (s.setQueue q (some [])) nodes := n.waiting q nodes queue
      have shape : ∃ v, u = (nodes.foldl wakeThread (s.setQueue q (some []))).result v := by
        cases nodes with
        | nil =>
            simp only [threadWakeup, queueNodes, queue] at woken
            refine ⟨0, (Except.ok.inj woken).symm.trans ?_⟩
            have same : s.setQueue q (some []) = s := by
              simp only [setQueue, ← queue, Function.update_eq_self]
            rw [List.foldl_nil, same]
        | cons head rest =>
            simp only [threadWakeup, queueNodes, queue] at woken
            exact ⟨_, (Except.ok.inj woken).symm⟩
      obtain ⟨v, rfl⟩ := shape
      have kept := Woken.wakeAll (s.setQueue q (some [])) nodes
      have steady := Steady.wakeAll (s.setQueue q (some [])) nodes
      refine Or.inr ⟨q, nodes, rfl, queue, ?_⟩
      obtain rfl := Except.ok.inj run
      refine ⟨wakeAll_readyList ids, ?_, fun i member => ?_, fun i tid waiting => ?_, fun i => ?_, fun i => ?_,
        kept.current, kept.callStack, kept.nextQueue, kept.locks, kept.cvs⟩
      · change Function.update (nodes.foldl wakeThread (s.setQueue q (some []))).queues q none = _
        rw [wakeAll_queues]
        exact Function.update_idem _ _ _
      · rw [table]
        exact wakeAll_status ids member
      · rw [table] at waiting
        exact steady.waits i tid waiting
      · rw [table]
        have same : ((nodes.foldl wakeThread (s.setQueue q (some []))).totalList i).wqt = (s.totalList i).wqt :=
          steady.owner (.thread i)
        change (if i = (nodes.foldl wakeThread (s.setQueue q (some []))).currentThread then none else
          ((nodes.foldl wakeThread (s.setQueue q (some []))).totalList i).wqt) = _
        rw [kept.current, same]
        rfl
      · rw [table]
        exact steady.exist i

namespace Released

variable {q : Nat} {nodes : List Nat}

theorem owner (r : Released s t q nodes) (owner : Owner) :
    queueOf t owner = if owner = .thread s.currentThread then none else queueOf s owner := by
  cases owner with
  | lock l => simp [queueOf, r.locks]
  | cv c => simp [queueOf, r.cvs]
  | thread i =>
      simp only [queueOf, r.wqt, Owner.thread.injEq]

theorem owned (r : Released s t q nodes) (p : Private s) (own : s.current.wqt = some q) : Private t := by
  refine p.change (.thread s.currentThread) (fun owner q' found => Or.inl ?_) fun q' above => ?_
  · rw [r.owner] at found
    split_ifs at found with same
    have other : q' ≠ q := by
      rintro rfl
      exact same (p.inj owner (.thread s.currentThread) q' found own)
    rw [r.queues, Function.update_of_ne other]
    exact ⟨found, rfl⟩
  · rw [r.queues]
    by_cases same : q' = q
    · rw [same, Function.update_self]
    · rw [Function.update_of_ne same]
      exact p.fresh q' (r.nextQueue ▸ above)

theorem other (r : Released s t q nodes) (p : Private s) (own : s.current.wqt = some q) {k q' : Nat}
    (different : k ≠ s.currentThread) (found : (s.totalList k).wqt = some q') :
    (t.totalList k).wqt = some q' ∧ t.queues q' = s.queues q' := by
  refine ⟨by rw [r.wqt, if_neg different, found], ?_⟩
  have other : q' ≠ q := by
    rintro rfl
    have same := p.inj (.thread k) (.thread s.currentThread) q' found own
    exact different (Owner.thread.inj same)
  rw [r.queues, Function.update_of_ne other]

theorem attended (r : Released s t q nodes) (p : Private s) (a : Attended s) (own : s.current.wqt = some q)
    (queue : s.queues q = some nodes) : Attended t where
  waiting i tid waiting := by
    obtain ⟨k, named, alive, q', nodes', found, queue', member⟩ := a.waiting i tid (r.waits i tid waiting)
    by_cases same : k = s.currentThread
    · subst same
      obtain rfl := Option.some.inj (own.symm.trans found)
      obtain rfl := Option.some.inj (queue.symm.trans queue')
      have awake := r.awake i member
      rw [waiting.1] at awake
      cases awake
    · obtain ⟨wqt, untouched⟩ := r.other p own same found
      exact ⟨k, named, (r.exist k).trans alive, q', nodes', wqt, untouched.trans queue', member⟩
  vacant k q' dead found := by
    rw [r.wqt] at found
    split_ifs at found with same
    exact (r.other p own same found).2.trans (a.vacant k q' ((r.exist k).symm.trans dead) found)

end Released

theorem Attended.leave (a : Attended s) {i : Nat} {f : Thread → Thread} (none : (s.totalList i).wqt = none)
    (wqt : ∀ x, (f x).wqt = x.wqt) (waits : ∀ x tid, (f x).WaitsOn tid → x.WaitsOn tid) :
    Attended (s.modifyThread i f) where
  waiting j tid waiting := by
    rw [thread_modifyThread] at waiting
    have before : (s.totalList j).WaitsOn tid := by
      split_ifs at waiting with same
      · exact same ▸ waits _ tid waiting
      · exact waiting
    obtain ⟨k, named, alive, q, nodes, own, queue, member⟩ := a.waiting j tid before
    have other : k ≠ i := by
      rintro rfl
      rw [none] at own
      cases own
    refine ⟨k, named, ?_, q, nodes, ?_, queue, member⟩
    · rw [thread_modifyThread, if_neg other]
      exact alive
    · rw [thread_modifyThread, if_neg other]
      exact own
  vacant k q dead own := by
    rw [thread_modifyThread] at dead own
    split_ifs at dead own with same
    · rw [wqt, none] at own
      cases own
    · exact a.vacant k q dead own

/-- `thread_yield` before it looks at its successor: the context is saved and the caller requeued. -/
def parked (enabled : Bool) (next : Nat) (iter : Option Nat) (s : State) : State :=
  requeueCaller next (s.modifyThread s.currentThread fun t =>
    { t with threadInfo := .afterYield enabled false next iter :: s.callStack })

theorem yieldBlock_eq (enabled : Bool) (next : Nat) (iter : Option Nat) (s : State) :
    yieldBlock enabled next iter s =
      if ((parked enabled next iter s).totalList next).exist = false then
        .ok (({ parked enabled next iter s with
          currentThread := ((parked enabled next iter s).totalList next).threadID }.push
            (.afterExit s.currentThread next)).push .exitCall)
      else (if ((parked enabled next iter s).totalList next).threadID = 0 ∧
          ((parked enabled next iter s).totalList next).status = .exited then
          .ok (parked enabled next iter s) else deleteNode (parked enabled next iter s) next iter) >>= fun u =>
            .ok (switchTo s.currentThread next u) := by
  unfold yieldBlock
  dsimp only
  rw [← parked]
  by_cases alive : ((parked enabled next iter s).totalList next).exist = false
  · rw [if_pos alive, if_pos (by simp [alive])]
    rfl
  · rw [if_neg alive, if_neg (by simpa using alive)]
    split_ifs <;> rfl

theorem parked_readyList_leaving (enabled : Bool) (next : Nat) (iter : Option Nat) (leaving : s.current.status ≠ .running) :
    (parked enabled next iter s).readyList = s.readyList := by
  unfold parked requeueCaller
  rw [if_neg]
  · rfl
  · simpa [State.current] using leaving

theorem parked_threadID (enabled : Bool) (next : Nat) (iter : Option Nat) (s : State) (i : Nat) :
    ((parked enabled next iter s).totalList i).threadID = (s.totalList i).threadID := by
  unfold parked requeueCaller
  dsimp only
  split_ifs
  · simp only [pushbackRL]
    rw [Named.threadID_modifyThread, Named.threadID_modifyThread, Named.threadID_modifyThread,
      Named.threadID_modifyThread]
    all_goals intro; rfl
  · rw [Named.threadID_modifyThread, Named.threadID_modifyThread]
    all_goals intro; rfl
  · rw [Named.threadID_modifyThread]
    intro; rfl

/-- A thread that leaves the processor for good takes at most its successor off the ready list. -/
theorem threadYield_leaving {head : Nat} {rest : List Nat} (leaving : s.current.status ≠ .running)
    (ready : s.readyList = head :: rest) (named : (s.totalList head).threadID = head) (run : threadYield THREAD_ANY s = .ok t) :
    t.readyList = head :: rest ∨ t.readyList = rest ∧ t.currentThread = head := by
  let swept := sweepStacks (s.interruptsSet false)
  have block : yieldBlock s.interrupts head none swept = .ok t := by
    simpa only [threadYield, if_true, show (s.interruptsSet false).readyList = head :: rest from ready] using run
  have leaving' : swept.current.status ≠ .running := by
    rw [State.current, sweepStacks_status]
    exact leaving
  have list : (parked s.interrupts head none swept).readyList = head :: rest :=
    (parked_readyList_leaving _ _ _ leaving').trans ready
  have same : ((parked s.interrupts head none swept).totalList head).threadID = head :=
    (parked_threadID _ _ _ _ _).trans ((sweepStacks_threadID _ _).trans named)
  rw [yieldBlock_eq] at block
  generalize parked s.interrupts head none swept = saved at block list same
  by_cases dead : (saved.totalList head).exist = false
  · rw [if_pos dead] at block
    rw [← Except.ok.inj block]
    exact Or.inl list
  rw [if_neg dead] at block
  obtain ⟨u, unlinked, switched⟩ := Result.bind_eq_ok.mp block
  rw [← Except.ok.inj switched]
  change u.readyList = _ ∨ u.readyList = _ ∧ (u.totalList head).threadID = head
  by_cases first : (saved.totalList head).threadID = 0 ∧ (saved.totalList head).status = .exited
  · rw [if_pos first] at unlinked
    exact Or.inl (Except.ok.inj unlinked ▸ list)
  · rw [if_neg first] at unlinked
    have popped : deleteNode saved head none = .ok { saved with readyList := rest } := by
      simp [deleteNode, list]
    obtain rfl := Except.ok.inj (popped.symm.trans unlinked)
    exact Or.inr ⟨rfl, same⟩

structure Dismissed (s u : State) : Prop where
  attended : Attended u
  current : u.currentThread = s.currentThread
  vacant : u.current.wqt = none
  exist : ∀ i, (u.totalList i).exist = (s.totalList i).exist
  others : ∀ k q, k ≠ s.currentThread → (s.totalList k).wqt = some q →
    (u.totalList k).wqt = some q ∧ u.queues q = s.queues q
  handed : ∀ q nodes, s.current.wqt = some q → s.queues q = some nodes → nodes <:+ u.readyList

theorem Dismissed.releaseWaiters {u : State} (n : Named s) (p : Private s) (a : Attended s)
    (run : releaseWaiters s = .ok u) : Dismissed s u := by
  rcases releaseWaiters_cases n run with ⟨none, rfl⟩ | ⟨q, nodes, own, queue, released⟩
  · refine ⟨a, rfl, none, fun _ => rfl, fun _ _ _ own => ⟨own, rfl⟩, fun q nodes own => ?_⟩
    rw [none] at own
    cases own
  · refine ⟨released.attended p a own queue, released.current, ?_, released.exist,
      fun k q' other found => released.other p own other found, fun q' nodes' own' queue' => ?_⟩
    · rw [State.current, released.wqt, released.current, if_pos rfl]
    · obtain rfl := Option.some.inj (own.symm.trans own')
      obtain rfl := Option.some.inj (queue.symm.trans queue')
      rw [released.readyList]
      exact List.suffix_append _ _

theorem Private.releaseWaiters (n : Named s) (p : Private s) (run : releaseWaiters s = .ok t) : Private t := by
  rcases releaseWaiters_cases n run with ⟨-, rfl⟩ | ⟨q, nodes, own, -, released⟩
  · exact p
  · exact released.owned p own

theorem Keeps.exit (s : State) (enabled : Bool) : Keeps s (Seated.markExited enabled s) where
  owner owner := by
    cases owner with
    | lock l => rfl
    | cv c => rfl
    | thread k =>
        change ((s.modifyThread s.currentThread fun t => { t with exist := false, status := .exited }).totalList k).wqt = _
        rw [thread_modifyThread]
        split_ifs with same
        · exact same ▸ rfl
        · rfl
  nextQueue := rfl
  allocated _ := rfl

theorem Private.threadExit (n : Named s) (p : Private s) (run : threadExit s = .ok t) : Private t := by
  obtain ⟨u, released, run⟩ := Result.bind_eq_ok.mp run
  have owned : Private u := (p.steady (.interruptsSet s false)).releaseWaiters (n.interruptsSet false) released
  split at run
  · exact owned.steady (Except.ok.inj run ▸ .of_eq rfl rfl rfl rfl rfl rfl rfl)
  · exact (owned.keep (.exit u s.interrupts)).steady (.threadYield run)

theorem Tends.threadExit (n : Named s) (p : Private s) (a : Attended s) (run : threadExit s = .ok t) : Tends s t := by
  have masked := Steady.interruptsSet s false
  obtain ⟨u, released, run⟩ := Result.bind_eq_ok.mp run
  have gone := Dismissed.releaseWaiters (n.interruptsSet false) (p.steady masked) (a.steady masked) released
  have names : Named u := (n.interruptsSet false).releaseWaiters released
  cases ready : u.readyList with
  | nil =>
      rw [ready] at run
      have alone : Steady u t := Except.ok.inj run ▸ .of_eq rfl rfl rfl rfl rfl rfl rfl
      refine ⟨gone.attended.steady alone, fun k q nodes own queue waited => ?_⟩
      by_cases caller : k = s.currentThread
      · subst caller
        have suffix := gone.handed q nodes own queue
        rw [ready] at suffix
        exact (waited (List.suffix_nil.mp suffix)).elim
      · obtain ⟨own', queue'⟩ := gone.others k q caller own
        have queue' := queue'.trans queue
        exact (Tends.steady gone.attended alone).tended k q nodes own' queue' waited
  | cons head rest =>
      rw [ready] at run
      let exited (x : Thread) : Thread := { x with exist := false, status := .exited }
      let v := (u.modifyThread u.currentThread exited).push (.exitReturn s.interrupts)
      have yielded : threadYield THREAD_ANY v = .ok t := run
      have leaving : v.current.status ≠ .running := by simp [v, exited, State.current, State.push]
      have left : Attended v := by
        have marked : Attended (u.modifyThread u.currentThread exited) := by
          refine gone.attended.leave gone.vacant (fun _ => rfl) fun x tid waiting => ?_
          cases waiting.1
        exact marked.steady (.push _ _)
      have steady := Steady.threadYield yielded
      refine ⟨left.steady steady, fun k q nodes own queue waited => ?_⟩
      by_cases caller : k = s.currentThread
      · subst caller
        refine Or.inr ⟨?_, ?_, ?_⟩
        · refine (steady.owner (.thread s.currentThread)).trans ?_
          have vacant := gone.vacant
          simp only [State.current, gone.current] at vacant
          simpa [v, exited, queueOf, State.push, gone.current, interruptsSet] using vacant
        · rw [steady.exist]
          simp [v, exited, State.push, gone.current, interruptsSet]
        · have list : v.readyList = head :: rest := ready
          have suffix : nodes <:+ head :: rest := ready ▸ gone.handed q nodes own queue
          have named : (v.totalList head).threadID = head :=
            (Named.threadID_modifyThread u u.currentThread head exited fun _ => rfl).trans (names.ready head (ready ▸ List.mem_cons_self))
          rcases threadYield_leaving leaving list named yielded with same | ⟨popped, runs⟩
          · exact Or.inl (by rwa [same])
          · exact Or.inr (by rwa [popped, runs])
      · obtain ⟨own', queue'⟩ := gone.others k q caller own
        have own' : (v.totalList k).wqt = some q := by
          have other : k ≠ u.currentThread := fun same => caller (same.trans gone.current)
          simpa [v, State.push, other] using own'
        have queue' : v.queues q = some nodes := queue'.trans queue
        exact (Tends.steady left steady).tended k q nodes own' queue' waited

theorem Tends.threadSleep {e : Bool} {k q : Nat} {frames : List Frame} (p : Private s) (a : Attended s)
    (stack : s.callStack = .waitReturn e k :: frames) (alive : (s.totalList k).exist = true)
    (own : (s.totalList k).wqt = some q) (run : threadSleep (some q) s = .ok t) : Tends s t := by
  rcases threadSleep_slept run with ⟨-, rfl⟩ | ⟨next, rest, nodes, slept⟩
  · exact .steady a (.result s _)
  have grown (r : Nat) (nodes' : List Nat) (queue : s.queues r = some nodes') :
      ∃ more, t.queues r = some (nodes' ++ more) ∧ more.length ≤ 1 := by
    rw [slept.queues]
    by_cases same : r = q
    · subst same
      obtain rfl := Option.some.inj (slept.queue.symm.trans queue)
      exact ⟨[s.currentThread], Function.update_self _ _ _, Nat.le_refl 1⟩
    · exact ⟨[], by rw [Function.update_of_ne same, queue, List.append_nil], Nat.zero_le 1⟩
  refine ⟨⟨fun i tid waiting => ?_, fun k' r dead here => ?_⟩, fun k' r nodes' here queue waited => ?_⟩
  · rcases slept.waits waiting with ⟨rfl, e', fs, stack'⟩ | before
    · obtain ⟨-, rfl⟩ := Frame.waitReturn.inj (List.cons.inj (stack.symm.trans stack')).1
      refine ⟨k, rfl, (slept.exist k).trans alive, q, nodes ++ [s.currentThread], (slept.wqt k).trans own, ?_, by simp⟩
      rw [slept.queues, Function.update_self]
    · obtain ⟨k', named, alive', r, nodes', own', queue, member⟩ := a.waiting i tid before
      obtain ⟨more, queue', -⟩ := grown r nodes' queue
      exact ⟨k', named, (slept.exist k').trans alive', r, _, (slept.wqt k').trans own', queue',
        List.mem_append_left _ member⟩
  · rw [slept.exist] at dead
    rw [slept.wqt] at here
    have other : r ≠ q := by
      rintro rfl
      obtain rfl := Owner.thread.inj (p.inj (.thread k') (.thread k) r here own)
      rw [alive] at dead
      cases dead
    rw [slept.queues, Function.update_of_ne other]
    exact a.vacant k' r dead here
  · refine Or.inl ⟨(slept.wqt k').trans here, (slept.exist k').trans (a.alive here queue waited), grown r nodes' queue⟩

structure Attached (k : Nat) (s t : State) : Prop where
  wqt : ∀ i, (t.totalList i).wqt = if i = k then some s.nextQueue else (s.totalList i).wqt
  exist : ∀ i, (t.totalList i).exist = (s.totalList i).exist
  waits : ∀ i tid, (t.totalList i).WaitsOn tid ↔ (s.totalList i).WaitsOn tid
  queues : t.queues = Function.update s.queues s.nextQueue (some [])
  nextQueue : t.nextQueue = s.nextQueue + 1
  locks : t.locks = s.locks
  cvs : t.cvs = s.cvs
  readyList : t.readyList = s.readyList
  current : t.currentThread = s.currentThread

theorem threadWait_cases {tid : Tid} (run : threadWait tid s = .ok t) :
    (t = s.result THREAD_INVALID ∧ (tid < 0 ∨ tid = s.currentThread ∨ tid > THREAD_MAX_THREADS ∨
      (s.totalList tid.toNat).exist = false)) ∨
    ∃ k q u, ((k : Nat) : Tid) = tid ∧ (s.totalList k).exist = true ∧
      u.callStack = .waitReturn s.interrupts k :: s.callStack ∧ threadSleep (some q) u = .ok t ∧
      ((s.totalList k).wqt = some q ∧ u = (s.interruptsSet false).push (.waitReturn s.interrupts tid) ∨
        (s.totalList k).wqt = none ∧ q = s.nextQueue ∧ Attached k s u) := by
  simp only [Threads.threadWait] at run
  split_ifs at run with outside dead
  · refine Or.inl ⟨(Except.ok.inj run).symm, ?_⟩
    rcases outside with below | self | above
    · exact Or.inl below
    · exact Or.inr (Or.inl self)
    · exact Or.inr (Or.inr (Or.inl above))
  · exact Or.inl ⟨(Except.ok.inj run).symm, Or.inr (Or.inr (Or.inr dead))⟩
  have positive : ((tid.toNat : Nat) : Tid) = tid := Int.toNat_of_nonneg (Int.not_lt.mp (not_or.mp outside).1)
  have alive : (s.totalList tid.toNat).exist = true := by simpa [interruptsSet] using dead
  refine Or.inr ⟨tid.toNat, ?_⟩
  split at run
  · rename_i q own
    exact ⟨q, _, positive, alive, by rw [positive]; rfl, run, Or.inl ⟨own, rfl⟩⟩
  · rename_i vacant
    refine ⟨s.nextQueue, _, positive, alive, ?_, run, Or.inr ⟨vacant, rfl, ?_⟩⟩
    · rw [positive]
      rfl
    · refine ⟨fun i => ?_, fun i => ?_, fun i tid => ?_, rfl, rfl, rfl, rfl, rfl, rfl⟩
      all_goals
        rw [thread_modifyThread]
        split_ifs with same
      · rfl
      · rfl
      · exact same ▸ rfl
      · rfl
      · exact same ▸ Iff.rfl
      · exact Iff.rfl

namespace Attached

variable {k : Nat}

theorem kept (attached : Attached k s t) (p : Private s) (vacant : (s.totalList k).wqt = none) {i q : Nat}
    (own : (s.totalList i).wqt = some q) : (t.totalList i).wqt = some q ∧ t.queues q = s.queues q := by
  have other : i ≠ k := by
    rintro rfl
    rw [vacant] at own
    cases own
  have old : q ≠ s.nextQueue := Nat.ne_of_lt (p.below (show queueOf s (.thread i) = some q from own))
  exact ⟨by rw [attached.wqt, if_neg other, own], by rw [attached.queues, Function.update_of_ne old]⟩

theorem owned (attached : Attached k s t) (p : Private s) : Private t := by
  refine p.change (.thread k) (fun owner q found => ?_) fun q above => ?_
  · have elsewhere (found : queueOf s owner = some q) :
        queueOf s owner = some q ∧ (t.queues q).isSome = (s.queues q).isSome := by
      refine ⟨found, ?_⟩
      rw [attached.queues, Function.update_of_ne (Nat.ne_of_lt (p.below found))]
    cases owner with
    | lock l =>
        rw [queueOf, attached.locks] at found
        exact Or.inl (elsewhere found)
    | cv c =>
        rw [queueOf, attached.cvs] at found
        exact Or.inl (elsewhere found)
    | thread i =>
        change (t.totalList i).wqt = some q at found
        rw [attached.wqt] at found
        split_ifs at found with here
        · obtain rfl := Option.some.inj found
          refine Or.inr ⟨congrArg Owner.thread here, rfl, ?_⟩
          rw [attached.queues, Function.update_self]
        · exact Or.inl (elsewhere found)
  · rw [attached.nextQueue] at above
    rw [attached.queues, Function.update_of_ne (by omega)]
    exact p.fresh q (by omega)

theorem attended (attached : Attached k s t) (p : Private s) (a : Attended s) (alive : (s.totalList k).exist = true)
    (vacant : (s.totalList k).wqt = none) : Attended t where
  waiting i tid waiting := by
    obtain ⟨j, named, alive', q, nodes, own, queue, member⟩ := a.waiting i tid ((attached.waits i tid).mp waiting)
    obtain ⟨own', queue'⟩ := attached.kept p vacant own
    exact ⟨j, named, (attached.exist j).trans alive', q, nodes, own', queue'.trans queue, member⟩
  vacant j q gone own := by
    rw [attached.exist] at gone
    have other : j ≠ k := by
      rintro rfl
      rw [alive] at gone
      cases gone
    rw [attached.wqt, if_neg other] at own
    exact (attached.kept p vacant own).2.trans (a.vacant j q gone own)

end Attached

theorem Private.threadWait {tid : Tid} (p : Private s) (run : threadWait tid s = .ok t) : Private t := by
  have slept {u : State} {q : Nat} (owned : Private u) (run : Threads.threadSleep (some q) u = .ok t) : Private t := by
    rcases threadSleep_slept run with ⟨-, rfl⟩ | ⟨next, rest, nodes, slept⟩
    · exact owned.steady (.result u _)
    · exact owned.keep slept.keeps
  rcases threadWait_cases run with ⟨rfl, -⟩ | ⟨k, q, u, -, -, -, run, ⟨-, rfl⟩ | ⟨-, -, attached⟩⟩
  · exact p.steady (.result s _)
  · exact slept (p.steady ((Steady.interruptsSet s false).trans (.push _ _))) run
  · exact slept (attached.owned p) run

theorem Tends.threadWait {tid : Tid} (p : Private s) (a : Attended s) (run : threadWait tid s = .ok t) : Tends s t := by
  rcases threadWait_cases run with ⟨rfl, -⟩ | ⟨k, q, u, -, alive, stack, run, ⟨own, rfl⟩ | ⟨vacant, rfl, attached⟩⟩
  · exact .steady a (.result s _)
  · have called := (Steady.interruptsSet s false).trans (.push _ (.waitReturn s.interrupts tid))
    exact .after called (.threadSleep (p.steady called) (a.steady called) stack alive own run)
  · refine .since (fun i r nodes own queue => ?_) (.threadSleep (attached.owned p) (attached.attended p a alive vacant)
      stack ((attached.exist k).trans alive) ?_ run)
    · obtain ⟨own', queue'⟩ := attached.kept p vacant own
      exact ⟨own', queue'.trans queue⟩
    · rw [attached.wqt, if_pos rfl]

theorem Private.threadCreate (p : Private s) (stackOk : Bool) : Private (threadCreate stackOk s) := by
  rcases threadCreate_started stackOk s with refused | ⟨id, stack, nextStack, interrupts, rax, free, -, started⟩
  · rw [refused]
    exact p.steady (.of_eq rfl rfl rfl rfl rfl rfl rfl)
  rw [started]
  refine p.change (.thread id) (fun owner q found => Or.inl ⟨?_, rfl⟩) p.fresh
  cases owner with
  | lock l => exact found
  | cv c => exact found
  | thread k =>
      by_cases same : k = id
      · simp [queueOf, same, Thread.started] at found
      · simpa [queueOf, same] using found

theorem Tends.threadCreate (a : Attended s) (stackOk : Bool) : Tends s (threadCreate stackOk s) := by
  rcases threadCreate_started stackOk s with refused | ⟨id, stack, nextStack, interrupts, rax, free, -, started⟩
  · rw [refused]
    exact .steady a (.of_eq rfl rfl rfl rfl rfl rfl rfl)
  rw [started]
  have alive {k q : Nat} {nodes : List Nat} (own : (s.totalList k).wqt = some q) (queue : s.queues q = some nodes)
      (waited : nodes ≠ []) : k ≠ id := by
    rintro rfl
    rw [a.alive own queue waited] at free
    cases free
  refine ⟨⟨fun i tid waiting => ?_, fun k q dead own => ?_⟩, fun k q nodes own queue waited => ?_⟩
  · by_cases same : i = id
    · subst same
      simp [Thread.WaitsOn, Thread.started] at waiting
    · simp only [Function.update_of_ne same] at waiting
      obtain ⟨k, named, living, q, nodes, own, queue, member⟩ := a.waiting i tid waiting
      have other := alive own queue (List.ne_nil_of_mem member)
      exact ⟨k, named, by simpa [other] using living, q, nodes, by simpa [other] using own, queue, member⟩
  · by_cases same : k = id
    · simp [same, Thread.started] at dead
    · simp only [Function.update_of_ne same] at dead own
      exact a.vacant k q dead own
  · have other := alive own queue waited
    refine Or.inl ⟨by simpa [other] using own, by simpa [other] using a.alive own queue waited, [], ?_, Nat.zero_le 1⟩
    rw [List.append_nil]
    exact queue

end OperatingSystem.Threads
