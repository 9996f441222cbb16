import OperatingSystem.Threads.Mutex
import OperatingSystem.Threads.Nested

namespace OperatingSystem.Threads

open State Transition

def Exited (allowed : State → Action → Prop) (k : Nat) (s : State) (labels : List Label) (t : State) : Prop :=
  ∃ xs ys u, labels = xs ++ ys ∧ Run (Steps allowed) s xs u ∧ Run (Steps allowed) u ys t ∧
    (u.totalList k).exist = false

/-- However the run goes on after the running thread calls `thread_wait(k)`: if that call returns `k`,
the thread has exited in between. -/
def AwaitsExit (allowed : State → Action → Prop) (s : State) (k : Nat) : Prop :=
  ∀ event u labels t label v, Steps allowed s (.call (.wait k), event) u → Run (Steps allowed) u labels t →
    (∀ earlier ∈ labels, ∀ call value, earlier.2 ≠ some (.returned s.currentThread call value)) →
    Steps allowed t label v → label.2 = some (.returned s.currentThread (.wait k) k) → Exited allowed k u labels t

variable {allowed : State → Action → Prop} {s t u : State} {k : Nat} {labels : List Label}

theorem threadExit_exist (n : Named s) (run : threadExit s = .ok t) {i : Nat} (alive : (t.totalList i).exist = true) :
    (s.totalList i).exist = true := by
  obtain ⟨u, released, -⟩ := Result.bind_eq_ok.mp run
  obtain ⟨-, exist, -⟩ := releaseWaiters_list (n.interruptsSet false) released
  obtain ⟨alone, yields⟩ := threadExit_of_released released
  by_cases empty : u.readyList = []
  · obtain rfl := Except.ok.inj ((alone empty).symm.trans run)
    exact (exist i).symm.trans alive
  · have steady := Steady.threadYield ((yields empty).symm.trans run)
    rw [steady.exist, markExited_exist] at alive
    split_ifs at alive
    exact (exist i).symm.trans alive

theorem enter_exist {call : Call} (n : Named s) (run : enter call s = .ok t) {i : Nat}
    (alive : (t.totalList i).exist = true) : (s.totalList i).exist = true ∨
      ∃ stackOk, call = .create stackOk ∧ freeSlot s (THREAD_MAX_THREADS - 1) 1 = some i := by
  have slept {q : Nat} {u : State} (run : threadSleep (some q) u = .ok t) : (u.totalList i).exist = true := by
    rcases threadSleep_slept run with ⟨-, rfl⟩ | ⟨next, rest, nodes, slept⟩
    · exact alive
    · exact (slept.exist i).symm.trans alive
  have woken {u v : State} (woken : Woken u v) (alive : (v.totalList i).exist = true) : (u.totalList i).exist = true := by
    rw [woken.threads] at alive
    exact alive
  have released {l : Nat} {u v : State} (run : lockRelease l u = .ok v) (alive : (v.totalList i).exist = true) :
      (u.totalList i).exist = true := by
    obtain ⟨lock, -, after⟩ := lockRelease_cases run
    have same : (unlock l lock u).totalList = u.totalList := by
      unfold unlock
      split_ifs <;> rfl
    rw [← same]
    exact woken after alive
  cases call with
  | create stackOk =>
      rcases threadCreate_eq stackOk s with ⟨-, refused⟩ | ⟨id, found, started⟩
      · rw [← Except.ok.inj run, refused] at alive
        exact Or.inl alive
      · rw [← Except.ok.inj run, started] at alive
        by_cases same : i = id
        · exact Or.inr ⟨stackOk, rfl, same ▸ found⟩
        · exact Or.inl (by simpa [same] using alive)
  | yield tid => exact Or.inl (((Steady.threadYield run).exist i).symm.trans alive)
  | exit => exact Or.inl (threadExit_exist n run alive)
  | kill tid =>
      rcases (threadKill_felled n run).exist i with same | ⟨-, gone⟩
      · exact Or.inl (same.symm.trans alive)
      · rw [gone] at alive
        cases alive
  | queueCreate | lockCreate | cvCreate | interruptsSet _ =>
      obtain rfl := Except.ok.inj run
      exact Or.inl alive
  | queueDestroy q =>
      obtain ⟨nodes, -, run⟩ := Result.bind_eq_ok.mp run
      obtain rfl := Except.ok.inj run
      exact Or.inl alive
  | sleep queue =>
      cases queue with
      | none =>
          obtain rfl := Except.ok.inj run
          exact Or.inl alive
      | some q => exact Or.inl (slept run)
  | wakeup queue all => exact Or.inl (woken (threadWakeup_woken run) alive)
  | wait tid =>
      refine Or.inl ?_
      rcases threadWait_cases run with ⟨rfl, -⟩ | ⟨k, q, u, -, -, -, run, target⟩
      · exact alive
      · have before := slept run
        rcases target with ⟨-, rfl⟩ | ⟨-, -, attached⟩
        · exact before
        · exact (attached.exist i).symm.trans before
  | lockDestroy l =>
      obtain ⟨lock, -, run⟩ := Result.bind_eq_ok.mp run
      split_ifs at run
      all_goals
        obtain rfl := Except.ok.inj run
        exact Or.inl alive
  | lockAcquire l =>
      obtain ⟨lock, -, run⟩ := Result.bind_eq_ok.mp run
      obtain rfl := Except.ok.inj run
      exact Or.inl alive
  | lockRelease l => exact Or.inl (released run alive)
  | cvDestroy c =>
      obtain ⟨q, -, run⟩ := Result.bind_eq_ok.mp run
      obtain ⟨nodes, -, run⟩ := Result.bind_eq_ok.mp run
      rw [← Except.ok.inj run] at alive
      split_ifs at alive <;> exact Or.inl alive
  | cvWait c l =>
      obtain ⟨q, -, run⟩ := Result.bind_eq_ok.mp run
      obtain ⟨u, before, run⟩ := Result.bind_eq_ok.mp run
      obtain ⟨lock, -, run⟩ := Result.bind_eq_ok.mp run
      have kept := released before
      split_ifs at run
      · have asleep := slept run
        exact Or.inl (kept asleep)
      · rw [← Except.ok.inj run] at alive
        exact Or.inl (kept alive)
  | cvSignal c l | cvBroadcast c l =>
      obtain ⟨q, -, run⟩ := Result.bind_eq_ok.mp run
      obtain ⟨lock, -, run⟩ := Result.bind_eq_ok.mp run
      split_ifs at run
      · exact Or.inl (woken (threadWakeup_woken run) alive)
      · obtain rfl := Except.ok.inj run
        exact Or.inl alive

theorem continueFrame_exist {frame : Frame} (n : Named s) (run : continueFrame frame s = .ok t) {i : Nat}
    (alive : (t.totalList i).exist = true) : (s.totalList i).exist = true := by
  cases frame with
  | user _ | stub | handler _ | yieldResult | exitReturn _ | afterSleep _ _ | waitReturn _ _ | cvReturn _ =>
      obtain rfl := Except.ok.inj run
      exact alive
  | afterYield enabled called next iter =>
      cases called with
      | true =>
          obtain rfl := Except.ok.inj run
          exact alive
      | false => exact ((Steady.yieldBlock run).exist i).symm.trans alive
  | exitCall => exact threadExit_exist n run alive
  | afterExit caller next =>
      obtain rfl := Except.ok.inj run
      exact ((Steady.switchTo caller next s).exist i).symm.trans alive
  | acquireLoop l enabled =>
      obtain ⟨lock, -, run⟩ := Result.bind_eq_ok.mp run
      split_ifs at run
      · obtain rfl := Except.ok.inj run
        exact alive
      · rcases threadSleep_slept run with ⟨-, rfl⟩ | ⟨next, rest, nodes, slept⟩
        · exact alive
        · exact (slept.exist i).symm.trans alive
  | cvReacquire l enabled =>
      obtain ⟨lock, -, run⟩ := Result.bind_eq_ok.mp run
      obtain rfl := Except.ok.inj run
      exact alive

theorem step_exist {action : Action} {event : Option Event} (n : Named s) (run : step s action = .ok (t, event)) {i : Nat}
    (alive : (t.totalList i).exist = true) : (s.totalList i).exist = true ∨
      ∃ stackOk, action = .call (.create stackOk) ∧ freeSlot s (THREAD_MAX_THREADS - 1) 1 = some i := by
  rcases step_cases run with ⟨call, rfl, -, entered, -⟩ | ⟨frame, frames, -, -, continued, -⟩ | ⟨-, -, yielded, -⟩
  · rcases enter_exist (n.push _) entered alive with before | ⟨stackOk, rfl, found⟩
    · exact Or.inl before
    · have same := freeSlot_congr (s := s) (t := s.push (.user (.create stackOk))) (fun _ => rfl) (THREAD_MAX_THREADS - 1) 1
      exact Or.inr ⟨stackOk, rfl, same.symm.trans found⟩
  · exact Or.inl (continueFrame_exist (n.pop frames) continued alive)
  · exact Or.inl (((Steady.threadYield yielded).exist i).symm.trans alive)

theorem exist_below (run : Runs allowed labels s) {i : Nat} (alive : (s.totalList i).exist = true) : i < THREAD_MAX_THREADS := by
  have bounded : Named s ∧ ∀ i, (s.totalList i).exist = true → i < THREAD_MAX_THREADS := by
    refine run.invariant (fun s => Named s ∧ ∀ i, (s.totalList i).exist = true → i < THREAD_MAX_THREADS)
      ⟨.init, fun i alive => ?_⟩ ?_
    · by_cases first : i = 0
      · simp [first, THREAD_MAX_THREADS]
      · simp [threadInit, first, Thread.zero] at alive
    · rintro t label u taken ⟨n, below⟩
      refine ⟨n.step taken.2, fun i alive => ?_⟩
      rcases step_exist n taken.2 alive with before | ⟨-, -, found⟩
      · exact below i before
      · have := (freeSlot_spec found).2.1
        simp only [THREAD_MAX_THREADS] at this ⊢
        omega
  exact bounded.2 i alive

def Peaceful (s : State) (action : Action) : Prop := Disciplined s action ∧ KillFree action

def InQueue (i k : Nat) (s : State) : Prop :=
  ∃ q nodes, (s.totalList k).wqt = some q ∧ s.queues q = some nodes ∧ i ∈ nodes

theorem inQueue_of_threadWait (alive : (s.totalList k).exist = true) (below : k < THREAD_MAX_THREADS)
    (other : k ≠ s.currentThread) (ready : s.readyList ≠ []) (run : threadWait k s = .ok t) :
    InQueue s.currentThread k t := by
  rcases threadWait_cases run with ⟨-, negative | self | above | dead⟩ | ⟨k', q, u, named, -, -, slept, target⟩
  · exact (Int.not_lt.mpr (Int.natCast_nonneg k) negative).elim
  · exact (other (by exact_mod_cast self)).elim
  · exact (Nat.lt_asymm below (by exact_mod_cast above)).elim
  · rw [Int.toNat_natCast, alive] at dead
    cases dead
  obtain rfl : k' = k := by exact_mod_cast named
  obtain ⟨own, list, current⟩ : (u.totalList k').wqt = some q ∧ u.readyList = s.readyList ∧
      u.currentThread = s.currentThread := by
    rcases target with ⟨own, rfl⟩ | ⟨-, rfl, attached⟩
    · exact ⟨own, rfl, rfl⟩
    · exact ⟨by rw [attached.wqt, if_pos rfl], attached.readyList, attached.current⟩
  rcases threadSleep_slept slept with ⟨empty, -⟩ | ⟨next, rest, nodes, slept⟩
  · exact (ready (list.symm.trans empty)).elim
  · refine ⟨q, nodes ++ [u.currentThread], (slept.wqt k').trans own, ?_, ?_⟩
    · rw [slept.queues, Function.update_self]
    · simp [current]

theorem InQueue.step {i : Nat} {label : Label} (n : Named s) (p : Private s) (a : Attended s)
    (here : InQueue i k s) (taken : Steps Peaceful s label t) : InQueue i k t ∨ (t.totalList k).exist = false := by
  obtain ⟨q, nodes, own, queue, member⟩ := here
  have tends := Tends.step n p a taken.1.1 taken.1.2.sparesWaiters taken.2
  rcases tends.tended k q nodes own queue (List.ne_nil_of_mem member) with ⟨own', -, more, queue', -⟩ | ⟨-, gone, -⟩
  · exact Or.inl ⟨q, nodes ++ more, own', queue', List.mem_append_left more member⟩
  · exact Or.inr gone

theorem Peaceful.kept (run : Runs Peaceful labels s) : Named s ∧ Private s ∧ Attended s := by
  refine run.invariant (fun s => Named s ∧ Private s ∧ Attended s) ⟨.init, .init, .init⟩ ?_
  rintro t label u taken ⟨n, p, a⟩
  exact ⟨n.step taken.2, p.step n taken.1.1 taken.2,
    (Tends.step n p a taken.1.1 taken.1.2.sparesWaiters taken.2).attended⟩

theorem inQueue_or_exited {i : Nat} {more : List Label} (run : Runs Peaceful labels s) (here : InQueue i k s)
    (after : Run (Steps Peaceful) s more t) : InQueue i k t ∨ Exited Peaceful k s more t := by
  refine (after.history (fun more t => Run (Steps Peaceful) s more t ∧ (InQueue i k t ∨ Exited Peaceful k s more t))
    ⟨.start, Or.inl here⟩ ?_).2
  rintro more t label u ⟨before, inQueue | ⟨xs, ys, v, rfl, first, second, gone⟩⟩ taken
  · obtain ⟨n, p, a⟩ := Peaceful.kept (run.trans before)
    refine ⟨.step before taken, ?_⟩
    rcases inQueue.step n p a taken with stays | gone
    · exact Or.inl stays
    · exact Or.inr ⟨more ++ [label], [], u, (List.append_nil _).symm, .step before taken, .start, gone⟩
  · refine ⟨.step before taken, Or.inr ⟨xs, ys ++ [label], v, ?_, first, .step second taken, gone⟩⟩
    rw [List.append_assoc]

theorem returned_to_user {action : Action} {i : Nat} {call : Call} {value : Tid}
    (run : step s action = .ok (t, some (.returned i call value))) :
    i = s.currentThread ∧ ∃ frames, s.callStack = .user call :: frames := by
  rcases step_cases run with ⟨_, -, -, -, shown⟩ | ⟨frame, frames, -, stack, -, shown⟩ | ⟨-, -, -, shown⟩
  · cases shown
  · cases frame with
    | user _ =>
        simp only [frameEvent, Option.some.injEq, Event.returned.injEq] at shown
        exact ⟨shown.1, frames, shown.2.1 ▸ stack⟩
    | _ => cases shown
  · cases shown

theorem awaitsExit_of_ready (run : Runs Peaceful labels s) (alive : (s.totalList k).exist = true)
    (other : k ≠ s.currentThread) (ready : s.readyList ≠ []) :
    AwaitsExit Peaceful s k := by
  intro event u more t label v called after _ last returned
  have below := exist_below run alive
  have here : InQueue s.currentThread k u := by
    rcases step_cases called.2 with ⟨call, same, -, entered, -⟩ | ⟨_, _, resumed, -⟩ | ⟨interrupted, -⟩
    · obtain rfl := Action.call.inj same
      exact inQueue_of_threadWait (s := s.push (.user (.wait k))) alive below other ready entered
    · cases resumed
    · cases interrupted
  have reached : Runs Peaceful (labels ++ [(.call (.wait k), event)]) u := .step run called
  rcases inQueue_or_exited reached here after with ⟨q, nodes, -, queue, member⟩ | exited
  · -- a queued thread is suspended, and only the running thread returns
    obtain ⟨lost, seated⟩ := Seated.of_run (fun _ _ peaceful => peaceful.2) (reached.trans after)
    have suspended : (t.totalList s.currentThread).status = .suspended :=
      seated.waiting q s.currentThread (by simpa [scheduler, queue] using member)
    have took := last.2
    rw [returned] at took
    have running := seated.running
    rw [State.current, ← (returned_to_user took).1, suspended] at running
    cases running
  · exact exited

theorem threadSleep_alone (q : Nat) (ready : s.readyList = []) : threadSleep (some q) s = .ok (s.result THREAD_NONE) := by
  simp only [threadSleep, show (s.interruptsSet false).readyList = [] from ready]
  rfl

theorem threadWait_alone (alive : (s.totalList k).exist = true) (below : k < THREAD_MAX_THREADS)
    (other : k ≠ s.currentThread) (ready : s.readyList = []) :
    ∃ t, threadWait k s = .ok t ∧ t.callStack = .waitReturn s.interrupts k :: s.callStack ∧
      t.currentThread = s.currentThread ∧ (t.totalList k).exist = true := by
  have inside : ¬ ((k : Tid) < 0 ∨ (k : Tid) = (s.interruptsSet false).currentThread ∨ (k : Tid) > THREAD_MAX_THREADS) := by
    rintro (negative | self | above)
    · exact Int.not_lt.mpr (Int.natCast_nonneg k) negative
    · exact other (by exact_mod_cast self)
    · exact Nat.lt_asymm below (by exact_mod_cast above)
  have living : ¬ ((s.interruptsSet false).totalList (k : Tid).toNat).exist = false := by simp [interruptsSet, alive]
  simp only [threadWait]
  rw [if_neg inside, if_neg living]
  split
  · exact ⟨_, threadSleep_alone _ ready, rfl, rfl, alive⟩
  · refine ⟨_, threadSleep_alone _ ready, rfl, rfl, ?_⟩
    change (Function.update s.totalList (k : Tid).toNat _ k).exist = true
    rw [Int.toNat_natCast, Function.update_self]
    exact alive

theorem not_awaitsExit_alone (run : Runs Peaceful labels s) (user : s.callStack = [])
    (alive : (s.totalList k).exist = true) (other : k ≠ s.currentThread) (ready : s.readyList = []) :
    ¬ AwaitsExit Peaceful s k := by
  intro awaits
  have below := exist_below run alive
  obtain ⟨u, waited, stack, current, alive'⟩ :=
    threadWait_alone (s := s.push (.user (.wait k))) alive below other ready
  have called : Steps Peaceful s (.call (.wait k), some (.called s.currentThread (.wait k))) u := by
    refine ⟨⟨trivial, trivial⟩, ?_⟩
    simp only [step, user, enter, waited]
    rfl
  let t := (State.interruptsSet { u with callStack := [.user (.wait k)] } s.interrupts).result k
  have resumed : Steps Peaceful u (.resume, none) t := by
    refine ⟨⟨trivial, trivial⟩, ?_⟩
    simp only [step, stack, State.push, user]
    rfl
  have returned : Steps Peaceful t (.resume, some (.returned s.currentThread (.wait k) k)) { t with callStack := [] } := by
    refine ⟨⟨trivial, trivial⟩, ?_⟩
    have same : t.currentThread = s.currentThread := current
    rw [← same]
    rfl
  obtain ⟨xs, ys, w, split, first, second, gone⟩ := awaits _ u _ t _ _ called (.single resumed) (by simp) returned rfl
  have living : (w.totalList k).exist = true := by
    cases xs with
    | nil => exact first.eq_of_nil rfl ▸ alive'
    | cons x xs =>
        have none : ys = [] := by
          have length := congrArg List.length split
          simp only [List.length_append, List.length_cons, List.length_nil] at length
          exact List.eq_nil_of_length_eq_zero (by omega)
        have same := second.eq_of_nil none
        rw [← same]
        exact alive'
  rw [living] at gone
  cases gone

/-- Exactly when `thread_wait` waits: in the runs without kills, for a live thread other than the caller. -/
theorem thread_wait_iff (run : Runs Peaceful labels s) (user : s.callStack = []) (alive : (s.totalList k).exist = true)
    (other : k ≠ s.currentThread) : AwaitsExit Peaceful s k ↔ s.readyList ≠ [] :=
  ⟨fun awaits ready => not_awaitsExit_alone run user alive other ready awaits,
    awaitsExit_of_ready run alive other⟩

theorem Peaceful.of_exec (actions : List Action)
    (ran : (exec (fun s action => Queueless action ∧ Admissible s action) threadInit actions).isSome) :
    Runs Peaceful ((exec (fun s action => Queueless action ∧ Admissible s action) threadInit actions).get ran).2
      ((exec (fun s action => Queueless action ∧ Admissible s action) threadInit actions).get ran).1 :=
  (Runs.of_exec actions ran).weaken fun _ _ allowed => ⟨allowed.1.disciplined, allowed.2.killFree⟩

theorem thread_wait_created : ∃ labels s, Runs Peaceful labels s ∧ s.readyList = [1] ∧ AwaitsExit Peaceful s 1 := by
  have run := Peaceful.of_exec createOne (by decide)
  refine ⟨_, _, run, rfl, (thread_wait_iff run rfl rfl Nat.one_ne_zero).mpr ?_⟩
  exact List.cons_ne_nil 1 []

theorem thread_wait_fails : ¬ ∀ labels s k, Runs Peaceful labels s → s.callStack = [] →
    (s.totalList k).exist = true → k ≠ s.currentThread → AwaitsExit Peaceful s k := by
  intro all
  have run := Peaceful.of_exec (lockAndYield ++ [.call (.lockAcquire 0), .resume, .resume, .resume, .resume]) (by decide)
  exact not_awaitsExit_alone run rfl rfl Nat.one_ne_zero rfl (all _ _ 1 run rfl rfl Nat.one_ne_zero)

end OperatingSystem.Threads
