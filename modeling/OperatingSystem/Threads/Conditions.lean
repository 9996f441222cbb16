import OperatingSystem.Threads.Contention

namespace OperatingSystem.Threads

open State Transition

/-- The threads that wait on `c` and have not been signalled, oldest first, after one more label. -/
def signalling (c : Nat) (nodes : List Nat) (label : Label) : List Nat :=
  match label.2 with
  | some (.called i (.cvWait c' _)) => if c' = c then nodes ++ [i] else nodes
  | some (.called _ (.cvSignal c' _)) => if c' = c then nodes.tail else nodes
  | some (.called _ (.cvBroadcast c' _)) => if c' = c then [] else nodes
  | some (.returned i (.cvWait c' _) _) => if c' = c then nodes.erase i else nodes
  | _ => nodes

def unsignalled (c : Nat) (labels : List Label) : List Nat := labels.foldl (signalling c) []

theorem unsignalled_snoc (c : Nat) (labels : List Label) (label : Label) :
    unsignalled c (labels ++ [label]) = signalling c (unsignalled c labels) label := by
  rw [unsignalled, List.foldl_append]
  rfl

def contents (s : State) (c : Nat) : List Nat :=
  match s.cvs c with
  | some q => (s.queues q).getD []
  | none => []

def HoldsLock (s : State) : Action → Prop
  | .call (.cvWait _ l) => Owns s l s.currentThread
  | .call (.cvSignal _ l) => Owns s l s.currentThread
  | .call (.cvBroadcast _ l) => Owns s l s.currentThread
  | .call (.cvDestroy c) => ∀ q ∈ s.cvs c, s.queues q = some []
  | _ => True

def Monitored (s : State) (action : Action) : Prop := Peaceful s action ∧ HoldsLock s action

def Inside (s : State) (i c l : Nat) : Prop :=
  (s.totalList i).exist = true ∧ (s.totalList i).threadInfo.getLast? = some (.user (.cvWait c l))

/-- Nobody but `cv_signal` and `cv_broadcast` takes a waiter from its queue, and what they take is ready or queued on the lock. -/
structure SignalsKept (labels : List Label) (s : State) : Prop where
  inside : ∀ i c l, i ≠ s.currentThread → Inside s i c l →
    i ∈ unsignalled c labels ∧ Queued s (.cv c) i ∨
    i ∉ unsignalled c labels ∧ (i ∈ s.readyList ∨ Queued s (.lock l) i)
  order : ∀ c, contents s c <+: unsignalled c labels
  signal : ∀ c l event t, Steps Monitored s (.call (.cvSignal c l), event) t →
    contents t c = (contents s c).tail ∧ t.readyList = s.readyList ++ (contents s c).head?.toList
  broadcast : ∀ c l event t, Steps Monitored s (.call (.cvBroadcast c l), event) t →
    contents t c = [] ∧ t.readyList = s.readyList ++ contents s c
  others : ∀ c label t, Steps Monitored s label t →
    (∀ l, label.1 ≠ .call (.cvSignal c l) ∧ label.1 ≠ .call (.cvBroadcast c l)) →
      ∃ more, contents t c = contents s c ++ more ∧
        (more = [] ∨ ∃ l, label.1 = .call (.cvWait c l) ∧ more = [s.currentThread])
  returns : ∀ enabled frames, s.callStack = .cvReturn enabled :: frames →
    ∃ c l, frames = [.user (.cvWait c l)] ∧ Owns s l s.currentThread

structure NoSignalLost (labels : List Label) (s : State) : Prop extends SignalsKept labels s where
  returned : ∀ label t i c l v, Steps Monitored s label t → label.2 = some (.returned i (.cvWait c l) v) → Owns s l i

variable {lost : Nat → Prop} {s t u : State} {c l : Nat} {label : Label} {labels : List Label}

theorem contents_of_leaves (leaves : Leaves (.cv c) s t) : contents t c = contents s c := by
  have same : t.cvs c = s.cvs c := leaves.queue
  unfold contents
  rw [same]
  cases found : s.cvs c with
  | none => rfl
  | some q => exact congrArg (·.getD []) (leaves.nodes q found)

theorem queued_cv {i : Nat} (p : Private s) : Queued s (.cv c) i ↔ i ∈ contents s c := by
  constructor
  · rintro ⟨q, nodes, own, queue, member⟩
    have own : s.cvs c = some q := own
    simp only [contents, own, queue, Option.getD_some]
    exact member
  · intro member
    unfold contents at member
    cases own : s.cvs c with
    | none => simp [own] at member
    | some q =>
        obtain ⟨nodes, queue⟩ := p.allocated (.cv c) q own
        simp only [own, queue, Option.getD_some] at member
        exact ⟨q, nodes, own, queue, member⟩

theorem current_not_in_contents (p : Seated lost s) (c : Nat) : s.currentThread ∉ contents s c := by
  unfold contents
  cases s.cvs c with
  | none => simp
  | some q => exact p.partition.running_not_waiting q

theorem ready_not_in_contents (p : Seated lost s) {i : Nat} (ready : i ∈ s.readyList) (c : Nat) : i ∉ contents s c := by
  unfold contents
  cases s.cvs c with
  | none => simp
  | some q => exact p.partition.ready_not_waiting i ready q

theorem cvWake_owned {all : Int} (owns : Owns s l s.currentThread) (run : cvWake all c l s = .ok t) :
    ∃ q, s.cvs c = some q ∧ threadWakeup (some q) all s = .ok t := by
  obtain ⟨q, found, run⟩ := Result.bind_eq_ok.mp run
  obtain ⟨lock, here, run⟩ := Result.bind_eq_ok.mp run
  obtain ⟨lock', found', -, owner⟩ := owns
  obtain rfl := Option.some.inj (found'.symm.trans (lockAt_eq_ok.mp here))
  rw [if_pos owner] at run
  exact ⟨q, cvAt_eq_ok.mp found, run⟩

theorem cvSignal_moves (n : Named s) (owns : Owns s l s.currentThread) (run : cvSignal c l s = .ok t) :
    contents t c = (contents s c).tail ∧ t.readyList = s.readyList ++ (contents s c).head?.toList := by
  obtain ⟨q, own, woken⟩ := cvWake_owned owns run
  have kept : t.cvs c = some q := (congrFun (threadWakeup_woken woken).cvs c).trans own
  obtain ⟨nodes, queue, woken⟩ := Result.bind_eq_ok.mp woken
  have queue : s.queues q = some nodes := queueNodes_eq_ok.mp queue
  simp only [contents, own, kept, queue, Option.getD_some]
  cases nodes with
  | nil =>
      rw [← Except.ok.inj woken]
      exact ⟨by simp [State.result, queue], by simp [State.result]⟩
  | cons head rest =>
      have named : (s.totalList head).threadID = head := n.waiting q _ queue head List.mem_cons_self
      rw [← Except.ok.inj woken]
      refine ⟨?_, ?_⟩
      · change (Function.update s.queues q (some rest) q).getD [] = rest
        rw [Function.update_self, Option.getD_some]
      · change s.readyList ++ [(s.totalList head).threadID] = s.readyList ++ [head]
        rw [named]

theorem cvBroadcast_moves (n : Named s) (owns : Owns s l s.currentThread) (run : cvBroadcast c l s = .ok t) :
    contents t c = [] ∧ t.readyList = s.readyList ++ contents s c := by
  obtain ⟨q, own, woken⟩ := cvWake_owned owns run
  have kept : t.cvs c = some q := (congrFun (threadWakeup_woken woken).cvs c).trans own
  have empty := threadWakeup_all woken
  obtain ⟨nodes, queue, woken⟩ := Result.bind_eq_ok.mp woken
  have queue : s.queues q = some nodes := queueNodes_eq_ok.mp queue
  simp only [contents, own, kept, queue, empty, Option.getD_some, true_and]
  cases nodes with
  | nil =>
      rw [← Except.ok.inj woken]
      simp [State.result]
  | cons head rest =>
      have ids : Identified (s.setQueue q (some [])) (head :: rest) := n.waiting q _ queue
      rw [← Except.ok.inj woken]
      exact wakeAll_readyList ids

theorem lockRelease_owner (owns : Owns s l s.currentThread) (run : lockRelease l s = .ok t) {lock : Lock}
    (found : t.locks l = some lock) : lock.acquiredID = s.currentThread := by
  obtain ⟨old, here, woken⟩ := lockRelease_cases run
  obtain ⟨lock', found', taken, owner⟩ := owns
  obtain rfl := Option.some.inj (here.symm.trans found')
  rw [woken.locks, unlock, if_neg (by simp [taken])] at found
  simp only [setLock, Function.update_self, Option.some.injEq] at found
  exact found ▸ owner

theorem cvWait_moves (p : Private s) (owns : Owns s l s.currentThread) (run : cvWait c l s = .ok t) :
    contents t c = contents s c ++ [s.currentThread] ∨
    contents t c = contents s c ∧ t.readyList = [] ∧ t.currentThread = s.currentThread ∧ s.callStack <:+ t.callStack := by
  obtain ⟨q, own, run⟩ := Result.bind_eq_ok.mp run
  obtain ⟨u, released, run⟩ := Result.bind_eq_ok.mp run
  obtain ⟨lock, found, run⟩ := Result.bind_eq_ok.mp run
  have own : s.cvs c = some q := cvAt_eq_ok.mp own
  have masked := Steady.interruptsSet s false
  have kept : Leaves (.cv c) (s.interruptsSet false) u := .lockRelease (p.steady masked) (by simp) released
  have before : contents u c = contents s c := (contents_of_leaves kept).trans rfl
  obtain ⟨_, -, woken⟩ := lockRelease_cases released
  have current : u.currentThread = s.currentThread := by
    refine woken.current.trans ?_
    unfold unlock
    split_ifs <;> rfl
  have owner : lock.acquiredID = (u.push (.cvReacquire l s.interrupts)).currentThread :=
    (lockRelease_owner (s := s.interruptsSet false) owns released (lockAt_eq_ok.mp found)).trans
      (congrArg _ current.symm)
  rw [if_pos owner] at run
  rcases threadSleep_slept run with ⟨alone, rfl⟩ | ⟨next, rest, nodes, slept⟩
  · refine Or.inr ⟨before, alone, current, ?_⟩
    have stack : u.callStack = s.callStack := (lockRelease_callStack released).trans rfl
    exact stack ▸ List.suffix_cons _ _
  · have same : u.cvs c = some q := kept.queue.trans own
    have queue : u.queues q = some nodes := slept.queue
    have after : t.cvs c = some q := (congrFun slept.cvs c).trans same
    refine Or.inl ?_
    rw [← before, ← current]
    simp only [contents, same, after, queue, slept.queues, Function.update_self, Option.getD_some]
    rfl

theorem continueFrame_alone {frame : Frame} (settled : frame.settled = true) (alone : s.readyList = [])
    (run : continueFrame frame s = .ok t) :
    t.readyList = [] ∧ t.currentThread = s.currentThread ∧ s.callStack <:+ t.callStack := by
  cases frame with
  | acquireLoop l enabled =>
      obtain ⟨lock, -, run⟩ := Result.bind_eq_ok.mp run
      split_ifs at run
      · exact Except.ok.inj run ▸ ⟨alone, rfl, List.suffix_refl _⟩
      · rcases threadSleep_slept run with ⟨-, rfl⟩ | ⟨next, rest, nodes, slept⟩
        · exact ⟨alone, rfl, List.suffix_cons _ _⟩
        · cases alone.symm.trans slept.ready
  | exitCall => cases settled
  | afterExit caller next => cases settled
  | afterYield enabled called next iter =>
      obtain rfl : called = true := settled
      exact Except.ok.inj run ▸ ⟨alone, rfl, List.suffix_cons _ _⟩
  | cvReacquire l enabled =>
      obtain ⟨lock, -, run⟩ := Result.bind_eq_ok.mp run
      exact Except.ok.inj run ▸ ⟨alone, rfl, (List.suffix_cons _ _).trans (List.suffix_cons _ _)⟩
  | user _ | stub | handler _ | yieldResult | exitReturn _ | afterSleep _ _ | waitReturn _ _ | cvReturn _ =>
      exact Except.ok.inj run ▸ ⟨alone, rfl, List.suffix_refl _⟩

def Bounced (c : Nat) (s : State) : Prop := s.readyList = [] ∧ ∃ l, s.callStack.getLast? = some (.user (.cvWait c l))

def Agrees (c : Nat) (labels : List Label) (s : State) : Prop :=
  unsignalled c labels = contents s c ∨ Bounced c s ∧ unsignalled c labels = contents s c ++ [s.currentThread]

/-- Only `cv_wait`, `cv_signal` and `cv_broadcast` on it change who waits on a condition variable. -/
theorem contents_step (sound : Sound s) (taken : Steps Monitored s label t)
    (other : ∀ l, label.1 ≠ .call (.cvWait c l) ∧ label.1 ≠ .call (.cvSignal c l) ∧ label.1 ≠ .call (.cvBroadcast c l)) :
    contents t c = contents s c := by
  obtain ⟨lost, seated⟩ := sound.seated
  obtain ⟨⟨peaceful, holds⟩, run⟩ := taken
  by_cases touches : Touches s (.cv c) label.1
  · rcases step_cases run with ⟨call, action, -, entered, -⟩ | ⟨frame, frames, action, -⟩ | ⟨action, -⟩
    all_goals rw [action] at touches holds other
    · cases call with
      | cvCreate =>
          obtain rfl : c = s.nextCv := touches
          obtain rfl := Except.ok.inj entered
          have created : (cvCreate (s.push (.user .cvCreate))).cvs s.nextCv = some s.nextQueue := Function.update_self _ _ _
          have empty : (cvCreate (s.push (.user .cvCreate))).queues s.nextQueue = some [] := Function.update_self _ _ _
          simp only [contents, created, empty, sound.numbered.cvs s.nextCv (Nat.le_refl _), Option.getD_some]
      | cvDestroy c' =>
          obtain rfl : c = c' := touches
          obtain ⟨q, own, entered⟩ := Result.bind_eq_ok.mp entered
          have own : s.cvs c = some q := cvAt_eq_ok.mp own
          obtain ⟨nodes, -, entered⟩ := Result.bind_eq_ok.mp entered
          have gone : t.cvs c = none := by
            rw [← Except.ok.inj entered]
            exact Function.update_self _ _ _
          simp only [contents, own, gone, holds q own, Option.getD_some]
      | cvWait c' l =>
          obtain rfl : c = c' := touches
          exact ((other l).1 rfl).elim
      | cvSignal c' l =>
          obtain rfl : c = c' := touches
          exact ((other l).2.1 rfl).elim
      | cvBroadcast c' l =>
          obtain rfl : c = c' := touches
          exact ((other l).2.2 rfl).elim
      | _ => exact touches.elim
    · obtain ⟨l, enabled, rest, -, same⟩ := touches
      cases same
    · exact touches.elim
  · refine contents_of_leaves (.step ?_ seated sound.named sound.owned peaceful touches run)
    exact fun i same => by cases same

theorem getLast?_of_suffix {frames more : List Frame} {f : Frame} (suffix : frames <:+ more) (last : frames.getLast? = some f) :
    more.getLast? = some f := by
  obtain ⟨top, rfl⟩ := suffix
  rw [List.getLast?_append, last, Option.some_or]

theorem Agrees.call {call : Call} (sound : Sound s) (agrees : unsignalled c labels = contents s c) (stack : s.callStack = [])
    (action : label.1 = .call call) (taken : Steps Monitored s label t) (entered : enter call (s.push (.user call)) = .ok t)
    (event : label.2 = some (.called s.currentThread call)) : Agrees c (labels ++ [label]) t := by
  have holds : HoldsLock s (.call call) := action ▸ taken.1.2
  have unchanged (same : signalling c (contents s c) label = contents s c)
      (other : ∀ l, call ≠ .cvWait c l ∧ call ≠ .cvSignal c l ∧ call ≠ .cvBroadcast c l) : Agrees c (labels ++ [label]) t := by
    refine Or.inl ?_
    rw [unsignalled_snoc, agrees, same]
    refine (contents_step sound taken fun l => ?_).symm
    rw [action]
    simpa using other l
  have named : Named (s.push (.user call)) := sound.named.push _
  cases call with
  | cvWait c' l =>
      by_cases same : c' = c
      · subst same
        have waiting : unsignalled c' (labels ++ [label]) = contents s c' ++ [s.currentThread] := by
          rw [unsignalled_snoc, agrees]
          simp [signalling, event]
        rcases cvWait_moves (sound.owned.steady (.push s _)) holds entered with joined | ⟨kept, alone, current, suffix⟩
        · exact Or.inl (waiting.trans joined.symm)
        · refine Or.inr ⟨⟨alone, l, ?_⟩, ?_⟩
          · refine getLast?_of_suffix suffix ?_
            rw [State.push, stack]
            rfl
          · rw [waiting, kept, current]
            rfl
      · exact unchanged (by simp [signalling, event, same]) (by simpa using same)
  | cvSignal c' l =>
      by_cases same : c' = c
      · subst same
        refine Or.inl ?_
        rw [unsignalled_snoc, agrees, (cvSignal_moves named holds entered).1]
        simp [signalling, event, contents, State.push]
      · exact unchanged (by simp [signalling, event, same]) (by simpa using same)
  | cvBroadcast c' l =>
      by_cases same : c' = c
      · subst same
        refine Or.inl ?_
        rw [unsignalled_snoc, agrees, (cvBroadcast_moves named holds entered).1]
        simp [signalling, event]
      · exact unchanged (by simp [signalling, event, same]) (by simpa using same)
  | _ => exact unchanged (by simp [signalling, event]) (by simp)

theorem signalling_running {frame : Frame} {nodes : List Nat} (event : label.2 = frameEvent s frame)
    (outside : s.currentThread ∉ nodes) : signalling c nodes label = nodes := by
  unfold signalling
  rw [event]
  cases frame with
  | user call =>
      cases call with
      | cvWait c' l =>
          simp only [frameEvent]
          rw [List.erase_of_not_mem outside, ite_self]
      | _ => rfl
  | _ => rfl

theorem Agrees.resume {frame : Frame} {frames : List Frame} (sound : Sound s) (agrees : Agrees c labels s)
    (action : label.1 = .resume) (taken : Steps Monitored s label t) (stack : s.callStack = frame :: frames)
    (continued : continueFrame frame { s with callStack := frames } = .ok t) (event : label.2 = frameEvent s frame) :
    Agrees c (labels ++ [label]) t := by
  obtain ⟨lost, seated⟩ := sound.seated
  have kept : contents t c = contents s c := by
    refine contents_step sound taken fun l => ?_
    rw [action]
    simp
  have outside := current_not_in_contents seated c
  have settled : frame.settled = true := seated.stack frame (by rw [stack]; exact List.mem_cons_self)
  rcases agrees with same | ⟨⟨alone, l, last⟩, same⟩
  · refine Or.inl ?_
    rw [unsignalled_snoc, same, kept]
    exact signalling_running event outside
  cases frames with
  | nil =>
      -- the call returns without having been signalled
      obtain rfl : frame = .user (.cvWait c l) := by simpa [stack] using last
      refine Or.inl ?_
      rw [unsignalled_snoc, same, kept]
      simp [signalling, event, frameEvent, List.erase_append_right _ outside]
  | cons below rest =>
      obtain ⟨alone', current, suffix⟩ := continueFrame_alone (s := { s with callStack := below :: rest }) settled alone continued
      have last : (below :: rest).getLast? = some (.user (.cvWait c l)) := by simpa [stack] using last
      have silent : label.2 = none := by
        rw [event]
        cases frame with
        | user call =>
            have calling := sound.stacked.running
            rw [stack] at calling
            cases calling.user
        | _ => rfl
      refine Or.inr ⟨⟨alone', l, getLast?_of_suffix suffix last⟩, ?_⟩
      rw [unsignalled_snoc, same, kept, current]
      simp [signalling, silent]

theorem Agrees.step (sound : Sound s) (agrees : Agrees c labels s) (taken : Steps Monitored s label t) :
    Agrees c (labels ++ [label]) t := by
  rcases step_cases taken.2 with ⟨call, action, stack, entered, event⟩ | ⟨frame, frames, action, stack, continued, event⟩ |
    ⟨action, -, yielded, event⟩
  · refine Agrees.call sound ?_ stack action taken entered event
    rcases agrees with same | ⟨⟨-, l, last⟩, -⟩
    · exact same
    · rw [stack] at last
      cases last
  · exact agrees.resume sound action taken stack continued event
  · have kept : contents t c = contents s c := by
      refine contents_step sound taken fun l => ?_
      rw [action]
      simp
    have unchanged : unsignalled c (labels ++ [label]) = unsignalled c labels := by
      rw [unsignalled_snoc]
      simp [signalling, event]
    rcases agrees with same | ⟨⟨alone, l, last⟩, same⟩
    · exact Or.inl ((unchanged.trans same).trans kept.symm)
    · -- nobody to yield to
      have back : t = ((s.interruptsSet false).push (.handler s.rax)).result THREAD_NONE := by
        have empty : (((s.interruptsSet false).push (.handler s.rax)).interruptsSet false).readyList = [] := alone
        simp only [threadYield, if_true, empty] at yielded
        exact (Except.ok.inj yielded).symm
      rw [back] at kept ⊢
      refine Or.inr ⟨⟨alone, l, getLast?_of_suffix (List.suffix_cons _ _) last⟩, ?_⟩
      rw [unchanged, same, kept]
      rfl

theorem site_cvWait {frames : List Frame} (saved : Saved frames) (last : frames.getLast? = some (.user (.cvWait c l))) :
    site frames = some none ∨ site frames = some (some (.cv c)) ∨ site frames = some (some (.lock l)) := by
  cases saved with
  | none | stub | slept => cases last
  | yielded | preempted | exited => exact Or.inl rfl
  | sleeping next sleeping =>
      cases sleeping with
      | wait | acquire => cases last
      | cv c' l' enabled =>
          obtain ⟨rfl, rfl⟩ : c' = c ∧ l' = l := by simpa using last
          exact Or.inr (Or.inl rfl)
      | reacquire c' l' enabled =>
          obtain ⟨rfl, rfl⟩ : c' = c ∧ l' = l := by simpa using last
          exact Or.inr (Or.inr rfl)

structure Signalled (labels : List Label) (s : State) : Prop where
  contended : Contended s
  yielded : Parked none s
  asleep : ∀ c, Parked (some (.cv c)) s
  agrees : ∀ c, Agrees c labels s

theorem Monitored.spares {action : Action} (monitored : Monitored s action) (place : Option Owner) : Spares place s action := by
  obtain ⟨-, holds⟩ := monitored
  unfold Spares
  split
  · exact fun _ => holds
  · trivial

namespace Signalled

theorem step (m : Signalled labels s) (taken : Steps Monitored s label t) : Signalled (labels ++ [label]) t where
  contended := m.contended.step ⟨taken.1.1, taken.2⟩
  yielded := by
    refine m.yielded.step m.contended.sound m.contended.free (fun owner same => ?_) taken.1.1 (taken.1.spares none) taken.2
    cases same
  asleep c := by
    refine (m.asleep c).step m.contended.sound m.contended.free (fun owner same => ?_) taken.1.1 (taken.1.spares _) taken.2
    obtain rfl := Option.some.inj same
    exact fun i same => by cases same
  agrees c := (m.agrees c).step m.contended.sound taken

theorem of_run (run : Runs Monitored labels s) : Signalled labels s :=
  run.history Signalled ⟨⟨.init, .init, fun _ => .init⟩, .init, fun _ => .init, fun _ => Or.inl rfl⟩
    fun _ _ _ _ m taken => m.step taken

theorem inside {i : Nat} (m : Signalled labels s) (other : i ≠ s.currentThread) (inside : Inside s i c l) :
    i ∈ unsignalled c labels ∧ Queued s (.cv c) i ∨
    i ∉ unsignalled c labels ∧ (i ∈ s.readyList ∨ Queued s (.lock l) i) := by
  obtain ⟨alive, last⟩ := inside
  have sound := m.contended.sound
  obtain ⟨lost, seated⟩ := sound.seated
  have member : i ∈ unsignalled c labels ↔ i ∈ contents s c := by
    rcases m.agrees c with same | ⟨-, same⟩
    · rw [same]
    · rw [same, List.mem_append, List.mem_singleton, or_iff_left other]
  have ready (listed : i ∈ s.readyList) : i ∉ unsignalled c labels :=
    fun waiting => ready_not_in_contents seated listed c (member.mp waiting)
  rcases site_cvWait (sound.stacked.saved i) last with here | here | here
  · rcases m.yielded i other (fun _ => alive) here with listed | ⟨owner, same, -⟩
    · exact Or.inr ⟨ready listed, Or.inl listed⟩
    · cases same
  · rcases m.asleep c i other (fun _ => alive) here with listed | ⟨owner, same, queued⟩
    · exact Or.inr ⟨ready listed, Or.inl listed⟩
    · obtain rfl := Option.some.inj same
      exact Or.inl ⟨member.mpr ((queued_cv sound.owned).mp queued), queued⟩
  · rcases m.contended.parked l i other (fun _ => alive) here with listed | ⟨owner, same, queued⟩
    · exact Or.inr ⟨ready listed, Or.inl listed⟩
    · obtain rfl := Option.some.inj same
      refine Or.inr ⟨fun waiting => ?_, Or.inr queued⟩
      -- nobody is in two queues
      obtain ⟨q, nodes, own, queue, here⟩ := queued
      obtain ⟨q', nodes', own', queue', there⟩ := (queued_cv sound.owned).mpr (member.mp waiting)
      have same : q = q' := seated.partition.waiting_unique q q' i (by simpa [scheduler, queue] using here)
        (by simpa [scheduler, queue'] using there)
      cases sound.owned.inj (.lock l) (.cv c) q own (same ▸ own')

end Signalled

theorem Guarded.of_run {allowed : State → Action → Prop} (killFree : ∀ s action, allowed s action → KillFree action)
    (own : ∀ s action, allowed s action → ReleasesOwn s action) (run : Runs allowed labels s) : Guarded s := by
  have both : Guarded s ∧ ∃ lost, Seated lost s := by
    refine run.invariant (fun s => Guarded s ∧ ∃ lost, Seated lost s) ⟨.init, _, Placed.init.seated⟩ ?_
    rintro t label u taken ⟨guarded, lost, seated⟩
    obtain ⟨lost', -, seated'⟩ := seated.step (killFree t label.1 taken.1) taken.2
    exact ⟨(guarded.step seated (killFree t label.1 taken.1) (own t label.1 taken.1) taken.2).guarded, lost', seated'⟩
  exact both.1

theorem Calling.cvReturn_holds {owns : Nat → Prop} {enabled enabled' : Bool} {frames : List Frame}
    (calling : Calling owns enabled (.cvReturn enabled' :: frames)) : ∃ c l, frames = [.user (.cvWait c l)] ∧ owns l := by
  cases calling with
  | interruptible _ interruptible => cases interruptible
  | resumed saved => cases saved
  | sleeping sleeping => cases sleeping
  | cvReturn c l enabled holds => exact ⟨c, l, rfl, holds⟩

theorem signals_kept (run : Runs Monitored labels s) : SignalsKept labels s := by
  have m := Signalled.of_run run
  have sound := m.contended.sound
  refine ⟨fun i c l other inside => m.inside other inside, fun c => ?_, fun c l event t taken => ?_,
    fun c l event t taken => ?_, fun c label t taken other => ?_, fun enabled frames stack => ?_⟩
  · rcases m.agrees c with same | ⟨-, same⟩
    · exact ⟨[], by rw [List.append_nil, same]⟩
    · rw [same]
      exact List.prefix_append _ _
  · rcases step_cases taken.2 with ⟨call, action, -, entered, -⟩ | ⟨_, _, action, -⟩ | ⟨action, -⟩
    · obtain rfl := Action.call.inj action
      exact cvSignal_moves (s := s.push _) (sound.named.push _) taken.1.2 entered
    · cases action
    · cases action
  · rcases step_cases taken.2 with ⟨call, action, -, entered, -⟩ | ⟨_, _, action, -⟩ | ⟨action, -⟩
    · obtain rfl := Action.call.inj action
      exact cvBroadcast_moves (s := s.push _) (sound.named.push _) taken.1.2 entered
    · cases action
    · cases action
  · by_cases waits : ∃ l, label.1 = .call (.cvWait c l)
    · obtain ⟨l, waits⟩ := waits
      rcases step_cases taken.2 with ⟨call, action, -, entered, -⟩ | ⟨_, _, action, -⟩ | ⟨action, -⟩
      · obtain rfl := Action.call.inj (waits.symm.trans action)
        have owns : HoldsLock s (.call (.cvWait c l)) := waits ▸ taken.1.2
        rcases cvWait_moves (s := s.push _) (sound.owned.steady (.push s _)) owns entered with joined | ⟨kept, -⟩
        · exact ⟨[s.currentThread], joined, Or.inr ⟨l, waits, rfl⟩⟩
        · exact ⟨[], by rw [kept, List.append_nil]; rfl, Or.inl rfl⟩
      · cases waits.symm.trans action
      · cases waits.symm.trans action
    · refine ⟨[], ?_, Or.inl rfl⟩
      rw [List.append_nil]
      refine contents_step sound taken fun l => ⟨fun same => waits ⟨l, same⟩, other l⟩
  · have calling := sound.stacked.running
    rw [stack] at calling
    exact calling.cvReturn_holds

/-- In every run in which nobody releases another thread's lock. -/
theorem no_signal_lost (run : Runs (fun s action => Monitored s action ∧ ReleasesOwn s action) labels s) :
    NoSignalLost labels s where
  toSignalsKept := signals_kept (run.weaken fun _ _ allowed => allowed.1)
  returned label t i c l v taken returned := by
    have guarded := Guarded.of_run (fun _ _ allowed => allowed.1.1.2) (fun _ _ allowed => allowed.2) run
    exact guarded.obtained taken.2 ⟨_, v, returned, rfl⟩

instance (s : State) (l i : Nat) : Decidable (Owns s l i) :=
  match found : s.locks l with
  | none => .isFalse fun owns => by
      obtain ⟨lock, here, -⟩ := owns
      cases found.symm.trans here
  | some lock => decidable_of_iff (lock.avaliable = false ∧ lock.acquiredID = i) <| by
      simp only [Owns, found, Option.some.injEq, exists_eq_left']

instance (s : State) : DecidablePred (HoldsLock s) := fun action => by
  unfold HoldsLock
  split <;> infer_instance

theorem Monitored.of_queueless {action : Action} (queueless : Queueless action) (admissible : Admissible s action)
    (holds : HoldsLock s action) : Monitored s action :=
  ⟨⟨queueless.disciplined, admissible.killFree⟩, holds⟩

def waitFirst (others : Nat) : List Action :=
  (List.replicate others [.call (.create true), .resume]).flatten ++
    [.call .lockCreate, .resume, .call .cvCreate, .resume, .call (.lockAcquire 0), .resume, .resume, .call (.cvWait 0 0), .resume]

/-- Two threads wait, and the first of them is signalled by a third. -/
theorem no_signal_lost_signalled : ∃ labels s, Runs (fun s action => Monitored s action ∧ ReleasesOwn s action) labels s ∧
    Inside s 0 0 0 ∧ Inside s 1 0 0 ∧ unsignalled 0 labels = [1] ∧ s.readyList = [0] ∧ s.queues 1 = some [1] ∧
      NoSignalLost labels s := by
  have run := @Runs.of_exec (fun s action => ((Queueless action ∧ Admissible s action) ∧ HoldsLock s action) ∧ ReleasesOwn s action) _
    (waitFirst 2 ++ [.call (.lockAcquire 0), .resume, .resume, .call (.cvWait 0 0), .resume, .call (.lockAcquire 0), .resume,
      .resume, .call (.cvSignal 0 0)]) (by decide)
  have monitored : Runs (fun s action => Monitored s action ∧ ReleasesOwn s action) _ _ :=
    run.weaken fun _ _ allowed => ⟨.of_queueless allowed.1.1.1 allowed.1.1.2 allowed.1.2, allowed.2⟩
  exact ⟨_, _, monitored, ⟨rfl, rfl⟩, ⟨rfl, rfl⟩, rfl, rfl, rfl, no_signal_lost monitored⟩

/-- Thread 1 signals thread 0 and lets it obtain the lock, and releases the lock once more before `cv_wait` has returned. -/
def releasedTwice : List Action :=
  waitFirst 1 ++ [.call (.lockAcquire 0), .resume, .resume, .call (.cvSignal 0 0), .resume, .call (.lockRelease 0), .resume,
    .call (.yield THREAD_ANY), .resume, .resume, .resume, .resume, .interrupt, .resume, .resume, .resume,
    .call (.lockRelease 0), .resume, .call (.yield THREAD_ANY), .resume, .resume, .resume]

theorem no_signal_lost_fails : ¬ ∀ labels s, Runs Monitored labels s → NoSignalLost labels s := by
  intro never
  have shown : (exec (fun s action => (Queueless action ∧ Admissible s action) ∧ HoldsLock s action) threadInit releasedTwice).map
      (fun r => (decide (Owns r.1 0 0), (step r.1 .resume).toOption.map (·.2))) =
        some (false, some (some (.returned 0 (.cvWait 0 0) 1))) := by
    decide +kernel
  obtain ⟨⟨s, labels⟩, ran, same⟩ := Option.map_eq_some_iff.mp shown
  obtain ⟨free, returned⟩ := Prod.mk.inj same
  have monitored : Runs Monitored labels s :=
    Runs.weaken (exec_run ran) fun _ _ allowed => .of_queueless allowed.1.1 allowed.1.2 allowed.2
  cases taken : step s .resume with
  | error fault =>
      rw [taken] at returned
      cases returned
  | ok result =>
      rw [taken] at returned
      have event : result.2 = some (.returned 0 (.cvWait 0 0) 1) := Option.some.inj returned
      have owns := (never _ _ monitored).returned (.resume, result.2) result.1 0 0 0 1 ⟨⟨⟨trivial, trivial⟩, trivial⟩, taken⟩ event
      exact absurd owns (of_decide_eq_false free)

end OperatingSystem.Threads
