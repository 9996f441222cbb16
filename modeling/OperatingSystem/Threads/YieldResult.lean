import OperatingSystem.Threads.Restored

namespace OperatingSystem.Threads

open State Transition

/-- A `thread_yield` in progress over the frames `base`, its successors restricted by `fits`; a context that resumes at
its `getcontext` without `setcontext_called` yields again. -/
inductive Nested (fits : Nat → Prop) (base : List Frame) : List Frame → Prop
  | entered : Nested fits base base
  | result : Nested fits base (.yieldResult :: base)
  | parked (called : Bool) (next : Nat) (iter : Option Nat) (again : called = true ∨ fits next) :
      Nested fits base (.afterYield false called next iter :: base)

/-- Where thread `i` can stand inside a `thread_yield` it made to `n`, with the flag it runs with. -/
inductive Pending (s : State) (i n : Nat) : Bool → List Frame → Prop
  | parked (enabled called : Bool) (next : Nat) (iter : Option Nat) (call : Call)
      (kept : (s.totalList i).nextThreadID = n) (again : called = true ∨ next = n ∨ (s.totalList i).exist = false) :
      Pending s i n false [.afterYield enabled called next iter, .user call]
  | result (enabled : Bool) (call : Call) (kept : (s.totalList i).nextThreadID = n) :
      Pending s i n enabled [.yieldResult, .user call]
  | preempted (rax : Tid) (call : Call) {frames : List Frame} (kept : (s.totalList i).nextThreadID = n)
      (nested : Nested (fun next => next = n ∨ (s.totalList i).exist = false) [.handler rax, .yieldResult, .user call] frames) :
      Pending s i n false frames
  | late (call : Call) {frames : List Frame} (nested : Nested (fun _ => True) [.handler n, .user call] frames) :
      Pending s i n false frames

section Pending

variable {s t : State} {i n : Nat} {enabled : Bool} {frames base : List Frame} {fits fits' : Nat → Prop}

theorem Nested.mono (nested : Nested fits base frames) (weaker : ∀ next, fits next → fits' next) : Nested fits' base frames := by
  cases nested with
  | entered => exact .entered
  | result => exact .result
  | parked called next iter again => exact .parked called next iter (again.imp_right (weaker next))

theorem Nested.markCalled {frame : Frame} (nested : Nested fits (frame :: base) frames) (other : frame.isYield = false) :
    Nested fits (frame :: base) (markCalled frames) := by
  cases nested with
  | entered =>
      have same : Threads.markCalled (frame :: base) = frame :: base := by
        cases frame <;> first | rfl | cases other
      rw [same]
      exact .entered
  | result => exact .result
  | parked called next iter again => exact .parked true next iter (Or.inl rfl)

theorem dead_of_mono (alive : (t.totalList i).exist = true → (s.totalList i).exist = true) (dead : (s.totalList i).exist = false) :
    (t.totalList i).exist = false := by
  cases still : (t.totalList i).exist with
  | false => rfl
  | true => rw [alive still] at dead; cases dead

theorem Pending.carry (pending : Pending s i n enabled frames)
    (result : (t.totalList i).nextThreadID = (s.totalList i).nextThreadID)
    (alive : (t.totalList i).exist = true → (s.totalList i).exist = true) : Pending t i n enabled frames := by
  have still {P : Prop} : P ∨ (s.totalList i).exist = false → P ∨ (t.totalList i).exist = false := Or.imp_right (dead_of_mono alive)
  cases pending with
  | parked enabled called next iter call id again =>
      exact .parked enabled called next iter call (result.trans id) (again.imp_right still)
  | result enabled call id => exact .result enabled call (result.trans id)
  | preempted rax call id nested => exact .preempted rax call (result.trans id) (nested.mono fun _ => still)
  | late call nested => exact .late call nested

theorem Pending.keep (pending : Pending s i n enabled frames) (kept : Kept i s t) : Pending t i n enabled frames :=
  pending.carry kept.nextThreadID kept.exist

theorem Pending.markCalled (pending : Pending s i n false frames) : Pending s i n false (markCalled frames) := by
  cases pending with
  | parked enabled called next iter call id again => exact .parked enabled true next iter call id (Or.inl rfl)
  | result enabled call id => exact .result false call id
  | preempted rax call id nested => exact .preempted rax call id (nested.markCalled rfl)
  | late call nested => exact .late call (nested.markCalled rfl)

theorem Pending.lands (pending : Pending s i n enabled frames) (flag : Bool) : ∃ e, lands flag frames = some (.user e) := by
  cases pending with
  | parked enabled called next iter call id again => exact ⟨enabled, rfl⟩
  | result enabled call id => exact ⟨flag, rfl⟩
  | preempted rax call id nested => cases nested <;> exact ⟨true, rfl⟩
  | late call nested => cases nested <;> exact ⟨true, rfl⟩

theorem Pending.inner {call : Call} (pending : Pending s i n enabled (.user call :: frames)) : False := by
  cases pending with
  | preempted rax call id nested => cases nested
  | late call nested => cases nested

end Pending

def Codeless (landing : Option Landing) : Prop := ∀ enabled, landing ≠ some (.user enabled)

structure Awaits (i n : Nat) (s : State) : Prop where
  running : s.currentThread = i → Codeless (lands s.interrupts s.callStack) ∨ Pending s i n s.interrupts s.callStack ∨
    ∃ call, s.callStack = [.user call] ∧ s.rax = n
  saved : (s.currentThread = i → ∃ flag, lands s.interrupts s.callStack = some (.afterExit flag)) →
    (∀ flag, Codeless (lands flag (s.totalList i).threadInfo)) ∨ Pending s i n false (s.totalList i).threadInfo

namespace Awaits

variable {i n : Nat} {s t : State} {base : List Frame}

theorem of_saved {next : Nat} (current : t.currentThread = next) (off : t.interrupts = false)
    (stack : t.callStack = (t.totalList next).threadInfo ∨ ∃ caller frames, t.callStack = .exitCall :: .afterExit caller next :: frames)
    (saved : (∀ flag, Codeless (lands flag (t.totalList i).threadInfo)) ∨ Pending t i n false (t.totalList i).threadInfo) :
    Awaits i n t := by
  refine ⟨fun here => ?_, fun _ => saved⟩
  rcases stack with resumed | ⟨caller, frames, exits⟩
  · rw [resumed, off, ← current, here]
    rcases saved with codeless | pending
    · exact Or.inl (codeless false)
    · exact Or.inr (Or.inl pending)
  · refine Or.inl fun enabled => ?_
    rw [exits]
    simp [lands]

theorem of_settling {landing : Option Landing} (away : s.currentThread = i → Codeless landing)
    (saved : (s.currentThread = i → ∃ flag, landing = some (.afterExit flag)) →
      (∀ flag, Codeless (lands flag (s.totalList i).threadInfo)) ∨ Pending s i n false (s.totalList i).threadInfo)
    (settling : Settling s landing base t) : Awaits i n t := by
  obtain ⟨flag, above, same, -, control⟩ := settling
  have parks {frame : Frame} {next : Nat} (parks : Parks s frame next (above ++ base) t)
      (through : ∀ f, lands f (frame :: (above ++ base)) = landing) :
      (∀ flag, Codeless (lands flag (t.totalList i).threadInfo)) ∨ Pending t i n false (t.totalList i).threadInfo := by
    by_cases own : i = s.currentThread
    · refine Or.inl fun f => ?_
      rw [own, parks.saved, through]
      exact away own.symm
    · have kept := parks.others i own
      rw [kept.threadInfo]
      exact (saved fun here => (own here.symm).elim).imp_right fun pending => pending.keep kept
  cases control with
  | stays current stack mask others =>
      refine ⟨fun here => Or.inl ?_, fun exits => ?_⟩
      · rw [mask, stack, same]
        exact away (current.symm.trans here)
      · rw [mask, stack, same, current] at exits
        rcases others i with kept | ⟨stub, -⟩
        · rw [kept.threadInfo]
          exact (saved exits).imp_right fun pending => pending.keep kept
        · exact Or.inl fun f => by simp [stub, lands, Codeless]
  | switches frame next parked resumes stack =>
      refine of_saved parked.current parked.off (Or.inl stack) (parks parked fun f => ?_)
      rcases resumes with ⟨iter, rfl⟩ | rfl
      · exact same
      · exact same
  | dies next iter parked stack =>
      exact of_saved parked.current parked.off (Or.inr ⟨_, _, stack⟩) (parks parked fun _ => same)

theorem of_parks {u : State} {enabled called : Bool} {next : Nat} {iter : Option Nat} {frames : List Frame}
    (own : s.currentThread = i) (parks : Parks s (.afterYield enabled called next iter) next frames t)
    (stack : called = true ∧ t.callStack = (t.totalList next).threadInfo ∨
      called = false ∧ t.callStack = .exitCall :: .afterExit u.currentThread next :: frames)
    (pending : Pending t i n false (.afterYield enabled called next iter :: frames)) : Awaits i n t := by
  refine of_saved parks.current parks.off (stack.imp (·.2) fun exits => ⟨_, _, exits.2⟩) (Or.inr ?_)
  rw [← own, parks.saved, own]
  exact pending

theorem switchTo {caller next : Nat} {frames : List Frame} (f : Framed s) (stack : s.callStack = .afterExit caller next :: frames)
    (a : Awaits i n s) (ran : t = switchTo caller next { s with callStack := frames }) : Awaits i n t := by
  have id := f.names _ (stack ▸ List.mem_cons_self) next rfl
  have final := switchTo_thread caller next { s with callStack := frames } id
  have off := f.off_of_afterExit stack
  have saved := a.saved fun _ => ⟨s.interrupts, by rw [stack]; rfl⟩
  have keep {enabled : Bool} {fs : List Frame} (pending : Pending s i n enabled fs) : Pending t i n enabled fs := by
    refine pending.carry ?_ fun alive => ?_
    · rw [ran, final]
    · rwa [ran, final] at alive
  subst ran
  refine of_saved id off (Or.inl rfl) ?_
  rw [final]
  dsimp only
  split_ifs
  · refine saved.imp (fun codeless flag => ?_) fun pending => keep pending.markCalled
    rw [lands_markCalled]
    exact codeless flag
  · exact saved.imp_right keep

theorem inside (current : t.currentThread = i) (pending : Pending t i n t.interrupts t.callStack) : Awaits i n t := by
  refine ⟨fun _ => Or.inr (Or.inl pending), fun exits => ?_⟩
  obtain ⟨flag, exits⟩ := exits current
  obtain ⟨e, user⟩ := pending.lands t.interrupts
  rw [user] at exits
  cases exits

theorem returning {call : Call} (current : t.currentThread = i) (stack : t.callStack = [.user call]) (value : t.rax = n) :
    Awaits i n t := by
  refine ⟨fun _ => Or.inr (Or.inr ⟨call, stack, value⟩), fun exits => ?_⟩
  obtain ⟨flag, exits⟩ := exits current
  rw [stack] at exits
  cases exits

end Awaits

theorem Nested.step {fits : Nat → Prop} {s t : State} {rax : Tid} {frame : Frame} {base frames : List Frame} (f : Framed s)
    (off : s.interrupts = false) (stack : s.callStack = frame :: frames)
    (nested : Nested fits (.handler rax :: base) (frame :: frames))
    (run : continueFrame frame { s with callStack := frames } = .ok t) :
    frame :: frames = .handler rax :: base ∨
    (t.currentThread = s.currentThread ∧ t.interrupts = false ∧ t.totalList = s.totalList ∧
      Nested fits (.handler rax :: base) t.callStack) ∨
    ∃ called next iter, fits next ∧ Parks s (.afterYield false called next iter) next (.handler rax :: base) t ∧
      (called = true ∧ t.callStack = (t.totalList next).threadInfo ∨
        called = false ∧ t.callStack = .exitCall :: .afterExit s.currentThread next :: .handler rax :: base) := by
  cases nested with
  | entered => exact Or.inl rfl
  | result =>
      obtain rfl := Except.ok.inj run
      exact Or.inr (Or.inl ⟨rfl, off, rfl, .entered⟩)
  | parked called next iter again =>
      cases called with
      | true =>
          obtain rfl := Except.ok.inj run
          exact Or.inr (Or.inl ⟨rfl, rfl, rfl, .result⟩)
      | false =>
          have id := f.names _ (stack ▸ List.mem_cons_self) next rfl
          have fits := again.resolve_left Bool.false_ne_true
          obtain ⟨called, parks, taken⟩ := Parks.yieldBlock (s := { s with callStack := .handler rax :: base }) id off run
          exact Or.inr (Or.inr ⟨called, next, iter, fits, parks.since rfl fun _ => .of_table rfl, taken⟩)

theorem Parks.answer {s t : State} {i n next : Nat} {frame : Frame} {frames : List Frame} (parks : Parks s frame next frames t)
    (own : s.currentThread = i) (kept : (s.totalList i).nextThreadID = n) (fits : next = n ∨ (s.totalList i).exist = false) :
    (t.totalList i).nextThreadID = n ∧ (next = n ∨ (t.totalList i).exist = false) := by
  subst own
  refine ⟨?_, fits.imp_right (dead_of_mono parks.exist)⟩
  rcases parks.result with same | ⟨alive, set⟩
  · exact same.trans kept
  · rcases fits with rfl | dead
    · exact set
    · rw [dead] at alive
      cases alive

/-- An interrupt here does not fall between `interrupts_set` and the read of the result, or finds nobody to switch to,
or switches to the thread the result names. -/
def LeavesResult (s : State) : Prop :=
  s.callStack.head? = some .yieldResult → ∀ head, s.readyList.head? = some head → s.current.exist = true →
    s.threadIDOf head = s.current.nextThreadID

def Undisturbed (s : State) : Action → Prop
  | .call (.yield _) => s.current.status = .running ∧ s.current.exist = true
  | .interrupt => LeavesResult s
  | _ => True

theorem Undisturbed.of_killFree {labels : List Label} {s : State}
    (run : Runs (fun s action => KillFree action ∧ (action = .interrupt → LeavesResult s)) labels s) : Runs Undisturbed labels s := by
  refine (run.history (fun labels s => Runs Undisturbed labels s ∧ ∃ lost, Seated lost s) ⟨.start, _, Placed.init.seated⟩ ?_).1
  rintro labels t label u ⟨before, lost, seated⟩ taken
  obtain ⟨lost', -, seated'⟩ := seated.step taken.1.1 taken.2
  refine ⟨.step before ⟨?_, taken.2⟩, lost', seated'⟩
  cases action : label.1 with
  | call call =>
      cases call with
      | yield want => exact ⟨seated.running, seated.partition.running_live.1⟩
      | _ => trivial
  | resume => trivial
  | interrupt => exact taken.1.2 action

namespace Awaits

variable {i n : Nat} {s t : State}

theorem resume {frame : Frame} {frames : List Frame} (f : Framed s) (own : s.currentThread = i)
    (stack : s.callStack = frame :: frames) (pending : Pending s i n s.interrupts s.callStack)
    (run : continueFrame frame { s with callStack := frames } = .ok t) : Awaits i n t := by
  have name {next : Nat} (successor : frame.next? = some next) : (s.totalList next).threadID = next :=
    f.names _ (stack ▸ List.mem_cons_self) next successor
  rw [stack] at pending
  generalize flag : s.interrupts = enabled at pending
  cases pending with
  | parked enabled called next iter call kept again =>
      cases called with
      | true =>
          obtain rfl := Except.ok.inj run
          exact inside own (.result enabled call kept)
      | false =>
          obtain ⟨called, parks, taken⟩ := Parks.yieldBlock (s := { s with callStack := [.user call] }) (name rfl) flag run
          have parks := parks.since (s := s) rfl fun _ => .of_table rfl
          obtain ⟨kept, fits⟩ := parks.answer own kept (again.resolve_left Bool.false_ne_true)
          exact of_parks own parks taken (.parked enabled called next iter call kept (Or.inr fits))
  | result _ call kept =>
      obtain rfl := Except.ok.inj run
      refine returning own rfl ?_
      exact (congrArg (fun j => (s.totalList j).nextThreadID) own).trans kept
  | preempted rax call kept nested =>
      rcases nested.step f flag stack run with handler | ⟨current, off, table, nested⟩ | ⟨called, next, iter, fits, parks, taken⟩
      · obtain ⟨rfl, rfl⟩ := List.cons.inj handler
        obtain rfl := Except.ok.inj run
        exact inside own (.result true call kept)
      · refine inside (current.trans own) ?_
        rw [off]
        have pending : Pending s i n false t.callStack := .preempted rax call kept nested
        exact pending.keep (.of_table table)
      · obtain ⟨kept, fits⟩ := parks.answer own kept fits
        exact of_parks own parks taken (.preempted rax call kept (.parked called next iter (Or.inr fits)))
  | late call nested =>
      rcases nested.step f flag stack run with handler | ⟨current, off, -, nested⟩ | ⟨called, next, iter, -, parks, taken⟩
      · obtain ⟨rfl, rfl⟩ := List.cons.inj handler
        obtain rfl := Except.ok.inj run
        exact returning own rfl rfl
      · exact inside (current.trans own) (off ▸ .late call nested)
      · exact of_parks own parks taken (.late call (.parked called next iter (Or.inr trivial)))

theorem preempted (f : Framed s)
    (run : threadYield THREAD_ANY ((s.interruptsSet false).push (.handler s.rax)) = .ok t) :
    (t.currentThread = s.currentThread ∧ t.interrupts = false ∧ t.totalList = s.totalList ∧
      t.callStack = .handler s.rax :: s.callStack) ∨
    ∃ called next iter, s.readyList.head? = some next ∧ (s.totalList next).threadID = next ∧
      Parks s (.afterYield false called next iter) next (.handler s.rax :: s.callStack) t ∧
      (called = true ∧ t.callStack = (t.totalList next).threadInfo ∨
        called = false ∧ t.callStack = .exitCall :: .afterExit s.currentThread next :: .handler s.rax :: s.callStack) := by
  have named := (f.named.interruptsSet false).push (.handler s.rax)
  rcases threadYield_block named run with ⟨rfl | rfl, -⟩ | ⟨next, -, chosen, id, -⟩
  · exact Or.inl ⟨rfl, rfl, rfl, rfl⟩
  · exact Or.inl ⟨rfl, rfl, rfl, rfl⟩
  · obtain ⟨called, iter, parks, taken, -⟩ := Parks.threadYield named chosen run
    exact Or.inr ⟨called, next, iter, chosen.any, id, parks.since rfl fun _ => .of_table rfl, taken⟩

theorem interrupt (f : Framed s) (own : s.currentThread = i) (enabled : s.interrupts = true)
    (undisturbed : LeavesResult s)
    (here : Pending s i n s.interrupts s.callStack ∨ ∃ call, s.callStack = [.user call] ∧ s.rax = n)
    (run : threadYield THREAD_ANY ((s.interruptsSet false).push (.handler s.rax)) = .ok t) : Awaits i n t := by
  rcases here with pending | ⟨call, stack, value⟩
  · rw [enabled] at pending
    generalize whole : s.callStack = frames at pending
    cases pending with
    | result _ call kept =>
        rcases preempted f run with ⟨current, off, table, handler⟩ | ⟨called, next, iter, head, id, parks, taken⟩
        · refine inside (current.trans own) ?_
          rw [off, handler, whole]
          have pending : Pending s i n false [.handler s.rax, .yieldResult, .user call] := .preempted s.rax call kept .entered
          exact pending.keep (.of_table table)
        · have fits : next = n ∨ (s.totalList i).exist = false := by
            cases alive : (s.totalList i).exist with
            | false => exact Or.inr rfl
            | true =>
                have agrees := undisturbed (by rw [whole]; rfl) next head (by rw [State.current, own]; exact alive)
                rw [State.current, own, kept, threadIDOf, id] at agrees
                exact Or.inl (by exact_mod_cast agrees)
          rw [whole] at parks taken
          obtain ⟨kept, fits⟩ := parks.answer own kept fits
          exact of_parks own parks taken (.preempted s.rax call kept (.parked called next iter (Or.inr fits)))
  · rcases preempted f run with ⟨current, off, table, handler⟩ | ⟨called, next, iter, -, -, parks, taken⟩
    · refine inside (current.trans own) ?_
      rw [off, handler, stack, value]
      exact .late call .entered
    · rw [stack, value] at parks taken
      exact of_parks own parks taken (.late call (.parked called next iter (Or.inr trivial)))

theorem step {action : Action} {event : Option Event} (f : Framed s) (a : Awaits i n s) (undisturbed : Undisturbed s action)
    (silent : ∀ e, event = some e → e.thread ≠ i) (run : step s action = .ok (t, event)) : Awaits i n t := by
  by_cases inCall : s.currentThread = i ∧
      (Pending s i n s.interrupts s.callStack ∨ ∃ call, s.callStack = [.user call] ∧ s.rax = n)
  · obtain ⟨own, here⟩ := inCall
    rcases step_cases run with ⟨call, rfl, -, -, shown⟩ | ⟨frame, frames, rfl, stack, continued, shown⟩ |
      ⟨rfl, enabled, yielded, -⟩
    · exact (silent _ shown own).elim
    · rcases here with pending | ⟨call, user, -⟩
      · exact resume f own stack pending continued
      · rw [stack] at user
        obtain ⟨rfl, -⟩ := List.cons.inj user
        exact (silent _ shown own).elim
    · exact interrupt f own enabled undisturbed here yielded
  · have away (here : s.currentThread = i) : Codeless (lands s.interrupts s.callStack) :=
      (a.running here).resolve_right fun inside => inCall ⟨here, inside⟩
    rcases step_control f run with ⟨call, flag, shown, settling⟩ | ⟨call, frames, stack, shown, rfl⟩ |
      ⟨caller, next, frames, stack, -, ran⟩ | ⟨-, base, settling, -⟩
    · have other : s.currentThread ≠ i := silent _ shown
      exact of_settling (fun here => (other here).elim) (fun _ => a.saved fun here => (other here).elim) settling
    · have other : s.currentThread ≠ i := silent _ shown
      have saved := a.saved fun here => (other here).elim
      exact ⟨fun here => (other here).elim, fun _ => saved.imp_right fun pending => pending.keep (.of_table rfl)⟩
    · exact a.switchTo f stack ran
    · exact of_settling away a.saved settling

theorem of_run {allowed : State → Action → Prop} {labels : List Label} (f : Framed s) (a : Awaits i n s)
    (undisturbed : ∀ s action, allowed s action → Undisturbed s action) (silent : Silent i labels)
    (run : Run (Steps allowed) s labels t) : Framed t ∧ Awaits i n t := by
  refine run.history (fun more t => Silent i more → Framed t ∧ Awaits i n t) (fun _ => ⟨f, a⟩) ?_ silent
  intro more t label u before taken quiet
  obtain ⟨f, a⟩ := before fun l member => quiet l (List.mem_append_left _ member)
  exact ⟨f.step taken.2, a.step f (undisturbed _ _ taken.1) (quiet label (List.mem_append_right _ List.mem_cons_self)) taken.2⟩

end Awaits

/-- However the run goes on after the running thread calls `thread_yield(want)`: when that call returns, it returns `n`. -/
def Returns (allowed : State → Action → Prop) (s : State) (want : Tid) (n : Nat) : Prop :=
  ∀ event u labels t label v, Steps allowed s (.call (.yield want), event) u → Run (Steps allowed) u labels t →
    Silent s.currentThread labels → Steps allowed t label v →
    ∀ made value, label.2 = some (.returned s.currentThread made value) → value = n

theorem thread_yield_returns {labels : List Label} {s : State} {want : Tid} {n : Nat} (run : Runs Undisturbed labels s)
    (chosen : Chosen want s n) : Returns Undisturbed s want n := by
  intro event u more t label v called after silent last made value returned
  have framed := Framed.of_run run
  have entry : Awaits s.currentThread n u := by
    obtain ⟨running, alive⟩ := called.1
    obtain ⟨stack, entered, -⟩ : s.callStack = [] ∧ threadYield want (s.push (.user (.yield want))) = .ok u ∧ True := by
      rcases step_cases called.2 with ⟨call, same, stack, entered, -⟩ | ⟨_, _, resumed, -⟩ | ⟨interrupted, -⟩
      · obtain rfl := Action.call.inj same
        exact ⟨stack, entered, trivial⟩
      · cases resumed
      · cases interrupted
    obtain ⟨called, iter, parks, taken, recorded⟩ := Parks.threadYield (framed.named.push _) chosen entered
    have parks := parks.since (s := s) rfl fun _ => .of_table rfl
    rw [State.push, stack] at parks taken
    exact .of_parks rfl parks taken (.parked _ called n iter _ (recorded running alive) (Or.inr (Or.inl rfl)))
  obtain ⟨f, a⟩ := Awaits.of_run (framed.step called.2) entry (fun _ _ allowed => allowed) silent after
  rcases step_control f last.2 with ⟨_, _, shown, -⟩ | ⟨made', frames, stack, shown, rfl⟩ | ⟨_, _, _, -, shown, -⟩ | ⟨shown, -⟩
  · rw [returned] at shown
    cases shown
  · rw [returned] at shown
    obtain ⟨here, -, same⟩ := Event.returned.inj (Option.some.inj shown)
    rcases a.running here.symm with codeless | pending | ⟨call, -, read⟩
    · rw [stack] at codeless
      exact (codeless _ rfl).elim
    · rw [stack] at pending
      exact pending.inner.elim
    · exact same.trans read
  · rw [returned] at shown
    cases shown
  · rw [returned] at shown
    cases shown

theorem thread_yield_returns_one : ∃ labels s, Runs Undisturbed labels s ∧ s.readyList = [1] ∧ Returns Undisturbed s 1 1 := by
  have created : Steps Undisturbed threadInit (.call (.create true), some (.called 0 (.create true)))
      (threadCreate true (threadInit.push (.user (.create true)))) := ⟨trivial, rfl⟩
  have returned : Steps Undisturbed (threadCreate true (threadInit.push (.user (.create true))))
      (.resume, some (.returned 0 (.create true) 1))
      { threadCreate true (threadInit.push (.user (.create true))) with callStack := [] } := ⟨trivial, rfl⟩
  have run : Runs Undisturbed _ _ := .step (.single created) returned
  refine ⟨_, _, run, rfl, thread_yield_returns run (Or.inr (Or.inr ⟨rfl, ?_⟩))⟩
  exact List.mem_singleton.mpr rfl

def createTwo : List Action := createOne ++ createOne

def interruptedYield : List Action :=
  [.call (.yield 1), .resume, .call (.yield 0), .resume, .interrupt, .resume, .call (.yield 0), .resume, .resume, .resume,
    .resume, .resume]

def betweenYield : List Label :=
  [(.resume, none), (.call (.yield 0), some (.called 1 (.yield 0))), (.resume, none), (.interrupt, none), (.resume, none),
    (.call (.yield 0), some (.called 2 (.yield 0))), (.resume, none), (.resume, none), (.resume, none), (.resume, none)]

/-- The `thread_yield` of the handler leaves its own result behind: thread 0 gets 2 for its yield to 1. -/
theorem thread_yield_returns_fails :
    ¬ ∀ labels s want n, AnyRun labels s → Chosen want s n → Returns (fun _ _ => True) s want n := by
  intro always
  have shown : (exec (fun _ _ => True) threadInit (createTwo ++ interruptedYield)).map (·.2) =
      ((exec (fun _ _ => True) threadInit createTwo).map (·.2)).map fun front =>
        front ++ [(.call (.yield 1), some (.called 0 (.yield 1)))] ++ betweenYield ++
          [(.resume, some (.returned 0 (.yield 1) 2))] := by
    decide +kernel
  have created : (exec (fun _ _ => True) threadInit createTwo).isSome := by decide
  obtain ⟨first, start⟩ := Option.isSome_iff_exists.mp created
  rw [start] at shown
  obtain ⟨whole, ran, labels⟩ := Option.map_eq_some_iff.mp shown
  have run := exec_run ran
  rw [labels] at run
  obtain ⟨t, before, last⟩ := run.last
  obtain ⟨u, before, after⟩ := before.split
  obtain ⟨s, front, called⟩ := before.last
  have same : s = first.1 := AnyRun.unique front (exec_run start)
  have started : ((exec (fun _ _ => True) threadInit createTwo).map fun r =>
      (r.1.currentThread, r.1.readyList, (r.1.totalList 1).threadID)) = some (0, [1, 2], 1) := by decide
  rw [start, Option.map_some, Option.some.injEq, ← same] at started
  obtain ⟨caller, ready, id⟩ : s.currentThread = 0 ∧ s.readyList = [1, 2] ∧ (s.totalList 1).threadID = 1 := by
    simpa using started
  have chosen : Chosen 1 s 1 := by
    refine Or.inr (Or.inr ⟨?_, by simp [ready]⟩)
    rw [threadIDOf, id]
    rfl
  have silent : Silent s.currentThread betweenYield := by
    rw [caller]
    unfold Silent
    decide
  have value := always _ s 1 1 front chosen _ u _ t _ _ called after silent last _ _ (by rw [caller])
  exact absurd value (by decide)

end OperatingSystem.Threads
