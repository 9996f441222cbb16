import OperatingSystem.Threads.Contexts

namespace OperatingSystem.Threads

open State Transition

def Event.thread : Event → Nat
  | .called thread _ | .returned thread _ _ => thread

def Silent (i : Nat) (labels : List Label) : Prop :=
  ∀ label ∈ labels, ∀ event, label.2 = some event → event.thread ≠ i

/-- If thread `i` comes back to its own code from where it stands, with `landing` that of the running stack, it finds
the flag `enabled`.  While it runs, its saved context matters only where a killed thread's exit takes it up. -/
structure Expects (i : Nat) (enabled : Bool) (s : State) (landing : Option Landing) : Prop where
  running : s.currentThread = i → landing ≠ some (.user !enabled)
  saved : (s.currentThread = i → ∃ flag, landing = some (.afterExit flag)) →
    ∀ flag, lands flag (s.totalList i).threadInfo ≠ some (.user !enabled)

namespace Expects

variable {i : Nat} {enabled : Bool} {s t : State} {landing : Option Landing} {base : List Frame}

theorem of_saved {next : Nat} (current : t.currentThread = next) (stack : t.callStack = (t.totalList next).threadInfo)
    (saved : ∀ flag, lands flag (t.totalList i).threadInfo ≠ some (.user !enabled)) :
    Expects i enabled t (lands t.interrupts t.callStack) := by
  refine ⟨fun here => ?_, fun _ => saved⟩
  rw [stack, ← current, here]
  exact saved _

theorem of_settling (x : Expects i enabled s landing) (settling : Settling s landing base t) :
    Expects i enabled t (lands t.interrupts t.callStack) := by
  obtain ⟨flag, above, same, -, control⟩ := settling
  have parks {frame : Frame} {next : Nat} (parks : Parks s frame next (above ++ base) t)
      (through : ∀ f, lands f (frame :: (above ++ base)) = landing) (f : Bool) :
      lands f (t.totalList i).threadInfo ≠ some (.user !enabled) := by
    by_cases own : i = s.currentThread
    · rw [own, parks.saved, through]
      exact x.running own.symm
    · rw [(parks.others i own).threadInfo]
      exact x.saved (fun here => (own here.symm).elim) f
  cases control with
  | stays current stack mask others =>
      refine ⟨fun here => ?_, fun exits f => ?_⟩
      · rw [mask, stack, same]
        exact x.running (current.symm.trans here)
      · rw [mask, stack, same, current] at exits
        rcases others i with kept | ⟨stub, -⟩
        · rw [kept.threadInfo]
          exact x.saved exits f
        · simp [stub, lands]
  | switches frame next parked resumes stack =>
      refine of_saved parked.current stack (parks parked fun f => ?_)
      rcases resumes with ⟨iter, rfl⟩ | rfl
      · exact same
      · exact same
  | dies next iter parked stack =>
      refine ⟨fun _ => ?_, fun _ => parks parked fun _ => same⟩
      rw [stack]
      simp [lands]

theorem switchTo {caller next : Nat} {frames : List Frame} (f : Framed s) (stack : s.callStack = .afterExit caller next :: frames)
    (x : Expects i enabled s (lands s.interrupts s.callStack)) (ran : t = switchTo caller next { s with callStack := frames }) :
    Expects i enabled t (lands t.interrupts t.callStack) := by
  have id := f.names _ (stack ▸ List.mem_cons_self) next rfl
  have final := switchTo_thread caller next { s with callStack := frames } id
  have exits : ∃ flag, lands s.interrupts s.callStack = some (.afterExit flag) := ⟨s.interrupts, by rw [stack]; rfl⟩
  subst ran
  refine of_saved id rfl fun flag => ?_
  rw [final]
  dsimp only
  split_ifs
  · rw [lands_markCalled]
    exact x.saved (fun _ => exits) flag
  · exact x.saved (fun _ => exits) flag

theorem step {action : Action} {event : Option Event} (f : Framed s) (x : Expects i enabled s (lands s.interrupts s.callStack))
    (silent : ∀ e, event = some e → e.thread ≠ i) (run : step s action = .ok (t, event)) :
    Expects i enabled t (lands t.interrupts t.callStack) := by
  have away {landing' : Option Landing} (other : s.currentThread ≠ i) : Expects i enabled s landing' :=
    ⟨fun here => (other here).elim, fun _ => x.saved fun here => (other here).elim⟩
  rcases step_control f run with ⟨call, flag, shown, settling⟩ | ⟨call, frames, stack, shown, rfl⟩ |
    ⟨caller, next, frames, stack, -, ran⟩ | ⟨-, base, settling, -⟩
  · exact (away (silent _ shown)).of_settling settling
  · have other : s.currentThread ≠ i := silent _ shown
    exact ⟨fun here => (other here).elim, fun _ => x.saved fun here => (other here).elim⟩
  · exact x.switchTo f stack ran
  · exact x.of_settling settling

theorem of_run {allowed : State → Action → Prop} {labels : List Label} (f : Framed s)
    (x : Expects i enabled s (lands s.interrupts s.callStack)) (silent : Silent i labels) (run : Run (Steps allowed) s labels t) :
    Framed t ∧ Expects i enabled t (lands t.interrupts t.callStack) := by
  refine run.history (fun more t => Silent i more → Framed t ∧ Expects i enabled t (lands t.interrupts t.callStack))
    (fun _ => ⟨f, x⟩) ?_ silent
  intro more t label u before taken quiet
  obtain ⟨f, x⟩ := before fun l member => quiet l (List.mem_append_left _ member)
  exact ⟨f.step taken.2, x.step f (quiet label (List.mem_append_right _ List.mem_cons_self)) taken.2⟩

end Expects

def Restores (allowed : State → Action → Prop) (s : State) (call : Call) : Prop :=
  ∀ event u labels t label v, Steps allowed s (.call call, event) u → Run (Steps allowed) u labels t →
    Silent s.currentThread labels → Steps allowed t label v →
    ∀ made value, label.2 = some (.returned s.currentThread made value) → v.interrupts = s.interrupts

theorem restores_of_run {allowed : State → Action → Prop} {labels : List Label} {s : State} {call : Call}
    (run : Runs allowed labels s) (made : ∀ enabled, call ≠ .interruptsSet enabled)
    (succeeds : allowed s (.call call) → ¬ CreateFails s call) : Restores allowed s call := by
  intro event u more t label v entered after silent last made' value returned
  have framed := Framed.of_run run
  obtain ⟨-, -, flag, settling, restores⟩ := call_control framed entered.2
  have entry : Expects s.currentThread s.interrupts u (lands u.interrupts u.callStack) := by
    have same : flag = s.interrupts := restores.resolve_right fun changed =>
      changed.elim (succeeds entered.1) fun ⟨enabled, sets⟩ => made enabled sets
    refine Expects.of_settling ⟨fun _ => ?_, fun exits => ?_⟩ settling
    · rw [same]
      cases s.interrupts <;> decide
    · obtain ⟨_, other⟩ := exits rfl
      cases other
  obtain ⟨f, expects⟩ := Expects.of_run (framed.step entered.2) entry silent after
  rcases step_control f last.2 with ⟨_, _, shown, -⟩ | ⟨call', frames, stack, shown, rfl⟩ | ⟨_, _, _, -, shown, -⟩ | ⟨shown, -⟩
  · rw [returned] at shown
    cases shown
  · rw [returned] at shown
    have here := expects.running (Event.returned.inj (Option.some.inj shown)).1.symm
    rw [stack] at here
    change t.interrupts = s.interrupts
    have same : ∀ a b : Bool, some (Landing.user a) ≠ some (.user !b) → a = b := by decide
    exact same _ _ here
  · rw [returned] at shown
    cases shown
  · rw [returned] at shown
    cases shown

end OperatingSystem.Threads
