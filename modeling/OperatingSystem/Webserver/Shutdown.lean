import OperatingSystem.Webserver.Pending

namespace OperatingSystem.Webserver

open Transition

/-- `server_exit` has broadcast and a worker waits un-notified: `pthread_join` does not return. -/
def Stuck (s : Server) : Prop := s.exiting = true ∧ ∃ w < s.nrThreads, s.worker w = .waiting

def Parked (s : Server) : Prop := ∀ w < s.nrThreads, s.worker w = .waiting ∨ s.worker w = .notified

section BeforeExit

variable {s t : Server}

structure Running (s : Server) : Prop where
  counter : 0 ≤ s.requestCounter
  exiting : s.exit = .notCalled → s.exiting = false
  workers : s.exit = .notCalled → ∀ w, s.worker w ≠ .returned

structure Continues (s t : Server) : Prop where
  exiting : t.exiting = s.exiting
  exit : t.exit = s.exit
  returned : s.exiting = false → ∀ w, t.worker w = .returned → s.worker w = .returned

theorem Continues.of_workers (exiting : t.exiting = s.exiting) (exit : t.exit = s.exit)
    (workers : t.worker = s.worker) : Continues s t :=
  ⟨exiting, exit, fun _ _ returned => workers ▸ returned⟩

theorem continues_setWorker {w : Nat} {pc : Worker} (stays : s.exiting = false → pc ≠ .returned) :
    Continues s (s.setWorker w pc) := by
  refine ⟨rfl, rfl, fun open' v returned => ?_⟩
  unfold Server.setWorker at returned
  by_cases same : v = w
  · subst same
    simp only [Function.update_self] at returned
    exact absurd returned (stays open')
  · simpa [same] using returned

theorem continues_broadcastEmpty : Continues s s.broadcastEmpty := by
  refine ⟨rfl, rfl, fun _ w returned => ?_⟩
  unfold Server.broadcastEmpty at returned
  simp only at returned
  split_ifs at returned
  exact returned

theorem continues_takeRequest (w : Nat) : Continues s (s.takeRequest w).1 := by
  unfold Server.takeRequest
  split_ifs with empty full
  · exact continues_setWorker (by simp)
  · have moved : Continues s (s.setWorker w (.serving (s.rq s.rqEnd))) := continues_setWorker (by simp)
    exact ⟨moved.exiting, moved.exit, moved.returned⟩
  · have moved : Continues s (s.setWorker w (.serving (s.rq s.rqEnd))) := continues_setWorker (by simp)
    exact ⟨moved.exiting, moved.exit, moved.returned⟩

theorem continues_putRequest (c : Nat) (connfd : Fd) : Continues s (s.putRequest c connfd).1 := by
  unfold Server.putRequest
  simp only
  split_ifs with full empty
  · exact .of_workers rfl rfl rfl
  · have woken : Continues s s.broadcastEmpty := continues_broadcastEmpty
    exact ⟨rfl, rfl, woken.returned⟩
  · exact .of_workers rfl rfl rfl

theorem step_continues {action : Action} {event : Option Event} (run : step s action = .ok (t, event)) :
    Continues s t ∨ t.exit ≠ .notCalled := by
  cases step_outcome run with
  | caller awake puts takes => exact Or.inl (.of_workers rfl rfl rfl)
  | put run =>
      obtain rfl := congrArg Prod.fst run
      exact Or.inl (continues_putRequest _ _)
  | take inside here run =>
      obtain rfl := congrArg Prod.fst run
      exact Or.inl (continues_takeRequest _)
  | leave exiting => exact Or.inl (continues_setWorker (by simp [exiting]))
  | served inside here => exact Or.inl (continues_setWorker (by simp))
  | woken => exact Or.inl (continues_setWorker (by simp))
  | exit => exact Or.inr (by simp [Server.broadcastEmpty])
  | join called => exact Or.inr called

theorem Running.of_run {nrThreads : Nat} {maxRequests : Int} {labels : List Label}
    (run : Runs nrThreads maxRequests labels s) : Running s := by
  refine run.invariant Running ⟨Int.le_refl 0, fun _ => rfl, fun _ _ => by simp [serverInit]⟩ ?_
  intro t label u taken running
  have counter : 0 ≤ u.requestCounter := by
    have low := running.counter
    rcases step_cases taken with q | d | e
    · exact q.requestCounter ▸ low
    · have := d.some
      have := d.requestCounter
      omega
    · have := e.requestCounter
      omega
  rcases step_continues taken with same | called
  · refine ⟨counter, fun open' => ?_, fun open' w returned => ?_⟩
    · rw [same.exiting]
      exact running.exiting (same.exit ▸ open')
    · have before := same.exit ▸ open'
      exact running.workers before w (same.returned (running.exiting before) w returned)
  · exact ⟨counter, fun open' => absurd open' called, fun open' => absurd open' called⟩

end BeforeExit

section AfterExit

variable {s t : Server}

theorem takeRequest_some {w : Nat} (some : s.requestCounter ≠ 0) :
    ∃ connfn, (s.takeRequest w).1.worker w = .serving connfn ∧
      (s.takeRequest w).1.requestCounter = s.requestCounter - 1 ∧
      (s.takeRequest w).1.exiting = s.exiting ∧ (s.takeRequest w).1.exit = s.exit ∧
      (s.takeRequest w).1.nrThreads = s.nrThreads := by
  unfold Server.takeRequest
  rw [if_neg some]
  split_ifs <;> exact ⟨s.rq s.rqEnd, by simp [Server.setWorker], rfl, rfl, rfl, rfl⟩

/-- A worker outside the wait empties the buffer, request by request, and then waits. -/
theorem outside_reaches_stuck {w : Nat} (count : Nat) (size : s.requestCounter = count)
    (exiting : s.exiting = true) (alive : s.exit ≠ .returned) (inside : w < s.nrThreads)
    (here : s.worker w = .outside) : ∃ labels t, Run (Takes step) s labels t ∧ Stuck t := by
  induction count generalizing s with
  | zero =>
      have waits : Takes step s (.worker w, none) (s.setWorker w .waiting) := by
        have empty : s.takeRequest w = (s.setWorker w .waiting, none) := by
          simp [Server.takeRequest, size]
        simp only [Takes, step, if_neg alive, if_pos inside, Server.startThread, here, empty]
      refine ⟨_, _, Run.single waits, exiting, w, inside, ?_⟩
      simp [Server.setWorker]
  | succ count ih =>
      have some : s.requestCounter ≠ 0 := by omega
      obtain ⟨connfn, serving, fewer, exiting', exit', threads⟩ := takeRequest_some (w := w) some
      let served := (s.takeRequest w).1
      have takes : Takes step s (.worker w, (s.takeRequest w).2) served := by
        simp only [Takes, step, if_neg alive, if_pos inside, Server.startThread, here, served]
      have alive' : served.exit ≠ .returned := exit' ▸ alive
      have inside' : w < served.nrThreads := threads ▸ inside
      have returns : Takes step served (.worker w, none) (served.setWorker w .outside) := by
        have at' : served.worker w = .serving connfn := serving
        simp only [Takes, step, if_neg alive', if_pos inside', Server.startThread, at']
      have size' : (served.setWorker w .outside).requestCounter = count := by
        change (s.takeRequest w).1.requestCounter = count
        omega
      obtain ⟨labels, t, run, stuck⟩ := ih size' (exiting'.trans exiting) alive' inside' (by simp [Server.setWorker])
      exact ⟨_, t, ((Run.single takes).trans (Run.single returns)).trans run, stuck⟩

theorem active_reaches_stuck {w : Nat} (low : 0 ≤ s.requestCounter) (exiting : s.exiting = true)
    (alive : s.exit ≠ .returned) (inside : w < s.nrThreads)
    (here : s.worker w = .outside ∨ ∃ connfn, s.worker w = .serving connfn) :
    ∃ labels t, Run (Takes step) s labels t ∧ Stuck t := by
  rcases here with outside | ⟨connfn, serving⟩
  · exact outside_reaches_stuck s.requestCounter.toNat (by omega) exiting alive inside outside
  · have returns : Takes step s (.worker w, none) (s.setWorker w .outside) := by
      simp only [Takes, step, if_neg alive, if_pos inside, Server.startThread, serving]
    obtain ⟨labels, t, run, stuck⟩ := outside_reaches_stuck (s := s.setWorker w .outside) (w := w)
      s.requestCounter.toNat (Int.toNat_of_nonneg low).symm exiting alive inside (by simp [Server.setWorker])
    exact ⟨_, t, (Run.single returns).trans run, stuck⟩

structure Leaving (s : Server) : Prop where
  exiting : s.exiting = true
  workers : ∀ w < s.nrThreads, s.worker w = .notified ∨ s.worker w = .returned

theorem Leaving.setWorker (l : Leaving s) {w : Nat} {pc : Worker} (gone : pc = .notified ∨ pc = .returned) :
    Leaving (s.setWorker w pc) := by
  refine ⟨l.exiting, fun v inside => ?_⟩
  unfold Server.setWorker
  by_cases same : v = w
  · subst same
    simpa using gone
  · simpa [same] using l.workers v inside

theorem Leaving.of_same (l : Leaving s) (exiting : t.exiting = s.exiting) (threads : t.nrThreads = s.nrThreads)
    (workers : t.worker = s.worker) : Leaving t :=
  ⟨exiting.trans l.exiting, fun w inside => workers ▸ l.workers w (threads ▸ inside)⟩

theorem Leaving.broadcastEmpty (l : Leaving s) : Leaving s.broadcastEmpty := by
  refine ⟨l.exiting, fun w inside => ?_⟩
  have here := l.workers w inside
  unfold Server.broadcastEmpty
  simp only
  split_ifs
  · exact Or.inl rfl
  · exact here

theorem Leaving.putRequest (l : Leaving s) (c : Nat) (connfd : Fd) : Leaving (s.putRequest c connfd).1 := by
  unfold Server.putRequest
  simp only
  split_ifs
  · exact l.of_same rfl rfl rfl
  · exact l.broadcastEmpty.of_same rfl rfl rfl
  · exact l.of_same rfl rfl rfl

theorem Leaving.step {action : Action} {event : Option Event} (l : Leaving s)
    (run : step s action = .ok (t, event)) : Leaving t := by
  cases step_outcome run with
  | caller awake puts takes => exact l.of_same rfl rfl rfl
  | put run =>
      obtain rfl := congrArg Prod.fst run
      exact l.putRequest _ _
  | take inside here run =>
      -- a notified worker reads `exiting` first, and no other is left
      rcases l.workers _ inside with away | away
      · simp [away, l.exiting] at here
      · simp [away] at here
  | leave exiting => exact l.setWorker (Or.inr rfl)
  | served inside here =>
      rcases l.workers _ inside with away | away
      · simp [away] at here
      · simp [away] at here
  | woken => exact l.setWorker (Or.inl rfl)
  | exit =>
      have again : Leaving { s with exiting := true, exit := .joining 0 } := ⟨rfl, l.workers⟩
      exact again.broadcastEmpty
  | join called => exact l.of_same rfl rfl rfl

end AfterExit

section Results

variable {nrThreads : Nat} {maxRequests : Int} {labels : List Label} {s t : Server} {event : Option Event}

/-- `server_exit` reaches every worker, whatever happens after it, exactly when it finds all of them
in the wait. -/
theorem exit_reaches_workers_iff (run : Runs nrThreads maxRequests labels s)
    (exit : step s .exit = .ok (t, event)) :
    (∀ more u, Run (Takes step) t more u → ¬ Stuck u) ↔ Parked s := by
  have running := Running.of_run run
  unfold step at exit
  split_ifs at exit with freed
  simp only [Server.serverExit] at exit
  split at exit
  swap
  · cases exit
  rename_i open'
  obtain ⟨rfl, -⟩ := Prod.mk.inj (Except.ok.inj exit)
  constructor
  · intro never w inside
    by_contra active
    rw [not_or] at active
    have here : s.worker w = .outside ∨ ∃ connfn, s.worker w = .serving connfn := by
      have alive := running.workers open' w
      cases pc : s.worker w with
      | outside => exact Or.inl rfl
      | serving connfn => exact Or.inr ⟨connfn, rfl⟩
      | waiting => exact absurd pc active.1
      | notified => exact absurd pc active.2
      | returned => exact absurd pc alive
    have kept : ({ s with exiting := true, exit := .joining 0 } : Server).broadcastEmpty.worker w = s.worker w :=
      if_neg active.1
    obtain ⟨more, u, taken, stuck⟩ := active_reaches_stuck
      (s := ({ s with exiting := true, exit := .joining 0 } : Server).broadcastEmpty) (w := w)
      running.counter rfl (by simp [Server.broadcastEmpty]) inside (by rw [kept]; exact here)
    exact never more u taken stuck
  · intro parked more u taken
    have leaving : Leaving ({ s with exiting := true, exit := .joining 0 } : Server).broadcastEmpty := by
      refine ⟨rfl, fun w inside => Or.inl ?_⟩
      unfold Server.broadcastEmpty
      simp only
      split_ifs with waiting
      · rfl
      · exact (parked w inside).resolve_left waiting
    have after : Leaving u := taken.invariant Leaving leaving fun _ _ _ step' l => l.step step'
    rintro ⟨-, w, inside, waiting⟩
    rcases after.workers w inside with here | here
    · rw [here] at waiting
      cases waiting
    · rw [here] at waiting
      cases waiting

theorem exit_reaches_parked_worker :
    ∃ labels s t event, Runs 1 1 labels s ∧ step s .exit = .ok (t, event) ∧
      ∀ more u, Run (Takes step) t more u → ¬ Stuck u := by
  have run := Run.of_execute step (serverInit 1 1) [.worker 0] (by decide)
  refine ⟨_, _, _, none, run, rfl, (exit_reaches_workers_iff run rfl).mpr ?_⟩
  intro w inside
  obtain rfl : w = 0 := Nat.lt_one_iff.mp inside
  exact Or.inl rfl

def busyAtExit : List Action :=
  [.call 0 10, .caller 0, .worker 0, .exit, .worker 0, .worker 0]

theorem exit_misses_busy_worker : ¬ ∀ nrThreads maxRequests labels s,
    0 < nrThreads → 0 < maxRequests → Runs nrThreads maxRequests labels s → ¬ Stuck s := by
  intro never
  have run := Run.of_execute step (serverInit 1 1) busyAtExit (by decide)
  exact never 1 1 _ _ (by decide) (by decide) run ⟨rfl, 0, by decide, rfl⟩

end Results

end OperatingSystem.Webserver
