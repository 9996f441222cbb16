import OperatingSystem.Webserver.Server

namespace OperatingSystem.Webserver

open Ring

def Event.puts : Event → Option Fd
  | .put connfd => some connfd
  | _ => none

def Event.takes : Event → Option Fd
  | .took _ connfn => some connfn
  | _ => none

def accepted (labels : List Label) : List Fd := labels.filterMap fun label => label.2.bind Event.puts

def takenOut (labels : List Label) : List Fd := labels.filterMap fun label => label.2.bind Event.takes

def Caller.Waits (pc : Caller) : Prop := ∃ connfd, pc = .waiting connfd

structure Quiet (s : Server) (event : Option Event) (t : Server) : Prop where
  puts : event.bind Event.puts = none
  takes : event.bind Event.takes = none
  rq : t.rq = s.rq
  rqStart : t.rqStart = s.rqStart
  rqEnd : t.rqEnd = s.rqEnd
  requestCounter : t.requestCounter = s.requestCounter
  maxRequests : t.maxRequests = s.maxRequests
  workers : ∀ w, t.worker w = .waiting → s.worker w = .waiting ∨ s.requestCounter = 0
  callers : ∀ c, (t.caller c).Waits → (s.caller c).Waits ∨ s.requestCounter = s.maxRequests

/-- A worker takes the first pending request; when the buffer was full no caller still waits. -/
structure Dequeues (s : Server) (event : Option Event) (t : Server) : Prop where
  some : s.requestCounter ≠ 0
  puts : event.bind Event.puts = none
  takes : event.bind Event.takes = .some (s.rq s.rqEnd)
  rq : t.rq = s.rq
  rqStart : t.rqStart = s.rqStart
  rqEnd : t.rqEnd = (s.rqEnd + 1) % s.maxRequests
  requestCounter : t.requestCounter = s.requestCounter - 1
  maxRequests : t.maxRequests = s.maxRequests
  workers : ∀ w, t.worker w = .waiting → s.worker w = .waiting
  callers : ∀ c, (t.caller c).Waits → (s.caller c).Waits ∧ s.requestCounter ≠ s.maxRequests

structure Enqueues (s : Server) (event : Option Event) (t : Server) : Prop where
  room : s.requestCounter ≠ s.maxRequests
  takes : event.bind Event.takes = none
  stored : ∃ connfd, event.bind Event.puts = some connfd ∧ t.rq = Function.update s.rq s.rqStart connfd
  rqStart : t.rqStart = (s.rqStart + 1) % s.maxRequests
  rqEnd : t.rqEnd = s.rqEnd
  requestCounter : t.requestCounter = s.requestCounter + 1
  maxRequests : t.maxRequests = s.maxRequests
  workers : ∀ w, t.worker w = .waiting → s.worker w = .waiting ∧ s.requestCounter ≠ 0
  callers : ∀ c, (t.caller c).Waits → (s.caller c).Waits

section Waiting

variable (s : Server)

theorem broadcastEmpty_worker (w : Nat) : s.broadcastEmpty.worker w ≠ .waiting := by
  unfold Server.broadcastEmpty
  simp only
  split_ifs with waiting
  · simp
  · exact waiting

theorem broadcastFull_caller (c : Nat) : ¬ (s.broadcastFull.caller c).Waits := by
  rintro ⟨connfd, waiting⟩
  unfold Server.broadcastFull at waiting
  simp only at waiting
  split at waiting
  · cases waiting
  · rename_i other
    exact other connfd waiting

variable {s}

theorem setWorker_waiting {w v : Nat} {pc : Worker} (awake : pc ≠ .waiting)
    (waiting : (s.setWorker w pc).worker v = .waiting) : s.worker v = .waiting := by
  unfold Server.setWorker at waiting
  by_cases same : v = w
  · subst same
    simp only [Function.update_self] at waiting
    exact absurd waiting awake
  · simpa [same] using waiting

theorem setCaller_waiting {c d : Nat} {pc : Caller} (awake : ¬ pc.Waits)
    (waiting : ((s.setCaller c pc).caller d).Waits) : (s.caller d).Waits := by
  unfold Server.setCaller at waiting
  by_cases same : d = c
  · subst same
    simp only [Function.update_self] at waiting
    exact absurd waiting awake
  · simpa [same] using waiting

end Waiting

section Steps

variable {s t : Server} {event : Option Event}

theorem quiet_setWorker {w : Nat} {pc : Worker} (awake : pc ≠ .waiting) : Quiet s none (s.setWorker w pc) where
  puts := rfl
  takes := rfl
  rq := rfl
  rqStart := rfl
  rqEnd := rfl
  requestCounter := rfl
  maxRequests := rfl
  workers _ waiting := Or.inl (setWorker_waiting awake waiting)
  callers _ waiting := Or.inl waiting

theorem quiet_setCaller {c : Nat} {pc : Caller} (awake : ¬ pc.Waits) (puts : event.bind Event.puts = none)
    (takes : event.bind Event.takes = none) : Quiet s event (s.setCaller c pc) where
  puts := puts
  takes := takes
  rq := rfl
  rqStart := rfl
  rqEnd := rfl
  requestCounter := rfl
  maxRequests := rfl
  workers _ waiting := Or.inl waiting
  callers _ waiting := Or.inl (setCaller_waiting awake waiting)

theorem takeRequest_cases (w : Nat) (run : s.takeRequest w = (t, event)) :
    Quiet s event t ∨ Dequeues s event t := by
  unfold Server.takeRequest at run
  split_ifs at run with empty full
  · obtain ⟨rfl, rfl⟩ := Prod.mk.inj run
    exact Or.inl ⟨rfl, rfl, rfl, rfl, rfl, rfl, rfl, fun _ _ => Or.inr empty, fun _ => Or.inl⟩
  · obtain ⟨rfl, rfl⟩ := Prod.mk.inj run
    refine Or.inr ⟨empty, rfl, rfl, rfl, rfl, rfl, rfl, rfl, fun v waiting => ?_, fun c waiting => ?_⟩
    · exact setWorker_waiting (s := s) (by simp) waiting
    · exact absurd waiting (broadcastFull_caller s c)
  · obtain ⟨rfl, rfl⟩ := Prod.mk.inj run
    refine Or.inr ⟨empty, rfl, rfl, rfl, rfl, rfl, rfl, rfl, fun v waiting => ?_, fun c waiting => ⟨waiting, full⟩⟩
    exact setWorker_waiting (s := s) (by simp) waiting

theorem putRequest_cases (c : Nat) (connfd : Fd) (run : s.putRequest c connfd = (t, event)) :
    Quiet s event t ∨ Enqueues s event t := by
  have gone : ¬ Caller.outside.Waits := fun ⟨_, h⟩ => by cases h
  unfold Server.putRequest at run
  simp only at run
  split_ifs at run with full empty
  · obtain ⟨rfl, rfl⟩ := Prod.mk.inj run
    exact Or.inl ⟨rfl, rfl, rfl, rfl, rfl, rfl, rfl, fun _ => Or.inl, fun _ _ => Or.inr full⟩
  · obtain ⟨rfl, rfl⟩ := Prod.mk.inj run
    refine Or.inr ⟨full, rfl, ⟨connfd, rfl, rfl⟩, rfl, rfl, rfl, rfl, fun w waiting => ?_, fun d waiting => ?_⟩
    · exact absurd waiting (broadcastEmpty_worker _ w)
    · exact setCaller_waiting (s := s) gone waiting
  · obtain ⟨rfl, rfl⟩ := Prod.mk.inj run
    refine Or.inr ⟨full, rfl, ⟨connfd, rfl, rfl⟩, rfl, rfl, rfl, rfl, fun w waiting => ⟨waiting, empty⟩,
      fun d waiting => ?_⟩
    exact setCaller_waiting (s := s) gone waiting

inductive Outcome (s : Server) : Server → Option Event → Prop
  | caller {c : Nat} {pc : Caller} {event : Option Event} (awake : ¬ pc.Waits)
      (puts : event.bind Event.puts = none) (takes : event.bind Event.takes = none) :
      Outcome s (s.setCaller c pc) event
  | put {c : Nat} {connfd : Fd} {t : Server} {event : Option Event}
      (run : s.putRequest c connfd = (t, event)) : Outcome s t event
  | take {w : Nat} {t : Server} {event : Option Event} (inside : w < s.nrThreads)
      (here : s.worker w = .outside ∨ s.worker w = .notified ∧ s.exiting = false)
      (run : s.takeRequest w = (t, event)) : Outcome s t event
  | leave {w : Nat} (exiting : s.exiting = true) : Outcome s (s.setWorker w .returned) none
  | served {w : Nat} {connfn : Fd} (inside : w < s.nrThreads) (here : s.worker w = .serving connfn) :
      Outcome s (s.setWorker w .outside) none
  | woken {w : Nat} : Outcome s (s.setWorker w .notified) none
  | exit : Outcome s { s with exiting := true, exit := .joining 0 }.broadcastEmpty none
  | join {exit : Exit} (called : exit ≠ .notCalled) : Outcome s { s with exit } none

theorem step_outcome {action : Action} (run : step s action = .ok (t, event)) : Outcome s t event := by
  have awake : ∀ connfd, ¬ (Caller.entering connfd).Waits ∧ ¬ (Caller.serving connfd).Waits ∧
      ¬ (Caller.notified connfd).Waits := by
    intro connfd
    refine ⟨?_, ?_, ?_⟩ <;> rintro ⟨_, same⟩ <;> cases same
  have gone : ¬ Caller.outside.Waits := fun ⟨_, h⟩ => by cases h
  unfold step at run
  split_ifs at run
  cases action with
  | call c connfd =>
      simp only at run
      split_ifs at run
      obtain ⟨rfl, rfl⟩ := Prod.mk.inj (Except.ok.inj run)
      exact .caller (awake connfd).1 rfl rfl
  | caller c =>
      simp only [Server.serverRequest] at run
      split at run
      · split_ifs at run
        · obtain ⟨rfl, rfl⟩ := Prod.mk.inj (Except.ok.inj run)
          exact .caller (awake _).2.1 rfl rfl
        · exact .put (Except.ok.inj run)
      · split_ifs at run
        · obtain ⟨rfl, rfl⟩ := Prod.mk.inj (Except.ok.inj run)
          exact .caller gone rfl rfl
        · exact .put (Except.ok.inj run)
      · obtain ⟨rfl, rfl⟩ := Prod.mk.inj (Except.ok.inj run)
        exact .caller gone rfl rfl
      all_goals cases run
  | worker w =>
      simp only at run
      by_cases inside : w < s.nrThreads
      swap
      · rw [if_neg inside] at run
        cases run
      rw [if_pos inside, Server.startThread] at run
      split at run
      · rename_i here
        exact .take inside (Or.inl here) (Except.ok.inj run)
      · rename_i here
        split_ifs at run with exiting
        · obtain ⟨rfl, rfl⟩ := Prod.mk.inj (Except.ok.inj run)
          exact .leave exiting
        · exact .take inside (Or.inr ⟨here, by simpa using exiting⟩) (Except.ok.inj run)
      · rename_i connfn here
        obtain ⟨rfl, rfl⟩ := Prod.mk.inj (Except.ok.inj run)
        exact .served inside here
      all_goals cases run
  | wakeCaller c =>
      simp only at run
      split at run
      · obtain ⟨rfl, rfl⟩ := Prod.mk.inj (Except.ok.inj run)
        exact .caller (awake _).2.2 rfl rfl
      · cases run
  | wakeWorker w =>
      simp only at run
      split_ifs at run
      obtain ⟨rfl, rfl⟩ := Prod.mk.inj (Except.ok.inj run)
      exact .woken
  | exit =>
      simp only [Server.serverExit] at run
      split at run
      · obtain ⟨rfl, rfl⟩ := Prod.mk.inj (Except.ok.inj run)
        exact .exit
      · cases run
  | join =>
      simp only [Server.serverJoin] at run
      split at run
      · split_ifs at run
        all_goals
          obtain ⟨rfl, rfl⟩ := Prod.mk.inj (Except.ok.inj run)
          exact .join (by simp)
      · cases run

theorem step_cases {action : Action} (run : step s action = .ok (t, event)) :
    Quiet s event t ∨ Dequeues s event t ∨ Enqueues s event t := by
  cases step_outcome run with
  | caller awake puts takes => exact Or.inl (quiet_setCaller awake puts takes)
  | put run => exact (putRequest_cases _ _ run).imp_right Or.inr
  | take inside here run => exact (takeRequest_cases _ run).imp_right Or.inl
  | leave exiting => exact Or.inl (quiet_setWorker (by simp))
  | served inside here => exact Or.inl (quiet_setWorker (by simp))
  | woken => exact Or.inl (quiet_setWorker (by simp))
  | exit =>
      exact Or.inl ⟨rfl, rfl, rfl, rfl, rfl, rfl, rfl, fun w waiting => absurd waiting (broadcastEmpty_worker _ w),
        fun _ => Or.inl⟩
  | join called => exact Or.inl ⟨rfl, rfl, rfl, rfl, rfl, rfl, rfl, fun _ => Or.inl, fun _ => Or.inl⟩

end Steps

def Server.pending (s : Server) : List Fd := window s.rq s.maxRequests s.rqEnd s.requestCounter.toNat

structure Buffered (slots : Int) (labels : List Label) (s : Server) : Prop where
  size : s.maxRequests = slots
  low : 0 ≤ s.requestCounter
  high : s.requestCounter ≤ slots
  rqStart : s.rqStart = (s.rqEnd + s.requestCounter) % slots
  rqEnd : 0 ≤ s.rqEnd ∧ s.rqEnd < slots
  order : accepted labels = takenOut labels ++ s.pending
  workers : 0 < s.requestCounter → ∀ w, s.worker w ≠ .waiting
  callers : s.requestCounter < slots → ∀ c, ¬ (s.caller c).Waits

namespace Buffered

variable {maxRequests : Int} {labels : List Label} {s t : Server} {label : Label}

theorem accepted_snoc : accepted (labels ++ [label]) = accepted labels ++ (label.2.bind Event.puts).toList := by
  unfold accepted
  rw [List.filterMap_append]
  cases h : label.2.bind Event.puts <;> simp [h]

theorem takenOut_snoc : takenOut (labels ++ [label]) = takenOut labels ++ (label.2.bind Event.takes).toList := by
  unfold takenOut
  rw [List.filterMap_append]
  cases h : label.2.bind Event.takes <;> simp [h]

theorem quiet (b : Buffered maxRequests labels s) (q : Quiet s label.2 t) :
    Buffered maxRequests (labels ++ [label]) t where
  size := q.maxRequests.trans b.size
  low := q.requestCounter ▸ b.low
  high := q.requestCounter ▸ b.high
  rqStart := by rw [q.rqStart, q.rqEnd, q.requestCounter, b.rqStart]
  rqEnd := q.rqEnd ▸ b.rqEnd
  order := by
    have same : t.pending = s.pending := by
      unfold Server.pending
      rw [q.rq, q.maxRequests, q.rqEnd, q.requestCounter]
    rw [accepted_snoc, takenOut_snoc, q.puts, q.takes, same, b.order]
    simp
  workers some w waiting := by
    rw [q.requestCounter] at some
    rcases q.workers w waiting with before | empty
    · exact b.workers some w before
    · omega
  callers room c waiting := by
    rw [q.requestCounter] at room
    rcases q.callers c waiting with before | full
    · exact b.callers room c before
    · have := b.size
      omega

theorem dequeues (b : Buffered maxRequests labels s) (d : Dequeues s label.2 t) :
    Buffered maxRequests (labels ++ [label]) t := by
  have low := b.low
  have some := d.some
  have bounds := b.rqEnd
  have size := b.size
  have counter := d.requestCounter
  refine ⟨d.maxRequests.trans size, by omega, ?_, ?_, ?_, ?_, fun _ w waiting => ?_, fun _ c waiting => ?_⟩
  · have := b.high
    omega
  · rw [d.rqStart, d.rqEnd, counter, size, b.rqStart, Int.emod_add_emod]
    congr 1
    omega
  · rw [d.rqEnd, size]
    exact ⟨Int.emod_nonneg _ (by omega), Int.emod_lt_of_pos _ (by omega)⟩
  · obtain ⟨count, eq⟩ : ∃ count : Nat, s.requestCounter.toNat = count + 1 :=
      ⟨s.requestCounter.toNat - 1, by omega⟩
    have head : s.pending = s.rq s.rqEnd :: t.pending := by
      unfold Server.pending
      have fewer : t.requestCounter.toNat = count := by omega
      rw [eq, window_pop, d.rq, d.maxRequests, d.rqEnd, fewer, size, Int.emod_eq_of_lt bounds.1 bounds.2]
    rw [accepted_snoc, takenOut_snoc, d.puts, d.takes, b.order, head]
    simp
  · exact b.workers (by omega) w (d.workers w waiting)
  · obtain ⟨before, notFull⟩ := d.callers c waiting
    have := b.high
    exact b.callers (by omega) c before

theorem enqueues (b : Buffered maxRequests labels s) (e : Enqueues s label.2 t) :
    Buffered maxRequests (labels ++ [label]) t := by
  have low := b.low
  have high := b.high
  have room := e.room
  have size := b.size
  have counter := e.requestCounter
  refine ⟨e.maxRequests.trans size, by omega, by omega, ?_, ?_, ?_, fun _ w waiting => ?_, fun _ c waiting => ?_⟩
  · rw [e.rqStart, e.rqEnd, counter, size, b.rqStart, Int.emod_add_emod]
    congr 1
    omega
  · rw [e.rqEnd]
    exact b.rqEnd
  · obtain ⟨connfd, puts, stored⟩ := e.stored
    have last : t.pending = s.pending ++ [connfd] := by
      unfold Server.pending
      have more : t.requestCounter.toNat = s.requestCounter.toNat + 1 := by omega
      have back : s.rqStart = (s.rqEnd + (s.requestCounter.toNat : Int)) % s.maxRequests := by
        rw [b.rqStart, size, Int.toNat_of_nonneg low]
      rw [more, e.rqEnd, e.maxRequests, stored, back]
      exact window_push connfd (by omega)
    rw [accepted_snoc, takenOut_snoc, puts, e.takes, b.order, last]
    simp
  · obtain ⟨before, nonempty⟩ := e.workers w waiting
    exact b.workers (by omega) w before
  · exact b.callers (by omega) c (e.callers c waiting)

theorem init {nrThreads : Nat} (positive : 0 < maxRequests) :
    Buffered maxRequests [] (serverInit nrThreads maxRequests) where
  size := rfl
  low := Int.le_refl 0
  high := Int.le_of_lt positive
  rqStart := by simp [serverInit]
  rqEnd := ⟨Int.le_refl 0, positive⟩
  order := rfl
  workers some := absurd some (by simp [serverInit])
  callers _ c := by
    rintro ⟨connfd, waiting⟩
    cases waiting

theorem of_run {nrThreads : Nat} (positive : 0 < maxRequests) (run : Runs nrThreads maxRequests labels s) :
    Buffered maxRequests labels s := by
  refine run.history (Buffered maxRequests) (init positive) ?_
  intro labels t label u b taken
  rcases step_cases taken with q | d | e
  · exact b.quiet q
  · exact b.dequeues d
  · exact b.enqueues e

end Buffered

section Results

variable {nrThreads : Nat} {maxRequests : Int} {labels : List Label} {s : Server}

/-- The descriptors taken out, followed by the pending ones, are the descriptors put in. -/
theorem served_in_order (positive : 0 < maxRequests) (run : Runs nrThreads maxRequests labels s) :
    0 ≤ s.requestCounter ∧ s.requestCounter ≤ maxRequests ∧
    s.rqStart = (s.rqEnd + s.requestCounter) % maxRequests ∧
    accepted labels = takenOut labels ++ s.pending ∧ takenOut labels <+: accepted labels := by
  have b := Buffered.of_run positive run
  exact ⟨b.low, b.high, b.rqStart, b.order, s.pending, b.order.symm⟩

def wrapAround : List Action :=
  [.worker 0, .call 0 10, .caller 0, .worker 0, .call 0 11, .caller 0, .worker 1, .call 1 12, .caller 1]

theorem served_in_order_wrapped :
    ∃ labels s, Runs 2 2 labels s ∧ accepted labels = [10, 11, 12] ∧ takenOut labels = [10, 11] ∧
      s.pending = [12] ∧ s.rqStart = (s.rqEnd + s.requestCounter) % 2 := by
  have run := Transition.Run.of_execute step (serverInit 2 2) wrapAround (by decide)
  exact ⟨_, _, run, by decide, by decide, by decide, (served_in_order (by decide) run).2.2.1⟩

/-- Nobody waits un-notified for what is already the case. -/
theorem no_lost_wakeup (positive : 0 < maxRequests) (run : Runs nrThreads maxRequests labels s) :
    (0 < s.requestCounter → ∀ w, s.worker w ≠ .waiting) ∧
    (s.requestCounter < maxRequests → ∀ c connfd, s.caller c ≠ .waiting connfd) := by
  have b := Buffered.of_run positive run
  refine ⟨b.workers, ?_⟩
  intro room c connfd waiting
  exact b.callers room c ⟨connfd, waiting⟩

theorem no_lost_wakeup_notified :
    ∃ labels s, Runs 2 1 labels s ∧ 0 < s.requestCounter ∧ s.worker 0 = .notified ∧
      (∀ w, s.worker w ≠ .waiting) := by
  have run := Transition.Run.of_execute step (serverInit 2 1)
    [.worker 0, .worker 1, .call 0 10, .call 1 11, .caller 0, .caller 1] (by decide)
  exact ⟨_, _, run, by decide, by decide, (no_lost_wakeup (by decide) run).1 (by decide)⟩

end Results

end OperatingSystem.Webserver
