import OperatingSystem.Webserver.Advances

namespace OperatingSystem.Webserver

def Place.answered : Place → Bool
  | .releasing _ => true
  | .done => true
  | _ => false

def usedBy : Option CacheEvent → Option Nat
  | some (.used e) => some e
  | _ => none

def usesOf (labels : List (CacheAction × Option CacheEvent)) : List Nat := labels.filterMap fun label => usedBy label.2

def nameOf : CacheAction → Option Name
  | .start name => some name
  | .run _ => none

def namesOf (labels : List (CacheAction × Option CacheEvent)) : List Name := labels.filterMap fun label => nameOf label.1

def responseBy (r : Nat) : CacheAction × Option CacheEvent → Option Response
  | (.run r', some (.responded _ response)) => if r' = r then some response else none
  | _ => none

def responsesTo (r : Nat) (labels : List (CacheAction × Option CacheEvent)) : List Response :=
  labels.filterMap (responseBy r)

def idle (uses : List Nat) (e : Nat) : Nat := uses.reverse.idxOf e

structure OrderedByUse (uses : List Nat) (c : Cache) (lru : List Nat) : Prop where
  used : ∀ n ∈ lru, ∀ e, c.entryAt n = some e → e ∈ uses
  order : lru.Pairwise fun n m => ∀ e f, c.entryAt n = some e → c.entryAt m = some f → idle uses f < idle uses e

section Responses

variable {files : Files} {s t : Serving} {r data : Nat} {q : Request} {event : Option CacheEvent}

def Responds (q : Request) (p : Place) : Option CacheEvent → Prop
  | some (.responded name _) => name = q.name ∧ q.place.answered = false ∧ p.answered = true
  | _ => q.place.answered = p.answered

theorem readSection_cases {next : Nat → Place} (run : s.readSection files r q data next = .ok (t, event))
    (before : q.place.answered = false) (after : (next data).answered = false) :
    ∃ p, t.requests = s.requests.set r { q with place := p } ∧ Responds q p event := by
  obtain ⟨file, -, run⟩ := Result.bind_eq_ok.mp run
  split at run
  · obtain ⟨rfl, rfl⟩ := Prod.mk.inj (Except.ok.inj run)
    exact ⟨.done, rfl, rfl, before, rfl⟩
  · obtain ⟨datas, -, run⟩ := Result.bind_eq_ok.mp run
    obtain ⟨rfl, rfl⟩ := Prod.mk.inj (Except.ok.inj run)
    exact ⟨next data, rfl, before.trans after.symm⟩

theorem firstSection_cases (run : s.firstSection r q data = .ok (t, event)) (before : q.place.answered = false) :
    ∃ p, t.requests = s.requests.set r { q with place := p } ∧ Responds q p event := by
  obtain ⟨found, -, run⟩ := Result.bind_eq_ok.mp run
  cases found with
  | none =>
      obtain ⟨rfl, rfl⟩ := Prod.mk.inj (Except.ok.inj run)
      exact ⟨_, rfl, before⟩
  | some check =>
      obtain ⟨⟨c, d⟩, -, run⟩ := Result.bind_eq_ok.mp run
      obtain ⟨rfl, rfl⟩ := Prod.mk.inj (Except.ok.inj run)
      exact ⟨_, rfl, before⟩

theorem secondSection_cases (run : s.secondSection r q data = .ok (t, event)) (before : q.place.answered = false) :
    ∃ p, t.requests = s.requests.set r { q with place := p } ∧ Responds q p event := by
  obtain ⟨found, -, run⟩ := Result.bind_eq_ok.mp run
  cases found with
  | some check =>
      obtain ⟨file, -, run⟩ := Result.bind_eq_ok.mp run
      obtain ⟨⟨c, d⟩, -, run⟩ := Result.bind_eq_ok.mp run
      obtain ⟨rfl, rfl⟩ := Prod.mk.inj (Except.ok.inj run)
      exact ⟨_, rfl, before⟩
  | none =>
      obtain ⟨stored, -, run⟩ := Result.bind_eq_ok.mp run
      cases stored with
      | none =>
          obtain ⟨rfl, rfl⟩ := Prod.mk.inj (Except.ok.inj run)
          exact ⟨_, rfl, before⟩
      | some pair =>
          obtain ⟨⟨c, d⟩, -, run⟩ := Result.bind_eq_ok.mp run
          obtain ⟨rfl, rfl⟩ := Prod.mk.inj (Except.ok.inj run)
          exact ⟨_, rfl, before⟩

theorem send_cases {c : Cache} {p : Place} (run : (do
      let event ← s.send q data
      return (s.setPlace r q p c, some event)) = (.ok (t, event) : Except Fault (Serving × Option CacheEvent)))
    (before : q.place.answered = false) (after : p.answered = true) :
    t.requests = s.requests.set r { q with place := p } ∧ Responds q p event := by
  obtain ⟨sent, send, run⟩ := Result.bind_eq_ok.mp run
  obtain ⟨file, -, send⟩ := Result.bind_eq_ok.mp send
  obtain ⟨rfl, rfl⟩ := Prod.mk.inj (Except.ok.inj run)
  obtain rfl := Except.ok.inj send
  exact ⟨rfl, rfl, before, after⟩

theorem run_cases (run : s.step files (.run r) = .ok (t, event)) :
    ∃ q, s.requests[r]? = some q ∧ q.place ≠ .done ∧
      ∃ p, t.requests = s.requests.set r { q with place := p } ∧ Responds q p event := by
  cases here : s.requests[r]? with
  | none =>
      simp only [Serving.step, here] at run
      cases run
  | some q =>
      simp only [Serving.step, here, Serving.runRequest] at run
      cases place : q.place with
      | looking data =>
          have before : q.place.answered = false := by rw [place]; rfl
          rw [place] at run
          refine ⟨q, rfl, by simp [place], ?_⟩
          dsimp only at run
          split_ifs at run
          · exact firstSection_cases run before
          · exact readSection_cases run before rfl
      | reading data =>
          have before : q.place.answered = false := by rw [place]; rfl
          rw [place] at run
          exact ⟨q, rfl, by simp [place], readSection_cases run before rfl⟩
      | inserting data =>
          have before : q.place.answered = false := by rw [place]; rfl
          rw [place] at run
          exact ⟨q, rfl, by simp [place], secondSection_cases run before⟩
      | sending check data =>
          have before : q.place.answered = false := by rw [place]; rfl
          rw [place] at run
          exact ⟨q, rfl, by simp [place], .releasing check, send_cases run before rfl⟩
      | sendingOwn data =>
          have before : q.place.answered = false := by rw [place]; rfl
          rw [place] at run
          exact ⟨q, rfl, by simp [place], .done, send_cases run before rfl⟩
      | releasing check =>
          have before : q.place.answered = true := by rw [place]; rfl
          rw [place] at run
          obtain ⟨elements, -, run⟩ := Result.bind_eq_ok.mp run
          obtain ⟨rfl, rfl⟩ := Prod.mk.inj (Except.ok.inj run)
          exact ⟨q, rfl, by simp [place], .done, rfl, before⟩
      | done =>
          rw [place] at run
          cases run

end Responses

section Runs

variable {files : Files} {s t : Serving} {c c' : Cache} {lru lru' uses : List Nat} {chain : Int → List Nat}
  {maxCacheSize : Int} {labels : List (CacheAction × Option CacheEvent)} {action : CacheAction} {event : Option CacheEvent}

theorem idle_use (uses : List Nat) (e f : Nat) : idle (uses ++ [e]) f = if f = e then 0 else idle uses f + 1 := by
  rw [idle, List.reverse_append]
  by_cases same : f = e
  · subst same
    simp
  · rw [if_neg same]
    exact List.idxOf_cons_ne _ (Ne.symm same)

theorem OrderedByUse.step (ordered : OrderedByUse uses c lru) (moved : Moved c c' lru lru' event)
    (coherent : Coherent files c' lru' chain) : OrderedByUse (uses ++ (usedBy event).toList) c' lru' := by
  have still : ∀ {event}, usedBy event = none → lru' = lru ∧ c'.nodes = c.nodes →
      OrderedByUse (uses ++ (usedBy event).toList) c' lru' := by
    rintro event unused ⟨rfl, nodes⟩
    have entries : ∀ n, c'.entryAt n = c.entryAt n := fun n => by rw [Cache.entryAt, nodes, Cache.entryAt]
    rw [unused, Option.toList_none, List.append_nil]
    refine ⟨fun n member e entry => ordered.used n member e (entries n ▸ entry), ?_⟩
    simpa only [entries] using ordered.order
  cases event with
  | none => exact still rfl moved
  | some event =>
      cases event with
      | responded name response => exact still rfl moved
      | used e =>
          obtain ⟨rest, n, rfl, sublist, same, last⟩ := moved
          have other : ∀ m ∈ rest, ∀ f, c'.entryAt m = some f → f ≠ e := by
            rintro m member f entry rfl
            obtain rfl := coherent.entries.entryAt_inj entry last
            exact (List.nodup_append.mp coherent.recency.linked.nodup).2.2 m member m (List.mem_singleton_self m) rfl
          refine ⟨fun m member f entry => ?_, List.pairwise_append.mpr ⟨?_, List.pairwise_singleton _ _, ?_⟩⟩
          · rcases List.mem_append.mp member with old | new
            · exact List.mem_append_left _ (ordered.used m (sublist.subset old) f (same m old ▸ entry))
            · rw [List.mem_singleton.mp new, last] at entry
              exact List.mem_append_right uses (Option.some.inj entry ▸ List.mem_singleton_self e)
          · refine (ordered.order.sublist sublist).imp_of_mem fun {m m'} member member' before f g entry entry' => ?_
            change idle (uses ++ [e]) g < idle (uses ++ [e]) f
            rw [idle_use, idle_use, if_neg (other m member f entry), if_neg (other m' member' g entry')]
            exact Nat.succ_lt_succ (before f g (same m member ▸ entry) (same m' member' ▸ entry'))
          · intro m member m' last' f g entry entry'
            rw [List.mem_singleton.mp last', last] at entry'
            obtain rfl := Option.some.inj entry'
            change idle (uses ++ [e]) e < idle (uses ++ [e]) f
            rw [idle_use, idle_use, if_pos rfl, if_neg (other m member f entry)]
            exact Nat.succ_pos _

def responsesDue (files : Files) : Option Request → List Response
  | some q => if q.place.answered then [uncachedResponse files q.name] else []
  | none => []

structure Sound (files : Files) (maxCacheSize : Int) (labels : List (CacheAction × Option CacheEvent)) (s : Serving) :
    Prop where
  accounted : Accounted files s.cache s.requests
  size : s.cache.maxCacheSize = maxCacheSize
  listed : ∃ lru chain, Coherent files s.cache lru chain ∧ OrderedByUse (usesOf labels) s.cache lru
  named : s.requests.map Request.name = namesOf labels
  answers : ∀ r, responsesTo r labels = responsesDue files s.requests[r]?

theorem Sound.advances (sound : Sound files maxCacheSize labels s) (run : s.step files action = .ok (t, event)) :
    ∃ lru, OrderedByUse (usesOf labels) s.cache lru ∧ Advances files s t lru event := by
  obtain ⟨lru, chain, coherent, ordered⟩ := sound.listed
  cases action with
  | start name => exact ⟨lru, ordered, coherent.start sound.accounted run⟩
  | run r =>
      obtain ⟨q, here, busy, -⟩ := run_cases run
      have ready : Ready files s lru chain r q := ⟨coherent, sound.accounted, here⟩
      obtain ⟨t', event', again, advances⟩ := ready.run busy
      rw [run] at again
      obtain ⟨rfl, rfl⟩ := Prod.mk.inj (Except.ok.inj again)
      exact ⟨lru, ordered, advances⟩

theorem namesOf_step (run : s.step files action = .ok (t, event)) (named : s.requests.map Request.name = namesOf labels) :
    t.requests.map Request.name = namesOf (labels ++ [(action, event)]) := by
  cases action with
  | start name =>
      obtain ⟨rfl, rfl⟩ := Prod.mk.inj (Except.ok.inj run)
      rw [namesOf, List.filterMap_append, ← namesOf, ← named, List.map_append]
      rfl
  | run r =>
      obtain ⟨q, here, -, p, requests, -⟩ := run_cases run
      have kept : namesOf (labels ++ [(.run r, event)]) = namesOf labels := by simp [namesOf, nameOf]
      obtain ⟨inside, self⟩ := List.getElem?_eq_some_iff.mp here
      have bound : r < (s.requests.map Request.name).length := by simpa using inside
      have same : q.name = (s.requests.map Request.name)[r] := by rw [List.getElem_map, self]
      rw [kept, ← named, requests, List.map_set]
      change (s.requests.map Request.name).set r q.name = _
      rw [same, List.set_getElem_self]

theorem responses_step (run : s.step files action = .ok (t, event))
    (right : ∀ name response, event = some (.responded name response) → response = uncachedResponse files name) (r : Nat) :
    responsesDue files t.requests[r]? = responsesDue files s.requests[r]? ++ (responseBy r (action, event)).toList := by
  cases action with
  | start name =>
      obtain ⟨rfl, rfl⟩ := Prod.mk.inj (Except.ok.inj run)
      have silent : responseBy r (.start name, none) = none := rfl
      rw [silent, Option.toList_none, List.append_nil]
      change responsesDue files (s.requests ++ [⟨name, .looking s.cache.datas.next⟩])[r]? = _
      rcases Nat.lt_trichotomy r s.requests.length with inside | rfl | outside
      · rw [List.getElem?_append_left inside]
      · rw [List.getElem?_concat_length, List.getElem?_eq_none (Nat.le_refl _)]
        rfl
      · rw [List.getElem?_eq_none (by simp; omega), List.getElem?_eq_none (by omega)]
  | run r' =>
      obtain ⟨q, here, -, p, requests, responds⟩ := run_cases run
      have inside : r' < s.requests.length := (List.getElem?_eq_some_iff.mp here).1
      rw [requests]
      by_cases same : r' = r
      · subst same
        rw [here, List.getElem?_set_self inside]
        cases event with
        | none =>
            have place : q.place.answered = p.answered := responds
            simp [responsesDue, responseBy, place]
        | some event =>
            cases event with
            | used e =>
                have place : q.place.answered = p.answered := responds
                simp [responsesDue, responseBy, place]
            | responded name response =>
                obtain ⟨rfl, waiting, answered⟩ := responds
                simp [responsesDue, responseBy, waiting, answered, right q.name response rfl]
      · rw [List.getElem?_set_ne same]
        have silent : responseBy r (.run r', event) = none := by
          cases event with
          | none => rfl
          | some event =>
              cases event with
              | used e => rfl
              | responded name response => exact if_neg same
        rw [silent, Option.toList_none, List.append_nil]

theorem Sound.step (sound : Sound files maxCacheSize labels s) (run : s.step files action = .ok (t, event)) :
    Sound files maxCacheSize (labels ++ [(action, event)]) t := by
  obtain ⟨lru, ordered, advances⟩ := sound.advances run
  obtain ⟨lru', chain', coherent', moved⟩ := advances.listed
  refine ⟨advances.accounted, advances.size.trans sound.size, ⟨lru', chain', coherent', ?_⟩, namesOf_step run sound.named,
    fun r => ?_⟩
  · have uses : usesOf (labels ++ [(action, event)]) = usesOf labels ++ (usedBy event).toList := by
      rw [usesOf, List.filterMap_append, usesOf]
      cases used : usedBy event <;> simp [used]
    rw [uses]
    exact ordered.step moved coherent'
  · have sent : responsesTo r (labels ++ [(action, event)]) = responsesTo r labels ++ (responseBy r (action, event)).toList := by
      rw [responsesTo, List.filterMap_append, responsesTo]
      cases response : responseBy r (action, event) <;> simp [response]
    rw [sent, sound.answers r, responses_step run advances.answers r]

theorem Sound.init (positive : 0 ≤ maxCacheSize) : Sound files maxCacheSize [] (servingInit maxCacheSize) where
  accounted := ⟨fun _ => rfl, by simp [servingInit], by simp [servingInit], by simp [servingInit]⟩
  size := rfl
  listed := by
    refine ⟨[], fun _ => [], ⟨⟨⟨rfl, rfl, List.nodup_nil⟩, by simp⟩, ⟨fun _ => rfl, fun _ => List.nodup_nil, by simp⟩, ?_, rfl,
      positive⟩, by simp, List.Pairwise.nil⟩
    constructor
    all_goals
      intro n x used
      cases used
  named := rfl
  answers _ := rfl

theorem Sound.of_run (positive : 0 < maxCacheSize) (run : CacheRuns files maxCacheSize labels s) :
    Sound files maxCacheSize labels s :=
  run.history (Sound files maxCacheSize) (.init (Int.le_of_lt positive)) fun _ _ _ _ sound taken => sound.step taken

/-- Every request gets the one response that is sent without a cache, and can always go on. -/
theorem cache_transparent {r : Nat} {name : Name} (positive : 0 < maxCacheSize) (run : CacheRuns files maxCacheSize labels s)
    (requested : (namesOf labels)[r]? = some name) :
    ∃ q, s.requests[r]? = some q ∧ q.name = name ∧
      responsesTo r labels = (if q.place.answered then [uncachedResponse files name] else []) ∧
      (q.place ≠ .done → ∃ t event, s.step files (.run r) = .ok (t, event)) := by
  have sound := Sound.of_run positive run
  rw [← sound.named, List.getElem?_map, Option.map_eq_some_iff] at requested
  obtain ⟨q, here, rfl⟩ := requested
  refine ⟨q, here, rfl, ?_, fun busy => ?_⟩
  · rw [sound.answers r, here]
    rfl
  · obtain ⟨lru, chain, coherent, -⟩ := sound.listed
    have ready : Ready files s lru chain r q := ⟨coherent, sound.accounted, here⟩
    obtain ⟨t, event, step, -⟩ := ready.run busy
    exact ⟨t, event, step⟩

def twoFiles : Files := fun name =>
  if name = [97] then some ⟨true, true, [1, 2, 3]⟩
  else if name = [98] then some ⟨true, true, [4, 5]⟩
  else none

def meeting : List CacheAction :=
  [.start [97], .start [97], .run 0, .run 1, .run 0, .run 1, .run 0, .run 1, .run 0, .run 1, .run 0, .run 1,
    .start [98], .run 2, .run 2, .run 2, .run 2]

theorem cache_transparent_meeting :
    ∃ labels s, CacheRuns twoFiles 3 labels s ∧ (namesOf labels)[2]? = some [98] ∧
      ∃ q, s.requests[2]? = some q ∧ responsesTo 2 labels = [.file "text/plain" 2 9 [4, 5]] ∧
        responsesTo 2 labels = (if q.place.answered then [uncachedResponse twoFiles [98]] else []) := by
  have run := Transition.Run.of_execute (Serving.step twoFiles) (servingInit 3) meeting (by decide)
  obtain ⟨q, here, -, responses, -⟩ := cache_transparent (r := 2) (by decide) run rfl
  exact ⟨_, _, run, by decide, q, here, by decide, responses⟩

/-- The structures of the cache stay consistent, and entries in use stay. -/
theorem cache_invariants (positive : 0 < maxCacheSize) (run : CacheRuns files maxCacheSize labels s) :
    s.cache.maxCacheSize = maxCacheSize ∧
    (∃ lru chain, Coherent files s.cache lru chain ∧ OrderedByUse (usesOf labels) s.cache lru) ∧
    (∀ e x, s.cache.elements.cells e = some x → x.refCount = s.requests.countP fun q : Request => q.place.held = some e) ∧
    ∀ action t event, s.step files action = .ok (t, event) → ∀ e x, s.cache.elements.cells e = some x → 0 < x.refCount →
      ∃ x', t.cache.elements.cells e = some x' ∧ x'.lasting = x.lasting := by
  have sound := Sound.of_run positive run
  refine ⟨sound.size, sound.listed, fun e x used => ?_, fun action t event step e x used busy => ?_⟩
  · rw [← count_eq used]
    exact sound.accounted.counted e
  · obtain ⟨lru, -, advances⟩ := sound.advances step
    exact advances.kept e x used (Int.ne_of_gt busy)

theorem cache_invariants_meeting :
    ∃ labels s, CacheRuns twoFiles 3 labels s ∧ s.cache.currentSize = 2 ∧
      ∃ lru chain, Coherent twoFiles s.cache lru chain ∧ OrderedByUse (usesOf labels) s.cache lru := by
  have run := Transition.Run.of_execute (Serving.step twoFiles) (servingInit 3) meeting (by decide)
  exact ⟨_, _, run, by decide, (cache_invariants (by decide) run).2.1⟩

end Runs

end OperatingSystem.Webserver
