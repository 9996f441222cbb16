import OperatingSystem.Webserver.Requests

namespace OperatingSystem.Webserver

def Moved (c c' : Cache) (lru lru' : List Nat) : Option CacheEvent → Prop
  | some (.used e) => Reordered c c' lru lru' e
  | _ => lru' = lru ∧ c'.nodes = c.nodes

structure Advances (files : Files) (s t : Serving) (lru : List Nat) (event : Option CacheEvent) : Prop where
  accounted : Accounted files t.cache t.requests
  kept : ∀ e x, s.cache.elements.cells e = some x → x.refCount ≠ 0 →
    ∃ x', t.cache.elements.cells e = some x' ∧ x'.lasting = x.lasting
  answers : ∀ name response, event = some (.responded name response) → response = uncachedResponse files name
  size : t.cache.maxCacheSize = s.cache.maxCacheSize
  listed : ∃ lru' chain', Coherent files t.cache lru' chain' ∧ Moved s.cache t.cache lru lru' event

section Step

variable {files : Files} {s t : Serving} {c c' c1 : Cache} {lru : List Nat} {chain : Int → List Nat} {r data check : Nat}
  {q : Request} {p : Place} {event : Option CacheEvent}

theorem Stepped.advances (stepped : Stepped s.cache c' q p) (accounted : Accounted files s.cache s.requests)
    (here : s.requests[r]? = some q) (supplied : Supplied files c' q.name p)
    (answers : ∀ name response, event = some (.responded name response) → response = uncachedResponse files name)
    (size : c'.maxCacheSize = s.cache.maxCacheSize)
    (listed : ∃ lru' chain', Coherent files c' lru' chain' ∧ Moved s.cache c' lru lru' event) :
    Advances files s (s.setPlace r q p c') lru event where
  accounted := accounted.step here stepped supplied
  kept := stepped.kept
  answers := answers
  size := size
  listed := listed

theorem Changed.stepped {d : Nat} (changed : Changed c1 c' data (some check)) (own : q.place.own = some data)
    (held : q.place.held = none) (elements : c1.elements = c.elements)
    (datas : ∀ d, d ≠ data → c1.datas.cells d = c.datas.cells d) : Stepped c c' q (.sending check d) where
  datas d other := by
    rw [changed.datas]
    exact datas d fun same => other (same ▸ own)
  kept e x used busy := changed.kept e x (elements ▸ used) busy
  count e := by
    have count := changed.count e
    have same : c1.count e = c.count e := by rw [Cache.count, elements, Cache.count]
    rw [same] at count
    rw [held]
    simpa [Place.held] using count
  own := Or.inl rfl
  source e x' used := by
    rcases changed.source e x' used with mine | ⟨x, before, same⟩
    · exact Or.inl ⟨mine ▸ own, rfl⟩
    · exact Or.inr ⟨x, elements ▸ before, same⟩

theorem Stepped.keep (elements : c'.elements = c.elements) (held : p.held = q.place.held)
    (own : p.own = none ∨ p.own = q.place.own) (datas : ∀ d, q.place.own ≠ some d → c'.datas.cells d = c.datas.cells d) :
    Stepped c c' q p where
  datas := datas
  kept e x used _ := ⟨x, elements ▸ used, rfl⟩
  count e := by rw [held, Cache.count, elements, Cache.count]
  own := own
  source e x' used := Or.inr ⟨x', elements ▸ used, rfl⟩

theorem Coherent.lookup {file : FileData} (coherent : Coherent files c lru chain) (here : c.datas.cells data = some file) :
    c.cacheLookup data = .ok none ∨ ∃ e element found, c.cacheLookup data = .ok (some e) ∧
      c.elements.cells e = some element ∧ c.datas.cells element.data = some found ∧
      requestReadfile files (fileDataInit file.fileName) = .ok found := by
  have words : ∀ e element, c.elements.cells e = some element → ∃ file, c.datas.cells element.word = some file := by
    intro e element used
    have entry := coherent.entries.entry e element used
    obtain ⟨file, stored, -⟩ := entry.stored
    exact ⟨file, entry.word ▸ stored⟩
  rcases coherent.chained.lookup words here with miss | ⟨e, element, word, hit, used, named, same⟩
  · exact Or.inl miss
  · have entry := coherent.entries.entry e element used
    obtain ⟨found, stored, fetched, -, -⟩ := entry.stored
    rw [entry.word, stored] at named
    obtain rfl := Option.some.inj named
    refine Or.inr ⟨e, element, found, hit, used, stored, ?_⟩
    rw [← same]
    exact fetched

theorem uncachedResponse_of_ok {name : Name} {file : FileData} (ok : requestReadfile files (fileDataInit name) = .ok file) :
    uncachedResponse files name = requestSendfile file := by
  simp only [uncachedResponse, ok]

theorem uncachedResponse_of_error {name : Name} {response : Response}
    (error : requestReadfile files (fileDataInit name) = .error response) : uncachedResponse files name = response := by
  simp only [uncachedResponse, error]

/-- What is known when request `r` takes a step. -/
structure Ready (files : Files) (s : Serving) (lru : List Nat) (chain : Int → List Nat) (r : Nat) (q : Request) : Prop where
  coherent : Coherent files s.cache lru chain
  accounted : Accounted files s.cache s.requests
  here : s.requests[r]? = some q

theorem Ready.supplied (ready : Ready files s lru chain r q) : Supplied files s.cache q.name q.place :=
  ready.accounted.supplied q (List.mem_of_getElem? ready.here)

theorem Ready.unshared (ready : Ready files s lru chain r q) (own : q.place.own = some data) {e : Nat} {x : WordsElement}
    (used : s.cache.elements.cells e = some x) : x.data ≠ data := by
  rintro rfl
  exact ready.accounted.unshared q (List.mem_of_getElem? ready.here) e x used own

theorem Ready.keep (ready : Ready files s lru chain r q) (held : p.held = q.place.held)
    (own : p.own = none ∨ p.own = q.place.own) (supplied : Supplied files s.cache q.name p)
    (answers : ∀ name response, event = some (.responded name response) → response = uncachedResponse files name)
    (unused : ∀ e, event ≠ some (.used e)) : Advances files s (s.setPlace r q p s.cache) lru event := by
  refine (Stepped.keep rfl held own fun _ _ => rfl).advances ready.accounted ready.here supplied answers rfl
    ⟨lru, chain, ready.coherent, ?_⟩
  cases event with
  | none => exact ⟨rfl, rfl⟩
  | some event =>
      cases event with
      | used e => exact (unused e rfl).elim
      | responded name response => exact ⟨rfl, rfl⟩

theorem Ready.own {datas : Heap FileData} (ready : Ready files s lru chain r q) (mine : q.place.own = some data)
    (others : ∀ d, d ≠ data → datas.cells d = s.cache.datas.cells d) (held : p.held = q.place.held)
    (own : p.own = none ∨ p.own = q.place.own) (supplied : Supplied files { s.cache with datas } q.name p)
    (answers : ∀ name response, event = some (.responded name response) → response = uncachedResponse files name)
    (unused : ∀ e, event ≠ some (.used e)) :
    Advances files s (s.setPlace r q p { s.cache with datas }) lru event := by
  have frame : ∀ d, q.place.own ≠ some d → datas.cells d = s.cache.datas.cells d :=
    fun d other => others d fun same => other (same ▸ mine)
  have stepped : Stepped s.cache { s.cache with datas } q p := .keep rfl held own frame
  refine stepped.advances ready.accounted ready.here supplied answers rfl
    ⟨lru, chain, ready.coherent.fill fun e x used => others _ (ready.unshared mine used), ?_⟩
  cases event with
  | none => exact ⟨rfl, rfl⟩
  | some event =>
      cases event with
      | used e => exact (unused e rfl).elim
      | responded name response => exact ⟨rfl, rfl⟩

theorem Ready.readSection {next : Nat → Place} (ready : Ready files s lru chain r q) (own : q.place.own = some data)
    (held : q.place.held = none) (stored : s.cache.datas.cells data = some (fileDataInit q.name))
    (nextOwn : (next data).own = some data) (nextHeld : (next data).held = none)
    (supplied : ∀ c file, c.datas.cells data = some file → requestReadfile files (fileDataInit q.name) = .ok file →
      Supplied files c q.name (next data)) :
    ∃ t event, s.readSection files r q data next = .ok (t, event) ∧ Advances files s t lru event := by
  cases result : requestReadfile files (fileDataInit q.name) with
  | error response =>
      refine ⟨_, some (.responded q.name response), ?_, ready.keep (p := .done) held.symm (Or.inl rfl) trivial ?_ ?_⟩
      · simp only [Serving.readSection, read_eq_ok.mpr stored, Result.ok_bind, result]
        rfl
      · intro name response' same
        obtain ⟨rfl, rfl⟩ := CacheEvent.responded.inj (Option.some.inj same)
        exact (uncachedResponse_of_error result).symm
      · intro e same
        cases Option.some.inj same
  | ok file =>
      let datas := s.cache.datas.modify data fun _ => file
      have filled : datas.cells data = some file := by
        simp only [datas, Heap.modify_self, stored, Option.map_some]
      have others : ∀ d, d ≠ data → datas.cells d = s.cache.datas.cells d := fun d other => Heap.modify_of_ne other
      refine ⟨s.setPlace r q (next data) { s.cache with datas }, none, ?_, ready.own own others (nextHeld.trans held.symm)
        (Or.inr (nextOwn.trans own.symm)) (supplied _ file filled result) ?_ ?_⟩
      · simp only [Serving.readSection, read_eq_ok.mpr stored, Result.ok_bind, result, store_of_some stored]
        rfl
      · intro name response same
        cases same
      · intro e same
        cases same

theorem Ready.hit {element : WordsElement} {file : FileData} (ready : Ready files s lru chain r q)
    (own : q.place.own = some data) (held : q.place.held = none) (coherent : Coherent files c1 lru chain)
    (elements : c1.elements = s.cache.elements) (nodes : c1.nodes = s.cache.nodes)
    (datas : ∀ d, d ≠ data → c1.datas.cells d = s.cache.datas.cells d) (size : c1.maxCacheSize = s.cache.maxCacheSize)
    (here : s.cache.elements.cells check = some element) (stored : s.cache.datas.cells element.data = some file)
    (ok : requestReadfile files (fileDataInit q.name) = .ok file) :
    ∃ c', c1.useElement check = .ok (c', element.data) ∧
      Advances files s (s.setPlace r q (.sending check element.data) c') lru (some (.used check)) := by
  obtain ⟨c', lru', run, coherent', changed, reordered, x, used, same⟩ := coherent.use data (elements ▸ here)
  have sameData : x.data = element.data := by rw [lasting_eq same]
  refine ⟨c', run, (changed.stepped own held elements datas).advances ready.accounted ready.here ?_ ?_ (changed.size.trans size)
    ⟨lru', chain, coherent', ?_⟩⟩
  · refine ⟨x, file, used, sameData, ?_, ok⟩
    rw [changed.datas, datas _ (ready.unshared own here)]
    exact stored
  · intro name response same
    cases Option.some.inj same
  · obtain ⟨rest, n, shape, sublist, kept, last⟩ := reordered
    refine ⟨rest, n, shape, sublist, fun m member => (kept m member).trans ?_, last⟩
    rw [Cache.entryAt, nodes, Cache.entryAt]

theorem Ready.firstSection (ready : Ready files s lru chain r q) (own : q.place.own = some data)
    (held : q.place.held = none) (stored : s.cache.datas.cells data = some (fileDataInit q.name)) :
    ∃ t event, s.firstSection r q data = .ok (t, event) ∧ Advances files s t lru event := by
  rcases ready.coherent.lookup stored with miss | ⟨e, element, found, hit, here, kept, ok⟩
  · refine ⟨s.setPlace r q (.reading data) s.cache, none, ?_, ready.keep held.symm (Or.inr own.symm) stored ?_ ?_⟩
    · simp only [Serving.firstSection, miss, Result.ok_bind]
      rfl
    · intro name response same
      cases same
    · intro e same
      cases same
  · obtain ⟨c', use, advances⟩ := ready.hit own held ready.coherent rfl rfl (fun _ _ => rfl) rfl here kept ok
    refine ⟨_, _, ?_, advances⟩
    simp only [Serving.firstSection, hit, Result.ok_bind, use]
    rfl

theorem Ready.secondSection {file : FileData} (ready : Ready files s lru chain r q) (own : q.place.own = some data)
    (held : q.place.held = none) (stored : s.cache.datas.cells data = some file)
    (ok : requestReadfile files (fileDataInit q.name) = .ok file) :
    ∃ t event, s.secondSection r q data = .ok (t, event) ∧ Advances files s t lru event := by
  have name : file.fileName = q.name := (requestReadfile_eq_ok ok).1
  have fetched : Fetched files file := by
    unfold Fetched
    rw [name]
    exact ok
  rcases ready.coherent.lookup stored with miss | ⟨e, element, found, hit, here, kept, ok'⟩
  · rcases ready.coherent.storeAndUse stored fetched with full | ⟨c1, check, c', lru', chain', insert, use, coherent',
      changed, reordered, x, used, same⟩
    · refine ⟨s.setPlace r q (.sendingOwn data) s.cache, none, ?_, ready.keep held.symm (Or.inr own.symm)
        ⟨file, stored, ok⟩ ?_ ?_⟩
      · simp only [Serving.secondSection, miss, Result.ok_bind, full]
        rfl
      · intro name response same
        cases same
      · intro e same
        cases same
    · have stepped : Stepped s.cache c' q (.sending check data) := changed.stepped own held rfl fun _ _ => rfl
      refine ⟨_, some (.used check), ?_, stepped.advances ready.accounted ready.here ⟨x, file, used, same, changed.datas ▸ stored, ok⟩ ?_
        changed.size ⟨lru', chain', coherent', reordered⟩⟩
      · simp only [Serving.secondSection, miss, Result.ok_bind, insert, use]
        rfl
      · intro name response same
        cases Option.some.inj same
  · have others : ∀ d, d ≠ data → (s.cache.datas.free data).cells d = s.cache.datas.cells d :=
      fun d other => Heap.free_of_ne other
    have coherent : Coherent files { s.cache with datas := s.cache.datas.free data } lru chain :=
      ready.coherent.fill fun e x used => others _ (ready.unshared own used)
    rw [name] at ok'
    obtain ⟨c', use, advances⟩ := ready.hit own held coherent rfl rfl others rfl here kept ok'
    refine ⟨_, _, ?_, advances⟩
    simp only [Serving.secondSection, hit, Result.ok_bind, read_eq_ok.mpr stored, use]
    rfl

theorem Ready.send {file : FileData} (ready : Ready files s lru chain r q) (place : q.place = .sending check data)
    (stored : s.cache.datas.cells data = some file) (ok : requestReadfile files (fileDataInit q.name) = .ok file) :
    ∃ t event, s.runRequest files r q = .ok (t, event) ∧ Advances files s t lru event := by
  obtain ⟨element, -, used, -⟩ : Supplied files s.cache q.name (.sending check data) := place ▸ ready.supplied
  have held : (Place.releasing check).held = q.place.held := by rw [place]; rfl
  refine ⟨s.setPlace r q (.releasing check) s.cache, some (.responded q.name (requestSendfile file)), ?_,
    ready.keep held (Or.inl rfl) ⟨element, used⟩ ?_ ?_⟩
  · simp only [Serving.runRequest, place, Serving.send, read_eq_ok.mpr stored, Result.ok_bind]
    rfl
  · intro name response same
    obtain ⟨rfl, rfl⟩ := CacheEvent.responded.inj (Option.some.inj same)
    exact (uncachedResponse_of_ok ok).symm
  · intro e same
    cases Option.some.inj same

theorem Ready.sendOwn {file : FileData} (ready : Ready files s lru chain r q) (place : q.place = .sendingOwn data)
    (stored : s.cache.datas.cells data = some file) (ok : requestReadfile files (fileDataInit q.name) = .ok file) :
    ∃ t event, s.runRequest files r q = .ok (t, event) ∧ Advances files s t lru event := by
  have own : q.place.own = some data := by rw [place]; rfl
  have held : Place.done.held = q.place.held := by rw [place]; rfl
  have others : ∀ d, d ≠ data → (s.cache.datas.free data).cells d = s.cache.datas.cells d :=
    fun d other => Heap.free_of_ne other
  refine ⟨s.setPlace r q .done { s.cache with datas := s.cache.datas.free data },
    some (.responded q.name (requestSendfile file)), ?_, ready.own own others held (Or.inl rfl) trivial ?_ ?_⟩
  · simp only [Serving.runRequest, place, Serving.send, read_eq_ok.mpr stored, Result.ok_bind]
    rfl
  · intro name response same
    obtain ⟨rfl, rfl⟩ := CacheEvent.responded.inj (Option.some.inj same)
    exact (uncachedResponse_of_ok ok).symm
  · intro e same
    cases Option.some.inj same

theorem Ready.release {element : WordsElement} (ready : Ready files s lru chain r q) (place : q.place = .releasing check)
    (here : s.cache.elements.cells check = some element) :
    ∃ t event, s.runRequest files r q = .ok (t, event) ∧ Advances files s t lru event := by
  have same : Lasting s.cache.elements (s.cache.recount check (· - 1)).elements := lasting_recount
  have stepped : Stepped s.cache (s.cache.recount check (· - 1)) q .done := {
    datas := fun _ _ => rfl
    kept := fun e x used _ => same.used used
    count := by
      intro e
      rw [count_recount _ here, place]
      by_cases equal : check = e
      · subst equal
        simp [Place.held]
      · simp [Place.held, equal]
    own := Or.inl rfl
    source := by
      intro e x' used
      obtain ⟨x, before, fields⟩ := same.symm.used used
      refine Or.inr ⟨x, before, ?_⟩
      rw [lasting_eq fields] }
  refine ⟨_, none, ?_, stepped.advances ready.accounted ready.here trivial ?_ rfl
    ⟨lru, chain, ready.coherent.recount, rfl, rfl⟩⟩
  · simp only [Serving.runRequest, place, store_of_some here, Result.ok_bind]
    rfl
  · intro name response same
    cases same

theorem Ready.run (ready : Ready files s lru chain r q) (busy : q.place ≠ .done) :
    ∃ t event, s.step files (.run r) = .ok (t, event) ∧ Advances files s t lru event := by
  have start : s.step files (.run r) = s.runRequest files r q := by simp only [Serving.step, ready.here]
  rw [start]
  have supplied := ready.supplied
  cases place : q.place with
  | looking data =>
      rw [place] at supplied
      have own : q.place.own = some data := by rw [place]; rfl
      have held : q.place.held = none := by rw [place]; rfl
      simp only [Serving.runRequest, place]
      by_cases cached : 0 < s.cache.maxCacheSize
      · rw [if_pos cached]
        exact ready.firstSection own held supplied
      · rw [if_neg cached]
        exact ready.readSection own held supplied rfl rfl fun c file filled ok => ⟨file, filled, ok⟩
  | reading data =>
      rw [place] at supplied
      have own : q.place.own = some data := by rw [place]; rfl
      have held : q.place.held = none := by rw [place]; rfl
      simp only [Serving.runRequest, place]
      exact ready.readSection own held supplied rfl rfl fun c file filled ok => ⟨file, filled, ok⟩
  | inserting data =>
      rw [place] at supplied
      have own : q.place.own = some data := by rw [place]; rfl
      have held : q.place.held = none := by rw [place]; rfl
      obtain ⟨file, stored, ok⟩ := supplied
      simp only [Serving.runRequest, place]
      exact ready.secondSection own held stored ok
  | sending check data =>
      rw [place] at supplied
      obtain ⟨element, file, -, -, stored, ok⟩ := supplied
      exact ready.send place stored ok
  | sendingOwn data =>
      rw [place] at supplied
      obtain ⟨file, stored, ok⟩ := supplied
      exact ready.sendOwn place stored ok
  | releasing check =>
      rw [place] at supplied
      obtain ⟨element, used⟩ := supplied
      exact ready.release place used
  | done => exact (busy place).elim

theorem Coherent.start (coherent : Coherent files s.cache lru chain) (accounted : Accounted files s.cache s.requests)
    {name : Name} (run : s.step files (.start name) = .ok (t, event)) : Advances files s t lru event := by
  obtain ⟨rfl, rfl⟩ := Prod.mk.inj (Except.ok.inj run)
  have others : ∀ d, (∃ file, s.cache.datas.cells d = some file) →
      (s.cache.datas.alloc (fileDataInit name)).cells d = s.cache.datas.cells d := by
    rintro d ⟨file, used⟩
    exact Heap.alloc_of_ne (Heap.ne_next used)
  have stored : ∀ e x, s.cache.elements.cells e = some x → ∃ file, s.cache.datas.cells x.data = some file := by
    intro e x used
    obtain ⟨file, stored, -⟩ := (coherent.entries.entry e x used).stored
    exact ⟨file, stored⟩
  have fresh : ∀ d, (∃ file, s.cache.datas.cells d = some file) → d ≠ s.cache.datas.next := by
    rintro d ⟨file, used⟩
    exact Heap.ne_next used
  have owned : ∀ q ∈ s.requests, ∀ d, q.place.own = some d → d ≠ s.cache.datas.next := by
    intro q member d own
    exact fresh d (Place.own_used (accounted.supplied q member) own)
  refine ⟨⟨fun e => ?_, fun q there => ?_, fun r1 r2 q1 q2 d found1 found2 own1 own2 => ?_, fun q there e x used own => ?_⟩,
    fun e x used _ => ⟨x, used, rfl⟩, (fun name response same => nomatch same), rfl,
    lru, chain, coherent.fill fun e x used => others _ (stored e x used), rfl, rfl⟩
  · have count := accounted.counted e
    rw [List.countP_append]
    simpa [Place.held, Cache.count] using count
  · rcases List.mem_append.mp there with old | new
    · refine (accounted.supplied q old).frame (fun d own => ?_) fun e x _ used => ⟨others _ (stored e x used), x, used, rfl⟩
      exact others d (Place.own_used (accounted.supplied q old) own)
    · obtain rfl := List.mem_singleton.mp new
      exact Heap.alloc_next
  · have cases' : ∀ r q, (s.requests ++ [⟨name, .looking s.cache.datas.next⟩])[r]? = some q →
        s.requests[r]? = some q ∨ (r = s.requests.length ∧ q.place.own = some s.cache.datas.next) := by
      intro r q found
      by_cases inside : r < s.requests.length
      · rw [List.getElem?_append_left inside] at found
        exact Or.inl found
      · rw [List.getElem?_append_right (by omega), List.getElem?_singleton] at found
        split_ifs at found with zero
        refine Or.inr ⟨by omega, ?_⟩
        rw [← Option.some.inj found]
        rfl
    rcases cases' r1 q1 found1 with old1 | ⟨rfl, new1⟩
    · rcases cases' r2 q2 found2 with old2 | ⟨-, new2⟩
      · exact accounted.apart r1 r2 q1 q2 d old1 old2 own1 own2
      · have other := owned q1 (List.mem_of_getElem? old1) d own1
        exact (other (Option.some.inj (own2.symm.trans new2))).elim
    · rcases cases' r2 q2 found2 with old2 | ⟨rfl, -⟩
      · have other := owned q2 (List.mem_of_getElem? old2) d own2
        exact (other (Option.some.inj (own1.symm.trans new1))).elim
      · rfl
  · rcases List.mem_append.mp there with old | new
    · exact accounted.unshared q old e x used own
    · obtain rfl := List.mem_singleton.mp new
      exact fresh x.data (stored e x used) (Option.some.inj own).symm

end Step

end OperatingSystem.Webserver
