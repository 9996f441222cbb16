import OperatingSystem.Webserver.Transparent

namespace OperatingSystem.Webserver

namespace Cache

variable (c : Cache)

def InBucket (k : Int) (e : Nat) : Prop := ∃ l, Linked.Path (chainIn c.elements) (c.ht k) l none ∧ e ∈ l

def Caches (name : Name) (e : Nat) : Prop :=
  ∃ k element file, c.InBucket k e ∧ c.elements.cells e = some element ∧ c.datas.cells element.word = some file ∧
    file.fileName = name

def find (name : Name) : Except Fault (Option Nat) :=
  cacheLookup { c with datas := c.datas.alloc (fileDataInit name) } c.datas.next

/-- A file has at most one entry, and `cache_lookup` finds it. -/
structure FoundOnce : Prop where
  once : ∀ name e f, c.Caches name e → c.Caches name f → e = f
  found : ∀ name, ∃ result, c.find name = .ok result ∧ ∀ e, result = some e ↔ c.Caches name e

def Outlasts (size : Int) (e : Nat) : Prop :=
  c.currentSize + size ≤ c.maxCacheSize ∨
    ∃ n f element, c.Evicts (size - (c.maxCacheSize - c.currentSize)) n f element ∧ f ≠ e

def Sole : Prop :=
  ∀ e f x y, c.elements.cells e = some x → c.elements.cells f = some y → x.key = y.key → e = f

end Cache

/-- The action inserts a file into a bucket that keeps the entry of another file. -/
def Serving.Collides (s : Serving) (action : CacheAction) : Prop :=
  ∃ r q data file e element other, action = .run r ∧ s.requests[r]? = some q ∧ q.place = .inserting data ∧
    s.cache.datas.cells data = some file ∧ s.cache.elements.cells e = some element ∧
    element.key = hashKey file.fileName s.cache.maxCacheSize ∧ s.cache.datas.cells element.word = some other ∧
    other.fileName ≠ file.fileName ∧ s.cache.Outlasts file.fileSize e

section State

variable {files : Files} {c c' : Cache} {lru : List Nat} {chain : Int → List Nat} {name : Name} {e : Nat}

theorem Coherent.inBucket_iff (coherent : Coherent files c lru chain) {k : Int} : c.InBucket k e ↔ e ∈ chain k := by
  constructor
  · rintro ⟨l, path, member⟩
    rwa [(coherent.chained.path k).unique path]
  · exact fun member => ⟨chain k, coherent.chained.path k, member⟩

theorem Coherent.named (coherent : Coherent files c lru chain) {element : WordsElement} (used : c.elements.cells e = some element) :
    ∃ file, c.datas.cells element.word = some file ∧ element.key = hashKey file.fileName c.maxCacheSize ∧
      c.Caches file.fileName e := by
  have entry := coherent.entries.entry e element used
  obtain ⟨file, stored, -, -, key⟩ := entry.stored
  rw [← entry.word] at stored
  exact ⟨file, stored, key, _, element, file, coherent.inBucket_iff.mpr (coherent.entries.bucket e element used), used, stored, rfl⟩

theorem Coherent.caches (coherent : Coherent files c lru chain) (caches : c.Caches name e) :
    e ∈ chain (hashKey name c.maxCacheSize) := by
  obtain ⟨k, element, file, -, used, stored, rfl⟩ := caches
  obtain ⟨file', stored', key, -⟩ := coherent.named used
  obtain rfl := Option.some.inj (stored.symm.trans stored')
  rw [← key]
  exact coherent.entries.bucket e element used

theorem Coherent.find (coherent : Coherent files c lru chain) (name : Name) :
    (chain (hashKey name c.maxCacheSize) = [] ∧ c.find name = .ok none) ∨
    ∃ first rest element file, chain (hashKey name c.maxCacheSize) = first :: rest ∧
      c.elements.cells first = some element ∧ c.datas.cells element.word = some file ∧
      c.find name = .ok (if name = file.fileName then some first else none) := by
  let c' : Cache := { c with datas := c.datas.alloc (fileDataInit name) }
  have chained : Chained c' chain := coherent.chained.congr (fun _ _ _ => rfl) rfl coherent.chained.used
  have here : c'.datas.cells c.datas.next = some (fileDataInit name) := Heap.alloc_next
  cases elements : chain (hashKey name c.maxCacheSize) with
  | nil => exact Or.inl ⟨rfl, chained.lookup_empty here elements⟩
  | cons first rest =>
      obtain ⟨element, used, -⟩ := coherent.chained.used _ first (by rw [elements]; exact List.mem_cons_self)
      obtain ⟨file, stored, -⟩ := coherent.named used
      have kept : c'.datas.cells element.word = some file := (Heap.alloc_of_ne (Heap.ne_next stored)).trans stored
      exact Or.inr ⟨first, rest, element, file, rfl, used, stored, chained.lookup_head here elements used kept⟩

theorem Cache.Sole.once (sole : c.Sole) (coherent : Coherent files c lru chain) {f : Nat} (here : c.Caches name e)
    (there : c.Caches name f) : e = f := by
  obtain ⟨x, usedX, keyX⟩ := coherent.chained.used _ e (coherent.caches here)
  obtain ⟨y, usedY, keyY⟩ := coherent.chained.used _ f (coherent.caches there)
  exact sole e f x y usedX usedY (keyX.trans keyY.symm)

theorem Coherent.found_once_iff (coherent : Coherent files c lru chain) : c.FoundOnce ↔ c.Sole := by
  constructor
  · rintro ⟨-, found⟩ e f x y usedX usedY key
    obtain ⟨fileX, -, keyX, cachesX⟩ := coherent.named usedX
    obtain ⟨fileY, -, keyY, cachesY⟩ := coherent.named usedY
    -- what is found is the head of the bucket
    have head {name : Name} {e : Nat} (caches : c.Caches name e) : ∃ rest, chain (hashKey name c.maxCacheSize) = e :: rest := by
      obtain ⟨result, run, right⟩ := found name
      rw [(right e).mpr caches] at run
      rcases coherent.find name with ⟨-, miss⟩ | ⟨first, rest, element, file, elements, -, -, hit⟩
      · rw [miss] at run
        cases run
      · rw [hit] at run
        split_ifs at run
        · obtain rfl := Option.some.inj (Except.ok.inj run)
          exact ⟨rest, elements⟩
        · cases run
    obtain ⟨restX, headX⟩ := head cachesX
    obtain ⟨restY, headY⟩ := head cachesY
    rw [← keyX, key] at headX
    rw [← keyY] at headY
    exact (List.cons.inj (headX.symm.trans headY)).1
  · intro sole
    refine ⟨fun name e f here there => sole.once coherent here there, fun name => ?_⟩
    rcases coherent.find name with ⟨empty, miss⟩ | ⟨first, rest, element, file, elements, used, stored, hit⟩
    · refine ⟨none, miss, fun e => ⟨fun found => (by cases found), fun caches => ?_⟩⟩
      have member := coherent.caches caches
      rw [empty] at member
      cases member
    obtain ⟨file', stored', key, caches⟩ := coherent.named used
    obtain rfl := Option.some.inj (stored.symm.trans stored')
    refine ⟨_, hit, fun e => ?_⟩
    split_ifs with same
    · rw [same, Option.some.injEq]
      exact ⟨fun found => found ▸ caches, fun there => sole.once coherent caches there⟩
    · refine ⟨fun found => (by cases found), fun there => ?_⟩
      obtain ⟨y, usedY, keyY⟩ := coherent.chained.used _ e (coherent.caches there)
      obtain ⟨x, usedX, keyX⟩ := coherent.chained.used _ first (by rw [elements]; exact List.mem_cons_self)
      obtain rfl := sole e first y x usedY usedX (keyY.trans keyX.symm)
      obtain ⟨k, z, word, -, usedZ, storedZ, rfl⟩ := there
      obtain rfl := Option.some.inj (used.symm.trans usedZ)
      obtain rfl := Option.some.inj (stored.symm.trans storedZ)
      exact absurd rfl same

end State

structure Arrives (c c' : Cache) (gone : Option Nat) (e : Nat) (key : Int) : Prop where
  fresh : ∀ x, c.elements.cells e = some x → gone = some e
  new : ∃ y, c'.elements.cells e = some y ∧ y.key = key
  old : ∀ f y, c'.elements.cells f = some y → f ≠ e → gone ≠ some f ∧ ∃ x, c.elements.cells f = some x ∧ x.key = y.key
  kept : ∀ f x, c.elements.cells f = some x → gone ≠ some f → ∃ y, c'.elements.cells f = some y ∧ y.key = x.key

section Insertion

variable {files : Files} {c c' : Cache} {lru : List Nat} {chain : Int → List Nat} {data e : Nat} {file : FileData} {key : Int}
  {gone : Option Nat}

theorem Lasting.sole (same : Lasting c.elements c'.elements) : c'.Sole ↔ c.Sole := by
  have transfer {c c' : Cache} (same : Lasting c.elements c'.elements) (sole : c'.Sole) : c.Sole := by
    intro e f x y usedX usedY keys
    obtain ⟨x', usedX', sameX⟩ := same.used usedX
    obtain ⟨y', usedY', sameY⟩ := same.used usedY
    refine sole e f x' y' usedX' usedY' ?_
    rw [lasting_eq sameX, lasting_eq sameY]
    exact keys
  exact ⟨transfer same, transfer same.symm⟩

theorem Arrives.sole_iff (arrives : Arrives c c' gone e key) (sole : c.Sole) :
    c'.Sole ↔ ∀ f x, c.elements.cells f = some x → x.key = key → gone = some f := by
  obtain ⟨new, here, keyNew⟩ := arrives.new
  constructor
  · intro alone f x used keyX
    by_contra stays
    obtain ⟨y, used', keyY⟩ := arrives.kept f x used stays
    obtain rfl := alone f e y new used' here (keyY.trans (keyX.trans keyNew.symm))
    exact stays (arrives.fresh x used)
  · intro emptied f g x y usedX usedY keys
    by_cases first : f = e
    · subst first
      obtain rfl := Option.some.inj (here.symm.trans usedX)
      by_contra other
      obtain ⟨stays, z, used, keyZ⟩ := arrives.old g y usedY (Ne.symm other)
      exact stays (emptied g z used (keyZ.trans (keys.symm.trans keyNew)))
    · obtain ⟨stays, z, usedZ, keyZ⟩ := arrives.old f x usedX first
      by_cases second : g = e
      · subst second
        obtain rfl := Option.some.inj (here.symm.trans usedY)
        exact absurd (emptied f z usedZ (keyZ.trans (keys.trans keyNew))) stays
      · obtain ⟨-, w, usedW, keyW⟩ := arrives.old g y usedY second
        exact sole f g z w usedZ usedW (keyZ.trans (keys.trans keyW.symm))

theorem Coherent.insert_arrives (coherent : Coherent files c lru chain) (stored : c.datas.cells data = some file)
    (fetched : Fetched files file) (room : c.currentSize + file.fileSize ≤ c.maxCacheSize) :
    ∃ c' e lru' chain', c.insertElement data file.fileSize = .ok (some (c', e)) ∧ Coherent files c' lru' chain' ∧
      Arrives c c' none e (hashKey file.fileName c.maxCacheSize) := by
  obtain ⟨n, e, c', chain', insert, inserted, coherent'⟩ := coherent.insertElement stored fetched room
  obtain ⟨element, here, word, -⟩ := inserted.here
  refine ⟨c', e, _, chain', insert, coherent', fun x used => ?_, ⟨element, here, ?_⟩, fun f y used other => ?_, fun f x used _ => ?_⟩
  · rw [inserted.fresh] at used
    cases used
  · obtain ⟨file', stored', key, -⟩ := coherent'.named here
    rw [word, inserted.datas, stored] at stored'
    obtain rfl := Option.some.inj stored'
    rw [key, inserted.size]
  · obtain ⟨before, used', same⟩ := inserted.before other used
    refine ⟨by simp, before, used', ?_⟩
    rw [unchained_eq same]
  · obtain ⟨y, used', same⟩ := inserted.used used
    refine ⟨y, used', ?_⟩
    rw [unchained_eq same]

theorem Coherent.store_arrives (coherent : Coherent files c lru chain) (stored : c.datas.cells data = some file)
    (fetched : Fetched files file) :
    (c.cacheStore data = .ok none ∧ ∀ e, ¬ c.Outlasts file.fileSize e) ∨
    ∃ c' e lru' chain' gone, c.cacheStore data = .ok (some (c', e)) ∧ Coherent files c' lru' chain' ∧
      Arrives c c' gone e (hashKey file.fileName c.maxCacheSize) ∧ ∀ f, c.Outlasts file.fileSize f ↔ gone ≠ some f := by
  by_cases room : c.currentSize + file.fileSize ≤ c.maxCacheSize
  · obtain ⟨c', e, lru', chain', insert, coherent', arrives⟩ := coherent.insert_arrives stored fetched room
    refine Or.inr ⟨c', e, lru', chain', none, ?_, coherent', arrives, fun f => ⟨fun _ => by simp, fun _ => Or.inl room⟩⟩
    simp only [Cache.cacheStore, read_eq_ok.mpr stored, Result.ok_bind, if_pos room, insert]
  rcases coherent.cacheEvict (file.fileSize - (c.maxCacheSize - c.currentSize)) with
    ⟨nothing, none⟩ | ⟨n, g, element, c0, evict, evicts, evicted, -, coherent0⟩
  · refine Or.inl ⟨?_, ?_⟩
    · simp only [Cache.cacheStore, read_eq_ok.mpr stored, Result.ok_bind, if_neg room, nothing, Result.pure_eq_ok]
    · rintro e (fits | ⟨n, f, element, evicts, -⟩)
      · exact room fits
      · exact none n f element evicts
  have stored0 : c0.datas.cells data = some file := evicted.datas ▸ stored
  have room0 : c0.currentSize + file.fileSize ≤ c0.maxCacheSize := by
    have large := evicts.large
    rw [evicted.current, evicted.size]
    omega
  obtain ⟨c', e, lru', chain', insert, coherent', arrives⟩ := coherent0.insert_arrives stored0 fetched room0
  refine Or.inr ⟨c', e, lru', chain', some g, ?_, coherent', ?_, fun f => ?_⟩
  · simp only [Cache.cacheStore, read_eq_ok.mpr stored, Result.ok_bind, if_neg room, evict, insert]
  · rw [evicted.size] at arrives
    refine ⟨fun x used => ?_, arrives.new, fun f y used other => ?_, fun f x used stays => ?_⟩
    · by_contra stays
      obtain ⟨z, used', -⟩ := evicted.used (fun equal => stays (congrArg some equal.symm)) used
      cases arrives.fresh z used'
    · obtain ⟨-, x, before, key⟩ := arrives.old f y used other
      obtain ⟨other, z, before', same⟩ := evicted.before before
      refine ⟨fun equal => other (Option.some.inj equal).symm, z, before', ?_⟩
      rw [unchained_eq same, ← key]
    · obtain ⟨z, used', same⟩ := evicted.used (fun equal => stays (congrArg some equal.symm)) used
      obtain ⟨y, used'', key⟩ := arrives.kept f z used' (by simp)
      refine ⟨y, used'', key.trans ?_⟩
      rw [unchained_eq same]
  · constructor
    · rintro (fits | ⟨n', f', element', evicts', other⟩)
      · exact absurd fits room
      · obtain rfl := Option.some.inj (Except.ok.inj (evicts.unused.symm.trans evicts'.unused))
        obtain rfl := Option.some.inj (evicts.entryAt.symm.trans evicts'.entryAt)
        exact fun equal => other (Option.some.inj equal)
    · exact fun stays => Or.inr ⟨n, g, element, evicts, fun equal => stays (congrArg some equal)⟩

end Insertion

section Step

variable {files : Files} {s t : Serving} {c c' : Cache} {lru : List Nat} {chain : Int → List Nat} {r data check d : Nat}
  {q : Request} {action : CacheAction} {event : Option CacheEvent}

theorem store_used {α : Type} {h h' : Heap α} {a : Nat} {f : α → α} (run : store h a f = .ok h') :
    (∃ x, h.cells a = some x) ∧ h' = h.modify a f := by
  obtain ⟨x, found, run⟩ := Result.bind_eq_ok.mp run
  exact ⟨⟨x, read_eq_ok.mp found⟩, (Except.ok.inj run).symm⟩

theorem Coherent.use_lasting (coherent : Coherent files c lru chain) (run : c.useElement check = .ok (c', d)) :
    Lasting c.elements c'.elements := by
  obtain ⟨elements, stored, -⟩ := Result.bind_eq_ok.mp run
  obtain ⟨⟨x, here⟩, -⟩ := store_used stored
  obtain ⟨n, nodes, head, tail, -, -, run', -⟩ := coherent.useElement here
  obtain ⟨rfl, -⟩ := Prod.mk.inj (Except.ok.inj (run.symm.trans run'))
  exact fun e => lasting_recount (c := c) (g := (· + 1)) e

theorem Coherent.hit_named {file : FileData} (coherent : Coherent files c lru chain) (stored : c.datas.cells data = some file)
    (look : c.cacheLookup data = .ok (some check)) :
    ∃ element, c.elements.cells check = some element ∧
      (∃ word, c.datas.cells element.word = some word ∧ word.fileName = file.fileName) ∧
      element.key = hashKey file.fileName c.maxCacheSize := by
  cases elements : chain (hashKey file.fileName c.maxCacheSize) with
  | nil =>
      rw [coherent.chained.lookup_empty stored elements] at look
      cases look
  | cons first rest =>
      obtain ⟨element, used, key⟩ := coherent.chained.used _ first (by rw [elements]; exact List.mem_cons_self)
      obtain ⟨word, named, -⟩ := coherent.named used
      rw [coherent.chained.lookup_head stored elements used named] at look
      split_ifs at look with same
      · obtain rfl := Option.some.inj (Except.ok.inj look)
        exact ⟨element, used, ⟨word, named, same.symm⟩, key⟩
      · cases look

theorem Coherent.miss_named {file : FileData} {e : Nat} {element : WordsElement} (coherent : Coherent files c lru chain)
    (sole : c.Sole) (stored : c.datas.cells data = some file) (look : c.cacheLookup data = .ok none)
    (used : c.elements.cells e = some element) (key : element.key = hashKey file.fileName c.maxCacheSize) :
    ∃ other, c.datas.cells element.word = some other ∧ other.fileName ≠ file.fileName := by
  have member := coherent.entries.bucket e element used
  rw [key] at member
  cases elements : chain (hashKey file.fileName c.maxCacheSize) with
  | nil =>
      rw [elements] at member
      cases member
  | cons first rest =>
      obtain ⟨head, usedHead, keyHead⟩ := coherent.chained.used _ first (by rw [elements]; exact List.mem_cons_self)
      obtain rfl := sole e first element head used usedHead (key.trans keyHead.symm)
      obtain ⟨word, named, -⟩ := coherent.named used
      rw [coherent.chained.lookup_head stored elements used named] at look
      split_ifs at look with same
      · cases look
      · exact ⟨word, named, Ne.symm same⟩

theorem readSection_lasting {next : Nat → Place} (run : s.readSection files r q data next = .ok (t, event)) :
    Lasting s.cache.elements t.cache.elements := by
  obtain ⟨file, -, run⟩ := Result.bind_eq_ok.mp run
  split at run
  · obtain ⟨rfl, -⟩ := Prod.mk.inj (Except.ok.inj run)
    exact fun _ => rfl
  · obtain ⟨datas, -, run⟩ := Result.bind_eq_ok.mp run
    obtain ⟨rfl, -⟩ := Prod.mk.inj (Except.ok.inj run)
    exact fun _ => rfl

theorem Ready.lasting (ready : Ready files s lru chain r q) (run : s.runRequest files r q = .ok (t, event))
    (other : ∀ data, q.place ≠ .inserting data) : Lasting s.cache.elements t.cache.elements := by
  cases place : q.place with
  | looking data =>
      simp only [Serving.runRequest, place] at run
      split_ifs at run
      · obtain ⟨found, -, run⟩ := Result.bind_eq_ok.mp run
        cases found with
        | none =>
            obtain ⟨rfl, -⟩ := Prod.mk.inj (Except.ok.inj run)
            exact fun _ => rfl
        | some check =>
            obtain ⟨⟨c, d⟩, use, run⟩ := Result.bind_eq_ok.mp run
            obtain ⟨rfl, -⟩ := Prod.mk.inj (Except.ok.inj run)
            exact ready.coherent.use_lasting use
      · exact readSection_lasting run
  | reading data =>
      simp only [Serving.runRequest, place] at run
      exact readSection_lasting run
  | inserting data => exact absurd place (other data)
  | sending check data =>
      simp only [Serving.runRequest, place] at run
      obtain ⟨event, -, run⟩ := Result.bind_eq_ok.mp run
      obtain ⟨rfl, -⟩ := Prod.mk.inj (Except.ok.inj run)
      exact fun _ => rfl
  | sendingOwn data =>
      simp only [Serving.runRequest, place] at run
      obtain ⟨event, -, run⟩ := Result.bind_eq_ok.mp run
      obtain ⟨rfl, -⟩ := Prod.mk.inj (Except.ok.inj run)
      exact fun _ => rfl
  | releasing check =>
      simp only [Serving.runRequest, place] at run
      obtain ⟨elements, stored, run⟩ := Result.bind_eq_ok.mp run
      obtain ⟨-, rfl⟩ := store_used stored
      obtain ⟨rfl, -⟩ := Prod.mk.inj (Except.ok.inj run)
      exact fun e => lasting_recount (c := s.cache) (g := (· - 1)) e
  | done =>
      simp only [Serving.runRequest, place] at run
      cases run

theorem Ready.sole_second (ready : Ready files s lru chain r q) (place : q.place = .inserting data)
    (run : s.secondSection r q data = .ok (t, event)) (sole : s.cache.Sole) :
    t.cache.Sole ↔ ¬ s.Collides (.run r) := by
  obtain ⟨file, stored, ok⟩ : Supplied files s.cache q.name (.inserting data) := place ▸ ready.supplied
  have own : q.place.own = some data := by rw [place]; rfl
  have fetched : Fetched files file := by
    unfold Fetched
    rwa [(requestReadfile_eq_ok ok).1]
  obtain ⟨found, look, run⟩ := Result.bind_eq_ok.mp run
  -- the entries of the bucket are those of other files that were there before
  have collides : s.Collides (.run r) ↔ ∃ e element other, s.cache.elements.cells e = some element ∧
      element.key = hashKey file.fileName s.cache.maxCacheSize ∧ s.cache.datas.cells element.word = some other ∧
      other.fileName ≠ file.fileName ∧ s.cache.Outlasts file.fileSize e := by
    constructor
    · rintro ⟨r', q', data', file', e, element, other, same, here', place', stored', rest⟩
      obtain rfl := CacheAction.run.inj same
      obtain rfl := Option.some.inj (ready.here.symm.trans here')
      obtain rfl := Place.inserting.inj (place.symm.trans place')
      obtain rfl := Option.some.inj (stored.symm.trans stored')
      exact ⟨e, element, other, rest⟩
    · rintro ⟨e, element, other, rest⟩
      exact ⟨r, q, data, file, e, element, other, rfl, ready.here, place, stored, rest⟩
  rw [collides]
  cases found with
  | some check =>
      obtain ⟨-, -, run⟩ := Result.bind_eq_ok.mp run
      obtain ⟨⟨c, d⟩, use, run⟩ := Result.bind_eq_ok.mp run
      obtain ⟨rfl, -⟩ := Prod.mk.inj (Except.ok.inj run)
      have coherent : Coherent files { s.cache with datas := s.cache.datas.free data } lru chain :=
        ready.coherent.fill fun e x used => Heap.free_of_ne (ready.unshared own used)
      refine iff_of_true ((coherent.use_lasting use).sole.mpr sole) ?_
      rintro ⟨e, element, other, used, key, named, differ, -⟩
      obtain ⟨first, used', named', key'⟩ := ready.coherent.hit_named stored look
      obtain rfl := sole e check element first used used' (key.trans key'.symm)
      obtain rfl := Option.some.inj (used.symm.trans used')
      obtain ⟨word, named', same⟩ := named'
      obtain rfl := Option.some.inj (named.symm.trans named')
      exact differ same
  | none =>
      obtain ⟨result, insert, run⟩ := Result.bind_eq_ok.mp run
      rcases ready.coherent.store_arrives stored fetched with
        ⟨full, none⟩ | ⟨c1, e1, lru1, chain1, gone, insert', coherent1, arrives, outlasts⟩
      · obtain rfl := Except.ok.inj (insert.symm.trans full)
        obtain ⟨rfl, -⟩ := Prod.mk.inj (Except.ok.inj run)
        refine iff_of_true sole ?_
        rintro ⟨e, -, -, -, -, -, -, stays⟩
        exact none e stays
      · obtain rfl := Except.ok.inj (insert.symm.trans insert')
        obtain ⟨⟨c, d⟩, use, run⟩ := Result.bind_eq_ok.mp run
        obtain ⟨rfl, -⟩ := Prod.mk.inj (Except.ok.inj run)
        change c.Sole ↔ _
        rw [(coherent1.use_lasting use).sole, arrives.sole_iff sole]
        constructor
        · rintro emptied ⟨e, element, -, used, key, -, -, stays⟩
          exact (outlasts e).mp stays (emptied e element used key)
        · intro apart e element used key
          by_contra stays
          obtain ⟨other, named, differ⟩ := ready.coherent.miss_named sole stored look used key
          exact apart ⟨e, element, other, used, key, named, differ, (outlasts e).mpr stays⟩

theorem Ready.sole_iff (ready : Ready files s lru chain r q) (run : s.step files (.run r) = .ok (t, event)) (sole : s.cache.Sole) :
    t.cache.Sole ↔ ¬ s.Collides (.run r) := by
  have start : s.step files (.run r) = s.runRequest files r q := by simp only [Serving.step, ready.here]
  rw [start] at run
  by_cases inserting : ∃ data, q.place = .inserting data
  · obtain ⟨data, place⟩ := inserting
    simp only [Serving.runRequest, place] at run
    exact ready.sole_second place run sole
  · have other (data : Nat) : q.place ≠ .inserting data := fun place => inserting ⟨data, place⟩
    refine iff_of_true ((ready.lasting run other).sole.mpr sole) ?_
    rintro ⟨r', q', data, file, e, element, word, same, here, place, -⟩
    obtain rfl := CacheAction.run.inj same
    obtain rfl := Option.some.inj (ready.here.symm.trans here)
    exact other data place

theorem Sound.found_once_step {maxCacheSize : Int} {labels : List (CacheAction × Option CacheEvent)}
    (sound : Sound files maxCacheSize labels s) (run : s.step files action = .ok (t, event)) (once : s.cache.FoundOnce) :
    t.cache.FoundOnce ↔ ¬ s.Collides action := by
  obtain ⟨lru, chain, coherent, -⟩ := sound.listed
  obtain ⟨lru', chain', coherent', -⟩ := (sound.step run).listed
  rw [coherent.found_once_iff] at once
  rw [coherent'.found_once_iff]
  cases action with
  | start name =>
      obtain ⟨rfl, -⟩ := Prod.mk.inj (Except.ok.inj run)
      refine iff_of_true once ?_
      rintro ⟨r, q, data, file, e, element, word, same, -⟩
      cases same
  | run r =>
      obtain ⟨q, here, -⟩ := run_cases run
      exact Ready.sole_iff ⟨coherent, sound.accounted, here⟩ run once

end Step

section Runs

variable {files : Files} {s : Serving} {maxCacheSize : Int} {labels : List (CacheAction × Option CacheEvent)}

/-- In a run, files have one entry each and are found in every state exactly if no step inserts a file
into a bucket that keeps another one. -/
theorem cache_found_once_iff (positive : 0 < maxCacheSize) (run : CacheRuns files maxCacheSize labels s) :
    (∀ front t, front <+: labels → CacheRuns files maxCacheSize front t → t.cache.FoundOnce) ↔
      ∀ front label t, front ++ [label] <+: labels → CacheRuns files maxCacheSize front t → ¬ t.Collides label.1 := by
  induction run with
  | start =>
      constructor
      · intro _ front label t short
        simp at short
      · intro _ front t short reached
        obtain rfl := List.prefix_nil.mp short
        obtain rfl := reached.eq_of_nil rfl
        obtain ⟨lru, chain, coherent, -⟩ := (Sound.of_run positive reached).listed
        refine coherent.found_once_iff.mpr fun e f x y used => ?_
        cases used
  | @step labels s label u run taken ih =>
      have one := (Sound.of_run positive run).found_once_step taken
      constructor
      · intro always front other t part reached
        rcases List.prefix_concat_iff.mp part with whole | part
        · obtain ⟨rfl, same⟩ := List.append_inj' whole rfl
          obtain rfl := (List.cons.inj same).1
          obtain rfl := reached.unique run
          exact (one (always front t (List.prefix_append _ _) run)).mp (always _ u (List.prefix_refl _) (run.step taken))
        · exact ih.mp (fun front t part => always front t (part.trans (List.prefix_append _ _))) front other t part reached
      · intro apart
        have before := ih.mpr fun front label t part => apart front label t (part.trans (List.prefix_append _ _))
        intro front t part reached
        rcases List.prefix_concat_iff.mp part with rfl | part
        · obtain rfl := reached.unique (run.step taken)
          exact (one (before labels s (List.prefix_refl _) run)).mpr (apart labels label s (List.prefix_refl _) run)
        · exact before front t part reached

def sameBucket : Files := fun name => if name = [97] ∨ name = [100] then some ⟨true, true, [1]⟩ else none

def missing : List CacheAction :=
  [.start [97], .run 0, .run 0, .run 0, .start [100], .run 1, .run 1, .run 1, .start [100], .run 2, .run 2, .run 2]

theorem cache_found_once_fails :
    ∃ labels s, CacheRuns sameBucket 3 labels s ∧ s.cache.find [100] = .ok none ∧ s.cache.Caches [100] 1 ∧
      s.cache.Caches [100] 2 ∧ s.cache.currentSize = 3 ∧ ¬ s.cache.FoundOnce := by
  have run := Transition.Run.of_execute (Serving.step sameBucket) (servingInit 3) missing (by decide)
  generalize ended : ((Transition.execute (Serving.step sameBucket) (servingInit 3) missing).get (by decide)).2 = s at run
  have chain : Linked.Path (chainIn s.cache.elements) (s.cache.ht 1) [0, 1, 2] none := by
    subst ended
    exact ⟨by decide, by decide, by decide, (by decide : chainIn _ 2 = none)⟩
  have first : s.cache.Caches [100] 1 := by
    subst ended
    exact ⟨1, _, _, ⟨_, chain, by decide⟩, rfl, rfl, rfl⟩
  have second : s.cache.Caches [100] 2 := by
    subst ended
    exact ⟨1, _, _, ⟨_, chain, by decide⟩, rfl, rfl, rfl⟩
  refine ⟨_, s, run, ?_, first, second, ?_, fun found => ?_⟩
  · subst ended
    decide
  · subst ended
    decide
  · exact absurd (found.once _ 1 2 first second) (by decide)

theorem cache_found_once_iff_meeting :
    ∃ labels s, CacheRuns twoFiles 3 labels s ∧
      ((∀ front t, front <+: labels → CacheRuns twoFiles 3 front t → t.cache.FoundOnce) ↔
        ∀ front label t, front ++ [label] <+: labels → CacheRuns twoFiles 3 front t → ¬ t.Collides label.1) := by
  have run := Transition.Run.of_execute (Serving.step twoFiles) (servingInit 3) meeting (by decide)
  exact ⟨_, _, run, cache_found_once_iff (by decide) run⟩

end Runs

end OperatingSystem.Webserver
