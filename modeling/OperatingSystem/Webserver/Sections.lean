import OperatingSystem.Webserver.Entries

namespace OperatingSystem.Webserver

def Cache.count (c : Cache) (e : Nat) : Int := ((c.elements.cells e).map WordsElement.refCount).getD 0

structure Changed (c c' : Cache) (data : Nat) (taken : Option Nat) : Prop where
  kept : ∀ e x, c.elements.cells e = some x → x.refCount ≠ 0 →
    ∃ x', c'.elements.cells e = some x' ∧ x'.lasting = x.lasting
  count : ∀ e, c'.count e = c.count e + if taken = some e then 1 else 0
  source : ∀ e x', c'.elements.cells e = some x' → x'.data = data ∨ ∃ x, c.elements.cells e = some x ∧ x'.data = x.data
  datas : c'.datas = c.datas
  size : c'.maxCacheSize = c.maxCacheSize

section Changed

variable {files : Files} {c c' c'' : Cache} {lru : List Nat} {chain : Int → List Nat} {data n e : Nat}
  {taken : Option Nat} {element : WordsElement}

theorem lasting_of_unchained {x y : WordsElement} (same : x.unchained = y.unchained) : x.lasting = y.lasting := by
  have fields := congrArg WordsElement.lasting same
  exact fields

theorem count_eq (used : c.elements.cells e = some element) : c.count e = element.refCount := by
  simp only [Cache.count, used, Option.map_some, Option.getD_some]

theorem count_of_none (absent : c.elements.cells e = none) : c.count e = 0 := by
  simp only [Cache.count, absent, Option.map_none, Option.getD_none]

theorem count_congr (same : (c'.elements.cells e).map WordsElement.unchained = (c.elements.cells e).map WordsElement.unchained) :
    c'.count e = c.count e := by
  have fields := congrArg (Option.map WordsElement.refCount) same
  rw [Option.map_map, Option.map_map] at fields
  exact congrArg (fun count : Option Int => count.getD 0) fields

theorem Changed.trans (first : Changed c c' data none) (second : Changed c' c'' data taken) :
    Changed c c'' data taken where
  kept e x used busy := by
    obtain ⟨x', used', same⟩ := first.kept e x used busy
    have count := first.count e
    rw [count_eq used, count_eq used'] at count
    have busy' : x'.refCount ≠ 0 := by simpa [count] using busy
    obtain ⟨x'', used'', same'⟩ := second.kept e x' used' busy'
    exact ⟨x'', used'', same'.trans same⟩
  count e := by
    have before := first.count e
    rw [second.count e, before]
    simp
  source e x'' used := by
    rcases second.source e x'' used with own | ⟨x', used', same'⟩
    · exact Or.inl own
    · rcases first.source e x' used' with own | ⟨x, used, same⟩
      · exact Or.inl (same'.trans own)
      · exact Or.inr ⟨x, used, same'.trans same⟩
  datas := second.datas.trans first.datas
  size := second.size.trans first.size

theorem Evicted.changed (evicted : Evicted c c' n e element) (idle : element.refCount = 0) : Changed c c' data none where
  kept f x used busy := by
    have other : f ≠ e := by
      rintro rfl
      obtain rfl := Option.some.inj (evicted.here.symm.trans used)
      exact busy idle
    obtain ⟨x', used', same⟩ := evicted.used other used
    exact ⟨x', used', lasting_of_unchained same⟩
  count f := by
    simp only [reduceCtorEq, if_false, add_zero]
    by_cases same : f = e
    · subst same
      have gone : c'.elements.cells f = none := by
        have fields := evicted.elements f
        rw [Heap.free_self, Option.map_none] at fields
        exact Option.map_eq_none_iff.mp fields
      rw [count_of_none gone, count_eq evicted.here, idle]
    · refine count_congr ?_
      have fields := evicted.elements f
      rwa [Heap.free_of_ne same] at fields
  source f x' used := by
    obtain ⟨-, before, here, same⟩ := evicted.before used
    refine Or.inr ⟨before, here, ?_⟩
    rw [unchained_eq same]
  datas := evicted.datas
  size := evicted.size

theorem Inserted.changed (inserted : Inserted c c' data n e) : Changed c c' data none where
  kept f x used _ := by
    obtain ⟨x', used', same⟩ := inserted.used used
    exact ⟨x', used', lasting_of_unchained same⟩
  count f := by
    simp only [reduceCtorEq, if_false, add_zero]
    by_cases same : f = e
    · subst same
      obtain ⟨element, here, -, -, zero, -⟩ := inserted.here
      rw [count_of_none inserted.fresh, count_eq here, zero]
    · exact count_congr (inserted.others f same)
  source f x' used := by
    by_cases same : f = e
    · subst same
      obtain ⟨element, here, -, own, -⟩ := inserted.here
      obtain rfl := Option.some.inj (here.symm.trans used)
      exact Or.inl own
    · obtain ⟨before, here, fields⟩ := inserted.before same used
      refine Or.inr ⟨before, here, ?_⟩
      rw [unchained_eq fields]
  datas := inserted.datas
  size := inserted.size

theorem count_recount (g : Int → Int) (here : c.elements.cells n = some element) (e : Nat) :
    (c.recount n g).count e = if n = e then g (c.count e) else c.count e := by
  by_cases same : n = e
  · subst same
    have stored : (c.recount n g).elements.cells n = some { element with refCount := g element.refCount } := by
      simp only [Cache.recount, Heap.modify_self, here, Option.map_some]
    rw [if_pos rfl, count_eq stored, count_eq here]
  · have stored : (c.recount n g).elements.cells e = c.elements.cells e := Heap.modify_of_ne (Ne.symm same)
    rw [if_neg same, Cache.count, stored, Cache.count]

theorem Changed.take {nodes : Heap LRUNode} {head tail : Option Nat} (here : c.elements.cells e = some element) :
    Changed c ((c.recount e (· + 1)).relink nodes head tail) data (some e) where
  kept f x used _ := (lasting_recount (c := c) (g := (· + 1))).used used
  count f := by
    change (c.recount e (· + 1)).count f = _
    rw [count_recount _ here]
    by_cases same : e = f
    · rw [if_pos same, if_pos (congrArg some same)]
    · rw [if_neg same, if_neg fun equal => same (Option.some.inj equal), add_zero]
  source f x' used := by
    obtain ⟨x, before, same⟩ := (lasting_recount (c := c) (g := (· + 1))).symm.used used
    refine Or.inr ⟨x, before, ?_⟩
    rw [lasting_eq same]
  datas := rfl
  size := rfl

end Changed

/-- The list after a critical section that used the entry `e`: it is the last, the others that stay
keep their order. -/
def Reordered (c c' : Cache) (lru lru' : List Nat) (e : Nat) : Prop :=
  ∃ rest n, lru' = rest ++ [n] ∧ rest.Sublist lru ∧ (∀ m ∈ rest, c'.entryAt m = c.entryAt m) ∧ c'.entryAt n = some e

section Section

variable {files : Files} {c : Cache} {lru : List Nat} {chain : Int → List Nat} {data check : Nat} {element : WordsElement}
  {file : FileData}

theorem Coherent.use (coherent : Coherent files c lru chain) (data : Nat) (here : c.elements.cells check = some element) :
    ∃ c' lru', c.useElement check = .ok (c', element.data) ∧ Coherent files c' lru' chain ∧
      Changed c c' data (some check) ∧ Reordered c c' lru lru' check ∧
      ∃ x, c'.elements.cells check = some x ∧ x.lasting = element.lasting := by
  obtain ⟨n, nodes, head, tail, entryAt, relinked, run, coherent'⟩ := coherent.useElement here
  refine ⟨_, _, run, coherent', .take here, ⟨lru.erase n, n, rfl, List.erase_sublist, fun m _ => relinked m, ?_⟩, ?_⟩
  · exact (relinked n).trans entryAt
  · exact (lasting_recount (c := c) (g := (· + 1))).used here

theorem Coherent.useNew {n : Nat} (coherent : Coherent files c (lru ++ [n]) chain) (entryAt : c.entryAt n = some check)
    (here : c.elements.cells check = some element) :
    ∃ c', c.useElement check = .ok (c', element.data) ∧ Coherent files c' (lru ++ [n]) chain ∧
      Changed c c' data (some check) ∧ (∀ m, c'.entryAt m = c.entryAt m) ∧
      ∃ x, c'.elements.cells check = some x ∧ x.lasting = element.lasting := by
  obtain ⟨n', nodes, head, tail, entryAt', relinked, run, coherent'⟩ := coherent.useElement here
  obtain rfl := coherent.entries.entryAt_inj entryAt entryAt'
  have nodup := coherent.recency.linked.nodup
  have same : (lru ++ [n]).erase n = lru := by
    have middle := Recency.erase_middle nodup
    rwa [List.append_nil] at middle
  rw [same] at coherent'
  exact ⟨_, run, coherent', .take here, relinked, (lasting_recount (c := c) (g := (· + 1))).used here⟩

theorem Coherent.insertAndUse (coherent : Coherent files c lru chain) (stored : c.datas.cells data = some file)
    (fetched : Fetched files file) (room : c.currentSize + file.fileSize ≤ c.maxCacheSize) :
    ∃ c1 check c' lru' chain', c.insertElement data file.fileSize = .ok (some (c1, check)) ∧
      c1.useElement check = .ok (c', data) ∧ Coherent files c' lru' chain' ∧
      Changed c c' data (some check) ∧ Reordered c c' lru lru' check ∧
      ∃ x, c'.elements.cells check = some x ∧ x.data = data := by
  obtain ⟨n, e, c1, chain1, insert, inserted, coherent1⟩ := coherent.insertElement stored fetched room
  obtain ⟨element, here, -, own, -⟩ := inserted.here
  obtain ⟨c', use, coherent', taken, entries, x, usedX, lasting⟩ := coherent1.useNew inserted.entryAt here
  have sameData : x.data = element.data := by rw [lasting_eq lasting]
  have reordered : Reordered c c' lru (lru ++ [n]) e := by
    refine ⟨lru, n, rfl, .refl _, fun m member => ?_, (entries n).trans inserted.entryAt⟩
    have other : m ≠ n := by
      rintro rfl
      obtain ⟨node, used⟩ := coherent.recency.used m member
      rw [inserted.vacant] at used
      cases used
    exact (entries m).trans (inserted.entries m other)
  exact ⟨c1, e, c', _, chain1, insert, own ▸ use, coherent', inserted.changed.trans taken, reordered, x, usedX,
    sameData.trans own⟩

theorem Coherent.storeAndUse (coherent : Coherent files c lru chain) (stored : c.datas.cells data = some file)
    (fetched : Fetched files file) :
    c.cacheStore data = .ok none ∨ ∃ c1 check c' lru' chain', c.cacheStore data = .ok (some (c1, check)) ∧
      c1.useElement check = .ok (c', data) ∧ Coherent files c' lru' chain' ∧
      Changed c c' data (some check) ∧ Reordered c c' lru lru' check ∧
      ∃ x, c'.elements.cells check = some x ∧ x.data = data := by
  by_cases room : c.currentSize + file.fileSize ≤ c.maxCacheSize
  · have start : c.cacheStore data = c.insertElement data file.fileSize := by
      simp only [Cache.cacheStore, read_eq_ok.mpr stored, Result.ok_bind, if_pos room]
    rw [start]
    exact Or.inr (coherent.insertAndUse stored fetched room)
  rcases coherent.cacheEvict (file.fileSize - (c.maxCacheSize - c.currentSize)) with
    ⟨nothing, -⟩ | ⟨n, e, element, c0, evict, ⟨-, -, -, large⟩, evicted, idle, coherent0⟩
  · refine Or.inl ?_
    simp only [Cache.cacheStore, read_eq_ok.mpr stored, Result.ok_bind, if_neg room, nothing, Result.pure_eq_ok]
  have stored0 : c0.datas.cells data = some file := evicted.datas ▸ stored
  have room0 : c0.currentSize + file.fileSize ≤ c0.maxCacheSize := by
    rw [evicted.current, evicted.size]
    omega
  obtain ⟨c1, check, c', lru', chain', insert, use, coherent', changed, reordered, own⟩ :=
    coherent0.insertAndUse stored0 fetched room0
  obtain ⟨rest, n', shape, sublist, same, last⟩ := reordered
  have kept : ∀ m ∈ rest, c'.entryAt m = c.entryAt m := by
    intro m member
    have other : m ≠ n := by
      rintro rfl
      exact coherent.recency.linked.nodup.not_mem_erase (sublist.subset member)
    exact (same m member).trans (evicted.entryAt_of_ne other)
  refine Or.inr ⟨c1, check, c', lru', chain', ?_, use, coherent', (evicted.changed idle).trans changed,
    ⟨rest, n', shape, sublist.trans List.erase_sublist, kept, last⟩, own⟩
  simp only [Cache.cacheStore, read_eq_ok.mpr stored, Result.ok_bind, if_neg room, evict, insert]

theorem Coherent.fill {datas : Heap FileData} (coherent : Coherent files c lru chain)
    (other : ∀ e x, c.elements.cells e = some x → datas.cells x.data = c.datas.cells x.data) :
    Coherent files { c with datas } lru chain where
  recency := ⟨coherent.recency.linked, coherent.recency.used⟩
  chained := coherent.chained.congr (fun _ _ _ => rfl) rfl coherent.chained.used
  entries := coherent.entries.congr (fun _ => rfl) (.refl _) other rfl fun _ member => member
  counted := coherent.counted
  limit := coherent.limit

end Section

end OperatingSystem.Webserver
