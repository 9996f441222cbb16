import OperatingSystem.Webserver.Found

namespace OperatingSystem.Webserver

structure Cache.Loses (c c' : Cache) (lru : List Nat) (chain : Int → List Nat) (victims : List Nat) : Prop where
  list : Recency c' (lru.filter fun n => decide (n ∉ victims))
  table : Chained c' fun k => (chain k).filter fun e => decide (∀ n ∈ victims, c.entryAt n ≠ some e)
  others : ∀ e element, c.elements.cells e = some element → (∀ n ∈ victims, c.entryAt n ≠ some e) →
    ∃ element', c'.elements.cells e = some element' ∧ element'.unchained = element.unchained
  current : c'.currentSize = c.currentSize - (victims.map c.sizeAt).sum

/-- Room for `amount` bytes is made with as few of the oldest unused entries as possible, if they suffice. -/
structure Cache.MakesRoom (c : Cache) (lru : List Nat) (chain : Int → List Nat) (amount : Int) (result : Option Cache) :
    Prop where
  evicted : amount ≤ ((c.evictable lru).map c.sizeAt).sum → ∃ c' victims, result = some c' ∧
    victims <+: c.evictable lru ∧ amount ≤ (victims.map c.sizeAt).sum ∧
    (∀ fewer, fewer <+: victims → amount ≤ (fewer.map c.sizeAt).sum → fewer = victims) ∧ c.Loses c' lru chain victims
  refused : ((c.evictable lru).map c.sizeAt).sum < amount → result = none

section Evict

variable {files : Files} {c c' : Cache} {lru : List Nat} {chain : Int → List Nat} {n e : Nat} {element : WordsElement}
  {amount : Int}

theorem Coherent.head_evictable (coherent : Coherent files c lru chain) :
    c.unused (c.nodes.next + 1) c.head = .ok (c.evictable lru).head? :=
  coherent.unused coherent.recency.linked.forward (fun _ member => member)
    (Nat.lt_succ_of_le coherent.recency.length_le)

theorem Coherent.evicts_iff (coherent : Coherent files c lru chain) :
    (∃ n e element, c.Evicts amount n e element) ↔
      ∃ first rest, c.evictable lru = first :: rest ∧ amount ≤ c.sizeAt first := by
  constructor
  · rintro ⟨n, e, element, unused, entryAt, here, large⟩
    rw [coherent.head_evictable] at unused
    obtain ⟨rest, shape⟩ := List.head?_eq_some_iff.mp (Except.ok.inj unused)
    refine ⟨n, rest, shape, ?_⟩
    rw [sizeAt_eq entryAt here]
    exact large
  · rintro ⟨first, rest, shape, large⟩
    have member : first ∈ lru := List.mem_of_mem_filter (shape ▸ List.mem_cons_self : first ∈ c.evictable lru)
    obtain ⟨node, element, -, here, entryAt⟩ := coherent.occupied member
    refine ⟨first, node.data, element, ?_, entryAt, here, ?_⟩
    · rw [coherent.head_evictable, shape]
      rfl
    · rw [← sizeAt_eq entryAt here]
      exact large

theorem Coherent.sizeAt_nonneg (coherent : Coherent files c lru chain) {m : Nat} (member : m ∈ lru) : 0 ≤ c.sizeAt m := by
  obtain ⟨node, element, -, here, entryAt⟩ := coherent.occupied member
  rw [sizeAt_eq entryAt here]
  exact (coherent.entries.entry _ _ here).size_nonneg

theorem Coherent.first_le_total (coherent : Coherent files c lru chain) {first : Nat} {rest : List Nat}
    (shape : c.evictable lru = first :: rest) : c.sizeAt first ≤ ((c.evictable lru).map c.sizeAt).sum := by
  have others : 0 ≤ (rest.map c.sizeAt).sum := by
    apply List.sum_nonneg
    intro size there
    obtain ⟨m, member, rfl⟩ := List.mem_map.mp there
    exact coherent.sizeAt_nonneg (List.mem_of_mem_filter (shape ▸ List.mem_cons_of_mem first member : m ∈ c.evictable lru))
  rw [shape, List.map_cons, List.sum_cons]
  omega

theorem Evicted.loses (evicted : Evicted c c' n e element) (coherent : Coherent files c lru chain)
    (after : Coherent files c' (lru.erase n) (Function.update chain element.key ((chain element.key).erase e))) :
    c.Loses c' lru chain [n] where
  list := by
    have same : (lru.filter fun m => decide (m ∉ [n])) = lru.erase n := by
      rw [coherent.recency.linked.nodup.erase_eq_filter]
      apply List.filter_congr
      intro m _
      rw [Bool.eq_iff_iff, decide_eq_true_iff, bne_iff_ne, List.mem_singleton]
    rw [same]
    exact after.recency
  table := by
    have same : (fun k => (chain k).filter fun f => decide (∀ m ∈ [n], c.entryAt m ≠ some f)) =
        Function.update chain element.key ((chain element.key).erase e) := by
      funext k
      have test (f : Nat) : decide (∀ m ∈ [n], c.entryAt m ≠ some f) = (f != e) := by
        simp only [List.mem_singleton, forall_eq, evicted.entryAt, ne_eq, Option.some.injEq]
        rw [Bool.eq_iff_iff, decide_eq_true_iff, bne_iff_ne, ne_comm]
      simp only [test]
      by_cases key : k = element.key
      · subst key
        rw [Function.update_self, (coherent.chained.nodup _).erase_eq_filter]
      · rw [Function.update_of_ne key, List.filter_eq_self]
        intro f member
        apply bne_iff_ne.mpr
        rintro rfl
        obtain ⟨again, used, place⟩ := coherent.chained.used k f member
        obtain rfl := Option.some.inj (evicted.here.symm.trans used)
        exact key place.symm
    rw [same]
    exact after.chained
  others f x used apart := by
    apply evicted.used _ used
    rintro rfl
    exact apart n (List.mem_singleton_self n) evicted.entryAt
  current := by
    rw [evicted.current, List.map_singleton, List.sum_singleton, sizeAt_eq evicted.entryAt evicted.here]

/-- `cache_evict` makes room exactly if the unused entries do not suffice or the oldest of them does. -/
theorem cacheEvict_makes_room_iff (coherent : Coherent files c lru chain) (positive : 0 < amount) :
    (∃ result, c.cacheEvict amount = .ok result ∧ c.MakesRoom lru chain amount result) ↔
      ((c.evictable lru).map c.sizeAt).sum < amount ∨
        ∃ first rest, c.evictable lru = first :: rest ∧ amount ≤ c.sizeAt first := by
  rcases coherent.cacheEvict amount with ⟨ran, kept⟩ | ⟨n, e, element, c', ran, evicts, evicted, -, after⟩
  · have small : ¬ ∃ first rest, c.evictable lru = first :: rest ∧ amount ≤ c.sizeAt first := by
      rw [← coherent.evicts_iff]
      rintro ⟨n, e, element, evicts⟩
      exact kept n e element evicts
    constructor
    · rintro ⟨result, ran', room⟩
      obtain rfl := Except.ok.inj (ran.symm.trans ran')
      left
      by_contra enough
      obtain ⟨c', victims, impossible, -⟩ := room.evicted (not_lt.mp enough)
      cases impossible
    · rintro (short | large)
      · exact ⟨none, ran, fun enough => absurd short (not_lt.mpr enough), fun _ => rfl⟩
      · exact absurd large small
  · obtain ⟨first, rest, shape, large⟩ := coherent.evicts_iff.mp ⟨n, e, element, evicts⟩
    have oldest : first = n := by
      have unused := evicts.unused
      rw [coherent.head_evictable, shape] at unused
      exact Option.some.inj (Except.ok.inj unused)
    subst oldest
    have total := coherent.first_le_total shape
    refine iff_of_true ⟨some c', ran, fun _ => ⟨c', [first], rfl, ?_, ?_, ?_, evicted.loses coherent after⟩, fun short => ?_⟩
      (.inr ⟨first, rest, shape, large⟩)
    · rw [shape]
      exact ⟨rest, rfl⟩
    · simpa using large
    · intro fewer front enough
      rcases List.prefix_cons_iff.mp front with rfl | ⟨tail, rfl, nothing⟩
      · rw [List.map_nil, List.sum_nil] at enough
        omega
      · rw [List.prefix_nil.mp nothing]
    · omega

def bothServed : List CacheAction :=
  .start [97] :: List.replicate 5 (.run 0) ++ .start [100] :: List.replicate 5 (.run 1)

theorem cacheEvict_makes_room_fails :
    ∃ labels s lru chain, CacheRuns sameBucket 3 labels s ∧ Coherent sameBucket s.cache lru chain ∧
      s.cache.cacheEvict 2 = .ok none ∧ ((s.cache.evictable lru).map s.cache.sizeAt).sum = 2 ∧
      ¬ ∃ result, s.cache.cacheEvict 2 = .ok result ∧ s.cache.MakesRoom lru chain 2 result := by
  have run := Transition.Run.of_execute (Serving.step sameBucket) (servingInit 3) bothServed (by decide)
  generalize ended : ((Transition.execute (Serving.step sameBucket) (servingInit 3) bothServed).get (by decide)).2 = s at run
  obtain ⟨lru, chain, coherent, -⟩ := (Sound.of_run (by decide) run).listed
  have order : lru = [0, 1] := by
    apply Linked.Path.unique coherent.recency.linked.forward
    subst ended
    exact ⟨by decide, by decide, (by decide : nextIn _ 1 = none)⟩
  subst order
  have refused : s.cache.cacheEvict 2 = .ok none := by
    subst ended
    rfl
  have total : ((s.cache.evictable [0, 1]).map s.cache.sizeAt).sum = 2 := by
    subst ended
    decide
  refine ⟨_, s, [0, 1], chain, run, coherent, refused, total, ?_⟩
  rintro ⟨result, ran, room⟩
  obtain rfl := Except.ok.inj (refused.symm.trans ran)
  obtain ⟨c', victims, impossible, -⟩ := room.evicted total.ge
  cases impossible

theorem cacheEvict_makes_room_iff_served :
    ∃ labels s lru chain, CacheRuns sameBucket 3 labels s ∧
      ((∃ result, s.cache.cacheEvict 1 = .ok result ∧ s.cache.MakesRoom lru chain 1 result) ↔
        ((s.cache.evictable lru).map s.cache.sizeAt).sum < 1 ∨
          ∃ first rest, s.cache.evictable lru = first :: rest ∧ 1 ≤ s.cache.sizeAt first) := by
  have run := Transition.Run.of_execute (Serving.step sameBucket) (servingInit 3) bothServed (by decide)
  obtain ⟨lru, chain, coherent, -⟩ := (Sound.of_run (by decide) run).listed
  exact ⟨_, _, lru, chain, run, cacheEvict_makes_room_iff coherent (by decide)⟩

end Evict

end OperatingSystem.Webserver
