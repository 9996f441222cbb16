import Mathlib.Algebra.Order.BigOperators.Group.List
import Mathlib.Algebra.Order.Ring.Int
import OperatingSystem.Webserver.Buckets

namespace OperatingSystem.Webserver

def Fetched (files : Files) (file : FileData) : Prop :=
  requestReadfile files (fileDataInit file.fileName) = .ok file

def WordsElement.lasting (e : WordsElement) : WordsElement := { e with next := none, refCount := 0 }

def Lasting (h h' : Heap WordsElement) : Prop :=
  ∀ e, (h'.cells e).map WordsElement.lasting = (h.cells e).map WordsElement.lasting

theorem Lasting.used {h h' : Heap WordsElement} {e : Nat} {x : WordsElement} (same : Lasting h h')
    (used : h.cells e = some x) : ∃ x', h'.cells e = some x' ∧ x'.lasting = x.lasting := by
  have fields := same e
  rw [used, Option.map_some, Option.map_eq_some_iff] at fields
  exact fields

theorem Lasting.symm {h h' : Heap WordsElement} (same : Lasting h h') : Lasting h' h := fun e => (same e).symm

theorem lasting_eq {x y : WordsElement} (same : x.lasting = y.lasting) :
    x = { y with next := x.next, refCount := x.refCount } := by
  cases x
  cases y
  simp only [WordsElement.lasting, WordsElement.mk.injEq] at same ⊢
  simp_all

theorem Relinked.symm {h h' : Heap LRUNode} (same : Relinked h h') : Relinked h' h := fun n => (same n).symm

theorem Relinked.data {h h' : Heap LRUNode} {n : Nat} {node : LRUNode} (same : Relinked h h')
    (used : h.cells n = some node) : ∃ node', h'.cells n = some node' ∧ node'.data = node.data := by
  have fields := same n
  rw [used, Option.map_some, Option.map_eq_some_iff] at fields
  exact fields

def Cache.entryAt (c : Cache) (n : Nat) : Option Nat := (c.nodes.cells n).map LRUNode.data

def Cache.sizeAt (c : Cache) (n : Nat) : Int :=
  (((c.entryAt n).bind c.elements.cells).map WordsElement.sizeofword).getD 0

def Cache.countAt (c : Cache) (n : Nat) : Int :=
  (((c.entryAt n).bind c.elements.cells).map WordsElement.refCount).getD 0

def Cache.evictable (c : Cache) (l : List Nat) : List Nat := l.filter fun n => decide (c.countAt n = 0)

/-- `element` is a cached file under its name, with a node that leads back to it. -/
structure Entry (files : Files) (c : Cache) (e : Nat) (element : WordsElement) : Prop where
  word : element.word = element.data
  stored : ∃ file, c.datas.cells element.data = some file ∧ Fetched files file ∧ element.sizeofword = file.fileSize ∧
    element.key = hashKey file.fileName c.maxCacheSize
  located : ∃ n node, element.listLocation = some n ∧ c.nodes.cells n = some node ∧ node.data = e

structure Entries (files : Files) (c : Cache) (lru : List Nat) (chain : Int → List Nat) : Prop where
  entry : ∀ e element, c.elements.cells e = some element → Entry files c e element
  bucket : ∀ e element, c.elements.cells e = some element → e ∈ chain element.key
  listed : ∀ n node, c.nodes.cells n = some node → n ∈ lru
  owner : ∀ n node, c.nodes.cells n = some node →
    ∃ element, c.elements.cells node.data = some element ∧ element.listLocation = some n

/-- What holds of the cache between two critical sections. -/
structure Coherent (files : Files) (c : Cache) (lru : List Nat) (chain : Int → List Nat) : Prop where
  recency : Recency c lru
  chained : Chained c chain
  entries : Entries files c lru chain
  counted : c.currentSize = (lru.map c.sizeAt).sum
  limit : c.currentSize ≤ c.maxCacheSize

section Congr

variable {files : Files} {c c' : Cache} {lru lru' : List Nat} {chain : Int → List Nat}

theorem sizeAt_congr (elements : Lasting c.elements c'.elements) (nodes : Relinked c.nodes c'.nodes) :
    c'.sizeAt = c.sizeAt := by
  funext n
  have entry : c'.entryAt n = c.entryAt n := nodes n
  unfold Cache.sizeAt
  rw [entry]
  cases found : c.entryAt n with
  | none => rfl
  | some e =>
      have fields := congrArg (Option.map WordsElement.sizeofword) (elements e)
      rw [Option.map_map, Option.map_map] at fields
      exact congrArg (fun size : Option Int => size.getD 0) fields

theorem Entry.congr {e : Nat} {element element' : WordsElement} (entry : Entry files c e element)
    (same : element'.lasting = element.lasting) (nodes : Relinked c.nodes c'.nodes)
    (data : c'.datas.cells element.data = c.datas.cells element.data) (size : c'.maxCacheSize = c.maxCacheSize) :
    Entry files c' e element' := by
  obtain ⟨n, node, location, used, back⟩ := entry.located
  obtain ⟨node', used', sameData⟩ := nodes.data used
  have fields := lasting_eq same
  rw [fields]
  exact ⟨entry.word, by rw [data, size]; exact entry.stored, n, node', location, used', sameData.trans back⟩

theorem Entries.congr (entries : Entries files c lru chain) (elements : Lasting c.elements c'.elements)
    (nodes : Relinked c.nodes c'.nodes)
    (datas : ∀ e element, c.elements.cells e = some element → c'.datas.cells element.data = c.datas.cells element.data)
    (size : c'.maxCacheSize = c.maxCacheSize) (perm : ∀ n ∈ lru, n ∈ lru') : Entries files c' lru' chain where
  entry e element used := by
    obtain ⟨before, usedBefore, same⟩ := elements.symm.used used
    exact (entries.entry e before usedBefore).congr same.symm nodes (datas e before usedBefore) size
  bucket e element used := by
    obtain ⟨before, usedBefore, same⟩ := elements.symm.used used
    have member := entries.bucket e before usedBefore
    rw [lasting_eq same] at member
    exact member
  listed n node used := by
    obtain ⟨before, usedBefore, -⟩ := nodes.symm.data used
    exact perm n (entries.listed n before usedBefore)
  owner n node used := by
    obtain ⟨before, usedBefore, same⟩ := nodes.symm.data used
    obtain ⟨element, usedElement, location⟩ := entries.owner n before usedBefore
    obtain ⟨element', used', fields⟩ := elements.used usedElement
    refine ⟨element', same ▸ used', ?_⟩
    rw [lasting_eq fields]
    exact location

theorem Chained.congr (ch : Chained c chain) (next : ∀ k, ∀ e ∈ chain k, chainIn c'.elements e = chainIn c.elements e)
    (ht : c'.ht = c.ht) (elements : ∀ k, ∀ e ∈ chain k, ∃ element, c'.elements.cells e = some element ∧ element.key = k) :
    Chained c' chain where
  path k := by
    rw [ht]
    exact (ch.path k).congr (next k)
  nodup := ch.nodup
  used := elements

end Congr

def Cache.recount (c : Cache) (check : Nat) (g : Int → Int) : Cache :=
  { c with elements := c.elements.modify check fun e => { e with refCount := g e.refCount } }

section Use

variable {files : Files} {c : Cache} {lru : List Nat} {chain : Int → List Nat} {check : Nat} {g : Int → Int}
  {element : WordsElement}

theorem lasting_recount : Lasting c.elements (c.recount check g).elements :=
  fun _ => Heap.modify_map _ fun _ => rfl

theorem chainIn_recount (e : Nat) : chainIn (c.recount check g).elements e = chainIn c.elements e := by
  by_cases same : e = check
  · subst same
    have stored : (c.recount e g).elements.cells e = _ := Heap.modify_self
    rw [chainIn, stored, chainIn]
    cases c.elements.cells e <;> rfl
  · have stored : (c.recount check g).elements.cells e = c.elements.cells e := Heap.modify_of_ne same
    rw [chainIn, stored, chainIn]

theorem Coherent.recount (coherent : Coherent files c lru chain) : Coherent files (c.recount check g) lru chain where
  recency := ⟨coherent.recency.linked, coherent.recency.used⟩
  chained := by
    refine coherent.chained.congr (fun _ e _ => chainIn_recount e) rfl fun k e member => ?_
    obtain ⟨element, used, key⟩ := coherent.chained.used k e member
    obtain ⟨element', used', same⟩ := Lasting.used lasting_recount used
    refine ⟨element', used', ?_⟩
    rw [lasting_eq same]
    exact key
  entries := coherent.entries.congr lasting_recount (.refl _) (fun _ _ _ => rfl) rfl fun _ member => member
  counted := by
    have sizes : (c.recount check g).sizeAt = c.sizeAt := sizeAt_congr lasting_recount (.refl _)
    rw [sizes]
    exact coherent.counted
  limit := coherent.limit

theorem Coherent.relink {nodes : Heap LRUNode} {head tail : Option Nat} {lru' : List Nat}
    (coherent : Coherent files c lru chain) (recency : Recency (c.relink nodes head tail) lru')
    (relinked : Relinked c.nodes nodes) (perm : lru'.Perm lru) : Coherent files (c.relink nodes head tail) lru' chain where
  recency := recency
  chained := coherent.chained.congr (fun _ _ _ => rfl) rfl coherent.chained.used
  entries := coherent.entries.congr (fun _ => rfl) relinked (fun _ _ _ => rfl) rfl fun _ member => perm.mem_iff.mpr member
  counted := by
    have sizes : (c.relink nodes head tail).sizeAt = c.sizeAt := sizeAt_congr (fun _ => rfl) relinked
    rw [sizes, (perm.map c.sizeAt).sum_eq]
    exact coherent.counted
  limit := coherent.limit

theorem Coherent.useElement (coherent : Coherent files c lru chain) (here : c.elements.cells check = some element) :
    ∃ n nodes head tail, c.entryAt n = some check ∧ Relinked c.nodes nodes ∧
      c.useElement check = .ok ((c.recount check (· + 1)).relink nodes head tail, element.data) ∧
      Coherent files ((c.recount check (· + 1)).relink nodes head tail) (lru.erase n ++ [n]) chain := by
  obtain ⟨n, node, location, used, back⟩ := (coherent.entries.entry check element here).located
  have member := coherent.entries.listed n node used
  have counted : Coherent files (c.recount check (· + 1)) lru chain := coherent.recount
  obtain ⟨nodes, head, tail, run, recency, relinked⟩ := counted.recency.move member
  have perm : (lru.erase n ++ [n]).Perm lru := by
    rw [List.perm_comm]
    exact (List.perm_cons_erase member).trans (List.perm_append_singleton n _).symm
  refine ⟨n, nodes, head, tail, ?_, relinked, ?_, counted.relink recency relinked perm⟩
  · rw [Cache.entryAt, used, Option.map_some, back]
  · have stored : (c.recount check (· + 1)).elements.cells check = some { element with refCount := element.refCount + 1 } := by
      simp only [Cache.recount, Heap.modify_self, here, Option.map_some]
    have found : read (c.elements.modify check fun e => { e with refCount := e.refCount + 1 }) check =
        .ok { element with refCount := element.refCount + 1 } := read_eq_ok.mpr stored
    simp only [Cache.useElement, store_of_some here, Result.ok_bind, found, location, pointer]
    change ((c.recount check (· + 1)).deleteSwapNode n 1 >>= _) = _
    rw [run]
    rfl

end Use

structure Cache.Evicts (c : Cache) (amount : Int) (n e : Nat) (element : WordsElement) : Prop where
  unused : c.unused (c.nodes.next + 1) c.head = .ok (some n)
  entryAt : c.entryAt n = some e
  here : c.elements.cells e = some element
  large : amount ≤ element.sizeofword

structure Evicted (c c' : Cache) (n e : Nat) (element : WordsElement) : Prop where
  entryAt : c.entryAt n = some e
  here : c.elements.cells e = some element
  elements : Rechained (c.elements.free e) c'.elements
  nodes : Relinked (c.nodes.free n) c'.nodes
  datas : c'.datas = c.datas
  size : c'.maxCacheSize = c.maxCacheSize
  current : c'.currentSize = c.currentSize - element.sizeofword

section Evict

variable {files : Files} {c c' : Cache} {lru : List Nat} {chain : Int → List Nat} {n e : Nat} {element : WordsElement}

theorem Entries.location (entries : Entries files c lru chain) (at' : c.entryAt n = some e)
    (here : c.elements.cells e = some element) : element.listLocation = some n := by
  obtain ⟨node, used, rfl⟩ := Option.map_eq_some_iff.mp at'
  obtain ⟨again, here', location⟩ := entries.owner n node used
  rw [here] at here'
  obtain rfl := Option.some.inj here'
  exact location

theorem Entries.entryAt_inj (entries : Entries files c lru chain) {m : Nat} (first : c.entryAt n = some e)
    (second : c.entryAt m = some e) : n = m := by
  obtain ⟨node, used, rfl⟩ := Option.map_eq_some_iff.mp first
  obtain ⟨element, here, -⟩ := entries.owner n node used
  exact Option.some.inj ((entries.location first here).symm.trans (entries.location second here))

theorem Evicted.entryAt_of_ne (evicted : Evicted c c' n e element) {m : Nat} (other : m ≠ n) :
    c'.entryAt m = c.entryAt m := by
  have same := evicted.nodes m
  rw [Heap.free_of_ne other] at same
  exact same

theorem Evicted.used (evicted : Evicted c c' n e element) {f : Nat} {x : WordsElement} (other : f ≠ e)
    (used : c.elements.cells f = some x) : ∃ x', c'.elements.cells f = some x' ∧ x'.unchained = x.unchained :=
  evicted.elements.used ((Heap.free_of_ne other).trans used)

theorem Evicted.before (evicted : Evicted c c' n e element) {f : Nat} {x : WordsElement}
    (used : c'.elements.cells f = some x) :
    f ≠ e ∧ ∃ before, c.elements.cells f = some before ∧ before.unchained = x.unchained := by
  obtain ⟨before, usedBefore, same⟩ := evicted.elements.symm.used used
  obtain ⟨other, here⟩ := Heap.free_of_some usedBefore
  exact ⟨other, before, here, same⟩

theorem Evicted.entries (evicted : Evicted c c' n e element) (entries : Entries files c lru chain) :
    Entries files c' (lru.erase n) (Function.update chain element.key ((chain element.key).erase e)) where
  entry f x used := by
    obtain ⟨other, before, here, same⟩ := evicted.before used
    have entry := entries.entry f before here
    obtain ⟨m, node, location, usedNode, back⟩ := entry.located
    have different : m ≠ n := by
      rintro rfl
      have first : c.entryAt m = some f := by rw [Cache.entryAt, usedNode, Option.map_some, back]
      exact other (Option.some.inj (first.symm.trans evicted.entryAt))
    obtain ⟨node', usedNode', sameData⟩ := evicted.nodes.data ((Heap.free_of_ne different).trans usedNode)
    rw [unchained_eq same.symm]
    refine ⟨entry.word, ?_, m, node', location, usedNode', sameData.trans back⟩
    rw [evicted.datas, evicted.size]
    exact entry.stored
  bucket f x used := by
    obtain ⟨other, before, here, same⟩ := evicted.before used
    have member := entries.bucket f before here
    rw [unchained_eq same] at member
    change f ∈ chain x.key at member
    by_cases key : x.key = element.key
    · rw [key, Function.update_self]
      exact (List.mem_erase_of_ne other).mpr (key ▸ member)
    · rw [Function.update_of_ne key]
      exact member
  listed m node used := by
    obtain ⟨before, usedBefore, -⟩ := evicted.nodes.symm.data used
    obtain ⟨other, here⟩ := Heap.free_of_some usedBefore
    exact (List.mem_erase_of_ne other).mpr (entries.listed m before here)
  owner m node used := by
    obtain ⟨before, usedBefore, sameData⟩ := evicted.nodes.symm.data used
    obtain ⟨other, here⟩ := Heap.free_of_some usedBefore
    obtain ⟨x, usedX, location⟩ := entries.owner m before here
    have different : before.data ≠ e := by
      intro same
      have shared : c.entryAt m = some e := by rw [Cache.entryAt, here, Option.map_some, same]
      exact other (entries.entryAt_inj shared evicted.entryAt)
    obtain ⟨x', usedX', fields⟩ := evicted.used different usedX
    refine ⟨x', sameData ▸ usedX', ?_⟩
    rw [unchained_eq fields]
    exact location

theorem sizeAt_eq {x : WordsElement} (entry : c.entryAt n = some e) (used : c.elements.cells e = some x) :
    c.sizeAt n = x.sizeofword := by
  simp only [Cache.sizeAt, entry, Option.bind_some, used, Option.map_some, Option.getD_some]

theorem Evicted.sizes (evicted : Evicted c c' n e element) (entries : Entries files c lru chain) {m : Nat}
    (other : m ≠ n) (used : ∃ node, c.nodes.cells m = some node) : c'.sizeAt m = c.sizeAt m := by
  obtain ⟨node, used⟩ := used
  have first : c.entryAt m = some node.data := by rw [Cache.entryAt, used, Option.map_some]
  obtain ⟨x, here, -⟩ := entries.owner m node used
  have different : node.data ≠ e := by
    rintro same
    exact other (entries.entryAt_inj (same ▸ first) evicted.entryAt)
  obtain ⟨x', here', same⟩ := evicted.used different here
  rw [sizeAt_eq first here, sizeAt_eq ((evicted.entryAt_of_ne other).trans first) here', unchained_eq same]

theorem Entry.size_nonneg (entry : Entry files c e element) : 0 ≤ element.sizeofword := by
  obtain ⟨file, -, fetched, size, -⟩ := entry.stored
  rw [size]
  exact (requestReadfile_eq_ok fetched).2

theorem Evicted.coherent (evicted : Evicted c c' n e element) (coherent : Coherent files c lru chain) (member : n ∈ lru)
    (recency : Recency c' (lru.erase n))
    (chained : Chained c' (Function.update chain element.key ((chain element.key).erase e))) :
    Coherent files c' (lru.erase n) (Function.update chain element.key ((chain element.key).erase e)) where
  recency := recency
  chained := chained
  entries := evicted.entries coherent.entries
  counted := by
    have kept : (lru.erase n).map c'.sizeAt = (lru.erase n).map c.sizeAt := by
      apply List.map_congr_left
      intro m there
      have other : m ≠ n := by
        rintro rfl
        exact coherent.recency.linked.nodup.not_mem_erase there
      exact evicted.sizes coherent.entries other (coherent.recency.used m (List.mem_of_mem_erase there))
    have total := List.sum_map_erase c.sizeAt member
    rw [sizeAt_eq evicted.entryAt evicted.here, ← coherent.counted] at total
    rw [kept, evicted.current]
    omega
  limit := by
    have nonneg := (coherent.entries.entry e element evicted.here).size_nonneg
    have limit := coherent.limit
    rw [evicted.current, evicted.size]
    omega

theorem Recency.length_le {l : List Nat} (r : Recency c l) : l.length ≤ c.nodes.next := by
  have inside : l ⊆ List.range c.nodes.next := by
    intro n member
    obtain ⟨node, used⟩ := r.used n member
    exact List.mem_range.mpr (Heap.lt_next used)
  simpa using (r.linked.nodup.subperm inside).length_le

theorem Coherent.occupied {m : Nat} (coherent : Coherent files c lru chain) (member : m ∈ lru) :
    ∃ node element, c.nodes.cells m = some node ∧ c.elements.cells node.data = some element ∧
      c.entryAt m = some node.data := by
  obtain ⟨node, used⟩ := coherent.recency.used m member
  obtain ⟨element, here, -⟩ := coherent.entries.owner m node used
  exact ⟨node, element, used, here, by rw [Cache.entryAt, used, Option.map_some]⟩

theorem countAt_eq {x : WordsElement} (entry : c.entryAt n = some e) (used : c.elements.cells e = some x) :
    c.countAt n = x.refCount := by
  simp only [Cache.countAt, entry, Option.bind_some, used, Option.map_some, Option.getD_some]

theorem Coherent.unused {l : List Nat} {p : Option Nat} {fuel : Nat} (coherent : Coherent files c lru chain)
    (path : Linked.Path (nextIn c.nodes) p l none) (inside : ∀ m ∈ l, m ∈ lru) (enough : l.length < fuel) :
    c.unused fuel p = .ok (c.evictable l).head? := by
  induction l generalizing p fuel with
  | nil =>
      obtain ⟨fuel, rfl⟩ : ∃ n, fuel = n + 1 := ⟨fuel - 1, by simp at enough; omega⟩
      rw [show p = none from path]
      rfl
  | cons m l ih =>
      obtain ⟨fuel, rfl⟩ : ∃ n, fuel = n + 1 := ⟨fuel - 1, by simp at enough; omega⟩
      obtain ⟨node, element, used, here, entryAt⟩ := coherent.occupied (inside m List.mem_cons_self)
      have rest := path.2
      rw [nextIn_eq used] at rest
      rw [path.1]
      simp only [Cache.unused, read_eq_ok.mpr used, read_eq_ok.mpr here, Result.ok_bind]
      have count := countAt_eq entryAt here
      by_cases busy : element.refCount ≠ 0
      · have skipped : c.evictable (m :: l) = c.evictable l := List.filter_cons_of_neg (by simpa [count] using busy)
        rw [if_pos busy, skipped]
        exact ih rest (fun m' there => inside m' (List.mem_cons_of_mem m there)) (by simpa using enough)
      · have kept : c.evictable (m :: l) = m :: c.evictable l := List.filter_cons_of_pos (by simpa [count] using busy)
        rw [if_neg busy, kept]
        rfl

/-- `cache_evict` fails or frees one entry that no request uses and that is large enough. -/
theorem Coherent.cacheEvict (coherent : Coherent files c lru chain) (amount : Int) :
    (c.cacheEvict amount = .ok none ∧ ∀ n e element, ¬ c.Evicts amount n e element) ∨
    ∃ n e element c', c.cacheEvict amount = .ok (some c') ∧ c.Evicts amount n e element ∧
      Evicted c c' n e element ∧ element.refCount = 0 ∧
      Coherent files c' (lru.erase n) (Function.update chain element.key ((chain element.key).erase e)) := by
  have path := coherent.recency.linked.forward
  have enough : lru.length < c.nodes.next + 1 := Nat.lt_succ_of_le coherent.recency.length_le
  have found := coherent.unused path (fun _ member => member) enough
  cases first : (c.evictable lru).head? with
  | none =>
      rw [first] at found
      refine Or.inl ⟨by simp only [Cache.cacheEvict, found, Result.ok_bind]; rfl, ?_⟩
      rintro n e element ⟨found', -⟩
      rw [found] at found'
      cases found'
  | some n =>
  rw [first] at found
  obtain ⟨member, free⟩ := List.mem_filter.mp (List.mem_of_mem_head? first)
  obtain ⟨node, element, used, here, entryAt⟩ := coherent.occupied member
  have idle : element.refCount = 0 := by
    rw [← countAt_eq entryAt here]
    exact of_decide_eq_true free
  have start : c.cacheEvict amount = (if amount ≤ element.sizeofword then do
      let c ← Cache.deleteHash { c with currentSize := c.currentSize - element.sizeofword } node.data
      return some (← c.deleteSwapNode n 0)
    else return none) := by
    simp only [Cache.cacheEvict, found, Result.ok_bind, read_eq_ok.mpr used, read_eq_ok.mpr here]
  by_cases large : amount ≤ element.sizeofword
  swap
  · refine Or.inl ⟨by rw [start, if_neg large]; rfl, ?_⟩
    rintro m f other ⟨found', entryAt', here', enough⟩
    obtain rfl := Option.some.inj (Except.ok.inj (found.symm.trans found'))
    obtain rfl := Option.some.inj (entryAt.symm.trans entryAt')
    obtain rfl := Option.some.inj (here.symm.trans here')
    exact large enough
  rw [start, if_pos large]
  let c1 : Cache := { c with currentSize := c.currentSize - element.sizeofword }
  have chained : Chained c1 chain := coherent.chained.congr (fun _ _ _ => rfl) rfl coherent.chained.used
  obtain ⟨elements, ht, unlink, rechained, chained⟩ := chained.delete here (coherent.entries.bucket _ _ here)
  have recency : Recency (c1.rechain elements ht) lru := ⟨coherent.recency.linked, coherent.recency.used⟩
  obtain ⟨nodes, head, tail, remove, recency, relinked⟩ := recency.remove member
  let c2 := (c1.rechain elements ht).relink nodes head tail
  have evicted : Evicted c c2 n node.data element := ⟨entryAt, here, rechained, relinked, rfl, rfl, rfl⟩
  have ended : Chained c2 (Function.update chain element.key ((chain element.key).erase node.data)) :=
    chained.congr (fun _ _ _ => rfl) rfl chained.used
  refine Or.inr ⟨n, node.data, element, c2, ?_, ⟨found, entryAt, here, large⟩, evicted, idle, evicted.coherent coherent member recency ended⟩
  change (c1.deleteHash node.data >>= _) = _
  rw [unlink, Result.ok_bind, remove]
  rfl

end Evict

structure Inserted (c c' : Cache) (data n e : Nat) : Prop where
  others : ∀ f, f ≠ e → (c'.elements.cells f).map WordsElement.unchained = (c.elements.cells f).map WordsElement.unchained
  here : ∃ element, c'.elements.cells e = some element ∧ element.word = data ∧ element.data = data ∧
    element.refCount = 0 ∧ element.listLocation = some n
  fresh : c.elements.cells e = none
  entryAt : c'.entryAt n = some e
  entries : ∀ m, m ≠ n → c'.entryAt m = c.entryAt m
  vacant : c.nodes.cells n = none
  datas : c'.datas = c.datas
  size : c'.maxCacheSize = c.maxCacheSize

section Insert

variable {files : Files} {c c' : Cache} {lru : List Nat} {chain : Int → List Nat} {data : Nat} {file : FileData}

theorem Chained.alloc {element : WordsElement} (ch : Chained c chain) :
    Chained { c with elements := c.elements.alloc element } chain := by
  refine ch.congr (fun k e member => ?_) rfl fun k e member => ?_
  all_goals
    obtain ⟨x, used, key⟩ := ch.used k e member
    have same := Heap.alloc_of_ne (x := element) (Heap.ne_next used)
  · change ((c.elements.alloc element).cells e).bind WordsElement.next = _
    rw [same, chainIn]
  · exact ⟨x, same.trans used, key⟩

theorem Chained.locate {e : Nat} {location : Option Nat} (ch : Chained c chain) :
    Chained { c with elements := c.elements.modify e fun x => { x with listLocation := location } } chain := by
  refine ch.congr (fun k f member => ?_) rfl fun k f member => ?_
  all_goals
    obtain ⟨x, used, key⟩ := ch.used k f member
    by_cases same : f = e
  · subst same
    have stored := Heap.modify_self (h := c.elements) (a := f) (f := fun x => { x with listLocation := location })
    change ((c.elements.modify f _).cells f).bind WordsElement.next = _
    rw [stored, chainIn, used]
    rfl
  · change ((c.elements.modify e _).cells f).bind WordsElement.next = _
    rw [Heap.modify_of_ne same, chainIn]
  · subst same
    refine ⟨{ x with listLocation := location }, ?_, key⟩
    change (c.elements.modify f _).cells f = _
    rw [Heap.modify_self, used, Option.map_some]
  · refine ⟨x, ?_, key⟩
    change (c.elements.modify e _).cells f = _
    rw [Heap.modify_of_ne same, used]

theorem Inserted.before {n e f : Nat} {x : WordsElement} (inserted : Inserted c c' data n e) (other : f ≠ e)
    (used : c'.elements.cells f = some x) : ∃ before, c.elements.cells f = some before ∧ x.unchained = before.unchained := by
  have fields := inserted.others f other
  rw [used, Option.map_some, eq_comm, Option.map_eq_some_iff] at fields
  obtain ⟨before, here, same⟩ := fields
  exact ⟨before, here, same.symm⟩

theorem Inserted.used {n e f : Nat} {x : WordsElement} (inserted : Inserted c c' data n e)
    (used : c.elements.cells f = some x) : ∃ x', c'.elements.cells f = some x' ∧ x'.unchained = x.unchained := by
  have other : f ≠ e := by
    rintro rfl
    rw [inserted.fresh] at used
    cases used
  have fields := inserted.others f other
  rw [used, Option.map_some, Option.map_eq_some_iff] at fields
  exact fields

theorem Inserted.node {n e m : Nat} {node : LRUNode} (inserted : Inserted c c' data n e) (other : m ≠ n)
    (used : c'.nodes.cells m = some node) : ∃ before, c.nodes.cells m = some before ∧ before.data = node.data := by
  have fields := inserted.entries m other
  rw [Cache.entryAt, used, Option.map_some, eq_comm] at fields
  exact Option.map_eq_some_iff.mp fields

theorem Inserted.entries' {n e : Nat} {element : WordsElement} (inserted : Inserted c c' data n e)
    (entries : Entries files c lru chain) (here : c'.elements.cells e = some element)
    (stored : c.datas.cells data = some file) (fetched : Fetched files file) (size : element.sizeofword = file.fileSize)
    (key : element.key = hashKey file.fileName c.maxCacheSize) :
    Entries files c' (lru ++ [n]) (Function.update chain element.key (chain element.key ++ [e])) where
  entry f x used := by
    by_cases same : f = e
    · subst same
      obtain rfl := Option.some.inj (here.symm.trans used)
      obtain ⟨again, here', word, sameData, -, location⟩ := inserted.here
      obtain rfl := Option.some.inj (here.symm.trans here')
      obtain ⟨node, usedNode, back⟩ := Option.map_eq_some_iff.mp inserted.entryAt
      refine ⟨word.trans sameData.symm, ?_, n, node, location, usedNode, back⟩
      rw [sameData, inserted.datas, inserted.size]
      exact ⟨file, stored, fetched, size, key⟩
    · obtain ⟨before, usedBefore, fields⟩ := inserted.before same used
      have entry := entries.entry f before usedBefore
      obtain ⟨m, node, location, usedNode, back⟩ := entry.located
      have other : m ≠ n := by
        rintro rfl
        rw [inserted.vacant] at usedNode
        cases usedNode
      have kept := inserted.entries m other
      have entryAt : c.entryAt m = some f := by rw [Cache.entryAt, usedNode, Option.map_some, back]
      obtain ⟨node', usedNode', back'⟩ := Option.map_eq_some_iff.mp (kept.trans entryAt)
      rw [unchained_eq fields]
      refine ⟨entry.word, ?_, m, node', location, usedNode', back'⟩
      rw [inserted.datas, inserted.size]
      exact entry.stored
  bucket f x used := by
    by_cases same : f = e
    · subst same
      obtain rfl := Option.some.inj (here.symm.trans used)
      rw [Function.update_self]
      exact List.mem_append_right _ (List.mem_singleton_self f)
    · obtain ⟨before, usedBefore, fields⟩ := inserted.before same used
      have member := entries.bucket f before usedBefore
      rw [unchained_eq fields.symm] at member
      change f ∈ chain x.key at member
      by_cases sameKey : x.key = element.key
      · rw [sameKey, Function.update_self]
        exact List.mem_append_left _ (sameKey ▸ member)
      · rw [Function.update_of_ne sameKey]
        exact member
  listed m node used := by
    by_cases same : m = n
    · exact List.mem_append_right _ (List.mem_singleton.mpr same)
    · obtain ⟨before, usedBefore, -⟩ := inserted.node same used
      exact List.mem_append_left _ (entries.listed m before usedBefore)
  owner m node used := by
    by_cases same : m = n
    · subst same
      have entryAt := inserted.entryAt
      rw [Cache.entryAt, used, Option.map_some] at entryAt
      obtain ⟨again, here', -, -, -, location⟩ := inserted.here
      exact ⟨again, Option.some.inj entryAt ▸ here', location⟩
    · obtain ⟨before, usedBefore, sameData⟩ := inserted.node same used
      obtain ⟨x, usedX, location⟩ := entries.owner m before usedBefore
      obtain ⟨x', usedX', fields⟩ := inserted.used usedX
      refine ⟨x', sameData ▸ usedX', ?_⟩
      rw [unchained_eq fields]
      exact location

theorem Inserted.sizes {n e m : Nat} (inserted : Inserted c c' data n e) (entries : Entries files c lru chain)
    (used : ∃ node, c.nodes.cells m = some node) : c'.sizeAt m = c.sizeAt m := by
  obtain ⟨node, used⟩ := used
  have first : c.entryAt m = some node.data := by rw [Cache.entryAt, used, Option.map_some]
  have other : m ≠ n := by
    rintro rfl
    rw [inserted.vacant] at used
    cases used
  obtain ⟨x, here, -⟩ := entries.owner m node used
  obtain ⟨x', here', same⟩ := inserted.used here
  rw [sizeAt_eq first here, sizeAt_eq ((inserted.entries m other).trans first) here', unchained_eq same]

theorem Coherent.insertElement (coherent : Coherent files c lru chain) (stored : c.datas.cells data = some file)
    (fetched : Fetched files file) (room : c.currentSize + file.fileSize ≤ c.maxCacheSize) :
    ∃ n e c' chain', c.insertElement data file.fileSize = .ok (some (c', e)) ∧ Inserted c c' data n e ∧
      Coherent files c' (lru ++ [n]) chain' := by
  let key := hashKey file.fileName c.maxCacheSize
  let e := c.elements.next
  let n := c.nodes.next
  let element : WordsElement := ⟨data, file.fileSize, key, 0, data, none, none⟩
  let c1 : Cache := { c with currentSize := c.currentSize + file.fileSize, elements := c.elements.alloc element }
  have fresh : c.elements.cells e = none := c.elements.fresh _ (Nat.le_refl _)
  have vacant : c.nodes.cells n = none := c.nodes.fresh _ (Nat.le_refl _)
  have chained : Chained c1 chain := coherent.chained.alloc.congr (fun _ _ _ => rfl) rfl coherent.chained.alloc.used
  have outside : ∀ k, e ∉ chain k := by
    intro k member
    obtain ⟨x, used, -⟩ := coherent.chained.used k e member
    rw [fresh] at used
    cases used
  have here : c1.elements.cells e = some element := Heap.alloc_next
  obtain ⟨elements, ht, link, rechained, chained⟩ := chained.insert (k := key) here rfl rfl outside
  obtain ⟨linked, here, fields⟩ := rechained.used here
  let c2 := c1.rechain elements ht
  let c3 : Cache := { c2 with nodes := c2.nodes.alloc ⟨none, none, e⟩, elements := c2.elements.modify e fun x => { x with listLocation := some n } }
  have chained : Chained c3 (Function.update chain key (chain key ++ [e])) :=
    chained.locate.congr (fun _ _ _ => rfl) rfl chained.locate.used
  have recency : Recency c3 lru := ⟨coherent.recency.alloc.linked, coherent.recency.alloc.used⟩
  have new : ∃ node, c3.nodes.cells n = some node := ⟨_, Heap.alloc_next⟩
  obtain ⟨nodes, head, tail, push, recency, relinked⟩ := recency.pushback new coherent.recency.next_notMem
  let c' := c3.relink nodes head tail
  have entryAt : c'.entryAt n = some e := by
    have same := relinked n
    rw [show c3.nodes.cells n = _ from Heap.alloc_next, Option.map_some] at same
    exact same
  have final : c'.elements.cells e = some { linked with listLocation := some n } := by
    change (elements.modify e _).cells e = _
    rw [Heap.modify_self, here, Option.map_some]
  have linkedEq := unchained_eq fields
  have inserted : Inserted c c' data n e := {
    others := by
      intro f other
      change ((elements.modify e _).cells f).map _ = _
      rw [Heap.modify_of_ne other, rechained f]
      exact congrArg (Option.map WordsElement.unchained) (Heap.alloc_of_ne other)
    here := ⟨_, final, by rw [linkedEq], by rw [linkedEq], by rw [linkedEq], rfl⟩
    fresh := fresh
    entryAt := entryAt
    entries := by
      intro m other
      exact (relinked m).trans (congrArg (Option.map LRUNode.data) (Heap.alloc_of_ne other))
    vacant := vacant
    datas := rfl
    size := rfl }
  have keyed : ({ linked with listLocation := some n } : WordsElement).key = key := by rw [linkedEq]
  have sized : ({ linked with listLocation := some n } : WordsElement).sizeofword = file.fileSize := by rw [linkedEq]
  refine ⟨n, e, c', _, ?_, inserted, ⟨recency, ?_, inserted.entries' coherent.entries final stored fetched sized keyed, ?_, room⟩⟩
  · have push' : Cache.pushbackLRU c3 n = .ok c' := push
    have locate := store_of_some here (f := fun x => { x with listLocation := some n })
    have link' : c1.chainElement key e = .ok c2 := link
    have insert : Cache.cacheInsert { c with currentSize := c.currentSize + file.fileSize } data = .ok (c', e) := by
      have start : Cache.cacheInsert { c with currentSize := c.currentSize + file.fileSize } data = (do
          let c ← c1.chainElement key e
          let elements ← store c.elements e fun x => { x with listLocation := some c.nodes.next }
          let c ← Cache.pushbackLRU { c with nodes := c.nodes.alloc ⟨none, none, e⟩, elements } c.nodes.next
          return (c, e)) := by
        simp only [Cache.cacheInsert, read_eq_ok.mpr stored, Result.ok_bind]
        rfl
      rw [start, link', Result.ok_bind]
      have locate' : store c2.elements e (fun x => { x with listLocation := some c2.nodes.next }) = .ok c3.elements := locate
      rw [locate', Result.ok_bind]
      change (Cache.pushbackLRU c3 n >>= _) = _
      rw [push']
      rfl
    simp only [Cache.insertElement, insert, Result.ok_bind]
    rfl
  · rw [keyed]
    exact chained.congr (fun _ _ _ => rfl) rfl chained.used
  · have kept : lru.map c'.sizeAt = lru.map c.sizeAt := by
      apply List.map_congr_left
      intro m member
      exact inserted.sizes coherent.entries (coherent.recency.used m member)
    have added : c'.sizeAt n = file.fileSize := (sizeAt_eq entryAt final).trans sized
    change c.currentSize + file.fileSize = _
    rw [List.map_append, List.sum_append, kept, ← coherent.counted, List.map_singleton, List.sum_singleton, added]

end Insert

end OperatingSystem.Webserver
