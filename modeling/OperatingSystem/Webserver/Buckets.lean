import Mathlib.Data.List.Perm.Subperm
import OperatingSystem.Webserver.Recency

namespace OperatingSystem.Webserver

open Linked

def chainIn (h : Heap WordsElement) (e : Nat) : Option Nat := (h.cells e).bind WordsElement.next

def WordsElement.unchained (e : WordsElement) : WordsElement := { e with next := none }

def Rechained (h h' : Heap WordsElement) : Prop :=
  ∀ e, (h'.cells e).map WordsElement.unchained = (h.cells e).map WordsElement.unchained

section Fields

variable {h h' : Heap WordsElement} {a : Nat} {x y : WordsElement} {p : Option Nat}

theorem chainIn_eq (used : h.cells a = some x) : chainIn h a = x.next := by simp [chainIn, used]

theorem chainIn_setNext (used : h.cells a = some x) :
    chainIn (h.modify a fun e => { e with next := p }) = Function.update (chainIn h) a p := by
  funext e
  by_cases same : e = a
  · subst same
    simp [chainIn, Heap.modify_self, used]
  · rw [Function.update_of_ne same, chainIn, Heap.modify_of_ne same, chainIn]

theorem Rechained.setNext (h : Heap WordsElement) (a : Nat) (p : Option Nat) :
    Rechained h (h.modify a fun e => { e with next := p }) :=
  fun _ => Heap.modify_map _ fun _ => rfl

theorem Rechained.used (same : Rechained h h') (used : h.cells a = some x) :
    ∃ x', h'.cells a = some x' ∧ x'.unchained = x.unchained := by
  have fields := same a
  rw [used, Option.map_some, Option.map_eq_some_iff] at fields
  exact fields

theorem Rechained.symm (same : Rechained h h') : Rechained h' h := fun e => (same e).symm

theorem unchained_eq (same : x.unchained = y.unchained) : x = { y with next := x.next } := by
  cases x
  cases y
  simp only [WordsElement.unchained, WordsElement.mk.injEq] at same ⊢
  simp_all

end Fields

/-- The elements of `chain k`, in this order, are reached from bucket `k`. -/
structure Chained (c : Cache) (chain : Int → List Nat) : Prop where
  path : ∀ k, Path (chainIn c.elements) (c.ht k) (chain k) none
  nodup : ∀ k, (chain k).Nodup
  used : ∀ k, ∀ e ∈ chain k, ∃ element, c.elements.cells e = some element ∧ element.key = k

def Cache.rechain (c : Cache) (elements : Heap WordsElement) (ht : Int → Option Nat) : Cache := { c with elements, ht }

namespace Chained

variable {c : Cache} {chain : Int → List Nat} {k : Int} {e : Nat}

theorem length_le (ch : Chained c chain) : (chain k).length ≤ c.elements.next := by
  have inside : chain k ⊆ List.range c.elements.next := by
    intro e member
    obtain ⟨element, used, -⟩ := ch.used k e member
    exact List.mem_range.mpr (Heap.lt_next used)
  simpa using ((ch.nodup k).subperm inside).length_le

theorem lookup_miss {key : Name} {first : Nat} {element : WordsElement} {file : FileData} {l : List Nat} {p : Option Nat}
    {fuel : Nat} (ch : Chained c chain) (head : c.ht k = some first) (used : c.elements.cells first = some element)
    (word : c.datas.cells element.word = some file) (differ : key ≠ file.fileName)
    (path : Path (chainIn c.elements) p l none) (inside : ∀ e ∈ l, e ∈ chain k) (enough : l.length < fuel) :
    c.lookupLoop key k fuel p = .ok none := by
  induction l generalizing p fuel with
  | nil =>
      obtain ⟨fuel, rfl⟩ : ∃ n, fuel = n + 1 := ⟨fuel - 1, by simp at enough; omega⟩
      rw [show p = none from path]
      rfl
  | cons e l ih =>
      obtain ⟨fuel, rfl⟩ : ∃ n, fuel = n + 1 := ⟨fuel - 1, by simp at enough; omega⟩
      obtain ⟨here, usedHere, -⟩ := ch.used k e (inside e List.mem_cons_self)
      have rest := path.2
      rw [chainIn_eq usedHere] at rest
      have shorter := ih rest (fun e' member => inside e' (List.mem_cons_of_mem e member)) (by simpa using enough)
      rw [path.1]
      simp only [Cache.lookupLoop, head, pointer, Result.ok_bind, read_eq_ok.mpr used, read_eq_ok.mpr word,
        if_neg differ, read_eq_ok.mpr usedHere, shorter]

theorem lookup_start {data : Nat} {file : FileData} (here : c.datas.cells data = some file) :
    c.cacheLookup data = c.lookupLoop file.fileName (hashKey file.fileName c.maxCacheSize) (c.elements.next + 1)
      (c.ht (hashKey file.fileName c.maxCacheSize)) := by
  simp only [Cache.cacheLookup, read_eq_ok.mpr here, Result.ok_bind]

theorem lookup_empty {data : Nat} {file : FileData} (ch : Chained c chain) (here : c.datas.cells data = some file)
    (empty : chain (hashKey file.fileName c.maxCacheSize) = []) : c.cacheLookup data = .ok none := by
  have path := ch.path (hashKey file.fileName c.maxCacheSize)
  rw [empty] at path
  rw [lookup_start here, show c.ht (hashKey file.fileName c.maxCacheSize) = none from path]
  rfl

theorem lookup_head {data first : Nat} {rest : List Nat} {file word : FileData} {element : WordsElement} (ch : Chained c chain)
    (here : c.datas.cells data = some file) (elements : chain (hashKey file.fileName c.maxCacheSize) = first :: rest)
    (used : c.elements.cells first = some element) (named : c.datas.cells element.word = some word) :
    c.cacheLookup data = .ok (if file.fileName = word.fileName then some first else none) := by
  rw [lookup_start here]
  generalize hashKey file.fileName c.maxCacheSize = k at elements
  have path := ch.path k
  have bound := ch.length_le (k := k)
  have head : c.ht k = some first := by
    rw [elements] at path
    exact path.head
  by_cases same : file.fileName = word.fileName
  · simp only [head, Cache.lookupLoop, pointer, Result.ok_bind, read_eq_ok.mpr used, read_eq_ok.mpr named, if_pos same]
    rfl
  · rw [if_neg same]
    exact ch.lookup_miss head used named same path (fun e member => member) (by omega)

theorem lookup {data : Nat} {file : FileData} (ch : Chained c chain)
    (words : ∀ e element, c.elements.cells e = some element → ∃ file, c.datas.cells element.word = some file)
    (here : c.datas.cells data = some file) :
    c.cacheLookup data = .ok none ∨
    ∃ e element word, c.cacheLookup data = .ok (some e) ∧ c.elements.cells e = some element ∧
      c.datas.cells element.word = some word ∧ word.fileName = file.fileName := by
  cases elements : chain (hashKey file.fileName c.maxCacheSize) with
  | nil => exact Or.inl (ch.lookup_empty here elements)
  | cons first rest =>
      obtain ⟨element, used, -⟩ := ch.used _ first (by rw [elements]; exact List.mem_cons_self)
      obtain ⟨word, named⟩ := words first element used
      have found := ch.lookup_head here elements used named
      split_ifs at found with same
      · exact Or.inr ⟨first, element, word, found, used, named, same.symm⟩
      · exact Or.inl found

theorem lastOf {l : List Nat} {last current fuel : Nat} (ch : Chained c chain)
    (path : Path (chainIn c.elements) (some current) (l ++ [last]) none) (inside : ∀ e ∈ l ++ [last], e ∈ chain k)
    (enough : l.length < fuel) : c.lastOf fuel current = .ok last := by
  induction l generalizing current fuel with
  | nil =>
      obtain ⟨fuel, rfl⟩ : ∃ n, fuel = n + 1 := ⟨fuel - 1, by simp at enough; omega⟩
      obtain rfl := Option.some.inj path.1
      obtain ⟨element, used, -⟩ := ch.used k current (inside current (by simp))
      have next : element.next = none := by
        rw [← chainIn_eq used]
        exact path.2
      simp only [Cache.lastOf, read_eq_ok.mpr used, Result.ok_bind, next]
      rfl
  | cons e l ih =>
      obtain ⟨fuel, rfl⟩ : ∃ n, fuel = n + 1 := ⟨fuel - 1, by simp at enough; omega⟩
      obtain rfl := Option.some.inj path.1
      obtain ⟨element, used, -⟩ := ch.used k current (inside current (by simp))
      have rest := path.2
      rw [chainIn_eq used] at rest
      obtain ⟨next, here⟩ : ∃ next, element.next = some next := by
        cases l with
        | nil => exact ⟨last, rest.head⟩
        | cons e l => exact ⟨e, rest.head⟩
      rw [here] at rest
      have shorter := ih rest (fun e' member => inside e' (List.mem_cons_of_mem current member)) (by simpa using enough)
      simp only [Cache.lastOf, read_eq_ok.mpr used, Result.ok_bind, here, shorter]

theorem disjoint {j : Int} (ch : Chained c chain) (first : e ∈ chain j) (second : e ∈ chain k) : j = k := by
  obtain ⟨element, used, rfl⟩ := ch.used j e first
  obtain ⟨again, used', rfl⟩ := ch.used k e second
  rw [used] at used'
  rw [Option.some.inj used']

theorem replace {elements : Heap WordsElement} {ht : Int → Option Nat} {l : List Nat} (ch : Chained c chain)
    (path : Path (chainIn elements) (ht k) l none) (nodup : l.Nodup)
    (used : ∀ e ∈ l, ∃ element, elements.cells e = some element ∧ element.key = k) (table : ∀ j, j ≠ k → ht j = c.ht j)
    (cells : ∀ e, e ∉ chain k → elements.cells e = c.elements.cells e) :
    Chained (c.rechain elements ht) (Function.update chain k l) := by
  refine ⟨fun j => ?_, fun j => ?_, fun j e member => ?_⟩
  · change Path (chainIn elements) (ht j) _ none
    by_cases same : j = k
    · subst same
      rwa [Function.update_self]
    · rw [Function.update_of_ne same, table j same]
      refine (ch.path j).congr fun e there => ?_
      rw [chainIn, cells e fun shared => same (ch.disjoint there shared), chainIn]
  · by_cases same : j = k
    · subst same
      rwa [Function.update_self]
    · rw [Function.update_of_ne same]
      exact ch.nodup j
  · by_cases same : j = k
    · subst same
      rw [Function.update_self] at member
      exact used e member
    · rw [Function.update_of_ne same] at member
      obtain ⟨element, there, key⟩ := ch.used j e member
      exact ⟨element, (cells e fun shared => same (ch.disjoint member shared)).trans there, key⟩

theorem insert {node : Nat} {element : WordsElement} (ch : Chained c chain)
    (here : c.elements.cells node = some element) (key : element.key = k) (ends : element.next = none)
    (fresh : ∀ k, node ∉ chain k) :
    ∃ elements ht, c.chainElement k node = .ok (c.rechain elements ht) ∧ Rechained c.elements elements ∧
      Chained (c.rechain elements ht) (Function.update chain k (chain k ++ [node])) := by
  have path := ch.path k
  have nodup : (chain k ++ [node]).Nodup := by
    rw [List.nodup_append_comm]
    exact List.nodup_cons.mpr ⟨fresh k, ch.nodup k⟩
  have used (elements : Heap WordsElement) (same : Rechained c.elements elements) (e : Nat) (member : e ∈ chain k ++ [node]) :
      ∃ element, elements.cells e = some element ∧ element.key = k := by
    obtain ⟨before, there, keyed⟩ : ∃ element, c.elements.cells e = some element ∧ element.key = k := by
      rcases List.mem_append.mp member with old | new
      · exact ch.used k e old
      · obtain rfl := List.mem_singleton.mp new
        exact ⟨element, here, key⟩
    obtain ⟨after, there', fields⟩ := same.used there
    refine ⟨after, there', ?_⟩
    rw [unchained_eq fields]
    exact keyed
  rcases (chain k).eq_nil_or_concat' with empty | ⟨l, last, shape⟩
  · rw [empty] at path
    have vacant : c.ht k = none := path
    refine ⟨c.elements, Function.update c.ht k (some node), ?_, fun _ => rfl, ch.replace ?_ nodup (used _ fun _ => rfl)
      (fun j other => Function.update_of_ne other _ _) fun _ _ => rfl⟩
    · simp only [Cache.chainElement, vacant]
      rfl
    · rw [Function.update_self, empty]
      refine ⟨rfl, ?_⟩
      rw [chainIn_eq here]
      exact ends
  · have lastIn : last ∈ chain k := by simp [shape]
    obtain ⟨lastElement, usedLast, -⟩ := ch.used k last lastIn
    obtain ⟨current, start⟩ : ∃ current, c.ht k = some current := by
      rw [shape] at path
      cases l with
      | nil => exact ⟨last, path.head⟩
      | cons e l => exact ⟨e, path.head⟩
    have found : c.lastOf (c.elements.next + 1) current = .ok last := by
      refine ch.lastOf (k := k) (l := l) (start ▸ shape ▸ path) (shape ▸ fun e member => member) ?_
      have bound := ch.length_le (k := k)
      rw [shape, List.length_append] at bound
      simp only [List.length_cons, List.length_nil] at bound
      omega
    let elements := c.elements.modify last fun e => { e with next := some node }
    have same : Rechained c.elements elements := .setNext _ _ _
    have next : chainIn elements = Function.update (chainIn c.elements) last (some node) := chainIn_setNext usedLast
    refine ⟨elements, c.ht, ?_, same, ch.replace ?_ nodup (used elements same) (fun _ _ => rfl) fun e outside => ?_⟩
    · simp only [Cache.chainElement, start, found, Result.ok_bind, store_of_some usedLast]
      rfl
    · rw [next, shape]
      have outside : node ∉ l ++ [last] := shape ▸ fresh k
      have extended := (shape ▸ path).extend (shape ▸ ch.nodup k) outside
      refine extended.congr fun e member => ?_
      by_cases here' : e = node
      · subst here'
        rw [Function.update_self]
        have notLast : e ≠ last := by
          rintro rfl
          simp at outside
        rw [Function.update_of_ne notLast, chainIn_eq here]
        exact ends
      · rw [Function.update_of_ne here']
    · have other : e ≠ last := by
        rintro rfl
        exact outside lastIn
      exact Heap.modify_of_ne other

theorem findBefore {before node fuel : Nat} {xs ys : List Nat} {p : Option Nat} (ch : Chained c chain)
    (path : Path (chainIn c.elements) p (xs ++ before :: node :: ys) none)
    (inside : ∀ e ∈ xs ++ before :: node :: ys, e ∈ chain k) (nodup : (xs ++ before :: node :: ys).Nodup)
    (enough : xs.length < fuel) : c.findBefore node fuel p = .ok before := by
  induction xs generalizing p fuel with
  | nil =>
      obtain ⟨fuel, rfl⟩ : ∃ n, fuel = n + 1 := ⟨fuel - 1, by simp at enough; omega⟩
      obtain ⟨element, used, -⟩ := ch.used k before (inside before (by simp))
      obtain ⟨start, rest⟩ := path
      have next : element.next = some node := by
        rw [← chainIn_eq used]
        exact rest.head
      rw [start]
      simp only [Cache.findBefore, read_eq_ok.mpr used, Result.ok_bind, next, if_true]
      rfl
  | cons x xs ih =>
      obtain ⟨fuel, rfl⟩ : ∃ n, fuel = n + 1 := ⟨fuel - 1, by simp at enough; omega⟩
      obtain ⟨element, used, -⟩ := ch.used k x (inside x (by simp))
      obtain ⟨start, rest⟩ := path
      rw [chainIn_eq used] at rest
      have other : element.next ≠ some node := by
        intro same
        have head : some node = (xs ++ before :: node :: ys).head? := by
          rw [← same]
          cases xs with
          | nil => exact rest.head
          | cons y xs => exact rest.head
        cases xs with
        | nil =>
            obtain rfl : node = before := Option.some.inj head
            simp at nodup
        | cons y xs =>
            obtain rfl : node = y := Option.some.inj head
            simp at nodup
      have shorter := ih rest (fun e member => inside e (List.mem_cons_of_mem x member)) (List.nodup_cons.mp nodup).2
        (by simpa using enough)
      rw [start]
      simp only [Cache.findBefore, read_eq_ok.mpr used, Result.ok_bind, if_neg other, shorter]

section Deleting

variable {node before : Nat} {element : WordsElement} {xs ys : List Nat} (ch : Chained c chain)
  (here : c.elements.cells node = some element)
include ch

theorem used_erase {elements : Heap WordsElement} (same : Rechained (c.elements.free node) elements) (k : Int) (e : Nat)
    (member : e ∈ (chain k).erase node) : ∃ element, elements.cells e = some element ∧ element.key = k := by
  have other : e ≠ node := by
    rintro rfl
    exact (ch.nodup k).not_mem_erase member
  obtain ⟨before, used, key⟩ := ch.used k e (List.mem_of_mem_erase member)
  obtain ⟨after, used', fields⟩ := same.used ((Heap.free_of_ne other).trans used)
  refine ⟨after, used', ?_⟩
  rw [unchained_eq fields]
  exact key

include here

theorem delete_head (shape : chain element.key = node :: ys) :
    c.deleteHash node = .ok (c.rechain (c.elements.free node) (Function.update c.ht element.key element.next)) ∧
      Chained (c.rechain (c.elements.free node) (Function.update c.ht element.key element.next))
        (Function.update chain element.key ((chain element.key).erase node)) := by
  have path := ch.path element.key
  have fresh := (List.nodup_cons.mp (shape ▸ ch.nodup element.key)).1
  rw [shape] at path
  have head : c.ht element.key = some node := path.head
  have rest := path.2
  rw [chainIn_eq here] at rest
  refine ⟨?_, ch.replace ?_ ((ch.nodup _).erase node) (ch.used_erase (fun _ => rfl) _)
    (fun j other => Function.update_of_ne other _ _) fun e outside => ?_⟩
  · simp only [Cache.deleteHash, read_eq_ok.mpr here, Result.ok_bind, if_pos head]
    rfl
  · rw [Function.update_self, shape, List.erase_cons_head]
    refine rest.congr fun e there => ?_
    have other : e ≠ node := fun same => fresh (same ▸ there)
    rw [chainIn, Heap.free_of_ne other, chainIn]
  · have other : e ≠ node := by
      rintro rfl
      exact outside (by simp [shape])
    exact Heap.free_of_ne other

theorem delete_inside (shape : chain element.key = xs ++ before :: node :: ys) :
    c.deleteHash node = .ok (c.rechain ((c.elements.modify before fun e => { e with next := element.next }).free node) c.ht) ∧
      Rechained (c.elements.free node) ((c.elements.modify before fun e => { e with next := element.next }).free node) ∧
      Chained (c.rechain ((c.elements.modify before fun e => { e with next := element.next }).free node) c.ht)
        (Function.update chain element.key ((chain element.key).erase node)) := by
  have path := ch.path element.key
  have distinct := ch.nodup element.key
  have bound := ch.length_le (k := element.key)
  obtain ⟨beforeElement, usedBefore, -⟩ := ch.used element.key before (by simp [shape])
  rw [shape] at path distinct bound
  have notHead : c.ht element.key ≠ some node := by
    intro same
    cases xs with
    | nil =>
        obtain rfl : before = node := Option.some.inj (path.head.symm.trans same)
        simp at distinct
    | cons x xs =>
        obtain rfl : x = node := Option.some.inj (path.head.symm.trans same)
        simp at distinct
  have enough : xs.length < c.elements.next + 1 := by
    rw [List.length_append] at bound
    omega
  have search : c.findBefore node (c.elements.next + 1) (c.ht element.key) = .ok before :=
    ch.findBefore (k := element.key) path (fun e there => shape ▸ there) distinct enough
  have same : Rechained (c.elements.free node) ((c.elements.modify before fun e => { e with next := element.next }).free node) := by
    intro e
    by_cases here' : e = node
    · subst here'
      simp
    · rw [Heap.free_of_ne here', Heap.free_of_ne here']
      exact Rechained.setNext c.elements before element.next e
  refine ⟨?_, same, ch.replace ?_ ((ch.nodup _).erase node) (ch.used_erase same _) (fun _ _ => rfl) fun e outside => ?_⟩
  · simp only [Cache.deleteHash, read_eq_ok.mpr here, Result.ok_bind, if_neg notHead, search, store_of_some usedBefore]
    rfl
  · have middle : xs ++ [before] ++ node :: ys = xs ++ before :: node :: ys := by simp
    have gone : (xs ++ before :: node :: ys).erase node = xs ++ before :: ys := by
      rw [← middle, Recency.erase_middle (middle ▸ distinct)]
      simp
    rw [shape, gone]
    refine (path.skip distinct).congr fun e there => ?_
    have other : e ≠ node := by
      rintro rfl
      rw [← gone] at there
      exact distinct.not_mem_erase there
    rw [chainIn, Heap.free_of_ne other, ← chainIn, chainIn_setNext usedBefore, chainIn_eq here]
  · have notNode : e ≠ node := by
      rintro rfl
      exact outside (by simp [shape])
    have notBefore : e ≠ before := by
      rintro rfl
      exact outside (by simp [shape])
    rw [Heap.free_of_ne notNode, Heap.modify_of_ne notBefore]

theorem delete (member : node ∈ chain element.key) :
    ∃ elements ht, c.deleteHash node = .ok (c.rechain elements ht) ∧ Rechained (c.elements.free node) elements ∧
      Chained (c.rechain elements ht) (Function.update chain element.key ((chain element.key).erase node)) := by
  obtain ⟨xs, ys, shape⟩ := List.append_of_mem member
  rcases xs.eq_nil_or_concat' with rfl | ⟨xs, before, rfl⟩
  · obtain ⟨ran, chained⟩ := ch.delete_head here shape
    exact ⟨_, _, ran, fun _ => rfl, chained⟩
  · rw [List.append_assoc] at shape
    obtain ⟨ran, same, chained⟩ := ch.delete_inside here shape
    exact ⟨_, _, ran, same, chained⟩

end Deleting

end Chained

end OperatingSystem.Webserver
