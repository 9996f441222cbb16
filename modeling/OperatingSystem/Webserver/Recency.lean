import OperatingSystem.Library.Linked
import OperatingSystem.Library.Result
import OperatingSystem.Webserver.Cache

namespace OperatingSystem.Webserver

open Linked

section Memory

variable {α : Type} {h : Heap α} {a : Nat} {x : α} {f : α → α}

theorem read_eq_ok : read h a = .ok x ↔ h.cells a = some x := by
  unfold read
  cases h.cells a <;> simp

theorem store_of_some (used : h.cells a = some x) : store h a f = .ok (h.modify a f) := by
  simp only [store, read, used]
  rfl

end Memory

def nextIn (h : Heap LRUNode) (n : Nat) : Option Nat := (h.cells n).bind LRUNode.next

def prvIn (h : Heap LRUNode) (n : Nat) : Option Nat := (h.cells n).bind LRUNode.prv

section Fields

variable {h : Heap LRUNode} {a : Nat} {x : LRUNode} {p : Option Nat}

theorem nextIn_eq (used : h.cells a = some x) : nextIn h a = x.next := by simp [nextIn, used]

theorem prvIn_eq (used : h.cells a = some x) : prvIn h a = x.prv := by simp [prvIn, used]

theorem nextIn_setNext (used : h.cells a = some x) :
    nextIn (h.modify a fun n => { n with next := p }) = Function.update (nextIn h) a p := by
  funext n
  by_cases same : n = a
  · subst same
    simp [nextIn, Heap.modify_self, used]
  · rw [Function.update_of_ne same, nextIn, Heap.modify_of_ne same, nextIn]

theorem prvIn_setPrv (used : h.cells a = some x) :
    prvIn (h.modify a fun n => { n with prv := p }) = Function.update (prvIn h) a p := by
  funext n
  by_cases same : n = a
  · subst same
    simp [prvIn, Heap.modify_self, used]
  · rw [Function.update_of_ne same, prvIn, Heap.modify_of_ne same, prvIn]

theorem nextIn_setPrv : nextIn (h.modify a fun n => { n with prv := p }) = nextIn h := by
  funext n
  unfold nextIn
  by_cases same : n = a
  · subst same
    rw [Heap.modify_self]
    cases h.cells n <;> rfl
  · rw [Heap.modify_of_ne same]

theorem prvIn_setNext : prvIn (h.modify a fun n => { n with next := p }) = prvIn h := by
  funext n
  unfold prvIn
  by_cases same : n = a
  · subst same
    rw [Heap.modify_self]
    cases h.cells n <;> rfl
  · rw [Heap.modify_of_ne same]

end Fields

def Relinked (h h' : Heap LRUNode) : Prop := ∀ n, (h'.cells n).map LRUNode.data = (h.cells n).map LRUNode.data

namespace Relinked

variable {h h' h'' : Heap LRUNode} {n : Nat}

theorem refl (h : Heap LRUNode) : Relinked h h := fun _ => rfl

theorem trans (first : Relinked h h') (second : Relinked h' h'') : Relinked h h'' :=
  fun n => (second n).trans (first n)

theorem setNext (h : Heap LRUNode) (a : Nat) (p : Option Nat) : Relinked h (h.modify a fun n => { n with next := p }) :=
  fun _ => Heap.modify_map _ fun _ => rfl

theorem setPrv (h : Heap LRUNode) (a : Nat) (p : Option Nat) : Relinked h (h.modify a fun n => { n with prv := p }) :=
  fun _ => Heap.modify_map _ fun _ => rfl

theorem used (same : Relinked h h') (used : ∃ node, h.cells n = some node) : ∃ node, h'.cells n = some node := by
  obtain ⟨node, here⟩ := used
  have data := same n
  rw [here, Option.map_some, Option.map_eq_some_iff] at data
  obtain ⟨node', here', -⟩ := data
  exact ⟨node', here'⟩

end Relinked

structure Recency (c : Cache) (l : List Nat) : Prop where
  linked : Doubly (nextIn c.nodes) (prvIn c.nodes) c.head c.tail l
  used : ∀ n ∈ l, ∃ node, c.nodes.cells n = some node

def Cache.relink (c : Cache) (nodes : Heap LRUNode) (head tail : Option Nat) : Cache := { c with nodes, head, tail }

namespace Recency

variable {c : Cache} {l : List Nat} {x : Nat}

theorem next_notMem (r : Recency c l) : c.nodes.next ∉ l := by
  intro member
  obtain ⟨node, used⟩ := r.used _ member
  exact Heap.ne_next used rfl

theorem alloc {node : LRUNode} (r : Recency c l) : Recency { c with nodes := c.nodes.alloc node } l := by
  have same {n : Nat} (member : n ∈ l) : (c.nodes.alloc node).cells n = c.nodes.cells n := by
    obtain ⟨before, used⟩ := r.used n member
    exact Heap.alloc_of_ne (Heap.ne_next used)
  refine ⟨r.linked.congr (fun n member => ?_) (fun n member => ?_), fun n member => ?_⟩
  · rw [nextIn, same member, nextIn]
  · rw [prvIn, same member, prvIn]
  · obtain ⟨before, used⟩ := r.used n member
    exact ⟨before, (same member).trans used⟩

theorem pushback (r : Recency c l) (here : ∃ node, c.nodes.cells x = some node) (fresh : x ∉ l) :
    ∃ nodes head tail, c.pushbackLRU x = .ok (c.relink nodes head tail) ∧
      Recency (c.relink nodes head tail) (l ++ [x]) ∧ Relinked c.nodes nodes := by
  obtain ⟨node, used⟩ := here
  rcases l.eq_nil_or_concat' with rfl | ⟨ys, y, rfl⟩
  · have head : c.head = none := r.linked.forward
    let nodes := c.nodes.modify x fun n => { n with prv := none, next := none }
    have relinked : Relinked c.nodes nodes := fun _ => Heap.modify_map _ fun _ => rfl
    have stored : nodes.cells x = some { node with prv := none, next := none } := by
      simp only [nodes, Heap.modify_self, used, Option.map_some]
    refine ⟨nodes, some x, some x, ?_, ⟨⟨⟨rfl, ?_⟩, ⟨rfl, ?_⟩, List.nodup_singleton x⟩, ?_⟩, relinked⟩
    · simp only [Cache.pushbackLRU, head, store_of_some used]
      rfl
    · exact nextIn_eq stored
    · exact prvIn_eq stored
    · intro n member
      obtain rfl := List.mem_singleton.mp member
      exact ⟨_, stored⟩
  · have tail : c.tail = some y := r.linked.tail_of_snoc
    obtain ⟨first, head⟩ : ∃ first, c.head = some first := by
      have forward := r.linked.forward
      cases ys with
      | nil => exact ⟨y, forward.head⟩
      | cons z zs => exact ⟨z, forward.head⟩
    obtain ⟨last, usedLast⟩ := r.used y (by simp)
    let nodes1 := c.nodes.modify y fun n => { n with next := some x }
    let nodes2 := nodes1.modify x fun n => { n with prv := some y }
    let nodes3 := nodes2.modify x fun n => { n with next := none }
    have same1 : Relinked c.nodes nodes1 := .setNext _ _ _
    have same2 : Relinked nodes1 nodes2 := .setPrv _ _ _
    have same3 : Relinked nodes2 nodes3 := .setNext _ _ _
    obtain ⟨node1, used1⟩ := same1.used ⟨node, used⟩
    obtain ⟨node2, used2⟩ := same2.used ⟨node1, used1⟩
    have relinked : Relinked c.nodes nodes3 := (same1.trans same2).trans same3
    have next : nextIn nodes3 = Function.update (Function.update (nextIn c.nodes) y (some x)) x none := by
      simp only [nodes3, nextIn_setNext used2, nodes2, nextIn_setPrv, nodes1, nextIn_setNext usedLast]
    have prv : prvIn nodes3 = Function.update (prvIn c.nodes) x (some y) := by
      simp only [nodes3, prvIn_setNext, nodes2, prvIn_setPrv used1, nodes1]
    refine ⟨nodes3, c.head, some x, ?_, ⟨?_, ?_⟩, relinked⟩
    · simp only [Cache.pushbackLRU, head, tail, pointer, store_of_some usedLast, Result.ok_bind]
      rw [store_of_some used1, Result.ok_bind, store_of_some used2]
      simp only [Result.ok_bind, Cache.relink]
      rfl
    · change Doubly (nextIn nodes3) (prvIn nodes3) c.head (some x) _
      rw [next, prv]
      exact r.linked.push fresh
    · intro n member
      refine relinked.used ?_
      rcases List.mem_append.mp member with old | new
      · exact r.used n old
      · obtain rfl := List.mem_singleton.mp new
        exact ⟨node, used⟩

theorem place_of_mem (member : x ∈ l) :
    (∃ t, l = x :: t) ∨ (∃ s y, l = s ++ [y, x]) ∨ ∃ s y z t, l = s ++ y :: x :: z :: t := by
  obtain ⟨s, t, rfl⟩ := List.append_of_mem member
  rcases s.eq_nil_or_concat' with rfl | ⟨s, y, rfl⟩
  · exact Or.inl ⟨t, rfl⟩
  · cases t with
    | nil => exact Or.inr (Or.inl ⟨s, y, by simp⟩)
    | cons z t => exact Or.inr (Or.inr ⟨s, y, z, t, by simp⟩)

theorem erase_middle {s t : List Nat} (nodup : (s ++ x :: t).Nodup) : (s ++ x :: t).erase x = s ++ t := by
  have outside : x ∉ s := fun member => (List.nodup_append.mp nodup).2.2 x member x List.mem_cons_self rfl
  rw [List.erase_append_right _ outside, List.erase_cons_head]

theorem head_ne {s t : List Nat} {y : Nat} (r : Recency c (y :: s ++ x :: t)) : some x ≠ c.head := by
  rw [r.linked.head_of_cons]
  intro same
  have nodup := r.linked.nodup
  rw [Option.some.inj same] at nodup
  simp at nodup

theorem tail_ne {s t : List Nat} {y : Nat} (r : Recency c (s ++ x :: (t ++ [y]))) : some x ≠ c.tail := by
  have tail : c.tail = some y := by
    have linked := r.linked
    rw [show s ++ x :: (t ++ [y]) = (s ++ x :: t) ++ [y] by simp] at linked
    exact linked.tail_of_snoc
  rw [tail]
  intro same
  have nodup := r.linked.nodup
  rw [Option.some.inj same] at nodup
  rw [List.nodup_append] at nodup
  simp at nodup

structure Unlinked (c : Cache) (l : List Nat) (x : Nat) (nodes : Heap LRUNode) (head tail : Option Nat) : Prop where
  rest : Recency (c.relink nodes head tail) (l.erase x)
  relinked : Relinked c.nodes nodes
  here : ∃ node, nodes.cells x = some node

theorem Unlinked.move {nodes : Heap LRUNode} {head tail : Option Nat} (r : Recency c l)
    (unlinked : Unlinked c l x nodes head tail) :
    ∃ nodes' head' tail', (c.relink nodes head tail).swapOut x 1 = .ok (c.relink nodes' head' tail') ∧
      Recency (c.relink nodes' head' tail') (l.erase x ++ [x]) ∧ Relinked c.nodes nodes' := by
  obtain ⟨nodes', head', tail', run, r', same⟩ := unlinked.rest.pushback unlinked.here r.linked.nodup.not_mem_erase
  exact ⟨nodes', head', tail', run, r', unlinked.relinked.trans same⟩

theorem Unlinked.free {nodes : Heap LRUNode} {head tail : Option Nat} (r : Recency c l)
    (unlinked : Unlinked c l x nodes head tail) :
    ∃ nodes' head' tail', (c.relink nodes head tail).swapOut x 0 = .ok (c.relink nodes' head' tail') ∧
      Recency (c.relink nodes' head' tail') (l.erase x) ∧ Relinked (c.nodes.free x) nodes' := by
  obtain ⟨node, here⟩ := unlinked.here
  have other : ∀ n ∈ l.erase x, n ≠ x := by
    rintro n member rfl
    exact r.linked.nodup.not_mem_erase member
  refine ⟨nodes.free x, head, tail, ?_, ⟨?_, ?_⟩, fun n => ?_⟩
  · have found : read (c.relink nodes head tail).nodes x = .ok node := read_eq_ok.mpr here
    simp only [Cache.swapOut, if_true, found, Result.ok_bind]
    rfl
  · refine unlinked.rest.linked.congr (fun n member => ?_) (fun n member => ?_)
    · change nextIn (nodes.free x) n = nextIn nodes n
      rw [nextIn, Heap.free_of_ne (other n member), nextIn]
    · change prvIn (nodes.free x) n = prvIn nodes n
      rw [prvIn, Heap.free_of_ne (other n member), prvIn]
  · intro n member
    change ∃ node, (nodes.free x).cells n = some node
    rw [Heap.free_of_ne (other n member)]
    exact unlinked.rest.used n member
  · by_cases same : n = x
    · subst same
      simp
    · rw [Heap.free_of_ne same, Heap.free_of_ne same]
      exact unlinked.relinked n

theorem front {t : List Nat} (r : Recency c (x :: t)) :
    ∃ nodes head tail, (∀ command, c.deleteSwapNode x command = (c.relink nodes head tail).swapOut x command) ∧
      Unlinked c (x :: t) x nodes head tail := by
  have head : c.head = some x := r.linked.head_of_cons
  obtain ⟨node, used⟩ := r.used x List.mem_cons_self
  have found : read c.nodes x = .ok node := read_eq_ok.mpr used
  have next := nextIn_eq used
  cases t with
  | nil =>
      have last : node.next = none := by
        rw [← next]
        exact r.linked.forward.2
      refine ⟨c.nodes, none, none, fun command => ?_, ⟨⟨?_, by simp⟩, .refl _, node, used⟩⟩
      · simp only [Cache.deleteSwapNode, head, if_true, found, Result.ok_bind, last]
        rfl
      · simp only [List.erase_cons_head]
        have only := r.linked.remove_only
        rwa [next, last] at only
  | cons y t =>
      have second : node.next = some y := by
        rw [← next]
        exact r.linked.forward.2.1
      obtain ⟨nodeY, usedY⟩ := r.used y (by simp)
      let nodes := c.nodes.modify y fun n => { n with prv := none }
      have relinked : Relinked c.nodes nodes := .setPrv _ _ _
      refine ⟨nodes, some y, c.tail, fun command => ?_, ⟨⟨?_, fun n member => ?_⟩, relinked, relinked.used ⟨node, used⟩⟩⟩
      · simp only [Cache.deleteSwapNode, head, if_true, found, Result.ok_bind, second, store_of_some usedY]
        rfl
      · rw [List.erase_cons_head]
        change Doubly (nextIn nodes) (prvIn nodes) (some y) c.tail (y :: t)
        have shorter := r.linked.remove_head
        rw [next, second] at shorter
        simpa only [nodes, nextIn_setPrv, prvIn_setPrv usedY] using shorter
      · rw [List.erase_cons_head] at member
        exact relinked.used (r.used n (List.mem_cons_of_mem x member))

theorem middle {s t : List Nat} {y z : Nat} (r : Recency c (s ++ y :: x :: z :: t)) :
    ∃ nodes head tail, (∀ command, c.deleteSwapNode x command = (c.relink nodes head tail).swapOut x command) ∧
      Unlinked c (s ++ y :: x :: z :: t) x nodes head tail := by
  obtain ⟨node, used⟩ := r.used x (by simp)
  obtain ⟨nodeY, usedY⟩ := r.used y (by simp)
  obtain ⟨nodeZ, usedZ⟩ := r.used z (by simp)
  have found : read c.nodes x = .ok node := read_eq_ok.mpr used
  obtain ⟨after, before⟩ := r.linked.next_of_middle
  rw [nextIn_eq used] at after
  rw [prvIn_eq used] at before
  have notHead : some x ≠ c.head := by
    cases s with
    | nil => exact head_ne (s := []) (t := z :: t) (y := y) r
    | cons u s => exact head_ne (s := s ++ [y]) (t := z :: t) (y := u) (by simpa using r)
  have notTail : some x ≠ c.tail := by
    rcases (z :: t).eq_nil_or_concat' with empty | ⟨t', last, shape⟩
    · cases empty
    · refine tail_ne (s := s ++ [y]) (t := t') (y := last) ?_
      rw [← shape]
      simpa using r
  let nodes1 := c.nodes.modify y fun n => { n with next := some z }
  let nodes2 := nodes1.modify z fun n => { n with prv := some y }
  have same1 : Relinked c.nodes nodes1 := .setNext _ _ _
  have same2 : Relinked nodes1 nodes2 := .setPrv _ _ _
  have relinked := same1.trans same2
  obtain ⟨node1, used1⟩ := same1.used ⟨nodeZ, usedZ⟩
  have gone : (s ++ y :: x :: z :: t).erase x = s ++ y :: z :: t := by
    have shape : s ++ y :: x :: z :: t = (s ++ [y]) ++ x :: (z :: t) := by simp
    rw [shape, erase_middle (shape ▸ r.linked.nodup)]
    simp
  refine ⟨nodes2, c.head, c.tail, fun command => ?_, ⟨⟨?_, fun n member => ?_⟩, relinked, relinked.used ⟨node, used⟩⟩⟩
  · have second : store (c.nodes.modify y fun n => { n with next := some z }) z (fun n => { n with prv := some y }) =
        .ok nodes2 := store_of_some used1
    simp only [Cache.deleteSwapNode, if_neg notHead, if_neg notTail, found, Result.ok_bind, before, pointer,
      store_of_some usedY, after, second]
    rfl
  · rw [gone]
    change Doubly (nextIn nodes2) (prvIn nodes2) c.head c.tail _
    have shorter := r.linked.remove_middle
    rw [nextIn_eq used, after, prvIn_eq used, before] at shorter
    simpa only [nodes2, nodes1, nextIn_setPrv, prvIn_setPrv used1, prvIn_setNext, nextIn_setNext usedY] using shorter
  · exact relinked.used (r.used n (List.mem_of_mem_erase member))

theorem back {s : List Nat} {y : Nat} (r : Recency c (s ++ [y, x])) :
    c.deleteSwapNode x 1 = .ok c ∧
    ∃ nodes head tail, c.deleteSwapNode x 0 = (c.relink nodes head tail).swapOut x 0 ∧
      Unlinked c (s ++ [y, x]) x nodes head tail := by
  obtain ⟨node, used⟩ := r.used x (by simp)
  obtain ⟨nodeY, usedY⟩ := r.used y (by simp)
  have found : read c.nodes x = .ok node := read_eq_ok.mpr used
  have tail : c.tail = some x := by
    have linked := r.linked
    rw [show s ++ [y, x] = (s ++ [y]) ++ [x] by simp] at linked
    exact linked.tail_of_snoc
  have before : node.prv = some y := by
    have reversed := r.linked.symm
    rw [show (s ++ [y, x]).reverse = x :: y :: s.reverse by simp] at reversed
    rw [← prvIn_eq used]
    exact reversed.forward.2.1
  have notHead : some x ≠ c.head := by
    cases s with
    | nil => exact head_ne (s := []) (t := []) (y := y) r
    | cons u s => exact head_ne (s := s ++ [y]) (t := []) (y := u) (by simpa using r)
  let nodes := c.nodes.modify y fun n => { n with next := none }
  have relinked : Relinked c.nodes nodes := .setNext _ _ _
  have gone : (s ++ [y, x]).erase x = s ++ [y] := by
    have shape : s ++ [y, x] = (s ++ [y]) ++ x :: [] := by simp
    rw [shape, erase_middle (shape ▸ r.linked.nodup)]
    simp
  refine ⟨?_, nodes, c.head, some y, ?_, ⟨⟨?_, fun n member => ?_⟩, relinked, relinked.used ⟨node, used⟩⟩⟩
  · simp only [Cache.deleteSwapNode, if_neg notHead, tail, if_true]
    rfl
  · simp only [Cache.deleteSwapNode, if_neg notHead, tail, if_true, found, Result.ok_bind, before, pointer,
      store_of_some usedY]
    rfl
  · rw [gone]
    change Doubly (nextIn nodes) (prvIn nodes) c.head (some y) _
    have shorter := r.linked.remove_tail
    rw [prvIn_eq used, before] at shorter
    simpa only [nodes, prvIn_setNext, nextIn_setNext usedY] using shorter
  · exact relinked.used (r.used n (List.mem_of_mem_erase member))

theorem move (r : Recency c l) (member : x ∈ l) :
    ∃ nodes head tail, c.deleteSwapNode x 1 = .ok (c.relink nodes head tail) ∧
      Recency (c.relink nodes head tail) (l.erase x ++ [x]) ∧ Relinked c.nodes nodes := by
  rcases place_of_mem member with ⟨t, rfl⟩ | ⟨s, y, rfl⟩ | ⟨s, y, z, t, rfl⟩
  · obtain ⟨nodes, head, tail, run, unlinked⟩ := r.front
    rw [run]
    exact unlinked.move r
  · refine ⟨c.nodes, c.head, c.tail, r.back.1, ?_, .refl _⟩
    have shape : s ++ [y, x] = (s ++ [y]) ++ x :: [] := by simp
    rw [shape, erase_middle (shape ▸ r.linked.nodup)]
    have same : s ++ [y] ++ [] ++ [x] = s ++ [y, x] := by simp
    rw [same]
    exact r
  · obtain ⟨nodes, head, tail, run, unlinked⟩ := r.middle
    rw [run]
    exact unlinked.move r

theorem remove (r : Recency c l) (member : x ∈ l) :
    ∃ nodes head tail, c.deleteSwapNode x 0 = .ok (c.relink nodes head tail) ∧
      Recency (c.relink nodes head tail) (l.erase x) ∧ Relinked (c.nodes.free x) nodes := by
  rcases place_of_mem member with ⟨t, rfl⟩ | ⟨s, y, rfl⟩ | ⟨s, y, z, t, rfl⟩
  · obtain ⟨nodes, head, tail, run, unlinked⟩ := r.front
    rw [run]
    exact unlinked.free r
  · obtain ⟨nodes, head, tail, run, unlinked⟩ := r.back.2
    rw [run]
    exact unlinked.free r
  · obtain ⟨nodes, head, tail, run, unlinked⟩ := r.middle
    rw [run]
    exact unlinked.free r

end Recency

end OperatingSystem.Webserver
