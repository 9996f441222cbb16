import Mathlib.Data.List.Perm.Subperm
import OperatingSystem.Library.Heap
import OperatingSystem.Library.Linked
import OperatingSystem.Library.Result

/-!
# Doubly linked lists in a heap

`Chain h head tail cells l`: the cells between the pointers `head` and `tail` are linked in both
directions and hold the elements of `l`.
-/

/-- What stops a walk over pointers, or the counter that goes with it. -/
inductive Trap
  | null | freed | endless | overflow
  deriving DecidableEq, Repr

structure Node (α : Type) where
  data : α
  prv : Option Nat
  next : Option Nat
  deriving DecidableEq, Repr

namespace Heap

variable {α : Type} {h : Heap α} {a : Nat} {x : α} {f : α → α}

def read (h : Heap α) (a : Nat) : Except Trap α :=
  match h.cells a with
  | some x => .ok x
  | none => .error .freed

def store (h : Heap α) (a : Nat) (f : α → α) : Except Trap (Heap α) := do
  let _ ← h.read a
  return h.modify a f

def pointer (p : Option Nat) : Except Trap Nat :=
  match p with
  | some a => .ok a
  | none => .error .null

theorem read_eq_ok : h.read a = .ok x ↔ h.cells a = some x := by
  unfold read
  cases h.cells a <;> simp

theorem store_of_some (used : h.cells a = some x) : h.store a f = .ok (h.modify a f) := by
  rw [store, read_eq_ok.mpr used]
  rfl

theorem length_le {cells : List Nat} (nodup : cells.Nodup) (used : ∀ a ∈ cells, ∃ x, h.cells a = some x) : cells.length ≤ h.next := by
  have inside : cells ⊆ List.range h.next := fun a member => by
    obtain ⟨x, here⟩ := used a member
    exact List.mem_range.mpr (lt_next here)
  simpa using (List.Nodup.subperm nodup inside).length_le

def linkIn (link : α → Option Nat) (h : Heap α) (n : Nat) : Option Nat := (h.cells n).bind link

variable {link : α → Option Nat} {p : Option Nat}

theorem linkIn_eq (used : h.cells a = some x) : linkIn link h a = link x := by simp [linkIn, used]

theorem linkIn_set (used : h.cells a = some x) (sets : link (f x) = p) :
    linkIn link (h.modify a f) = Function.update (linkIn link h) a p := by
  funext n
  by_cases same : n = a
  · subst same
    simp [linkIn, modify_self, used, sets]
  · rw [Function.update_of_ne same, linkIn, modify_of_ne same, linkIn]

theorem linkIn_keep (keeps : ∀ x, link (f x) = link x) : linkIn link (h.modify a f) = linkIn link h := by
  funext n
  unfold linkIn
  by_cases same : n = a
  · subst same
    rw [modify_self]
    cases h.cells n with
    | none => rfl
    | some x => exact keeps x
  · rw [modify_of_ne same]

section Nodes

variable {h : Heap (Node α)} {b : Nat}

def dataIn (h : Heap (Node α)) (n : Nat) : Option α := (h.cells n).map Node.data

def nextIn (h : Heap (Node α)) : Nat → Option Nat := linkIn Node.next h

def prvIn (h : Heap (Node α)) : Nat → Option Nat := linkIn Node.prv h

def setNext (h : Heap (Node α)) (a : Nat) (p : Option Nat) : Heap (Node α) := h.modify a fun n => { n with next := p }

def setPrv (h : Heap (Node α)) (a : Nat) (p : Option Nat) : Heap (Node α) := h.modify a fun n => { n with prv := p }

theorem dataIn_eq_some {x : α} : h.dataIn a = some x ↔ ∃ n, h.cells a = some n ∧ n.data = x := Option.map_eq_some_iff

@[simp] theorem dataIn_setNext : (h.setNext a p).dataIn b = h.dataIn b := modify_map Node.data fun _ => rfl

@[simp] theorem dataIn_setPrv : (h.setPrv a p).dataIn b = h.dataIn b := modify_map Node.data fun _ => rfl

@[simp] theorem prvIn_setNext : (h.setNext a p).prvIn = h.prvIn := linkIn_keep fun _ => rfl

@[simp] theorem nextIn_setPrv : (h.setPrv a p).nextIn = h.nextIn := linkIn_keep fun _ => rfl

theorem nextIn_setNext {x : α} (used : h.dataIn a = some x) : (h.setNext a p).nextIn = Function.update h.nextIn a p := by
  obtain ⟨n, here, -⟩ := dataIn_eq_some.mp used
  exact linkIn_set here rfl

theorem prvIn_setPrv {x : α} (used : h.dataIn a = some x) : (h.setPrv a p).prvIn = Function.update h.prvIn a p := by
  obtain ⟨n, here, -⟩ := dataIn_eq_some.mp used
  exact linkIn_set here rfl

theorem store_next {x : α} (used : h.dataIn a = some x) : (h.store a fun n => { n with next := p }) = .ok (h.setNext a p) := by
  obtain ⟨n, here, -⟩ := dataIn_eq_some.mp used
  exact store_of_some here

theorem store_prv {x : α} (used : h.dataIn a = some x) : (h.store a fun n => { n with prv := p }) = .ok (h.setPrv a p) := by
  obtain ⟨n, here, -⟩ := dataIn_eq_some.mp used
  exact store_of_some here

theorem setNext_of_ne (other : b ≠ a) : (h.setNext a p).cells b = h.cells b := modify_of_ne other

theorem setPrv_of_ne (other : b ≠ a) : (h.setPrv a p).cells b = h.cells b := modify_of_ne other

end Nodes

end Heap

open Linked Heap

structure Chain {α : Type} (h : Heap (Node α)) (head tail : Option Nat) (cells : List Nat) (l : List α) : Prop where
  linked : Doubly h.nextIn h.prvIn head tail cells
  holds : cells.map h.dataIn = l.map some

namespace Chain

variable {α : Type} {h h' : Heap (Node α)} {head tail : Option Nat} {cells : List Nat} {l : List α} {a : α} {x y : Nat}

theorem used (c : Chain h head tail cells l) (member : x ∈ cells) : ∃ a ∈ l, h.dataIn x = some a := by
  have image : h.dataIn x ∈ l.map some := c.holds ▸ List.mem_map_of_mem member
  obtain ⟨a, inside, here⟩ := List.mem_map.mp image
  exact ⟨a, inside, here.symm⟩

theorem length_eq (c : Chain h head tail cells l) : cells.length = l.length := by
  simpa using congrArg List.length c.holds

theorem length_le (c : Chain h head tail cells l) : l.length ≤ h.next := by
  rw [← c.length_eq]
  refine Heap.length_le c.linked.nodup fun x member => ?_
  obtain ⟨a, -, here⟩ := c.used member
  obtain ⟨n, here, -⟩ := dataIn_eq_some.mp here
  exact ⟨n, here⟩

theorem unique {l' : List α} {cells' : List Nat} (c : Chain h head tail cells l) (c' : Chain h head tail cells' l') : l = l' := by
  have same : cells = cells' := c.linked.forward.unique c'.linked.forward
  have images : l.map some = l'.map some := by rw [← c.holds, same, c'.holds]
  exact List.map_injective_iff.mpr (fun _ _ => Option.some.inj) images

theorem nil (h : Heap (Node α)) : Chain h none none [] [] := ⟨⟨rfl, rfl, List.nodup_nil⟩, rfl⟩

theorem single (here : h.cells x = some ⟨a, none, none⟩) : Chain h (some x) (some x) [x] [a] where
  linked := ⟨⟨rfl, linkIn_eq here⟩, ⟨rfl, linkIn_eq here⟩, List.nodup_singleton x⟩
  holds := by simp [dataIn, here]

theorem fresh (c : Chain h head tail cells l) : h.next ∉ cells := by
  intro member
  obtain ⟨a, -, used⟩ := c.used member
  obtain ⟨n, here, -⟩ := dataIn_eq_some.mp used
  exact ne_next here rfl

theorem of_head_none (c : Chain h none tail cells l) : cells = [] ∧ l = [] ∧ tail = none := by
  have empty : cells = [] := by
    cases cells with
    | nil => rfl
    | cons x cells => cases c.linked.head_of_cons
  subst empty
  exact ⟨rfl, List.length_eq_zero_iff.mp c.length_eq.symm, c.linked.backward⟩

theorem of_head_some (c : Chain h (some x) tail cells l) :
    ∃ rest a l', cells = x :: rest ∧ l = a :: l' ∧ h.dataIn x = some a := by
  cases cells with
  | nil => cases c.linked.forward
  | cons y rest =>
      obtain rfl := Option.some.inj c.linked.head_of_cons
      have holds := c.holds
      cases l with
      | nil => cases holds
      | cons a l' => exact ⟨rest, a, l', rfl, rfl, (List.cons.inj holds).1⟩

theorem frame (c : Chain h head tail cells l) (same : ∀ x ∈ cells, h'.cells x = h.cells x) : Chain h' head tail cells l where
  linked := c.linked.congr (fun x member => by simp only [nextIn, linkIn, same x member]) fun x member => by
    simp only [prvIn, linkIn, same x member]
  holds := by
    rw [← c.holds]
    exact List.map_congr_left fun x member => by simp only [dataIn, same x member]

theorem first (here : h.dataIn x = some a) :
    Chain ((h.setPrv x none).setNext x none) (some x) (some x) [x] [a] where
  linked := by
    rw [nextIn_setNext (x := a) (by simpa using here), nextIn_setPrv, prvIn_setNext, prvIn_setPrv here]
    exact Doubly.singleton
  holds := by simp [here]

theorem push (c : Chain h head tail (cells ++ [y]) l) (here : h.dataIn x = some a) (fresh : x ∉ cells ++ [y]) :
    Chain (((h.setNext y (some x)).setPrv x (some y)).setNext x none) head (some x) (cells ++ [y] ++ [x]) (l ++ [a]) where
  linked := by
    obtain ⟨b, -, last⟩ := c.used (x := y) (by simp)
    have next : (((h.setNext y (some x)).setPrv x (some y)).setNext x none).nextIn =
        Function.update (Function.update h.nextIn y (some x)) x none := by
      rw [nextIn_setNext (x := a) (by simpa using here), nextIn_setPrv, nextIn_setNext last]
    have prv : (((h.setNext y (some x)).setPrv x (some y)).setNext x none).prvIn = Function.update h.prvIn x (some y) := by
      rw [prvIn_setNext, prvIn_setPrv (x := a) (by simpa using here), prvIn_setNext]
    rw [next, prv]
    exact c.linked.push fresh
  holds := by
    have same : (((h.setNext y (some x)).setPrv x (some y)).setNext x none).dataIn = h.dataIn := by
      funext n
      simp
    rw [same, List.map_append, c.holds]
    simp [here]

theorem pop (c : Chain h head tail (x :: y :: cells) (a :: l)) : Chain ((h.setPrv y none).free x) (some y) tail (y :: cells) l := by
  obtain ⟨b, -, second⟩ := c.used (x := y) (by simp)
  have first : h.nextIn x = some y := c.linked.forward.2.1
  have kept : Chain (h.setPrv y none) (some y) tail (y :: cells) l := by
    refine ⟨?_, ?_⟩
    · rw [nextIn_setPrv, prvIn_setPrv second, ← first]
      exact c.linked.remove_head
    · have same : (h.setPrv y none).dataIn = h.dataIn := by
        funext n
        simp
      rw [same]
      exact (List.cons.inj c.holds).2
  refine kept.frame fun n member => free_of_ne ?_
  rintro rfl
  exact (List.nodup_cons.mp c.linked.nodup).1 member

theorem drop_last (c : Chain h head tail (cells ++ [y, x]) (l ++ [a])) : Chain ((h.setNext y none).free x) head (some y) (cells ++ [y]) l := by
  obtain ⟨b, -, before⟩ := c.used (x := y) (by simp)
  have prv : h.prvIn x = some y := by
    have back := c.linked.backward
    rw [show (cells ++ [y, x]).reverse = x :: y :: cells.reverse by simp] at back
    exact back.2.1
  have kept : Chain (h.setNext y none) head (some y) (cells ++ [y]) l := by
    refine ⟨?_, ?_⟩
    · rw [nextIn_setNext before, prvIn_setNext, ← prv]
      exact c.linked.remove_tail
    · have same : (h.setNext y none).dataIn = h.dataIn := by
        funext n
        simp
      have holds : (cells ++ [y]).map h.dataIn ++ [h.dataIn x] = l.map some ++ [some a] := by simpa using c.holds
      rw [same]
      exact List.append_inj_left' holds rfl
  refine kept.frame fun n member => free_of_ne ?_
  rintro rfl
  have apart := c.linked.nodup
  rw [show cells ++ [y, n] = cells ++ [y] ++ [n] by simp] at apart
  exact List.disjoint_of_nodup_append apart member List.mem_cons_self

theorem cut {xs zs : List Nat} {z : Nat} {as bs : List α} (c : Chain h head tail (xs ++ y :: x :: z :: zs) (as ++ a :: bs))
    (place : xs.length + 1 = as.length) :
    Chain (((h.setNext y (some z)).setPrv z (some y)).free x) head tail (xs ++ y :: z :: zs) (as ++ bs) := by
  obtain ⟨next, prv⟩ := c.linked.next_of_middle
  obtain ⟨b, -, before⟩ := c.used (x := y) (by simp)
  obtain ⟨d, -, after⟩ := c.used (x := z) (by simp)
  have kept : Chain ((h.setNext y (some z)).setPrv z (some y)) head tail (xs ++ y :: z :: zs) (as ++ bs) := by
    refine ⟨?_, ?_⟩
    · have removed := c.linked.remove_middle
      rw [next, prv] at removed
      rwa [nextIn_setPrv, nextIn_setNext before, prvIn_setPrv (x := d) (by simpa using after), prvIn_setNext]
    · have same : ((h.setNext y (some z)).setPrv z (some y)).dataIn = h.dataIn := by
        funext n
        simp
      have holds : (xs ++ [y]).map h.dataIn ++ h.dataIn x :: (z :: zs).map h.dataIn = as.map some ++ some a :: bs.map some := by
        simpa using c.holds
      obtain ⟨front, back⟩ := List.append_inj holds (by simpa using place)
      have split : (xs ++ y :: z :: zs).map h.dataIn = (xs ++ [y]).map h.dataIn ++ (z :: zs).map h.dataIn := by simp
      rw [same, split, front, (List.cons.inj back).2, List.map_append]
  refine kept.frame fun n member => free_of_ne ?_
  rintro rfl
  have apart := c.linked.nodup
  rw [show xs ++ y :: n :: z :: zs = (xs ++ [y]) ++ n :: z :: zs by simp] at apart
  rw [show xs ++ y :: z :: zs = (xs ++ [y]) ++ z :: zs by simp] at member
  rcases List.mem_append.mp member with front | back
  · exact List.disjoint_of_nodup_append apart front List.mem_cons_self
  · exact (List.nodup_cons.mp (List.nodup_append.mp apart).2.1).1 back

theorem data_at {xs ys : List Nat} {as bs : List α} (c : Chain h head tail (xs ++ x :: ys) (as ++ a :: bs)) (place : xs.length = as.length) :
    h.dataIn x = some a := by
  have holds : xs.map h.dataIn ++ h.dataIn x :: ys.map h.dataIn = as.map some ++ some a :: bs.map some := by simpa using c.holds
  obtain ⟨-, back⟩ := List.append_inj holds (by simpa using place)
  exact (List.cons.inj back).1

end Chain
