import Mathlib.Data.List.Nodup
import Mathlib.Logic.Function.Basic

/-!
# Linked lists

`Path next p l q`: following `next` from the pointer `p` leads through the cells of `l` to the
pointer `q`.  A doubly linked list is a path in each direction, and every change of one pointer is
the same lemma read in both.
-/

namespace Linked

variable {ι : Type*} {next prv f g : ι → Option ι} {p q m : Option ι} {x y z : ι} {l xs ys zs : List ι}

def Path (next : ι → Option ι) : Option ι → List ι → Option ι → Prop
  | p, [], q => p = q
  | p, x :: xs, q => p = some x ∧ Path next (next x) xs q

theorem Path.congr (path : Path f p l q) (same : ∀ x ∈ l, g x = f x) : Path g p l q := by
  induction l generalizing p with
  | nil => exact path
  | cons x xs ih =>
      refine ⟨path.1, ?_⟩
      rw [same x List.mem_cons_self]
      exact ih path.2 fun y member => same y (List.mem_cons_of_mem x member)

theorem path_append : Path f p (xs ++ ys) q ↔ ∃ m, Path f p xs m ∧ Path f m ys q := by
  induction xs generalizing p with
  | nil => simp [Path]
  | cons x xs ih => simp [Path, ih, and_assoc]

theorem Path.unique (path : Path f p l none) (other : Path f p ys none) : l = ys := by
  induction l generalizing p ys with
  | nil =>
      cases ys with
      | nil => rfl
      | cons y ys =>
          have start := other.1
          rw [show p = none from path] at start
          cases start
  | cons x xs ih =>
      cases ys with
      | nil =>
          have start := path.1
          rw [show p = none from other] at start
          cases start
      | cons y ys =>
          have same : x = y := Option.some.inj (path.1.symm.trans other.1)
          subst same
          rw [ih path.2 other.2]

theorem Path.nodup (path : Path f p l none) : l.Nodup := by
  induction l generalizing p with
  | nil => exact List.nodup_nil
  | cons x xs ih =>
      refine List.nodup_cons.mpr ⟨fun member => ?_, ih path.2⟩
      obtain ⟨ys, zs, rfl⟩ := List.append_of_mem member
      obtain ⟨m, -, -, again⟩ := path_append.mp path.2
      have length := congrArg List.length (path.2.unique again)
      simp only [List.length_append, List.length_cons] at length
      omega

theorem Path.head (path : Path f p (x :: xs) q) : p = some x := path.1

theorem Path.last (path : Path f p (xs ++ [x]) q) : f x = q := by
  obtain ⟨m, -, last⟩ := path_append.mp path
  exact last.2

/-- A list of cells linked in both directions between `head` and `tail`. -/
structure Doubly (next prv : ι → Option ι) (head tail : Option ι) (l : List ι) : Prop where
  forward : Path next head l none
  backward : Path prv tail l.reverse none
  nodup : l.Nodup

namespace Doubly

variable {head tail : Option ι}

theorem congr (d : Doubly next prv head tail l) (forward : ∀ x ∈ l, f x = next x)
    (backward : ∀ x ∈ l, g x = prv x) : Doubly f g head tail l where
  forward := d.forward.congr forward
  backward := d.backward.congr fun x member => backward x (List.mem_reverse.mp member)
  nodup := d.nodup

theorem head_of_cons (d : Doubly next prv head tail (x :: l)) : head = some x := d.forward.head

theorem tail_of_snoc (d : Doubly next prv head tail (l ++ [x])) : tail = some x := by
  have back := d.backward
  rw [List.reverse_append] at back
  exact back.head

theorem symm (d : Doubly next prv head tail l) : Doubly prv next tail head l.reverse where
  forward := d.backward
  backward := by
    rw [List.reverse_reverse]
    exact d.forward
  nodup := List.nodup_reverse.mpr d.nodup

theorem remove_only (d : Doubly next prv head tail [x]) : Doubly next prv (next x) (next x) [] where
  forward := d.forward.2
  backward := d.forward.2
  nodup := List.nodup_nil

theorem next_of_middle (d : Doubly next prv head tail (xs ++ y :: x :: z :: zs)) :
    next x = some z ∧ prv x = some y := by
  obtain ⟨m, -, -, -, after⟩ := path_append.mp d.forward
  have back := d.backward
  have shape : (xs ++ y :: x :: z :: zs).reverse = (zs.reverse ++ [z]) ++ x :: y :: xs.reverse := by simp
  rw [shape] at back
  obtain ⟨m, -, -, before⟩ := path_append.mp back
  exact ⟨after.head, before.head⟩

end Doubly

variable [DecidableEq ι]

theorem Path.update (path : Path f p l q) (outside : y ∉ l) : Path (Function.update f y m) p l q := by
  apply path.congr
  intro x member
  have other : x ≠ y := fun same => outside (same ▸ member)
  exact Function.update_of_ne other _ _

theorem Path.skip (path : Path f p (xs ++ y :: x :: zs) q) (nodup : (xs ++ y :: x :: zs).Nodup) :
    Path (Function.update f y (f x)) p (xs ++ y :: zs) q := by
  obtain ⟨m, front, here⟩ := path_append.mp path
  have first : y ∉ xs := by
    intro member
    exact (List.nodup_append.mp nodup).2.2 y member y List.mem_cons_self rfl
  have second : y ∉ x :: zs := (List.nodup_cons.mp (List.nodup_append.mp nodup).2.1).1
  refine path_append.mpr ⟨m, front.update first, here.1, ?_⟩
  rw [Function.update_self]
  exact here.2.2.update fun member => second (List.mem_cons_of_mem x member)

theorem Path.extend (path : Path f p (xs ++ [y]) none) (nodup : (xs ++ [y]).Nodup) (fresh : x ∉ xs ++ [y]) :
    Path (Function.update (Function.update f y (some x)) x none) p (xs ++ [y] ++ [x]) none := by
  obtain ⟨m, front, here⟩ := path_append.mp path
  have first : y ∉ xs := by
    intro member
    exact (List.nodup_append.mp nodup).2.2 y member y List.mem_cons_self rfl
  have other : y ≠ x := by
    rintro rfl
    exact fresh (List.mem_append_right xs List.mem_cons_self)
  refine path_append.mpr ⟨some x, ?_, rfl, Function.update_self _ _ _⟩
  have longer : Path (Function.update f y (some x)) p (xs ++ [y]) (some x) :=
    path_append.mpr ⟨m, front.update first, here.1, Function.update_self _ _ _⟩
  exact longer.update fresh

namespace Doubly

variable {head tail : Option ι}

theorem singleton : Doubly (Function.update next x none) (Function.update prv x none) (some x) (some x) [x] where
  forward := ⟨rfl, Function.update_self _ _ _⟩
  backward := ⟨rfl, Function.update_self _ _ _⟩
  nodup := List.nodup_singleton x

theorem push (d : Doubly next prv head tail (xs ++ [y])) (fresh : x ∉ xs ++ [y]) :
    Doubly (Function.update (Function.update next y (some x)) x none) (Function.update prv x (some y))
      head (some x) (xs ++ [y] ++ [x]) where
  forward := d.forward.extend d.nodup fresh
  backward := by
    have back := d.backward
    rw [d.tail_of_snoc] at back
    rw [List.reverse_append]
    refine ⟨rfl, ?_⟩
    rw [Function.update_self]
    exact back.update (by simpa [and_comm] using fresh)
  nodup := by
    rw [List.nodup_append_comm]
    exact List.nodup_cons.mpr ⟨fresh, d.nodup⟩

theorem remove_head (d : Doubly next prv head tail (x :: y :: l)) :
    Doubly next (Function.update prv y none) (next x) tail (y :: l) where
  forward := d.forward.2
  backward := by
    have back := d.backward
    have shape : (x :: y :: l).reverse = l.reverse ++ y :: x :: [] := by simp
    rw [shape] at back
    have last : prv x = none := by
      rw [show l.reverse ++ [y, x] = (l.reverse ++ [y]) ++ [x] by simp] at back
      exact back.last
    have shorter := back.skip (shape ▸ List.nodup_reverse.mpr d.nodup)
    rw [last] at shorter
    simpa using shorter
  nodup := (List.nodup_cons.mp d.nodup).2

theorem remove_tail (d : Doubly next prv head tail (l ++ [y, x])) :
    Doubly (Function.update next y none) prv head (prv x) (l ++ [y]) := by
  have reversed := d.symm
  rw [show (l ++ [y, x]).reverse = x :: y :: l.reverse by simp] at reversed
  have shorter := reversed.remove_head.symm
  rwa [show (y :: l.reverse).reverse = l ++ [y] by simp] at shorter

theorem remove_middle (d : Doubly next prv head tail (xs ++ y :: x :: z :: zs)) :
    Doubly (Function.update next y (next x)) (Function.update prv z (prv x)) head tail (xs ++ y :: z :: zs) where
  forward := d.forward.skip d.nodup
  backward := by
    have back := d.backward
    have shape : (xs ++ y :: x :: z :: zs).reverse = zs.reverse ++ z :: x :: (y :: xs.reverse) := by simp
    have nodup := List.nodup_reverse.mpr d.nodup
    rw [shape] at back nodup
    have shorter := back.skip nodup
    rwa [show (xs ++ y :: z :: zs).reverse = zs.reverse ++ z :: (y :: xs.reverse) by simp]
  nodup := by
    refine d.nodup.sublist ?_
    exact (List.sublist_cons_self x (z :: zs)).cons_cons y |>.append_left xs

end Doubly

end Linked
