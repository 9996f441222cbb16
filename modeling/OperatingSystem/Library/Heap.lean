import Mathlib.Logic.Function.Basic

structure Heap (α : Type*) where
  cells : Nat → Option α
  next : Nat
  fresh : ∀ a, next ≤ a → cells a = none

namespace Heap

variable {α : Type*} (h : Heap α) (a b : Nat) (x : α) (f : α → α)

def empty : Heap α := ⟨fun _ => none, 0, fun _ _ => rfl⟩

def alloc : Heap α where
  cells := Function.update h.cells h.next (some x)
  next := h.next + 1
  fresh a above := by
    rw [Function.update_of_ne (by omega)]
    exact h.fresh a (by omega)

def modify : Heap α where
  cells b := if b = a then (h.cells b).map f else h.cells b
  next := h.next
  fresh b above := by simp [h.fresh b above]

def free : Heap α where
  cells := Function.update h.cells a none
  next := h.next
  fresh b above := by
    by_cases same : b = a
    · simp [same]
    · rw [Function.update_of_ne same]
      exact h.fresh b above

variable {h a b x f}

theorem lt_next (used : h.cells a = some x) : a < h.next := by
  by_contra above
  rw [h.fresh a (by omega)] at used
  cases used

theorem ne_next (used : h.cells a = some x) : a ≠ h.next := Nat.ne_of_lt (lt_next used)

@[simp] theorem alloc_next : (h.alloc x).cells h.next = some x := Function.update_self _ _ _

theorem alloc_of_ne (other : b ≠ h.next) : (h.alloc x).cells b = h.cells b := Function.update_of_ne other _ _

theorem modify_self : (h.modify a f).cells a = (h.cells a).map f := if_pos rfl

theorem modify_of_ne (other : b ≠ a) : (h.modify a f).cells b = h.cells b := if_neg other

theorem modify_map {β : Type*} (g : α → β) (keeps : ∀ x, g (f x) = g x) :
    ((h.modify a f).cells b).map g = (h.cells b).map g := by
  by_cases same : b = a
  · subst same
    rw [modify_self]
    cases h.cells b <;> simp [keeps]
  · rw [modify_of_ne same]

@[simp] theorem free_self : (h.free a).cells a = none := Function.update_self _ _ _

theorem free_of_ne (other : b ≠ a) : (h.free a).cells b = h.cells b := Function.update_of_ne other _ _

theorem free_of_some (used : (h.free a).cells b = some x) : b ≠ a ∧ h.cells b = some x := by
  by_cases same : b = a
  · subst same
    rw [free_self] at used
    cases used
  · exact ⟨same, free_of_ne same ▸ used⟩

theorem free_modify : (h.modify a f).free a = h.free a := by
  unfold free modify
  congr 1
  funext b
  by_cases same : b = a
  · simp [same]
  · simp [same]

end Heap
