import Mathlib.Data.List.Forall2
import OperatingSystem.Library.Chain

/-!
# Singly linked lists in a heap

`Strand link shows h p cells l q`: following `link` from the pointer `p` leads through `cells` to the pointer `q`, and
each cell shows the element of `l` at its place.
-/

open Linked Heap

/-- The cells of a heap between two pointers, and the list they stand for. -/
structure Strand {κ β : Type} (link : κ → Option Nat) (shows : κ → β → Prop) (h : Heap κ) (p : Option Nat) (cells : List Nat)
    (l : List β) (q : Option Nat) : Prop where
  path : Path (linkIn link h) p cells q
  holds : List.Forall₂ (fun x b => ∃ c, h.cells x = some c ∧ shows c b) cells l

namespace Strand

variable {κ β : Type} {link : κ → Option Nat} {shows : κ → β → Prop} {h h' : Heap κ} {p q r : Option Nat} {xs ys : List Nat}
  {l m : List β} {x : Nat} {c : κ} {b : β} {f : κ → κ}

theorem nil : Strand link shows h p [] [] p := ⟨rfl, .nil⟩

theorem of_nil (s : Strand link shows h p [] l q) : l = [] ∧ p = q := ⟨List.forall₂_nil_left_iff.mp s.holds, s.path⟩

theorem cons (here : h.cells x = some c) (shown : shows c b) (rest : Strand link shows h (link c) xs l q) :
    Strand link shows h (some x) (x :: xs) (b :: l) q where
  path := ⟨rfl, by rw [linkIn_eq here]; exact rest.path⟩
  holds := .cons ⟨c, here, shown⟩ rest.holds

theorem of_cons (s : Strand link shows h p (x :: xs) l q) :
    ∃ c b m, p = some x ∧ h.cells x = some c ∧ shows c b ∧ l = b :: m ∧ Strand link shows h (link c) xs m q := by
  obtain ⟨start, path⟩ := s.path
  obtain ⟨b, m, ⟨c, here, shown⟩, rest, rfl⟩ := List.forall₂_cons_left_iff.mp s.holds
  rw [linkIn_eq here] at path
  exact ⟨c, b, m, start, here, shown, rfl, path, rest⟩

theorem single (here : h.cells x = some c) (shown : shows c b) : Strand link shows h (some x) [x] [b] (link c) := cons here shown nil

theorem append (s : Strand link shows h p xs l q) (t : Strand link shows h q ys m r) :
    Strand link shows h p (xs ++ ys) (l ++ m) r :=
  ⟨path_append.mpr ⟨q, s.path, t.path⟩, List.rel_append s.holds t.holds⟩

theorem split (s : Strand link shows h p (xs ++ ys) l r) :
    ∃ q l₁ l₂, l = l₁ ++ l₂ ∧ Strand link shows h p xs l₁ q ∧ Strand link shows h q ys l₂ r := by
  induction xs generalizing p l with
  | nil => exact ⟨p, [], l, rfl, nil, s⟩
  | cons x xs ih =>
      obtain ⟨c, b, m, rfl, here, shown, rfl, rest⟩ := s.of_cons
      obtain ⟨q, l₁, l₂, rfl, front, back⟩ := ih rest
      exact ⟨q, b :: l₁, l₂, rfl, cons here shown front, back⟩

theorem length_eq (s : Strand link shows h p xs l q) : xs.length = l.length := s.holds.length_eq

theorem unique {zs : List Nat} {l' : List β} (s : Strand link shows h p xs l none) (t : Strand link shows h p zs l' none)
    (one : ∀ c b b', shows c b → shows c b' → b = b') : l = l' := by
  obtain rfl := s.path.unique t.path
  induction xs generalizing p l l' with
  | nil => rw [s.of_nil.1, t.of_nil.1]
  | cons x xs ih =>
      obtain ⟨c, b, m, -, here, shown, rfl, rest⟩ := s.of_cons
      obtain ⟨c', b', m', -, here', shown', rfl, rest'⟩ := t.of_cons
      obtain rfl := Option.some.inj (here.symm.trans here')
      rw [one c b b' shown shown', ih rest rest']

theorem used (s : Strand link shows h p xs l q) (member : x ∈ xs) : ∃ c, h.cells x = some c := by
  obtain ⟨ys, zs, rfl⟩ := List.append_of_mem member
  obtain ⟨_, _, _, -, -, back⟩ := s.split
  obtain ⟨c, _, _, -, here, -⟩ := back.of_cons
  exact ⟨c, here⟩

theorem below (s : Strand link shows h p xs l q) (member : x ∈ xs) : x < h.next := by
  obtain ⟨c, here⟩ := s.used member
  exact lt_next here

theorem nodup (s : Strand link shows h p xs l none) : xs.Nodup := s.path.nodup

theorem length_le (s : Strand link shows h p xs l none) : xs.length ≤ h.next := Heap.length_le s.nodup fun _ member => s.used member

theorem frame (s : Strand link shows h p xs l q) (same : ∀ x ∈ xs, h'.cells x = h.cells x) : Strand link shows h' p xs l q := by
  induction xs generalizing p l with
  | nil =>
      obtain ⟨rfl, rfl⟩ := s.of_nil
      exact nil
  | cons x xs ih =>
      obtain ⟨c, b, m, rfl, here, shown, rfl, rest⟩ := s.of_cons
      exact cons ((same x List.mem_cons_self).trans here) shown (ih rest fun y member => same y (List.mem_cons_of_mem x member))

theorem alloc (s : Strand link shows h p xs l q) : Strand link shows (h.alloc c) p xs l q :=
  s.frame fun _ member => alloc_of_ne (Nat.ne_of_lt (s.below member))

theorem free (s : Strand link shows h p xs l q) (outside : x ∉ xs) : Strand link shows (h.free x) p xs l q :=
  s.frame fun _ member => free_of_ne fun same => outside (same ▸ member)

theorem modify (s : Strand link shows h p xs l q) (outside : x ∉ xs) : Strand link shows (h.modify x f) p xs l q :=
  s.frame fun _ member => modify_of_ne fun same => outside (same ▸ member)

theorem relink (s : Strand link shows h p (xs ++ [x]) l q) (once : x ∉ xs) (sets : ∀ c, link (f c) = r)
    (keeps : ∀ c b, shows c b → shows (f c) b) : Strand link shows (h.modify x f) p (xs ++ [x]) l r := by
  obtain ⟨m, l₁, l₂, rfl, front, back⟩ := s.split
  obtain ⟨c, b, l₃, rfl, here, shown, rfl, rest⟩ := back.of_cons
  obtain ⟨rfl, rfl⟩ := rest.of_nil
  have changed : (h.modify x f).cells x = some (f c) := by rw [modify_self, here]; rfl
  have last : Strand link shows (h.modify x f) (some x) [x] [b] (link (f c)) := single changed (keeps c b shown)
  rw [sets] at last
  exact (front.modify once).append last

end Strand
