import Mathlib.Data.List.DropRight
import Mathlib.Data.List.TakeWhile

namespace Words

variable {α : Type*} {p : α → Bool} {l rest w : List α} {a : α}

def words (p : α → Bool) (l : List α) : List (List α) := (l.splitOnP p).filter fun w => !w.isEmpty

/-- The first word, and what is behind the separator that ends it. -/
def takeWord (p : α → Bool) (l : List α) : Option (List α × List α) :=
  let l := l.dropWhile p
  if l.isEmpty then none else some (l.takeWhile fun a => !p a, (l.dropWhile fun a => !p a).tail)

def trailing (p : α → Bool) (l : List α) : Nat := (l.rtakeWhile p).length

theorem words_separator (here : p a = true) : words p (a :: l) = words p l := by
  rw [words, List.splitOnP_cons_eq_if_modifyHead, if_pos here]
  rfl

theorem words_eq_nil_of_all (all : ∀ a ∈ l, p a = true) : words p l = [] := by
  induction l with
  | nil => rfl
  | cons a l ih =>
      rw [words_separator (all a List.mem_cons_self)]
      exact ih fun b member => all b (List.mem_cons_of_mem a member)

theorem words_append_separators {s : List α} (all : ∀ a ∈ s, p a = true) : words p (s ++ l) = words p l := by
  induction s with
  | nil => rfl
  | cons a s ih =>
      rw [List.cons_append, words_separator (all a List.mem_cons_self)]
      exact ih fun b member => all b (List.mem_cons_of_mem a member)

theorem words_single (some : w ≠ []) (none : ∀ a ∈ w, p a = false) : words p w = [w] := by
  rw [words, List.splitOnP_eq_singleton none]
  simp [some]

theorem words_first (some : w ≠ []) (none : ∀ a ∈ w, p a = false) (here : p a = true) :
    words p (w ++ a :: l) = w :: words p l := by
  rw [words, List.splitOnP_append_cons_of_forall_mem none a here]
  simp [some, words]

theorem takeWord_eq_none : takeWord p l = none ↔ ∀ a ∈ l, p a = true := by
  simp [takeWord, List.dropWhile_eq_nil_iff]

theorem takeWord_shape (taken : takeWord p l = some (w, rest)) : ∃ s tail, l = s ++ (w ++ tail) ∧
    (∀ a ∈ s, p a = true) ∧ w ≠ [] ∧ (∀ a ∈ w, p a = false) ∧
      (tail = [] ∧ rest = [] ∨ ∃ a, p a = true ∧ tail = a :: rest) := by
  simp only [takeWord] at taken
  split_ifs at taken with none
  obtain ⟨rfl, rfl⟩ := Prod.mk.inj (Option.some.inj taken)
  refine ⟨l.takeWhile p, (l.dropWhile p).dropWhile fun a => !p a, ?_, fun a member => List.mem_takeWhile_imp member,
    ?_, fun a member => ?_, ?_⟩
  · rw [List.takeWhile_append_dropWhile, List.takeWhile_append_dropWhile]
  · cases left : l.dropWhile p with
    | nil => simp [left] at none
    | cons a tail =>
        have first : p a = false := by
          have := List.head?_dropWhile_not p l
          simpa [left] using this
        simp [first]
  · simpa using List.mem_takeWhile_imp member
  · cases left : (l.dropWhile p).dropWhile fun a => !p a with
    | nil => exact Or.inl ⟨rfl, rfl⟩
    | cons a tail =>
        have first : p a = true := by
          have := List.head?_dropWhile_not (fun a => !p a) (l.dropWhile p)
          simpa [left] using this
        exact Or.inr ⟨a, first, rfl⟩

theorem words_takeWord (taken : takeWord p l = some (w, rest)) : words p l = w :: words p rest := by
  obtain ⟨s, tail, rfl, separators, some, none, shape⟩ := takeWord_shape taken
  rw [words_append_separators separators]
  rcases shape with ⟨rfl, rfl⟩ | ⟨a, here, rfl⟩
  · rw [List.append_nil, words_single some none]
    rfl
  · exact words_first some none here

theorem words_eq_nil : words p l = [] ↔ ∀ a ∈ l, p a = true := by
  refine ⟨fun none => ?_, words_eq_nil_of_all⟩
  cases taken : takeWord p l with
  | none => exact takeWord_eq_none.mp taken
  | some found =>
      rw [words_takeWord taken] at none
      cases none

theorem takeWord_subset (taken : takeWord p l = some (w, rest)) : ∀ a ∈ rest, a ∈ l := by
  obtain ⟨s, tail, rfl, -, -, -, shape⟩ := takeWord_shape taken
  intro a member
  rcases shape with ⟨rfl, rfl⟩ | ⟨b, -, rfl⟩
  · cases member
  · simp [member]

theorem mem_words (member : w ∈ words p l) : w ≠ [] ∧ ∀ a ∈ w, p a = false := by
  induction n : l.length using Nat.strong_induction_on generalizing l with
  | h n ih =>
    cases taken : takeWord p l with
    | none =>
        rw [words_eq_nil_of_all (takeWord_eq_none.mp taken)] at member
        cases member
    | some found =>
        obtain ⟨v, rest⟩ := found
        rw [words_takeWord taken] at member
        obtain ⟨s, tail, rfl, -, some, none, shape⟩ := takeWord_shape taken
        rcases List.mem_cons.mp member with rfl | later
        · exact ⟨some, none⟩
        · refine ih rest.length ?_ later rfl
          have positive := List.length_pos_iff.mpr some
          rcases shape with ⟨rfl, rfl⟩ | ⟨b, -, rfl⟩ <;> simp at n ⊢ <;> omega

theorem words_induction {motive : List α → Prop} (p : α → Bool) (empty : motive [])
    (separator : ∀ a l, p a = true → motive l → motive (a :: l)) (last : ∀ w, w ≠ [] → (∀ a ∈ w, p a = false) → motive w)
    (word : ∀ w a l, w ≠ [] → (∀ a ∈ w, p a = false) → p a = true → motive l → motive (w ++ a :: l)) (l : List α) : motive l := by
  induction n : l.length using Nat.strong_induction_on generalizing l with
  | h n ih =>
    cases taken : takeWord p l with
    | none =>
        cases l with
        | nil => exact empty
        | cons a l =>
            have all := takeWord_eq_none.mp taken
            exact separator a l (all a List.mem_cons_self) (ih l.length (n ▸ Nat.lt_succ_self _) l rfl)
    | some found =>
        obtain ⟨w, rest⟩ := found
        obtain ⟨s, tail, rfl, separators, some, none, shape⟩ := takeWord_shape taken
        cases s with
        | cons a s =>
            refine separator a (s ++ (w ++ tail)) (separators a List.mem_cons_self) (ih _ ?_ _ rfl)
            rw [← n, List.cons_append, List.length_cons]
            exact Nat.lt_succ_self _
        | nil =>
            rcases shape with ⟨rfl, rfl⟩ | ⟨a, here, rfl⟩
            · rw [List.nil_append, List.append_nil]
              exact last w some none
            · refine word w a rest some none here (ih _ ?_ rest rfl)
              simp only [← n, List.nil_append, List.length_append, List.length_cons]
              omega

theorem last_behind_separator {s : List α} (here : p a = true) :
    (∀ b, (s ++ a :: l).getLast? = some b → p b = true) ↔ ∀ b, l.getLast? = some b → p b = true := by
  rw [List.getLast?_append_cons, List.getLast?_cons]
  cases l.getLast? <;> simp [here]

section Trailing

theorem trailing_append (s l : List α) :
    trailing p (s ++ l) = if ∀ a ∈ l, p a = true then l.length + trailing p s else trailing p l := by
  simp only [trailing, List.rtakeWhile, List.length_reverse, List.reverse_append, List.takeWhile_append]
  by_cases all : ∀ a ∈ l, p a = true
  · have whole : l.reverse.takeWhile p = l.reverse := List.takeWhile_eq_self_iff.mpr (by simpa using all)
    rw [if_pos all, whole, if_pos List.length_reverse]
    simp
  · rw [if_neg all, if_neg]
    intro same
    apply all
    have whole := (List.takeWhile_prefix p).eq_of_length (same.trans List.length_reverse.symm)
    simpa using List.takeWhile_eq_self_iff.mp whole

theorem trailing_word (some : w ≠ []) (none : ∀ a ∈ w, p a = false) : trailing p w = 0 := by
  obtain ⟨front, last, rfl⟩ := w.eq_nil_or_concat'.resolve_left some
  have last := none last (by simp)
  simp [trailing, List.rtakeWhile, last]

theorem trailing_last (taken : takeWord p l = some (w, rest)) (last : words p rest = []) :
    rest.length = trailing p l - 1 := by
  obtain ⟨s, tail, rfl, separators, some, none, shape⟩ := takeWord_shape taken
  have all := words_eq_nil.mp last
  have blank : ¬ ∀ a ∈ w, p a = true := by
    intro every
    obtain ⟨a, member⟩ := List.exists_mem_of_ne_nil w some
    exact Bool.false_ne_true ((none a member).symm.trans (every a member))
  rcases shape with ⟨rfl, rfl⟩ | ⟨a, here, rfl⟩
  · rw [List.append_nil, trailing_append, if_neg blank, trailing_word some none]
    rfl
  · have tail : ∀ b ∈ a :: rest, p b = true := by simpa [here] using all
    rw [← List.append_assoc, trailing_append, if_pos tail, trailing_append, if_neg blank, trailing_word some none]
    simp

theorem trailing_more (taken : takeWord p l = some (w, rest)) (more : words p rest ≠ []) :
    trailing p rest = trailing p l := by
  obtain ⟨s, tail, rfl, -, -, -, shape⟩ := takeWord_shape taken
  have some : ¬ ∀ a ∈ rest, p a = true := mt words_eq_nil.mpr more
  rcases shape with ⟨rfl, rfl⟩ | ⟨a, -, rfl⟩
  · exact absurd rfl more
  · have split : s ++ (w ++ a :: rest) = s ++ w ++ [a] ++ rest := by simp
    rw [split, trailing_append, if_neg some]

end Trailing

end Words
