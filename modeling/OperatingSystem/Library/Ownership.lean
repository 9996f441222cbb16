import Mathlib.Data.Set.Card

/-!
# Who holds what

Every owner has places, and a place holds a resource or nothing, which is `0`.  `Exact holds used`
says that the resources in use are those held, each at one place of one owner.
-/

namespace Ownership

variable {ι κ β : Type*}

section Lists

variable [DecidableEq κ]

/-- Put resources into several places of one owner, first to last. -/
def attachAll (new : List (κ × β)) (own : κ → β) : κ → β :=
  new.foldl (fun own kb => Function.update own kb.1 kb.2) own

theorem attachAll_other {l : List (κ × β)} {own : κ → β} {k : κ} (other : k ∉ l.map Prod.fst) :
    attachAll l own k = own k := by
  induction l generalizing own with
  | nil => rfl
  | cons kb l ih =>
      simp only [List.map_cons, List.mem_cons, not_or] at other
      rw [attachAll, List.foldl_cons, ← attachAll, ih other.2, Function.update_of_ne other.1]

theorem attachAll_cases (l : List (κ × β)) (own : κ → β) (k : κ) :
    attachAll l own k = own k ∨ ∃ kb ∈ l, kb.1 = k ∧ attachAll l own k = kb.2 := by
  induction l generalizing own with
  | nil => exact Or.inl rfl
  | cons first l ih =>
      rw [attachAll, List.foldl_cons, ← attachAll]
      rcases ih (Function.update own first.1 first.2) with old | ⟨kb, member, place, value⟩
      · by_cases here : k = first.1
        · subst here
          exact Or.inr ⟨first, List.mem_cons_self, rfl, by simpa using old⟩
        · rw [Function.update_of_ne here] at old
          exact Or.inl old
      · exact Or.inr ⟨kb, List.mem_cons_of_mem _ member, place, value⟩

end Lists

variable [Zero β]

structure Exact (holds : ι → κ → β) (used : β → Prop) : Prop where
  held : ∀ i k, holds i k ≠ 0 → used (holds i k)
  once : ∀ i k i' k', holds i k ≠ 0 → holds i k = holds i' k' → i = i' ∧ k = k'
  found : ∀ b, used b → b ≠ 0 ∧ ∃ i k, holds i k = b

noncomputable def count (own : κ → β) : Nat := {k | own k ≠ 0}.ncard

theorem count_eq_zero [Finite κ] {own : κ → β} : count own = 0 ↔ ∀ k, own k = 0 := by
  rw [count, Set.ncard_eq_zero (Set.toFinite _), Set.eq_empty_iff_forall_notMem]
  simp

section Places

variable [DecidableEq κ] {o : κ → β} {k : κ} {b : β}

theorem count_attach [Finite κ] (empty : o k = 0) (real : b ≠ 0) :
    count (Function.update o k b) = count o + 1 := by
  have grown : {j | Function.update o k b j ≠ 0} = insert k {j | o j ≠ 0} := by
    ext j
    by_cases here : j = k
    · subst here
      simp [real]
    · simp [here]
  rw [count, grown, Set.ncard_insert_of_notMem (by simp [empty]) (Set.toFinite _), count]

end Places

namespace Exact

theorem congr {holds : ι → κ → β} {used used' : β → Prop} (exact : Exact holds used)
    (same : ∀ b, used' b ↔ used b) : Exact holds used' where
  held i k taken := (same _).mpr (exact.held i k taken)
  once := exact.once
  found b inUse := exact.found b ((same b).mp inUse)

variable [DecidableEq ι] [DecidableEq κ] {holds : ι → κ → β} {used : β → Prop}
  (exact : Exact holds used) {i : ι} {k : κ} {b : β}
include exact

theorem attach (empty : holds i k = 0) (real : b ≠ 0) (fresh : ¬ used b) :
    Exact (Function.update holds i (Function.update (holds i) k b)) fun c => used c ∨ c = b := by
  have value : ∀ j l, Function.update holds i (Function.update (holds i) k b) j l =
      if j = i ∧ l = k then b else holds j l := by
    intro j l
    by_cases owner : j = i
    · subst owner
      by_cases place : l = k <;> simp [place]
    · simp [owner]
  have foreign : ∀ j l, holds j l ≠ 0 → holds j l ≠ b := by
    intro j l taken same
    exact fresh (same ▸ exact.held j l taken)
  refine ⟨?_, ?_, ?_⟩
  · intro j l taken
    rw [value] at taken ⊢
    split_ifs with here
    · exact Or.inr rfl
    · rw [if_neg here] at taken
      exact Or.inl (exact.held j l taken)
  · intro j l j' l' taken same
    rw [value] at taken
    rw [value, value] at same
    split_ifs at taken same with here there there
    · exact ⟨here.1.trans there.1.symm, here.2.trans there.2.symm⟩
    · exact absurd same.symm (foreign j' l' (same ▸ taken))
    · exact absurd same (foreign j l taken)
    · exact exact.once j l j' l' taken same
  · intro c inUse
    rcases inUse with inUse | rfl
    · obtain ⟨nonzero, j, l, here⟩ := exact.found c inUse
      refine ⟨nonzero, j, l, ?_⟩
      have other : ¬ (j = i ∧ l = k) := by
        rintro ⟨rfl, rfl⟩
        exact nonzero (here ▸ empty)
      rw [value, if_neg other, here]
    · exact ⟨real, i, k, by simp [value]⟩

omit [DecidableEq κ] in
theorem clear : Exact (Function.update holds i fun _ => 0) fun c => used c ∧ ∀ k, holds i k ≠ c where
  held j l taken := by
    by_cases here : j = i
    · subst here
      simp at taken
    · rw [Function.update_of_ne here] at taken ⊢
      exact ⟨exact.held j l taken, fun k same => here (exact.once j l i k taken same.symm).1⟩
  once j l j' l' taken same := by
    by_cases here : j = i
    · subst here
      simp at taken
    · rw [Function.update_of_ne here] at taken same
      by_cases there : j' = i
      · subst there
        rw [Function.update_self] at same
        exact absurd same taken
      · rw [Function.update_of_ne there] at same
        exact exact.once j l j' l' taken same
  found c := by
    rintro ⟨inUse, other⟩
    obtain ⟨nonzero, j, l, here⟩ := exact.found c inUse
    refine ⟨nonzero, j, l, ?_⟩
    have elsewhere : j ≠ i := by
      rintro rfl
      exact other l here
    rw [Function.update_of_ne elsewhere, here]

end Exact

section New

variable [DecidableEq ι] [DecidableEq κ]

structure Fresh (l : List (κ × β)) (own : κ → β) (used : β → Prop) : Prop where
  places : (l.map Prod.fst).Nodup
  blocks : (l.map Prod.snd).Nodup
  empty : ∀ kb ∈ l, own kb.1 = 0
  real : ∀ kb ∈ l, kb.2 ≠ 0
  unused : ∀ kb ∈ l, ¬ used kb.2

variable {holds : ι → κ → β} {used : β → Prop} {i : ι} {l : List (κ × β)}

theorem Fresh.tail {k : κ} {b : β} {own : κ → β} (fresh : Fresh ((k, b) :: l) own used) :
    Fresh l (Function.update own k b) fun c => used c ∨ c = b := by
  have places := fresh.places
  have blocks := fresh.blocks
  simp only [List.map_cons, List.nodup_cons] at places blocks
  refine ⟨places.2, blocks.2, ?_, ?_, ?_⟩
  · intro kb member
    have other : kb.1 ≠ k := fun same => places.1 (same ▸ List.mem_map_of_mem member)
    rw [Function.update_of_ne other]
    exact fresh.empty kb (List.mem_cons_of_mem _ member)
  · exact fun kb member => fresh.real kb (List.mem_cons_of_mem _ member)
  · rintro kb member (inUse | same)
    · exact fresh.unused kb (List.mem_cons_of_mem _ member) inUse
    · exact blocks.1 (same ▸ List.mem_map_of_mem member)

theorem Exact.attachAll (exact : Exact holds used) (fresh : Fresh l (holds i) used) :
    Exact (Function.update holds i (attachAll l (holds i))) fun c => used c ∨ c ∈ l.map Prod.snd := by
  induction l generalizing holds used with
  | nil =>
      have same : Function.update holds i (Ownership.attachAll [] (holds i)) = holds := by
        simp [Ownership.attachAll]
      rw [same]
      exact exact.congr (by simp)
  | cons kb l ih =>
      obtain ⟨k, b⟩ := kb
      have first := exact.attach (fresh.empty (k, b) List.mem_cons_self) (fresh.real (k, b) List.mem_cons_self)
        (fresh.unused (k, b) List.mem_cons_self)
      have rest := ih first (by
        rw [Function.update_self]
        exact fresh.tail)
      rw [Function.update_self, Function.update_idem] at rest
      exact rest.congr fun c => by simp [or_assoc]

theorem count_attachAll [Finite κ] {own : κ → β} (fresh : Fresh l own used) :
    count (attachAll l own) = count own + l.length := by
  induction l generalizing own used with
  | nil => rfl
  | cons kb l ih =>
      obtain ⟨k, b⟩ := kb
      have rest := ih fresh.tail
      rw [Ownership.attachAll, List.foldl_cons, ← Ownership.attachAll, rest,
        count_attach (fresh.empty (k, b) List.mem_cons_self) (fresh.real (k, b) List.mem_cons_self)]
      simp only [List.length_cons]
      omega

end New

end Ownership
