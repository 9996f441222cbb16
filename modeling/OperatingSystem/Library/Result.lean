import Mathlib.Logic.Basic
import Mathlib.Tactic.SplitIfs

universe u

namespace Result

variable {ε : Type*} {α β : Type u} {b : β}

@[simp] theorem bind_eq_ok {x : Except ε α} {f : α → Except ε β} :
    (x >>= f) = .ok b ↔ ∃ a, x = .ok a ∧ f a = .ok b := by
  cases x with
  | error e => simp [bind, Except.bind]
  | ok a => simp [bind, Except.bind]

@[simp] theorem pure_eq_ok {a : α} : (pure a : Except ε α) = .ok a := rfl

@[simp] theorem ok_bind {a : α} {f : α → Except ε β} : (Except.ok a >>= f) = f a := rfl

@[simp] theorem error_bind {e : ε} {f : α → Except ε β} : (Except.error e >>= f) = .error e := rfl

theorem pair_eq {x : Except ε (α × β)} {a : α} (run : .ok (a, b) = x) :
    ∃ a' b', x = .ok (a', b') ∧ a = a' ∧ b = b' := ⟨a, b, run.symm, rfl, rfl⟩

/-- A run that returns, returns a value of which `P` holds. -/
def Ends (P : α → Prop) (x : Except ε α) : Prop := ∀ a, x = .ok a → P a

namespace Ends

variable {P : α → Prop} {Q : β → Prop} {x y : Except ε α} {f : α → Except ε β}

theorem ok {a : α} (here : P a) : Ends P (.ok a : Except ε α) := fun _ same => Except.ok.inj same ▸ here

theorem error {e : ε} : Ends P (.error e : Except ε α) := fun _ same => nomatch same

theorem bind (first : Ends P x) (rest : ∀ a, P a → Ends Q (f a)) : Ends Q (x >>= f) := by
  intro b ran
  obtain ⟨a, here, there⟩ := bind_eq_ok.mp ran
  exact rest a (first a here) b there

theorem skip (rest : ∀ a, Ends Q (f a)) : Ends Q (x >>= f) := by
  intro b ran
  obtain ⟨a, -, there⟩ := bind_eq_ok.mp ran
  exact rest a b there

theorem ite {c : Prop} [Decidable c] (yes : Ends P x) (no : Ends P y) : Ends P (if c then x else y) := by
  split_ifs
  · exact yes
  · exact no

theorem foldlM {ι : Type} {step : α → ι → Except ε α} (each : ∀ a i, P a → Ends P (step a i)) {l : List ι} {a : α}
    (here : P a) : Ends P (l.foldlM step a) := by
  induction l generalizing a with
  | nil => exact ok here
  | cons i l ih =>
      rw [List.foldlM_cons]
      exact (each a i here).bind fun _ there => ih there

end Ends

end Result
