import Mathlib.Logic.Relation

/-!
# Runs of a labelled step relation

`Run R s labels t`: the steps of `R` lead from `s` to `t`, and `labels` are their labels in the
order they were taken.  The rules below are the only inductions over runs in the development: a
safety result proves what one step preserves and hands it to `Run.invariant` or `Run.history`.
-/

namespace Transition

inductive Run {σ ι : Type*} (R : σ → ι → σ → Prop) (s : σ) : List ι → σ → Prop
  | start : Run R s [] s
  | step {labels : List ι} {t : σ} {label : ι} {u : σ} :
      Run R s labels t → R t label u → Run R s (labels ++ [label]) u

variable {σ ι : Type*} {R : σ → ι → σ → Prop} {s t u : σ} {labels more : List ι} {label : ι}

/-- What holds at the start and survives every step holds at the end of every run. -/
theorem Run.invariant (I : σ → Prop) (run : Run R s labels t) (initial : I s)
    (preserved : ∀ t label u, R t label u → I t → I u) : I t := by
  induction run with
  | start => exact initial
  | step _ taken ih => exact preserved _ _ _ taken ih

/-- The same rule for a property of the state together with the labels taken so far. -/
theorem Run.history (I : List ι → σ → Prop) (run : Run R s labels t) (initial : I [] s)
    (preserved : ∀ labels t label u, I labels t → R t label u → I (labels ++ [label]) u) :
    I labels t := by
  induction run with
  | start => exact initial
  | step _ taken ih => exact preserved _ _ _ _ ih taken

theorem Run.mono {R' : σ → ι → σ → Prop} (run : Run R s labels t)
    (weaker : ∀ t label u, R t label u → R' t label u) : Run R' s labels t := by
  induction run with
  | start => exact .start
  | step _ taken ih => exact .step ih (weaker _ _ _ taken)

theorem Run.single (taken : R s label t) : Run R s [label] t := .step .start taken

theorem Run.trans (first : Run R s labels t) (second : Run R t more u) :
    Run R s (labels ++ more) u := by
  induction second with
  | start => simpa using first
  | step _ taken ih => rw [← List.append_assoc]; exact .step ih taken

theorem Run.eq_of_nil (run : Run R s labels t) (none : labels = []) : t = s := by
  cases run with
  | start => rfl
  | step before taken => simp at none

theorem Run.last (run : Run R s (labels ++ [label]) u) : ∃ t, Run R s labels t ∧ R t label u := by
  generalize whole : labels ++ [label] = all at run
  cases run with
  | start => simp at whole
  | step before taken =>
      obtain ⟨rfl, same⟩ := List.append_inj' whole rfl
      obtain rfl := (List.cons.inj same).1
      exact ⟨_, before, taken⟩

theorem Run.split (run : Run R s (labels ++ more) u) : ∃ t, Run R s labels t ∧ Run R t more u := by
  generalize whole : labels ++ more = all at run
  induction run generalizing more with
  | start =>
      obtain ⟨rfl, rfl⟩ := List.append_eq_nil_iff.mp whole
      exact ⟨s, .start, .start⟩
  | @step front v label w before taken ih =>
      rcases List.eq_nil_or_concat more with rfl | ⟨more, last, rfl⟩
      · rw [List.append_nil] at whole
        exact ⟨w, whole ▸ .step before taken, .start⟩
      · rw [List.concat_eq_append, ← List.append_assoc] at whole
        obtain ⟨whole, same⟩ := List.append_inj' whole rfl
        obtain ⟨t, first, rest⟩ := ih whole
        obtain rfl := (List.cons.inj same).1
        exact ⟨t, first, List.concat_eq_append ▸ .step rest taken⟩

def Reachable (R : σ → ι → σ → Prop) (s t : σ) : Prop := ∃ labels, Run R s labels t

/-- `P` holds of every step a run from `s` takes on the way along `labels`. -/
def Each (R : σ → ι → σ → Prop) (s : σ) (P : σ → ι → σ → Prop) (labels : List ι) : Prop :=
  ∀ front label t u, front ++ [label] <+: labels → Run R s front t → R t label u → P t label u

theorem Each.congr {P Q : σ → ι → σ → Prop}
    (same : ∀ t label u, Reachable R s t → R t label u → (P t label u ↔ Q t label u)) :
    Each R s P labels ↔ Each R s Q labels := by
  refine forall_congr' fun front => forall_congr' fun label => forall_congr' fun t => forall_congr' fun u => ?_
  exact imp_congr_right fun _ => forall_congr' fun run => imp_congr_right fun taken => same t label u ⟨front, run⟩ taken

section Executable

variable {α ε φ : Type*} {step : σ → α → Except φ (σ × ε)}

/-- The step relation of a step function: a label is the action and what it shows. -/
def Takes (step : σ → α → Except φ (σ × ε)) (s : σ) (label : α × ε) (t : σ) : Prop :=
  step s label.1 = .ok (t, label.2)

theorem Run.unique {labels : List (α × ε)} (run : Run (Takes step) s labels t) (other : Run (Takes step) s labels u) : t = u := by
  induction run generalizing u with
  | start => exact (other.eq_of_nil rfl).symm
  | step _ taken ih =>
      obtain ⟨v, before, again⟩ := other.last
      obtain rfl := ih before
      exact (Prod.mk.inj (Except.ok.inj (taken.symm.trans again))).1

def execute (step : σ → α → Except φ (σ × ε)) : σ → List α → Option (List (α × ε) × σ)
  | s, [] => some ([], s)
  | s, action :: actions =>
      match step s action with
      | .ok (t, shown) => (execute step t actions).map fun r => ((action, shown) :: r.1, r.2)
      | .error _ => none

theorem execute_run {actions : List α} {r : List (α × ε) × σ} (ran : execute step s actions = some r) :
    Run (Takes step) s r.1 r.2 := by
  induction actions generalizing s r with
  | nil =>
      obtain rfl := Option.some.inj ran
      exact .start
  | cons action actions ih =>
      unfold execute at ran
      split at ran
      · rename_i t shown taken
        obtain ⟨rest, more, rfl⟩ := Option.map_eq_some_iff.mp ran
        have first : Run (Takes step) s [(action, shown)] t := .single taken
        exact first.trans (ih more)
      · cases ran

theorem Run.of_execute (step : σ → α → Except φ (σ × ε)) (s : σ) (actions : List α) (ran : (execute step s actions).isSome) :
    Run (Takes step) s ((execute step s actions).get ran).1 ((execute step s actions).get ran).2 :=
  execute_run (Option.some_get ran).symm

end Executable

end Transition
