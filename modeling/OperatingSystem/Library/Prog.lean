import OperatingSystem.Library.Result

/-!
# Programs over an interface

A program calls the operations of an interface and may stop with a fault.  What the operations do
is left to a handler, so that one program can be run on several kinds of state.
-/

inductive Prog {Op : Type} (Res : Op → Type) (ε α : Type) : Type
  | pure (a : α)
  | fault (e : ε)
  | step (op : Op) (next : Res op → Prog Res ε α)

namespace Prog

variable {Op : Type} {Res : Op → Type} {ε α β σ τ : Type}

protected def bind (f : α → Prog Res ε β) : Prog Res ε α → Prog Res ε β
  | pure a => f a
  | fault e => fault e
  | step op next => step op fun r => Prog.bind f (next r)

instance : Monad (Prog Res ε) where
  pure := pure
  bind x f := Prog.bind f x

def call (op : Op) : Prog Res ε (Res op) := step op pure

def lift : Except ε α → Prog Res ε α
  | .ok a => pure a
  | .error e => fault e

instance : MonadLift (Except ε) (Prog Res ε) := ⟨lift⟩

abbrev Handler (Res : Op → Type) (ε σ : Type) := (op : Op) → σ → Except ε (Res op × σ)

variable {H : Handler Res ε σ} {s s' : σ} {a : α} {p : Prog Res ε α} {f : α → Prog Res ε β}

section Running

def run (H : Handler Res ε σ) : Prog Res ε α → σ → Except ε (α × σ)
  | pure a, s => .ok (a, s)
  | fault e, _ => .error e
  | step op next, s => H op s >>= fun rs => run H (next rs.1) rs.2

@[simp] theorem run_pure (a : α) (s : σ) : run H (Pure.pure a : Prog Res ε α) s = .ok (a, s) := rfl

@[simp] theorem run_fault (e : ε) (s : σ) : run H (fault e : Prog Res ε α) s = .error e := rfl

@[simp] theorem run_call (op : Op) (s : σ) : run H (call op) s = H op s := by
  cases h : H op s with
  | error e => simp [call, run, h]
  | ok rs => simp [call, run, h]

@[simp] theorem run_lift (x : Except ε α) (s : σ) : run H (liftM x : Prog Res ε α) s = x >>= fun a => .ok (a, s) := by
  cases x with
  | error e => rfl
  | ok a => rfl

@[simp] theorem run_bind (p : Prog Res ε α) (f : α → Prog Res ε β) (s : σ) :
    run H (p >>= f) s = run H p s >>= fun as => run H (f as.1) as.2 := by
  change run H (Prog.bind f p) s = _
  induction p generalizing s with
  | pure a => rfl
  | fault e => rfl
  | step op next ih =>
      cases h : H op s with
      | error e => simp [Prog.bind, run, h]
      | ok rs => simp [Prog.bind, run, h, ih]

end Running

section Along

/-- `P` holds of every operation the run calls and of the state it is called in. -/
def Along (H : Handler Res ε σ) (P : Op → σ → Prop) : Prog Res ε α → σ → Prop
  | pure _, _ => True
  | fault _, _ => True
  | step op next, s => P op s ∧ ∀ r s', H op s = .ok (r, s') → Along H P (next r) s'

variable {P : Op → σ → Prop}

theorem along_bind : Along H P (p >>= f) s ↔
    Along H P p s ∧ ∀ a s', run H p s = .ok (a, s') → Along H P (f a) s' := by
  change Along H P (Prog.bind f p) s ↔ _
  induction p generalizing s with
  | pure a =>
      constructor
      · intro along
        refine ⟨trivial, fun b s' run => ?_⟩
        obtain ⟨rfl, rfl⟩ := Prod.mk.inj (Except.ok.inj run)
        exact along
      · exact fun along => along.2 a s rfl
  | fault e => simp [Prog.bind, Along, run]
  | step op next ih =>
      simp only [Prog.bind, Along, ih, run, Result.bind_eq_ok]
      constructor
      · rintro ⟨here, after⟩
        refine ⟨⟨here, fun r s' called => (after r s' called).1⟩, ?_⟩
        rintro a s' ⟨⟨r, t⟩, called, rest⟩
        exact (after r t called).2 a s' rest
      · rintro ⟨⟨here, after⟩, last⟩
        exact ⟨here, fun r s' called =>
          ⟨after r s' called, fun a t rest => last a t ⟨(r, s'), called, rest⟩⟩⟩

theorem along_call {op : Op} : Along H P (call op) s ↔ P op s := by
  simp [call, Along]

end Along

section Performs

structure Performs (H : Handler Res ε σ) (P : Op → σ → Prop) (p : Prog Res ε α) (s : σ) (r : Except ε (α × σ)) : Prop where
  run : Prog.run H p s = r
  along : Along H P p s

namespace Performs

variable {P : Op → σ → Prop} {q : Except ε (α × σ)} {r : Except ε (β × σ)} {op : Op}

theorem pure (a : α) : Performs H P (Pure.pure a) s (.ok (a, s)) := ⟨rfl, trivial⟩

theorem call (here : P op s) : Performs H P (Prog.call op) s (H op s) := ⟨run_call op s, along_call.mpr here⟩

theorem bind {g : α × σ → Except ε (β × σ)} (first : Performs H P p s q)
    (rest : ∀ a s', q = .ok (a, s') → Performs H P (f a) s' (g (a, s'))) : Performs H P (p >>= f) s (q >>= g) := by
  refine ⟨?_, along_bind.mpr ⟨first.along, fun a s' ran => (rest a s' (first.run.symm.trans ran)).along⟩⟩
  rw [run_bind, first.run]
  cases q with
  | error e => rfl
  | ok as => exact (rest as.1 as.2 rfl).run

theorem next {f : Res op → Prog Res ε β} {a : Res op} (here : P op s) (called : H op s = .ok (a, s'))
    (rest : Performs H P (f a) s' r) : Performs H P (Prog.call op >>= f) s r := by
  have first := call (H := H) here
  rw [called] at first
  exact first.bind (g := fun _ => r) fun b t same => by
    obtain ⟨rfl, rfl⟩ := Prod.mk.inj (Except.ok.inj same)
    exact rest

theorem stop {f : Res op → Prog Res ε β} {e : ε} (here : P op s) (called : H op s = .error e) :
    Performs H P (Prog.call op >>= f) s (.error e) := by
  have first := call (H := H) here
  rw [called] at first
  exact first.bind (g := fun _ => .error e) fun _ _ same => by cases same

theorem lift {x : Except ε α} {g : α → Except ε (β × σ)} (rest : ∀ a, x = .ok a → Performs H P (f a) s (g a)) :
    Performs H P (liftM x >>= f) s (x >>= g) := by
  cases x with
  | error e => exact ⟨rfl, trivial⟩
  | ok a => exact rest a rfl

end Performs

end Performs

section Agreement

open Result (Ends)

variable {K : Handler Res ε τ} {R : σ → τ → Prop} {Bad : σ → Prop} {t t' : τ} {b : α}

/-- What every operation keeps, every program keeps. -/
theorem run_ends {P : σ → Prop} (each : ∀ op s, P s → Ends (fun r => P r.2) (H op s)) (p : Prog Res ε α) (here : P s) :
    Ends (fun r => P r.2) (run H p s) := by
  induction p generalizing s with
  | pure a => exact Ends.ok here
  | fault e => exact Ends.error
  | step op next ih => exact (each op s here).bind fun r there => ih r.1 there

/-- The operations of `H` and `K` give the same results and keep `R`, unless something `Bad` happened. -/
structure Agree (H : Handler Res ε σ) (K : Handler Res ε τ) (R : σ → τ → Prop) (Bad : σ → Prop) : Prop where
  lasts : ∀ op s, Bad s → Ends (fun r => Bad r.2) (H op s)
  step : ∀ {op s s' t t' r r'}, R s t → H op s = .ok (r, s') → ¬ Bad s' → K op t = .ok (r', t') → r' = r ∧ R s' t'

def Meets (H : Handler Res ε σ) (Bad : σ → Prop) : Prog Res ε α → σ → Prop
  | pure _, _ => False
  | fault _, _ => False
  | step op next, s => ∃ r s', H op s = .ok (r, s') ∧ (Bad s' ∨ Meets H Bad (next r) s')

theorem Agree.meets_last (agree : Agree H K R Bad) (meets : Meets H Bad p s) (ran : Prog.run H p s = .ok (a, s')) : Bad s' := by
  induction p generalizing s with
  | pure b => cases meets
  | fault e => cases meets
  | step op next ih =>
      obtain ⟨r, u, called, failing⟩ := meets
      obtain ⟨⟨r', u'⟩, called', rest⟩ := Result.bind_eq_ok.mp ran
      obtain ⟨rfl, rfl⟩ := Prod.mk.inj (Except.ok.inj (called'.symm.trans called))
      rcases failing with bad | later
      · exact run_ends agree.lasts (next r') bad (a, s') rest
      · exact ih r' later rest

/-- Where an operation of `K` returns, that of `H` returns or has a fault of a known kind. -/
def Follows (H : Handler Res ε σ) (K : Handler Res ε τ) (R : σ → τ → Prop) (Known : ε → Prop) : Prop :=
  ∀ {op s t r}, R s t → K op t = .ok r → (∃ r', H op s = .ok r') ∨ ∃ e, H op s = .error e ∧ Known e

inductive Ending (H : Handler Res ε σ) (R : σ → τ → Prop) (Bad : σ → Prop) (Known : ε → Prop) (p : Prog Res ε α) (s : σ) (b : α)
    (t' : τ) : Prop
  | same {s' : σ} : Prog.run H p s = .ok (b, s') → ¬ Bad s' → R s' t' → Ending H R Bad Known p s b t'
  | bad : Meets H Bad p s → Ending H R Bad Known p s b t'
  | fault {e : ε} : Prog.run H p s = .error e → Known e → Ending H R Bad Known p s b t'

theorem Agree.follow {Known : ε → Prop} (agree : Agree H K R Bad) (follows : Follows H K R Known) (p : Prog Res ε α) (here : R s t)
    (good : ¬ Bad s) (other : Prog.run K p t = .ok (b, t')) : Ending H R Bad Known p s b t' := by
  induction p generalizing s t with
  | pure c =>
      obtain ⟨rfl, rfl⟩ := Prod.mk.inj (Except.ok.inj other)
      exact .same rfl good here
  | fault e => cases other
  | step op next ih =>
      obtain ⟨⟨r', u'⟩, called', rest'⟩ := Result.bind_eq_ok.mp other
      rcases follows here called' with ⟨⟨r, u⟩, called⟩ | ⟨e, called, known⟩
      · by_cases still : Bad u
        · exact .bad ⟨r, u, called, .inl still⟩
        obtain ⟨rfl, there⟩ := agree.step here called still called'
        have first (x : Except ε (α × σ)) (rest : Prog.run H (next r') u = x) : Prog.run H (Prog.step op next) s = x := by
          rw [Prog.run, called]
          exact rest
        rcases ih r' there still rest' with ⟨ran, fine, last⟩ | meets | ⟨ran, known⟩
        · exact .same (first _ ran) fine last
        · exact .bad ⟨r', u, called, .inr meets⟩
        · exact .fault (first _ ran) known
      · refine .fault ?_ known
        rw [Prog.run, called]
        rfl

def Spends (K : Handler Res ε τ) (cost : Op → Nat) : Prog Res ε α → τ → Nat → Prop
  | pure _, _, _ => True
  | fault _, _, _ => True
  | step op next, t, n => cost op ≤ n ∧ ∀ r t', K op t = .ok (r, t') → Spends K cost (next r) t' (n - cost op)

section Spending

variable {cost : Op → Nat} {m n : Nat}

theorem Spends.mono (spends : Spends K cost p t m) (more : m ≤ n) : Spends K cost p t n := by
  induction p generalizing t m n with
  | pure a => trivial
  | fault e => trivial
  | step op next ih => exact ⟨Nat.le_trans spends.1 more, fun r t' called => ih r (spends.2 r t' called) (Nat.sub_le_sub_right more _)⟩

theorem Spends.bind {f : α → Prog Res ε β} (first : Spends K cost p t m)
    (rest : ∀ a t', Prog.run K p t = .ok (a, t') → Spends K cost (f a) t' n) : Spends K cost (p >>= f) t (m + n) := by
  change Spends K cost (Prog.bind f p) t (m + n)
  induction p generalizing t m with
  | pure a => exact (rest a t rfl).mono (Nat.le_add_left n m)
  | fault e => trivial
  | step op next ih =>
      refine ⟨Nat.le_trans first.1 (Nat.le_add_right m n), fun r t' called => ?_⟩
      have later := ih r (first.2 r t' called) fun a u ran => rest a u (by rw [Prog.run, called]; exact ran)
      exact later.mono (by have := first.1; omega)

theorem Spends.ok (a : α) : Spends K cost (Pure.pure a : Prog Res ε α) t n := trivial

theorem Spends.skip {f : α → Prog Res ε β} (first : Spends K cost p t 0)
    (rest : ∀ a t', Prog.run K p t = .ok (a, t') → Spends K cost (f a) t' n) : Spends K cost (p >>= f) t n := by
  have all := first.bind rest
  rwa [Nat.zero_add] at all

theorem Spends.call {op : Op} : Spends K cost (Prog.call op) t (cost op) := ⟨Nat.le_refl _, fun _ _ _ => trivial⟩

theorem Spends.free {op : Op} (free : cost op = 0) : Spends K cost (Prog.call op) t n := ⟨free ▸ Nat.zero_le n, fun _ _ _ => trivial⟩

theorem Spends.lift {x : Except ε α} : Spends K cost (liftM x : Prog Res ε α) t n := by
  cases x <;> trivial

theorem Spends.ite {c : Prop} [Decidable c] {q : Prog Res ε α} (first : c → Spends K cost p t n) (second : ¬ c → Spends K cost q t n) :
    Spends K cost (if c then p else q) t n := by
  split_ifs with h
  · exact first h
  · exact second h

/-- A run that has room for what it costs does not come to a `Bad` state. -/
theorem Agree.affords {room : σ → Nat} (agree : Agree H K R Bad)
    (spent : ∀ {op s s' t r u}, R s t → K op t = .ok u → H op s = .ok (r, s') → cost op ≤ room s → ¬ Bad s →
      ¬ Bad s' ∧ room s ≤ room s' + cost op)
    (p : Prog Res ε α) (here : R s t) (good : ¬ Bad s) (other : Prog.run K p t = .ok (b, t'))
    (spends : Spends K cost p t (room s)) : ¬ Meets H Bad p s := by
  induction p generalizing s t with
  | pure c => exact id
  | fault e => exact id
  | step op next ih =>
      rintro ⟨r, u, called, failing⟩
      obtain ⟨⟨r', u'⟩, called', rest⟩ := Result.bind_eq_ok.mp other
      obtain ⟨still, left⟩ := spent here called' called spends.1 good
      obtain ⟨rfl, there⟩ := agree.step here called still called'
      rcases failing with bad | later
      · exact still bad
      · exact ih r' there still rest ((spends.2 r' u' called').mono (by omega)) later

theorem Agree.leaves {room : σ → Nat} (agree : Agree H K R Bad)
    (spent : ∀ {op s s' t r u}, R s t → K op t = .ok u → H op s = .ok (r, s') → cost op ≤ room s → ¬ Bad s →
      ¬ Bad s' ∧ room s ≤ room s' + cost op)
    (p : Prog Res ε α) (here : R s t) (good : ¬ Bad s) (ran : Prog.run H p s = .ok (a, s')) (other : Prog.run K p t = .ok (b, t'))
    (spends : Spends K cost p t n) (enough : n ≤ room s) : room s ≤ room s' + n := by
  induction p generalizing s t n with
  | pure c =>
      obtain ⟨-, rfl⟩ := Prod.mk.inj (Except.ok.inj ran)
      exact Nat.le_add_right _ _
  | fault e => cases ran
  | step op next ih =>
      obtain ⟨⟨r, u⟩, called, rest⟩ := Result.bind_eq_ok.mp ran
      obtain ⟨⟨r', u'⟩, called', rest'⟩ := Result.bind_eq_ok.mp other
      obtain ⟨still, left⟩ := spent here called' called (Nat.le_trans spends.1 enough) good
      obtain ⟨rfl, there⟩ := agree.step here called still called'
      have later := ih r' there still rest rest' (spends.2 r' u' called') (by omega)
      have := spends.1
      omega

end Spending

end Agreement

end Prog
