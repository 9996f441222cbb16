import Mathlib.Logic.Function.Iterate
import OperatingSystem.Threads.Waiting

namespace OperatingSystem.Threads

open State Transition

def Assignable (i : Nat) : Prop := 1 ≤ i ∧ i < THREAD_MAX_THREADS

structure CreateContract (s t : State) : Prop where
  full : t.rax = THREAD_NOMORE ↔ ∀ i, Assignable i → (s.totalList i).exist = true
  least : t.rax ≠ THREAD_NOMORE → t.rax = THREAD_NOMEMORY ∨ ∃ id : Nat, t.rax = id ∧ Assignable id ∧
    (s.totalList id).exist = false ∧ ∀ i, Assignable i → i < id → (s.totalList i).exist = true
  unchanged : t.rax = THREAD_NOMORE ∨ t.rax = THREAD_NOMEMORY →
    (∀ i, (t.totalList i).exist = (s.totalList i).exist) ∧ t.readyList = s.readyList

def freeIds (s : State) (fuel first : Nat) : List Nat :=
  (List.range' first fuel).filter fun i => !(s.totalList i).exist

section Slots

variable {s t : State} {stackOk : Bool}

theorem freeSlot_eq (s : State) (fuel first : Nat) : freeSlot s fuel first = (freeIds s fuel first).head? := by
  induction fuel generalizing first with
  | zero => rfl
  | succ fuel ih =>
      rw [freeSlot, freeIds, List.range'_succ]
      by_cases taken : (s.totalList first).exist = true
      · rw [if_pos taken, ih, List.filter_cons_of_neg (by simp [taken])]
        rfl
      · rw [if_neg taken, List.filter_cons_of_pos (by simpa using taken)]
        rfl

theorem mem_freeIds {i : Nat} :
    i ∈ freeIds s (THREAD_MAX_THREADS - 1) 1 ↔ Assignable i ∧ (s.totalList i).exist = false := by
  simp only [freeIds, List.mem_filter, List.mem_range'_1, Assignable, THREAD_MAX_THREADS, Bool.not_eq_true']

theorem freeIds_sorted (s : State) (fuel first : Nat) : (freeIds s fuel first).Pairwise (· < ·) :=
  List.Pairwise.filter _ List.pairwise_lt_range'

theorem freeIds_eq_nil : freeIds s (THREAD_MAX_THREADS - 1) 1 = [] ↔ ∀ i, Assignable i → (s.totalList i).exist = true := by
  rw [List.eq_nil_iff_forall_not_mem]
  constructor
  · intro none i assignable
    by_contra free
    exact none i (mem_freeIds.mpr ⟨assignable, by simpa using free⟩)
  · intro all i member
    obtain ⟨assignable, free⟩ := mem_freeIds.mp member
    rw [all i assignable] at free
    cases free

theorem freeIds_head {id : Nat} {rest : List Nat} (shape : freeIds s (THREAD_MAX_THREADS - 1) 1 = id :: rest) :
    Assignable id ∧ (s.totalList id).exist = false ∧ ∀ i, Assignable i → i < id → (s.totalList i).exist = true := by
  obtain ⟨assignable, free⟩ := mem_freeIds.mp (shape ▸ List.mem_cons_self : id ∈ freeIds s (THREAD_MAX_THREADS - 1) 1)
  refine ⟨assignable, free, fun i inside below => ?_⟩
  by_contra unused
  have member : i ∈ id :: rest := shape ▸ mem_freeIds.mpr ⟨inside, by simpa using unused⟩
  have sorted := freeIds_sorted s (THREAD_MAX_THREADS - 1) 1
  rw [shape, List.pairwise_cons] at sorted
  rcases List.mem_cons.mp member with same | after
  · omega
  · have := sorted.1 i after
    omega

end Slots

section Contract

variable {s : State} {stackOk : Bool}

theorem createContract_iff (frame : Frame) : CreateContract s (threadCreate stackOk (s.push frame)) ↔
    stackOk = true ∨ ∀ i, Assignable i → (s.totalList i).exist = true := by
  have slot : freeSlot (s.push frame) (THREAD_MAX_THREADS - 1) 1 = (freeIds s (THREAD_MAX_THREADS - 1) 1).head? :=
    freeSlot_eq (s.push frame) (THREAD_MAX_THREADS - 1) 1
  rcases threadCreate_eq stackOk (s.push frame) with ⟨none, refused⟩ | ⟨id, found, started⟩
  · have all := freeIds_eq_nil.mp (List.head?_eq_none_iff.mp (slot.symm.trans none))
    rw [refused]
    exact iff_of_true ⟨iff_of_true rfl all, fun other => absurd rfl other, fun _ => ⟨fun _ => rfl, rfl⟩⟩ (.inr all)
  obtain ⟨rest, shape⟩ := List.head?_eq_some_iff.mp (slot.symm.trans found)
  obtain ⟨assignable, free, least⟩ := freeIds_head shape
  have some : ¬ ∀ i, Assignable i → (s.totalList i).exist = true := by
    intro all
    rw [all id assignable] at free
    cases free
  rw [started]
  cases stackOk with
  | true =>
      have named : ∀ error : Int, error < 0 → (id : Int) ≠ error := by
        intro error negative same
        omega
      refine iff_of_true ⟨iff_of_false (named _ (by decide)) some, fun _ => .inr ⟨id, rfl, assignable, free, least⟩, ?_⟩ (.inl rfl)
      rintro (full | none)
      · exact absurd full (named _ (by decide))
      · exact absurd none (named _ (by decide))
  | false =>
      refine iff_of_false (fun contract => ?_) (not_or.mpr ⟨Bool.false_ne_true, some⟩)
      have kept := (contract.unchanged (.inr rfl)).1 id
      change (Function.update s.totalList id _ id).exist = _ at kept
      rw [Function.update_self, free] at kept
      cases kept

theorem freeIds_create {id : Nat} {rest : List Nat} (shape : freeIds s (THREAD_MAX_THREADS - 1) 1 = id :: rest) :
    (threadCreate true s).rax = id ∧ freeIds (threadCreate true s) (THREAD_MAX_THREADS - 1) 1 = rest := by
  have slot := freeSlot_eq s (THREAD_MAX_THREADS - 1) 1
  rcases threadCreate_eq true s with ⟨none, -⟩ | ⟨id', found, started⟩
  · rw [none, shape] at slot
    cases slot
  rw [found, shape] at slot
  obtain rfl : id' = id := Option.some.inj slot
  have once := (freeIds_sorted s (THREAD_MAX_THREADS - 1) 1).nodup
  rw [started]
  refine ⟨rfl, ?_⟩
  calc
    freeIds _ (THREAD_MAX_THREADS - 1) 1 = (freeIds s (THREAD_MAX_THREADS - 1) 1).filter (· != id') := by
      rw [freeIds, freeIds, List.filter_filter]
      apply List.filter_congr
      intro i _
      by_cases same : i = id'
      · subst same
        simp [Thread.started]
      · simp [same]
    _ = rest := by
      rw [shape] at once ⊢
      rw [← once.erase_eq_filter, List.erase_cons_head]

theorem freeIds_again (n : Nat) (inside : n < (freeIds s (THREAD_MAX_THREADS - 1) 1).length) :
    ((threadCreate true)^[n + 1] s).rax = ((freeIds s (THREAD_MAX_THREADS - 1) 1)[n] : Nat) := by
  induction n generalizing s with
  | zero =>
      obtain ⟨id, rest, shape⟩ := List.exists_cons_of_length_pos inside
      simp only [shape, List.getElem_cons_zero]
      exact (freeIds_create shape).1
  | succ n ih =>
      obtain ⟨id, rest, shape⟩ := List.exists_cons_of_length_pos (Nat.zero_lt_of_lt inside)
      obtain ⟨-, left⟩ := freeIds_create shape
      have within : n < (freeIds (threadCreate true s) (THREAD_MAX_THREADS - 1) 1).length := by
        rw [left]
        simpa [shape] using inside
      rw [Function.iterate_succ_apply, ih within]
      simp only [left, shape, List.getElem_cons_succ]

end Contract

abbrev AnyRun (labels : List Label) (s : State) : Prop := Runs (fun _ _ => True) labels s

abbrev AnyStep (s : State) (label : Label) (t : State) : Prop := Steps (fun _ _ => True) s label t

/-- A `thread_create` of the run returned `i`, and the thread has not ended since. -/
inductive Started (i : Nat) : List Label → State → Prop
  | created {labels : List Label} {t u : State} {label : Label} {stackOk : Bool} (run : AnyRun labels t)
      (taken : AnyStep t label u) (call : label.1 = .call (.create stackOk)) (returned : u.rax = i) :
      Started i (labels ++ [label]) u
  | kept {labels : List Label} {t u : State} {label : Label} (before : Started i labels t) (taken : AnyStep t label u)
      (alive : (u.totalList i).exist = true) : Started i (labels ++ [label]) u

structure Recreatable (labels : List Label) (s : State) : Prop where
  free : ∀ i, Assignable i → ¬ Started i labels s → i ∈ freeIds s (THREAD_MAX_THREADS - 1) 1
  again : ∀ n (inside : n < (freeIds s (THREAD_MAX_THREADS - 1) 1).length),
    ((threadCreate true)^[n + 1] s).rax = ((freeIds s (THREAD_MAX_THREADS - 1) 1)[n] : Nat)

def EachCreate (P : Bool → State → State → Prop) (labels : List Label) : Prop :=
  ∀ front label t u stackOk, front ++ [label] <+: labels → AnyRun front t → AnyStep t label u →
    label.1 = .call (.create stackOk) → P stackOk t u

section Runs

variable {labels : List Label} {s t u : State} {label : Label}

theorem step_create {stackOk : Bool} (taken : AnyStep s label t) (call : label.1 = .call (.create stackOk)) :
    t = threadCreate stackOk (s.push (.user (.create stackOk))) := by
  rcases step_cases taken.2 with ⟨other, action, -, entered, -⟩ | ⟨frame, frames, action, -⟩ | ⟨action, -⟩
  · rw [call] at action
    obtain rfl := Action.call.inj action
    exact (Except.ok.inj entered).symm
  · rw [call] at action
    cases action
  · rw [call] at action
    cases action

theorem AnyRun.unique (run : AnyRun labels s) (other : AnyRun labels t) : s = t := by
  induction run generalizing t with
  | start => exact (other.eq_of_nil rfl).symm
  | step _ taken ih =>
      obtain ⟨v, before, again⟩ := other.last
      obtain rfl := ih before
      exact (Prod.mk.inj (Except.ok.inj (taken.2.symm.trans again.2))).1

theorem EachCreate.snoc {P : Bool → State → State → Prop} (run : AnyRun labels s) (taken : AnyStep s label t) :
    EachCreate P (labels ++ [label]) ↔
      EachCreate P labels ∧ ∀ stackOk, label.1 = .call (.create stackOk) → P stackOk s t := by
  constructor
  · intro each
    refine ⟨fun front earlier u v stackOk part => each front earlier u v stackOk (part.trans (List.prefix_append _ _)), ?_⟩
    exact fun stackOk => each labels label s t stackOk (List.prefix_refl _) run taken
  · rintro ⟨each, last⟩ front earlier u v stackOk part reached step call
    rcases List.prefix_concat_iff.mp part with whole | part
    · obtain ⟨rfl, same⟩ := List.append_inj' whole rfl
      obtain rfl := (List.cons.inj same).1
      obtain rfl := reached.unique run
      obtain rfl := (Prod.mk.inj (Except.ok.inj (step.2.symm.trans taken.2))).1
      exact last stackOk call
    · exact each front earlier u v stackOk part reached step call

theorem started_of_exist (run : AnyRun labels s)
    (memory : EachCreate (fun stackOk t _ => stackOk = true ∨ ∀ i, Assignable i → (t.totalList i).exist = true) labels)
    {i : Nat} (assignable : Assignable i) (alive : (s.totalList i).exist = true) : Started i labels s := by
  induction run with
  | start =>
      have other : i ≠ 0 := Nat.ne_of_gt assignable.1
      simp [threadInit, other, Thread.zero] at alive
  | @step labels s label t run taken ih =>
      obtain ⟨earlier, here⟩ := (EachCreate.snoc run taken).mp memory
      rcases step_exist (Named.of_run run) taken.2 alive with before | ⟨stackOk, call, found⟩
      · exact .kept (ih earlier before) taken alive
      · have slot := freeSlot_eq s (THREAD_MAX_THREADS - 1) 1
        obtain ⟨rest, shape⟩ := List.head?_eq_some_iff.mp (slot.symm.trans found)
        obtain ⟨-, free, -⟩ := freeIds_head shape
        rcases here stackOk call with rfl | all
        · refine .created run taken call ?_
          rw [step_create taken call]
          exact (freeIds_create (s := s.push (.user (.create true))) shape).1
        · rw [all i assignable] at free
          cases free

/-- The contract of `thread_create` holds throughout a run, and with it the reuse of identifiers, exactly
if no allocation fails while an identifier is free. -/
theorem thread_create_iff (run : AnyRun labels s) :
    (EachCreate (fun _ t u => CreateContract t u) labels ∧ Recreatable labels s) ↔
      EachCreate (fun stackOk t _ => stackOk = true ∨ ∀ i, Assignable i → (t.totalList i).exist = true) labels := by
  have contract {stackOk : Bool} {t u : State} {label : Label} (taken : AnyStep t label u)
      (call : label.1 = .call (.create stackOk)) :
      CreateContract t u ↔ stackOk = true ∨ ∀ i, Assignable i → (t.totalList i).exist = true := by
    rw [step_create taken call]
    exact createContract_iff _
  constructor
  · rintro ⟨each, -⟩ front label t u stackOk part reached taken call
    exact (contract taken call).mp (each front label t u stackOk part reached taken call)
  · intro memory
    refine ⟨fun front label t u stackOk part reached taken call => ?_, fun i assignable gone => ?_, fun n => freeIds_again n⟩
    · exact (contract taken call).mpr (memory front label t u stackOk part reached taken call)
    · refine mem_freeIds.mpr ⟨assignable, ?_⟩
      by_contra alive
      exact gone (started_of_exist run memory assignable (by simpa using alive))

theorem thread_create_iff_one : ∃ labels s, AnyRun labels s ∧ s.readyList = [1] ∧
    ((EachCreate (fun _ t u => CreateContract t u) labels ∧ Recreatable labels s) ↔
      EachCreate (fun stackOk t _ => stackOk = true ∨ ∀ i, Assignable i → (t.totalList i).exist = true) labels) := by
  have run := @Runs.of_exec (fun _ _ => True) _ createOne rfl
  exact ⟨_, _, run, rfl, thread_create_iff run⟩

/-- With no memory for its stack, thread 1 counts as live for ever. -/
theorem thread_create_fails :
    ¬ ∀ labels s, AnyRun labels s → EachCreate (fun _ t u => CreateContract t u) labels ∧ Recreatable labels s := by
  intro always
  have taken : AnyStep threadInit (.call (.create false), some (.called 0 (.create false)))
      (threadCreate false (threadInit.push (.user (.create false)))) := ⟨trivial, rfl⟩
  have contract := (always _ _ (.single taken)).1 [] _ _ _ false (List.prefix_refl _) .start taken rfl
  exact absurd ((contract.unchanged (.inr rfl)).1 1) (by decide)

end Runs

end OperatingSystem.Threads
