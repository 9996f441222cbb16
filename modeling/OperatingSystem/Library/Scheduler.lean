import Mathlib.Data.List.Nodup
import Mathlib.Data.List.Perm.Basic
import Mathlib.Logic.Function.Basic

/-!
# Schedulers as partitions

One processor, a ready list and any family of waiting lists.  `Partition live` says that the live
tasks are exactly the tasks found somewhere, and that each is found once: running, or in one node of
the ready list, or in one node of one waiting list.  The lemmas are the moves a scheduler makes.
-/

structure Scheduler (ι κ : Type*) where
  running : ι
  ready : List ι
  waiting : κ → List ι

namespace Scheduler

variable {ι κ : Type*} {c : Scheduler ι κ} {live : ι → Prop} {i : ι} {q : κ} {rest : List ι}

structure Partition (c : Scheduler ι κ) (live : ι → Prop) : Prop where
  running_live : live c.running
  ready_live : ∀ i ∈ c.ready, live i
  waiting_live : ∀ q, ∀ i ∈ c.waiting q, live i
  ready_nodup : c.ready.Nodup
  waiting_nodup : ∀ q, (c.waiting q).Nodup
  running_not_ready : c.running ∉ c.ready
  running_not_waiting : ∀ q, c.running ∉ c.waiting q
  ready_not_waiting : ∀ i ∈ c.ready, ∀ q, i ∉ c.waiting q
  waiting_unique : ∀ q q' i, i ∈ c.waiting q → i ∈ c.waiting q' → q = q'
  covered : ∀ i, live i → i = c.running ∨ i ∈ c.ready ∨ ∃ q, i ∈ c.waiting q

namespace Partition

theorem congr {live' : ι → Prop} (same : ∀ i, live i ↔ live' i) : Partition c live ↔ Partition c live' := by
  rw [show live = live' from funext fun i => propext (same i)]

theorem not_live (p : Partition c live) (dead : ¬ live i) :
    i ≠ c.running ∧ i ∉ c.ready ∧ ∀ q, i ∉ c.waiting q :=
  ⟨fun h => dead (h ▸ p.running_live), fun h => dead (p.ready_live i h),
    fun q h => dead (p.waiting_live q i h)⟩

theorem ne_running_of_ready (p : Partition c live) (h : i ∈ c.ready) : i ≠ c.running := by
  rintro rfl
  exact p.running_not_ready h

theorem ne_running_of_waiting (p : Partition c live) (h : i ∈ c.waiting q) : i ≠ c.running := by
  rintro rfl
  exact p.running_not_waiting q h

theorem yield [DecidableEq ι] (p : Partition c live) (h : i ∈ c.ready ++ [c.running]) :
    Partition { c with running := i, ready := (c.ready ++ [c.running]).erase i } live := by
  have nodup : (c.ready ++ [c.running]).Nodup := by
    rw [List.nodup_append_comm]
    exact List.nodup_cons.mpr ⟨p.running_not_ready, p.ready_nodup⟩
  have alive : ∀ j ∈ c.ready ++ [c.running], live j := by
    intro j hj
    rcases List.mem_append.mp hj with hj | hj
    · exact p.ready_live j hj
    · exact List.mem_singleton.mp hj ▸ p.running_live
  have apart : ∀ j ∈ c.ready ++ [c.running], ∀ q, j ∉ c.waiting q := by
    intro j hj q
    rcases List.mem_append.mp hj with hj | hj
    · exact p.ready_not_waiting j hj q
    · exact List.mem_singleton.mp hj ▸ p.running_not_waiting q
  refine ⟨alive i h, fun j hj => alive j (List.mem_of_mem_erase hj), p.waiting_live,
    nodup.erase i, p.waiting_nodup, nodup.not_mem_erase, apart i h,
    fun j hj => apart j (List.mem_of_mem_erase hj), p.waiting_unique, ?_⟩
  intro j hj
  by_cases ji : j = i
  · exact Or.inl ji
  · rcases p.covered j hj with rfl | hr | hw
    · exact Or.inr (Or.inl ((List.mem_erase_of_ne ji).mpr (by simp)))
    · exact Or.inr (Or.inl ((List.mem_erase_of_ne ji).mpr (by simp [hr])))
    · exact Or.inr (Or.inr hw)

theorem block [DecidableEq κ] (p : Partition c live) (head : c.ready = i :: rest) :
    Partition ⟨i, rest, Function.update c.waiting q (c.waiting q ++ [c.running])⟩ live := by
  have mem (j : ι) (hj : j ∈ i :: rest) : j ∈ c.ready := head ▸ hj
  have nodup := head ▸ p.ready_nodup
  have member (r : κ) (j : ι) (hj : j ∈ Function.update c.waiting q (c.waiting q ++ [c.running]) r) :
      j ∈ c.waiting r ∨ (j = c.running ∧ r = q) := by
    by_cases rq : r = q
    · subst rq
      simpa [or_comm] using hj
    · exact Or.inl (by simpa [rq] using hj)
  refine ⟨p.ready_live i (mem i (by simp)), fun j hj => p.ready_live j (mem j (by simp [hj])),
    fun r j hj => ?_, nodup.of_cons, fun r => ?_, (List.nodup_cons.mp nodup).1, fun r hr => ?_,
    fun j hj r hr => ?_, fun r r' j hr hr' => ?_, fun j hj => ?_⟩
  · rcases member r j hj with h | ⟨rfl, -⟩
    · exact p.waiting_live r j h
    · exact p.running_live
  · by_cases rq : r = q
    · subst rq
      simp only [Function.update_self]
      rw [List.nodup_append_comm]
      exact List.nodup_cons.mpr ⟨p.running_not_waiting r, p.waiting_nodup r⟩
    · simpa [rq] using p.waiting_nodup r
  · rcases member r i hr with h | ⟨h, -⟩
    · exact p.ready_not_waiting i (mem i (by simp)) r h
    · exact p.ne_running_of_ready (mem i (by simp)) h
  · rcases member r j hr with h | ⟨h, -⟩
    · exact p.ready_not_waiting j (mem j (by simp [hj])) r h
    · exact p.ne_running_of_ready (mem j (by simp [hj])) h
  · rcases member r j hr with h | ⟨h, e⟩ <;> rcases member r' j hr' with h' | ⟨h', e'⟩
    · exact p.waiting_unique r r' j h h'
    · exact absurd (h' ▸ h) (p.running_not_waiting r)
    · exact absurd (h ▸ h') (p.running_not_waiting r')
    · rw [e, e']
  · rcases p.covered j hj with rfl | hr | ⟨r, hr⟩
    · exact Or.inr (Or.inr ⟨q, by simp⟩)
    · rw [head] at hr
      rcases List.mem_cons.mp hr with rfl | hr
      · exact Or.inl rfl
      · exact Or.inr (Or.inl hr)
    · refine Or.inr (Or.inr ⟨r, ?_⟩)
      by_cases rq : r = q
      · subst rq
        simp [hr]
      · simpa [rq] using hr

theorem wake [DecidableEq κ] (p : Partition c live) (head : c.waiting q = i :: rest) :
    Partition { c with ready := c.ready ++ [i], waiting := Function.update c.waiting q rest } live := by
  have inQueue : i ∈ c.waiting q := head ▸ List.mem_cons_self
  have nodup := head ▸ p.waiting_nodup q
  have member (r : κ) (j : ι) (hj : j ∈ Function.update c.waiting q rest r) :
      j ∈ c.waiting r ∧ j ≠ i := by
    by_cases rq : r = q
    · subst rq
      have hj : j ∈ rest := by simpa using hj
      refine ⟨head ▸ List.mem_cons_of_mem i hj, ?_⟩
      rintro rfl
      exact (List.nodup_cons.mp nodup).1 hj
    · have hj : j ∈ c.waiting r := by simpa [rq] using hj
      refine ⟨hj, ?_⟩
      rintro rfl
      exact rq (p.waiting_unique r q j hj inQueue)
  refine ⟨p.running_live, fun j hj => ?_, fun r j hj => p.waiting_live r j (member r j hj).1, ?_,
    fun r => ?_, fun hr => ?_, fun r hr => p.running_not_waiting r (member r _ hr).1,
    fun j hj r hr => ?_, fun r r' j hr hr' =>
      p.waiting_unique r r' j (member r j hr).1 (member r' j hr').1, fun j hj => ?_⟩
  · rcases List.mem_append.mp hj with hj | hj
    · exact p.ready_live j hj
    · exact List.mem_singleton.mp hj ▸ p.waiting_live q i inQueue
  · rw [List.nodup_append_comm]
    exact List.nodup_cons.mpr ⟨fun h => p.ready_not_waiting i h q inQueue, p.ready_nodup⟩
  · by_cases rq : r = q
    · subst rq
      simpa using nodup.of_cons
    · simpa [rq] using p.waiting_nodup r
  · rcases List.mem_append.mp hr with hr | hr
    · exact p.running_not_ready hr
    · exact p.ne_running_of_waiting inQueue (List.mem_singleton.mp hr).symm
  · rcases List.mem_append.mp hj with hj | hj
    · exact p.ready_not_waiting j hj r (member r j hr).1
    · exact (member r j hr).2 (List.mem_singleton.mp hj)
  · rcases p.covered j hj with rfl | hr | ⟨r, hr⟩
    · exact Or.inl rfl
    · exact Or.inr (Or.inl (by simp [hr]))
    · by_cases ji : j = i
      · exact Or.inr (Or.inl (by simp [ji]))
      · refine Or.inr (Or.inr ⟨r, ?_⟩)
        by_cases rq : r = q
        · subst rq
          rw [head] at hr
          simpa [ji] using hr
        · simpa [rq] using hr

theorem discard [DecidableEq κ] (p : Partition c live) (q : κ) :
    Partition { c with waiting := Function.update c.waiting q [] } fun j => live j ∧ j ∉ c.waiting q := by
  have member (r : κ) (j : ι) (hj : j ∈ Function.update c.waiting q [] r) : j ∈ c.waiting r ∧ r ≠ q := by
    by_cases rq : r = q
    · simp [rq] at hj
    · exact ⟨by simpa [rq] using hj, rq⟩
  refine ⟨⟨p.running_live, p.running_not_waiting q⟩, fun j hj => ⟨p.ready_live j hj, p.ready_not_waiting j hj q⟩,
    fun r j hj => ⟨p.waiting_live r j (member r j hj).1, fun here => ?_⟩, p.ready_nodup, fun r => ?_,
    p.running_not_ready, fun r hr => p.running_not_waiting r (member r _ hr).1,
    fun j hj r hr => p.ready_not_waiting j hj r (member r j hr).1,
    fun r r' j hr hr' => p.waiting_unique r r' j (member r j hr).1 (member r' j hr').1, ?_⟩
  · exact (member r j hj).2 (p.waiting_unique r q j (member r j hj).1 here)
  · by_cases rq : r = q
    · simp [rq]
    · simpa [rq] using p.waiting_nodup r
  · rintro j ⟨hj, elsewhere⟩
    rcases p.covered j hj with rfl | hr | ⟨r, hr⟩
    · exact Or.inl rfl
    · exact Or.inr (Or.inl hr)
    · have other : r ≠ q := by
        rintro rfl
        exact elsewhere hr
      exact Or.inr (Or.inr ⟨r, by simpa [other] using hr⟩)

theorem exit (p : Partition c live) (head : c.ready = i :: rest) :
    Partition { c with running := i, ready := rest } fun j => live j ∧ j ≠ c.running := by
  have mem (j : ι) (hj : j ∈ i :: rest) : j ∈ c.ready := head ▸ hj
  have nodup := head ▸ p.ready_nodup
  have alive (j : ι) (hj : j ∈ i :: rest) : live j ∧ j ≠ c.running :=
    ⟨p.ready_live j (mem j hj), p.ne_running_of_ready (mem j hj)⟩
  refine ⟨alive i (by simp), fun j hj => alive j (by simp [hj]),
    fun r j hj => ⟨p.waiting_live r j hj, p.ne_running_of_waiting hj⟩, nodup.of_cons,
    p.waiting_nodup, (List.nodup_cons.mp nodup).1,
    fun r => p.ready_not_waiting i (mem i (by simp)) r,
    fun j hj => p.ready_not_waiting j (mem j (by simp [hj])), p.waiting_unique, ?_⟩
  rintro j ⟨hj, other⟩
  rcases p.covered j hj with rfl | hr | hw
  · exact absurd rfl other
  · rw [head] at hr
    rcases List.mem_cons.mp hr with rfl | hr
    · exact Or.inl rfl
    · exact Or.inr (Or.inl hr)
  · exact Or.inr (Or.inr hw)

theorem kill [DecidableEq ι] (p : Partition c live) (h : i ∈ c.ready) :
    Partition { c with ready := c.ready.erase i } fun j => live j ∧ j ≠ i := by
  refine ⟨⟨p.running_live, (p.ne_running_of_ready h).symm⟩, fun j hj => ⟨p.ready_live j (List.mem_of_mem_erase hj), ?_⟩,
    fun q j hj => ⟨p.waiting_live q j hj, ?_⟩, p.ready_nodup.erase i, p.waiting_nodup,
    fun hr => p.running_not_ready (List.mem_of_mem_erase hr), p.running_not_waiting,
    fun j hj => p.ready_not_waiting j (List.mem_of_mem_erase hj), p.waiting_unique, ?_⟩
  · rintro rfl
    exact p.ready_nodup.not_mem_erase hj
  · rintro rfl
    exact p.ready_not_waiting j h q hj
  · rintro j ⟨hj, other⟩
    rcases p.covered j hj with rfl | hr | hw
    · exact Or.inl rfl
    · exact Or.inr (Or.inl ((List.mem_erase_of_ne other).mpr hr))
    · exact Or.inr (Or.inr hw)

theorem spawn (p : Partition c live) (fresh : ¬ live i) :
    Partition { c with ready := c.ready ++ [i] } fun j => live j ∨ j = i := by
  obtain ⟨notRunning, notReady, notWaiting⟩ := p.not_live fresh
  refine ⟨Or.inl p.running_live, fun j hj => ?_, fun r j hj => Or.inl (p.waiting_live r j hj), ?_,
    p.waiting_nodup, fun hr => ?_, p.running_not_waiting, fun j hj r hr => ?_, p.waiting_unique,
    fun j hj => ?_⟩
  · rcases List.mem_append.mp hj with hj | hj
    · exact Or.inl (p.ready_live j hj)
    · exact Or.inr (List.mem_singleton.mp hj)
  · rw [List.nodup_append_comm]
    exact List.nodup_cons.mpr ⟨notReady, p.ready_nodup⟩
  · rcases List.mem_append.mp hr with hr | hr
    · exact p.running_not_ready hr
    · exact notRunning (List.mem_singleton.mp hr).symm
  · rcases List.mem_append.mp hj with hj | hj
    · exact p.ready_not_waiting j hj r hr
    · exact notWaiting r (List.mem_singleton.mp hj ▸ hr)
  · rcases hj with hj | rfl
    · rcases p.covered j hj with h | h | h
      · exact Or.inl h
      · exact Or.inr (Or.inl (by simp [h]))
      · exact Or.inr (Or.inr h)
    · exact Or.inr (Or.inl (by simp))

theorem once [DecidableEq ι] (p : Partition c live) (alive : live i) :
    (i = c.running ∧ c.ready.count i = 0 ∧ ∀ q, (c.waiting q).count i = 0) ∨
    (i ≠ c.running ∧ c.ready.count i = 1 ∧ ∀ q, (c.waiting q).count i = 0) ∨
    (i ≠ c.running ∧ c.ready.count i = 0 ∧
      ∃ q, (c.waiting q).count i = 1 ∧ ∀ r, r ≠ q → (c.waiting r).count i = 0) := by
  rcases p.covered i alive with rfl | hr | ⟨q, hq⟩
  · exact Or.inl ⟨rfl, List.count_eq_zero.mpr p.running_not_ready,
      fun q => List.count_eq_zero.mpr (p.running_not_waiting q)⟩
  · exact Or.inr (Or.inl ⟨p.ne_running_of_ready hr, List.count_eq_one_of_mem p.ready_nodup hr,
      fun q => List.count_eq_zero.mpr (p.ready_not_waiting i hr q)⟩)
  · refine Or.inr (Or.inr ⟨p.ne_running_of_waiting hq,
      List.count_eq_zero.mpr fun h => p.ready_not_waiting i h q hq, q,
      List.count_eq_one_of_mem (p.waiting_nodup q) hq, fun r other =>
        List.count_eq_zero.mpr fun h => other (p.waiting_unique r q i h hq)⟩)

end Partition

end Scheduler
