import OperatingSystem.Threads.Masked
import OperatingSystem.Threads.Restored

namespace OperatingSystem.Threads

open State Transition

def ListsMasked (s : State) (action : Action) : Prop :=
  Prog.Along Statement.exec Statement.Masked (Source.step s action) s

variable {labels : List Label} {s : State}

theorem CreateFails.leaves {stackOk : Bool} (fails : CreateFails s (.create stackOk)) :
    (threadCreate stackOk s).interrupts = false ∧ (threadCreate stackOk s).callStack = s.callStack ∧
      (threadCreate stackOk s).currentThread = s.currentThread := by
  rcases threadCreate_eq stackOk s with ⟨-, refused⟩ | ⟨id, found, started⟩
  · rw [refused]
    exact ⟨rfl, rfl, rfl⟩
  · obtain rfl : stackOk = false := fails.2.resolve_left (by rw [found]; exact Option.some_ne_none id)
    rw [started]
    exact ⟨rfl, rfl, rfl⟩

theorem CreateFails.not_restores {call : Call} (fails : CreateFails s call) (stack : s.callStack = []) :
    ¬ Restores (fun _ _ => True) s call := by
  intro restores
  cases call with
  | create stackOk =>
      have same := freeSlot_congr (s := s) (t := s.push (.user (.create stackOk))) (fun _ => rfl) (THREAD_MAX_THREADS - 1) 1
      have pushed : CreateFails (s.push (.user (.create stackOk))) (.create stackOk) := ⟨fails.1, fails.2.imp_left same.trans⟩
      obtain ⟨off, frames, current⟩ := pushed.leaves
      generalize created : threadCreate stackOk (s.push (.user (.create stackOk))) = u at off frames current
      have user : u.callStack = [.user (.create stackOk)] := frames.trans (congrArg _ stack)
      have called : Steps (fun _ _ => True) s (.call (.create stackOk), some (.called s.currentThread (.create stackOk))) u := by
        refine ⟨trivial, ?_⟩
        rw [← created]
        simp only [step, stack]
        rfl
      have returned : Steps (fun _ _ => True) u (.resume, some (.returned u.currentThread (.create stackOk) u.rax))
          { u with callStack := [] } := by
        refine ⟨trivial, ?_⟩
        simp only [step, user]
        rfl
      have silent : Silent s.currentThread [] := fun _ member => absurd member List.not_mem_nil
      have restored := restores _ u [] u _ _ called .start silent returned (.create stackOk) u.rax (by rw [current]; rfl)
      exact absurd (off.symm.trans (restored.trans fails.1)) Bool.false_ne_true
  | _ => exact fails.elim

/-- A call returns with the flag of its entry unless it is a `thread_create` that fails with interrupts on, and the lists
change with interrupts off unless the call is one of the two that free a queue without turning them off. -/
theorem interrupts_restored_iff (run : AnyRun labels s) :
    (∀ call, s.callStack = [] → (∀ enabled, call ≠ .interruptsSet enabled) →
      (Restores (fun _ _ => True) s call ↔ ¬ CreateFails s call)) ∧
    ∀ action, Offers s action → (ListsMasked s action ↔ ∀ call, action = .call call → ¬ FreesUnmasked s call) := by
  refine ⟨fun call stack made => ⟨fun restores fails => fails.not_restores stack restores, fun succeeds =>
    restores_of_run run made fun _ => succeeds⟩, fun action offers => ⟨?_, fun masked => ?_⟩⟩
  · rintro along call rfl frees
    exact not_masked frees along
  · exact (step_does (Framed.of_run run) offers masked).along

/-- Thread 1, which thread 0 yielded to, yields to it again. -/
theorem interrupts_restored_iff_switch : ∃ labels s, AnyRun labels s ∧
    (s.currentThread, s.readyList, s.callStack, s.interrupts) = (1, [2, 0], [], true) ∧
      (step s (.call (.yield 0))).toOption.map (·.1.currentThread) = some 0 ∧
        (Restores (fun _ _ => True) s (.yield 0) ↔ ¬ CreateFails s (.yield 0)) ∧
          (ListsMasked s (.call (.yield 0)) ↔ ∀ call, Action.call (.yield 0) = .call call → ¬ FreesUnmasked s call) := by
  have run := @Runs.of_exec (fun _ _ => True) _ (createOne ++ createOne ++ [.call (.yield 1), .resume]) (by decide)
  exact ⟨_, _, run, by decide, by decide, (interrupts_restored_iff run).1 _ (by decide) fun _ => Call.noConfusion,
    (interrupts_restored_iff run).2 (.call (.yield 0)) rfl⟩

/-- Out of memory for a stack, `thread_create` goes back to thread 0 with interrupts off. -/
theorem interrupts_restored_fails :
    ¬ ∀ labels s call, AnyRun labels s → s.callStack = [] → (∀ enabled, call ≠ .interruptsSet enabled) →
      Restores (fun _ _ => True) s call := by
  intro always
  have fails : CreateFails threadInit (.create false) := ⟨rfl, Or.inr rfl⟩
  exact fails.not_restores rfl (always [] threadInit (.create false) .start rfl fun _ => Call.noConfusion)

end OperatingSystem.Threads
