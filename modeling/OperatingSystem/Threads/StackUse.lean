import OperatingSystem.Threads.Waiting

namespace OperatingSystem.Threads

open State Transition

def Waitless (_ : State) : Action → Prop
  | .call (.wait _) => False
  | _ => True

structure SameStacks (s t : State) : Prop where
  stack : ∀ i, (t.totalList i).stack = (s.totalList i).stack
  exist : ∀ i, (t.totalList i).exist = (s.totalList i).exist
  wqt : ∀ i, (t.totalList i).wqt = (s.totalList i).wqt
  freed : t.freed = s.freed
  nextStack : t.nextStack = s.nextStack

namespace SameStacks

variable {s t u : State}

theorem of_eq (table : t.totalList = s.totalList) (freed : t.freed = s.freed) (nextStack : t.nextStack = s.nextStack) :
    SameStacks s t :=
  ⟨fun _ => by rw [table], fun _ => by rw [table], fun _ => by rw [table], freed, nextStack⟩

theorem refl (s : State) : SameStacks s s := of_eq rfl rfl rfl

theorem trans (first : SameStacks s t) (second : SameStacks t u) : SameStacks s u where
  stack i := (second.stack i).trans (first.stack i)
  exist i := (second.exist i).trans (first.exist i)
  wqt i := (second.wqt i).trans (first.wqt i)
  freed := second.freed.trans first.freed
  nextStack := second.nextStack.trans first.nextStack

theorem modifyThread (s : State) (i : Nat) {f : Thread → Thread} (stack : ∀ x, (f x).stack = x.stack)
    (exist : ∀ x, (f x).exist = x.exist) (wqt : ∀ x, (f x).wqt = x.wqt) : SameStacks s (s.modifyThread i f) := by
  refine ⟨fun j => ?_, fun j => ?_, fun j => ?_, rfl, rfl⟩
  all_goals
    rw [thread_modifyThread]
    split_ifs with same
  · rw [stack, same]
  · rfl
  · rw [exist, same]
  · rfl
  · rw [wqt, same]
  · rfl

theorem requeueCaller (next : Nat) (s : State) : SameStacks s (requeueCaller next s) := by
  have fields (u : State) (i : Nat) (status : Status) : SameStacks u (u.modifyThread i fun t => { t with status }) :=
    modifyThread u i (fun _ => rfl) (fun _ => rfl) fun _ => rfl
  have named (u : State) (i : Nat) (id : Tid) : SameStacks u (u.modifyThread i fun t => { t with nextThreadID := id }) :=
    modifyThread u i (fun _ => rfl) (fun _ => rfl) fun _ => rfl
  have named' (u : State) (i : Nat) (id : Tid) : SameStacks u (u.modifyThread i fun t => { t with preThreadID := id }) :=
    modifyThread u i (fun _ => rfl) (fun _ => rfl) fun _ => rfl
  unfold Threads.requeueCaller
  dsimp only
  split_ifs
  · exact (((fields _ _ _).trans (named _ _ _)).trans (named' _ _ _)).trans (of_eq rfl rfl rfl)
  · exact fields _ _ _
  · exact refl s

theorem deleteNode {target : Nat} {node : Option Nat} (run : deleteNode s target node = .ok t) : SameStacks s t := by
  unfold Threads.deleteNode at run
  split at run
  · cases run
  · split_ifs at run
    · exact Except.ok.inj run ▸ of_eq rfl rfl rfl
    · exact Except.ok.inj run ▸ of_eq rfl rfl rfl
    · split at run
      · cases run
      · split_ifs at run
        exact Except.ok.inj run ▸ of_eq rfl rfl rfl

theorem switchTo (caller next : Nat) (s : State) : SameStacks s (switchTo caller next s) := by
  have moved : SameStacks s { s with currentThread := (s.totalList next).threadID } := of_eq rfl rfl rfl
  have running (u : State) (i : Nat) : SameStacks u (u.modifyThread i fun t => { t with status := .running }) :=
    modifyThread u i (fun _ => rfl) (fun _ => rfl) fun _ => rfl
  have marked (u : State) : SameStacks u (u.modifyThread caller fun t => { t with threadInfo := markCalled t.threadInfo }) :=
    modifyThread u caller (fun _ => rfl) (fun _ => rfl) fun _ => rfl
  exact ((moved.trans (running _ _)).trans (marked _)).trans (of_eq rfl rfl rfl)

theorem yieldBlock {enabled : Bool} {next : Nat} {iter : Option Nat} (run : yieldBlock enabled next iter s = .ok t) :
    SameStacks s t := by
  have saved : SameStacks s (s.modifyThread s.currentThread fun t =>
      { t with threadInfo := .afterYield enabled false next iter :: s.callStack }) :=
    modifyThread s _ (fun _ => rfl) (fun _ => rfl) fun _ => rfl
  have requeued := saved.trans (requeueCaller next _)
  unfold Threads.yieldBlock at run
  dsimp only at run
  split_ifs at run
  · exact Except.ok.inj run ▸ requeued.trans (of_eq rfl rfl rfl)
  · exact Except.ok.inj run ▸ requeued.trans (switchTo _ _ _)
  · obtain ⟨u, unlinked, run⟩ := Result.bind_eq_ok.mp run
    exact Except.ok.inj run ▸ (requeued.trans (deleteNode unlinked)).trans (switchTo _ _ _)

theorem threadSleep {queue : Option Nat} (run : threadSleep queue s = .ok t) : SameStacks s t := by
  have asleep (u : State) (i : Nat) (frames : List Frame) :
      SameStacks u (u.modifyThread i fun t => { t with status := .suspended, threadInfo := frames }) :=
    modifyThread u i (fun _ => rfl) (fun _ => rfl) fun _ => rfl
  have running (u : State) (i : Nat) : SameStacks u (u.modifyThread i fun t => { t with status := .running }) :=
    modifyThread u i (fun _ => rfl) (fun _ => rfl) fun _ => rfl
  unfold Threads.threadSleep at run
  dsimp only at run
  split at run
  · exact Except.ok.inj run ▸ of_eq rfl rfl rfl
  · exact Except.ok.inj run ▸ of_eq rfl rfl rfl
  · rename_i q next rest _
    obtain ⟨nodes, -, run⟩ := Result.bind_eq_ok.mp run
    rw [← Except.ok.inj run]
    have masked : SameStacks s (s.interruptsSet false) := of_eq rfl rfl rfl
    have queued : SameStacks s { (State.setQueue ((s.interruptsSet false).modifyThread s.currentThread fun t =>
        { t with status := .suspended, threadInfo := .afterSleep s.interrupts next :: s.callStack }) q
          (some (nodes ++ [s.currentThread]))) with readyList := rest } :=
      (masked.trans (asleep _ _ _)).trans (of_eq rfl rfl rfl)
    exact (queued.trans (running _ next)).trans (of_eq rfl rfl rfl)

theorem wakeThread (s : State) (node : Nat) : SameStacks s (wakeThread s node) := by
  have ready : SameStacks s (s.modifyThread (s.totalList node).threadID fun t => { t with status := .ready }) :=
    modifyThread s _ (fun _ => rfl) (fun _ => rfl) fun _ => rfl
  exact ready.trans (of_eq rfl rfl rfl)

theorem wakeAll (s : State) (nodes : List Nat) : SameStacks s (nodes.foldl Threads.wakeThread s) := by
  induction nodes generalizing s with
  | nil => exact refl s
  | cons head rest ih => exact (wakeThread s head).trans (ih _)

theorem threadWakeup {queue : Option Nat} {all : Int} (run : threadWakeup queue all s = .ok t) : SameStacks s t := by
  rcases threadWakeup_cases run with ⟨v, rfl⟩ | ⟨q, head, rest, -, -, rfl | rfl⟩
  · exact of_eq rfl rfl rfl
  · have unlinked : SameStacks s (s.setQueue q (some rest)) := of_eq rfl rfl rfl
    exact (unlinked.trans (wakeThread _ head)).trans (of_eq rfl rfl rfl)
  · have emptied : SameStacks s (s.setQueue q (some [])) := of_eq rfl rfl rfl
    exact (emptied.trans (wakeAll _ (head :: rest))).trans (of_eq rfl rfl rfl)

theorem acquireLoop {l : Nat} {enabled : Bool} (run : acquireLoop l enabled s = .ok t) : SameStacks s t := by
  obtain ⟨lock, -, run⟩ := Result.bind_eq_ok.mp run
  split_ifs at run
  · exact Except.ok.inj run ▸ of_eq rfl rfl rfl
  · have pushed : SameStacks s (s.push (.acquireLoop l enabled)) := of_eq rfl rfl rfl
    exact pushed.trans (threadSleep run)

theorem lockAcquire {l : Nat} (run : lockAcquire l s = .ok t) : SameStacks s t := by
  obtain ⟨lock, -, run⟩ := Result.bind_eq_ok.mp run
  exact Except.ok.inj run ▸ of_eq rfl rfl rfl

theorem lockRelease {l : Nat} (run : lockRelease l s = .ok t) : SameStacks s t := by
  obtain ⟨lock, -, run⟩ := Result.bind_eq_ok.mp run
  split_ifs at run
  · exact Except.ok.inj run ▸ refl s
  · have unlocked : SameStacks s (s.setLock l (some { lock with avaliable := true })) := of_eq rfl rfl rfl
    exact unlocked.trans (threadWakeup run)

theorem cvWait {c l : Nat} (run : cvWait c l s = .ok t) : SameStacks s t := by
  obtain ⟨wqC, -, run⟩ := Result.bind_eq_ok.mp run
  obtain ⟨u, released, run⟩ := Result.bind_eq_ok.mp run
  obtain ⟨lock, -, run⟩ := Result.bind_eq_ok.mp run
  have masked : SameStacks s (s.interruptsSet false) := of_eq rfl rfl rfl
  have pushed : SameStacks u (u.push (.cvReacquire l s.interrupts)) := of_eq rfl rfl rfl
  have before := (masked.trans (lockRelease released)).trans pushed
  split_ifs at run
  · exact before.trans (threadSleep run)
  · exact Except.ok.inj run ▸ before

theorem cvWake {all : Int} {c l : Nat} (run : cvWake all c l s = .ok t) : SameStacks s t := by
  obtain ⟨wqC, -, run⟩ := Result.bind_eq_ok.mp run
  obtain ⟨lock, -, run⟩ := Result.bind_eq_ok.mp run
  split_ifs at run
  · exact threadWakeup run
  · exact Except.ok.inj run ▸ refl s

theorem lockDestroy {l : Nat} (run : lockDestroy l s = .ok t) : SameStacks s t := by
  obtain ⟨lock, -, run⟩ := Result.bind_eq_ok.mp run
  split_ifs at run
  · exact Except.ok.inj run ▸ of_eq rfl rfl rfl
  · exact Except.ok.inj run ▸ refl s

theorem cvDestroy {c : Nat} (run : cvDestroy c s = .ok t) : SameStacks s t := by
  obtain ⟨wqC, -, run⟩ := Result.bind_eq_ok.mp run
  obtain ⟨nodes, -, run⟩ := Result.bind_eq_ok.mp run
  rw [← Except.ok.inj run]
  split_ifs
  · exact of_eq rfl rfl rfl
  · exact of_eq rfl rfl rfl

end SameStacks

structure StackSafe (s t : State) : Prop where
  once : t.freed.Nodup
  elsewhere : ∀ i a, (s.totalList i).stack = some a → a ∈ t.freed → a ∉ s.freed → i ≠ s.currentThread
  replaced : ∀ i a, (s.totalList i).stack = some a → (t.totalList i).stack = some a ∨ a ∈ t.freed

/-- The running thread is about to exit, on an allocated stack and not as the last thread. -/
def ExitsOnStack (s : State) (action : Action) : Prop :=
  action = .call .exit ∧ s.readyList ≠ [] ∧ s.current.stack ≠ none

structure Housed (s : State) : Prop where
  seated : ∃ lost, Seated lost s
  unwaited : ∀ i, (s.totalList i).wqt = none
  below : ∀ i, (s.totalList i).exist = true → i < THREAD_MAX_THREADS
  vacant : ∀ i, (s.totalList i).exist = false → (s.totalList i).stack = none
  owned : ∀ i j a, (s.totalList i).stack = some a → (s.totalList j).stack = some a → i = j
  kept : ∀ i a, (s.totalList i).stack = some a → a ∉ s.freed ∧ a < s.nextStack
  freed : ∀ a ∈ s.freed, a < s.nextStack
  once : s.freed.Nodup

theorem sweepStacks_of_vacant {s : State} (vacant : ∀ i, (s.totalList i).exist = false → (s.totalList i).stack = none) :
    sweepStacks s = s := by
  have swept (i : Nat) : ((s.totalList i).status = .exited && !(s.totalList i).exist) = true → (s.totalList i).stack = none := by
    intro gone
    rw [Bool.and_eq_true] at gone
    exact vacant i (by simpa using gone.2)
  have table (i : Nat) : (sweepStacks s).totalList i = s.totalList i := by
    simp only [sweepStacks]
    split_ifs with gone
    · rw [Bool.and_eq_true] at gone
      rw [← swept i gone.2]
    · rfl
  have none : ((List.range (THREAD_MAX_THREADS + 1)).filterMap fun i =>
      if (s.totalList i).status = .exited && !(s.totalList i).exist then (s.totalList i).stack else Option.none) = [] := by
    rw [List.filterMap_eq_nil_iff]
    intro i _
    split_ifs with gone
    · exact swept i gone
    · rfl
  have freed : (sweepStacks s).freed = s.freed := by
    simp only [sweepStacks]
    rw [none, List.append_nil]
  calc
    sweepStacks s = { s with totalList := (sweepStacks s).totalList, freed := (sweepStacks s).freed } := rfl
    _ = s := by rw [freed, funext table]

structure Ended (i : Nat) (s t : State) : Prop where
  exist : ∀ j, (t.totalList j).exist = if j = i then false else (s.totalList j).exist
  stack : ∀ j, (t.totalList j).stack = if j = i then none else (s.totalList j).stack
  wqt : ∀ j, (t.totalList j).wqt = (s.totalList j).wqt
  freed : t.freed = s.freed ++ (s.totalList i).stack.toList
  nextStack : t.nextStack = s.nextStack

namespace Ended

variable {s t u : State} {i : Nat}

theorem since (same : SameStacks s t) (ended : Ended i t u) : Ended i s u where
  exist j := by rw [ended.exist, same.exist]
  stack j := by rw [ended.stack, same.stack]
  wqt j := (ended.wqt j).trans (same.wqt j)
  freed := by rw [ended.freed, same.freed, same.stack]
  nextStack := ended.nextStack.trans same.nextStack

theorem after (ended : Ended i s t) (same : SameStacks t u) : Ended i s u where
  exist j := by rw [same.exist, ended.exist]
  stack j := by rw [same.stack, ended.stack]
  wqt j := (same.wqt j).trans (ended.wqt j)
  freed := same.freed.trans ended.freed
  nextStack := same.nextStack.trans ended.nextStack

end Ended

namespace Housed

variable {s t : State} {i : Nat}

theorem of_same (h : Housed s) (same : SameStacks s t) (seated : ∃ lost, Seated lost t) : Housed t where
  seated := seated
  unwaited j := (same.wqt j).trans (h.unwaited j)
  below j alive := h.below j ((same.exist j).symm.trans alive)
  vacant j gone := (same.stack j).trans (h.vacant j ((same.exist j).symm.trans gone))
  owned j k a here there := h.owned j k a ((same.stack j).symm.trans here) ((same.stack k).symm.trans there)
  kept j a here := by
    rw [same.freed, same.nextStack]
    exact h.kept j a ((same.stack j).symm.trans here)
  freed a member := by
    rw [same.nextStack]
    exact h.freed a (same.freed ▸ member)
  once := same.freed ▸ h.once

theorem stackSafe_of_same (h : Housed s) (same : SameStacks s t) : StackSafe s t where
  once := same.freed ▸ h.once
  elsewhere _ _ _ member before := absurd (same.freed ▸ member) before
  replaced j _ here := Or.inl ((same.stack j).trans here)

theorem mem_freed_of_ended (ended : Ended i s t) {a : Nat} :
    a ∈ t.freed ↔ a ∈ s.freed ∨ (s.totalList i).stack = some a := by
  rw [ended.freed, List.mem_append, Option.mem_toList]

theorem nodup_of_ended (h : Housed s) (ended : Ended i s t) : t.freed.Nodup := by
  rw [ended.freed]
  cases here : (s.totalList i).stack with
  | none => simpa using h.once
  | some a => exact h.once.append (List.nodup_singleton a) (by simpa using (h.kept i a here).1)

theorem of_ended (h : Housed s) (ended : Ended i s t) (seated : ∃ lost, Seated lost t) : Housed t where
  seated := seated
  unwaited j := (ended.wqt j).trans (h.unwaited j)
  below j alive := by
    rw [ended.exist] at alive
    split_ifs at alive
    exact h.below j alive
  vacant j gone := by
    rw [ended.exist] at gone
    rw [ended.stack]
    split_ifs at gone ⊢
    · rfl
    · exact h.vacant j gone
  owned j k a here there := by
    rw [ended.stack] at here there
    split_ifs at here there
    exact h.owned j k a here there
  kept j a here := by
    rw [ended.stack] at here
    split_ifs at here with other
    obtain ⟨unfreed, old⟩ := h.kept j a here
    rw [mem_freed_of_ended ended, ended.nextStack]
    refine ⟨?_, old⟩
    rintro (before | same)
    · exact unfreed before
    · exact other (h.owned j i a here same)
  freed a member := by
    rw [ended.nextStack]
    rcases (mem_freed_of_ended ended).mp member with before | here
    · exact h.freed a before
    · exact (h.kept i a here).2
  once := h.nodup_of_ended ended

theorem stackSafe_iff_of_ended (h : Housed s) (ended : Ended i s t) :
    StackSafe s t ↔ (i = s.currentThread → (s.totalList i).stack = none) := by
  constructor
  · intro safe current
    rw [Option.eq_none_iff_forall_ne_some]
    intro a here
    have fresh := (h.kept i a here).1
    exact safe.elsewhere i a here ((mem_freed_of_ended ended).mpr (Or.inr here)) fresh current
  · intro elsewhere
    refine ⟨h.nodup_of_ended ended, fun j a here member fresh => ?_, fun j a here => ?_⟩
    · rintro rfl
      have freed := ((mem_freed_of_ended ended).mp member).resolve_left fresh
      have running := h.owned _ i a here freed
      rw [elsewhere running.symm] at freed
      cases freed
    · by_cases same : j = i
      · subst same
        exact Or.inr ((mem_freed_of_ended ended).mpr (Or.inr here))
      · rw [ended.stack, if_neg same]
        exact Or.inl here

theorem threadCreate (h : Housed s) (stackOk : Bool) (seated : ∃ lost, Seated lost (threadCreate stackOk s)) :
    Housed (threadCreate stackOk s) ∧ StackSafe s (threadCreate stackOk s) := by
  rcases threadCreate_eq stackOk s with ⟨-, refused⟩ | ⟨id, found, started⟩
  · have same : SameStacks s (Threads.threadCreate stackOk s) := refused ▸ .of_eq rfl rfl rfl
    exact ⟨h.of_same same seated, h.stackSafe_of_same same⟩
  obtain ⟨-, inside, free⟩ := freeSlot_spec found
  have bare := h.vacant id free
  have table (j : Nat) : (Threads.threadCreate stackOk s).totalList j =
      if j = id then (s.totalList id).started id (if stackOk then some s.nextStack else none) else s.totalList j := by
    rw [started]
    exact Function.update_apply _ _ _ _
  have freed : (Threads.threadCreate stackOk s).freed = s.freed := by rw [started]
  have later : s.nextStack ≤ (Threads.threadCreate stackOk s).nextStack := by
    rw [started]
    cases stackOk <;> simp
  -- a stack of the new state is an old one elsewhere, or the new one in the new slot
  have stack {j a : Nat} (here : ((Threads.threadCreate stackOk s).totalList j).stack = some a) :
      (j ≠ id ∧ (s.totalList j).stack = some a) ∨ (j = id ∧ a = s.nextStack ∧ a < (Threads.threadCreate stackOk s).nextStack) := by
    rw [table] at here
    by_cases same : j = id
    · rw [if_pos same] at here
      refine Or.inr ⟨same, ?_⟩
      rw [started]
      cases stackOk with
      | true =>
          have new : s.nextStack = a := Option.some.inj here
          exact ⟨new.symm, new ▸ Nat.lt_succ_self _⟩
      | false => cases here
    · rw [if_neg same] at here
      exact Or.inl ⟨same, here⟩
  refine ⟨⟨seated, fun j => ?_, fun j alive => ?_, fun j gone => ?_, fun j k a here there => ?_, fun j a here => ?_,
    fun a member => ?_, freed ▸ h.once⟩, ⟨freed ▸ h.once, fun j a _ member before => absurd (freed ▸ member) before,
    fun j a here => ?_⟩⟩
  · rw [table]
    by_cases same : j = id
    · rw [if_pos same]
      rfl
    · rw [if_neg same]
      exact h.unwaited j
  · by_cases same : j = id
    · simp only [THREAD_MAX_THREADS] at inside ⊢
      omega
    · rw [table, if_neg same] at alive
      exact h.below j alive
  · by_cases same : j = id
    · rw [table, if_pos same] at gone
      cases gone
    · rw [table, if_neg same] at gone ⊢
      exact h.vacant j gone
  · rcases stack here with ⟨-, old⟩ | ⟨first, new, -⟩ <;> rcases stack there with ⟨-, old'⟩ | ⟨second, new', -⟩
    · exact h.owned j k a old old'
    · exact absurd (new' ▸ (h.kept j a old).2) (Nat.lt_irrefl _)
    · exact absurd (new ▸ (h.kept k a old').2) (Nat.lt_irrefl _)
    · exact first.trans second.symm
  · rw [freed]
    rcases stack here with ⟨-, old⟩ | ⟨-, rfl, new⟩
    · obtain ⟨unfreed, below⟩ := h.kept j a old
      exact ⟨unfreed, Nat.lt_of_lt_of_le below later⟩
    · exact ⟨fun member => absurd (h.freed _ member) (Nat.lt_irrefl _), new⟩
  · exact Nat.lt_of_lt_of_le (h.freed a (freed ▸ member)) later
  · have other : j ≠ id := by
      rintro rfl
      rw [bare] at here
      cases here
    rw [table, if_neg other]
    exact Or.inl here

theorem threadYield {want : Tid} (h : Housed s) (run : threadYield want s = .ok t) : SameStacks s t := by
  have masked : SameStacks s (s.interruptsSet false) := .of_eq rfl rfl rfl
  have swept : sweepStacks (s.interruptsSet false) = s.interruptsSet false := sweepStacks_of_vacant h.vacant
  simp only [Threads.threadYield, swept] at run
  split_ifs at run
  · split at run
    · exact Except.ok.inj run ▸ .of_eq rfl rfl rfl
    · exact masked.trans (.yieldBlock run)
  · exact masked.trans (.yieldBlock run)
  · split at run
    · exact Except.ok.inj run ▸ .of_eq rfl rfl rfl
    · exact masked.trans (.yieldBlock run)

theorem filterMap_range_single {α : Type*} {n c : Nat} {o : Option α} (inside : c < n) :
    (List.range n).filterMap (fun i => if i = c then o else none) = o.toList := by
  induction n with
  | zero => cases inside
  | succ n ih =>
      rw [List.range_succ, List.filterMap_append]
      rcases Nat.lt_succ_iff_lt_or_eq.mp inside with below | rfl
      · rw [ih below]
        simp [Nat.ne_of_gt below]
      · have none : (List.range c).filterMap (fun i => if i = c then o else Option.none) = [] := by
          rw [List.filterMap_eq_nil_iff]
          intro i member
          exact if_neg (Nat.ne_of_lt (List.mem_range.mp member))
        cases o <;> simp [none]

/-- The sweep of an exiting thread frees the stack it runs on. -/
theorem sweepStacks_ended (h : Housed s) (enabled : Bool) (masked : Bool) :
    Ended s.currentThread s (sweepStacks ((Seated.markExited enabled s).interruptsSet masked)) := by
  obtain ⟨lost, seated⟩ := h.seated
  have inside : s.currentThread < THREAD_MAX_THREADS := h.below _ seated.partition.running_live.1
  have table (j : Nat) : ((Seated.markExited enabled s).interruptsSet masked).totalList j =
      if j = s.currentThread then { s.totalList j with exist := false, status := .exited } else s.totalList j := by
    change (s.modifyThread s.currentThread fun t => { t with exist := false, status := .exited }).totalList j = _
    rw [thread_modifyThread]
    split_ifs with same
    · rw [same]
    · rfl
  have others (j : Nat) (other : j ≠ s.currentThread) :
      ((s.totalList j).status = .exited && !(s.totalList j).exist) = true → (s.totalList j).stack = none := by
    intro gone
    rw [Bool.and_eq_true] at gone
    exact h.vacant j (by simpa using gone.2)
  refine ⟨fun j => ?_, fun j => ?_, fun j => ?_, ?_, rfl⟩
  · rw [sweepStacks_exist, table]
    split_ifs <;> rfl
  · simp only [sweepStacks, table]
    by_cases same : j = s.currentThread
    · simp [same, Nat.le_of_lt inside]
    · rw [if_neg same, if_neg same]
      split_ifs with gone
      · rw [Bool.and_eq_true] at gone
        exact (others j same gone.2).symm
      · rfl
  · rw [sweepStacks_wqt, table]
    split_ifs <;> rfl
  · simp only [sweepStacks]
    refine congrArg (s.freed ++ ·) ?_
    rw [← filterMap_range_single (Nat.lt_succ_of_lt inside)]
    refine List.filterMap_congr fun j _ => ?_
    rw [table]
    by_cases same : j = s.currentThread
    · simp [same]
    · rw [if_neg same, if_neg same]
      split_ifs with gone
      · exact others j same gone
      · rfl

theorem threadExit (h : Housed s) (run : threadExit s = .ok t) :
    (s.readyList = [] ∧ SameStacks s t) ∨ (s.readyList ≠ [] ∧ Ended s.currentThread s t) := by
  have alone : Threads.releaseWaiters (s.interruptsSet false) = .ok (s.interruptsSet false) := by
    simp only [Threads.releaseWaiters, show (s.interruptsSet false).current.wqt = none from h.unwaited _]
  obtain ⟨quiet, yields⟩ := threadExit_of_released alone
  by_cases empty : s.readyList = []
  · refine Or.inl ⟨empty, ?_⟩
    exact Except.ok.inj ((quiet empty).symm.trans run) ▸ .of_eq rfl rfl rfl
  · refine Or.inr ⟨empty, ?_⟩
    have masked : SameStacks s (s.interruptsSet false) := .of_eq rfl rfl rfl
    have housed : Housed (s.interruptsSet false) := by
      obtain ⟨lost, seated⟩ := h.seated
      exact h.of_same masked ⟨lost, seated.interruptsSet false⟩
    have swept := housed.sweepStacks_ended s.interrupts false
    have run := (yields empty).symm.trans run
    obtain ⟨head, rest, list⟩ := List.exists_cons_of_ne_nil empty
    simp only [Threads.threadYield, if_true,
      show ((Seated.markExited s.interrupts (s.interruptsSet false)).interruptsSet false).readyList = head :: rest from list] at run
    exact (swept.after (.yieldBlock run)).since masked

theorem seatedKilled {lost : Nat → Prop} (seated : Seated lost s) (ready : i ∈ s.readyList) (freed : List Nat) (v : Tid) :
    Seated lost { s with
      totalList := Function.update s.totalList i { s.totalList i with exist := false, stack := none }
      readyList := s.readyList.erase i, freed, rax := v } := by
  have other : s.currentThread ≠ i := (seated.partition.ne_running_of_ready ready).symm
  have table (j : Nat) : Function.update s.totalList i { s.totalList i with exist := false, stack := none } j =
      { s.totalList j with
        exist := if j = i then false else (s.totalList j).exist
        stack := if j = i then none else (s.totalList j).stack } := by
    rw [Function.update_apply]
    split_ifs with same
    · rw [same]
    · rfl
  refine ⟨?_, ?_, fun j hj => ?_, fun q j hj => ?_, fun j hj => ?_, seated.fresh, fun j => ?_, seated.stack, fun j astray => ?_⟩
  · refine (Scheduler.Partition.congr fun j => ?_).mp (seated.partition.kill ready)
    simp only [table]
    by_cases same : j = i <;> simp [same]
  · change (Function.update s.totalList i _ s.currentThread).status = _
    rw [table]
    exact seated.running
  · change (Function.update s.totalList i _ j).status = _
    rw [table]
    exact seated.ready j (List.mem_of_mem_erase hj)
  · change (Function.update s.totalList i _ j).status = _
    rw [table]
    exact seated.waiting q j hj
  · change (Function.update s.totalList i _ j).exist = _ at hj
    change (Function.update s.totalList i _ j).threadID = _
    rw [table] at hj ⊢
    split_ifs at hj
    exact seated.identified j hj
  · change ∀ f ∈ (Function.update s.totalList i _ j).threadInfo, _
    rw [table]
    exact seated.contexts j
  · change (Function.update s.totalList i _ j).exist = _
    have kept : j ≠ i := by
      rintro rfl
      exact (seated.partition.ready_live j ready).2 astray
    rw [table]
    exact (if_neg kept).trans (seated.astray j astray)

theorem threadKill_cases (h : Housed s) {tid : Tid} (run : threadKill tid s = .ok t) :
    (SameStacks s t ∧ ∃ lost, Seated lost t) ∨
    ∃ i, i ≠ s.currentThread ∧ Ended i s t ∧ ∃ lost, Seated lost t := by
  obtain ⟨lost, seated⟩ := h.seated
  have wqt (itr : Option Nat) : (markKilled itr (s.interruptsSet false)).current.wqt = none := by
    rw [current, markKilled_thread]
    exact h.unwaited _
  obtain ⟨itr, walked, run⟩ := Result.bind_eq_ok.mp run
  simp only [wqt] at run
  cases itr with
  | none =>
      rw [← Except.ok.inj run]
      exact Or.inl ⟨.of_eq rfl rfl rfl, lost, (seated.interruptsSet _).result _⟩
  | some i =>
      have ready : i ∈ s.readyList := by
        unfold killWalk at walked
        split at walked
        · cases walked
        · rename_i head rest list
          split at walked
          · rename_i node found
            obtain rfl := Option.some.inj (Except.ok.inj walked)
            exact List.mem_of_find?_eq_some found
          · cases walked
      let killed : State := { s with
        totalList := Function.update s.totalList i { s.totalList i with exist := false, stack := none }
        freed := s.freed ++ (s.totalList i).stack.toList, interrupts := false }
      have table (j : Nat) : killed.totalList j = { s.totalList j with
          exist := if j = i then false else (s.totalList j).exist
          stack := if j = i then none else (s.totalList j).stack } := by
        simp only [killed, Function.update_apply]
        split_ifs with same
        · rw [same]
        · rfl
      have shape : { markKilled (some i) (s.interruptsSet false) with
          freed := (markKilled (some i) (s.interruptsSet false)).freed ++
            ((markKilled (some i) (s.interruptsSet false)).totalList i).stack.toList }.modifyThread i (fun t => { t with stack := none }) =
          killed := by
        simp [markKilled, modifyThread, State.interruptsSet, killed]
      have ids : Identified killed killed.readyList := fun j hj => by
        rw [table]
        exact seated.identified j (seated.partition.ready_live j hj).1
      have unlinked := @deleteNode_eq killed i (some i) ids seated.partition.ready_nodup ready (Or.inl rfl)
      obtain ⟨v, unlink, run⟩ := Result.bind_eq_ok.mp run
      obtain rfl := Except.ok.inj (unlinked.symm.trans (shape ▸ unlink))
      rw [← Except.ok.inj run]
      refine Or.inr ⟨i, seated.partition.ne_running_of_ready ready, ⟨fun j => ?_, fun j => ?_, fun j => ?_, rfl, rfl⟩, lost, ?_⟩
      · exact congrArg Thread.exist (table j)
      · exact congrArg Thread.stack (table j)
      · exact (congrArg Thread.wqt (table j)).trans rfl
      · exact seatedKilled seated ready _ _

theorem enter {call : Call} (h : Housed s) (waitless : Waitless s (.call call)) (run : enter call s = .ok t) :
    Housed t ∧ (StackSafe s t ↔ ¬ ExitsOnStack s (.call call)) := by
  obtain ⟨lost, seated⟩ := h.seated
  have kept (killFree : KillFree (.call call)) : ∃ lost, Seated lost t := by
    obtain ⟨lost', -, seated'⟩ := seated.enter killFree run
    exact ⟨lost', seated'⟩
  have stays (stays : call ≠ .exit) (safe : StackSafe s t) : StackSafe s t ↔ ¬ ExitsOnStack s (.call call) :=
    iff_of_true safe fun exits => stays (Action.call.inj exits.1)
  have same (killFree : KillFree (.call call)) (other : call ≠ .exit) (same : SameStacks s t) :
      Housed t ∧ (StackSafe s t ↔ ¬ ExitsOnStack s (.call call)) :=
    ⟨h.of_same same (kept killFree), stays other (h.stackSafe_of_same same)⟩
  cases call with
  | create stackOk =>
      obtain rfl := Except.ok.inj run
      obtain ⟨housed, safe⟩ := h.threadCreate stackOk (kept trivial)
      exact ⟨housed, stays Call.noConfusion safe⟩
  | exit =>
      rcases h.threadExit run with ⟨alone, same⟩ | ⟨ready, ended⟩
      · exact ⟨h.of_same same (kept trivial), iff_of_true (h.stackSafe_of_same same) fun exits => exits.2.1 alone⟩
      · refine ⟨h.of_ended ended (kept trivial), (h.stackSafe_iff_of_ended ended).trans ?_⟩
        constructor
        · intro bare exits
          exact exits.2.2 (bare rfl)
        · intro stays _
          by_contra stack
          exact stays ⟨rfl, ready, stack⟩
  | kill tid =>
      rcases h.threadKill_cases run with ⟨same, kept⟩ | ⟨i, other, ended, kept⟩
      · exact ⟨h.of_same same kept, stays Call.noConfusion (h.stackSafe_of_same same)⟩
      · exact ⟨h.of_ended ended kept, stays Call.noConfusion ((h.stackSafe_iff_of_ended ended).mpr fun own => (other own).elim)⟩
  | wait tid => exact waitless.elim
  | yield tid => exact same trivial Call.noConfusion (h.threadYield run)
  | sleep queue => exact same trivial Call.noConfusion (.threadSleep run)
  | wakeup queue all => exact same trivial Call.noConfusion (.threadWakeup run)
  | queueDestroy q =>
      obtain ⟨nodes, -, destroyed⟩ := Result.bind_eq_ok.mp run
      exact same trivial Call.noConfusion (Except.ok.inj destroyed ▸ .of_eq rfl rfl rfl)
  | lockDestroy l => exact same trivial Call.noConfusion (.lockDestroy run)
  | lockAcquire l => exact same trivial Call.noConfusion (.lockAcquire run)
  | lockRelease l => exact same trivial Call.noConfusion (.lockRelease run)
  | cvDestroy c => exact same trivial Call.noConfusion (.cvDestroy run)
  | cvWait c l => exact same trivial Call.noConfusion (.cvWait run)
  | cvSignal c l | cvBroadcast c l => exact same trivial Call.noConfusion (.cvWake run)
  | queueCreate | lockCreate | cvCreate | interruptsSet _ =>
      exact same trivial Call.noConfusion (Except.ok.inj run ▸ .of_eq rfl rfl rfl)

theorem continueFrame {frame : Frame} (h : Housed s) (settled : frame.settled = true)
    (run : continueFrame frame s = .ok t) : Housed t ∧ SameStacks s t := by
  obtain ⟨lost, seated⟩ := h.seated
  have same : SameStacks s t := by
    cases frame with
    | exitCall | afterExit _ _ => cases settled
    | afterYield enabled called next iter =>
        obtain rfl : called = true := settled
        exact Except.ok.inj run ▸ .of_eq rfl rfl rfl
    | acquireLoop l enabled => exact .acquireLoop run
    | cvReacquire l enabled =>
        have pushed : SameStacks s (s.push (.cvReturn enabled)) := .of_eq rfl rfl rfl
        exact pushed.trans (.lockAcquire run)
    | user _ | stub | handler _ | yieldResult | exitReturn _ | afterSleep _ _ | waitReturn _ _ | cvReturn _ =>
        exact Except.ok.inj run ▸ .of_eq rfl rfl rfl
  exact ⟨h.of_same same ⟨lost, seated.continueFrame settled run⟩, same⟩

theorem stackSafe_since {u : State} (same : SameStacks s u) (current : u.currentThread = s.currentThread) :
    StackSafe u t ↔ StackSafe s t := by
  constructor
  · rintro ⟨once, elsewhere, replaced⟩
    refine ⟨once, fun i a here member fresh => ?_, fun i a here => replaced i a ((same.stack i).trans here)⟩
    exact current ▸ elsewhere i a ((same.stack i).trans here) member (same.freed.symm ▸ fresh)
  · rintro ⟨once, elsewhere, replaced⟩
    refine ⟨once, fun i a here member fresh => ?_, fun i a here => replaced i a ((same.stack i).symm.trans here)⟩
    exact current.symm ▸ elsewhere i a ((same.stack i).symm.trans here) member (same.freed ▸ fresh)

theorem step {action : Action} {event : Option Event} (h : Housed s) (waitless : Waitless s action)
    (run : step s action = .ok (t, event)) : Housed t ∧ (StackSafe s t ↔ ¬ ExitsOnStack s action) := by
  obtain ⟨lost, seated⟩ := h.seated
  rcases step_cases run with ⟨call, rfl, -, entered, -⟩ | ⟨frame, frames, rfl, stack, continued, -⟩ | ⟨rfl, -, yielded, -⟩
  · have pushed : SameStacks s (s.push (.user call)) := .of_eq rfl rfl rfl
    obtain ⟨housed, safe⟩ := (h.of_same pushed ⟨lost, seated.push rfl⟩).enter waitless entered
    exact ⟨housed, (stackSafe_since pushed rfl).symm.trans safe⟩
  · have popped : SameStacks s { s with callStack := frames } := .of_eq rfl rfl rfl
    obtain ⟨settled, below⟩ := seated.pop stack
    obtain ⟨housed, same⟩ := (h.of_same popped ⟨lost, below⟩).continueFrame settled continued
    refine ⟨housed, iff_of_true (h.stackSafe_of_same (popped.trans same)) ?_⟩
    rintro ⟨exits, -⟩
    cases exits
  · have handled : SameStacks s ((s.interruptsSet false).push (.handler s.rax)) := .of_eq rfl rfl rfl
    have seated' : Seated lost ((s.interruptsSet false).push (.handler s.rax)) := (seated.interruptsSet false).push rfl
    have same := handled.trans ((h.of_same handled ⟨lost, seated'⟩).threadYield yielded)
    refine ⟨h.of_same same ⟨lost, seated'.threadYield yielded⟩, iff_of_true (h.stackSafe_of_same same) ?_⟩
    rintro ⟨exits, -⟩
    cases exits

theorem init : Housed threadInit := by
  have bare (i : Nat) : (threadInit.totalList i).stack = none ∧ (threadInit.totalList i).wqt = none := by
    by_cases first : i = 0 <;> simp [threadInit, first, Thread.zero]
  refine ⟨⟨_, Placed.init.seated⟩, fun i => (bare i).2, fun i alive => ?_, fun i _ => (bare i).1, fun i j a here => ?_,
    fun i a here => ?_, fun a member => ?_, List.nodup_nil⟩
  · by_cases first : i = 0
    · simp [first, THREAD_MAX_THREADS]
    · simp [threadInit, first, Thread.zero] at alive
  · rw [(bare i).1] at here
    cases here
  · rw [(bare i).1] at here
    cases here
  · cases member

theorem of_run {labels : List Label} (run : Runs Waitless labels s) : Housed s :=
  run.invariant Housed init fun _ _ _ taken h => (h.step taken.1 taken.2).1

end Housed

/-- Each step of a run frees no stack twice, none that code runs on, and replaces none that is in use,
exactly if no thread exits on an allocated stack while another one is ready. -/
theorem stacks_freed_safely_iff (labels : List Label) :
    Each (Steps Waitless) threadInit (fun s _ t => StackSafe s t) labels ↔
      Each (Steps Waitless) threadInit (fun s label _ => ¬ ExitsOnStack s label.1) labels := by
  refine Each.congr fun s label t reached taken => ?_
  obtain ⟨front, run⟩ := reached
  exact ((Housed.of_run run).step taken.1 taken.2).2

instance (s : State) : (action : Action) → Decidable (Waitless s action)
  | .call (.wait _) => .isFalse id
  | .call (.create _) | .call (.yield _) | .call .exit | .call (.kill _) | .call .queueCreate | .call (.queueDestroy _)
  | .call (.sleep _) | .call (.wakeup _ _) | .call .lockCreate | .call (.lockDestroy _) | .call (.lockAcquire _)
  | .call (.lockRelease _) | .call .cvCreate | .call (.cvDestroy _) | .call (.cvWait _ _) | .call (.cvSignal _ _)
  | .call (.cvBroadcast _ _) | .call (.interruptsSet _) | .resume | .interrupt => .isTrue trivial

def yieldToOne : List Action := [.call (.create true), .resume, .call (.yield 1), .resume]

/-- Thread 1 frees its own stack in `thread_exit`. -/
theorem stacks_freed_safely_fails :
    ¬ ∀ labels s, Runs Waitless labels s → Each (Steps Waitless) threadInit (fun s _ t => StackSafe s t) labels := by
  intro always
  have front := @Runs.of_exec Waitless _ yieldToOne (by decide)
  obtain ⟨t, event, last⟩ : ∃ t event, step ((exec Waitless threadInit yieldToOne).get (by decide)).1 (.call .exit) = .ok (t, event) :=
    ⟨_, _, rfl⟩
  have taken : Steps Waitless _ (.call .exit, event) t := ⟨trivial, last⟩
  have safe := always _ _ (.step front taken) _ _ _ _ (List.prefix_refl _) front taken
  exact ((Housed.of_run front).step taken.1 last).2.mp safe ⟨rfl, by decide, by decide⟩

end OperatingSystem.Threads
