import OperatingSystem.Threads.Nodes
import OperatingSystem.Threads.Waiting

namespace OperatingSystem.Threads

open Heap State

namespace Memory

variable {m : Memory} {q x i head : Nat} {wq : WaitQueue} {cells l : List Nat}

theorem queueAt_eq_ok : m.queueAt q = .ok wq ↔ m.queues q = some wq := by
  unfold queueAt
  cases m.queues q <;> simp

theorem lastNode_eq {h : Heap (Node Nat)} {fuel last iter : Nat} (path : Linked.Path h.nextIn (some iter) (cells ++ [last]) none)
    (used : ∀ x ∈ cells ++ [last], ∃ i, h.dataIn x = some i) (enough : cells.length < fuel) :
    lastNode h fuel iter = .ok last := by
  induction cells generalizing iter fuel with
  | nil =>
      obtain ⟨fuel, rfl⟩ := Nat.exists_eq_add_of_lt enough
      obtain rfl := Option.some.inj path.1
      obtain ⟨i, here⟩ := used iter (by simp)
      obtain ⟨n, here, -⟩ := dataIn_eq_some.mp here
      have ends : n.next = none := (linkIn_eq here).symm.trans path.2
      simp [lastNode, read_eq_ok.mpr here, ends]
  | cons x cells ih =>
      obtain ⟨fuel, rfl⟩ : ∃ n, fuel = n + 1 := ⟨fuel - 1, by simp at enough; omega⟩
      obtain rfl := Option.some.inj path.1
      obtain ⟨i, here⟩ := used iter (by simp)
      obtain ⟨n, here, -⟩ := dataIn_eq_some.mp here
      have rest := path.2
      rw [show h.nextIn iter = n.next from linkIn_eq here] at rest
      obtain ⟨next, linked⟩ : ∃ next, n.next = some next := by
        cases cells with
        | nil => exact ⟨last, rest.head⟩
        | cons y cells => exact ⟨y, rest.head⟩
      rw [linked] at rest
      have shorter := ih rest (fun y member => used y (List.mem_cons_of_mem iter member)) (by simpa using enough)
      simp [lastNode, read_eq_ok.mpr here, linked, shorter]

theorem pushbackWQ_eq (found : m.queues q = some wq) (c : Chain m.waitNodes wq.head wq.tail cells l)
    (here : m.waitNodes.dataIn x = some i) (fresh : x ∉ cells) :
    ∃ nodes wq', m.pushbackWQ q x = .ok ({ m with waitNodes := nodes }.setQueue q wq') ∧
      Chain nodes wq'.head wq'.tail (cells ++ [x]) (l ++ [i]) ∧
      ∀ y, y ∉ cells → y ≠ x → nodes.cells y = m.waitNodes.cells y := by
  cases start : wq.head with
  | none =>
      rw [start] at c
      obtain ⟨rfl, rfl, -⟩ := c.of_head_none
      have set : (m.waitNodes.setPrv x none).dataIn x = some i := by simpa using here
      refine ⟨(m.waitNodes.setPrv x none).setNext x none, ⟨some x, some x⟩, ?_, .first here, fun y _ other => ?_⟩
      · simp only [pushbackWQ, queueAt_eq_ok.mpr found, Result.ok_bind, start, store_prv here, store_next set]
        rfl
      · exact (setNext_of_ne other).trans (setPrv_of_ne other)
  | some first =>
      rw [start] at c
      obtain ⟨cs, a, l', rfl, rfl, -⟩ := c.of_head_some
      obtain ⟨front, last, shape⟩ : ∃ front last, first :: cs = front ++ [last] :=
        ⟨_, _, (List.dropLast_append_getLast (List.cons_ne_nil first cs)).symm⟩
      rw [shape] at c fresh ⊢
      have used (y : Nat) (member : y ∈ front ++ [last]) : ∃ i, m.waitNodes.dataIn y = some i := by
        obtain ⟨a, -, here⟩ := c.used member
        exact ⟨a, here⟩
      have enough : front.length < m.waitNodes.next + 1 := by
        have long := c.length_eq
        have short := c.length_le
        simp only [List.length_append, List.length_singleton] at long
        omega
      obtain ⟨b, hangs⟩ := used last (by simp)
      have walked := lastNode_eq c.linked.forward used enough
      have set1 : (m.waitNodes.setNext last (some x)).dataIn x = some i := by simpa using here
      have set2 : ((m.waitNodes.setNext last (some x)).setPrv x (some last)).dataIn x = some i := by simpa using here
      refine ⟨((m.waitNodes.setNext last (some x)).setPrv x (some last)).setNext x none, ⟨some first, some x⟩, ?_,
        c.push here fresh, fun y outside other => ?_⟩
      · simp only [pushbackWQ, queueAt_eq_ok.mpr found, Result.ok_bind, start, walked, store_next hangs, store_prv set1,
          store_next set2]
        rfl
      · have apart : y ≠ last := by
          rintro rfl
          exact outside (by simp)
        exact (setNext_of_ne other).trans ((setPrv_of_ne other).trans (setNext_of_ne apart))

theorem pushbackRL_eq (c : Chain m.readyNodes m.readyList m.endOfReady cells l) (here : m.readyNodes.dataIn x = some i)
    (fresh : x ∉ cells) :
    ∃ nodes first last, m.pushbackRL x = .ok { m with readyNodes := nodes, readyList := first, endOfReady := last } ∧
      Chain nodes first last (cells ++ [x]) (l ++ [i]) := by
  cases start : m.readyList with
  | none =>
      rw [start] at c
      obtain ⟨rfl, rfl, -⟩ := c.of_head_none
      have set : (m.readyNodes.setPrv x none).dataIn x = some i := by simpa using here
      refine ⟨(m.readyNodes.setPrv x none).setNext x none, some x, some x, ?_, .first here⟩
      simp only [pushbackRL, start, store_prv here, Result.ok_bind, store_next set]
      rfl
  | some first =>
      rw [start] at c
      obtain ⟨cs, a, l', rfl, rfl, -⟩ := c.of_head_some
      obtain ⟨front, last, shape⟩ : ∃ front last, first :: cs = front ++ [last] :=
        ⟨_, _, (List.dropLast_append_getLast (List.cons_ne_nil first cs)).symm⟩
      rw [shape] at c fresh ⊢
      have tail : m.endOfReady = some last := c.linked.tail_of_snoc
      obtain ⟨b, -, hangs⟩ := c.used (x := last) (by simp)
      have set1 : (m.readyNodes.setNext last (some x)).dataIn x = some i := by simpa using here
      have set2 : ((m.readyNodes.setNext last (some x)).setPrv x (some last)).dataIn x = some i := by simpa using here
      refine ⟨((m.readyNodes.setNext last (some x)).setPrv x (some last)).setNext x none, some first, some x, ?_,
        c.push here fresh⟩
      simp only [pushbackRL, start, tail, pointer, Result.ok_bind, store_next hangs, store_prv set1, store_next set2]
      rfl

theorem deleteNode_head {a : Nat} (c : Chain m.readyNodes m.readyList m.endOfReady (head :: cells) (a :: l)) :
    ∃ nodes first last, m.deleteNode head = .ok { m with readyNodes := nodes, readyList := first, endOfReady := last } ∧
      Chain nodes first last cells l := by
  have start : m.readyList = some head := c.linked.head_of_cons
  obtain ⟨n, here, data⟩ := dataIn_eq_some.mp (List.cons.inj c.holds).1
  have found := read_eq_ok.mpr here
  have link : m.readyNodes.nextIn head = n.next := linkIn_eq here
  cases cells with
  | nil =>
      have ends : n.next = none := link.symm.trans c.linked.forward.2
      obtain rfl : l = [] := List.length_eq_zero_iff.mp (by simpa using c.length_eq.symm)
      refine ⟨m.readyNodes.free head, none, none, ?_, .nil _⟩
      simp only [deleteNode, found, start, pointer, Result.ok_bind, if_true, ends]
      rfl
  | cons y cells =>
      have follows : n.next = some y := link.symm.trans c.linked.forward.2.1
      obtain ⟨b, -, second⟩ := c.used (x := y) (by simp)
      refine ⟨(m.readyNodes.setPrv y none).free head, some y, m.endOfReady, ?_, c.pop⟩
      simp only [deleteNode, found, start, pointer, Result.ok_bind, if_true, follows, store_prv second]
      rfl

theorem deleteNodewq_head {a : Nat} (found : m.queues q = some wq) (c : Chain m.waitNodes wq.head wq.tail (head :: cells) (a :: l)) :
    ∃ nodes wq', m.deleteNodewq q head =
        .ok (some (m.totalList a).threadID, { m with waitNodes := nodes }.setQueue q wq') ∧
      Chain nodes wq'.head wq'.tail cells l ∧ ∀ y, y ∉ head :: cells → nodes.cells y = m.waitNodes.cells y := by
  have start : wq.head = some head := c.linked.head_of_cons
  obtain ⟨n, here, data⟩ := dataIn_eq_some.mp (List.cons.inj c.holds).1
  have stored := read_eq_ok.mpr here
  have link : m.waitNodes.nextIn head = n.next := linkIn_eq here
  cases cells with
  | nil =>
      have ends : n.next = none := link.symm.trans c.linked.forward.2
      obtain rfl : l = [] := List.length_eq_zero_iff.mp (by simpa using c.length_eq.symm)
      refine ⟨m.waitNodes.free head, ⟨none, none⟩, ?_, .nil _, fun y outside => free_of_ne fun same => ?_⟩
      · simp only [deleteNodewq, queueAt_eq_ok.mpr found, stored, start, Result.ok_bind, if_true, ends, data]
        rfl
      · exact outside (by simp [same])
  | cons y cells =>
      have follows : n.next = some y := link.symm.trans c.linked.forward.2.1
      obtain ⟨b, -, second⟩ := c.used (x := y) (by simp)
      refine ⟨(m.waitNodes.setPrv y none).free head, ⟨some y, wq.tail⟩, ?_, c.pop, fun z outside => ?_⟩
      · simp only [deleteNodewq, queueAt_eq_ok.mpr found, stored, start, Result.ok_bind, if_true, follows, store_prv second,
          data]
        rfl
      · rw [List.mem_cons, List.mem_cons, not_or, not_or] at outside
        exact (free_of_ne outside.1).trans (setPrv_of_ne outside.2.1)

theorem makeReady_eq (c : Chain m.readyNodes m.readyList m.endOfReady cells l) (id : Nat) :
    ∃ nodes first last cells', m.makeReady id = .ok { m.modifyThread id fun t => { t with status := .ready } with
        readyNodes := nodes, readyList := first, endOfReady := last } ∧ Chain nodes first last cells' (l ++ [id]) := by
  let built := (m.buildNodeRL id).1.modifyThread id fun t => { t with status := .ready }
  have kept : Chain built.readyNodes built.readyList built.endOfReady cells l := by
    refine c.frame fun y member => alloc_of_ne ?_
    rintro rfl
    exact c.fresh member
  have here : built.readyNodes.dataIn m.readyNodes.next = some id := dataIn_eq_some.mpr ⟨_, alloc_next, rfl⟩
  obtain ⟨nodes, first, last, run, c'⟩ := pushbackRL_eq kept here c.fresh
  exact ⟨nodes, first, last, _, run, c'⟩

end Memory

structure Laid (m : Memory) (s : State) (readyCells : List Nat) (waitCells : Nat → List Nat) : Prop where
  totalList : m.totalList = s.totalList
  currentThread : m.currentThread = s.currentThread
  interrupts : m.interrupts = s.interrupts
  callStack : m.callStack = s.callStack
  rax : m.rax = s.rax
  ready : Chain m.readyNodes m.readyList m.endOfReady readyCells s.readyList
  allocated : ∀ q, m.queues q = none ↔ s.queues q = none
  waiting : ∀ q wq nodes, m.queues q = some wq → s.queues q = some nodes → Chain m.waitNodes wq.head wq.tail (waitCells q) nodes
  freed : ∀ q, s.queues q = none → waitCells q = []
  apart : ∀ q q' x, x ∈ waitCells q → x ∈ waitCells q' → q = q'

def Represents (m : Memory) (s : State) : Prop := ∃ readyCells waitCells, Laid m s readyCells waitCells

namespace Laid

variable {m : Memory} {s t : State} {readyCells : List Nat} {waitCells : Nat → List Nat}

theorem queue (laid : Laid m s readyCells waitCells) {q : Nat} {nodes : List Nat} (found : s.queues q = some nodes) :
    ∃ wq, m.queues q = some wq ∧ Chain m.waitNodes wq.head wq.tail (waitCells q) nodes := by
  cases here : m.queues q with
  | none =>
      rw [(laid.allocated q).mp here] at found
      cases found
  | some wq => exact ⟨wq, rfl, laid.waiting q wq nodes here found⟩

theorem readyList_none (laid : Laid m s readyCells waitCells) : m.readyList = none ↔ s.readyList = [] := by
  constructor
  · intro empty
    have ready := laid.ready
    rw [empty] at ready
    exact ready.of_head_none.2.1
  · intro empty
    cases head : m.readyList with
    | none => rfl
    | some x =>
        have ready := laid.ready
        rw [head] at ready
        obtain ⟨rest, a, l, -, shape, -⟩ := ready.of_head_some
        rw [empty] at shape
        cases shape

theorem fresh (laid : Laid m s readyCells waitCells) (q : Nat) : m.waitNodes.next ∉ waitCells q := by
  intro member
  cases here : s.queues q with
  | none =>
      rw [laid.freed q here] at member
      cases member
  | some nodes =>
      obtain ⟨wq, -, c⟩ := laid.queue here
      obtain ⟨a, -, used⟩ := c.used member
      obtain ⟨n, here, -⟩ := dataIn_eq_some.mp used
      exact ne_next here rfl

theorem modifyThread (laid : Laid m s readyCells waitCells) (i : Nat) (f : Thread → Thread) :
    Laid (m.modifyThread i f) (s.modifyThread i f) readyCells waitCells :=
  { laid with totalList := by rw [Memory.modifyThread, laid.totalList, State.modifyThread] }

theorem setReady (laid : Laid m s readyCells waitCells) {nodes : Heap (Node Nat)} {first last : Option Nat} {cells l : List Nat}
    (ready : Chain nodes first last cells l) :
    Laid { m with readyNodes := nodes, readyList := first, endOfReady := last } { s with readyList := l } cells waitCells :=
  { laid with ready }

theorem setQueue (laid : Laid m s readyCells waitCells) {h : Heap (Node Nat)} {wq : WaitQueue} {q : Nat} {cells nodes : List Nat}
    (c : Chain h wq.head wq.tail cells nodes)
    (others : ∀ q' y, q' ≠ q → y ∈ waitCells q' → h.cells y = m.waitNodes.cells y)
    (own : ∀ q' y, q' ≠ q → y ∈ cells → y ∉ waitCells q') :
    Laid ({ m with waitNodes := h }.setQueue q wq) (s.setQueue q (some nodes)) readyCells (Function.update waitCells q cells) where
  totalList := laid.totalList
  currentThread := laid.currentThread
  interrupts := laid.interrupts
  callStack := laid.callStack
  rax := laid.rax
  ready := laid.ready
  allocated r := by
    simp only [Memory.setQueue, State.setQueue, Function.update_apply]
    split_ifs
    · simp
    · exact laid.allocated r
  waiting r wq' l here there := by
    simp only [Memory.setQueue, State.setQueue, Function.update_apply] at here there ⊢
    split_ifs at here there ⊢ with same
    · obtain rfl := Option.some.inj here
      obtain rfl := Option.some.inj there
      exact c
    · exact (laid.waiting r wq' l here there).frame fun y member => others r y same member
  freed r gone := by
    simp only [State.setQueue, Function.update_apply] at gone ⊢
    split_ifs at gone ⊢
    exact laid.freed r gone
  apart r r' y member member' := by
    simp only [Function.update_apply] at member member'
    split_ifs at member member' with first second second
    · exact first.trans second.symm
    · exact absurd member' (own r' y second member)
    · exact absurd member (own r y first member')
    · exact laid.apart r r' y member member'

theorem buildNodeWQ (laid : Laid m s readyCells waitCells) (id : Nat) : Laid (m.buildNodeWQ id).1 s readyCells waitCells :=
  { laid with
    waiting := fun q wq nodes here there => (laid.waiting q wq nodes here there).frame fun _ member =>
      alloc_of_ne fun same => laid.fresh q (same ▸ member) }

theorem of_eq (laid : Laid m s readyCells waitCells) (same : t = s) : Laid m t readyCells waitCells := same ▸ laid

theorem resume (laid : Laid m s readyCells waitCells) (i : Nat) :
    Laid { m with currentThread := (m.totalList i).threadID, callStack := (m.totalList i).threadInfo }
      { s with currentThread := (s.totalList i).threadID, callStack := (s.totalList i).threadInfo } readyCells waitCells :=
  { laid with
    currentThread := by rw [laid.totalList]
    callStack := by rw [laid.totalList] }

end Laid

namespace Represents

variable {m : Memory} {s t : State}

theorem threadSleep {q : Nat} {nodes : List Nat} (r : Represents m s) (queue : s.queues q = some nodes)
    (run : threadSleep (some q) s = .ok t) : ∃ m', m.threadSleep (some q) = .ok m' ∧ Represents m' t := by
  obtain ⟨readyCells, waitCells, laid⟩ := r
  cases start : m.readyList with
  | none =>
      have alone := threadSleep_alone q (laid.readyList_none.mp start)
      obtain rfl := Except.ok.inj (alone.symm.trans run)
      refine ⟨{ m with rax := THREAD_NONE }, ?_, readyCells, waitCells, { laid with rax := rfl }⟩
      simp only [Memory.threadSleep, start]
  | some head =>
      have ready := laid.ready
      rw [start] at ready
      obtain ⟨cells, next, rest, rfl, list, here⟩ := ready.of_head_some
      obtain ⟨first, stored, rfl⟩ := dataIn_eq_some.mp here
      obtain ⟨wq, found, waits⟩ := laid.queue queue
      simp only [Threads.threadSleep, show (s.interruptsSet false).readyList = first.data :: rest from list] at run
      obtain ⟨nodes', queue', run⟩ := Result.bind_eq_ok.mp run
      obtain rfl : nodes = nodes' := Option.some.inj (queue.symm.trans (queueNodes_eq_ok.mp queue'))
      let parked : Thread → Thread := fun t => { t with
        status := .suspended, threadInfo := .afterSleep m.interrupts first.data :: m.callStack }
      let m1 : Memory := ({ m with interrupts := false }.modifyThread m.currentThread parked).buildNodeWQ m.currentThread |>.1
      have masked : Laid { m with interrupts := false } (s.interruptsSet false) (head :: cells) waitCells :=
        { laid with interrupts := rfl }
      have laid1 : Laid m1 ((s.interruptsSet false).modifyThread m.currentThread parked) (head :: cells) waitCells :=
        (masked.modifyThread m.currentThread parked).buildNodeWQ m.currentThread
      obtain ⟨h, wq', pushed, waits', kept⟩ := Memory.pushbackWQ_eq (m := m1) found (laid1.waiting q wq nodes found queue)
        (dataIn_eq_some.mpr ⟨_, alloc_next, rfl⟩) (laid.fresh q)
      have laid2 := laid1.setQueue waits' (fun q' y other member => kept y (fun own => other (laid.apart q' q y member own))
        fun same => laid.fresh q' (same ▸ member)) fun q' y other member outside => by
          rcases List.mem_append.mp member with own | new
          · exact other (laid.apart q' q y outside own)
          · exact laid.fresh q' (List.mem_singleton.mp new ▸ outside)
      have ready2 : Chain m1.readyNodes m1.readyList m1.endOfReady (head :: cells) (first.data :: rest) := list ▸ laid2.ready
      obtain ⟨h', first', last', deleted, ready'⟩ :=
        Memory.deleteNode_head (m := { m1 with waitNodes := h }.setQueue q wq') ready2
      have laid3 := ((laid2.setReady ready').modifyThread first.data fun t => { t with status := .running }).resume first.data
      refine ⟨_, ?_, _, _, laid3.of_eq ?_⟩
      · have entered : m.threadSleep (some q) = { m with interrupts := false }.suspendOn q head m.interrupts := by
          simp only [Memory.threadSleep, start]
        rw [entered, Memory.suspendOn, read_eq_ok.mpr stored, Result.ok_bind]
        exact Result.bind_eq_ok.mpr ⟨_, pushed, Result.bind_eq_ok.mpr ⟨_, deleted, rfl⟩⟩
      · rw [← Except.ok.inj run]
        simp only [parked, laid.currentThread, laid.callStack, laid.interrupts]
        rfl

theorem wake {q head : Nat} {rest : List Nat} (r : Represents m s) (queue : s.queues q = some (head :: rest)) :
    ∃ wq cell id m1 m2, m.queues q = some wq ∧ wq.head = some cell ∧ m.deleteNodewq q cell = .ok (some id, m1) ∧
      m1.makeReady id = .ok m2 ∧ Represents m2 (wakeThread (s.setQueue q (some rest)) head) := by
  obtain ⟨readyCells, waitCells, laid⟩ := r
  obtain ⟨wq, found, waits⟩ := laid.queue queue
  obtain ⟨cell, cells, shape⟩ : ∃ cell cells, waitCells q = cell :: cells := by
    cases shape : waitCells q with
    | nil =>
        have none := waits.length_eq
        rw [shape] at none
        cases none
    | cons cell cells => exact ⟨cell, cells, rfl⟩
  rw [shape] at waits
  obtain ⟨h, wq', deleted, waits', kept⟩ := Memory.deleteNodewq_head found waits
  have own (y : Nat) (member : y ∈ cells) : y ∈ waitCells q := shape ▸ List.mem_cons_of_mem cell member
  have laid1 := laid.setQueue waits' (fun q' y other member => kept y fun here => other (laid.apart q' q y member (shape ▸ here)))
    fun q' y other member outside => other (laid.apart q' q y outside (own y member))
  obtain ⟨nodes, first, last, readyCells', ran, ready'⟩ := Memory.makeReady_eq laid1.ready (m.totalList head).threadID
  have laid2 := (laid1.modifyThread (m.totalList head).threadID fun t => { t with status := .ready }).setReady ready'
  refine ⟨wq, cell, _, _, _, found, waits.linked.head_of_cons, deleted, ran, _, _, laid2.of_eq ?_⟩
  rw [laid.totalList]
  rfl

theorem wakeLoop {q fuel : Nat} {nodes : List Nat} (r : Represents m s) (queue : s.queues q = some nodes) (counter : Tid)
    (enough : nodes.length < fuel) :
    ∃ m', Memory.wakeLoop q fuel counter m = .ok (counter + nodes.length, m') ∧
      Represents m' (nodes.foldl wakeThread (s.setQueue q (some []))) := by
  induction nodes generalizing m s fuel counter with
  | nil =>
      obtain ⟨fuel, rfl⟩ := Nat.exists_eq_add_of_lt enough
      have same : s.setQueue q (some []) = s := by simp only [setQueue, ← queue, Function.update_eq_self]
      obtain ⟨readyCells, waitCells, laid⟩ := r
      obtain ⟨wq, found, waits⟩ := laid.queue queue
      have empty : wq.head = none := by
        have cells : waitCells q = [] := List.length_eq_zero_iff.mp waits.length_eq
        rw [cells] at waits
        exact waits.linked.forward
      refine ⟨m, ?_, readyCells, waitCells, by rwa [List.foldl_nil, same]⟩
      simp [Memory.wakeLoop, Memory.queueAt_eq_ok.mpr found, empty]
  | cons head rest ih =>
      obtain ⟨fuel, rfl⟩ : ∃ n, fuel = n + 1 := ⟨fuel - 1, by simp at enough; omega⟩
      obtain ⟨wq, cell, id, m1, m2, found, start, deleted, ran, r'⟩ := r.wake queue
      -- waking the first of them and emptying the queue commute
      have moved : wakeThread (s.setQueue q (some [])) head =
          (wakeThread (s.setQueue q (some rest)) head).setQueue q (some []) := by
        simp [wakeThread, setQueue, State.pushbackRL, State.modifyThread]
      have left : (wakeThread (s.setQueue q (some rest)) head).queues q = some rest := by
        simp [wakeThread, setQueue, State.pushbackRL]
      obtain ⟨m', looped, r''⟩ := ih r' left (counter + 1) (by simpa using enough)
      refine ⟨m', ?_, by rwa [List.foldl_cons, moved]⟩
      have count : counter + 1 + (rest.length : Tid) = counter + ((head :: rest).length : Tid) := by
        rw [List.length_cons, Int.natCast_add, Int.add_assoc, Int.add_comm 1]
        rfl
      rw [count] at looped
      simp only [Memory.wakeLoop, Memory.queueAt_eq_ok.mpr found, Result.ok_bind, start, deleted, pointer, ran]
      exact looped

theorem interruptsSet (r : Represents m s) (enabled : Bool) : Represents { m with interrupts := enabled } (s.interruptsSet enabled) := by
  obtain ⟨readyCells, waitCells, laid⟩ := r
  exact ⟨readyCells, waitCells, { laid with interrupts := rfl }⟩

theorem result (r : Represents m s) (v : Tid) : Represents { m with rax := v } (s.result v) := by
  obtain ⟨readyCells, waitCells, laid⟩ := r
  exact ⟨readyCells, waitCells, { laid with rax := rfl }⟩

theorem threadWakeup {queue : Option Nat} {all : Int} (r : Represents m s) (run : threadWakeup queue all s = .ok t) :
    ∃ m', m.threadWakeup queue all = .ok m' ∧ Represents m' t := by
  obtain ⟨readyCells, waitCells, laid⟩ := id r
  cases queue with
  | none => exact ⟨_, rfl, Except.ok.inj run ▸ r.result 0⟩
  | some q =>
      obtain ⟨nodes, queue, run⟩ := Result.bind_eq_ok.mp run
      have queue := queueNodes_eq_ok.mp queue
      obtain ⟨wq, found, waits⟩ := laid.queue queue
      have look := Memory.queueAt_eq_ok.mpr found
      cases nodes with
      | nil =>
          have empty : wq.head = none := by
            have cells : waitCells q = [] := List.length_eq_zero_iff.mp waits.length_eq
            rw [cells] at waits
            exact waits.linked.forward
          refine ⟨{ m with rax := 0 }, ?_, Except.ok.inj run ▸ r.result 0⟩
          simp [Memory.threadWakeup, look, empty]
      | cons head rest =>
          have restored : (s.interruptsSet false).interruptsSet m.interrupts = s := by
            rw [laid.interrupts]
            rfl
          obtain ⟨wq', cell, id, m1, m2, found', start, deleted, ran, woken⟩ := (r.interruptsSet false).wake queue
          obtain rfl : wq' = wq := Option.some.inj (found'.symm.trans found)
          have long : (head :: rest).length < m.waitNodes.next + 1 := Nat.lt_succ_of_le waits.length_le
          obtain ⟨m', looped, emptied⟩ := (r.interruptsSet false).wakeLoop queue 0 long
          change (if all = 0 then _ else _) = _ at run
          split_ifs at run with one every
          · obtain rfl := Except.ok.inj run
            refine ⟨{ m2 with interrupts := m.interrupts, rax := 1 }, ?_, ?_⟩
            · simp only [Memory.threadWakeup, look, Result.ok_bind, start, if_pos one, deleted, ran]
              rfl
            · rw [← restored]
              exact (woken.interruptsSet m.interrupts).result 1
          · obtain rfl := Except.ok.inj run
            refine ⟨{ m' with interrupts := m.interrupts, rax := rest.length + 1 }, ?_, ?_⟩
            · simp only [Memory.threadWakeup, look, Result.ok_bind, start, if_neg one, if_pos every, looped]
              simp
            · have folded (nodes : List Nat) (u : State) (enabled : Bool) :
                  (nodes.foldl wakeThread u).interruptsSet enabled = nodes.foldl wakeThread (u.interruptsSet enabled) := by
                induction nodes generalizing u with
                | nil => rfl
                | cons head rest ih => exact ih _
              have back := (emptied.interruptsSet m.interrupts).result (rest.length + 1)
              rw [folded] at back
              have same : ((s.interruptsSet false).setQueue q (some [])).interruptsSet m.interrupts = s.setQueue q (some []) :=
                congrArg (fun u => State.setQueue u q (some [])) restored
              rwa [same] at back
          · refine ⟨{ m with rax := 0 }, ?_, Except.ok.inj run ▸ r.result 0⟩
            simp [Memory.threadWakeup, look, start, one, every]

end Represents

namespace Memory

def Ready (m : Memory) (l : List Nat) : Prop := ∃ cells, Chain m.readyNodes m.readyList m.endOfReady cells l

def Queued (m : Memory) (q : Nat) (l : List Nat) : Prop :=
  ∃ wq cells, m.queues q = some wq ∧ Chain m.waitNodes wq.head wq.tail cells l

def Sound (m : Memory) : Prop := ∃ s, Represents m s ∧ Named s

end Memory

/-- The threads that slept on each queue and those moved from it to the ready list, in order, when
`thread_sleep` and `thread_wakeup` are called by whatever thread runs and other code changes anything
but what is in the queues. -/
inductive History : (Nat → List Nat) → (Nat → List Nat) → Memory → Prop
  | start {m : Memory} (sound : m.Sound) (empty : ∀ q l, m.Queued q l → l = []) : History (fun _ => []) (fun _ => []) m
  | sleep {slept woken : Nat → List Nat} {m m' : Memory} {q : Nat} (before : History slept woken m)
      (others : m.readyList ≠ none) (run : m.threadSleep (some q) = .ok m') :
      History (Function.update slept q (slept q ++ [m.currentThread])) woken m'
  | wakeup {slept woken : Nat → List Nat} {m m' : Memory} {q : Nat} {all : Int} {ready moved : List Nat}
      (before : History slept woken m) (run : m.threadWakeup (some q) all = .ok m') (was : m.Ready ready)
      (now : m'.Ready (ready ++ moved)) : History slept (Function.update woken q (woken q ++ moved)) m'
  | other {slept woken : Nat → List Nat} {m m' : Memory} (before : History slept woken m) (sound : m'.Sound)
      (kept : ∀ q l, m.Queued q l → m'.Queued q l) (new : ∀ q l, m'.Queued q l → m.Queued q l ∨ l = []) :
      History slept woken m'

structure Moved (m m' : Memory) (q : Nat) (moved rest ready : List Nat) (returned : Tid) : Prop where
  returned : m'.rax = returned
  ready : m'.Ready (ready ++ moved)
  queue : m'.Queued q rest
  others : ∀ q' l, q' ≠ q → m.Queued q' l → m'.Queued q' l
  status : ∀ i ∈ moved, (m'.totalList i).status = .ready

structure WakesInOrder (m : Memory) (q : Nat) (sleepers ready : List Nat) : Prop where
  one : ∀ i rest, sleepers = i :: rest → ∃ m', m.threadWakeup (some q) 0 = .ok m' ∧ Moved m m' q [i] rest ready 1
  every : sleepers ≠ [] → ∃ m', m.threadWakeup (some q) 1 = .ok m' ∧ Moved m m' q sleepers [] ready sleepers.length
  empty : sleepers = [] → ∀ all, ∃ m', m.threadWakeup (some q) all = .ok m' ∧ Moved m m' q [] [] ready 0
  null : ∀ all, ∃ m', m.threadWakeup none all = .ok m' ∧ Moved m m' q [] sleepers ready 0

namespace Represents

variable {m m' : Memory} {s t : State} {q : Nat} {l moved rest : List Nat}

theorem queued_iff (r : Represents m s) : m.Queued q l ↔ s.queues q = some l := by
  obtain ⟨readyCells, waitCells, laid⟩ := r
  constructor
  · rintro ⟨wq, cells, found, c⟩
    cases here : s.queues q with
    | none =>
        rw [(laid.allocated q).mpr here] at found
        cases found
    | some nodes => rw [c.unique (laid.waiting q wq nodes found here)]
  · intro here
    obtain ⟨wq, found, c⟩ := laid.queue here
    exact ⟨wq, waitCells q, found, c⟩

theorem ready_iff (r : Represents m s) : m.Ready l ↔ s.readyList = l := by
  obtain ⟨readyCells, waitCells, laid⟩ := r
  constructor
  · rintro ⟨cells, c⟩
    exact laid.ready.unique c
  · rintro rfl
    exact ⟨readyCells, laid.ready⟩

theorem moves (r : Represents m s) (r' : Represents m' t) (ready : t.readyList = s.readyList ++ moved)
    (queues : ∀ q', t.queues q' = if q' = q then some rest else s.queues q')
    (status : ∀ i ∈ moved, (t.totalList i).status = .ready) : Moved m m' q moved rest s.readyList t.rax where
  returned := by
    obtain ⟨_, _, laid⟩ := r'
    exact laid.rax
  ready := r'.ready_iff.mpr ready
  queue := r'.queued_iff.mpr (by rw [queues, if_pos rfl])
  others q' l other here := r'.queued_iff.mpr (by rw [queues, if_neg other, r.queued_iff.mp here])
  status i member := by
    obtain ⟨_, _, laid⟩ := r'
    rw [laid.totalList]
    exact status i member

theorem wakesInOrder (r : Represents m s) (n : Named s) (queue : s.queues q = some l) : WakesInOrder m q l s.readyList := by
  have look : s.queueNodes q = .ok l := queueNodes_eq_ok.mpr queue
  have same (q' : Nat) : s.queues q' = if q' = q then some l else s.queues q' := by
    split_ifs with here
    · exact here ▸ queue
    · rfl
  refine ⟨fun i rest shape => ?_, fun sleepers => ?_, fun empty all => ?_, fun all => ?_⟩
  · subst shape
    have run : Threads.threadWakeup (some q) 0 s = .ok ((wakeThread (s.setQueue q (some rest)) i).result 1) := by
      simp only [Threads.threadWakeup, look]
      rfl
    obtain ⟨m', ran, r'⟩ := r.threadWakeup run
    have id := n.waiting q _ queue i List.mem_cons_self
    have named : ((s.setQueue q (some rest)).totalList i).threadID = i := id
    refine ⟨m', ran, r.moves r' ?_ (fun q' => ?_) fun j member => ?_⟩
    · simp [wakeThread, State.pushbackRL, State.result, State.setQueue, id]
    · exact Function.update_apply _ _ _ _
    · obtain rfl := List.mem_singleton.mp member
      simp [wakeThread, State.pushbackRL, State.result, named]
  · obtain ⟨head, rest, rfl⟩ := List.exists_cons_of_ne_nil sleepers
    have run : Threads.threadWakeup (some q) 1 s =
        .ok (((head :: rest).foldl wakeThread (s.setQueue q (some []))).result (rest.length + 1)) := by
      simp only [Threads.threadWakeup, look]
      rfl
    have ids : Identified (s.setQueue q (some [])) (head :: rest) := n.waiting q _ queue
    obtain ⟨m', ran, r'⟩ := r.threadWakeup run
    refine ⟨m', ran, r.moves r' (wakeAll_readyList ids) (fun q' => ?_) fun j member => wakeAll_status ids member⟩
    change ((head :: rest).foldl wakeThread (s.setQueue q (some []))).queues q' = _
    rw [wakeAll_queues]
    exact Function.update_apply _ _ _ _
  · subst empty
    have run : Threads.threadWakeup (some q) all s = .ok (s.result 0) := by
      simp only [Threads.threadWakeup, look]
      rfl
    obtain ⟨m', ran, r'⟩ := r.threadWakeup run
    exact ⟨m', ran, r.moves r' (List.append_nil _).symm same fun j member => by cases member⟩
  · have run : Threads.threadWakeup none all s = .ok (s.result 0) := rfl
    obtain ⟨m', ran, r'⟩ := r.threadWakeup run
    exact ⟨m', ran, r.moves r' (List.append_nil _).symm same fun j member => by cases member⟩

end Represents

theorem threadSleep_total {s : State} {q : Nat} {nodes : List Nat} (queue : s.queues q = some nodes) :
    ∃ t, threadSleep (some q) s = .ok t := by
  cases ready : s.readyList with
  | nil => exact ⟨_, threadSleep_alone q ready⟩
  | cons next rest =>
      simp only [threadSleep, show (s.interruptsSet false).readyList = next :: rest from ready]
      exact ⟨_, Result.bind_eq_ok.mpr ⟨nodes, queueNodes_eq_ok.mpr queue, rfl⟩⟩

theorem threadWakeup_front {s : State} {q : Nat} {nodes : List Nat} (n : Named s) (queue : s.queues q = some nodes) (all : Int) :
    ∃ t front rest, threadWakeup (some q) all s = .ok t ∧ nodes = front ++ rest ∧ t.readyList = s.readyList ++ front ∧
      t.queues = Function.update s.queues q (some rest) := by
  have look : s.queueNodes q = .ok nodes := queueNodes_eq_ok.mpr queue
  have still : Function.update s.queues q (some nodes) = s.queues := by rw [← queue, Function.update_eq_self]
  have ids := n.waiting q nodes queue
  cases nodes with
  | nil =>
      refine ⟨s.result 0, [], [], ?_, rfl, (List.append_nil _).symm, still.symm⟩
      simp only [threadWakeup, look]
      rfl
  | cons head rest =>
      have decided : threadWakeup (some q) all s = if all = 0 then
          .ok ((wakeThread (s.setQueue q (some rest)) head).result 1)
        else if all = 1 then .ok (((head :: rest).foldl wakeThread (s.setQueue q (some []))).result (rest.length + 1))
        else .ok (s.result 0) := by
        simp only [threadWakeup, look]
        rfl
      rw [decided]
      split_ifs
      · refine ⟨_, [head], rest, rfl, rfl, ?_, rfl⟩
        simp [wakeThread, State.pushbackRL, State.result, State.setQueue, ids head List.mem_cons_self]
      · have ids' : Identified (s.setQueue q (some [])) (head :: rest) := ids
        exact ⟨_, head :: rest, [], rfl, (List.append_nil _).symm, wakeAll_readyList ids', wakeAll_queues (head :: rest) _⟩
      · exact ⟨_, [], head :: rest, rfl, rfl, (List.append_nil _).symm, still.symm⟩

theorem Memory.queue_of_threadSleep {m m' : Memory} {q : Nat} (others : m.readyList ≠ none)
    (run : m.threadSleep (some q) = .ok m') : m.queues q ≠ none := by
  cases start : m.readyList with
  | none => exact absurd start others
  | some head =>
      simp only [Memory.threadSleep, start] at run
      obtain ⟨first, -, run⟩ := Result.bind_eq_ok.mp run
      obtain ⟨pushed, push, -⟩ := Result.bind_eq_ok.mp run
      obtain ⟨wq, found, -⟩ := Result.bind_eq_ok.mp push
      have found : m.queues q = some wq := Memory.queueAt_eq_ok.mp found
      rw [found]
      exact Option.some_ne_none wq

theorem Memory.queue_of_threadWakeup {m m' : Memory} {q : Nat} {all : Int} (run : m.threadWakeup (some q) all = .ok m') :
    m.queues q ≠ none := by
  obtain ⟨wq, found, -⟩ := Result.bind_eq_ok.mp run
  rw [Memory.queueAt_eq_ok.mp found]
  exact Option.some_ne_none wq

namespace History

variable {slept woken : Nat → List Nat} {m : Memory}

theorem ledger (h : History slept woken m) : ∃ s, Represents m s ∧ Named s ∧
    (∀ q nodes, s.queues q = some nodes → slept q = woken q ++ nodes) ∧
    ∀ q, s.queues q = none → slept q = [] ∧ woken q = [] := by
  induction h with
  | start sound empty =>
      obtain ⟨s, r, n⟩ := sound
      refine ⟨s, r, n, fun q nodes queue => ?_, fun _ _ => ⟨rfl, rfl⟩⟩
      rw [empty q nodes (r.queued_iff.mpr queue)]
      rfl
  | @sleep slept woken m m' q before others run ih =>
      obtain ⟨s, r, n, sum, none⟩ := ih
      obtain ⟨_, _, laid⟩ := id r
      obtain ⟨nodes, queue⟩ := Option.ne_none_iff_exists'.mp
        (mt (laid.allocated q).mpr (Memory.queue_of_threadSleep others run))
      obtain ⟨t, ran⟩ := threadSleep_total queue
      obtain ⟨m'', run', r'⟩ := r.threadSleep queue ran
      obtain rfl := Except.ok.inj (run.symm.trans run')
      rcases threadSleep_slept ran with ⟨empty, -⟩ | ⟨next, rest, nodes', asleep⟩
      · exact absurd (laid.readyList_none.mpr empty) others
      obtain rfl : nodes' = nodes := Option.some.inj (asleep.queue.symm.trans queue)
      refine ⟨t, r', n.threadSleep ran, fun q' l there => ?_, fun q' gone => ?_⟩
      · rw [asleep.queues, Function.update_apply] at there
        rw [Function.update_apply]
        split_ifs at there ⊢ with same
        · subst same
          rw [← Option.some.inj there, ← laid.currentThread, sum q' nodes' queue, List.append_assoc]
        · exact sum q' l there
      · rw [asleep.queues, Function.update_apply] at gone
        rw [Function.update_apply]
        split_ifs at gone ⊢
        exact none q' gone
  | @wakeup slept woken m m' q all ready moved before run was now ih =>
      obtain ⟨s, r, n, sum, none⟩ := ih
      obtain ⟨_, _, laid⟩ := id r
      obtain ⟨nodes, queue⟩ := Option.ne_none_iff_exists'.mp (mt (laid.allocated q).mpr (Memory.queue_of_threadWakeup run))
      obtain ⟨t, front, rest, ran, split, grown, queues⟩ := threadWakeup_front n queue all
      obtain ⟨m'', run', r'⟩ := r.threadWakeup ran
      obtain rfl := Except.ok.inj (run.symm.trans run')
      obtain rfl : front = moved := by
        have after := r'.ready_iff.mp now
        rw [grown, r.ready_iff.mp was] at after
        exact List.append_cancel_left after
      refine ⟨t, r', n.threadWakeup ran, fun q' l there => ?_, fun q' gone => ?_⟩
      · rw [queues, Function.update_apply] at there
        rw [Function.update_apply]
        split_ifs at there ⊢ with same
        · subst same
          rw [← Option.some.inj there, sum q' nodes queue, split, List.append_assoc]
        · exact sum q' l there
      · rw [queues, Function.update_apply] at gone
        rw [Function.update_apply]
        split_ifs at gone ⊢
        exact none q' gone
  | @other slept woken m m' before sound kept new ih =>
      obtain ⟨s, r, n, sum, none⟩ := ih
      obtain ⟨t, r', n'⟩ := sound
      refine ⟨t, r', n', fun q nodes queue => ?_, fun q gone => ?_⟩
      · rcases new q nodes (r'.queued_iff.mpr queue) with was | rfl
        · exact sum q nodes (r.queued_iff.mp was)
        · cases before : s.queues q with
          | none =>
              obtain ⟨first, second⟩ := none q before
              rw [first, second]
              rfl
          | some l =>
              have stays := r'.queued_iff.mp (kept q l (r.queued_iff.mpr before))
              obtain rfl : l = [] := Option.some.inj (stays.symm.trans queue)
              exact sum q [] before
      · cases before : s.queues q with
        | none => exact none q before
        | some l =>
            have stays := r'.queued_iff.mp (kept q l (r.queued_iff.mpr before))
            rw [gone] at stays
            cases stays

end History

/-- The threads that slept on a queue are those that were woken and then those still in it, each in the
order they slept, and `thread_wakeup` goes on in that order. -/
theorem wait_queue_fifo {slept woken : Nat → List Nat} {m : Memory} {q : Nat} {ready : List Nat} (h : History slept woken m)
    (queue : m.queues q ≠ none) (was : m.Ready ready) :
    ∃ sleepers, m.Queued q sleepers ∧ slept q = woken q ++ sleepers ∧ WakesInOrder m q sleepers ready := by
  obtain ⟨s, r, n, sum, -⟩ := h.ledger
  obtain ⟨_, _, laid⟩ := id r
  obtain ⟨nodes, found⟩ := Option.ne_none_iff_exists'.mp (mt (laid.allocated q).mpr queue)
  refine ⟨nodes, r.queued_iff.mpr found, sum q nodes found, ?_⟩
  rw [← r.ready_iff.mp was]
  exact r.wakesInOrder n found

def idle : State :=
  (waitQueueCreate (threadCreate true (threadCreate true (threadCreate true threadInit)))).1

def idleMemory : Memory where
  totalList := idle.totalList
  currentThread := 0
  readyList := some 0
  endOfReady := some 2
  readyNodes := ((Heap.empty.alloc ⟨1, none, some 1⟩).alloc ⟨2, some 0, some 2⟩).alloc ⟨3, some 1, none⟩
  waitNodes := .empty
  queues := Function.update (fun _ => none) 0 (some ⟨none, none⟩)
  interrupts := true
  callStack := []
  rax := 3

theorem idleMemory_represents : Represents idleMemory idle := by
  refine ⟨[0, 1, 2], fun _ => [], ?_⟩
  have allocated (q : Nat) : (q = 0 ∧ idle.queues q = some [] ∧ idleMemory.queues q = some ⟨none, none⟩) ∨
      (q ≠ 0 ∧ idle.queues q = none ∧ idleMemory.queues q = none) := by
    by_cases first : q = 0
    · subst first
      exact Or.inl ⟨rfl, rfl, rfl⟩
    · have unused : Function.update (fun _ => (none : Option WaitQueue)) 0 (some ⟨none, none⟩) q = none :=
        Function.update_of_ne first _ _
      exact Or.inr ⟨first, Function.update_of_ne first _ _, unused⟩
  refine ⟨rfl, rfl, rfl, rfl, rfl, ⟨⟨⟨rfl, rfl, rfl, rfl⟩, ⟨rfl, rfl, rfl, rfl⟩, by decide⟩, rfl⟩, fun q => ?_,
    fun q wq nodes here there => ?_, fun _ _ => rfl, fun _ _ _ member => absurd member List.not_mem_nil⟩
  · rcases allocated q with ⟨-, here, there⟩ | ⟨-, here, there⟩ <;> simp [here, there]
  · rcases allocated q with ⟨-, list, queue⟩ | ⟨-, -, queue⟩
    · obtain rfl := Option.some.inj (queue.symm.trans here)
      obtain rfl := Option.some.inj (list.symm.trans there)
      exact .nil _
    · rw [queue] at here
      cases here

theorem idleMemory_history : History (fun _ => []) (fun _ => []) idleMemory := by
  have r := idleMemory_represents
  refine .start ⟨idle, r, (((Named.init.threadCreate true).threadCreate true).threadCreate true).queueCreate⟩ fun q l there => ?_
  have here := r.queued_iff.mp there
  by_cases first : q = 0
  · subst first
    exact (Option.some.inj here).symm
  · have unused : idle.queues q = none := Function.update_of_ne first _ _
    rw [unused] at here
    cases here

theorem History.sleeps {slept woken : Nat → List Nat} {m : Memory} {s t : State} {nodes : List Nat} {q : Nat}
    (before : History slept woken m) (r : Represents m s) (queue : s.queues q = some nodes) (others : s.readyList ≠ [])
    (run : threadSleep (some q) s = .ok t) :
    ∃ m', m.threadSleep (some q) = .ok m' ∧ Represents m' t ∧
      History (Function.update slept q (slept q ++ [s.currentThread])) woken m' := by
  obtain ⟨_, _, laid⟩ := id r
  obtain ⟨m', ran, r'⟩ := r.threadSleep queue run
  have asleep := before.sleep (mt laid.readyList_none.mp others) ran
  rw [laid.currentThread] at asleep
  exact ⟨m', ran, r', asleep⟩

theorem wait_queue_fifo_three : ∃ m₁ m₂ m₃ m₄ m₅ : Memory, idleMemory.threadSleep (some 0) = .ok m₁ ∧
    m₁.threadSleep (some 0) = .ok m₂ ∧ m₂.threadSleep (some 0) = .ok m₃ ∧ WakesInOrder m₃ 0 [0, 1, 2] [] ∧
    m₃.threadWakeup (some 0) 0 = .ok m₄ ∧ WakesInOrder m₄ 0 [1, 2] [0] ∧
    m₄.threadWakeup (some 0) 1 = .ok m₅ ∧ WakesInOrder m₅ 0 [] [0, 1, 2] := by
  obtain ⟨m₁, run₁, r₁, h₁⟩ := idleMemory_history.sleeps (q := 0) idleMemory_represents rfl (List.cons_ne_nil _ _) rfl
  obtain ⟨m₂, run₂, r₂, h₂⟩ := h₁.sleeps (q := 0) r₁ rfl (List.cons_ne_nil _ _) rfl
  obtain ⟨m₃, run₃, r₃, h₃⟩ := h₂.sleeps (q := 0) r₂ rfl (List.cons_ne_nil _ _) rfl
  have used {m : Memory} {l : List Nat} (queue : m.Queued 0 l) : m.queues 0 ≠ none := by
    obtain ⟨wq, _, found, -⟩ := queue
    rw [found]
    exact Option.some_ne_none wq
  have ready₃ : m₃.Ready [] := r₃.ready_iff.mpr rfl
  obtain ⟨l₃, -, slept₃, wakes₃⟩ := wait_queue_fifo h₃ (used (r₃.queued_iff.mpr rfl)) ready₃
  obtain rfl : l₃ = [0, 1, 2] := slept₃.symm
  obtain ⟨m₄, run₄, one⟩ := wakes₃.one 0 [1, 2] rfl
  have h₄ := h₃.wakeup run₄ ready₃ one.ready
  obtain ⟨l₄, -, slept₄, wakes₄⟩ := wait_queue_fifo h₄ (used one.queue) one.ready
  obtain rfl : l₄ = [1, 2] := (List.cons.inj slept₄).2.symm
  obtain ⟨m₅, run₅, every⟩ := wakes₄.every (List.cons_ne_nil _ _)
  have h₅ := h₄.wakeup run₅ one.ready every.ready
  obtain ⟨l₅, -, slept₅, wakes₅⟩ := wait_queue_fifo h₅ (used every.queue) every.ready
  obtain rfl : l₅ = [] := List.append_cancel_left (slept₅.symm : [0, 1, 2] ++ l₅ = [0, 1, 2] ++ [])
  exact ⟨m₁, m₂, m₃, m₄, m₅, run₁, run₂, run₃, wakes₃, run₄, wakes₄, run₅, wakes₅⟩

end OperatingSystem.Threads
