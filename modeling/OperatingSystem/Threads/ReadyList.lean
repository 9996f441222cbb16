import OperatingSystem.Threads.Fifo
import OperatingSystem.Threads.ReadyNodes

namespace OperatingSystem.Threads

open Heap Linked

namespace Memory

variable {m : Memory} {cells l xs ys as bs : List Nat} {head x a i : Nat} {iter : Option Nat}

def Numbered (m : Memory) (l : List Nat) : Prop := ∀ i ∈ l, (m.totalList i).threadID = i

section Unlinking

theorem deleteNode_eq_unlink {n : Node Nat} (here : m.readyNodes.cells x = some n) : m.deleteNode x = m.unlink n.data (some x) := by
  have found := read_eq_ok.mpr here
  rw [deleteNode, found, Result.ok_bind, unlink]
  refine bind_congr fun head => bind_congr fun first => ?_
  split_ifs
  · rfl
  refine bind_congr fun tail => bind_congr fun last => ?_
  split_ifs
  · rfl
  rw [show pointer (some x) = .ok x from rfl, Result.ok_bind, found, Result.ok_bind]

theorem unlink_first {n : Node Nat} (start : m.readyList = some head) (here : m.readyNodes.cells head = some n)
    (iter iter' : Option Nat) : m.unlink n.data iter = m.unlink n.data iter' := by
  simp only [unlink, start, pointer, read_eq_ok.mpr here, Result.ok_bind, if_true]

theorem unlink_head (c : Chain m.readyNodes m.readyList m.endOfReady (head :: cells) (a :: l)) (iter : Option Nat) :
    ∃ nodes first last, m.unlink a iter = .ok { m with readyNodes := nodes, readyList := first, endOfReady := last } ∧
      Chain nodes first last cells l := by
  obtain ⟨nodes, first, last, run, c'⟩ := deleteNode_head c
  refine ⟨nodes, first, last, ?_, c'⟩
  have start : m.readyList = some head := c.linked.head_of_cons
  obtain ⟨n, here, rfl⟩ := dataIn_eq_some.mp (List.cons.inj c.holds).1
  rw [← run, deleteNode_eq_unlink here]
  exact unlink_first start here iter (some head)

theorem first_other (c : Chain m.readyNodes m.readyList m.endOfReady (xs ++ x :: ys) (as ++ a :: bs)) (place : xs.length = as.length)
    (behind : xs ≠ []) (numbered : m.Numbered (as ++ a :: bs)) (nodup : (as ++ a :: bs).Nodup) :
    ∃ head n, m.readyList = some head ∧ m.readyNodes.cells head = some n ∧ (m.totalList a).threadID ≠ (m.totalList n.data).threadID := by
  obtain ⟨head, cells, rfl⟩ := List.exists_cons_of_ne_nil behind
  obtain ⟨a₀, as, rfl⟩ := List.exists_cons_of_length_eq_add_one place.symm
  obtain ⟨n, first, data⟩ := dataIn_eq_some.mp (List.cons.inj c.holds).1
  refine ⟨head, n, c.linked.head_of_cons, first, ?_⟩
  rw [data, numbered a (by simp), numbered a₀ (by simp)]
  rintro rfl
  exact (List.nodup_cons.mp nodup).1 (by simp)

theorem unlink_last {y : Nat} (c : Chain m.readyNodes m.readyList m.endOfReady (xs ++ [y] ++ [x]) (as ++ [a]))
    (place : (xs ++ [y]).length = as.length) (numbered : m.Numbered (as ++ [a])) (nodup : (as ++ [a]).Nodup) (iter : Option Nat) :
    ∃ nodes first last, m.unlink a iter = .ok { m with readyNodes := nodes, readyList := first, endOfReady := last } ∧
      Chain nodes first last (xs ++ [y]) as := by
  obtain ⟨head, n₀, start, first, other⟩ := first_other c place (by simp) numbered nodup
  obtain ⟨n, here, data⟩ := dataIn_eq_some.mp (c.data_at place)
  obtain ⟨b, -, before⟩ := c.used (x := y) (by simp)
  have ends : m.endOfReady = some x := c.linked.tail_of_snoc
  have back : n.prv = some y := by
    have path := c.linked.backward
    rw [show (xs ++ [y] ++ [x]).reverse = x :: y :: xs.reverse by simp] at path
    exact (linkIn_eq here).symm.trans path.2.1
  have shorter := (show xs ++ [y] ++ [x] = xs ++ [y, x] by simp) ▸ c
  refine ⟨(m.readyNodes.setNext y none).free x, m.readyList, some y, ?_, shorter.drop_last⟩
  simp only [unlink, start, ends, pointer, read_eq_ok.mpr first, read_eq_ok.mpr here, Result.ok_bind, if_neg other, data, if_true,
    back, store_next before]
  rfl

theorem unlink_middle {y z : Nat} (c : Chain m.readyNodes m.readyList m.endOfReady (xs ++ [y] ++ x :: z :: ys) (as ++ a :: bs))
    (place : (xs ++ [y]).length = as.length) (numbered : m.Numbered (as ++ a :: bs)) (nodup : (as ++ a :: bs).Nodup) :
    ∃ nodes first last, m.unlink a (some x) = .ok { m with readyNodes := nodes, readyList := first, endOfReady := last } ∧
      Chain nodes first last (xs ++ [y] ++ z :: ys) (as ++ bs) := by
  obtain ⟨head, n₀, start, first, other⟩ := first_other c place (by simp) numbered nodup
  obtain ⟨n, here, -⟩ := dataIn_eq_some.mp (c.data_at place)
  have length := c.length_eq
  simp only [List.length_append, List.length_cons] at length place
  obtain ⟨zs, tail, shape⟩ : ∃ zs tail, z :: ys = zs ++ [tail] := ⟨_, _, (List.dropLast_append_getLast (List.cons_ne_nil z ys)).symm⟩
  obtain ⟨cs, e, rfl⟩ : ∃ cs e, bs = cs ++ [e] := by
    refine ⟨_, _, (List.dropLast_append_getLast (l := bs) ?_).symm⟩
    rintro rfl
    simp only [List.length_nil] at length place
    omega
  have split : Chain m.readyNodes m.readyList m.endOfReady ((xs ++ [y] ++ x :: zs) ++ [tail]) ((as ++ a :: cs) ++ [e]) := by
    rw [shape] at c
    simpa using c
  have ends : m.endOfReady = some tail := split.linked.tail_of_snoc
  have place' : (xs ++ [y] ++ x :: zs).length = (as ++ a :: cs).length := by
    have total := split.length_eq
    simp only [List.length_append, List.length_cons, List.length_nil] at total ⊢
    omega
  obtain ⟨t, final, data⟩ := dataIn_eq_some.mp (split.data_at place')
  have apart : (m.totalList a).threadID ≠ (m.totalList t.data).threadID := by
    rw [data, numbered a (by simp), numbered e (by simp)]
    rintro rfl
    exact (List.nodup_cons.mp (List.nodup_append.mp nodup).2.1).1 (by simp)
  have c : Chain m.readyNodes m.readyList m.endOfReady (xs ++ y :: x :: z :: ys) (as ++ a :: (cs ++ [e])) := by simpa using c
  obtain ⟨next, prv⟩ := c.linked.next_of_middle
  obtain ⟨b, -, before⟩ := c.used (x := y) (by simp)
  obtain ⟨d, -, after⟩ := c.used (x := z) (by simp)
  have following : n.next = some z := (linkIn_eq here).symm.trans next
  have preceding : n.prv = some y := (linkIn_eq here).symm.trans prv
  have set : (m.readyNodes.setNext y (some z)).dataIn z = some d := by simpa using after
  refine ⟨((m.readyNodes.setNext y (some z)).setPrv z (some y)).free x, m.readyList, m.endOfReady, ?_,
    by simpa using c.cut (by simpa using place)⟩
  simp only [unlink, start, ends, pointer, read_eq_ok.mpr first, read_eq_ok.mpr here, read_eq_ok.mpr final, Result.ok_bind, if_neg other,
    if_neg apart, following, preceding, store_next before, store_prv set]
  rfl

theorem unlink_eq (c : Chain m.readyNodes m.readyList m.endOfReady (xs ++ x :: ys) (as ++ a :: bs)) (place : xs.length = as.length)
    (numbered : m.Numbered (as ++ a :: bs)) (nodup : (as ++ a :: bs).Nodup) (found : iter = some x ∨ xs = [] ∨ ys = []) :
    ∃ nodes first last, m.unlink a iter = .ok { m with readyNodes := nodes, readyList := first, endOfReady := last } ∧
      Chain nodes first last (xs ++ ys) (as ++ bs) := by
  rcases xs.eq_nil_or_concat' with rfl | ⟨front, y, rfl⟩
  · obtain rfl : as = [] := List.length_eq_zero_iff.mp place.symm
    exact unlink_head c iter
  · cases ys with
    | nil =>
        obtain rfl : bs = [] := by
          have length := c.length_eq
          simp only [List.length_append, List.length_cons, List.length_nil] at length place
          exact List.length_eq_zero_iff.mp (by omega)
        rw [List.append_nil, List.append_nil]
        exact unlink_last c place numbered nodup iter
    | cons z zs =>
        obtain rfl : iter = some x := found.resolve_right (by simp)
        exact unlink_middle c place numbered nodup

end Unlinking

section Walking

def follow (m : Memory) (link : Node Nat → Option Nat) : Nat → Option Nat → Except Trap (List Nat)
  | 0, _ => .error .endless
  | _ + 1, none => .ok []
  | fuel + 1, some x => do
      let here ← m.readyNodes.read x
      let rest ← m.follow link fuel (link here)
      return (m.totalList here.data).threadID :: rest

variable {p : Option Nat} {fuel : Nat} {link : Node Nat → Option Nat} {tid : Tid}

theorem follow_eq (path : Path (linkIn link m.readyNodes) p cells none) (holds : cells.map m.readyNodes.dataIn = l.map some)
    (numbered : m.Numbered l) (enough : cells.length < fuel) : m.follow link fuel p = .ok l := by
  induction cells generalizing p l fuel with
  | nil =>
      obtain ⟨fuel, rfl⟩ := Nat.exists_eq_succ_of_ne_zero (Nat.ne_zero_of_lt enough)
      obtain rfl : p = none := path
      obtain rfl : l = [] := List.map_eq_nil_iff.mp holds.symm
      rfl
  | cons x cells ih =>
      obtain ⟨fuel, rfl⟩ := Nat.exists_eq_succ_of_ne_zero (Nat.ne_zero_of_lt enough)
      obtain ⟨rfl, tail⟩ := path
      cases l with
      | nil => cases holds
      | cons a l =>
          obtain ⟨first, others⟩ := List.cons.inj holds
          obtain ⟨n, here, rfl⟩ := dataIn_eq_some.mp first
          rw [linkIn_eq here] at tail
          rw [follow, read_eq_ok.mpr here, Result.ok_bind,
            ih tail others (fun i member => numbered i (List.mem_cons_of_mem _ member)) (Nat.lt_of_succ_lt_succ enough), Result.ok_bind,
            numbered n.data List.mem_cons_self]
          rfl

theorem searchRL_eq (tid : Tid) (path : Path m.readyNodes.nextIn p cells none) (holds : cells.map m.readyNodes.dataIn = l.map some)
    (numbered : m.Numbered l) (enough : cells.length < fuel) :
    (∃ (as bs xs ys : List Nat) (a x : Nat), l = as ++ a :: bs ∧ cells = xs ++ x :: ys ∧ xs.length = as.length ∧ (a : Tid) = tid ∧
      m.searchRL tid fuel p = .ok (some x)) ∨ (∀ a ∈ l, (a : Tid) ≠ tid) ∧ m.searchRL tid fuel p = .ok none := by
  induction cells generalizing p l fuel with
  | nil =>
      obtain ⟨fuel, rfl⟩ := Nat.exists_eq_succ_of_ne_zero (Nat.ne_zero_of_lt enough)
      obtain rfl : p = none := path
      obtain rfl : l = [] := List.map_eq_nil_iff.mp holds.symm
      exact .inr ⟨fun a member => absurd member List.not_mem_nil, rfl⟩
  | cons x cells ih =>
      obtain ⟨fuel, rfl⟩ := Nat.exists_eq_succ_of_ne_zero (Nat.ne_zero_of_lt enough)
      obtain ⟨rfl, tail⟩ := path
      cases l with
      | nil => cases holds
      | cons a l =>
          obtain ⟨first, others⟩ := List.cons.inj holds
          obtain ⟨n, here, rfl⟩ := dataIn_eq_some.mp first
          rw [show m.readyNodes.nextIn x = n.next from linkIn_eq here] at tail
          have entered : m.searchRL tid (fuel + 1) (some x) =
              if (n.data : Tid) = tid then .ok (some x) else m.searchRL tid fuel n.next := by
            rw [searchRL, read_eq_ok.mpr here, Result.ok_bind, numbered n.data List.mem_cons_self]
            rfl
          rw [entered]
          by_cases hit : (n.data : Tid) = tid
          · exact .inl ⟨[], l, [], cells, n.data, x, rfl, rfl, rfl, hit, if_pos hit⟩
          · rw [if_neg hit]
            rcases ih tail others (fun i member => numbered i (List.mem_cons_of_mem _ member)) (Nat.lt_of_succ_lt_succ enough) with
              ⟨as, bs, xs, ys, a, y, rfl, rfl, place, same, found⟩ | ⟨absent, missed⟩
            · exact .inl ⟨n.data :: as, bs, x :: xs, ys, a, y, rfl, rfl, congrArg (· + 1) place, same, found⟩
            · refine .inr ⟨fun a member => ?_, missed⟩
              rcases List.mem_cons.mp member with rfl | behind
              · exact hit
              · exact absent a behind

theorem killWalk_of_searchRL (found : m.searchRL tid fuel p = .ok (some x)) : m.killWalk tid fuel p = .ok x := by
  induction fuel generalizing p with
  | zero => cases found
  | succ fuel ih =>
      cases p with
      | none => cases found
      | some iter =>
          rw [searchRL] at found
          obtain ⟨here, read, found⟩ := Result.bind_eq_ok.mp found
          rw [killWalk, pointer, Result.ok_bind, read, Result.ok_bind]
          split_ifs at found ⊢ with hit
          · obtain rfl := Option.some.inj (Except.ok.inj found)
            rfl
          · exact ih found

end Walking

section Yielding

def Requeues (m : Memory) : Prop :=
  (m.totalList m.currentThread).status = .running ∧ (m.totalList m.currentThread).exist = true

instance : Decidable m.Requeues := inferInstanceAs (Decidable (_ ∧ _))

def Leaves (m : Memory) (i : Nat) : Prop :=
  (m.totalList i).exist = true ∧ ¬ ((m.totalList i).threadID = 0 ∧ (m.totalList i).status = .exited)

instance : Decidable (m.Leaves i) := inferInstanceAs (Decidable (_ ∧ _))

structure Alike (t u : Nat → Thread) : Prop where
  threadID : ∀ i, (t i).threadID = (u i).threadID
  exist : ∀ i, (t i).exist = (u i).exist
  exited : ∀ i, (t i).status = .exited ↔ (u i).status = .exited

namespace Alike

variable {t u v : Nat → Thread}

theorem refl (t : Nat → Thread) : Alike t t := ⟨fun _ => rfl, fun _ => rfl, fun _ => Iff.rfl⟩

theorem trans (first : Alike t u) (second : Alike u v) : Alike t v :=
  ⟨fun i => (first.threadID i).trans (second.threadID i), fun i => (first.exist i).trans (second.exist i),
    fun i => (first.exited i).trans (second.exited i)⟩

theorem modifyThread (m : Memory) (i : Nat) {f : Thread → Thread} (threadID : ∀ t, (f t).threadID = t.threadID)
    (exist : ∀ t, (f t).exist = t.exist) (exited : (f (m.totalList i)).status = .exited ↔ (m.totalList i).status = .exited) :
    Alike (m.modifyThread i f).totalList m.totalList := by
  have there (j : Nat) : (m.modifyThread i f).totalList j = if j = i then f (m.totalList i) else m.totalList j :=
    Function.update_apply _ _ _ _
  refine ⟨fun j => ?_, fun j => ?_, fun j => ?_⟩ <;> rw [there] <;> split_ifs with same
  · rw [same, threadID]
  · rfl
  · rw [same, exist]
  · rfl
  · rw [same, exited]
  · rfl

end Alike

theorem requeueCaller_eq (c : Chain m.readyNodes m.readyList m.endOfReady cells l) (next : Nat) :
    ∃ table nodes first last more, m.requeueCaller next =
        .ok { m with totalList := table, readyNodes := nodes, readyList := first, endOfReady := last } ∧
      Alike table m.totalList ∧ Chain nodes first last (cells ++ more) (l ++ if m.Requeues then [m.currentThread] else []) := by
  by_cases running : (m.totalList m.currentThread).status = .running
  · have readied : Alike (m.modifyThread m.currentThread fun t => { t with status := .ready }).totalList m.totalList :=
      Alike.modifyThread m _ (fun _ => rfl) (fun _ => rfl) (by simp [running])
    by_cases exist : (m.totalList m.currentThread).exist = true
    · have still : ((m.modifyThread m.currentThread fun t => { t with status := .ready }).totalList m.currentThread).exist = true :=
        (readied.exist _).trans exist
      rw [if_pos (show m.Requeues from ⟨running, exist⟩)]
      let waits := m.modifyThread m.currentThread fun t => { t with status := .ready }
      let saved := waits.modifyThread m.currentThread fun t => { t with nextThreadID := (waits.totalList next).threadID }
      let marked := saved.modifyThread (waits.totalList next).threadID fun t => { t with preThreadID := m.currentThread }
      let built := (marked.buildNodeRL m.currentThread).1
      have saves : Alike saved.totalList waits.totalList := Alike.modifyThread waits _ (fun _ => rfl) (fun _ => rfl) Iff.rfl
      have marks : Alike marked.totalList saved.totalList := Alike.modifyThread saved _ (fun _ => rfl) (fun _ => rfl) Iff.rfl
      have alike : Alike built.totalList m.totalList := (marks.trans saves).trans readied
      have kept : Chain built.readyNodes built.readyList built.endOfReady cells l := by
        refine c.frame fun y member => alloc_of_ne ?_
        rintro rfl
        exact c.fresh member
      have here : built.readyNodes.cells m.readyNodes.next = some ⟨m.currentThread, none, none⟩ := alloc_next
      cases start : m.readyList with
      | none =>
          rw [start] at c
          obtain ⟨rfl, rfl, -⟩ := c.of_head_none
          refine ⟨built.totalList, built.readyNodes, some m.readyNodes.next, some m.readyNodes.next, [m.readyNodes.next], ?_, alike, .single here⟩
          simp only [requeueCaller, if_pos running, if_pos still, start]
          rfl
      | some head =>
          obtain ⟨nodes, first, last, run, c'⟩ := pushbackRL_eq kept (dataIn_eq_some.mpr ⟨_, here, rfl⟩) c.fresh
          refine ⟨built.totalList, nodes, first, last, [m.readyNodes.next], ?_, alike, c'⟩
          simp only [requeueCaller, if_pos running, if_pos still, start]
          exact run
    · have still : ¬ ((m.modifyThread m.currentThread fun t => { t with status := .ready }).totalList m.currentThread).exist = true := by
        rwa [readied.exist]
      rw [if_neg (fun requeues : m.Requeues => exist requeues.2), List.append_nil]
      refine ⟨_, m.readyNodes, m.readyList, m.endOfReady, [], ?_, readied, by rwa [List.append_nil]⟩
      simp only [requeueCaller, if_pos running, if_neg still]
      rfl
  · rw [if_neg (fun requeues : m.Requeues => running requeues.1), List.append_nil]
    exact ⟨_, m.readyNodes, m.readyList, m.endOfReady, [], if_neg running, Alike.refl _, by rwa [List.append_nil]⟩

def Lists (m : Memory) (l : List Nat) : Prop :=
  (∃ cells, Chain m.readyNodes m.readyList m.endOfReady cells l) ∧ l.Nodup ∧ m.Numbered l

theorem threadID_modifyThread {f : Thread → Thread} (kept : ∀ t, (f t).threadID = t.threadID) (j : Nat) :
    ((m.modifyThread i f).totalList j).threadID = (m.totalList j).threadID := by
  unfold modifyThread
  dsimp only
  rw [Function.update_apply]
  split_ifs with same
  · rw [kept, same]
  · rfl

theorem switchTo_threadID (caller next j : Nat) : ((m.switchTo caller next).totalList j).threadID = (m.totalList j).threadID := by
  simp only [switchTo]
  refine Eq.trans (threadID_modifyThread ?_ j) (threadID_modifyThread ?_ j)
  · exact fun _ => rfl
  · exact fun _ => rfl

theorem lists_switchTo (lists : m.Lists l) (caller next : Nat) : (m.switchTo caller next).Lists l :=
  ⟨lists.1, lists.2.1, fun i member => (switchTo_threadID caller next i).trans (lists.2.2 i member)⟩

def requeued (m : Memory) (l : List Nat) : List Nat := l ++ if m.Requeues then [m.currentThread] else []

/-- Where the node of the next thread is: `thread_yield` has it from its search, or it is the first, or the caller's own. -/
def Located (m : Memory) (cells l : List Nat) (next : Nat) (iter : Option Nat) : Prop :=
  (∃ (as bs xs ys : List Nat) (x : Nat), l = as ++ next :: bs ∧ cells = xs ++ x :: ys ∧ xs.length = as.length ∧ (iter = some x ∨ as = [])) ∨
    m.Requeues ∧ next = m.currentThread

theorem located_requeued {more : List Nat} {next : Nat} (located : m.Located cells l next iter) (lengths : cells.length = l.length)
    (more_length : (cells ++ more).length = (m.requeued l).length) :
    ∃ (as bs xs ys : List Nat) (x : Nat), m.requeued l = as ++ next :: bs ∧ cells ++ more = xs ++ x :: ys ∧ xs.length = as.length ∧
      (iter = some x ∨ xs = [] ∨ ys = []) := by
  rcases located with ⟨as, bs, xs, ys, x, rfl, rfl, place, found⟩ | ⟨requeues, rfl⟩
  · refine ⟨as, bs ++ _, xs, ys ++ more, x, List.append_assoc _ _ _, List.append_assoc _ _ _, place, ?_⟩
    refine found.imp_right fun front => Or.inl ?_
    rw [front] at place
    exact List.length_eq_zero_iff.mp place
  · rw [requeued, if_pos requeues, List.length_append, List.length_append, lengths] at more_length
    obtain ⟨x, rfl⟩ := List.length_eq_one_iff.mp (Nat.add_left_cancel more_length)
    exact ⟨l, [], cells, [], x, by rw [requeued, if_pos requeues], rfl, lengths, Or.inr (Or.inr rfl)⟩

theorem yieldBlock_eq {next : Nat} (c : Chain m.readyNodes m.readyList m.endOfReady cells l) (nodup : (m.requeued l).Nodup)
    (numbered : m.Numbered (m.requeued l)) (located : m.Located cells l next iter) (enabled : Bool) :
    ∃ m', m.yieldBlock enabled next iter = .ok m' ∧
      m'.Lists (if m.Leaves next then (m.requeued l).erase next else m.requeued l) := by
  let saved := m.modifyThread m.currentThread fun t =>
    { t with threadInfo := .afterYield enabled false next (iter.map fun _ => next) :: m.callStack }
  have saves : Alike saved.totalList m.totalList := Alike.modifyThread m _ (fun _ => rfl) (fun _ => rfl) Iff.rfl
  have same : saved.Requeues ↔ m.Requeues := by
    have here : saved.totalList m.currentThread = { m.totalList m.currentThread with
        threadInfo := .afterYield enabled false next (iter.map fun _ => next) :: m.callStack } := Function.update_self _ _ _
    rw [Requeues, show saved.currentThread = m.currentThread from rfl, here, Requeues]
  obtain ⟨table, nodes, first, last, more, requeue, alike, c'⟩ := requeueCaller_eq (m := saved) c next
  have alike := alike.trans saves
  let u : Memory := { saved with totalList := table, readyNodes := nodes, readyList := first, endOfReady := last }
  have c' : Chain u.readyNodes u.readyList u.endOfReady (cells ++ more) (m.requeued l) := by
    rw [requeued, ← if_congr same rfl rfl]
    exact c'
  have numbered : u.Numbered (m.requeued l) := fun i member => (alike.threadID i).trans (numbered i member)
  have entered : m.yieldBlock enabled next iter =
      if !(u.totalList next).exist then
        .ok { u with
          currentThread := (u.totalList next).threadID
          callStack := .exitCall :: .afterExit m.currentThread next :: u.callStack }
      else if (u.totalList next).threadID = 0 ∧ (u.totalList next).status = .exited then .ok (u.switchTo m.currentThread next)
      else u.unlink next iter >>= fun v => .ok (v.switchTo m.currentThread next) := by
    rw [yieldBlock]
    dsimp only
    rw [show saved.requeueCaller next = .ok u from requeue]
    rfl
  rw [entered]
  have leaves : m.Leaves next ↔
      (u.totalList next).exist = true ∧ ¬ ((u.totalList next).threadID = 0 ∧ (u.totalList next).status = .exited) := by
    rw [Leaves, show u.totalList = table from rfl, alike.exist, alike.threadID, alike.exited]
  by_cases exist : (u.totalList next).exist = true
  · rw [exist, if_neg (by decide)]
    by_cases stays : (u.totalList next).threadID = 0 ∧ (u.totalList next).status = .exited
    · rw [if_pos stays, if_neg fun left => (leaves.mp left).2 stays]
      exact ⟨_, rfl, lists_switchTo ⟨⟨_, c'⟩, nodup, numbered⟩ _ _⟩
    · rw [if_neg stays, if_pos (leaves.mpr ⟨exist, stays⟩)]
      obtain ⟨as, bs, xs, ys, x, shape, shape', place, found⟩ := located_requeued located c.length_eq c'.length_eq
      rw [shape, shape'] at c'
      rw [shape] at nodup numbered ⊢
      obtain ⟨nodes', first', last', unlinked, c''⟩ := unlink_eq c' place numbered nodup found
      have absent : next ∉ as := fun member => List.disjoint_of_nodup_append nodup member List.mem_cons_self
      rw [unlinked, List.erase_append_right _ absent, List.erase_cons_head]
      refine ⟨_, rfl, lists_switchTo ⟨⟨_, c''⟩, ?_, fun i member => ?_⟩ _ _⟩
      · exact nodup.sublist ((List.sublist_cons_self next bs).append_left as)
      · exact numbered i ((List.sublist_cons_self next bs).append_left as |>.subset member)
  · rw [if_pos (by simpa using exist), if_neg fun left => exist (leaves.mp left).1]
    exact ⟨_, rfl, ⟨_, c'⟩, nodup, numbered⟩

def picks (m : Memory) (l : List Nat) (want_tid : Tid) : Option Nat :=
  if want_tid = THREAD_ANY then l.head?
  else if want_tid = THREAD_SELF ∨ want_tid = m.currentThread then some m.currentThread
  else l.find? fun i => (i : Tid) = want_tid

theorem chosen_eq {want_tid : Tid} (c : Chain m.readyNodes m.readyList m.endOfReady cells l) (nodup : l.Nodup) (numbered : m.Numbered l)
    (self : want_tid = THREAD_SELF ∨ want_tid = m.currentThread → m.Requeues) :
    m.chosen want_tid = .ok none ∧ m.picks l want_tid = none ∨
      ∃ next iter, m.chosen want_tid = .ok (some (next, iter)) ∧ m.picks l want_tid = some next ∧ m.Located cells l next iter := by
  unfold chosen picks
  by_cases any : want_tid = THREAD_ANY
  · rw [if_pos any, if_pos any]
    cases start : m.readyList with
    | none =>
        rw [start] at c
        obtain ⟨-, rfl, -⟩ := c.of_head_none
        exact .inl ⟨rfl, rfl⟩
    | some head =>
        rw [start] at c
        obtain ⟨cs, a, l', rfl, rfl, holds⟩ := c.of_head_some
        obtain ⟨n, here, rfl⟩ := dataIn_eq_some.mp holds
        refine .inr ⟨n.data, none, ?_, rfl, .inl ⟨[], l', [], cs, head, rfl, rfl, rfl, .inr rfl⟩⟩
        dsimp only
        rw [read_eq_ok.mpr here]
        rfl
  · rw [if_neg any, if_neg any]
    by_cases own : want_tid = THREAD_SELF ∨ want_tid = m.currentThread
    · rw [if_pos own, if_pos own]
      exact .inr ⟨_, _, rfl, rfl, .inr ⟨self own, rfl⟩⟩
    · have enough : cells.length < m.readyNodes.next + 1 := by
        rw [c.length_eq]
        exact Nat.lt_succ_of_le c.length_le
      rw [if_neg own, if_neg own]
      rcases searchRL_eq want_tid c.linked.forward c.holds numbered enough with
        ⟨as, bs, xs, ys, a, x, rfl, rfl, place, same, found⟩ | ⟨absent, missed⟩
      · obtain ⟨n, here, rfl⟩ := dataIn_eq_some.mp (c.data_at place)
        refine .inr ⟨n.data, some x, ?_, ?_, .inl ⟨as, bs, xs, ys, x, rfl, rfl, place, .inl rfl⟩⟩
        · rw [found, Result.ok_bind]
          dsimp only
          rw [read_eq_ok.mpr here]
          rfl
        · refine List.find?_eq_some_iff_append.mpr ⟨by simpa using same, as, bs, rfl, fun a member => ?_⟩
          have other : a ≠ n.data := fun hit => List.disjoint_of_nodup_append nodup (hit ▸ member) List.mem_cons_self
          have apart : ¬ (a : Tid) = n.data := fun hit => other (Int.ofNat.inj hit)
          rw [← same]
          simpa using apart
      · refine .inl ⟨?_, ?_⟩
        · rw [missed]
          rfl
        · exact List.find?_eq_none.mpr fun a member => by simpa using absent a member

theorem sweepStacks_table (m : Memory) (i : Nat) : ∃ stack, m.sweepStacks.totalList i = { m.totalList i with stack } := by
  simp only [sweepStacks]
  split_ifs
  · exact ⟨none, rfl⟩
  · exact ⟨_, rfl⟩

theorem requeues_sweepStacks : m.sweepStacks.Requeues ↔ m.Requeues := by
  obtain ⟨stack, same⟩ := m.sweepStacks_table m.currentThread
  rw [Requeues, show m.sweepStacks.currentThread = m.currentThread from rfl, same, Requeues]

theorem leaves_sweepStacks : m.sweepStacks.Leaves i ↔ m.Leaves i := by
  obtain ⟨stack, same⟩ := m.sweepStacks_table i
  rw [Leaves, same, Leaves]

theorem requeued_sweepStacks : m.sweepStacks.requeued l = m.requeued l := by
  rw [requeued, if_congr requeues_sweepStacks rfl rfl, requeued]
  rfl

theorem requeued_nodup (nodup : l.Nodup) (fresh : m.Requeues → m.currentThread ∉ l) : (m.requeued l).Nodup := by
  unfold requeued
  split_ifs with requeues
  · rw [List.nodup_append_comm]
    exact List.nodup_cons.mpr ⟨fresh requeues, nodup⟩
  · rwa [List.append_nil]

theorem threadYield_eq {want_tid : Tid} (lists : m.Lists l)
    (caller : m.Requeues → m.currentThread ∉ l ∧ (m.totalList m.currentThread).threadID = m.currentThread)
    (self : want_tid = THREAD_SELF ∨ want_tid = m.currentThread → m.Requeues) :
    ∃ m', m.threadYield want_tid = .ok m' ∧ m'.Lists (match m.picks l want_tid with
      | none => l
      | some next => if m.Leaves next then (m.requeued l).erase next else m.requeued l) := by
  obtain ⟨⟨cells, c⟩, nodup, numbered⟩ := lists
  rcases chosen_eq (m := { m with interrupts := false }) c nodup numbered self with ⟨chosen, picks⟩ | ⟨next, iter, chosen, picks, located⟩
  · rw [show m.picks l want_tid = none from picks, threadYield, chosen]
    exact ⟨_, rfl, ⟨cells, c⟩, nodup, numbered⟩
  · let swept := { m with interrupts := false }.sweepStacks
    have rest : swept.requeued l = m.requeued l := requeued_sweepStacks
    have nodup : (swept.requeued l).Nodup := rest ▸ requeued_nodup nodup fun requeues => (caller requeues).1
    have numbered : swept.Numbered (swept.requeued l) := by
      intro i member
      obtain ⟨stack, same⟩ := sweepStacks_table { m with interrupts := false } i
      rw [rest, requeued] at member
      rw [same]
      rcases List.mem_append.mp member with listed | own
      · exact numbered i listed
      · split_ifs at own with requeues
        · obtain rfl := List.mem_singleton.mp own
          exact (caller requeues).2
        · cases own
    have located : swept.Located cells l next iter := located.imp_right fun here => ⟨requeues_sweepStacks.mpr here.1, here.2⟩
    obtain ⟨m', run, lists⟩ := yieldBlock_eq (m := swept) c nodup numbered located m.interrupts
    refine ⟨m', ?_, ?_⟩
    · rw [threadYield, chosen]
      exact run
    · rw [rest, if_congr leaves_sweepStacks rfl rfl] at lists
      rw [show m.picks l want_tid = some next from picks]
      exact lists

end Yielding

section Removing

theorem deleteNode_lists (c : Chain m.readyNodes m.readyList m.endOfReady (xs ++ x :: ys) (as ++ a :: bs)) (place : xs.length = as.length)
    (nodup : (as ++ a :: bs).Nodup) (numbered : m.Numbered (as ++ a :: bs)) :
    ∃ m', m.deleteNode x = .ok m' ∧ m'.Lists (as ++ bs) := by
  obtain ⟨n, here, rfl⟩ := dataIn_eq_some.mp (c.data_at place)
  obtain ⟨nodes, first, last, run, c'⟩ := unlink_eq c place numbered nodup (.inl rfl)
  refine ⟨_, (deleteNode_eq_unlink here).trans run, ⟨_, c'⟩, ?_, fun i member => ?_⟩
  · exact nodup.sublist ((List.sublist_cons_self n.data bs).append_left as)
  · exact numbered i ((List.sublist_cons_self n.data bs).append_left as |>.subset member)

theorem pushNew_lists {prv : Option Nat} (lists : m.Lists l) (number : (m.totalList i).threadID = i) (new : i ∉ l) :
    ∃ m', m.pushNew i prv = .ok m' ∧ m'.Lists (l ++ [i]) ∧ m'.totalList = m.totalList := by
  obtain ⟨⟨cells, c⟩, nodup, numbered⟩ := lists
  have kept : Chain (m.readyNodes.alloc ⟨i, prv, none⟩) m.readyList m.endOfReady cells l := by
    refine c.frame fun y member => alloc_of_ne ?_
    rintro rfl
    exact c.fresh member
  obtain ⟨nodes, first, last, run, c'⟩ :=
    pushbackRL_eq (m := { m with readyNodes := m.readyNodes.alloc ⟨i, prv, none⟩ }) kept (dataIn_eq_some.mpr ⟨_, alloc_next, rfl⟩) c.fresh
  refine ⟨_, run, ⟨⟨_, c'⟩, ?_, fun j member => ?_⟩, rfl⟩
  · rw [List.nodup_append_comm]
    exact List.nodup_cons.mpr ⟨new, nodup⟩
  · rcases List.mem_append.mp member with listed | last
    · exact numbered j listed
    · obtain rfl := List.mem_singleton.mp last
      exact number

end Removing

end Memory

open Memory

/-- The calls that change the ready list.  `pushbackRL` comes with the thread of a new node and with what `malloc` left in it;
the others take off the first node, the last one, the one `thread_kill` finds, and the one `thread_yield` chooses. -/
inductive ReadyCall
  | pushbackRL (i : Nat) (prv : Option Nat)
  | deleteFirst
  | deleteLast
  | delete (tid : Nat)
  | yield (want_tid : Tid)

namespace ReadyCall

def run (m : Memory) : ReadyCall → Except Trap Memory
  | pushbackRL i prv => m.pushNew i prv
  | deleteFirst => do m.deleteNode (← pointer m.readyList)
  | deleteLast => do m.deleteNode (← pointer m.endOfReady)
  | delete tid => do m.deleteNode (← m.killWalk tid (m.readyNodes.next + 1) m.readyList)
  | yield want_tid => m.threadYield want_tid

def after (m : Memory) (l : List Nat) : ReadyCall → List Nat
  | pushbackRL i _ => l ++ [i]
  | deleteFirst => l.tail
  | deleteLast => l.dropLast
  | delete tid => l.erase tid
  | yield want_tid =>
      match m.picks l want_tid with
      | none => l
      | some next => if m.Leaves next then (m.requeued l).erase next else m.requeued l

def Legal (m : Memory) (l : List Nat) : ReadyCall → Prop
  | pushbackRL i _ => (m.totalList i).threadID = i ∧ i ∉ l
  | deleteFirst => l ≠ []
  | deleteLast => l ≠ []
  | delete tid => tid ∈ l
  | yield want_tid => (m.Requeues → m.currentThread ∉ l ∧ (m.totalList m.currentThread).threadID = m.currentThread) ∧
      (want_tid = THREAD_SELF ∨ want_tid = m.currentThread → m.Requeues)

theorem run_lists {m : Memory} {l : List Nat} (lists : m.Lists l) (call : ReadyCall) (legal : call.Legal m l) :
    ∃ m', call.run m = .ok m' ∧ m'.Lists (call.after m l) := by
  obtain ⟨⟨cells, c⟩, nodup, numbered⟩ := id lists
  cases call with
  | pushbackRL i prv =>
      obtain ⟨m', ran, lists', -⟩ := pushNew_lists lists legal.1 legal.2
      exact ⟨m', ran, lists'⟩
  | yield want_tid => exact threadYield_eq lists legal.1 legal.2
  | deleteFirst =>
      obtain ⟨a, l, rfl⟩ := List.exists_cons_of_ne_nil legal
      cases cells with
      | nil => cases c.length_eq
      | cons x cells =>
          have whole : Chain m.readyNodes m.readyList m.endOfReady ([] ++ x :: cells) ([] ++ a :: l) := c
          obtain ⟨m', ran, lists'⟩ := deleteNode_lists whole rfl nodup numbered
          refine ⟨m', ?_, lists'⟩
          rw [run, c.linked.head_of_cons]
          exact ran
  | deleteLast =>
      obtain ⟨l, a, rfl⟩ := l.eq_nil_or_concat'.resolve_left legal
      rcases cells.eq_nil_or_concat' with rfl | ⟨cells, x, rfl⟩
      · have none := c.length_eq
        simp at none
      · have place : cells.length = l.length := by simpa using c.length_eq
        obtain ⟨m', ran, lists'⟩ := deleteNode_lists c place nodup numbered
        refine ⟨m', ?_, ?_⟩
        · rw [run, c.linked.tail_of_snoc]
          exact ran
        · rw [after, List.dropLast_concat]
          simpa using lists'
  | delete tid =>
      have enough : cells.length < m.readyNodes.next + 1 := by
        rw [c.length_eq]
        exact Nat.lt_succ_of_le c.length_le
      rcases searchRL_eq (tid : Tid) c.linked.forward c.holds numbered enough with
        ⟨as, bs, xs, ys, a, x, rfl, rfl, place, same, found⟩ | ⟨absent, -⟩
      · obtain rfl : a = tid := Int.ofNat.inj same
        obtain ⟨m', ran, lists'⟩ := deleteNode_lists c place nodup numbered
        have front : a ∉ as := fun member => List.disjoint_of_nodup_append nodup member List.mem_cons_self
        refine ⟨m', ?_, ?_⟩
        · rw [run, killWalk_of_searchRL found]
          exact ran
        · rw [after, List.erase_append_right _ front, List.erase_cons_head]
          exact lists'
      · exact (absent tid legal rfl).elim

end ReadyCall

/-- The sequence that the calls made since `thread_init` leave, when other code changes anything but the list and the identifiers of
the threads on it. -/
inductive Evolves : Memory → List Nat → Prop
  | start {m : Memory} (head : m.readyList = none) (tail : m.endOfReady = none) : Evolves m []
  | call {m m' : Memory} {l : List Nat} {call : ReadyCall} (before : Evolves m l) (legal : call.Legal m l) (run : call.run m = .ok m') :
      Evolves m' (call.after m l)
  | other {m m' : Memory} {l : List Nat} (before : Evolves m l) (nodes : m'.readyNodes = m.readyNodes) (head : m'.readyList = m.readyList)
      (tail : m'.endOfReady = m.endOfReady) (ids : ∀ i ∈ l, (m'.totalList i).threadID = (m.totalList i).threadID) : Evolves m' l

namespace Evolves

variable {m : Memory} {l : List Nat}

theorem lists (run : Evolves m l) : m.Lists l := by
  induction run with
  | @start m head tail =>
      refine ⟨⟨[], ?_⟩, List.nodup_nil, fun i member => absurd member List.not_mem_nil⟩
      rw [head, tail]
      exact .nil _
  | @call m m' l call before legal run ih =>
      obtain ⟨m'', ran, lists⟩ := ReadyCall.run_lists ih call legal
      obtain rfl := Except.ok.inj (run.symm.trans ran)
      exact lists
  | @other m m' l before nodes head tail ids ih =>
      obtain ⟨⟨cells, c⟩, nodup, numbered⟩ := ih
      refine ⟨⟨cells, ?_⟩, nodup, fun i member => (ids i member).trans (numbered i member)⟩
      rw [nodes, head, tail]
      exact c

end Evolves

theorem Memory.Lists.pointers {m : Memory} {l : List Nat} (lists : m.Lists l) :
    (m.readyList = none ↔ l = []) ∧ (m.endOfReady = none ↔ l = []) := by
  obtain ⟨⟨cells, c⟩, -, -⟩ := lists
  have empty : l = [] ↔ cells = [] := by rw [← List.length_eq_zero_iff, ← c.length_eq, List.length_eq_zero_iff]
  rw [empty]
  rcases cells.eq_nil_or_concat' with rfl | ⟨front, x, rfl⟩
  · exact ⟨iff_of_true c.linked.forward rfl, iff_of_true c.linked.backward rfl⟩
  · refine ⟨iff_of_false (fun none => ?_) (by simp), iff_of_false (fun none => ?_) (by simp)⟩
    · rw [none] at c
      exact absurd c.of_head_none.1 (by simp)
    · rw [c.linked.tail_of_snoc] at none
      cases none

/-- `next` leads through the sequence and `prv` through its reverse, both pointers are null when it is empty, and no call on
its nodes follows a null pointer. -/
structure IsSequence (m : Memory) (l : List Nat) : Prop where
  forward : m.follow Node.next (m.readyNodes.next + 1) m.readyList = .ok l
  backward : m.follow Node.prv (m.readyNodes.next + 1) m.endOfReady = .ok l.reverse
  head : m.readyList = none ↔ l = []
  tail : m.endOfReady = none ↔ l = []
  total : ∀ call : ReadyCall, call.Legal m l → ∃ m', call.run m = .ok m'

theorem ready_list_is_sequence {m : Memory} {l : List Nat} (run : Evolves m l) : IsSequence m l := by
  have lists := run.lists
  obtain ⟨⟨cells, c⟩, nodup, numbered⟩ := id lists
  have enough : cells.length < m.readyNodes.next + 1 := by
    rw [c.length_eq]
    exact Nat.lt_succ_of_le c.length_le
  refine ⟨follow_eq c.linked.forward c.holds numbered enough, follow_eq c.linked.backward ?_ (fun i member => ?_) ?_, lists.pointers.1,
    lists.pointers.2, fun call legal => ?_⟩
  · rw [List.map_reverse, c.holds, List.map_reverse]
  · exact numbered i (List.mem_reverse.mp member)
  · rwa [List.length_reverse]
  · obtain ⟨m', ran, -⟩ := ReadyCall.run_lists lists call legal
    exact ⟨m', ran⟩

theorem Evolves.calls {m : Memory} {l : List Nat} (run : Evolves m l) (call : ReadyCall) (legal : call.Legal m l) :
    ∃ m', call.run m = .ok m' ∧ Evolves m' (call.after m l) := by
  obtain ⟨m', ran, -⟩ := ReadyCall.run_lists run.lists call legal
  exact ⟨m', ran, run.call legal ran⟩

def started : Memory := { idleMemory with readyNodes := .empty, readyList := none, endOfReady := none }

theorem started_pushes : ∃ m, [1, 2, 3].foldlM (fun m i => ReadyCall.run m (.pushbackRL i (some 7))) started = .ok m ∧ Evolves m [1, 2, 3] := by
  have start : Evolves started [] := .start rfl rfl
  obtain ⟨m₁, run₁, -, table₁⟩ := @pushNew_lists _ _ 1 (some 7) start.lists rfl (by decide)
  have one : Evolves m₁ [1] := @Evolves.call _ _ _ (.pushbackRL 1 (some 7)) start ⟨rfl, by decide⟩ run₁
  obtain ⟨m₂, run₂, -, table₂⟩ := @pushNew_lists _ _ 2 (some 7) one.lists (by rw [table₁]; rfl) (by decide)
  have two : Evolves m₂ [1, 2] := @Evolves.call _ _ _ (.pushbackRL 2 (some 7)) one ⟨by rw [table₁]; rfl, by decide⟩ run₂
  obtain ⟨m₃, run₃, -, -⟩ := @pushNew_lists _ _ 3 (some 7) two.lists (by rw [table₂, table₁]; rfl) (by decide)
  refine ⟨m₃, ?_, @Evolves.call _ _ _ (.pushbackRL 3 (some 7)) two ⟨by rw [table₂, table₁]; rfl, by decide⟩ run₃⟩
  simp only [List.foldlM_cons, List.foldlM_nil, ReadyCall.run, run₁, run₂, run₃, Result.ok_bind, Result.pure_eq_ok]

/-- The first of three threads is taken off, the one in the middle, and the last. -/
theorem ready_list_is_sequence_three : ∃ m first middle last : Memory,
    [1, 2, 3].foldlM (fun m i => ReadyCall.run m (.pushbackRL i (some 7))) started = .ok m ∧ IsSequence m [1, 2, 3] ∧
      ReadyCall.run m .deleteFirst = .ok first ∧ IsSequence first [2, 3] ∧
      ReadyCall.run m (.delete 2) = .ok middle ∧ IsSequence middle [1, 3] ∧
      ReadyCall.run m .deleteLast = .ok last ∧ IsSequence last [1, 2] := by
  obtain ⟨m, run, pushed⟩ := started_pushes
  obtain ⟨first, ranFirst, behind⟩ := pushed.calls .deleteFirst (List.cons_ne_nil _ _)
  obtain ⟨middle, ranMiddle, around⟩ := pushed.calls (.delete 2) (by simp [ReadyCall.Legal])
  obtain ⟨last, ranLast, front⟩ := pushed.calls .deleteLast (List.cons_ne_nil _ _)
  exact ⟨m, first, middle, last, run, ready_list_is_sequence pushed, ranFirst, ready_list_is_sequence behind,
    ranMiddle, ready_list_is_sequence around, ranLast, ready_list_is_sequence front⟩

end OperatingSystem.Threads
