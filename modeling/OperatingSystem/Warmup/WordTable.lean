import OperatingSystem.Library.Chain

/-!
# `wc.c`: the word table

A table of lists of words, each with the number of times it was inserted.  A C string is the list of its bytes without
the terminator, so `strcmp` is equality; the counters of the nodes are exact.
-/

namespace OperatingSystem.Warmup

open Heap Linked

abbrev Word := List UInt8

/-- The bytes are signed `char`s. -/
def hash (str : Word) : UInt64 :=
  str.foldl (fun hash c => ((hash <<< 5) + hash) + c.toInt8.toInt64.toUInt64) 5381

structure WordsElement where
  word : Word
  sizeofword : Int
  key : Nat
  counts : Nat
  next : Option Nat
  deriving DecidableEq, Repr

structure Wc where
  nodes : Heap WordsElement
  wcArray : Nat → Option Nat
  size : Nat

def emptyTable (size : Nat) : Wc := ⟨Heap.empty, fun _ => none, size⟩

def initNode (wordi : Word) (key : Nat) (sizeofword : Int) : WordsElement := ⟨wordi, sizeofword, key, 1, none⟩

def WordsElement.again (n : WordsElement) : WordsElement := { n with counts := n.counts + 1 }

def findWord (nodes : Heap WordsElement) (dummy : Word) : Nat → Nat → Option Nat → Except Trap (Option Nat × Nat)
  | 0, _, _ => .error .endless
  | fuel + 1, pre, currentHash => do
      match (← nodes.read pre).next with
      | none => return (none, pre)
      | some next => do
          let current ← pointer currentHash
          let n ← nodes.read current
          if n.word = dummy then return (some current, pre)
          else findWord nodes dummy fuel next n.next

def bucket (size : Nat) (word : Word) : Nat := (hash word).toNat % size

def insertWord (dummy : Word) (counter : Int) (wc : Wc) : Except Trap Wc :=
  let index := bucket wc.size dummy
  match wc.wcArray index with
  | none =>
      .ok { wc with
        nodes := wc.nodes.alloc (initNode dummy index counter)
        wcArray := Function.update wc.wcArray index (some wc.nodes.next) }
  | some currentHash => do
      let first ← wc.nodes.read currentHash
      if first.word = dummy then do
        let nodes ← wc.nodes.store currentHash WordsElement.again
        return { wc with nodes }
      else
        match ← findWord wc.nodes dummy (wc.nodes.next + 1) currentHash first.next with
        | (some found, _) => do
            let nodes ← wc.nodes.store found WordsElement.again
            return { wc with nodes }
        | (none, pre) => do
            let nodes := wc.nodes.alloc (initNode dummy index counter)
            let nodes ← nodes.store pre fun n => { n with next := some wc.nodes.next }
            return { wc with nodes }

def insertWords : List Word → Wc → Except Trap Wc
  | [], wc => .ok wc
  | word :: more, wc => do insertWords more (← insertWord word word.length wc)

def outputChain (nodes : Heap WordsElement) : Nat → Option Nat → Except Trap (List (Nat × Word × Nat))
  | 0, _ => .error .endless
  | _ + 1, none => .ok []
  | fuel + 1, some currentHash => do
      let n ← nodes.read currentHash
      let rest ← outputChain nodes fuel n.next
      return (currentHash, n.word, n.counts) :: rest

def outputTo (wc : Wc) : Nat → Except Trap (List (Nat × Word × Nat))
  | 0 => .ok []
  | i + 1 => do
      let before ← outputTo wc i
      let chain ← outputChain wc.nodes (wc.nodes.next + 1) (wc.wcArray i)
      return before ++ chain

def wcOutput (wc : Wc) : Except Trap (List (Nat × Word × Nat)) := outputTo wc wc.size

section Counting

/-- Entries at addresses, in buckets: each word of the sequence has one, in the bucket of its hash, with the number of times
it occurs. -/
structure Counted (size : Nat) (entry : Nat → Option (Word × Nat)) (ws : List Word) (cells : Nat → List Nat) : Prop where
  inside : ∀ x w k, entry x = some (w, k) → x ∈ cells (bucket size w)
  listed : ∀ b x, x ∈ cells b → ∃ w k, entry x = some (w, k) ∧ bucket size w = b
  count : ∀ x w k, entry x = some (w, k) → w ∈ ws ∧ k = ws.count w
  once : ∀ x y w k k', entry x = some (w, k) → entry y = some (w, k') → x = y
  complete : ∀ w ∈ ws, ∃ x k, entry x = some (w, k)

variable {size x : Nat} {entry : Nat → Option (Word × Nat)} {ws : List Word} {cells cells' : Nat → List Nat} {dummy : Word}

theorem counted_empty (size : Nat) : Counted size (fun _ => none) [] fun _ => [] where
  inside x w k here := by cases here
  listed b x member := absurd member List.not_mem_nil
  count x w k here := by cases here
  once x y w k k' here := by cases here
  complete w member := absurd member List.not_mem_nil

theorem Counted.add (c : Counted size entry ws cells) (only : ∀ y k, entry y = some (dummy, k) → y = x)
    (own : ∀ w k, entry x = some (w, k) → w = dummy)
    (members : ∀ b y, y ∈ cells' b ↔ y ∈ cells b ∨ y = x ∧ b = bucket size dummy) :
    Counted size (Function.update entry x (some (dummy, ws.count dummy + 1))) (ws ++ [dummy]) cells' := by
  have here : Function.update entry x (some (dummy, ws.count dummy + 1)) x = some (dummy, ws.count dummy + 1) :=
    Function.update_self _ _ _
  have there {y : Nat} (other : y ≠ x) : Function.update entry x (some (dummy, ws.count dummy + 1)) y = entry y :=
    Function.update_of_ne other _ _
  have cases_of {y : Nat} {w : Word} {k : Nat} (stored : Function.update entry x (some (dummy, ws.count dummy + 1)) y = some (w, k)) :
      y = x ∧ w = dummy ∧ k = ws.count dummy + 1 ∨ y ≠ x ∧ w ≠ dummy ∧ entry y = some (w, k) := by
    by_cases same : y = x
    · subst same
      rw [here] at stored
      obtain ⟨rfl, rfl⟩ := Prod.mk.inj (Option.some.inj stored)
      exact .inl ⟨rfl, rfl, rfl⟩
    · rw [there same] at stored
      exact .inr ⟨same, fun word => same (only y k (word ▸ stored)), stored⟩
  refine ⟨fun y w k stored => ?_, fun b y member => ?_, fun y w k stored => ?_, fun y z w k k' first second => ?_, fun w member => ?_⟩
  · rcases cases_of stored with ⟨rfl, rfl, -⟩ | ⟨-, -, old⟩
    · exact (members _ _).mpr (.inr ⟨rfl, rfl⟩)
    · exact (members _ _).mpr (.inl (c.inside y w k old))
  · by_cases same : y = x
    · subst same
      refine ⟨dummy, _, here, ?_⟩
      rcases (members b y).mp member with old | ⟨-, rfl⟩
      · obtain ⟨w, k, stored, rfl⟩ := c.listed b y old
        rw [own w k stored]
      · rfl
    · rw [there same]
      exact c.listed b y (((members b y).mp member).resolve_right fun new => same new.1)
  · rcases cases_of stored with ⟨rfl, rfl, rfl⟩ | ⟨-, other, old⟩
    · exact ⟨List.mem_append_right _ List.mem_cons_self, by rw [List.count_append, List.count_singleton_self]⟩
    · obtain ⟨member, rfl⟩ := c.count y w k old
      refine ⟨List.mem_append_left _ member, ?_⟩
      rw [List.count_append, List.count_singleton, if_neg (by simpa using other.symm), Nat.add_zero]
  · rcases cases_of first with ⟨rfl, rfl, -⟩ | ⟨-, other, old⟩
    · rcases cases_of second with ⟨rfl, -⟩ | ⟨-, other, -⟩
      · rfl
      · exact (other rfl).elim
    · rcases cases_of second with ⟨-, rfl, -⟩ | ⟨-, -, old'⟩
      · exact (other rfl).elim
      · exact c.once y z w k k' old old'
  · by_cases same : w = dummy
    · exact ⟨x, ws.count dummy + 1, by rw [same]; exact here⟩
    · have before : w ∈ ws := (List.mem_append.mp member).resolve_right fun last => same (List.mem_singleton.mp last)
      obtain ⟨y, k, stored⟩ := c.complete w before
      refine ⟨y, k, ?_⟩
      rw [there fun hit => same (own w k (hit ▸ stored)), stored]

end Counting

section Table

def entryIn (nodes : Heap WordsElement) (x : Nat) : Option (Word × Nat) := (nodes.cells x).map fun n => (n.word, n.counts)

def nextOf (nodes : Heap WordsElement) : Nat → Option Nat := linkIn WordsElement.next nodes

/-- The lists of the table lead through `cells`, and what they hold counts the sequence. -/
structure Tallied (wc : Wc) (ws : List Word) (cells : Nat → List Nat) : Prop where
  chain : ∀ b, Path (nextOf wc.nodes) (wc.wcArray b) (cells b) none
  counted : Counted wc.size (entryIn wc.nodes) ws cells

theorem tallied_empty (size : Nat) : Tallied (emptyTable size) [] fun _ => [] := ⟨fun _ => rfl, counted_empty size⟩

variable {wc : Wc} {ws : List Word} {cells : Nat → List Nat} {nodes : Heap WordsElement} {x b : Nat} {dummy : Word} {k : Nat}

theorem entryIn_eq_some {e : Word × Nat} : entryIn nodes x = some e ↔ ∃ n, nodes.cells x = some n ∧ (n.word, n.counts) = e :=
  Option.map_eq_some_iff

theorem entryIn_again (here : entryIn nodes x = some (dummy, k)) :
    entryIn (nodes.modify x WordsElement.again) = Function.update (entryIn nodes) x (some (dummy, k + 1)) := by
  obtain ⟨n, stored, same⟩ := entryIn_eq_some.mp here
  obtain ⟨rfl, rfl⟩ := Prod.mk.inj same
  funext y
  by_cases hit : y = x
  · subst hit
    rw [Function.update_self, entryIn, modify_self, stored]
    rfl
  · rw [Function.update_of_ne hit, entryIn, modify_of_ne hit]
    rfl

theorem Tallied.again (t : Tallied wc ws cells) (here : entryIn wc.nodes x = some (dummy, k)) :
    Tallied { wc with nodes := wc.nodes.modify x WordsElement.again } (ws ++ [dummy]) cells := by
  obtain ⟨-, rfl⟩ := t.counted.count x dummy k here
  refine ⟨?_, ?_⟩
  · have links : nextOf (wc.nodes.modify x WordsElement.again) = nextOf wc.nodes := linkIn_keep fun _ => rfl
    rw [links]
    exact t.chain
  · rw [entryIn_again here]
    refine t.counted.add (fun y k stored => t.counted.once y x dummy _ _ stored here) (fun w k stored => ?_) fun b y => ?_
    · exact (Prod.mk.inj (Option.some.inj (stored.symm.trans here))).1
    · refine ⟨Or.inl, fun member => member.elim id fun new => ?_⟩
      rw [new.1, new.2]
      exact t.counted.inside x dummy _ here

def withNode (wc : Wc) (dummy : Word) (counter : Int) : Heap WordsElement := wc.nodes.alloc (initNode dummy (bucket wc.size dummy) counter)

variable {counter : Int}

theorem fresh_entry : entryIn wc.nodes wc.nodes.next = none := by
  rw [entryIn, wc.nodes.fresh _ (Nat.le_refl _)]
  rfl

theorem nextOf_withNode : nextOf (withNode wc dummy counter) = nextOf wc.nodes := by
  funext y
  unfold nextOf linkIn
  by_cases new : y = wc.nodes.next
  · rw [new, withNode, alloc_next, wc.nodes.fresh _ (Nat.le_refl _)]
    rfl
  · rw [withNode, alloc_of_ne new]

theorem entryIn_withNode : entryIn (withNode wc dummy counter) = Function.update (entryIn wc.nodes) wc.nodes.next (some (dummy, 1)) := by
  funext y
  by_cases new : y = wc.nodes.next
  · rw [new, Function.update_self, entryIn, withNode, alloc_next]
    rfl
  · rw [Function.update_of_ne new, entryIn, withNode, alloc_of_ne new]
    rfl

theorem Tallied.used (t : Tallied wc ws cells) (member : x ∈ cells b) : x < wc.nodes.next := by
  obtain ⟨w, k, stored, -⟩ := t.counted.listed b x member
  obtain ⟨n, here, -⟩ := entryIn_eq_some.mp stored
  exact lt_next here

theorem Tallied.fresh (t : Tallied wc ws cells) : wc.nodes.next ∉ cells b := fun member => Nat.lt_irrefl _ (t.used member)

theorem Tallied.counted_new (t : Tallied wc ws cells) (absent : ∀ y k, entryIn wc.nodes y ≠ some (dummy, k)) :
    Counted wc.size (entryIn (withNode wc dummy counter)) (ws ++ [dummy])
      (Function.update cells (bucket wc.size dummy) (cells (bucket wc.size dummy) ++ [wc.nodes.next])) := by
  have zero : ws.count dummy = 0 := by
    refine List.count_eq_zero.mpr fun member => ?_
    obtain ⟨y, k, stored⟩ := t.counted.complete dummy member
    exact absent y k stored
  have members (b y : Nat) : y ∈ Function.update cells (bucket wc.size dummy) (cells (bucket wc.size dummy) ++ [wc.nodes.next]) b ↔
      y ∈ cells b ∨ y = wc.nodes.next ∧ b = bucket wc.size dummy := by
    by_cases same : b = bucket wc.size dummy
    · subst same
      simp
    · rw [Function.update_of_ne same]
      simp [same]
  have added := t.counted.add (x := wc.nodes.next) (fun y k stored => (absent y k stored).elim) (fun w k stored => by
    rw [fresh_entry] at stored
    cases stored) members
  rw [zero, Nat.zero_add] at added
  rw [entryIn_withNode]
  exact added

theorem Tallied.first (t : Tallied wc ws cells) (counter : Int) (absent : ∀ y k, entryIn wc.nodes y ≠ some (dummy, k))
    (empty : wc.wcArray (bucket wc.size dummy) = none) :
    ∃ cells', Tallied { wc with
      nodes := withNode wc dummy counter
      wcArray := Function.update wc.wcArray (bucket wc.size dummy) (some wc.nodes.next) } (ws ++ [dummy]) cells' := by
  refine ⟨_, fun b => ?_, t.counted_new absent⟩
  dsimp only
  rw [nextOf_withNode]
  have none : cells (bucket wc.size dummy) = [] := by
    have path := t.chain (bucket wc.size dummy)
    rw [empty] at path
    cases shape : cells (bucket wc.size dummy) with
    | nil => rfl
    | cons y ys =>
        rw [shape] at path
        cases path.1
  by_cases same : b = bucket wc.size dummy
  · subst same
    rw [Function.update_self, Function.update_self, none]
    refine ⟨rfl, ?_⟩
    change linkIn _ _ _ = _
    rw [linkIn, wc.nodes.fresh _ (Nat.le_refl _)]
    rfl
  · rw [Function.update_of_ne same, Function.update_of_ne same]
    exact t.chain b

theorem Tallied.last (t : Tallied wc ws cells) (counter : Int) (absent : ∀ y k, entryIn wc.nodes y ≠ some (dummy, k)) {us : List Nat} {pre : Nat}
    (shape : cells (bucket wc.size dummy) = us ++ [pre]) :
    ∃ cells', Tallied { wc with nodes := (withNode wc dummy counter).modify pre fun n => { n with next := some wc.nodes.next } }
      (ws ++ [dummy]) cells' := by
  have member : pre ∈ cells (bucket wc.size dummy) := by simp [shape]
  obtain ⟨w, k, stored, own⟩ := t.counted.listed _ pre member
  obtain ⟨n, here, -⟩ := entryIn_eq_some.mp stored
  have still : (withNode wc dummy counter).cells pre = some n := by rw [withNode, alloc_of_ne (Nat.ne_of_lt (t.used member)), here]
  have links : nextOf ((withNode wc dummy counter).modify pre fun n => { n with next := some wc.nodes.next }) =
      Function.update (nextOf wc.nodes) pre (some wc.nodes.next) := by
    rw [← nextOf_withNode]
    exact linkIn_set still rfl
  have entries : entryIn ((withNode wc dummy counter).modify pre fun n => { n with next := some wc.nodes.next }) =
      entryIn (withNode wc dummy counter) := funext fun y => modify_map (fun n : WordsElement => (n.word, n.counts)) fun _ => rfl
  refine ⟨_, fun b => ?_, entries ▸ t.counted_new absent⟩
  dsimp only
  rw [links]
  by_cases same : b = bucket wc.size dummy
  · subst same
    have path := t.chain (bucket wc.size dummy)
    have fresh := t.fresh (b := bucket wc.size dummy)
    rw [Function.update_self, shape]
    rw [shape] at path fresh
    have longer := path.extend path.nodup fresh
    have ends : Function.update (nextOf wc.nodes) pre (some wc.nodes.next) wc.nodes.next = none := by
      rw [Function.update_of_ne (Nat.ne_of_gt (t.used member)), nextOf, linkIn, wc.nodes.fresh _ (Nat.le_refl _)]
      rfl
    have kept := Function.update_eq_self wc.nodes.next (Function.update (nextOf wc.nodes) pre (some wc.nodes.next))
    rw [ends] at kept
    rw [kept] at longer
    exact longer
  · rw [Function.update_of_ne same]
    refine (t.chain b).update fun listed => same ?_
    obtain ⟨_, _, stored', own'⟩ := t.counted.listed b pre listed
    obtain ⟨rfl, -⟩ := Prod.mk.inj (Option.some.inj (stored.symm.trans stored'))
    exact own'.symm.trans own

theorem findWord_spec {fuel pre : Nat} {ys : List Nat} (path : Path (nextOf nodes) (some pre) (pre :: ys) none)
    (used : ∀ y ∈ pre :: ys, ∃ n, nodes.cells y = some n) (enough : ys.length < fuel) :
    (∃ y ∈ ys, ∃ k p, entryIn nodes y = some (dummy, k) ∧ findWord nodes dummy fuel pre (nextOf nodes pre) = .ok (some y, p)) ∨
    (∀ y ∈ ys, ∀ k, entryIn nodes y ≠ some (dummy, k)) ∧
      ∃ us last, pre :: ys = us ++ [last] ∧ findWord nodes dummy fuel pre (nextOf nodes pre) = .ok (none, last) := by
  induction ys generalizing fuel pre with
  | nil =>
      obtain ⟨fuel, rfl⟩ := Nat.exists_eq_succ_of_ne_zero (Nat.ne_zero_of_lt enough)
      obtain ⟨n, here⟩ := used pre List.mem_cons_self
      have ended : n.next = none := (linkIn_eq here).symm.trans path.2
      refine .inr ⟨fun _ member => absurd member List.not_mem_nil, [], pre, rfl, ?_⟩
      rw [findWord, read_eq_ok.mpr here, Result.ok_bind, ended]
      rfl
  | cons y ys ih =>
      obtain ⟨fuel, rfl⟩ := Nat.exists_eq_succ_of_ne_zero (Nat.ne_zero_of_lt enough)
      obtain ⟨p, here⟩ := used pre List.mem_cons_self
      obtain ⟨n, next⟩ := used y (by simp)
      have link : p.next = some y := (linkIn_eq here).symm.trans path.2.1
      have entered : findWord nodes dummy (fuel + 1) pre (nextOf nodes pre) =
          if n.word = dummy then .ok (some y, pre) else findWord nodes dummy fuel y (nextOf nodes y) := by
        rw [findWord, read_eq_ok.mpr here, Result.ok_bind, link, path.2.1, pointer]
        dsimp only
        rw [Result.ok_bind, read_eq_ok.mpr next, Result.ok_bind, show nextOf nodes y = n.next from linkIn_eq next]
        rfl
      rw [entered]
      by_cases found : n.word = dummy
      · exact .inl ⟨y, List.mem_cons_self, n.counts, pre, entryIn_eq_some.mpr ⟨n, next, by rw [found]⟩, if_pos found⟩
      · rw [if_neg found]
        have tail : Path (nextOf nodes) (some y) (y :: ys) none := ⟨rfl, path.2.2⟩
        rcases ih tail (fun z member => used z (List.mem_cons_of_mem pre member)) (Nat.lt_of_succ_lt_succ enough) with
          ⟨z, member, k, q, stored, walked⟩ | ⟨absent, us, last, shape, walked⟩
        · exact .inl ⟨z, List.mem_cons_of_mem y member, k, q, stored, walked⟩
        · refine .inr ⟨fun z member k stored => ?_, pre :: us, last, congrArg (pre :: ·) shape, walked⟩
          rcases List.mem_cons.mp member with rfl | behind
          · obtain ⟨n', same, word⟩ := entryIn_eq_some.mp stored
            obtain rfl := Option.some.inj (next.symm.trans same)
            exact found (Prod.mk.inj word).1
          · exact absent z behind k stored

theorem Tallied.used_cells (t : Tallied wc ws cells) (member : x ∈ cells b) : ∃ n, wc.nodes.cells x = some n := by
  obtain ⟨w, k, stored, -⟩ := t.counted.listed b x member
  obtain ⟨n, here, -⟩ := entryIn_eq_some.mp stored
  exact ⟨n, here⟩

theorem insertWord_tallied (t : Tallied wc ws cells) (dummy : Word) (counter : Int) :
    ∃ wc' cells', insertWord dummy counter wc = .ok wc' ∧ wc'.size = wc.size ∧ Tallied wc' (ws ++ [dummy]) cells' := by
  have elsewhere (absent : ∀ y ∈ cells (bucket wc.size dummy), ∀ k, entryIn wc.nodes y ≠ some (dummy, k)) (y k : Nat) :
      entryIn wc.nodes y ≠ some (dummy, k) := fun stored => absent y (t.counted.inside y dummy k stored) k stored
  have path := t.chain (bucket wc.size dummy)
  have used : ∀ y ∈ cells (bucket wc.size dummy), ∃ n, wc.nodes.cells y = some n := fun _ => t.used_cells
  unfold insertWord
  dsimp only
  cases shape : cells (bucket wc.size dummy) with
  | nil =>
      rw [shape] at path elsewhere
      have empty : wc.wcArray (bucket wc.size dummy) = none := path
      obtain ⟨cells', tallied⟩ := t.first counter (elsewhere (by simp)) empty
      rw [empty]
      exact ⟨_, cells', rfl, rfl, tallied⟩
  | cons head ys =>
      rw [shape] at path elsewhere used
      obtain ⟨first, here⟩ := used head List.mem_cons_self
      rw [path.head]
      dsimp only
      rw [read_eq_ok.mpr here, Result.ok_bind]
      by_cases found : first.word = dummy
      · rw [if_pos found, store_of_some here]
        exact ⟨_, cells, rfl, rfl, t.again (entryIn_eq_some.mpr ⟨first, here, by rw [found]⟩)⟩
      · have enough : ys.length < wc.nodes.next + 1 := by
          have bound := Heap.length_le path.nodup used
          rw [List.length_cons] at bound
          omega
        have start : first.next = nextOf wc.nodes head := (linkIn_eq here).symm
        rw [path.head] at path
        rw [if_neg found, start]
        rcases findWord_spec path used enough with ⟨y, member, k, p, stored, walked⟩ | ⟨absent, us, pre, ends, walked⟩
        · obtain ⟨n, there, -⟩ := entryIn_eq_some.mp stored
          rw [walked, Result.ok_bind]
          dsimp only
          rw [store_of_some there]
          exact ⟨_, cells, rfl, rfl, t.again stored⟩
        · have absent' : ∀ y ∈ head :: ys, ∀ k, entryIn wc.nodes y ≠ some (dummy, k) := fun y member k stored => by
            rcases List.mem_cons.mp member with rfl | behind
            · obtain ⟨n, same, word⟩ := entryIn_eq_some.mp stored
              obtain rfl := Option.some.inj (here.symm.trans same)
              exact found (Prod.mk.inj word).1
            · exact absent y behind k stored
          obtain ⟨cells', tallied⟩ := t.last counter (elsewhere absent') (shape.trans ends)
          obtain ⟨n, there⟩ := used pre (by rw [ends]; simp)
          have still : (withNode wc dummy counter).cells pre = some n := by
            rw [withNode, alloc_of_ne (Nat.ne_of_lt (lt_next there)), there]
          rw [walked, Result.ok_bind]
          refine ⟨_, cells', ?_, ?_, tallied⟩
          · change ((withNode wc dummy counter).store pre _ >>= _) = _
            rw [store_of_some still]
            rfl
          · rfl

theorem insertWords_tallied (t : Tallied wc ws cells) (more : List Word) :
    ∃ wc' cells', insertWords more wc = .ok wc' ∧ wc'.size = wc.size ∧ Tallied wc' (ws ++ more) cells' := by
  induction more generalizing wc ws cells with
  | nil => exact ⟨wc, cells, rfl, rfl, by rw [List.append_nil]; exact t⟩
  | cons word more ih =>
      obtain ⟨wc', cells', inserted, size, tallied⟩ := insertWord_tallied t word word.length
      obtain ⟨wc'', cells'', rest, size', tallied'⟩ := ih tallied
      refine ⟨wc'', cells'', ?_, size'.trans size, by rw [List.append_cons]; exact tallied'⟩
      rw [insertWords, inserted]
      exact rest

end Table

section Output

variable {wc : Wc} {ws : List Word} {cells : Nat → List Nat} {nodes : Heap WordsElement} {x b : Nat}

theorem outputChain_spec {fuel : Nat} {p : Option Nat} {ys : List Nat} (path : Path (nextOf nodes) p ys none)
    (used : ∀ y ∈ ys, ∃ n, nodes.cells y = some n) (enough : ys.length < fuel) :
    ∃ visits, outputChain nodes fuel p = .ok visits ∧ visits.map Prod.fst = ys ∧ ∀ v ∈ visits, entryIn nodes v.1 = some v.2 := by
  induction ys generalizing fuel p with
  | nil =>
      obtain ⟨fuel, rfl⟩ := Nat.exists_eq_succ_of_ne_zero (Nat.ne_zero_of_lt enough)
      obtain rfl : p = none := path
      exact ⟨[], rfl, rfl, fun _ member => absurd member List.not_mem_nil⟩
  | cons y ys ih =>
      obtain ⟨fuel, rfl⟩ := Nat.exists_eq_succ_of_ne_zero (Nat.ne_zero_of_lt enough)
      obtain ⟨rfl, tail⟩ := path
      obtain ⟨n, here⟩ := used y List.mem_cons_self
      obtain ⟨visits, visited, places, entries⟩ := ih tail (fun z member => used z (List.mem_cons_of_mem y member)) (Nat.lt_of_succ_lt_succ enough)
      rw [show nextOf nodes y = n.next from linkIn_eq here] at visited
      refine ⟨(y, n.word, n.counts) :: visits, ?_, congrArg (y :: ·) places, ?_⟩
      · rw [outputChain, read_eq_ok.mpr here, Result.ok_bind, visited]
        rfl
      · rintro v member
        rcases List.mem_cons.mp member with rfl | behind
        · exact entryIn_eq_some.mpr ⟨n, here, rfl⟩
        · exact entries v behind

theorem outputTo_spec (t : Tallied wc ws cells) (i : Nat) :
    ∃ visits, outputTo wc i = .ok visits ∧ visits.map Prod.fst = (List.range i).flatMap cells ∧
      ∀ v ∈ visits, entryIn wc.nodes v.1 = some v.2 := by
  induction i with
  | zero => exact ⟨[], rfl, rfl, fun _ member => absurd member List.not_mem_nil⟩
  | succ i ih =>
      obtain ⟨before, ran, places, entries⟩ := ih
      have used : ∀ y ∈ cells i, ∃ n, wc.nodes.cells y = some n := fun _ => t.used_cells
      have enough := Nat.lt_succ_of_le (Heap.length_le (t.chain i).nodup used)
      obtain ⟨chain, visited, places', entries'⟩ := outputChain_spec (t.chain i) used enough
      refine ⟨before ++ chain, ?_, ?_, fun v member => (List.mem_append.mp member).elim (entries v) (entries' v)⟩
      · rw [outputTo, ran, Result.ok_bind, visited]
        rfl
      · rw [List.map_append, places, places', List.range_succ, List.flatMap_append, List.flatMap_singleton]

theorem Tallied.cells_apart (t : Tallied wc ws cells) {b' : Nat} (here : x ∈ cells b) (there : x ∈ cells b') : b = b' := by
  obtain ⟨w, k, stored, own⟩ := t.counted.listed b x here
  obtain ⟨w', k', stored', own'⟩ := t.counted.listed b' x there
  obtain ⟨rfl, -⟩ := Prod.mk.inj (Option.some.inj (stored.symm.trans stored'))
  exact own.symm.trans own'

theorem Tallied.all_nodup (t : Tallied wc ws cells) : ((List.range wc.size).flatMap cells).Nodup := by
  refine List.nodup_flatMap.mpr ⟨fun b _ => (t.chain b).nodup, List.nodup_range.imp fun different => ?_⟩
  exact fun x here there => different (t.cells_apart here there)

theorem Tallied.all_used (t : Tallied wc ws cells) (positive : 0 < wc.size) :
    x ∈ (List.range wc.size).flatMap cells ↔ ∃ n, wc.nodes.cells x = some n := by
  rw [List.mem_flatMap]
  constructor
  · rintro ⟨b, -, member⟩
    exact t.used_cells member
  · rintro ⟨n, here⟩
    have stored : entryIn wc.nodes x = some (n.word, n.counts) := entryIn_eq_some.mpr ⟨n, here, rfl⟩
    exact ⟨bucket wc.size n.word, List.mem_range.mpr (Nat.mod_lt _ positive), t.counted.inside x _ _ stored⟩

/-- After any words were inserted: each is in one node, in the list of its hash, with the number of its occurrences; there are
no other nodes, and `wc_output` visits every node once. -/
theorem wc_table_counts {size : Nat} (positive : 1 ≤ size) (ws : List Word) :
    ∃ wc visits, insertWords ws (emptyTable size) = .ok wc ∧ wcOutput wc = .ok visits ∧
      (∀ w ∈ ws, ∃! x, ∃ n, wc.nodes.cells x = some n ∧ n.word = w) ∧
      (∀ x n, wc.nodes.cells x = some n → n.word ∈ ws ∧ n.counts = ws.count n.word ∧
        ∃ chain, Path (nextOf wc.nodes) (wc.wcArray (bucket size n.word)) chain none ∧ x ∈ chain) ∧
      (visits.map Prod.fst).Nodup ∧ (∀ x, x ∈ visits.map Prod.fst ↔ ∃ n, wc.nodes.cells x = some n) ∧
      ∀ x w k, (x, w, k) ∈ visits → ∃ n, wc.nodes.cells x = some n ∧ n.word = w ∧ n.counts = k := by
  obtain ⟨wc, cells, inserted, rfl, t⟩ := insertWords_tallied (tallied_empty size) ws
  obtain ⟨visits, visited, places, entries⟩ := outputTo_spec t wc.size
  rw [List.nil_append] at t
  have entry {x : Nat} {n : WordsElement} (here : wc.nodes.cells x = some n) : entryIn wc.nodes x = some (n.word, n.counts) :=
    entryIn_eq_some.mpr ⟨n, here, rfl⟩
  refine ⟨wc, visits, inserted, visited, fun w member => ?_, fun x n here => ?_, ?_, fun x => ?_, fun x w k member => ?_⟩
  · obtain ⟨x, k, stored⟩ := t.counted.complete w member
    obtain ⟨n, here, same⟩ := entryIn_eq_some.mp stored
    refine ⟨x, ⟨n, here, (Prod.mk.inj same).1⟩, ?_⟩
    rintro y ⟨m, there, rfl⟩
    exact t.counted.once y x _ _ _ (entry there) stored
  · obtain ⟨member, count⟩ := t.counted.count x _ _ (entry here)
    exact ⟨member, count, cells _, t.chain _, t.counted.inside x _ _ (entry here)⟩
  · rw [places]
    exact t.all_nodup
  · rw [places]
    exact t.all_used positive
  · obtain ⟨n, here, same⟩ := entryIn_eq_some.mp (entries (x, w, k) member)
    exact ⟨n, here, Prod.mk.inj same⟩

theorem wc_table_counts_one : ∃ wc visits, insertWords [[97], [98], [97]] (emptyTable 2) = .ok wc ∧ wcOutput wc = .ok visits ∧
    (∀ w ∈ [[97], [98], [97]], ∃! x, ∃ n, wc.nodes.cells x = some n ∧ n.word = w) ∧
    (∀ x n, wc.nodes.cells x = some n → n.word ∈ [[97], [98], [97]] ∧ n.counts = [[97], [98], [97]].count n.word ∧
      ∃ chain, Path (nextOf wc.nodes) (wc.wcArray (bucket 2 n.word)) chain none ∧ x ∈ chain) ∧
    (visits.map Prod.fst).Nodup ∧ (∀ x, x ∈ visits.map Prod.fst ↔ ∃ n, wc.nodes.cells x = some n) ∧
    ∀ x w k, (x, w, k) ∈ visits → ∃ n, wc.nodes.cells x = some n ∧ n.word = w ∧ n.counts = k :=
  wc_table_counts (by decide) _

end Output

end OperatingSystem.Warmup
