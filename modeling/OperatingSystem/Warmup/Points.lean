import Mathlib.Analysis.Real.Sqrt
import Mathlib.Data.Prod.Lex
import OperatingSystem.Library.Strand

/-!
# `sorted_points.c`: a sorted list of points

Coordinates and distances are exact: `F` is any ordered ring, and `sqrt` of `math.h` compares as the square root does.
A `struct point` lives in the node that owns it.
-/

namespace OperatingSystem.Warmup

open Heap

@[ext] structure Point (F : Type) where
  x : F
  y : F
  deriving DecidableEq

structure PointNode (F : Type) where
  p : Point F
  next : Option Nat
  distance : F

structure SortedPoints (F : Type) where
  nodes : Heap (PointNode F)
  head : Option Nat

/-- `sqrt` without rounding. -/
structure ExactSqrt (F : Type) [CommRing F] [LinearOrder F] where
  sqrt : F → F
  lt_iff : ∀ {a b}, 0 ≤ a → 0 ≤ b → (sqrt a < sqrt b ↔ a < b)

noncomputable def ExactSqrt.real : ExactSqrt ℝ := ⟨Real.sqrt, fun nonneg _ => Real.sqrt_lt_sqrt_iff nonneg⟩

section Code

variable {F : Type} [LinearOrder F]

def spInit : SortedPoints F := ⟨Heap.empty, none⟩

def goesPast (dis x y : F) (nextNode : PointNode F) : Bool :=
  if dis > nextNode.distance then true
  else if nextNode.distance = dis then
    if x > nextNode.p.x then true
    else if x = nextNode.p.x then
      if y > nextNode.p.y then true else false
    else false
  else false

/-- `nextNode` is always `current->next`, so both advance to it. -/
def returnPrevLoop (nodes : Heap (PointNode F)) (dis x y : F) : Nat → Nat → Option Nat → Except Trap Nat
  | 0, _, _ => .error .endless
  | _ + 1, current, none => .ok current
  | fuel + 1, current, some nextNode => do
      let n ← nodes.read nextNode
      if goesPast dis x y n then do
        let current ← pointer (← nodes.read current).next
        returnPrevLoop nodes dis x y fuel current n.next
      else return current

def returnPrev (nodes : Heap (PointNode F)) (head : Option Nat) (dis x y : F) : Except Trap (Option Nat) :=
  match head with
  | none => .ok none
  | some current => do
      let nextNode := (← nodes.read current).next
      let pre ← returnPrevLoop nodes dis x y (nodes.next + 1) current nextNode
      return some pre

/-- `nodeOk` and `pointOk` say whether the two calls of `malloc` find memory. -/
def spAddPoint [CommRing F] (sqrt : F → F) (nodeOk pointOk : Bool) (sp : SortedPoints F) (x y : F) :
    Except Trap (Int × SortedPoints F) :=
  if !nodeOk then .ok (0, sp)
  else if !pointOk then .ok (0, sp)
  else do
    let distance := sqrt (x ^ 2 + y ^ 2)
    let newNode := sp.nodes.next
    let nodes := sp.nodes.alloc { p := ⟨x, y⟩, next := none, distance }
    match ← returnPrev nodes sp.head distance x y with
    | none => return (1, ⟨nodes, some newNode⟩)
    | some pre =>
        if some pre = sp.head then
          let nodes ← nodes.store newNode fun n => { n with next := sp.head }
          return (1, ⟨nodes, some newNode⟩)
        else
          let temp := (← nodes.read pre).next
          let nodes ← nodes.store pre fun n => { n with next := some newNode }
          let nodes ← nodes.store newNode fun n => { n with next := temp }
          return (1, ⟨nodes, sp.head⟩)

/-- The loop of `sp_remove_by_index`, with `index - counter` rounds to go; `none` is its `return 0`. -/
def removeLoop (nodes : Heap (PointNode F)) : Nat → Option Nat → Option Nat → Except Trap (Option (Option Nat × Option Nat))
  | 0, removeNode, prev => .ok (some (removeNode, prev))
  | rounds + 1, removeNode, prev => do
      let n ← nodes.read (← pointer removeNode)
      if n.next = none then return none
      else do
        let before ← nodes.read (← pointer prev)
        removeLoop nodes rounds n.next before.next

def spRemoveByIndex (sp : SortedPoints F) (index : Int) (ret : Point F) : Except Trap (Int × Point F × SortedPoints F) :=
  match sp.head with
  | none => .ok (0, ret, sp)
  | some head => do
      let removeNode := (← sp.nodes.read head).next
      match ← removeLoop sp.nodes (index - 1).toNat removeNode sp.head with
      | none => return (0, ret, sp)
      | some (removeNode, prev) =>
          if index = 0 then do
            let prev ← pointer prev
            let n ← sp.nodes.read prev
            return (1, n.p, ⟨sp.nodes.free prev, removeNode⟩)
          else do
            let removeNode ← pointer removeNode
            let n ← sp.nodes.read removeNode
            let nodes ← sp.nodes.store (← pointer prev) fun before => { before with next := n.next }
            return (1, n.p, ⟨nodes.free removeNode, sp.head⟩)

def maxCounter : Int := Int32.maxValue.toInt

def duplicatesLoop : Nat → Heap (PointNode F) → Option Nat → Option Nat → Int → Except Trap (Int × Heap (PointNode F))
  | 0, _, _, _, _ => .error .endless
  | _ + 1, nodes, none, _, counter => .ok (counter, nodes)
  | fuel + 1, nodes, some current, prev, counter => do
      let c ← nodes.read current
      let before ← nodes.read (← pointer prev)
      if c.p.x = before.p.x ∧ c.p.y = before.p.y then
        if counter = maxCounter then .error .overflow
        else do
          let temp := c.next
          let nodes ← nodes.store (← pointer prev) fun n => { n with next := temp }
          let nodes ← nodes.store current fun n => { n with next := none }
          duplicatesLoop fuel (nodes.free current) temp prev (counter + 1)
      else duplicatesLoop fuel nodes c.next before.next counter

def spDeleteDuplicates (sp : SortedPoints F) : Except Trap (Int × SortedPoints F) :=
  match sp.head with
  | none => .ok (0, sp)
  | some head => do
      let current := (← sp.nodes.read head).next
      let (counter, nodes) ← duplicatesLoop (sp.nodes.next + 1) sp.nodes current sp.head 0
      return (counter, { sp with nodes })

end Code

section Order

variable {F : Type} [CommRing F]

/-- Distance from the origin, then `x`, then `y`. -/
def Point.key (p : Point F) : F ×ₗ F ×ₗ F := toLex (p.x ^ 2 + p.y ^ 2, toLex (p.x, p.y))

theorem key_injective : Function.Injective (Point.key (F := F)) := by
  rintro ⟨x, y⟩ ⟨x', y'⟩ same
  have below := congrArg (fun k => ofLex (ofLex k).2) same
  obtain ⟨rfl, rfl⟩ := Prod.mk.inj below
  rfl

variable [LinearOrder F]

def Sorted (l : List (Point F)) : Prop := l.Pairwise fun p q => p.key ≤ q.key

def PointNode.Shows (e : ExactSqrt F) (n : PointNode F) (p : Point F) : Prop :=
  n.p = p ∧ n.distance = e.sqrt (p.x ^ 2 + p.y ^ 2)

def SortedPoints.Holds (e : ExactSqrt F) (sp : SortedPoints F) (l : List (Point F)) : Prop :=
  ∃ cells, Strand PointNode.next (PointNode.Shows e) sp.nodes sp.head cells l none

theorem SortedPoints.Holds.unique {e : ExactSqrt F} {sp : SortedPoints F} {l l' : List (Point F)} (holds : sp.Holds e l)
    (holds' : sp.Holds e l') : l = l' := by
  obtain ⟨_, strand⟩ := holds
  obtain ⟨_, strand'⟩ := holds'
  exact strand.unique strand' fun _ _ _ shown shown' => shown.1.symm.trans shown'.1

def nodesOf (e : ExactSqrt F) : List (Point F) → SortedPoints F
  | [] => spInit
  | p :: l =>
      let sp := nodesOf e l
      ⟨sp.nodes.alloc { p, next := sp.head, distance := e.sqrt (p.x ^ 2 + p.y ^ 2) }, some sp.nodes.next⟩

theorem nodesOf_holds (e : ExactSqrt F) (l : List (Point F)) : (nodesOf e l).Holds e l := by
  induction l with
  | nil => exact ⟨[], .nil⟩
  | cons p l ih =>
      obtain ⟨cells, strand⟩ := ih
      exact ⟨(nodesOf e l).nodes.next :: cells, .cons alloc_next ⟨rfl, rfl⟩ strand.alloc⟩

theorem ExactSqrt.eq_iff (e : ExactSqrt F) {a b : F} (ha : 0 ≤ a) (hb : 0 ≤ b) : e.sqrt a = e.sqrt b ↔ a = b := by
  refine ⟨fun same => ?_, congrArg e.sqrt⟩
  rcases lt_trichotomy a b with less | equal | greater
  · exact absurd same ((e.lt_iff ha hb).mpr less).ne
  · exact equal
  · exact absurd same ((e.lt_iff hb ha).mpr greater).ne'

variable [IsStrictOrderedRing F]

theorem goesPast_iff (e : ExactSqrt F) {n : PointNode F} {q : Point F} (shown : n.Shows e q) (p : Point F) :
    goesPast (e.sqrt (p.x ^ 2 + p.y ^ 2)) p.x p.y n = true ↔ q.key < p.key := by
  obtain ⟨rfl, distance⟩ := shown
  have nonneg (r : Point F) : 0 ≤ r.x ^ 2 + r.y ^ 2 := add_nonneg (sq_nonneg _) (sq_nonneg _)
  have less := e.lt_iff (nonneg n.p) (nonneg p)
  have equal := e.eq_iff (nonneg n.p) (nonneg p)
  simp only [goesPast, distance, gt_iff_lt, less, equal, @eq_comm _ p.x n.p.x, Point.key, Prod.Lex.toLex_lt_toLex]
  split_ifs <;> simp_all

end Order

end OperatingSystem.Warmup
