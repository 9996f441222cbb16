import OperatingSystem.Warmup.Points

namespace OperatingSystem.Warmup

open Heap

variable {F : Type} [CommRing F] [LinearOrder F] {e : ExactSqrt F}

def addPoint (p : Point F) : List (Point F) → List (Point F)
  | [] => [p]
  | [head] => [p, head]
  | head :: second :: rest =>
      if second.key < p.key then head :: (second :: rest).orderedInsert (·.key ≤ ·.key) p else p :: head :: second :: rest

def AddsInOrder (p : Point F) : List (Point F) → Prop
  | [] => True
  | [head] => p.key ≤ head.key
  | head :: second :: _ => p.key ≤ head.key ∨ second.key < p.key

theorem addPoint_first {p head : Point F} {rest : List (Point F)} (none : (rest.takeWhile fun q => ¬ p.key ≤ q.key) = []) :
    addPoint p (head :: rest) = p :: head :: rest := by
  cases rest with
  | nil => rfl
  | cons second rest =>
      have stays : ¬ second.key < p.key := by simpa [List.takeWhile_cons] using none
      rw [addPoint, if_neg stays]

theorem addPoint_behind {p head : Point F} {rest : List (Point F)} (some : (rest.takeWhile fun q => ¬ p.key ≤ q.key) ≠ []) :
    addPoint p (head :: rest) =
      head :: (rest.takeWhile fun q => ¬ p.key ≤ q.key) ++ p :: rest.dropWhile fun q => ¬ p.key ≤ q.key := by
  cases rest with
  | nil => exact (some rfl).elim
  | cons second rest =>
      have past : second.key < p.key := by
        by_contra stays
        exact some (by simpa [List.takeWhile_cons] using stays)
      rw [addPoint, if_pos past, List.orderedInsert_eq_take_drop]
      rfl

theorem addPoint_perm (p : Point F) (l : List (Point F)) : (addPoint p l).Perm (p :: l) := by
  unfold addPoint
  split
  · exact .refl _
  · exact .refl _
  · split
    · exact ((List.perm_orderedInsert _ p _).cons _).trans (.swap _ _ _)
    · exact .refl _

theorem sorted_cons_cons {p head : Point F} {rest : List (Point F)} (sorted : Sorted (head :: rest)) :
    Sorted (p :: head :: rest) ↔ p.key ≤ head.key := by
  refine ⟨fun all => (List.pairwise_cons.mp all).1 head List.mem_cons_self, fun first => ?_⟩
  refine List.pairwise_cons.mpr ⟨fun q member => ?_, sorted⟩
  rcases List.mem_cons.mp member with rfl | behind
  · exact first
  · exact first.trans ((List.pairwise_cons.mp sorted).1 q behind)

theorem addPoint_sorted_iff {p : Point F} {l : List (Point F)} (sorted : Sorted l) : Sorted (addPoint p l) ↔ AddsInOrder p l := by
  unfold addPoint AddsInOrder
  split
  · simp [Sorted]
  · exact sorted_cons_cons sorted
  · rename_i head second rest
    obtain ⟨first, tail⟩ := List.pairwise_cons.mp sorted
    split
    · rename_i past
      refine iff_of_true ?_ (Or.inr past)
      refine List.pairwise_cons.mpr ⟨fun q member => ?_, List.Pairwise.orderedInsert p _ tail⟩
      rcases List.mem_cons.mp ((List.perm_orderedInsert _ p _).mem_iff.mp member) with rfl | behind
      · exact (first second List.mem_cons_self).trans past.le
      · exact first q behind
    · rename_i stays
      rw [sorted_cons_cons sorted, or_iff_left stays]

theorem hung_between {h : Heap (PointNode F)} {start q : Option Nat} {us vs : List Nat} {y a : Nat} {n : PointNode F}
    {p : Point F} {front back : List (Point F)} (before : Strand PointNode.next (PointNode.Shows e) h start (us ++ [y]) front q)
    (after : Strand PointNode.next (PointNode.Shows e) h q vs back none) (once : y ∉ us) (apart : y ∉ vs) (here : h.cells a = some n)
    (fresh : a ∉ us ++ [y]) (outside : a ∉ vs) (shown : n.Shows e p) :
    Strand PointNode.next (PointNode.Shows e) ((h.modify y fun n => { n with next := some a }).modify a fun n => { n with next := q })
      start (us ++ [y] ++ a :: vs) (front ++ p :: back) none := by
  have other : a ≠ y := fun same => fresh (by simp [same])
  have linked := (before.relink (f := fun n => { n with next := some a }) (r := some a) once (fun _ => rfl) fun _ _ shown => shown)
  refine (linked.modify fresh).append (.cons (c := { n with next := q }) ?_ shown ((after.modify apart).modify outside))
  rw [modify_self, modify_of_ne other, here]
  rfl

section Walk

variable [IsStrictOrderedRing F] {nodes : Heap (PointNode F)} {p : Point F}

theorem returnPrevLoop_spec {fuel current : Nat} {c : PointNode F} {cells : List Nat} {l : List (Point F)}
    (here : nodes.cells current = some c) (strand : Strand PointNode.next (PointNode.Shows e) nodes c.next cells l none)
    (enough : cells.length < fuel) :
    ∃ us y vs, current :: cells = us ++ y :: vs ∧ us.length = (l.takeWhile fun q => ¬ p.key ≤ q.key).length ∧
      returnPrevLoop nodes (e.sqrt (p.x ^ 2 + p.y ^ 2)) p.x p.y fuel current c.next = .ok y := by
  induction cells generalizing fuel current c l with
  | nil =>
      obtain ⟨rfl, last⟩ := strand.of_nil
      obtain ⟨fuel, rfl⟩ := Nat.exists_eq_succ_of_ne_zero (Nat.ne_zero_of_lt enough)
      refine ⟨[], current, [], rfl, rfl, ?_⟩
      rw [last]
      rfl
  | cons x cells ih =>
      obtain ⟨fuel, rfl⟩ := Nat.exists_eq_succ_of_ne_zero (Nat.ne_zero_of_lt enough)
      obtain ⟨n, q, m, start, next, shown, rfl, rest⟩ := strand.of_cons
      have past := goesPast_iff e shown p
      rw [start, returnPrevLoop, read_eq_ok.mpr next, Result.ok_bind]
      by_cases less : q.key < p.key
      · obtain ⟨us, y, vs, cut, count, walked⟩ := ih next rest (Nat.lt_of_succ_lt_succ enough)
        refine ⟨current :: us, y, vs, by rw [cut]; rfl, ?_, ?_⟩
        · rw [List.takeWhile_cons_of_pos (by simpa using less), List.length_cons, List.length_cons, count]
        · rw [if_pos (past.mpr less), read_eq_ok.mpr here, Result.ok_bind, start]
          exact walked
      · refine ⟨[], current, x :: cells, rfl, ?_, ?_⟩
        · rw [List.takeWhile_cons_of_neg (by simpa using less)]
          rfl
        · rw [if_neg (mt past.mp less)]
          rfl

theorem spAddPoint_holds {sp : SortedPoints F} {l : List (Point F)} (holds : sp.Holds e l) :
    ∃ sp', spAddPoint e.sqrt true true sp p.x p.y = .ok (1, sp') ∧ sp'.Holds e (addPoint p l) := by
  obtain ⟨cells, strand⟩ := holds
  let newNode : PointNode F := { p := ⟨p.x, p.y⟩, next := none, distance := e.sqrt (p.x ^ 2 + p.y ^ 2) }
  have shown : newNode.Shows e p := ⟨rfl, rfl⟩
  have fresh : (sp.nodes.alloc newNode).cells sp.nodes.next = some newNode := alloc_next
  have kept : Strand PointNode.next (PointNode.Shows e) (sp.nodes.alloc newNode) sp.head cells l none := strand.alloc
  have outside : sp.nodes.next ∉ cells := fun member => absurd (strand.below member) (Nat.lt_irrefl _)
  unfold spAddPoint
  cases cells with
  | nil =>
      obtain ⟨rfl, empty⟩ := strand.of_nil
      rw [empty]
      exact ⟨_, rfl, [sp.nodes.next], .single fresh shown⟩
  | cons head cells =>
      obtain ⟨c, first, l, start, here, headShown, rfl, rest⟩ := kept.of_cons
      have enough : cells.length < (sp.nodes.alloc newNode).next + 1 := by
        have bound := kept.length_le
        rw [List.length_cons] at bound
        omega
      obtain ⟨us, y, vs, cut, count, walked⟩ := returnPrevLoop_spec (p := p) here rest enough
      have pre : returnPrev (sp.nodes.alloc newNode) sp.head (e.sqrt (p.x ^ 2 + p.y ^ 2)) p.x p.y = .ok (some y) := by
        rw [start, returnPrev, read_eq_ok.mpr here, Result.ok_bind]
        dsimp only
        rw [walked]
        rfl
      rw [if_neg (by decide), if_neg (by decide)]
      dsimp only
      rw [pre, Result.ok_bind]
      dsimp only
      cases us with
      | nil =>
          obtain ⟨rfl, rfl⟩ := List.cons.inj cut
          rw [if_pos start.symm, store_of_some fresh]
          refine ⟨_, rfl, sp.nodes.next :: head :: cells, ?_⟩
          have changed : ((sp.nodes.alloc newNode).modify sp.nodes.next fun n => { n with next := sp.head }).cells sp.nodes.next =
              some { newNode with next := sp.head } := by
            rw [modify_self, fresh]
            rfl
          rw [addPoint_first (List.length_eq_zero_iff.mp count.symm)]
          exact .cons changed shown (kept.modify outside)
      | cons head' us =>
          rw [List.cons_append] at cut
          obtain ⟨rfl, rfl⟩ := List.cons.inj cut
          have passed : (l.takeWhile fun q => ¬ p.key ≤ q.key) ≠ [] := fun none => by
            rw [none] at count
            cases count
          have once := kept.nodup
          have shape : head :: (us ++ y :: vs) = (head :: us ++ [y]) ++ vs := by simp
          rw [shape] at kept once outside
          obtain ⟨q, front, back, whole, before, after⟩ := kept.split
          obtain ⟨_, _, _, -, -, last⟩ := before.split
          obtain ⟨cy, _, _, -, hereY, -, -, ended⟩ := last.of_cons
          have temp : cy.next = q := ended.of_nil.2
          have distinct : y ∉ head :: us ∧ y ∉ vs := by
            obtain ⟨left, right, apart⟩ := List.nodup_append.mp once
            exact ⟨fun member => (List.nodup_append.mp left).2.2 y member y List.mem_cons_self rfl, fun member =>
              apart y (by simp) y member rfl⟩
          have away : sp.nodes.next ≠ y := fun same => outside (by simp [same])
          have behind : some y ≠ sp.head := by
            rw [start]
            exact fun same => distinct.1 (Option.some.inj same ▸ List.mem_cons_self)
          have freshStill : ((sp.nodes.alloc newNode).modify y fun n => { n with next := some sp.nodes.next }).cells sp.nodes.next =
              some newNode := by
            rw [modify_of_ne away, fresh]
          rw [if_neg behind, read_eq_ok.mpr hereY, Result.ok_bind, store_of_some hereY, Result.ok_bind, store_of_some freshStill, Result.ok_bind, temp]
          have lengths : (first :: l.takeWhile fun q => ¬ p.key ≤ q.key).length = front.length := by
            rw [← before.length_eq, List.length_cons, ← count]
            simp
          have parts : first :: (l.takeWhile fun q => ¬ p.key ≤ q.key) = front ∧ (l.dropWhile fun q => ¬ p.key ≤ q.key) = back := by
            refine List.append_inj ?_ lengths
            rw [← whole, List.cons_append, List.takeWhile_append_dropWhile]
          refine ⟨_, rfl, head :: us ++ [y] ++ sp.nodes.next :: vs, ?_⟩
          rw [addPoint_behind passed, parts.1, parts.2]
          exact hung_between before after distinct.1 distinct.2 fresh (fun member => outside (List.mem_append_left _ member))
            (fun member => outside (List.mem_append_right _ member)) shown

/-- The call returns 1 and leaves the points and the new one in order. -/
def AddsSorted (e : ExactSqrt F) (sp : SortedPoints F) (l : List (Point F)) (p : Point F) : Prop :=
  ∃ sp' l', spAddPoint e.sqrt true true sp p.x p.y = .ok (1, sp') ∧ sp'.Holds e l' ∧ Sorted l' ∧ l'.Perm (p :: l)

theorem addsSorted_iff_sorted {sp : SortedPoints F} {l : List (Point F)} (holds : sp.Holds e l) :
    AddsSorted e sp l p ↔ Sorted (addPoint p l) := by
  obtain ⟨sp', added, holds'⟩ := spAddPoint_holds (p := p) holds
  refine ⟨fun ⟨sp'', l', added', held, sorted, _⟩ => ?_, fun sorted => ⟨sp', _, added, holds', sorted, addPoint_perm p l⟩⟩
  obtain ⟨-, rfl⟩ := Prod.mk.inj (Except.ok.inj (added.symm.trans added'))
  rw [holds'.unique held]
  exact sorted

theorem sp_add_point_sorted_iff {sp : SortedPoints F} {l : List (Point F)} (holds : sp.Holds e l) (sorted : Sorted l) (p : Point F) :
    AddsSorted e sp l p ↔ AddsInOrder p l :=
  (addsSorted_iff_sorted holds).trans (addPoint_sorted_iff sorted)

end Walk

def threePoints : List (Point ℝ) := [⟨0, 1⟩, ⟨0, 2⟩, ⟨3, 4⟩]

theorem threePoints_sorted : Sorted threePoints := by
  simp only [Sorted, threePoints, Point.key, List.pairwise_cons, Prod.Lex.toLex_le_toLex, List.mem_cons, List.not_mem_nil,
    or_false, forall_eq_or_imp, forall_eq]
  norm_num

/-- A point that goes between the second and the third, and one that is the new head. -/
theorem sp_add_point_sorted_iff_between : AddsSorted ExactSqrt.real (nodesOf ExactSqrt.real threePoints) threePoints ⟨2, 2⟩ ∧
    AddsSorted ExactSqrt.real (nodesOf ExactSqrt.real threePoints) threePoints ⟨-1, 0⟩ := by
  have adds := sp_add_point_sorted_iff (nodesOf_holds ExactSqrt.real threePoints) threePoints_sorted
  refine ⟨(adds ⟨2, 2⟩).mpr (Or.inr ?_), (adds ⟨-1, 0⟩).mpr (Or.inl ?_)⟩
  · rw [Point.key, Point.key, Prod.Lex.toLex_lt_toLex]
    norm_num
  · rw [Point.key, Point.key, Prod.Lex.toLex_le_toLex]
    norm_num [Prod.Lex.toLex_le_toLex]

/-- A list with one point, and a farther one: the new node becomes the head. -/
theorem sp_add_point_sorted_fails :
    ¬ ∀ (sp : SortedPoints ℝ) l, sp.Holds ExactSqrt.real l → Sorted l → ∀ p, AddsSorted ExactSqrt.real sp l p := by
  intro always
  have holds := nodesOf_holds ExactSqrt.real [⟨0, 1⟩]
  have sorted := (addsSorted_iff_sorted holds).mp (always _ _ holds (List.pairwise_singleton _ _) ⟨0, 2⟩)
  have first := (List.pairwise_cons.mp sorted).1 ⟨0, 1⟩ (List.mem_singleton.mpr rfl)
  rw [Point.key, Point.key, Prod.Lex.toLex_le_toLex] at first
  norm_num at first

end OperatingSystem.Warmup
