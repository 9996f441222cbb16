import Mathlib.Data.List.Destutter
import OperatingSystem.Warmup.Points

namespace OperatingSystem.Warmup

open Heap

variable {F : Type} [CommRing F] [LinearOrder F] {e : ExactSqrt F} {nodes : Heap (PointNode F)} {start q : Option Nat}
  {us vs cells : List Nat} {y z : Nat} {l front back : List (Point F)} {c : PointNode F}

theorem cell_of_last (strand : Strand PointNode.next (PointNode.Shows e) nodes start (us ++ [y]) l q) :
    ∃ c front b, nodes.cells y = some c ∧ c.next = q ∧ c.p = b ∧ l = front ++ [b] := by
  obtain ⟨_, front, _, rfl, -, last⟩ := strand.split
  obtain ⟨c, b, _, -, here, shown, rfl, rest⟩ := last.of_cons
  obtain ⟨rfl, ended⟩ := rest.of_nil
  exact ⟨c, front, b, here, ended, shown.1, rfl⟩

theorem unlinked (before : Strand PointNode.next (PointNode.Shows e) nodes start (us ++ [y]) front (some z))
    (after : Strand PointNode.next (PointNode.Shows e) nodes q vs back none) (once : (us ++ [y] ++ z :: vs).Nodup) :
    Strand PointNode.next (PointNode.Shows e) ((nodes.modify y fun n => { n with next := q }).free z) start (us ++ [y]) front q ∧
    Strand PointNode.next (PointNode.Shows e) ((nodes.modify y fun n => { n with next := q }).free z) q vs back none := by
  obtain ⟨left, right, apart⟩ := List.nodup_append.mp once
  have first : y ∉ us := fun member => (List.nodup_append.mp left).2.2 y member y List.mem_cons_self rfl
  have outside : z ∉ us ++ [y] := fun member => apart z member z List.mem_cons_self rfl
  have distinct : y ∉ vs := fun member => apart y (by simp) y (List.mem_cons_of_mem z member) rfl
  have linked := before.relink (f := fun n => { n with next := q }) (r := q) first (fun _ => rfl) fun _ _ shown => shown
  exact ⟨linked.free outside, (after.modify distinct).free (List.nodup_cons.mp right).1⟩

section ByIndex

variable {rounds prev : Nat}

theorem removeLoop_cursors (here : nodes.cells prev = some c)
    (strand : Strand PointNode.next (PointNode.Shows e) nodes c.next cells l none) (far : rounds < cells.length) :
    removeLoop nodes rounds c.next (some prev) = .ok (some (cells[rounds]?, (prev :: cells)[rounds]?)) := by
  induction rounds generalizing prev c cells l with
  | zero =>
      cases cells with
      | nil => cases far
      | cons x cells =>
          obtain ⟨_, _, _, next, -⟩ := strand.of_cons
          rw [next]
          rfl
  | succ rounds ih =>
      cases cells with
      | nil => cases far
      | cons x cells =>
          obtain ⟨n, _, _, next, hereX, -, rfl, rest⟩ := strand.of_cons
          have more : rounds < cells.length := Nat.lt_of_succ_lt_succ far
          have goes : n.next ≠ none := by
            intro ended
            rw [ended] at rest
            cases cells with
            | nil => cases more
            | cons w cells =>
                obtain ⟨_, _, _, other, -⟩ := rest.of_cons
                cases other
          rw [next, removeLoop, pointer, Result.ok_bind, read_eq_ok.mpr hereX, Result.ok_bind, if_neg goes, pointer, Result.ok_bind,
            read_eq_ok.mpr here, Result.ok_bind, next]
          exact ih hereX rest more

theorem removeLoop_short {x : Nat} (here : nodes.cells prev = some c)
    (strand : Strand PointNode.next (PointNode.Shows e) nodes c.next (x :: cells) l none) (short : cells.length < rounds) :
    removeLoop nodes rounds c.next (some prev) = .ok none := by
  induction cells generalizing rounds prev c x l with
  | nil =>
      obtain ⟨rounds, rfl⟩ := Nat.exists_eq_succ_of_ne_zero (Nat.ne_zero_of_lt short)
      obtain ⟨n, _, _, next, hereX, -, rfl, rest⟩ := strand.of_cons
      rw [next, removeLoop, pointer, Result.ok_bind, read_eq_ok.mpr hereX, Result.ok_bind, if_pos rest.of_nil.2]
      rfl
  | cons w cells ih =>
      obtain ⟨rounds, rfl⟩ := Nat.exists_eq_succ_of_ne_zero (Nat.ne_zero_of_lt short)
      obtain ⟨n, _, _, next, hereX, -, rfl, rest⟩ := strand.of_cons
      have goes : n.next ≠ none := by
        obtain ⟨_, _, _, other, -⟩ := rest.of_cons
        rw [other]
        exact Option.some_ne_none w
      rw [next, removeLoop, pointer, Result.ok_bind, read_eq_ok.mpr hereX, Result.ok_bind, if_neg goes, pointer, Result.ok_bind,
        read_eq_ok.mpr here, Result.ok_bind, next]
      exact ih hereX rest (Nat.lt_of_succ_lt_succ short)

/-- The call takes out the point at `index`, or nothing when there is none. -/
def RemovesIndex (e : ExactSqrt F) (sp : SortedPoints F) (l : List (Point F)) (index : Int) (ret : Point F) : Prop :=
  ∃ r ret' sp', spRemoveByIndex sp index ret = .ok (r, ret', sp') ∧
    (0 ≤ index ∧ index < l.length ∧ r = 1 ∧ l[index.toNat]? = some ret' ∧ sp'.Holds e (l.eraseIdx index.toNat) ∨
      ¬ (0 ≤ index ∧ index < l.length) ∧ r = 0 ∧ ret' = ret ∧ sp' = sp)

variable {sp : SortedPoints F} {index : Int} {ret : Point F}

theorem removes_head {head : Nat} {p : Point F}
    (strand : Strand PointNode.next (PointNode.Shows e) sp.nodes sp.head (head :: cells) (p :: l) none) :
    ∃ sp', spRemoveByIndex sp 0 ret = .ok (1, p, sp') ∧ sp'.Holds e l := by
  have once := strand.nodup
  obtain ⟨c, _, _, start, here, shown, same, rest⟩ := strand.of_cons
  obtain ⟨rfl, rfl⟩ := List.cons.inj same
  refine ⟨⟨sp.nodes.free head, c.next⟩, ?_, cells, rest.free (List.nodup_cons.mp once).1⟩
  unfold spRemoveByIndex
  rw [start]
  dsimp only
  rw [read_eq_ok.mpr here, Result.ok_bind]
  change (do
    let prev ← pointer (some head)
    let n ← sp.nodes.read prev
    pure ((1 : Int), n.p, (⟨sp.nodes.free prev, c.next⟩ : SortedPoints F))) = _
  rw [pointer, Result.ok_bind, read_eq_ok.mpr here, Result.ok_bind, shown.1]
  rfl

/-- With one node on the list the first cursor starts as a null pointer. -/
theorem removes_alone {head : Nat} (strand : Strand PointNode.next (PointNode.Shows e) sp.nodes sp.head [head] l none)
    (other : index ≠ 0) : spRemoveByIndex sp index ret = .error .null := by
  obtain ⟨c, _, _, start, here, -, -, rest⟩ := strand.of_cons
  unfold spRemoveByIndex
  rw [start]
  dsimp only
  rw [read_eq_ok.mpr here, Result.ok_bind, rest.of_nil.2]
  cases (index - 1).toNat with
  | zero =>
      rw [removeLoop, Result.ok_bind]
      dsimp only
      rw [if_neg other]
      rfl
  | succ rounds => rfl

/-- Past the head, the point `rounds + 1` nodes on is taken out, whatever sent the walk there. -/
theorem removes_behind {head : Nat} (strand : Strand PointNode.next (PointNode.Shows e) sp.nodes sp.head (head :: cells) l none)
    (other : index ≠ 0) (rounds : (index - 1).toNat + 1 < l.length) :
    ∃ p sp', spRemoveByIndex sp index ret = .ok (1, p, sp') ∧ l[(index - 1).toNat + 1]? = some p ∧
      sp'.Holds e (l.eraseIdx ((index - 1).toNat + 1)) := by
  generalize count : (index - 1).toNat = k at rounds
  have long : k + 1 < (head :: cells).length := strand.length_eq ▸ rounds
  obtain ⟨us, y, z, vs, cut, size⟩ : ∃ us y z vs, head :: cells = us ++ y :: z :: vs ∧ us.length = k := by
    refine ⟨(head :: cells).take k, (head :: cells)[k], (head :: cells)[k + 1], (head :: cells).drop (k + 2), ?_, ?_⟩
    · rw [← List.drop_eq_getElem_cons, ← List.drop_eq_getElem_cons, List.take_append_drop]
    · rw [List.length_take]
      omega
  have cursors : (cells[k]?, (head :: cells)[k]?) = (some z, some y) := by
    have second : cells[k]? = (head :: cells)[k + 1]? := rfl
    rw [second, cut, ← size]
    simp
  obtain ⟨c, _, _, start, here, -, -, rest⟩ := strand.of_cons
  have walked := removeLoop_cursors here rest (Nat.lt_of_succ_lt_succ long)
  rw [cursors] at walked
  have once := strand.nodup
  have shape : head :: cells = us ++ [y] ++ z :: vs := by rw [cut]; simp
  rw [shape] at once strand
  obtain ⟨q, front, back, rfl, before, after⟩ := strand.split
  obtain ⟨cz, b, m, rfl, hereZ, shown, rfl, tail⟩ := after.of_cons
  obtain ⟨cy, _, _, hereY, -⟩ := cell_of_last before
  have place : front.length = k + 1 := by
    rw [← before.length_eq, List.length_append, size]
    rfl
  obtain ⟨before', after'⟩ := unlinked before tail once
  refine ⟨b, ⟨(sp.nodes.modify y fun n => { n with next := cz.next }).free z, sp.head⟩, ?_, ?_, us ++ [y] ++ vs, ?_⟩
  · unfold spRemoveByIndex
    rw [start]
    dsimp only
    rw [read_eq_ok.mpr here, Result.ok_bind, count, walked, Result.ok_bind]
    dsimp only
    rw [if_neg other, pointer, Result.ok_bind, read_eq_ok.mpr hereZ, Result.ok_bind, pointer, Result.ok_bind, store_of_some hereY,
      shown.1]
    rfl
  · rw [← place]
    simp
  · rw [← place, List.eraseIdx_append_of_length_le (Nat.le_refl _)]
    simpa using before'.append after'

theorem removes_short {head x : Nat}
    (strand : Strand PointNode.next (PointNode.Shows e) sp.nodes sp.head (head :: x :: cells) l none)
    (rounds : l.length ≤ (index - 1).toNat + 1) : spRemoveByIndex sp index ret = .ok (0, ret, sp) := by
  have size := strand.length_eq
  obtain ⟨c, _, _, start, here, -, rfl, rest⟩ := strand.of_cons
  have short : cells.length < (index - 1).toNat := by
    simp only [List.length_cons] at size rounds
    omega
  unfold spRemoveByIndex
  rw [start]
  dsimp only
  rw [read_eq_ok.mpr here, Result.ok_bind, removeLoop_short here rest short]
  rfl

theorem removesIndex_of {r : Int} {ret' : Point F} {sp' : SortedPoints F} (ran : spRemoveByIndex sp index ret = .ok (r, ret', sp'))
    (removes : RemovesIndex e sp l index ret) : r = if 0 ≤ index ∧ index < l.length then 1 else 0 := by
  obtain ⟨_, _, _, same, meets⟩ := removes
  obtain ⟨rfl, rfl, rfl⟩ := Prod.mk.inj (Except.ok.inj (same.symm.trans ran)) |>.imp_right Prod.mk.inj
  rcases meets with ⟨low, high, rfl, -⟩ | ⟨range, rfl, -⟩
  · rw [if_pos ⟨low, high⟩]
  · rw [if_neg range]

theorem sp_remove_by_index_iff (holds : sp.Holds e l) (index : Int) (ret : Point F) :
    RemovesIndex e sp l index ret ↔ l = [] ∨ index = 0 ∨ 0 < index ∧ 2 ≤ l.length := by
  obtain ⟨cells, strand⟩ := holds
  have size := strand.length_eq
  constructor
  · intro removes
    by_contra outside
    simp only [not_or, not_and] at outside
    obtain ⟨some, other, few⟩ := outside
    match cells, l with
    | [], l => exact some (List.eq_nil_of_length_eq_zero size.symm)
    | [head], l =>
        obtain ⟨_, _, _, ran, -⟩ := removes
        rw [removes_alone strand other] at ran
        cases ran
    | head :: x :: cells, l =>
        simp only [List.length_cons] at size
        obtain ⟨p, sp', ran, -⟩ := removes_behind strand other (by omega)
        have first := removesIndex_of ran removes
        rw [if_neg (by omega)] at first
        cases first
  · intro inside
    cases cells with
    | nil =>
        obtain ⟨rfl, head⟩ := strand.of_nil
        refine ⟨0, ret, sp, ?_, .inr ⟨fun range => ?_, rfl, rfl, rfl⟩⟩
        · unfold spRemoveByIndex
          rw [head]
        · simp only [List.length_nil] at range
          omega
    | cons head cells =>
        obtain ⟨_, p, m, -, -, -, rfl, -⟩ := strand.of_cons
        rcases inside with empty | rfl | ⟨positive, two⟩
        · cases empty
        · obtain ⟨sp', ran, holds'⟩ := removes_head strand
          exact ⟨1, p, sp', ran, .inl ⟨le_rfl, by simp only [List.length_cons]; omega, rfl, rfl, holds'⟩⟩
        · by_cases range : index < (p :: m).length
          · have rounds : (index - 1).toNat + 1 = index.toNat := by omega
            obtain ⟨b, sp', ran, place, holds'⟩ := removes_behind strand positive.ne' (by omega)
            rw [rounds] at place holds'
            exact ⟨1, b, sp', ran, .inl ⟨positive.le, range, rfl, place, holds'⟩⟩
          · cases cells with
            | nil =>
                rw [← size] at two
                simp at two
            | cons x cells =>
                exact ⟨0, ret, sp, removes_short strand (by omega), .inr ⟨fun within => range within.2, rfl, rfl, rfl⟩⟩

/-- On a list of three points: an index inside, one past the end, and a negative one. -/
theorem sp_remove_by_index_iff_three :
    RemovesIndex ExactSqrt.real (nodesOf ExactSqrt.real [⟨0, 1⟩, ⟨0, 2⟩, ⟨3, 4⟩]) [⟨0, 1⟩, ⟨0, 2⟩, ⟨3, 4⟩] 1 ⟨0, 0⟩ ∧
    RemovesIndex ExactSqrt.real (nodesOf ExactSqrt.real [⟨0, 1⟩, ⟨0, 2⟩, ⟨3, 4⟩]) [⟨0, 1⟩, ⟨0, 2⟩, ⟨3, 4⟩] 3 ⟨0, 0⟩ ∧
    ¬ RemovesIndex ExactSqrt.real (nodesOf ExactSqrt.real [⟨0, 1⟩, ⟨0, 2⟩, ⟨3, 4⟩]) [⟨0, 1⟩, ⟨0, 2⟩, ⟨3, 4⟩] (-1) ⟨0, 0⟩ := by
  have removes (index : Int) := sp_remove_by_index_iff (nodesOf_holds ExactSqrt.real [⟨0, 1⟩, ⟨0, 2⟩, ⟨3, 4⟩]) index ⟨0, 0⟩
  simp only [removes]
  decide

/-- One point on the list, and the index behind it. -/
theorem sp_remove_by_index_fails :
    ¬ ∀ (sp : SortedPoints ℝ) l, sp.Holds ExactSqrt.real l → ∀ index ret, RemovesIndex ExactSqrt.real sp l index ret := by
  intro always
  obtain ⟨cells, strand⟩ := nodesOf_holds ExactSqrt.real [⟨0, 1⟩]
  obtain ⟨_, _, _, ran, -⟩ := always _ _ ⟨cells, strand⟩ 1 ⟨0, 0⟩
  obtain ⟨head, rfl⟩ := List.length_eq_one_iff.mp strand.length_eq
  rw [removes_alone strand one_ne_zero] at ran
  cases ran

end ByIndex

section Duplicates

theorem duplicatesLoop_spec (fuel : Nat) (counter : Int) (room : counter ≤ maxCounter) {b : Point F}
    (before : Strand PointNode.next (PointNode.Shows e) nodes start (us ++ [y]) (front ++ [b]) q)
    (after : Strand PointNode.next (PointNode.Shows e) nodes q cells l none) (enough : cells.length < fuel) :
    ∃ k : Nat, k + (l.destutter' (· ≠ ·) b).length = l.length + 1 ∧
      (counter + k ≤ maxCounter → ∃ nodes' cells', duplicatesLoop fuel nodes q (some y) counter = .ok (counter + k, nodes') ∧
        Strand PointNode.next (PointNode.Shows e) nodes' start cells' (front ++ l.destutter' (· ≠ ·) b) none) ∧
      (maxCounter < counter + k → duplicatesLoop fuel nodes q (some y) counter = .error .overflow) := by
  induction cells generalizing fuel nodes us y q front b l counter with
  | nil =>
      obtain ⟨rfl, rfl⟩ := after.of_nil
      obtain ⟨fuel, rfl⟩ := Nat.exists_eq_succ_of_ne_zero (Nat.ne_zero_of_lt enough)
      refine ⟨0, rfl, fun _ => ⟨nodes, us ++ [y], by simp [duplicatesLoop], before⟩, fun beyond => ?_⟩
      simp only [Nat.cast_zero] at beyond
      omega
  | cons x cells ih =>
      obtain ⟨fuel, rfl⟩ := Nat.exists_eq_succ_of_ne_zero (Nat.ne_zero_of_lt enough)
      have once := (before.append after).nodup
      obtain ⟨cy, front', b', hereY, link, point, shape⟩ := cell_of_last before
      obtain ⟨rfl, same⟩ := List.append_inj' shape rfl
      obtain rfl := (List.cons.inj same).1
      obtain ⟨c, p, m, rfl, here, shown, rfl, tail⟩ := after.of_cons
      have equal : (c.p.x = cy.p.x ∧ c.p.y = cy.p.y) ↔ b = p := by
        rw [point, shown.1, Point.ext_iff, @eq_comm _ b.x, @eq_comm _ b.y]
      rw [duplicatesLoop, read_eq_ok.mpr here, Result.ok_bind, pointer, Result.ok_bind, read_eq_ok.mpr hereY, Result.ok_bind]
      by_cases duplicate : b = p
      · have other : x ≠ y := fun same => (List.nodup_append.mp once).2.2 y (by simp) x List.mem_cons_self same.symm
        have hereStill : (nodes.modify y fun n => { n with next := c.next }).cells x = some c := by rw [modify_of_ne other, here]
        obtain ⟨before', after'⟩ := unlinked before tail once
        rw [if_pos (equal.mpr duplicate), List.destutter'_cons_neg _ (not_not_intro duplicate)]
        by_cases full : counter = maxCounter
        · -- the counter overflows before the node is freed
          obtain ⟨k, count, -⟩ := ih fuel maxCounter le_rfl before' after' (Nat.lt_of_succ_lt_succ enough)
          rw [if_pos full]
          refine ⟨k + 1, by rw [List.length_cons, ← count]; omega, fun fits => ?_, fun _ => rfl⟩
          rw [full, Nat.cast_succ] at fits
          omega
        · obtain ⟨k, count, fit, beyond⟩ := ih fuel (counter + 1) (by omega) before' after' (Nat.lt_of_succ_lt_succ enough)
          have shift : counter + (k + 1 : Nat) = counter + 1 + k := by
            rw [Nat.cast_succ]
            omega
          rw [if_neg full, Result.ok_bind, store_of_some hereY, Result.ok_bind, store_of_some hereStill, Result.ok_bind, free_modify]
          refine ⟨k + 1, by rw [List.length_cons, ← count]; omega, ?_, ?_⟩
          · rw [shift]
            exact fit
          · rw [shift]
            exact beyond
      · obtain ⟨k, count, fit, beyond⟩ := ih fuel counter room (before.append (.single here shown)) tail (Nat.lt_of_succ_lt_succ enough)
        rw [if_neg (mt equal.mp duplicate), link, List.destutter'_cons_pos _ duplicate]
        refine ⟨k, by rw [List.length_cons, List.length_cons, ← count]; omega, fun fits => ?_, beyond⟩
        obtain ⟨nodes', cells', ran, strand⟩ := fit fits
        exact ⟨nodes', cells', ran, by simpa using strand⟩

theorem destutter_sorted (sorted : Sorted l) : l.destutter (· ≠ ·) = l.dedup := by
  have : Std.Antisymm fun p q : Point F => p.key ≤ q.key := ⟨fun _ _ le ge => key_injective (le_antisymm le ge)⟩
  exact List.Pairwise.destutter_eq_dedup sorted

theorem spDeleteDuplicates_spec {sp : SortedPoints F} (holds : sp.Holds e l) :
    ∃ k : Nat, k + (l.destutter (· ≠ ·)).length = l.length ∧
      ((k : Int) ≤ maxCounter → ∃ sp', spDeleteDuplicates sp = .ok (k, sp') ∧ sp'.Holds e (l.destutter (· ≠ ·))) ∧
      (maxCounter < k → spDeleteDuplicates sp = .error .overflow) := by
  obtain ⟨cells, strand⟩ := holds
  cases cells with
  | nil =>
      obtain ⟨rfl, head⟩ := strand.of_nil
      exact ⟨0, rfl, fun _ => ⟨sp, by rw [spDeleteDuplicates, head]; rfl, [], strand⟩, fun beyond => absurd beyond (by decide)⟩
  | cons head cells =>
      have bound := strand.length_le
      obtain ⟨c, p, m, start, here, shown, rfl, rest⟩ := strand.of_cons
      have first : Strand PointNode.next (PointNode.Shows e) sp.nodes sp.head ([] ++ [head]) ([] ++ [p]) c.next :=
        start ▸ .single here shown
      obtain ⟨k, count, fit, beyond⟩ := duplicatesLoop_spec (sp.nodes.next + 1) 0 (by decide) first rest (by
        rw [List.length_cons] at bound
        omega)
      rw [zero_add] at fit beyond
      refine ⟨k, count, fun fits => ?_, fun long => ?_⟩
      · obtain ⟨nodes', cells', ran, final⟩ := fit fits
        refine ⟨⟨nodes', sp.head⟩, ?_, cells', final⟩
        rw [spDeleteDuplicates, start]
        dsimp only
        rw [read_eq_ok.mpr here, Result.ok_bind, ran]
        rfl
      · rw [spDeleteDuplicates, start]
        dsimp only
        rw [read_eq_ok.mpr here, Result.ok_bind, beyond long]
        rfl

def Deduplicates (e : ExactSqrt F) (sp : SortedPoints F) (l : List (Point F)) : Prop :=
  ∃ n sp' l', spDeleteDuplicates sp = .ok (n, sp') ∧ sp'.Holds e l' ∧ l'.Nodup ∧ (∀ p, p ∈ l' ↔ p ∈ l) ∧ Sorted l' ∧
    n + l'.length = l.length

theorem sp_delete_duplicates_iff {sp : SortedPoints F} (holds : sp.Holds e l) (sorted : Sorted l) :
    Deduplicates e sp l ↔ (l.length : Int) ≤ l.dedup.length + maxCounter := by
  obtain ⟨k, count, fit, beyond⟩ := spDeleteDuplicates_spec holds
  rw [destutter_sorted sorted] at fit count
  constructor
  · rintro ⟨n, sp', l', ran, -⟩
    by_contra long
    rw [beyond (by omega)] at ran
    cases ran
  · intro fits
    obtain ⟨sp', ran, holds'⟩ := fit (by omega)
    exact ⟨k, sp', l.dedup, ran, holds', l.nodup_dedup, fun _ => List.mem_dedup, sorted.sublist l.dedup_sublist, by omega⟩

/-- A run of three equal points, and one of two. -/
theorem sp_delete_duplicates_iff_runs :
    Deduplicates ExactSqrt.real (nodesOf ExactSqrt.real [⟨0, 1⟩, ⟨0, 1⟩, ⟨0, 1⟩, ⟨3, 4⟩, ⟨3, 4⟩])
      [⟨0, 1⟩, ⟨0, 1⟩, ⟨0, 1⟩, ⟨3, 4⟩, ⟨3, 4⟩] := by
  refine (sp_delete_duplicates_iff (nodesOf_holds _ _) ?_).mpr ?_
  · simp only [Sorted, Point.key, List.pairwise_cons, Prod.Lex.toLex_le_toLex, List.mem_cons, List.not_mem_nil,
      or_false, forall_eq_or_imp, forall_eq]
    norm_num
  · have positive : (0 : Int) ≤ (List.dedup [⟨0, 1⟩, ⟨0, 1⟩, ⟨0, 1⟩, ⟨3, 4⟩, (⟨3, 4⟩ : Point ℝ)]).length := Int.natCast_nonneg _
    have five : (5 : Int) ≤ maxCounter := by decide
    simp only [List.length_cons, List.length_nil]
    omega

theorem sorted_replicate (n : Nat) (p : Point F) : Sorted (List.replicate n p) :=
  List.pairwise_replicate.mpr (Or.inr le_rfl)

/-- One point more often than the counter can say. -/
theorem sp_delete_duplicates_fails :
    ¬ ∀ (sp : SortedPoints ℝ) l, sp.Holds ExactSqrt.real l → Sorted l → Deduplicates ExactSqrt.real sp l := by
  intro always
  have holds (n : Nat) := nodesOf_holds ExactSqrt.real (List.replicate n ⟨0, 1⟩)
  have sorted (n : Nat) : Sorted (List.replicate n (⟨0, 1⟩ : Point ℝ)) := sorted_replicate n _
  have fits (n : Nat) := (sp_delete_duplicates_iff (holds n) (sorted n)).mp (always _ _ (holds n) (sorted n))
  have long := fits (2 ^ 31 + 1)
  rw [List.replicate_dedup (by decide), List.length_replicate] at long
  exact absurd long (by decide)

end Duplicates

end OperatingSystem.Warmup
